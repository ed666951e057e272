import LearnGit.ForStd.Transition
import LearnGit.Native.ShardManager

/-!
# The shard manager over time

Anybody may call the public operations in any order, and the clock may be set in between.
-/

namespace Dkv

/-- A call of a public operation. -/
inductive ShardOp where
  | registerNode (now : Int) (info : NodeInfo)
  | processHeartbeat (now : Int) (nodeId : UInt64) (state : HeartbeatRequest.ShardState)
  | getDeadNodes (now : Int) (order : List Nat)
  | initShards (numShards replicaCount : Nat)
  | assignShard (shardId nodeId : Nat) (isLeader : Bool)
  | scheduleRebalance (order : List Nat)
  | setInitialNodes (nodeIds : List Nat) (port : UInt32)

namespace ShardManager

def perform (m : ShardManager) : ShardOp → ShardManager
  | .registerNode now info => (m.registerNode now info).2
  | .processHeartbeat now nodeId state => m.processHeartbeat now nodeId state
  | .getDeadNodes now order => (m.getDeadNodes now order).2
  | .initShards numShards replicaCount => m.initShards numShards replicaCount
  | .assignShard shardId nodeId isLeader => m.assignShard shardId nodeId isLeader
  | .scheduleRebalance order => m.scheduleRebalance order
  | .setInitialNodes nodeIds port => m.setInitialNodes nodeIds port

/-- The loops over `nodes_` go through the nodes there are. -/
def Enabled (m : ShardManager) : ShardOp → Prop
  | .getDeadNodes _ order => m.IterationOrder order
  | .scheduleRebalance order => m.IterationOrder order
  | _ => True

instance (m : ShardManager) (op : ShardOp) : Decidable (m.Enabled op) := by
  cases op <;> unfold Enabled <;> infer_instance

def step (m : ShardManager) (op : ShardOp) : Option ShardManager :=
  if m.Enabled op then some (m.perform op) else none

end ShardManager

/-- A shard manager as a transition system. -/
def shardSystem : Transition.System ShardManager ShardOp where
  init m := m = {}
  step := ShardManager.step

/-- The history and the state of a shard manager after the calls `ops`. -/
def shardSchedule (ops : List ShardOp) : Option (List (ShardManager × ShardOp) × ShardManager) :=
  shardSystem.exec [] {} ops

theorem shardSchedule_run {ops : List ShardOp} (hsome : (shardSchedule ops).isSome) :
    Transition.Run shardSystem ((shardSchedule ops).get hsome).1
      ((shardSchedule ops).get hsome).2 :=
  Transition.Run.of_exec (S := shardSystem) rfl hsome

end Dkv
