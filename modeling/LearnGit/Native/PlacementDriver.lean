import LearnGit.ForStd.Transition
import LearnGit.Native.PdServer

/-!
# The placement driver over time

Requests and timer callbacks reach the placement driver one after the other, each at a
time that is not before the last one.
-/

namespace Dkv

/-- The server and the time of the last event. -/
structure PlacementDriver where
  server : PdServer
  clock : Int

inductive PdEvent where
  | registerNode (now : Int) (req : RegisterNodeRequest)
  | heartbeat (now : Int) (req : HeartbeatRequest)
  | tick (now : Int) (order : List Nat)

def PdEvent.now : PdEvent → Int
  | .registerNode now _ => now
  | .heartbeat now _ => now
  | .tick now _ => now

namespace PlacementDriver

/-- The nodes the server knows of. -/
def nodes (s : PlacementDriver) : Std.ExtTreeMap Nat ShardManager.NodeState :=
  s.server.shardMgr.nodes

/-- The server's reaction to an event. -/
def react (s : PlacementDriver) : PdEvent → PdServer
  | .registerNode now req => s.server.handleRegisterNode now req
  | .heartbeat now req => s.server.handleHeartbeat now req
  | .tick now order => s.server.tick now order

/-- The event can happen next: the clock does not run backwards, and a timer callback goes
    through the nodes there are. -/
def Enabled (s : PlacementDriver) (e : PdEvent) : Prop :=
  s.clock ≤ e.now ∧
    match e with
    | .tick _ order => s.server.shardMgr.IterationOrder order
    | _ => True

instance (s : PlacementDriver) (e : PdEvent) : Decidable (s.Enabled e) := by
  cases e <;> unfold Enabled <;> infer_instance

def step (s : PlacementDriver) (e : PdEvent) : Option PlacementDriver :=
  if s.Enabled e then some { server := s.react e, clock := e.now } else none

end PlacementDriver

/-- The placement driver as a transition system. -/
def pdSystem : Transition.System PlacementDriver PdEvent where
  init s := ∃ numShards replicaCount, s.server = .new numShards replicaCount
  step := PlacementDriver.step

/-- The history and the state of a placement driver that starts at time zero with one
    shard, after the events `es`. -/
def pdSchedule (es : List PdEvent) :
    Option (List (PlacementDriver × PdEvent) × PlacementDriver) :=
  pdSystem.exec [] { server := .new 1 3, clock := 0 } es

theorem pdSchedule_run {es : List PdEvent} (hsome : (pdSchedule es).isSome) :
    Transition.Run pdSystem ((pdSchedule es).get hsome).1 ((pdSchedule es).get hsome).2 :=
  Transition.Run.of_exec (S := pdSystem) ⟨1, 3, rfl⟩ hsome

end Dkv
