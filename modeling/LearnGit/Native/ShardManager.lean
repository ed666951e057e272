import LearnGit.Native.PdRpc
import LearnGit.Native.RaftNode

/-!
# ShardManager

The public operations of `src/pd_server/shard_manager.cpp`. Each one holds the mutex for its
whole body. The clock is an input of the operations that
read it, and the order in which a loop meets the nodes is an input of those that go
through the hash map.
-/

namespace Dkv

namespace ShardManager

structure NodeState where
  nodeId : Nat
  ip : Bytes
  port : UInt32
  shardCount : UInt32 := 0
  leaderCount : UInt32 := 0
  alive : Bool := true
  lastHeartbeat : Int := 0
deriving DecidableEq, Repr

structure ShardState where
  shardId : Nat
  startKey : Bytes
  endKey : Bytes
  epoch : Nat := 1
  leaderNodeId : Nat := 0
  peerNodeIds : List Nat := []
deriving DecidableEq, Repr

end ShardManager

structure ShardManager where
  nodes : Std.ExtTreeMap Nat ShardManager.NodeState := ∅
  nextNodeId : Nat := 1
  shards : List ShardManager.ShardState := []

namespace ShardManager

/-- The id the node gets, and the manager that knows of it. -/
def registerNode (m : ShardManager) (now : Int) (info : NodeInfo) : Nat × ShardManager :=
  let id := m.nextNodeId
  let ns : NodeState := { nodeId := id, ip := info.ip, port := info.port, lastHeartbeat := now }
  (id, { m with nodes := m.nodes.insert id ns, nextNodeId := u64 (id + 1) })

def processHeartbeat (m : ShardManager) (now : Int) (nodeId : UInt64)
    (state : HeartbeatRequest.ShardState) : ShardManager :=
  match m.nodes[nodeId.toNat]? with
  | none => m
  | some ns =>
    let ns := { ns with
      alive := true
      lastHeartbeat := now
      leaderCount := if state.isLeader then 1 else 0 }
    { m with nodes := m.nodes.insert nodeId.toNat ns }

def getShardMap (m : ShardManager) : ShardMap where
  version := 1
  shards := m.shards.map fun s =>
    { shardId := s.shardId
      startKey := s.startKey
      endKey := s.endKey
      epoch := s.epoch
      leaderNodeId := s.leaderNodeId
      peerNodeIds := s.peerNodeIds }

/-! ## Dead nodes -/

/-- An order in which a loop over `nodes_` can meet the nodes. -/
def IterationOrder (m : ShardManager) (order : List Nat) : Prop := order.Perm m.nodes.keys

instance (m : ShardManager) (order : List Nat) : Decidable (m.IterationOrder order) :=
  inferInstanceAs (Decidable (order.Perm m.nodes.keys))

/-- A node that is believed alive has been silent for more than ten seconds. -/
def NodeState.isSilent (ns : NodeState) (now : Int) : Bool :=
  ns.alive && decide (now - ns.lastHeartbeat > 10)

/-- The ids of the nodes that are found dead, and the manager that has marked them. -/
def getDeadNodes (m : ShardManager) (now : Int) : List Nat → List Nat × ShardManager
  | [] => ([], m)
  | id :: order =>
    match m.nodes[id]? with
    | none => m.getDeadNodes now order
    | some ns =>
      if ns.isSilent now then
        let m := { m with nodes := m.nodes.insert id { ns with alive := false } }
        let r := m.getDeadNodes now order
        (id :: r.1, r.2)
      else m.getDeadNodes now order

/-! ## Shards -/

/-- The key that begins with shard number `i` of `numShards`. -/
def splitKey (numShards i : Nat) : Bytes := [UInt8.ofNat (97 + i * (26 / numShards))]

/-- `initShards`, which does not read `replicaCount`. -/
def initShards (m : ShardManager) (numShards _replicaCount : Nat) : ShardManager :=
  { m with
    shards := (List.range numShards).map fun i =>
      { shardId := i + 1
        startKey := splitKey numShards i
        endKey := if i + 1 < numShards then splitKey numShards (i + 1) else [] } }

/-- The shard with the node among its replicas. -/
def ShardState.assigned (s : ShardState) (nodeId : Nat) (isLeader : Bool) : ShardState :=
  let s := if isLeader then { s with leaderNodeId := nodeId } else s
  if nodeId ∈ s.peerNodeIds then s
  else { s with peerNodeIds := s.peerNodeIds ++ [nodeId] }

/-- The loop of `assignShard`, which ends at the first shard with the id. -/
def assignIn (shardId nodeId : Nat) (isLeader : Bool) : List ShardState → List ShardState
  | [] => []
  | s :: shards =>
    if s.shardId = shardId then s.assigned nodeId isLeader :: shards
    else s :: assignIn shardId nodeId isLeader shards

def assignShard (m : ShardManager) (shardId nodeId : Nat) (isLeader : Bool) : ShardManager :=
  { m with shards := assignIn shardId nodeId isLeader m.shards }

/-- The node that gets the next replica of a shard with the replicas `peers`: the first
    node of `aliveNodes`, unless one with fewer shards is not a replica yet. -/
def bestNode (counts : Nat → Nat) (peers : List Nat) (first : Nat) (aliveNodes : List Nat) : Nat :=
  (aliveNodes.foldl (fun r nid =>
    if counts nid < r.2 ∧ nid ∉ peers then (nid, counts nid) else r) (first, counts first)).1

/-- `n` rounds of the loop that adds replicas to a shard. -/
def addReplicas (first : Nat) (aliveNodes : List Nat) :
    Nat → (Nat → Nat) → List Nat → (Nat → Nat) × List Nat
  | 0, counts, peers => (counts, peers)
  | n + 1, counts, peers =>
    let best := bestNode counts peers first aliveNodes
    addReplicas first aliveNodes n (fun nid => if nid = best then counts nid + 1 else counts nid)
      (peers ++ [best])

/-- The last loop of `scheduleRebalance`. Each round adds one replica, so a shard gets as
    many rounds as it lacks replicas. -/
def assignReplicas (first : Nat) (aliveNodes : List Nat) :
    (Nat → Nat) → List ShardState → List ShardState
  | _, [] => []
  | counts, s :: shards =>
    let r := addReplicas first aliveNodes (min 3 aliveNodes.length - s.peerNodeIds.length) counts
      s.peerNodeIds
    { s with peerNodeIds := r.2 } :: assignReplicas first aliveNodes r.1 shards

/-- A shard without a leader gets its first replica as the leader. -/
def ShardState.withLeader (s : ShardState) : ShardState :=
  match s.peerNodeIds with
  | pid :: _ => if s.leaderNodeId = 0 then { s with leaderNodeId := pid } else s
  | [] => s

def scheduleRebalance (m : ShardManager) (order : List Nat) : ShardManager :=
  match order.filter fun id => m.nodes[id]?.any NodeState.alive with
  | [] => m
  | first :: others =>
    let aliveNodes := first :: others
    let counts := fun nid => (m.shards.flatMap ShardState.peerNodeIds).count nid
    { m with shards := assignReplicas first aliveNodes counts (m.shards.map .withLeader) }

/-! ## Initial nodes -/

/-- The loop of `setInitialNodes`. The port of a node is never initialised, so it is what the
    memory held; the address book is read by nobody. -/
def setInitialNodes (m : ShardManager) (nodeIds : List Nat) (port : UInt32) : ShardManager :=
  nodeIds.foldl (fun m id => { m with
    nodes := m.nodes.insert id { nodeId := id, ip := [], port := port }
    nextNodeId := if id ≥ m.nextNodeId then u64 (id + 1) else m.nextNodeId }) m

end ShardManager

end Dkv
