import LearnGit.Native.KvService

/-!
# A cluster of data nodes

The Raft cluster with an engine below each node and the client requests that reach
them. A write request is a proposal at its node; the callbacks a node invokes in a
step run on its own engine. Reads change nothing.
-/

namespace Dkv

/-- The Raft nodes, the packets between them and the engine of each node. -/
structure DataCluster where
  raft : Cluster
  engines : Nat → RocksEngine

/-- The steps of a cluster of data nodes. -/
inductive DataEvent where
  | tick (id : Nat) (env : Env)
  | deliver (p : Packet) (env : Env)
  | lose (p : Packet)
  | put (id : Nat) (env : Env) (req : PutRequest)
  | delete (id : Nat) (env : Env) (req : DeleteRequest)
  | get (id : Nat) (req : GetRequest)
  | scan (id : Nat) (req : ScanRequest)

/-- What a step is for the Raft nodes. -/
def DataEvent.raftEvent (pb : Protobuf) : DataEvent → Option Event
  | .tick id env => some (.tick id env)
  | .deliver p env => some (.deliver p env)
  | .lose p => some (.lose p)
  | .put id env req => some (.propose id env (pb.serializeRpc req.command))
  | .delete id env req => some (.propose id env (pb.serializeRpc req.command))
  | .get _ _ => none
  | .scan _ _ => none

namespace DataCluster

/-- Data node `i` of the cluster; `addrs i` is its address book. -/
def node (c : DataCluster) (addrs : Nat → Nat → Option Bytes) (i : Nat) : DataNode where
  engine := c.engines i
  raft := some (c.raft.nodes i)
  peerAddrs := addrs i

def step (pb : Protobuf) (M : Membership) (c : DataCluster) (e : DataEvent) :
    Option DataCluster :=
  match e.raftEvent pb with
  | some e =>
    (c.raft.step M e).map fun raft =>
      { raft := raft
        engines := fun i => RaftService.runCalls pb (c.engines i)
          ((c.raft.nodes i).newCalls (raft.nodes i)) }
  | none => some c

/-- Fresh nodes over empty engines. -/
def start (M : Membership) (env : Env) : DataCluster where
  raft := .start M env
  engines _ := .empty

end DataCluster

/-- The cluster of data nodes as a transition system. -/
def dataSystem (pb : Protobuf) (M : Membership) : Transition.System DataCluster DataEvent where
  init c := (raftSystem M).init c.raft ∧ ∀ i, c.engines i = .empty
  step c e := c.step pb M e

theorem DataCluster.start_init (pb : Protobuf) (M : Membership) (env : Env) :
    (dataSystem pb M).init (DataCluster.start M env) :=
  ⟨Cluster.start_init M env, fun _ => rfl⟩

/-- The history and the state of a cluster of `size` data nodes after the steps `es`. -/
def dataSchedule (pb : Protobuf) (size : Nat) (es : List DataEvent) :
    Option (List (DataCluster × DataEvent) × DataCluster) :=
  (dataSystem pb (.ofSize size)).exec [] (.start (.ofSize size) (atTime 0)) es

theorem dataSchedule_run {pb : Protobuf} {size : Nat} {es : List DataEvent}
    (hsome : (dataSchedule pb size es).isSome) :
    Transition.Run (dataSystem pb (.ofSize size)) ((dataSchedule pb size es).get hsome).1
      ((dataSchedule pb size es).get hsome).2 :=
  Transition.Run.of_exec (DataCluster.start_init _ _ _) hsome

end Dkv
