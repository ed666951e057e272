import LearnGit.ForStd.Transition
import LearnGit.Native.RaftNode

/-!
# A cluster of RaftNode instances

`RaftService` connects one `RaftNode` per process to its peers. The model of the
whole is a step relation over the states of all nodes and the packets in flight:
a timer fires, a client command is proposed, a packet arrives or is lost. Packets
stay in flight until then, so they arrive late and in any order, and each arrives
at most once. There is no crash and no restart.
-/

namespace Dkv

/-- The nodes of one cluster and the peer list of each of them. `main` starts a
    node in cluster mode only with a non-zero id, and `RaftService` hands each
    node the ids of all others, in the order of an `unordered_map`. -/
structure Membership where
  ids : Finset Nat
  zero_notMem : 0 ∉ ids
  peerIds : Nat → List Nat
  nodup_peerIds : ∀ i ∈ ids, (peerIds i).Nodup
  mem_peerIds : ∀ i ∈ ids, ∀ j, j ∈ peerIds i ↔ j ∈ ids ∧ j ≠ i

/-- The cluster with the ids from 1 to `size`. -/
def Membership.ofSize (size : Nat) : Membership where
  ids := Finset.Icc 1 size
  zero_notMem := by simp
  peerIds i := (List.range' 1 size).filter (· ≠ i)
  nodup_peerIds _ _ := List.Nodup.filter _ (List.nodup_range' ..)
  mem_peerIds i _ j := by
    simp only [List.mem_filter, List.mem_range'_1, decide_eq_true_eq, Finset.mem_Icc]
    omega

/-- A message on its way. A reply travels back on the connection of its request. -/
structure Packet where
  src : Nat
  dst : Nat
  msg : RaftMessage
deriving DecidableEq, Repr

/-- What can happen to one node. -/
inductive Input where
  | tick
  | propose (command : Bytes)
  | message (fromNode : Nat) (msg : RaftMessage)
deriving DecidableEq, Repr

/-- One atomic step of a node and the reply it answers a request with. -/
def RaftNode.react (n : RaftNode) (env : Env) : Input → RaftNode × Option RaftMessage
  | .tick => (n.tick env, none)
  | .propose command => ((n.propose command).1, none)
  | .message fromNode msg => n.handleRaftMessage env fromNode msg

/-- The callbacks a node invoked between two states. -/
def RaftNode.newCalls (n n' : RaftNode) : List Call := n'.calls.drop n.calls.length

/-- The packet an invocation of `rpcSender_` puts in flight. -/
def Call.packet (src : Nat) : Call → Option Packet
  | .send peerId msg => some ⟨src, peerId, msg⟩
  | _ => none

/-- All node states, indexed by node id, and the packets in flight. -/
structure Cluster where
  nodes : Nat → RaftNode
  net : List Packet

/-- An upper bound of `log_.max_size()`: a `std::vector` that would outgrow it
    throws, which ends the process. -/
def maxLogSize : Nat := 2 ^ 63 - 1

namespace Cluster

/-- Node `i` reacts to an input while the packets `net` are in flight. What it
    sends and its reply to `replyTo` are put in flight behind them. -/
def act (c : Cluster) (i : Nat) (env : Env) (input : Input) (net : List Packet) :
    Option Cluster :=
  let n := c.nodes i
  let r := n.react env input
  let sent := (r.1.calls.drop n.calls.length).filterMap (Call.packet i)
  let reply := match input, r.2 with
    | .message fromNode _, some msg => [⟨i, fromNode, msg⟩]
    | _, _ => []
  if r.1.log.length ≤ maxLogSize then
    some { nodes := Function.update c.nodes i r.1, net := net ++ sent ++ reply }
  else none

end Cluster

/-- The steps of a cluster. -/
inductive Event where
  | tick (id : Nat) (env : Env)
  | propose (id : Nat) (env : Env) (command : Bytes)
  | deliver (p : Packet) (env : Env)
  | lose (p : Packet)

def Cluster.step (M : Membership) (c : Cluster) : Event → Option Cluster
  | .tick id env => if id ∈ M.ids then c.act id env .tick c.net else none
  | .propose id env command =>
    if id ∈ M.ids then c.act id env (.propose command) c.net else none
  | .deliver p env =>
    if p.dst ∈ M.ids ∧ p ∈ c.net then
      c.act p.dst env (.message p.src p.msg) (c.net.erase p)
    else none
  | .lose p => some { c with net := c.net.erase p }

/-- The cluster as a transition system: freshly constructed nodes, nothing in flight. -/
def raftSystem (M : Membership) : Transition.System Cluster Event where
  init c := (∀ i ∈ M.ids, ∃ env, c.nodes i = RaftNode.new i (M.peerIds i) env) ∧ c.net = []
  step c e := c.step M e

/-- All nodes constructed in the same surroundings. -/
def Cluster.start (M : Membership) (env : Env) : Cluster where
  nodes i := RaftNode.new i (M.peerIds i) env
  net := []

theorem Cluster.start_init (M : Membership) (env : Env) :
    (raftSystem M).init (Cluster.start M env) :=
  ⟨fun _ _ => ⟨env, rfl⟩, rfl⟩

/-- The surroundings at a point in time, with the shortest election timeout. -/
def atTime (now : Nat) : Env := ⟨now, 150, by decide⟩

/-- The history and the state of a cluster of `size` nodes after the steps `es`. -/
def schedule (size : Nat) (es : List Event) : Option (List (Cluster × Event) × Cluster) :=
  (raftSystem (.ofSize size)).exec [] (.start (.ofSize size) (atTime 0)) es

theorem schedule_run {size : Nat} {es : List Event} (hsome : (schedule size es).isSome) :
    Transition.Run (raftSystem (.ofSize size)) ((schedule size es).get hsome).1
      ((schedule size es).get hsome).2 :=
  Transition.Run.of_exec (Cluster.start_init _ _) hsome

end Dkv
