import LearnGit.Native.CrashingNode

/-!
# A cluster of nodes that crash

The nodes of one cluster, each with its engine, and the packets in flight. A node handles
an input to the end or crashes on the way. What it has sent by then is in flight, and the
packets in flight outlive the crash of their sender and that of their receiver.
-/

namespace Dkv

/-- The packet that an input of node `i` takes out of flight. -/
def Input.packet? (i : Nat) : Input → Option Packet
  | .message fromNode msg => some ⟨fromNode, i, msg⟩
  | _ => none

/-- The packet that a message of node `i` becomes. An answer goes where the input came
    from. -/
def SentMessage.packet (i : Nat) (input : Input) : SentMessage → Option Packet
  | .toPeer peerId msg => some ⟨i, peerId, msg⟩
  | .answer _ response => (input.packet? i).map fun p => ⟨i, p.src, response⟩

/-- All nodes, indexed by node id, and the packets in flight. -/
structure CrashingCluster where
  nodes : Nat → CrashingNode
  net : List Packet

namespace CrashingCluster

/-- The steps of a cluster. -/
inductive Event where
  | node (id : Nat) (e : CrashEvent)
  | lose (p : Packet)

/-- The packets that stay in flight while node `i` handles an input. -/
def rest (c : CrashingCluster) (i : Nat) (input : Input) : List Packet :=
  match input.packet? i with
  | some p => c.net.erase p
  | none => c.net

def step (pb : Protobuf) (M : Membership) (c : CrashingCluster) : Event → Option CrashingCluster
  | .node id e =>
    let n := c.nodes id
    let input := e.handled.2
    if id ∈ M.ids ∧ (∀ p ∈ input.packet? id, p ∈ c.net) ∧
        (n.node.react e.handled.1 input).1.log.length ≤ maxLogSize then
      (n.step pb e).map fun n' =>
        { nodes := Function.update c.nodes id n'
          net := c.rest id input ++
            (n'.lasting.sent.drop n.lasting.sent.length).filterMap (SentMessage.packet id input) }
    else none
  | .lose p => some { c with net := c.net.erase p }

/-- All nodes start for the first time in the same surroundings. -/
def start (M : Membership) (env : Env) : CrashingCluster where
  nodes i := .start i (M.peerIds i) env
  net := []

end CrashingCluster

/-- The cluster as a transition system: nodes with empty engines, nothing in flight. -/
def crashingSystem (pb : Protobuf) (M : Membership) :
    Transition.System CrashingCluster CrashingCluster.Event where
  init c := (∀ i ∈ M.ids, ∃ env, c.nodes i = .start i (M.peerIds i) env) ∧ c.net = []
  step c e := c.step pb M e

/-- The history and the state of a cluster of `size` nodes after the steps `es`. -/
def crashingSchedule (pb : Protobuf) (size : Nat) (es : List CrashingCluster.Event) :
    Option (List (CrashingCluster × CrashingCluster.Event) × CrashingCluster) :=
  (crashingSystem pb (.ofSize size)).exec [] (.start (.ofSize size) (atTime 0)) es

theorem CrashingCluster.start_init (pb : Protobuf) (M : Membership) (env : Env) :
    (crashingSystem pb M).init (.start M env) :=
  ⟨fun _ _ => ⟨env, rfl⟩, rfl⟩

theorem crashingSchedule_run {pb : Protobuf} {size : Nat} {es : List CrashingCluster.Event}
    (hsome : (crashingSchedule pb size es).isSome) :
    Transition.Run (crashingSystem pb (.ofSize size)) ((crashingSchedule pb size es).get hsome).1
      ((crashingSchedule pb size es).get hsome).2 :=
  Transition.Run.of_exec (CrashingCluster.start_init _ _ _) hsome

end Dkv
