import LearnGit.Native.FrameCodec
import LearnGit.Native.RaftCluster
import LearnGit.Native.RaftProtobuf

/-!
# Raft over TCP connections

How `src/data_node/raft_service.cpp` and `src/data_node/data_server.cpp` carry Raft
messages. Each node opens one connection to the server of each peer and sends its requests
there; the server answers on the connection a request came from. What is written to a
connection arrives in order and in chunks of any size. A connection that one side has
closed is not opened again, and bytes that never arrive are lost.
-/

namespace Dkv

/-- A table with a row and a column for each node, with one cell changed. -/
def update₂ {α : Type*} (f : Nat → Nat → α) (i j : Nat) (a : α) : Nat → Nat → α :=
  Function.update f i (Function.update (f i) j a)

theorem update₂_apply {α : Type*} (f : Nat → Nat → α) (i j : Nat) (x : α) (a b : Nat) :
    update₂ f i j x a b = if a = i ∧ b = j then x else f a b := by
  unfold update₂
  by_cases ha : a = i
  · subst ha
    rw [Function.update_self, Function.update_apply]
    simp
  · rw [Function.update_of_ne ha, if_neg fun h => ha h.1]

/-- One side's view of a connection. -/
inductive Phase where
  | connecting
  | connected
  | closed
deriving DecidableEq, Repr

/-- The connection of a node to the server of a peer, and the bytes under way on it. -/
structure Connection where
  client : Phase := .connecting
  server : Phase := .connecting
  toServer : Bytes := []
  toClient : Bytes := []

/-- All nodes and the connections between them: `conns i j` is the one that node `i` opens
    to the server of node `j`. -/
structure Links where
  nodes : Nat → RaftNode
  conns : Nat → Nat → Connection
  /-- Everything that was handed to a connection. -/
  handed : List RaftMessage

/-- `fromNode` as `DataServer::onMessage` reads it off a request. -/
def RaftMessage.requester : RaftMessage → Option Nat
  | .requestVote req => some req.candidateId
  | .appendEntries req => some req.leaderId
  | _ => none

namespace Links

variable (pb : RaftProtobuf)

def setConn (l : Links) (i j : Nat) (c : Connection) : Links :=
  { l with conns := update₂ l.conns i j c }

/-- A peer that is not connected gets nothing. -/
def sendRaftRpc (l : Links) (i peerId : Nat) (msg : RaftMessage) : Links :=
  let c := l.conns i peerId
  let l := { l with handed := l.handed ++ [msg] }
  if c.client = .connected then
    l.setConn i peerId { c with
      toServer := c.toServer ++ RaftService.sendRaftRpc (pb.serialize msg) }
  else l

/-- `conn->send` of the server of node `j` on the connection from node `i`. -/
def answer (l : Links) (i j : Nat) (msg : RaftMessage) : Links :=
  let c := l.conns i j
  let l := { l with handed := l.handed ++ [msg] }
  if c.server = .connected then
    l.setConn i j { c with
      toClient := c.toClient ++ RaftService.sendRaftRpc (pb.serialize msg) }
  else l

/-- What an invocation of `rpcSender_` does. -/
def runCall (i : Nat) (l : Links) : Call → Links
  | .send peerId msg => l.sendRaftRpc pb i peerId msg
  | _ => l

/-- Node `i` reacts to an input and sends to its peers. -/
def act (l : Links) (i : Nat) (env : Env) (input : Input) : Option (Links × Option RaftMessage) :=
  let n := l.nodes i
  let r := n.react env input
  if r.1.log.length ≤ maxLogSize then
    some (((n.newCalls r.1).foldl (runCall pb i)
      { l with nodes := Function.update l.nodes i r.1 }), r.2)
  else none

/-- What node `j` does with a frame on the connection from node `i`. A peer sends no client
    messages. The surroundings are taken off `envs`, one for each message. -/
def onServerFrame (i j : Nat) (s : Option (Links × List Env)) (type : UInt8) (payload : Bytes) :
    Option (Links × List Env) :=
  match s with
  | none => none
  | some (l, envs) =>
    if type = 0x01 then
      match pb.parse payload with
      | none => some (l, envs)
      | some msg =>
        match envs with
        | [] => none
        | env :: envs =>
          match l.act pb j env (.message (msg.requester.getD 0) msg) with
          | none => none
          | some (l, none) => some (l, envs)
          | some (l, some response) => some (l.answer pb i j response, envs)
    else some (l, envs)

/-- What node `i` does with a frame on its connection to the server of node `j`. -/
def onClientFrame (i j : Nat) (s : Option (Links × List Env)) (payload : Bytes) :
    Option (Links × List Env) :=
  match s with
  | none => none
  | some (l, envs) =>
    match pb.parse payload with
    | none => some (l, envs)
    | some msg =>
      match envs with
      | [] => none
      | env :: envs =>
        match l.act pb i env (.message j msg) with
        | none => none
        | some (l, none) => some (l, envs)
        | some (l, some response) => some (l.sendRaftRpc pb i j response, envs)

end Links

/-- The nodes, and the input buffers of the two ends of each connection; `none` is a buffer
    that was read past its end. -/
structure WireCluster where
  links : Links
  serverBuf : Nat → Nat → Option Bytes
  clientBuf : Nat → Nat → Option Bytes

/-- The steps of a cluster. -/
inductive WireEvent where
  | tick (id : Nat) (env : Env)
  | propose (id : Nat) (env : Env) (command : Bytes)
  | connect (i j : Nat)
  | closeClient (i j : Nat)
  | closeServer (i j : Nat)
  /-- The next `size` bytes of the connection from `i` to `j` arrive at the server. -/
  | arriveServer (i j size : Nat) (envs : List Env)
  /-- The next `size` bytes of the answers arrive at node `i`. -/
  | arriveClient (i j size : Nat) (envs : List Env)

namespace WireCluster

variable (pb : RaftProtobuf) (M : Membership)

def step (w : WireCluster) : WireEvent → Option WireCluster
  | .tick id env =>
    if id ∈ M.ids then (w.links.act pb id env .tick).map fun r => { w with links := r.1 }
    else none
  | .propose id env command =>
    if id ∈ M.ids then
      (w.links.act pb id env (.propose command)).map fun r => { w with links := r.1 }
    else none
  | .connect i j =>
    let c := w.links.conns i j
    if i ∈ M.ids ∧ j ∈ M.peerIds i ∧ c.client = .connecting then
      some { w with
        links := w.links.setConn i j { c with client := .connected, server := .connected } }
    else none
  | .closeClient i j =>
    some { w with links := w.links.setConn i j { w.links.conns i j with client := .closed } }
  | .closeServer i j =>
    some { w with links := w.links.setConn i j { w.links.conns i j with server := .closed } }
  | .arriveServer i j size envs =>
    let c := w.links.conns i j
    match w.serverBuf i j with
    | none => none
    | some buf =>
      if c.server = .connected then
        let l := w.links.setConn i j { c with toServer := c.toServer.drop size }
        let r := DataServer.onMessage (fun (_ : Unit) => Links.onServerFrame pb i j) ()
          (some (l, envs)) (buf ++ c.toServer.take size)
        r.1.map fun s => { w with links := s.1, serverBuf := update₂ w.serverBuf i j r.2 }
      else none
  | .arriveClient i j size envs =>
    let c := w.links.conns i j
    match w.clientBuf i j with
    | none => none
    | some buf =>
      if c.client = .connected then
        let l := w.links.setConn i j { c with toClient := c.toClient.drop size }
        let r := RaftService.onPeerMessage (fun (_ : Unit) => Links.onClientFrame pb i j) ()
          (some (l, envs)) (buf ++ c.toClient.take size)
        r.1.map fun s => { w with links := s.1, clientBuf := update₂ w.clientBuf i j r.2 }
      else none

/-- All nodes constructed in the same surroundings, and no connection yet. -/
def start (env : Env) : WireCluster where
  links :=
    { nodes := fun i => RaftNode.new i (M.peerIds i) env
      conns := fun _ _ => {}
      handed := [] }
  serverBuf _ _ := some []
  clientBuf _ _ := some []

end WireCluster

/-- The cluster as a transition system. -/
def wireSystem (pb : RaftProtobuf) (M : Membership) :
    Transition.System WireCluster WireEvent where
  init w := (∀ i ∈ M.ids, ∃ env, w.links.nodes i = RaftNode.new i (M.peerIds i) env) ∧
    (∀ i j, w.links.conns i j = {}) ∧ w.links.handed = [] ∧
    (∀ i j, w.serverBuf i j = some []) ∧ ∀ i j, w.clientBuf i j = some []
  step w e := w.step pb M e

/-- The history and the state of a cluster of `size` nodes after the steps `es`. -/
def wireSchedule (pb : RaftProtobuf) (size : Nat) (es : List WireEvent) :
    Option (List (WireCluster × WireEvent) × WireCluster) :=
  (wireSystem pb (.ofSize size)).exec [] (.start (.ofSize size) (atTime 0)) es

theorem WireCluster.start_init (pb : RaftProtobuf) (M : Membership) (env : Env) :
    (wireSystem pb M).init (.start M env) :=
  ⟨fun _ _ => ⟨env, rfl⟩, fun _ _ => rfl, rfl, fun _ _ => rfl, fun _ _ => rfl⟩

theorem wireSchedule_run {pb : RaftProtobuf} {size : Nat} {es : List WireEvent}
    (hsome : (wireSchedule pb size es).isSome) :
    Transition.Run (wireSystem pb (.ofSize size)) ((wireSchedule pb size es).get hsome).1
      ((wireSchedule pb size es).get hsome).2 :=
  Transition.Run.of_exec (WireCluster.start_init _ _ _) hsome

end Dkv
