import LearnGit.Native.RaftService

/-!
# A node that crashes

One data node in Raft mode, seen from its engine and from what leaves it. Handling an
input is a list of effects in the order of the source: each invocation of `persistCb_` is
two puts and a batch, each one of `applyCb_` one write, and the answer to a request goes
out last. A crash cuts the list anywhere; the engine and what was sent stay, and the
node starts again with what `recoverRaftState` makes of the engine.
-/

namespace Dkv

open RaftService

/-- A message that has left the node: through `rpcSender_`, or the answer to a request. -/
inductive SentMessage where
  | toPeer (peerId : Nat) (msg : RaftMessage)
  | answer (request response : RaftMessage)
deriving DecidableEq, Repr

/-- The message itself. -/
def SentMessage.message : SentMessage → RaftMessage
  | .toPeer _ msg => msg
  | .answer _ response => response

/-- What a crash leaves: the engine, and what has been sent. -/
structure Lasting where
  engine : RocksEngine
  sent : List SentMessage

/-- One step that other parties or the disk get to see. -/
inductive Effect where
  /-- A put of `persistRaftState`. -/
  | put (key value : Bytes)
  /-- The batch of `persistRaftState`, with the log keys it finds before it. -/
  | writeLog (log : List LogEntry)
  | apply (command : Bytes)
  | send (m : SentMessage)

def Effect.run (pb : Protobuf) (s : Lasting) : Effect → Lasting
  | .put key value => { s with engine := (s.engine.put key value).1 }
  | .writeLog log =>
    let oldKeys := (scanLog s.engine).kvs.map Prod.fst
    let puts := log.tail.map fun x => (encodeLogKey x.index, pb.serializeEntry x)
    { s with engine := (s.engine.writeBatch puts oldKeys).1 }
  | .apply command => { s with engine := onApply pb s.engine command }
  | .send m => { s with sent := s.sent ++ [m] }

/-- The effects of one invocation of a callback. -/
def Call.effects : Call → List Effect
  | .persist currentTerm votedFor log =>
    [.put termKey (toString currentTerm), .put voteKey (toString votedFor), .writeLog log]
  | .apply _ command => [.apply command]
  | .send peerId msg => [.send (.toPeer peerId msg)]

/-- Callbacks that are not cut short do to the engine what `runCalls` says. -/
theorem run_effects_engine (pb : Protobuf) (calls : List Call) (s : Lasting) :
    ((calls.flatMap Call.effects).foldl (Effect.run pb) s).engine =
      runCalls pb s.engine calls := by
  induction calls generalizing s with
  | nil => rfl
  | cons c calls ih =>
    rw [List.flatMap_cons, List.foldl_append, ih]
    cases c <;> rfl

structure CrashingNode where
  node : RaftNode
  lasting : Lasting

/-- What can happen to the node. A crash comes after the first `done` effects of handling
    an input, and the node starts again in the surroundings `restart`. -/
inductive CrashEvent where
  | handle (env : Env) (input : Input)
  | crash (env : Env) (input : Input) (done : Nat) (restart : Env)

/-- The input that a step handles, or starts to handle, and its surroundings. -/
def CrashEvent.handled : CrashEvent → Env × Input
  | .handle env input => (env, input)
  | .crash env input _ _ => (env, input)

namespace CrashingNode

/-- What leaves the node as the answer to a request. -/
def answerEffects (s : CrashingNode) (env : Env) (input : Input) : List Effect :=
  match input, (s.node.react env input).2 with
  | .message _ request, some response => [.send (.answer request response)]
  | _, _ => []

/-- The effects of handling an input, in their order. -/
def effects (s : CrashingNode) (env : Env) (input : Input) : List Effect :=
  (s.node.newCalls (s.node.react env input).1).flatMap Call.effects ++ s.answerEffects env input

/-- The effects that a step carries out. -/
def carriedOut (s : CrashingNode) : CrashEvent → List Effect
  | .handle env input => s.effects env input
  | .crash env input done _ => (s.effects env input).take done

/-- An exception in `recoverRaftState` keeps the node from starting again. -/
def step (pb : Protobuf) (s : CrashingNode) (e : CrashEvent) : Option CrashingNode :=
  let lasting := (s.carriedOut e).foldl (Effect.run pb) s.lasting
  match e with
  | .handle env input => some { node := (s.node.react env input).1, lasting := lasting }
  | .crash _ _ _ restart =>
    match recoverRaftState pb lasting.engine
        (RaftNode.new s.node.nodeId s.node.peerIds restart) with
    | .ok n => some { node := n, lasting := lasting }
    | .error _ => none

/-- A node that starts for the first time. -/
def start (nodeId : Nat) (peerIds : List Nat) (env : Env) : CrashingNode where
  node := RaftNode.new nodeId peerIds env
  lasting := { engine := .empty, sent := [] }

end CrashingNode

/-- The node as a transition system. -/
def crashSystem (pb : Protobuf) (nodeId : Nat) (peerIds : List Nat) :
    Transition.System CrashingNode CrashEvent where
  init s := ∃ env, s = .start nodeId peerIds env
  step s e := s.step pb e

/-- The history and the state of a node after the steps `es`. -/
def crashSchedule (pb : Protobuf) (nodeId : Nat) (peerIds : List Nat) (es : List CrashEvent) :
    Option (List (CrashingNode × CrashEvent) × CrashingNode) :=
  (crashSystem pb nodeId peerIds).exec [] (.start nodeId peerIds (atTime 0)) es

theorem CrashingNode.start_init (pb : Protobuf) (nodeId : Nat) (peerIds : List Nat) (env : Env) :
    (crashSystem pb nodeId peerIds).init (.start nodeId peerIds env) :=
  ⟨env, rfl⟩

theorem crashSchedule_run {pb : Protobuf} {nodeId : Nat} {peerIds : List Nat}
    {es : List CrashEvent} (hsome : (crashSchedule pb nodeId peerIds es).isSome) :
    Transition.Run (crashSystem pb nodeId peerIds)
      ((crashSchedule pb nodeId peerIds es).get hsome).1
      ((crashSchedule pb nodeId peerIds es).get hsome).2 :=
  Transition.Run.of_exec (CrashingNode.start_init _ _ _ _) hsome

end Dkv
