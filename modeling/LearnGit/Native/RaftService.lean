import LearnGit.Native.KvRpc
import LearnGit.Native.RaftCluster
import LearnGit.Native.RocksEngine

/-!
# RaftService

The parts of `src/data_node/raft_service.cpp` between `RaftNode` and the engine: the
two callbacks `persistRaftState` and `onApply`, the recovery at start-up and the
address of the leader. User keys, the term, the vote and the log share one key space.
-/

namespace Dkv

/-- What the standard library throws. -/
inductive StdException where
  | invalidArgument
  | outOfRange
deriving DecidableEq, Repr

/-- `std::to_string`. -/
def toString (n : Nat) : Bytes := (Nat.toDigits 10 n).map fun c => UInt8.ofNat c.toNat

/-- `isspace` in the C locale. -/
def isSpace (c : Char) : Bool := c.toNat == 32 || (9 ≤ c.toNat && c.toNat ≤ 13)

/-- Whether a number starts with a minus sign, and its digits. -/
def readDigits : List Char → Bool × List Char
  | '-' :: s => (true, s.takeWhile Char.isDigit)
  | '+' :: s => (false, s.takeWhile Char.isDigit)
  | s => (false, s.takeWhile Char.isDigit)

/-- `std::stoull`: leading space, a sign and the digits that follow it. A negative
    number is negated as `unsigned long long`. -/
def stoull (s : Bytes) : Except StdException Nat :=
  let r := readDigits ((s.map fun b => Char.ofNat b.toNat).dropWhile isSpace)
  let n := Nat.ofDigitChars 10 r.2 0
  if r.2 = [] then .error .invalidArgument
  else if n ≥ 2 ^ 64 then .error .outOfRange
  else .ok (if r.1 then u64 (2 ^ 64 - n) else n)

namespace RaftService

/-- `"\x00raft_term"`. -/
def termKey : Bytes := [0x00, 0x72, 0x61, 0x66, 0x74, 0x5f, 0x74, 0x65, 0x72, 0x6d]

/-- `"\x00raft_vote"`. -/
def voteKey : Bytes := [0x00, 0x72, 0x61, 0x66, 0x74, 0x5f, 0x76, 0x6f, 0x74, 0x65]

/-- The byte `0xff` and the index in 8 bytes, most significant first. -/
def encodeLogKey (index : Nat) : Bytes :=
  0xff :: [7, 6, 5, 4, 3, 2, 1, 0].map fun i => UInt8.ofNat (index >>> (i * 8))

/-- The pairs both ends of the persistence look at: keys from `"\xff"` to `"\xff\xff"`,
    100000 at most. -/
def scanLog (e : RocksEngine) : RocksEngine.ScanResult := e.scan [0xff] [0xff, 0xff] 100000

/-- `persistCb_`. Term, vote and log are read off the node. -/
def persistRaftState (pb : Protobuf) (e : RocksEngine) (currentTerm votedFor : Nat)
    (log : List LogEntry) : RocksEngine :=
  let e := (e.put termKey (toString currentTerm)).1
  let e := (e.put voteKey (toString votedFor)).1
  let oldKeys := (scanLog e).kvs.map Prod.fst
  let puts := log.tail.map fun x => (encodeLogKey x.index, pb.serializeEntry x)
  (e.writeBatch puts oldKeys).1

/-- The arguments `recoverRaftState` calls `loadPersistedState` with, `none` where it
    does not call it. -/
def recoveredState (pb : Protobuf) (e : RocksEngine) :
    Except StdException (Option (Nat × Nat × List LogEntry)) := do
  let term ← match e.get termKey with
    | some termVal => stoull termVal
    | none => pure 0
  let votedFor ← match e.get voteKey with
    | some voteVal => stoull voteVal
    | none => pure 0
  let log := (scanLog e).kvs.filterMap fun kv => pb.parseEntry kv.2
  if term > 0 ∨ log ≠ [] then return some (term, votedFor, log) else return none

/-- The node after a restart. An exception leaves `main`. -/
def recoverRaftState (pb : Protobuf) (e : RocksEngine) (n : RaftNode) :
    Except StdException RaftNode := do
  match ← recoveredState pb e with
  | some (term, votedFor, log) => return n.loadPersistedState term votedFor log
  | none => return n

/-- `applyCb_`; the index is not used. -/
def onApply (pb : Protobuf) (e : RocksEngine) (cmd : Bytes) : RocksEngine :=
  match pb.parseRpc cmd with
  | some msg =>
    match msg.type with
    | .putRequest => (e.put msg.put.key msg.put.value).1
    | .deleteRequest => (e.del msg.delete.key).1
    | _ => e
  | none => e

/-- The engine after one invocation of a callback. -/
def runCall (pb : Protobuf) (e : RocksEngine) : Call → RocksEngine
  | .persist currentTerm votedFor log => persistRaftState pb e currentTerm votedFor log
  | .apply _ command => onApply pb e command
  | .send _ _ => e

def runCalls (pb : Protobuf) (e : RocksEngine) (calls : List Call) : RocksEngine :=
  calls.foldl (runCall pb) e

end RaftService

/-- The address of the leader a node knows of; there is none for the node itself. -/
def RaftNode.getLeaderAddr (n : RaftNode) (peerAddrs : Nat → Option Bytes) : Option Bytes :=
  if n.leaderId = 0 then none
  else if n.leaderId = n.nodeId then none
  else peerAddrs n.leaderId

end Dkv
