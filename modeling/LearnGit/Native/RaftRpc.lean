import Mathlib

/-!
# Raft messages

The messages of `proto/raft_rpc.proto` that `RaftNode` reads and writes. Field
values are natural numbers; a field that protobuf leaves out has its default, the
zero of its type. The two InstallSnapshot messages are neither sent nor handled
by any code and are left out.
-/

namespace Dkv

/-- A `std::string` or protobuf `bytes` value. -/
abbrev Bytes := List UInt8

/-- `dkv.raft.LogEntry`. -/
structure LogEntry where
  term : Nat := 0
  index : Nat := 0
  command : Bytes := []
deriving DecidableEq, Repr, Inhabited

/-- `dkv.raft.RequestVoteRequest`. -/
structure RequestVoteRequest where
  term : Nat
  candidateId : Nat
  lastLogIndex : Nat
  lastLogTerm : Nat
deriving DecidableEq, Repr

/-- `dkv.raft.RequestVoteResponse`. -/
structure RequestVoteResponse where
  term : Nat
  voteGranted : Bool
deriving DecidableEq, Repr

/-- `dkv.raft.AppendEntriesRequest`. -/
structure AppendEntriesRequest where
  term : Nat
  leaderId : Nat
  prevLogIndex : Nat
  prevLogTerm : Nat
  leaderCommit : Nat
  entries : List LogEntry
deriving DecidableEq, Repr

/-- `dkv.raft.AppendEntriesResponse`. -/
structure AppendEntriesResponse where
  term : Nat
  success : Bool
  matchIndex : Nat := 0
deriving DecidableEq, Repr

/-- `dkv.raft.RaftMessage`: the type tag with the payload it announces. -/
inductive RaftMessage where
  | requestVote (req : RequestVoteRequest)
  | requestVoteResp (resp : RequestVoteResponse)
  | appendEntries (req : AppendEntriesRequest)
  | appendEntriesResp (resp : AppendEntriesResponse)
deriving DecidableEq, Repr

/-- The term a message carries. -/
def RaftMessage.term : RaftMessage → Nat
  | .requestVote req => req.term
  | .requestVoteResp resp => resp.term
  | .appendEntries req => req.term
  | .appendEntriesResp resp => resp.term

end Dkv
