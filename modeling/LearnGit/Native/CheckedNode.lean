import LearnGit.ForStd.Transition
import LearnGit.Native.RaftCluster

/-!
# RaftNode with checked accesses

`RaftNode` answers a read past the end of the log with the empty entry. Here the accesses
`log_[i]` of `src/data_node/raft_node.cpp` that no bounds test guards are undefined past
the end, and so is a `resize` that would grow the log. An undefined access leaves the whole
call undefined. Terms are 64 bits wide as well. Member functions without such an access or
such a sum are those of `RaftNode`.
-/

namespace Dkv

namespace Checked

open RaftNode (resize)

/-- `log_[i]`. -/
def entryAt (n : RaftNode) (i : Nat) : Option LogEntry := n.log[i]?

/-- `log_.resize(size)`. -/
def shrink (log : List LogEntry) (size : Nat) : Option (List LogEntry) :=
  if size ≤ log.length then some (resize log size) else none

/-! ## Replication and commitment -/

/-- The loop of `sendAppendEntries` over the entries from `nextIdx` on. -/
def entriesFrom (n : RaftNode) (nextIdx : Nat) : Option (List LogEntry) :=
  (List.range' nextIdx (n.getLastLogIndex + 1 - nextIdx)).mapM (entryAt n)

def appendEntriesFor (n : RaftNode) (heartbeatOnly : Bool) (pid : Nat) :
    Option AppendEntriesRequest := do
  let nextIdx := n.nextIndex pid
  -- `nextIdx - 1` wraps around where a matched index of `2 ^ 64 - 1` has set `nextIdx` to 0
  let prev := u64 (nextIdx + (2 ^ 64 - 1))
  let entries ← if !heartbeatOnly && decide (nextIdx ≤ n.getLastLogIndex)
    then entriesFrom n nextIdx else some []
  return {
    term := n.currentTerm
    leaderId := n.nodeId
    leaderCommit := n.commitIndex
    prevLogIndex := prev
    prevLogTerm := (n.getLogEntry prev).term
    entries := entries }

def sendAppendEntries (n : RaftNode) (heartbeatOnly : Bool) : Option RaftNode := do
  let calls ← n.peerIds.mapM fun pid => do
    let req ← appendEntriesFor n heartbeatOnly pid
    return Call.send pid (.appendEntries req)
  return n.callAll calls

/-- The loop of `advanceCommitIndex`, counting down from its argument. -/
def advanceLoop (n : RaftNode) : Nat → Option Nat
  | 0 => some n.commitIndex
  | i + 1 => do
    if i + 1 > n.commitIndex then
      let entry ← entryAt n (i + 1)
      -- an entry of an earlier term is not committed by counting its replicas
      if entry.term ≠ n.currentTerm then advanceLoop n i
      else if n.replicaCount (i + 1) > (n.peerIds.length + 1) / 2 then return i + 1
      else advanceLoop n i
    else return n.commitIndex

def advanceCommitIndex (n : RaftNode) : Option RaftNode := do
  if n.state ≠ .leader then return n
  else
    let commitIndex ← advanceLoop n n.getLastLogIndex
    return { n with commitIndex := commitIndex }

/-- `count++` on an `int`, which is undefined at the largest one. -/
def increment (count : Int) : Option Int := if count < 2 ^ 31 - 1 then some (count + 1) else none

/-- The loop of `advanceCommitIndex` over the peers, from `count = 1` on. -/
def countReplicas (n : RaftNode) (i : Nat) : Option Int :=
  n.peerIds.foldlM (fun count pid =>
    if n.matchIndex pid ≥ i then increment count else some count) 1

/-- The majority test of `advanceCommitIndex` as it is computed. The cast to `int` keeps the
    low 32 bits, and the division rounds towards zero. -/
def hasMajority (n : RaftNode) (i : Nat) : Option Bool := do
  let count ← countReplicas n i
  return decide (count > (Int.bmod (n.peerIds.length + 1) (2 ^ 32)).tdiv 2)

/-- `k` rounds of the loop of `applyEntries`. -/
def applyLoop : Nat → RaftNode → Option RaftNode
  | 0, n => some n
  | k + 1, n => do
    let i := n.lastApplied + 1
    let entry ← entryAt n i
    applyLoop k ({ n with lastApplied := i }.call (.apply i entry.command))

def applyEntries (n : RaftNode) : Option RaftNode := applyLoop (n.commitIndex - n.lastApplied) n

/-! ## State transitions -/

def becomeCandidate (n : RaftNode) (env : Env) : RaftNode :=
  { n with
    state := .candidate
    currentTerm := u64 (n.currentTerm + 1)
    votedFor := n.nodeId
    leaderId := 0
    votesReceived := 1
    lastHeartbeat := env.now
    electionTimeoutMs := env.timeout }.persist.startElection

def becomeLeader (n : RaftNode) (env : Env) : Option RaftNode :=
  let lastIdx := n.getLastLogIndex
  let next := n.peerIds.foldl (fun m pid => Function.update m pid (lastIdx + 1)) n.nextIndex
  let mtch := n.peerIds.foldl (fun m pid => Function.update m pid 0) n.matchIndex
  sendAppendEntries { n with
    state := .leader
    leaderId := n.nodeId
    nextIndex := Function.update next n.nodeId (lastIdx + 1)
    matchIndex := Function.update mtch n.nodeId lastIdx
    lastHeartbeat := env.now } true

/-! ## Public functions -/

def propose (n : RaftNode) (command : Bytes) : Option (RaftNode × Bool) := do
  if n.state ≠ .leader then return (n, false)
  else
    let index := n.getLastLogIndex + 1
    let entry : LogEntry := { term := n.currentTerm, index := index, command := command }
    let m ← sendAppendEntries { n with
      log := n.log ++ [entry]
      matchIndex := Function.update n.matchIndex n.nodeId index
      nextIndex := Function.update n.nextIndex n.nodeId (index + 1) }.persist false
    return (m, true)

def processRequestVoteResponse (n : RaftNode) (env : Env) (_fromPeer respTerm : Nat)
    (voteGranted : Bool) : Option RaftNode :=
  if respTerm > n.currentTerm then some (n.becomeFollower env respTerm)
  else if respTerm ≠ n.currentTerm ∨ n.state ≠ .candidate then some n
  else
    let m := { n with votesReceived := n.votesReceived + if voteGranted then 1 else 0 }
    if m.votesReceived ≥ m.majority then becomeLeader m env else some m

def processAppendEntriesResponse (n : RaftNode) (fromPeer term : Nat) (success : Bool)
    (matchIndex : Nat) : Option RaftNode :=
  if n.state ≠ .leader ∨ term ≠ n.currentTerm then some n
  else if success then
    if matchIndex > n.matchIndex fromPeer then
      some { n with
        matchIndex := Function.update n.matchIndex fromPeer matchIndex
        nextIndex := Function.update n.nextIndex fromPeer (u64 (matchIndex + 1)) }
    else some n
  else
    let m := if n.nextIndex fromPeer > 1 then
      { n with nextIndex := Function.update n.nextIndex fromPeer (n.nextIndex fromPeer - 1) }
      else n
    sendAppendEntries m false

/-- The loop of `handleAppendEntries` over the received entries. -/
def mergeEntries (log : List LogEntry) (idx : Nat) : List LogEntry → Option (List LogEntry)
  | [] => some log
  | e :: es => do
    let idx := u64 (idx + 1)
    -- a conflict cuts the log, and then the entry is past its end
    let log ← if idx ≤ log.length - 1 ∧ (log.getD idx default).term ≠ e.term
      then shrink log idx else some log
    let log := if idx > log.length - 1 then log ++ [e] else log
    mergeEntries log idx es

def handleAppendEntries (n : RaftNode) (env : Env) (req : AppendEntriesRequest) :
    Option (RaftNode × AppendEntriesResponse) := do
  if req.term < n.currentTerm then return (n, { term := n.currentTerm, success := false })
  else
    let m := { { n with lastHeartbeat := env.now }.catchUp env req.term with
      leaderId := req.leaderId }
    if req.prevLogIndex > m.getLastLogIndex then
      -- the log ends before the entries of the request start
      return (m, { term := m.currentTerm, success := false, matchIndex := m.getLastLogIndex })
    else if req.prevLogIndex > 0 ∧ (m.getLogEntry req.prevLogIndex).term ≠ req.prevLogTerm then
      return (m, { term := m.currentTerm, success := false, matchIndex := req.prevLogIndex - 1 })
    else
      let log ← mergeEntries m.log req.prevLogIndex req.entries
      let merged := { m with log := log }
      let r ← applyEntries (merged.updateCommitIndex req.leaderCommit).persist
      return (r, { term := r.currentTerm, success := true, matchIndex := r.getLastLogIndex })

def tick (n : RaftNode) (env : Env) : Option RaftNode := do
  let elapsed := env.now - n.lastHeartbeat
  let m := if (n.state = .follower ∨ n.state = .candidate) ∧ elapsed ≥ n.electionTimeoutMs
    then becomeCandidate n env else n
  -- a node that has just timed out is a candidate, so only old leaders get here
  if m.state = .leader then
    let r ← if elapsed ≥ 50 then sendAppendEntries { m with lastHeartbeat := env.now } true
      else some m
    let r ← advanceCommitIndex r
    applyEntries r
  else return m

def handleRaftMessage (n : RaftNode) (env : Env) (fromNode : Nat) :
    RaftMessage → Option (RaftNode × Option RaftMessage)
  | .requestVote req =>
    let r := n.handleRequestVote env req
    some (r.1, some (.requestVoteResp r.2))
  | .requestVoteResp resp => do
    let r ← processRequestVoteResponse n env fromNode resp.term resp.voteGranted
    return (r, none)
  | .appendEntries req => do
    let r ← handleAppendEntries n env req
    return (r.1, some (.appendEntriesResp r.2))
  | .appendEntriesResp resp => do
    let r ← processAppendEntriesResponse n fromNode resp.term resp.success resp.matchIndex
    return (r, none)

/-- A call of a public function, and the reply to a request. -/
def react (n : RaftNode) (env : Env) : Input → Option (RaftNode × Option RaftMessage)
  | .tick => do
    let r ← tick n env
    return (r, none)
  | .propose command => do
    let r ← propose n command
    return (r.1, none)
  | .message fromNode msg => handleRaftMessage n env fromNode msg

end Checked

/-! ## A node of its own -/

/-- `entries_size()` is an `int`. -/
def Input.Sized : Input → Prop
  | .message _ (.appendEntries req) => req.entries.length < 2 ^ 31
  | _ => True

instance (input : Input) : Decidable input.Sized := by
  unfold Input.Sized
  split <;> infer_instance

/-- What a call makes of a node; there is no next state after an undefined access and
    where the log would outgrow its vector. -/
def Checked.step (n : RaftNode) (e : Env × Input) : Option RaftNode :=
  (Checked.react n e.1 e.2).bind fun r =>
    if e.2.Sized ∧ r.1.log.length ≤ maxLogSize then some r.1 else none

/-- A node that anybody calls: it is constructed, and may load a persisted state once. -/
def nodeSystem (nodeId : Nat) (peerIds : List Nat) : Transition.System RaftNode (Env × Input) where
  init n := ∃ env, n = .new nodeId peerIds env ∨
    ∃ term votedFor log, log.length < maxLogSize ∧
      n = (RaftNode.new nodeId peerIds env).loadPersistedState term votedFor log
  step := Checked.step

end Dkv
