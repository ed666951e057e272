import LearnGit.Native.RaftRpc

/-!
# RaftNode

The consensus core of `src/data_node/raft_node.cpp`, one definition for each
member function. A node does its I/O through three callbacks, so the model keeps
the list of callback invocations in the node's state: `calls` grows at the end
whenever the source invokes `persistCb_`, `applyCb_` or `rpcSender_`.

Every public function takes the mutex for its whole body, so one call is one
atomic step. The clock and the random election timeout are inputs of the step
(`Env`). Indices are `uint64_t`: `u64` marks the places where a value a peer
chose enters the arithmetic and can wrap around. A term only ever grows by one
per election timeout and is a plain natural number.
-/

namespace Dkv

/-- Reduction of a result to `uint64_t`. -/
def u64 (n : Nat) : Nat := n % 2 ^ 64

/-- What one step reads from its surroundings: `steady_clock::now()` in
    milliseconds and the draw of `randomTimeout()`. -/
structure Env where
  now : Nat
  timeout : Nat
  timeout_mem : 150 ≤ timeout ∧ timeout ≤ 300

/-- One invocation of a callback, with what the outer layer gets to see. -/
inductive Call where
  /-- `persistCb_()`, which reads the term, the vote and the log of the node. -/
  | persist (currentTerm votedFor : Nat) (log : List LogEntry)
  /-- `applyCb_(index, command)`. -/
  | apply (index : Nat) (command : Bytes)
  /-- `rpcSender_(peerId, msg)`. -/
  | send (peerId : Nat) (msg : RaftMessage)
deriving DecidableEq, Repr

/-- `RaftNode::State`. -/
inductive RaftNode.State where
  | follower
  | candidate
  | leader
deriving DecidableEq, Repr

/-- The member variables of `RaftNode`. The two maps answer 0 for an absent key,
    as `operator[]` does. -/
structure RaftNode where
  currentTerm : Nat := 0
  votedFor : Nat := 0
  log : List LogEntry
  state : RaftNode.State := .follower
  commitIndex : Nat := 0
  lastApplied : Nat := 0
  leaderId : Nat := 0
  nextIndex : Nat → Nat := fun _ => 0
  matchIndex : Nat → Nat := fun _ => 0
  lastHeartbeat : Nat
  electionTimeoutMs : Nat
  votesReceived : Nat := 0
  nodeId : Nat
  peerIds : List Nat
  calls : List Call := []

namespace RaftNode

/-- The constructor: a log that holds only the sentinel `(0, 0)`. -/
def new (nodeId : Nat) (peerIds : List Nat) (env : Env) : RaftNode where
  log := [{ term := 0, index := 0 }]
  lastHeartbeat := env.now
  electionTimeoutMs := env.timeout
  nodeId := nodeId
  peerIds := peerIds

/-! ## Helpers -/

def call (n : RaftNode) (c : Call) : RaftNode := { n with calls := n.calls ++ [c] }

def callAll (n : RaftNode) (cs : List Call) : RaftNode := { n with calls := n.calls ++ cs }

def persist (n : RaftNode) : RaftNode := n.call (.persist n.currentTerm n.votedFor n.log)

/-- An index past the end reads the static empty entry. -/
def getLogEntry (n : RaftNode) (index : Nat) : LogEntry := n.log.getD index default

def getLastLogIndex (n : RaftNode) : Nat := if n.log.isEmpty then 0 else n.log.length - 1

def getLastLogTerm (n : RaftNode) : Nat :=
  if n.log.isEmpty then 0 else (n.log.getLastD default).term

/-- `std::vector::resize`. -/
def resize (log : List LogEntry) (size : Nat) : List LogEntry :=
  log.take size ++ List.replicate (size - log.length) default

/-! ## Replication and commitment -/

/-- The request `sendAppendEntries` builds for one peer. -/
def appendEntriesFor (n : RaftNode) (heartbeatOnly : Bool) (pid : Nat) :
    AppendEntriesRequest :=
  let nextIdx := n.nextIndex pid
  let prev := u64 (nextIdx + (2 ^ 64 - 1))
  { term := n.currentTerm
    leaderId := n.nodeId
    leaderCommit := n.commitIndex
    prevLogIndex := prev
    prevLogTerm := (n.getLogEntry prev).term
    entries := if !heartbeatOnly && decide (nextIdx ≤ n.getLastLogIndex)
      then n.log.drop nextIdx else [] }

def sendAppendEntries (n : RaftNode) (heartbeatOnly : Bool) : RaftNode :=
  n.callAll (n.peerIds.map fun pid =>
    .send pid (.appendEntries (n.appendEntriesFor heartbeatOnly pid)))

/-- How many nodes hold position `i`, the leader itself included. -/
def replicaCount (n : RaftNode) (i : Nat) : Nat :=
  1 + n.peerIds.countP fun pid => decide (i ≤ n.matchIndex pid)

/-- The loop of `advanceCommitIndex`, counting down from its argument: the new
    `commitIndex_`. -/
def advanceLoop (n : RaftNode) : Nat → Nat
  | 0 => n.commitIndex
  | i + 1 =>
    if i + 1 > n.commitIndex then
      if (n.getLogEntry (i + 1)).term ≠ n.currentTerm then n.advanceLoop i
      else if n.replicaCount (i + 1) > (n.peerIds.length + 1) / 2 then i + 1
      else n.advanceLoop i
    else n.commitIndex

def advanceCommitIndex (n : RaftNode) : RaftNode :=
  if n.state ≠ .leader then n
  else { n with commitIndex := n.advanceLoop n.getLastLogIndex }

/-- `k` rounds of the loop of `applyEntries`. -/
def applyLoop : Nat → RaftNode → RaftNode
  | 0, n => n
  | k + 1, n =>
    let i := n.lastApplied + 1
    applyLoop k ({ n with lastApplied := i }.call (.apply i (n.getLogEntry i).command))

def applyEntries (n : RaftNode) : RaftNode := applyLoop (n.commitIndex - n.lastApplied) n

/-! ## State transitions -/

def becomeFollower (n : RaftNode) (env : Env) (term : Nat) : RaftNode :=
  { n with
    state := .follower
    currentTerm := term
    votedFor := 0
    lastHeartbeat := env.now
    electionTimeoutMs := env.timeout }.persist

/-- The first move of both request handlers: step down to a newer term. -/
def catchUp (n : RaftNode) (env : Env) (term : Nat) : RaftNode :=
  if term > n.currentTerm then n.becomeFollower env term else n

def startElection (n : RaftNode) : RaftNode :=
  let req : RequestVoteRequest :=
    { term := n.currentTerm
      candidateId := n.nodeId
      lastLogIndex := n.getLastLogIndex
      lastLogTerm := n.getLastLogTerm }
  { n with votesReceived := 1 }.callAll (n.peerIds.map fun pid => .send pid (.requestVote req))

def becomeCandidate (n : RaftNode) (env : Env) : RaftNode :=
  { n with
    state := .candidate
    currentTerm := n.currentTerm + 1
    votedFor := n.nodeId
    leaderId := 0
    votesReceived := 1
    lastHeartbeat := env.now
    electionTimeoutMs := env.timeout }.persist.startElection

def becomeLeader (n : RaftNode) (env : Env) : RaftNode :=
  let lastIdx := n.getLastLogIndex
  let next := n.peerIds.foldl (fun m pid => Function.update m pid (lastIdx + 1)) n.nextIndex
  let mtch := n.peerIds.foldl (fun m pid => Function.update m pid 0) n.matchIndex
  { n with
    state := .leader
    leaderId := n.nodeId
    nextIndex := Function.update next n.nodeId (lastIdx + 1)
    matchIndex := Function.update mtch n.nodeId lastIdx
    lastHeartbeat := env.now }.sendAppendEntries true

/-! ## Public functions -/

/-- Append a command to the leader's log; `false` on any other node. -/
def propose (n : RaftNode) (command : Bytes) : RaftNode × Bool :=
  if n.state ≠ .leader then (n, false)
  else
    let index := n.getLastLogIndex + 1
    let entry : LogEntry := { term := n.currentTerm, index := index, command := command }
    ({ n with
      log := n.log ++ [entry]
      matchIndex := Function.update n.matchIndex n.nodeId index
      nextIndex := Function.update n.nextIndex n.nodeId (index + 1)
      }.persist.sendAppendEntries false, true)

/-- The candidate's log is at least as up to date as the node's own. -/
def upToDate (n : RaftNode) (req : RequestVoteRequest) : Bool :=
  decide (req.lastLogTerm > n.getLastLogTerm)
    || (decide (req.lastLogTerm = n.getLastLogTerm)
      && decide (req.lastLogIndex ≥ n.getLastLogIndex))

def handleRequestVote (n : RaftNode) (env : Env) (req : RequestVoteRequest) :
    RaftNode × RequestVoteResponse :=
  let m := n.catchUp env req.term
  if req.term ≥ m.currentTerm ∧ (m.votedFor = 0 ∨ m.votedFor = req.candidateId)
      ∧ m.upToDate req then
    ({ m with votedFor := req.candidateId, lastHeartbeat := env.now }.persist,
      { term := m.currentTerm, voteGranted := true })
  else (m, { term := m.currentTerm, voteGranted := false })

/-- Half of the cluster plus one. The cast to `int` is exact: `main` takes the
    peers from its command line. -/
def majority (n : RaftNode) : Nat := (n.peerIds.length + 1) / 2 + 1

/-- `fromPeer` is printed, not used. -/
def processRequestVoteResponse (n : RaftNode) (env : Env) (_fromPeer respTerm : Nat)
    (voteGranted : Bool) : RaftNode :=
  if respTerm > n.currentTerm then n.becomeFollower env respTerm
  else if respTerm ≠ n.currentTerm ∨ n.state ≠ .candidate then n
  else
    let m := { n with votesReceived := n.votesReceived + if voteGranted then 1 else 0 }
    if m.votesReceived ≥ m.majority then m.becomeLeader env else m

def processAppendEntriesResponse (n : RaftNode) (fromPeer term : Nat) (success : Bool)
    (matchIndex : Nat) : RaftNode :=
  if n.state ≠ .leader ∨ term ≠ n.currentTerm then n
  else if success then
    if matchIndex > n.matchIndex fromPeer then
      { n with
        matchIndex := Function.update n.matchIndex fromPeer matchIndex
        nextIndex := Function.update n.nextIndex fromPeer (u64 (matchIndex + 1)) }
    else n
  else
    let m := if n.nextIndex fromPeer > 1 then
      { n with nextIndex := Function.update n.nextIndex fromPeer (n.nextIndex fromPeer - 1) }
      else n
    m.sendAppendEntries false

/-- The loop of `handleAppendEntries` over the received entries: drop the log
    from the first conflict on, append what is not there yet. -/
def mergeEntries (log : List LogEntry) (idx : Nat) : List LogEntry → List LogEntry
  | [] => log
  | e :: es =>
    let idx := idx + 1
    let log := if idx ≤ log.length - 1 ∧ (log.getD idx default).term ≠ e.term
      then resize log idx else log
    let log := if idx > log.length - 1 then log ++ [e] else log
    mergeEntries log idx es

/-- A follower's commit index follows the leader's as far as its log reaches. -/
def updateCommitIndex (n : RaftNode) (leaderCommit : Nat) : RaftNode :=
  if leaderCommit > n.commitIndex then
    { n with commitIndex := min leaderCommit n.getLastLogIndex }
  else n

def handleAppendEntries (n : RaftNode) (env : Env) (req : AppendEntriesRequest) :
    RaftNode × AppendEntriesResponse :=
  if req.term < n.currentTerm then (n, { term := n.currentTerm, success := false })
  else
    let m := { { n with lastHeartbeat := env.now }.catchUp env req.term with
      leaderId := req.leaderId }
    if req.prevLogIndex > m.getLastLogIndex then
      (m, { term := m.currentTerm, success := false, matchIndex := m.getLastLogIndex })
    else if req.prevLogIndex > 0 ∧ (m.getLogEntry req.prevLogIndex).term ≠ req.prevLogTerm then
      (m, { term := m.currentTerm, success := false, matchIndex := req.prevLogIndex - 1 })
    else
      let merged := { m with log := mergeEntries m.log req.prevLogIndex req.entries }
      let r := (merged.updateCommitIndex req.leaderCommit).persist.applyEntries
      (r, { term := r.currentTerm, success := true, matchIndex := r.getLastLogIndex })

/-- Election timeout of a follower or candidate, heartbeat and commit of a leader. -/
def tick (n : RaftNode) (env : Env) : RaftNode :=
  let elapsed := env.now - n.lastHeartbeat
  let m := if (n.state = .follower ∨ n.state = .candidate) ∧ elapsed ≥ n.electionTimeoutMs
    then n.becomeCandidate env else n
  if m.state = .leader then
    let r := if elapsed ≥ 50 then { m with lastHeartbeat := env.now }.sendAppendEntries true
      else m
    r.advanceCommitIndex.applyEntries
  else m

/-- Restore the persistent state after a restart. -/
def loadPersistedState (n : RaftNode) (term votedFor : Nat) (log : List LogEntry) : RaftNode :=
  { n with
    currentTerm := term
    votedFor := votedFor
    log := { term := 0, index := 0 } :: log }

/-- `RaftService`'s dispatch of a message to the node: the new state and the
    reply, if the message is a request. -/
def handleRaftMessage (n : RaftNode) (env : Env) (fromNode : Nat) :
    RaftMessage → RaftNode × Option RaftMessage
  | .requestVote req =>
    let r := n.handleRequestVote env req
    (r.1, some (.requestVoteResp r.2))
  | .requestVoteResp resp =>
    (n.processRequestVoteResponse env fromNode resp.term resp.voteGranted, none)
  | .appendEntries req =>
    let r := n.handleAppendEntries env req
    (r.1, some (.appendEntriesResp r.2))
  | .appendEntriesResp resp =>
    (n.processAppendEntriesResponse fromNode resp.term resp.success resp.matchIndex, none)

end RaftNode

end Dkv
