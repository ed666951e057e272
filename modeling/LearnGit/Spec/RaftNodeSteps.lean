import LearnGit.ForStd.ReplicatedLog
import LearnGit.Native.RaftCluster

/-!
# What one step of a node can do

Each loop of `RaftNode` gets one lemma that says what it computes, and `Reacts`
lists every way a node can react to an input, with the guards that lead there.
The proofs about the cluster use these and never unfold a handler.

## Key results

- `mergeEntries_splice`: the merge loop of `handleAppendEntries` splices the entries
- `applyEntries_eq`: the apply loop applies the entries up to the commit index in order
- `advanceLoop_eq_max`: the commit loop finds the last replicated entry of the current term
- `react_cases`: `Reacts` covers every step
-/

namespace Dkv

open ReplicatedLog

namespace RaftNode

/-! ## Log access -/

@[simp] theorem getLastLogIndex_eq (n : RaftNode) : n.getLastLogIndex = n.log.length - 1 := by
  unfold getLastLogIndex
  split
  · next h => simp [List.isEmpty_iff.mp h]
  · rfl

theorem getLogEntry_eq {n : RaftNode} {i : Nat} {e : LogEntry} (h : n.log[i]? = some e) :
    n.getLogEntry i = e := by
  rw [getLogEntry, List.getD_eq_getElem?_getD, h, Option.getD_some]

theorem getLastLogTerm_eq {n : RaftNode} {e : LogEntry}
    (h : n.log[n.log.length - 1]? = some e) : n.getLastLogTerm = e.term := by
  have hne : n.log ≠ [] := by
    intro hnil
    rw [hnil] at h
    exact nomatch h
  rw [getLastLogTerm, if_neg (by simpa using hne), List.getLastD_eq_getLast?,
    List.getLast?_eq_getElem?, h, Option.getD_some]

/-! ## Loops -/

theorem resize_of_le {log : List LogEntry} {size : Nat} (h : size ≤ log.length) :
    resize log size = log.take size := by
  rw [resize, Nat.sub_eq_zero_of_le h, List.replicate_zero, List.append_nil]

/-! ### The merge loop -/

private theorem getD_of_lt {log : List LogEntry} {i : Nat} (h : i < log.length) :
    log.getD i default = log[i] := by
  rw [List.getD_eq_getElem?_getD, List.getElem?_eq_getElem h, Option.getD_some]

/-- An entry that is there already is skipped. -/
private theorem mergeEntries_cons_same {log es : List LogEntry} {e : LogEntry} {idx : Nat}
    (hidx : idx + 1 < log.length) (hterm : log[idx + 1].term = e.term) :
    mergeEntries log idx (e :: es) = mergeEntries log (idx + 1) es := by
  have hkeep : (if idx + 1 ≤ log.length - 1 ∧ (log.getD (idx + 1) default).term ≠ e.term
      then resize log (idx + 1) else log) = log :=
    if_neg fun h => h.2 (by rw [getD_of_lt hidx, hterm])
  simp only [mergeEntries, hkeep]
  rw [if_neg (by omega)]

/-- Past the end of the log the loop only appends. -/
private theorem mergeEntries_append (log es : List LogEntry) {idx : Nat}
    (hidx : idx + 1 = log.length) : mergeEntries log idx es = log ++ es := by
  induction es generalizing log idx with
  | nil => rw [mergeEntries, List.append_nil]
  | cons e es ih =>
    have hstep : mergeEntries log idx (e :: es) = mergeEntries (log ++ [e]) (idx + 1) es := by
      have hkeep : (if idx + 1 ≤ log.length - 1 ∧ (log.getD (idx + 1) default).term ≠ e.term
          then resize log (idx + 1) else log) = log := if_neg (by omega)
      simp only [mergeEntries, hkeep]
      rw [if_pos (by omega)]
    rw [hstep, ih _ (by simp [hidx]), List.append_assoc, List.singleton_append]

/-- From the first conflict on the received entries replace the log. -/
private theorem mergeEntries_cons_conflict {log es : List LogEntry} {e : LogEntry} {idx : Nat}
    (hidx : idx + 1 < log.length) (hterm : log[idx + 1].term ≠ e.term) :
    mergeEntries log idx (e :: es) = log.take (idx + 1) ++ e :: es := by
  have hlen : (log.take (idx + 1)).length = idx + 1 := by
    rw [List.length_take]; omega
  have hcut : (if idx + 1 ≤ log.length - 1 ∧ (log.getD (idx + 1) default).term ≠ e.term
      then resize log (idx + 1) else log) = log.take (idx + 1) := by
    rw [if_pos ⟨by omega, by rwa [getD_of_lt hidx]⟩, resize_of_le (by omega)]
  simp only [mergeEntries, hcut]
  rw [if_pos (by omega), mergeEntries_append _ _ (by simp [hlen]), List.append_assoc,
    List.singleton_append]

/-- The merge loop of `handleAppendEntries` splices the received entries into the log. -/
theorem mergeEntries_splice (log es : List LogEntry) {idx : Nat} (hidx : idx < log.length) :
    Splice LogEntry.term log idx es (mergeEntries log idx es) := by
  -- along the received entries, as the loop goes
  induction es generalizing idx with
  | nil => exact .keep fun k e he => by simp at he
  | cons e es ih =>
    rcases Nat.lt_or_ge (idx + 1) log.length with hlast | hend
    · have hget := List.getElem?_eq_getElem hlast
      by_cases hterm : log[idx + 1].term = e.term
      · -- the entry is there already: the rest is spliced in one position further
        rw [mergeEntries_cons_same hlast hterm]
        have hzero : Agrees LogEntry.term log idx (e :: es) 0 := by
          intro e' he'
          obtain rfl : e = e' := by simpa using he'
          exact ⟨_, hget, hterm⟩
        have hshift : ∀ j, Agrees LogEntry.term log (idx + 1) es j ↔
            Agrees LogEntry.term log idx (e :: es) (j + 1) := by
          intro j
          simp only [Agrees, List.getElem?_cons_succ]
          rw [show idx + 1 + (j + 1) = idx + 1 + 1 + j by omega]
        have hrest := ih hlast
        generalize mergeEntries log (idx + 1) es = R at hrest
        cases hrest with
        | keep hagree =>
          exact .keep fun k => by
            cases k with
            | zero => exact hzero
            | succ j => exact (hshift j).mp (hagree j)
        | write k hk hlen hagree hconflict =>
          rw [show idx + 1 + 1 + k = idx + 1 + (k + 1) by omega, ← @List.drop_succ_cons _ e]
          refine .write (k + 1) (by simpa using hk) (by omega) (fun j hj => ?_)
            (fun hc => hconflict ((hshift k).mpr hc))
          cases j with
          | zero => exact hzero
          | succ j => exact (hshift j).mp (hagree j (by omega))
      · -- a conflict: truncate, then append everything that is left
        rw [mergeEntries_cons_conflict hlast hterm]
        refine .write 0 (by simp) (by omega) (fun j hj => by omega) fun hc => ?_
        obtain ⟨e', he', ht⟩ := hc e rfl
        rw [Nat.add_zero, hget, Option.some.injEq] at he'
        exact hterm (he' ▸ ht)
    · -- the log ends here
      have heq : idx + 1 = log.length := by omega
      rw [mergeEntries_append _ _ heq]
      have hfirst : ¬ Agrees LogEntry.term log idx (e :: es) 0 := by
        intro hc
        obtain ⟨e', he', -⟩ := hc e rfl
        rw [Nat.add_zero, heq, List.getElem?_eq_none (Nat.le_refl _)] at he'
        exact nomatch he'
      have hw := Splice.write 0 (by simp) (by omega) (fun j hj => by omega) hfirst
      rwa [Nat.add_zero, heq, List.take_length, List.drop_zero] at hw

/-! ### The apply loop and the commit loop -/

/-- The invocations of `applyCb_` for the positions from `lo + 1` to `lo + k`. -/
def applyCalls (log : List LogEntry) (lo k : Nat) : List Call :=
  (List.range' (lo + 1) k).map fun i => .apply i (log.getD i default).command

private theorem applyLoop_eq (n : RaftNode) (k : Nat) :
    applyLoop k n = { n with
      lastApplied := n.lastApplied + k
      calls := n.calls ++ applyCalls n.log n.lastApplied k } := by
  induction k generalizing n with
  | zero => simp [applyLoop, applyCalls]
  | succ k ih =>
    rw [applyLoop, ih]
    simp only [call, applyCalls, getLogEntry, List.range'_succ, List.map_cons,
      List.append_assoc, List.singleton_append, mk.injEq, true_and, and_true]
    omega

/-- `applyEntries` applies every position from `lastApplied + 1` to `commitIndex`. -/
theorem applyEntries_eq (n : RaftNode) :
    n.applyEntries = { n with
      lastApplied := max n.lastApplied n.commitIndex
      calls := n.calls ++ applyCalls n.log n.lastApplied (n.commitIndex - n.lastApplied) } := by
  rw [applyEntries, applyLoop_eq]
  simp only [mk.injEq, true_and, and_true]
  omega

theorem mem_applyCalls {log : List LogEntry} {lo k : Nat} {c : Call} :
    c ∈ applyCalls log lo k ↔
      ∃ i, lo < i ∧ i ≤ lo + k ∧ c = .apply i (log.getD i default).command := by
  simp only [applyCalls, List.mem_map, List.mem_range'_1]
  constructor
  · rintro ⟨i, hi, rfl⟩; exact ⟨i, by omega, by omega, rfl⟩
  · rintro ⟨i, hlo, hhi, rfl⟩; exact ⟨i, by omega, rfl⟩

/-- The test of the commit loop: position `i` is past the commit index, its entry is of the
    current term, and more than half of the cluster holds it. -/
def Replicated (n : RaftNode) (i : Nat) : Prop :=
  n.commitIndex < i ∧ (n.getLogEntry i).term = n.currentTerm ∧
    (n.peerIds.length + 1) / 2 < n.replicaCount i

instance (n : RaftNode) (i : Nat) : Decidable (n.Replicated i) :=
  inferInstanceAs (Decidable (_ ∧ _))

/-- The commit loop answers with the last position that passes its test, or with the old
    commit index if there is none. -/
theorem advanceLoop_eq_max (n : RaftNode) (last : Nat) :
    n.advanceLoop last = max n.commitIndex (Nat.findGreatest n.Replicated last) := by
  induction last with
  | zero => exact (Nat.max_zero _).symm
  | succ i ih =>
    rw [advanceLoop]
    split
    · next hlt =>
      have hpass : n.Replicated (i + 1) ↔ (n.getLogEntry (i + 1)).term = n.currentTerm ∧
          n.replicaCount (i + 1) > (n.peerIds.length + 1) / 2 := and_iff_right hlt
      rw [Nat.findGreatest_succ]
      split
      · next hterm => rw [if_neg fun h => hterm (hpass.mp h).1, ih]
      · next hterm =>
        split
        · next hcount =>
          rw [if_pos (hpass.mpr ⟨not_not.mp hterm, hcount⟩)]
          exact (Nat.max_eq_right (Nat.le_of_lt hlt)).symm
        · next hcount => rw [if_neg fun h => hcount (hpass.mp h).2, ih]
    · next hge =>
      -- where the loop stops, no position below passes either
      have hnone : Nat.findGreatest n.Replicated (i + 1) = 0 :=
        Nat.findGreatest_eq_zero_iff.mpr fun k _ hk h => hge (Nat.lt_of_lt_of_le h.1 hk)
      rw [hnone, Nat.max_zero]

/-- What the commit loop of a leader may answer: the old commit index, or a later
    position of the current term that more than half of the cluster holds. -/
theorem advanceLoop_spec (n : RaftNode) (last : Nat) :
    n.advanceLoop last = n.commitIndex ∨
      (n.commitIndex < n.advanceLoop last ∧ n.advanceLoop last ≤ last ∧
        (n.getLogEntry (n.advanceLoop last)).term = n.currentTerm ∧
        (n.peerIds.length + 1) / 2 < n.replicaCount (n.advanceLoop last)) := by
  rw [advanceLoop_eq_max]
  rcases Nat.eq_zero_or_pos (Nat.findGreatest n.Replicated last) with hnone | hpos
  · rw [hnone, Nat.max_zero]
    exact .inl rfl
  · have hlast := Nat.findGreatest_le (P := n.Replicated) last
    obtain ⟨hlt, hterm, hcount⟩ := Nat.findGreatest_of_ne_zero rfl (Nat.pos_iff_ne_zero.mp hpos)
    rw [Nat.max_eq_right (Nat.le_of_lt hlt)]
    exact .inr ⟨hlt, hlast, hterm, hcount⟩

/-! ## The reactions of a node -/

/-- The invocations of `rpcSender_` in `sendAppendEntries`. -/
def appendCalls (n : RaftNode) (heartbeatOnly : Bool) : List Call :=
  n.peerIds.map fun pid => .send pid (.appendEntries (n.appendEntriesFor heartbeatOnly pid))

/-- The RequestVote messages of a node that became candidate. -/
def voteCalls (n : RaftNode) : List Call :=
  n.peerIds.map fun pid => .send pid (.requestVote
    { term := n.currentTerm
      candidateId := n.nodeId
      lastLogIndex := n.getLastLogIndex
      lastLogTerm := n.getLastLogTerm })

/-- The checks an AppendEntries request passes before it is merged. -/
def Accepts (n : RaftNode) (req : AppendEntriesRequest) : Prop :=
  n.currentTerm ≤ req.term ∧ req.prevLogIndex ≤ n.getLastLogIndex ∧
    (0 < req.prevLogIndex → (n.getLogEntry req.prevLogIndex).term = req.prevLogTerm)

instance (n : RaftNode) (req : AppendEntriesRequest) : Decidable (n.Accepts req) :=
  inferInstanceAs (Decidable (_ ∧ _ ∧ _))

/-- The log after the merge of an accepted request. -/
def mergedLog (n : RaftNode) (req : AppendEntriesRequest) : List LogEntry :=
  mergeEntries n.log req.prevLogIndex req.entries

/-- The commit index after the merge of an accepted request. -/
def mergedCommit (n : RaftNode) (req : AppendEntriesRequest) : Nat :=
  if req.leaderCommit > n.commitIndex
    then min req.leaderCommit ((n.mergedLog req).length - 1) else n.commitIndex

/-- The ways a node can react to an input: `Reacts n env input n' reply`. -/
inductive Reacts (n : RaftNode) (env : Env) : Input → RaftNode → Option RaftMessage → Prop
  /-- Nothing happens: no timeout, not the leader, or a response that is ignored. -/
  | idle {input : Input} : Reacts n env input n none
  | timeout (hstate : n.state ≠ .leader) :
      Reacts n env .tick
        (let m : RaftNode := { n with
          state := .candidate
          currentTerm := n.currentTerm + 1
          votedFor := n.nodeId
          leaderId := 0
          votesReceived := 1
          lastHeartbeat := env.now
          electionTimeoutMs := env.timeout }
        { m with calls := n.calls ++
            .persist m.currentTerm m.votedFor m.log :: m.voteCalls }) none
  | leaderTick (hstate : n.state = .leader) (heartbeat : Nat) (cs : List Call)
      (hcs : cs = [] ∨ cs = n.appendCalls true) :
      Reacts n env .tick
        { n with
          lastHeartbeat := heartbeat
          commitIndex := n.advanceLoop n.getLastLogIndex
          lastApplied := max n.lastApplied (n.advanceLoop n.getLastLogIndex)
          calls := n.calls ++ (cs ++ applyCalls n.log n.lastApplied
            (n.advanceLoop n.getLastLogIndex - n.lastApplied)) } none
  | proposed (hstate : n.state = .leader) (command : Bytes) :
      Reacts n env (.propose command)
        (let index := n.getLastLogIndex + 1
        let m : RaftNode := { n with
          log := n.log ++ [{ term := n.currentTerm, index := index, command := command }]
          matchIndex := Function.update n.matchIndex n.nodeId index
          nextIndex := Function.update n.nextIndex n.nodeId (index + 1) }
        { m with calls := n.calls ++
            .persist m.currentTerm m.votedFor m.log :: m.appendCalls false }) none
  | voteRefused (src : Nat) (req : RequestVoteRequest) :
      Reacts n env (.message src (.requestVote req)) (n.catchUp env req.term)
        (some (.requestVoteResp ⟨(n.catchUp env req.term).currentTerm, false⟩))
  | voteGranted (src : Nat) (req : RequestVoteRequest) (hterm : n.currentTerm ≤ req.term)
      (hvote : (n.catchUp env req.term).votedFor = 0
        ∨ (n.catchUp env req.term).votedFor = req.candidateId)
      (hlog : n.upToDate req) :
      Reacts n env (.message src (.requestVote req))
        (let m := n.catchUp env req.term
        { m with
          votedFor := req.candidateId
          lastHeartbeat := env.now
          calls := m.calls ++ [.persist m.currentTerm req.candidateId m.log] })
        (some (.requestVoteResp ⟨(n.catchUp env req.term).currentTerm, true⟩))
  | steppedDown (src : Nat) (resp : RequestVoteResponse) (hterm : n.currentTerm < resp.term) :
      Reacts n env (.message src (.requestVoteResp resp)) (n.becomeFollower env resp.term) none
  | counted (src : Nat) (resp : RequestVoteResponse) (hterm : resp.term = n.currentTerm)
      (hstate : n.state = .candidate) (votes : Nat)
      (hvotes : votes = n.votesReceived + if resp.voteGranted then 1 else 0) :
      Reacts n env (.message src (.requestVoteResp resp)) { n with votesReceived := votes } none
  | elected (src : Nat) (resp : RequestVoteResponse) (hterm : resp.term = n.currentTerm)
      (hstate : n.state = .candidate) (votes : Nat)
      (hvotes : votes = n.votesReceived + if resp.voteGranted then 1 else 0)
      (hmajority : n.majority ≤ votes) :
      Reacts n env (.message src (.requestVoteResp resp))
        ({ n with votesReceived := votes }.becomeLeader env) none
  | appendStale (src : Nat) (req : AppendEntriesRequest) (hterm : req.term < n.currentTerm) :
      Reacts n env (.message src (.appendEntries req)) n
        (some (.appendEntriesResp ⟨n.currentTerm, false, 0⟩))
  | appendMismatch (src : Nat) (req : AppendEntriesRequest) (hterm : n.currentTerm ≤ req.term)
      (hrejects : ¬ n.Accepts req) (index : Nat) :
      Reacts n env (.message src (.appendEntries req))
        { n.catchUp env req.term with lastHeartbeat := env.now, leaderId := req.leaderId }
        (some (.appendEntriesResp ⟨(n.catchUp env req.term).currentTerm, false, index⟩))
  | appendAccepted (src : Nat) (req : AppendEntriesRequest) (haccepts : n.Accepts req) :
      Reacts n env (.message src (.appendEntries req))
        (let m := n.catchUp env req.term
        { m with
          lastHeartbeat := env.now
          leaderId := req.leaderId
          log := n.mergedLog req
          commitIndex := n.mergedCommit req
          lastApplied := max n.lastApplied (n.mergedCommit req)
          calls := m.calls ++ .persist m.currentTerm m.votedFor (n.mergedLog req) ::
            applyCalls (n.mergedLog req) n.lastApplied (n.mergedCommit req - n.lastApplied) })
        (some (.appendEntriesResp ⟨(n.catchUp env req.term).currentTerm, true,
          (n.mergedLog req).length - 1⟩))
  | matchAdvanced (src : Nat) (resp : AppendEntriesResponse) (hstate : n.state = .leader)
      (hterm : resp.term = n.currentTerm) (hsuccess : resp.success = true)
      (hlt : n.matchIndex src < resp.matchIndex) :
      Reacts n env (.message src (.appendEntriesResp resp))
        { n with
          matchIndex := Function.update n.matchIndex src resp.matchIndex
          nextIndex := Function.update n.nextIndex src (u64 (resp.matchIndex + 1)) } none
  | retried (src : Nat) (resp : AppendEntriesResponse) (hstate : n.state = .leader)
      (hterm : resp.term = n.currentTerm) (hfailure : resp.success = false)
      (next : Nat → Nat) (hnext : ∀ p, next p = n.nextIndex p ∨
        (1 < n.nextIndex p ∧ next p = n.nextIndex p - 1)) :
      Reacts n env (.message src (.appendEntriesResp resp))
        (let m : RaftNode := { n with nextIndex := next }
        { m with calls := n.calls ++ m.appendCalls false }) none

theorem catchUp_of_le {n : RaftNode} {env : Env} {term : Nat} (h : term ≤ n.currentTerm) :
    n.catchUp env term = n := by
  rw [catchUp, if_neg (by omega)]

theorem catchUp_of_lt {n : RaftNode} {env : Env} {term : Nat} (h : n.currentTerm < term) :
    n.catchUp env term = n.becomeFollower env term := by
  rw [catchUp, if_pos h]

section CatchUp

variable (n : RaftNode) (env : Env) (term : Nat)

@[simp] theorem catchUp_currentTerm :
    (n.catchUp env term).currentTerm = max n.currentTerm term := by
  unfold catchUp
  split
  · show term = _
    omega
  · omega

@[simp] theorem catchUp_log : (n.catchUp env term).log = n.log := by
  unfold catchUp; split <;> rfl

@[simp] theorem catchUp_commitIndex : (n.catchUp env term).commitIndex = n.commitIndex := by
  unfold catchUp; split <;> rfl

@[simp] theorem catchUp_lastApplied : (n.catchUp env term).lastApplied = n.lastApplied := by
  unfold catchUp; split <;> rfl

@[simp] theorem catchUp_nodeId : (n.catchUp env term).nodeId = n.nodeId := by
  unfold catchUp; split <;> rfl

@[simp] theorem catchUp_peerIds : (n.catchUp env term).peerIds = n.peerIds := by
  unfold catchUp; split <;> rfl

end CatchUp

private theorem handleRequestVote_reacts (n : RaftNode) (env : Env) (src : Nat)
    (req : RequestVoteRequest) :
    Reacts n env (.message src (.requestVote req)) (n.handleRequestVote env req).1
      (some (.requestVoteResp (n.handleRequestVote env req).2)) := by
  have hlog : (n.catchUp env req.term).upToDate req = n.upToDate req := by
    simp [upToDate, getLastLogTerm]
  unfold handleRequestVote
  by_cases hgrant : req.term ≥ (n.catchUp env req.term).currentTerm
      ∧ ((n.catchUp env req.term).votedFor = 0
        ∨ (n.catchUp env req.term).votedFor = req.candidateId)
      ∧ (n.catchUp env req.term).upToDate req
  · have hle := hgrant.1
    rw [catchUp_currentTerm] at hle
    dsimp only
    rw [if_pos hgrant]
    exact .voteGranted src req (by omega) hgrant.2.1 (hlog ▸ hgrant.2.2)
  · dsimp only
    rw [if_neg hgrant]
    exact .voteRefused src req

private theorem processRequestVoteResponse_reacts (n : RaftNode) (env : Env) (src : Nat)
    (resp : RequestVoteResponse) :
    Reacts n env (.message src (.requestVoteResp resp))
      (n.processRequestVoteResponse env src resp.term resp.voteGranted) none := by
  unfold processRequestVoteResponse
  split
  · next h => exact .steppedDown src resp h
  · split
    · exact .idle
    · next h =>
      simp only [not_or, ne_eq, not_not] at h
      dsimp only
      generalize hvotes : (n.votesReceived + if resp.voteGranted then 1 else 0) = votes
      split
      · next hmaj => exact .elected src resp h.1 h.2 votes hvotes.symm hmaj
      · exact .counted src resp h.1 h.2 votes hvotes.symm

private theorem updateCommitIndex_eq (n : RaftNode) (leaderCommit : Nat) :
    n.updateCommitIndex leaderCommit = { n with
      commitIndex := if leaderCommit > n.commitIndex
        then min leaderCommit (n.log.length - 1) else n.commitIndex } := by
  unfold updateCommitIndex
  split
  · rw [getLastLogIndex_eq]
  · rfl

theorem handleAppendEntries_reacts (n : RaftNode) (env : Env) (src : Nat)
    (req : AppendEntriesRequest) :
    Reacts n env (.message src (.appendEntries req)) (n.handleAppendEntries env req).1
      (some (.appendEntriesResp (n.handleAppendEntries env req).2)) := by
  unfold handleAppendEntries
  by_cases hstale : req.term < n.currentTerm
  · rw [if_pos hstale]
    exact .appendStale src req hstale
  rw [if_neg hstale]
  have hterm : n.currentTerm ≤ req.term := by omega
  -- the election timer is reset before the term is looked at
  have hm : ({ n with lastHeartbeat := env.now } : RaftNode).catchUp env req.term
      = { n.catchUp env req.term with lastHeartbeat := env.now } := by
    unfold catchUp; split <;> rfl
  dsimp only
  rw [hm]
  -- the two ways in which the consistency check fails
  by_cases hprev : req.prevLogIndex > n.log.length - 1
  · rw [if_pos (by rw [getLastLogIndex_eq, catchUp_log]; exact hprev)]
    have hrej : ¬ n.Accepts req := fun ha => by
      have := ha.2.1
      rw [getLastLogIndex_eq] at this
      omega
    exact .appendMismatch src req hterm hrej _
  rw [if_neg (by rw [getLastLogIndex_eq, catchUp_log]; exact hprev)]
  by_cases hmis : req.prevLogIndex > 0 ∧
      (n.log.getD req.prevLogIndex default).term ≠ req.prevLogTerm
  · rw [if_pos (by rw [getLogEntry, catchUp_log]; exact hmis)]
    have hrej : ¬ n.Accepts req := fun ha => hmis.2 (ha.2.2 hmis.1)
    exact .appendMismatch src req hterm hrej _
  rw [if_neg (by rw [getLogEntry, catchUp_log]; exact hmis)]
  have hacc : n.Accepts req := by
    refine ⟨hterm, ?_, fun hpos => ?_⟩
    · rw [getLastLogIndex_eq]; omega
    · by_contra hne
      exact hmis ⟨hpos, hne⟩
  rw [updateCommitIndex_eq, applyEntries_eq]
  dsimp only [persist, call]
  rw [catchUp_commitIndex, catchUp_lastApplied, catchUp_log, List.append_assoc,
    getLastLogIndex_eq]
  exact .appendAccepted src req hacc

private theorem processAppendEntriesResponse_reacts (n : RaftNode) (env : Env) (src : Nat)
    (resp : AppendEntriesResponse) :
    Reacts n env (.message src (.appendEntriesResp resp))
      (n.processAppendEntriesResponse src resp.term resp.success resp.matchIndex) none := by
  unfold processAppendEntriesResponse
  split
  · exact .idle
  · next h =>
    simp only [not_or, ne_eq, not_not] at h
    split
    · next hs =>
      split
      · next hlt => exact .matchAdvanced src resp h.1 h.2 hs hlt
      · exact .idle
    · next hs =>
      have hfail : resp.success = false := by simpa using hs
      dsimp only
      split
      · next hlt =>
        refine .retried src resp h.1 h.2 hfail _ fun p => ?_
        -- only the index of the peer that refused goes back
        by_cases hp : p = src
        · subst hp
          rw [Function.update_self]
          exact .inr ⟨hlt, rfl⟩
        · exact .inl (Function.update_of_ne hp _ _)
      · exact .retried src resp h.1 h.2 hfail n.nextIndex fun p => .inl rfl

private theorem advanceCommitIndex_applyEntries (n : RaftNode) (hleader : n.state = .leader) :
    n.advanceCommitIndex.applyEntries = { n with
      commitIndex := n.advanceLoop n.getLastLogIndex
      lastApplied := max n.lastApplied (n.advanceLoop n.getLastLogIndex)
      calls := n.calls ++ applyCalls n.log n.lastApplied
        (n.advanceLoop n.getLastLogIndex - n.lastApplied) } := by
  rw [applyEntries_eq, advanceCommitIndex, if_neg (by simp [hleader])]

/-- The commit loop reads neither the clock nor the callbacks. -/
private theorem advanceLoop_frame (n : RaftNode) (heartbeat : Nat) (cs : List Call) (last : Nat) :
    { n with lastHeartbeat := heartbeat, calls := cs }.advanceLoop last = n.advanceLoop last := by
  induction last with
  | zero => rfl
  | succ i ih =>
    simp only [advanceLoop, ih]
    rfl

private theorem tick_reacts (n : RaftNode) (env : Env) :
    Reacts n env .tick (n.tick env) none := by
  unfold tick
  -- the first branch of `tick` never runs for a leader, the second for nobody else
  by_cases hleader : n.state = .leader
  · have hno : ¬ ((n.state = .follower ∨ n.state = .candidate)
        ∧ env.now - n.lastHeartbeat ≥ n.electionTimeoutMs) := by simp [hleader]
    dsimp only
    rw [if_neg hno, if_pos hleader]
    split
    · dsimp only [sendAppendEntries, callAll]
      rw [advanceCommitIndex_applyEntries _ (by exact hleader), getLastLogIndex_eq,
        advanceLoop_frame, ← getLastLogIndex_eq]
      have := @Reacts.leaderTick n env hleader env.now (n.appendCalls true) (.inr rfl)
      rw [← List.append_assoc] at this
      exact this
    · rw [advanceCommitIndex_applyEntries _ hleader]
      exact Reacts.leaderTick hleader n.lastHeartbeat [] (.inl rfl)
  · dsimp only
    split
    · -- the election has made the node a candidate, so the heartbeat branch is skipped
      rw [if_neg (by simp [becomeCandidate, startElection, persist, call, callAll])]
      have := @Reacts.timeout n env hleader
      dsimp only [becomeCandidate, startElection, persist, call, callAll]
      rw [List.append_assoc]
      exact this
    · exact .idle

/-- Every step of a node is one of the listed reactions. -/
theorem react_cases (n : RaftNode) (env : Env) (input : Input) :
    Reacts n env input (n.react env input).1 (n.react env input).2 := by
  match input with
  | .tick => exact n.tick_reacts env
  | .propose command =>
    unfold react propose
    dsimp only
    split
    · exact .idle
    · next h =>
      have := @Reacts.proposed n env (not_not.mp h) command
      dsimp only [persist, call, callAll, sendAppendEntries]
      rw [List.append_assoc]
      exact this
  | .message src (.requestVote req) => exact n.handleRequestVote_reacts env src req
  | .message src (.requestVoteResp resp) => exact n.processRequestVoteResponse_reacts env src resp
  | .message src (.appendEntries req) => exact n.handleAppendEntries_reacts env src req
  | .message src (.appendEntriesResp resp) =>
    exact n.processAppendEntriesResponse_reacts env src resp

end RaftNode

end Dkv
