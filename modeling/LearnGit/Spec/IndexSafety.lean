import LearnGit.Native.CheckedNode
import LearnGit.Spec.RaftClusterSteps

/-!
# Every access to the log is in bounds

`commitIndex_` may point past the end of the log: a merge that truncates does not look at
it. What holds between two calls is that it never runs ahead of `lastApplied_`, so the
apply loop only starts where the commit index was raised in the same call, and there it is
bounded by the last index. With the sentinel in front, the checked node then never fails,
and it does what `RaftNode` does.

## Key results

- `Checked.react_eq`: on a node with indices in order every access is in bounds
- `Checked.react_eq_of_lt`: and as long as terms do not wrap around, a call is one of `RaftNode`
- `Indexed.react`: a call keeps them in order
- `accesses_in_bounds`: no call of any run has an access out of bounds
-/

namespace Dkv

open Transition RaftNode

/-- What holds of the indices between two calls. -/
structure Indexed (n : RaftNode) : Prop where
  sentinel : n.log[0]? = some { term := 0, index := 0 }
  commit_le : n.commitIndex ≤ n.lastApplied
  size_le : n.log.length ≤ maxLogSize

theorem Indexed.length_pos {n : RaftNode} (hn : Indexed n) : 0 < n.log.length :=
  (List.getElem?_eq_some_iff.mp hn.sentinel).1

/-- A merge leaves what stands up to the position it starts behind. -/
theorem take_mergeEntries (log es : List LogEntry) {idx : Nat} (hidx : idx < log.length) :
    (mergeEntries log idx es).take (idx + 1) = log.take (idx + 1) :=
  (mergeEntries_splice log es hidx).take_eq

namespace Checked

variable {n : RaftNode}

/-! ## Sending -/

private theorem mapM_range' (log : List LogEntry) (lo k : Nat) (h : lo + k ≤ log.length) :
    (List.range' lo k).mapM (fun i => log[i]?) = some ((log.drop lo).take k) := by
  induction k generalizing lo with
  | zero => simp
  | succ k ih =>
    have hlo : lo < log.length := by omega
    have hrest := ih (lo + 1) (by omega)
    rw [List.range'_succ, List.mapM_cons, List.getElem?_eq_getElem hlo, hrest,
      List.drop_eq_getElem_cons hlo, List.take_succ_cons]
    rfl

/-- The loop over the entries from `nextIdx` on reads up to the last one. -/
theorem entriesFrom_eq {nextIdx : Nat} (hpos : 0 < n.log.length)
    (hnext : nextIdx ≤ n.getLastLogIndex) :
    entriesFrom n nextIdx = some (n.log.drop nextIdx) := by
  rw [getLastLogIndex_eq] at hnext
  have hend : nextIdx + (n.getLastLogIndex + 1 - nextIdx) = n.log.length := by
    rw [getLastLogIndex_eq]
    omega
  have hread := mapM_range' n.log nextIdx (n.getLastLogIndex + 1 - nextIdx) (by omega)
  rw [List.take_of_length_le (by rw [List.length_drop]; omega)] at hread
  exact hread

theorem appendEntriesFor_eq (hpos : 0 < n.log.length) (heartbeatOnly : Bool) (pid : Nat) :
    appendEntriesFor n heartbeatOnly pid = some (n.appendEntriesFor heartbeatOnly pid) := by
  unfold appendEntriesFor RaftNode.appendEntriesFor
  by_cases hread : (!heartbeatOnly && decide (n.nextIndex pid ≤ n.getLastLogIndex)) = true
  · have hnext : n.nextIndex pid ≤ n.getLastLogIndex := by
      simp only [Bool.and_eq_true, decide_eq_true_eq] at hread
      exact hread.2
    simp only [if_pos hread, entriesFrom_eq hpos hnext]
    rfl
  · simp only [if_neg hread]
    rfl

theorem sendAppendEntries_eq (hpos : 0 < n.log.length) (heartbeatOnly : Bool) :
    sendAppendEntries n heartbeatOnly = some (n.sendAppendEntries heartbeatOnly) := by
  -- every request of the loop over the peers is defined, so the loop is a `map`
  simp only [sendAppendEntries, appendEntriesFor_eq hpos]
  have hsend := List.mapM_pure (m := Option) (l := n.peerIds)
    (f := fun pid => Call.send pid (.appendEntries (n.appendEntriesFor heartbeatOnly pid)))
  simp only [Option.pure_def] at hsend
  simp only [Option.pure_def, Option.bind_eq_bind, Option.bind_some, hsend]
  rfl

theorem becomeLeader_eq (hpos : 0 < n.log.length) (env : Env) :
    becomeLeader n env = some (n.becomeLeader env) := by
  unfold becomeLeader RaftNode.becomeLeader
  dsimp only
  rw [sendAppendEntries_eq]
  exact hpos

/-! ## Committing and applying -/

/-- Within the log the bounds test of `getLogEntry` changes nothing. -/
theorem entryAt_eq {i : Nat} (hi : i < n.log.length) : entryAt n i = some (n.getLogEntry i) := by
  rw [entryAt, List.getElem?_eq_getElem hi, getLogEntry_eq (List.getElem?_eq_getElem hi)]

theorem advanceLoop_eq {last : Nat} (hlast : last < n.log.length) :
    advanceLoop n last = some (n.advanceLoop last) := by
  induction last with
  | zero => rfl
  | succ i ih =>
    have hbelow := ih (by omega)
    rw [advanceLoop, RaftNode.advanceLoop, entryAt_eq hlast, hbelow]
    simp only [Option.bind_eq_bind, Option.bind_some, Option.pure_def]
    split
    · split
      · rfl
      · split <;> rfl
    · rfl

/-- Every access of the commit loop is in bounds, also in a log without the sentinel. -/
theorem advanceCommitIndex_eq (n : RaftNode) :
    advanceCommitIndex n = some n.advanceCommitIndex := by
  unfold advanceCommitIndex RaftNode.advanceCommitIndex
  split
  · rfl
  · have hloop : advanceLoop n n.getLastLogIndex = some (n.advanceLoop n.getLastLogIndex) := by
      rcases Nat.eq_zero_or_pos n.getLastLogIndex with hzero | hpos
      · rw [hzero]
        rfl
      · rw [getLastLogIndex_eq] at hpos
        exact advanceLoop_eq (by rw [getLastLogIndex_eq]; omega)
    rw [hloop]
    rfl

theorem applyLoop_eq {k : Nat} (hend : k = 0 ∨ n.lastApplied + k < n.log.length) :
    applyLoop k n = some (n.applyLoop k) := by
  induction k generalizing n with
  | zero => rfl
  | succ k ih =>
    have hlt : n.lastApplied + 1 < n.log.length := by omega
    rw [applyLoop, RaftNode.applyLoop, entryAt_eq hlt]
    -- the rest of the loop starts one position further
    apply ih
    show k = 0 ∨ n.lastApplied + 1 + k < n.log.length
    omega

/-- The apply loop stops at the commit index: it reads nothing, or nothing past the end. -/
theorem applyEntries_eq (h : n.commitIndex ≤ n.lastApplied ∨ n.commitIndex < n.log.length) :
    applyEntries n = some n.applyEntries := by
  apply applyLoop_eq
  omega

/-! ## The merge -/

/-- No `resize` in the loop grows the log, and its index does not wrap around. -/
theorem mergeEntries_eq {log es : List LogEntry} {idx : Nat} (hidx : idx < log.length)
    (hsize : idx + es.length < 2 ^ 64) :
    mergeEntries log idx es = some (RaftNode.mergeEntries log idx es) := by
  induction es generalizing log idx with
  | nil => rfl
  | cons e es ih =>
    -- `++idx` does not wrap around
    have hnext : u64 (idx + 1) = idx + 1 := by
      rw [List.length_cons] at hsize
      exact Nat.mod_eq_of_lt (by omega)
    have hrest : idx + 1 + es.length < 2 ^ 64 := by
      rw [List.length_cons] at hsize
      omega
    rw [mergeEntries, RaftNode.mergeEntries, hnext]
    simp only [shrink]
    split
    · next hcut =>
      -- a conflict: the log is cut where the entry belongs
      rw [if_pos (by omega), Option.bind_eq_bind, Option.bind_some]
      apply ih _ hrest
      rw [resize_of_le (by omega)]
      split
      · rw [List.length_append, List.length_take, List.length_singleton]
        omega
      · next hend =>
        rw [List.length_take] at hend ⊢
        omega
    · rw [Option.bind_eq_bind, Option.bind_some]
      apply ih _ hrest
      split
      · rw [List.length_append, List.length_singleton]
        omega
      · omega

/-! ## The public functions -/

theorem propose_eq (command : Bytes) : propose n command = some (n.propose command) := by
  unfold propose RaftNode.propose
  split
  · rfl
  · dsimp only
    rw [sendAppendEntries_eq (by simp [persist, call])]
    rfl

theorem processRequestVoteResponse_eq (hpos : 0 < n.log.length) (env : Env)
    (fromPeer respTerm : Nat) (voteGranted : Bool) :
    processRequestVoteResponse n env fromPeer respTerm voteGranted =
      some (n.processRequestVoteResponse env fromPeer respTerm voteGranted) := by
  unfold processRequestVoteResponse RaftNode.processRequestVoteResponse
  split
  · rfl
  · split
    · rfl
    · dsimp only
      generalize (n.votesReceived + if voteGranted then 1 else 0) = votes
      split
      · rw [becomeLeader_eq]
        exact hpos
      · rfl

theorem processAppendEntriesResponse_eq (hpos : 0 < n.log.length) (fromPeer term : Nat)
    (success : Bool) (matchIndex : Nat) :
    processAppendEntriesResponse n fromPeer term success matchIndex =
      some (n.processAppendEntriesResponse fromPeer term success matchIndex) := by
  unfold processAppendEntriesResponse RaftNode.processAppendEntriesResponse
  split
  · rfl
  · split
    · split <;> rfl
    · dsimp only
      rw [sendAppendEntries_eq]
      split <;> exact hpos

/-- A commit index that was raised points into the log; one that was not asks for nothing. -/
private theorem applyEntries_updateCommitIndex_eq (hpos : 0 < n.log.length)
    (hcommit : n.commitIndex ≤ n.lastApplied) (leaderCommit : Nat) :
    applyEntries (n.updateCommitIndex leaderCommit).persist =
      some (n.updateCommitIndex leaderCommit).persist.applyEntries := by
  apply applyEntries_eq
  unfold updateCommitIndex
  split
  · right
    show min leaderCommit n.getLastLogIndex < n.log.length
    rw [getLastLogIndex_eq]
    omega
  · left
    exact hcommit

theorem handleAppendEntries_eq (hn : Indexed n) (env : Env) {req : AppendEntriesRequest}
    (hsized : req.entries.length < 2 ^ 31) :
    handleAppendEntries n env req = some (n.handleAppendEntries env req) := by
  have hpos := hn.length_pos
  have hsize := hn.size_le
  have hcommit := hn.commit_le
  unfold handleAppendEntries RaftNode.handleAppendEntries
  split
  · rfl
  · dsimp only
    -- the node with the term of the request has the log and the positions of `n`
    generalize hm : RaftNode.catchUp _ env req.term = m
    have hlog : m.log = n.log := by rw [← hm, catchUp_log]
    have hindex : m.commitIndex ≤ m.lastApplied := by
      rw [← hm, catchUp_commitIndex, catchUp_lastApplied]
      exact hcommit
    split
    · rfl
    · next hprev =>
      split
      · rfl
      · have hidx : req.prevLogIndex < m.log.length := by
          rw [getLastLogIndex_eq] at hprev
          rw [hlog] at hprev ⊢
          omega
        have hmerge : mergeEntries m.log req.prevLogIndex req.entries =
            some (RaftNode.mergeEntries m.log req.prevLogIndex req.entries) := by
          apply mergeEntries_eq hidx
          rw [hlog] at hidx
          unfold maxLogSize at hsize
          omega
        have hpos' : 0 < (RaftNode.mergeEntries m.log req.prevLogIndex req.entries).length := by
          -- the entries up to `prevLogIndex` are kept
          have htake := congrArg List.length (take_mergeEntries m.log req.entries hidx)
          rw [List.length_take, List.length_take] at htake
          omega
        rw [hmerge, Option.bind_eq_bind, Option.bind_some, applyEntries_updateCommitIndex_eq]
        · rfl
        · exact hpos'
        · exact hindex

/-- The timeout of a node whose term does not wrap around. -/
theorem becomeCandidate_eq (env : Env) (hterm : n.currentTerm + 1 < 2 ^ 64) :
    becomeCandidate n env = n.becomeCandidate env := by
  unfold becomeCandidate RaftNode.becomeCandidate u64
  rw [Nat.mod_eq_of_lt hterm]

/-- The commit index a leader finds points into the log, or it is the old one. -/
private theorem advanceCommitIndex_applyEntries_eq (hpos : 0 < n.log.length)
    (hcommit : n.commitIndex ≤ n.lastApplied) :
    (advanceCommitIndex n).bind applyEntries = some n.advanceCommitIndex.applyEntries := by
  rw [advanceCommitIndex_eq, Option.bind_some]
  apply applyEntries_eq
  unfold RaftNode.advanceCommitIndex
  split
  · left
    exact hcommit
  · show n.advanceLoop n.getLastLogIndex ≤ n.lastApplied ∨
      n.advanceLoop n.getLastLogIndex < n.log.length
    have hspec := n.advanceLoop_spec n.getLastLogIndex
    rw [getLastLogIndex_eq] at hspec ⊢
    omega

/-- A tick is that of `RaftNode`, or a timeout. -/
theorem tick_eq (hn : Indexed n) (env : Env) :
    tick n env = some (n.tick env) ∨
      (tick n env = some (becomeCandidate n env) ∧ n.tick env = n.becomeCandidate env) := by
  have hpos := hn.length_pos
  have hcommit := hn.commit_le
  unfold tick RaftNode.tick
  dsimp only
  by_cases htimeout : (n.state = .follower ∨ n.state = .candidate) ∧
      env.now - n.lastHeartbeat ≥ n.electionTimeoutMs
  · right
    simp only [if_pos htimeout]
    exact ⟨rfl, rfl⟩
  · left
    simp only [if_neg htimeout]
    split
    · -- heartbeats do not touch what the leader then advances and applies
      split
      · rw [sendAppendEntries_eq (by exact hpos), Option.bind_eq_bind, Option.bind_some]
        exact advanceCommitIndex_applyEntries_eq hpos hcommit
      · exact advanceCommitIndex_applyEntries_eq hpos hcommit
    · rfl

/-- On a node with its indices in order a call has no access out of bounds, and it is a call
    of `RaftNode`, up to the term of a new candidate. -/
theorem react_eq (hn : Indexed n) (env : Env) {input : Input} (hsized : input.Sized) :
    react n env input = some (n.react env input) ∨
      (input = .tick ∧ react n env input = some (becomeCandidate n env, none) ∧
        n.react env input = (n.becomeCandidate env, none)) := by
  cases input with
  | tick =>
    cases tick_eq hn env with
    | inl heq =>
      left
      show (tick n env).bind _ = _
      rw [heq]
      rfl
    | inr htimeout =>
      right
      refine ⟨rfl, ?_, ?_⟩
      · show (tick n env).bind _ = _
        rw [htimeout.1]
        rfl
      · show (n.tick env, none) = _
        rw [htimeout.2]
  | propose command =>
    left
    show (propose n command).bind _ = _
    rw [propose_eq]
    rfl
  | message fromNode msg =>
    left
    cases msg with
    | requestVote req => rfl
    | requestVoteResp resp =>
      show (processRequestVoteResponse n env fromNode resp.term resp.voteGranted).bind _ = _
      rw [processRequestVoteResponse_eq hn.length_pos]
      rfl
    | appendEntries req =>
      show (handleAppendEntries n env req).bind _ = _
      rw [handleAppendEntries_eq hn env hsized]
      rfl
    | appendEntriesResp resp =>
      show (processAppendEntriesResponse n fromNode resp.term resp.success
        resp.matchIndex).bind _ = _
      rw [processAppendEntriesResponse_eq hn.length_pos]
      rfl

/-- Below the last term the checked node and `RaftNode` do the same. -/
theorem react_eq_of_lt (hn : Indexed n) (hterm : n.currentTerm + 1 < 2 ^ 64) (env : Env)
    {input : Input} (hsized : input.Sized) : react n env input = some (n.react env input) := by
  cases react_eq hn env hsized with
  | inl heq => exact heq
  | inr htimeout =>
    obtain ⟨-, heq, heq'⟩ := htimeout
    rw [heq, heq', becomeCandidate_eq env hterm]

end Checked

/-! ## Runs -/

section Indexed

variable {n n' : RaftNode} {env : Env} {input : Input} {reply : Option RaftMessage}

/-- A merge writes behind the sentinel, and an append behind the last entry. -/
theorem RaftNode.Reacts.sentinel (hreact : n.Reacts env input n' reply)
    (hsentinel : n.log[0]? = some { term := 0, index := 0 }) :
    n'.log[0]? = some { term := 0, index := 0 } := by
  have hpos := (List.getElem?_eq_some_iff.mp hsentinel).1
  cases hreact.logStep with
  | same hlog => rwa [hlog]
  | append _ _ _ _ hlog => rwa [hlog, List.getElem?_append_left hpos]
  | merge _ req haccepts _ hlog =>
    have hprev := haccepts.2.1
    rw [getLastLogIndex_eq] at hprev
    have hidx : req.prevLogIndex < n.log.length := by omega
    have hkept := take_mergeEntries n.log req.entries hidx
    rw [hlog, mergedLog, ← hsentinel]
    exact ReplicatedLog.getElem?_eq_of_take_eq hkept (Nat.succ_pos _)

/-- Whatever raises the commit index applies up to it. -/
theorem RaftNode.Reacts.commit_le (hreact : n.Reacts env input n' reply)
    (hcommit : n.commitIndex ≤ n.lastApplied) : n'.commitIndex ≤ n'.lastApplied := by
  cases hreact.commitStep with
  -- `advance` and `follow` end with `applyEntries`
  | same hcommit' happlied => omega
  | advance _ _ _ _ _ happlied => omega
  | follow _ _ _ _ _ _ happlied => omega

/-- What a call leaves behind is in order again, up to the size of the log. -/
theorem Indexed.react (hn : Indexed n) (env : Env) (hsized : input.Sized) :
    ∃ r, Checked.react n env input = some r ∧
      r.1.log[0]? = some { term := 0, index := 0 } ∧ r.1.commitIndex ≤ r.1.lastApplied := by
  cases Checked.react_eq hn env hsized with
  | inl heq =>
    have hreact := n.react_cases env input
    exact ⟨_, heq, hreact.sentinel hn.sentinel, hreact.commit_le hn.commit_le⟩
  | inr htimeout => exact ⟨_, htimeout.2.1, hn.sentinel, hn.commit_le⟩

end Indexed

variable {nodeId : Nat} {peerIds : List Nat} {h : List (RaftNode × Env × Input)} {n : RaftNode}

theorem Checked.step_eq_some {n' : RaftNode} {e : Env × Input} (hstep : Checked.step n e = some n') :
    e.2.Sized ∧ n'.log.length ≤ maxLogSize ∧ ∃ reply, Checked.react n e.1 e.2 = some (n', reply) := by
  obtain ⟨r, hr, hif⟩ := Option.bind_eq_some_iff.mp hstep
  split at hif
  · next hfits =>
    obtain rfl := Option.some.inj hif
    exact ⟨hfits.1, hfits.2, r.2, hr⟩
  · exact nomatch hif

theorem indexed_of_run (hrun : Run (nodeSystem nodeId peerIds) h n) : Indexed n := by
  refine hrun.rec_on_run (P := fun _ n => Indexed n) ?init ?step
  case init =>
    intro n hinit
    obtain ⟨env, rfl | ⟨term, votedFor, log, hsize, rfl⟩⟩ := hinit
    · exact ⟨rfl, Nat.le_refl 0, show 1 ≤ maxLogSize by decide⟩
    · exact ⟨rfl, Nat.le_refl 0, hsize⟩
  case step =>
    intro h n e n' _ hn hstep
    obtain ⟨hsized, hfits, reply, hreact⟩ := Checked.step_eq_some hstep
    obtain ⟨r, hr, hsentinel, hcommit⟩ := hn.react e.1 hsized
    obtain rfl := Option.some.inj (hreact.symm.trans hr)
    exact ⟨hsentinel, hcommit, hfits⟩

/-- A step of the checked node is a step of `RaftNode`, up to the term of a new candidate. -/
theorem nodeSystem_step_cases {n' : RaftNode} {e : Env × Input}
    (hrun : Run (nodeSystem nodeId peerIds) h n)
    (hstep : (nodeSystem nodeId peerIds).step n e = some n') :
    n' = (n.react e.1 e.2).1 ∨ (e.2 = .tick ∧ n' = Checked.becomeCandidate n e.1) := by
  obtain ⟨hsized, -, reply, hreact⟩ := Checked.step_eq_some hstep
  cases Checked.react_eq (indexed_of_run hrun) e.1 hsized with
  | inl heq =>
    left
    rw [← Option.some.inj (hreact.symm.trans heq)]
  | inr htimeout =>
    right
    obtain ⟨htick, heq, -⟩ := htimeout
    exact ⟨htick, congrArg Prod.fst (Option.some.inj (hreact.symm.trans heq))⟩

/-- No call of a run has an access out of bounds or a `resize` that grows the log, and the
    sentinel stays where it is. -/
theorem accesses_in_bounds (hrun : Run (nodeSystem nodeId peerIds) h n) (env : Env)
    {input : Input} (hsized : input.Sized) :
    n.log[0]? = some { term := 0, index := 0 } ∧
      ∃ r, Checked.react n env input = some r ∧
        r.1.log[0]? = some { term := 0, index := 0 } := by
  have hn := indexed_of_run hrun
  obtain ⟨r, hr, hsentinel, -⟩ := hn.react env hsized
  exact ⟨hn.sentinel, r, hr, hsentinel⟩

/-- A loaded entry is applied and then cut off: a commit index of 3 over a log of length 2. -/
def cutInputs : List (Env × Input) :=
  [(atTime 1, .message 2 (.appendEntries
      { term := 1, leaderId := 2, prevLogIndex := 3, prevLogTerm := 1, entries := [],
        leaderCommit := 2 ^ 64 - 1 })),
    (atTime 2, .message 3 (.appendEntries
      { term := 2, leaderId := 3, prevLogIndex := 0, prevLogTerm := 0,
        entries := [{ term := 2, index := 1, command := [] }], leaderCommit := 0 }))]

def cutNode : RaftNode :=
  (RaftNode.new 1 [2, 3] (atTime 0)).loadPersistedState 1 0
    [{ term := 1, index := 1 }, { term := 1, index := 2 }, { term := 1, index := 3 }]

example : ((nodeSystem 1 [2, 3]).exec [] cutNode cutInputs).map
    (fun r => (r.2.commitIndex, r.2.log.length)) = some (3, 2) := by
  rfl

theorem accesses_in_bounds_cut :
    ∃ r, Checked.react
      ((nodeSystem 1 [2, 3]).exec [] cutNode cutInputs |>.get (by rfl)).2 (atTime 400) .tick =
        some r ∧ r.1.log[0]? = some { term := 0, index := 0 } :=
  (accesses_in_bounds (Run.of_exec (S := nodeSystem 1 [2, 3]) (s := cutNode)
    ⟨atTime 0, .inr ⟨1, 0, _, by decide, rfl⟩⟩ (by rfl)) (atTime 400) (by decide)).2

end Dkv
