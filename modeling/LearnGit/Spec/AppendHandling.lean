import LearnGit.Spec.AppendExchange

/-!
# One AppendEntries request at a follower

The merge of an accepted request either extends the log or replaces it from the first
conflict on, and a second handling of the same request changes nothing more. The commit
index follows the leader's as far as the follower's own log reaches. For a request with
entries this is as far as the request vouches for; a heartbeat may leave a stale suffix,
and then the follower commits it.

## Key results

- `handleAppendEntries_exact`: what an accepted request makes of the log, once and twice
- `commits_proved_iff`: when a follower commits only what its leader has
- `commits_unproved`: a heartbeat that makes it commit something else
-/

namespace Dkv

open ReplicatedLog

namespace RaftNode

variable {n : RaftNode} {req : AppendEntriesRequest}

/-! ## Handling an accepted request -/

/-- What an accepted request makes of a node, apart from timers, role and term. -/
theorem handleAppendEntries_of_accepts (env : Env) (haccepts : n.Accepts req) :
    (n.handleAppendEntries env req).1.log = n.mergedLog req ∧
      (n.handleAppendEntries env req).1.commitIndex = n.mergedCommit req ∧
      (n.handleAppendEntries env req).1.lastApplied =
        max n.lastApplied (n.mergedCommit req) ∧
      (n.handleAppendEntries env req).1.currentTerm = req.term ∧
      (n.handleAppendEntries env req).2.success = true := by
  have hreact := n.handleAppendEntries_reacts env 0 req
  generalize (n.handleAppendEntries env req).1 = n' at hreact ⊢
  generalize (n.handleAppendEntries env req).2 = resp at hreact ⊢
  cases hreact with
  | appendStale _ _ hlt => exact absurd haccepts.1 (by omega)
  | appendMismatch _ _ _ hrejects => exact absurd haccepts hrejects
  | appendAccepted =>
    have hterm := haccepts.1
    refine ⟨rfl, rfl, rfl, ?_, rfl⟩
    show (n.catchUp env req.term).currentTerm = req.term
    rw [catchUp_currentTerm]
    omega

/-- A refused request changes neither the log nor the indices. -/
theorem handleAppendEntries_of_not_accepts (env : Env) (hrejects : ¬ n.Accepts req) :
    (n.handleAppendEntries env req).1.log = n.log ∧
      (n.handleAppendEntries env req).1.commitIndex = n.commitIndex ∧
      (n.handleAppendEntries env req).1.lastApplied = n.lastApplied := by
  have hreact := n.handleAppendEntries_reacts env 0 req
  generalize (n.handleAppendEntries env req).1 = n' at hreact ⊢
  generalize (n.handleAppendEntries env req).2 = resp at hreact
  cases hreact with
  | appendStale => exact ⟨rfl, rfl, rfl⟩
  | appendMismatch =>
    exact ⟨catchUp_log _ _ _, catchUp_commitIndex _ _ _, catchUp_lastApplied _ _ _⟩
  | appendAccepted _ _ haccepts => exact absurd haccepts hrejects

end RaftNode

/-! ## The merge -/

/-- The entry at `j` of `es` meets an entry of another term in the log. -/
def Conflict (log : List LogEntry) (prev : Nat) (es : List LogEntry) (j : Nat) : Prop :=
  ∃ e e', es[j]? = some e ∧ log[prev + 1 + j]? = some e' ∧ e'.term ≠ e.term

/-- `log'` is `log` after `es` was written behind position `prev`: without a conflict the
    entries past the end are added, otherwise everything from the first conflict on is
    replaced. -/
structure MergedExactly (log : List LogEntry) (prev : Nat) (es log' : List LogEntry) : Prop where
  extended : (∀ j, ¬ Conflict log prev es j) → log' = log ++ es.drop (log.length - (prev + 1))
  replaced : ∀ j, Conflict log prev es j → (∀ i < j, ¬ Conflict log prev es i) →
    log' = log.take (prev + 1 + j) ++ es.drop j

theorem not_conflict_of_agrees {log es : List LogEntry} {prev j : Nat}
    (hagree : Agrees LogEntry.term log prev es j) : ¬ Conflict log prev es j := by
  rintro ⟨e, e', he, he', hterm⟩
  obtain ⟨e'', he'', hsame⟩ := hagree e he
  rw [he'] at he''
  exact hterm (Option.some.inj he'' ▸ hsame)

/-- Between positions of the log a splice is the exact merge. -/
theorem mergedExactly_of_splice {log es log' : List LogEntry} {prev : Nat}
    (hsplice : Splice LogEntry.term log prev es log') : MergedExactly log prev es log' := by
  cases hsplice with
  | keep hagree =>
    constructor
    · intro _
      -- every entry is in the log already, so none is past its end
      have hle : es.length ≤ log.length - (prev + 1) := by
        by_contra hlt
        have hget := List.getElem?_eq_getElem (by omega : log.length - (prev + 1) < es.length)
        obtain ⟨e', he', -⟩ := hagree _ _ hget
        have := (List.getElem?_eq_some_iff.mp he').1
        omega
      rw [List.drop_eq_nil_of_le hle, List.append_nil]
    · exact fun j hj => absurd hj (not_conflict_of_agrees (hagree j))
  | write k hk hlen hagree hconflict =>
    have hget := List.getElem?_eq_getElem hk
    rcases Nat.lt_or_ge (prev + 1 + k) log.length with hin | hout
    · -- the entry at `k` meets one of another term
      have hk' : Conflict log prev es k := by
        refine ⟨_, _, hget, List.getElem?_eq_getElem hin, fun hterm => hconflict fun e he => ?_⟩
        obtain rfl := Option.some.inj (hget.symm.trans he)
        exact ⟨_, List.getElem?_eq_getElem hin, hterm⟩
      constructor
      · exact fun hnone => absurd hk' (hnone k)
      · intro j hj hfirst
        have hkj : ¬ k < j := fun hlt => hfirst k hlt hk'
        have hjk : ¬ j < k := fun hlt => not_conflict_of_agrees (hagree j hlt) hj
        obtain rfl : j = k := by omega
        rfl
    · -- the entry at `k` is the first one past the end
      constructor
      · intro _
        rw [List.take_of_length_le hout, show log.length - (prev + 1) = k by omega]
      · intro j hj _
        obtain ⟨e, e', -, he', -⟩ := id hj
        have := (List.getElem?_eq_some_iff.mp he').1
        exact absurd hj (not_conflict_of_agrees (hagree j (by omega)))

/-- Nothing that agrees with a request is lost. -/
theorem MergedExactly.isPrefix {log es log' : List LogEntry} {prev : Nat}
    (hmerged : MergedExactly log prev es log') (hnone : ∀ j, ¬ Conflict log prev es j) :
    log <+: log' := by
  rw [hmerged.extended hnone]
  exact List.prefix_append _ _

/-- A splice into a nonempty log is the exact merge, and a second one changes nothing. -/
theorem RaftNode.mergedLog_exact {n : RaftNode} {req : AppendEntriesRequest}
    (hprev : req.prevLogIndex < n.log.length) :
    MergedExactly n.log req.prevLogIndex req.entries (n.mergedLog req) ∧
      mergeEntries (n.mergedLog req) req.prevLogIndex req.entries = n.mergedLog req ∧
      (n.mergedLog req).take (req.prevLogIndex + 1) = n.log.take (req.prevLogIndex + 1) := by
  have hsplice : Splice LogEntry.term n.log req.prevLogIndex req.entries (n.mergedLog req) :=
    mergeEntries_splice _ _ hprev
  have htake := hsplice.take_eq
  have hlt : req.prevLogIndex < (n.mergedLog req).length := by
    have hlen := congrArg List.length htake
    rw [List.length_take, List.length_take] at hlen
    omega
  exact ⟨mergedExactly_of_splice hsplice,
    (mergeEntries_splice _ _ hlt).eq_of_agrees hsplice.agrees, htake⟩

/-- What is asked of handling a request: the merge is exact, and handling the request again
    changes neither log nor commit index, succeeds again and applies nothing. -/
structure HandledExactly (n : RaftNode) (env env' : Env) (req : AppendEntriesRequest) : Prop where
  merged : MergedExactly n.log req.prevLogIndex req.entries (n.handleAppendEntries env req).1.log
  log : ((n.handleAppendEntries env req).1.handleAppendEntries env' req).1.log =
    (n.handleAppendEntries env req).1.log
  commitIndex : ((n.handleAppendEntries env req).1.handleAppendEntries env' req).1.commitIndex =
    (n.handleAppendEntries env req).1.commitIndex
  success : ((n.handleAppendEntries env req).1.handleAppendEntries env' req).2.success =
    (n.handleAppendEntries env req).2.success
  applied : ∀ i command, .apply i command ∉ (n.handleAppendEntries env req).1.newCalls
    ((n.handleAppendEntries env req).1.handleAppendEntries env' req).1

/-- The node accepts the request again. -/
theorem RaftNode.accepts_again {n : RaftNode} {req : AppendEntriesRequest} (env : Env)
    (hlog : n.log ≠ []) (haccepts : n.Accepts req) :
    (n.handleAppendEntries env req).1.Accepts req := by
  obtain ⟨hlog', -, -, hterm, -⟩ := handleAppendEntries_of_accepts env haccepts
  obtain ⟨-, hlast, hprev⟩ := haccepts
  rw [getLastLogIndex_eq] at hlast
  have hpos := List.length_pos_iff.mpr hlog
  have hlt : req.prevLogIndex < n.log.length := by omega
  obtain ⟨-, -, htake⟩ := n.mergedLog_exact hlt
  -- the merge starts behind the entry that the request is checked against
  have hget : (n.mergedLog req)[req.prevLogIndex]? = some n.log[req.prevLogIndex] := by
    rw [getElem?_eq_of_take_eq htake (Nat.lt_succ_self _), List.getElem?_eq_getElem hlt]
  have hlt' := (List.getElem?_eq_some_iff.mp hget).1
  refine ⟨hterm.le, ?_, fun hpos => ?_⟩
  · rw [getLastLogIndex_eq, hlog']
    omega
  · rw [getLogEntry_eq (hlog' ▸ hget), ← hprev hpos, getLogEntry_eq (List.getElem?_eq_getElem hlt)]

/-- The merge of an accepted request is exact and idempotent. -/
theorem RaftNode.handleAppendEntries_exact {n : RaftNode} {req : AppendEntriesRequest}
    (env env' : Env) (hlog : n.log ≠ []) (haccepts : n.Accepts req) :
    HandledExactly n env env' req := by
  have haccepts' := accepts_again env hlog haccepts
  obtain ⟨hlog₁, hcommit₁, happlied₁, -, hsuccess₁⟩ := handleAppendEntries_of_accepts env haccepts
  obtain ⟨hlog₂, hcommit₂, -, -, hsuccess₂⟩ := handleAppendEntries_of_accepts env' haccepts'
  have hpos := List.length_pos_iff.mpr hlog
  have hlast := haccepts.2.1
  rw [getLastLogIndex_eq] at hlast
  obtain ⟨hexact, hidem, -⟩ := n.mergedLog_exact (by omega : req.prevLogIndex < n.log.length)
  have hsame : (n.handleAppendEntries env req).1.mergedLog req = n.mergedLog req := by
    rw [mergedLog, hlog₁]
    exact hidem
  have hcommit : (n.handleAppendEntries env req).1.mergedCommit req = n.mergedCommit req := by
    rw [mergedCommit, hsame, hcommit₁, mergedCommit]
    split
    · split <;> omega
    · rfl
  refine ⟨?_, ?_, ?_, ?_, fun i command hmem => ?_⟩
  · rw [hlog₁]
    exact hexact
  · rw [hlog₂, hsame, hlog₁]
  · rw [hcommit₂, hcommit, hcommit₁]
  · rw [hsuccess₂, hsuccess₁]
  · -- the commit index was applied up to by the first handling
    have hreact := (n.handleAppendEntries env req).1.react_cases env'
      (.message 0 (.appendEntries req))
    obtain ⟨hlo, hhi, -⟩ := hreact.applied hmem
    rw [happlied₁] at hlo
    have hhi : i ≤ ((n.handleAppendEntries env req).1.handleAppendEntries env' req).1.commitIndex :=
      hhi
    rw [hcommit₂, hcommit] at hhi
    omega

/-- A log of two entries and a request that replaces the second one. -/
def staleEntryNode : RaftNode :=
  { RaftNode.new 2 [1, 3] (atTime 0) with
    currentTerm := 1
    log := [default, { term := 1, index := 1, command := [1] },
      { term := 1, index := 2, command := [2] }] }

def replacingRequest : AppendEntriesRequest where
  term := 2
  leaderId := 1
  prevLogIndex := 1
  prevLogTerm := 1
  leaderCommit := 2
  entries := [{ term := 2, index := 2, command := [3] }]

theorem handleAppendEntries_exact_replacing :
    HandledExactly staleEntryNode (atTime 10) (atTime 20) replacingRequest :=
  RaftNode.handleAppendEntries_exact (atTime 10) (atTime 20) (by decide) (by decide)

/-! ## The commit index -/

/-- Both logs hold the same entries at the positions from 1 to `k`. -/
def SameEntries (L log : List LogEntry) (k : Nat) : Prop :=
  ∀ i, 1 ≤ i → i ≤ k → ∃ e, L[i]? = some e ∧ log[i]? = some e

/-- A leader `l` and a node `f` that gets a request built for peer `pid`. -/
structure Follows (l f : RaftNode) (pid : Nat) : Prop where
  sentinel : l.log[0]? = some default
  sentinel' : f.log[0]? = some default
  size_le : l.log.length ≤ maxLogSize
  commit_le : l.commitIndex ≤ l.getLastLogIndex
  next_pos : 1 ≤ l.nextIndex pid
  next_le : l.nextIndex pid ≤ l.getLastLogIndex + 1
  term_le : f.currentTerm ≤ l.currentTerm
  matching : Matching LogEntry.term f.log l.log
  commit_le' : f.commitIndex ≤ l.commitIndex
  agree : SameEntries l.log f.log f.commitIndex

/-- What is committed after a step of `f`, and what is applied in it, is in the log of `l`. -/
def CommitsProved (l f f' : RaftNode) : Prop :=
  SameEntries l.log f'.log f'.commitIndex ∧
    ∀ i command, .apply i command ∈ f.newCalls f' →
      ∃ e, l.log[i]? = some e ∧ command = e.command

/-- An accepted heartbeat that moves the commit index finds an entry of the leader's term at
    the position that it moves to. -/
def NoStaleTarget (l f : RaftNode) (pid : Nat) (heartbeatOnly : Bool) : Prop :=
  heartbeatOnly = true → f.Accepts (l.appendEntriesFor heartbeatOnly pid) →
    f.commitIndex < l.commitIndex →
      SameTermAt LogEntry.term f.log l.log (min l.commitIndex f.getLastLogIndex)

/-- Agreement at the positions is agreement of the logs up to them. -/
theorem sameEntries_iff_take_eq {L log : List LogEntry} {k : Nat} (hzero : L[0]? = log[0]?)
    (hk : k < L.length) : SameEntries L log k ↔ log.take (k + 1) = L.take (k + 1) := by
  constructor
  · intro hagree
    apply List.ext_getElem?
    intro i
    rcases Nat.lt_or_ge i (k + 1) with hlt | hge
    · rw [List.getElem?_take_of_lt hlt, List.getElem?_take_of_lt hlt]
      rcases Nat.eq_zero_or_pos i with rfl | hpos
      · exact hzero.symm
      · obtain ⟨e, he, he'⟩ := hagree i hpos (by omega)
        rw [he, he']
    · rw [List.getElem?_take_eq_none hge, List.getElem?_take_eq_none hge]
  · intro heq i _ hi
    have hget := List.getElem?_eq_getElem (by omega : i < L.length)
    exact ⟨_, hget, (getElem?_eq_of_take_eq heq (by omega)).trans hget⟩

namespace Follows

variable {l f : RaftNode} {pid : Nat} {heartbeatOnly : Bool}

theorem commit_lt (hfollows : Follows l f pid) : l.commitIndex < l.log.length := by
  have hle := hfollows.commit_le
  have hpos := (List.getElem?_eq_some_iff.mp hfollows.sentinel).1
  rw [RaftNode.getLastLogIndex_eq] at hle
  omega

theorem next_le_length (hfollows : Follows l f pid) : l.nextIndex pid ≤ l.log.length := by
  have hle := hfollows.next_le
  have hpos := (List.getElem?_eq_some_iff.mp hfollows.sentinel).1
  rw [RaftNode.getLastLogIndex_eq] at hle
  omega

theorem probes (hfollows : Follows l f pid) (heartbeatOnly : Bool) :
    l.Probes pid (!heartbeatOnly) (l.appendEntriesFor heartbeatOnly pid) :=
  l.probes_appendEntriesFor heartbeatOnly hfollows.next_pos
    (hfollows.next_le_length.trans hfollows.size_le)

/-- What is accepted is a section of the leader's log, behind a common position. -/
theorem mergeSource (hfollows : Follows l f pid)
    (haccepts : f.Accepts (l.appendEntriesFor heartbeatOnly pid)) :
    MergeSource f.log l.log (l.appendEntriesFor heartbeatOnly pid) := by
  have hprobe := hfollows.probes heartbeatOnly
  have hpos := hfollows.next_pos
  have hle := hfollows.next_le_length
  cases hprobe.read with
  | inside prev hK hterm hsec =>
    exact .of_accepts hK hterm hsec (hfollows.sentinel'.trans hfollows.sentinel.symm)
      hfollows.matching haccepts
  | beyond hlen =>
    rw [hprobe.prev] at hlen
    omega

/-- The follower keeps what it had committed. -/
theorem agree_kept (hfollows : Follows l f pid)
    (haccepts : f.Accepts (l.appendEntriesFor heartbeatOnly pid)) :
    SameEntries l.log (f.mergedLog (l.appendEntriesFor heartbeatOnly pid)) f.commitIndex := by
  have hsource := hfollows.mergeSource haccepts
  have hlt := hfollows.commit_le'.trans_lt hfollows.commit_lt
  have htake := (sameEntries_iff_take_eq (hfollows.sentinel.trans hfollows.sentinel'.symm) hlt).mp
    hfollows.agree
  -- what is committed is common to both logs, so no conflict lies in it
  have hpre : l.log.take (f.commitIndex + 1) <+: f.log := by
    rw [← htake]
    exact List.take_prefix _ _
  have hkept := hsource.splice.keeps hsource.sec hpre (.inl (List.take_prefix _ _))
  intro i _ hi
  have hget := List.getElem?_eq_getElem (by omega : i < l.log.length)
  refine ⟨_, hget, getElem?_of_isPrefix hkept ?_⟩
  rw [List.getElem?_take_of_lt (by omega), hget]

/-- A request with entries brings everything over that can be committed. -/
theorem agree_full (hfollows : Follows l f pid)
    (haccepts : f.Accepts (l.appendEntriesFor false pid)) :
    SameEntries l.log (f.mergedLog (l.appendEntriesFor false pid)) l.commitIndex := by
  have hpre := (hfollows.probes false).isPrefix_mergedLog hfollows.next_pos
    (hfollows.mergeSource haccepts) hfollows.matching
  have hlt := hfollows.commit_lt
  intro i _ hi
  have hget := List.getElem?_eq_getElem (by omega : i < l.log.length)
  exact ⟨_, hget, getElem?_of_isPrefix hpre hget⟩

/-- A heartbeat leaves the log alone: agreement is a matter of one position. -/
theorem agree_heartbeat_iff (hfollows : Follows l f pid) :
    SameEntries l.log f.log (min l.commitIndex f.getLastLogIndex) ↔
      SameTermAt LogEntry.term f.log l.log (min l.commitIndex f.getLastLogIndex) := by
  have hlt := hfollows.commit_lt
  have hpos := (List.getElem?_eq_some_iff.mp hfollows.sentinel').1
  have hzero := hfollows.sentinel.trans hfollows.sentinel'.symm
  rw [RaftNode.getLastLogIndex_eq]
  generalize hk : min l.commitIndex (f.log.length - 1) = k
  rw [sameEntries_iff_take_eq hzero (by omega)]
  constructor
  · intro heq
    have hget := List.getElem?_eq_getElem (by omega : k < f.log.length)
    have hsame : f.log[k]? = l.log[k]? := getElem?_eq_of_take_eq heq (Nat.lt_succ_self k)
    exact sameTermAt_iff.mpr ⟨_, _, hget, hsame.symm.trans hget, rfl⟩
  · exact hfollows.matching.take_eq

end Follows

/-- Where the committed positions agree, so do the applied commands. -/
theorem commitsProved_iff {l f : RaftNode} {env : Env} {req : AppendEntriesRequest} :
    CommitsProved l f (f.handleAppendEntries env req).1 ↔
      SameEntries l.log (f.handleAppendEntries env req).1.log
        (f.handleAppendEntries env req).1.commitIndex := by
  refine and_iff_left_of_imp fun hagree i command hmem => ?_
  have hreact := f.handleAppendEntries_reacts env 0 req
  obtain ⟨hlo, hhi, hcommand⟩ := hreact.applied hmem
  obtain ⟨e, he, he'⟩ := hagree i (by omega) hhi
  have hget : ((f.handleAppendEntries env req).1.log.getD i default) = e := by
    rw [List.getD_eq_getElem?_getD, he', Option.getD_some]
  exact ⟨e, he, hcommand.trans (congrArg LogEntry.command hget)⟩

/-- A node commits only what its leader has, exactly if no heartbeat moves its commit index
    to an entry of another term. -/
theorem commits_proved_iff {l f : RaftNode} {pid : Nat} (hfollows : Follows l f pid)
    (heartbeatOnly : Bool) (env : Env) :
    CommitsProved l f (f.handleAppendEntries env (l.appendEntriesFor heartbeatOnly pid)).1 ↔
      NoStaleTarget l f pid heartbeatOnly := by
  rw [commitsProved_iff, NoStaleTarget]
  generalize hreq : l.appendEntriesFor heartbeatOnly pid = req
  by_cases haccepts : f.Accepts req
  · obtain ⟨hlog, hcommit, -⟩ := RaftNode.handleAppendEntries_of_accepts env haccepts
    have hreqCommit : req.leaderCommit = l.commitIndex := by rw [← hreq]; rfl
    rw [hlog, hcommit, RaftNode.mergedCommit, hreqCommit]
    by_cases hlt : f.commitIndex < l.commitIndex
    · rw [if_pos hlt]
      cases heartbeatOnly with
      | true =>
        -- nothing is merged, so the new commit index points into the old log
        have hmerged : f.mergedLog req = f.log := hreq ▸ (hfollows.probes true).mergedLog_heartbeat
        rw [hmerged, ← RaftNode.getLastLogIndex_eq, hfollows.agree_heartbeat_iff]
        exact ⟨fun hsame _ _ _ => hsame, fun hsafe => hsafe rfl haccepts hlt⟩
      | false =>
        refine iff_of_true (fun i hi hle => ?_) fun htrue => absurd htrue (by decide)
        exact hreq ▸ hfollows.agree_full (hreq ▸ haccepts) i hi (by omega)
    · rw [if_neg hlt]
      exact iff_of_true (hreq ▸ hfollows.agree_kept (hreq ▸ haccepts)) fun _ _ h => absurd h hlt
  · obtain ⟨hlog, hcommit, -⟩ := RaftNode.handleAppendEntries_of_not_accepts env haccepts
    rw [hlog, hcommit]
    exact iff_of_true hfollows.agree fun _ h => absurd h haccepts

/-! ### A heartbeat with and without a stale suffix -/

/-- A leader of term 2 that has committed its entry at index 1. -/
def committedLeader : RaftNode :=
  { RaftNode.new 2 [1, 3] (atTime 0) with
    currentTerm := 2
    state := .leader
    log := [default, { term := 2, index := 1, command := [0x62] }]
    commitIndex := 1
    nextIndex := fun _ => 1 }

/-- A node that has not heard of a commit yet, with one entry in its log. -/
def uncommittedNode (entry : LogEntry) : RaftNode :=
  { RaftNode.new 1 [2, 3] (atTime 0) with
    currentTerm := 1
    log := [default, entry] }

theorem uncommittedNode_follows {entry : LogEntry}
    (hentry : entry.term = 2 → entry = { term := 2, index := 1, command := [0x62] }) :
    Follows committedLeader (uncommittedNode entry) 1 where
  sentinel := rfl
  sentinel' := rfl
  size_le := by decide
  commit_le := by decide
  next_pos := by decide
  next_le := by decide
  term_le := Nat.le_succ 1
  matching := by
    intro i e₁ e₂ he₁ he₂ hterm
    match i with
    | 0 => rfl
    | 1 =>
      obtain rfl := Option.some.inj he₁
      obtain rfl := Option.some.inj he₂
      rw [hentry hterm, uncommittedNode, committedLeader]
    | i + 2 => exact absurd he₁ (by simp [uncommittedNode])
  commit_le' := Nat.zero_le 1
  agree i hi hle := absurd (hi.trans hle) (Nat.not_succ_le_zero 0)

theorem commits_proved_replicated :
    CommitsProved committedLeader
      (uncommittedNode { term := 2, index := 1, command := [0x62] })
      ((uncommittedNode { term := 2, index := 1, command := [0x62] }).handleAppendEntries (atTime 9)
        (committedLeader.appendEntriesFor true 1)).1 :=
  (commits_proved_iff (uncommittedNode_follows fun _ => rfl) true (atTime 9)).mpr
    fun _ _ _ => by decide

/-- The entry of term 1 is not the leader's, and is committed. -/
theorem commits_unproved :
    ¬ ∀ (l f : RaftNode) (pid : Nat) (heartbeatOnly : Bool) (env : Env), Follows l f pid →
      CommitsProved l f (f.handleAppendEntries env (l.appendEntriesFor heartbeatOnly pid)).1 := by
  intro hall
  have hproved := hall committedLeader
    (uncommittedNode { term := 1, index := 1, command := [0x61] }) 1 true (atTime 9)
    (uncommittedNode_follows fun h => absurd h (by decide))
  obtain ⟨e, he, he'⟩ := hproved.1 1 (by decide) (by decide)
  obtain rfl := Option.some.inj he
  exact absurd he' (by decide)

end Dkv
