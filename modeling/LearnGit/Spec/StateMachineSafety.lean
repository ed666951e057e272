import LearnGit.Spec.ReplicationProgress

/-!
# State machine safety

What a node has committed is, in runs without a stale suffix, a prefix of a leader's
log that ends at or before an entry a majority held in the leader's own term. By
leader completeness all such prefixes are compatible, so no committed entry is ever
overwritten and no two nodes apply different commands at one index.

## Key results

- `Committed.compatible`: two committed prefixes are prefixes of one log
- `commitInv`: the commit index of every node bounds a committed prefix of its log
- `commit_stable`, `commit_unstable`: what is committed stays, unless a stale suffix was kept
- `apply_agree`, `apply_disagree`: the same for the applied commands
-/

namespace Dkv

open Transition ReplicatedLog

variable {M : Membership} {h : List (Cluster × Event)} {c c' : Cluster} {e : Event}

/-! ## Committed prefixes -/

/-- A majority held the entry in the entry's own term. -/
def Chosen (M : Membership) (V : List Cluster) (n : Nat) (x : LogEntry) : Prop :=
  ∃ Q, Quorum.Majority M.ids Q ∧ ∀ w ∈ Q, Held V w n x

theorem Chosen.mono {V V' : List Cluster} {n : Nat} {x : LogEntry} (hchosen : Chosen M V n x)
    (hsub : V ⊆ V') : Chosen M V' n x := by
  obtain ⟨Q, hQ, hheld⟩ := hchosen
  refine ⟨Q, hQ, fun w hw => ?_⟩
  obtain ⟨u, hu, hterm, hlog⟩ := hheld w hw
  exact ⟨u, hsub hu, hterm, hlog⟩

/-- Later leaders hold a chosen entry. -/
theorem Chosen.leaderLog {n T : Nat} {x : LogEntry} {K : List LogEntry}
    (hchosen : Chosen M (visited h c) n x) (hrun : Run (raftSystem M) h c)
    (hK : LeaderLog M (visited h c) T K) (hlt : x.term < T) : K[n]? = some x := by
  obtain ⟨Q, hQ, hheld⟩ := hchosen
  exact leaderLog_complete hrun hQ hheld hK hlt

/-- `P` is committed at a node of term `T`: it holds the sentinel at most, or it is a
    prefix of a leader's log up to a chosen entry of that leader. -/
inductive Committed (M : Membership) (V : List Cluster) (T : Nat) (P : List LogEntry) : Prop
  | sentinel (hP : P <+: [default])
  | chosen (K : List LogEntry) (n : Nat) (x : LogEntry) (hT : x.term ≤ T)
      (hK : LeaderLog M V x.term K) (hx : K[n]? = some x) (hchosen : Chosen M V n x)
      (hP : P <+: K.take (n + 1))

namespace Committed

variable {V V' : List Cluster} {T T' : Nat} {P P' K : List LogEntry}

theorem mono (hP : Committed M V T P) (hsub : V ⊆ V') (hT : T ≤ T') : Committed M V' T' P := by
  cases hP with
  | sentinel hP => exact .sentinel hP
  | chosen K n x hxT hK hx hchosen hP =>
    exact .chosen K n x (hxT.trans hT) (hK.mono hsub) hx (hchosen.mono hsub) hP

theorem of_isPrefix (hP : Committed M V T P) (hpre : P' <+: P) : Committed M V T P' := by
  cases hP with
  | sentinel hP => exact .sentinel (hpre.trans hP)
  | chosen K n x hxT hK hx hchosen hP => exact .chosen K n x hxT hK hx hchosen (hpre.trans hP)

/-- The sentinel is a prefix of every leader's log. -/
private theorem sentinel_isPrefix (hrun : Run (raftSystem M) h c)
    (hK : LeaderLog M (visited h c) T K) : [default] <+: K := by
  have hwf := (hK.wellFormed hrun).1
  cases K with
  | nil => exact absurd hwf.length_pos (Nat.lt_irrefl 0)
  | cons x K =>
    obtain rfl : x = default := by simpa using hwf.sentinel
    exact List.cons_prefix_cons.mpr ⟨rfl, List.nil_prefix⟩

/-- What is committed is compatible with the logs of this and of every later leader. -/
theorem compatible_leader (hP : Committed M (visited h c) T P) (hrun : Run (raftSystem M) h c)
    (hle : T ≤ T') (hK : LeaderLog M (visited h c) T' K) : Compatible P K := by
  cases hP with
  | sentinel hP => exact .inl (hP.trans (sentinel_isPrefix hrun hK))
  | chosen K₀ n x hxT hK₀ hx hchosen hP =>
    rcases Nat.lt_or_eq_of_le (hxT.trans hle) with hlt | heq
    · -- a later leader holds the chosen entry, and by log matching all before it
      have hKx := hchosen.leaderLog hrun hK hlt
      obtain ⟨u, hu, a, ha, -, -, rfl⟩ := hK₀
      obtain ⟨v, hv, b, hb, -, -, rfl⟩ := hK
      rw [logs_matching hrun hu hv ha hb n x x hx hKx rfl] at hP
      exact .inl (hP.trans (List.take_prefix _ _))
    · exact (hK₀.compatible hrun (heq ▸ hK)).of_isPrefix_left (hP.trans (List.take_prefix _ _))

private theorem compatible_of_le (hP : Committed M (visited h c) T P)
    (hrun : Run (raftSystem M) h c) (hle : T ≤ T') (hK : LeaderLog M (visited h c) T' K)
    (hP' : P' <+: K) : Compatible P P' := by
  rcases hP.compatible_leader hrun hle hK with hpre | hpre
  · exact .of_isPrefix hpre hP'
  · exact .inr (hP'.trans hpre)

/-- Any two committed prefixes are compatible. -/
theorem compatible (hP : Committed M (visited h c) T P) (hP' : Committed M (visited h c) T' P')
    (hrun : Run (raftSystem M) h c) : Compatible P P' := by
  cases hP with
  | sentinel hP =>
    cases hP' with
    | sentinel hP' => exact .of_isPrefix hP hP'
    | chosen K' n' x' _ hK' hx' hchosen' hP' =>
      exact .of_isPrefix (hP.trans (sentinel_isPrefix hrun hK'))
        (hP'.trans (List.take_prefix _ _))
  | chosen K n x _ hK hx hchosen hP =>
    have hPK := hP.trans (List.take_prefix _ _)
    cases hP' with
    | sentinel hP' =>
      exact .of_isPrefix hPK (hP'.trans (sentinel_isPrefix hrun hK))
    | chosen K' n' x' _ hK' hx' hchosen' hP' =>
      have hPK' := hP'.trans (List.take_prefix _ _)
      -- the one of the smaller term is compatible with the other's leader
      rcases Nat.le_total x.term x'.term with hle | hle
      · exact (Committed.chosen K n x (Nat.le_refl _) hK hx hchosen hP).compatible_of_le hrun
          hle hK' hPK'
      · exact ((Committed.chosen K' n' x' (Nat.le_refl _) hK' hx' hchosen' hP').compatible_of_le
          hrun hle hK hPK).symm

end Committed

/-! ## The invariant -/

/-- The commit index of a node bounds a committed prefix of its log. -/
structure CommitOk (M : Membership) (V : List Cluster) (n : RaftNode) : Prop where
  applied_le : n.lastApplied ≤ n.commitIndex
  lt_length : n.commitIndex < n.log.length
  committed : Committed M V n.currentTerm (n.log.take (n.commitIndex + 1))

theorem CommitOk.mono {V V' : List Cluster} {n : RaftNode} (hok : CommitOk M V n)
    (hsub : V ⊆ V') : CommitOk M V' n :=
  ⟨hok.applied_le, hok.lt_length, hok.committed.mono hsub (Nat.le_refl _)⟩

/-- The committed prefix of a node is still there in a later state. -/
def KeepsCommitted (n n' : RaftNode) : Prop :=
  n.commitIndex ≤ n'.commitIndex ∧ n.log.take (n.commitIndex + 1) <+: n'.log

theorem KeepsCommitted.trans {n₁ n₂ n₃ : RaftNode} (h₁ : KeepsCommitted n₁ n₂)
    (h₂ : KeepsCommitted n₂ n₃) : KeepsCommitted n₁ n₃ := by
  refine ⟨h₁.1.trans h₂.1, List.IsPrefix.trans (List.prefix_take_iff.mpr ⟨h₁.2, ?_⟩) h₂.2⟩
  have hle := h₁.1
  rw [List.length_take]
  omega

/-- The command was applied at `i` from a committed prefix. -/
def AppliedFrom (M : Membership) (V : List Cluster) (i : Nat) (command : Bytes) : Prop :=
  ∃ T P x, Committed M V T P ∧ P[i]? = some x ∧ x.command = command

section Step

variable {w : Nat} {env : Env} {input : Input} {reply : Option RaftMessage} {net : List Packet}

/-- No reaction touches the committed prefix of the log. -/
private theorem Acted.keeps_prefix (hrun : Run (raftSystem M) h c)
    (hact : Acted M c c' e w env input reply net)
    (hok : CommitOk M (visited h c) (c.nodes w)) :
    (c.nodes w).log.take ((c.nodes w).commitIndex + 1) <+: (c'.nodes w).log := by
  cases hact.reacts.logStep with
  | same hlog =>
    rw [hlog]
    exact List.take_prefix _ _
  | append command _ _ _ hlog =>
    rw [hlog]
    exact (List.take_prefix _ _).trans (List.prefix_append _ _)
  | merge src req haccepts hreq hlog =>
    obtain ⟨hsrc, -, u, hu, hsent, hsource⟩ := hact.mergeSource (logInv hrun) hrun haccepts
    rw [hlog]
    refine hsource.splice.keeps hsource.sec (List.take_prefix _ _) ?_
    exact hok.committed.compatible_leader hrun haccepts.1
      ⟨u, hu, src, hsrc, hsent.leader, hsent.term, rfl⟩

/-- A position of the leader's own term that its loop finds replicated is chosen. -/
private theorem chosen_of_replicated (hrun : Run (raftSystem M) h c)
    (inv : ProgressInv M (visited h c) c) (hw : w ∈ M.ids)
    (hleader : (c.nodes w).state = .leader) {i : Nat} {x : LogEntry} (hi : 0 < i)
    (hx : (c.nodes w).log[i]? = some x) (hterm : x.term = (c.nodes w).currentTerm)
    (hcount : ((c.nodes w).peerIds.length + 1) / 2 < (c.nodes w).replicaCount i) :
    Chosen M (visited h c) i x := by
  have hpeers := (run_ident hrun hw).2
  have hsome : (M.peerIds w).Nodup := M.nodup_peerIds w hw
  have hnotMem : w ∉ (M.peerIds w).filter fun pid => decide (i ≤ (c.nodes w).matchIndex pid) :=
    fun hmem => ((M.mem_peerIds w hw w).mp (List.mem_of_mem_filter hmem)).2 rfl
  -- the majority is the leader with the peers it has counted
  refine ⟨insert w ((M.peerIds w).filter
    fun pid => decide (i ≤ (c.nodes w).matchIndex pid)).toFinset, ⟨?_, ?_⟩, fun v hv => ?_⟩
  · refine Finset.insert_subset hw fun v hv => ?_
    rw [List.mem_toFinset] at hv
    exact ((M.mem_peerIds w hw v).mp (List.mem_of_mem_filter hv)).1
  · rw [Finset.card_insert_of_notMem (by rwa [List.mem_toFinset]),
      List.toFinset_card_of_nodup (hsome.filter _), ← List.countP_eq_length_filter,
      ← Membership.length_peerIds hw]
    rw [RaftNode.replicaCount, hpeers] at hcount
    omega
  · rcases Finset.mem_insert.mp hv with rfl | hv
    · exact ⟨c, mem_visited_self h c, hterm.symm, hx⟩
    · rw [List.mem_toFinset, List.mem_filter, decide_eq_true_eq] at hv
      -- a counted peer acknowledged the leader's log up to this position
      rcases inv.match_index w hw hleader v hv.1 with hzero | hsync
      · omega
      · obtain ⟨-, u, hu, hut, hpre⟩ := hsync.leader_prefix hrun hw hleader
        refine ⟨u, hu, hut.trans hterm.symm, getElem?_of_isPrefix hpre ?_⟩
        rw [List.getElem?_take_of_lt (by omega), hx]

/-- The commit index a follower takes over bounds a committed prefix of its new log. -/
private theorem Acted.committed_follow {src : Nat} {req : AppendEntriesRequest}
    (hrun : Run (raftSystem M) h c)
    (hact : Acted M c c' e w env (.message src (.appendEntries req)) reply net)
    (haccepts : (c.nodes w).Accepts req) (hmeets : NoStaleSuffix h c e)
    (hok : ∀ u ∈ visited h c, ∀ i ∈ M.ids, CommitOk M (visited h c) (u.nodes i)) {m : Nat}
    (hm : m ≤ req.leaderCommit) (hlt : m < ((c.nodes w).mergedLog req).length) :
    Committed M (visited h c) req.term (((c.nodes w).mergedLog req).take (m + 1)) := by
  obtain ⟨hsrc, -, u, hu, hsent⟩ := hact.sentBy hrun
  obtain ⟨K, hK, hpre⟩ := hact.merged_isPrefix hrun haccepts hmeets
  have hsender := hok u hu src hsrc
  have hlen := hsender.lt_length
  have hcommitted := hsender.committed
  rw [hsent.term] at hcommitted
  rw [hsent.commit] at hcommitted hlen
  refine hcommitted.of_isPrefix ?_
  -- both are initial parts of logs of the same leader
  have hcompat := hK.compatible hrun ⟨u, hu, src, hsrc, hsent.leader, hsent.term, rfl⟩
  have hle : (((c.nodes w).mergedLog req).take (m + 1)).length ≤
      ((u.nodes src).log.take (req.leaderCommit + 1)).length := by
    rw [List.length_take, List.length_take]
    omega
  rcases hcompat with hKu | huK
  · exact List.prefix_of_prefix_length_le
      (((List.take_prefix _ _).trans hpre).trans hKu) (List.take_prefix _ _) hle
  · exact List.prefix_of_prefix_length_le
      ((List.take_prefix _ _).trans hpre) ((List.take_prefix _ _).trans huK) hle

/-- The reaction of a node keeps its commit index in order. -/
private theorem Acted.commitOk (hrun : Run (raftSystem M) h c)
    (hprogress : ProgressInv M (visited h c) c) (hact : Acted M c c' e w env input reply net)
    (hmeets : NoStaleSuffix h c e)
    (hok : ∀ u ∈ visited h c, ∀ i ∈ M.ids, CommitOk M (visited h c) (u.nodes i)) :
    CommitOk M (visited h c) (c'.nodes w) ∧ KeepsCommitted (c.nodes w) (c'.nodes w) := by
  have hself := hok c (mem_visited_self h c) w hact.mem
  have happlied := hself.applied_le
  have hkeeps := hact.keeps_prefix hrun hself
  have hlen := hkeeps.length_le
  rw [List.length_take, Nat.min_eq_left hself.lt_length] at hlen
  -- an unchanged commit index bounds the same prefix as before
  have hsame : Committed M (visited h c) (c'.nodes w).currentTerm
      ((c'.nodes w).log.take ((c.nodes w).commitIndex + 1)) := by
    refine (hself.committed.mono (List.Subset.refl _) hact.reacts.term_le).of_isPrefix ?_
    rw [← take_eq_of_isPrefix hkeeps (by rw [List.length_take]; have := hself.lt_length; omega)]
    exact List.take_prefix _ _
  cases hact.reacts.commitStep with
  | same hcommit hlast =>
    refine ⟨⟨by omega, by omega, ?_⟩, hcommit.ge, hkeeps⟩
    rw [hcommit]
    exact hsame
  | advance hstate hstate' hterm hlog hcommit hlast =>
    rcases (c.nodes w).advanceLoop_spec (c.nodes w).getLastLogIndex with
      heq | ⟨hlt, hle, hentry, hcount⟩
    · have hcommit := hcommit.trans heq
      refine ⟨⟨by omega, by omega, ?_⟩, hcommit.ge, hkeeps⟩
      rw [hcommit]
      exact hsame
    · rw [← hcommit] at hlt hle hentry hcount
      rw [RaftNode.getLastLogIndex_eq] at hle
      have hlt' : (c'.nodes w).commitIndex < (c.nodes w).log.length := by omega
      have hx := List.getElem?_eq_getElem hlt'
      rw [RaftNode.getLogEntry_eq hx] at hentry
      have hchosen := chosen_of_replicated hrun hprogress hact.mem hstate (by omega) hx hentry
        hcount
      refine ⟨⟨by omega, by rw [hlog]; exact hlt', ?_⟩, hlt.le, hkeeps⟩
      rw [hlog, hterm]
      exact .chosen _ _ _ hentry.le ⟨c, mem_visited_self h c, w, hact.mem, hstate,
        hentry.symm, rfl⟩ hx hchosen (List.prefix_refl _)
  | follow src req haccepts hterm hlog hcommit hlast =>
    rw [RaftNode.mergedCommit] at hcommit
    split at hcommit
    · next hgt =>
      rw [hlog] at hlen
      have hlt : (c'.nodes w).commitIndex < ((c.nodes w).mergedLog req).length := by omega
      refine ⟨⟨by omega, by rw [hlog]; exact hlt, ?_⟩, by omega, hkeeps⟩
      rw [hlog, hterm]
      exact hact.committed_follow hrun haccepts hmeets hok (by omega) hlt
    · refine ⟨⟨by omega, by omega, ?_⟩, hcommit.ge, hkeeps⟩
      rw [hcommit]
      exact hsame

end Step

/-- The invariant of commitment; `V` are the states visited so far. -/
structure CommitInv (M : Membership) (V : List Cluster) (c : Cluster) : Prop where
  ok : ∀ u ∈ V, ∀ i ∈ M.ids, CommitOk M V (u.nodes i)
  keeps : ∀ u ∈ V, ∀ i ∈ M.ids, KeepsCommitted (u.nodes i) (c.nodes i)
  applied : ∀ w ∈ M.ids, ∀ i command, .apply i command ∈ (c.nodes w).calls →
    AppliedFrom M V i command

private theorem commitInv_init (hinit : (raftSystem M).init c) : CommitInv M [c] c := by
  have hnew : ∀ i ∈ M.ids, (c.nodes i).log = [default] ∧ (c.nodes i).commitIndex = 0 ∧
      (c.nodes i).lastApplied = 0 ∧ (c.nodes i).calls = [] := by
    intro i hi
    obtain ⟨env, hnew⟩ := hinit.1 i hi
    rw [hnew]
    exact ⟨rfl, rfl, rfl, rfl⟩
  constructor
  · intro u hu i hi
    obtain rfl := List.mem_singleton.mp hu
    obtain ⟨hlog, hcommit, hlast, -⟩ := hnew i hi
    refine ⟨by omega, by rw [hlog, hcommit]; decide, ?_⟩
    rw [hlog, hcommit]
    exact .sentinel (List.prefix_refl _)
  · intro u hu i hi
    obtain rfl := List.mem_singleton.mp hu
    exact ⟨Nat.le_refl _, List.take_prefix _ _⟩
  · intro w hw i command hmem
    rw [(hnew w hw).2.2.2] at hmem
    exact (List.not_mem_nil hmem).elim

private theorem AppliedFrom.mono {V V' : List Cluster} {i : Nat} {command : Bytes}
    (hfrom : AppliedFrom M V i command) (hsub : V ⊆ V') : AppliedFrom M V' i command :=
  let ⟨T, P, x, hP, hx, hcommand⟩ := hfrom
  ⟨T, P, x, hP.mono hsub (Nat.le_refl T), hx, hcommand⟩

/-- Carrying the invariant over a step whose nodes are all known to be in order. -/
private theorem CommitInv.extend (inv : CommitInv M (visited h c) c)
    (hok : ∀ i ∈ M.ids, CommitOk M (visited h c) (c'.nodes i))
    (hkeeps : ∀ i ∈ M.ids, KeepsCommitted (c.nodes i) (c'.nodes i))
    (happlied : ∀ w ∈ M.ids, ∀ i command, .apply i command ∈ (c'.nodes w).calls →
      AppliedFrom M (visited h c) i command) :
    CommitInv M (c' :: visited h c) c' := by
  have hsub : visited h c ⊆ c' :: visited h c := List.subset_cons_self _ _
  constructor
  · intro u hu i hi
    rcases List.mem_cons.mp hu with rfl | hu
    · exact (hok i hi).mono hsub
    · exact (inv.ok u hu i hi).mono hsub
  · intro u hu i hi
    rcases List.mem_cons.mp hu with rfl | hu
    · exact ⟨Nat.le_refl _, List.take_prefix _ _⟩
    · exact (inv.keeps u hu i hi).trans (hkeeps i hi)
  · exact fun w hw i command hmem => (happlied w hw i command hmem).mono hsub

theorem commitInv (hrun : Run (raftSystem M) h c) (hmeets : StepsMeet NoStaleSuffix h) :
    CommitInv M (visited h c) c := by
  induction hrun with
  | start hinit => exact commitInv_init hinit
  | @next h c c' e hrun hstep ih =>
    obtain ⟨hstepMeets, hmeets⟩ := hmeets
    have inv := ih hmeets
    have hc := mem_visited_self h c
    have hnode : ∀ i ∈ M.ids, CommitOk M (visited h c) (c'.nodes i) ∧
        KeepsCommitted (c.nodes i) (c'.nodes i) := by
      intro i hi
      rcases step_node hstep i with hsame | ⟨env, input, reply, net, hact⟩
      · rw [hsame]
        exact ⟨inv.ok c hc i hi, inv.keeps c hc i hi⟩
      · exact hact.commitOk hrun (progressInv hrun hmeets) hstepMeets inv.ok
    refine inv.extend (fun i hi => (hnode i hi).1) (fun i hi => (hnode i hi).2)
      fun v hv i command hmem => ?_
    rcases step_node hstep v with hsame | ⟨env, input, reply, net, hact⟩
    · rw [hsame] at hmem
      exact inv.applied v hv i command hmem
    rw [hact.reacts.newCalls_eq, List.mem_append] at hmem
    rcases hmem with hold | hnew
    · exact inv.applied v hv i command hold
    · -- an entry up to the new commit index, read from the node's own log
      obtain ⟨-, hle, hcommand⟩ := hact.reacts.applied hnew
      have hok := (hnode v hv).1
      have hlt := hok.lt_length
      obtain ⟨x, hget⟩ : ∃ x, (c'.nodes v).log[i]? = some x :=
        ⟨_, List.getElem?_eq_getElem (by omega)⟩
      refine ⟨_, _, x, hok.committed, ?_, ?_⟩
      · rw [List.getElem?_take_of_lt (by omega), hget]
      · rw [hcommand, List.getD_eq_getElem?_getD, hget, Option.getD_some]

/-! ## The committed prefix -/

/-- The indices of every node are in order at `c`, and since `u` no commit index went
    down and no entry up to it was removed or changed. -/
def CommitStable (M : Membership) (u c : Cluster) : Prop :=
  ∀ i ∈ M.ids, (c.nodes i).lastApplied ≤ (c.nodes i).commitIndex ∧
    (c.nodes i).commitIndex ≤ (c.nodes i).getLastLogIndex ∧
    (u.nodes i).commitIndex ≤ (c.nodes i).commitIndex ∧
    ∀ j ≤ (u.nodes i).commitIndex, (c.nodes i).log[j]? = (u.nodes i).log[j]?

/-- In a run without a stale suffix the committed prefix of every node is stable. -/
theorem commit_stable (hrun : Run (raftSystem M) h c) (hmeets : StepsMeet NoStaleSuffix h) :
    ∀ u ∈ visited h c, CommitStable M u c := by
  intro u hu i hi
  have inv := commitInv hrun hmeets
  have hok := inv.ok c (mem_visited_self h c) i hi
  have hlt := hok.lt_length
  obtain ⟨hle, hpre⟩ := inv.keeps u hu i hi
  refine ⟨hok.applied_le, by rw [RaftNode.getLastLogIndex_eq]; omega, hle, fun j hj => ?_⟩
  have hltu := (inv.ok u hu i hi).lt_length
  rw [getElem?_eq_of_isPrefix hpre (by rw [List.length_take]; omega),
    List.getElem?_take_of_lt (by omega)]

/-- Node 1 commits an entry with node 2, which hears of it in a heartbeat. -/
def committedByTwo : List Event :=
  [.tick 1 (atTime 200),
    .deliver ⟨1, 2, .requestVote ⟨1, 1, 0, 0⟩⟩ (atTime 210),
    .deliver ⟨2, 1, .requestVoteResp ⟨1, true⟩⟩ (atTime 220),
    .propose 1 (atTime 230) [97],
    .deliver ⟨1, 2, .appendEntries ⟨1, 1, 0, 0, 0, [⟨1, 1, [97]⟩]⟩⟩ (atTime 240),
    .deliver ⟨2, 1, .appendEntriesResp ⟨1, true, 1⟩⟩ (atTime 250),
    .tick 1 (atTime 300),
    .tick 1 (atTime 400),
    .deliver ⟨1, 2, .appendEntries ⟨1, 1, 1, 1, 1, []⟩⟩ (atTime 410)]

theorem committedByTwo_runs : (schedule 3 committedByTwo).isSome := by decide +kernel

theorem commit_stable_committedByTwo :
    let r := (schedule 3 committedByTwo).get committedByTwo_runs
    (r.2.nodes 2).commitIndex = 1 ∧
      ∀ u ∈ visited r.1 r.2, CommitStable (.ofSize 3) u r.2 :=
  ⟨by decide +kernel, commit_stable (schedule_run committedByTwo_runs) (by decide +kernel)⟩

/-- Node 1 appends an entry that never reaches anyone. Node 2 wins the next term,
    commits another entry at the same index with node 3, and its heartbeat makes
    node 1 commit the stale entry, which the next request overwrites. -/
def staleSuffixCommitted : List Event :=
  [.tick 1 (atTime 200),
    .deliver ⟨1, 2, .requestVote ⟨1, 1, 0, 0⟩⟩ (atTime 210),
    .deliver ⟨2, 1, .requestVoteResp ⟨1, true⟩⟩ (atTime 220),
    .propose 1 (atTime 230) [97],
    .tick 2 (atTime 400),
    .deliver ⟨2, 3, .requestVote ⟨2, 2, 0, 0⟩⟩ (atTime 410),
    .deliver ⟨3, 2, .requestVoteResp ⟨2, true⟩⟩ (atTime 420),
    .propose 2 (atTime 430) [98],
    .deliver ⟨2, 3, .appendEntries ⟨2, 2, 0, 0, 0, [⟨2, 1, [98]⟩]⟩⟩ (atTime 440),
    .deliver ⟨3, 2, .appendEntriesResp ⟨2, true, 1⟩⟩ (atTime 450),
    .tick 2 (atTime 500),
    .tick 2 (atTime 600),
    .deliver ⟨2, 1, .appendEntries ⟨2, 2, 0, 0, 1, []⟩⟩ (atTime 610),
    .deliver ⟨2, 1, .appendEntries ⟨2, 2, 0, 0, 0, [⟨2, 1, [98]⟩]⟩⟩ (atTime 620)]

theorem staleSuffixCommitted_runs : (schedule 3 staleSuffixCommitted).isSome := by
  decide +kernel

/-- A committed and applied entry is overwritten. -/
theorem commit_unstable :
    ¬ ∀ (M : Membership) (h : List (Cluster × Event)) (c : Cluster),
      Run (raftSystem M) h c → ∀ u ∈ visited h c, CommitStable M u c := by
  intro hall
  have hstable := hall _ _ _ (schedule_run staleSuffixCommitted_runs)
  have hoverwritten : ∃ u ∈ visited
      ((schedule 3 staleSuffixCommitted).get staleSuffixCommitted_runs).1
      ((schedule 3 staleSuffixCommitted).get staleSuffixCommitted_runs).2,
      1 ≤ (u.nodes 1).commitIndex ∧ (u.nodes 1).log[1]? ≠
        (((schedule 3 staleSuffixCommitted).get staleSuffixCommitted_runs).2.nodes 1).log[1]? := by
    decide +kernel
  obtain ⟨u, hu, hcommit, hne⟩ := hoverwritten
  exact hne ((hstable u hu 1 (by decide)).2.2.2 1 hcommit).symm

/-! ## Applied commands -/

/-- All nodes applied the same command wherever they applied one. -/
def ApplyAgree (M : Membership) (c : Cluster) : Prop :=
  ∀ a ∈ M.ids, ∀ b ∈ M.ids, ∀ i x y, .apply i x ∈ (c.nodes a).calls →
    .apply i y ∈ (c.nodes b).calls → x = y

/-- State machine safety: in a run without a stale suffix no two nodes apply different
    commands at one index. -/
theorem apply_agree (hrun : Run (raftSystem M) h c) (hmeets : StepsMeet NoStaleSuffix h) :
    ApplyAgree M c := by
  intro a ha b hb i x y hx hy
  have inv := commitInv hrun hmeets
  obtain ⟨_, P, p, hP, hp, rfl⟩ := inv.applied a ha i x hx
  obtain ⟨_, P', p', hP', hp', rfl⟩ := inv.applied b hb i y hy
  rw [(hP.compatible hP' hrun).getElem? hp hp']

theorem apply_agree_committedByTwo :
    let r := (schedule 3 committedByTwo).get committedByTwo_runs
    .apply 1 [97] ∈ (r.2.nodes 1).calls ∧ .apply 1 [97] ∈ (r.2.nodes 2).calls ∧
      ApplyAgree (.ofSize 3) r.2 :=
  ⟨by decide +kernel, by decide +kernel,
    apply_agree (schedule_run committedByTwo_runs) (by decide +kernel)⟩

/-- Two nodes apply different commands at index 1. -/
theorem apply_disagree :
    ¬ ∀ (M : Membership) (h : List (Cluster × Event)) (c : Cluster),
      Run (raftSystem M) h c → ApplyAgree M c := by
  intro hall
  have hagree := hall _ _ _ (schedule_run staleSuffixCommitted_runs) 1 (by decide) 2 (by decide)
    1 [97] [98] (by decide +kernel) (by decide +kernel)
  exact absurd hagree (by decide)

end Dkv
