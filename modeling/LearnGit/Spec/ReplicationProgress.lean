import LearnGit.Spec.LeaderCompleteness

/-!
# Replication progress

A follower answers every accepted request with its own last index, also when it
keeps entries after the ones it was sent. The answer is right exactly when such a
kept suffix is part of the leader's log (`merged_isPrefix_iff`). In runs without a
stale suffix a leader's `matchIndex` means what it is read as.

## Key results

- `merged_isPrefix_iff`: when the log of a node that accepted is a prefix of its leader's
- `progressInv`: what acknowledgements and `matchIndex` stand for
- `matchIndex_sound`: a peer agrees with its leader up to `matchIndex`
- `matchIndex_unsound`: a run in which it does not
-/

namespace Dkv

open Transition ReplicatedLog

variable {M : Membership} {h : List (Cluster × Event)} {c c' : Cluster} {e : Event}

/-! ## The kept suffix -/

/-- The node accepts the request, finds all its entries in place and has more
    entries after them. -/
def RaftNode.KeepsSuffix (n : RaftNode) (req : AppendEntriesRequest) : Prop :=
  n.Accepts req ∧ req.prevLogIndex + req.entries.length < n.getLastLogIndex ∧
    ∀ k < req.entries.length,
      (n.getLogEntry (req.prevLogIndex + 1 + k)).term = (req.entries.getD k default).term

instance (n : RaftNode) (req : AppendEntriesRequest) : Decidable (n.KeepsSuffix req) :=
  inferInstanceAs (Decidable (_ ∧ _ ∧ _))

/-- The sender had the last entry of node `n` while it led the term `T`. -/
def LeaderHadLast (V : List Cluster) (src T : Nat) (n : RaftNode) : Prop :=
  ∃ u ∈ V, (u.nodes src).state = .leader ∧ (u.nodes src).currentTerm = T ∧
    (u.nodes src).log[n.getLastLogIndex]?.map LogEntry.term = some n.getLastLogTerm

instance (V : List Cluster) (src T : Nat) (n : RaftNode) : Decidable (LeaderHadLast V src T n) :=
  inferInstanceAs (Decidable (∃ u ∈ V, _ ∧ _ ∧ _))

/-- The step does not deliver a request to a node that would keep a suffix its
    leader never had. -/
def NoStaleSuffix (h : List (Cluster × Event)) (c : Cluster) : Event → Prop
  | .deliver ⟨src, dst, .appendEntries req⟩ _ =>
    (c.nodes dst).KeepsSuffix req → LeaderHadLast (visited h c) src req.term (c.nodes dst)
  | _ => True

instance (h : List (Cluster × Event)) (c : Cluster) :
    (e : Event) → Decidable (NoStaleSuffix h c e)
  | .deliver ⟨_, _, .appendEntries _⟩ _ => inferInstanceAs (Decidable (_ → _))
  | .deliver ⟨_, _, .requestVote _⟩ _ => instDecidableTrue
  | .deliver ⟨_, _, .requestVoteResp _⟩ _ => instDecidableTrue
  | .deliver ⟨_, _, .appendEntriesResp _⟩ _ => instDecidableTrue
  | .tick _ _ => instDecidableTrue
  | .propose _ _ _ => instDecidableTrue
  | .lose _ => instDecidableTrue

/-- Inside the log the comparison of the merge loop is agreement of the entries. -/
theorem RaftNode.agrees_iff (n : RaftNode) (req : AppendEntriesRequest)
    (hlt : req.prevLogIndex + req.entries.length < n.getLastLogIndex) :
    (∀ k, Agrees LogEntry.term n.log req.prevLogIndex req.entries k) ↔
      ∀ k < req.entries.length,
        (n.getLogEntry (req.prevLogIndex + 1 + k)).term = (req.entries.getD k default).term := by
  rw [getLastLogIndex_eq] at hlt
  have hsent : ∀ k (hk : k < req.entries.length), req.entries.getD k default = req.entries[k] :=
    fun k hk => by rw [List.getD_eq_getElem?_getD, List.getElem?_eq_getElem hk, Option.getD_some]
  constructor
  · intro hagree k hk
    obtain ⟨y, hy, hterm⟩ := hagree k _ (List.getElem?_eq_getElem hk)
    rw [getLogEntry_eq hy, hterm, hsent k hk]
  · intro hterms k x hx
    obtain ⟨hk, rfl⟩ := List.getElem?_eq_some_iff.mp hx
    have hget := List.getElem?_eq_getElem (l := n.log) (i := req.prevLogIndex + 1 + k) (by omega)
    refine ⟨_, hget, ?_⟩
    rw [← getLogEntry_eq hget, hterms k hk, hsent k hk]

section Merge

variable {i src : Nat} {env : Env} {req : AppendEntriesRequest} {reply : Option RaftMessage}
  {net : List Packet}

/-- The log of a node that accepted a request is a prefix of a log of the request's
    leader exactly when the node kept no suffix that the leader never had. -/
theorem Acted.merged_isPrefix_iff (hrun : Run (raftSystem M) h c)
    (hact : Acted M c c' e i env (.message src (.appendEntries req)) reply net)
    (haccepts : (c.nodes i).Accepts req) :
    (∃ K, LeaderLog M (visited h c) req.term K ∧ (c.nodes i).mergedLog req <+: K) ↔
      ((c.nodes i).KeepsSuffix req →
        LeaderHadLast (visited h c) src req.term (c.nodes i)) := by
  have inv := logInv hrun
  have hc := mem_visited_self h c
  obtain ⟨hsrc, -, u, hu, hsent, hsource⟩ := hact.mergeSource inv hrun haccepts
  have hpos := (inv.wellFormed c hc i hact.mem).length_pos
  have hlast := List.getElem?_eq_getElem (l := (c.nodes i).log)
    (i := (c.nodes i).log.length - 1) (by omega)
  have hlastTerm := RaftNode.getLastLogTerm_eq hlast
  constructor
  · rintro ⟨K, ⟨v, hv, l, hl, hleader, hterm, rfl⟩, hpre⟩ ⟨-, hlt, hterms⟩
    -- nothing was changed, so the old last entry is in the leader's log
    rw [hsource.splice.eq_of_agrees (((c.nodes i).agrees_iff req hlt).mpr hterms)] at hpre
    obtain rfl := leader_unique hrun hv hu hl hsrc hleader hsent.leader
      (hterm.trans hsent.term.symm)
    refine ⟨v, hv, hleader, hterm, ?_⟩
    rw [RaftNode.getLastLogIndex_eq, getElem?_of_isPrefix hpre hlast, Option.map_some, hlastTerm]
  · intro hsuffix
    have hmatch := inv.matching hrun hc hu hact.mem hsrc
    have hK : LeaderLog M (visited h c) req.term (u.nodes src).log :=
      ⟨u, hu, src, hsrc, hsent.leader, hsent.term, rfl⟩
    rcases hsource.isPrefix_or_keep hmatch with ⟨hpre, -⟩ | ⟨hkeep, hagree⟩
    · exact ⟨_, hK, hpre⟩
    rw [hkeep]
    rcases Nat.lt_or_ge (req.prevLogIndex + req.entries.length) (c.nodes i).getLastLogIndex with
      hlt | hge
    · obtain ⟨v, hv, hleader, hterm, hhad⟩ :=
        hsuffix ⟨haccepts, hlt, ((c.nodes i).agrees_iff req hlt).mp hagree⟩
      rw [RaftNode.getLastLogIndex_eq, hlastTerm, Option.map_eq_some_iff] at hhad
      obtain ⟨x, hx, hxterm⟩ := hhad
      refine ⟨_, ⟨v, hv, src, hsrc, hleader, hterm, rfl⟩, ?_⟩
      have htake := inv.matching hrun hc hv hact.mem hsrc _ _ _ hlast hx hxterm.symm
      rw [List.take_of_length_le (by omega)] at htake
      rw [htake]
      exact List.take_prefix _ _
    · refine ⟨_, hK, ?_⟩
      rw [RaftNode.getLastLogIndex_eq] at hge
      exact isPrefix_of_agrees hsource.sec hmatch hsource.take_eq hagree (by omega)

/-- Where no stale suffix is kept, a node that accepted has a prefix of its leader's log. -/
theorem Acted.merged_isPrefix (hrun : Run (raftSystem M) h c)
    (hact : Acted M c c' e i env (.message src (.appendEntries req)) reply net)
    (haccepts : (c.nodes i).Accepts req) (hmeets : NoStaleSuffix h c e) :
    ∃ K, LeaderLog M (visited h c) req.term K ∧ (c.nodes i).mergedLog req <+: K := by
  obtain ⟨-, -, rfl⟩ := hact.of_message
  exact (hact.merged_isPrefix_iff hrun haccepts).mpr hmeets

end Merge

/-! ## What a node keeps within a term -/

/-- Within the term a node keeps what it shares with its leader. -/
theorem leader_prefix_kept (hrun : Run (raftSystem M) h c) {T : Nat} {P : List LogEntry}
    (hcompat : ∀ K, LeaderLog M (visited h c) T K → Compatible P K) {u : Cluster}
    (hu : u ∈ visited h c) {w : Nat} (hterm : (u.nodes w).currentTerm = T)
    (hP : P <+: (u.nodes w).log) (hnow : (c.nodes w).currentTerm = T) :
    P <+: (c.nodes w).log := by
  induction hrun with
  | start hinit =>
    obtain rfl := List.mem_singleton.mp hu
    exact hP
  | @next h c c' e hrun hstep ih =>
    rcases List.mem_cons.mp hu with rfl | hu
    · exact hP
    have hc := mem_visited_self h c
    have hsub : visited h c ⊆ visited ((c, e) :: h) c' := List.subset_cons_self _ _
    have hle := (roleOrder_of_visited hrun hu w).term_le
    have hle' := (roleOrder_of_visited (.next hrun hstep) (List.mem_cons_of_mem _ hc) w).term_le
    -- terms only grow, so the node was in the term at `c`
    have hkept := ih (fun K hK => hcompat K (hK.mono hsub)) hu (by omega)
    rcases step_node hstep w with hsame | ⟨env, input, reply, net, hact⟩
    · rw [hsame]
      exact hkept
    cases hact.reacts.logStep with
    | same hlog => exact hlog ▸ hkept
    | append command _ _ _ hlog =>
      rw [hlog]
      exact hkept.trans (List.prefix_append _ _)
    | merge src req haccepts hreq hlog =>
      obtain ⟨hsrc, -, v, hv, hsent, hsource⟩ := hact.mergeSource (logInv hrun) hrun haccepts
      rw [hlog]
      -- what is merged is a section of a log of the term's leader
      refine hsource.splice.keeps hsource.sec hkept (hcompat _ ?_)
      exact ⟨v, hsub hv, src, hsrc, hsent.leader, hsent.term.trans (hreq.symm.trans hnow), rfl⟩

/-! ## Acknowledgements -/

/-- Node `w` agreed with a leader of term `T` up to position `m` while in that term. -/
def Synced (M : Membership) (V : List Cluster) (w T m : Nat) : Prop :=
  ∃ u ∈ V, (u.nodes w).currentTerm = T ∧ ∃ K, LeaderLog M V T K ∧ m < K.length ∧
    K.take (m + 1) <+: (u.nodes w).log

theorem Synced.mono {V V' : List Cluster} {w T m : Nat} (hsub : V ⊆ V')
    (hsync : Synced M V w T m) : Synced M V' w T m :=
  let ⟨u, hu, hterm, K, hK, hlt, hpre⟩ := hsync
  ⟨u, hsub hu, hterm, K, hK.mono hsub, hlt, hpre⟩

/-- The invariant of replication progress; `V` are the states visited so far. -/
structure ProgressInv (M : Membership) (V : List Cluster) (c : Cluster) : Prop where
  /-- A successful reply reports what its sender shares with the leader. -/
  acks : ∀ p ∈ c.net, ∀ resp, p.msg = .appendEntriesResp resp → resp.success = true →
    Synced M V p.src resp.term resp.matchIndex
  match_index : ∀ l ∈ M.ids, (c.nodes l).state = .leader → ∀ p ∈ M.peerIds l,
    (c.nodes l).matchIndex p = 0 ∨
      Synced M V p (c.nodes l).currentTerm ((c.nodes l).matchIndex p)

section Step

variable {i : Nat} {env : Env} {input : Input} {reply : Option RaftMessage} {net : List Packet}

private theorem ProgressInv.step_acks (inv : ProgressInv M (visited h c) c)
    (hrun : Run (raftSystem M) h c) (hrun' : Run (raftSystem M) ((c, e) :: h) c')
    (hact : Acted M c c' e i env input reply net) (hmeets : NoStaleSuffix h c e)
    {p : Packet} (hp : p ∈ c'.net) {resp : AppendEntriesResponse}
    (hmsg : p.msg = .appendEntriesResp resp) (hsuccess : resp.success = true) :
    Synced M (c' :: visited h c) p.src resp.term resp.matchIndex := by
  have hsub : visited h c ⊆ c' :: visited h c := List.subset_cons_self _ _
  rcases hact.mem_net hp with hold | hemit
  · exact (inv.acks p hold resp hmsg hsuccess).mono hsub
  cases hemit with
  | vote => exact nomatch hmsg
  | append => exact nomatch hmsg
  | reply src msg answer =>
    dsimp only at hmsg
    subst hmsg
    obtain ⟨_, req, heq, haccepts, hlog, hterm, hresp, hindex⟩ :=
      hact.reacts.acknowledged hsuccess
    obtain ⟨rfl, rfl⟩ := Input.message.inj heq
    -- without a stale suffix the merged log is all the leader's, up to its end
    obtain ⟨K, hK, hpre⟩ := hact.merged_isPrefix hrun haccepts hmeets
    rw [← hlog] at hpre
    have hpos := ((logInv hrun').wellFormed c' List.mem_cons_self i hact.mem).length_pos
    have hlen := hpre.length_le
    refine ⟨c', List.mem_cons_self, hterm.trans hresp.symm, K, hresp ▸ hK.mono hsub, by omega, ?_⟩
    rw [hindex, Nat.sub_add_cancel hpos, ← take_eq_of_isPrefix hpre (Nat.le_refl _)]
    exact List.take_prefix _ _

private theorem ProgressInv.step_match (inv : ProgressInv M (visited h c) c)
    (hact : Acted M c c' e i env input reply net)
    (hident : (c.nodes i).nodeId = i ∧ (c.nodes i).peerIds = M.peerIds i)
    (hleader : (c'.nodes i).state = .leader) {p : Nat} (hp : p ∈ M.peerIds i) :
    (c'.nodes i).matchIndex p = 0 ∨
      Synced M (c' :: visited h c) p (c'.nodes i).currentTerm ((c'.nodes i).matchIndex p) := by
  have hsub : visited h c ⊆ c' :: visited h c := List.subset_cons_self _ _
  have hself : (c.nodes i).nodeId ∉ (c.nodes i).peerIds := by
    rw [hident.1, hident.2, M.mem_peerIds i hact.mem]
    exact fun hmem => hmem.2 rfl
  have hterm := (hact.reacts.roleStep.leader_cases hleader).1
  -- an index that stays keeps its meaning
  have hkeep : (c.nodes i).state = .leader →
      (c'.nodes i).matchIndex p = (c.nodes i).matchIndex p →
      (c'.nodes i).matchIndex p = 0 ∨
        Synced M (c' :: visited h c) p (c'.nodes i).currentTerm ((c'.nodes i).matchIndex p) := by
    intro hled hsame
    rw [hsame, hterm]
    exact (inv.match_index i hact.mem hled p hp).imp_right fun hsync => hsync.mono hsub
  cases hact.reacts.progressStep hself with
  | same hstate _ hmatch => exact hkeep (hstate hleader) (hmatch p (hident.2 ▸ hp))
  | reset _ _ _ _ hmatch => exact .inl (hmatch p (hident.2 ▸ hp))
  | advance src resp hstate hresp hsuccess _ _ _ hmatch =>
    by_cases hpsrc : p = src
    · subst hpsrc
      have hack := inv.acks _ hact.of_message.1 resp rfl hsuccess
      rw [hmatch, Function.update_self, hterm, ← hresp]
      exact .inr (hack.mono hsub)
    · exact hkeep hstate (by rw [hmatch, Function.update_of_ne hpsrc])
  | retry hstate _ hmatch => exact hkeep hstate (hmatch p (hident.2 ▸ hp))

end Step

theorem progressInv (hrun : Run (raftSystem M) h c) (hmeets : StepsMeet NoStaleSuffix h) :
    ProgressInv M (visited h c) c := by
  induction hrun with
  | @start c hinit =>
    refine ⟨fun p hp => ?_, fun l hl hleader => ?_⟩
    · rw [hinit.2] at hp
      exact (List.not_mem_nil hp).elim
    · obtain ⟨env, hnew⟩ := hinit.1 l hl
      rw [hnew] at hleader
      exact nomatch hleader
  | @next h c c' e hrun hstep ih =>
    obtain ⟨hstepMeets, hmeets⟩ := hmeets
    have inv := ih hmeets
    have hsub : visited h c ⊆ visited ((c, e) :: h) c' := List.subset_cons_self _ _
    rcases step_cases hstep with ⟨q, hnodes, hnet⟩ | ⟨i, env, input, reply, net, hact⟩
    · refine ⟨fun p hp resp hmsg hs => ?_, fun l hl hleader p hp => ?_⟩
      · rw [hnet] at hp
        exact (inv.acks p (List.mem_of_mem_erase hp) resp hmsg hs).mono hsub
      · rw [hnodes] at hleader ⊢
        exact (inv.match_index l hl hleader p hp).imp_right fun hsync => hsync.mono hsub
    · -- a node that did not react keeps its indices
      refine ⟨fun p hp resp => inv.step_acks hrun (.next hrun hstep) hact hstepMeets hp,
        fun l hl hleader p hp => ?_⟩
      by_cases hli : l = i
      · subst hli
        exact inv.step_match hact (run_ident hrun hl) hleader hp
      · rw [hact.others l hli] at hleader ⊢
        exact (inv.match_index l hl hleader p hp).imp_right fun hsync => hsync.mono hsub

/-! ## The bookkeeping of a leader -/

/-- Up to `m` the log `L` of a peer and the log `K` of its leader have the same entries,
    and `K` reaches that far. -/
def AgreeUpTo (L K : List LogEntry) (m : Nat) : Prop :=
  m < K.length ∧ ∀ i ≤ m, L[i]? = K[i]?

/-- What a leader knows about a peer, seen at the leader's present log. -/
theorem Synced.leader_prefix (hrun : Run (raftSystem M) h c) {w l m : Nat} (hl : l ∈ M.ids)
    (hleader : (c.nodes l).state = .leader)
    (hsync : Synced M (visited h c) w (c.nodes l).currentTerm m) :
    m < (c.nodes l).log.length ∧ ∃ u ∈ visited h c,
      (u.nodes w).currentTerm = (c.nodes l).currentTerm ∧
      (c.nodes l).log.take (m + 1) <+: (u.nodes w).log := by
  obtain ⟨u, hu, hterm, K, ⟨v, hv, a, ha, hla, hta, rfl⟩, hlt, hpre⟩ := hsync
  obtain rfl := leader_unique hrun hv (mem_visited_self h c) ha hl hla hleader hta
  have hgrow := leader_log_grows hrun hv hla hta
  have hlen := hgrow.length_le
  refine ⟨by omega, u, hu, hterm, ?_⟩
  rw [← take_eq_of_isPrefix hgrow hlt]
  exact hpre

theorem agreeUpTo_of_synced (hrun : Run (raftSystem M) h c) {w l m : Nat} (hl : l ∈ M.ids)
    (hleader : (c.nodes l).state = .leader)
    (hterm : (c.nodes w).currentTerm = (c.nodes l).currentTerm)
    (hsync : Synced M (visited h c) w (c.nodes l).currentTerm m) :
    AgreeUpTo (c.nodes w).log (c.nodes l).log m := by
  obtain ⟨hlt, u, hu, hut, hpre⟩ := hsync.leader_prefix hrun hl hleader
  have hK : LeaderLog M (visited h c) (c.nodes l).currentTerm (c.nodes l).log :=
    ⟨c, mem_visited_self h c, l, hl, hleader, rfl, rfl⟩
  have hkept := leader_prefix_kept hrun
    (fun K hK' => (hK.compatible hrun hK').of_isPrefix_left (List.take_prefix _ _))
    hu hut hpre hterm
  refine ⟨hlt, fun i hi => ?_⟩
  rw [getElem?_eq_of_isPrefix hkept (by rw [List.length_take]; omega),
    List.getElem?_take_of_lt (by omega)]

/-- The bookkeeping of every leader is sound: `matchIndex` of a peer in the same term is
    at most the leader's last index, and the logs agree up to it. -/
def BookkeepingSound (M : Membership) (c : Cluster) : Prop :=
  ∀ l ∈ M.ids, (c.nodes l).state = .leader → ∀ p ∈ M.peerIds l,
    (c.nodes p).currentTerm = (c.nodes l).currentTerm →
    (c.nodes l).matchIndex p ≤ (c.nodes l).getLastLogIndex ∧
      ∀ i, 1 ≤ i → i ≤ (c.nodes l).matchIndex p →
        ∃ x, (c.nodes p).log[i]? = some x ∧ (c.nodes l).log[i]? = some x

/-- In a run without a stale suffix the bookkeeping of every leader is sound. -/
theorem matchIndex_sound (hrun : Run (raftSystem M) h c) (hmeets : StepsMeet NoStaleSuffix h) :
    ∀ u ∈ visited h c, BookkeepingSound M u := by
  intro u hu l hl hleader p hp hterm
  obtain ⟨h', hrun', hsuf⟩ := hrun.of_visited hu
  rcases (progressInv hrun' (hmeets.of_suffix hsuf)).match_index l hl hleader p hp with
    hzero | hsync
  · rw [hzero]
    exact ⟨Nat.zero_le _, fun i hi hle => by omega⟩
  · obtain ⟨hlt, hagree⟩ := agreeUpTo_of_synced hrun' hl hleader hterm hsync
    refine ⟨by rw [RaftNode.getLastLogIndex_eq]; omega, fun i _ hi => ?_⟩
    have hget := List.getElem?_eq_getElem (l := (u.nodes l).log) (i := i) (by omega)
    exact ⟨_, (hagree i hi).trans hget, hget⟩

/-- Node 1 replicates an entry to node 2 and hears back. -/
def replicatedAndAcknowledged : List Event :=
  [.tick 1 (atTime 200),
    .deliver ⟨1, 2, .requestVote ⟨1, 1, 0, 0⟩⟩ (atTime 210),
    .deliver ⟨2, 1, .requestVoteResp ⟨1, true⟩⟩ (atTime 220),
    .propose 1 (atTime 230) [97],
    .deliver ⟨1, 2, .appendEntries ⟨1, 1, 0, 0, 0, [⟨1, 1, [97]⟩]⟩⟩ (atTime 240),
    .deliver ⟨2, 1, .appendEntriesResp ⟨1, true, 1⟩⟩ (atTime 250)]

theorem replicatedAndAcknowledged_runs : (schedule 3 replicatedAndAcknowledged).isSome := by
  decide +kernel

theorem matchIndex_sound_replicatedAndAcknowledged :
    let r := (schedule 3 replicatedAndAcknowledged).get replicatedAndAcknowledged_runs
    (r.2.nodes 1).matchIndex 2 = 1 ∧
      ∀ u ∈ visited r.1 r.2, BookkeepingSound (.ofSize 3) u :=
  ⟨by decide +kernel,
    matchIndex_sound (schedule_run replicatedAndAcknowledged_runs) (by decide +kernel)⟩

/-- Node 1 appends an entry that never reaches anyone. Node 2 wins the next term with
    an empty log; its first heartbeat makes node 1 report the stale entry. -/
def staleSuffixReported : List Event :=
  [.tick 1 (atTime 200),
    .deliver ⟨1, 2, .requestVote ⟨1, 1, 0, 0⟩⟩ (atTime 210),
    .deliver ⟨2, 1, .requestVoteResp ⟨1, true⟩⟩ (atTime 220),
    .propose 1 (atTime 230) [97],
    .tick 2 (atTime 400),
    .deliver ⟨2, 3, .requestVote ⟨2, 2, 0, 0⟩⟩ (atTime 410),
    .deliver ⟨3, 2, .requestVoteResp ⟨2, true⟩⟩ (atTime 420),
    .deliver ⟨2, 1, .appendEntries ⟨2, 2, 0, 0, 0, []⟩⟩ (atTime 430),
    .deliver ⟨1, 2, .appendEntriesResp ⟨2, true, 1⟩⟩ (atTime 440)]

theorem staleSuffixReported_runs : (schedule 3 staleSuffixReported).isSome := by decide +kernel

/-- The leader believes in an entry it does not have itself. -/
theorem matchIndex_unsound :
    ¬ ∀ (M : Membership) (h : List (Cluster × Event)) (c : Cluster),
      Run (raftSystem M) h c → BookkeepingSound M c := by
  intro hall
  have hsound := hall _ _ _ (schedule_run staleSuffixReported_runs) 2 (by decide)
    (by decide +kernel) 1 (by decide) (by decide +kernel)
  exact absurd hsound.1 (by decide +kernel)

end Dkv
