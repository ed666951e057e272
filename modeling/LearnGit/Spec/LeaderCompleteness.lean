import LearnGit.Spec.LogMatching

/-!
# Leader completeness

An entry that a majority held in the entry's own term is in the log of every later
leader. A node loses such an entry only to a leader of a later term that misses it
(`held_kept`), a vote goes to a candidate that has what the voter held
(`grantInfo`), and a majority of votes made the leader (`leadInfo`), so a
later leader that misses the entry would need an earlier one that does.

## Key results

- `held_kept`: what becomes of an entry a node held in the entry's term
- `grantInfo`: a candidate holds what its voters held
- `leaderLog_complete`: every later leader log holds what a majority held
- `leader_completeness`: the same about the nodes of a run
-/

namespace Dkv

open Transition ReplicatedLog

variable {M : Membership} {h : List (Cluster × Event)} {c c' : Cluster} {e : Event}

/-! ## Entries held in their own term -/

/-- Node `w` held the entry at position `i` while its term was the entry's. -/
def Held (V : List Cluster) (w i : Nat) (x : LogEntry) : Prop :=
  ∃ u ∈ V, (u.nodes w).currentTerm = x.term ∧ (u.nodes w).log[i]? = some x

instance (V : List Cluster) (w i : Nat) (x : LogEntry) : Decidable (Held V w i x) :=
  inferInstanceAs (Decidable (∃ u ∈ V, _))

/-- A leader of a term after the entry's and before `T` misses the entry. -/
def Missed (M : Membership) (V : List Cluster) (i : Nat) (x : LogEntry) (T : Nat) : Prop :=
  ∃ T' K, x.term < T' ∧ T' < T ∧ LeaderLog M V T' K ∧ K[i]? ≠ some x

/-- Somebody has led term `T`. -/
def Led (M : Membership) (V : List Cluster) (T : Nat) : Prop := ∃ K, LeaderLog M V T K

theorem Missed.mono {V V' : List Cluster} {i T T' : Nat} {x : LogEntry} (hsub : V ⊆ V')
    (hT : T ≤ T') (hmissed : Missed M V i x T) : Missed M V' i x T' :=
  let ⟨t, K, hlt, hltT, hK, hne⟩ := hmissed
  ⟨t, K, hlt, hltT.trans_le hT, hK.mono hsub, hne⟩

theorem Led.mono {V V' : List Cluster} {T : Nat} (hsub : V ⊆ V') (hled : Led M V T) :
    Led M V' T :=
  let ⟨K, hK⟩ := hled
  ⟨K, hK.mono hsub⟩

/-- A state of a later term is not where the entry was held. -/
theorem Held.of_cons {V : List Cluster} {w i : Nat} {x : LogEntry} (hheld : Held (c' :: V) w i x)
    (hlt : x.term < (c'.nodes w).currentTerm) : Held V w i x := by
  obtain ⟨u, hu, hterm, hx⟩ := hheld
  rcases List.mem_cons.mp hu with rfl | hu
  · omega
  · exact ⟨u, hu, hterm, hx⟩

theorem LeaderLog.wellFormed (hrun : Run (raftSystem M) h c) {T : Nat} {K : List LogEntry}
    (hK : LeaderLog M (visited h c) T K) : WellFormed T K ∧ Backed M (visited h c) K := by
  obtain ⟨u, hu, l, hl, -, rfl, rfl⟩ := hK
  exact ⟨(logInv hrun).wellFormed u hu l hl, (logInv hrun).backed u hu l hl⟩

/-- A merge keeps an entry unless the sending leader leads a later term and misses it. -/
theorem Acted.merge_keeps {w src : Nat} {env : Env} {req : AppendEntriesRequest}
    {reply : Option RaftMessage} {net : List Packet} (hrun : Run (raftSystem M) h c)
    (hact : Acted M c c' e w env (.message src (.appendEntries req)) reply net)
    (haccepts : (c.nodes w).Accepts req) {i : Nat} {x : LogEntry}
    (hx : (c.nodes w).log[i]? = some x) :
    ((c.nodes w).mergedLog req)[i]? = some x ∨
      (x.term < req.term ∧ ∃ K, LeaderLog M (visited h c) req.term K ∧ K[i]? ≠ some x) := by
  have inv := logInv hrun
  have hc := mem_visited_self h c
  obtain ⟨hsrc, -, u, hu, hsent, hsource⟩ := hact.mergeSource inv hrun haccepts
  have hK : LeaderLog M (visited h c) req.term (u.nodes src).log :=
    ⟨u, hu, src, hsrc, hsent.leader, hsent.term, rfl⟩
  have hmatch := inv.matching hrun hc hu hact.mem hsrc
  have hwf := inv.wellFormed c hc w hact.mem
  have hlen := (List.getElem?_eq_some_iff.mp hx).1
  -- it is enough that the log up to the entry is compatible with the leader's log
  have hkeep : Compatible ((c.nodes w).log.take (i + 1)) (u.nodes src).log →
      ((c.nodes w).mergedLog req)[i]? = some x := by
    intro hcompat
    have hpre := hsource.splice.keeps hsource.sec (List.take_prefix _ _) hcompat
    apply getElem?_of_isPrefix hpre
    rw [List.getElem?_take_of_lt (Nat.lt_succ_self i), hx]
  by_cases hKx : (u.nodes src).log[i]? = some x
  · left
    apply hkeep
    rw [hmatch i x x hx hKx rfl]
    exact .inl (List.take_prefix _ _)
  · have hle : x.term ≤ req.term := (hwf.term_le i x hx).trans haccepts.1
    rcases Nat.lt_or_eq_of_le hle with hlt | heq
    · exact .inr ⟨hlt, _, hK, hKx⟩
    · -- the leader of the entry's own term: its logs are compatible
      left
      apply hkeep
      rcases Nat.eq_zero_or_pos i with rfl | hi
      · have hsentinel := ((hK.wellFormed hrun).1).sentinel
        rw [hwf.sentinel] at hx
        exact absurd (hsentinel.trans hx) hKx
      · obtain ⟨K, hKled, htake⟩ := inv.backed c hc w hact.mem i x hi hx
        rw [htake]
        rw [heq] at hKled
        exact (hKled.compatible hrun hK).of_isPrefix_left (List.take_prefix _ _)

/-- A node keeps an entry it held in the entry's term, or a leader up to its present
    term misses the entry. -/
theorem held_kept (hrun : Run (raftSystem M) h c) {w i : Nat} {x : LogEntry}
    (hheld : Held (visited h c) w i x) :
    (c.nodes w).log[i]? = some x ∨
      Missed M (visited h c) i x ((c.nodes w).currentTerm + 1) := by
  induction hrun with
  | start hinit =>
    obtain ⟨u, hu, -, hx⟩ := hheld
    obtain rfl := List.mem_singleton.mp hu
    exact .inl hx
  | @next h c c' e hrun hstep ih =>
    obtain ⟨u, hu, hterm, hx⟩ := hheld
    rcases List.mem_cons.mp hu with rfl | hu
    · exact .inl hx
    have hsub : visited h c ⊆ visited ((c, e) :: h) c' := List.subset_cons_self _ _
    have hle := (roleOrder_of_visited (.next hrun hstep) (List.mem_cons_of_mem _
      (mem_visited_self h c)) w).term_le
    -- the entry was still there before the last step, or its leader was already found
    rcases ih ⟨u, hu, hterm, hx⟩ with hkept | hmissed
    · rcases step_node hstep w with hsame | ⟨env, input, reply, net, hact⟩
      · rw [hsame]
        exact .inl hkept
      cases hact.reacts.logStep with
      | same hlog =>
        rw [hlog]
        exact .inl hkept
      | append command _ _ _ hlog =>
        rw [hlog]
        exact .inl (getElem?_of_isPrefix (List.prefix_append _ _) hkept)
      | merge src req haccepts hreq hlog =>
        -- only a merge removes entries, and then the sending leader misses this one
        rw [hlog]
        refine (hact.merge_keeps hrun haccepts hkept).imp_right fun ⟨hlt, K, hK, hne⟩ => ?_
        exact ⟨req.term, K, hlt, by omega, hK.mono hsub, hne⟩
    · exact .inr (hmissed.mono hsub (by omega))

/-! ## Candidates -/

/-- Node `a` was candidate of term `T` with the log `L`. -/
def CandidateLog (V : List Cluster) (a T : Nat) (L : List LogEntry) : Prop :=
  ∃ u ∈ V, (u.nodes a).state = .candidate ∧ (u.nodes a).currentTerm = T ∧ (u.nodes a).log = L

theorem CandidateLog.mono {V V' : List Cluster} {a T : Nat} {L : List LogEntry} (hsub : V ⊆ V')
    (hL : CandidateLog V a T L) : CandidateLog V' a T L :=
  let ⟨u, hu, hcand⟩ := hL
  ⟨u, hsub hu, hcand⟩

/-- A vote request in flight shows the end of its candidate's log. -/
theorem voteRequest_sent (hrun : Run (raftSystem M) h c) {p : Packet} (hp : p ∈ c.net)
    {req : RequestVoteRequest} (hmsg : p.msg = .requestVote req) :
    p.src ∈ M.ids ∧ ∃ u ∈ visited h c, (u.nodes p.src).state = .candidate ∧
      (u.nodes p.src).currentTerm = req.term ∧
      (u.nodes p.src).getLastLogIndex = req.lastLogIndex ∧
      (u.nodes p.src).getLastLogTerm = req.lastLogTerm := by
  induction hrun with
  | start hinit =>
    rw [hinit.2] at hp
    exact (List.not_mem_nil hp).elim
  | @next h c c' e hrun hstep ih =>
    -- a request that was in flight before keeps the state that explains it
    have hold : p ∈ c.net → p.src ∈ M.ids ∧ ∃ u ∈ visited ((c, e) :: h) c',
        (u.nodes p.src).state = .candidate ∧ (u.nodes p.src).currentTerm = req.term ∧
        (u.nodes p.src).getLastLogIndex = req.lastLogIndex ∧
        (u.nodes p.src).getLastLogTerm = req.lastLogTerm := fun hin =>
      let ⟨hsrc, u, hu, hcand⟩ := ih hin
      ⟨hsrc, u, List.mem_cons_of_mem _ hu, hcand⟩
    rcases step_cases hstep with ⟨q, -, hnet⟩ | ⟨i, env, input, reply, net, hact⟩
    · rw [hnet] at hp
      exact hold (List.mem_of_mem_erase hp)
    rcases hact.mem_net hp with hin | hemit
    · exact hold hin
    cases hemit with
    | vote _ hcand =>
      -- a new request shows the log of the state just reached
      obtain rfl := RaftMessage.requestVote.inj hmsg
      exact ⟨hact.mem, c', List.mem_cons_self, hcand, rfl, rfl, rfl⟩
    | append => exact nomatch hmsg
    | reply src msg answer =>
      dsimp only at hmsg
      subst hmsg
      exact hact.reacts.roleStep.reply_ne_requestVote.elim

/-- Within a term a log stays as it is until somebody leads the term. -/
theorem log_kept_until_led (hrun : Run (raftSystem M) h c) {u : Cluster} (hu : u ∈ visited h c)
    {a : Nat} (hterm : (u.nodes a).currentTerm = (c.nodes a).currentTerm) :
    (c.nodes a).log = (u.nodes a).log ∨ Led M (visited h c) (u.nodes a).currentTerm := by
  induction hrun with
  | start hinit =>
    obtain rfl := List.mem_singleton.mp hu
    exact .inl rfl
  | @next h c c' e hrun hstep ih =>
    rcases List.mem_cons.mp hu with rfl | hu
    · exact .inl rfl
    have hc := mem_visited_self h c
    have hsub : visited h c ⊆ visited ((c, e) :: h) c' := List.subset_cons_self _ _
    have hle := (roleOrder_of_visited hrun hu a).term_le
    have hle' := (roleOrder_of_visited (.next hrun hstep) (List.mem_cons_of_mem _ hc) a).term_le
    -- terms only grow, so the term was the same all the way from `u`
    rcases ih hu (by omega) with hkept | hled
    · rcases step_node hstep a with hsame | ⟨env, input, reply, net, hact⟩
      · rw [hsame]
        exact .inl hkept
      cases hact.reacts.logStep with
      | same hlog => exact .inl (hlog.trans hkept)
      | append command hstate _ hterm' _ =>
        -- a change of the log within the term needs a leader of the term
        exact .inr ⟨_, c, hsub hc, a, hact.mem, hstate, by omega, rfl⟩
      | merge src req haccepts hreq _ =>
        obtain ⟨hsrc, -, v, hv, hsent⟩ := hact.sentBy hrun
        exact .inr ⟨_, v, hsub hv, src, hsrc, hsent.leader, by rw [hsent.term]; omega, rfl⟩
    · exact .inr (hled.mono hsub)

/-- A candidate that is at least as up to date as a node holds an entry of the node,
    or a leader of a term between them misses it, or the candidate's term is led. -/
theorem upToDate_holds (hrun : Run (raftSystem M) h c) {w a : Nat} (hw : w ∈ M.ids)
    (ha : a ∈ M.ids) {u : Cluster} (hu : u ∈ visited h c) {req : RequestVoteRequest}
    (hindex : (u.nodes a).getLastLogIndex = req.lastLogIndex)
    (hlast : (u.nodes a).getLastLogTerm = req.lastLogTerm) (hup : (c.nodes w).upToDate req)
    {i : Nat} {x : LogEntry} (hx : (c.nodes w).log[i]? = some x) :
    (u.nodes a).log[i]? = some x ∨ Missed M (visited h c) i x (u.nodes a).currentTerm ∨
      Led M (visited h c) (u.nodes a).currentTerm := by
  have inv := logInv hrun
  have hc := mem_visited_self h c
  have hwf := inv.wellFormed c hc w hw
  have hwfL := inv.wellFormed u hu a ha
  have hposw := hwf.length_pos
  have hposL := hwfL.length_pos
  have hilen := (List.getElem?_eq_some_iff.mp hx).1
  generalize hL : (u.nodes a).log = L at *
  -- the last entries of both logs
  obtain ⟨fw, hfw⟩ : ∃ f, (c.nodes w).log[(c.nodes w).log.length - 1]? = some f :=
    ⟨_, List.getElem?_eq_getElem (by omega)⟩
  obtain ⟨f, hf⟩ : ∃ f, L[L.length - 1]? = some f := ⟨_, List.getElem?_eq_getElem (by omega)⟩
  have hlastw := RaftNode.getLastLogTerm_eq hfw
  have hlastL := RaftNode.getLastLogTerm_eq (n := u.nodes a) (by rw [hL]; exact hf)
  have hfx : x.term ≤ fw.term := hwf.sorted i _ x fw (by omega) hx hfw
  have hcmp : fw.term < f.term ∨
      (f.term = fw.term ∧ (c.nodes w).log.length - 1 ≤ L.length - 1) := by
    simp only [RaftNode.upToDate, Bool.or_eq_true, Bool.and_eq_true, decide_eq_true_eq,
      RaftNode.getLastLogIndex_eq, hlastw, ← hlast, ← hindex, hlastL, hL] at hup
    omega
  rcases Nat.eq_zero_or_pos i with rfl | hi
  · rw [hwf.sentinel] at hx
    exact .inl (hwfL.sentinel.trans hx)
  have hxpos := hwf.term_pos i x hi hx
  have hfpos : 0 < L.length - 1 := by
    rcases Nat.eq_zero_or_pos (L.length - 1) with hzero | hpos
    · rw [hzero, hwfL.sentinel] at hf
      have : f.term = 0 := by rw [← Option.some.inj hf]; rfl
      omega
    · exact hpos
  obtain ⟨K, hK, htake⟩ := (hL ▸ inv.backed u hu a ha) _ f hfpos hf
  have hKf : K[L.length - 1]? = some f := by
    rw [← getElem?_eq_of_take_eq htake (Nat.lt_succ_self _), hf]
  rcases Nat.lt_or_ge x.term f.term with hlt | hge
  · -- the last entry of the candidate is from a later term: ask that term's leader
    have hfle := hwfL.term_le _ f hf
    rcases Nat.lt_or_eq_of_le hfle with hfT | hfT
    · by_cases hKx : K[i]? = some x
      · have hilt : i < L.length - 1 := by
          by_contra hnot
          have := (hK.wellFormed hrun).1.sorted _ i f x (by omega) hKf hKx
          omega
        rw [getElem?_eq_of_take_eq htake (by omega)]
        exact .inl hKx
      · exact .inr (.inl ⟨f.term, K, hlt, hfT, hK, hKx⟩)
    · exact .inr (.inr ⟨K, hfT ▸ hK⟩)
  · -- both logs end in the entry's term, and the candidate's is the longer one
    have hterm : f.term = x.term := by omega
    obtain ⟨K', hK', htake'⟩ := inv.backed c hc w hw i x hi hx
    have hKx' : K'[i]? = some x := by
      rw [← getElem?_eq_of_take_eq htake' (Nat.lt_succ_self _), hx]
    have hKlen := (List.getElem?_eq_some_iff.mp hKf).1
    have hKi := List.getElem?_eq_getElem (l := K) (i := i) (by omega)
    have heq := (hK.compatible hrun (hterm ▸ hK')).getElem? hKi hKx'
    rw [getElem?_eq_of_take_eq htake (by omega), hKi, heq]
    exact .inl rfl

/-! ## Votes -/

/-- What a vote of node `w` for `a` in term `T` says about the candidate's log: it has
    what the voter held in an earlier term. The other two cases are leaders that
    account for the loss. -/
def GrantInfo (M : Membership) (V : List Cluster) (w T a : Nat) : Prop :=
  ∃ L, CandidateLog V a T L ∧ ∀ i x, Held V w i x → x.term < T →
    L[i]? = some x ∨ Missed M V i x T ∨ Led M V T

/-- The information survives a step, as the voter's term does not go back. -/
theorem GrantInfo.extend {V : List Cluster} {w T a : Nat} (hinfo : GrantInfo M V w T a)
    (hle : T ≤ (c'.nodes w).currentTerm) : GrantInfo M (c' :: V) w T a := by
  obtain ⟨L, hL, hheld⟩ := hinfo
  have hsub : V ⊆ c' :: V := List.subset_cons_self _ _
  refine ⟨L, hL.mono hsub, fun i x hx hlt => ?_⟩
  rcases hheld i x (hx.of_cons (by omega)) hlt with hL | hmissed | hled
  · exact .inl hL
  · exact .inr (.inl (hmissed.mono hsub (Nat.le_refl T)))
  · exact .inr (.inr (hled.mono hsub))

/-- What `held_kept` leaves of an entry when the node is in a term up to `T`. -/
private theorem held_until (hrun : Run (raftSystem M) h c) {w i T : Nat} {x : LogEntry}
    (hheld : Held (visited h c) w i x) (hle : (c.nodes w).currentTerm ≤ T) :
    (c.nodes w).log[i]? = some x ∨ Missed M (visited h c) i x T ∨ Led M (visited h c) T := by
  rcases held_kept hrun hheld with hkept | ⟨T', K, hlt, hlt', hK, hne⟩
  · exact .inl hkept
  · rcases Nat.lt_or_ge T' T with hT | hT
    · exact .inr (.inl ⟨T', K, hlt, hT, hK, hne⟩)
    · obtain rfl : T' = T := by omega
      exact .inr (.inr ⟨K, hK⟩)

private theorem Acted.grantInfo_step {w : Nat} {env : Env} {input : Input}
    {reply : Option RaftMessage} {net : List Packet} (hrun : Run (raftSystem M) h c)
    (hact : Acted M c c' e w env input reply net)
    (hsame : (c.nodes w).votedFor ≠ 0 →
      GrantInfo M (visited h c) w (c.nodes w).currentTerm (c.nodes w).votedFor)
    (hne : (c'.nodes w).votedFor ≠ 0) :
    GrantInfo M (c' :: visited h c) w (c'.nodes w).currentTerm (c'.nodes w).votedFor := by
  have hc := mem_visited_self h c
  have hsub : visited h c ⊆ c' :: visited h c := List.subset_cons_self _ _
  have hle := hact.reacts.term_le
  -- what the voter held before this step is what it may have held
  have hlift : ∀ {L : List LogEntry}, CandidateLog (c' :: visited h c) (c'.nodes w).votedFor
      (c'.nodes w).currentTerm L →
      (∀ i x, Held (visited h c) w i x → L[i]? = some x ∨
        Missed M (visited h c) i x (c'.nodes w).currentTerm ∨
        Led M (visited h c) (c'.nodes w).currentTerm) →
      GrantInfo M (c' :: visited h c) w (c'.nodes w).currentTerm (c'.nodes w).votedFor := by
    intro L hL hheld
    refine ⟨L, hL, fun i x hx hlt => ?_⟩
    rcases hheld i x (hx.of_cons hlt) with hL | hmissed | hled
    · exact .inl hL
    · exact .inr (.inl (hmissed.mono hsub (Nat.le_refl _)))
    · exact .inr (.inr (hled.mono hsub))
  cases hact.reacts.roleStep with
  | same hterm hvote =>
    rw [hvote] at hne ⊢
    rw [hterm]
    exact (hsame hne).extend hterm.ge
  | stepDown _ hvote => exact absurd hvote hne
  | campaign _ hterm hvote hcand _ hlog =>
    -- the candidate votes for itself with the log it has
    have hself : (c'.nodes w).votedFor = w := hvote.trans (run_ident hrun hact.mem).1
    refine hlift (L := (c'.nodes w).log)
      ⟨c', List.mem_cons_self, by rw [hself]; exact hcand, by rw [hself], by rw [hself]⟩
      fun i x hx => ?_
    rw [hlog]
    exact held_until hrun hx hle
  | grant src req hterm hreq _ hvote _ _ hlog hup =>
    -- the voter compared its log with the one the candidate sent
    have hmem := hact.of_message.1
    have hcandidate := (electionInv hrun).requests _ hmem req rfl
    obtain ⟨hsrc, u, hu, hcand, hut, hindex, hlast⟩ := voteRequest_sent hrun hmem rfl
    have hfor : (c'.nodes w).votedFor = src := hvote.trans hcandidate
    refine hlift (L := (u.nodes src).log)
      ⟨u, hsub hu, by rw [hfor]; exact hcand, by rw [hfor, hut, hterm], by rw [hfor]⟩
      fun i x hx => ?_
    rcases held_until hrun hx hle with hkept | hlost
    · rw [hterm, ← hut]
      exact upToDate_holds hrun hact.mem hsrc hu hindex hlast hup hkept
    · exact .inr hlost
  | count src resp _ _ hterm hvote =>
    rw [hvote] at hne ⊢
    rw [hterm]
    exact (hsame hne).extend hterm.ge

/-- Every vote of a run went to a candidate that has what the voter held. -/
theorem grantInfo (hrun : Run (raftSystem M) h c) {u : Cluster} (hu : u ∈ visited h c) {w : Nat}
    (hw : w ∈ M.ids) (hne : (u.nodes w).votedFor ≠ 0) :
    GrantInfo M (visited h c) w (u.nodes w).currentTerm (u.nodes w).votedFor := by
  induction hrun generalizing u with
  | start hinit =>
    obtain rfl := List.mem_singleton.mp hu
    obtain ⟨env, hnew⟩ := hinit.1 w hw
    rw [hnew] at hne
    exact absurd rfl hne
  | @next h c c' e hrun hstep ih =>
    have hrun' := Run.next hrun hstep
    rw [visited_cons]
    have hself := ih (mem_visited_self h c)
    -- only the vote of the node that reacted last can be new
    rcases List.mem_cons.mp hu with rfl | hold
    · rcases step_node hstep w with hsame | ⟨env, input, reply, net, hact⟩
      · rw [hsame] at hne ⊢
        exact (hself hne).extend (by rw [hsame])
      · exact hact.grantInfo_step hrun hself hne
    · exact (ih hold hne).extend (roleOrder_of_visited hrun' hu w).term_le

/-! ## Leaders -/

/-- What an election says about the log `K` of a leader of term `T`: it has what a
    majority held in earlier terms, or an earlier leader misses it. -/
def LeadInfo (M : Membership) (V : List Cluster) (c : Cluster) (T : Nat) (K : List LogEntry) :
    Prop :=
  ∃ W, Quorum.Majority M.ids W ∧ ∀ w ∈ W, T ≤ (c.nodes w).currentTerm ∧
    ∀ i x, Held V w i x → x.term < T → K[i]? = some x ∨ Missed M V i x T

theorem LeadInfo.extend {V : List Cluster} {T : Nat} {K K' : List LogEntry}
    (hinfo : LeadInfo M V c T K) (hpre : K <+: K')
    (hle : ∀ w, (c.nodes w).currentTerm ≤ (c'.nodes w).currentTerm) :
    LeadInfo M (c' :: V) c' T K' := by
  obtain ⟨W, hW, hvotes⟩ := hinfo
  refine ⟨W, hW, fun w hw => ⟨(hvotes w hw).1.trans (hle w), fun i x hx hlt => ?_⟩⟩
  have hT := (hvotes w hw).1
  rcases (hvotes w hw).2 i x (hx.of_cons (by have := hle w; omega)) hlt with hK | hmissed
  · exact .inl (getElem?_of_isPrefix hpre hK)
  · exact .inr (hmissed.mono (List.subset_cons_self _ _) (Nat.le_refl T))

/-- A node leads because it led before or because its last vote was just counted. -/
theorem RaftNode.RoleStep.leader_cases {n n' : RaftNode} {input : Input}
    {reply : Option RaftMessage} (hrole : RaftNode.RoleStep n n' input reply)
    (hleader : n'.state = .leader) :
    n'.currentTerm = n.currentTerm ∧
      (n.state = .leader ∨ (n.state = .candidate ∧ n'.votedFor = n.votedFor ∧ n'.log = n.log)) := by
  cases hrole with
  | same hterm _ hstate => exact ⟨hterm, .inl (hstate ▸ hleader)⟩
  | stepDown _ _ hstate => exact absurd (hstate.symm.trans hleader) (by decide)
  | campaign _ _ _ hcand => exact absurd (hcand.symm.trans hleader) (by decide)
  | grant _ _ hterm _ _ _ hstate =>
    rcases hstate with ⟨heq, hsame⟩ | ⟨-, hfollower⟩
    · exact ⟨hterm.trans heq.symm, .inl (hsame ▸ hleader)⟩
    · exact absurd (hfollower.symm.trans hleader) (by decide)
  | count _ _ _ hcand hterm hvote _ hlog => exact ⟨hterm, .inr ⟨hcand, hvote, hlog⟩⟩

/-- The election of node `l`: nobody has led its term, and the votes tell what its
    log holds. -/
private theorem Acted.leadInfo_elected {l : Nat} {env : Env} {input : Input}
    {reply : Option RaftMessage} {net : List Packet} (hrun : Run (raftSystem M) h c)
    (hstep : (raftSystem M).step c e = some c') (hact : Acted M c c' e l env input reply net)
    (hleader : (c'.nodes l).state = .leader)
    (hterm : (c'.nodes l).currentTerm = (c.nodes l).currentTerm)
    (hcand : (c.nodes l).state = .candidate) (hvote : (c'.nodes l).votedFor = (c.nodes l).votedFor)
    (hlog : (c'.nodes l).log = (c.nodes l).log) :
    LeadInfo M (c' :: visited h c) c' (c'.nodes l).currentTerm (c'.nodes l).log := by
  have hrun' := Run.next hrun hstep
  have hc := mem_visited_self h c
  have hsub : visited h c ⊆ c' :: visited h c := List.subset_cons_self _ _
  -- an earlier leader of this term would be this node, which was a candidate until now
  have hnotLed : ¬ Led M (visited h c) (c'.nodes l).currentTerm := by
    rintro ⟨K, u, hu, a, ha, hla, hta, -⟩
    obtain rfl := leader_unique hrun' (List.mem_cons_of_mem _ hu) List.mem_cons_self ha hact.mem
      hla hleader hta
    have := (roleOrder_of_visited hrun hu a).leader (hta.trans hterm) hla
    exact absurd (this.symm.trans hcand) (by decide)
  obtain ⟨W, hW, hvotes⟩ := leader_voted hrun' List.mem_cons_self hact.mem hleader
  refine ⟨W, hW, fun w hw => ?_⟩
  -- the vote was cast before this step
  obtain ⟨u, hu, hut, huv⟩ : Voted (visited h c) w (c'.nodes l).currentTerm l := by
    obtain ⟨u, hu, hut, huv⟩ := hvotes w hw
    rcases List.mem_cons.mp hu with rfl | hu
    · refine ⟨c, hc, ?_⟩
      by_cases hwl : w = l
      · subst hwl
        exact ⟨hterm.symm, hvote.symm.trans huv⟩
      · rw [hact.others w hwl] at hut huv
        exact ⟨hut, huv⟩
    · exact ⟨u, hu, hut, huv⟩
  have hle : (c'.nodes l).currentTerm ≤ (c'.nodes w).currentTerm := by
    rw [← hut]
    exact (roleOrder_of_visited hrun' (List.mem_cons_of_mem _ hu) w).term_le
  refine ⟨hle, fun i x hx hlt => ?_⟩
  have hne : (u.nodes w).votedFor ≠ 0 := by
    rw [huv]
    exact Membership.ne_zero hact.mem
  obtain ⟨L, ⟨v, hv, -, hvt, rfl⟩, hheld⟩ := grantInfo hrun hu (hW.1 hw) hne
  rw [hut] at hvt hheld
  rw [huv] at hvt hheld
  -- since the vote the candidate's log has not changed, for nobody led the term
  rcases hheld i x (hx.of_cons (by omega)) hlt with hL | hmissed | hled
  · left
    rcases log_kept_until_led hrun hv (hvt.trans hterm) with hsame | hled
    · rwa [hlog, hsame]
    · exact absurd (hvt ▸ hled) hnotLed
  · exact .inr (hmissed.mono hsub (Nat.le_refl _))
  · exact absurd hled hnotLed

theorem leadInfo (hrun : Run (raftSystem M) h c) {u : Cluster} (hu : u ∈ visited h c) {l : Nat}
    (hl : l ∈ M.ids) (hleader : (u.nodes l).state = .leader) :
    LeadInfo M (visited h c) c (u.nodes l).currentTerm (u.nodes l).log := by
  induction hrun generalizing u with
  | start hinit =>
    obtain rfl := List.mem_singleton.mp hu
    obtain ⟨env, hnew⟩ := hinit.1 l hl
    rw [hnew] at hleader
    exact nomatch hleader
  | @next h c c' e hrun hstep ih =>
    have hle : ∀ w, (c.nodes w).currentTerm ≤ (c'.nodes w).currentTerm := fun w =>
      (roleOrder_of_visited (.next hrun hstep)
        (List.mem_cons_of_mem _ (mem_visited_self h c)) w).term_le
    rw [visited_cons]
    rcases List.mem_cons.mp hu with rfl | hold
    · -- a node that led this term before has only extended its log
      have hstays : (c.nodes l).state = .leader →
          (u.nodes l).currentTerm = (c.nodes l).currentTerm →
          LeadInfo M (u :: visited h c) u (u.nodes l).currentTerm (u.nodes l).log := by
        intro hled hterm
        rw [hterm]
        exact (ih (mem_visited_self h c) hled).extend
          (step_leader_log hrun hstep hled hterm) hle
      rcases step_node hstep l with hsame | ⟨env, input, reply, net, hact⟩
      · exact hstays (by rw [← hsame]; exact hleader) (by rw [hsame])
      obtain ⟨hterm, hled | ⟨hcand, hvote, hlog⟩⟩ := hact.reacts.roleStep.leader_cases hleader
      · exact hstays hled hterm
      · exact hact.leadInfo_elected hrun hstep hleader hterm hcand hvote hlog
    · exact (ih hold hleader).extend (List.prefix_refl _) hle

/-! ## Leader completeness -/

/-- What a majority held in the entry's own term is in the log of every later leader. -/
theorem leaderLog_complete (hrun : Run (raftSystem M) h c) {Q : Finset Nat}
    (hQ : Quorum.Majority M.ids Q) {i : Nat} {x : LogEntry}
    (hheld : ∀ w ∈ Q, Held (visited h c) w i x) {T : Nat} {K : List LogEntry}
    (hK : LeaderLog M (visited h c) T K) (hlt : x.term < T) : K[i]? = some x := by
  -- a leader that misses the entry points to an earlier one: induction on the term
  induction T using Nat.strong_induction_on generalizing K with
  | _ T ih =>
    obtain ⟨u, hu, l, hl, hleader, rfl, rfl⟩ := hK
    obtain ⟨W, hW, hvotes⟩ := leadInfo hrun hu hl hleader
    obtain ⟨w, hwQ, hwW⟩ := hQ.exists_common hW
    rcases (hvotes w hwW).2 i x (hheld w hwQ) hlt with hx | ⟨T', K', hlt', hT', hK', hne⟩
    · exact hx
    · exact absurd (ih T' hT' hK' hlt') hne

/-- Leader completeness: an entry that a majority held in the entry's term is at the
    same position in the log of every node that leads a later term. -/
theorem leader_completeness (hrun : Run (raftSystem M) h c) {Q : Finset Nat}
    (hQ : Quorum.Majority M.ids Q) {i : Nat} {x : LogEntry}
    (hheld : ∀ w ∈ Q, ∃ u ∈ visited h c,
      (u.nodes w).currentTerm = x.term ∧ (u.nodes w).log[i]? = some x) :
    ∀ u ∈ visited h c, ∀ l ∈ M.ids, (u.nodes l).state = .leader →
      x.term < (u.nodes l).currentTerm → (u.nodes l).log[i]? = some x :=
  fun u hu l hl hleader hlt =>
    leaderLog_complete hrun hQ hheld ⟨u, hu, l, hl, hleader, rfl, rfl⟩ hlt

/-- Node 1 of three replicates an entry to node 2, which then wins the next term. -/
def replicatedThenElected : List Event :=
  [.tick 1 (atTime 200),
    .deliver ⟨1, 2, .requestVote ⟨1, 1, 0, 0⟩⟩ (atTime 210),
    .deliver ⟨2, 1, .requestVoteResp ⟨1, true⟩⟩ (atTime 220),
    .propose 1 (atTime 230) [97],
    .deliver ⟨1, 2, .appendEntries ⟨1, 1, 0, 0, 0, [⟨1, 1, [97]⟩]⟩⟩ (atTime 240),
    .tick 2 (atTime 400),
    .deliver ⟨2, 3, .requestVote ⟨2, 2, 1, 1⟩⟩ (atTime 410),
    .deliver ⟨3, 2, .requestVoteResp ⟨2, true⟩⟩ (atTime 420)]

theorem replicatedThenElected_runs : (schedule 3 replicatedThenElected).isSome := by
  decide +kernel

theorem leader_completeness_replicatedThenElected :
    let r := (schedule 3 replicatedThenElected).get replicatedThenElected_runs
    (r.2.nodes 2).state = .leader ∧ (r.2.nodes 2).currentTerm = 2 ∧
      (r.2.nodes 2).log[1]? = some ⟨1, 1, [97]⟩ := by
  refine ⟨by decide +kernel, by decide +kernel, ?_⟩
  refine leader_completeness (schedule_run replicatedThenElected_runs) (Q := {1, 2})
    ⟨by decide, by decide⟩ (fun w hw => ?_) _ (mem_visited_self _ _) 2 (by decide)
    (by decide +kernel) (by decide +kernel)
  have hheld : ∀ w ∈ ({1, 2} : Finset Nat), ∃ u ∈ visited
      ((schedule 3 replicatedThenElected).get replicatedThenElected_runs).1
      ((schedule 3 replicatedThenElected).get replicatedThenElected_runs).2,
      (u.nodes w).currentTerm = 1 ∧ (u.nodes w).log[1]? = some ⟨1, 1, [97]⟩ := by
    decide +kernel
  exact hheld w hw

end Dkv
