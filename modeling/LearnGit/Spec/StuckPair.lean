import LearnGit.Spec.PairDelivery

/-!
# Stuck pairs

A leader repairs the log of a follower only on a refused request: it goes back one
position and sends everything from there. A heartbeat carries no entries, and on an
accepted one nothing is sent. A follower that lacks the last entries but accepts every
request that reaches it therefore never gets them.

## Key results

- `Stuck`: the states in which nothing in flight has to bring the follower the last entries
- `PairStep.harmless`: what is harmless after a delivery was so before
- `Stuck.exists_delivery`: a stuck pair may stay stuck
-/

namespace Dkv

open Transition ReplicatedLog

variable {M : Membership} {h : List (Cluster × Event)} {c c' c₁ : Cluster} {l p : Nat}

/-! ## What is in flight -/

/-- The logs agree at position `i`, or a request in flight reaches it. -/
def Covered (l p : Nat) (c : Cluster) (i : Nat) : Prop :=
  c.AgreeAt l p i ∨ ∃ req ∈ c.requests l p, i ≤ req.lastIndex

instance Covered.decidable (l p : Nat) (c : Cluster) (i : Nat) : Decidable (Covered l p c i) :=
  inferInstanceAs (Decidable (_ ∨ _))

/-- The follower lacks the leader's last entry, and what is in flight need not bring it: there
    is an order in which all requests are accepted, and no answer makes the leader probe a
    position that the follower refuses. -/
structure Harmless (l p : Nat) (c : Cluster) : Prop where
  /-- Neither does any request in flight reach the last entry. -/
  missing : ¬ Covered l p c (c.nodes l).getLastLogIndex
  /-- The requests in flight are not out of date. -/
  passes : ∀ req ∈ c.requests l p, (c.nodes l).Accepts req
  /-- Each of them starts where the logs agree or behind one that reaches its start. -/
  ordered : ∀ req ∈ c.requests l p, c.AgreeAt l p req.prevLogIndex ∨
    ∃ req' ∈ c.requests l p, req'.prevLogIndex < req.prevLogIndex ∧
      req.prevLogIndex ≤ req'.lastIndex
  /-- The answers in flight report success, up to a position that is known or covered. -/
  answers : ∀ resp ∈ c.responses p l, resp.term = (c.nodes l).currentTerm →
    resp.success = true ∧
      (resp.matchIndex ≤ (c.nodes l).matchIndex p ∨ Covered l p c resp.matchIndex)
  /-- What the follower will report next is known, or the logs agree there. -/
  report : (c.nodes p).getLastLogIndex ≤ (c.nodes l).matchIndex p ∨
    c.AgreeAt l p (c.nodes p).getLastLogIndex ∨
    ∃ req ∈ c.requests l p, ¬ c.AgreeAt l p req.lastIndex

/-- The next heartbeat, too, starts at a position that is covered. -/
structure Stuck (l p : Nat) (c : Cluster) : Prop extends Harmless l p c where
  next : Covered l p c ((c.nodes l).nextIndex p - 1)

instance Stuck.decidable (l p : Nat) (c : Cluster) : Decidable (Stuck l p c) :=
  decidable_of_iff
    (((¬ Covered l p c (c.nodes l).getLastLogIndex) ∧
      (∀ req ∈ c.requests l p, (c.nodes l).Accepts req) ∧
      (∀ req ∈ c.requests l p, c.AgreeAt l p req.prevLogIndex ∨
        ∃ req' ∈ c.requests l p, req'.prevLogIndex < req.prevLogIndex ∧
          req.prevLogIndex ≤ req'.lastIndex) ∧
      (∀ resp ∈ c.responses p l, resp.term = (c.nodes l).currentTerm →
        resp.success = true ∧
          (resp.matchIndex ≤ (c.nodes l).matchIndex p ∨ Covered l p c resp.matchIndex)) ∧
      ((c.nodes p).getLastLogIndex ≤ (c.nodes l).matchIndex p ∨
        c.AgreeAt l p (c.nodes p).getLastLogIndex ∨
        ∃ req ∈ c.requests l p, ¬ c.AgreeAt l p req.lastIndex)) ∧
      Covered l p c ((c.nodes l).nextIndex p - 1))
    ⟨fun ⟨⟨h₁, h₂, h₃, h₄, h₅⟩, h₆⟩ => ⟨⟨h₁, h₂, h₃, h₄, h₅⟩, h₆⟩,
      fun h => ⟨⟨h.missing, h.passes, h.ordered, h.answers, h.report⟩, h.next⟩⟩

theorem Covered.of_le (hpair : Paired M c l p) {i j : Nat} (hi : Covered l p c i) (hle : j ≤ i) :
    Covered l p c j := by
  rcases hi with hagree | ⟨req, hreq, hreach⟩
  · exact .inl (hpair.agreeAt_of_le hagree hle)
  · exact .inr ⟨req, hreq, hle.trans hreach⟩

/-- A position that is covered is one where the logs agree, or it lies behind the start of a
    request that reaches it. -/
theorem Harmless.reached (hpair : Paired M c l p) (hharmless : Harmless l p c) {i : Nat}
    (hi : Covered l p c i) : c.AgreeAt l p i ∨
      ∃ req ∈ c.requests l p, req.prevLogIndex < i ∧ i ≤ req.lastIndex := by
  rcases hi with hagree | ⟨req, hreq, hreach⟩
  · exact .inl hagree
  -- a request that starts too late lies behind another one that reaches its start
  induction hprev : req.prevLogIndex using Nat.strong_induction_on generalizing req with
  | _ prev ih =>
    rcases Nat.lt_or_ge prev i with hlt | hge
    · exact .inr ⟨req, hreq, hprev.trans_lt hlt, hreach⟩
    · rcases hharmless.ordered req hreq with hagree | ⟨req', hreq', hbefore, hmeets⟩
      · exact .inl (hpair.agreeAt_of_le hagree (by omega))
      · exact ih req'.prevLogIndex (by omega) req' hreq' (by omega) rfl

namespace PairStep

variable {q : Packet} {new : List Packet}

theorem lastIndex_eq (hstep : PairStep M l p c c' q new) :
    (c'.nodes l).getLastLogIndex = (c.nodes l).getLastLogIndex :=
  RaftNode.getLastLogIndex_congr hstep.log

theorem accepts_iff (hstep : PairStep M l p c c' q new) (req : AppendEntriesRequest) :
    (c'.nodes l).Accepts req ↔ (c.nodes l).Accepts req :=
  RaftNode.accepts_congr hstep.log hstep.term

theorem agreeAt_iff (hstep : PairStep M l p c c' q new)
    (hlog : (c'.nodes p).log = (c.nodes p).log) (i : Nat) :
    c'.AgreeAt l p i ↔ c.AgreeAt l p i := by
  rw [Cluster.AgreeAt, Cluster.AgreeAt, hstep.log, hlog]

end PairStep

/-- Where neither the logs nor the requests change, the covered positions do not either. -/
theorem covered_congr (hagree : ∀ i, c'.AgreeAt l p i ↔ c.AgreeAt l p i)
    (hreqs : ∀ req, req ∈ c'.requests l p ↔ req ∈ c.requests l p) (i : Nat) :
    Covered l p c' i ↔ Covered l p c i := by
  simp only [Covered, hagree, hreqs]

/-- Nor do they when a request is accepted. -/
theorem covered_accepted {req : AppendEntriesRequest}
    (hagree : ∀ i, c'.AgreeAt l p i ↔ c.AgreeAt l p i ∨ i ≤ req.lastIndex)
    (hreqs : ∀ req', req' ∈ c.requests l p ↔ req' = req ∨ req' ∈ c'.requests l p) (i : Nat) :
    Covered l p c' i ↔ Covered l p c i := by
  simp only [Covered, hagree, hreqs]
  constructor
  · rintro ((hsame | hle) | ⟨req', hmem, hle⟩)
    · exact .inl hsame
    · exact .inr ⟨req, .inl rfl, hle⟩
    · exact .inr ⟨req', .inr hmem, hle⟩
  · rintro (hsame | ⟨req', rfl | hmem, hle⟩)
    · exact .inl (.inl hsame)
    · exact .inl (.inr hle)
    · exact .inr ⟨req', hmem, hle⟩

/-- Where `nextIndex` follows on `matchIndex`, the next heartbeat starts at a covered position. -/
def Resumes (l p : Nat) (c : Cluster) : Prop :=
  (c.nodes l).nextIndex p = (c.nodes l).matchIndex p + 1 →
    Covered l p c ((c.nodes l).matchIndex p)

/-- What is in flight after a delivery is harmless only if it was so before. -/
theorem PairStep.harmless (hpair : Paired M c l p) {q : Packet} {new : List Packet}
    (hstep : PairStep M l p c c' q new) (hharmless : Harmless l p c') (hresumes : Resumes l p c') :
    Harmless l p c ∧ Resumes l p c := by
  obtain ⟨hmissing, hpasses, hordered, hanswers, hreport⟩ := hharmless
  rw [hstep.lastIndex_eq] at hmissing
  simp only [hstep.accepts_iff] at hpasses
  simp only [hstep.term] at hanswers
  rw [Resumes] at hresumes
  cases hstep.pairEffect hpair with
  | ignored hpeer hnext hmatch hreqs hresps =>
    have hagree := hstep.agreeAt_iff hpeer
    have hcovered := covered_congr hagree hreqs
    have hlast := RaftNode.getLastLogIndex_congr hpeer
    simp only [hcovered, hagree, hreqs, hmatch, hnext, hlast]
      at hmissing hpasses hordered hanswers hreport hresumes
    exact ⟨⟨hmissing, hpasses, hordered,
      fun resp hmem hterm => hanswers resp ((hresps resp hterm).mpr hmem) hterm, hreport⟩, hresumes⟩
  | accepted req _ haccepts hprev hagree hlast hnext hmatch hreqs hresps =>
    -- the accepted request covered what the logs now agree on
    have hcovered := covered_accepted hagree hreqs
    simp only [hcovered, hmatch, hnext] at hmissing hanswers hreport hresumes
    refine ⟨⟨hmissing, fun req' hmem => ?_, fun req' hmem => ?_,
      fun resp hmem hterm => hanswers resp ((hresps resp hterm).mpr (.inr hmem)) hterm, ?_⟩,
      hresumes⟩
    · rcases (hreqs req').mp hmem with rfl | hmem
      · exact haccepts
      · exact hpasses req' hmem
    · rcases (hreqs req').mp hmem with rfl | hmem
      · exact .inl hprev
      rcases hordered req' hmem with hsame | ⟨req₁, hmem₁, hbefore, hmeets⟩
      · rcases (hagree _).mp hsame with hsame | hle
        · exact .inl hsame
        · -- it starts behind the accepted request, or where the logs agreed already
          rcases Nat.lt_or_ge req.prevLogIndex req'.prevLogIndex with hlt | hge
          · exact .inr ⟨req, (hreqs req).mpr (.inl rfl), hlt, hle⟩
          · exact .inl (hpair.agreeAt_of_le hprev hge)
      · exact .inr ⟨req₁, (hreqs req₁).mpr (.inr hmem₁), hbefore, hmeets⟩
    · by_cases hknown : c.AgreeAt l p req.lastIndex
      -- a request that brings nothing new leaves the follower's log, and any other is the one
      -- whose end is new
      · have hsame : ∀ i, c'.AgreeAt l p i ↔ c.AgreeAt l p i := fun i =>
          (hagree i).trans ⟨fun hi => hi.elim id (hpair.agreeAt_of_le hknown), .inl⟩
        rw [hlast, if_pos hknown, hsame] at hreport
        refine hreport.imp id (.imp id fun ⟨req', hmem, hdiff⟩ => ?_)
        exact ⟨req', (hreqs req').mpr (.inr hmem), fun hi => hdiff ((hsame _).mpr hi)⟩
      · exact .inr (.inr ⟨req, (hreqs req).mpr (.inl rfl), hknown⟩)
  | refused req _ hrejects resp hresp hterm hfailure =>
    -- the refusal is in flight afterwards, which is not harmless
    have hsuccess := (hanswers resp hresp hterm).1
    rw [hfailure] at hsuccess
    exact nomatch hsuccess
  | acknowledged resp hterm hsuccess hpeer hmatch hnext hreqs hresps =>
    have hagree := hstep.agreeAt_iff hpeer
    have hcovered := covered_congr hagree hreqs
    have hlast := RaftNode.getLastLogIndex_congr hpeer
    simp only [hcovered, hagree, hreqs, hmatch, hnext, hlast]
      at hmissing hpasses hordered hanswers hreport hresumes
    -- a position that was new to the leader is where the next heartbeat starts
    have hreported : (c.nodes l).matchIndex p < resp.matchIndex →
        Covered l p c resp.matchIndex := by
      intro hlt
      rw [if_pos hlt, Nat.max_eq_right hlt.le] at hresumes
      exact hresumes rfl
    have hbelow : ∀ i, i ≤ max ((c.nodes l).matchIndex p) resp.matchIndex →
        i ≤ (c.nodes l).matchIndex p ∨ Covered l p c i := by
      intro i hi
      rcases Nat.lt_or_ge ((c.nodes l).matchIndex p) resp.matchIndex with hlt | hge
      · exact .inr ((hreported hlt).of_le hpair (by omega))
      · exact .inl (by omega)
    refine ⟨⟨hmissing, hpasses, hordered, fun resp' hmem hterm' => ?_, ?_⟩, fun hfollows => ?_⟩
    · rcases (hresps resp' hterm').mp hmem with rfl | hmem
      · exact ⟨hsuccess, hbelow _ (Nat.le_max_right _ _)⟩
      · obtain ⟨hsuccess', hknown⟩ := hanswers resp' hmem hterm'
        exact ⟨hsuccess', hknown.elim (hbelow _) .inr⟩
    · rcases hreport with hle | hrest
      · refine (hbelow _ hle).imp id fun hcov => ?_
        rcases hcov with hsame | ⟨req, hmem, hreach⟩
        · exact .inl hsame
        · by_cases hknown : c.AgreeAt l p req.lastIndex
          · exact .inl (hpair.agreeAt_of_le hknown hreach)
          · exact .inr ⟨req, hmem, hknown⟩
      · exact .inr hrest
    · rcases Nat.lt_or_ge ((c.nodes l).matchIndex p) resp.matchIndex with hlt | hge
      · exact (hreported hlt).of_le hpair hlt.le
      · rw [if_neg (by omega), Nat.max_eq_left hge] at hresumes
        exact hresumes hfollows
  | retried _ _ _ _ _ req hmem hlast => exact absurd (.inr ⟨req, hmem, hlast⟩) hmissing

/-- A delivery of an acceptable request that brings something new, or of any packet where no
    request does, leaves the pair stuck. -/
theorem Stuck.delivery (hpair : Paired M c l p) {q : Packet} {new : List Packet}
    (hstep : PairStep M l p c c' q new) (hstuck : Stuck l p c)
    (hgood : ∀ req, q = ⟨l, p, .appendEntries req⟩ → c.AgreeAt l p req.prevLogIndex ∧
      (¬ c.AgreeAt l p req.lastIndex ∨
        ∀ req' ∈ c.requests l p, c.AgreeAt l p req'.lastIndex)) : Stuck l p c' := by
  obtain ⟨⟨hmissing, hpasses, hordered, hanswers, hreport⟩, hnext⟩ := hstuck
  rw [← hstep.lastIndex_eq] at hmissing
  simp only [← hstep.accepts_iff] at hpasses
  cases hstep.pairEffect hpair with
  | ignored hpeer hnext' hmatch hreqs hresps =>
    have hagree := hstep.agreeAt_iff hpeer
    have hcovered := covered_congr hagree hreqs
    have hlast := RaftNode.getLastLogIndex_congr hpeer
    simp only [← hcovered, ← hagree, ← hreqs, ← hmatch, ← hnext', ← hlast]
      at hmissing hpasses hordered hanswers hreport hnext
    refine ⟨⟨hmissing, hpasses, hordered, fun resp hmem hterm => ?_, hreport⟩, hnext⟩
    rw [hstep.term] at hterm
    exact hanswers resp ((hresps resp hterm).mp hmem) hterm
  | accepted req hq haccepts hprev hagree hlast hnext' hmatch hreqs hresps =>
    have hcovered := covered_accepted hagree hreqs
    -- the answer reports an index that is known or one at which the logs agree
    have hlast' : (c'.nodes p).getLastLogIndex ≤ (c.nodes l).matchIndex p ∨
        c'.AgreeAt l p (c'.nodes p).getLastLogIndex := by
      rcases (hgood req hq).2 with hnew | hall
      · rw [hlast, if_neg hnew]
        exact .inr ((hagree _).mpr (.inr (Nat.le_refl _)))
      · rw [hlast, if_pos (hall req ((hreqs req).mpr (.inl rfl)))]
        refine hreport.imp id fun hrest => (hagree _).mpr (.inl ?_)
        exact hrest.resolve_right fun ⟨req', hmem, hdiff⟩ => hdiff (hall req' hmem)
    refine ⟨⟨fun hcov => hmissing ((hcovered _).mp hcov),
      fun req' hmem => hpasses req' ((hreqs req').mpr (.inr hmem)), fun req' hmem => ?_,
      fun resp hmem hterm => ?_, ?_⟩, ?_⟩
    · rcases hordered req' ((hreqs req').mpr (.inr hmem)) with
        hsame | ⟨req₁, hmem₁, hbefore, hmeets⟩
      · exact .inl ((hagree _).mpr (.inl hsame))
      · rcases (hreqs req₁).mp hmem₁ with rfl | hmem₁
        · exact .inl ((hagree _).mpr (.inr hmeets))
        · exact .inr ⟨req₁, hmem₁, hbefore, hmeets⟩
    · rw [hstep.term] at hterm
      rw [hmatch, hcovered]
      rcases (hresps resp hterm).mp hmem with rfl | hmem
      · exact ⟨rfl, hlast'.imp id fun hsame => (hcovered _).mp (.inl hsame)⟩
      · exact hanswers resp hmem hterm
    · rw [hmatch]
      exact hlast'.imp id .inl
    · rw [hnext', hcovered]
      exact hnext
  | refused req hq hrejects =>
    have hmem : req ∈ c.requests l p := mem_requests.mpr (hq ▸ hstep.replaced.mem)
    exact absurd ⟨(hstep.accepts_iff req).mp (hpasses req hmem), (hgood req hq).1⟩ hrejects
  | acknowledged resp hterm hsuccess hpeer hmatch hnext' hreqs hresps =>
    have hagree := hstep.agreeAt_iff hpeer
    have hcovered := covered_congr hagree hreqs
    have hlast := RaftNode.getLastLogIndex_congr hpeer
    have hreported := (hanswers resp ((hresps resp hterm).mpr (.inl rfl)) hterm).2
    simp only [← hcovered, ← hagree, ← hreqs, ← hlast]
      at hmissing hpasses hordered hanswers hreport hnext hreported
    refine ⟨⟨hmissing, hpasses, hordered, fun resp' hmem hterm' => ?_, ?_⟩, ?_⟩
    · rw [hstep.term] at hterm'
      rw [hmatch]
      obtain ⟨hsuccess', hknown⟩ := hanswers resp' ((hresps resp' hterm').mpr (.inr hmem)) hterm'
      exact ⟨hsuccess', hknown.imp (fun hle => hle.trans (Nat.le_max_left _ _)) id⟩
    · rw [hmatch]
      exact hreport.imp (fun hle => hle.trans (Nat.le_max_left _ _)) id
    · rw [hnext']
      split
      · next hlt => exact hreported.resolve_left (Nat.not_le.mpr hlt)
      · exact hnext
  | retried resp hresp hterm hfailure =>
    have hsuccess := (hanswers resp hresp hterm).1
    rw [hfailure] at hsuccess
    exact nomatch hsuccess

/-- Of the requests that bring something new one can be accepted at once. -/
theorem Harmless.exists_new (hpair : Paired M c l p) (hharmless : Harmless l p c)
    {req : AppendEntriesRequest} (hmem : req ∈ c.requests l p)
    (hnew : ¬ c.AgreeAt l p req.lastIndex) : ∃ req ∈ c.requests l p,
      c.AgreeAt l p req.prevLogIndex ∧ ¬ c.AgreeAt l p req.lastIndex := by
  -- the one that starts first
  induction hprev : req.prevLogIndex using Nat.strong_induction_on generalizing req with
  | _ prev ih =>
    rcases hharmless.ordered req hmem with hagree | ⟨req', hmem', hbefore, hmeets⟩
    · exact ⟨req, hmem, hagree, hnew⟩
    · by_cases hknown : c.AgreeAt l p req'.lastIndex
      · exact ⟨req, hmem, hpair.agreeAt_of_le hknown hmeets, hnew⟩
      · exact ih req'.prevLogIndex (by omega) hmem' hknown rfl

/-- As long as something is in flight, a stuck pair may stay stuck. -/
theorem Stuck.exists_delivery (hpair : Paired M c l p) (hstuck : Stuck l p c)
    (hsome : Delivery M l p c c₁) :
    ∃ c', Delivery M l p c c' ∧ Paired M c' l p ∧ Stuck l p c' := by
  by_cases hall : ∀ req ∈ c.requests l p, c.AgreeAt l p req.lastIndex
  · obtain ⟨q, env, hq, hstep⟩ := hsome
    obtain ⟨new, hpstep⟩ := hpair.delivered hq hstep
    refine ⟨c₁, ⟨q, env, hq, hstep⟩, hpstep.pair, hstuck.delivery hpair hpstep fun req heq => ?_⟩
    have hmem : req ∈ c.requests l p := mem_requests.mpr (heq ▸ hpstep.replaced.mem)
    exact ⟨hpair.agreeAt_of_le (hall req hmem) (Nat.le_add_right _ _), .inr hall⟩
  · simp only [not_forall] at hall
    obtain ⟨req₀, hmem₀, hnew₀⟩ := hall
    obtain ⟨req, hmem, hprev, hnew⟩ := hstuck.exists_new hpair hmem₀ hnew₀
    have hq : Packet.Between l p ⟨l, p, .appendEntries req⟩ := .inl ⟨rfl, rfl⟩
    obtain ⟨c', hstep⟩ := hpair.exists_delivery hq (mem_requests.mp hmem)
      (atTime (c.nodes p).lastHeartbeat)
    obtain ⟨new, hpstep⟩ := hpair.delivered hq hstep
    refine ⟨c', ⟨_, _, hq, hstep⟩, hpstep.pair, hstuck.delivery hpair hpstep fun req' heq => ?_⟩
    cases heq
    exact ⟨hprev, .inl hnew⟩

end Dkv
