import LearnGit.Spec.StuckPair

/-!
# Catching up

The leader's heartbeats and all that is delivered between the leader and a follower of
its term bring the follower's log up to the leader's, unless the two are stuck. Two rounds
are enough: in the first one the leader learns the follower's last index, in the second one
it is refused where it has to go back.

## Key results

- `CatchesUpWithin`: the rounds of heartbeats and deliveries
- `Stuck.not_catchesUpWithin`: no number of rounds helps a stuck pair
- `Paired.round`: every round comes to its end
- `catchesUp_iff`: the follower catches up exactly from a state that is not stuck
-/

namespace Dkv

open Transition ReplicatedLog

variable {M : Membership} {h : List (Cluster × Event)} {c c' c₁ : Cluster} {l p : Nat}

/-! ## Rounds -/

/-- The timer of `l` fires and sends a heartbeat to `p`. -/
def Heartbeat (M : Membership) (l p : Nat) (c c₁ : Cluster) : Prop :=
  ∃ env req, (raftSystem M).step c (.tick l env) = some c₁ ∧
    ⟨l, p, .appendEntries req⟩ ∈ RaftNode.sent l (c.nodes l) (c₁.nodes l)

/-- After `k` rounds the log of `p` holds every entry of the log of `l`, however the rounds
    are timed. In a round `l` sends its heartbeat, and all packets between the two, those in
    flight before included, are delivered in some order, with what is sent on them, until
    none is left. Packets of the other nodes stay on their way. -/
def CatchesUpWithin (M : Membership) (l p : Nat) : Nat → Cluster → Prop
  | 0, c => (c.nodes l).log <+: (c.nodes p).log
  | k + 1, c => (∃ c₁, Heartbeat M l p c c₁) ∧ ∀ c₁, Heartbeat M l p c c₁ →
      Inevitable (Delivery M l p) (fun c' => Quiet l p c' ∧ CatchesUpWithin M l p k c') c₁

/-- After some number of rounds the log of `p` holds every entry of the log of `l`. -/
def CatchesUp (M : Membership) (l p : Nat) (c : Cluster) : Prop :=
  ∃ k, CatchesUpWithin M l p k c

/-! ## The heartbeat of a leader -/

namespace RaftNode

variable {n n' : RaftNode} {env : Env}

/-- A leader's timer sends heartbeats at most. -/
private theorem Reacts.leader_tick {reply : Option RaftMessage}
    (hreact : n.Reacts env .tick n' reply) (hleader : n.state = .leader) :
    Untouched n n' ∧ ∀ i q, q ∈ sent i n n' →
      ∃ pid, q = ⟨i, pid, .appendEntries (n.appendEntriesFor true pid)⟩ := by
  cases hreact with
  | idle =>
    refine ⟨.refl n, fun i q hmem => ?_⟩
    rw [sent_self] at hmem
    exact (List.not_mem_nil hmem).elim
  | timeout hstate => exact absurd hleader hstate
  | leaderTick _ heartbeat cs hcs =>
    refine ⟨⟨rfl, rfl, rfl, rfl, rfl⟩, fun i q hmem => ?_⟩
    simp only [sent, newCalls, List.drop_left, List.mem_filterMap, List.mem_append] at hmem
    obtain ⟨call, hcall | hcall, hpacket⟩ := hmem
    -- a leader's heartbeats, if it is time for them; the calls that apply entries send nothing
    · rcases hcs with rfl | rfl
      · exact (List.not_mem_nil hcall).elim
      · obtain ⟨pid, -, rfl⟩ := List.mem_map.mp hcall
        exact ⟨pid, (Option.some.inj hpacket).symm⟩
    · obtain ⟨j, -, -, rfl⟩ := mem_applyCalls.mp hcall
      simp [Call.packet] at hpacket

private theorem advanceCommitIndex_calls (n : RaftNode) :
    n.advanceCommitIndex.calls = n.calls := by
  unfold advanceCommitIndex
  split <;> rfl

/-- After 50 milliseconds a leader's timer sends a heartbeat to every peer. -/
private theorem mem_sent_tick (env : Env) (hleader : n.state = .leader)
    (helapsed : 50 ≤ env.now - n.lastHeartbeat) (i : Nat) (hp : p ∈ n.peerIds) :
    ⟨i, p, .appendEntries (n.appendEntriesFor true p)⟩ ∈ sent i n (n.tick env) := by
  have hcalls : ∃ cs, (n.tick env).calls = n.calls ++ (n.appendCalls true ++ cs) := by
    have hno : ¬ ((n.state = .follower ∨ n.state = .candidate)
        ∧ env.now - n.lastHeartbeat ≥ n.electionTimeoutMs) := by simp [hleader]
    unfold tick
    dsimp only
    rw [if_neg hno, if_pos hleader, if_pos helapsed, applyEntries_eq]
    dsimp only
    rw [advanceCommitIndex_calls]
    exact ⟨_, List.append_assoc _ _ _⟩
  obtain ⟨cs, hcalls⟩ := hcalls
  rw [sent, newCalls, hcalls, List.drop_left, List.filterMap_append]
  refine List.mem_append_left _ (List.mem_filterMap.mpr ⟨_, List.mem_map.mpr ⟨p, hp, rfl⟩, rfl⟩)

end RaftNode

/-- What the heartbeat of the leader means for the pair; `req` is the request to the follower. -/
structure Beaten (M : Membership) (l p : Nat) (c c₁ : Cluster) (req : AppendEntriesRequest) :
    Prop where
  pair : Paired M c₁ l p
  peer : c₁.nodes p = c.nodes p
  leader : (c.nodes l).Untouched (c₁.nodes l)
  probe : (c.nodes l).Probes p false req
  reqs (req' : AppendEntriesRequest) :
    req' ∈ c₁.requests l p ↔ req' = req ∨ req' ∈ c.requests l p
  resps (resp : AppendEntriesResponse) : resp ∈ c₁.responses p l ↔ resp ∈ c.responses p l

theorem Paired.beaten (hpair : Paired M c l p) (hbeat : Heartbeat M l p c c₁) :
    ∃ req, Beaten M l p c c₁ req := by
  obtain ⟨env, req, hstep, hmem⟩ := hbeat
  obtain ⟨-, hact⟩ := step_tick hstep
  obtain ⟨huntouched, hsent⟩ := hact.reacts.leader_tick hpair.leader
  have hp := hact.others p hpair.ne
  obtain ⟨hpos, hle⟩ := hpair.next_mem
  have hnet : c₁.net = c.net ++ RaftNode.sent l (c.nodes l) (c₁.nodes l) := by
    rw [hact.net_eq]
    exact List.append_nil _
  refine ⟨(c.nodes l).appendEntriesFor true p, ?_, hp, huntouched,
    (c.nodes l).probes_appendEntriesFor true hpos hle, fun req' => ?_, fun resp => ?_⟩
  · exact hpair.next hstep (huntouched.state.trans hpair.leader) (by rw [hp, hpair.follower])
      (by rw [hp, huntouched.term, hpair.term_eq])
  · rw [mem_requests, mem_requests, hnet, List.mem_append, or_comm]
    refine or_congr ⟨fun hin => ?_, ?_⟩ Iff.rfl
    · obtain ⟨pid, heq⟩ := hsent l _ hin
      cases heq
      rfl
    · rintro rfl
      obtain ⟨pid, heq⟩ := hsent l _ hmem
      cases heq
      exact hmem
  · rw [mem_responses, mem_responses, hnet, List.mem_append]
    refine ⟨fun hin => hin.resolve_right fun hin => ?_, .inl⟩
    obtain ⟨pid, heq⟩ := hsent l _ hin
    exact nomatch congrArg Packet.msg heq

namespace Beaten

variable {req : AppendEntriesRequest}

theorem lastIndex_eq (hbeaten : Beaten M l p c c₁ req) :
    (c₁.nodes l).getLastLogIndex = (c.nodes l).getLastLogIndex :=
  RaftNode.getLastLogIndex_congr hbeaten.leader.log

theorem accepts_iff (hbeaten : Beaten M l p c c₁ req) (req' : AppendEntriesRequest) :
    (c₁.nodes l).Accepts req' ↔ (c.nodes l).Accepts req' :=
  RaftNode.accepts_congr hbeaten.leader.log hbeaten.leader.term

theorem agreeAt_iff (hbeaten : Beaten M l p c c₁ req) (i : Nat) :
    c₁.AgreeAt l p i ↔ c.AgreeAt l p i := by
  rw [Cluster.AgreeAt, Cluster.AgreeAt, hbeaten.leader.log, hbeaten.peer]

/-- The heartbeat is about the position before `nextIndex`. -/
theorem lastIndex (hbeaten : Beaten M l p c c₁ req) :
    req.lastIndex = (c.nodes l).nextIndex p - 1 := by
  have hnil : req.entries = [] := hbeaten.probe.entries
  rw [AppendEntriesRequest.lastIndex, hnil, hbeaten.probe.prev]
  rfl

/-- Before and after the heartbeat the same positions are covered. -/
theorem covered_iff (hpair : Paired M c l p) (hbeaten : Beaten M l p c c₁ req)
    (hnext : Covered l p c ((c.nodes l).nextIndex p - 1)) (i : Nat) :
    Covered l p c₁ i ↔ Covered l p c i := by
  simp only [Covered, hbeaten.agreeAt_iff, hbeaten.reqs]
  constructor
  · rintro (hsame | ⟨req', rfl | hmem, hle⟩)
    · exact .inl hsame
    · rw [hbeaten.lastIndex] at hle
      exact hnext.of_le hpair hle
    · exact .inr ⟨req', hmem, hle⟩
  · rintro (hsame | ⟨req', hmem, hle⟩)
    · exact .inl hsame
    · exact .inr ⟨req', .inr hmem, hle⟩

/-- The heartbeat of a stuck pair is harmless. -/
theorem stuck (hpair : Paired M c l p) (hbeaten : Beaten M l p c c₁ req)
    (hstuck : Stuck l p c) : Stuck l p c₁ := by
  have hreached := hstuck.reached hpair hstuck.next
  obtain ⟨⟨hmissing, hpasses, hordered, hanswers, hreport⟩, hnext⟩ := hstuck
  have hcovered := hbeaten.covered_iff hpair hnext
  have hprev := hbeaten.probe.prev
  have hlast : (c₁.nodes p).getLastLogIndex = (c.nodes p).getLastLogIndex := by rw [hbeaten.peer]
  have hmatch : (c₁.nodes l).matchIndex p = (c.nodes l).matchIndex p :=
    congrFun hbeaten.leader.progress p
  have hnext' : (c₁.nodes l).nextIndex p = (c.nodes l).nextIndex p :=
    congrFun hbeaten.leader.next p
  refine ⟨⟨?_, fun req' hmem => ?_, fun req' hmem => ?_, fun resp hmem hterm => ?_, ?_⟩, ?_⟩
  · rw [hbeaten.lastIndex_eq, hcovered]
    exact hmissing
  · rw [hbeaten.accepts_iff]
    rcases (hbeaten.reqs req').mp hmem with rfl | hmem
    · -- the leader sends it off its own log
      have hlt : (c.nodes l).nextIndex p - 1 < (c.nodes l).getLastLogIndex := by
        by_contra hge
        exact hmissing (hnext.of_le hpair (by omega))
      refine ⟨hbeaten.probe.term.ge, by omega, fun _ => ?_⟩
      cases hbeaten.probe.read with
      | inside prev hget hterm => rw [RaftNode.getLogEntry_eq hget, hterm]
      | beyond hlen =>
        rw [RaftNode.getLastLogIndex_eq] at hlt
        omega
    · exact hpasses req' hmem
  · rw [hbeaten.agreeAt_iff]
    rcases (hbeaten.reqs req').mp hmem with rfl | hmem
    · rw [hprev]
      exact hreached.imp id fun ⟨req₁, hmem₁, hreach⟩ =>
        ⟨req₁, (hbeaten.reqs req₁).mpr (.inr hmem₁), hreach⟩
    · exact (hordered req' hmem).imp id fun ⟨req₁, hmem₁, hreach⟩ =>
        ⟨req₁, (hbeaten.reqs req₁).mpr (.inr hmem₁), hreach⟩
  · rw [hbeaten.resps] at hmem
    rw [hbeaten.leader.term] at hterm
    rw [hmatch, hcovered]
    exact hanswers resp hmem hterm
  · simp only [hmatch, hlast, hbeaten.agreeAt_iff]
    exact hreport.imp id (.imp id fun ⟨req₁, hmem₁, hnew⟩ =>
      ⟨req₁, (hbeaten.reqs req₁).mpr (.inr hmem₁), hnew⟩)
  · rw [hnext', hcovered]
    exact hnext

/-- A heartbeat that is harmless was sent by a stuck pair. -/
theorem stuck_of_harmless (hpair : Paired M c l p) (hbeaten : Beaten M l p c c₁ req)
    (hharmless : Harmless l p c₁) : Stuck l p c := by
  obtain ⟨hmissing, hpasses, hordered, hanswers, hreport⟩ := hharmless
  have hprev := hbeaten.probe.prev
  have hlastIndex := hbeaten.lastIndex
  -- the heartbeat starts at `nextIndex - 1`, and only another request can reach its start
  have hnext : Covered l p c ((c.nodes l).nextIndex p - 1) := by
    have hstart := hordered req ((hbeaten.reqs req).mpr (.inl rfl))
    rw [hbeaten.agreeAt_iff, hprev] at hstart
    refine hstart.imp id fun ⟨req₁, hmem₁, hbefore, hmeets⟩ => ?_
    rcases (hbeaten.reqs req₁).mp hmem₁ with rfl | hmem₁
    · omega
    · exact ⟨req₁, hmem₁, hmeets⟩
  have hcovered := hbeaten.covered_iff hpair hnext
  have hlast : (c₁.nodes p).getLastLogIndex = (c.nodes p).getLastLogIndex := by rw [hbeaten.peer]
  have hmatch : (c₁.nodes l).matchIndex p = (c.nodes l).matchIndex p :=
    congrFun hbeaten.leader.progress p
  refine ⟨⟨?_, fun req' hmem => ?_, fun req' hmem => ?_, fun resp hmem hterm => ?_, ?_⟩, hnext⟩
  · rw [← hcovered, ← hbeaten.lastIndex_eq]
    exact hmissing
  · rw [← hbeaten.accepts_iff]
    exact hpasses req' ((hbeaten.reqs req').mpr (.inr hmem))
  · rw [← hbeaten.agreeAt_iff]
    refine (hordered req' ((hbeaten.reqs req').mpr (.inr hmem))).imp id
      fun ⟨req₁, hmem₁, hbefore, hmeets⟩ => ?_
    rcases (hbeaten.reqs req₁).mp hmem₁ with rfl | hmem₁
    · omega
    · exact ⟨req₁, hmem₁, hbefore, hmeets⟩
  · have hknown := hanswers resp ((hbeaten.resps resp).mpr hmem)
      (by rw [hbeaten.leader.term, hterm])
    rwa [hmatch, hcovered] at hknown
  · simp only [hmatch, hlast, hbeaten.agreeAt_iff] at hreport
    refine hreport.imp id (.imp id fun ⟨req₁, hmem₁, hnew⟩ => ?_)
    rcases (hbeaten.reqs req₁).mp hmem₁ with rfl | hmem₁
    · rw [hlastIndex] at hnew
      obtain ⟨req₂, hmem₂, hreach⟩ := hnext.resolve_left hnew
      exact ⟨req₂, hmem₂, fun hknown => hnew (hpair.agreeAt_of_le hknown hreach)⟩
    · exact ⟨req₁, hmem₁, hnew⟩

end Beaten

/-! ## Pairs that stay stuck -/

/-- No number of rounds need bring the leader's entries to the follower of a stuck pair. -/
theorem Stuck.not_catchesUpWithin (hpair : Paired M c l p) (hstuck : Stuck l p c) (k : Nat) :
    ¬ CatchesUpWithin M l p k c := by
  induction k generalizing c with
  | zero =>
    intro hall
    exact hstuck.missing (.inl (hpair.isPrefix_iff.mp hall))
  | succ k ih =>
    rintro ⟨⟨c₁, hbeat⟩, hall⟩
    obtain ⟨req, hbeaten⟩ := hpair.beaten hbeat
    refine Inevitable.not_of_avoids (B := fun c => Paired M c l p ∧ Stuck l p c) ?_ ?_
      ⟨hbeaten.pair, hbeaten.stuck hpair hstuck⟩ (hall c₁ hbeat)
    · rintro c' ⟨hpair', hstuck'⟩ ⟨-, hwithin⟩
      exact ih hpair' hstuck' hwithin
    · rintro c' c₂ ⟨hpair', hstuck'⟩ hdelivery
      exact hstuck'.exists_delivery hpair' hdelivery

/-! ## Pairs that catch up -/

/-- The follower has the leader's last entry, or it will get it: a refusal is on its way, or a
    request that reaches the end of the leader's log. -/
def Hopeful (l p : Nat) (c : Cluster) : Prop :=
  c.AgreeAt l p (c.nodes l).getLastLogIndex ∨
    (∃ resp ∈ c.responses p l, resp.term = (c.nodes l).currentTerm ∧ resp.success = false) ∨
    ∃ req ∈ c.requests l p, (c.nodes l).getLastLogIndex ≤ req.lastIndex

/-- The leader knows the follower's last index or will be told. -/
def Told (l p : Nat) (c : Cluster) : Prop :=
  Hopeful l p c ∨ (c.nodes p).getLastLogIndex ≤ (c.nodes l).matchIndex p ∨
    (∃ resp ∈ c.responses p l, resp.term = (c.nodes l).currentTerm ∧
      resp.matchIndex = (c.nodes p).getLastLogIndex) ∨
    ∃ req, req ∈ c.requests l p

/-- All requests in flight will be refused. -/
def Refusing (l p : Nat) (c : Cluster) : Prop :=
  Hopeful l p c ∨ (∃ req, req ∈ c.requests l p) ∧
    ∀ req ∈ c.requests l p, ¬ c.AgreeAt l p req.prevLogIndex

section Deliveries

variable {q : Packet} {new : List Packet}

theorem Hopeful.delivery (hpair : Paired M c l p) (hstep : PairStep M l p c c' q new)
    (hhope : Hopeful l p c) : Hopeful l p c' := by
  rw [Hopeful, hstep.lastIndex_eq, hstep.term]
  cases hstep.pairEffect hpair with
  | ignored hpeer hnext hmatch hreqs hresps =>
    rw [hstep.agreeAt_iff hpeer]
    refine hhope.imp id (.imp (fun ⟨resp, hmem, hterm, hfailure⟩ => ?_) fun ⟨req, hmem, hle⟩ => ?_)
    · exact ⟨resp, (hresps resp hterm).mpr hmem, hterm, hfailure⟩
    · exact ⟨req, (hreqs req).mpr hmem, hle⟩
  | accepted req hq haccepts hprev hagree hlast hnext hmatch hreqs hresps =>
    rcases hhope with hall | ⟨resp, hmem, hterm, hfailure⟩ | ⟨req', hmem, hle⟩
    · exact .inl ((hagree _).mpr (.inl hall))
    · exact .inr (.inl ⟨resp, (hresps resp hterm).mpr (.inr hmem), hterm, hfailure⟩)
    · rcases (hreqs req').mp hmem with rfl | hmem
      · exact .inl ((hagree _).mpr (.inr hle))
      · exact .inr (.inr ⟨req', hmem, hle⟩)
  | refused req hq hrejects resp hresp hterm hfailure =>
    -- the request that was hoped for may be lost, but the leader will hear of it
    exact .inr (.inl ⟨resp, hresp, hterm, hfailure⟩)
  | acknowledged resp hterm hsuccess hpeer hmatch hnext hreqs hresps =>
    rw [hstep.agreeAt_iff hpeer]
    refine hhope.imp id (.imp (fun ⟨resp', hmem, hterm', hfailure⟩ => ?_)
      fun ⟨req, hmem, hle⟩ => ?_)
    · rcases (hresps resp' hterm').mp hmem with rfl | hmem
      -- the answer that arrived was no refusal
      · rw [hsuccess] at hfailure
        exact nomatch hfailure
      · exact ⟨resp', hmem, hterm', hfailure⟩
    · exact ⟨req, (hreqs req).mpr hmem, hle⟩
  | retried resp hresp hterm hfailure hpeer req hmem hle => exact .inr (.inr ⟨req, hmem, hle⟩)

theorem Told.delivery (hpair : Paired M c l p) (hstep : PairStep M l p c c' q new)
    (htold : Told l p c) : Told l p c' := by
  rcases htold with hhope | htold
  · exact .inl (hhope.delivery hpair hstep)
  rw [Told, hstep.term]
  cases hstep.pairEffect hpair with
  | ignored hpeer hnext hmatch hreqs hresps =>
    have hlast := RaftNode.getLastLogIndex_congr hpeer
    rw [hlast, hmatch]
    refine .inr (htold.imp id (.imp (fun ⟨resp, hmem, hterm, hindex⟩ => ?_) fun ⟨req, hmem⟩ => ?_))
    · exact ⟨resp, (hresps resp hterm).mpr hmem, hterm, hindex⟩
    · exact ⟨req, (hreqs req).mpr hmem⟩
  | accepted req hq haccepts hprev hagree hlast hnext hmatch hreqs hresps =>
    -- every success reports the follower's last index
    exact .inr (.inr (.inl ⟨_, (hresps _ rfl).mpr (.inl rfl), rfl, rfl⟩))
  | refused req hq hrejects resp hresp hterm hfailure =>
    exact .inl (.inr (.inl ⟨resp, hresp, hterm.trans hstep.term.symm, hfailure⟩))
  | acknowledged resp hterm hsuccess hpeer hmatch hnext hreqs hresps =>
    have hlast := RaftNode.getLastLogIndex_congr hpeer
    rw [hlast, hmatch]
    rcases htold with hle | ⟨resp', hmem, hterm', hindex⟩ | ⟨req, hmem⟩
    · exact .inr (.inl (hle.trans (Nat.le_max_left _ _)))
    · rcases (hresps resp' hterm').mp hmem with rfl | hmem
      · exact .inr (.inl (hindex ▸ Nat.le_max_right _ _))
      · exact .inr (.inr (.inl ⟨resp', hmem, hterm', hindex⟩))
    · exact .inr (.inr (.inr ⟨req, (hreqs req).mpr hmem⟩))
  | retried resp hresp hterm hfailure hpeer req hmem hle =>
    exact .inr (.inr (.inr ⟨req, hmem⟩))

theorem Refusing.delivery (hpair : Paired M c l p) (hstep : PairStep M l p c c' q new)
    (hrefusing : Refusing l p c) : Refusing l p c' := by
  rcases hrefusing with hhope | ⟨⟨req₀, hmem₀⟩, hall⟩
  · exact .inl (hhope.delivery hpair hstep)
  cases hstep.pairEffect hpair with
  | ignored hpeer hnext hmatch hreqs hresps =>
    simp only [Refusing, hstep.agreeAt_iff hpeer, hreqs]
    exact .inr ⟨⟨req₀, hmem₀⟩, hall⟩
  | accepted req hq haccepts hprev hagree hlast hnext hmatch hreqs hresps =>
    exact absurd hprev (hall req ((hreqs req).mpr (.inl rfl)))
  | refused req hq hrejects resp hresp hterm hfailure =>
    exact .inl (.inr (.inl ⟨resp, hresp, hterm.trans hstep.term.symm, hfailure⟩))
  | acknowledged resp hterm hsuccess hpeer hmatch hnext hreqs hresps =>
    simp only [Refusing, hstep.agreeAt_iff hpeer, hreqs]
    exact .inr ⟨⟨req₀, hmem₀⟩, hall⟩
  | retried resp hresp hterm hfailure hpeer req hmem hle =>
    exact .inl (.inr (.inr ⟨req, hmem, hstep.lastIndex_eq ▸ hle⟩))

end Deliveries

theorem Quiet.requests_eq (hquiet : Quiet l p c) (req : AppendEntriesRequest) :
    req ∉ c.requests l p :=
  fun hmem => hquiet _ (mem_requests.mp hmem) (.inl ⟨rfl, rfl⟩)

theorem Quiet.responses_eq (hquiet : Quiet l p c) (resp : AppendEntriesResponse) :
    resp ∉ c.responses p l :=
  fun hmem => hquiet _ (mem_responses.mp hmem) (.inr ⟨rfl, rfl⟩)

/-- Where nothing is left in flight the hope has come true. -/
theorem Hopeful.of_quiet (hquiet : Quiet l p c) (hhope : Hopeful l p c) :
    c.AgreeAt l p (c.nodes l).getLastLogIndex := by
  rcases hhope with hall | ⟨resp, hmem, -⟩ | ⟨req, hmem, -⟩
  · exact hall
  · exact absurd hmem (hquiet.responses_eq resp)
  · exact absurd hmem (hquiet.requests_eq req)

/-- At the end of a round that was not harmless the follower has caught up, or it will refuse the
    next heartbeat. -/
theorem Told.of_quiet (hquiet : Quiet l p c) (htold : Told l p c)
    (hharm : ¬ (Harmless l p c ∧ Resumes l p c)) :
    c.AgreeAt l p (c.nodes l).getLastLogIndex ∨
      ¬ c.AgreeAt l p ((c.nodes l).nextIndex p - 1) := by
  have hcovered : ∀ i, Covered l p c i ↔ c.AgreeAt l p i := fun i =>
    ⟨fun hi => hi.resolve_right fun ⟨req, hmem, _⟩ => hquiet.requests_eq req hmem, .inl⟩
  by_contra hboth
  obtain ⟨hmissing, hnext⟩ := not_or.mp hboth
  rw [not_not] at hnext
  have hknown : (c.nodes p).getLastLogIndex ≤ (c.nodes l).matchIndex p := by
    rcases htold with hhope | hle | ⟨resp, hmem, -⟩ | ⟨req, hmem⟩
    · exact absurd (hhope.of_quiet hquiet) hmissing
    · exact hle
    · exact absurd hmem (hquiet.responses_eq resp)
    · exact absurd hmem (hquiet.requests_eq req)
  -- with nothing in flight the round would have been harmless
  refine hharm ⟨⟨fun hcov => hmissing ((hcovered _).mp hcov),
    fun req hmem => absurd hmem (hquiet.requests_eq req),
    fun req hmem => absurd hmem (hquiet.requests_eq req),
    fun resp hmem => absurd hmem (hquiet.responses_eq resp), .inl hknown⟩, fun hfollows => ?_⟩
  rw [hfollows, Nat.add_sub_cancel] at hnext
  exact .inl hnext

/-- A round comes to its end, in whatever order the packets are delivered, and keeps what each
    delivery keeps. -/
theorem Paired.round {I : Cluster → Prop} (hpair : Paired M c l p) (hI : I c)
    (hkeep : ∀ c c' q new, Paired M c l p → PairStep M l p c c' q new → I c → I c') :
    Inevitable (Delivery M l p) (fun c' => Quiet l p c' ∧ Paired M c' l p ∧ I c') c := by
  refine Inevitable.of_measure (I := fun c => Paired M c l p ∧ I c) (Cluster.effort l p)
    ?_ ?_ ⟨hpair, hI⟩
  · intro c ⟨hpair, hI⟩ hleft
    by_contra hnone
    refine hleft ⟨fun q hmem hq => ?_, hpair, hI⟩
    obtain ⟨c', hstep⟩ := hpair.exists_delivery hq hmem (atTime (c.nodes q.dst).lastHeartbeat)
    exact hnone ⟨c', q, _, hq, hstep⟩
  · rintro c c' ⟨hpair, hI⟩ - ⟨q, env, hq, hstep⟩
    obtain ⟨new, hpstep⟩ := hpair.delivered hq hstep
    exact ⟨⟨hpstep.pair, hkeep c c' q new hpair hpstep hI⟩, hpstep.effort_lt hpair hq⟩

/-- The heartbeat is due 50 milliseconds after the last one. -/
theorem Paired.exists_heartbeat (hpair : Paired M c l p) : ∃ c₁, Heartbeat M l p c c₁ := by
  have hlog : ((c.nodes l).tick (atTime ((c.nodes l).lastHeartbeat + 50))).log.length ≤
      maxLogSize := by
    have hreact := (c.nodes l).react_cases (atTime ((c.nodes l).lastHeartbeat + 50)) .tick
    have hkeep : ((c.nodes l).tick (atTime ((c.nodes l).lastHeartbeat + 50))).log =
      (c.nodes l).log := (hreact.leader_tick hpair.leader).1.log
    rw [hkeep]
    exact hpair.length_le hpair.leader_mem
  obtain ⟨c₁, hstep⟩ := exists_step_tick hpair.leader_mem hlog
  obtain ⟨hnode, -⟩ := step_tick hstep
  refine ⟨c₁, _, (c.nodes l).appendEntriesFor true p, hstep, ?_⟩
  rw [hnode]
  exact RaftNode.mem_sent_tick _ hpair.leader (by simp [atTime]) l hpair.mem_peerIds

/-- One more round is enough where the next heartbeat is refused. -/
theorem Paired.catchesUpWithin_one (hpair : Paired M c l p) (hquiet : Quiet l p c)
    (hready : c.AgreeAt l p (c.nodes l).getLastLogIndex ∨
      ¬ c.AgreeAt l p ((c.nodes l).nextIndex p - 1)) : CatchesUpWithin M l p 1 c := by
  refine ⟨hpair.exists_heartbeat, fun c₁ hbeat => ?_⟩
  obtain ⟨req, hbeaten⟩ := hpair.beaten hbeat
  have hrefusing : Refusing l p c₁ := by
    simp only [Refusing, Hopeful, hbeaten.agreeAt_iff, hbeaten.lastIndex_eq]
    refine hready.imp .inl fun hdiff => ⟨⟨req, (hbeaten.reqs req).mpr (.inl rfl)⟩, ?_⟩
    intro req' hmem
    rcases (hbeaten.reqs req').mp hmem with rfl | hmem
    · rw [hbeaten.probe.prev]
      exact hdiff
    · exact absurd hmem (hquiet.requests_eq req')
  have hround := hbeaten.pair.round hrefusing fun _ _ _ _ hpair hstep =>
    Refusing.delivery hpair hstep
  refine hround.mono fun c' ⟨hquiet', hpair', hrefusing'⟩ => ⟨hquiet', ?_⟩
  have hhope := hrefusing'.resolve_right fun ⟨⟨req', hmem⟩, _⟩ => hquiet'.requests_eq req' hmem
  exact hpair'.isPrefix_iff.mpr (hhope.of_quiet hquiet')

/-- A follower of the leader's term catches up exactly from a state in which the two are not
    stuck. -/
theorem catchesUp_iff (hrun : Run (raftSystem M) h c) (hl : l ∈ M.ids) (hp : p ∈ M.ids)
    (hleader : (c.nodes l).state = .leader) (hfollower : (c.nodes p).state = .follower)
    (hterm : (c.nodes p).currentTerm = (c.nodes l).currentTerm) :
    CatchesUp M l p c ↔ ¬ Stuck l p c := by
  have hpair : Paired M c l p := ⟨⟨h, hrun⟩, hl, hp, hleader, hfollower, hterm⟩
  constructor
  · rintro ⟨k, hwithin⟩ hstuck
    exact hstuck.not_catchesUpWithin hpair k hwithin
  · -- in the first round the leader learns the follower's last index, in the second one it
    -- is refused where it has to go back
    intro hfree
    refine ⟨2, hpair.exists_heartbeat, fun c₁ hbeat => ?_⟩
    obtain ⟨req, hbeaten⟩ := hpair.beaten hbeat
    have hharm : ¬ (Harmless l p c₁ ∧ Resumes l p c₁) := fun hboth =>
      hfree (hbeaten.stuck_of_harmless hpair hboth.1)
    have htold : Told l p c₁ := .inr (.inr (.inr ⟨req, (hbeaten.reqs req).mpr (.inl rfl)⟩))
    have hround := hbeaten.pair.round
      (I := fun c => Told l p c ∧ ¬ (Harmless l p c ∧ Resumes l p c)) ⟨htold, hharm⟩ ?_
    · refine hround.mono fun c' ⟨hquiet, hpair', htold', hharm'⟩ => ⟨hquiet, ?_⟩
      exact hpair'.catchesUpWithin_one hquiet (htold'.of_quiet hquiet hharm')
    · intro c c' q new hpair hstep ⟨htold, hharm⟩
      exact ⟨htold.delivery hpair hstep, fun hboth =>
        hharm (hstep.harmless hpair hboth.1 hboth.2)⟩

/-- Node 1 leads term 1 and replicates an entry to node 2, which is then elected for
    term 2 by node 3. Node 3 has an empty log. -/
def electedAhead : List Event :=
  [.tick 1 (atTime 200),
    .deliver ⟨1, 2, .requestVote ⟨1, 1, 0, 0⟩⟩ (atTime 210),
    .deliver ⟨2, 1, .requestVoteResp ⟨1, true⟩⟩ (atTime 220),
    .propose 1 (atTime 230) [97],
    .deliver ⟨1, 2, .appendEntries ⟨1, 1, 0, 0, 0, [⟨1, 1, [97]⟩]⟩⟩ (atTime 240),
    .tick 2 (atTime 400),
    .deliver ⟨2, 3, .requestVote ⟨2, 2, 1, 1⟩⟩ (atTime 410),
    .deliver ⟨3, 2, .requestVoteResp ⟨2, true⟩⟩ (atTime 420)]

theorem electedAhead_runs : (schedule 3 electedAhead).isSome := by decide +kernel

theorem catchesUp_electedAhead :
    let c := ((schedule 3 electedAhead).get electedAhead_runs).2
    (c.nodes 3).log.length = 1 ∧ CatchesUp (.ofSize 3) 2 3 c :=
  ⟨by decide +kernel, (catchesUp_iff (schedule_run electedAhead_runs) (by decide) (by decide)
    (by decide +kernel) (by decide +kernel) (by decide +kernel)).mpr (by decide +kernel)⟩

/-- Node 1 of two leads and has exchanged its first heartbeat. The one request that
    carries its entry is lost. -/
def lostAppend : List Event :=
  [.tick 1 (atTime 200),
    .deliver ⟨1, 2, .requestVote ⟨1, 1, 0, 0⟩⟩ (atTime 210),
    .deliver ⟨2, 1, .requestVoteResp ⟨1, true⟩⟩ (atTime 220),
    .deliver ⟨1, 2, .appendEntries ⟨1, 1, 0, 0, 0, []⟩⟩ (atTime 230),
    .deliver ⟨2, 1, .appendEntriesResp ⟨1, true, 0⟩⟩ (atTime 240),
    .propose 1 (atTime 250) [97],
    .lose ⟨1, 2, .appendEntries ⟨1, 1, 0, 0, 0, [⟨1, 1, [97]⟩]⟩⟩]

theorem lostAppend_runs : (schedule 2 lostAppend).isSome := by decide +kernel

/-- As long as the request is in flight the two are not stuck. -/
example : (schedule 2 (lostAppend.take 6)).any (fun r => decide (¬ Stuck 1 2 r.2)) := by
  decide +kernel

/-- Nothing is in flight in the end, and node 2 never gets the entry. -/
theorem not_catchesUp_lostAppend :
    ((schedule 2 lostAppend).get lostAppend_runs).2.net = [] ∧
      ¬ ∀ (M : Membership) (h : List (Cluster × Event)) (c : Cluster), Run (raftSystem M) h c →
        ∀ l ∈ M.ids, ∀ p ∈ M.ids, (c.nodes l).state = .leader →
          (c.nodes p).state = .follower → (c.nodes p).currentTerm = (c.nodes l).currentTerm →
          CatchesUp M l p c := by
  refine ⟨by decide +kernel, fun hall => ?_⟩
  have hrun := schedule_run lostAppend_runs
  have hpair : Paired (.ofSize 2) ((schedule 2 lostAppend).get lostAppend_runs).2 1 2 :=
    ⟨⟨_, hrun⟩, by decide, by decide, by decide +kernel, by decide +kernel, by decide +kernel⟩
  have hstuck : Stuck 1 2 ((schedule 2 lostAppend).get lostAppend_runs).2 := by decide +kernel
  obtain ⟨k, hwithin⟩ := hall _ _ _ hrun 1 (by decide) 2 (by decide)
    (by decide +kernel) (by decide +kernel) (by decide +kernel)
  exact hstuck.not_catchesUpWithin hpair k hwithin

end Dkv
