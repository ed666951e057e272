import LearnGit.Spec.ElectionSafety

/-!
# What a leader sends

An AppendEntries request in flight was read off the log of a node that was leader
of the request's term at that moment. With election safety this makes the log of
a leader append-only: no request of its own term can reach it.

## Key results

- `sendInv`: every request in flight was read off a leader's log
- `leader_log_grows`: while a node leads a term its log only grows
- `LeaderLog.compatible`: the logs of one term's leader are prefixes of each other
-/

namespace Dkv

open Transition ReplicatedLog

variable {M : Membership} {h : List (Cluster × Event)} {c c' : Cluster} {e : Event}

/-! ## Requests -/

/-- The request was read off the log `K`, inside the log or (with nothing to send
    and the term of the empty entry) beyond its end. -/
inductive ReadFrom (K : List LogEntry) (req : AppendEntriesRequest) : Prop
  | inside (prev : LogEntry) (hprev : K[req.prevLogIndex]? = some prev)
      (hterm : prev.term = req.prevLogTerm) (hsec : Section K req.prevLogIndex req.entries)
  | beyond (hlen : K.length ≤ req.prevLogIndex) (hterm : req.prevLogTerm = 0)
      (hnil : req.entries = [])

/-- The node could send this request as it stands. -/
structure SentBy (n : RaftNode) (req : AppendEntriesRequest) : Prop where
  leader : n.state = .leader
  term : n.currentTerm = req.term
  commit : n.commitIndex = req.leaderCommit
  read : ReadFrom n.log req

/-- With `nextIndex` in range a request is read off the sender's log. -/
theorem RaftNode.readFrom_appendEntriesFor (n : RaftNode) (heartbeatOnly : Bool) {pid : Nat}
    (hpos : 1 ≤ n.nextIndex pid) (hle : n.nextIndex pid ≤ maxLogSize) :
    ReadFrom n.log (n.appendEntriesFor heartbeatOnly pid) := by
  have hprev : (n.appendEntriesFor heartbeatOnly pid).prevLogIndex = n.nextIndex pid - 1 := by
    simp only [appendEntriesFor, u64]
    unfold maxLogSize at hle
    omega
  have hterm : (n.appendEntriesFor heartbeatOnly pid).prevLogTerm
      = (n.getLogEntry (n.nextIndex pid - 1)).term := by
    rw [← hprev]
    rfl
  -- `nextIndex` may be past the end of the log, then nothing is sent
  rcases Nat.lt_or_ge (n.nextIndex pid - 1) n.log.length with hin | hout
  · have hget := List.getElem?_eq_getElem hin
    refine .inside _ (by rw [hprev]; exact hget) ?_ ?_
    · rw [hterm, getLogEntry_eq hget]
    · rw [Section, hprev, Nat.sub_add_cancel hpos]
      simp only [appendEntriesFor]
      split
      · exact List.prefix_refl _
      · exact List.nil_prefix
  · refine .beyond (hprev ▸ hout) ?_ ?_
    · rw [hterm, getLogEntry, List.getD_eq_getElem?_getD, List.getElem?_eq_none hout]
      rfl
    · simp only [appendEntriesFor, getLastLogIndex_eq]
      rw [if_neg]
      simp only [Bool.and_eq_true, decide_eq_true_eq]
      omega

/-- The invariant of replication messages; `V` are the states visited so far. -/
structure SendInv (M : Membership) (V : List Cluster) (c : Cluster) : Prop where
  next_mem : ∀ i ∈ M.ids, (c.nodes i).state = .leader → ∀ pid ∈ M.peerIds i,
    1 ≤ (c.nodes i).nextIndex pid ∧ (c.nodes i).nextIndex pid ≤ maxLogSize
  requests : ∀ p ∈ c.net, ∀ req, p.msg = .appendEntries req →
    p.src ∈ M.ids ∧ p.dst ≠ p.src ∧ req.leaderId = p.src ∧ ∃ u ∈ V, SentBy (u.nodes p.src) req
  replies : ∀ p ∈ c.net, ∀ resp, p.msg = .appendEntriesResp resp → resp.success = true →
    resp.matchIndex < maxLogSize

private theorem sendInv_init (hinit : (raftSystem M).init c) : SendInv M [c] c := by
  obtain ⟨hnodes, hnet⟩ := hinit
  refine ⟨fun i hi hleader => ?_, by simp [hnet], by simp [hnet]⟩
  obtain ⟨env, hnew⟩ := hnodes i hi
  rw [hnew] at hleader
  exact nomatch hleader

private theorem SendInv.lose {V : List Cluster} (inv : SendInv M V c) {p : Packet}
    (hnodes : c'.nodes = c.nodes) (hnet : c'.net = c.net.erase p) :
    SendInv M (c' :: V) c' := by
  have hsub : ∀ q ∈ c'.net, q ∈ c.net := by
    rw [hnet]
    exact fun q hq => List.mem_of_mem_erase hq
  refine ⟨by rw [hnodes]; exact inv.next_mem, fun q hq req hmsg => ?_,
    fun q hq => inv.replies q (hsub q hq)⟩
  obtain ⟨hsrc, hdst, hid, u, hu, hsent⟩ := inv.requests q (hsub q hq) req hmsg
  exact ⟨hsrc, hdst, hid, u, List.mem_cons_of_mem _ hu, hsent⟩

section Step

variable {V : List Cluster} {i : Nat} {env : Env} {input : Input} {reply : Option RaftMessage}
  {net : List Packet}

private theorem SendInv.step_next (inv : SendInv M V c)
    (hact : Acted M c c' e i env input reply net)
    (hident : (c.nodes i).nodeId = i ∧ (c.nodes i).peerIds = M.peerIds i)
    (hleader : (c'.nodes i).state = .leader) {pid : Nat} (hpid : pid ∈ M.peerIds i) :
    1 ≤ (c'.nodes i).nextIndex pid ∧ (c'.nodes i).nextIndex pid ≤ maxLogSize := by
  have hself : (c.nodes i).nodeId ∉ (c.nodes i).peerIds := by
    rw [hident.1, hident.2, M.mem_peerIds i hact.mem]
    exact fun hmem => hmem.2 rfl
  cases hact.reacts.progressStep hself with
  | same hstate hnext =>
    rw [hnext pid (hident.2 ▸ hpid)]
    exact inv.next_mem i hact.mem (hstate hleader) pid hpid
  | reset _ _ hlog hnext =>
    -- a new leader starts at the end of its own log
    have hsize := hact.size_le
    rw [hlog] at hsize
    rw [hnext pid (hident.2 ▸ hpid)]
    unfold maxLogSize at hsize ⊢
    omega
  | advance src resp hstate _ hsuccess _ _ hnext =>
    rw [hnext]
    by_cases hsrc : pid = src
    · -- the reply comes from a log of bounded size, so the index does not wrap around
      have hlt := inv.replies _ hact.of_message.1 resp rfl hsuccess
      subst hsrc
      rw [Function.update_self, u64]
      unfold maxLogSize at hlt ⊢
      omega
    · rw [Function.update_of_ne hsrc]
      exact inv.next_mem i hact.mem hstate pid hpid
  | retry hstate hnext =>
    have := inv.next_mem i hact.mem hstate pid hpid
    rcases hnext pid with heq | ⟨hlt, heq⟩ <;> omega

private theorem SendInv.step_requests (inv : SendInv M V c) (hc : c ∈ V)
    (hact : Acted M c c' e i env input reply net)
    (hident : (c'.nodes i).nodeId = i ∧ (c'.nodes i).peerIds = M.peerIds i)
    (hnext : (c'.nodes i).state = .leader → ∀ pid ∈ M.peerIds i,
      1 ≤ (c'.nodes i).nextIndex pid ∧ (c'.nodes i).nextIndex pid ≤ maxLogSize)
    {p : Packet} (hp : p ∈ c'.net) {req : AppendEntriesRequest}
    (hmsg : p.msg = .appendEntries req) :
    p.src ∈ M.ids ∧ p.dst ≠ p.src ∧ req.leaderId = p.src ∧
      ∃ u ∈ c' :: V, SentBy (u.nodes p.src) req := by
  rcases hact.mem_net hp with hold | hemit
  · obtain ⟨hsrc, hdst, hid, u, hu, hsent⟩ := inv.requests p hold req hmsg
    exact ⟨hsrc, hdst, hid, u, List.mem_cons_of_mem _ hu, hsent⟩
  cases hemit with
  | vote => exact nomatch hmsg
  | append m heartbeatOnly hpeer hstate hlog hterm hmnext hid hcommit hkeep =>
    obtain rfl := RaftMessage.appendEntries.inj hmsg
    rw [hident.2] at hpeer
    obtain ⟨hpos, hle⟩ := hnext hstate _ hpeer
    have hread := m.readFrom_appendEntriesFor heartbeatOnly (hmnext ▸ hpos) (hmnext ▸ hle)
    refine ⟨hact.mem, ((M.mem_peerIds i hact.mem _).mp hpeer).2, hid.trans hident.1, ?_⟩
    rcases hkeep with hkeep | ⟨hleader, hsame, hsamelog⟩
    · exact ⟨c', List.mem_cons_self, hstate, hterm.symm, hkeep.trans hcommit.symm, hlog ▸ hread⟩
    · -- a leader's tick sends before it advances its commit index
      refine ⟨c, List.mem_cons_of_mem _ hc, hleader, hsame.symm.trans hterm.symm,
        hcommit.symm, ?_⟩
      rw [← hsamelog, ← hlog]
      exact hread
  | reply src msg answer =>
    dsimp only at hmsg
    subst hmsg
    exact hact.reacts.reply_ne_appendEntries.elim

private theorem SendInv.step_replies (inv : SendInv M V c)
    (hact : Acted M c c' e i env input reply net) {p : Packet} (hp : p ∈ c'.net)
    {resp : AppendEntriesResponse} (hmsg : p.msg = .appendEntriesResp resp)
    (hsuccess : resp.success = true) : resp.matchIndex < maxLogSize := by
  rcases hact.mem_net hp with hold | hemit
  · exact inv.replies p hold resp hmsg hsuccess
  cases hemit with
  | vote => exact nomatch hmsg
  | append => exact nomatch hmsg
  | reply src msg answer =>
    dsimp only at hmsg
    subst hmsg
    obtain ⟨_, req, -, -, -, -, -, hindex⟩ := hact.reacts.acknowledged hsuccess
    have hsize := hact.size_le
    rw [hindex]
    unfold maxLogSize at hsize ⊢
    omega

private theorem SendInv.act (inv : SendInv M V c) (hc : c ∈ V)
    (hact : Acted M c c' e i env input reply net)
    (hident : (c.nodes i).nodeId = i ∧ (c.nodes i).peerIds = M.peerIds i) :
    SendInv M (c' :: V) c' := by
  have hident' : (c'.nodes i).nodeId = i ∧ (c'.nodes i).peerIds = M.peerIds i :=
    ⟨hact.reacts.nodeId_eq.trans hident.1, hact.reacts.peerIds_eq.trans hident.2⟩
  have hnext : (c'.nodes i).state = .leader → ∀ pid ∈ M.peerIds i,
      1 ≤ (c'.nodes i).nextIndex pid ∧ (c'.nodes i).nextIndex pid ≤ maxLogSize :=
    fun hleader pid hpid => inv.step_next hact hident hleader hpid
  constructor
  · intro j hj
    by_cases hji : j = i
    · exact hji ▸ hnext
    · rw [hact.others j hji]
      exact inv.next_mem j hj
  · exact fun p hp req => inv.step_requests hc hact hident' hnext hp
  · exact fun p hp resp => inv.step_replies hact hp

end Step

theorem sendInv (hrun : Run (raftSystem M) h c) : SendInv M (visited h c) c := by
  refine hrun.rec_on_run (P := fun h c => SendInv M (visited h c) c)
    (fun c => sendInv_init) fun h c e c' hrun inv hstep => ?_
  rcases step_cases hstep with ⟨p, hnodes, hnet⟩ | ⟨i, env, input, reply, net, hact⟩
  · exact inv.lose hnodes hnet
  · exact inv.act (mem_visited_self h c) hact (run_ident hrun hact.mem)

/-! ## Leader logs -/

/-- A request that is delivered was read off the log of its leader at a visited state. -/
theorem Acted.sentBy {i : Nat} {env : Env} {src : Nat} {req : AppendEntriesRequest}
    {reply : Option RaftMessage} {net : List Packet} (hrun : Run (raftSystem M) h c)
    (hact : Acted M c c' e i env (.message src (.appendEntries req)) reply net) :
    src ∈ M.ids ∧ i ≠ src ∧ ∃ u ∈ visited h c, SentBy (u.nodes src) req :=
  let ⟨hsrc, hdst, _, hsent⟩ := (sendInv hrun).requests _ hact.of_message.1 req rfl
  ⟨hsrc, hdst, hsent⟩

/-- A leader never accepts a request of its own term: it would be its own. -/
theorem Acted.not_leader {i : Nat} {env : Env} {src : Nat} {req : AppendEntriesRequest}
    {reply : Option RaftMessage} {net : List Packet} (hrun : Run (raftSystem M) h c)
    (hact : Acted M c c' e i env (.message src (.appendEntries req)) reply net)
    (hterm : (c.nodes i).currentTerm = req.term) : (c.nodes i).state ≠ .leader := by
  intro hleader
  obtain ⟨hsrc, hne, u, hu, hsent⟩ := hact.sentBy hrun
  exact hne (leader_unique hrun (mem_visited_self h c) hu hact.mem hsrc hleader hsent.leader
    (hterm.trans hsent.term.symm))

/-- A step leaves the log of a leader that keeps leading its term or extends it. -/
theorem step_leader_log (hrun : Run (raftSystem M) h c)
    (hstep : (raftSystem M).step c e = some c') {i : Nat}
    (hleader : (c.nodes i).state = .leader)
    (hterm : (c'.nodes i).currentTerm = (c.nodes i).currentTerm) :
    (c.nodes i).log <+: (c'.nodes i).log := by
  rcases step_node hstep i with hsame | ⟨env, input, reply, net, hact⟩
  · rw [hsame]
  cases hact.reacts.logStep with
  | same hlog => rw [hlog]
  | append command _ _ _ hlog =>
    rw [hlog]
    exact List.prefix_append _ _
  | merge src req _ hreq =>
    exact absurd hleader (hact.not_leader hrun (hterm.symm.trans hreq))

/-- The order of roles, and a leader's log only grows. -/
structure LeaderOrder (n n' : RaftNode) : Prop extends RoleOrder n n' where
  log : n.state = .leader → n.currentTerm = n'.currentTerm → n.log <+: n'.log

private theorem LeaderOrder.trans {n₁ n₂ n₃ : RaftNode} (h₁ : LeaderOrder n₁ n₂)
    (h₂ : LeaderOrder n₂ n₃) : LeaderOrder n₁ n₃ := by
  have hle₁ := h₁.term_le
  have hle₂ := h₂.term_le
  refine ⟨h₁.toRoleOrder.trans h₂.toRoleOrder, fun hleader hterm => ?_⟩
  have hleader₂ := h₁.leader (by omega) hleader
  exact (h₁.log hleader (by omega)).trans (h₂.log hleader₂ (by omega))

/-- While a node leads a term its log only grows. -/
theorem leader_log_grows (hrun : Run (raftSystem M) h c) {u : Cluster} (hu : u ∈ visited h c)
    {i : Nat} (hleader : (u.nodes i).state = .leader)
    (hterm : (u.nodes i).currentTerm = (c.nodes i).currentTerm) :
    (u.nodes i).log <+: (c.nodes i).log := by
  have hle : LeaderOrder (u.nodes i) (c.nodes i) := by
    refine hrun.visited_le (R := fun u v => LeaderOrder (u.nodes i) (v.nodes i))
      (fun _ => ⟨.refl _, fun _ _ => List.prefix_refl _⟩) (fun _ _ _ => .trans)
      (fun h c e c' hrun hstep => ⟨?_, fun hl heq => step_leader_log hrun hstep hl heq.symm⟩) hu
    exact roleOrder_of_visited (.next hrun hstep)
      (List.mem_cons_of_mem _ (mem_visited_self h c)) i
  exact hle.log hleader hterm

/-- `K` is the log of a leader of term `T` in one of the states `V`. -/
def LeaderLog (M : Membership) (V : List Cluster) (T : Nat) (K : List LogEntry) : Prop :=
  ∃ u ∈ V, ∃ l ∈ M.ids, (u.nodes l).state = .leader ∧ (u.nodes l).currentTerm = T ∧
    (u.nodes l).log = K

theorem LeaderLog.mono {V V' : List Cluster} {T : Nat} {K : List LogEntry} (hsub : V ⊆ V')
    (hK : LeaderLog M V T K) : LeaderLog M V' T K :=
  let ⟨u, hu, hl⟩ := hK
  ⟨u, hsub hu, hl⟩

/-- The logs a term's leader had are prefixes of each other. -/
theorem LeaderLog.compatible (hrun : Run (raftSystem M) h c) {T : Nat} {K₁ K₂ : List LogEntry}
    (h₁ : LeaderLog M (visited h c) T K₁) (h₂ : LeaderLog M (visited h c) T K₂) :
    Compatible K₁ K₂ := by
  obtain ⟨u, hu, a, ha, hla, hta, rfl⟩ := h₁
  obtain ⟨v, hv, b, hb, hlb, htb, rfl⟩ := h₂
  obtain rfl := leader_unique hrun hu hv ha hb hla hlb (hta.trans htb.symm)
  rcases hrun.ordered hu hv with ⟨h', hrun', hu'⟩ | ⟨h', hrun', hv'⟩
  · exact .inl (leader_log_grows hrun' hu' hla (hta.trans htb.symm))
  · exact .inr (leader_log_grows hrun' hv' hlb (htb.trans hta.symm))

end Dkv
