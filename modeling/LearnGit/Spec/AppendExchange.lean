import LearnGit.Spec.LogMatching

/-!
# Messages between a leader and a follower

The leader `l` of a term and a follower `p` of that term exchange requests and answers.
Whether the follower accepts a request depends on one position only, the one before the
entries: there both logs must hold an entry of the same term. Then the logs agree up to the
last entry of the request. On a refusal the leader goes one position back and sends
everything from there.

## Key results

- `RaftNode.Reacts.ignored`: the messages that change nothing for the two
- `Paired.accepts_iff`: when the follower accepts a request in flight
- `Paired.mergeSource`: what the follower merges is a section of the leader's log
-/

namespace Dkv

open Transition ReplicatedLog

variable {M : Membership} {h : List (Cluster × Event)} {c c' : Cluster} {l p : Nat}

namespace RaftNode

variable {n np n' : RaftNode} {full : Bool} {req : AppendEntriesRequest} {env : Env}
  {reply : Option RaftMessage}

/-! ## Requests -/

/-- The request asks peer `p` about the position before `nextIndex`. With `full` it
    carries everything from there on, without it nothing. -/
structure Probes (n : RaftNode) (p : Nat) (full : Bool) (req : AppendEntriesRequest) : Prop where
  term : req.term = n.currentTerm
  prev : req.prevLogIndex = n.nextIndex p - 1
  read : ReadFrom n.log req
  entries : req.entries = if full then n.log.drop (n.nextIndex p) else []

theorem probes_appendEntriesFor (n : RaftNode) (heartbeatOnly : Bool) (hpos : 1 ≤ n.nextIndex p)
    (hle : n.nextIndex p ≤ maxLogSize) :
    n.Probes p (!heartbeatOnly) (n.appendEntriesFor heartbeatOnly p) := by
  refine ⟨rfl, ?_, n.readFrom_appendEntriesFor heartbeatOnly hpos hle, ?_⟩
  · simp only [appendEntriesFor, u64]
    unfold maxLogSize at hle
    omega
  · simp only [appendEntriesFor, getLastLogIndex_eq]
    cases heartbeatOnly with
    | true => rfl
    | false =>
      -- past the last index there is nothing left to drop to
      rcases Nat.lt_or_ge (n.log.length - 1) (n.nextIndex p) with hlt | hge
      · rw [if_neg (by simp; omega)]
        exact (List.drop_eq_nil_of_le (by omega)).symm
      · rw [if_pos (by simp; omega)]
        rfl

/-- A request without entries leaves the log of the peer alone. -/
theorem Probes.mergedLog_heartbeat (hprobe : n.Probes p false req) :
    np.mergedLog req = np.log := by
  have hnil : req.entries = [] := hprobe.entries
  rw [mergedLog, hnil, mergeEntries]

/-- A request with entries that is accepted brings the leader's whole log over. -/
theorem Probes.isPrefix_mergedLog (hprobe : n.Probes p true req) (hpos : 1 ≤ n.nextIndex p)
    (hsource : MergeSource np.log n.log req)
    (hmatch : Matching LogEntry.term np.log n.log) : n.log <+: np.mergedLog req := by
  have hsplice := hsource.splice
  have hdrop : req.entries = n.log.drop (req.prevLogIndex + 1) := by
    rw [hprobe.prev, Nat.sub_add_cancel hpos]
    exact hprobe.entries
  rw [hdrop] at hsplice
  exact hsplice.isPrefix_of_drop hmatch hsource.take_eq hsource.prev_lt'

theorem getLastLogIndex_congr (hlog : n'.log = n.log) :
    n'.getLastLogIndex = n.getLastLogIndex := by
  rw [getLastLogIndex_eq, getLastLogIndex_eq, hlog]

/-- The checks of a request read the log and the term only. -/
theorem accepts_congr (hlog : n'.log = n.log) (hterm : n'.currentTerm = n.currentTerm) :
    n'.Accepts req ↔ n.Accepts req := by
  rw [Accepts, Accepts, getLastLogIndex_congr hlog, hterm, getLogEntry, getLogEntry, hlog]

/-! ## Answers -/

/-- What a follower that is not behind the request's term does and answers. -/
inductive Answers (n n' : RaftNode) (req : AppendEntriesRequest) : RaftMessage → Prop
  | accepted (haccepts : n.Accepts req) (hlog : n'.log = n.mergedLog req) :
      Answers n n' req (.appendEntriesResp ⟨n.currentTerm, true, n'.log.length - 1⟩)
  | refused (hrejects : ¬ n.Accepts req) (hlog : n'.log = n.log) (index : Nat) :
      Answers n n' req (.appendEntriesResp ⟨n.currentTerm, false, index⟩)

theorem Reacts.answers {src : Nat} {answer : RaftMessage}
    (h : n.Reacts env (.message src (.appendEntries req)) n' (some answer))
    (hle : req.term ≤ n.currentTerm) (hstate : n.state = .follower) :
    Answers n n' req answer ∧ n'.state = .follower ∧ n'.currentTerm = n.currentTerm := by
  have hcatch : n.catchUp env req.term = n := catchUp_of_le hle
  cases h with
  | appendStale _ _ hlt =>
    exact ⟨.refused (fun haccepts => Nat.not_le.mpr hlt haccepts.1) rfl 0, hstate, rfl⟩
  | appendMismatch _ _ _ hrejects index =>
    simp only [hcatch]
    exact ⟨.refused hrejects (by rfl) index, hstate, trivial⟩
  | appendAccepted _ _ haccepts =>
    simp only [hcatch]
    exact ⟨.accepted haccepts rfl, hstate, trivial⟩

/-- Nothing is sent on a message by a node that does not lead afterwards. -/
theorem Reacts.sent_eq_nil {src : Nat} {msg : RaftMessage}
    (h : n.Reacts env (.message src msg) n' reply) (hstate : n'.state ≠ .leader) (i : Nat) :
    sent i n n' = [] := by
  obtain ⟨sends, hsends, hsent⟩ := h.sent_eq i
  cases hsends with
  | none => exact hsent
  | append _ _ hleader => exact absurd hleader hstate

/-- A leader keeps the better one of the two match indices. -/
theorem processAppendEntriesResponse_success {term matchIndex : Nat} (hleader : n.state = .leader)
    (hterm : term = n.currentTerm) :
    n.processAppendEntriesResponse p term true matchIndex =
      if matchIndex > n.matchIndex p then
        { n with
          matchIndex := Function.update n.matchIndex p matchIndex
          nextIndex := Function.update n.nextIndex p (u64 (matchIndex + 1)) }
      else n := by
  rw [processAppendEntriesResponse, if_neg (by simp [hleader, hterm]), if_pos rfl]

/-- A leader goes one position back and sends everything from there to all peers. -/
theorem processAppendEntriesResponse_failure {term matchIndex : Nat} (hleader : n.state = .leader)
    (hterm : term = n.currentTerm) (hpos : 1 ≤ n.nextIndex p) :
    n.processAppendEntriesResponse p term false matchIndex =
      { n with
        nextIndex := Function.update n.nextIndex p (max 1 (n.nextIndex p - 1)) }.sendAppendEntries
        false := by
  rw [processAppendEntriesResponse, if_neg (by simp [hleader, hterm]), if_neg (by decide)]
  dsimp only
  split
  · next hlt => rw [Nat.max_eq_right (by omega)]
  · -- the first position is as far as it goes back
    next hge =>
    rw [show max 1 (n.nextIndex p - 1) = n.nextIndex p by omega, Function.update_eq_self]

/-- What a node puts in flight by `sendAppendEntries`. -/
theorem sent_sendAppendEntries (i : Nat) (m : RaftNode) (heartbeatOnly : Bool)
    (hcalls : m.calls = n.calls) : sent i n (m.sendAppendEntries heartbeatOnly) =
      m.peerIds.map fun pid => ⟨i, pid, .appendEntries (m.appendEntriesFor heartbeatOnly pid)⟩ := by
  have hnew : newCalls n (m.sendAppendEntries heartbeatOnly) = m.appendCalls heartbeatOnly := by
    rw [newCalls, sendAppendEntries, callAll]
    simp only [hcalls, List.drop_left]
    rfl
  rw [sent, hnew, appendCalls, List.filterMap_map]
  show m.peerIds.filterMap (some ∘ fun pid =>
    (⟨i, pid, .appendEntries (m.appendEntriesFor heartbeatOnly pid)⟩ : Packet)) = _
  rw [List.filterMap_eq_map]

@[simp] theorem sent_self (i : Nat) (n : RaftNode) : sent i n n = [] := by
  simp [sent, newCalls]

/-! ## Messages without effect -/

/-- The node stays in its role and keeps its log and what it knows of its peers. -/
structure Untouched (n n' : RaftNode) : Prop where
  log : n'.log = n.log
  state : n'.state = n.state
  term : n'.currentTerm = n.currentTerm
  next : n'.nextIndex = n.nextIndex
  progress : n'.matchIndex = n.matchIndex

theorem Untouched.refl (n : RaftNode) : Untouched n n := ⟨rfl, rfl, rfl, rfl, rfl⟩

/-- The messages a leader or follower ignores apart from its vote and its answer. -/
def Ignores (n : RaftNode) : RaftMessage → Prop
  | .requestVote _ => True
  | .requestVoteResp _ => True
  | .appendEntries req => req.term < n.currentTerm
  | .appendEntriesResp resp => n.state ≠ .leader ∨ resp.term ≠ n.currentTerm

/-- The answer in term `term` to a message that is ignored: a vote, or a refusal. -/
inductive IgnoredReply (term : Nat) : RaftMessage → Option RaftMessage → Prop
  | none (msg : RaftMessage) : IgnoredReply term msg none
  | vote (req : RequestVoteRequest) (resp : RequestVoteResponse) :
      IgnoredReply term (.requestVote req) (some (.requestVoteResp resp))
  | refusal (req : AppendEntriesRequest) (hterm : req.term < term) :
      IgnoredReply term (.appendEntries req) (some (.appendEntriesResp ⟨term, false, 0⟩))

theorem Reacts.ignored {src : Nat} {msg : RaftMessage}
    (h : n.Reacts env (.message src msg) n' reply) (hterm : msg.term ≤ n.currentTerm)
    (hstate : n.state ≠ .candidate) (hignores : n.Ignores msg) (i : Nat) :
    Untouched n n' ∧ sent i n n' = [] ∧ IgnoredReply n.currentTerm msg reply := by
  cases h with
  | idle => exact ⟨.refl n, sent_self i n, .none msg⟩
  | voteRefused _ req =>
    have hcatch : n.catchUp env req.term = n := catchUp_of_le hterm
    simp only [hcatch]
    exact ⟨.refl n, sent_self i n, .vote req _⟩
  | voteGranted _ req =>
    have hcatch : n.catchUp env req.term = n := catchUp_of_le hterm
    simp only [hcatch]
    exact ⟨⟨rfl, rfl, rfl, rfl, rfl⟩, by simp [sent, newCalls, Call.packet], .vote req _⟩
  | steppedDown _ _ hlt => exact absurd hterm (Nat.not_le.mpr hlt)
  | counted _ _ _ hcandidate => exact absurd hcandidate hstate
  | elected _ _ _ hcandidate => exact absurd hcandidate hstate
  | appendStale _ req hlt => exact ⟨.refl n, sent_self i n, .refusal req hlt⟩
  | appendMismatch _ _ hle => exact absurd hle (Nat.not_le.mpr hignores)
  | appendAccepted _ _ haccepts => exact absurd haccepts.1 (Nat.not_le.mpr hignores)
  | matchAdvanced _ _ hleader hsame => exact (hignores.elim (· hleader) (· hsame)).elim
  | retried _ _ hleader hsame => exact (hignores.elim (· hleader) (· hsame)).elim

end RaftNode

/-! ## A leader and a follower of its term -/

/-- After some run of the cluster `l` leads the term that `p` follows in. -/
structure Paired (M : Membership) (c : Cluster) (l p : Nat) : Prop where
  reachable : ∃ h, Run (raftSystem M) h c
  leader_mem : l ∈ M.ids
  peer_mem : p ∈ M.ids
  leader : (c.nodes l).state = .leader
  follower : (c.nodes p).state = .follower
  term_eq : (c.nodes p).currentTerm = (c.nodes l).currentTerm

/-- The two logs hold an entry of the same term at position `i`. -/
def Cluster.AgreeAt (c : Cluster) (l p i : Nat) : Prop :=
  SameTermAt LogEntry.term (c.nodes l).log (c.nodes p).log i

instance Cluster.AgreeAt.decidable (c : Cluster) (l p i : Nat) : Decidable (c.AgreeAt l p i) :=
  inferInstanceAs (Decidable (SameTermAt _ _ _ _))

/-- No log outgrows its vector. -/
theorem log_length_le (hrun : Run (raftSystem M) h c) {i : Nat} (hi : i ∈ M.ids) :
    (c.nodes i).log.length ≤ maxLogSize := by
  refine run_node hrun hi (P := fun n => n.log.length ≤ maxLogSize) (fun _ => ?_)
    fun _ _ _ _ _ _ _ _ _ hact _ => hact.size_le
  exact (by decide : 1 ≤ maxLogSize)

/-- Nobody sends a message of a term that it has not reached. -/
theorem packet_term_le (hrun : Run (raftSystem M) h c) {q : Packet} (hq : q ∈ c.net) :
    q.msg.term ≤ (c.nodes q.src).currentTerm := by
  refine hrun.rec_on_run (P := fun _ c => ∀ q ∈ c.net, q.msg.term ≤ (c.nodes q.src).currentTerm)
    (fun c hinit => ?_) (fun h c e c' hrun ih hstep => ?_) q hq
  · rw [hinit.2]
    exact fun q hq => absurd hq List.not_mem_nil
  · have hgrow : ∀ i, (c.nodes i).currentTerm ≤ (c'.nodes i).currentTerm := fun i =>
      (roleOrder_of_visited (hrun.next hstep)
        (List.mem_cons_of_mem _ (mem_visited_self h c)) i).term_le
    intro q hq
    rcases step_cases hstep with ⟨q', -, hnet⟩ | ⟨i, env, input, reply, net, hact⟩
    · rw [hnet] at hq
      exact (ih q (List.mem_of_mem_erase hq)).trans (hgrow q.src)
    · rcases hact.mem_net hq with hold | hemit
      · exact (ih q hold).trans (hgrow q.src)
      · -- what is emitted carries the term the node then has
        cases hemit with
        | vote => exact Nat.le_refl _
        | append m _ _ _ _ hterm => exact hterm.le
        | reply src msg answer => exact hact.reacts.answer_term.le

namespace Paired

theorem ne (hpair : Paired M c l p) : p ≠ l := by
  rintro rfl
  have hfollower := hpair.follower
  rw [hpair.leader] at hfollower
  exact nomatch hfollower

theorem next_mem (hpair : Paired M c l p) :
    1 ≤ (c.nodes l).nextIndex p ∧ (c.nodes l).nextIndex p ≤ maxLogSize :=
  let ⟨_, hrun⟩ := hpair.reachable
  (sendInv hrun).next_mem l hpair.leader_mem hpair.leader p
    ((M.mem_peerIds l hpair.leader_mem p).mpr ⟨hpair.peer_mem, hpair.ne⟩)

theorem mem_peerIds (hpair : Paired M c l p) : p ∈ (c.nodes l).peerIds := by
  obtain ⟨h, hrun⟩ := hpair.reachable
  rw [(run_ident hrun hpair.leader_mem).2, M.mem_peerIds l hpair.leader_mem]
  exact ⟨hpair.peer_mem, hpair.ne⟩

theorem wellFormed (hpair : Paired M c l p) {i : Nat} (hi : i ∈ M.ids) :
    WellFormed (c.nodes i).currentTerm (c.nodes i).log :=
  let ⟨h, hrun⟩ := hpair.reachable
  (logInv hrun).wellFormed c (mem_visited_self h c) i hi

theorem matching (hpair : Paired M c l p) :
    Matching LogEntry.term (c.nodes l).log (c.nodes p).log :=
  let ⟨h, hrun⟩ := hpair.reachable
  logs_matching hrun (mem_visited_self h c) (mem_visited_self h c) hpair.leader_mem
    hpair.peer_mem

theorem length_le (hpair : Paired M c l p) {i : Nat} (hi : i ∈ M.ids) :
    (c.nodes i).log.length ≤ maxLogSize :=
  let ⟨_, hrun⟩ := hpair.reachable
  log_length_le hrun hi

/-- A step that leaves the two in their roles and in one term. -/
theorem next (hpair : Paired M c l p) {e : Event} (hstep : (raftSystem M).step c e = some c')
    (hleader : (c'.nodes l).state = .leader) (hfollower : (c'.nodes p).state = .follower)
    (hterm : (c'.nodes p).currentTerm = (c'.nodes l).currentTerm) : Paired M c' l p :=
  let ⟨_, hrun⟩ := hpair.reachable
  ⟨⟨_, hrun.next hstep⟩, hpair.leader_mem, hpair.peer_mem, hleader, hfollower, hterm⟩

theorem agreeAt_of_le (hpair : Paired M c l p) {i j : Nat} (hi : c.AgreeAt l p i) (hle : j ≤ i) :
    c.AgreeAt l p j :=
  hi.of_le hpair.matching hle

/-- The follower has all entries exactly if it has the last one. -/
theorem isPrefix_iff (hpair : Paired M c l p) :
    (c.nodes l).log <+: (c.nodes p).log ↔ c.AgreeAt l p (c.nodes l).getLastLogIndex := by
  rw [RaftNode.getLastLogIndex_eq]
  exact hpair.matching.isPrefix_iff (hpair.wellFormed hpair.leader_mem).length_pos

end Paired

/-! ## Requests in flight -/

theorem MergeSource.of_isPrefix {L K K' : List LogEntry} {req : AppendEntriesRequest}
    (hsource : MergeSource L K req) (hpre : K <+: K') : MergeSource L K' req where
  prev_lt := hsource.prev_lt
  prev_lt' := hsource.prev_lt'.trans_le hpre.length_le
  take_eq := hsource.take_eq.trans (take_eq_of_isPrefix hpre hsource.prev_lt')
  sec := List.IsPrefix.trans hsource.sec (hpre.drop _)

/-- At a position where the logs agree the same checks pass at both nodes. -/
theorem RaftNode.Accepts.of_sameTermAt {a b : RaftNode} {req : AppendEntriesRequest}
    (haccepts : a.Accepts req) (hterm : b.currentTerm = a.currentTerm)
    (hsame : SameTermAt LogEntry.term a.log b.log req.prevLogIndex) : b.Accepts req := by
  obtain ⟨x, y, hx, hy, hxy⟩ := sameTermAt_iff.mp hsame
  have hlt := (List.getElem?_eq_some_iff.mp hy).1
  obtain ⟨hle, -, hprev⟩ := haccepts
  refine ⟨hterm.le.trans hle, ?_, fun hpos => ?_⟩
  · rw [RaftNode.getLastLogIndex_eq]
    omega
  · have hget := hprev hpos
    rw [RaftNode.getLogEntry_eq hx] at hget
    rw [RaftNode.getLogEntry_eq hy, ← hxy, hget]


namespace Paired

variable {req : AppendEntriesRequest}

/-- A request of the follower, which led an earlier term, is out of date. -/
theorem term_lt (hpair : Paired M c l p) (hmem : ⟨p, l, .appendEntries req⟩ ∈ c.net) :
    req.term < (c.nodes l).currentTerm := by
  obtain ⟨h, hrun⟩ := hpair.reachable
  have hle : req.term ≤ (c.nodes p).currentTerm := packet_term_le hrun hmem
  rw [hpair.term_eq] at hle
  obtain ⟨-, -, -, u, hu, hsent⟩ := (sendInv hrun).requests _ hmem req rfl
  refine Nat.lt_of_le_of_ne hle fun heq => hpair.ne ?_
  exact leader_unique hrun hu (mem_visited_self h c) hpair.peer_mem hpair.leader_mem hsent.leader
    hpair.leader (hsent.term.trans heq)

/-- What the follower accepts is a section of the log that the leader has now. -/
theorem mergeSource (hpair : Paired M c l p) (hmem : ⟨l, p, .appendEntries req⟩ ∈ c.net)
    (haccepts : (c.nodes p).Accepts req) : MergeSource (c.nodes p).log (c.nodes l).log req := by
  obtain ⟨h, hrun⟩ := hpair.reachable
  have hc := mem_visited_self h c
  have hle : req.term ≤ (c.nodes l).currentTerm := packet_term_le hrun hmem
  have hge := haccepts.1
  rw [hpair.term_eq] at hge
  obtain ⟨-, -, -, u, hu, hsent⟩ := (sendInv hrun).requests _ hmem req rfl
  -- the leader has led this term since it sent the request, so its log has only grown
  have hgrown : (u.nodes l).log <+: (c.nodes l).log :=
    leader_log_grows hrun hu hsent.leader (hsent.term.trans (by omega))
  have hsource := hsent.read.mergeSource (hpair.wellFormed hpair.peer_mem)
    ((logInv hrun).wellFormed u hu l hpair.leader_mem)
    (logs_matching hrun hc hu hpair.peer_mem hpair.leader_mem) haccepts
  exact hsource.of_isPrefix hgrown

/-- The follower accepts what the leader itself would accept at a position where the logs
    agree. -/
theorem accepts_iff (hpair : Paired M c l p) (hmem : ⟨l, p, .appendEntries req⟩ ∈ c.net) :
    (c.nodes p).Accepts req ↔
      (c.nodes l).Accepts req ∧ c.AgreeAt l p req.prevLogIndex := by
  constructor
  · intro haccepts
    have hsource := hpair.mergeSource hmem haccepts
    have hagree : c.AgreeAt l p req.prevLogIndex :=
      sameTermAt_of_take_eq hsource.take_eq.symm hsource.prev_lt'
    have hback : SameTermAt LogEntry.term (c.nodes p).log (c.nodes l).log req.prevLogIndex :=
      sameTermAt_of_take_eq hsource.take_eq hsource.prev_lt
    exact ⟨haccepts.of_sameTermAt hpair.term_eq.symm hback, hagree⟩
  · rintro ⟨haccepts, hagree⟩
    exact haccepts.of_sameTermAt hpair.term_eq hagree

/-- The merge of an accepted request does not outgrow the vector. -/
theorem mergedLog_length_le (hpair : Paired M c l p)
    (hmem : ⟨l, p, .appendEntries req⟩ ∈ c.net) (haccepts : (c.nodes p).Accepts req) :
    ((c.nodes p).mergedLog req).length ≤ maxLogSize := by
  rcases (hpair.mergeSource hmem haccepts).isPrefix_or_keep hpair.matching.symm with
    ⟨hpre, -⟩ | ⟨heq, -⟩
  · exact hpre.length_le.trans (hpair.length_le hpair.leader_mem)
  · rw [heq]
    exact hpair.length_le hpair.peer_mem

end Paired

end Dkv
