import LearnGit.ForStd.Inevitable
import LearnGit.Spec.AppendExchange

/-!
# Deliveries between a leader and a follower

While the leader `l` of a term and a follower `p` of that term only exchange messages, they
keep their roles and the leader's log. Each delivery has one of five effects, and each brings
the two closer to having nothing in flight.

## Key results

- `Paired.delivered`: what a delivery between the two does at both ends
- `Paired.exists_delivery`: every packet between the two can be delivered
- `PairStep.pairEffect`: the same in terms of the positions at which the two logs agree
- `PairStep.effort_lt`: no exchange goes on for ever
-/

namespace Dkv

open Transition ReplicatedLog

variable {M : Membership} {h : List (Cluster × Event)} {c c' : Cluster} {l p : Nat}

/-! ## Deliveries -/

/-- The packet is on its way between `l` and `p`. -/
def Packet.Between (l p : Nat) (q : Packet) : Prop :=
  (q.src = l ∧ q.dst = p) ∨ (q.src = p ∧ q.dst = l)

instance Packet.Between.decidable (l p : Nat) (q : Packet) : Decidable (q.Between l p) :=
  inferInstanceAs (Decidable (_ ∨ _))

/-- A packet between `l` and `p` is delivered. -/
def Delivery (M : Membership) (l p : Nat) (c c' : Cluster) : Prop :=
  ∃ q env, q.Between l p ∧ (raftSystem M).step c (.deliver q env) = some c'

/-- Nothing is in flight between `l` and `p`. -/
def Quiet (l p : Nat) (c : Cluster) : Prop := ∀ q ∈ c.net, ¬ q.Between l p

/-- The packet is a request of `l` to `p`, or an answer to one that `l` does not ignore. -/
def Packet.Matters (l p term : Nat) (q : Packet) : Prop :=
  (∃ req, q = ⟨l, p, .appendEntries req⟩) ∨
    ∃ resp, resp.term = term ∧ q = ⟨p, l, .appendEntriesResp resp⟩

/-- What becomes of the leader `l` and the follower `p` when the packet `q` is delivered, and
    the packets `new` that it puts in flight between them. -/
inductive Delivered (l p : Nat) (c c' : Cluster) : Packet → List Packet → Prop
  | ignored {q : Packet} {new : List Packet} (hlog : (c'.nodes p).log = (c.nodes p).log)
      (hleader : (c.nodes l).Untouched (c'.nodes l))
      (hq : ¬ q.Matters l p (c.nodes l).currentTerm)
      (hnew : ∀ q' ∈ new, ¬ q'.Matters l p (c.nodes l).currentTerm)
      (hfew : new = [] ∨ ∃ answer, new = [⟨q.dst, q.src, answer⟩] ∧
        RaftNode.IgnoredReply (c.nodes l).currentTerm q.msg (some answer)) :
      Delivered l p c c' q new
  | accepted (req : AppendEntriesRequest) (haccepts : (c.nodes p).Accepts req)
      (hlog : (c'.nodes p).log = (c.nodes p).mergedLog req) (hleader : c'.nodes l = c.nodes l) :
      Delivered l p c c' ⟨l, p, .appendEntries req⟩ [⟨p, l, .appendEntriesResp
        ⟨(c.nodes l).currentTerm, true, (c'.nodes p).log.length - 1⟩⟩]
  | refused (req : AppendEntriesRequest) (hrejects : ¬ (c.nodes p).Accepts req)
      (hlog : (c'.nodes p).log = (c.nodes p).log) (hleader : c'.nodes l = c.nodes l)
      (index : Nat) :
      Delivered l p c c' ⟨l, p, .appendEntries req⟩ [⟨p, l, .appendEntriesResp
        ⟨(c.nodes l).currentTerm, false, index⟩⟩]
  | acknowledged (resp : AppendEntriesResponse) (hterm : resp.term = (c.nodes l).currentTerm)
      (hsuccess : resp.success = true) (hpeer : c'.nodes p = c.nodes p)
      (hlog : (c'.nodes l).log = (c.nodes l).log)
      (hmatch : (c'.nodes l).matchIndex p = max ((c.nodes l).matchIndex p) resp.matchIndex)
      (hnext : (c'.nodes l).nextIndex p = if (c.nodes l).matchIndex p < resp.matchIndex
        then resp.matchIndex + 1 else (c.nodes l).nextIndex p) :
      Delivered l p c c' ⟨p, l, .appendEntriesResp resp⟩ []
  | retried (resp : AppendEntriesResponse) (hterm : resp.term = (c.nodes l).currentTerm)
      (hfailure : resp.success = false) (hpeer : c'.nodes p = c.nodes p)
      (hlog : (c'.nodes l).log = (c.nodes l).log)
      (hnext : (c'.nodes l).nextIndex p = max 1 ((c.nodes l).nextIndex p - 1))
      (req : AppendEntriesRequest) (hprobe : (c'.nodes l).Probes p true req) :
      Delivered l p c c' ⟨p, l, .appendEntriesResp resp⟩ [⟨l, p, .appendEntries req⟩]

/-- The packet `q` has been taken out of flight for the packets `new` between `l` and `p`. -/
structure Replaced (l p : Nat) (c c' : Cluster) (q : Packet) (new : List Packet) : Prop where
  mem : q ∈ c.net
  net : ∃ others, (∀ q' ∈ others, ¬ Packet.Between l p q') ∧
    c'.net.Perm (c.net.erase q ++ (new ++ others))

section Delivery

variable {env : Env} {msg : RaftMessage}

/-- The pair after a delivery, and what the delivery did. -/
structure PairStep (M : Membership) (l p : Nat) (c c' : Cluster) (q : Packet) (new : List Packet) :
    Prop where
  pair : Paired M c' l p
  log : (c'.nodes l).log = (c.nodes l).log
  term : (c'.nodes l).currentTerm = (c.nodes l).currentTerm
  effect : Delivered l p c c' q new
  replaced : Replaced l p c c' q new

/-- The answer to a packet that does not matter does not matter either. -/
private theorem ignoredReply_matters {q : Packet} {term : Nat} {answer : RaftMessage}
    (hmatters : ¬ q.Matters l p term)
    (hreply : RaftNode.IgnoredReply term q.msg (some answer)) :
    ¬ Packet.Matters l p term ⟨q.dst, q.src, answer⟩ := by
  obtain ⟨src, dst, msg⟩ := q
  rintro (⟨req, hreq⟩ | ⟨resp, -, hresp⟩)
  · cases hreply <;> exact nomatch congrArg Packet.msg hreq
  · cases hreply with
    | vote => exact nomatch congrArg Packet.msg hresp
    | refusal req =>
      -- only a request to the follower is answered by a refusal that matters
      obtain ⟨rfl, rfl, -⟩ := Packet.mk.inj hresp
      exact hmatters (.inl ⟨req, rfl⟩)

private theorem Paired.ignored (hpair : Paired M c l p) {q : Packet} (hq : q.Between l p)
    (hstep : (raftSystem M).step c (.deliver q env) = some c')
    (hignores : (c.nodes q.dst).Ignores q.msg)
    (hmatters : ¬ q.Matters l p (c.nodes l).currentTerm) : ∃ new, PairStep M l p c c' q new := by
  obtain ⟨h, hrun⟩ := hpair.reachable
  obtain ⟨-, hact⟩ := step_deliver hstep
  have hmem : q ∈ c.net := hact.of_message.1
  -- both are in the leader's term, and neither is a candidate
  have hdst : (c.nodes q.dst).currentTerm = (c.nodes l).currentTerm ∧
      (c.nodes q.dst).state ≠ .candidate ∧
      (c.nodes q.src).currentTerm = (c.nodes l).currentTerm := by
    rcases hq with ⟨hsrc, hdst⟩ | ⟨hsrc, hdst⟩
    · rw [hsrc, hdst, hpair.follower]
      exact ⟨hpair.term_eq, RaftNode.State.noConfusion, rfl⟩
    · rw [hsrc, hdst, hpair.leader]
      exact ⟨rfl, RaftNode.State.noConfusion, hpair.term_eq⟩
  obtain ⟨hterm, hstate, hsrc⟩ := hdst
  have hle : q.msg.term ≤ (c.nodes q.dst).currentTerm := by
    rw [hterm, ← hsrc]
    exact packet_term_le hrun hmem
  obtain ⟨huntouched, hsent, hreply⟩ := hact.reacts.ignored hle hstate hignores q.dst
  have hall : ∀ i, (c.nodes i).Untouched (c'.nodes i) := by
    intro i
    by_cases hi : i = q.dst
    · rw [hi]
      exact huntouched
    · rw [hact.others i hi]
      exact .refl _
  have hpair' : Paired M c' l p := hpair.next hstep ((hall l).state.trans hpair.leader)
    ((hall p).state.trans hpair.follower)
    (by rw [(hall p).term, (hall l).term, hpair.term_eq])
  have hnet := hact.net_eq
  rw [hsent, List.append_nil] at hnet
  rw [hterm] at hreply
  generalize ((c.nodes q.dst).handleRaftMessage env q.src q.msg).2 = reply at hnet hreply
  cases reply with
  | none =>
    refine ⟨[], hpair', (hall l).log, (hall l).term, ?_, hmem, [], ?_, ?_⟩
    · exact .ignored (hall p).log (hall l) hmatters (fun _ hin => absurd hin List.not_mem_nil)
        (.inl rfl)
    · exact fun _ hin => absurd hin List.not_mem_nil
    · rw [hnet]
      exact .refl _
  | some answer =>
    refine ⟨[⟨q.dst, q.src, answer⟩], hpair', (hall l).log, (hall l).term, ?_, hmem, [], ?_, ?_⟩
    · refine .ignored (hall p).log (hall l) hmatters (fun q' hin => ?_)
        (.inr ⟨answer, rfl, hreply⟩)
      rw [List.mem_singleton.mp hin]
      exact ignoredReply_matters hmatters hreply
    · exact fun _ hin => absurd hin List.not_mem_nil
    · rw [hnet]
      exact .refl _

/-- A request is delivered to the follower. -/
private theorem Paired.requested (hpair : Paired M c l p) {req : AppendEntriesRequest}
    (hstep : (raftSystem M).step c (.deliver ⟨l, p, .appendEntries req⟩ env) = some c') :
    ∃ new, PairStep M l p c c' ⟨l, p, .appendEntries req⟩ new := by
  obtain ⟨h, hrun⟩ := hpair.reachable
  obtain ⟨-, hact⟩ := step_deliver hstep
  have hmem := hact.of_message.1
  have hle : req.term ≤ (c.nodes p).currentTerm := by
    rw [hpair.term_eq]
    exact packet_term_le hrun hmem
  have hl : c'.nodes l = c.nodes l := hact.others l hpair.ne.symm
  obtain ⟨hanswers, hstate, hterm⟩ := RaftNode.Reacts.answers hact.reacts hle hpair.follower
  have hnet := hact.net_eq
  rw [hact.reacts.sent_eq_nil (by rw [hstate]; exact RaftNode.State.noConfusion) p,
    List.append_nil] at hnet
  have hpair' : Paired M c' l p := hpair.next hstep (by rw [hl, hpair.leader]) hstate
    (by rw [hl, hterm, hpair.term_eq])
  generalize hanswer : RaftMessage.appendEntriesResp
    ((c.nodes p).handleAppendEntries env req).2 = answer at hanswers
  have hnet : c'.net = c.net.erase ⟨l, p, .appendEntries req⟩ ++ [⟨p, l, answer⟩] := by
    rw [hnet, ← hanswer]
    rfl
  -- the answer is the one packet that is new
  refine ⟨[⟨p, l, answer⟩], hpair', by rw [hl], by rw [hl], ?_, hmem, [], ?_, ?_⟩
  · cases hanswers with
    | accepted haccepts hlog =>
      rw [hpair.term_eq]
      exact .accepted req haccepts hlog hl
    | refused hrejects hlog index =>
      rw [hpair.term_eq]
      exact .refused req hrejects hlog hl index
  · exact fun _ hin => absurd hin List.not_mem_nil
  · rw [hnet]
    exact .refl _

/-- A success of its term is delivered to the leader. -/
private theorem Paired.succeeded (hpair : Paired M c l p) {resp : AppendEntriesResponse}
    (hterm : resp.term = (c.nodes l).currentTerm) (hsuccess : resp.success = true)
    (hstep : (raftSystem M).step c (.deliver ⟨p, l, .appendEntriesResp resp⟩ env) = some c') :
    ∃ new, PairStep M l p c c' ⟨p, l, .appendEntriesResp resp⟩ new := by
  obtain ⟨h, hrun⟩ := hpair.reachable
  obtain ⟨hnode, hact⟩ := step_deliver hstep
  have hmem := hact.of_message.1
  have hp : c'.nodes p = c.nodes p := hact.others p hpair.ne
  have hnode : c'.nodes l = (c.nodes l).processAppendEntriesResponse p resp.term resp.success
    resp.matchIndex := hnode
  rw [hsuccess, RaftNode.processAppendEntriesResponse_success hpair.leader hterm] at hnode
  -- the reported index comes from a log of bounded size, so its successor does not wrap around
  have hlt : resp.matchIndex < maxLogSize := (sendInv hrun).replies _ hmem resp rfl hsuccess
  have hsucc : u64 (resp.matchIndex + 1) = resp.matchIndex + 1 := by
    unfold maxLogSize at hlt
    rw [u64]
    omega
  have hkeep : (c'.nodes l).log = (c.nodes l).log ∧ (c'.nodes l).state = (c.nodes l).state ∧
      (c'.nodes l).currentTerm = (c.nodes l).currentTerm ∧
      RaftNode.sent l (c.nodes l) (c'.nodes l) = [] := by
    rw [hnode]
    split
    · exact ⟨rfl, rfl, rfl, by simp [RaftNode.sent, RaftNode.newCalls]⟩
    · exact ⟨rfl, rfl, rfl, RaftNode.sent_self _ _⟩
  obtain ⟨hlog, hstate, hsame, hsent⟩ := hkeep
  have hnet := hact.net_eq
  rw [hsent] at hnet
  refine ⟨[], hpair.next hstep (hstate.trans hpair.leader) (by rw [hp, hpair.follower])
    (by rw [hp, hsame, hpair.term_eq]), hlog, hsame,
    .acknowledged resp hterm hsuccess hp hlog ?_ ?_, hmem, [], ?_, ?_⟩
  · rw [hnode]
    split
    · show Function.update _ _ _ _ = _
      rw [Function.update_self]
      omega
    · omega
  · rw [hnode]
    split
    · show Function.update _ _ _ _ = _
      rw [Function.update_self, hsucc]
    · rfl
  · exact fun _ hin => absurd hin List.not_mem_nil
  · rw [hnet]
    simp [RaftNode.replies, RaftNode.handleRaftMessage]

/-- A refusal of its term is delivered to the leader. -/
private theorem Paired.failed (hpair : Paired M c l p) {resp : AppendEntriesResponse}
    (hterm : resp.term = (c.nodes l).currentTerm) (hfailure : resp.success = false)
    (hstep : (raftSystem M).step c (.deliver ⟨p, l, .appendEntriesResp resp⟩ env) = some c') :
    ∃ new, PairStep M l p c c' ⟨p, l, .appendEntriesResp resp⟩ new := by
  obtain ⟨h, hrun⟩ := hpair.reachable
  obtain ⟨hnode, hact⟩ := step_deliver hstep
  have hmem := hact.of_message.1
  have hp : c'.nodes p = c.nodes p := hact.others p hpair.ne
  have hnode : c'.nodes l = (c.nodes l).processAppendEntriesResponse p resp.term resp.success
    resp.matchIndex := hnode
  obtain ⟨hpos, hle⟩ := hpair.next_mem
  rw [hfailure, RaftNode.processAppendEntriesResponse_failure hpair.leader hterm hpos] at hnode
  -- the leader as it is when it builds the next request
  generalize hm : ({ c.nodes l with
    nextIndex := Function.update (c.nodes l).nextIndex p
      (max 1 ((c.nodes l).nextIndex p - 1)) } : RaftNode) = m at hnode
  have hnext : m.nextIndex p = max 1 ((c.nodes l).nextIndex p - 1) := by
    rw [← hm]
    exact Function.update_self _ _ _
  have hpeers : m.peerIds = (c.nodes l).peerIds := by rw [← hm]
  have hcalls : m.calls = (c.nodes l).calls := by rw [← hm]
  have hprobe := m.probes_appendEntriesFor (p := p) false (by omega) (by omega)
  have hlog : (c'.nodes l).log = (c.nodes l).log := by rw [hnode, ← hm]; rfl
  have hstate : (c'.nodes l).state = (c.nodes l).state := by rw [hnode, ← hm]; rfl
  have hsame : (c'.nodes l).currentTerm = (c.nodes l).currentTerm := by rw [hnode, ← hm]; rfl
  -- one of the requests it sends to all peers is for the follower
  have hperm : (m.peerIds).Perm (p :: m.peerIds.erase p) :=
    List.perm_cons_erase (hpeers ▸ hpair.mem_peerIds)
  have hnodup : m.peerIds.Nodup := by
    rw [hpeers, (run_ident hrun hpair.leader_mem).2]
    exact M.nodup_peerIds l hpair.leader_mem
  have hnet := hact.net_eq
  have hsent : RaftNode.sent l (c.nodes l) (c'.nodes l) = m.peerIds.map fun pid =>
      ⟨l, pid, .appendEntries (m.appendEntriesFor false pid)⟩ := by
    rw [hnode]
    exact RaftNode.sent_sendAppendEntries l m false hcalls
  rw [hsent] at hnet
  refine ⟨[⟨l, p, .appendEntries (m.appendEntriesFor false p)⟩],
    hpair.next hstep (hstate.trans hpair.leader) (by rw [hp, hpair.follower])
      (by rw [hp, hsame, hpair.term_eq]), hlog, hsame,
    .retried resp hterm hfailure hp hlog ?_ _ ?_, hmem,
    (m.peerIds.erase p).map fun pid => ⟨l, pid, .appendEntries (m.appendEntriesFor false pid)⟩,
    ?_, ?_⟩
  · rw [hnode]
    exact hnext
  · -- sending changes nothing the request is read off
    rw [hnode]
    exact ⟨hprobe.term, hprobe.prev, hprobe.read, hprobe.entries⟩
  -- the requests to the other peers are not between the two
  · rintro q' hin (⟨-, hdst⟩ | ⟨hsrc, -⟩)
    · obtain ⟨pid, hpid, rfl⟩ := List.mem_map.mp hin
      exact hnodup.not_mem_erase (hdst ▸ hpid)
    · obtain ⟨pid, -, rfl⟩ := List.mem_map.mp hin
      exact hpair.ne hsrc.symm
  · rw [hnet]
    have hreplies : RaftNode.replies l (.message p (.appendEntriesResp resp))
      ((c.nodes l).handleRaftMessage env p (.appendEntriesResp resp)).2 = [] := rfl
    rw [hreplies, List.append_nil]
    exact (hperm.map _).append_left _

/-- What a delivery between the two does. -/
theorem Paired.delivered (hpair : Paired M c l p) {q : Packet} (hq : q.Between l p)
    (hstep : (raftSystem M).step c (.deliver q env) = some c') :
    ∃ new, PairStep M l p c c' q new := by
  obtain ⟨src, dst, msg⟩ := q
  have hmem : (⟨src, dst, msg⟩ : Packet) ∈ c.net := (step_deliver hstep).2.of_message.1
  have hne := hpair.ne
  have hfollower := hpair.follower
  rcases hq with ⟨hsrc, hdst⟩ | ⟨hsrc, hdst⟩
  · obtain rfl : src = l := hsrc
    obtain rfl : dst = p := hdst
    cases msg with
    | appendEntries req => exact hpair.requested hstep
    | requestVote req =>
      exact hpair.ignored (.inl ⟨rfl, rfl⟩) hstep trivial (by simp [Packet.Matters])
    | requestVoteResp resp =>
      exact hpair.ignored (.inl ⟨rfl, rfl⟩) hstep trivial (by simp [Packet.Matters])
    | appendEntriesResp resp =>
      -- the follower does not lead any more
      refine hpair.ignored (.inl ⟨rfl, rfl⟩) hstep (.inl ?_) ?_
      · show (c.nodes dst).state ≠ _
        rw [hfollower]
        exact RaftNode.State.noConfusion
      · simp [Packet.Matters, hne.symm]
  · obtain rfl : src = p := hsrc
    obtain rfl : dst = l := hdst
    cases msg with
    | requestVote req =>
      exact hpair.ignored (.inr ⟨rfl, rfl⟩) hstep trivial (by simp [Packet.Matters])
    | requestVoteResp resp =>
      exact hpair.ignored (.inr ⟨rfl, rfl⟩) hstep trivial (by simp [Packet.Matters])
    | appendEntries req =>
      exact hpair.ignored (.inr ⟨rfl, rfl⟩) hstep (hpair.term_lt hmem)
        (by simp [Packet.Matters, hne])
    | appendEntriesResp resp =>
      by_cases hterm : resp.term = (c.nodes dst).currentTerm
      · cases hsuccess : resp.success with
        | true => exact hpair.succeeded hterm hsuccess hstep
        | false => exact hpair.failed hterm hsuccess hstep
      · exact hpair.ignored (.inr ⟨rfl, rfl⟩) hstep (.inr hterm)
          (by simp [Packet.Matters, hne, hterm])

/-- Every packet between the two can be delivered, at any time. -/
theorem Paired.exists_delivery (hpair : Paired M c l p) {q : Packet} (hq : q.Between l p)
    (hmem : q ∈ c.net) (env : Env) : ∃ c', (raftSystem M).step c (.deliver q env) = some c' := by
  obtain ⟨src, dst, msg⟩ := q
  have hdst : dst ∈ M.ids := by
    rcases hq with ⟨-, hdst⟩ | ⟨-, hdst⟩
    · obtain rfl : dst = p := hdst
      exact hpair.peer_mem
    · obtain rfl : dst = l := hdst
      exact hpair.leader_mem
  refine exists_step_deliver env hdst hmem ?_
  have hreact := (c.nodes dst).react_cases env (.message src msg)
  show ((c.nodes dst).react env (.message src msg)).1.log.length ≤ maxLogSize
  cases hreact.logStep with
  | same hlog =>
    rw [hlog]
    exact hpair.length_le hdst
  | merge src req haccepts hterm hlog =>
    rw [hlog]
    rcases hq with ⟨hsrc, hdst⟩ | ⟨hsrc, hdst⟩
    · obtain rfl : src = l := hsrc
      obtain rfl : dst = p := hdst
      exact hpair.mergedLog_length_le hmem haccepts
    · -- the leader accepts nothing of the follower
      obtain rfl : src = p := hsrc
      obtain rfl : dst = l := hdst
      exact absurd haccepts.1 (Nat.not_le.mpr (hpair.term_lt hmem))

end Delivery


/-! ## Requests and responses in flight -/

/-- The last position a request is about. -/
def AppendEntriesRequest.lastIndex (req : AppendEntriesRequest) : Nat :=
  req.prevLogIndex + req.entries.length

/-- The AppendEntries requests on their way from node `i` to node `j`. -/
def Cluster.requests (c : Cluster) (i j : Nat) : List AppendEntriesRequest :=
  c.net.filterMap fun
    | ⟨src, dst, .appendEntries req⟩ => if src = i ∧ dst = j then some req else none
    | _ => none

/-- The AppendEntries responses on their way from node `i` to node `j`. -/
def Cluster.responses (c : Cluster) (i j : Nat) : List AppendEntriesResponse :=
  c.net.filterMap fun
    | ⟨src, dst, .appendEntriesResp resp⟩ => if src = i ∧ dst = j then some resp else none
    | _ => none

theorem mem_requests {i j : Nat} {req : AppendEntriesRequest} :
    req ∈ c.requests i j ↔ ⟨i, j, .appendEntries req⟩ ∈ c.net := by
  rw [Cluster.requests, List.mem_filterMap]
  constructor
  · rintro ⟨⟨src, dst, msg⟩, hmem, heq⟩
    cases msg with
    | appendEntries req' =>
      obtain ⟨⟨rfl, rfl⟩, hsome⟩ := Option.ite_none_right_eq_some.mp heq
      obtain rfl := Option.some.inj hsome
      exact hmem
    | _ => exact nomatch heq
  · exact fun hmem => ⟨_, hmem, if_pos ⟨rfl, rfl⟩⟩

theorem mem_responses {i j : Nat} {resp : AppendEntriesResponse} :
    resp ∈ c.responses i j ↔ ⟨i, j, .appendEntriesResp resp⟩ ∈ c.net := by
  rw [Cluster.responses, List.mem_filterMap]
  constructor
  · rintro ⟨⟨src, dst, msg⟩, hmem, heq⟩
    cases msg with
    | appendEntriesResp resp' =>
      obtain ⟨⟨rfl, rfl⟩, hsome⟩ := Option.ite_none_right_eq_some.mp heq
      obtain rfl := Option.some.inj hsome
      exact hmem
    | _ => exact nomatch heq
  · exact fun hmem => ⟨_, hmem, if_pos ⟨rfl, rfl⟩⟩

/-- A resent request reaches the end of the leader's log. -/
theorem RaftNode.Probes.le_lastIndex {n : RaftNode} {req : AppendEntriesRequest}
    (hprobe : n.Probes p true req) (hpos : 1 ≤ n.nextIndex p) :
    n.getLastLogIndex ≤ req.lastIndex := by
  have hentries : req.entries = n.log.drop (n.nextIndex p) := hprobe.entries
  rw [RaftNode.getLastLogIndex_eq, AppendEntriesRequest.lastIndex, hprobe.prev, hentries,
    List.length_drop]
  omega

namespace Replaced

variable {q q' : Packet} {new : List Packet}

theorem mem_or (h : Replaced l p c c' q new) (hq' : q'.Between l p) (hmem : q' ∈ c'.net) :
    q' ∈ c.net ∨ q' ∈ new := by
  obtain ⟨others, hothers, hperm⟩ := h.net
  rw [hperm.mem_iff, List.mem_append, List.mem_append] at hmem
  rcases hmem with hold | hnew | hother
  · exact .inl (List.mem_of_mem_erase hold)
  · exact .inr hnew
  · exact absurd hq' (hothers q' hother)

theorem kept (h : Replaced l p c c' q new) (hmem : q' ∈ c.net) : q' = q ∨ q' ∈ c'.net := by
  by_cases hq : q' = q
  · exact .inl hq
  · obtain ⟨others, -, hperm⟩ := h.net
    rw [hperm.mem_iff]
    exact .inr (List.mem_append_left _ ((List.mem_erase_of_ne hq).mpr hmem))

theorem new_mem (h : Replaced l p c c' q new) (hmem : q' ∈ new) : q' ∈ c'.net := by
  obtain ⟨others, -, hperm⟩ := h.net
  rw [hperm.mem_iff]
  exact List.mem_append_right _ (List.mem_append_left _ hmem)

/-- All other packets between the two are as before. -/
theorem mem_iff (h : Replaced l p c c' q new) (hq' : q'.Between l p) (hne : q' ≠ q)
    (hnew : q' ∉ new) : q' ∈ c'.net ↔ q' ∈ c.net :=
  ⟨fun hmem => (h.mem_or hq' hmem).resolve_right hnew, fun hmem => (h.kept hmem).resolve_left hne⟩

end Replaced

/-- The effect of the delivery of `q` on the positions at which the logs agree, on what the leader
    knows of the follower, and on the requests and the answers of its term in flight. -/
inductive PairEffect (l p : Nat) (c c' : Cluster) (q : Packet) : Prop
  | ignored (hlog : (c'.nodes p).log = (c.nodes p).log)
      (hnext : (c'.nodes l).nextIndex p = (c.nodes l).nextIndex p)
      (hmatch : (c'.nodes l).matchIndex p = (c.nodes l).matchIndex p)
      (hreqs : ∀ req, req ∈ c'.requests l p ↔ req ∈ c.requests l p)
      (hresps : ∀ resp, resp.term = (c.nodes l).currentTerm →
        (resp ∈ c'.responses p l ↔ resp ∈ c.responses p l))
  | accepted (req : AppendEntriesRequest) (hq : q = ⟨l, p, .appendEntries req⟩)
      (haccepts : (c.nodes l).Accepts req) (hprev : c.AgreeAt l p req.prevLogIndex)
      (hagree : ∀ i, c'.AgreeAt l p i ↔ c.AgreeAt l p i ∨ i ≤ req.lastIndex)
      (hlast : (c'.nodes p).getLastLogIndex =
        if c.AgreeAt l p req.lastIndex then (c.nodes p).getLastLogIndex else req.lastIndex)
      (hnext : (c'.nodes l).nextIndex p = (c.nodes l).nextIndex p)
      (hmatch : (c'.nodes l).matchIndex p = (c.nodes l).matchIndex p)
      (hreqs : ∀ req', req' ∈ c.requests l p ↔ req' = req ∨ req' ∈ c'.requests l p)
      (hresps : ∀ resp, resp.term = (c.nodes l).currentTerm → (resp ∈ c'.responses p l ↔
        resp = ⟨(c.nodes l).currentTerm, true, (c'.nodes p).getLastLogIndex⟩ ∨
          resp ∈ c.responses p l))
  | refused (req : AppendEntriesRequest) (hq : q = ⟨l, p, .appendEntries req⟩)
      (hrejects : ¬ ((c.nodes l).Accepts req ∧ c.AgreeAt l p req.prevLogIndex))
      (resp : AppendEntriesResponse) (hresp : resp ∈ c'.responses p l)
      (hterm : resp.term = (c.nodes l).currentTerm) (hfailure : resp.success = false)
  | acknowledged (resp : AppendEntriesResponse) (hterm : resp.term = (c.nodes l).currentTerm)
      (hsuccess : resp.success = true) (hlog : (c'.nodes p).log = (c.nodes p).log)
      (hmatch : (c'.nodes l).matchIndex p = max ((c.nodes l).matchIndex p) resp.matchIndex)
      (hnext : (c'.nodes l).nextIndex p = if (c.nodes l).matchIndex p < resp.matchIndex
        then resp.matchIndex + 1 else (c.nodes l).nextIndex p)
      (hreqs : ∀ req, req ∈ c'.requests l p ↔ req ∈ c.requests l p)
      (hresps : ∀ resp', resp'.term = (c.nodes l).currentTerm →
        (resp' ∈ c.responses p l ↔ resp' = resp ∨ resp' ∈ c'.responses p l))
  | retried (resp : AppendEntriesResponse) (hresp : resp ∈ c.responses p l)
      (hterm : resp.term = (c.nodes l).currentTerm) (hfailure : resp.success = false)
      (hlog : (c'.nodes p).log = (c.nodes p).log) (req : AppendEntriesRequest)
      (hreq : req ∈ c'.requests l p) (hlast : (c.nodes l).getLastLogIndex ≤ req.lastIndex)

/-- A delivery in terms of the positions at which the two logs agree. -/
theorem PairStep.pairEffect (hpair : Paired M c l p) {q : Packet} {new : List Packet}
    (hstep : PairStep M l p c c' q new) : PairEffect l p c c' q := by
  have hne := hpair.ne
  have hrep := hstep.replaced
  have hrequest : ∀ req, Packet.Between l p ⟨l, p, .appendEntries req⟩ := fun _ => .inl ⟨rfl, rfl⟩
  have hresponse : ∀ resp, Packet.Between l p ⟨p, l, .appendEntriesResp resp⟩ :=
    fun _ => .inr ⟨rfl, rfl⟩
  have hlog := hstep.log
  cases hstep.effect with
  | ignored hpeer hleader hq hnew =>
    refine .ignored hpeer (congrFun hleader.next p) (congrFun hleader.progress p)
      (fun req => ?_) (fun resp hterm => ?_)
    · rw [mem_requests, mem_requests]
      exact hrep.mem_iff (hrequest req) (fun heq => hq (.inl ⟨req, heq.symm⟩))
        (fun hin => hnew _ hin (.inl ⟨req, rfl⟩))
    · rw [mem_responses, mem_responses]
      exact hrep.mem_iff (hresponse resp) (fun heq => hq (.inr ⟨resp, hterm, heq.symm⟩))
        (fun hin => hnew _ hin (.inr ⟨resp, hterm, rfl⟩))
  | accepted req haccepts hpeer hleader =>
    have hsource := hpair.mergeSource hrep.mem haccepts
    obtain ⟨haccepts, hprev⟩ := (hpair.accepts_iff hrep.mem).mp haccepts
    refine .accepted req rfl haccepts hprev (fun i => ?_) ?_ (by rw [hleader]) (by rw [hleader])
      (fun req' => ?_) (fun resp hterm => ?_)
    · show SameTermAt _ (c'.nodes l).log (c'.nodes p).log i ↔ _
      rw [hlog, hpeer]
      exact hsource.splice.sameTermAt_iff hsource.sec hpair.matching hsource.take_eq
        hsource.prev_lt' i
    · rw [RaftNode.getLastLogIndex_eq, RaftNode.getLastLogIndex_eq, hpeer]
      rcases hsource.splice.cases_last hsource.sec hpair.matching hsource.take_eq
        hsource.prev_lt' with ⟨hsame, hkeep⟩ | ⟨hdiff, -, hlen⟩
      · rw [if_pos (show c.AgreeAt l p req.lastIndex from hsame), hkeep]
      · rw [if_neg (show ¬ c.AgreeAt l p req.lastIndex from hdiff), hlen]
        rfl
    · rw [mem_requests, mem_requests]
      constructor
      · intro hmem
        rcases hrep.kept hmem with heq | hmem
        · cases heq
          exact .inl rfl
        · exact .inr hmem
      · rintro (rfl | hmem)
        · exact hrep.mem
        · refine (hrep.mem_or (hrequest req') hmem).resolve_right fun hin => ?_
          exact nomatch List.mem_singleton.mp hin
    · rw [mem_responses, mem_responses, RaftNode.getLastLogIndex_eq]
      constructor
      · intro hmem
        rcases hrep.mem_or (hresponse resp) hmem with hold | hnew
        · exact .inr hold
        · cases List.mem_singleton.mp hnew
          exact .inl rfl
      · rintro (rfl | hmem)
        · exact hrep.new_mem (List.mem_singleton.mpr rfl)
        · exact (hrep.kept hmem).resolve_left fun heq => nomatch heq
  | refused req hrejects hpeer hleader index =>
    refine .refused req rfl ?_ _
      (mem_responses.mpr (hrep.new_mem (List.mem_singleton.mpr rfl))) rfl rfl
    rwa [← hpair.accepts_iff hrep.mem]
  | acknowledged resp hterm hsuccess hpeer hleader hmatch hnext =>
    refine .acknowledged resp hterm hsuccess (by rw [hpeer]) hmatch hnext (fun req => ?_)
      (fun resp' _ => ?_)
    · rw [mem_requests, mem_requests]
      exact hrep.mem_iff (hrequest req) (fun heq => nomatch heq) List.not_mem_nil
    · rw [mem_responses, mem_responses]
      constructor
      · intro hmem
        rcases hrep.kept hmem with heq | hmem
        · cases heq
          exact .inl rfl
        · exact .inr hmem
      · rintro (rfl | hmem)
        · exact hrep.mem
        · exact (hrep.mem_or (hresponse resp') hmem).resolve_right List.not_mem_nil
  | retried resp hterm hfailure hpeer hleader hnext req hprobe =>
    refine .retried resp (mem_responses.mpr hrep.mem) hterm hfailure (by rw [hpeer]) req
      (mem_requests.mpr (hrep.new_mem (List.mem_singleton.mpr rfl))) ?_
    have hle := hprobe.le_lastIndex hstep.pair.next_mem.1
    rwa [RaftNode.getLastLogIndex_congr hlog] at hle

/-! ## No exchange goes on for ever -/

/-- How much a message may still cause in term `term`, apart from the requests sent again on a
    refusal. A request of the term that starts at the sentinel is not refused. -/
def RaftMessage.weight (term : Nat) : RaftMessage → Nat
  | .requestVote _ => 1
  | .requestVoteResp _ => 0
  | .appendEntries req => if req.term = term ∧ req.prevLogIndex = 0 then 1 else 3
  | .appendEntriesResp resp => if resp.term = term ∧ resp.success = false then 2 else 0

namespace RaftMessage

variable {term : Nat} {req : AppendEntriesRequest} {resp : AppendEntriesResponse}

theorem weight_first (hterm : req.term = term) (hprev : req.prevLogIndex = 0) :
    (RaftMessage.appendEntries req).weight term = 1 :=
  if_pos ⟨hterm, hprev⟩

theorem weight_later (hlate : ¬ (req.term = term ∧ req.prevLogIndex = 0)) :
    (RaftMessage.appendEntries req).weight term = 3 :=
  if_neg hlate

theorem weight_refusal (resp : AppendEntriesResponse) (hterm : resp.term = term)
    (hfailure : resp.success = false) :
    (RaftMessage.appendEntriesResp resp).weight term = 2 :=
  if_pos ⟨hterm, hfailure⟩

theorem weight_success (hsuccess : resp.success = true) :
    (RaftMessage.appendEntriesResp resp).weight term = 0 :=
  if_neg fun hno => by rw [hsuccess] at hno; exact nomatch hno.2

end RaftMessage

/-- The sum of `f` over the packets in flight between `l` and `p`. -/
def Cluster.load (f : Packet → Nat) (l p : Nat) (c : Cluster) : Nat :=
  (c.net.map fun q => if q.Between l p then f q else 0).sum

/-- The number of packets in flight between the two, then `nextIndex`, which goes back on a
    refusal, then the weight of the packets. -/
def Cluster.effort (l p : Nat) (c : Cluster) : ℕ ×ₗ (ℕ ×ₗ ℕ) :=
  toLex (c.load (fun _ => 1) l p, toLex ((c.nodes l).nextIndex p,
    c.load (fun q => q.msg.weight (c.nodes l).currentTerm) l p))

theorem Replaced.load_eq {q : Packet} {new : List Packet} (h : Replaced l p c c' q new)
    (hq : q.Between l p) (hnew : ∀ q' ∈ new, q'.Between l p) (f : Packet → Nat) :
    c'.load f l p + f q = c.load f l p + (new.map f).sum := by
  obtain ⟨others, hothers, hperm⟩ := h.net
  have hin : (new.map fun q => if q.Between l p then f q else 0) = new.map f :=
    List.map_congr_left fun q' hq' => if_pos (hnew q' hq')
  have hout : (others.map fun q => if q.Between l p then f q else 0).sum = 0 := by
    refine List.sum_eq_zero fun x hx => ?_
    obtain ⟨q', hq', rfl⟩ := List.mem_map.mp hx
    exact if_neg (hothers q' hq')
  have hafter := (hperm.map fun q => if q.Between l p then f q else 0).sum_eq
  have hbefore :=
    ((List.perm_cons_erase h.mem).map fun q => if q.Between l p then f q else 0).sum_eq
  simp only [List.map_append, List.sum_append, List.map_cons, List.sum_cons] at hafter hbefore
  rw [hin, hout] at hafter
  rw [if_pos hq] at hbefore
  rw [Cluster.load, Cluster.load, hafter, hbefore]
  omega

/-- The packets that a delivery puts in flight are between the two. -/
theorem Delivered.between {q : Packet} {new : List Packet} (h : Delivered l p c c' q new)
    (hq : q.Between l p) : ∀ q' ∈ new, q'.Between l p := by
  intro q' hmem
  cases h with
  | ignored _ _ _ _ hfew =>
    rcases hfew with rfl | ⟨answer, rfl, -⟩
    · exact absurd hmem List.not_mem_nil
    · rw [List.mem_singleton.mp hmem]
      exact hq.elim (fun hto => .inr ⟨hto.2, hto.1⟩) fun hback => .inl ⟨hback.2, hback.1⟩
  | accepted | refused =>
    rw [List.mem_singleton.mp hmem]
    exact .inr ⟨rfl, rfl⟩
  | acknowledged => exact absurd hmem List.not_mem_nil
  | retried =>
    rw [List.mem_singleton.mp hmem]
    exact .inl ⟨rfl, rfl⟩

/-- Every delivery makes the effort smaller. -/
theorem PairStep.effort_lt (hpair : Paired M c l p) {q : Packet} {new : List Packet}
    (hq : q.Between l p) (hstep : PairStep M l p c c' q new) : c'.effort l p < c.effort l p := by
  have hload := hstep.replaced.load_eq hq (hstep.effect.between hq)
  have hcount := hload fun _ => 1
  have hweight := hload fun q => q.msg.weight (c.nodes l).currentTerm
  have hmem := hstep.replaced.mem
  rw [Cluster.effort, Cluster.effort, Prod.Lex.toLex_lt_toLex, Prod.Lex.toLex_lt_toLex, hstep.term]
  dsimp only
  cases hstep.effect with
  | ignored _ hleader _ _ hfew =>
    rcases hfew with rfl | ⟨answer, rfl, hreply⟩
    · -- no answer: one packet less
      simp only [List.map_nil, List.sum_nil] at hcount
      exact .inl (by omega)
    · have hlt : answer.weight (c.nodes l).currentTerm <
          q.msg.weight (c.nodes l).currentTerm := by
        generalize q.msg = msg at hreply
        cases hreply with
        | vote => exact Nat.one_pos
        | refusal req hterm =>
          rw [RaftMessage.weight_refusal ⟨_, false, 0⟩ rfl rfl,
            RaftMessage.weight_later (by omega)]
          omega
      simp only [List.map_cons, List.map_nil, List.sum_cons, List.sum_nil] at hcount hweight
      -- an answer that is ignored in its turn weighs less than what it answers
      refine .inr ⟨by omega, .inr ⟨congrFun hleader.next p, by omega⟩⟩
  | accepted req haccepts _ hleader =>
    -- one packet for another, and a success causes nothing
    simp only [List.map_cons, List.map_nil, List.sum_cons, List.sum_nil] at hcount hweight
    rw [RaftMessage.weight_success rfl] at hweight
    refine .inr ⟨by omega, .inr ⟨by rw [hleader], ?_⟩⟩
    by_cases hfirst : req.term = (c.nodes l).currentTerm ∧ req.prevLogIndex = 0
    · rw [RaftMessage.weight_first hfirst.1 hfirst.2] at hweight
      omega
    · rw [RaftMessage.weight_later hfirst] at hweight
      omega
  | refused req hrejects _ hleader index =>
    -- the sentinel is in every log, so the refused request starts behind it
    have hlate : ¬ (req.term = (c.nodes l).currentTerm ∧ req.prevLogIndex = 0) := by
      rintro ⟨hterm, hprev⟩
      exact hrejects ⟨hpair.term_eq.le.trans hterm.ge, by omega, fun hpos => by omega⟩
    simp only [List.map_cons, List.map_nil, List.sum_cons, List.sum_nil] at hcount hweight
    rw [RaftMessage.weight_later hlate, RaftMessage.weight_refusal ⟨_, false, index⟩ rfl rfl]
      at hweight
    exact .inr ⟨by omega, .inr ⟨by rw [hleader], by omega⟩⟩
  | acknowledged =>
    simp only [List.map_nil, List.sum_nil] at hcount
    exact .inl (by omega)
  | retried resp hterm hfailure _ _ hnext req hprobe =>
    have hpos := hpair.next_mem.1
    simp only [List.map_cons, List.map_nil, List.sum_cons, List.sum_nil] at hcount hweight
    refine .inr ⟨by omega, ?_⟩
    by_cases hone : (c.nodes l).nextIndex p = 1
    · -- from the sentinel on everything is sent, and this is not refused again
      have hprev : req.prevLogIndex = 0 := by
        rw [hprobe.prev, hnext]
        omega
      rw [RaftMessage.weight_refusal resp hterm hfailure,
        RaftMessage.weight_first (hprobe.term.trans hstep.term) hprev] at hweight
      exact .inr ⟨by omega, by omega⟩
    · -- `nextIndex` goes back
      exact .inl (by omega)

end Dkv
