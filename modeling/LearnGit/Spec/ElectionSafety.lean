import LearnGit.ForStd.Quorum
import LearnGit.Spec.RaftClusterSteps

/-!
# Election safety

A candidate counts votes in a bare counter. What the counter stands for is kept
by `ElectionInv`: a set of nodes that voted for the candidate and whose ballots
are used up. A ballot is the one packet, a request or a granted reply, that a
candidate and a voter have in flight between them in a term.

## Key results

- `RoleOrder`: what a node never takes back
- `electionInv`: the invariant behind the vote counter
- `leader_unique`: two leaders of the same term are the same node
-/

namespace Dkv

open Transition

variable {M : Membership} {h : List (Cluster × Event)} {c c' : Cluster} {e : Event}

/-! ## Identity -/

/-- Every node keeps the id and the peers it was constructed with. -/
theorem run_ident (hrun : Run (raftSystem M) h c) {i : Nat} (hi : i ∈ M.ids) :
    (c.nodes i).nodeId = i ∧ (c.nodes i).peerIds = M.peerIds i := by
  refine run_node hrun hi (P := fun n => n.nodeId = i ∧ n.peerIds = M.peerIds i)
    (fun _ => ⟨rfl, rfl⟩) fun _ _ _ _ _ _ _ _ _ hact ⟨hid, hpeers⟩ => ?_
  exact ⟨hact.reacts.nodeId_eq.trans hid, hact.reacts.peerIds_eq.trans hpeers⟩

theorem Membership.ne_zero {i : Nat} (hi : i ∈ M.ids) : i ≠ 0 :=
  fun h0 => M.zero_notMem (h0 ▸ hi)

theorem Membership.length_peerIds {i : Nat} (hi : i ∈ M.ids) :
    (M.peerIds i).length + 1 = M.ids.card := by
  have herase : (M.peerIds i).toFinset = M.ids.erase i := by
    ext j
    rw [List.mem_toFinset, M.mem_peerIds i hi, Finset.mem_erase, and_comm]
  rw [← List.toFinset_card_of_nodup (M.nodup_peerIds i hi), herase, Finset.card_erase_add_one hi]

/-! ## What a node never takes back -/

/-- Terms grow; within a term a vote stays cast and a leader stays leader. -/
structure RoleOrder (n n' : RaftNode) : Prop where
  term_le : n.currentTerm ≤ n'.currentTerm
  vote : n.currentTerm = n'.currentTerm → n.votedFor ≠ 0 → n'.votedFor = n.votedFor
  leader : n.currentTerm = n'.currentTerm → n.state = .leader → n'.state = .leader

theorem RoleOrder.refl (n : RaftNode) : RoleOrder n n :=
  ⟨Nat.le_refl _, fun _ _ => rfl, fun _ hl => hl⟩

theorem RoleOrder.trans {n₁ n₂ n₃ : RaftNode} (h₁ : RoleOrder n₁ n₂) (h₂ : RoleOrder n₂ n₃) :
    RoleOrder n₁ n₃ := by
  have hle₁ := h₁.term_le
  have hle₂ := h₂.term_le
  refine ⟨hle₁.trans hle₂, fun heq hvote => ?_, fun heq hleader => ?_⟩
  · have hvote₂ := h₁.vote (by omega) hvote
    rw [← hvote₂]
    exact h₂.vote (by omega) (hvote₂ ▸ hvote)
  · exact h₂.leader (by omega) (h₁.leader (by omega) hleader)

theorem RaftNode.Reacts.roleOrder {n n' : RaftNode} {env : Env} {input : Input}
    {reply : Option RaftMessage} (hreact : n.Reacts env input n' reply) : RoleOrder n n' := by
  refine ⟨hreact.term_le, fun heq hvote => ?_, fun heq hleader => ?_⟩
  · -- a vote, once cast, stays while the term does
    cases hreact.roleStep with
    | same _ hsame => exact hsame
    | stepDown hterm => omega
    | campaign _ hterm => omega
    | grant src req hterm _ hfree hvote' =>
      rcases hfree (heq.trans hterm) with hzero | hcand
      · exact absurd hzero hvote
      · rw [hvote', hcand]
    | count _ _ _ _ _ hsame => exact hsame
  · -- so does leadership: a node gives it up only by raising its term
    cases hreact.roleStep with
    | same _ _ hsame => rw [hsame, hleader]
    | stepDown hterm => omega
    | campaign hstate => exact absurd hleader hstate
    | grant src req hterm hle hfree hvote' hstate =>
      rcases hstate with ⟨-, hsame⟩ | ⟨hlt, -⟩
      · rw [hsame, hleader]
      · omega
    | count _ _ _ hcand => exact absurd (hleader.symm.trans hcand) (by decide)

/-- From each visited state to the last one, every node respects the order. -/
theorem roleOrder_of_visited (hrun : Run (raftSystem M) h c) {u : Cluster}
    (hu : u ∈ visited h c) (i : Nat) : RoleOrder (u.nodes i) (c.nodes i) := by
  refine hrun.visited_le (R := fun u v => RoleOrder (u.nodes i) (v.nodes i))
    (fun _ => .refl _) (fun _ _ _ => .trans) (fun _ c e c' _ hstep => ?_) hu
  rcases step_node hstep i with hsame | ⟨env, input, reply, net, hact⟩
  · rw [hsame]
    exact .refl _
  · exact hact.reacts.roleOrder

/-- Two visited states of a node are ordered one way or the other. -/
theorem roleOrder_total (hrun : Run (raftSystem M) h c) {u v : Cluster}
    (hu : u ∈ visited h c) (hv : v ∈ visited h c) (i : Nat) :
    RoleOrder (u.nodes i) (v.nodes i) ∨ RoleOrder (v.nodes i) (u.nodes i) := by
  rcases hrun.ordered hu hv with ⟨h', hrun', hu'⟩ | ⟨h', hrun', hv'⟩
  · exact .inl (roleOrder_of_visited hrun' hu' i)
  · exact .inr (roleOrder_of_visited hrun' hv' i)

/-! ## Votes -/

/-- Node `w` voted for `cand` in term `T` in one of the states `V`. -/
def Voted (V : List Cluster) (w T cand : Nat) : Prop :=
  ∃ u ∈ V, (u.nodes w).currentTerm = T ∧ (u.nodes w).votedFor = cand

theorem Voted.mono {V V' : List Cluster} {w T cand : Nat} (hsub : V ⊆ V')
    (hvoted : Voted V w T cand) : Voted V' w T cand :=
  let ⟨u, hu, hvote⟩ := hvoted
  ⟨u, hsub hu, hvote⟩

/-- A node votes for one candidate a term. -/
theorem Voted.unique (hrun : Run (raftSystem M) h c) {w T a b : Nat}
    (ha : Voted (visited h c) w T a) (hb : Voted (visited h c) w T b)
    (ha0 : a ≠ 0) (hb0 : b ≠ 0) : a = b := by
  obtain ⟨u, hu, hut, rfl⟩ := ha
  obtain ⟨v, hv, hvt, rfl⟩ := hb
  rcases roleOrder_total hrun hu hv w with hord | hord
  · exact (hord.vote (hut.trans hvt.symm) ha0).symm
  · exact hord.vote (hvt.trans hut.symm) hb0

/-! ## Ballots -/

/-- The packet is the ballot of term `T` between candidate `cand` and voter `w`. -/
def Packet.ballot (cand w T : Nat) (p : Packet) : Bool :=
  match p.msg with
  | .requestVote req => p.src == cand && p.dst == w && req.term == T
  | .requestVoteResp resp => p.src == w && p.dst == cand && resp.term == T && resp.voteGranted
  | _ => false

/-- The ballots in flight. -/
def ballots (net : List Packet) (cand w T : Nat) : Nat := net.countP (Packet.ballot cand w T)

theorem ballots_append (net net' : List Packet) (cand w T : Nat) :
    ballots (net ++ net') cand w T = ballots net cand w T + ballots net' cand w T :=
  List.countP_append

theorem ballots_erase_le (net : List Packet) (p : Packet) (cand w T : Nat) :
    ballots (net.erase p) cand w T ≤ ballots net cand w T :=
  (List.erase_sublist).countP_le

theorem ballots_erase (net : List Packet) {p : Packet} (hp : p ∈ net) {cand w T : Nat}
    (hballot : p.ballot cand w T = true) :
    ballots (net.erase p) cand w T + 1 = ballots net cand w T := by
  have hpos : 0 < net.countP (Packet.ballot cand w T) := List.countP_pos_iff.mpr ⟨p, hp, hballot⟩
  rw [ballots, ballots, List.countP_erase, if_pos ⟨hp, hballot⟩]
  omega

/-- The granted reply is the same ballot as the request. -/
private theorem ballot_reply (src dst cand w T : Nat) (req : RequestVoteRequest) :
    Packet.ballot cand w T ⟨dst, src, .requestVoteResp ⟨req.term, true⟩⟩ =
      Packet.ballot cand w T ⟨src, dst, .requestVote req⟩ := by
  simp only [Packet.ballot, Bool.and_true, Bool.and_comm (dst == w)]

section Ballots

variable {i : Nat} {env : Env} {input : Input} {reply : Option RaftMessage} {net : List Packet}

/-- Only a candidate that enters a term sends ballots, one to each peer. -/
private theorem ballots_sent {n n' : RaftNode} (hreact : n.Reacts env input n' reply)
    (hnodup : n'.peerIds.Nodup) (cand w T : Nat) :
    ballots (RaftNode.sent i n n') cand w T = 0 ∨
      (ballots (RaftNode.sent i n n') cand w T ≤ 1 ∧ cand = i ∧ w ∈ n'.peerIds ∧
        T = n'.currentTerm ∧ n'.currentTerm = n.currentTerm + 1 ∧ input = .tick) := by
  -- what a reaction sends is nothing, one round of vote requests or one of appends
  obtain ⟨sends, hsends, hsent⟩ := hreact.sent_eq i
  rw [hsent]
  cases hsends with
  | none => exact .inl rfl
  | vote hstate hcand hterm =>
    rw [ballots, RaftNode.voteCalls, List.filterMap_map]
    by_cases hmine : cand = i ∧ w ∈ n'.peerIds ∧ T = n'.currentTerm
    · -- the peer list has no duplicates, so each peer gets one request
      obtain ⟨rfl, hw, rfl⟩ := hmine
      refine .inr ⟨?_, rfl, hw, rfl, hterm, rfl⟩
      rw [List.countP_filterMap]
      refine le_trans ?_ (List.nodup_iff_count_le_one.mp hnodup w)
      refine List.countP_mono_left fun pid _ hp => ?_
      simp only [Function.comp_apply, Call.packet, Option.map_some, Option.getD_some,
        Packet.ballot, Bool.and_eq_true, beq_iff_eq] at hp
      simpa using hp.1.2
    · left
      rw [List.countP_eq_zero]
      intro p hp hballot
      obtain ⟨pid, hmem, hpid⟩ := List.mem_filterMap.mp hp
      obtain rfl := Option.some.inj hpid
      simp only [Packet.ballot, Bool.and_eq_true, beq_iff_eq] at hballot
      obtain ⟨⟨hcand, rfl⟩, hT⟩ := hballot
      exact hmine ⟨hcand.symm, hmem, hT.symm⟩
  | append m heartbeatOnly =>
    -- an append request is no ballot
    left
    rw [ballots, RaftNode.appendCalls, List.filterMap_map, List.countP_eq_zero]
    intro p hp hballot
    obtain ⟨pid, -, hpid⟩ := List.mem_filterMap.mp hp
    obtain rfl := Option.some.inj hpid
    simp [Packet.ballot] at hballot

private theorem ballots_replies_eq_zero (hreply : reply.any RaftNode.isBallot = false)
    (cand w T : Nat) : ballots (RaftNode.replies i input reply) cand w T = 0 := by
  unfold RaftNode.replies
  split
  · next src _ msg =>
    rw [ballots, List.countP_singleton, if_neg]
    intro hballot
    simp only [Option.any_some] at hreply
    cases msg with
    | requestVote => exact nomatch hreply
    | requestVoteResp resp =>
      simp only [RaftNode.isBallot] at hreply
      simp [Packet.ballot, hreply] at hballot
    | _ => exact nomatch hballot
  · rfl

/-- A vote travels as the request or as the reply, never as both: what is left in
    flight together with the replies holds no new ballot. -/
private theorem Acted.ballots_rest (hact : Acted M c c' e i env input reply net)
    (cand w T : Nat) :
    ballots net cand w T + ballots (RaftNode.replies i input reply) cand w T ≤
      ballots c.net cand w T := by
  have hrole := hact.reacts.roleStep
  -- only an arriving packet leaves the network and is answered
  cases hact.arrives with
  | tick | propose => exact Nat.le_refl _
  | deliver p env hp =>
    have hle := ballots_erase_le c.net p cand w T
    obtain ⟨src, dst, msg⟩ := p
    cases hrole with
    | same _ _ _ _ hreply =>
      rw [ballots_replies_eq_zero hreply]
      exact hle
    | stepDown _ _ _ hreply =>
      rw [ballots_replies_eq_zero hreply]
      exact hle
    | grant _ req =>
      -- the granted reply takes the place of the request it answers
      have hreply : ballots (RaftNode.replies dst (.message src (.requestVote req))
          (some (.requestVoteResp ⟨req.term, true⟩))) cand w T =
          if Packet.ballot cand w T ⟨src, dst, .requestVote req⟩ then 1 else 0 := by
        rw [ballots, RaftNode.replies, List.countP_singleton, ballot_reply]
      rw [hreply]
      split
      · next hballot => exact (ballots_erase c.net hp hballot).le
      · exact hle
    | count => exact hle

/-- No step adds a ballot, except that a new candidate sends the ballots of its term. -/
theorem Acted.ballots_le (hact : Acted M c c' e i env input reply net)
    (hnodup : (c'.nodes i).peerIds.Nodup) (cand w T : Nat) :
    ballots c'.net cand w T ≤ ballots c.net cand w T ∨
      (ballots c'.net cand w T ≤ ballots c.net cand w T + 1 ∧ cand = i ∧
        w ∈ (c'.nodes i).peerIds ∧ T = (c'.nodes i).currentTerm ∧
        (c'.nodes i).currentTerm = (c.nodes i).currentTerm + 1) := by
  have hrest := hact.ballots_rest cand w T
  rw [hact.net_eq, ballots_append, ballots_append]
  rcases ballots_sent (i := i) hact.reacts hnodup cand w T with
    h0 | ⟨h1, hcand, hw, hT, hterm, -⟩
  · exact .inl (by omega)
  · exact .inr ⟨by omega, hcand, hw, hT, hterm⟩

/-- A counted vote uses its ballot up. -/
theorem Acted.ballots_counted {src : Nat} {resp : RequestVoteResponse}
    (hact : Acted M c c' e i env (.message src (.requestVoteResp resp)) none net)
    (hnodup : (c'.nodes i).peerIds.Nodup) (hgranted : resp.voteGranted = true) :
    ballots c'.net i src resp.term + 1 ≤ ballots c.net i src resp.term := by
  have hsent : ballots (RaftNode.sent i (c.nodes i) (c'.nodes i)) i src resp.term = 0 := by
    rcases ballots_sent (i := i) hact.reacts hnodup i src resp.term with h0 | ⟨-, -, -, -, -, htick⟩
    · exact h0
    · exact nomatch htick
  have hnet : ballots net i src resp.term + 1 = ballots c.net i src resp.term := by
    obtain ⟨hp, rfl, -⟩ := hact.of_message
    exact ballots_erase c.net hp (by simp [Packet.ballot, hgranted])
  rw [hact.net_eq, ballots_append, ballots_append, hsent]
  show _ + 0 + 0 + 1 ≤ _
  omega

end Ballots

/-! ## The invariant -/

/-- The invariant of elections; `V` are the states visited so far. -/
structure ElectionInv (M : Membership) (V : List Cluster) (c : Cluster) : Prop where
  /-- A candidate or leader voted for itself. -/
  self_vote : ∀ i ∈ M.ids, (c.nodes i).state ≠ .follower → (c.nodes i).votedFor = i
  term_pos : ∀ i ∈ M.ids, (c.nodes i).state ≠ .follower → 0 < (c.nodes i).currentTerm
  requests : ∀ p ∈ c.net, ∀ req, p.msg = .requestVote req → req.candidateId = p.src
  /-- A granted reply reports a vote that was cast. -/
  granted : ∀ p ∈ c.net, ∀ resp, p.msg = .requestVoteResp resp → resp.voteGranted = true →
    p.src ∈ M.ids ∧ Voted V p.src resp.term p.dst
  ballots_le_one : ∀ cand w T, ballots c.net cand w T ≤ 1
  ballots_future : ∀ cand w T, (c.nodes cand).currentTerm < T → ballots c.net cand w T = 0
  /-- The counted votes come from different voters, whose ballots are used up. -/
  counted : ∀ i ∈ M.ids, (c.nodes i).state ≠ .follower → ∃ W ⊆ M.ids,
    (∀ w ∈ W, Voted V w (c.nodes i).currentTerm i ∧
      ballots c.net i w (c.nodes i).currentTerm = 0) ∧
    (c.nodes i).votesReceived ≤ W.card
  majority : ∀ i ∈ M.ids, (c.nodes i).state = .leader →
    M.ids.card / 2 + 1 ≤ (c.nodes i).votesReceived

theorem electionInv_init (hinit : (raftSystem M).init c) : ElectionInv M [c] c := by
  obtain ⟨hnodes, hnet⟩ := hinit
  have hfollower : ∀ i ∈ M.ids, (c.nodes i).state = .follower := by
    intro i hi
    obtain ⟨env, hnew⟩ := hnodes i hi
    rw [hnew]
    rfl
  constructor
  · exact fun i hi hne => absurd (hfollower i hi) hne
  · exact fun i hi hne => absurd (hfollower i hi) hne
  · simp [hnet]
  · simp [hnet]
  · simp [hnet, ballots]
  · simp [hnet, ballots]
  · exact fun i hi hne => absurd (hfollower i hi) hne
  · exact fun i hi hl => absurd (hl.symm.trans (hfollower i hi)) (by decide)

/-- Losing a packet keeps the invariant. -/
private theorem ElectionInv.lose {V : List Cluster} (inv : ElectionInv M V c) {p : Packet}
    (hnodes : c'.nodes = c.nodes) (hnet : c'.net = c.net.erase p) :
    ElectionInv M (c' :: V) c' := by
  -- the nodes are as before, and there are no more packets than before
  have hsub : ∀ q ∈ c'.net, q ∈ c.net := by
    rw [hnet]
    exact fun q hq => List.mem_of_mem_erase hq
  have hballots : ∀ cand w T, ballots c'.net cand w T ≤ ballots c.net cand w T := by
    rw [hnet]
    exact ballots_erase_le c.net p
  constructor
  · rw [hnodes]
    exact inv.self_vote
  · rw [hnodes]
    exact inv.term_pos
  · exact fun q hq => inv.requests q (hsub q hq)
  · intro q hq resp hmsg hgranted
    obtain ⟨hsrc, hvoted⟩ := inv.granted q (hsub q hq) resp hmsg hgranted
    exact ⟨hsrc, hvoted.mono (List.subset_cons_self _ _)⟩
  · exact fun cand w T => (hballots cand w T).trans (inv.ballots_le_one cand w T)
  · intro cand w T hT
    rw [hnodes] at hT
    exact Nat.le_zero.mp (inv.ballots_future cand w T hT ▸ hballots cand w T)
  · rw [hnodes]
    intro i hi hne
    obtain ⟨W, hW, hvotes, hcard⟩ := inv.counted i hi hne
    refine ⟨W, hW, fun w hw => ⟨(hvotes w hw).1.mono (List.subset_cons_self _ _), ?_⟩, hcard⟩
    exact Nat.le_zero.mp ((hvotes w hw).2 ▸ hballots i w _)
  · rw [hnodes]
    exact inv.majority

section Step

variable {V : List Cluster} {i : Nat} {env : Env} {input : Input} {reply : Option RaftMessage}
  {net : List Packet}

private theorem ElectionInv.step_self_vote (inv : ElectionInv M V c)
    (hact : Acted M c c' e i env input reply net) (hid : (c.nodes i).nodeId = i) :
    (c'.nodes i).state ≠ .follower → (c'.nodes i).votedFor = i := by
  intro hne
  cases hact.reacts.roleStep with
  | same _ hvote hstate =>
    rw [hvote]
    exact inv.self_vote i hact.mem (hstate ▸ hne)
  | stepDown _ _ hstate => exact absurd hstate hne
  | campaign _ _ hvote => rw [hvote, hid]
  | grant src req hterm _ hfree hvote hstate =>
    -- in its own term a node grants only what it may still grant: its own candidacy
    rcases hstate with ⟨heq, hsame⟩ | ⟨-, hfollower⟩
    · have hself := inv.self_vote i hact.mem (hsame ▸ hne)
      rcases hfree heq with hzero | hcand
      · exact absurd (hself.symm.trans hzero) (Membership.ne_zero hact.mem)
      · rw [hvote, ← hcand, hself]
    · exact absurd hfollower hne
  | count _ _ _ hcand _ hvote =>
    rw [hvote]
    exact inv.self_vote i hact.mem (by rw [hcand]; decide)

private theorem ElectionInv.step_term_pos (inv : ElectionInv M V c)
    (hact : Acted M c c' e i env input reply net) :
    (c'.nodes i).state ≠ .follower → 0 < (c'.nodes i).currentTerm := by
  intro hne
  cases hact.reacts.roleStep with
  | same hterm _ hstate =>
    rw [hterm]
    exact inv.term_pos i hact.mem (hstate ▸ hne)
  | stepDown _ _ hstate => exact absurd hstate hne
  | campaign _ hterm => omega
  | grant src req hterm _ _ _ hstate =>
    rcases hstate with ⟨heq, hsame⟩ | ⟨-, hfollower⟩
    · rw [hterm, ← heq]
      exact inv.term_pos i hact.mem (hsame ▸ hne)
    · exact absurd hfollower hne
  | count _ _ _ hcand hterm =>
    rw [hterm]
    exact inv.term_pos i hact.mem (by rw [hcand]; decide)

private theorem ElectionInv.step_requests (inv : ElectionInv M V c)
    (hact : Acted M c c' e i env input reply net) (hid : (c'.nodes i).nodeId = i) {p : Packet}
    (hp : p ∈ c'.net) {req : RequestVoteRequest} (hmsg : p.msg = .requestVote req) :
    req.candidateId = p.src := by
  rcases hact.mem_net hp with hold | hemit
  · exact inv.requests p hold req hmsg
  -- a request is new only when the node campaigns; no reply is a vote request
  cases hemit with
  | vote =>
    obtain rfl := RaftMessage.requestVote.inj hmsg
    exact hid
  | append => exact nomatch hmsg
  | reply src msg answer =>
    dsimp only at hmsg
    subst hmsg
    exact hact.reacts.roleStep.reply_ne_requestVote.elim

private theorem ElectionInv.step_granted (inv : ElectionInv M V c)
    (hact : Acted M c c' e i env input reply net) {p : Packet} (hp : p ∈ c'.net)
    {resp : RequestVoteResponse} (hmsg : p.msg = .requestVoteResp resp)
    (hgranted : resp.voteGranted = true) :
    p.src ∈ M.ids ∧ Voted (c' :: V) p.src resp.term p.dst := by
  rcases hact.mem_net hp with hold | hemit
  · obtain ⟨hsrc, hvoted⟩ := inv.granted p hold resp hmsg hgranted
    exact ⟨hsrc, hvoted.mono (List.subset_cons_self _ _)⟩
  cases hemit with
  | vote => exact nomatch hmsg
  | append => exact nomatch hmsg
  | reply src msg answer =>
    dsimp only at hmsg
    subst hmsg
    -- a new granted reply reports the vote of the state just reached
    refine ⟨hact.mem, c', List.mem_cons_self, ?_⟩
    cases hact.reacts.roleStep with
    | same _ _ _ _ hreply => exact absurd (hgranted.symm.trans hreply) (by decide)
    | stepDown _ _ _ hreply => exact absurd (hgranted.symm.trans hreply) (by decide)
    | grant _ req hterm _ _ hvote =>
      have hcand := inv.requests _ hact.of_message.1 req rfl
      exact ⟨hterm, hvote.trans hcand⟩

private theorem ElectionInv.step_counted (inv : ElectionInv M V c)
    (hact : Acted M c c' e i env input reply net) (hid : (c.nodes i).nodeId = i)
    (hnodup : (c'.nodes i).peerIds.Nodup) (hnotMem : i ∉ (c'.nodes i).peerIds)
    (hne : (c'.nodes i).state ≠ .follower) :
    ∃ W ⊆ M.ids, (∀ w ∈ W, Voted (c' :: V) w (c'.nodes i).currentTerm i ∧
        ballots c'.net i w (c'.nodes i).currentTerm = 0) ∧
      (c'.nodes i).votesReceived ≤ W.card := by
  -- while the term stays, the voters counted so far stay counted
  have hkeep : (c'.nodes i).currentTerm = (c.nodes i).currentTerm →
      ∀ w, Voted V w (c.nodes i).currentTerm i ∧ ballots c.net i w (c.nodes i).currentTerm = 0 →
        Voted (c' :: V) w (c'.nodes i).currentTerm i ∧
          ballots c'.net i w (c'.nodes i).currentTerm = 0 := by
    intro hterm w ⟨hvoted, hused⟩
    rw [hterm]
    refine ⟨hvoted.mono (List.subset_cons_self _ _), ?_⟩
    rcases hact.ballots_le hnodup i w (c.nodes i).currentTerm with hle | ⟨-, -, -, -, hnew⟩
    · exact Nat.le_zero.mp (hused ▸ hle)
    · omega
  cases hact.reacts.roleStep with
  | same hterm _ hstate hvotes =>
    obtain ⟨W, hW, hcounted, hcard⟩ := inv.counted i hact.mem (hstate ▸ hne)
    exact ⟨W, hW, fun w hw => hkeep hterm w (hcounted w hw), hvotes.trans_le hcard⟩
  | stepDown _ _ hstate => exact absurd hstate hne
  | campaign _ hterm hvote _ hvotes =>
    -- a new candidate counts itself; no ballot of its new term exists yet
    refine ⟨{i}, Finset.singleton_subset_iff.mpr hact.mem, fun w hw => ?_, by
      rw [hvotes, Finset.card_singleton]⟩
    obtain rfl := Finset.mem_singleton.mp hw
    refine ⟨⟨c', List.mem_cons_self, rfl, hvote.trans hid⟩, ?_⟩
    have hnone := inv.ballots_future w w (c'.nodes w).currentTerm (by omega)
    rcases hact.ballots_le hnodup w w (c'.nodes w).currentTerm with hle | ⟨-, -, hself, -⟩
    · omega
    · exact absurd hself hnotMem
  | grant src req hterm _ _ _ hstate hvotes =>
    rcases hstate with ⟨heq, hsame⟩ | ⟨-, hfollower⟩
    · obtain ⟨W, hW, hcounted, hcard⟩ := inv.counted i hact.mem (hsame ▸ hne)
      exact ⟨W, hW, fun w hw => hkeep (hterm.trans heq.symm) w (hcounted w hw),
        hvotes.trans_le hcard⟩
    · exact absurd hfollower hne
  | count src resp hresp hcand hterm _ hvotes =>
    obtain ⟨W, hW, hcounted, hcard⟩ := inv.counted i hact.mem (by rw [hcand]; decide)
    rw [hvotes]
    split
    · next hgranted =>
      -- the new voter still had its ballot in flight, so it was not counted before
      obtain ⟨hsrc, hvoted⟩ := inv.granted _ hact.of_message.1 resp rfl hgranted
      have hused := hact.ballots_counted hnodup hgranted
      have hone := inv.ballots_le_one i src resp.term
      rw [hresp] at hused hone hvoted
      have hnew : src ∉ W := fun hin => by
        have := (hcounted src hin).2
        omega
      refine ⟨insert src W, Finset.insert_subset hsrc hW, fun w hw => ?_, ?_⟩
      · rcases Finset.mem_insert.mp hw with rfl | hw
        · rw [hterm]
          exact ⟨hvoted.mono (List.subset_cons_self _ _), by omega⟩
        · exact hkeep hterm w (hcounted w hw)
      · rw [Finset.card_insert_of_notMem hnew]
        omega
    · exact ⟨W, hW, fun w hw => hkeep hterm w (hcounted w hw), hcard⟩

private theorem ElectionInv.step_majority (inv : ElectionInv M V c)
    (hact : Acted M c c' e i env input reply net)
    (hcard : (c.nodes i).peerIds.length + 1 = M.ids.card) :
    (c'.nodes i).state = .leader → M.ids.card / 2 + 1 ≤ (c'.nodes i).votesReceived := by
  intro hleader
  cases hact.reacts.roleStep with
  | same _ _ hstate hvotes =>
    rw [hvotes]
    exact inv.majority i hact.mem (hstate ▸ hleader)
  | stepDown _ _ hstate => exact absurd (hstate.symm.trans hleader) (by decide)
  | campaign _ _ _ hcand => exact absurd (hcand.symm.trans hleader) (by decide)
  | grant _ _ _ _ _ _ hstate hvotes =>
    rcases hstate with ⟨-, hsame⟩ | ⟨-, hfollower⟩
    · rw [hvotes]
      exact inv.majority i hact.mem (hsame ▸ hleader)
    · exact absurd (hfollower.symm.trans hleader) (by decide)
  | count _ _ _ _ _ _ _ _ hstate =>
    -- the only way to become leader is to have counted a majority
    rcases hstate with hcand | ⟨-, hmaj⟩
    · exact absurd (hcand.symm.trans hleader) (by decide)
    · rwa [RaftNode.majority, hcard] at hmaj

private theorem ElectionInv.step_ballots_le_one (inv : ElectionInv M V c)
    (hact : Acted M c c' e i env input reply net) (hnodup : (c'.nodes i).peerIds.Nodup)
    (cand w T : Nat) : ballots c'.net cand w T ≤ 1 := by
  have hone := inv.ballots_le_one cand w T
  rcases hact.ballots_le hnodup cand w T with hle | ⟨hle, rfl, -, rfl, hnew⟩
  · omega
  · have := inv.ballots_future cand w (c'.nodes cand).currentTerm (by omega)
    omega

private theorem ElectionInv.step_ballots_future (inv : ElectionInv M V c)
    (hact : Acted M c c' e i env input reply net) (hnodup : (c'.nodes i).peerIds.Nodup)
    {cand : Nat} (w : Nat) {T : Nat} (hT : (c'.nodes cand).currentTerm < T) :
    ballots c'.net cand w T = 0 := by
  have hterm : (c.nodes cand).currentTerm ≤ (c'.nodes cand).currentTerm := by
    by_cases hci : cand = i
    · exact hci ▸ hact.reacts.term_le
    · rw [hact.others cand hci]
  have hnone := inv.ballots_future cand w T (by omega)
  rcases hact.ballots_le hnodup cand w T with hle | ⟨-, rfl, -, rfl, -⟩
  · omega
  · -- a new candidate's ballots are of its own term, which is below `T`
    omega

/-- The votes counted by the nodes that did not act. -/
private theorem ElectionInv.step_counted_others (inv : ElectionInv M V c)
    (hact : Acted M c c' e i env input reply net) (hnodup : (c'.nodes i).peerIds.Nodup)
    {j : Nat} (hj : j ∈ M.ids) (hji : j ≠ i) (hne : (c.nodes j).state ≠ .follower) :
    ∃ W ⊆ M.ids, (∀ w ∈ W, Voted (c' :: V) w (c.nodes j).currentTerm j ∧
      ballots c'.net j w (c.nodes j).currentTerm = 0) ∧ (c.nodes j).votesReceived ≤ W.card := by
  obtain ⟨W, hW, hcounted, hvotes⟩ := inv.counted j hj hne
  refine ⟨W, hW, fun w hw => ⟨(hcounted w hw).1.mono (List.subset_cons_self _ _), ?_⟩, hvotes⟩
  have hused := (hcounted w hw).2
  rcases hact.ballots_le hnodup j w (c.nodes j).currentTerm with hle | ⟨-, hself, -⟩
  · omega
  · exact absurd hself hji

/-- The reaction of a node keeps the invariant. -/
private theorem ElectionInv.act (inv : ElectionInv M V c)
    (hact : Acted M c c' e i env input reply net)
    (hident : (c.nodes i).nodeId = i ∧ (c.nodes i).peerIds = M.peerIds i) :
    ElectionInv M (c' :: V) c' := by
  have hid' : (c'.nodes i).nodeId = i := hact.reacts.nodeId_eq.trans hident.1
  have hpeers' : (c'.nodes i).peerIds = M.peerIds i := hact.reacts.peerIds_eq.trans hident.2
  have hnodup : (c'.nodes i).peerIds.Nodup := hpeers' ▸ M.nodup_peerIds i hact.mem
  have hnotMem : i ∉ (c'.nodes i).peerIds := by
    rw [hpeers', M.mem_peerIds i hact.mem]
    exact fun hmem => hmem.2 rfl
  have hcard : (c.nodes i).peerIds.length + 1 = M.ids.card := by
    rw [hident.2, Membership.length_peerIds hact.mem]
  constructor
  · -- the step lemmas speak of node `i`; every other node is unchanged
    intro j hj
    by_cases hji : j = i
    · exact hji ▸ inv.step_self_vote hact hident.1
    · rw [hact.others j hji]
      exact inv.self_vote j hj
  · intro j hj
    by_cases hji : j = i
    · exact hji ▸ inv.step_term_pos hact
    · rw [hact.others j hji]
      exact inv.term_pos j hj
  · exact fun p hp req => inv.step_requests hact hid' hp
  · exact fun p hp resp => inv.step_granted hact hp
  · exact inv.step_ballots_le_one hact hnodup
  · exact fun cand w T hT => inv.step_ballots_future hact hnodup w hT
  · intro j hj hne
    by_cases hji : j = i
    · subst hji
      exact inv.step_counted hact hident.1 hnodup hnotMem hne
    · rw [hact.others j hji] at hne ⊢
      exact inv.step_counted_others hact hnodup hj hji hne
  · intro j hj
    by_cases hji : j = i
    · exact hji ▸ inv.step_majority hact hcard
    · rw [hact.others j hji]
      exact inv.majority j hj

end Step

theorem electionInv (hrun : Run (raftSystem M) h c) : ElectionInv M (visited h c) c := by
  refine hrun.rec_on_run (P := fun h c => ElectionInv M (visited h c) c)
    (fun c => electionInv_init) fun h c e c' hrun inv hstep => ?_
  rcases step_cases hstep with ⟨p, hnodes, hnet⟩ | ⟨i, env, input, reply, net, hact⟩
  · exact inv.lose hnodes hnet
  · exact inv.act hact (run_ident hrun hact.mem)

/-! ## Election safety -/

/-- A leader was voted for by a majority in its term. -/
theorem leader_voted (hrun : Run (raftSystem M) h c) {u : Cluster} (hu : u ∈ visited h c)
    {a : Nat} (ha : a ∈ M.ids) (hleader : (u.nodes a).state = .leader) :
    ∃ W, Quorum.Majority M.ids W ∧
      ∀ w ∈ W, Voted (visited h c) w (u.nodes a).currentTerm a := by
  obtain ⟨h', hrun', hsuf⟩ := hrun.of_visited hu
  have inv := electionInv hrun'
  obtain ⟨W, hW, hcounted, hvotes⟩ := inv.counted a ha (by rw [hleader]; decide)
  have hmaj := inv.majority a ha hleader
  refine ⟨W, ⟨hW, by omega⟩, fun w hw => (hcounted w hw).1.mono (visited_subset hsuf hu)⟩

/-- In all states of a run together, the leaders of one term are one node. -/
theorem leader_unique (hrun : Run (raftSystem M) h c) {u v : Cluster} (hu : u ∈ visited h c)
    (hv : v ∈ visited h c) {a b : Nat} (ha : a ∈ M.ids) (hb : b ∈ M.ids)
    (hla : (u.nodes a).state = .leader) (hlb : (v.nodes b).state = .leader)
    (hterm : (u.nodes a).currentTerm = (v.nodes b).currentTerm) : a = b := by
  obtain ⟨Q, hQ, hvotesA⟩ := leader_voted hrun hu ha hla
  obtain ⟨W, hW, hvotesB⟩ := leader_voted hrun hv hb hlb
  obtain ⟨w, hwQ, hwW⟩ := hQ.exists_common hW
  have hforB := hvotesB w hwW
  rw [← hterm] at hforB
  exact (hvotesA w hwQ).unique hrun hforB (Membership.ne_zero ha) (Membership.ne_zero hb)

/-- Election safety: no two nodes are leader of the same term in any two states of
    a run. -/
theorem election_safety (hrun : Run (raftSystem M) h c) :
    ∀ u ∈ visited h c, ∀ v ∈ visited h c, ∀ a ∈ M.ids, ∀ b ∈ M.ids, a ≠ b →
      ¬ ((u.nodes a).state = .leader ∧ (v.nodes b).state = .leader ∧
        (u.nodes a).currentTerm = (v.nodes b).currentTerm) :=
  fun _ hu _ hv _ ha _ hb hne ⟨hla, hlb, hterm⟩ =>
    hne (leader_unique hrun hu hv ha hb hla hlb hterm)

/-- Node 1 of three is elected with the vote of node 2; node 2 times out later and
    wins the next term. -/
def twoElections : List Event :=
  [.tick 1 (atTime 200),
    .deliver ⟨1, 2, .requestVote ⟨1, 1, 0, 0⟩⟩ (atTime 210),
    .deliver ⟨2, 1, .requestVoteResp ⟨1, true⟩⟩ (atTime 220),
    .tick 2 (atTime 400),
    .deliver ⟨2, 3, .requestVote ⟨2, 2, 0, 0⟩⟩ (atTime 410),
    .deliver ⟨3, 2, .requestVoteResp ⟨2, true⟩⟩ (atTime 420)]

theorem twoElections_runs : (schedule 3 twoElections).isSome := by decide +kernel

theorem election_safety_twoElections :
    let r := (schedule 3 twoElections).get twoElections_runs
    (∃ u ∈ visited r.1 r.2, (u.nodes 1).state = .leader) ∧ (r.2.nodes 2).state = .leader ∧
      ∀ u ∈ visited r.1 r.2, ∀ v ∈ visited r.1 r.2, ∀ a ∈ (Membership.ofSize 3).ids,
        ∀ b ∈ (Membership.ofSize 3).ids, a ≠ b →
        ¬ ((u.nodes a).state = .leader ∧ (v.nodes b).state = .leader ∧
          (u.nodes a).currentTerm = (v.nodes b).currentTerm) :=
  ⟨by decide +kernel, by decide +kernel, election_safety (schedule_run twoElections_runs)⟩

end Dkv
