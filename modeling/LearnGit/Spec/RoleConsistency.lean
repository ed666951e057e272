import LearnGit.Spec.LogMatching

/-!
# Role and known leader

`state_` and `leaderId_` are written independently. Two of the places that write only
one of them leave a pair that means nothing: `becomeFollower` keeps the id of a leader
that steps down, and `handleAppendEntries` records the sender of a request of the
node's own term but leaves a candidate a candidate.

## Key results

- `Reacts.leaderIdStep`: what a reaction does to the role and the known leader
- `Acted.roleConsistent_iff`: which steps keep the pair consistent
- `roleConsistent_iff`: role and known leader are consistent in exactly the runs that
  avoid the two places
-/

namespace Dkv

open Transition

variable {M : Membership} {h : List (Cluster × Event)} {c c' : Cluster} {e : Event}

/-- A RequestVote message or a response to one. -/
def RaftMessage.isVote : RaftMessage → Bool
  | .requestVote _ | .requestVoteResp _ => true
  | _ => false

/-- An AppendEntries request. -/
def RaftMessage.isAppendEntries : RaftMessage → Bool
  | .appendEntries _ => true
  | _ => false

/-- The known leader fits the role of the node. -/
structure RoleConsistent (n : RaftNode) : Prop where
  leader : n.state = .leader → n.leaderId = n.nodeId
  candidate : n.state = .candidate → n.leaderId = 0
  follower : n.state = .follower → n.leaderId ≠ n.nodeId

/-! ## What a reaction does to the pair -/

namespace RaftNode

variable {n n' : RaftNode} {env : Env} {input : Input} {reply : Option RaftMessage}

/-- What a reaction does to the role and the known leader. -/
inductive LeaderIdStep (n n' : RaftNode) : Input → Prop
  | same {input : Input} (hid : n'.leaderId = n.leaderId) (hstate : n'.state = n.state) :
      LeaderIdStep n n' input
  | stepDown (src : Nat) (msg : RaftMessage) (hvote : msg.isVote = true)
      (hlt : n.currentTerm < msg.term) (hid : n'.leaderId = n.leaderId)
      (hstate : n'.state = .follower) : LeaderIdStep n n' (.message src msg)
  | campaign (hid : n'.leaderId = 0) (hstate : n'.state = .candidate) : LeaderIdStep n n' .tick
  | elected (src : Nat) (msg : RaftMessage) (hid : n'.leaderId = n.nodeId)
      (hstate : n'.state = .leader) : LeaderIdStep n n' (.message src msg)
  | told (src : Nat) (req : AppendEntriesRequest) (hle : n.currentTerm ≤ req.term)
      (hid : n'.leaderId = req.leaderId)
      (hstate : n'.state = if n.currentTerm < req.term then .follower else n.state) :
      LeaderIdStep n n' (.message src (.appendEntries req))

@[simp] theorem catchUp_leaderId (n : RaftNode) (env : Env) (term : Nat) :
    (n.catchUp env term).leaderId = n.leaderId := by
  unfold catchUp; split <;> rfl

theorem catchUp_state (n : RaftNode) (env : Env) (term : Nat) :
    (n.catchUp env term).state = if n.currentTerm < term then .follower else n.state := by
  unfold catchUp; split <;> rfl

/-- A vote request only moves the pair where it carries a higher term. -/
private theorem leaderIdStep_vote (src : Nat) (req : RequestVoteRequest)
    (hid : n'.leaderId = n.leaderId) (hstate : n'.state = (n.catchUp env req.term).state) :
    LeaderIdStep n n' (.message src (.requestVote req)) := by
  rw [catchUp_state] at hstate
  split at hstate
  · next hlt => exact .stepDown src _ rfl hlt hid hstate
  · exact .same hid hstate

theorem Reacts.leaderIdStep (hreact : n.Reacts env input n' reply) : LeaderIdStep n n' input := by
  cases hreact with
  | timeout => exact .campaign rfl rfl
  | voteRefused src req => exact leaderIdStep_vote src req (catchUp_leaderId _ _ _) rfl
  | voteGranted src req => exact leaderIdStep_vote src req (catchUp_leaderId n env req.term) rfl
  | steppedDown src resp hterm => exact .stepDown src _ rfl hterm rfl rfl
  | elected src => exact .elected src _ rfl rfl
  | appendMismatch src req hterm => exact .told src req hterm rfl (n.catchUp_state env req.term)
  | appendAccepted src req haccepts =>
    exact .told src req haccepts.1 rfl (n.catchUp_state env req.term)
  | _ => exact .same rfl rfl

/-- A vote message of a higher term turns any node into a follower that still knows the
    leader it knew before. -/
private theorem handleRaftMessage_vote (env : Env) (src : Nat) {msg : RaftMessage}
    (hvote : msg.isVote = true) (hlt : n.currentTerm < msg.term) :
    (n.handleRaftMessage env src msg).1.state = .follower ∧
      (n.handleRaftMessage env src msg).1.leaderId = n.leaderId := by
  cases msg with
  | requestVote req =>
    show (n.handleRequestVote env req).1.state = _ ∧ (n.handleRequestVote env req).1.leaderId = _
    simp only [handleRequestVote, catchUp_of_lt (show n.currentTerm < req.term from hlt)]
    split <;> exact ⟨rfl, rfl⟩
  | requestVoteResp resp =>
    show (n.processRequestVoteResponse env src resp.term resp.voteGranted).state = _ ∧
      (n.processRequestVoteResponse env src resp.term resp.voteGranted).leaderId = _
    rw [processRequestVoteResponse, if_pos (show resp.term > n.currentTerm from hlt)]
    exact ⟨rfl, rfl⟩
  | appendEntries | appendEntriesResp => exact nomatch hvote

/-- A request that is not stale is answered by a node that knows its sender, and that is
    a follower only where it was one or the term is new. -/
theorem handleAppendEntries_told (env : Env) {req : AppendEntriesRequest}
    (hle : n.currentTerm ≤ req.term) :
    (n.handleAppendEntries env req).1.leaderId = req.leaderId ∧
      (n.handleAppendEntries env req).1.state =
        if n.currentTerm < req.term then .follower else n.state := by
  have hreact := n.handleAppendEntries_reacts env 0 req
  generalize (n.handleAppendEntries env req).1 = n' at hreact ⊢
  generalize (n.handleAppendEntries env req).2 = resp at hreact
  cases hreact with
  | appendStale src req hterm => omega
  | appendMismatch src req hterm => exact ⟨rfl, n.catchUp_state env req.term⟩
  | appendAccepted src req haccepts => exact ⟨rfl, n.catchUp_state env req.term⟩

end RaftNode

/-! ## Steps that keep the pair consistent -/

/-- No leader is about to get a vote message of a higher term, and no candidate an
    AppendEntries request of its own term. -/
def Event.KeepsRole (c : Cluster) : Event → Prop
  | .deliver p _ =>
    ¬ ((c.nodes p.dst).state = .leader ∧ p.msg.isVote = true ∧
        (c.nodes p.dst).currentTerm < p.msg.term) ∧
      ¬ ((c.nodes p.dst).state = .candidate ∧ p.msg.isAppendEntries = true ∧
        p.msg.term = (c.nodes p.dst).currentTerm)
  | _ => True

instance Event.KeepsRole.decidable (c : Cluster) : (e : Event) → Decidable (e.KeepsRole c)
  | .deliver _ _ => inferInstanceAs (Decidable (¬ _ ∧ ¬ _))
  | .tick _ _ | .propose _ _ _ | .lose _ => instDecidableTrue

/-- A node that answers an AppendEntries request of its current term with success is a
    follower. -/
def Event.SuccessFromFollower (c : Cluster) : Event → Prop
  | .deliver ⟨_, dst, .appendEntries req⟩ env =>
    ((c.nodes dst).handleAppendEntries env req).2.success = true →
      ((c.nodes dst).handleAppendEntries env req).1.currentTerm = req.term →
      ((c.nodes dst).handleAppendEntries env req).1.state = .follower
  | _ => True

instance Event.SuccessFromFollower.decidable (c : Cluster) :
    (e : Event) → Decidable (e.SuccessFromFollower c)
  | .deliver ⟨_, _, .appendEntries _⟩ _ => inferInstanceAs (Decidable (_ → _ → _))
  | .deliver ⟨_, _, .requestVote _⟩ _ | .deliver ⟨_, _, .requestVoteResp _⟩ _
  | .deliver ⟨_, _, .appendEntriesResp _⟩ _ => instDecidableTrue
  | .tick _ _ | .propose _ _ _ | .lose _ => instDecidableTrue

section Step

variable {i : Nat} {env : Env} {input : Input} {reply : Option RaftMessage} {net : List Packet}

/-- A request in flight names its sender, another node of the cluster, as the leader. -/
theorem Acted.leaderId_src {src : Nat} {req : AppendEntriesRequest}
    (hrun : Run (raftSystem M) h c)
    (hact : Acted M c c' e i env (.message src (.appendEntries req)) reply net) :
    req.leaderId ∈ M.ids ∧ req.leaderId ≠ i := by
  obtain ⟨hsrc, hdst, hid, -⟩ := (sendInv hrun).requests _ hact.of_message.1 req rfl
  rw [hid]
  exact ⟨hsrc, fun heq => hdst heq.symm⟩

/-- A step that avoids the two places keeps the pair consistent. -/
private theorem Acted.roleConsistent (hrun : Run (raftSystem M) h c)
    (hact : Acted M c c' e i env input reply net) (hcons : RoleConsistent (c.nodes i))
    (hkeeps : e.KeepsRole c) : RoleConsistent (c'.nodes i) := by
  have hnode := hact.reacts.nodeId_eq
  have hnodeId := (run_ident hrun hact.mem).1
  cases hact.reacts.leaderIdStep with
  | same hid hstate =>
    refine ⟨fun hl => ?_, fun hc => ?_, fun hf => ?_⟩
    · rw [hid, hnode, hcons.leader (hstate ▸ hl)]
    · rw [hid, hcons.candidate (hstate ▸ hc)]
    · rw [hid, hnode]
      exact hcons.follower (hstate ▸ hf)
  | stepDown src msg hvote hlt hid hstate =>
    -- the node that steps down was no leader, so it does not know itself as one
    obtain ⟨-, -, rfl⟩ := hact.of_message
    have hnot : (c.nodes i).state ≠ .leader := fun hl => hkeeps.1 ⟨hl, hvote, hlt⟩
    refine ⟨fun hl => ?_, fun hc => ?_, fun _ => ?_⟩
    · rw [hstate] at hl
      exact nomatch hl
    · rw [hstate] at hc
      exact nomatch hc
    · rw [hid, hnode]
      cases hst : (c.nodes i).state with
      | follower => exact hcons.follower hst
      | candidate =>
        rw [hcons.candidate hst, hnodeId]
        exact (Membership.ne_zero hact.mem).symm
      | leader => exact absurd hst hnot
  | campaign hid hstate =>
    refine ⟨fun hl => ?_, fun _ => hid, fun hf => ?_⟩
    · rw [hstate] at hl
      exact nomatch hl
    · rw [hstate] at hf
      exact nomatch hf
  | elected src msg hid hstate =>
    refine ⟨fun _ => by rw [hid, hnode], fun hc => ?_, fun hf => ?_⟩
    · rw [hstate] at hc
      exact nomatch hc
    · rw [hstate] at hf
      exact nomatch hf
  | told src req hle hid hstate =>
    -- the node ends as a follower: it is no leader of the term and no candidate of it
    obtain ⟨-, hne⟩ := hact.leaderId_src hrun
    have hfollower : (c'.nodes i).state = .follower := by
      rw [hstate]
      split
      · rfl
      · have heq : (c.nodes i).currentTerm = req.term := by omega
        obtain ⟨-, -, rfl⟩ := hact.of_message
        cases hst : (c.nodes i).state with
        | follower => rfl
        | candidate => exact absurd ⟨hst, rfl, heq.symm⟩ hkeeps.2
        | leader => exact absurd hst (hact.not_leader hrun heq)
    refine ⟨fun hl => ?_, fun hc => ?_, fun _ => ?_⟩
    · rw [hfollower] at hl
      exact nomatch hl
    · rw [hfollower] at hc
      exact nomatch hc
    · rw [hid, hnode, hnodeId]
      exact hne

end Step

/-- A step that hits one of the two places breaks the pair. -/
private theorem keepsRole_of_roleConsistent (hrun : Run (raftSystem M) h c)
    (hstep : (raftSystem M).step c e = some c')
    (hcons : ∀ i ∈ M.ids, RoleConsistent (c.nodes i))
    (hcons' : ∀ i ∈ M.ids, RoleConsistent (c'.nodes i)) : e.KeepsRole c := by
  cases e with
  | tick | propose | lose => exact trivial
  | deliver p env =>
    obtain ⟨hnode, hact⟩ := step_deliver hstep
    have hids := hact.mem
    constructor
    · -- the deposed leader still names itself
      rintro ⟨hleader, hvote, hlt⟩
      obtain ⟨hstate, hid⟩ := RaftNode.handleRaftMessage_vote env p.src hvote hlt
      rw [← hnode] at hstate hid
      apply (hcons' _ hids).follower hstate
      rw [hid, (hcons _ hids).leader hleader, hact.reacts.nodeId_eq]
    · rintro ⟨hcand, happend, hterm⟩
      obtain ⟨src, dst, msg⟩ := p
      cases msg with
      | requestVote | requestVoteResp | appendEntriesResp => exact nomatch happend
      | appendEntries req =>
        have hterm : req.term = (c.nodes dst).currentTerm := hterm
        -- the candidate names the sender and stays a candidate
        obtain ⟨hid, hstate⟩ :=
          (c.nodes dst).handleAppendEntries_told env hterm.ge
        rw [if_neg (by omega)] at hstate
        have hnode : c'.nodes dst = ((c.nodes dst).handleAppendEntries env req).1 := hnode
        rw [← hnode] at hid hstate
        have hzero := (hcons' _ hids).candidate (hstate.trans hcand)
        exact Membership.ne_zero (hact.leaderId_src hrun).1 (hid.symm.trans hzero)

/-- The answers of a step that avoids the two places. -/
private theorem successFromFollower_of_keepsRole (hrun : Run (raftSystem M) h c)
    (hstep : (raftSystem M).step c e = some c') (hkeeps : e.KeepsRole c) :
    e.SuccessFromFollower c := by
  match e with
  | .tick _ _ | .propose _ _ _ | .lose _ => exact trivial
  | .deliver ⟨_, _, .requestVote _⟩ _ | .deliver ⟨_, _, .requestVoteResp _⟩ _
  | .deliver ⟨_, _, .appendEntriesResp _⟩ _ => exact trivial
  | .deliver ⟨src, dst, .appendEntries req⟩ env =>
    intro hsuccess _
    obtain ⟨-, hact⟩ := step_deliver hstep
    -- a stale request is refused
    have hle : (c.nodes dst).currentTerm ≤ req.term := by
      by_contra hlt
      rw [RaftNode.handleAppendEntries, if_pos (by omega)] at hsuccess
      exact nomatch hsuccess
    rw [(RaftNode.handleAppendEntries_told _ hle).2]
    split
    · rfl
    · have heq : (c.nodes dst).currentTerm = req.term := by omega
      cases hst : (c.nodes dst).state with
      | follower => rfl
      | candidate => exact absurd ⟨hst, rfl, heq.symm⟩ hkeeps.2
      -- its sender leads the term, so the receiver does not
      | leader => exact absurd hst (hact.not_leader hrun heq)

/-! ## Runs -/

/-- The known leader of a node is no one or a node of the cluster. -/
theorem leaderId_mem (hrun : Run (raftSystem M) h c) {i : Nat} (hi : i ∈ M.ids) :
    (c.nodes i).leaderId = 0 ∨ (c.nodes i).leaderId ∈ M.ids := by
  refine run_node hrun hi (P := fun n => n.leaderId = 0 ∨ n.leaderId ∈ M.ids)
    (fun _ => .inl rfl) fun _ _ _ _ _ _ _ _ hrun hact hknown => ?_
  cases hact.reacts.leaderIdStep with
  | same hid | stepDown _ _ _ _ hid =>
    rw [hid]
    exact hknown
  | campaign hid => exact .inl hid
  | elected _ _ hid =>
    rw [hid, (run_ident hrun hi).1]
    exact .inr hi
  | told src req hle hid =>
    -- an AppendEntries request names its sender
    rw [hid]
    exact .inr (hact.leaderId_src hrun).1

private theorem roleConsistent_new {i : Nat} (hi : i ∈ M.ids) (env : Env) :
    RoleConsistent (RaftNode.new i (M.peerIds i) env) :=
  ⟨fun hl => (nomatch hl), fun _ => rfl, fun _ => (Membership.ne_zero hi).symm⟩

/-- Role and known leader are consistent in all states of a run, and only followers
    answer an AppendEntries request of their term with success, exactly if no leader
    got a vote message of a higher term and no candidate a request of its own term. -/
theorem roleConsistent_iff (hrun : Run (raftSystem M) h c) :
    ((∀ u ∈ visited h c, ∀ i ∈ M.ids, RoleConsistent (u.nodes i)) ∧
        StepsMeet (fun _ u e => e.SuccessFromFollower u) h) ↔
      StepsMeet (fun _ u e => e.KeepsRole u) h := by
  induction hrun with
  | start hinit =>
    refine ⟨fun _ => trivial, fun _ => ⟨fun u hu i hi => ?_, trivial⟩⟩
    obtain rfl := List.mem_singleton.mp hu
    obtain ⟨env, hnew⟩ := hinit.1 i hi
    rw [hnew]
    exact roleConsistent_new hi env
  | @next h c c' e hrun hstep ih =>
    constructor
    · rintro ⟨hcons, -, hanswers⟩
      have hold : ∀ u ∈ visited h c, ∀ i ∈ M.ids, RoleConsistent (u.nodes i) :=
        fun u hu => hcons u (List.mem_cons_of_mem _ hu)
      exact ⟨keepsRole_of_roleConsistent hrun hstep (hold c (mem_visited_self h c))
        (hcons c' List.mem_cons_self), ih.mp ⟨hold, hanswers⟩⟩
    · rintro ⟨hkeeps, hmeet⟩
      obtain ⟨hold, hanswers⟩ := ih.mpr hmeet
      refine ⟨fun u hu j hj => ?_, successFromFollower_of_keepsRole hrun hstep hkeeps, hanswers⟩
      -- the older states are the induction hypothesis's; in the new one only one node changed
      rcases List.mem_cons.mp hu with rfl | hu
      · have hc := hold c (mem_visited_self h c)
        rcases step_node hstep j with hsame | ⟨env, input, reply, net, hact⟩
        · rw [hsame]
          exact hc j hj
        · exact hact.roleConsistent hrun (hc j hj) hkeeps
      · exact hold u hu j hj

theorem roleConsistent_oneReplicated :
    let r := (schedule 3 oneReplicated).get oneReplicated_runs
    ∀ u ∈ visited r.1 r.2, ∀ i ∈ (Membership.ofSize 3).ids, RoleConsistent (u.nodes i) :=
  ((roleConsistent_iff (schedule_run oneReplicated_runs)).mpr (by decide +kernel)).1

/-- Nodes 1 and 3 are candidates of term 1 and node 1 wins. Node 3 gets its heartbeat.
    Node 2 times out into term 2 and asks node 1 for its vote. -/
def leaderSteppedDown : List Event :=
  [.tick 1 (atTime 200),
    .tick 3 (atTime 200),
    .deliver ⟨1, 2, .requestVote ⟨1, 1, 0, 0⟩⟩ (atTime 210),
    .deliver ⟨2, 1, .requestVoteResp ⟨1, true⟩⟩ (atTime 220),
    .deliver ⟨1, 3, .appendEntries ⟨1, 1, 0, 0, 0, []⟩⟩ (atTime 230),
    .tick 2 (atTime 400),
    .deliver ⟨2, 1, .requestVote ⟨2, 2, 0, 0⟩⟩ (atTime 410)]

theorem leaderSteppedDown_runs : (schedule 3 leaderSteppedDown).isSome := by decide +kernel

/-- Node 1 ends as a follower of itself; node 3 answered with success as a candidate. -/
theorem roleConsistent_broken :
    (¬ ∀ (M : Membership) (h : List (Cluster × Event)) (c : Cluster), Run (raftSystem M) h c →
      ∀ i ∈ M.ids, RoleConsistent (c.nodes i)) ∧
    ¬ ∀ (M : Membership) (h : List (Cluster × Event)) (c : Cluster), Run (raftSystem M) h c →
      StepsMeet (fun _ u e => e.SuccessFromFollower u) h := by
  have hrun := schedule_run leaderSteppedDown_runs
  constructor
  · intro hall
    exact (hall _ _ _ hrun 1 (by decide)).follower (by decide +kernel) (by decide +kernel)
  · intro hall
    exact absurd (hall _ _ _ hrun) (by decide +kernel)

end Dkv
