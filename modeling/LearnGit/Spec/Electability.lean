import LearnGit.Spec.AppendExchange
import LearnGit.Spec.ElectionSafety

/-!
# A leader can always be elected

Nothing that happened in a cluster of two nodes or more keeps it from electing a leader later:
messages that were lost or are still on their way, split votes, leaders that nobody follows.
A node whose log is as up to date as all others can raise its term above theirs by its own
timeouts, and then every voter grants its vote. If that node believes it is the leader itself,
one that is not asks for its vote first, and it steps down.

A lone node waits for votes that nobody sends.

## Key results

- `exists_timeouts`: a node that does not lead can campaign in any term ahead
- `exists_ballots`: the votes of a campaign come in
- `exists_notLeader`: some node does not lead
- `electable`: who can be elected, and from where
-/

namespace Dkv

open Transition

namespace RaftNode

variable {n : RaftNode} {env : Env} {req : RequestVoteRequest}

/-! ## The handlers of an election -/

/-- The request that a candidate asks its peers for their votes with. -/
def ballot (n : RaftNode) : RequestVoteRequest where
  term := n.currentTerm
  candidateId := n.nodeId
  lastLogIndex := n.getLastLogIndex
  lastLogTerm := n.getLastLogTerm

/-- Only the logs decide who is up to date. -/
theorem upToDate_ballot {n n' m m' : RaftNode} (hn : n'.log = n.log) (hm : m'.log = m.log) :
    n'.upToDate m'.ballot = n.upToDate m.ballot := by
  have hlast : ∀ {a b : RaftNode}, b.log = a.log →
      b.getLastLogIndex = a.getLastLogIndex ∧ b.getLastLogTerm = a.getLastLogTerm := by
    intro a b hlog
    unfold getLastLogTerm
    rw [getLastLogIndex_eq, getLastLogIndex_eq, hlog]
    exact ⟨rfl, rfl⟩
  unfold upToDate ballot
  dsimp only
  rw [(hlast hn).1, (hlast hn).2, (hlast hm).1, (hlast hm).2]

theorem tick_of_due (hstate : n.state ≠ .leader)
    (hdue : env.now - n.lastHeartbeat ≥ n.electionTimeoutMs) :
    n.tick env = n.becomeCandidate env := by
  have helection : (n.state = .follower ∨ n.state = .candidate) ∧
      env.now - n.lastHeartbeat ≥ n.electionTimeoutMs := by
    refine ⟨?_, hdue⟩
    cases hn : n.state with
    | follower => exact .inl rfl
    | candidate => exact .inr rfl
    | leader => exact absurd hn hstate
  have hcand : (n.becomeCandidate env).state ≠ .leader := State.noConfusion
  unfold tick
  dsimp only
  rw [if_pos helection, if_neg hcand]

/-- A new candidate asks every peer for its vote. -/
theorem mem_sent_becomeCandidate (i : Nat) {j : Nat} (hj : j ∈ n.peerIds) :
    ⟨i, j, .requestVote (n.becomeCandidate env).ballot⟩ ∈ sent i n (n.becomeCandidate env) := by
  have hcalls : (n.becomeCandidate env).calls = n.calls ++ ([.persist (n.currentTerm + 1)
      n.nodeId n.log] ++ n.peerIds.map fun pid =>
        .send pid (.requestVote (n.becomeCandidate env).ballot)) :=
    List.append_assoc ..
  rw [sent, newCalls, hcalls, List.drop_left, List.mem_filterMap]
  refine ⟨.send j (.requestVote (n.becomeCandidate env).ballot), ?_, rfl⟩
  exact List.mem_append_right _ (List.mem_map_of_mem hj)

/-- Whoever is asked in a newer term steps down, and grants its vote to a log as up to date as
    its own. -/
theorem handleRequestVote_newer (env : Env) (hterm : n.currentTerm < req.term) :
    let r := n.handleRequestVote env req
    r.1.state = .follower ∧ r.1.log = n.log ∧ r.1.currentTerm = req.term ∧
      r.2 = ⟨req.term, n.upToDate req⟩ := by
  unfold handleRequestVote
  rw [catchUp_of_lt hterm]
  have hup : (n.becomeFollower env req.term).upToDate req = n.upToDate req := rfl
  dsimp only
  by_cases hlog : n.upToDate req = true
  · rw [if_pos ⟨Nat.le_refl _, .inl rfl, hup.trans hlog⟩, hlog]
    exact ⟨rfl, rfl, rfl, rfl⟩
  · rw [if_neg fun hgrant => hlog (hup.symm.trans hgrant.2.2), Bool.eq_false_iff.mpr hlog]
    exact ⟨rfl, rfl, rfl, rfl⟩

/-- A candidate counts a vote of its term, and leads as soon as it has a majority. -/
theorem processRequestVoteResponse_granted (env : Env) (hstate : n.state = .candidate)
    (src : Nat) :
    let n' := n.processRequestVoteResponse env src n.currentTerm true
    n'.log = n.log ∧ n'.currentTerm = n.currentTerm ∧
      if n.votesReceived + 1 ≥ n.majority then n'.state = .leader
      else n'.state = .candidate ∧ n'.votesReceived = n.votesReceived + 1 ∧
        n'.peerIds = n.peerIds := by
  unfold processRequestVoteResponse
  rw [if_neg (Nat.lt_irrefl _), if_neg (by simp [hstate])]
  dsimp only
  have hmajority : majority { n with votesReceived := n.votesReceived + 1 } = n.majority := rfl
  simp only [if_true, hmajority]
  split
  · exact ⟨rfl, rfl, rfl⟩
  · exact ⟨rfl, rfl, hstate, rfl, rfl⟩

end RaftNode

variable {M : Membership} {h : List (Cluster × Event)} {c c' : Cluster}

/-! ## Timeouts -/

/-- Node `v` has campaigned in the given term; all others are as they were. -/
structure Campaigns (M : Membership) (c : Cluster) (v term : Nat) (c' : Cluster) : Prop where
  others : ∀ j, j ≠ v → c'.nodes j = c.nodes j
  log : (c'.nodes v).log = (c.nodes v).log
  state : (c'.nodes v).state = .candidate
  term : (c'.nodes v).currentTerm = term
  votes : (c'.nodes v).votesReceived = 1
  asked : ∀ j ∈ M.peerIds v, ⟨v, j, .requestVote (c'.nodes v).ballot⟩ ∈ c'.net

/-- A node that does not lead campaigns when its timeout is due. -/
theorem exists_timeout (hrun : Run (raftSystem M) h c) {v : Nat} (hv : v ∈ M.ids)
    (hstate : (c.nodes v).state ≠ .leader) : ∃ h' c', Continues (raftSystem M) h c h' c' ∧
      Campaigns M c v ((c.nodes v).currentTerm + 1) c' := by
  have htick : (c.nodes v).tick
      (atTime ((c.nodes v).lastHeartbeat + (c.nodes v).electionTimeoutMs)) =
      (c.nodes v).becomeCandidate _ := RaftNode.tick_of_due hstate (by simp [atTime])
  have hsize : ((c.nodes v).tick (atTime ((c.nodes v).lastHeartbeat +
      (c.nodes v).electionTimeoutMs))).log.length ≤ maxLogSize := by
    rw [htick]
    exact log_length_le hrun hv
  obtain ⟨c', hstep⟩ := exists_step_tick (c := c) hv hsize
  obtain ⟨hnode, hact⟩ := step_tick hstep
  rw [htick] at hnode
  refine ⟨_, c', (Continues.refl hrun).next hstep, hact.others, ?_, ?_, ?_, ?_, ?_⟩
  · rw [hnode]
    rfl
  · rw [hnode]
    rfl
  · rw [hnode]
    rfl
  · rw [hnode]
    rfl
  · intro j hj
    rw [hact.net_eq, hnode]
    apply List.mem_append_left
    apply List.mem_append_right
    apply RaftNode.mem_sent_becomeCandidate
    rwa [(run_ident hrun hv).2]

/-- Its timeouts take it to every term ahead. -/
theorem exists_timeouts (hrun : Run (raftSystem M) h c) {v : Nat} (hv : v ∈ M.ids)
    (hstate : (c.nodes v).state ≠ .leader) {term : Nat} (hterm : (c.nodes v).currentTerm < term) :
    ∃ h' c', Continues (raftSystem M) h c h' c' ∧ Campaigns M c v term c' := by
  induction term with
  | zero => exact absurd hterm (Nat.not_lt_zero _)
  | succ term ih =>
    cases Nat.lt_succ_iff_lt_or_eq.mp hterm with
    | inr heq =>
      rw [← heq]
      exact exists_timeout hrun hv hstate
    | inl hlt =>
      obtain ⟨h₁, c₁, hcont, hcamp⟩ := ih hlt
      have hstate₁ : (c₁.nodes v).state ≠ .leader := by
        rw [hcamp.state]
        exact RaftNode.State.noConfusion
      obtain ⟨h₂, c₂, hcont₂, hcamp₂⟩ := exists_timeout hcont.run hv hstate₁
      rw [hcamp.term] at hcamp₂
      exact ⟨h₂, c₂, hcont.trans hcont₂,
        fun j hj => (hcamp₂.others j hj).trans (hcamp.others j hj),
        hcamp₂.log.trans hcamp.log, hcamp₂.state, hcamp₂.term, hcamp₂.votes, hcamp₂.asked⟩

/-! ## Votes -/

/-- Candidate `w` is short of a majority, and the nodes `todo` would vote for it. -/
structure Collecting (M : Membership) (c : Cluster) (w : Nat) (req : RequestVoteRequest)
    (todo : List Nat) : Prop where
  state : (c.nodes w).state = .candidate
  term : (c.nodes w).currentTerm = req.term
  missing : (c.nodes w).votesReceived < (c.nodes w).majority
  enough : (c.nodes w).majority ≤ (c.nodes w).votesReceived + todo.length
  nodup : todo.Nodup
  mem : ∀ j ∈ todo, j ∈ M.ids ∧ j ≠ w
  older : ∀ j ∈ todo, (c.nodes j).currentTerm < req.term
  upToDate : ∀ j ∈ todo, (c.nodes j).upToDate req = true
  asked : ∀ j ∈ todo, ⟨w, j, .requestVote req⟩ ∈ c.net

/-- A voter is asked, and its answer is on its way. -/
theorem exists_answer (hrun : Run (raftSystem M) h c) {w j : Nat} (hj : j ∈ M.ids)
    {req : RequestVoteRequest} (hasked : ⟨w, j, .requestVote req⟩ ∈ c.net)
    (holder : (c.nodes j).currentTerm < req.term) :
    ∃ e c', (raftSystem M).step c e = some c' ∧ (∀ i, i ≠ j → c'.nodes i = c.nodes i) ∧
      (c'.nodes j).state = .follower ∧ (c'.nodes j).log = (c.nodes j).log ∧
      (c'.nodes j).currentTerm = req.term ∧
      c.net.erase ⟨w, j, .requestVote req⟩ ⊆ c'.net ∧
      ⟨j, w, .requestVoteResp ⟨req.term, (c.nodes j).upToDate req⟩⟩ ∈ c'.net := by
  -- the voter's clock is where it was at the last heartbeat
  obtain ⟨hstate, hlog, hterm, hresp⟩ :=
    (c.nodes j).handleRequestVote_newer (atTime (c.nodes j).lastHeartbeat) holder
  obtain ⟨c', hstep⟩ := exists_step_deliver (atTime (c.nodes j).lastHeartbeat) hj hasked (by
    show ((c.nodes j).handleRequestVote _ req).1.log.length ≤ _
    rw [hlog]
    exact log_length_le hrun hj)
  obtain ⟨hnode, hact⟩ := step_deliver hstep
  have hnode : c'.nodes j =
    ((c.nodes j).handleRequestVote (atTime (c.nodes j).lastHeartbeat) req).1 := hnode
  have hnet := hact.net_eq
  refine ⟨_, c', hstep, hact.others, ?_, ?_, ?_, ?_, ?_⟩
  · rw [hnode, hstate]
  · rw [hnode, hlog]
  · rw [hnode, hterm]
  · rw [hnet, List.append_assoc]
    exact List.subset_append_left _ _
  · rw [hnet]
    apply List.mem_append_right
    rw [← hresp]
    exact List.mem_singleton.mpr rfl

/-- A granted vote is counted. -/
theorem exists_count (hrun : Run (raftSystem M) h c) {w j : Nat} (hw : w ∈ M.ids)
    (hstate : (c.nodes w).state = .candidate)
    (hvote : ⟨j, w, .requestVoteResp ⟨(c.nodes w).currentTerm, true⟩⟩ ∈ c.net) :
    ∃ e c', (raftSystem M).step c e = some c' ∧ (∀ i, i ≠ w → c'.nodes i = c.nodes i) ∧
      (c'.nodes w).log = (c.nodes w).log ∧
      (c'.nodes w).currentTerm = (c.nodes w).currentTerm ∧
      c.net.erase ⟨j, w, .requestVoteResp ⟨(c.nodes w).currentTerm, true⟩⟩ ⊆ c'.net ∧
      if (c.nodes w).votesReceived + 1 ≥ (c.nodes w).majority then (c'.nodes w).state = .leader
      else (c'.nodes w).state = .candidate ∧
        (c'.nodes w).votesReceived = (c.nodes w).votesReceived + 1 ∧
        (c'.nodes w).peerIds = (c.nodes w).peerIds := by
  obtain ⟨hlog, hterm, hcounted⟩ :=
    (c.nodes w).processRequestVoteResponse_granted (atTime (c.nodes w).lastHeartbeat) hstate j
  obtain ⟨c', hstep⟩ := exists_step_deliver (atTime (c.nodes w).lastHeartbeat) hw hvote (by
    show ((c.nodes w).processRequestVoteResponse _ j _ true).log.length ≤ _
    rw [hlog]
    exact log_length_le hrun hw)
  obtain ⟨hnode, hact⟩ := step_deliver hstep
  have hnode : c'.nodes w = (c.nodes w).processRequestVoteResponse
    (atTime (c.nodes w).lastHeartbeat) j (c.nodes w).currentTerm true := hnode
  rw [← hnode] at hlog hterm hcounted
  refine ⟨_, c', hstep, hact.others, hlog, hterm, ?_, hcounted⟩
  rw [hact.net_eq, List.append_assoc]
  exact List.subset_append_left _ _

/-- The votes come in one after the other, until there is a majority. -/
theorem exists_ballots (hrun : Run (raftSystem M) h c) {w : Nat} (hw : w ∈ M.ids)
    {req : RequestVoteRequest} {todo : List Nat} (hcoll : Collecting M c w req todo) :
    ∃ h' c', Continues (raftSystem M) h c h' c' ∧ (c'.nodes w).state = .leader ∧
      (c'.nodes w).currentTerm = req.term ∧ ∀ i, (c'.nodes i).log = (c.nodes i).log := by
  induction todo generalizing h c with
  | nil => exact absurd hcoll.missing (Nat.not_lt.mpr hcoll.enough)
  | cons j todo ih =>
    obtain ⟨hj, hjw⟩ := hcoll.mem j List.mem_cons_self
    obtain ⟨hnew, hnodup⟩ := List.nodup_cons.mp hcoll.nodup
    obtain ⟨e₁, c₁, hstep₁, hothers₁, -, hlog₁, -, hnet₁, hanswer⟩ := exists_answer hrun hj
      (hcoll.asked j List.mem_cons_self) (hcoll.older j List.mem_cons_self)
    have hw₁ : c₁.nodes w = c.nodes w := hothers₁ w hjw.symm
    rw [hcoll.upToDate j List.mem_cons_self, ← hcoll.term, ← hw₁] at hanswer
    obtain ⟨e₂, c₂, hstep₂, hothers₂, hlog₂, hterm₂, hnet₂, hcounted⟩ :=
      exists_count (hrun.next hstep₁) hw (by rw [hw₁, hcoll.state]) hanswer
    rw [hw₁] at hlog₂ hterm₂ hcounted
    have hcont : Continues (raftSystem M) h c _ c₂ :=
      ((Continues.refl hrun).next hstep₁).next hstep₂
    have hlogs : ∀ i, (c₂.nodes i).log = (c.nodes i).log := by
      intro i
      by_cases hiw : i = w
      · rw [hiw, hlog₂]
      · rw [hothers₂ i hiw]
        by_cases hij : i = j
        · rw [hij, hlog₁]
        · rw [hothers₁ i hij]
    split at hcounted
    · exact ⟨_, c₂, hcont, hcounted, hterm₂.trans hcoll.term, hlogs⟩
    · next hfew =>
      obtain ⟨hstate₂, hvotes₂, hpeers₂⟩ := hcounted
      have hmajority : (c₂.nodes w).majority = (c.nodes w).majority := by
        rw [RaftNode.majority, hpeers₂, RaftNode.majority]
      have hsame : ∀ i ∈ todo, c₂.nodes i = c.nodes i := by
        intro i hi
        rw [hothers₂ i (hcoll.mem i (List.mem_cons_of_mem _ hi)).2,
          hothers₁ i fun heq => hnew (heq ▸ hi)]
      have henough := hcoll.enough
      rw [List.length_cons] at henough
      -- the rest of the voters have not noticed anything
      have hcoll₂ : Collecting M c₂ w req todo := {
        state := hstate₂
        term := hterm₂.trans hcoll.term
        missing := by rw [hmajority, hvotes₂]; omega
        enough := by rw [hmajority, hvotes₂]; omega
        nodup := hnodup
        mem := fun i hi => hcoll.mem i (List.mem_cons_of_mem _ hi)
        older := fun i hi => by
          rw [hsame i hi]
          exact hcoll.older i (List.mem_cons_of_mem _ hi)
        upToDate := fun i hi => by
          rw [hsame i hi]
          exact hcoll.upToDate i (List.mem_cons_of_mem _ hi)
        asked := fun i hi => by
          have hin := hcoll.asked i (List.mem_cons_of_mem _ hi)
          apply hnet₂
          rw [List.mem_erase_of_ne (by simp)]
          apply hnet₁
          rwa [List.mem_erase_of_ne]
          intro heq
          exact hnew ((Packet.mk.inj heq).2.1 ▸ hi) }
      obtain ⟨h', c', hcont', hleader, hterm, hlogs'⟩ := ih hcont.run hcoll₂
      exact ⟨h', c', hcont.trans hcont', hleader, hterm,
        fun i => (hlogs' i).trans (hlogs i)⟩

/-! ## Elections -/

/-- The log of node `w` is at least as up to date as that of every node. -/
def Best (M : Membership) (c : Cluster) (w : Nat) : Prop :=
  ∀ j ∈ M.ids, (c.nodes j).upToDate (c.nodes w).ballot = true

/-- Node `w` leads in a term that is newer than all terms there were, and no log has changed. -/
structure Elected (M : Membership) (c : Cluster) (w : Nat) (c' : Cluster) : Prop where
  leader : (c'.nodes w).state = .leader
  newest : ∀ j ∈ M.ids, (c.nodes j).currentTerm < (c'.nodes w).currentTerm
  logs : ∀ i, (c'.nodes i).log = (c.nodes i).log

/-- The run can go on so that node `w` is elected. -/
def CanWin (M : Membership) (h : List (Cluster × Event)) (c : Cluster) (w : Nat) : Prop :=
  ∃ h' c', Continues (raftSystem M) h c h' c' ∧ Elected M c w c'

/-- A term that is newer than all terms of the nodes. -/
def Cluster.nextTerm (M : Membership) (c : Cluster) : Nat :=
  M.ids.sup (fun j => (c.nodes j).currentTerm) + 1

theorem Cluster.lt_nextTerm {j : Nat} (hj : j ∈ M.ids) :
    (c.nodes j).currentTerm < c.nextTerm M :=
  Nat.lt_succ_of_le (Finset.le_sup (f := fun j => (c.nodes j).currentTerm) hj)

/-- A node that does not lead wins by its own timeouts. -/
theorem canWin_of_notLeader (hrun : Run (raftSystem M) h c) (hcard : 2 ≤ M.ids.card) {w : Nat}
    (hw : w ∈ M.ids) (hbest : Best M c w) (hstate : (c.nodes w).state ≠ .leader) :
    CanWin M h c w := by
  obtain ⟨h₁, c₁, hcont, hcamp⟩ := exists_timeouts hrun hw hstate (Cluster.lt_nextTerm hw)
  have hpeers := (run_ident hcont.run hw).2
  have hlength := Membership.length_peerIds hw
  have hlogs₁ : ∀ i, (c₁.nodes i).log = (c.nodes i).log := by
    intro i
    by_cases hi : i = w
    · rw [hi, hcamp.log]
    · rw [hcamp.others i hi]
  have hcoll : Collecting M c₁ w (c₁.nodes w).ballot (M.peerIds w) := {
    state := hcamp.state
    term := rfl
    missing := by rw [hcamp.votes, RaftNode.majority, hpeers]; omega
    enough := by rw [hcamp.votes, RaftNode.majority, hpeers]; omega
    nodup := M.nodup_peerIds w hw
    mem := fun j hj => (M.mem_peerIds w hw j).mp hj
    older := fun j hj => by
      obtain ⟨hj, hjw⟩ := (M.mem_peerIds w hw j).mp hj
      rw [hcamp.others j hjw]
      exact (Cluster.lt_nextTerm hj).trans_eq hcamp.term.symm
    upToDate := fun j hj => by
      rw [RaftNode.upToDate_ballot (hlogs₁ j) (hlogs₁ w)]
      exact hbest j ((M.mem_peerIds w hw j).mp hj).1
    asked := hcamp.asked }
  obtain ⟨h₂, c₂, hcont₂, hleader, hterm, hlogs₂⟩ := exists_ballots hcont.run hw hcoll
  have hterm : (c₂.nodes w).currentTerm = c.nextTerm M := hterm.trans hcamp.term
  refine ⟨h₂, c₂, hcont.trans hcont₂, hleader, fun j hj => ?_, fun i => ?_⟩
  · rw [hterm]
    exact Cluster.lt_nextTerm hj
  · rw [hlogs₂, hlogs₁]

/-- The voters of the leader of the newest term do not lead. -/
theorem exists_notLeader (hrun : Run (raftSystem M) h c) (hcard : 2 ≤ M.ids.card) :
    ∃ v ∈ M.ids, (c.nodes v).state ≠ .leader := by
  by_contra hall
  simp only [not_exists, not_and, not_not] at hall
  have hne : M.ids.Nonempty := Finset.card_pos.mp (by omega)
  obtain ⟨a, ha, hmax⟩ := Finset.exists_max_image M.ids (fun j => (c.nodes j).currentTerm) hne
  have hc : c ∈ visited h c := mem_visited_self h c
  obtain ⟨W, ⟨hsub, hmajority⟩, hvoted⟩ := leader_voted hrun hc ha (hall a ha)
  obtain ⟨w, hw, hwa⟩ := Finset.exists_mem_ne (s := W) (by omega) a
  obtain ⟨u, hu, hterm, -⟩ := hvoted w hw
  -- the voter has been in the newest term, and there is only one leader in it
  have hle := (roleOrder_of_visited hrun hu w).term_le
  have hge := hmax w (hsub hw)
  have hsame : (c.nodes w).currentTerm = (c.nodes a).currentTerm := by omega
  exact hwa (leader_unique hrun hc hc (hsub hw) ha (hall w (hsub hw)) (hall a ha) hsame)

/-- A leader steps down when another node asks for its vote in a newer term. -/
theorem exists_stepDown (hrun : Run (raftSystem M) h c) (hcard : 2 ≤ M.ids.card) {w : Nat}
    (hw : w ∈ M.ids) (hleader : (c.nodes w).state = .leader) :
    ∃ h' c', Continues (raftSystem M) h c h' c' ∧ (c'.nodes w).state ≠ .leader ∧
      ∀ i, (c'.nodes i).log = (c.nodes i).log := by
  obtain ⟨v, hv, hstate⟩ := exists_notLeader hrun hcard
  have hwv : w ≠ v := fun heq => hstate (heq ▸ hleader)
  obtain ⟨h₁, c₁, hcont, hcamp⟩ := exists_timeouts hrun hv hstate (Cluster.lt_nextTerm hv)
  have hasked := hcamp.asked w ((M.mem_peerIds v hv w).mpr ⟨hw, hwv⟩)
  have holder : (c₁.nodes w).currentTerm < (c₁.nodes v).ballot.term := by
    rw [hcamp.others w hwv]
    exact (Cluster.lt_nextTerm hw).trans_eq hcamp.term.symm
  obtain ⟨e, c₂, hstep, hothers, hfollower, hlog, -, -, -⟩ :=
    exists_answer hcont.run hw hasked holder
  refine ⟨_, c₂, hcont.next hstep, ?_, fun i => ?_⟩
  · rw [hfollower]
    exact RaftNode.State.noConfusion
  by_cases hiw : i = w
  · rw [hiw, hlog, hcamp.others w hwv]
  · rw [hothers i hiw]
    by_cases hiv : i = v
    · rw [hiv, hcamp.log]
    · rw [hcamp.others i hiv]

theorem canWin (hrun : Run (raftSystem M) h c) (hcard : 2 ≤ M.ids.card) {w : Nat}
    (hw : w ∈ M.ids) (hbest : Best M c w) : CanWin M h c w := by
  by_cases hleader : (c.nodes w).state = .leader
  · obtain ⟨h₁, c₁, hcont, hstate, hlogs⟩ := exists_stepDown hrun hcard hw hleader
    have hbest₁ : Best M c₁ w := fun j hj => by
      rw [RaftNode.upToDate_ballot (hlogs j) (hlogs w)]
      exact hbest j hj
    obtain ⟨h₂, c₂, hcont₂, helected⟩ := canWin_of_notLeader hcont.run hcard hw hbest₁ hstate
    refine ⟨h₂, c₂, hcont.trans hcont₂, helected.leader, fun j hj => ?_, fun i => ?_⟩
    · have hle := (roleOrder_of_visited hcont.run hcont.mem j).term_le
      exact Nat.lt_of_le_of_lt hle (helected.newest j hj)
    · rw [helected.logs, hlogs]
  · exact canWin_of_notLeader hrun hcard hw hbest hleader

/-- Some log is at least as up to date as all others. -/
theorem exists_best (c : Cluster) (hne : M.ids.Nonempty) : ∃ w ∈ M.ids, Best M c w := by
  obtain ⟨w, hw, hmax⟩ := Finset.exists_max_image M.ids
    (fun j => toLex ((c.nodes j).getLastLogTerm, (c.nodes j).getLastLogIndex)) hne
  refine ⟨w, hw, fun j hj => ?_⟩
  have hle := Prod.Lex.toLex_le_toLex.mp (hmax j hj)
  dsimp only at hle
  simp only [RaftNode.upToDate, RaftNode.ballot, Bool.or_eq_true, Bool.and_eq_true]
  cases hle with
  | inl hlt => exact .inl (decide_eq_true hlt)
  | inr heq => exact .inr ⟨decide_eq_true heq.1.symm, decide_eq_true heq.2⟩

/-! ## A lone node -/

/-- Without peers there are no messages, and no vote is ever counted. -/
theorem lone_node (hrun : Run (raftSystem M) h c) (hcard : M.ids.card ≤ 1) :
    c.net = [] ∧ ∀ i ∈ M.ids, (c.nodes i).state ≠ .leader := by
  refine hrun.rec_on_run (P := fun _ c => c.net = [] ∧ ∀ i ∈ M.ids, (c.nodes i).state ≠ .leader)
    ?_ ?_
  · intro c hinit
    refine ⟨hinit.2, fun i hi => ?_⟩
    obtain ⟨env, hnew⟩ := hinit.1 i hi
    rw [hnew]
    exact RaftNode.State.noConfusion
  · intro h c e c' hrun ih hstep
    obtain ⟨hnet, hstates⟩ := ih
    cases step_cases hstep with
    | inl hlost =>
      obtain ⟨p, hnodes, hnet'⟩ := hlost
      rw [hnodes, hnet', hnet]
      exact ⟨rfl, hstates⟩
    | inr hreact =>
      obtain ⟨i, env, input, reply, net, hact⟩ := hreact
      have hpeers : (c'.nodes i).peerIds = [] := by
        rw [(run_ident (hrun.next hstep) hact.mem).2, ← List.length_eq_zero_iff]
        have := Membership.length_peerIds hact.mem
        omega
      obtain ⟨sends, hsends, hsent⟩ := hact.reacts.sent_eq i
      have hnone : RaftNode.sent i (c.nodes i) (c'.nodes i) = [] := by
        rw [hsent]
        cases hsends with
        | none => rfl
        | vote => rw [RaftNode.voteCalls, hpeers]; rfl
        | append m heartbeatOnly _ _ _ _ hmpeers => rw [RaftNode.appendCalls, hmpeers, hpeers]; rfl
      have hrole := hact.reacts.roleStep
      have hnet' := hact.net_eq
      rw [hnone] at hnet'
      -- the input is a timeout or a command: nothing is in flight
      cases hact.arrives with
      | tick =>
        refine ⟨by rw [hnet', hnet]; rfl, fun j hj => ?_⟩
        by_cases hji : j = i
        · rw [hji]
          cases hrole with
          | same _ _ hstate => rw [hstate]; exact hstates i hact.mem
          | stepDown _ _ hstate => rw [hstate]; exact RaftNode.State.noConfusion
          | campaign _ _ _ hstate => rw [hstate]; exact RaftNode.State.noConfusion
        · rw [hact.others j hji]
          exact hstates j hj
      | propose =>
        refine ⟨by rw [hnet', hnet]; rfl, fun j hj => ?_⟩
        by_cases hji : j = i
        · rw [hji]
          cases hrole with
          | same _ _ hstate => rw [hstate]; exact hstates i hact.mem
          | stepDown _ _ hstate => rw [hstate]; exact RaftNode.State.noConfusion
        · rw [hact.others j hji]
          exact hstates j hj
      | deliver p env hp =>
        rw [hnet] at hp
        exact absurd hp List.not_mem_nil

/-- From every reachable state each node with a best log can be elected, as soon as there are
    two nodes, and a node alone can never be. -/
theorem electable (hrun : Run (raftSystem M) h c) :
    (2 ≤ M.ids.card → ∀ w ∈ M.ids, Best M c w → CanWin M h c w) ∧
      ((∃ w ∈ M.ids, CanWin M h c w) ↔ 2 ≤ M.ids.card) := by
  refine ⟨fun hcard w hw => canWin hrun hcard hw, fun ⟨w, hw, h', c', hcont, helected⟩ => ?_,
    fun hcard => ?_⟩
  · by_contra hfew
    exact (lone_node hcont.run (by omega)).2 w hw helected.leader
  · obtain ⟨w, hw, hbest⟩ := exists_best (M := M) c (Finset.card_pos.mp (by omega))
    exact ⟨w, hw, canWin hrun hcard hw hbest⟩

/-- All three nodes vote for themselves, and half of the requests are lost. -/
def splitVotes : List Event :=
  [.tick 1 (atTime 200), .tick 2 (atTime 200), .tick 3 (atTime 200),
    .lose ⟨1, 2, .requestVote ⟨1, 1, 0, 0⟩⟩, .lose ⟨2, 3, .requestVote ⟨1, 2, 0, 0⟩⟩,
    .lose ⟨3, 1, .requestVote ⟨1, 3, 0, 0⟩⟩]

theorem splitVotes_runs : (schedule 3 splitVotes).isSome := by decide +kernel

theorem electable_splitVotes :
    let r := (schedule 3 splitVotes).get splitVotes_runs
    ∃ w ∈ (Membership.ofSize 3).ids, CanWin (.ofSize 3) r.1 r.2 w :=
  (electable (schedule_run splitVotes_runs)).2.mpr (by decide)

end Dkv
