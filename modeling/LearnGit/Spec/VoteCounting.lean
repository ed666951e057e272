import LearnGit.ForStd.Quorum
import LearnGit.Spec.IndexSafety

/-!
# The vote counter

A candidate counts granted replies in `votesReceived_` and compares the counter with the
majority when a reply comes in. The comparison is nowhere else, so a node that is alone in
its cluster, for which its own vote is a majority, stays a candidate. The counter does not
look at who sent a reply, so a reply that comes twice counts twice.

## Key results

- `tally_of_run`: what the counter of a reachable candidate stands for
- `candidate_lt_majority_iff`: a candidate has no majority, except where it is alone
- `votes_distinct_iff`: which replies are counted per peer
-/

namespace Dkv

open Transition RaftNode

/-! ## One reply -/

/-- The arguments of a call of `processRequestVoteResponse`, with its surroundings. -/
structure VoteReply where
  env : Env
  fromPeer : Nat
  term : Nat
  granted : Bool

def RaftNode.hearReply (n : RaftNode) (r : VoteReply) : RaftNode :=
  n.processRequestVoteResponse r.env r.fromPeer r.term r.granted

/-- What a reply does to a node. -/
inductive Heard (n : RaftNode) (r : VoteReply) : RaftNode → Prop
  | steppedDown (hterm : n.currentTerm < r.term) : Heard n r (n.becomeFollower r.env r.term)
  | ignored (hterm : r.term ≤ n.currentTerm)
      (hcause : r.term ≠ n.currentTerm ∨ n.state ≠ .candidate) : Heard n r n
  | counted (hterm : r.term = n.currentTerm) (hstate : n.state = .candidate) (votes : Nat)
      (hvotes : votes = n.votesReceived + if r.granted then 1 else 0)
      (hlt : votes < n.majority) : Heard n r { n with votesReceived := votes }
  | elected (hterm : r.term = n.currentTerm) (hstate : n.state = .candidate) (votes : Nat)
      (hvotes : votes = n.votesReceived + if r.granted then 1 else 0)
      (hle : n.majority ≤ votes) : Heard n r ({ n with votesReceived := votes }.becomeLeader r.env)

theorem heard (n : RaftNode) (r : VoteReply) : Heard n r (n.hearReply r) := by
  unfold hearReply processRequestVoteResponse
  split
  · next hterm => exact .steppedDown hterm
  · next hterm =>
    split
    · next hcause => exact .ignored (by omega) hcause
    · next hcause =>
      simp only [not_or, ne_eq, not_not] at hcause
      dsimp only
      generalize hvotes : (n.votesReceived + if r.granted then 1 else 0) = votes
      split
      · next hle => exact .elected hcause.1 hcause.2 votes hvotes.symm hle
      · next hlt => exact .counted hcause.1 hcause.2 votes hvotes.symm (Nat.lt_of_not_le hlt)

/-! ## The counter of a candidate -/

/-- `n` is a candidate that has counted a granted reply from each of `voters`. -/
structure Candidacy (n : RaftNode) (voters : List Nat) : Prop where
  state : n.state = .candidate
  votes : n.votesReceived = voters.length + 1
  short : n.peerIds = [] ∨ n.votesReceived < n.majority

/-- Node `v` granted a vote of the term to the node of the history. -/
def Granted (h : List (RaftNode × Env × Input)) (term v : Nat) : Prop :=
  ∃ s env resp, (s, env, .message v (.requestVoteResp resp)) ∈ h ∧
    resp.term = term ∧ resp.voteGranted = true

theorem Granted.cons {h : List (RaftNode × Env × Input)} {term v : Nat} (hv : Granted h term v)
    (p : RaftNode × Env × Input) : Granted (p :: h) term v := by
  obtain ⟨s, env, resp, hmem, hresp⟩ := hv
  exact ⟨s, env, resp, List.mem_cons_of_mem _ hmem, hresp⟩

/-- Behind the counter of a candidate are replies that the node has received. -/
def Tally (h : List (RaftNode × Env × Input)) (n : RaftNode) : Prop :=
  n.state = .candidate → ∃ voters, Candidacy n voters ∧ ∀ v ∈ voters, Granted h n.currentTerm v

section Tally

variable {h : List (RaftNode × Env × Input)} {n n' : RaftNode}

/-- A node that starts a campaign has its own vote. -/
theorem Tally.of_campaign (hvotes : n.votesReceived = 1) : Tally h n := by
  intro hstate
  refine ⟨[], ⟨hstate, hvotes, ?_⟩, fun v hv => absurd hv List.not_mem_nil⟩
  -- with another node in the cluster one vote is no majority
  by_cases halone : n.peerIds = []
  · exact .inl halone
  · have hpos := List.length_pos_iff.mpr halone
    right
    rw [hvotes, majority]
    omega

/-- A step that leaves the candidate and its counter alone. -/
theorem Tally.of_same (htally : Tally h n) (p : RaftNode × Env × Input)
    (hstate : n'.state = n.state) (hterm : n'.currentTerm = n.currentTerm)
    (hvotes : n'.votesReceived = n.votesReceived) (hpeers : n'.peerIds = n.peerIds) :
    Tally (p :: h) n' := by
  intro hcand
  obtain ⟨voters, hn, hgranted⟩ := htally (hstate.symm.trans hcand)
  have hshort := hn.short
  refine ⟨voters, ⟨hcand, hvotes.trans hn.votes, ?_⟩, fun v hv => ?_⟩
  · rwa [majority, hpeers, hvotes]
  · rw [hterm]
    exact (hgranted v hv).cons p

theorem Tally.of_ne (p : RaftNode × Env × Input) (hstate : n'.state ≠ .candidate) :
    Tally (p :: h) n' :=
  fun hcand => absurd hcand hstate

/-- A reply that leaves the node a candidate. -/
theorem Tally.hearReply (htally : Tally h n) (env : Env) (src : Nat) (resp : RequestVoteResponse) :
    Tally ((n, env, .message src (.requestVoteResp resp)) :: h)
      (n.processRequestVoteResponse env src resp.term resp.voteGranted) := by
  have hheard := heard n ⟨env, src, resp.term, resp.voteGranted⟩
  simp only [RaftNode.hearReply] at hheard
  generalize n.processRequestVoteResponse env src resp.term resp.voteGranted = n' at hheard
  cases hheard with
  | steppedDown => exact .of_ne _ (by simp [becomeFollower, persist, call])
  | ignored => exact htally.of_same _ rfl rfl rfl rfl
  | elected => exact .of_ne _ (by simp [becomeLeader, RaftNode.sendAppendEntries, callAll])
  | counted hterm hstate votes hvotes hlt =>
    intro _
    obtain ⟨voters, hn, hgranted⟩ := htally hstate
    have hcount := hn.votes
    cases hyes : resp.voteGranted with
    | true =>
      -- the sender counts even if its reply was counted before
      simp only [hyes, if_true] at hvotes
      refine ⟨voters ++ [src], ⟨hstate, ?_, .inr hlt⟩, fun v hv => ?_⟩
      · rw [List.length_append, List.length_singleton]
        show votes = _
        omega
      · cases List.mem_append.mp hv with
        | inl hv => exact (hgranted v hv).cons _
        | inr hv =>
          rw [List.mem_singleton.mp hv]
          exact ⟨n, env, resp, List.mem_cons_self, hterm, hyes⟩
    | false =>
      simp only [hyes, Bool.false_eq_true, if_false] at hvotes
      refine ⟨voters, ⟨hstate, ?_, .inr hlt⟩, fun v hv => (hgranted v hv).cons _⟩
      show votes = _
      omega

end Tally

/-- Behind the counter of every reachable candidate are replies it has received, and it is
    short of a majority unless it is alone. -/
theorem tally_of_run {nodeId : Nat} {peerIds : List Nat} {h : List (RaftNode × Env × Input)}
    {n : RaftNode} (hrun : Run (nodeSystem nodeId peerIds) h n) :
    n.peerIds = peerIds ∧ Tally h n := by
  refine hrun.rec_on_run (P := fun h n => n.peerIds = peerIds ∧ Tally h n) ?init ?step
  case init =>
    intro n hinit
    obtain ⟨env, rfl | ⟨term, votedFor, log, -, rfl⟩⟩ := hinit
    · exact ⟨rfl, fun hstate => nomatch hstate⟩
    · exact ⟨rfl, fun hstate => nomatch hstate⟩
  case step =>
    intro h n e n' hrun htally hstep
    obtain ⟨hpeers, htally⟩ := htally
    obtain ⟨env, input⟩ := e
    cases nodeSystem_step_cases hrun hstep with
    | inr htimeout =>
      obtain ⟨-, rfl⟩ := htimeout
      exact ⟨hpeers, .of_campaign rfl⟩
    | inl hreact =>
      have hreacts := n.react_cases env input
      rw [hreact]
      -- the votes are those of the campaign as long as the node stays in it
      refine ⟨hreacts.peerIds_eq.trans hpeers, ?_⟩
      have hpeers' := hreacts.peerIds_eq
      have hrole := hreacts.roleStep
      generalize hreply : (n.react env input).2 = reply at hrole
      cases hrole with
      | same hterm _ hstate hvotes => exact htally.of_same _ hstate hterm hvotes hpeers'
      | stepDown _ _ hstate => exact .of_ne _ (by rw [hstate]; decide)
      | campaign _ _ _ _ hvotes => exact .of_campaign hvotes
      | grant src req hterm _ _ _ hstate hvotes =>
        cases hstate with
        | inl hsame => exact htally.of_same _ hsame.2 (hterm.trans hsame.1.symm) hvotes hpeers'
        | inr hnewer => exact .of_ne _ (by rw [hnewer.2]; decide)
      | count src resp => exact htally.hearReply env src resp

/-! ## A candidate with a majority -/

/-- A node that is alone in its cluster after its first timeout. -/
theorem alone_candidate (nodeId : Nat) : ∃ h n, Run (nodeSystem nodeId []) h n ∧
    n.state = .candidate ∧ n.votesReceived = 1 := by
  have hstart : (nodeSystem nodeId []).init (.new nodeId [] (atTime 0)) := ⟨atTime 0, .inl rfl⟩
  exact ⟨_, _, .next (e := (atTime 300, .tick)) (.start hstart) rfl, rfl, rfl⟩

/-- Between two calls a candidate is short of a majority of the cluster, exactly if there is
    another node in it. -/
theorem candidate_lt_majority_iff (nodeId : Nat) (peerIds : List Nat) :
    (∀ h n, Run (nodeSystem nodeId peerIds) h n → n.state = .candidate →
      n.votesReceived < (peerIds.length + 1) / 2 + 1) ↔ peerIds ≠ [] := by
  constructor
  · intro hall halone
    subst halone
    obtain ⟨h, n, hrun, hstate, hvotes⟩ := alone_candidate nodeId
    have hlt := hall h n hrun hstate
    rw [hvotes, List.length_nil] at hlt
    exact absurd hlt (by decide)
  · intro hpeers h n hrun hstate
    obtain ⟨hsame, htally⟩ := tally_of_run hrun
    obtain ⟨voters, hn, -⟩ := htally hstate
    have hshort := hn.short
    rw [majority, hsame] at hshort
    exact hshort.resolve_left hpeers

/-- The only node of its cluster has voted for itself and remains a candidate. -/
theorem candidate_ge_majority : ¬ ∀ (nodeId : Nat) (peerIds : List Nat) h n,
    Run (nodeSystem nodeId peerIds) h n → n.state = .candidate →
      n.votesReceived < (peerIds.length + 1) / 2 + 1 := by
  intro hall
  obtain ⟨h, n, hrun, hstate, hvotes⟩ := alone_candidate 1
  have hlt := hall 1 [] h n hrun hstate
  rw [hvotes] at hlt
  exact absurd hlt (by decide)

/-! ## Replies one after the other -/

def RaftNode.hear (n : RaftNode) (replies : List VoteReply) : RaftNode :=
  replies.foldl RaftNode.hearReply n

/-- The senders of the granted replies of a term. -/
def grantedTo (term : Nat) (replies : List VoteReply) : List Nat :=
  (replies.filter fun r => r.granted && r.term == term).map (·.fromPeer)

/-- The senders a candidate of the term gets to count: a newer term ends its candidacy. -/
def heardVotes (term : Nat) (replies : List VoteReply) : List Nat :=
  grantedTo term (replies.takeWhile fun r => decide (r.term ≤ term))

section HeardVotes

variable {term : Nat} {r : VoteReply} {replies : List VoteReply}

theorem grantedTo_cons :
    grantedTo term (r :: replies) = grantedTo term [r] ++ grantedTo term replies := by
  rw [← List.singleton_append, grantedTo, List.filter_append, List.map_append]
  rfl

theorem grantedTo_of_ne (hterm : r.term ≠ term) : grantedTo term [r] = [] := by
  simp [grantedTo, hterm]

theorem grantedTo_of_refused (hno : r.granted = false) : grantedTo term [r] = [] := by
  simp [grantedTo, hno]

theorem grantedTo_of_granted (hterm : r.term = term) (hyes : r.granted = true) :
    grantedTo term [r] = [r.fromPeer] := by
  simp [grantedTo, hterm, hyes]

theorem heardVotes_cons_of_lt (hterm : term < r.term) : heardVotes term (r :: replies) = [] := by
  have hstop : decide (r.term ≤ term) = false := by simpa using hterm
  rw [heardVotes, List.takeWhile_cons_of_neg (by simp [hstop])]
  rfl

theorem heardVotes_cons_of_le (hterm : r.term ≤ term) :
    heardVotes term (r :: replies) = grantedTo term [r] ++ heardVotes term replies := by
  rw [heardVotes, List.takeWhile_cons_of_pos (by simpa using hterm), grantedTo_cons]
  rfl

theorem heardVotes_isPrefix {p : List VoteReply} (hp : p <+: replies) :
    heardVotes term p <+: heardVotes term replies := by
  obtain ⟨rest, rfl⟩ := hp
  have hcut : p.takeWhile (fun r => decide (r.term ≤ term)) <+:
      (p ++ rest).takeWhile fun r => decide (r.term ≤ term) := by
    rw [List.takeWhile_append]
    split
    · exact (List.takeWhile_prefix _).trans (List.prefix_append _ _)
    · exact List.prefix_refl _
  exact (hcut.filter _).map _

theorem heardVotes_subset : heardVotes term replies ⊆ grantedTo term replies :=
  (((List.takeWhile_sublist _).filter _).map _).subset

end HeardVotes

/-- A follower that hears replies remains a follower. -/
theorem hear_follower {n : RaftNode} (hstate : n.state = .follower) (replies : List VoteReply) :
    (n.hear replies).state = .follower := by
  induction replies generalizing n with
  | nil => exact hstate
  | cons r rs ih =>
    apply ih
    have hheard := heard n r
    generalize n.hearReply r = n' at hheard
    cases hheard with
    | steppedDown => rfl
    | ignored => exact hstate
    | counted _ hcand => exact absurd (hstate.symm.trans hcand) (by decide)
    | elected _ hcand => exact absurd (hstate.symm.trans hcand) (by decide)

/-- What a reply makes of a candidate that is not alone. -/
inductive CandidateStep (n : RaftNode) (voters : List Nat) (r : VoteReply) (n' : RaftNode) : Prop
  | ended (hterm : n.currentTerm < r.term) (hstate : n'.state = .follower)
  | waits (hterm : r.term ≤ n.currentTerm) (hterm' : n'.currentTerm = n.currentTerm)
      (hpeers : n'.peerIds = n.peerIds)
      (hcand : Candidacy n' (voters ++ grantedTo n.currentTerm [r]))
  | elected (hterm : r.term ≤ n.currentTerm) (hstate : n'.state = .leader)
      (hlen : (voters ++ grantedTo n.currentTerm [r]).length + 1 = n.majority)

namespace Candidacy

variable {n : RaftNode} {voters : List Nat}

theorem step (hn : Candidacy n voters) (hpeers : n.peerIds ≠ []) (r : VoteReply) :
    CandidateStep n voters r (n.hearReply r) := by
  have hcount := hn.votes
  have hshort := hn.short.resolve_left hpeers
  have hheard := heard n r
  generalize n.hearReply r = n' at hheard
  cases hheard with
  | steppedDown hterm => exact .ended hterm rfl
  | ignored hterm hcause =>
    have hne : r.term ≠ n.currentTerm := hcause.resolve_right (not_not.mpr hn.state)
    refine .waits hterm rfl rfl ?_
    rwa [grantedTo_of_ne hne, List.append_nil]
  | counted hterm hstate votes hvotes hlt =>
    refine .waits hterm.le rfl rfl ⟨hstate, ?_, .inr hlt⟩
    show votes = _
    cases hyes : r.granted with
    | true =>
      rw [hyes, if_pos rfl] at hvotes
      rw [grantedTo_of_granted hterm hyes, List.length_append, List.length_singleton]
      omega
    | false =>
      rw [hyes, if_neg (by decide)] at hvotes
      rw [grantedTo_of_refused hyes, List.append_nil]
      omega
  | elected hterm hstate votes hvotes hle =>
    -- only a granted vote can reach the majority
    have hyes : r.granted = true := by
      by_contra hno
      rw [if_neg hno] at hvotes
      omega
    rw [if_pos hyes] at hvotes
    refine .elected hterm.le rfl ?_
    rw [grantedTo_of_granted hterm hyes, List.length_append, List.length_singleton]
    omega

/-- The replies that elect a candidate are those of its first `majority - 1` votes. -/
theorem exists_elected {replies : List VoteReply} (hn : Candidacy n voters)
    (hpeers : n.peerIds ≠ [])
    (henough : n.majority - 1 ≤ (voters ++ heardVotes n.currentTerm replies).length) :
    ∃ p, p <+: replies ∧ (n.hear p).state = .leader ∧
      voters ++ grantedTo n.currentTerm p =
        (voters ++ heardVotes n.currentTerm replies).take (n.majority - 1) := by
  -- along the replies; `voters` grows with the counter
  induction replies generalizing n voters with
  | nil =>
    have hshort := hn.short.resolve_left hpeers
    have hcount := hn.votes
    rw [heardVotes, List.takeWhile_nil, grantedTo, List.filter_nil, List.map_nil,
      List.append_nil] at henough
    omega
  | cons r rs ih =>
    cases hn.step hpeers r with
    | ended hterm =>
      have hshort := hn.short.resolve_left hpeers
      have hcount := hn.votes
      rw [heardVotes_cons_of_lt hterm, List.append_nil] at henough
      omega
    | waits hterm hterm' hpeers' hcand =>
      have hmajority : (n.hearReply r).majority = n.majority := by rw [majority, hpeers', majority]
      rw [heardVotes_cons_of_le hterm, ← List.append_assoc] at henough ⊢
      rw [← hmajority, ← hterm'] at henough
      obtain ⟨p, hp, hleader, hgranted⟩ := ih (hterm' ▸ hcand) (hpeers' ▸ hpeers) henough
      rw [hmajority, hterm'] at hgranted
      refine ⟨r :: p, (List.prefix_cons_inj r).mpr hp, hleader, ?_⟩
      rw [grantedTo_cons, ← List.append_assoc]
      exact hgranted
    | elected hterm hstate hlen =>
      refine ⟨[r], (List.prefix_cons_inj r).mpr List.nil_prefix, hstate, ?_⟩
      rw [heardVotes_cons_of_le hterm, ← List.append_assoc,
        List.take_left' (Nat.eq_sub_of_add_eq hlen)]

/-- A candidate is elected on as many votes as make a majority. -/
theorem le_of_elected {replies : List VoteReply} (hn : Candidacy n voters)
    (hpeers : n.peerIds ≠ []) (hleader : (n.hear replies).state = .leader) :
    n.majority - 1 ≤ (voters ++ heardVotes n.currentTerm replies).length := by
  induction replies generalizing n voters with
  | nil => exact absurd (hn.state.symm.trans hleader) (by decide)
  | cons r rs ih =>
    cases hn.step hpeers r with
    -- a follower is not elected any more
    | ended _ hstate => exact absurd ((hear_follower hstate rs).symm.trans hleader) (by decide)
    | waits hterm hterm' hpeers' hcand =>
      have hle := ih hcand (hpeers' ▸ hpeers) hleader
      rwa [majority, hpeers', hterm', List.append_assoc, ← heardVotes_cons_of_le hterm] at hle
    | elected hterm _ hlen =>
      rw [heardVotes_cons_of_le hterm, ← List.append_assoc, List.length_append]
      omega

end Candidacy

/-! ## Votes per peer -/

/-- Wherever the replies make the candidate a leader, the peers that granted it a vote by then
    are, with the candidate itself, a majority. -/
def CountsPeers (n : RaftNode) (voters : List Nat) (replies : List VoteReply) : Prop :=
  ∀ p, p <+: replies → (n.hear p).state = .leader →
    n.majority ≤
      (Quorum.counted n.peerIds n.nodeId (voters ++ grantedTo n.currentTerm p)).card

/-- If there are votes for a majority, those that come first are from different peers. -/
def FirstVotesDiffer (n : RaftNode) (voters : List Nat) (replies : List VoteReply) : Prop :=
  let votes := voters ++ heardVotes n.currentTerm replies
  let first := votes.take (n.majority - 1)
  n.majority - 1 ≤ votes.length → (n.nodeId :: first).Nodup ∧ ∀ v ∈ first, v ∈ n.peerIds

/-- Votes are counted per peer exactly if none of those that decide the election repeats. -/
theorem votes_distinct_iff {n : RaftNode} {voters : List Nat} (hn : Candidacy n voters)
    (replies : List VoteReply) :
    CountsPeers n voters replies ↔ FirstVotesDiffer n voters replies := by
  by_cases halone : n.peerIds = []
  · -- its own vote is a majority
    have hone : n.majority = 1 := by rw [majority, halone]; rfl
    refine iff_of_true (fun p _ _ => ?_) fun _ => ?_
    · rw [hone]
      exact Quorum.one_le_card_counted _ _ _
    · simp [hone]
  · unfold FirstVotesDiffer
    dsimp only
    generalize hfirst : (voters ++ heardVotes n.currentTerm replies).take (n.majority - 1) = first
    have hcard (henough : n.majority - 1 ≤
        (voters ++ heardVotes n.currentTerm replies).length) :
        n.majority ≤ (Quorum.counted n.peerIds n.nodeId first).card ↔
          (n.nodeId :: first).Nodup ∧ ∀ v ∈ first, v ∈ n.peerIds := by
      have hlen : first.length = n.majority - 1 := by rw [← hfirst, List.length_take]; omega
      rw [← Quorum.length_lt_card_counted_iff, hlen, majority]
      omega
    constructor
    · intro hcounts henough
      obtain ⟨p, hp, hleader, hgranted⟩ := hn.exists_elected halone henough
      have hle := hcounts p hp hleader
      rw [hgranted, hfirst] at hle
      exact (hcard henough).mp hle
    · intro hdiffer p hp hleader
      -- the votes that elect it come first in every longer run of replies
      have hle := hn.le_of_elected halone hleader
      have hvotes : voters ++ heardVotes n.currentTerm p <+:
          voters ++ heardVotes n.currentTerm replies :=
        (List.prefix_append_right_inj voters).mpr (heardVotes_isPrefix hp)
      have henough := hle.trans hvotes.length_le
      have hgranted : first ⊆ voters ++ grantedTo n.currentTerm p := by
        obtain ⟨rest, hrest⟩ := hvotes
        rw [← hfirst, ← hrest, List.take_append_of_le_length hle]
        intro v hv
        cases List.mem_append.mp (List.mem_of_mem_take hv) with
        | inl hv => exact List.mem_append_left _ hv
        | inr hv => exact List.mem_append_right _ (heardVotes_subset hv)
      calc n.majority
          ≤ (Quorum.counted n.peerIds n.nodeId first).card :=
            (hcard henough).mpr (hdiffer henough)
        _ ≤ _ := Finset.card_le_card (Quorum.counted_subset hgranted)

/-! ### Three votes and two -/

/-- Node 1 of five after its first timeout. -/
def fiveNodeCandidate : RaftNode := (RaftNode.new 1 [2, 3, 4, 5] (atTime 0)).tick (atTime 300)

def grantFrom (peer : Nat) : VoteReply := ⟨atTime 310, peer, 1, true⟩

theorem fiveNodeCandidate_candidacy : Candidacy fiveNodeCandidate [] :=
  ⟨rfl, rfl, .inr (by decide)⟩

theorem votes_distinct_two_peers :
    CountsPeers fiveNodeCandidate [] [grantFrom 2, grantFrom 3, grantFrom 2] :=
  (votes_distinct_iff fiveNodeCandidate_candidacy _).mpr fun _ => by decide

/-- The second copy of one reply makes the third vote of five. -/
theorem votes_repeated : ¬ ∀ (n : RaftNode) (voters : List Nat), Candidacy n voters →
    ∀ replies, CountsPeers n voters replies := by
  intro hall
  have hle := hall fiveNodeCandidate [] fiveNodeCandidate_candidacy [grantFrom 2, grantFrom 2]
    [grantFrom 2, grantFrom 2] (List.prefix_refl _) rfl
  exact absurd hle (by decide)

end Dkv
