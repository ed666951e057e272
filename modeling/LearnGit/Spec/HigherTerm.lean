import LearnGit.Spec.ReplicationProgress

/-!
# A higher term wins

Both request handlers and the handler of vote responses step down when a message
carries a higher term. `processAppendEntriesResponse` does not: it returns on every
term that is not its own.

## Key results

- `higherTermWins_iff`: a node follows the rule exactly on all other messages
- `higherTerm_ignored`: a leader that ignores the term of an AppendEntries response
-/

namespace Dkv

open Transition

namespace RaftNode

variable {n : RaftNode} {env : Env}

private theorem handleRequestVote_follows {req : RequestVoteRequest}
    (hlt : n.currentTerm < req.term) : (n.handleRequestVote env req).1.state = .follower ∧
      (n.handleRequestVote env req).1.currentTerm = req.term := by
  unfold handleRequestVote
  rw [catchUp_of_lt hlt]
  dsimp only
  split <;> exact ⟨rfl, rfl⟩

private theorem processRequestVoteResponse_follows (src : Nat) {term : Nat} {granted : Bool}
    (hlt : n.currentTerm < term) :
    (n.processRequestVoteResponse env src term granted).state = .follower ∧
      (n.processRequestVoteResponse env src term granted).currentTerm = term := by
  unfold processRequestVoteResponse
  rw [if_pos hlt]
  exact ⟨rfl, rfl⟩

private theorem updateCommitIndex_frame (n : RaftNode) (leaderCommit : Nat) :
    (n.updateCommitIndex leaderCommit).state = n.state ∧
      (n.updateCommitIndex leaderCommit).currentTerm = n.currentTerm := by
  unfold updateCommitIndex
  split <;> exact ⟨rfl, rfl⟩

private theorem handleAppendEntries_follows {req : AppendEntriesRequest}
    (hlt : n.currentTerm < req.term) : (n.handleAppendEntries env req).1.state = .follower ∧
      (n.handleAppendEntries env req).1.currentTerm = req.term := by
  unfold handleAppendEntries
  rw [if_neg (by omega)]
  have hcatch : ({ n with lastHeartbeat := env.now } : RaftNode).catchUp env req.term =
      ({ n with lastHeartbeat := env.now } : RaftNode).becomeFollower env req.term :=
    catchUp_of_lt hlt
  dsimp only
  rw [hcatch]
  split
  · exact ⟨rfl, rfl⟩
  · split
    · exact ⟨rfl, rfl⟩
    · rw [applyEntries_eq]
      exact updateCommitIndex_frame _ _

/-- An AppendEntries response of another term changes nothing. -/
private theorem processAppendEntriesResponse_of_ne {src term matchIndex : Nat} {success : Bool}
    (hne : term ≠ n.currentTerm) :
    n.processAppendEntriesResponse src term success matchIndex = n := by
  unfold processAppendEntriesResponse
  rw [if_pos (.inr hne)]

end RaftNode

/-- What the processing of a message owes to its term: a higher term makes the node a
    follower of that term, and no message takes the term back. -/
def HigherTermWins (n n' : RaftNode) (msg : RaftMessage) : Prop :=
  (n.currentTerm < msg.term → n'.state = .follower ∧ n'.currentTerm = msg.term) ∧
    n.currentTerm ≤ n'.currentTerm

/-- The message is an AppendEntries response. -/
def RaftMessage.isAppendEntriesResp : RaftMessage → Bool
  | .appendEntriesResp _ => true
  | _ => false

/-- A node gives a higher term its due exactly if the message that carries it is not
    an AppendEntries response. -/
theorem higherTermWins_iff (n : RaftNode) (env : Env) (src : Nat) (msg : RaftMessage) :
    HigherTermWins n (n.handleRaftMessage env src msg).1 msg ↔
      ¬ (msg.isAppendEntriesResp = true ∧ n.currentTerm < msg.term) := by
  have hmono : n.currentTerm ≤ (n.handleRaftMessage env src msg).1.currentTerm :=
    (n.react_cases env (.message src msg)).term_le
  cases msg with
  | requestVote req =>
    exact ⟨fun _ hresp => (nomatch hresp.1), fun _ => ⟨RaftNode.handleRequestVote_follows, hmono⟩⟩
  | requestVoteResp resp =>
    exact ⟨fun _ hresp => (nomatch hresp.1),
      fun _ => ⟨RaftNode.processRequestVoteResponse_follows src, hmono⟩⟩
  | appendEntries req =>
    exact ⟨fun _ hresp => (nomatch hresp.1), fun _ => ⟨RaftNode.handleAppendEntries_follows, hmono⟩⟩
  | appendEntriesResp resp =>
    constructor
    · rintro ⟨hwins, -⟩ ⟨-, hlt⟩
      -- the handler returned at once, so the term is still the old one
      have hterm := (hwins hlt).2
      have hlt : n.currentTerm < resp.term := hlt
      have hsame : n.processAppendEntriesResponse src resp.term resp.success resp.matchIndex = n :=
        RaftNode.processAppendEntriesResponse_of_ne (by omega)
      have hterm : (n.processAppendEntriesResponse src resp.term resp.success
          resp.matchIndex).currentTerm = resp.term := hterm
      rw [hsame] at hterm
      omega
    · exact fun hnot => ⟨fun hlt => absurd ⟨rfl, hlt⟩ hnot, hmono⟩

/-- Node 1 leads term 1. Node 3 times out, enters term 2 and refuses node 1's heartbeat. -/
def heartbeatRefused : List Event :=
  [.tick 1 (atTime 200),
    .deliver ⟨1, 2, .requestVote ⟨1, 1, 0, 0⟩⟩ (atTime 210),
    .deliver ⟨2, 1, .requestVoteResp ⟨1, true⟩⟩ (atTime 220),
    .tick 3 (atTime 230),
    .tick 3 (atTime 400),
    .deliver ⟨1, 3, .appendEntries ⟨1, 1, 0, 0, 0, []⟩⟩ (atTime 410)]

theorem heartbeatRefused_runs : (schedule 3 heartbeatRefused).isSome := by decide +kernel

/-- The leader stays leader of the old term, even for messages that are really in flight. -/
theorem higherTerm_ignored :
    ¬ ∀ (M : Membership) (h : List (Cluster × Event)) (c : Cluster), Run (raftSystem M) h c →
      ∀ p ∈ c.net, p.dst ∈ M.ids → ∀ env,
        HigherTermWins (c.nodes p.dst) ((c.nodes p.dst).handleRaftMessage env p.src p.msg).1
          p.msg := by
  intro hall
  have hwins := hall _ _ _ (schedule_run heartbeatRefused_runs)
    ⟨3, 1, .appendEntriesResp ⟨2, false, 0⟩⟩ (by decide +kernel) (by decide)
    (atTime 420)
  exact absurd (hwins.1 (by decide +kernel)).2 (by decide +kernel)

end Dkv
