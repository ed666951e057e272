import LearnGit.Spec.IndexSafety

/-!
# Committing by counting replicas

A leader looks for the last position behind its commit index that holds an entry of its own
term and is replicated on more than half of the cluster. The search goes down from the end of
the log, so the first hit is the last position, and without a hit nothing changes. That also
holds where the commit index is past the end of the log already.

## Key results

- `Checked.hasMajority_eq`: the test in machine integers is the test of the model
- `replicated_iff`: the test of the loop is the commit rule
- `advanceCommitIndex_exact`: the commit index after a call
-/

namespace Dkv

open RaftNode

variable {n : RaftNode} {i : Nat}

/-! ## The majority test -/

namespace Checked

theorem increment_of_lt {count : Nat} (hlt : count < 2 ^ 31 - 1) :
    increment count = some ((count + 1 : Nat) : Int) := by
  unfold increment
  rw [if_pos (by omega)]
  rfl

/-- The counter stays in the range of `int` as long as it has room for every peer. -/
theorem countReplicas_eq (hsize : n.peerIds.length < 2 ^ 31 - 1) (i : Nat) :
    countReplicas n i = some (n.replicaCount i : Int) := by
  -- from any start of the counter that leaves room for the peers
  have hloop (l : List Nat) (count : Nat) (hroom : count + l.length ≤ 2 ^ 31 - 1) :
      l.foldlM (fun count pid =>
          if n.matchIndex pid ≥ i then increment count else some count) (count : Int) =
        some ((count + l.countP fun pid => decide (i ≤ n.matchIndex pid) : Nat) : Int) := by
    induction l generalizing count with
    | nil => rfl
    | cons pid l ih =>
      rw [List.length_cons] at hroom
      rw [List.foldlM_cons]
      by_cases hmatch : i ≤ n.matchIndex pid
      · rw [if_pos hmatch, increment_of_lt (by omega),
          List.countP_cons_of_pos (by simpa using hmatch)]
        show List.foldlM _ ((count + 1 : Nat) : Int) l = _
        rw [ih (count + 1) (by omega), Nat.add_right_comm, Nat.add_assoc]
      · rw [if_neg hmatch, List.countP_cons_of_neg (by simpa using hmatch)]
        exact ih count (by omega)
  exact hloop n.peerIds 1 (by omega)

/-- Every peer of a node is an argument of `main`, and `argc` is an `int`. For so many peers the
    test in machine integers is that of the model. -/
theorem hasMajority_eq (hsize : n.peerIds.length < 2 ^ 31 - 1) (i : Nat) :
    hasMajority n i = some (decide (n.replicaCount i > (n.peerIds.length + 1) / 2)) := by
  have hcast : Int.bmod (n.peerIds.length + 1) (2 ^ 32) = ((n.peerIds.length + 1 : Nat) : Int) := by
    rw [Int.bmod_eq_of_le] <;> omega
  have hhalf : ((n.peerIds.length + 1 : Nat) : Int).tdiv 2 =
      (((n.peerIds.length + 1) / 2 : Nat) : Int) := rfl
  rw [hasMajority, countReplicas_eq hsize, hcast, hhalf]
  show some (decide _) = some (decide _)
  rw [decide_eq_decide.mpr Int.ofNat_lt]

end Checked

/-! ## The commit rule -/

/-- Position `i` can be committed by counting: it is behind the commit index, it holds an entry
    of the current term, and with the leader more than half of the `peerIds.length + 1` nodes
    have it. -/
structure Committable (n : RaftNode) (i : Nat) : Prop where
  commit_lt : n.commitIndex < i
  le_last : i ≤ n.getLastLogIndex
  current : ∃ e, n.log[i]? = some e ∧ e.term = n.currentTerm
  majority : n.peerIds.length + 1 < 2 * (1 + n.peerIds.countP fun pid => i ≤ n.matchIndex pid)

/-- `n'` is `n` after its commit index was advanced to the last position that can be committed. -/
structure AdvancesCommit (n n' : RaftNode) : Prop where
  greatest : (∃ i, Committable n i) → IsGreatest {i | Committable n i} n'.commitIndex
  unchanged : (¬ ∃ i, Committable n i) → n'.commitIndex = n.commitIndex
  le : n.commitIndex ≤ n'.commitIndex
  /-- No entry of another term is committed by counting. -/
  current : n'.commitIndex = n.commitIndex ∨
    ∃ e, n.log[n'.commitIndex]? = some e ∧ e.term = n.currentTerm
  frame : n' = { n with commitIndex := n'.commitIndex }

/-- Up to the end of the log the test of the loop is the commit rule. -/
theorem replicated_iff (hlast : i ≤ n.getLastLogIndex) : n.Replicated i ↔ Committable n i := by
  rw [Replicated, replicaCount]
  constructor
  · rintro ⟨hlt, hterm, hcount⟩
    have hi : i < n.log.length := by
      rw [getLastLogIndex_eq] at hlast
      omega
    have hget := List.getElem?_eq_getElem hi
    rw [getLogEntry_eq hget] at hterm
    exact ⟨hlt, hlast, ⟨_, hget, hterm⟩, by omega⟩
  · intro hi
    obtain ⟨e, hget, hterm⟩ := hi.current
    have hmajority := hi.majority
    rw [getLogEntry_eq hget]
    exact ⟨hi.commit_lt, hterm, by omega⟩

/-- The commit index after the search. -/
theorem advanceLoop_exact (n : RaftNode) :
    AdvancesCommit n { n with commitIndex := n.advanceLoop n.getLastLogIndex } := by
  rw [advanceLoop_eq_max]
  by_cases hsome : ∃ i, Committable n i
  · obtain ⟨i, hi⟩ := hsome
    have hfound : Committable n (Nat.findGreatest n.Replicated n.getLastLogIndex) :=
      (replicated_iff (Nat.findGreatest_le _)).mp
        (Nat.findGreatest_spec hi.le_last ((replicated_iff hi.le_last).mpr hi))
    rw [Nat.max_eq_right (Nat.le_of_lt hfound.commit_lt)]
    refine ⟨fun _ => ⟨hfound, fun j hj => ?_⟩, fun hnone => absurd ⟨i, hi⟩ hnone,
      Nat.le_of_lt hfound.commit_lt, .inr hfound.current, rfl⟩
    exact Nat.le_findGreatest hj.le_last ((replicated_iff hj.le_last).mpr hj)
  · have hzero : Nat.findGreatest n.Replicated n.getLastLogIndex = 0 :=
      Nat.findGreatest_eq_zero_iff.mpr fun i _ hi h => hsome ⟨i, (replicated_iff hi).mp h⟩
    rw [hzero, Nat.max_zero]
    exact ⟨fun h => absurd h hsome, fun _ => rfl, Nat.le_refl _, .inl rfl, rfl⟩

/-- A call on any leader reads within the log, and it advances the commit index to the last
    position that can be committed. -/
theorem advanceCommitIndex_exact (hleader : n.state = .leader) :
    ∃ n', Checked.advanceCommitIndex n = some n' ∧ AdvancesCommit n n' := by
  refine ⟨_, Checked.advanceCommitIndex_eq n, ?_⟩
  rw [RaftNode.advanceCommitIndex, if_neg fun h => h hleader]
  exact advanceLoop_exact n

/-- The leader of term 2 in a cluster of four. Position 3 is on two nodes, position 2 on three,
    and position 1, which all have, is of an older term. -/
def halfReplicated : RaftNode where
  currentTerm := 2
  log := [{}, ⟨1, 1, []⟩, ⟨2, 2, []⟩, ⟨2, 3, []⟩]
  state := .leader
  matchIndex := fun pid => if pid = 2 then 3 else if pid = 3 then 2 else 1
  lastHeartbeat := 0
  electionTimeoutMs := 150
  nodeId := 1
  peerIds := [2, 3, 4]

theorem advanceCommitIndex_halfReplicated :
    (∃ n', Checked.advanceCommitIndex halfReplicated = some n' ∧
      AdvancesCommit halfReplicated n') ∧
      halfReplicated.advanceCommitIndex.commitIndex = 2 :=
  ⟨advanceCommitIndex_exact rfl, by decide⟩

end Dkv
