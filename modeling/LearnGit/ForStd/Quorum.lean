import Mathlib.Data.Finset.Card

/-!
# Majorities of a finite set

A majority holds strictly more than half of the members, so two majorities of
the same set share a member. A list of ballots names as many members as it has
ballots exactly if none comes twice and none from outside.
-/

namespace Quorum

variable {α : Type*} [DecidableEq α]

/-- `Q` is a majority of `members`. -/
def Majority (members Q : Finset α) : Prop :=
  Q ⊆ members ∧ members.card / 2 < Q.card

instance (members Q : Finset α) : Decidable (Majority members Q) :=
  inferInstanceAs (Decidable (_ ∧ _))

/-- Any two majorities of the same set meet. -/
theorem Majority.exists_common {members Q W : Finset α} (hQ : Majority members Q)
    (hW : Majority members W) : ∃ v ∈ Q, v ∈ W := by
  have hcard : members.card < Q.card + W.card := by
    have := hQ.2
    have := hW.2
    omega
  obtain ⟨v, hv⟩ := Finset.inter_nonempty_of_card_lt_card_add_card hQ.1 hW.1 hcard
  exact ⟨v, (Finset.mem_inter.mp hv).1, (Finset.mem_inter.mp hv).2⟩

/-- The members among those who sent a ballot, and `a` itself. -/
def counted (members : List α) (a : α) (ballots : List α) : Finset α :=
  insert a (ballots.toFinset.filter (· ∈ members))

theorem counted_subset {members ballots ballots' : List α} {a : α} (h : ballots ⊆ ballots') :
    counted members a ballots ⊆ counted members a ballots' := by
  apply Finset.insert_subset_insert
  apply Finset.filter_subset_filter
  intro v hv
  rw [List.mem_toFinset] at hv ⊢
  exact h hv

theorem one_le_card_counted (members : List α) (a : α) (ballots : List α) :
    1 ≤ (counted members a ballots).card :=
  Finset.card_pos.mpr ⟨a, Finset.mem_insert_self _ _⟩

/-- Every ballot counts exactly if they come from different members, and none from `a`. -/
theorem length_lt_card_counted_iff {members ballots : List α} {a : α} :
    ballots.length < (counted members a ballots).card ↔
      (a :: ballots).Nodup ∧ ∀ v ∈ ballots, v ∈ members := by
  have hsub : counted members a ballots ⊆ (a :: ballots).toFinset := by
    rw [List.toFinset_cons]
    exact Finset.insert_subset_insert _ (Finset.filter_subset _ _)
  constructor
  · -- so many voters are counted only if every ballot is from another one of them
    intro hlt
    have hle := List.toFinset_card_le (a :: ballots)
    rw [List.length_cons] at hle
    have heq := Finset.eq_of_subset_of_card_le hsub (by omega)
    have hnodup : (a :: ballots).Nodup := by
      apply List.dedup_eq_self.mp
      apply (List.dedup_sublist _).eq_of_length_le
      rw [← List.card_toFinset, ← heq, List.length_cons]
      omega
    refine ⟨hnodup, fun v hv => ?_⟩
    have hmem : v ∈ counted members a ballots := by
      rw [heq, List.mem_toFinset]
      exact List.mem_cons_of_mem _ hv
    cases Finset.mem_insert.mp hmem with
    | inl heq =>
      rw [heq] at hv
      exact absurd hv (List.nodup_cons.mp hnodup).1
    | inr hmem => exact (Finset.mem_filter.mp hmem).2
  · intro ⟨hnodup, hmem⟩
    have heq : counted members a ballots = (a :: ballots).toFinset := by
      rw [counted, List.toFinset_cons, Finset.filter_true_of_mem]
      intro v hv
      exact hmem v (List.mem_toFinset.mp hv)
    rw [heq, List.toFinset_card_of_nodup hnodup, List.length_cons]
    omega

end Quorum
