import Mathlib

/-!
# Partitions into ranges

Ascending split points cut the part of a linear order that begins at the first of them
into ranges. Each point of that part lies in exactly one range, and no other point does.

## Key results

- `existsUnique_cell_iff`: which points lie in exactly one range
- `countP_splitRanges`: how many of the ranges of a list of split points a point lies in
- `countP_eq_one_iff`: exactly one element of a list has a property
-/

namespace RangePartition

variable {α : Type*}

/-- Exactly one element of a list without repetitions has a property. -/
theorem countP_eq_one_iff {l : List α} (hl : l.Nodup) {p : α → Bool} :
    l.countP p = 1 ↔ ∃! x, x ∈ l ∧ p x = true := by
  rw [List.countP_eq_length_filter, List.length_eq_one_iff]
  constructor
  · rintro ⟨x, hx⟩
    have hmem (y : α) : y ∈ l ∧ p y = true ↔ y = x := by
      rw [← List.mem_filter, hx, List.mem_singleton]
    exact ⟨x, (hmem x).mpr rfl, fun y hy => (hmem y).mp hy⟩
  · rintro ⟨x, hx, huniq⟩
    refine ⟨x, List.perm_singleton.mp ?_⟩
    rw [List.perm_ext_iff_of_nodup (hl.filter p) (List.nodup_singleton x)]
    intro y
    rw [List.mem_filter, List.mem_singleton]
    exact ⟨huniq y, fun heq => heq ▸ hx⟩

section Cells

variable [LinearOrder α] {b : ℕ → α}

/-- `x` lies in range `i` of the `n` ranges with the lower bounds `b`. The last range has no
    upper bound. -/
def InCell (b : ℕ → α) (n i : ℕ) (x : α) : Prop := b i ≤ x ∧ (i + 1 < n → x < b (i + 1))

/-- Ascending ranges do not overlap. -/
theorem InCell.unique (hb : Monotone b) {n i j : ℕ} {x : α} (hi : i < n) (hj : j < n)
    (hxi : InCell b n i x) (hxj : InCell b n j x) : i = j := by
  by_contra hne
  rcases Nat.lt_or_gt_of_ne hne with hlt | hgt
  · exact absurd (hxi.2 (lt_of_le_of_lt hlt hj)) (not_lt.mpr ((hb hlt).trans hxj.1))
  · exact absurd (hxj.2 (lt_of_le_of_lt hgt hi)) (not_lt.mpr ((hb hgt).trans hxi.1))

/-- The ranges cover exactly what is not below the first split point. -/
theorem exists_cell_iff (hb : Monotone b) {n : ℕ} (hn : 0 < n) (x : α) :
    (∃ i, i < n ∧ InCell b n i x) ↔ b 0 ≤ x := by
  constructor
  · rintro ⟨i, -, hle, -⟩
    exact (hb (Nat.zero_le i)).trans hle
  · intro hle
    -- the last split point that is not above `x`
    have hspec : b (Nat.findGreatest (fun i => b i ≤ x) (n - 1)) ≤ x :=
      Nat.findGreatest_spec (P := fun i => b i ≤ x) (Nat.zero_le _) hle
    have hbound := Nat.findGreatest_le (P := fun i => b i ≤ x) (n - 1)
    refine ⟨_, by omega, hspec, fun hlt => ?_⟩
    exact not_le.mp (Nat.findGreatest_is_greatest (P := fun i => b i ≤ x) (n := n - 1)
      (Nat.lt_succ_self _) (by omega))

theorem existsUnique_cell_iff (hb : Monotone b) {n : ℕ} (hn : 0 < n) (x : α) :
    (∃! i, i < n ∧ InCell b n i x) ↔ b 0 ≤ x := by
  rw [← exists_cell_iff hb hn x]
  constructor
  · rintro ⟨i, hi, -⟩
    exact ⟨i, hi⟩
  · rintro ⟨i, hi⟩
    exact ⟨i, hi, fun j hj => InCell.unique hb hj.1 hi.1 hj.2 hi.2⟩

end Cells

/-! ## Ranges between the points of a list -/

section Splits

variable [Ord α] [Std.TransOrd α]

/-- The ranges into which split points cut what lies from `lo` on. Without a lower bound a
    range goes down to minus infinity, without an upper bound up to plus infinity. -/
def splitRanges (lo : Option α) : List α → List (Option α × Option α)
  | [] => [(lo, none)]
  | k :: ks => (lo, some k) :: splitRanges (some k) ks

/-- `x` is not below the lower bound. -/
def fromBound (lo : Option α) (x : α) : Bool := lo.all fun k => (compare k x).isLE

/-- `x` is below the upper bound. -/
def toBound (hi : Option α) (x : α) : Bool := hi.all fun k => (compare x k).isLT

def inSplit (x : α) (r : Option α × Option α) : Bool := fromBound r.1 x && toBound r.2 x

omit [Std.TransOrd α] in
theorem not_toBound_some [Std.OrientedOrd α] {k x : α} :
    toBound (some k) x = !fromBound (some k) x := by
  rw [toBound, fromBound, Option.all_some, Option.all_some, Std.OrientedOrd.eq_swap]
  cases compare k x <;> rfl

theorem fromBound_mono {lo : Option α} {k x : α} (hlo : ∀ l ∈ lo, compare l k = .lt)
    (hk : fromBound (some k) x = true) : fromBound lo x = true := by
  cases lo with
  | none => rfl
  | some l =>
    rw [fromBound, Option.all_some] at hk ⊢
    exact Std.TransCmp.isLE_trans (Ordering.isLE_of_eq_lt (hlo l rfl)) hk

/-- A point lies in exactly one of the ranges, if it is not below the lower bound of all. -/
theorem countP_splitRanges {lo : Option α} {ks : List α}
    (hasc : ks.Pairwise fun k k' => compare k k' = .lt)
    (hlo : ∀ k ∈ ks, ∀ l ∈ lo, compare l k = .lt) (x : α) :
    (splitRanges lo ks).countP (inSplit x) = (fromBound lo x).toNat := by
  induction ks generalizing lo with
  | nil =>
    rw [splitRanges, List.countP_singleton, inSplit, toBound, Option.all_none, Bool.and_true]
    cases fromBound lo x <;> rfl
  | cons k ks ih =>
    obtain ⟨hk, hks⟩ := List.pairwise_cons.mp hasc
    have hrest : (splitRanges (some k) ks).countP (inSplit x) = (fromBound (some k) x).toNat :=
      ih hks fun k' hk' l hl => by
        cases hl
        exact hk k' hk'
    rw [splitRanges, List.countP_cons, hrest]
    have hfirst : inSplit x (lo, some k) = (fromBound lo x && !fromBound (some k) x) := by
      rw [inSplit, not_toBound_some]
    rw [hfirst]
    cases hfrom : fromBound (some k) x with
    | false => cases fromBound lo x <;> rfl
    | true =>
      rw [fromBound_mono (hlo k List.mem_cons_self) hfrom]
      rfl

end Splits

end RangePartition
