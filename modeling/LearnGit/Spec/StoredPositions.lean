import Mathlib

/-!
# Which log positions stay stored

An abstract view of a sequence of persists. A persist of a log with positions 1 to `n`
adds these positions to the stored ones and then removes the positions that were
stored before, of which it sees only the lowest `limit`.

## Key results

- `mem_storedPositions_iff_odd`: a low position is stored after an odd number of
  persists in a row that reached it
- `seen_persistPositions_iff`: when exactly the positions 1 to `n` are read back
-/

namespace Dkv

/-- The positions a reader with a limit gets to see, in ascending order. -/
def seenPositions (limit : Nat) (S : Finset Nat) : List Nat := (S.sort (· ≤ ·)).take limit

/-- The stored positions after the persist of a log that ends at position `n`. -/
def persistPositions (limit : Nat) (S : Finset Nat) (n : Nat) : Finset Nat :=
  (Finset.Icc 1 n ∪ S) \ (seenPositions limit S).toFinset

/-- The stored positions after persists of logs that end at the positions `ns`, the
    last persist first. -/
def storedPositions (limit : Nat) : List Nat → Finset Nat
  | [] => ∅
  | n :: ns => persistPositions limit (storedPositions limit ns) n

variable {limit n : Nat} {S : Finset Nat} {ns : List Nat}

/-! ## What is seen -/

theorem mem_of_mem_seenPositions {i : Nat} (hi : i ∈ seenPositions limit S) : i ∈ S :=
  (Finset.mem_sort _).mp (List.mem_of_mem_take hi)

/-- The first elements of an ascending list of numbers from `b` on include all that are
    below `b + limit`. -/
private theorem mem_take_of_lt {l : List Nat} (hl : l.Pairwise (· < ·)) {b i : Nat}
    (hb : ∀ x ∈ l, b ≤ x) (hi : i ∈ l) (hlt : i < b + limit) : i ∈ l.take limit := by
  induction l generalizing b limit with
  | nil => exact (List.not_mem_nil hi).elim
  | cons x l ih =>
    obtain ⟨hx, hl⟩ := List.pairwise_cons.mp hl
    have hbx := hb x List.mem_cons_self
    cases limit with
    | zero =>
      have := hb i hi
      omega
    | succ limit =>
      rw [List.take_succ_cons]
      rcases List.mem_cons.mp hi with rfl | hi
      · exact List.mem_cons_self
      · refine List.mem_cons_of_mem _ (ih (b := b + 1) hl (fun y hy => ?_) hi (by omega))
        have := hx y hy
        omega

/-- A position up to the limit is always seen. -/
theorem mem_seenPositions_of_le (hpos : 0 ∉ S) {i : Nat} (hi : i ∈ S) (hle : i ≤ limit) :
    i ∈ seenPositions limit S := by
  refine mem_take_of_lt (b := 1) (Finset.sortedLT_sort S).pairwise (fun x hx => ?_)
    ((Finset.mem_sort _).mpr hi) (by omega)
  have hx := (Finset.mem_sort _).mp hx
  exact Nat.one_le_iff_ne_zero.mpr fun hzero => hpos (hzero ▸ hx)

theorem seenPositions_of_card_le (hcard : S.card ≤ limit) :
    seenPositions limit S = S.sort (· ≤ ·) :=
  List.take_of_length_le (by rwa [Finset.length_sort])

/-! ## Stored positions -/

theorem zero_notMem_persistPositions (hpos : 0 ∉ S) : 0 ∉ persistPositions limit S n := by
  rw [persistPositions, Finset.mem_sdiff, Finset.mem_union, Finset.mem_Icc]
  rintro ⟨⟨hle, -⟩ | hmem, -⟩
  · omega
  · exact hpos hmem

theorem zero_notMem_storedPositions (limit : Nat) (ns : List Nat) :
    0 ∉ storedPositions limit ns := by
  induction ns with
  | nil => exact Finset.notMem_empty 0
  | cons n ns ih => exact zero_notMem_persistPositions ih

/-- A persist turns the positions it reaches around, as long as they are seen. -/
theorem mem_persistPositions_of_le (hpos : 0 ∉ S) {i : Nat} (hi : 1 ≤ i) (hle : i ≤ limit) :
    i ∈ persistPositions limit S n ↔ i ≤ n ∧ i ∉ S := by
  rw [persistPositions, Finset.mem_sdiff, Finset.mem_union, Finset.mem_Icc, List.mem_toFinset]
  constructor
  · rintro ⟨hmem, hseen⟩
    have hnot : i ∉ S := fun hS => hseen (mem_seenPositions_of_le hpos hS hle)
    exact ⟨hmem.elim And.right fun hS => absurd hS hnot, hnot⟩
  · rintro ⟨hn, hnot⟩
    exact ⟨.inl ⟨hi, hn⟩, fun hseen => hnot (mem_of_mem_seenPositions hseen)⟩

/-- A low position is stored after an odd number of persists in a row that reached it. -/
theorem mem_storedPositions_iff_odd {i : Nat} (hi : 1 ≤ i) (hle : i ≤ limit) :
    i ∈ storedPositions limit ns ↔ Odd (ns.takeWhile (i ≤ ·)).length := by
  induction ns with
  | nil => simp [storedPositions]
  | cons n ns ih =>
    rw [storedPositions,
      mem_persistPositions_of_le (zero_notMem_storedPositions limit ns) hi hle, ih]
    by_cases hn : i ≤ n
    · rw [List.takeWhile_cons_of_pos (by simpa using hn), List.length_cons, Nat.odd_add_one]
      exact and_iff_right hn
    · rw [List.takeWhile_cons_of_neg (by simpa using hn)]
      simp [hn]

/-! ## Reading back the last log -/

/-- Exactly the positions 1 to `n` are read back after a persist if it was not too long,
    none of them was stored before it, and it could see all that were. -/
theorem seen_persistPositions_iff (hpos : 0 ∉ S) :
    seenPositions limit (persistPositions limit S n) = List.range' 1 n ↔
      n ≤ limit ∧ (∀ i ∈ Finset.Icc 1 n, i ∉ S) ∧ (n = limit ∨ S.card ≤ limit) := by
  constructor
  · intro hseen
    have hlen : min limit (persistPositions limit S n).card = n := by
      have := congrArg List.length hseen
      rwa [seenPositions, List.length_take, Finset.length_sort, List.length_range'] at this
    have hn : n ≤ limit := by omega
    have hfresh : ∀ i ∈ Finset.Icc 1 n, i ∉ S := by
      intro i hi
      rw [Finset.mem_Icc] at hi
      have hmem : i ∈ seenPositions limit (persistPositions limit S n) := by
        rw [hseen, List.mem_range'_1]
        omega
      exact ((mem_persistPositions_of_le hpos hi.1 (hi.2.trans hn)).mp
        (mem_of_mem_seenPositions hmem)).2
    refine ⟨hn, hfresh, ?_⟩
    by_contra hnot
    obtain ⟨hne, hcard⟩ := not_or.mp hnot
    -- a position that the persist did not see is still there, and is read back
    obtain ⟨i, hiS, hiseen⟩ : ∃ i ∈ S, i ∉ (seenPositions limit S).toFinset := by
      refine Finset.exists_mem_notMem_of_card_lt_card ?_
      have hle := (seenPositions limit S).toFinset_card_le
      have htake : (seenPositions limit S).length ≤ limit := List.length_take_le _ _
      omega
    have hi : i ∈ persistPositions limit S n :=
      Finset.mem_sdiff.mpr ⟨Finset.mem_union_right _ hiS, hiseen⟩
    have hall : seenPositions limit (persistPositions limit S n) =
        (persistPositions limit S n).sort (· ≤ ·) := seenPositions_of_card_le (by omega)
    rw [← Finset.mem_sort (· ≤ ·), ← hall, hseen, List.mem_range'_1] at hi
    exact hfresh i (Finset.mem_Icc.mpr (by omega)) hiS
  · rintro ⟨hn, hfresh, hfull⟩
    have hmem : ∀ i, 1 ≤ i → i ≤ n → i ∈ seenPositions limit (persistPositions limit S n) := by
      intro i hi hin
      have hnot := hfresh i (Finset.mem_Icc.mpr ⟨hi, hin⟩)
      refine mem_seenPositions_of_le (zero_notMem_persistPositions hpos) ?_ (hin.trans hn)
      exact (mem_persistPositions_of_le hpos hi (hin.trans hn)).mpr ⟨hin, hnot⟩
    refine List.Pairwise.eq_of_mem_iff (r := (· < ·))
      ((Finset.sortedLT_sort _).pairwise.sublist (List.take_sublist _ _))
      List.pairwise_lt_range' fun i => ?_
    rw [List.mem_range'_1]
    refine ⟨fun hi => ?_, fun hi => hmem i hi.1 (by omega)⟩
    have hstored := mem_of_mem_seenPositions hi
    have hi0 : i ≠ 0 := fun hzero => zero_notMem_persistPositions hpos (hzero ▸ hstored)
    rcases hfull with rfl | hcard
    · -- the reader has no room for more than the positions 1 to `n`
      by_contra hgt
      have hsub : insert i (Finset.Icc 1 n) ⊆
          (seenPositions n (persistPositions n S n)).toFinset := by
        refine Finset.insert_subset (List.mem_toFinset.mpr hi) fun j hj => ?_
        rw [Finset.mem_Icc] at hj
        exact List.mem_toFinset.mpr (hmem j hj.1 hj.2)
      have hle := (Finset.card_le_card hsub).trans (List.toFinset_card_le _)
      have htake : (seenPositions n (persistPositions n S n)).length ≤ n :=
        List.length_take_le _ _
      rw [Finset.card_insert_of_notMem (by rw [Finset.mem_Icc]; omega), Nat.card_Icc] at hle
      omega
    · -- all old positions were seen and removed
      rw [persistPositions, seenPositions_of_card_le hcard, Finset.sort_toFinset,
        Finset.union_sdiff_right, Finset.mem_sdiff, Finset.mem_Icc] at hstored
      omega

end Dkv
