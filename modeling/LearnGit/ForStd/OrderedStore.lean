import Mathlib

/-!
# Ranges of an ordered map

A key-value store is an ordered map from the standard library. A cursor is placed
at the first key from a start key on and walks upwards, so what it passes before a
stop key are exactly the pairs of the half-open range, in ascending order.

## Key results

- `mem_range`: a range holds the pairs of the map with keys in the range
- `range_congr`: a range depends on nothing outside of it
- `takeWhile_seek`: walking from the start key to the stop key lists the range
- `range_eq_of_ascending`: an ascending list with the same pairs is the range
- `range_eq_map_sort`: a range whose keys are ordered like the elements of a finite set
- `range_back`: a range goes on from each of its keys
- `take_range_eq_iff`: when the first pairs of a range are those of a part of the map
-/

namespace OrderedStore

variable {κ υ : Type*} [Ord κ] [Std.TransOrd κ]

/-! ## Ascending lists of pairs -/

def Ascending (l : List (κ × υ)) : Prop := l.Pairwise fun p q => compare p.1 q.1 = .lt

instance irrefl_keys : Std.Irrefl fun p q : κ × υ => compare p.1 q.1 = .lt :=
  ⟨fun p hlt => by simp at hlt⟩

instance antisymm_keys : Std.Antisymm fun p q : κ × υ => compare p.1 q.1 = .lt :=
  ⟨fun p q hpq hqp => absurd (Std.TransCmp.lt_trans hpq hqp) (by simp)⟩

theorem Ascending.ext {l l' : List (κ × υ)} (hl : Ascending l) (hl' : Ascending l')
    (hmem : ∀ p, p ∈ l ↔ p ∈ l') : l = l' :=
  List.Pairwise.eq_of_mem_iff hl hl' hmem

omit [Std.TransOrd κ] in
theorem Ascending.filter {l : List (κ × υ)} (hl : Ascending l) (f : κ × υ → Bool) :
    Ascending (l.filter f) :=
  List.Pairwise.filter f hl

/-- In an ascending list a pair is below a key when a later one is. -/
theorem Ascending.below_mono {l : List (κ × υ)} (hl : Ascending l) (t : κ) :
    l.Pairwise fun p q => (compare q.1 t).isLT → (compare p.1 t).isLT := by
  refine List.Pairwise.imp (fun {p q} hpq hq => ?_) hl
  rw [Ordering.isLT_iff_eq_lt] at hq ⊢
  exact Std.TransCmp.lt_trans hpq hq

/-- Once a predicate fails along the list it fails for good. -/
theorem takeWhile_eq_filter {α : Type*} {P : α → Bool} {l : List α}
    (hmono : l.Pairwise fun x y => P y → P x) : l.takeWhile P = l.filter P := by
  induction l with
  | nil => rfl
  | cons x l ih =>
    obtain ⟨hx, hl⟩ := List.pairwise_cons.mp hmono
    by_cases hP : P x
    · rw [List.takeWhile_cons_of_pos hP, List.filter_cons_of_pos hP, ih hl]
    · rw [List.takeWhile_cons_of_neg hP, List.filter_cons_of_neg hP]
      symm
      rw [List.filter_eq_nil_iff]
      exact fun y hy hPy => hP (hx y hy hPy)

theorem dropWhile_eq_filter {α : Type*} {P : α → Bool} {l : List α}
    (hmono : l.Pairwise fun x y => P y → P x) : l.dropWhile P = l.filter fun x => !P x := by
  induction l with
  | nil => rfl
  | cons x l ih =>
    obtain ⟨hx, hl⟩ := List.pairwise_cons.mp hmono
    by_cases hP : P x
    · rw [List.dropWhile_cons_of_pos hP, List.filter_cons_of_neg (by simp [hP]), ih hl]
    · rw [List.dropWhile_cons_of_neg hP]
      symm
      rw [List.filter_eq_self]
      intro y hy
      rcases List.mem_cons.mp hy with rfl | hy
      · simpa using hP
      · simpa using fun hPy => hP (hx y hy hPy)

/-! ## Ranges -/

/-- The key is below the stop key; without a stop key every key is. -/
def below (stop : Option κ) (k : κ) : Bool := stop.all fun t => (compare k t).isLT

/-- The half-open range of keys from `start` to `stop`. -/
def inRange (start : κ) (stop : Option κ) (k : κ) : Bool :=
  !(compare k start).isLT && below stop k

/-- The pairs of a map in a range of keys, in ascending order. -/
def range (m : Std.ExtTreeMap κ υ) (start : κ) (stop : Option κ) : List (κ × υ) :=
  m.toList.filter fun p => inRange start stop p.1

/-- What a cursor placed at `start` has in front of it. -/
def seek (m : Std.ExtTreeMap κ υ) (start : κ) : List (κ × υ) :=
  m.toList.dropWhile fun p => (compare p.1 start).isLT

theorem ascending_range (m : Std.ExtTreeMap κ υ) (start : κ) (stop : Option κ) :
    Ascending (range m start stop) :=
  Ascending.filter (Std.ExtTreeMap.ordered_keys_toList (t := m)) _

/-- Walking from the start key to the stop key lists the range. -/
theorem takeWhile_seek (m : Std.ExtTreeMap κ υ) (start : κ) (stop : Option κ) :
    (seek m start).takeWhile (fun p => below stop p.1) = range m start stop := by
  have hasc : Ascending m.toList := Std.ExtTreeMap.ordered_keys_toList
  rw [seek, dropWhile_eq_filter (hasc.below_mono start), range]
  cases stop with
  | none =>
    rw [List.takeWhile_eq_self_iff.mpr (by simp [below])]
    simp [inRange, below]
  | some t =>
    simp only [below, Option.all_some]
    rw [takeWhile_eq_filter ((hasc.filter _).below_mono t), List.filter_filter]
    simp [inRange, below, Bool.and_comm]

variable [Std.LawfulEqOrd κ]

@[simp] theorem mem_range {m : Std.ExtTreeMap κ υ} {start : κ} {stop : Option κ} {k : κ} {v : υ} :
    (k, v) ∈ range m start stop ↔ m[k]? = some v ∧ inRange start stop k = true := by
  simp [range]

/-- A range depends on nothing outside of it. -/
theorem range_congr {m m' : Std.ExtTreeMap κ υ} {start : κ} {stop : Option κ}
    (heq : ∀ k, inRange start stop k = true → m[k]? = m'[k]?) :
    range m start stop = range m' start stop := by
  refine (ascending_range m start stop).ext (ascending_range m' start stop) fun p => ?_
  obtain ⟨k, v⟩ := p
  rw [mem_range, mem_range]
  constructor
  · rintro ⟨hget, hin⟩
    exact ⟨(heq k hin).symm.trans hget, hin⟩
  · rintro ⟨hget, hin⟩
    exact ⟨(heq k hin).trans hget, hin⟩

/-- An ascending list with the pairs of a range is the range. -/
theorem range_eq_of_ascending {m : Std.ExtTreeMap κ υ} {start : κ} {stop : Option κ}
    {l : List (κ × υ)} (hl : Ascending l)
    (hmem : ∀ k v, (k, v) ∈ l ↔ m[k]? = some v ∧ inRange start stop k = true) :
    range m start stop = l :=
  (ascending_range m start stop).ext hl fun ⟨k, v⟩ => mem_range.trans (hmem k v).symm

/-- Where the keys of a range stand for the elements of a finite set, in their order, the range
    lists them in that order. -/
theorem range_eq_map_sort {ι : Type*} [LinearOrder ι] {m : Std.ExtTreeMap κ υ} {start : κ}
    {stop : Option κ} {S : Finset ι} {key : ι → κ} {value : ι → υ}
    (hmono : ∀ a ∈ S, ∀ b ∈ S, a < b → compare (key a) (key b) = .lt)
    (hin : ∀ i ∈ S, inRange start stop (key i) = true)
    (hget : ∀ k v, inRange start stop k = true →
      (m[k]? = some v ↔ ∃ i ∈ S, key i = k ∧ value i = v)) :
    range m start stop = (S.sort (· ≤ ·)).map fun i => (key i, value i) := by
  refine range_eq_of_ascending (List.pairwise_map.mpr ?_) fun k v => ?_
  · refine (Finset.sortedLT_sort S).pairwise.imp_of_mem fun {a b} ha hb hlt => ?_
    exact hmono a ((Finset.mem_sort _).mp ha) b ((Finset.mem_sort _).mp hb) hlt
  · simp only [List.mem_map, Finset.mem_sort, Prod.mk.injEq]
    constructor
    · rintro ⟨i, hi, rfl, rfl⟩
      exact ⟨(hget _ _ (hin i hi)).mpr ⟨i, hi, rfl, rfl⟩, hin i hi⟩
    · rintro ⟨hsome, hk⟩
      exact (hget _ _ hk).mp hsome

/-- The keys of a range are the keys of the map in the range. -/
theorem mem_map_fst_range {m : Std.ExtTreeMap κ υ} {start : κ} {stop : Option κ} {k : κ} :
    k ∈ (range m start stop).map Prod.fst ↔ m[k]?.isSome ∧ inRange start stop k = true := by
  rw [List.mem_map, Option.isSome_iff_exists]
  constructor
  · rintro ⟨⟨_, v⟩, hmem, rfl⟩
    exact ⟨⟨v, (mem_range.mp hmem).1⟩, (mem_range.mp hmem).2⟩
  · rintro ⟨⟨v, hget⟩, hin⟩
    exact ⟨(k, v), mem_range.mpr ⟨hget, hin⟩, rfl⟩

/-- From a pair of a range on stands the range from its key. -/
theorem range_back {m : Std.ExtTreeMap κ υ} {start : κ} {stop : Option κ} {k : κ} {v : υ}
    {front back : List (κ × υ)} (hsplit : range m start stop = front ++ (k, v) :: back) :
    range m k stop = (k, v) :: back := by
  have hasc := ascending_range m start stop
  have hmem : (k, v) ∈ range m start stop := by
    rw [hsplit]
    exact List.mem_append_right _ List.mem_cons_self
  have hstart : (compare k start).isLT = false := by
    have hin := (mem_range.mp hmem).2
    rw [inRange, Bool.and_eq_true, Bool.not_eq_true'] at hin
    exact hin.1
  rw [hsplit] at hasc
  obtain ⟨-, hback, hlt⟩ := List.pairwise_append.mp hasc
  refine range_eq_of_ascending hback fun k' v' => ?_
  constructor
  · intro hmem'
    have hin := mem_range.mp (hsplit ▸ List.mem_append_right front hmem')
    refine ⟨hin.1, ?_⟩
    have hfrom : (compare k' k).isLT = false := by
      cases List.mem_cons.mp hmem' with
      | inl heq => rw [(Prod.mk.inj heq).1, Std.compare_self]; rfl
      | inr hmem' =>
        have hgt := (List.pairwise_cons.mp hback).1 _ hmem'
        rw [Std.OrientedCmp.gt_of_lt hgt]
        rfl
    rw [inRange, Bool.and_eq_true] at hin ⊢
    exact ⟨by rw [hfrom]; rfl, hin.2.2⟩
  · rintro ⟨hget, hin⟩
    rw [inRange, Bool.and_eq_true, Bool.not_eq_true'] at hin
    -- a key from `k` on is no key from below `start`, nor one of the pairs in front
    have hfrom : (compare k' start).isLT = false := by
      rw [Bool.eq_false_iff]
      intro hlt
      have hle : (compare start k).isLE := by
        rw [Ordering.isLE_iff_ne_gt]
        intro hgt
        rw [Std.OrientedCmp.lt_of_gt hgt] at hstart
        exact nomatch hstart
      have hbelow := Std.TransCmp.lt_of_lt_of_isLE (Ordering.isLT_iff_eq_lt.mp hlt) hle
      rw [hbelow] at hin
      exact nomatch hin.1
    have hmem' : (k', v') ∈ range m start stop :=
      mem_range.mpr ⟨hget, by rw [inRange, hfrom, hin.2]; rfl⟩
    rw [hsplit] at hmem'
    cases List.mem_append.mp hmem' with
    | inl hfront =>
      have hk := hlt _ hfront _ List.mem_cons_self
      rw [hk] at hin
      exact nomatch hin.1
    | inr hmem' => exact hmem'

/-! ## Part of a map -/

/-- The first elements of a list are the first ones with `P` exactly if enough of those
    stand before each element without. -/
theorem take_eq_take_filter_iff {α : Type*} (P : α → Bool) (l : List α) (n : Nat) :
    l.take n = (l.filter P).take n ↔
      ∀ (front : List α) (x : α) (back : List α), l = front ++ x :: back → P x = false →
        n ≤ (front.filter P).length := by
  induction l generalizing n with
  | nil =>
    refine iff_of_true (by simp) fun front x back hsplit _ => ?_
    exact absurd hsplit (by simp)
  | cons y l ih =>
    cases n with
    | zero => exact iff_of_true rfl fun _ _ _ _ _ => Nat.zero_le _
    | succ n =>
      by_cases hy : P y = true
      · -- the first element has `P`: it counts for every element behind it
        rw [List.filter_cons_of_pos hy, List.take_succ_cons, List.take_succ_cons,
          List.cons_inj_right, ih n]
        constructor
        · intro hall front x back hsplit hx
          cases front with
          | nil =>
            obtain ⟨rfl, -⟩ := List.cons.inj hsplit
            exact absurd (hy.symm.trans hx) (by decide)
          | cons z front =>
            obtain ⟨rfl, hrest⟩ := List.cons.inj hsplit
            rw [List.filter_cons_of_pos hy]
            exact Nat.succ_le_succ (hall front x back hrest hx)
        · intro hall front x back hsplit hx
          have hle := hall (y :: front) x back (by rw [hsplit, List.cons_append]) hx
          rw [List.filter_cons_of_pos hy] at hle
          exact Nat.le_of_succ_le_succ hle
      · -- the first element fails, so the left side has it and the right side does not
        rw [Bool.not_eq_true] at hy
        refine iff_of_false (fun heq => ?_) fun hall => ?_
        · have hmem : y ∈ ((y :: l).filter P).take (n + 1) := by
            rw [← heq]
            exact List.mem_cons_self
          have hP := (List.mem_filter.mp (List.mem_of_mem_take hmem)).2
          exact absurd (hy.symm.trans hP) (by decide)
        · exact absurd (hall [] y l rfl hy) (Nat.not_succ_le_zero n)

section Part

variable {m part : Std.ExtTreeMap κ υ} {P : κ → Bool} {start : κ} {stop : Option κ}

/-- The range of a part of the map is the part of the range. -/
theorem range_part (hpart : ∀ k, part[k]? = if P k then m[k]? else none) (start : κ)
    (stop : Option κ) :
    range part start stop = (range m start stop).filter fun p => P p.1 := by
  refine range_eq_of_ascending ((ascending_range m start stop).filter _) fun k v => ?_
  rw [List.mem_filter, mem_range, hpart]
  cases P k <;> simp

/-- In front of a pair of a range stands the range up to its key. -/
theorem range_front {k : κ} {v : υ} {front back : List (κ × υ)}
    (hsplit : range m start stop = front ++ (k, v) :: back) : range m start (some k) = front := by
  have hasc := ascending_range m start stop
  have hmem : (k, v) ∈ range m start stop := by
    rw [hsplit]
    exact List.mem_append_right _ List.mem_cons_self
  have hbelow : below stop k = true := by
    have hin := (mem_range.mp hmem).2
    rw [inRange, Bool.and_eq_true] at hin
    exact hin.2
  rw [hsplit] at hasc
  -- in an ascending list the keys in front are exactly the smaller ones
  obtain ⟨hfront, hback, hlt⟩ := List.pairwise_append.mp hasc
  refine range_eq_of_ascending hfront fun k' v' => ?_
  constructor
  · intro hmem'
    have hk := hlt _ hmem' _ List.mem_cons_self
    have hin := mem_range.mp (hsplit ▸ List.mem_append_left _ hmem')
    refine ⟨hin.1, ?_⟩
    simp only [inRange, Bool.and_eq_true] at hin ⊢
    refine ⟨hin.2.1, ?_⟩
    simp only [below, Option.all_some, Ordering.isLT_iff_eq_lt]
    exact hk
  · rintro ⟨hget, hin⟩
    simp only [inRange, Bool.and_eq_true, below, Option.all_some, Ordering.isLT_iff_eq_lt] at hin
    have hstop : below stop k' = true := by
      cases stop with
      | none => rfl
      | some t =>
        simp only [below, Option.all_some, Ordering.isLT_iff_eq_lt] at hbelow ⊢
        exact Std.TransCmp.lt_trans hin.2 hbelow
    have hmem' : (k', v') ∈ range m start stop :=
      mem_range.mpr ⟨hget, by rw [inRange, hin.1, hstop, Bool.and_self]⟩
    rw [hsplit] at hmem'
    rcases List.mem_append.mp hmem' with hmem' | hmem'
    · exact hmem'
    · -- behind the pair no key is below its own
      exfalso
      rcases List.mem_cons.mp hmem' with heq | hmem'
      · have hk := (Prod.mk.inj heq).1
        rw [hk, Std.compare_self] at hin
        exact absurd hin.2 (by decide)
      · have hgt := (List.pairwise_cons.mp hback).1 _ hmem'
        exact absurd (Std.TransCmp.lt_trans hin.2 hgt) (by simp)

/-- The first pairs of a range are those of a part of the map exactly if enough pairs of
    the part lie below each other key of the range. -/
theorem take_range_eq_iff (hpart : ∀ k, part[k]? = if P k then m[k]? else none) (n : Nat) :
    (range m start stop).take n = (range part start stop).take n ↔
      ∀ k, m[k]?.isSome → inRange start stop k = true → P k = false →
        n ≤ (range part start (some k)).length := by
  rw [range_part hpart, take_eq_take_filter_iff]
  constructor
  · intro hall k hsome hin hP
    obtain ⟨v, hget⟩ := Option.isSome_iff_exists.mp hsome
    -- the pairs in front of a key are the range up to it
    obtain ⟨front, back, hsplit⟩ := List.append_of_mem (mem_range.mpr ⟨hget, hin⟩)
    rw [range_part hpart, range_front hsplit]
    exact hall front (k, v) back hsplit hP
  · intro hall front p back hsplit hP
    obtain ⟨k, v⟩ := p
    have hmem : (k, v) ∈ range m start stop := by
      rw [hsplit]
      exact List.mem_append_right _ List.mem_cons_self
    obtain ⟨hget, hin⟩ := mem_range.mp hmem
    have hle := hall k (by rw [hget]; rfl) hin hP
    rw [range_part hpart, range_front hsplit] at hle
    exact hle

end Part

end OrderedStore
