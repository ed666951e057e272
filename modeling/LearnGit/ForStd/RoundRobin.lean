import Mathlib.Data.Int.CardIntervalMod
import Mathlib.Data.List.Nodup

/-!
# Round robin

The items of a list take turns, from the front and over again. No item has had two turns more
than another, and as many turns in a row as there are items go to different ones.

## Key results

- `count_turns`: how many of the first turns an item has had
- `count_turns_le`: two items differ by one turn at most
- `nodup_turns`: turns in a row go to different items
-/

namespace RoundRobin

variable {α : Type*}

/-- The `k` turns from turn number `t` on. -/
def turns (xs : List α) (t k : Nat) : List α :=
  (List.range' t k).filterMap fun i => xs[i % xs.length]?

@[simp] theorem turns_zero (xs : List α) (t : Nat) : turns xs t 0 = [] := rfl

theorem turns_succ (xs : List α) (t k : Nat) :
    turns xs t (k + 1) = turns xs t k ++ (xs[(t + k) % xs.length]?).toList := by
  unfold turns
  rw [List.range'_concat, List.filterMap_append, Nat.one_mul, List.filterMap_cons,
    List.filterMap_nil]
  cases xs[(t + k) % xs.length]? <;> rfl

theorem turns_append (xs : List α) (t k k' : Nat) :
    turns xs t k ++ turns xs (t + k) k' = turns xs t (k + k') := by
  unfold turns
  rw [← List.filterMap_append, List.range'_append_1]

/-- Somebody has every turn. -/
theorem exists_turn {xs : List α} (hne : xs ≠ []) (t : Nat) :
    ∃ x ∈ xs, xs[t % xs.length]? = some x := by
  have hlt : t % xs.length < xs.length := Nat.mod_lt _ (List.length_pos_iff.mpr hne)
  exact ⟨_, List.getElem_mem hlt, List.getElem?_eq_getElem hlt⟩

theorem length_turns {xs : List α} (hne : xs ≠ []) (t k : Nat) : (turns xs t k).length = k := by
  induction k with
  | zero => rfl
  | succ k ih =>
    obtain ⟨x, -, hx⟩ := exists_turn hne (t + k)
    simp [turns_succ, ih, hx]

theorem mem_turns {xs : List α} {t k : Nat} {x : α} :
    x ∈ turns xs t k ↔ ∃ i, t ≤ i ∧ i < t + k ∧ xs[i % xs.length]? = some x := by
  simp [turns, List.mem_filterMap, List.mem_range'_1, and_assoc]

/-- Whose turn it is has not had one of the turns before, as long as not all had one. -/
theorem notMem_turns {xs : List α} (hnodup : xs.Nodup) {t k : Nat} (hk : k < xs.length) {x : α}
    (hx : xs[(t + k) % xs.length]? = some x) : x ∉ turns xs t k := by
  intro hmem
  obtain ⟨i, hti, hik, hi⟩ := mem_turns.mp hmem
  have hlt : i % xs.length < xs.length := Nat.mod_lt _ (by omega)
  have hmod : i % xs.length = (t + k) % xs.length :=
    (List.getElem?_inj hlt hnodup).mp (hi.trans hx.symm)
  -- the two turns are less than a whole round apart
  have hdvd : xs.length ∣ t + k - i := (Nat.modEq_iff_dvd' (by omega)).mp hmod
  have := Nat.le_of_dvd (by omega) hdvd
  omega

/-- Turns in a row go to different items, up to a whole round. -/
theorem nodup_turns {xs : List α} (hnodup : xs.Nodup) (t : Nat) {k : Nat} (hk : k ≤ xs.length) :
    (turns xs t k).Nodup := by
  induction k with
  | zero => exact List.nodup_nil
  | succ k ih =>
    rw [turns_succ]
    cases hx : xs[(t + k) % xs.length]? with
    | none => simpa using ih (by omega)
    | some x =>
      have hnew := notMem_turns hnodup (by omega) hx
      rw [Option.toList_some, List.nodup_append]
      refine ⟨ih (by omega), List.nodup_singleton x, fun a ha b hb heq => hnew ?_⟩
      rw [← List.mem_singleton.mp hb, ← heq]
      exact ha

variable [DecidableEq α]

/-- The turns that an item has had are the whole rounds and, where it comes early in the
    list, one of the round that has begun. -/
theorem count_turns {xs : List α} (hnodup : xs.Nodup) {i : Nat} {x : α} (hx : xs[i]? = some x)
    (t : Nat) : (turns xs 0 t).count x =
      t / xs.length + if i < t % xs.length then 1 else 0 := by
  have hi : i < xs.length := (List.getElem?_eq_some_iff.mp hx).1
  have hpos : 0 < xs.length := Nat.zero_lt_of_lt hi
  have hcount : (turns xs 0 t).count x = Nat.count (· ≡ i [MOD xs.length]) t := by
    induction t with
    | zero => simp
    | succ t ih =>
      obtain ⟨y, -, hy⟩ := exists_turn (List.ne_nil_of_length_pos hpos) t
      have hsame : y = x ↔ t ≡ i [MOD xs.length] := by
        rw [Nat.ModEq, Nat.mod_eq_of_lt hi]
        constructor
        · rintro rfl
          exact (List.getElem?_inj (Nat.mod_lt _ hpos) hnodup).mp (hy.trans hx.symm)
        · intro hmod
          rw [hmod, hx] at hy
          exact (Option.some.inj hy).symm
      rw [turns_succ, List.count_append, ih, Nat.count_succ, Nat.zero_add, hy]
      simp [List.count_singleton, hsame]
  rw [hcount, Nat.count_modEq_card _ hpos, Nat.mod_eq_of_lt hi]

/-- No item is two turns behind another one. -/
theorem count_turns_le {xs : List α} (hnodup : xs.Nodup) {x y : α} (hx : x ∈ xs) (hy : y ∈ xs)
    (t : Nat) : (turns xs 0 t).count x ≤ (turns xs 0 t).count y + 1 := by
  obtain ⟨i, hi⟩ := List.mem_iff_getElem?.mp hx
  obtain ⟨j, hj⟩ := List.mem_iff_getElem?.mp hy
  rw [count_turns hnodup hi, count_turns hnodup hj]
  split <;> split <;> omega

end RoundRobin
