import Mathlib.Data.List.Basic
import Mathlib.Data.List.Nodup

/-!
# Tables with a unique key

The rows of a table, no two of them with the same key, and the statements on single rows:
`insert` refuses a key that is there, `update` and `delete` do nothing for a key that is not,
and `upsert` is an insert that updates the row there is. What a statement does to the table
is what it does to the look-up of a key.

## Key results

- `mem_rows_iff`: a row is in the table exactly if it is what its key finds
- `find?_insert`, `find?_update`, `find?_upsert`, `find?_delete`: looking up after a statement
-/

variable {α κ : Type*}

/-- Rows with a unique key. -/
structure Table (key : α → κ) where
  rows : List α
  unique : (rows.map key).Nodup

namespace Table

variable {key : α → κ}

@[ext] theorem ext {t t' : Table key} (hrows : t.rows = t'.rows) : t = t' := by
  cases t
  cases t'
  simpa using hrows

instance [DecidableEq α] : DecidableEq (Table key) := fun t t' =>
  decidable_of_iff (t.rows = t'.rows) ⟨ext, congrArg rows⟩

variable [DecidableEq κ]

def empty (key : α → κ) : Table key where
  rows := []
  unique := List.nodup_nil

/-- The row with a key. -/
def find? (t : Table key) (k : κ) : Option α := t.rows.find? fun r => key r = k

/-- `INSERT`, which fails for a key that is there. -/
def insert (t : Table key) (r : α) : Option (Table key) :=
  if h : key r ∈ t.rows.map key then none
  else some
    { rows := t.rows ++ [r]
      unique := by
        rw [List.map_append, List.map_singleton]
        exact t.unique.append (List.nodup_singleton _) (List.disjoint_singleton.mpr h) }

/-- `UPDATE` of the row with a key. -/
def update (t : Table key) (k : κ) (f : α → α) (hf : ∀ r, key (f r) = key r) : Table key where
  rows := t.rows.map fun r => if key r = k then f r else r
  unique := by
    have hkeys : (key ∘ fun r => if key r = k then f r else r) = key := by
      funext r
      dsimp only [Function.comp]
      split
      · exact hf r
      · rfl
    rw [List.map_map, hkeys]
    exact t.unique

/-- `INSERT … ON DUPLICATE KEY UPDATE`. -/
def upsert (t : Table key) (r : α) (f : α → α) (hf : ∀ r, key (f r) = key r) : Table key :=
  (t.insert r).getD (t.update (key r) f hf)

/-- `DELETE` of the row with a key. -/
def delete (t : Table key) (k : κ) : Table key where
  rows := t.rows.filter fun r => key r ≠ k
  unique := t.unique.sublist (List.filter_sublist.map key)

/-- `SELECT`. -/
def select (t : Table key) (p : α → Bool) : List α := t.rows.filter p

/-! ## Looking up -/

theorem key_of_find? {t : Table key} {k : κ} {r : α} (hr : t.find? k = some r) : key r = k := by
  simpa using List.find?_some hr

theorem mem_rows_iff {t : Table key} {r : α} : r ∈ t.rows ↔ t.find? (key r) = some r := by
  constructor
  · intro hr
    cases hfind : t.find? (key r) with
    | none => exact absurd hr fun hr => by simpa using List.find?_eq_none.mp hfind r hr
    | some r' =>
      have hr' : r' ∈ t.rows := List.mem_of_find?_eq_some hfind
      rw [List.inj_on_of_nodup_map t.unique hr' hr (key_of_find? hfind)]
  · exact List.mem_of_find?_eq_some

theorem mem_select {t : Table key} {p : α → Bool} {r : α} :
    r ∈ t.select p ↔ t.find? (key r) = some r ∧ p r = true := by
  rw [select, List.mem_filter, mem_rows_iff]

/-- A condition on the selected rows that fixes the key is one on the row with that key. -/
theorem exists_mem_select_iff {t : Table key} {p : α → Bool} {P Q : α → Prop} {k : κ}
    (hkey : ∀ r, (p r = true ∧ P r) ↔ (key r = k ∧ Q r)) :
    (∃ r ∈ t.select p, P r) ↔ ∃ r, t.find? k = some r ∧ Q r := by
  constructor
  · rintro ⟨r, hr, hP⟩
    obtain ⟨hfind, hp⟩ := mem_select.mp hr
    obtain ⟨hk, hQ⟩ := (hkey r).mp ⟨hp, hP⟩
    exact ⟨r, hk ▸ hfind, hQ⟩
  · rintro ⟨r, hfind, hQ⟩
    have hk := key_of_find? hfind
    obtain ⟨hp, hP⟩ := (hkey r).mpr ⟨hk, hQ⟩
    exact ⟨r, mem_select.mpr ⟨hk ▸ hfind, hp⟩, hP⟩

omit [DecidableEq κ] in
theorem nodup_select (t : Table key) (p : α → Bool) : ((t.select p).map key).Nodup :=
  t.unique.sublist (List.filter_sublist.map key)

/-- Selecting by the key finds at most the one row. -/
theorem select_key (t : Table key) (k : κ) :
    (t.select fun r => key r = k) = (t.find? k).toList := by
  obtain ⟨rows, hunique⟩ := t
  unfold select find?
  dsimp only at hunique ⊢
  induction rows with
  | nil => rfl
  | cons r rows ih =>
    rw [List.map_cons, List.nodup_cons] at hunique
    by_cases hr : key r = k
    · have hrest : rows.filter (fun r => decide (key r = k)) = [] := by
        rw [List.filter_eq_nil_iff]
        intro r' hr' heq
        rw [hr, ← of_decide_eq_true heq] at hunique
        exact hunique.1 (List.mem_map_of_mem hr')
      rw [List.filter_cons_of_pos (by simpa using hr), hrest,
        List.find?_cons_of_pos (by simpa using hr)]
      rfl
    · rw [List.filter_cons_of_neg (by simpa using hr), List.find?_cons_of_neg (by simpa using hr)]
      exact ih hunique.2

theorem mem_keys_iff {t : Table key} {k : κ} : k ∈ t.rows.map key ↔ (t.find? k).isSome := by
  simp [find?]

@[simp] theorem find?_empty (k : κ) : (empty key).find? k = none := rfl

/-! ## Looking up after a statement -/

section Statements

variable {t t' : Table key} {r : α} {k : κ} {f : α → α}

theorem insert_eq_none_iff : t.insert r = none ↔ (t.find? (key r)).isSome := by
  rw [← mem_keys_iff, insert]
  split
  · next hmem => exact iff_of_true rfl hmem
  · next hmem => exact iff_of_false (by simp) hmem

theorem find?_of_insert (hinsert : t.insert r = some t') : t.find? (key r) = none := by
  have hnone : ¬ (t.find? (key r)).isSome := by
    rw [← insert_eq_none_iff, hinsert]
    exact Option.some_ne_none t'
  simpa using hnone

theorem find?_insert (hinsert : t.insert r = some t') (k : κ) :
    t'.find? k = if k = key r then some r else t.find? k := by
  have hnew := find?_of_insert hinsert
  unfold insert at hinsert
  split at hinsert
  · exact absurd hinsert (by simp)
  · obtain rfl := Option.some.inj hinsert
    unfold find? at hnew ⊢
    rw [List.find?_append]
    split
    · next heq => rw [heq, hnew]; simp
    · next hne => simp [Ne.symm hne]

theorem find?_update (hf : ∀ r, key (f r) = key r) (k' : κ) :
    (t.update k f hf).find? k' = if k' = k then (t.find? k').map f else t.find? k' := by
  have hkey (r : α) : key (if key r = k then f r else r) = key r := by
    split
    · exact hf r
    · rfl
  unfold update find?
  rw [List.find?_map]
  have hcomp : ((fun r => decide (key r = k')) ∘ fun r => if key r = k then f r else r) =
      fun r => decide (key r = k') := by
    funext r
    simp [hkey]
  rw [hcomp]
  cases hfind : t.rows.find? fun r => decide (key r = k') with
  | none => simp
  | some r =>
    -- the first row with the key is the same one before and after
    have hr : key r = k' := by simpa using List.find?_some hfind
    rw [Option.map_some, hr]
    split <;> rfl

theorem find?_upsert (hf : ∀ r, key (f r) = key r) (k : κ) :
    (t.upsert r f hf).find? k =
      if k = key r then some (((t.find? k).map f).getD r) else t.find? k := by
  unfold upsert
  cases hinsert : t.insert r with
  | none =>
    rw [Option.getD_none, find?_update]
    obtain ⟨r', hr'⟩ := Option.isSome_iff_exists.mp (insert_eq_none_iff.mp hinsert)
    by_cases heq : k = key r
    · rw [if_pos heq, if_pos heq, heq, hr']
      rfl
    · rw [if_neg heq, if_neg heq]
  | some t' =>
    rw [Option.getD_some, find?_insert hinsert]
    by_cases heq : k = key r
    · rw [if_pos heq, if_pos heq, heq, find?_of_insert hinsert]
      rfl
    · rw [if_neg heq, if_neg heq]

theorem find?_delete (k' : κ) :
    (t.delete k).find? k' = if k' = k then none else t.find? k' := by
  unfold delete find?
  rw [List.find?_filter]
  split
  · next heq =>
    rw [List.find?_eq_none]
    intro r _
    simp [heq]
  · next hne =>
    congr 1
    funext r
    by_cases hr : key r = k'
    · simp [hr, hne]
    · simp [hr]

end Statements

end Table
