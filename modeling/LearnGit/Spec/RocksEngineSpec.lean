import LearnGit.Native.RocksEngine

/-!
# What the engine stores and scans

Each write is described by the value every key has afterwards, each scan by the pairs
of its range.

## Key results

- `get_put`, `get_del`, `get_writeBatch_of_mem`, `get_writeBatch_of_notMem`: the value
  of a key after a write
- `scan_eq`: a scan answers with the first pairs of its range
-/

namespace Dkv.RocksEngine

open OrderedStore

variable {e e' : RocksEngine}

/-! ## Writes -/

@[simp] theorem get_empty (key : Bytes) : empty.get key = none := by
  simp [empty, get]

@[simp] theorem get_put (e : RocksEngine) (k v key : Bytes) :
    (e.put k v).1.get key = if k = key then some v else e.get key := by
  simp [put, get, Std.ExtTreeMap.getElem?_insert]

@[simp] theorem get_del (e : RocksEngine) (k key : Bytes) :
    (e.del k).1.get key = if k = key then none else e.get key := by
  simp [del, get, Std.ExtTreeMap.getElem?_erase]

/-- An engine is determined by the values of its keys. -/
theorem ext_get (h : ∀ key, e.get key = e'.get key) : e = e' := by
  obtain ⟨db⟩ := e
  obtain ⟨db'⟩ := e'
  congr 1
  exact Std.ExtTreeMap.ext_getElem? fun {key} => h key

private theorem foldl_erase (deletes : List Bytes) (db : Std.ExtTreeMap Bytes Bytes)
    (key : Bytes) : (deletes.foldl (fun db k => db.erase k) db)[key]? =
      if key ∈ deletes then none else db[key]? := by
  induction deletes generalizing db with
  | nil => simp
  | cons k deletes ih =>
    rw [List.foldl_cons, ih, Std.ExtTreeMap.getElem?_erase]
    by_cases hk : k = key
    · simp [hk]
    · simp [hk, Ne.symm hk]

private theorem foldl_insert_of_notMem {puts : List (Bytes × Bytes)}
    (db : Std.ExtTreeMap Bytes Bytes) {key : Bytes} (hkey : key ∉ puts.map Prod.fst) :
    (puts.foldl (fun db p => db.insert p.1 p.2) db)[key]? = db[key]? := by
  induction puts generalizing db with
  | nil => rfl
  | cons p puts ih =>
    rw [List.map_cons, List.mem_cons, not_or] at hkey
    rw [List.foldl_cons, ih _ hkey.2, Std.ExtTreeMap.getElem?_insert, if_neg]
    exact fun heq => hkey.1 (Std.LawfulEqCmp.compare_eq_iff_eq.mp heq).symm

private theorem foldl_insert_of_mem {puts : List (Bytes × Bytes)}
    (db : Std.ExtTreeMap Bytes Bytes) {key value : Bytes} (hnodup : (puts.map Prod.fst).Nodup)
    (hmem : (key, value) ∈ puts) :
    (puts.foldl (fun db p => db.insert p.1 p.2) db)[key]? = some value := by
  induction puts generalizing db with
  | nil => exact (List.not_mem_nil hmem).elim
  | cons p puts ih =>
    rw [List.map_cons, List.nodup_cons] at hnodup
    rw [List.foldl_cons]
    rcases List.mem_cons.mp hmem with rfl | hmem
    · rw [foldl_insert_of_notMem _ hnodup.1, Std.ExtTreeMap.getElem?_insert_self]
    · exact ih _ hnodup.2 hmem

/-- The deletes of a batch come last. -/
theorem get_writeBatch_of_delete (e : RocksEngine) (puts : List (Bytes × Bytes))
    {deletes : List Bytes} {key : Bytes} (hkey : key ∈ deletes) :
    (e.writeBatch puts deletes).1.get key = none := by
  rw [writeBatch, get, foldl_erase, if_pos hkey]

theorem get_writeBatch_of_mem (e : RocksEngine) {puts : List (Bytes × Bytes)}
    {deletes : List Bytes} {key value : Bytes} (hkey : key ∉ deletes)
    (hnodup : (puts.map Prod.fst).Nodup) (hmem : (key, value) ∈ puts) :
    (e.writeBatch puts deletes).1.get key = some value := by
  rw [writeBatch, get, foldl_erase, if_neg hkey, foldl_insert_of_mem _ hnodup hmem]

theorem get_writeBatch_of_notMem (e : RocksEngine) {puts : List (Bytes × Bytes)}
    {deletes : List Bytes} {key : Bytes} (hkey : key ∉ deletes)
    (hnotMem : key ∉ puts.map Prod.fst) :
    (e.writeBatch puts deletes).1.get key = e.get key := by
  rw [writeBatch, get, foldl_erase, if_neg hkey, foldl_insert_of_notMem _ hnotMem]
  rfl

/-! ## Scans -/

/-- An empty end key leaves the range open. -/
def stopKey (endKey : Bytes) : Option Bytes := if endKey = [] then none else some endKey

/-- The pairs with keys from `startKey` up to the end key, in ascending order. -/
def pairs (e : RocksEngine) (startKey endKey : Bytes) : List (Bytes × Bytes) :=
  range e.db startKey (stopKey endKey)

theorem mem_map_fst_pairs {startKey endKey k : Bytes} :
    k ∈ (e.pairs startKey endKey).map Prod.fst ↔
      (e.get k).isSome ∧ inRange startKey (stopKey endKey) k = true :=
  mem_map_fst_range

/-- The loop breaks exactly where the range ends. -/
private theorem not_below_stopKey {endKey k : Bytes} :
    (endKey ≠ [] ∧ (compare k endKey).isGE) ↔ ¬ below (stopKey endKey) k = true := by
  unfold stopKey
  split
  · next hnil => simp [hnil, below]
  · next hne => simp [hne, below, Ordering.isGE_iff_ne_lt]

/-- The loop takes pairs up to the end of the range and to the limit. -/
private theorem scanLoop_eq (endKey : Bytes) {limit count : Nat} (hle : count ≤ limit)
    (l : List (Bytes × Bytes)) :
    scanLoop endKey limit count l =
      { kvs := (l.takeWhile fun p => below (stopKey endKey) p.1).take (limit - count)
        hasMore := decide (limit - count < (l.takeWhile fun p => below (stopKey endKey) p.1).length)
        nextKey := (((l.takeWhile fun p => below (stopKey endKey) p.1)[limit - count]?).map
          Prod.fst).getD [] } := by
  -- along the pairs; the limit is reached or it is not
  induction l generalizing count with
  | nil => simp [scanLoop]
  | cons kv rest ih =>
    rw [scanLoop]
    by_cases hbelow : below (stopKey endKey) kv.1 = true
    · rw [if_neg (fun hbreak => not_below_stopKey.mp hbreak hbelow),
        List.takeWhile_cons_of_pos (by simpa using hbelow)]
      rcases Nat.lt_or_eq_of_le hle with hlt | rfl
      · obtain ⟨m, hm⟩ : ∃ m, limit - count = m + 1 := ⟨limit - count - 1, by omega⟩
        have hm' : limit - (count + 1) = m := by omega
        rw [if_neg (Nat.not_le.mpr hlt)]
        dsimp only
        rw [ih hlt, hm, hm']
        simp
      · simp
    · rw [if_pos (not_below_stopKey.mpr hbelow),
        List.takeWhile_cons_of_neg (by simpa using hbelow)]
      simp

/-- A scan answers with the first pairs of its range, and with the key after them if
    there are more. -/
theorem scan_eq (e : RocksEngine) (startKey endKey : Bytes) (limit : Nat) :
    e.scan startKey endKey limit =
      { kvs := (e.pairs startKey endKey).take limit
        hasMore := decide (limit < (e.pairs startKey endKey).length)
        nextKey := (((e.pairs startKey endKey)[limit]?).map Prod.fst).getD [] } := by
  rw [scan, scanLoop_eq endKey (Nat.zero_le limit), takeWhile_seek]
  rfl

theorem scan_kvs (e : RocksEngine) (startKey endKey : Bytes) (limit : Nat) :
    (e.scan startKey endKey limit).kvs = (e.pairs startKey endKey).take limit := by
  rw [scan_eq]

/-- A scanned key is in the range. -/
theorem inRange_of_mem_scan {startKey endKey key : Bytes} {limit : Nat}
    (hkey : key ∈ (e.scan startKey endKey limit).kvs.map Prod.fst) :
    inRange startKey (stopKey endKey) key = true := by
  rw [scan_kvs, List.map_take] at hkey
  exact (mem_map_fst_pairs.mp (List.mem_of_mem_take hkey)).2

end Dkv.RocksEngine
