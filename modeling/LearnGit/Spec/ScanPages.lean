import LearnGit.Spec.RocksEngineSpec

/-!
# Scanning page by page

A scan that stops at its limit names the key it did not take any more, and a client goes on
there. The ranges behind the pages lie end to end, so the pages list the whole range, and
the range gets shorter with every page.

## Key results

- `pairs_of_hasMore`: a page and the range that its next key starts
- `scanPages_complete`: the pages of a scan are the pairs of its range
-/

namespace Dkv.RocksEngine

open OrderedStore

/-- The pages of a client that scans with the given limit and goes on from the next key as
    long as there are more pairs; `none` where it needs more than `fuel` scans. -/
def scanPages (e : RocksEngine) (endKey : Bytes) (limit : Nat) :
    Nat → Bytes → Option (List (List (Bytes × Bytes)))
  | 0, _ => none
  | fuel + 1, startKey =>
    let result := e.scan startKey endKey limit
    if result.hasMore then (scanPages e endKey limit fuel result.nextKey).map (result.kvs :: ·)
    else some [result.kvs]

variable {e : RocksEngine} {startKey endKey : Bytes} {limit : Nat}

theorem mem_pairs {k v : Bytes} :
    (k, v) ∈ e.pairs startKey endKey ↔ e.get k = some v ∧ (compare k startKey).isGE ∧
      (endKey = [] ∨ (compare k endKey).isLT) := by
  rw [pairs, mem_range, get, inRange, Bool.and_eq_true, Ordering.not_isLT_eq_isGE]
  by_cases hend : endKey = []
  · simp [stopKey, below, hend]
  · simp [stopKey, below, hend]

/-- The last page is the rest of the range. -/
theorem kvs_of_last (hlast : (e.scan startKey endKey limit).hasMore = false) :
    (e.scan startKey endKey limit).kvs = e.pairs startKey endKey := by
  rw [scan_eq] at hlast
  rw [scan_kvs]
  exact List.take_of_length_le (Nat.le_of_not_lt (of_decide_eq_false hlast))

/-- A page that is not the last one is full, and the range behind it starts at its next key. -/
theorem pairs_of_hasMore (hmore : (e.scan startKey endKey limit).hasMore = true) :
    (e.scan startKey endKey limit).kvs.length = limit ∧
      e.pairs startKey endKey = (e.scan startKey endKey limit).kvs ++
        e.pairs (e.scan startKey endKey limit).nextKey endKey := by
  rw [scan_eq] at hmore
  have hlt : limit < (e.pairs startKey endKey).length := of_decide_eq_true hmore
  rcases hkv : (e.pairs startKey endKey)[limit] with ⟨k, v⟩
  -- `(k, v)` is the pair that the scan sees but does not take
  have hsplit : e.pairs startKey endKey = (e.pairs startKey endKey).take limit ++
      (k, v) :: (e.pairs startKey endKey).drop (limit + 1) := by
    rw [← hkv, ← List.drop_eq_getElem_cons hlt, List.take_append_drop]
  have hnext : (e.scan startKey endKey limit).nextKey = k := by
    rw [scan_eq]
    simp [List.getElem?_eq_getElem hlt, hkv]
  constructor
  · rw [scan_kvs, List.length_take]
    omega
  · rw [scan_kvs, hnext, pairs, pairs, range_back hsplit]
    exact hsplit

/-- With enough fuel a client reaches the last page. -/
private theorem exists_pages (e : RocksEngine) (startKey endKey : Bytes) (hlimit : 1 ≤ limit) :
    ∃ pages, (∀ fuel, (e.pairs startKey endKey).length < fuel →
        e.scanPages endKey limit fuel startKey = some pages) ∧
      pages.flatten = e.pairs startKey endKey ∧
      ∀ page ∈ pages.dropLast, page.length = limit := by
  -- the range behind a full page is shorter
  induction hlen : (e.pairs startKey endKey).length using Nat.strongRecOn generalizing startKey with
  | ind len ih =>
    subst hlen
    cases hmore : (e.scan startKey endKey limit).hasMore with
    | false =>
      refine ⟨[(e.scan startKey endKey limit).kvs], fun fuel hfuel => ?_, ?_, ?_⟩
      · obtain ⟨fuel, rfl⟩ := Nat.exists_eq_add_of_lt hfuel
        rw [scanPages]
        simp only [hmore, Bool.false_eq_true, if_false]
      · rw [List.flatten_singleton, kvs_of_last hmore]
      · exact fun page hpage => absurd hpage List.not_mem_nil
    | true =>
      obtain ⟨hfull, hsplit⟩ := pairs_of_hasMore hmore
      have hshort : (e.pairs (e.scan startKey endKey limit).nextKey endKey).length <
          (e.pairs startKey endKey).length := by
        rw [hsplit, List.length_append, hfull]
        omega
      obtain ⟨pages, hpages, hflat, hlens⟩ := ih _ hshort _ rfl
      refine ⟨(e.scan startKey endKey limit).kvs :: pages, fun fuel hfuel => ?_, ?_, ?_⟩
      · obtain ⟨fuel, rfl⟩ := Nat.exists_eq_add_of_lt hfuel
        rw [scanPages]
        simp only [hmore, if_true]
        rw [hpages _ (by omega)]
        rfl
      · rw [List.flatten_cons, hflat, ← hsplit]
      · intro page hpage
        -- this page is not the last one: it is full, like those behind it
        cases pages with
        | nil => exact absurd hpage List.not_mem_nil
        | cons next pages =>
          rw [List.dropLast_cons_cons] at hpage
          cases List.mem_cons.mp hpage with
          | inl heq => rw [heq, hfull]
          | inr hpage => exact hlens page hpage

/-- From some fuel on a client gets the same pages: all pairs from the start key up to the end
    key in ascending order, and all pages but the last one are full. -/
def PagesComplete (e : RocksEngine) (startKey endKey : Bytes) (limit : Nat) : Prop :=
  ∃ pages, (∃ enough, ∀ fuel, enough ≤ fuel →
      e.scanPages endKey limit fuel startKey = some pages) ∧
    Ascending pages.flatten ∧
    (∀ k v, (k, v) ∈ pages.flatten ↔ e.get k = some v ∧ (compare k startKey).isGE ∧
      (endKey = [] ∨ (compare k endKey).isLT)) ∧
    ∀ page ∈ pages.dropLast, page.length = limit

theorem scanPages_complete (e : RocksEngine) (startKey endKey : Bytes) {limit : Nat}
    (hlimit : 1 ≤ limit) : PagesComplete e startKey endKey limit := by
  obtain ⟨pages, hpages, hflat, hlens⟩ := exists_pages e startKey endKey hlimit
  refine ⟨pages, ⟨_, hpages⟩, ?_, fun k v => ?_, hlens⟩
  · rw [hflat]
    exact ascending_range _ _ _
  · rw [hflat, mem_pairs]

theorem scanPages_complete_two :
    PagesComplete ((empty.put [1] [10]).1.put [2] [20]).1 [1] [] 1 :=
  scanPages_complete _ _ _ (Nat.le_refl 1)

example : ((empty.put [1] [10]).1.put [2] [20]).1.scanPages [] 1 2 [1] =
    some [[([1], [10])], [([2], [20])]] := by
  decide +kernel

end Dkv.RocksEngine
