import LearnGit.ForStd.BigEndian
import LearnGit.Native.RaftService
import LearnGit.Spec.RocksEngineSpec

/-!
# Log keys

The entry at an index is stored under the byte `0xff` and the index in eight bytes, most
significant byte first. Such keys sort like the indices, and those of indices that do not
start with the byte `0xff` themselves lie in the range that is scanned for them.

## Key results

- `compare_encodeLogKey`, `inLogRange_encodeLogKey`: the order of log keys and their range
- `pairs_logKeys`: the log range lists the stored indices in ascending order
- `logKeys_scanned`: what a scan of the log range returns
-/

namespace Dkv

open RaftService OrderedStore

/-! ## Keys -/

/-- The range of keys that is scanned for log entries. -/
def inLogRange (key : Bytes) : Bool := inRange [0xff] (RocksEngine.stopKey [0xff, 0xff]) key

theorem encodeLogKey_eq (index : Nat) : encodeLogKey index = 0xff :: BigEndian.encode 8 index := by
  simp [encodeLogKey, BigEndian.encode, Nat.shiftRight_eq_div_pow]

/-- Log keys sort like log indices. -/
theorem compare_encodeLogKey {a b : Nat} (ha : a < 2 ^ 64) (hb : b < 2 ^ 64) :
    compare (encodeLogKey a) (encodeLogKey b) = compare a b := by
  rw [encodeLogKey_eq, encodeLogKey_eq, List.compare_cons_cons, Std.compare_self,
    Ordering.eq_then, BigEndian.compare_encode (by norm_num; omega) (by norm_num; omega)]

/-- Keys with a second byte below `0xff` lie in the scanned range. -/
private theorem inLogRange_cons {b : UInt8} (hb : b < 0xff) (key : Bytes) :
    inLogRange (0xff :: b :: key) = true := by
  have hcmp : compare b 0xff = .lt := by
    rw [BigEndian.compare_byte]
    exact Nat.compare_eq_lt.mpr (UInt8.lt_iff_toNat_lt.mp hb)
  simp [inLogRange, inRange, below, RocksEngine.stopKey, hcmp]

/-- Log keys lie in the scanned range. -/
theorem inLogRange_encodeLogKey {index : Nat} (hlt : index < 0xff * 2 ^ 56) :
    inLogRange (encodeLogKey index) = true := by
  rw [encodeLogKey_eq, BigEndian.encode]
  refine inLogRange_cons ?_ _
  have hdiv : index / 256 ^ 7 < 255 := by
    rw [Nat.div_lt_iff_lt_mul (by norm_num)]
    norm_num at hlt ⊢
    omega
  rw [UInt8.lt_iff_toNat_lt, UInt8.toNat_ofNat', Nat.mod_eq_of_lt (by omega)]
  exact hdiv

theorem encodeLogKey_injective {a b : Nat} (ha : a < 2 ^ 64) (hb : b < 2 ^ 64)
    (heq : encodeLogKey a = encodeLogKey b) : a = b := by
  rw [encodeLogKey_eq, encodeLogKey_eq] at heq
  exact BigEndian.encode_injective (ha.trans_eq (by decide)) (hb.trans_eq (by decide))
    (List.cons.inj heq).2

/-- A key of the scanned range is neither of the two cells. -/
theorem ne_of_inLogRange {key : Bytes} (hkey : inLogRange key = true) :
    termKey ≠ key ∧ voteKey ≠ key := by
  constructor
  · rintro rfl
    exact absurd hkey (by decide)
  · rintro rfl
    exact absurd hkey (by decide)

/-- The bounds of the scanned range. -/
theorem inLogRange_iff {key : Bytes} :
    inLogRange key = true ↔ (compare key [0xff]).isGE ∧ (compare key [0xff, 0xff]).isLT := by
  rw [inLogRange, inRange, Bool.and_eq_true, Ordering.not_isLT_eq_isGE]
  simp [RocksEngine.stopKey, below]

/-! ## Scans -/

variable {e : RocksEngine} {S : Finset Nat} {limit : Nat}

/-- The log keys of the engine in their order. -/
theorem pairs_logKeys {value : Nat → Bytes} (hlt : ∀ i ∈ S, i < 0xff * 2 ^ 56)
    (hget : ∀ key v, inLogRange key = true →
      (e.get key = some v ↔ ∃ i ∈ S, encodeLogKey i = key ∧ value i = v)) :
    e.pairs [0xff] [0xff, 0xff] = (S.sort (· ≤ ·)).map fun i => (encodeLogKey i, value i) := by
  refine range_eq_map_sort (fun a ha b hb hab => ?_) (fun i hi => inLogRange_encodeLogKey (hlt i hi))
    hget
  have ha := hlt a ha
  have hb := hlt b hb
  rw [compare_encodeLogKey (by omega) (by omega)]
  exact Nat.compare_eq_lt.mpr hab

/-- In the log range the engine has the keys of the indices in `S` and no others. -/
structure HoldsLogKeys (e : RocksEngine) (S : Finset Nat) : Prop where
  lt : ∀ i ∈ S, i < 0xff * 2 ^ 56
  isSome_iff : ∀ key, inLogRange key = true →
    ((e.get key).isSome ↔ ∃ i ∈ S, encodeLogKey i = key)

theorem holdsLogKeys_empty : HoldsLogKeys .empty ∅ := by
  constructor <;> simp

/-- A put under a log key. -/
theorem HoldsLogKeys.put (he : HoldsLogKeys e S) {i : Nat} (hi : i < 0xff * 2 ^ 56) (v : Bytes) :
    HoldsLogKeys (e.put (encodeLogKey i) v).1 (insert i S) where
  lt j hj := by
    cases Finset.mem_insert.mp hj with
    | inl heq => exact heq ▸ hi
    | inr hj => exact he.lt j hj
  isSome_iff key hkey := by
    rw [RocksEngine.get_put]
    by_cases heq : encodeLogKey i = key
    · simp [heq]
    · simp [heq, he.isSome_iff key hkey]

/-- A put under another key, such as that of a client, does not matter. -/
theorem HoldsLogKeys.put_of_not_inLogRange (he : HoldsLogKeys e S) {key : Bytes}
    (hkey : inLogRange key = false) (v : Bytes) : HoldsLogKeys (e.put key v).1 S where
  lt := he.lt
  isSome_iff k hk := by
    have hne : key ≠ k := fun heq => absurd (hkey.symm.trans (heq ▸ hk)) (by decide)
    rw [RocksEngine.get_put, if_neg hne]
    exact he.isSome_iff k hk

/-- The scan of the log range returns the pairs of the indices in `S`, all of them and in
    ascending order. -/
structure ScansInOrder (e : RocksEngine) (S : Finset Nat) (limit : Nat) : Prop where
  keys : (e.scan [0xff] [0xff, 0xff] limit).kvs.map Prod.fst = (S.sort (· ≤ ·)).map encodeLogKey
  values : ∀ kv ∈ (e.scan [0xff] [0xff, 0xff] limit).kvs, e.get kv.1 = some kv.2
  complete : (e.scan [0xff] [0xff, 0xff] limit).hasMore = false

theorem HoldsLogKeys.scansInOrder (he : HoldsLogKeys e S) (hlimit : S.card ≤ limit) :
    ScansInOrder e S limit := by
  have hvalue {i : Nat} (hi : i ∈ S) :
      e.get (encodeLogKey i) = some ((e.get (encodeLogKey i)).getD []) := by
    have hsome := (he.isSome_iff _ (inLogRange_encodeLogKey (he.lt i hi))).mpr ⟨i, hi, rfl⟩
    obtain ⟨v, hv⟩ := Option.isSome_iff_exists.mp hsome
    rw [hv]
    rfl
  have hpairs : e.pairs [0xff] [0xff, 0xff] =
      (S.sort (· ≤ ·)).map fun i => (encodeLogKey i, (e.get (encodeLogKey i)).getD []) := by
    refine pairs_logKeys he.lt fun key v hkey => ?_
    constructor
    · intro hget
      obtain ⟨i, hi, rfl⟩ := (he.isSome_iff key hkey).mp (by rw [hget]; rfl)
      exact ⟨i, hi, rfl, by rw [hget]; rfl⟩
    · rintro ⟨i, hi, rfl, rfl⟩
      exact hvalue hi
  have hlen : (e.pairs [0xff] [0xff, 0xff]).length ≤ limit := by
    rw [hpairs, List.length_map, Finset.length_sort]
    exact hlimit
  have hkvs : (e.scan [0xff] [0xff, 0xff] limit).kvs = e.pairs [0xff] [0xff, 0xff] := by
    rw [RocksEngine.scan_kvs, List.take_of_length_le hlen]
  constructor
  · rw [hkvs, hpairs, List.map_map]
    rfl
  · rw [hkvs, hpairs]
    intro kv hkv
    obtain ⟨i, hi, rfl⟩ := List.mem_map.mp hkv
    exact hvalue ((Finset.mem_sort _).mp hi)
  · rw [RocksEngine.scan_eq]
    exact decide_eq_false (Nat.not_lt.mpr hlen)

/-- The keys of indices below `0xff * 2 ^ 56` sort like the indices and lie in the range that is
    scanned, so a scan with room for all of them returns them in the order of the indices. -/
theorem logKeys_scanned :
    (∀ a b, a < b → b < 0xff * 2 ^ 56 → compare (encodeLogKey a) (encodeLogKey b) = .lt) ∧
    (∀ i, i < 0xff * 2 ^ 56 → (compare (encodeLogKey i) [0xff]).isGE ∧
      (compare (encodeLogKey i) [0xff, 0xff]).isLT) ∧
    ∀ e S limit, HoldsLogKeys e S → S.card ≤ limit → ScansInOrder e S limit := by
  refine ⟨fun a b hab hb => ?_, fun i hi => ?_, fun e S limit he hlimit => ?_⟩
  · rw [compare_encodeLogKey (by omega) (by omega)]
    exact Nat.compare_eq_lt.mpr hab
  · exact inLogRange_iff.mp (inLogRange_encodeLogKey hi)
  · exact he.scansInOrder hlimit

/-- A pair of a client, and two entries, the one with the larger index stored first. -/
def twoLogKeys : RocksEngine :=
  (((RocksEngine.empty.put [0x61] [0]).1.put (encodeLogKey 256) [1]).1.put (encodeLogKey 2) [2]).1

theorem holdsLogKeys_twoLogKeys : HoldsLogKeys twoLogKeys {2, 256} :=
  ((holdsLogKeys_empty.put_of_not_inLogRange (by decide) [0]).put (by decide) [1]).put
    (by decide) [2]

theorem logKeys_scanned_twoLogKeys :
    compare (encodeLogKey 2) (encodeLogKey 256) = .lt ∧ ScansInOrder twoLogKeys {2, 256} 100000 :=
  ⟨logKeys_scanned.1 2 256 (by decide) (by decide),
    logKeys_scanned.2.2 _ _ _ holdsLogKeys_twoLogKeys (by decide)⟩

end Dkv
