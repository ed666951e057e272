import LearnGit.ForStd.BigEndian
import LearnGit.ForStd.RangePartition
import LearnGit.Native.ShardManager
import LearnGit.Native.ShardRouter

/-!
# The initial shards

`initShards` splits the keys by their first byte. The split points are those of a
partition, but the first of them is the key `"a"` and not the empty key that stands for
minus infinity, so the keys below `"a"` are in no shard.

## Key results

- `holds_shard`: the keys of a shard are those whose first byte lies in its range
- `initialShards_iff`: which keys are in exactly one shard and get an id from the routers
-/

namespace Dkv

open RangePartition ShardManager

/-! ## Split points -/

/-- The first byte of the key that shard number `i` of `numShards` begins with. -/
def splitByte (numShards i : Nat) : Nat := 97 + i * (26 / numShards)

theorem splitByte_mono (numShards : Nat) : Monotone (splitByte numShards) :=
  fun _ _ hle => Nat.add_le_add_left (Nat.mul_le_mul_right _ hle) 97

theorem splitKey_eq {numShards i : Nat} (hi : i < numShards) :
    ∃ c : UInt8, splitKey numShards i = [c] ∧ c.toNat = splitByte numShards i := by
  have hle : i * (26 / numShards) ≤ 26 :=
    (Nat.mul_le_mul_right _ hi.le).trans (Nat.mul_div_le 26 numShards)
  refine ⟨_, rfl, ?_⟩
  rw [UInt8.toNat_ofNat']
  exact Nat.mod_eq_of_lt (by omega)

/-! ## Keys and their first bytes -/

/-- The first byte of a key; the empty key is below every byte. -/
def FirstByte (P : Nat → Prop) (key : Bytes) : Prop := ∃ d ∈ key.head?, P d.toNat

/-- A key is at or above a key of one byte if its first byte is. -/
theorem compare_singleton_isGE (key : Bytes) (c : UInt8) :
    (compare key [c]).isGE = true ↔ FirstByte (c.toNat ≤ ·) key := by
  cases key with
  | nil => simp [FirstByte, List.compare_nil_cons]
  | cons d rest =>
    have hfirst : FirstByte (c.toNat ≤ ·) (d :: rest) ↔ c.toNat ≤ d.toNat := by simp [FirstByte]
    rw [hfirst, List.compare_cons_cons, BigEndian.compare_byte]
    rcases Nat.lt_trichotomy d.toNat c.toNat with hlt | heq | hgt
    · rw [Nat.compare_eq_lt.mpr hlt]
      exact iff_of_false (by simp [Ordering.then]) (Nat.not_le.mpr hlt)
    · -- an equal first byte leaves it to the rest, which is not below the empty key
      rw [heq, Nat.compare_eq_eq.mpr rfl, Ordering.eq_then]
      exact iff_of_true List.isGE_compare_nil_right (le_refl _)
    · rw [Nat.compare_eq_gt.mpr hgt]
      exact iff_of_true rfl hgt.le

theorem compare_singleton_isLT (key : Bytes) (c : UInt8) :
    (compare key [c]).isLT = true ↔ ¬ FirstByte (c.toNat ≤ ·) key := by
  rw [← compare_singleton_isGE]
  cases compare key [c] <;> decide

/-! ## The shards -/

/-- Shard number `i`, as the shard map lists it. -/
def initialShard (numShards i : Nat) : ShardMeta where
  shardId := i + 1
  startKey := splitKey numShards i
  endKey := if i + 1 < numShards then splitKey numShards (i + 1) else []
  epoch := 1
  leaderNodeId := 0
  peerNodeIds := []

theorem shards_getShardMap_initShards (m : ShardManager) (numShards replicaCount : Nat) :
    (m.initShards numShards replicaCount).getShardMap.shards =
      (List.range numShards).map (initialShard numShards) := by
  simp only [getShardMap, initShards, List.map_map]
  rfl

/-- A shard holds the keys whose first byte is in its range. -/
theorem holds_initialShard {numShards i : Nat} (hi : i < numShards) (key : Bytes) :
    (initialShard numShards i).holds key = true ↔
      ∃ d ∈ key.head?, InCell (splitByte numShards) numShards i d.toNat := by
  obtain ⟨c, hc, hcb⟩ := splitKey_eq hi
  unfold ShardMeta.holds initialShard
  simp only [hc, List.cons_ne_nil, decide_false, Bool.false_or, Bool.and_eq_true,
    compare_singleton_isGE, hcb]
  by_cases hlast : i + 1 < numShards
  · obtain ⟨c', hc', hcb'⟩ := splitKey_eq hlast
    simp only [if_pos hlast, hc', List.cons_ne_nil, decide_false, Bool.false_or,
      compare_singleton_isLT, hcb']
    cases key with
    | nil => simp [FirstByte]
    | cons d rest => simp [FirstByte, InCell, hlast]
  · cases key with
    | nil => simp [FirstByte]
    | cons d rest => simp [FirstByte, InCell, hlast]

/-- The router finds a shard with an id if one holds the key. -/
theorem getShardId_ne_zero_iff {map : ShardMap} (hid : ∀ s ∈ map.shards, s.shardId ≠ 0)
    (key : Bytes) : map.getShardId key ≠ 0 ↔ ∃ s ∈ map.shards, s.holds key = true := by
  unfold ShardMap.getShardId
  cases hfind : map.shards.find? fun s => s.holds key with
  | none => simpa using hfind
  | some s =>
    have hmem := List.mem_of_find?_eq_some hfind
    have hholds : s.holds key = true :=
      List.find?_some (p := fun s : ShardMeta => s.holds key) hfind
    exact iff_of_true (hid s hmem) ⟨s, hmem, hholds⟩

/-! ## Which keys have a shard -/

/-- Exactly one shard holds the key, and both routers find it. -/
structure Routed (map : ShardMap) (key : Bytes) : Prop where
  unique : map.shards.countP (fun s => s.holds key) = 1
  router : ∀ r : Router, (r.loadShardMap map).getShardId key ≠ 0
  shardRouter : ∀ r : ShardRouter, (r.loadShardMap map).getShardId key ≠ 0

theorem countP_holds_initialShards (m : ShardManager) {numShards : Nat} (hpos : 1 ≤ numShards)
    (replicaCount : Nat) (key : Bytes) :
    (m.initShards numShards replicaCount).getShardMap.shards.countP (fun s => s.holds key) = 1 ↔
      (compare key [0x61]).isGE = true := by
  rw [shards_getShardMap_initShards, List.countP_map, countP_eq_one_iff List.nodup_range,
    compare_singleton_isGE]
  have hholds (i : Nat) : i ∈ List.range numShards ∧ (initialShard numShards i).holds key = true ↔
      i < numShards ∧ ∃ d ∈ key.head?, InCell (splitByte numShards) numShards i d.toNat := by
    rw [List.mem_range]
    exact and_congr_right fun hi => holds_initialShard hi key
  simp only [Function.comp_apply, hholds]
  cases key with
  | nil => simp [FirstByte]
  | cons d rest =>
    have hcell := existsUnique_cell_iff (splitByte_mono numShards) hpos d.toNat
    simpa [FirstByte, splitByte] using hcell

/-- The initial shards partition the keys from `"a"` on. -/
theorem initialShards_iff (m : ShardManager) {numShards : Nat} (hpos : 1 ≤ numShards)
    (replicaCount : Nat) (key : Bytes) :
    Routed (m.initShards numShards replicaCount).getShardMap key ↔
      (compare key [0x61]).isGE = true := by
  rw [← countP_holds_initialShards m hpos replicaCount key]
  refine ⟨fun hrouted => hrouted.unique, fun hone => ?_⟩
  have hsome : ∃ s ∈ (m.initShards numShards replicaCount).getShardMap.shards,
      s.holds key = true := by
    rw [← List.countP_pos_iff, hone]
    exact Nat.one_pos
  have hfound := (getShardId_ne_zero_iff (fun s hs => ?_) key).mpr hsome
  · exact ⟨hone, fun _ => hfound, fun _ => hfound⟩
  · rw [shards_getShardMap_initShards] at hs
    obtain ⟨i, -, rfl⟩ := List.mem_map.mp hs
    exact Nat.succ_ne_zero i

/-- With one shard the key `"A"` is in none. -/
theorem initialShards_gap :
    ¬ ∀ (m : ShardManager) (numShards : Nat), 1 ≤ numShards → ∀ (replicaCount : Nat) (key : Bytes),
      Routed (m.initShards numShards replicaCount).getShardMap key := by
  intro hall
  have hrouted := hall {} 1 (le_refl 1) 3 [0x41]
  exact absurd hrouted.unique (by decide)

theorem initialShards_threeShards :
    Routed (({} : ShardManager).initShards 3 3).getShardMap [0x6b, 0x65, 0x79] :=
  (initialShards_iff {} (by decide) 3 _).mpr (by decide)

end Dkv
