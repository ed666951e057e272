import LearnGit.ForStd.RangePartition
import LearnGit.Native.ShardRouter

/-!
# Routing over a partition

Split keys cut the keys into ranges, of which the first begins and the last ends with the
empty key. If the shards of a map are these ranges, in any order, both routers find the one
shard that a key is in.

## Key results

- `countP_covers`: every key is in exactly one shard
- `routedTo_of_partitions`: what the routers answer for it
-/

namespace Dkv

open RangePartition

/-- `key` lies in the range of the shard, from the start key up to and without the end key.
    The empty start key is below all keys; an empty end key stands for plus infinity. -/
def ShardMeta.Covers (s : ShardMeta) (key : Bytes) : Prop :=
  (compare s.startKey key).isLE ∧ (s.endKey = [] ∨ (compare key s.endKey).isLT)

/-- The ranges between the split keys, with the empty key at both ends. -/
def keyRanges (splits : List Bytes) : List (Bytes × Bytes) :=
  List.zip ([] :: splits) (splits ++ [[]])

/-- The shards of the map are the ranges between the split keys. -/
structure ShardMap.Partitions (map : ShardMap) (splits : List Bytes) : Prop where
  ascending : splits.Pairwise fun k k' => compare k k' = .lt
  nonempty : ∀ k ∈ splits, k ≠ []
  ranges : (map.shards.map fun s => (s.startKey, s.endKey)).Perm (keyRanges splits)

/-! ## Exactly one shard -/

/-- A bound of a range as the look-up loops understand it. -/
def bound (key : Bytes) : Option Bytes := if key = [] then none else some key

theorem bound_of_ne {key : Bytes} (hne : key ≠ []) : bound key = some key := if_neg hne

theorem holds_eq_inSplit (s : ShardMeta) (key : Bytes) :
    s.holds key = inSplit key (bound s.startKey, bound s.endKey) := by
  have hstart : (decide (s.startKey = []) || (compare key s.startKey).isGE) =
      fromBound (bound s.startKey) key := by
    unfold bound
    split
    · next hnil => simp [hnil, fromBound]
    · next hne =>
      simp only [hne, decide_false, Bool.false_or, fromBound, Option.all_some]
      rw [Std.OrientedOrd.eq_swap, Ordering.isGE_swap]
  have hend : (decide (s.endKey = []) || (compare key s.endKey).isLT) =
      toBound (bound s.endKey) key := by
    unfold bound
    split
    · next hnil => simp [hnil, toBound]
    · next hne => simp [hne, toBound]
  rw [ShardMeta.holds, inSplit, hstart, hend]

/-- The condition of the look-up loops. -/
theorem holds_iff_covers (s : ShardMeta) (key : Bytes) : s.holds key = true ↔ s.Covers key := by
  have hstart : (decide (s.startKey = []) || (compare key s.startKey).isGE) =
      (compare s.startKey key).isLE := by
    rw [Std.OrientedOrd.eq_swap, Ordering.isGE_swap]
    cases hnil : decide (s.startKey = []) with
    | false => rfl
    | true =>
      rw [of_decide_eq_true hnil, List.isLE_compare_nil_left]
      rfl
  rw [ShardMeta.holds, hstart]
  simp [ShardMeta.Covers]

theorem map_bound_keyRanges {splits : List Bytes} (hne : ∀ k ∈ splits, k ≠ []) (lo : Bytes) :
    (List.zip (lo :: splits) (splits ++ [[]])).map (fun r => (bound r.1, bound r.2)) =
      splitRanges (bound lo) splits := by
  induction splits generalizing lo with
  | nil => rfl
  | cons k ks ih =>
    have hrest := ih (fun k' hk' => hne k' (List.mem_cons_of_mem _ hk')) k
    rw [bound_of_ne (hne k List.mem_cons_self)] at hrest
    rw [List.cons_append, List.zip_cons_cons, List.map_cons, hrest,
      bound_of_ne (hne k List.mem_cons_self)]
    rfl

variable {map : ShardMap} {splits : List Bytes} {key : Bytes}

/-- Every key is in exactly one shard. -/
theorem countP_holds (hmap : map.Partitions splits) (key : Bytes) :
    map.shards.countP (fun s => s.holds key) = 1 := by
  have hranges : map.shards.countP (fun s => s.holds key) =
      (map.shards.map fun s => (s.startKey, s.endKey)).countP
        fun r => inSplit key (bound r.1, bound r.2) := by
    rw [List.countP_map]
    exact List.countP_congr fun s _ => by rw [holds_eq_inSplit, Function.comp_apply]
  rw [hranges, hmap.ranges.countP_eq, keyRanges]
  have hcount : (splitRanges (bound []) splits).countP (inSplit key) = 1 :=
    countP_splitRanges hmap.ascending (by simp [bound]) key
  rw [← map_bound_keyRanges hmap.nonempty [], List.countP_map] at hcount
  exact hcount

/-- The look-up loops find a shard for every key. -/
theorem exists_find?_holds (hmap : map.Partitions splits) (key : Bytes) :
    ∃ s, (map.shards.find? fun s => s.holds key) = some s := by
  obtain ⟨s, hs, hholds⟩ := List.countP_pos_iff.mp (countP_holds hmap key ▸ Nat.one_pos)
  cases hfind : map.shards.find? fun s => s.holds key with
  | none => exact absurd hholds (List.find?_eq_none.mp hfind s hs)
  | some s => exact ⟨s, rfl⟩

/-! ## What the routers find -/

/-- `s` is the shard of the key, and the routers find it. Nothing is said about the address
    where a shard with another leader has the same id. -/
structure RoutedTo (map : ShardMap) (s : ShardMeta) (key : Bytes) : Prop where
  covers : s.Covers key
  only : ∃ before after, map.shards = before ++ s :: after ∧ ∀ s' ∈ before ++ after, ¬ s'.Covers key
  shardRouter : ∀ r : ShardRouter, (r.loadShardMap map).getShardId key = s.shardId
  router : ∀ r : Router, (r.loadShardMap map).getShardId key = s.shardId
  addr : (∀ s' ∈ map.shards, s'.shardId = s.shardId → s'.leaderNodeId = s.leaderNodeId) →
    ∀ r : Router, (r.loadShardMap map).getAddrForKey key =
      (r.loadShardMap map).getLeaderAddr s.shardId

/-- The address of a shard's leader, where its id stands for one leader only. -/
theorem getLeaderAddr_of_mem {r : Router} {s : ShardMeta} (hs : s ∈ r.shardMap.shards)
    (hid : ∀ s' ∈ r.shardMap.shards, s'.shardId = s.shardId → s'.leaderNodeId = s.leaderNodeId) :
    r.getLeaderAddr s.shardId = r.nodeAddrs.getD s.leaderNodeId [] := by
  -- no shard of this id gives another address than `s` does
  have hvalue {s' : ShardMeta} (hs' : s' ∈ r.shardMap.shards) {addr : Bytes}
      (haddr : (if s'.shardId = s.shardId then r.nodeAddrs[s'.leaderNodeId]? else none) =
        some addr) : r.nodeAddrs[s.leaderNodeId]? = some addr := by
    split at haddr
    · next heq => exact hid s' hs' heq ▸ haddr
    · cases haddr
  have hfirst : (r.shardMap.shards.findSome? fun s' =>
      if s'.shardId = s.shardId then r.nodeAddrs[s'.leaderNodeId]? else none) =
        r.nodeAddrs[s.leaderNodeId]? := by
    cases hfind : r.shardMap.shards.findSome? fun s' =>
        if s'.shardId = s.shardId then r.nodeAddrs[s'.leaderNodeId]? else none with
    | none =>
      have hnone := List.findSome?_eq_none_iff.mp hfind s hs
      rw [if_pos rfl] at hnone
      exact hnone.symm
    | some addr =>
      obtain ⟨s', hs', haddr⟩ := List.exists_of_findSome?_eq_some hfind
      exact (hvalue hs' haddr).symm
  rw [Router.getLeaderAddr, hfirst, Std.ExtTreeMap.getD_eq_getD_getElem?]

/-- Whatever the order of the shards, every key is routed to the one that it is in. -/
theorem routedTo_of_partitions (hmap : map.Partitions splits) (key : Bytes) :
    ∃ s, RoutedTo map s key := by
  have hone := countP_holds hmap key
  obtain ⟨s, hfind⟩ := exists_find?_holds hmap key
  obtain ⟨hholds, before, after, hsplit, -⟩ := List.find?_eq_some_iff_append.mp hfind
  -- the shard that is found counts one, so no other one holds the key
  rw [hsplit, List.countP_append, List.countP_cons, if_pos hholds] at hone
  have hid : map.getShardId key = s.shardId := by
    rw [ShardMap.getShardId, hfind]
    rfl
  refine ⟨s, (holds_iff_covers s key).mp hholds, ⟨before, after, hsplit, fun s' hs' => ?_⟩,
    fun _ => hid, fun _ => hid, fun hleader r => ?_⟩
  · have hnone : (before ++ after).countP (fun s => s.holds key) = 0 := by
      rw [List.countP_append]
      omega
    rw [← holds_iff_covers]
    exact List.countP_eq_zero.mp hnone s' hs'
  · have hmem : s ∈ (r.loadShardMap map).shardMap.shards := List.mem_of_find?_eq_some hfind
    rw [getLeaderAddr_of_mem hmem hleader, Router.getAddrForKey]
    simp only [Router.loadShardMap, if_true, hfind]

/-! ## Concrete maps -/

/-- Three shards, the last one first, with their ids as leaders. -/
def threeShards : ShardMap where
  shards := [
    { shardId := 3, startKey := [0x74], endKey := [], epoch := 1, leaderNodeId := 3
      peerNodeIds := [] },
    { shardId := 1, startKey := [], endKey := [0x6d], epoch := 1, leaderNodeId := 1
      peerNodeIds := [] },
    { shardId := 2, startKey := [0x6d], endKey := [0x74], epoch := 1, leaderNodeId := 2
      peerNodeIds := [] }]
  version := 1

theorem partitions_threeShards : threeShards.Partitions [[0x6d], [0x74]] where
  ascending := by decide
  nonempty := by decide
  ranges := by decide

theorem routedTo_threeShards : ∃ s, RoutedTo threeShards s [0x70] :=
  routedTo_of_partitions partitions_threeShards [0x70]

/-- Two shards that have the same id but not the same leader. -/
def sameIds : ShardMap where
  shards := [
    { shardId := 1, startKey := [], endKey := [0x6d], epoch := 1, leaderNodeId := 1
      peerNodeIds := [] },
    { shardId := 1, startKey := [0x6d], endKey := [], epoch := 1, leaderNodeId := 2
      peerNodeIds := [] }]
  version := 1

/-- The id leads to the address of the first shard's leader, the key to the second one's. -/
theorem not_getLeaderAddr_sameIds :
    ¬ ∀ (map : ShardMap) (splits : List Bytes) (r : Router) (key : Bytes) (s : ShardMeta),
      map.Partitions splits → s ∈ map.shards → s.Covers key →
        (r.loadShardMap map).getAddrForKey key =
          (r.loadShardMap map).getLeaderAddr s.shardId := by
  intro hall
  have heq := hall sameIds [[0x6d]] ((({} : Router).updateLeader 1 1 [0x61]).updateLeader 1 2 [0x62])
    [0x7a] sameIds.shards[1] ⟨by decide, by decide, by decide⟩ (by decide) ⟨by decide, .inl rfl⟩
  exact absurd heq (by decide +kernel)

end Dkv
