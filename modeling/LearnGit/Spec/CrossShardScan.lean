import LearnGit.Spec.RangeRouting
import LearnGit.Spec.Redirects
import LearnGit.Spec.RocksEngineSpec

/-!
# Scans over several shards

`KvClient::scan` sends one request, to the leader of the shard that the start key is in. That
node has the pairs of the shards that it leads and no others, so the answer is right as long
as the limit is reached before the first pair of another node.

## Key results

- `clientScan_eq`: what a scan returns
- `clientScan_iff`: when these are the first pairs of all shards
-/

namespace Dkv

open OrderedStore

/-- The leader of the shard that a key is in. -/
def Router.leaderOf (r : Router) (key : Bytes) : Option Nat :=
  (r.shardOf key).map ShardMeta.leaderNodeId

/-- The node behind an address answers scans by itself. -/
structure LeaderAt (net : Network) (addr : Bytes) (d : DataNode) : Prop where
  wellFormed : WellFormedAddr addr
  leads : d.redirect = none
  answers : ∀ i ip port req, IsAddr addr ip port →
    net i ip port (.scan req) = some (.scan (d.handleScan req))

/-- The pairs of `data` are divided among the leaders of the shards, and the router knows
    where these are. -/
structure Sharded (r : Router) (net : Network) (data : Std.ExtTreeMap Bytes Bytes) : Prop where
  pd : r.usePd = true
  partitions : ∃ splits, r.shardMap.Partitions splits
  leader : ∀ s ∈ r.shardMap.shards, ∃ addr d, r.nodeAddrs[s.leaderNodeId]? = some addr ∧
    LeaderAt net addr d ∧
      ∀ k, d.engine.get k = if r.leaderOf k = some s.leaderNodeId then data[k]? else none

variable {r : Router} {net : Network} {data : Std.ExtTreeMap Bytes Bytes}

/-- The pairs that a scan over all shards would return. -/
def firstPairs (data : Std.ExtTreeMap Bytes Bytes) (startKey endKey : Bytes) (limit : UInt32) :
    List (Bytes × Bytes) :=
  (range data startKey (RocksEngine.stopKey endKey)).take limit.toNat

theorem exists_shardOf {map : ShardMap} {splits : List Bytes} (hmap : map.Partitions splits)
    (hr : r.shardMap = map) (key : Bytes) : ∃ s ∈ map.shards, r.shardOf key = some s := by
  obtain ⟨s, hfind⟩ := exists_find?_holds hmap key
  subst hr
  exact ⟨s, List.mem_of_find?_eq_some hfind, hfind⟩

/-- The one request of a scan goes to the leader of the first shard. -/
theorem clientScan_eq (hsharded : Sharded r net data) (startKey endKey : Bytes) (limit : UInt32) :
    ∃ part : Std.ExtTreeMap Bytes Bytes,
      (∀ k, part[k]? = if r.leaderOf k = r.leaderOf startKey then data[k]? else none) ∧
      (({ router := some r } : KvClient).scan net startKey endKey limit).1 =
        .ok (firstPairs part startKey endKey limit) := by
  obtain ⟨splits, hmap⟩ := hsharded.partitions
  obtain ⟨s, hs, hshard⟩ := exists_shardOf hmap rfl startKey
  have hleader : r.leaderOf startKey = some s.leaderNodeId := by
    rw [Router.leaderOf, hshard]
    rfl
  obtain ⟨addr, d, haddr, hd, hstore⟩ := hsharded.leader s hs
  obtain ⟨ip, port, hip⟩ := hd.wellFormed
  have hroute : r.getAddrForKey startKey = addr := by
    rw [Router.getAddrForKey, if_pos hsharded.pd]
    rw [Router.shardOf] at hshard
    rw [hshard]
    simp [Std.ExtTreeMap.getD_eq_getD_getElem?, haddr]
  refine ⟨d.engine.db, fun k => hleader ▸ hstore k, ?_⟩
  -- the leader answers the first request, and nothing goes on from there
  have hsent := sendToAddr_stop hip.splitAddr_eq (hd.answers 0 ip port
    { startKey := startKey, endKey := endKey, limit := limit, callId := 1 } hip) rfl 2 r
  simp only [KvClient.scan, KvClient.request, hroute, if_neg hd.wellFormed.ne_nil, hsent]
  show Except.ok (d.handleScan _).kvs = _
  rw [DataNode.handleScan, hd.leads]
  simp only [RocksEngine.scan_kvs]
  rfl

/-- A scan returns the first pairs of all shards exactly if it finds enough pairs of the first
    leader in front of every pair that it misses. -/
theorem clientScan_iff (hsharded : Sharded r net data) (startKey endKey : Bytes) (limit : UInt32) :
    (({ router := some r } : KvClient).scan net startKey endKey limit).1 =
        .ok (firstPairs data startKey endKey limit) ↔
      ∀ k, data[k]?.isSome → inRange startKey (RocksEngine.stopKey endKey) k = true →
        r.leaderOf k ≠ r.leaderOf startKey →
          limit.toNat ≤ (range data startKey (some k)).countP
            fun p => r.leaderOf p.1 = r.leaderOf startKey := by
  obtain ⟨part, hpart, hscan⟩ := clientScan_eq hsharded startKey endKey limit
  have hpart' (k : Bytes) : part[k]? =
      if decide (r.leaderOf k = r.leaderOf startKey) = true then data[k]? else none := by
    rw [hpart]
    simp only [decide_eq_true_eq]
  -- the first pairs of a part are those of all exactly if no missing pair comes too early
  rw [hscan, Except.ok.injEq, eq_comm]
  refine (take_range_eq_iff hpart' limit.toNat).trans ?_
  refine forall₃_congr fun k _ _ => ?_
  rw [decide_eq_false_iff_not, range_part hpart', ← List.countP_eq_length_filter]

/-! ## Two nodes -/

/-- A pair in each of the two shards. -/
def twoPairs : Std.ExtTreeMap Bytes Bytes :=
  ((∅ : Std.ExtTreeMap Bytes Bytes).insert [0x62] [1]).insert [0x7a] [2]

/-- The nodes that lead the two shards. -/
def belowMNode : DataNode := .standAlone (RocksEngine.empty.put [0x62] [1]).1

def fromMNode : DataNode := .standAlone (RocksEngine.empty.put [0x7a] [2]).1

def twoNodes : Network := fun _ ip _ req =>
  match req with
  | .scan req => some (.scan ((if ip = [0x61] then belowMNode else fromMNode).handleScan req))
  | _ => none

theorem get_twoPairs (key : Bytes) : twoPairs[key]? =
    if [0x7a] = key then some [2] else if [0x62] = key then some [1] else none := by
  simp [twoPairs, Std.ExtTreeMap.getElem?_insert]

/-- The store of a node that leads one of the shards. -/
theorem get_node {node : DataNode} {key value : Bytes} {n : Nat}
    (hnode : node = .standAlone (RocksEngine.empty.put key value).1)
    (hpair : twoPairs[key]? = some value) (hleader : (routing [belowM, fromM]).leaderOf key = some n)
    (hother : ∀ k, twoPairs[k]?.isSome → k ≠ key → (routing [belowM, fromM]).leaderOf k ≠ some n)
    (k : Bytes) : node.engine.get k =
      if (routing [belowM, fromM]).leaderOf k = some n then twoPairs[k]? else none := by
  subst hnode
  show (RocksEngine.empty.put key value).1.get k = _
  rw [RocksEngine.get_put, RocksEngine.get_empty]
  by_cases hk : key = k
  · subst hk
    rw [if_pos rfl, if_pos hleader, hpair]
  · rw [if_neg hk]
    split
    · next hn =>
      cases hget : twoPairs[k]? with
      | none => rfl
      | some v => exact absurd hn (hother k (by rw [hget]; rfl) (Ne.symm hk))
    · rfl

theorem key_of_twoPairs {k : Bytes} (hsome : twoPairs[k]?.isSome) : k = [0x62] ∨ k = [0x7a] := by
  rw [get_twoPairs] at hsome
  split at hsome
  · next hz => exact .inr hz.symm
  · split at hsome
    · next hb => exact .inl hb.symm
    · cases hsome

theorem sharded_twoNodes : Sharded (routing [belowM, fromM]) twoNodes twoPairs where
  pd := rfl
  partitions := ⟨[[0x6d]], by decide, by decide, by decide⟩
  leader s hs := by
    cases List.mem_cons.mp hs with
    | inl hfirst =>
      subst hfirst
      refine ⟨[0x61, 0x3a, 0x31], belowMNode, by decide +kernel, ?_, ?_⟩
      · refine ⟨⟨_, _, isAddr_single (by decide) (by decide)⟩, rfl, fun i ip port req haddr => ?_⟩
        obtain ⟨rfl, -⟩ := haddr.unique (isAddr_single (by decide) (by decide))
        rfl
      · refine get_node rfl (by decide +kernel) (by decide +kernel) fun k hsome hne => ?_
        have hz := (key_of_twoPairs hsome).resolve_left hne
        subst hz
        decide +kernel
    | inr hrest =>
      cases List.mem_singleton.mp hrest
      refine ⟨[0x63, 0x3a, 0x33], fromMNode, by decide +kernel, ?_, ?_⟩
      · refine ⟨⟨_, _, isAddr_single (by decide) (by decide)⟩, rfl, fun i ip port req haddr => ?_⟩
        obtain ⟨rfl, -⟩ := haddr.unique (isAddr_single (by decide) (by decide))
        rfl
      · refine get_node rfl (by decide +kernel) (by decide +kernel) fun k hsome hne => ?_
        have hb := (key_of_twoPairs hsome).resolve_right hne
        subst hb
        decide +kernel

/-- With the limit 1 the second node is not needed. -/
theorem clientScan_twoNodes :
    (({ router := some (routing [belowM, fromM]) } : KvClient).scan twoNodes [] [] 1).1 =
      .ok (firstPairs twoPairs [] [] 1) := by
  refine (clientScan_iff sharded_twoNodes [] [] 1).mpr fun k hsome hin hother => ?_
  cases key_of_twoPairs hsome with
  | inl hb =>
    subst hb
    exact absurd (by decide) hother
  | inr hz =>
    subst hz
    decide +kernel

/-- With a larger limit its pair is missing. -/
theorem not_clientScan :
    ¬ ∀ (r : Router) (net : Network) (data : Std.ExtTreeMap Bytes Bytes) (startKey endKey : Bytes)
      (limit : UInt32), Sharded r net data →
        (({ router := some r } : KvClient).scan net startKey endKey limit).1 =
          .ok (firstPairs data startKey endKey limit) := by
  intro hall
  have hscan := hall _ _ _ [] [] 2 sharded_twoNodes
  have hone : (({ router := some (routing [belowM, fromM]) } : KvClient).scan twoNodes [] [] 2).1 =
      .ok [([0x62], [1])] := by
    decide +kernel
  have htwo : firstPairs twoPairs [] [] 2 = [([0x62], [1]), ([0x7a], [2])] := by decide +kernel
  rw [hone, htwo] at hscan
  exact absurd hscan (by simp)

end Dkv
