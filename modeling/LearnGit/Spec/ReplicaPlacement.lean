import LearnGit.ForStd.RoundRobin
import LearnGit.Spec.Failover

/-!
# Where the replicas go

The server sets up its shards without replicas, and only a timer callback that finds a dead
node hands any out. The first such callback makes the nodes that are left take turns: those
that have had a turn less stand together behind the others, and the search of
`scheduleRebalance` ends at the first of them. The later ones only fill up what is short of
three, so replicas are never moved, and a leader is never replaced.

## Key results

- `bestNode_eq_turn`: a round picks the node whose turn it is
- `assignReplicas_turns`: the first deal makes the nodes take turns
- `Placed.deal`: what a later deal changes
- `PlacementDriver.fills_step`: what a step puts behind the replica lists
- `placement`: where the replicas are at any moment of a run
-/

namespace Dkv

open Transition RoundRobin

namespace ShardManager

variable {first : Nat} {others : List Nat} {counts : Nat → Nat}

/-! ## One round -/

/-- The alive nodes have the load of the first `t` turns. -/
def LoadsOfTurns (alive : List Nat) (t : Nat) (counts : Nat → Nat) : Prop :=
  ∀ nid ∈ alive, counts nid = (turns alive 0 t).count nid

/-- Nodes of no smaller load leave the candidate alone. -/
private theorem bestFold_keep {peers nodes : List Nat} (best : Nat × Nat)
    (hload : ∀ nid ∈ nodes, best.2 ≤ counts nid) :
    nodes.foldl (fun r nid =>
      if counts nid < r.2 ∧ nid ∉ peers then (nid, counts nid) else r) best = best := by
  induction nodes with
  | nil => rfl
  | cons nid nodes ih =>
    have hnid := hload nid List.mem_cons_self
    rw [List.foldl_cons, if_neg (by omega)]
    exact ih fun n hn => hload n (List.mem_cons_of_mem _ hn)

/-- A round picks the node whose turn it is, if that one is not a replica yet. -/
theorem bestNode_eq_turn (hnodup : (first :: others).Nodup) {t nid : Nat}
    (hloads : LoadsOfTurns (first :: others) t counts)
    (hturn : (first :: others)[t % (first :: others).length]? = some nid) {peers : List Nat}
    (hnew : nid ∉ peers) : bestNode counts peers first (first :: others) = nid := by
  -- the load of the node at position `i`
  have hload : ∀ {i n : Nat}, (first :: others)[i]? = some n →
      counts n = t / (first :: others).length +
        if i < t % (first :: others).length then 1 else 0 := fun hi => by
    rw [hloads _ (List.mem_of_getElem? hi), count_turns hnodup hi]
  have hfirst := hload (i := 0) rfl
  have hnid := hload hturn
  rw [if_neg (Nat.lt_irrefl _)] at hnid
  unfold bestNode
  by_cases hstart : t % (first :: others).length = 0
  · -- a new round: all loads are the same
    rw [hstart] at hturn
    obtain rfl : first = nid := Option.some.inj hturn
    rw [bestFold_keep (first, counts first)]
    intro n hn
    obtain ⟨i, hi⟩ := List.mem_iff_getElem?.mp hn
    have := hload hi
    omega
  · -- the nodes in front have had their turn of this round, those behind have not
    rw [if_pos (Nat.pos_of_ne_zero hstart)] at hfirst
    obtain ⟨hp, hat⟩ := List.getElem?_eq_some_iff.mp hturn
    have hfront : ∀ n ∈ (first :: others).take (t % (first :: others).length),
        counts first ≤ counts n := by
      intro n hn
      obtain ⟨i, hi⟩ := List.mem_iff_getElem?.mp hn
      rw [List.getElem?_take, Option.ite_none_right_eq_some] at hi
      obtain ⟨hlt, hi⟩ := hi
      have := hload hi
      rw [if_pos hlt] at this
      omega
    have hback : ∀ n ∈ (first :: others).drop (t % (first :: others).length + 1),
        counts nid ≤ counts n := by
      intro n hn
      obtain ⟨i, hi⟩ := List.mem_iff_getElem?.mp (List.mem_of_mem_drop hn)
      have := hload hi
      omega
    have hsplit : first :: others = (first :: others).take (t % (first :: others).length) ++
        nid :: (first :: others).drop (t % (first :: others).length + 1) := by
      rw [← hat, ← List.drop_eq_getElem_cons hp, List.take_append_drop]
    rw [hsplit, List.foldl_append, bestFold_keep (first, counts first) hfront,
      List.foldl_cons, if_pos ⟨by dsimp only; omega, hnew⟩, bestFold_keep (nid, counts nid) hback]

/-! ## The rounds of a shard, and the loop over the shards -/

/-- The loads after one more turn. -/
theorem LoadsOfTurns.next {alive : List Nat} {t nid : Nat} (hloads : LoadsOfTurns alive t counts)
    (hturn : alive[t % alive.length]? = some nid) :
    LoadsOfTurns alive (t + 1) fun n => if n = nid then counts n + 1 else counts n := by
  intro n hn
  have hcount := hloads n hn
  rw [turns_succ, List.count_append, Nat.zero_add, hturn]
  by_cases heq : n = nid
  · subst heq
    simp [hcount]
  · simp [heq, Ne.symm heq, hcount]

/-- `n` rounds deal out the next `n` turns. -/
theorem addReplicas_turns (hnodup : (first :: others).Nodup) {n k t : Nat}
    (hrounds : k + n ≤ (first :: others).length)
    (hloads : LoadsOfTurns (first :: others) (t + k) counts) :
    let r := addReplicas first (first :: others) n counts (turns (first :: others) t k)
    r.2 = turns (first :: others) t (k + n) ∧
      LoadsOfTurns (first :: others) (t + (k + n)) r.1 := by
  induction n generalizing k counts with
  | zero => exact ⟨rfl, hloads⟩
  | succ n ih =>
    obtain ⟨nid, -, hturn⟩ := exists_turn (List.cons_ne_nil first others) (t + k)
    have hnew := notMem_turns hnodup (by omega) hturn
    have hbest := bestNode_eq_turn hnodup hloads hturn hnew
    have hpeers : turns (first :: others) t k ++ [nid] = turns (first :: others) t (k + 1) := by
      rw [turns_succ, hturn, Option.toList_some]
    have hrest := ih (k := k + 1) (by omega) (hloads.next hturn)
    rw [addReplicas, hbest]
    dsimp only
    rw [hpeers, show k + (n + 1) = k + 1 + n by omega]
    exact hrest

/-- Shard number `i`, counted from turn number `t`, with the next `r` turns as its replicas. -/
def dealt (alive : List Nat) (t r i : Nat) (s : ShardState) : ShardState :=
  { s with peerNodeIds := turns alive (t + r * i) r }

theorem dealt_succ (alive : List Nat) (t r i : Nat) :
    dealt alive t r (i + 1) = dealt alive (t + r) r i := by
  funext s
  unfold dealt
  rw [Nat.mul_succ, Nat.add_assoc, Nat.add_comm r]

/-- The last loop deals the turns out, to each shard as many as it may have replicas. -/
theorem assignReplicas_turns (hnodup : (first :: others).Nodup) {t : Nat}
    (hloads : LoadsOfTurns (first :: others) t counts) {shards : List ShardState}
    (hfresh : ∀ s ∈ shards, s.peerNodeIds = []) :
    assignReplicas first (first :: others) counts shards =
      shards.mapIdx (dealt (first :: others) t (min 3 (first :: others).length)) := by
  induction shards generalizing t counts with
  | nil => rfl
  | cons s shards ih =>
    obtain ⟨hs, hfresh⟩ := List.forall_mem_cons.mp hfresh
    have hrounds := addReplicas_turns hnodup (n := min 3 (first :: others).length) (k := 0)
      (by omega) hloads
    simp only [Nat.zero_add, turns_zero] at hrounds
    rw [assignReplicas, List.mapIdx_cons, hs, List.length_nil, Nat.sub_zero,
      hrounds.1, ih hrounds.2 hfresh]
    simp only [dealt_succ]
    rfl

/-- All turns that were dealt out. -/
theorem flatMap_dealt (alive : List Nat) (t r : Nat) (shards : List ShardState) :
    (shards.mapIdx (dealt alive t r)).flatMap ShardState.peerNodeIds =
      turns alive t (r * shards.length) := by
  induction shards generalizing t with
  | nil => rfl
  | cons s shards ih =>
    rw [List.mapIdx_cons, List.flatMap_cons, List.length_cons,
      show r * (shards.length + 1) = r + r * shards.length by rw [Nat.mul_succ, Nat.add_comm],
      ← turns_append]
    simp only [dealt_succ]
    rw [ih]
    rfl

/-! ## A deal -/

section Deal

variable {others aliveNodes peers peers' : List Nat} {n : Nat}

/-- `peers'` is `peers` with nodes of `aliveNodes` put behind it, each of them one that was not
    in the list yet, unless it is the first of `aliveNodes`. -/
inductive Filled (aliveNodes : List Nat) : List Nat → List Nat → Prop
  | done (peers : List Nat) : Filled aliveNodes peers peers
  | add {peers peers' : List Nat} {nid : Nat} (halive : nid ∈ aliveNodes)
      (hnew : nid ∉ peers ∨ aliveNodes.head? = some nid)
      (hrest : Filled aliveNodes (peers ++ [nid]) peers') : Filled aliveNodes peers peers'

theorem Filled.isPrefix (hfilled : Filled aliveNodes peers peers') : peers <+: peers' := by
  induction hfilled with
  | done peers => exact List.prefix_rfl
  | add _ _ _ ih => exact (List.prefix_append _ _).trans ih

theorem filled_addReplicas :
    Filled (first :: others) peers (addReplicas first (first :: others) n counts peers).2 := by
  induction n generalizing counts peers with
  | zero => exact .done peers
  | succ n ih =>
    refine .add (bestNode_mem List.mem_cons_self) ?_ ih
    cases bestNode_cases counts peers first (first :: others) with
    | inl hkept =>
      rw [hkept.1]
      exact .inr rfl
    | inr hother => exact .inl hother.2.1

theorem length_addReplicas :
    (addReplicas first aliveNodes n counts peers).2.length = peers.length + n := by
  induction n generalizing counts peers with
  | zero => rfl
  | succ n ih =>
    rw [addReplicas, ih, List.length_append, List.length_singleton]
    omega

theorem length_assignReplicas (counts : Nat → Nat) (shards : List ShardState) :
    (assignReplicas first aliveNodes counts shards).length = shards.length := by
  induction shards generalizing counts with
  | nil => rfl
  | cons s shards ih => exact congrArg (· + 1) (ih _)

/-- The last loop fills up the replicas of each shard. -/
theorem assignReplicas_getElem? {shards : List ShardState} {i : Nat} {s' : ShardState}
    (hs' : (assignReplicas first (first :: others) counts shards)[i]? = some s') :
    ∃ s, shards[i]? = some s ∧ s'.leaderNodeId = s.leaderNodeId ∧
      Filled (first :: others) s.peerNodeIds s'.peerNodeIds ∧
      s'.peerNodeIds.length = max (min 3 (first :: others).length) s.peerNodeIds.length := by
  induction shards generalizing counts i with
  | nil => cases hs'
  | cons s shards ih =>
    rw [assignReplicas] at hs'
    cases i with
    | zero =>
      obtain rfl := Option.some.inj hs'
      refine ⟨s, rfl, rfl, filled_addReplicas, ?_⟩
      dsimp only
      rw [length_addReplicas]
      omega
    | succ i => exact ih hs'

/-- The shards stay, and their replica lists are filled up with nodes of `aliveNodes`. -/
structure Fills (aliveNodes : List Nat) (m m' : ShardManager) : Prop where
  length_eq : m'.shards.length = m.shards.length
  filled : ∀ (i : Nat) (s s' : ShardState), m.shards[i]? = some s → m'.shards[i]? = some s' →
    Filled aliveNodes s.peerNodeIds s'.peerNodeIds

end Deal

/-- The size of the replica lists after the deals. -/
def dealtSize (deals : List (List Nat)) : Nat :=
  (deals.map fun aliveNodes => min 3 aliveNodes.length).foldr max 0

/-- Shard number `i` after the deals, the latest first: it still has what the first deal gave
    it, and the second one made its first replica the leader. -/
structure Placed (deals : List (List Nat)) (i : Nat) (s : ShardState) : Prop where
  kept : turns (deals.getLastD []) (min 3 (deals.getLastD []).length * i)
    (min 3 (deals.getLastD []).length) <+: s.peerNodeIds
  size : s.peerNodeIds.length = dealtSize deals
  leader : s.leaderNodeId = if 2 ≤ deals.length then s.peerNodeIds.headD 0 else 0

/-- A shard without replicas is given its turns. -/
theorem Placed.first_deal (hnodup : (first :: others).Nodup) (hloads : ∀ nid, counts nid = 0)
    {shards : List ShardState} (hshards : ∀ i s, shards[i]? = some s → Placed [] i s)
    {i : Nat} {s' : ShardState} (hs' : (assignReplicas first (first :: others) counts
      (shards.map .withLeader))[i]? = some s') : Placed [first :: others] i s' := by
  have hfresh : ∀ s ∈ shards, s.peerNodeIds = [] := by
    intro s hs
    obtain ⟨i, hi⟩ := List.mem_iff_getElem?.mp hs
    exact List.length_eq_zero_iff.mp (hshards i s hi).size
  have hfresh' : ∀ s ∈ shards.map ShardState.withLeader, s.peerNodeIds = [] := by
    intro s hs
    obtain ⟨s₀, hs₀, rfl⟩ := List.mem_map.mp hs
    rw [withLeader_peerNodeIds]
    exact hfresh s₀ hs₀
  have hturns : LoadsOfTurns (first :: others) 0 counts := fun nid _ => hloads nid
  rw [assignReplicas_turns hnodup hturns hfresh', List.getElem?_mapIdx, List.getElem?_map,
    Option.map_map, Option.map_eq_some_iff] at hs'
  obtain ⟨s, hs, rfl⟩ := hs'
  have hleader : s.withLeader.leaderNodeId = 0 := by
    rw [ShardState.withLeader, hfresh s (List.mem_of_getElem? hs)]
    exact (hshards i s hs).leader
  refine ⟨?_, ?_, hleader⟩
  · show turns (first :: others) _ _ <+: turns (first :: others) (0 + _) _
    rw [Nat.zero_add]
    exact List.prefix_rfl
  · exact (length_turns (List.cons_ne_nil first others) _ _).trans (Nat.max_zero _).symm

/-- A later deal fills a shard up and gives it a leader. -/
theorem Placed.deal {deals : List (List Nat)} (hsome : 0 < dealtSize deals) {s : ShardState}
    {i : Nat} (hs : Placed deals i s) {aliveNodes : List Nat} {s' : ShardState}
    (hleader : s'.leaderNodeId = s.withLeader.leaderNodeId)
    (hstart : s.peerNodeIds <+: s'.peerNodeIds)
    (hlength : s'.peerNodeIds.length = max (min 3 aliveNodes.length) s.peerNodeIds.length) :
    Placed (aliveNodes :: deals) i s' := by
  have hdeals : deals ≠ [] := by
    rintro rfl
    exact Nat.lt_irrefl 0 hsome
  have hcount : 2 ≤ (aliveNodes :: deals).length :=
    Nat.succ_le_succ (List.length_pos_iff.mpr hdeals)
  -- the first replica is there since the first deal
  have hpos : 0 < s.peerNodeIds.length := hs.size ▸ hsome
  cases hpeers : s.peerNodeIds with
  | nil =>
    rw [hpeers] at hpos
    exact absurd hpos (Nat.lt_irrefl 0)
  | cons pid peers =>
    obtain ⟨added, hadded⟩ := hstart
    have hhead : s'.peerNodeIds.headD 0 = pid := by
      rw [← hadded, hpeers]
      rfl
    have hlast : (aliveNodes :: deals).getLastD [] = deals.getLastD [] := by
      cases deals with
      | nil => exact absurd rfl hdeals
      | cons d deals => rfl
    refine ⟨?_, ?_, ?_⟩
    · rw [hlast]
      exact hs.kept.trans ⟨added, hadded⟩
    · rw [hlength, hs.size]
      rfl
    · rw [if_pos hcount, hleader, withLeader_leaderNodeId, hhead, hpeers, hs.leader, hpeers]
      split <;> simp

/-! ## Few deals, or enough nodes -/

theorem le_dealtSize {deals : List (List Nat)} {aliveNodes : List Nat}
    (hmem : aliveNodes ∈ deals) : min 3 aliveNodes.length ≤ dealtSize deals := by
  induction deals with
  | nil => exact absurd hmem List.not_mem_nil
  | cons d deals ih =>
    show _ ≤ max _ (dealtSize deals)
    cases List.mem_cons.mp hmem with
    | inl heq =>
      rw [heq]
      exact Nat.le_max_left _ _
    | inr hmem => exact (ih hmem).trans (Nat.le_max_right _ _)

theorem dealtSize_le (deals : List (List Nat)) : dealtSize deals ≤ 3 := by
  induction deals with
  | nil => exact Nat.zero_le 3
  | cons d deals ih => exact Nat.max_le.mpr ⟨Nat.min_le_left _ _, ih⟩

/-- Nothing was short after the first deal, or there was no other one. -/
def Settled (deals : List (List Nat)) : Prop :=
  deals.length ≤ 1 ∨ 3 ≤ (deals.getLastD []).length

theorem Settled.dealtSize_eq {deals : List (List Nat)} (hsettled : Settled deals) :
    dealtSize deals = min 3 (deals.getLastD []).length := by
  cases deals with
  | nil => rfl
  | cons d deals =>
    cases deals with
    | nil => exact Nat.max_zero _
    | cons d' deals =>
      cases hsettled with
      | inl hone => exact absurd hone (by simp)
      | inr henough =>
        have hmem : (d :: d' :: deals).getLastD [] ∈ d :: d' :: deals := by
          rw [List.getLastD_cons]
          exact List.getLastD_mem_cons
        have hle := le_dealtSize hmem
        have hge := dealtSize_le (d :: d' :: deals)
        omega

/-- Then every shard has just what the first deal gave it. -/
theorem Placed.peerNodeIds_eq {deals : List (List Nat)} (hsettled : Settled deals) {i : Nat}
    {s : ShardState} (hs : Placed deals i s) :
    s.peerNodeIds = turns (deals.getLastD []) (min 3 (deals.getLastD []).length * i)
      (min 3 (deals.getLastD []).length) := by
  refine (hs.kept.eq_of_length_le ?_).symm
  rw [hs.size, hsettled.dealtSize_eq]
  by_cases hne : deals.getLastD [] = []
  · rw [hne]
    exact (Nat.min_le_right _ _).trans (Nat.zero_le _)
  · exact (length_turns hne _ _).ge

variable {m : ShardManager} {deals : List (List Nat)}

theorem distinctReplicas_of_settled (hsettled : Settled deals)
    (hnodup : (deals.getLastD []).Nodup)
    (hshards : ∀ i s, m.shards[i]? = some s → Placed deals i s) : m.DistinctReplicas := by
  intro s hs
  obtain ⟨i, hi⟩ := List.mem_iff_getElem?.mp hs
  rw [(hshards i s hi).peerNodeIds_eq hsettled]
  exact nodup_turns hnodup _ (Nat.min_le_right _ _)

theorem loads_of_settled (hsettled : Settled deals)
    (hshards : ∀ i s, m.shards[i]? = some s → Placed deals i s) (nid : Nat) :
    m.loads nid = (turns (deals.getLastD []) 0
      (min 3 (deals.getLastD []).length * m.shards.length)).count nid := by
  have hdealt : m.shards =
      m.shards.mapIdx (dealt (deals.getLastD []) 0 (min 3 (deals.getLastD []).length)) := by
    apply List.ext_getElem?
    intro i
    rw [List.getElem?_mapIdx]
    cases hi : m.shards[i]? with
    | none => rfl
    | some s =>
      rw [Option.map_some, dealt, Nat.zero_add, ← (hshards i s hi).peerNodeIds_eq hsettled]
  rw [loads, ← flatMap_dealt, ← hdealt]

end ShardManager

/-! ## Runs -/

/-- The nodes that an event deals replicas out to: a timer callback that finds a dead node
    deals to those that are left. -/
def PlacementDriver.dealsTo (s : PlacementDriver) : PdEvent → Option (List Nat)
  | .tick now order =>
    let dead := s.server.shardMgr.getDeadNodes now order
    if dead.1 = [] ∨ dead.2.aliveNodes order = [] then none else some (dead.2.aliveNodes order)
  | _ => none

/-- The deals of a run, the latest first. -/
def deals (h : List (PlacementDriver × PdEvent)) : List (List Nat) :=
  h.filterMap fun p => p.1.dealsTo p.2

/-- Where the replicas are after a run: every shard is where it was dealt to, and as long as
    nothing was filled up later, no shard has a node twice and no node has two replicas more
    than another one. The deals fill the lists up with their nodes, and no other step of the
    run changes them. -/
structure Placement (h : List (PlacementDriver × PdEvent)) (s : PlacementDriver) : Prop where
  placed : ∀ i shard, s.server.shardMgr.shards[i]? = some shard →
    ShardManager.Placed (deals h) i shard
  distinct : ShardManager.Settled (deals h) → s.server.shardMgr.DistinctReplicas
  balanced : ShardManager.Settled (deals h) → ∀ nid ∈ (deals h).getLastD [],
    ∀ nid' ∈ (deals h).getLastD [],
      s.server.shardMgr.loads nid ≤ s.server.shardMgr.loads nid' + 1
  fills : ∀ p ∈ h, ∀ s', pdSystem.step p.1 p.2 = some s' →
    ShardManager.Fills ((p.1.dealsTo p.2).getD []) p.1.server.shardMgr s'.server.shardMgr

/-- The nodes of a deal are different ones, and there are some. -/
structure Dealable (alive : List Nat) : Prop where
  nodup : alive.Nodup
  ne_nil : alive ≠ []

/-- The run so far: what was dealt, and where the shards are. -/
structure Dealt (h : List (PlacementDriver × PdEvent)) (s : PlacementDriver) : Prop where
  dealable : ∀ alive ∈ deals h, Dealable alive
  placed : ∀ i shard, s.server.shardMgr.shards[i]? = some shard →
    ShardManager.Placed (deals h) i shard

variable {h : List (PlacementDriver × PdEvent)} {s s' : PlacementDriver} {e : PdEvent}

theorem PlacementDriver.dealable_dealsTo (hen : s.Enabled e) {alive : List Nat}
    (hdeals : s.dealsTo e = some alive) : Dealable alive := by
  cases e with
  | registerNode now req => cases hdeals
  | heartbeat now req => cases hdeals
  | tick now order =>
    unfold dealsTo at hdeals
    dsimp only at hdeals
    split at hdeals
    · cases hdeals
    · next hsome =>
      obtain rfl := Option.some.inj hdeals
      exact ⟨(ShardManager.nodup_order hen.2).filter _, fun hnil => hsome (.inr hnil)⟩

theorem deals_cons_none (hnone : s.dealsTo e = none) : deals ((s, e) :: h) = deals h := by
  exact List.filterMap_cons_none hnone

theorem deals_cons_some {alive : List Nat} (hsome : s.dealsTo e = some alive) :
    deals ((s, e) :: h) = alive :: deals h := by
  exact List.filterMap_cons_some hsome

/-- An event that deals nothing leaves the shards alone. -/
theorem PlacementDriver.shards_react_of_none (hnone : s.dealsTo e = none) :
    (s.react e).shardMgr.shards = s.server.shardMgr.shards := by
  cases e with
  | registerNode now req => rfl
  | heartbeat now req =>
    show (req.shardStates.foldl (fun m state => m.processHeartbeat now req.nodeId state)
      s.server.shardMgr).shards = _
    generalize s.server.shardMgr = m
    induction req.shardStates generalizing m with
    | nil => rfl
    | cons state states ih =>
      rw [List.foldl_cons, ih, ShardManager.shards_processHeartbeat]
  | tick now order =>
    unfold dealsTo at hnone
    dsimp only at hnone
    show (PdServer.tick _ _ _).shardMgr.shards = _
    rw [PdServer.tick, ← ShardManager.shards_getDeadNodes s.server.shardMgr now order]
    split at hnone
    · next hor =>
      dsimp only
      split
      · rfl
      · next hdead =>
        rw [ShardManager.scheduleRebalance_nil (hor.resolve_left hdead)]
    · cases hnone

/-- The others run the last loop of the rebalance. -/
theorem PlacementDriver.shards_react_of_some {alive : List Nat}
    (hsome : s.dealsTo e = some alive) : ∃ first others, alive = first :: others ∧
      (s.react e).shardMgr.shards = ShardManager.assignReplicas first (first :: others)
        s.server.shardMgr.loads (s.server.shardMgr.shards.map .withLeader) := by
  cases e with
  | registerNode now req => cases hsome
  | heartbeat now req => cases hsome
  | tick now order =>
    unfold dealsTo at hsome
    dsimp only at hsome
    split at hsome
    · cases hsome
    · next hneither =>
      obtain rfl := Option.some.inj hsome
      obtain ⟨first, others, halive⟩ :=
        List.exists_cons_of_ne_nil fun hnil => hneither (.inr hnil)
      have hshards := ShardManager.shards_getDeadNodes s.server.shardMgr now order
      refine ⟨first, others, halive, ?_⟩
      show (PdServer.tick _ _ _).shardMgr.shards = _
      rw [PdServer.tick]
      dsimp only
      rw [if_neg fun hnil => hneither (.inl hnil), ShardManager.scheduleRebalance_cons halive,
        hshards]
      congr 1
      funext nid
      rw [ShardManager.loads, hshards, ShardManager.loads]

/-- A step fills the replica lists up with the nodes that it deals to. -/
theorem PlacementDriver.fills_step (hstep : pdSystem.step s e = some s') :
    ShardManager.Fills ((s.dealsTo e).getD []) s.server.shardMgr s'.server.shardMgr := by
  obtain ⟨-, hs'⟩ := Option.ite_none_right_eq_some.mp hstep
  obtain rfl := Option.some.inj hs'
  cases hdeals : s.dealsTo e with
  | none =>
    have hsame : (s.react e).shardMgr.shards = s.server.shardMgr.shards :=
      shards_react_of_none hdeals
    refine ⟨congrArg List.length hsame, fun i shard shard' hi hi' => ?_⟩
    rw [hsame, hi] at hi'
    obtain rfl := Option.some.inj hi'
    exact .done _
  | some alive =>
    obtain ⟨first, others, rfl, hshards⟩ := shards_react_of_some hdeals
    refine ⟨?_, fun i shard shard' hi hi' => ?_⟩
    · rw [hshards, ShardManager.length_assignReplicas, List.length_map]
    · rw [hshards] at hi'
      obtain ⟨old, hold, -, hfilled, -⟩ := ShardManager.assignReplicas_getElem? hi'
      -- setting the leaders has left the replicas alone
      rw [List.getElem?_map, hi, Option.map_some] at hold
      rw [← Option.some.inj hold, ShardManager.withLeader_peerNodeIds] at hfilled
      exact hfilled

private theorem Dealt.start (hinit : pdSystem.init s) : Dealt [] s := by
  refine ⟨fun alive halive => absurd halive List.not_mem_nil, fun i shard hi => ?_⟩
  obtain ⟨numShards, replicaCount, hserver⟩ := hinit
  rw [hserver] at hi
  -- the constructor has set the shards up, without replicas
  obtain ⟨k, -, rfl⟩ := List.mem_map.mp (List.mem_of_getElem? hi)
  exact ⟨List.nil_prefix, rfl, rfl⟩

private theorem Dealt.step (hdealt : Dealt h s) (hstep : pdSystem.step s e = some s') :
    Dealt ((s, e) :: h) s' := by
  obtain ⟨hen, hs'⟩ := Option.ite_none_right_eq_some.mp hstep
  obtain rfl := Option.some.inj hs'
  cases hdeals : s.dealsTo e with
  | none =>
    have hsame := deals_cons_none (h := h) hdeals
    refine ⟨hsame ▸ hdealt.dealable, fun i shard hi => ?_⟩
    rw [hsame]
    rw [PlacementDriver.shards_react_of_none hdeals] at hi
    exact hdealt.placed i shard hi
  | some alive =>
    have halive := PlacementDriver.dealable_dealsTo hen hdeals
    obtain ⟨first, others, rfl, hshards⟩ := PlacementDriver.shards_react_of_some hdeals
    have hmore := deals_cons_some (h := h) hdeals
    refine ⟨?_, fun i shard hi => ?_⟩
    · rw [hmore]
      exact List.forall_mem_cons.mpr ⟨halive, hdealt.dealable⟩
    rw [hmore]
    rw [hshards] at hi
    by_cases hfirst : deals h = []
    · -- nobody has a replica yet
      rw [hfirst]
      have hplaced := hdealt.placed
      rw [hfirst] at hplaced
      refine ShardManager.Placed.first_deal halive.nodup (fun nid => ?_) hplaced hi
      have hsettled : ShardManager.Settled [] := .inl (Nat.zero_le 1)
      rw [ShardManager.loads_of_settled hsettled hplaced nid]
      simp
    · obtain ⟨d, hd⟩ := List.exists_mem_of_ne_nil _ hfirst
      have hsome : 0 < ShardManager.dealtSize (deals h) := by
        have hpos := List.length_pos_iff.mpr (hdealt.dealable d hd).ne_nil
        have hle := ShardManager.le_dealtSize hd
        omega
      obtain ⟨s₁, hs₁, hleader, hfilled, hlength⟩ := ShardManager.assignReplicas_getElem? hi
      rw [List.getElem?_map, Option.map_eq_some_iff] at hs₁
      obtain ⟨s₀, hs₀, rfl⟩ := hs₁
      rw [ShardManager.withLeader_peerNodeIds] at hfilled hlength
      exact (hdealt.placed i s₀ hs₀).deal hsome hleader hfilled.isPrefix hlength

/-- The replicas are where the deals put them, at any moment of a run. -/
theorem placement (hrun : Run pdSystem h s) : Placement h s := by
  have hdealt : Dealt h s := hrun.rec_on_run (fun _ => Dealt.start)
    fun _ _ _ _ _ hdealt hstep => hdealt.step hstep
  have hnodup : ((deals h).getLastD []).Nodup := by
    cases hdeals : deals h with
    | nil => exact List.nodup_nil
    | cons d ds =>
      have hmem : (d :: ds).getLastD [] ∈ d :: ds := by
        rw [List.getLastD_cons]
        exact List.getLastD_mem_cons
      exact (hdealt.dealable _ (hdeals ▸ hmem)).nodup
  refine ⟨hdealt.placed, fun hsettled => ?_, fun hsettled nid hnid nid' hnid' => ?_,
    fun p _ s' hstep => PlacementDriver.fills_step hstep⟩
  · exact ShardManager.distinctReplicas_of_settled hsettled hnodup hdealt.placed
  · rw [ShardManager.loads_of_settled hsettled hdealt.placed,
      ShardManager.loads_of_settled hsettled hdealt.placed]
    exact count_turns_le hnodup hnid hnid' _

/-- Of four nodes the first falls silent, and then the one that has the first replica. -/
def twoDeaths : List PdEvent :=
  [.registerNode 0 {}, .registerNode 5 {}, .registerNode 10 {}, .registerNode 10 {},
    .tick 12 [1, 2, 3, 4], .tick 17 [4, 3, 2, 1]]

theorem twoDeaths_runs : (pdSchedule twoDeaths).isSome := by decide +kernel

/-- The dead node becomes the leader. -/
theorem placement_twoDeaths :
    let r := (pdSchedule twoDeaths).get twoDeaths_runs
    Placement r.1 r.2 ∧ deals r.1 = [[4, 3], [2, 3, 4]] ∧
      r.2.server.shardMgr.shards.map ShardManager.ShardState.peerNodeIds = [[2, 3, 4]] ∧
      r.2.server.shardMgr.shards.map ShardManager.ShardState.leaderNodeId = [2] :=
  ⟨placement (pdSchedule_run twoDeaths_runs), by decide +kernel, by decide +kernel,
    by decide +kernel⟩

end Dkv
