import LearnGit.Spec.Rebalance

/-!
# Failover

When the timer finds a node dead it rebalances, and the rebalance only adds. It takes no
node off a replica list and replaces no leader, and it counts a dead replica as one of the
three; so what it leaves is right only where nothing had to be replaced, and then as long as
there is room for what the shards lack.

## Key results

- `le_card_addReplicas_iff`: when the rounds of a shard add as many nodes as it lacks
- `leader_mem_replicas`: the leader of a reachable shard is one of its replicas
- `failedOver_of_nothingToReplace`: when they are after the timer has found a dead node
-/

namespace Dkv

open Transition

namespace ShardManager

/-! ## What the rounds add -/

section Rounds

variable {first : Nat} {aliveNodes : List Nat} {n : Nat} {counts : Nat → Nat} {peers : List Nat}

theorem mem_addReplicas_of_mem {nid : Nat} (hnid : nid ∈ peers) :
    nid ∈ (addReplicas first aliveNodes n counts peers).2 := by
  induction n generalizing counts peers with
  | zero => exact hnid
  | succ n ih => exact ih (List.mem_append_left _ hnid)

/-- A replica was there before, or it is alive. -/
theorem mem_addReplicas (hfirst : first ∈ aliveNodes) {nid : Nat}
    (hnid : nid ∈ (addReplicas first aliveNodes n counts peers).2) :
    nid ∈ peers ∨ nid ∈ aliveNodes := by
  induction n generalizing counts peers with
  | zero => exact .inl hnid
  | succ n ih =>
    cases ih hnid with
    | inl hmem =>
      cases List.mem_append.mp hmem with
      | inl hmem => exact .inl hmem
      | inr hbest =>
        rw [List.mem_singleton.mp hbest]
        exact .inr (bestNode_mem hfirst)
    | inr halive => exact .inr halive

private theorem card_concat (peers : List Nat) (nid : Nat) :
    (peers ++ [nid]).toFinset.card = peers.toFinset.card + if nid ∈ peers then 0 else 1 := by
  have hinsert : (peers ++ [nid]).toFinset = insert nid peers.toFinset := by
    rw [List.toFinset_append, Finset.union_comm]
    rfl
  rw [hinsert]
  split
  · next hmem => rw [Finset.insert_eq_of_mem (List.mem_toFinset.mpr hmem), Nat.add_zero]
  · next hnew => rw [Finset.card_insert_of_notMem (fun hmem => hnew (List.mem_toFinset.mp hmem))]

/-- Every round adds one node at most. -/
theorem card_addReplicas_le :
    (addReplicas first aliveNodes n counts peers).2.toFinset.card ≤ peers.toFinset.card + n := by
  induction n generalizing counts peers with
  | zero => exact Nat.le_refl _
  | succ n ih =>
    have hround := card_concat peers (bestNode counts peers first aliveNodes)
    refine ih.trans ?_
    split at hround <;> omega

/-- The rounds add a node each, exactly if each picks a new one. -/
theorem card_addReplicas_iff :
    peers.toFinset.card + n ≤ (addReplicas first aliveNodes n counts peers).2.toFinset.card ↔
      RoundsPickNew first aliveNodes n counts peers := by
  induction n generalizing counts peers with
  | zero => exact iff_of_true (Nat.le_refl _) trivial
  | succ n ih =>
    have hround := card_concat peers (bestNode counts peers first aliveNodes)
    rw [RoundsPickNew, ← bestNode_notMem_iff]
    dsimp only
    rw [← ih, addReplicas]
    by_cases hmem : bestNode counts peers first aliveNodes ∈ peers
    · -- this round adds nothing, so the others cannot make up for it
      rw [if_pos hmem] at hround
      have hle : (addReplicas first aliveNodes n (fun nid =>
          if nid = bestNode counts peers first aliveNodes then counts nid + 1 else counts nid)
          (peers ++ [bestNode counts peers first aliveNodes])).2.toFinset.card ≤ _ :=
        card_addReplicas_le
      exact iff_of_false (by omega) fun h => h.1 hmem
    · rw [if_neg hmem] at hround
      rw [hround, and_iff_right hmem]
      omega

/-- A shard that was filled up to `size` replicas has as many nodes, exactly if it lacked no
    more than the rounds and each of them picked a new one. -/
theorem le_card_addReplicas_iff {size : Nat} :
    size ≤ (addReplicas first aliveNodes (size - peers.length) counts peers).2.toFinset.card ↔
      size ≤ peers.toFinset.card + (size - peers.length) ∧
        RoundsPickNew first aliveNodes (size - peers.length) counts peers := by
  have hlen := List.toFinset_card_le peers
  have hle : (addReplicas first aliveNodes (size - peers.length) counts peers).2.toFinset.card ≤
      peers.toFinset.card + (size - peers.length) := card_addReplicas_le
  rw [← card_addReplicas_iff]
  constructor
  · intro hsize
    refine ⟨hsize.trans hle, ?_⟩
    rcases Nat.le_total size peers.length with hfull | hshort
    · rw [Nat.sub_eq_zero_of_le hfull]
      exact Nat.le_refl _
    · -- the list was short, and its nodes are no more than its length
      omega
  · intro ⟨henough, hrounds⟩
    exact henough.trans hrounds

end Rounds

/-! ## Leaders -/

theorem withLeader_leaderNodeId (s : ShardState) :
    s.withLeader.leaderNodeId =
      if s.leaderNodeId = 0 then s.peerNodeIds.headD 0 else s.leaderNodeId := by
  unfold ShardState.withLeader
  cases hpeers : s.peerNodeIds with
  | nil =>
    dsimp only [List.headD_nil]
    split
    · next hzero => exact hzero
    · rfl
  | cons pid pids =>
    dsimp only [List.headD_cons]
    split <;> rfl

/-- A shard's leader is one of its replicas; zero stands for no leader. -/
def ShardState.LedByReplica (s : ShardState) : Prop :=
  s.leaderNodeId ≠ 0 → s.leaderNodeId ∈ s.peerNodeIds

theorem ledByReplica_withLeader {s : ShardState} (hs : s.LedByReplica) :
    s.withLeader.LedByReplica := by
  intro hne
  rw [withLeader_leaderNodeId] at hne ⊢
  rw [withLeader_peerNodeIds]
  split
  · next hzero =>
    -- the first replica becomes the leader
    rw [if_pos hzero] at hne
    cases hpeers : s.peerNodeIds with
    | nil =>
      rw [hpeers] at hne
      exact absurd rfl hne
    | cons pid pids => exact List.mem_cons_self
  · next hleader => exact hs hleader

theorem ledByReplica_assigned {s : ShardState} (hs : s.LedByReplica) (nodeId : Nat)
    (isLeader : Bool) : (s.assigned nodeId isLeader).LedByReplica := by
  unfold ShardState.assigned
  cases isLeader with
  | true =>
    -- the new leader is added unless it is a replica already
    simp only [if_true]
    split
    · next hmem => exact fun _ => hmem
    · exact fun _ => List.mem_append_right _ (List.mem_singleton_self _)
  | false =>
    simp only [Bool.false_eq_true, if_false]
    split
    · exact hs
    · exact fun hne => List.mem_append_left _ (hs hne)

private theorem ledByReplica_assignReplicas {first : Nat} {aliveNodes : List Nat}
    {counts : Nat → Nat} {shards : List ShardState} (hshards : ∀ s ∈ shards, s.LedByReplica) :
    ∀ s ∈ assignReplicas first aliveNodes counts shards, s.LedByReplica := by
  induction shards generalizing counts with
  | nil => exact hshards
  | cons s shards ih =>
    obtain ⟨hs, hshards⟩ := List.forall_mem_cons.mp hshards
    exact List.forall_mem_cons.mpr ⟨fun hne => mem_addReplicas_of_mem (hs hne), ih hshards⟩

theorem leader_mem_replicas {h : List (ShardManager × ShardOp)} {m : ShardManager}
    (hrun : Run shardSystem h m) : ∀ s ∈ m.shards, s.LedByReplica := by
  refine hrun.rec_on_run (P := fun _ m => ∀ s ∈ m.shards, s.LedByReplica) (fun m hinit => ?_)
    fun _ m op m' _ hm hstep => ?_
  · rw [hinit]
    exact fun s hs => absurd hs List.not_mem_nil
  · rw [← (step_eq_some hstep).2]
    refine forall_shards_perform hm (fun s hzero _ hne => absurd hzero hne)
      (fun s nodeId isLeader hs => ledByReplica_assigned hs nodeId isLeader) fun order _ => ?_
    cases hnodes : m.aliveNodes order with
    | nil => rwa [scheduleRebalance_nil hnodes]
    | cons first others =>
      rw [scheduleRebalance_cons hnodes]
      apply ledByReplica_assignReplicas
      intro s hs
      obtain ⟨s, hmem, rfl⟩ := List.mem_map.mp hs
      exact ledByReplica_withLeader (hm s hmem)

/-! ## Alive and dead nodes -/

/-- A node that `nodes_` has and that is not alive. -/
def isDead (m : ShardManager) (nid : Nat) : Bool := m.nodes[nid]?.any fun ns => !ns.alive

/-- A node that the next look for dead nodes leaves alive. -/
def survives (m : ShardManager) (now : Int) (nid : Nat) : Bool :=
  m.nodes[nid]?.any fun ns => ns.alive && !ns.isSilent now

/-- A node that is dead after the next look for dead nodes. -/
def fails (m : ShardManager) (now : Int) (nid : Nat) : Bool :=
  m.nodes[nid]?.any fun ns => !ns.alive || ns.isSilent now

theorem isAlive_eq_any (m : ShardManager) (nid : Nat) :
    m.isAlive nid = (m.belief nid).any Prod.snd := by
  rw [belief, Option.any_map]
  rfl

theorem isDead_eq_any (m : ShardManager) (nid : Nat) :
    m.isDead nid = (m.belief nid).any fun b => !b.2 := by
  rw [belief, Option.any_map]
  rfl

section GetDeadNodes

variable {m : ShardManager} {order : List Nat} (horder : m.IterationOrder order) (now : Int)

include horder

theorem isAlive_getDeadNodes (nid : Nat) :
    (m.getDeadNodes now order).2.isAlive nid = m.survives now nid := by
  rw [isAlive_eq_any, belief_getDeadNodes horder, Option.any_map, belief, Option.any_map]
  rfl

theorem isDead_getDeadNodes (nid : Nat) :
    (m.getDeadNodes now order).2.isDead nid = m.fails now nid := by
  rw [isDead_eq_any, belief_getDeadNodes horder, Option.any_map, belief, Option.any_map, fails]
  congr 1
  funext ns
  show (!(ns.alive && !ns.isSilent now)) = _
  rw [Bool.not_and, Bool.not_not]

/-- The survivors, as the loop over the nodes meets them. -/
theorem aliveNodes_getDeadNodes :
    (m.getDeadNodes now order).2.aliveNodes order = order.filter (m.survives now) := by
  apply List.filter_congr
  intro nid _
  exact isAlive_getDeadNodes horder now nid

theorem iterationOrder_getDeadNodes : (m.getDeadNodes now order).2.IterationOrder order := by
  have hnodup := nodup_order horder
  refine (List.perm_ext_iff_of_nodup hnodup Std.ExtTreeMap.nodup_keys).mpr fun nid => ?_
  have hkeys : (m.getDeadNodes now order).2.IterationOrder
      (m.getDeadNodes now order).2.nodes.keys := List.Perm.refl _
  rw [mem_order_iff horder, mem_order_iff hkeys, belief_getDeadNodes horder, Option.isSome_map]

end GetDeadNodes

/-- Only a node that the loop meets survives. -/
theorem mem_survivors {m : ShardManager} {order : List Nat} (horder : m.IterationOrder order)
    {now : Int} {nid : Nat} (halive : m.survives now nid = true) :
    nid ∈ order.filter (m.survives now) := by
  refine List.mem_filter.mpr ⟨(mem_order_iff horder).mpr ?_, halive⟩
  unfold survives at halive
  unfold belief
  cases hget : m.nodes[nid]? with
  | none =>
    rw [hget] at halive
    exact nomatch halive
  | some ns => rfl

/-! ## Shards after a failover -/

def numAlive (m : ShardManager) : Nat := m.nodes.keys.countP m.isAlive

theorem numAlive_congr {m m' : ShardManager} (hnodes : m'.nodes = m.nodes) :
    m'.numAlive = m.numAlive := by
  have halive : m'.isAlive = m.isAlive := by
    funext nid
    rw [isAlive, hnodes, isAlive]
  rw [numAlive, numAlive, hnodes, halive]

theorem length_aliveNodes {m : ShardManager} {order : List Nat} (horder : m.IterationOrder order) :
    (m.aliveNodes order).length = m.numAlive := by
  rw [numAlive, ← List.Perm.countP_eq _ horder, List.countP_eq_length_filter]
  rfl

/-- A shard without dead replicas, with three nodes or as many as are alive, and with an alive
    leader among them. -/
structure Served (m : ShardManager) (s : ShardState) : Prop where
  noDead : ∀ nid ∈ s.peerNodeIds, m.isDead nid = false
  enough : min 3 m.numAlive ≤ s.peerNodeIds.toFinset.card
  leader_ne_zero : s.leaderNodeId ≠ 0
  leader_mem : s.leaderNodeId ∈ s.peerNodeIds
  leader_alive : m.isAlive s.leaderNodeId = true

def FailedOver (m : ShardManager) : Prop := ∀ s ∈ m.shards, m.Served s

/-- Nothing about the shard has to be replaced: its replicas are not dead, filling it up makes
    enough of them, and its leader survives, or its first replica if it has no leader. -/
def Ready (m : ShardManager) (now : Int) (survivors : List Nat) (s : ShardState) : Prop :=
  let leader := if s.leaderNodeId = 0 then s.peerNodeIds.headD 0 else s.leaderNodeId
  (∀ nid ∈ s.peerNodeIds, m.fails now nid = false) ∧
    min 3 survivors.length ≤ s.peerNodeIds.toFinset.card + lacking survivors s ∧
    leader ≠ 0 ∧ m.survives now leader = true

instance (m : ShardManager) (now : Int) (survivors : List Nat) (s : ShardState) :
    Decidable (m.Ready now survivors s) :=
  inferInstanceAs (Decidable (_ ∧ _))

/-- A failover has nothing to replace. -/
def NothingToReplace (m : ShardManager) (now : Int) (survivors : List Nat) : Prop :=
  ∀ s ∈ m.shards, m.Ready now survivors s

instance (m : ShardManager) (now : Int) (survivors : List Nat) :
    Decidable (m.NothingToReplace now survivors) :=
  inferInstanceAs (Decidable (∀ s ∈ m.shards, _))

section Failover

variable {m m' : ShardManager} {now : Int} {first : Nat} {others : List Nat}
  (halive : ∀ nid, m'.isAlive nid = m.survives now nid)
  (hdead : ∀ nid, m'.isDead nid = m.fails now nid)

include halive hdead

/-- What the rebalance makes of one shard. -/
private theorem served_iff (hnum : m'.numAlive = (first :: others).length)
    (hsurvive : ∀ nid ∈ first :: others, m.fails now nid = false) (counts : Nat → Nat)
    {s : ShardState} (hled : s.LedByReplica) :
    m'.Served { s.withLeader with peerNodeIds := (addReplicas first (first :: others)
        (lacking (first :: others) s) counts s.peerNodeIds).2 } ↔
      m.Ready now (first :: others) s ∧
        RoundsPickNew first (first :: others) (lacking (first :: others) s) counts
          s.peerNodeIds := by
  unfold Ready
  dsimp only
  rw [← withLeader_leaderNodeId]
  have henough : min 3 m'.numAlive ≤ (addReplicas first (first :: others)
      (lacking (first :: others) s) counts s.peerNodeIds).2.toFinset.card ↔
      min 3 (first :: others).length ≤
          s.peerNodeIds.toFinset.card + lacking (first :: others) s ∧
        RoundsPickNew first (first :: others) (lacking (first :: others) s) counts
          s.peerNodeIds := by
    -- one round for each node that the list lacks
    rw [hnum]
    exact le_card_addReplicas_iff
  constructor
  · intro hserved
    obtain ⟨hfill, hrounds⟩ := henough.mp hserved.enough
    refine ⟨⟨fun nid hnid => ?_, hfill, hserved.leader_ne_zero, ?_⟩, hrounds⟩
    · rw [← hdead]
      exact hserved.noDead nid (mem_addReplicas_of_mem hnid)
    · rw [← halive]
      exact hserved.leader_alive
  · intro ⟨⟨hreplicas, hfill, hne, hleader⟩, hrounds⟩
    refine ⟨fun nid hnid => ?_, henough.mpr ⟨hfill, hrounds⟩, hne, ?_, ?_⟩
    · rw [hdead]
      cases mem_addReplicas List.mem_cons_self hnid with
      | inl hmem => exact hreplicas nid hmem
      | inr hmem => exact hsurvive nid hmem
    · have hmem := ledByReplica_withLeader hled hne
      rw [withLeader_peerNodeIds] at hmem
      exact mem_addReplicas_of_mem hmem
    · rw [halive]
      exact hleader

end Failover

/-- What holds of every shard at the loads when its turn comes, where it depends on the shard
    and on these loads apart. -/
theorem shardsMeet_and_iff {P : ShardState → Prop} {Q : (Nat → Nat) → ShardState → Prop}
    {first : Nat} {aliveNodes : List Nat} {counts : Nat → Nat} {shards : List ShardState} :
    ShardsMeet (fun counts s => P s ∧ Q counts s) first aliveNodes counts shards ↔
      (∀ s ∈ shards, P s) ∧ ShardsMeet Q first aliveNodes counts shards := by
  induction shards generalizing counts with
  | nil => exact iff_of_true trivial ⟨fun s hs => absurd hs List.not_mem_nil, trivial⟩
  | cons s shards ih =>
    rw [ShardsMeet, ShardsMeet, ih, List.forall_mem_cons]
    exact and_and_and_comm

theorem fails_eq_false {m : ShardManager} {now : Int} {nid : Nat}
    (halive : m.survives now nid = true) : m.fails now nid = false := by
  unfold survives at halive
  unfold fails
  cases hget : m.nodes[nid]? with
  | none => rfl
  | some ns =>
    rw [hget, Option.any_some] at halive
    rw [Option.any_some]
    simp only [Bool.and_eq_true, Bool.not_eq_true'] at halive
    simp [halive.1, halive.2]

end ShardManager

open ShardManager

/-- After the timer has found a dead node every shard is served, if there was nothing to replace
    and room for what the shards lacked. Where something had to be replaced, or the first shard
    that lacked anything had no room, some shard is not. -/
theorem failedOver_of_nothingToReplace {h : List (ShardManager × ShardOp)} (server : PdServer)
    (hrun : Run shardSystem h server.shardMgr) {now : Int} {order : List Nat}
    (horder : server.shardMgr.IterationOrder order)
    (hdead : (server.shardMgr.getDeadNodes now order).1 ≠ []) :
    let survivors := order.filter (server.shardMgr.survives now)
    (server.shardMgr.NothingToReplace now survivors ∧ server.shardMgr.HasRoom survivors →
      (server.tick now order).shardMgr.FailedOver) ∧
    ((server.tick now order).shardMgr.FailedOver →
      server.shardMgr.NothingToReplace now survivors ∧
        server.shardMgr.FirstHasRoom survivors) := by
  have htick : (server.tick now order).shardMgr =
      (server.shardMgr.getDeadNodes now order).2.scheduleRebalance order := if_neg hdead
  rw [htick]
  generalize server.shardMgr = m at hrun horder ⊢
  have hled := leader_mem_replicas hrun
  have hshards := shards_getDeadNodes m now order
  have hloads : (m.getDeadNodes now order).2.loads = m.loads := by
    funext nid
    rw [loads, hshards, loads]
  have hsurvivors := aliveNodes_getDeadNodes horder now
  have horder' := iterationOrder_getDeadNodes horder now
  have hnum := length_aliveNodes horder'
  have halive := isAlive_getDeadNodes horder now
  have hfails := isDead_getDeadNodes horder now
  have hnodup : (order.filter (m.survives now)).Nodup := (nodup_order horder).filter _
  dsimp only
  unfold NothingToReplace
  -- `m₁` is the manager that gets rebalanced, with the verdicts of this look
  generalize (m.getDeadNodes now order).2 = m₁ at *
  cases hnodes : order.filter (m.survives now) with
  | nil =>
    -- nobody is left to lead a shard
    rw [hnodes] at hsurvivors
    rw [scheduleRebalance_nil hsurvivors, ← hshards]
    have hnone (nid : Nat) : m.survives now nid = false := by
      by_contra hsome
      have hmem := mem_survivors horder (Bool.not_eq_false _ ▸ hsome)
      rw [hnodes] at hmem
      exact absurd hmem List.not_mem_nil
    refine ⟨fun hready s hs => ?_, fun hover => ⟨fun s hs => ?_, fun _ _ _ _ _ => ?_⟩⟩
    · obtain ⟨-, -, -, hleader⟩ := hready.1 s hs
      rw [hnone] at hleader
      exact nomatch hleader
    · have hleader := (hover s hs).leader_alive
      rw [halive, hnone] at hleader
      exact nomatch hleader
    · simp [Room, lacking]
  | cons first others =>
    rw [hnodes] at hsurvivors hnodup
    have hnodes' := nodes_scheduleRebalance m₁ order
    have hover : (m₁.scheduleRebalance order).FailedOver ↔
        (∀ s ∈ m.shards, m.Ready now (first :: others) s) ∧
          ShardsMeet (fun counts s => RoundsPickNew first (first :: others)
            (lacking (first :: others) s) counts s.peerNodeIds) first (first :: others)
            m.loads m.shards := by
      rw [← shardsMeet_and_iff, ← hshards, ← hloads, FailedOver,
        scheduleRebalance_cons hsurvivors]
      apply forall_assignReplicas_iff
      intro counts s hs
      apply served_iff
      · intro nid
        rw [← halive, isAlive, hnodes', isAlive]
      · intro nid
        rw [← hfails, isDead, hnodes', isDead]
      · rw [← hsurvivors, hnum]
        exact numAlive_congr hnodes'
      · intro nid hnid
        rw [← hnodes] at hnid
        exact fails_eq_false (List.mem_filter.mp hnid).2
      · exact hled s (hshards ▸ hs)
    rw [hover]
    exact ⟨fun hready => ⟨hready.1, hready.2.shardsMeet hnodup⟩,
      fun hready => ⟨hready.1, firstHasRoom_of_shardsMeet hnodup hready.2⟩⟩

/-! ### A dead spare and a dead replica -/

/-- Three nodes and a shard at node 1; nodes 1 and 2 send a heartbeat, node 3 does not. -/
def deadSpare : List ShardOp :=
  [.registerNode 0 {}, .registerNode 0 {}, .registerNode 0 {}, .initShards 1 3,
    .assignShard 1 1 true, .processHeartbeat 8 1 { shardId := 1 },
    .processHeartbeat 8 2 { shardId := 1 }]

/-- Two nodes that hold a shard; node 2 sends a heartbeat, its leader does not. -/
def deadLeader : List ShardOp :=
  [.registerNode 0 {}, .registerNode 0 {}, .initShards 1 3, .assignShard 1 1 true,
    .assignShard 1 2 false, .processHeartbeat 8 2 { shardId := 1 }]

def serverAfter (ops : List ShardOp) (hsome : (shardSchedule ops).isSome) : PdServer where
  shardMgr := ((shardSchedule ops).get hsome).2

theorem failedOver_deadSpare :
    ((serverAfter deadSpare (by decide +kernel)).tick 11 [1, 2, 3]).shardMgr.FailedOver :=
  (failedOver_of_nothingToReplace (serverAfter deadSpare (by decide +kernel)) (shardSchedule_run _)
    (by decide +kernel) (by decide +kernel)).1 ⟨by decide +kernel, by decide +kernel⟩

/-- The dead leader stays the leader, and a replica. -/
theorem not_failedOver : ¬ ∀ (h : List (ShardManager × ShardOp)) (server : PdServer) (now : Int)
    (order : List Nat), Run shardSystem h server.shardMgr →
    server.shardMgr.IterationOrder order → (server.shardMgr.getDeadNodes now order).1 ≠ [] →
    0 < (server.tick now order).shardMgr.numAlive →
      (server.tick now order).shardMgr.FailedOver := by
  intro hall
  have hover := hall _ (serverAfter deadLeader (by decide +kernel)) 11 [1, 2]
    (shardSchedule_run _) (by decide +kernel) (by decide +kernel) (by decide +kernel)
  have hserved := hover _ (List.getElem_mem (show 0 < _ by decide +kernel))
  have hleader := hserved.leader_alive
  revert hleader
  decide +kernel

end Dkv
