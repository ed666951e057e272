import LearnGit.Native.PlacementDriver

/-!
# The failure detector

The server should believe a node alive until it has heard nothing of it for more than ten
seconds, and then report it dead once. What it remembers of a node is a time and a flag.
A registration and a heartbeat that lists a shard renew both; a heartbeat without shards
goes through the loop of `handleHeartbeat` zero times and renews neither.

## Key results

- `belief_registerNode`, `belief_handleHeartbeat`, `belief_tick`: what an event does to
  the memory of a node
- `count_getDeadNodes`: which nodes are reported
- `detectsFailures_iff`: the detector is right throughout a run exactly if no heartbeat
  without shards had anything to renew
-/

namespace Dkv

open Transition

/-! ## The memory of a node -/

/-- A memory of a node that makes it due for a report: alive, and silent for more than ten
    seconds. -/
def isDue (now : Int) (b : Int × Bool) : Bool := b.2 && decide (now - b.1 > 10)

/-- What is left of a memory after a loop over the nodes has met the node. -/
def afterCheck (now : Int) (b : Int × Bool) : Int × Bool := (b.1, b.2 && !isDue now b)

namespace ShardManager

variable {m : ShardManager} {now : Int} {id : Nat}

/-- When the node was last heard of, as the server remembers it, and whether it is
    believed alive. -/
def belief (m : ShardManager) (id : Nat) : Option (Int × Bool) :=
  (m.nodes[id]?).map fun ns => (ns.lastHeartbeat, ns.alive)

theorem belief_insert (m : ShardManager) (k : Nat) (ns : NodeState) (id : Nat) :
    belief { m with nodes := m.nodes.insert k ns } id =
      if k = id then some (ns.lastHeartbeat, ns.alive) else m.belief id := by
  unfold belief
  rw [Std.ExtTreeMap.getElem?_insert]
  by_cases hk : k = id
  · simp [hk]
  · simp [hk]

theorem belief_registerNode (m : ShardManager) (now : Int) (info : NodeInfo) (id : Nat) :
    (m.registerNode now info).2.belief id =
      if m.nextNodeId = id then some (now, true) else m.belief id :=
  belief_insert m m.nextNodeId _ id

theorem belief_processHeartbeat (m : ShardManager) (now : Int) (nodeId : UInt64)
    (state : HeartbeatRequest.ShardState) (id : Nat) :
    (m.processHeartbeat now nodeId state).belief id =
      if nodeId.toNat = id then (m.belief id).map fun _ => (now, true) else m.belief id := by
  unfold processHeartbeat
  cases hget : m.nodes[nodeId.toNat]? with
  | none =>
    by_cases hid : nodeId.toNat = id
    · subst hid
      simp [belief, hget]
    · rw [if_neg hid]
  | some ns =>
    show belief { m with nodes := m.nodes.insert nodeId.toNat _ } id = _
    rw [belief_insert]
    by_cases hid : nodeId.toNat = id
    · subst hid
      simp [belief, hget]
    · rw [if_neg hid, if_neg hid]

/-- The loop over the shards of a heartbeat renews the memory unless there are none. -/
theorem belief_processHeartbeats (m : ShardManager) (now : Int) (nodeId : UInt64)
    (states : List HeartbeatRequest.ShardState) (id : Nat) :
    (states.foldl (fun m state => m.processHeartbeat now nodeId state) m).belief id =
      if nodeId.toNat = id ∧ states ≠ [] then (m.belief id).map fun _ => (now, true)
      else m.belief id := by
  induction states generalizing m with
  | nil => simp
  | cons state states ih =>
    rw [List.foldl_cons, ih, belief_processHeartbeat]
    by_cases hid : nodeId.toNat = id
    · by_cases hstates : states = []
      · simp [hid, hstates]
      · simp [hid, hstates, Function.comp_def]
    · simp [hid]

/-! ## Looking for dead nodes -/

theorem isSilent_eq (ns : NodeState) (now : Int) :
    ns.isSilent now = isDue now (ns.lastHeartbeat, ns.alive) := rfl

/-- One round of the loop. -/
private theorem getDeadNodes_cons (m : ShardManager) (now : Int) (k : Nat) (order : List Nat) :
    ∃ m' : ShardManager,
      (∀ id, m'.belief id = if k = id then (m.belief id).map (afterCheck now) else m.belief id) ∧
      (m.getDeadNodes now (k :: order)).2 = (m'.getDeadNodes now order).2 ∧
      (m.getDeadNodes now (k :: order)).1 =
        if (m.belief k).any (isDue now) then k :: (m'.getDeadNodes now order).1
        else (m'.getDeadNodes now order).1 := by
  cases hget : m.nodes[k]? with
  | none =>
    have hbelief : m.belief k = none := by simp [belief, hget]
    refine ⟨m, fun id => ?_, by simp [getDeadNodes, hget], by simp [getDeadNodes, hget, hbelief]⟩
    by_cases hk : k = id
    · rw [if_pos hk, ← hk, hbelief]
      rfl
    · rw [if_neg hk]
  | some ns =>
    have hbelief : m.belief k = some (ns.lastHeartbeat, ns.alive) := by simp [belief, hget]
    have hdue := isSilent_eq ns now
    by_cases hsilent : ns.isSilent now = true
    · -- the node is reported and marked, and the others are as before
      rw [hsilent] at hdue
      refine ⟨{ m with nodes := m.nodes.insert k { ns with alive := false } }, fun id => ?_,
        by simp [getDeadNodes, hget, hsilent],
        by simp [getDeadNodes, hget, hsilent, hbelief, ← hdue]⟩
      rw [belief_insert]
      by_cases hk : k = id
      · subst hk
        simp [hbelief, afterCheck, ← hdue]
      · rw [if_neg hk, if_neg hk]
    · -- the node is dead already or not silent for long enough
      rw [Bool.not_eq_true] at hsilent
      rw [hsilent] at hdue
      refine ⟨m, fun id => ?_, by simp [getDeadNodes, hget, hsilent],
        by simp [getDeadNodes, hget, hsilent, hbelief, ← hdue]⟩
      by_cases hk : k = id
      · subst hk
        simp [hbelief, afterCheck, ← hdue]
      · rw [if_neg hk]

/-- A loop that meets no node twice reports the nodes that are due and marks them. -/
private theorem getDeadNodes_spec {order : List Nat} (hnodup : order.Nodup) (m : ShardManager)
    (now : Int) (id : Nat) :
    (m.getDeadNodes now order).1.count id =
        (if id ∈ order ∧ (m.belief id).any (isDue now) then 1 else 0) ∧
      (m.getDeadNodes now order).2.belief id =
        if id ∈ order then (m.belief id).map (afterCheck now) else m.belief id := by
  induction order generalizing m with
  | nil => exact ⟨by simp [getDeadNodes], by simp [getDeadNodes]⟩
  | cons k order ih =>
    obtain ⟨hk, hnodup⟩ := List.nodup_cons.mp hnodup
    obtain ⟨m', hbelief, hmgr, hdead⟩ := getDeadNodes_cons m now k order
    obtain ⟨hcount, hafter⟩ := ih hnodup m'
    rw [hmgr, hdead, hafter]
    rw [hbelief id] at hcount ⊢
    by_cases heq : k = id
    · -- the loop meets the node here and does not come back to it
      subst heq
      rw [if_neg (fun hmem => hk hmem.1)] at hcount
      rw [if_pos rfl, if_neg hk, if_pos List.mem_cons_self]
      refine ⟨?_, rfl⟩
      by_cases hdue : (m.belief k).any (isDue now) = true
      · rw [if_pos hdue, if_pos ⟨List.mem_cons_self, hdue⟩, List.count_cons_self, hcount]
      · rw [if_neg hdue, if_neg (fun hmem => hdue hmem.2), hcount]
    · rw [if_neg heq] at hcount ⊢
      have hmem : id ∈ k :: order ↔ id ∈ order := by simp [Ne.symm heq]
      simp only [hmem, and_true]
      by_cases hdue : (m.belief k).any (isDue now) = true
      · rw [if_pos hdue, List.count_cons_of_ne heq, hcount]
      · rw [if_neg hdue, hcount]

theorem mem_order_iff {order : List Nat} (horder : m.IterationOrder order) :
    id ∈ order ↔ (m.belief id).isSome := by
  rw [List.Perm.mem_iff horder, Std.ExtTreeMap.mem_keys, belief, Option.isSome_map]
  exact Std.ExtTreeMap.mem_iff_isSome_getElem?

theorem nodup_order {order : List Nat} (horder : m.IterationOrder order) :
    order.Nodup := by
  rw [List.Perm.nodup_iff horder]
  exact Std.ExtTreeMap.nodup_keys

/-- A node is reported once if it is due, and otherwise not at all. -/
theorem count_getDeadNodes {order : List Nat} (horder : m.IterationOrder order) (now : Int)
    (id : Nat) :
    (m.getDeadNodes now order).1.count id = if (m.belief id).any (isDue now) then 1 else 0 := by
  rw [(getDeadNodes_spec (nodup_order horder) m now id).1]
  simp only [mem_order_iff horder]
  cases m.belief id <;> simp

theorem belief_getDeadNodes {order : List Nat} (horder : m.IterationOrder order) (now : Int)
    (id : Nat) :
    (m.getDeadNodes now order).2.belief id = (m.belief id).map (afterCheck now) := by
  rw [(getDeadNodes_spec (nodup_order horder) m now id).2]
  simp only [mem_order_iff horder]
  cases m.belief id <;> simp

/-- Moving shards around touches no node. -/
theorem nodes_scheduleRebalance (m : ShardManager) (order : List Nat) :
    (m.scheduleRebalance order).nodes = m.nodes := by
  unfold scheduleRebalance
  split <;> rfl

end ShardManager

/-! ## What the server should remember -/

/-- When the server last heard of a node: at its registration or, from then on, at its
    latest heartbeat, whatever shards it lists. -/
def lastHeard : List (PlacementDriver × PdEvent) → Nat → Option Int
  | [], _ => none
  | (s, .registerNode now _) :: h, id =>
    if s.server.shardMgr.nextNodeId = id then some now else lastHeard h id
  | (_, .heartbeat now req) :: h, id =>
    if req.nodeId.toNat = id then (lastHeard h id).map fun _ => now else lastHeard h id
  | (_, .tick _ _) :: h, id => lastHeard h id

/-- The timer has reported the node since the server last heard of it. -/
def reportedSince : List (PlacementDriver × PdEvent) → Nat → Bool
  | [], _ => false
  | (s, .registerNode _ _) :: h, id =>
    if s.server.shardMgr.nextNodeId = id then false else reportedSince h id
  | (_, .heartbeat _ req) :: h, id =>
    if req.nodeId.toNat = id then false else reportedSince h id
  | (s, .tick now order) :: h, id =>
    decide (id ∈ (s.server.shardMgr.getDeadNodes now order).1) || reportedSince h id

/-- No live node is accused, and a silent one is reported once. -/
structure DetectsFailures (h : List (PlacementDriver × PdEvent)) (s : PlacementDriver) : Prop where
  alive : ∀ id t, lastHeard h id = some t → s.clock - t ≤ 10 →
    (s.nodes[id]?).map ShardManager.NodeState.alive = some true
  reported : ∀ id t now order, lastHeard h id = some t → s.clock ≤ now →
    s.server.shardMgr.IterationOrder order →
    (s.server.shardMgr.getDeadNodes now order).1.count id =
      if now - t > 10 ∧ reportedSince h id = false then 1 else 0

/-- A heartbeat without shards has nothing to renew: the node is not registered, or it is
    alive and was heard of at this very time. -/
def PdEvent.RenewsMemory (s : PlacementDriver) : PdEvent → Prop
  | .heartbeat now req => req.shardStates = [] → ∀ ns, s.nodes[req.nodeId.toNat]? = some ns →
    ns.alive = true ∧ ns.lastHeartbeat = now
  | _ => True

/-! ## Runs -/

/-- The server remembers what it should. -/
structure Tracks (h : List (PlacementDriver × PdEvent)) (s : PlacementDriver) : Prop where
  belief : ∀ id, s.server.shardMgr.belief id =
    (lastHeard h id).map fun t => (t, !reportedSince h id)
  past : ∀ id t, lastHeard h id = some t →
    t ≤ s.clock ∧ (reportedSince h id = true → s.clock - t > 10)

variable {h : List (PlacementDriver × PdEvent)} {s s' : PlacementDriver} {e : PdEvent}

private theorem step_eq (hstep : pdSystem.step s e = some s') :
    s.Enabled e ∧ s' = { server := s.react e, clock := e.now } := by
  have hstep : (if s.Enabled e then some _ else none) = some s' := hstep
  by_cases hen : s.Enabled e
  · rw [if_pos hen] at hstep
    exact ⟨hen, (Option.some.inj hstep).symm⟩
  · rw [if_neg hen] at hstep
    exact absurd hstep (by simp)

theorem PdServer.belief_tick (s : PdServer) (now : Int) {order : List Nat}
    (horder : s.shardMgr.IterationOrder order) (id : Nat) :
    (s.tick now order).shardMgr.belief id = (s.shardMgr.belief id).map (afterCheck now) := by
  rw [← ShardManager.belief_getDeadNodes horder now id]
  unfold tick
  dsimp only
  split
  · rfl
  · unfold ShardManager.belief
    rw [ShardManager.nodes_scheduleRebalance]

private theorem renewsMemory_iff {now : Int} {req : HeartbeatRequest} :
    (PdEvent.heartbeat now req).RenewsMemory s ↔
      (req.shardStates = [] → ∀ b, s.server.shardMgr.belief req.nodeId.toNat = some b →
        b = (now, true)) := by
  unfold PdEvent.RenewsMemory ShardManager.belief PlacementDriver.nodes
  refine imp_congr_right fun _ => ?_
  cases s.server.shardMgr.nodes[req.nodeId.toNat]? with
  | none => simp
  | some ns => simp [and_comm]

private theorem Tracks.start (hinit : pdSystem.init s) : Tracks [] s := by
  obtain ⟨numShards, replicaCount, hserver⟩ := hinit
  refine ⟨fun id => ?_, fun id t ht => absurd ht (by simp [lastHeard])⟩
  rw [hserver]
  simp [ShardManager.belief, PdServer.new, ShardManager.initShards, lastHeard]

/-- A node that an event does not touch: only time has passed. -/
private theorem Tracks.past_later (htracks : Tracks h s) {now : Int} (hclock : s.clock ≤ now)
    {id : Nat} {t : Int} (ht : lastHeard h id = some t) :
    t ≤ now ∧ (reportedSince h id = true → now - t > 10) := by
  obtain ⟨hle, hrep⟩ := htracks.past id t ht
  refine ⟨by omega, fun hr => ?_⟩
  have := hrep hr
  omega

private theorem Tracks.registerNode (htracks : Tracks h s) {now : Int} {req : RegisterNodeRequest}
    (hclock : s.clock ≤ now) :
    Tracks ((s, .registerNode now req) :: h)
      { server := s.server.handleRegisterNode now req, clock := now } := by
  refine ⟨fun id => ?_, fun id t ht => ?_⟩
  · refine (ShardManager.belief_registerNode _ now req.nodeInfo id).trans ?_
    rw [htracks.belief, lastHeard, reportedSince]
    by_cases hid : s.server.shardMgr.nextNodeId = id
    · simp [hid]
    · simp [hid]
  · rw [lastHeard] at ht
    rw [reportedSince]
    by_cases hid : s.server.shardMgr.nextNodeId = id
    · rw [if_pos hid] at ht
      obtain rfl := Option.some.inj ht
      exact ⟨le_refl _, by simp [hid]⟩
    · rw [if_neg hid] at ht ⊢
      exact htracks.past_later hclock ht

private theorem Tracks.heartbeat (htracks : Tracks h s) {now : Int} {req : HeartbeatRequest}
    (hclock : s.clock ≤ now) (hrenews : (PdEvent.heartbeat now req).RenewsMemory s) :
    Tracks ((s, .heartbeat now req) :: h)
      { server := s.server.handleHeartbeat now req, clock := now } := by
  refine ⟨fun id => ?_, fun id t ht => ?_⟩
  · refine (ShardManager.belief_processHeartbeats _ now req.nodeId req.shardStates id).trans ?_
    rw [lastHeard, reportedSince]
    by_cases hid : req.nodeId.toNat = id
    · rw [if_pos hid, if_pos hid, Option.map_map]
      by_cases hstates : req.shardStates = []
      · -- the loop does nothing, and there was nothing to do
        rw [if_neg (fun hne => hne.2 hstates)]
        have hnow := renewsMemory_iff.mp hrenews hstates
        rw [hid, htracks.belief] at hnow
        rw [htracks.belief]
        cases hheard : lastHeard h id with
        | none => rfl
        | some t =>
          rw [hheard] at hnow
          exact congrArg some (hnow _ rfl)
      · rw [if_pos ⟨hid, hstates⟩, htracks.belief, Option.map_map]
        rfl
    · rw [if_neg hid, if_neg hid, if_neg (fun hne => hid hne.1), htracks.belief]
  · rw [lastHeard] at ht
    rw [reportedSince]
    by_cases hid : req.nodeId.toNat = id
    · rw [if_pos hid] at ht ⊢
      obtain ⟨_, -, rfl⟩ := Option.map_eq_some_iff.mp ht
      exact ⟨le_refl _, fun hr => absurd hr (by decide)⟩
    · rw [if_neg hid] at ht ⊢
      exact htracks.past_later hclock ht

private theorem Tracks.tick (htracks : Tracks h s) {now : Int} {order : List Nat}
    (hclock : s.clock ≤ now) (horder : s.server.shardMgr.IterationOrder order) :
    Tracks ((s, .tick now order) :: h) { server := s.server.tick now order, clock := now } := by
  have hmem (id : Nat) : id ∈ (s.server.shardMgr.getDeadNodes now order).1 ↔
      (s.server.shardMgr.belief id).any (isDue now) = true := by
    rw [← List.count_pos_iff, ShardManager.count_getDeadNodes horder]
    split <;> simp_all
  refine ⟨fun id => ?_, fun id t ht => ?_⟩
  · refine (PdServer.belief_tick s.server now horder id).trans ?_
    rw [lastHeard, reportedSince]
    simp only [hmem]
    rw [htracks.belief]
    cases lastHeard h id with
    | none => rfl
    | some t => cases reportedSince h id <;> simp [afterCheck]
  · rw [lastHeard] at ht
    obtain ⟨hle, hrep⟩ := htracks.past_later hclock ht
    refine ⟨hle, fun hr => ?_⟩
    rw [reportedSince, Bool.or_eq_true, decide_eq_true_eq, hmem, htracks.belief, ht] at hr
    cases hr with
    | inl hdue =>
      -- the timer reports the node now: it is overdue now
      simp only [Option.map_some, Option.any_some, isDue, Bool.and_eq_true,
        decide_eq_true_eq] at hdue
      exact hdue.2
    | inr hr => exact hrep hr

/-- Every event keeps the memory right, unless it is a heartbeat without shards that had
    something to renew. -/
private theorem Tracks.step (htracks : Tracks h s) (hstep : pdSystem.step s e = some s')
    (hrenews : e.RenewsMemory s) : Tracks ((s, e) :: h) s' := by
  obtain ⟨⟨hclock, horder⟩, rfl⟩ := step_eq hstep
  cases e with
  | registerNode now req => exact htracks.registerNode hclock
  | heartbeat now req => exact htracks.heartbeat hclock hrenews
  | tick now order => exact htracks.tick hclock horder

/-- A server that remembers what it should detects failures. -/
private theorem Tracks.detectsFailures (htracks : Tracks h s) : DetectsFailures h s := by
  refine ⟨fun id t ht hle => ?_, fun id t now order ht hnow horder => ?_⟩
  · have hbelief := congrArg (Option.map Prod.snd) (htracks.belief id)
    rw [ht, ShardManager.belief, Option.map_map] at hbelief
    have hnot : reportedSince h id = false := by
      rw [← Bool.not_eq_true]
      exact fun hr => absurd ((htracks.past id t ht).2 hr) (not_lt.mpr hle)
    rw [hnot] at hbelief
    exact hbelief
  · rw [ShardManager.count_getDeadNodes horder, htracks.belief, ht]
    simp only [Option.map_some, Option.any_some, isDue, Bool.and_eq_true, decide_eq_true_eq,
      Bool.not_eq_true', and_comm]

/-- After a heartbeat without shards the server detects failures only if there was nothing
    to renew. -/
private theorem Tracks.renewsMemory (htracks : Tracks h s) (hstep : pdSystem.step s e = some s')
    (hdetects : DetectsFailures ((s, e) :: h) s') : e.RenewsMemory s := by
  obtain ⟨⟨hclock, -⟩, rfl⟩ := step_eq hstep
  cases e with
  | registerNode now req => trivial
  | tick now order => trivial
  | heartbeat now req =>
    rw [renewsMemory_iff]
    rintro hstates ⟨t, alive⟩ hbelief
    have hsame : (s.server.handleHeartbeat now req).shardMgr = s.server.shardMgr := by
      show req.shardStates.foldl _ _ = _
      rw [hstates]
      rfl
    have hheard : lastHeard ((s, .heartbeat now req) :: h) req.nodeId.toNat = some now := by
      have hsome := htracks.belief req.nodeId.toNat
      rw [hbelief] at hsome
      obtain ⟨t, ht, -⟩ := Option.map_eq_some_iff.mp hsome.symm
      rw [lastHeard, if_pos rfl, ht]
      rfl
    -- the node has just been heard of, so it must be alive
    have halive := hdetects.alive _ _ hheard (by show now - now ≤ 10; omega)
    have hbelief' := hbelief
    simp only [PlacementDriver.nodes, PlacementDriver.react, hsame] at halive
    unfold ShardManager.belief at hbelief'
    obtain ⟨ns, hns, hpair⟩ := Option.map_eq_some_iff.mp hbelief'
    rw [hns] at halive
    obtain ⟨rfl, rfl⟩ := Prod.mk.inj hpair
    have htrue : ns.alive = true := Option.some.inj halive
    rw [htrue] at hbelief ⊢
    refine Prod.ext ?_ rfl
    by_contra hne
    -- it would be reported eleven seconds after the time that is remembered
    have hlt : ns.lastHeartbeat < now := by
      have hsome := htracks.belief req.nodeId.toNat
      rw [hbelief] at hsome
      obtain ⟨t, ht, hpair⟩ := Option.map_eq_some_iff.mp hsome.symm
      have hle := (htracks.past _ t ht).1.trans hclock
      rw [(Prod.mk.inj hpair).1] at hle
      exact lt_of_le_of_ne hle hne
    have hcount := hdetects.reported _ _ (max now (ns.lastHeartbeat + 11))
      s.server.shardMgr.nodes.keys hheard (le_max_left _ _)
      (by simp only [PlacementDriver.react, hsame]; exact List.Perm.refl _)
    rw [ShardManager.count_getDeadNodes
      (by simp only [PlacementDriver.react, hsame]; exact List.Perm.refl _)] at hcount
    simp only [PlacementDriver.react, hsame] at hcount
    have hdue : isDue (max now (ns.lastHeartbeat + 11)) (ns.lastHeartbeat, true) = true := by
      simp only [isDue, Bool.true_and, decide_eq_true_eq]
      omega
    rw [hbelief, Option.any_some, if_pos hdue, if_neg (by omega)] at hcount
    exact absurd hcount (by decide)

/-- The failure detector is right throughout a run exactly if no heartbeat without shards
    in it had anything to renew. -/
theorem detectsFailures_iff (hrun : Run pdSystem h s) :
    Throughout DetectsFailures h s ↔ StepsMeet (fun _ s e => e.RenewsMemory s) h :=
  hrun.throughout_iff (fun _ => Tracks.start) (fun _ _ => Tracks.detectsFailures)
    (fun _ _ _ _ _ => Tracks.step) (fun _ _ _ _ _ => Tracks.renewsMemory)

/-- A node registers, and sends one heartbeat without shards eight seconds later. -/
def shardlessHeartbeat : List PdEvent :=
  [.registerNode 0 {}, .heartbeat 8 { nodeId := 1 }]

theorem shardlessHeartbeat_runs : (pdSchedule shardlessHeartbeat).isSome := by decide +kernel

/-- Three seconds after its heartbeat the node is reported dead. -/
theorem not_detectsFailures :
    ¬ ∀ (h : List (PlacementDriver × PdEvent)) (s : PlacementDriver), Run pdSystem h s →
      DetectsFailures h s := by
  intro hall
  have hdetects := hall _ _ (pdSchedule_run shardlessHeartbeat_runs)
  have hcount := hdetects.reported 1 8 11 [1] (by decide +kernel) (by decide +kernel)
    (by decide +kernel)
  exact absurd hcount (by decide +kernel)

/-- A node registers, and sends a heartbeat with one shard eight seconds later. -/
def heartbeatWithShard : List PdEvent :=
  [.registerNode 0 {}, .heartbeat 8 { nodeId := 1, shardStates := [{ shardId := 1 }] },
    .tick 11 [1], .tick 19 [1]]

theorem heartbeatWithShard_runs : (pdSchedule heartbeatWithShard).isSome := by decide +kernel

theorem detectsFailures_heartbeatWithShard :
    Throughout DetectsFailures ((pdSchedule heartbeatWithShard).get heartbeatWithShard_runs).1
      ((pdSchedule heartbeatWithShard).get heartbeatWithShard_runs).2 :=
  (detectsFailures_iff (pdSchedule_run heartbeatWithShard_runs)).mpr
    ⟨trivial, trivial, fun hnil => absurd hnil (by decide), trivial, trivial⟩

end Dkv
