import LearnGit.Native.ShardOperations
import LearnGit.Spec.FailureDetector

/-!
# Rebalancing

`scheduleRebalance` fills up the replicas of a shard with the node of the smallest load that
is not a replica yet. The search starts from the first alive node, and nobody looks whether
that one is a replica already: if no other candidate has a smaller load, it is added once
more. The loads when a shard has its turn depend on all picks before; but a node that once has
no larger load than the first one never gets a larger one, and a shard takes a node once at
most, so the loads before the rebalance tell when there is room.

## Key results

- `bestNode_notMem_iff`: when a round picks a node that is not a replica yet
- `roundsPickNew_iff`: the rounds of a shard pick new nodes if there are enough of small load
- `nodup_addReplicas_iff`: the rounds of a shard add no node twice if each picks a new one
- `forall_assignReplicas_iff`: what holds of all shards after the last loop
- `distinctReplicas_of_hasRoom`: a rebalance that has room repeats no node
- `distinctReplicas_of_run`: which runs keep the replica lists free of duplicates
-/

namespace Dkv

open Transition

namespace ShardManager

/-! ## One round -/

section Round

variable {counts : Nat → Nat} {peers : List Nat} {first : Nat} {aliveNodes : List Nat}

/-- If the first alive node is a replica already, one with a smaller load is not. -/
def PicksNew (counts : Nat → Nat) (peers : List Nat) (first : Nat) (aliveNodes : List Nat) :
    Prop :=
  first ∈ peers → ∃ nid ∈ aliveNodes, nid ∉ peers ∧ counts nid < counts first

instance : Decidable (PicksNew counts peers first aliveNodes) :=
  inferInstanceAs (Decidable (_ → _))

private theorem bestFold_cases (aliveNodes : List Nat) (best bestCount : Nat) :
    let r := aliveNodes.foldl (fun r nid =>
      if counts nid < r.2 ∧ nid ∉ peers then (nid, counts nid) else r) (best, bestCount)
    (r.1 = best ∧ ∀ nid ∈ aliveNodes, nid ∉ peers → bestCount ≤ counts nid) ∨
      (r.1 ∈ aliveNodes ∧ r.1 ∉ peers ∧ counts r.1 < bestCount) := by
  induction aliveNodes generalizing best bestCount with
  | nil => exact .inl ⟨rfl, fun nid hnid => absurd hnid List.not_mem_nil⟩
  | cons a aliveNodes ih =>
    rw [List.foldl_cons]
    dsimp only
    by_cases hbetter : counts a < bestCount ∧ a ∉ peers
    · -- from here on the candidate is `a`
      rw [if_pos hbetter]
      right
      cases ih a (counts a) with
      | inl hkept =>
        rw [hkept.1]
        exact ⟨List.mem_cons_self, hbetter.2, hbetter.1⟩
      | inr hother =>
        obtain ⟨hmem, hnew, hlt⟩ := hother
        exact ⟨List.mem_cons_of_mem _ hmem, hnew, hlt.trans hbetter.1⟩
    · -- `a` is a replica already, or its load is no smaller
      rw [if_neg hbetter]
      cases ih best bestCount with
      | inl hkept =>
        refine .inl ⟨hkept.1, fun nid hnid hnew => ?_⟩
        cases List.mem_cons.mp hnid with
        | inl heq =>
          rw [heq] at hnew ⊢
          exact Nat.le_of_not_lt fun hlt => hbetter ⟨hlt, hnew⟩
        | inr hnid => exact hkept.2 nid hnid hnew
      | inr hother => exact .inr ⟨List.mem_cons_of_mem _ hother.1, hother.2⟩

/-- A round picks the first alive node, where no other one is better, or another one. -/
theorem bestNode_cases (counts : Nat → Nat) (peers : List Nat) (first : Nat)
    (aliveNodes : List Nat) :
    (bestNode counts peers first aliveNodes = first ∧
      ∀ nid ∈ aliveNodes, nid ∉ peers → counts first ≤ counts nid) ∨
    (bestNode counts peers first aliveNodes ∈ aliveNodes ∧
      bestNode counts peers first aliveNodes ∉ peers ∧
      counts (bestNode counts peers first aliveNodes) < counts first) :=
  bestFold_cases aliveNodes first (counts first)

theorem bestNode_mem (hfirst : first ∈ aliveNodes) :
    bestNode counts peers first aliveNodes ∈ aliveNodes := by
  cases bestNode_cases counts peers first aliveNodes with
  | inl hkept => rwa [hkept.1]
  | inr hother => exact hother.1

theorem bestNode_notMem_iff :
    bestNode counts peers first aliveNodes ∉ peers ↔ PicksNew counts peers first aliveNodes := by
  constructor
  · intro hnew hfirst
    cases bestNode_cases counts peers first aliveNodes with
    | inl hkept =>
      rw [hkept.1] at hnew
      exact absurd hfirst hnew
    | inr hother => exact ⟨_, hother⟩
  · intro hpicks
    cases bestNode_cases counts peers first aliveNodes with
    | inl hkept =>
      rw [hkept.1]
      intro hfirst
      obtain ⟨nid, hnid, hnew, hlt⟩ := hpicks hfirst
      exact absurd hlt (Nat.not_lt.mpr (hkept.2 nid hnid hnew))
    | inr hother => exact hother.2.1

end Round

/-! ## The rounds of a shard -/

section Rounds

variable (first : Nat) (aliveNodes : List Nat)

/-- Each of `n` rounds picks a node that is not a replica yet. -/
def RoundsPickNew : Nat → (Nat → Nat) → List Nat → Prop
  | 0, _, _ => True
  | n + 1, counts, peers =>
    PicksNew counts peers first aliveNodes ∧
      let best := bestNode counts peers first aliveNodes
      RoundsPickNew n (fun nid => if nid = best then counts nid + 1 else counts nid)
        (peers ++ [best])

instance decidableRoundsPickNew : (n : Nat) → (counts : Nat → Nat) → (peers : List Nat) →
    Decidable (RoundsPickNew first aliveNodes n counts peers)
  | 0, _, _ => .isTrue trivial
  | n + 1, _, _ =>
    have := decidableRoundsPickNew n
    inferInstanceAs (Decidable (_ ∧ _))

variable {first aliveNodes}

/-- The rounds add no node that is a replica already, exactly if each picks a new one. -/
theorem nodup_addReplicas_iff {n : Nat} {counts : Nat → Nat} {peers : List Nat} :
    (addReplicas first aliveNodes n counts peers).2.Nodup ↔
      peers.Nodup ∧ RoundsPickNew first aliveNodes n counts peers := by
  induction n generalizing counts peers with
  | zero => exact (and_iff_left trivial).symm
  | succ n ih =>
    rw [addReplicas, RoundsPickNew]
    dsimp only
    -- the other rounds start from `peers` with the pick of this one behind it
    rw [ih, ← bestNode_notMem_iff, List.nodup_append_comm, List.singleton_append,
      List.nodup_cons, and_assoc, and_left_comm]

variable (first aliveNodes)

/-- Below this load a node is picked sooner or later: the load of the first node when it is
    not picked any more. -/
def limit (counts : Nat → Nat) (peers : List Nat) : Nat :=
  counts first + if first ∈ peers then 0 else 1

/-- The number of nodes that the rounds may pick besides the first one. -/
def candidates (counts : Nat → Nat) (peers : List Nat) : Nat :=
  aliveNodes.countP fun nid => nid ≠ first ∧ nid ∉ peers ∧ counts nid < limit first counts peers

variable {first aliveNodes}

/-- Picking the first node leaves the limit and the candidates. -/
private theorem candidates_first {counts : Nat → Nat} {peers : List Nat} (hnew : first ∉ peers) :
    candidates first aliveNodes (fun nid => if nid = first then counts nid + 1 else counts nid)
      (peers ++ [first]) = candidates first aliveNodes counts peers := by
  unfold candidates
  apply List.countP_congr
  intro nid _
  simp only [limit, if_neg hnew, List.mem_append, List.mem_singleton, or_true, if_true,
    decide_eq_true_eq]
  by_cases hfirst : nid = first <;> simp [hfirst]

/-- Picking a candidate uses it up. -/
private theorem candidates_pick (hnodup : aliveNodes.Nodup) {counts : Nat → Nat} {peers : List Nat}
    {best : Nat} (hmem : best ∈ aliveNodes) (hother : best ≠ first) (hnew : best ∉ peers)
    (hlt : counts best < limit first counts peers) :
    candidates first aliveNodes (fun nid => if nid = best then counts nid + 1 else counts nid)
      (peers ++ [best]) + 1 = candidates first aliveNodes counts peers := by
  have hperm := List.perm_cons_erase hmem
  unfold candidates
  rw [hperm.countP_eq, hperm.countP_eq, List.countP_cons_of_neg, List.countP_cons_of_pos]
  · congr 1
    apply List.countP_congr
    intro nid hnid
    have hne : nid ≠ best := fun heq => hnodup.not_mem_erase (heq ▸ hnid)
    simp only [decide_eq_true_eq, limit, List.mem_append, List.mem_singleton, hne, or_false,
      Ne.symm hother, if_false]
    exact decide_eq_true_iff.symm
  · simp [hother, hnew, hlt]
  · simp

/-- The rounds pick new nodes, exactly if there are as many candidates, one of them the first
    node unless it is a replica already. -/
theorem roundsPickNew_iff (hnodup : aliveNodes.Nodup) {n : Nat} {counts : Nat → Nat}
    {peers : List Nat} :
    RoundsPickNew first aliveNodes n counts peers ↔
      n ≤ candidates first aliveNodes counts peers + if first ∈ peers then 0 else 1 := by
  induction n generalizing counts peers with
  | zero => exact iff_of_true trivial (Nat.zero_le _)
  | succ n ih =>
    rw [RoundsPickNew]
    dsimp only
    rw [ih]
    rcases bestNode_cases counts peers first aliveNodes with ⟨hkept, hbest⟩ | ⟨hmem, hnew, hlt⟩
    · by_cases hfirst : first ∈ peers
      · -- no candidate is left
        have hnone : candidates first aliveNodes counts peers = 0 := by
          refine List.countP_eq_zero.mpr fun nid hnid hcand => ?_
          simp only [limit, if_pos hfirst, Nat.add_zero, decide_eq_true_eq] at hcand
          exact absurd hcand.2.2 (Nat.not_lt.mpr (hbest nid hnid hcand.2.1))
        refine iff_of_false (fun hpicks => ?_) (by rw [hnone, if_pos hfirst]; omega)
        obtain ⟨nid, hnid, hnew, hlt⟩ := hpicks.1 hfirst
        exact absurd hlt (Nat.not_lt.mpr (hbest nid hnid hnew))
      · have hpicks : PicksNew counts peers first aliveNodes := fun hmem => absurd hmem hfirst
        rw [hkept, candidates_first hfirst, if_neg hfirst, if_pos (by simp), and_iff_right hpicks]
        omega
    · have hother : bestNode counts peers first aliveNodes ≠ first := fun heq =>
        absurd (heq ▸ hlt) (Nat.lt_irrefl _)
      have hpicks : PicksNew counts peers first aliveNodes := fun _ => ⟨_, hmem, hnew, hlt⟩
      have hused := candidates_pick hnodup hmem hother hnew
        (hlt.trans_le (Nat.le_add_right _ _))
      have hsame : first ∈ peers ++ [bestNode counts peers first aliveNodes] ↔ first ∈ peers := by
        simp [Ne.symm hother]
      rw [and_iff_right hpicks, ← hused]
      simp only [hsame]
      omega

/-- A node that has no larger load than the first one does not get a larger one. -/
theorem counts_addReplicas_le {n : Nat} {counts : Nat → Nat} {peers : List Nat} {nid : Nat}
    (hlow : counts nid ≤ counts first) :
    (addReplicas first aliveNodes n counts peers).1 nid ≤
      (addReplicas first aliveNodes n counts peers).1 first := by
  induction n generalizing counts peers with
  | zero => exact hlow
  | succ n ih =>
    rw [addReplicas]
    refine ih ?_
    have hbest : bestNode counts peers first aliveNodes = first ∨
        counts (bestNode counts peers first aliveNodes) < counts first :=
      (bestNode_cases counts peers first aliveNodes).imp And.left fun hother => hother.2.2
    generalize bestNode counts peers first aliveNodes = best at hbest ⊢
    rcases hbest with rfl | hlt
    · rw [if_pos rfl]
      split <;> omega
    · rw [if_neg fun heq : first = best => by rw [heq] at hlt; exact Nat.lt_irrefl _ hlt]
      split
      · next heq => rw [heq]; exact hlt
      · exact hlow

theorem le_counts_addReplicas {n : Nat} {counts : Nat → Nat} {peers : List Nat} (nid : Nat) :
    counts nid ≤ (addReplicas first aliveNodes n counts peers).1 nid := by
  induction n generalizing counts peers with
  | zero => exact Nat.le_refl _
  | succ n ih =>
    refine Nat.le_trans ?_ ih
    split <;> omega

/-- Rounds that pick new nodes pick none twice, and no replica. -/
theorem counts_addReplicas_le_succ {n : Nat} {counts : Nat → Nat} {peers : List Nat}
    (hrounds : RoundsPickNew first aliveNodes n counts peers) (nid : Nat) :
    (addReplicas first aliveNodes n counts peers).1 nid ≤
      counts nid + if 0 < n ∧ nid ∉ peers then 1 else 0 := by
  induction n generalizing counts peers with
  | zero => exact Nat.le_add_right _ _
  | succ n ih =>
    obtain ⟨hpicks, hrounds⟩ := hrounds
    have hnew := bestNode_notMem_iff.mpr hpicks
    have hrest := ih hrounds
    rw [addReplicas]
    generalize bestNode counts peers first aliveNodes = best at *
    refine hrest.trans ?_
    show (if nid = best then counts nid + 1 else counts nid) + _ ≤ _
    by_cases heq : nid = best
    · subst heq
      simp [hnew]
    · rw [if_neg heq]
      simp only [List.mem_append, List.mem_singleton, heq, or_false]
      split
      · next hlater => rw [if_pos ⟨Nat.succ_pos n, hlater.2⟩]
      · exact Nat.le_add_right _ _

end Rounds

/-! ## The loop over the shards -/

/-- The replicas that a shard lacks. -/
def lacking (aliveNodes : List Nat) (s : ShardState) : Nat :=
  min 3 aliveNodes.length - s.peerNodeIds.length

/-- Each shard meets `P` with the loads when its turn comes. -/
def ShardsMeet (P : (Nat → Nat) → ShardState → Prop) (first : Nat) (aliveNodes : List Nat) :
    (Nat → Nat) → List ShardState → Prop
  | _, [] => True
  | counts, s :: shards =>
    P counts s ∧ ShardsMeet P first aliveNodes
      (addReplicas first aliveNodes (lacking aliveNodes s) counts s.peerNodeIds).1 shards

instance decidableShardsMeet {P : (Nat → Nat) → ShardState → Prop}
    [∀ counts s, Decidable (P counts s)] (first : Nat) (aliveNodes : List Nat) :
    (counts : Nat → Nat) → (shards : List ShardState) →
      Decidable (ShardsMeet P first aliveNodes counts shards)
  | _, [] => .isTrue trivial
  | _, _ :: shards =>
    have := fun counts => decidableShardsMeet (P := P) first aliveNodes counts shards
    inferInstanceAs (Decidable (_ ∧ _))

section Shards

variable {first : Nat} {aliveNodes : List Nat} {counts : Nat → Nat} {shards : List ShardState}

@[simp] theorem withLeader_peerNodeIds (s : ShardState) :
    s.withLeader.peerNodeIds = s.peerNodeIds := by
  unfold ShardState.withLeader
  split
  · split <;> rfl
  · rfl

/-- What the last loop makes of each shard, at the loads when its turn comes. -/
theorem forall_assignReplicas_iff {P : (Nat → Nat) → ShardState → Prop} {Q : ShardState → Prop}
    (hiff : ∀ counts, ∀ s ∈ shards, Q { s.withLeader with peerNodeIds :=
      (addReplicas first aliveNodes (lacking aliveNodes s) counts s.peerNodeIds).2 } ↔
        P counts s) :
    (∀ s ∈ assignReplicas first aliveNodes counts (shards.map .withLeader), Q s) ↔
      ShardsMeet P first aliveNodes counts shards := by
  induction shards generalizing counts with
  | nil => exact iff_of_true (fun s hs => absurd hs List.not_mem_nil) trivial
  | cons s shards ih =>
    rw [List.map_cons, assignReplicas, ShardsMeet, List.forall_mem_cons, withLeader_peerNodeIds]
    exact and_congr (hiff counts s List.mem_cons_self)
      (ih fun counts s hs => hiff counts s (List.mem_cons_of_mem _ hs))

end Shards

/-! ## Rebalancing -/

def isAlive (m : ShardManager) (nid : Nat) : Bool := m.nodes[nid]?.any NodeState.alive

def aliveNodes (m : ShardManager) (order : List Nat) : List Nat := order.filter m.isAlive

/-- The number of replicas that a node has. -/
def loads (m : ShardManager) (nid : Nat) : Nat :=
  (m.shards.flatMap ShardState.peerNodeIds).count nid

/-- Every round of a rebalance picks a node that is not a replica of the shard yet. -/
def PicksNewReplicas (m : ShardManager) (order : List Nat) : Prop :=
  match m.aliveNodes order with
  | [] => True
  | first :: others =>
    ShardsMeet (fun counts s => RoundsPickNew first (first :: others)
      (lacking (first :: others) s) counts s.peerNodeIds) first (first :: others) m.loads m.shards

instance (m : ShardManager) (order : List Nat) : Decidable (m.PicksNewReplicas order) := by
  unfold PicksNewReplicas
  split <;> infer_instance

/-- The number of shards in front that may be given the node first. -/
def mayTake (aliveNodes : List Nat) (earlier : List ShardState) (nid : Nat) : Nat :=
  earlier.countP fun s => 0 < lacking aliveNodes s ∧ nid ∉ s.peerNodeIds

/-- Enough alive nodes are left for the replicas that the shard lacks. If the first one is a
    replica already, as many others that are none have fewer shards than the first, and would
    still have if the shards in front took them. If it is not, as many others less one have no
    more shards than the first. -/
def Room (loads : Nat → Nat) (first : Nat) (aliveNodes : List Nat) (earlier : List ShardState)
    (s : ShardState) : Prop :=
  if first ∈ s.peerNodeIds then
    lacking aliveNodes s ≤ aliveNodes.countP fun nid =>
      nid ≠ first ∧ nid ∉ s.peerNodeIds ∧ loads nid + mayTake aliveNodes earlier nid < loads first
  else
    lacking aliveNodes s ≤ 1 + aliveNodes.countP fun nid =>
      nid ≠ first ∧ nid ∉ s.peerNodeIds ∧ loads nid ≤ loads first

instance (loads : Nat → Nat) (first : Nat) (aliveNodes : List Nat) (earlier : List ShardState)
    (s : ShardState) : Decidable (Room loads first aliveNodes earlier s) := by
  unfold Room
  infer_instance

/-- There is room for the replicas of every shard, at the loads before the rebalance. -/
def HasRoom (m : ShardManager) (aliveNodes : List Nat) : Prop :=
  ∀ i, (hi : i < m.shards.length) →
    Room m.loads (aliveNodes.headD 0) aliveNodes (m.shards.take i) m.shards[i]

instance (m : ShardManager) (aliveNodes : List Nat) : Decidable (m.HasRoom aliveNodes) :=
  inferInstanceAs (Decidable (∀ i, (hi : i < m.shards.length) → Room _ _ _ _ _))

/-- There is room for the replicas of the first shard that lacks any. -/
def FirstHasRoom (m : ShardManager) (aliveNodes : List Nat) : Prop :=
  ∀ earlier s later, m.shards = earlier ++ s :: later →
    (∀ e ∈ earlier, lacking aliveNodes e = 0) →
      Room m.loads (aliveNodes.headD 0) aliveNodes earlier s

/-- The loads `counts` after the shards `earlier` have had their turns, each of which has picked
    new nodes. -/
structure Reached (loads : Nat → Nat) (first : Nat) (aliveNodes : List Nat)
    (earlier : List ShardState) (counts : Nat → Nat) : Prop where
  first_le : loads first ≤ counts first
  low : ∀ nid, loads nid ≤ loads first → counts nid ≤ counts first
  taken : ∀ nid, counts nid ≤ loads nid + mayTake aliveNodes earlier nid

section Room

variable {first : Nat} {aliveNodes : List Nat} {loads counts : Nat → Nat}
  {earlier shards : List ShardState} {s : ShardState}

/-- Room before the rebalance is room when the shard has its turn. -/
theorem Reached.roundsPickNew (hreached : Reached loads first aliveNodes earlier counts)
    (hnodup : aliveNodes.Nodup) (hroom : Room loads first aliveNodes earlier s) :
    RoundsPickNew first aliveNodes (lacking aliveNodes s) counts s.peerNodeIds := by
  rw [roundsPickNew_iff hnodup]
  unfold Room at hroom
  unfold candidates limit
  split at hroom
  · next hfirst =>
    rw [if_pos hfirst, Nat.add_zero]
    refine hroom.trans (List.countP_mono_left fun nid _ hnid => ?_)
    have htaken := hreached.taken nid
    have hle := hreached.first_le
    simp only [decide_eq_true_eq] at hnid ⊢
    exact ⟨hnid.1, hnid.2.1, by omega⟩
  · next hfirst =>
    rw [if_neg hfirst, Nat.add_comm]
    refine hroom.trans (Nat.add_le_add_left (List.countP_mono_left fun nid _ hnid => ?_) 1)
    simp only [decide_eq_true_eq] at hnid ⊢
    exact ⟨hnid.1, hnid.2.1, Nat.lt_succ_of_le (hreached.low nid hnid.2.2)⟩

/-- The turn of a shard that picks new nodes. -/
theorem Reached.next (hreached : Reached loads first aliveNodes earlier counts)
    (hrounds : RoundsPickNew first aliveNodes (lacking aliveNodes s) counts s.peerNodeIds) :
    Reached loads first aliveNodes (earlier ++ [s])
      (addReplicas first aliveNodes (lacking aliveNodes s) counts s.peerNodeIds).1 where
  first_le := hreached.first_le.trans (le_counts_addReplicas first)
  low nid hlow := counts_addReplicas_le (hreached.low nid hlow)
  taken nid := by
    have hturn := counts_addReplicas_le_succ hrounds nid
    have htaken := hreached.taken nid
    rw [mayTake, List.countP_append, List.countP_singleton]
    simp only [decide_eq_true_eq]
    unfold mayTake at htaken
    omega

/-- The last loop picks new nodes for all shards that have room. -/
theorem Reached.shardsMeet (hreached : Reached loads first aliveNodes earlier counts)
    (hnodup : aliveNodes.Nodup) (hroom : ∀ i, (hi : i < shards.length) →
      Room loads first aliveNodes (earlier ++ shards.take i) shards[i]) :
    ShardsMeet (fun counts s => RoundsPickNew first aliveNodes (lacking aliveNodes s) counts
      s.peerNodeIds) first aliveNodes counts shards := by
  induction shards generalizing earlier counts with
  | nil => trivial
  | cons s shards ih =>
    have hs : Room loads first aliveNodes earlier s := by
      simpa using hroom 0 (Nat.zero_lt_succ _)
    have hrounds := hreached.roundsPickNew hnodup hs
    refine ⟨hrounds, ih (hreached.next hrounds) fun i hi => ?_⟩
    simpa using hroom (i + 1) (Nat.succ_lt_succ hi)

end Room

/-- The first shard that lacks replicas has its turn at the loads before the rebalance. -/
theorem ShardsMeet.of_full {P : (Nat → Nat) → ShardState → Prop} {first : Nat}
    {aliveNodes : List Nat} {counts : Nat → Nat} {earlier later : List ShardState} {s : ShardState}
    (hmeet : ShardsMeet P first aliveNodes counts (earlier ++ s :: later))
    (hfull : ∀ e ∈ earlier, lacking aliveNodes e = 0) : P counts s := by
  induction earlier with
  | nil => exact hmeet.1
  | cons e earlier ih =>
    obtain ⟨he, hfull⟩ := List.forall_mem_cons.mp hfull
    have hrest := hmeet.2
    rw [he] at hrest
    exact ih hrest hfull

section HasRoom

variable {m : ShardManager} {first : Nat} {others : List Nat}
  (hnodup : (first :: others).Nodup)

include hnodup

/-- With room, all rounds pick new nodes. -/
theorem HasRoom.shardsMeet (hroom : m.HasRoom (first :: others)) :
    ShardsMeet (fun counts s => RoundsPickNew first (first :: others)
      (lacking (first :: others) s) counts s.peerNodeIds)
        first (first :: others) m.loads m.shards :=
  have hstart : Reached m.loads first (first :: others) [] m.loads :=
    ⟨Nat.le_refl _, fun _ hlow => hlow, fun _ => Nat.le_add_right _ _⟩
  hstart.shardsMeet hnodup hroom

/-- The first shard that lacks replicas needs the room. -/
theorem firstHasRoom_of_shardsMeet (hmeet : ShardsMeet (fun counts s =>
    RoundsPickNew first (first :: others) (lacking (first :: others) s) counts s.peerNodeIds)
      first (first :: others) m.loads m.shards) : m.FirstHasRoom (first :: others) := by
  intro earlier s later hshards hfull
  rw [hshards] at hmeet
  have hrounds := (roundsPickNew_iff hnodup).mp (hmeet.of_full hfull)
  have htake : ∀ nid, mayTake (first :: others) earlier nid = 0 := by
    intro nid
    refine List.countP_eq_zero.mpr fun e he => ?_
    simp [hfull e he]
  unfold candidates limit at hrounds
  unfold Room
  simp only [List.headD_cons, htake, Nat.add_zero]
  split
  · next hfirst =>
    simpa only [if_pos hfirst, Nat.add_zero] using hrounds
  · next hfirst =>
    rw [if_neg hfirst, Nat.add_comm] at hrounds
    refine hrounds.trans (Nat.add_le_add_left (List.countP_mono_left fun nid _ hnid => ?_) 1)
    simp only [decide_eq_true_eq] at hnid
    exact decide_eq_true_iff.mpr ⟨hnid.1, hnid.2.1, Nat.le_of_lt_succ hnid.2.2⟩

end HasRoom

/-- No replica list names a node twice. -/
def DistinctReplicas (m : ShardManager) : Prop := ∀ s ∈ m.shards, s.peerNodeIds.Nodup

theorem scheduleRebalance_nil {m : ShardManager} {order : List Nat}
    (hnone : m.aliveNodes order = []) : m.scheduleRebalance order = m := by
  have hfilter : (order.filter fun id => m.nodes[id]?.any NodeState.alive) = [] := hnone
  rw [scheduleRebalance, hfilter]

theorem scheduleRebalance_cons {m : ShardManager} {order : List Nat} {first : Nat}
    {others : List Nat} (hsome : m.aliveNodes order = first :: others) :
    (m.scheduleRebalance order).shards =
      assignReplicas first (first :: others) m.loads (m.shards.map .withLeader) := by
  have hfilter : (order.filter fun id => m.nodes[id]?.any NodeState.alive) = first :: others :=
    hsome
  rw [scheduleRebalance, hfilter]
  rfl

/-- A rebalance repeats no node, exactly if each of its rounds picks a new one. -/
theorem distinctReplicas_scheduleRebalance_iff {m : ShardManager} (hm : m.DistinctReplicas)
    (order : List Nat) :
    (m.scheduleRebalance order).DistinctReplicas ↔ m.PicksNewReplicas order := by
  unfold PicksNewReplicas
  cases hnodes : m.aliveNodes order with
  | nil =>
    rw [scheduleRebalance_nil hnodes]
    exact iff_of_true hm trivial
  | cons first others =>
    -- setting leaders changes no replica list, so only the last loop counts
    rw [DistinctReplicas, scheduleRebalance_cons hnodes]
    apply forall_assignReplicas_iff
    intro counts s hs
    exact nodup_addReplicas_iff.trans (and_iff_right (hm s hs))

/-- A rebalance that has room repeats no node. One that repeats none has room for the first
    shard that lacks replicas. -/
theorem distinctReplicas_of_hasRoom {m : ShardManager} (hm : m.DistinctReplicas)
    {order : List Nat} (hnodup : order.Nodup) :
    (m.HasRoom (m.aliveNodes order) → (m.scheduleRebalance order).DistinctReplicas) ∧
      ((m.scheduleRebalance order).DistinctReplicas → m.FirstHasRoom (m.aliveNodes order)) := by
  have hnodup' : (m.aliveNodes order).Nodup := hnodup.filter _
  rw [distinctReplicas_scheduleRebalance_iff hm]
  unfold PicksNewReplicas
  cases hnodes : m.aliveNodes order with
  | nil => exact ⟨fun _ => trivial, fun _ _ _ _ _ _ => by simp [Room, lacking]⟩
  | cons first others =>
    rw [hnodes] at hnodup'
    exact ⟨HasRoom.shardsMeet hnodup', firstHasRoom_of_shardsMeet hnodup'⟩

/-! ## The other operations -/

theorem shards_processHeartbeat (m : ShardManager) (now : Int) (nodeId : UInt64)
    (state : HeartbeatRequest.ShardState) :
    (m.processHeartbeat now nodeId state).shards = m.shards := by
  unfold processHeartbeat
  split <;> rfl

theorem shards_getDeadNodes (m : ShardManager) (now : Int) (order : List Nat) :
    (m.getDeadNodes now order).2.shards = m.shards := by
  induction order generalizing m with
  | nil => rfl
  | cons id order ih =>
    rw [getDeadNodes]
    split
    · exact ih m
    · split
      · exact ih _
      · exact ih m

theorem shards_setInitialNodes (m : ShardManager) (nodeIds : List Nat) (port : UInt32) :
    (m.setInitialNodes nodeIds port).shards = m.shards := by
  unfold setInitialNodes
  induction nodeIds generalizing m with
  | nil => rfl
  | cons id nodeIds ih => exact ih _

theorem forall_assignIn {Q : ShardState → Prop} {shards : List ShardState}
    {shardId nodeId : Nat} {isLeader : Bool} (hshards : ∀ s ∈ shards, Q s)
    (hassign : ∀ s, Q s → Q (s.assigned nodeId isLeader)) :
    ∀ s ∈ assignIn shardId nodeId isLeader shards, Q s := by
  induction shards with
  | nil => exact hshards
  | cons s shards ih =>
    obtain ⟨hs, hshards⟩ := List.forall_mem_cons.mp hshards
    rw [assignIn]
    split
    · exact List.forall_mem_cons.mpr ⟨hassign s hs, hshards⟩
    · exact List.forall_mem_cons.mpr ⟨hs, ih hshards⟩

/-- The step rule for a property of the shards: it holds of new ones, and an assignment keeps
    it; the rebalance is left. -/
theorem forall_shards_perform {Q : ShardState → Prop} {m : ShardManager} {op : ShardOp}
    (hm : ∀ s ∈ m.shards, Q s)
    (hnew : ∀ s : ShardState, s.leaderNodeId = 0 → s.peerNodeIds = [] → Q s)
    (hassign : ∀ s nodeId isLeader, Q s → Q (s.assigned nodeId isLeader))
    (hrebalance : ∀ order, op = .scheduleRebalance order →
      ∀ s ∈ (m.scheduleRebalance order).shards, Q s) :
    ∀ s ∈ (m.perform op).shards, Q s := by
  cases op with
  | registerNode now info => exact hm
  | processHeartbeat now nodeId state =>
    show ∀ s ∈ (m.processHeartbeat now nodeId state).shards, Q s
    rwa [shards_processHeartbeat]
  | getDeadNodes now order =>
    show ∀ s ∈ (m.getDeadNodes now order).2.shards, Q s
    rwa [shards_getDeadNodes]
  | initShards numShards replicaCount =>
    intro s hs
    obtain ⟨i, -, rfl⟩ := List.mem_map.mp hs
    exact hnew _ rfl rfl
  | assignShard shardId nodeId isLeader =>
    exact forall_assignIn hm fun s hs => hassign s nodeId isLeader hs
  | scheduleRebalance order => exact hrebalance order rfl
  | setInitialNodes nodeIds port =>
    show ∀ s ∈ (m.setInitialNodes nodeIds port).shards, Q s
    rwa [shards_setInitialNodes]

theorem step_eq_some {m m' : ShardManager} {op : ShardOp} (hstep : m.step op = some m') :
    m.Enabled op ∧ m.perform op = m' := by
  unfold step at hstep
  split at hstep
  · next hen => exact ⟨hen, Option.some.inj hstep⟩
  · exact nomatch hstep

end ShardManager

/-! ## Runs -/

/-- A rebalance has room for the replicas that it adds. -/
def ShardOp.HasRoom (m : ShardManager) : ShardOp → Prop
  | .scheduleRebalance order => m.HasRoom (m.aliveNodes order)
  | _ => True

variable {h : List (ShardManager × ShardOp)} {m m' : ShardManager} {op : ShardOp}

theorem nodup_assigned {s : ShardManager.ShardState} {nodeId : Nat} {isLeader : Bool}
    (hs : s.peerNodeIds.Nodup) : (s.assigned nodeId isLeader).peerNodeIds.Nodup := by
  have hsame : (if isLeader then { s with leaderNodeId := nodeId } else s).peerNodeIds =
      s.peerNodeIds := by
    split <;> rfl
  unfold ShardManager.ShardState.assigned
  dsimp only
  rw [hsame]
  split
  · rwa [hsame]
  · next hnew =>
    show (s.peerNodeIds ++ [nodeId]).Nodup
    rw [List.nodup_append_comm]
    exact List.nodup_cons.mpr ⟨hnew, hs⟩

private theorem distinctReplicas_perform (hm : m.DistinctReplicas) (hen : m.Enabled op)
    (hroom : op.HasRoom m) : (m.perform op).DistinctReplicas := by
  refine ShardManager.forall_shards_perform hm (fun s _ hnil => ?_) (fun s nodeId isLeader hs => ?_)
    fun order hop => ?_
  · -- a new shard has no replicas
    rw [hnil]
    exact List.nodup_nil
  · exact nodup_assigned hs
  · subst hop
    exact (ShardManager.distinctReplicas_of_hasRoom hm (ShardManager.nodup_order hen)).1 hroom

/-- The replica lists stay free of duplicates throughout a run whose rebalances have room, at
    the loads before them. -/
theorem distinctReplicas_of_run (hrun : Run shardSystem h m)
    (hroom : StepsMeet (fun _ m op => op.HasRoom m) h) :
    Throughout (fun _ m => m.DistinctReplicas) h m := by
  refine hrun.throughout_of_stepsMeet (I := fun _ m => m.DistinctReplicas) hroom
    (fun m hinit => ?_) (fun _ _ hm => hm) fun _ m op m' _ hm hstep hroom => ?_
  · rw [hinit]
    exact fun s hs => absurd hs List.not_mem_nil
  · obtain ⟨hen, hs⟩ := ShardManager.step_eq_some hstep
    rw [← hs]
    exact distinctReplicas_perform hm hen hroom

/-! ### Equal loads -/

/-- Two nodes, and two shards with one replica each, the second one at node `second`. -/
def halfShards (second : Nat) : List ShardOp :=
  [.registerNode 0 {}, .registerNode 0 {}, .initShards 2 3, .assignShard 1 1 true,
    .assignShard 2 second true, .scheduleRebalance [1, 2]]

/-- Node 2 has no load and gets the second replica of both shards. -/
theorem distinctReplicas_halfShards :
    Throughout (fun _ m => m.DistinctReplicas)
      ((shardSchedule (halfShards 1)).get (by decide +kernel)).1
      ((shardSchedule (halfShards 1)).get (by decide +kernel)).2 := by
  refine distinctReplicas_of_run (shardSchedule_run _)
    ⟨?_, trivial, trivial, trivial, trivial, trivial, trivial⟩
  dsimp only [ShardOp.HasRoom]
  decide +kernel

/-- Node 2 has the load of node 1, so node 1 gets the second replica of its own shard. -/
theorem repeated_replica : ¬ ∀ (h : List (ShardManager × ShardOp)) (m : ShardManager),
    Run shardSystem h m → m.DistinctReplicas := by
  intro hall
  have hdistinct := hall _ _
    (shardSchedule_run (show (shardSchedule (halfShards 2)).isSome by decide +kernel))
  revert hdistinct
  unfold ShardManager.DistinctReplicas
  decide +kernel

end Dkv
