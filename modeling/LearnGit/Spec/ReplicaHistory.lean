import LearnGit.Spec.ClientStore
import LearnGit.Spec.StateMachineSafety

/-!
# One history behind all replicas

A node applies the indices in order and leaves none out. In a run without a stale suffix
no two nodes apply different commands at one index, so the commands of all nodes are front
parts of one list of writes, and the store of every node at every moment is what a front
part of that list makes of the empty store.

## Key results

- `applied_indices`: the indices a node has applied are those up to `lastApplied_`
- `applied_compatible`: what two nodes have applied, one has applied all of
- `stores_of_history`: every store of a run is a snapshot of one history of writes
-/

namespace Dkv

open Transition ReplicatedLog RaftService

/-! ## Applied commands in order -/

/-- The index and the command a callback applies. -/
def Call.applied? : Call → Option (Nat × Bytes)
  | .apply index command => some (index, command)
  | _ => none

/-- The commands a node has applied, in order. -/
def RaftNode.applied (n : RaftNode) : List Bytes := n.calls.filterMap Call.command?

theorem RaftNode.map_applied? (n : RaftNode) :
    (n.calls.filterMap Call.applied?).map Prod.snd = n.applied := by
  rw [List.map_filterMap, applied]
  refine List.filterMap_congr fun c _ => ?_
  cases c <;> rfl

section Node

variable {n n' : RaftNode} {env : Env} {input : Input} {reply : Option RaftMessage}

/-- Of the callbacks of a reaction only the last group applies anything. -/
theorem RaftNode.Reacts.filterMap_applied? (hreact : n.Reacts env input n' reply) :
    n'.calls.filterMap Call.applied? = n.calls.filterMap Call.applied? ++
      (List.range' (n.lastApplied + 1) (n'.lastApplied - n.lastApplied)).map fun i =>
        (i, (n'.log.getD i default).command) := by
  obtain ⟨ps, sends, hcalls, hps, hsends⟩ := hreact.calls_eq
  have hpersists : ps.filterMap Call.applied? = [] := by
    rw [List.filterMap_eq_nil_iff]
    intro c hc
    obtain ⟨t, v, log, rfl⟩ := hps.mem c hc
    rfl
  have hsent : sends.filterMap Call.applied? = [] := by
    rw [List.filterMap_eq_nil_iff]
    intro c hc
    cases hsends with
    | none => exact (List.not_mem_nil hc).elim
    | vote =>
      obtain ⟨pid, -, rfl⟩ := List.mem_map.mp hc
      rfl
    | append =>
      obtain ⟨pid, -, rfl⟩ := List.mem_map.mp hc
      rfl
  rw [hcalls, List.filterMap_append, List.filterMap_append, List.filterMap_append, hpersists,
    hsent, List.nil_append, List.nil_append, applyCalls, List.filterMap_map]
  congr 1
  exact congrFun List.filterMap_eq_map _

theorem RaftNode.Reacts.lastApplied_le (hreact : n.Reacts env input n' reply) :
    n.lastApplied ≤ n'.lastApplied := by
  cases hreact.commitStep with
  | same _ happlied => omega
  | advance _ _ _ _ _ happlied => omega
  | follow _ _ _ _ _ _ happlied => omega

end Node

section Cluster

variable {M : Membership} {h : List (Cluster × Event)} {c : Cluster}

/-- A node applies one index after the other. -/
theorem applied_indices (hrun : Run (raftSystem M) h c) {i : Nat} (hi : i ∈ M.ids) :
    ((c.nodes i).calls.filterMap Call.applied?).map Prod.fst =
      List.range' 1 (c.nodes i).lastApplied := by
  refine run_node hrun hi
    (P := fun n => (n.calls.filterMap Call.applied?).map Prod.fst = List.range' 1 n.lastApplied)
    (fun _ => rfl) fun _ _ _ _ _ _ _ _ _ hact hindices => ?_
  have hle := hact.reacts.lastApplied_le
  rw [hact.reacts.filterMap_applied?, List.map_append, hindices, List.map_map,
    show Prod.fst ∘ _ = id from rfl, List.map_id, Nat.add_comm _ 1, List.range'_append_1]
  congr 1
  omega

theorem length_applied (hrun : Run (raftSystem M) h c) {i : Nat} (hi : i ∈ M.ids) :
    (c.nodes i).applied.length = (c.nodes i).lastApplied := by
  have hindices := congrArg List.length (applied_indices hrun hi)
  rwa [List.length_map, List.length_range', ← List.length_map Prod.snd,
    RaftNode.map_applied?] at hindices

/-- The command at position `k` was applied with index `k + 1`. -/
theorem apply_mem_of_applied (hrun : Run (raftSystem M) h c) {i : Nat} (hi : i ∈ M.ids) {k : Nat}
    {command : Bytes} (hget : (c.nodes i).applied[k]? = some command) :
    .apply (k + 1) command ∈ (c.nodes i).calls := by
  rw [← RaftNode.map_applied?, List.getElem?_map] at hget
  obtain ⟨⟨index, _⟩, hp, rfl⟩ := Option.map_eq_some_iff.mp hget
  -- the indices count from 1
  have hindex := congrArg (·[k]?) (applied_indices hrun hi)
  simp only [List.getElem?_map, hp, Option.map_some] at hindex
  obtain ⟨hk, hindex⟩ := List.getElem?_eq_some_iff.mp hindex.symm
  rw [List.getElem_range'] at hindex
  obtain ⟨call, hcall, hsome⟩ := List.mem_filterMap.mp (List.mem_of_getElem? hp)
  cases call with
  | apply =>
    obtain ⟨rfl, rfl⟩ := Prod.mk.inj (Option.some.inj hsome)
    rwa [show k + 1 = 1 + 1 * k by omega, hindex]
  | _ => exact nomatch hsome

/-- In a run without a stale suffix any two nodes have applied front parts of one list. -/
theorem applied_compatible (hrun : Run (raftSystem M) h c) (hmeets : StepsMeet NoStaleSuffix h)
    {a b : Nat} (ha : a ∈ M.ids) (hb : b ∈ M.ids) :
    Compatible (c.nodes a).applied (c.nodes b).applied := by
  have inv := commitInv hrun hmeets
  refine .of_agree fun k x y hx hy => ?_
  -- both commands are those of committed prefixes of one log
  obtain ⟨_, P, p, hP, hp, rfl⟩ := inv.applied a ha _ x (apply_mem_of_applied hrun ha hx)
  obtain ⟨_, P', p', hP', hp', rfl⟩ := inv.applied b hb _ y (apply_mem_of_applied hrun hb hy)
  rw [(hP.compatible hP' hrun).getElem? hp hp']

/-- What a node had applied before, it has applied first. -/
theorem applied_isPrefix (hrun : Run (raftSystem M) h c) {u : Cluster} (hu : u ∈ visited h c)
    (i : Nat) : (u.nodes i).applied <+: (c.nodes i).applied := by
  refine hrun.visited_le (R := fun u v => (u.nodes i).applied <+: (v.nodes i).applied)
    (fun _ => List.prefix_refl _) (fun _ _ _ => List.IsPrefix.trans)
    (fun _ _ _ _ _ hstep => ?_) hu
  rw [RaftNode.applied, RaftNode.applied, step_calls_eq hstep i, List.filterMap_append]
  exact List.prefix_append _ _

end Cluster

/-! ## The history of writes -/

section Data

variable {pb : Protobuf} {M : Membership} {h : List (DataCluster × DataEvent)} {s : DataCluster}

/-- The write that a client asks for. -/
def DataEvent.write : DataEvent → Option Write
  | .put _ _ req => some (.put req)
  | .delete _ _ req => some (.delete req)
  | _ => none

/-- A write was asked for in the run. -/
def Issued (h : List (DataCluster × DataEvent)) (w : Write) : Prop :=
  ∃ p ∈ h, p.2.write = some w

/-- What a node has applied are issued writes. -/
theorem applied_writes (hrun : Run (dataSystem pb M) h s) {i : Nat} (hi : i ∈ M.ids) :
    ∃ ws : List Write, (∀ w ∈ ws, Issued h w) ∧
      (s.raft.nodes i).applied = ws.map fun w => pb.serializeRpc w.command := by
  have hwrites : (s.raft.nodes i).applied ∈
      Set.range (List.map fun w : {w // Issued h w} => pb.serializeRpc w.1.command) := by
    rw [Set.range_list_map]
    intro command hmem
    obtain ⟨k, hk⟩ := List.getElem?_of_mem hmem
    obtain ⟨p, hp, cmd, hcmd, rfl⟩ :=
      applied_issued hrun hi (apply_mem_of_applied (raft_run hrun) hi hk)
    cases hevent : p.2 with
    | put id env req =>
      rw [hevent] at hcmd
      obtain rfl := Option.some.inj hcmd
      exact ⟨⟨.put req, p, hp, by rw [hevent]; rfl⟩, rfl⟩
    | delete id env req =>
      rw [hevent] at hcmd
      obtain rfl := Option.some.inj hcmd
      exact ⟨⟨.delete req, p, hp, by rw [hevent]; rfl⟩, rfl⟩
    | _ =>
      rw [hevent] at hcmd
      exact nomatch hcmd
  obtain ⟨ws, hws⟩ := hwrites
  refine ⟨ws.map Subtype.val, fun w hw => ?_, ?_⟩
  · obtain ⟨w, -, rfl⟩ := List.mem_map.mp hw
    exact w.2
  · rw [← hws, List.map_map]
    rfl

/-- The Raft nodes of a visited state were visited by the run of the Raft nodes. -/
theorem raft_mem_visited {u : DataCluster} (hu : u ∈ visited h s)
    (hrun : Run (dataSystem pb M) h s) : u.raft ∈ visited (raftHistory pb h) s.raft := by
  induction hrun with
  | start =>
    obtain rfl := List.mem_singleton.mp hu
    exact List.mem_singleton_self _
  | @next h s s' e hrun hstep ih =>
    rcases dataStep_cases hstep with ⟨r, hr, -, -⟩ | ⟨hr, rfl⟩
    · rw [raftHistory, projectHistory_of_some hr, visited_cons]
      rcases List.mem_cons.mp hu with rfl | hu
      · exact List.mem_cons_self
      · exact List.mem_cons_of_mem _ (ih hu)
    · rw [raftHistory, projectHistory_of_none hr]
      rcases List.mem_cons.mp hu with rfl | hu
      · exact mem_visited_self _ _
      · exact ih hu

/-- In a run without a stale suffix, whose clients keep away from Raft's keys, there is one
    history of issued writes such that every node holds, at every moment, the store that its
    first `lastApplied_` writes leave. -/
theorem stores_of_history (hrun : Run (dataSystem pb M) h s)
    (hmeets : StepsMeet NoStaleSuffix (raftHistory pb h))
    (hkeys : ∀ w, Issued h w → isReservedKey w.key = false) :
    ∃ ws : List Write, (∀ w ∈ ws, Issued h w) ∧ ∀ u ∈ visited h s, ∀ i ∈ M.ids,
      (u.raft.nodes i).lastApplied ≤ ws.length ∧
        Holds (u.engines i) (clientStore (ws.take (u.raft.nodes i).lastApplied)) := by
  have hraft := raft_run hrun
  -- the longest list of applied commands extends all others
  obtain ⟨L, hL, hpre⟩ := exists_extension M.ids (fun i => (s.raft.nodes i).applied)
    fun a ha b hb => applied_compatible hraft hmeets ha hb
  obtain ⟨ws, hissued, hws⟩ : ∃ ws : List Write, (∀ w ∈ ws, Issued h w) ∧
      L = ws.map fun w => pb.serializeRpc w.command := by
    rcases hL with rfl | ⟨a, ha, rfl⟩
    · exact ⟨[], fun _ hw => (List.not_mem_nil hw).elim, rfl⟩
    · exact applied_writes hrun ha
  refine ⟨ws, hissued, fun u hu i hi => ?_⟩
  obtain ⟨h', hrun', -⟩ := hrun.of_visited hu
  have happlied := (applied_isPrefix hraft (raft_mem_visited hu hrun) i).trans (hpre i hi)
  have hlen := length_applied (raft_run hrun') hi
  rw [hws] at happlied
  constructor
  · rw [← hlen]
    exact happlied.length_le.trans_eq (List.length_map _)
  · rw [engine_eq hrun' hi]
    refine clientStore_get ?_ fun w hw => hkeys w (hissued w (List.mem_of_mem_take hw))
    show (u.raft.nodes i).applied = _
    rw [List.prefix_iff_eq_take.mp happlied, hlen, List.map_take]

end Data

/-- Node 1 of three has applied the PUT, the other two nothing yet. -/
theorem stores_of_history_ackedThenApplied :
    let r := (dataSchedule .wire 3 ackedThenApplied).get ackedThenApplied_runs
    (r.2.raft.nodes 1).lastApplied = 1 ∧ (r.2.raft.nodes 2).lastApplied = 0 ∧
      ∃ ws : List Write, (∀ w ∈ ws, Issued r.1 w) ∧ ∀ u ∈ visited r.1 r.2, ∀ i ∈ [1, 2, 3],
        (u.raft.nodes i).lastApplied ≤ ws.length ∧
          Holds (u.engines i) (clientStore (ws.take (u.raft.nodes i).lastApplied)) := by
  intro r
  have hkeys : ∀ p ∈ r.1, ∀ w ∈ p.2.write, isReservedKey w.key = false := by decide +kernel
  obtain ⟨ws, hissued, hstores⟩ := stores_of_history (dataSchedule_run ackedThenApplied_runs)
    (by decide +kernel) fun w ⟨p, hp, hw⟩ => hkeys p hp w hw
  refine ⟨by decide +kernel, by decide +kernel, ws, hissued, fun u hu i hi => hstores u hu i ?_⟩
  revert i
  decide

end Dkv
