import LearnGit.Native.DataCluster
import LearnGit.Spec.CommandOrigin

/-!
# Steps of the data cluster

Forgetting the engines turns a run of the data cluster into a run of the Raft cluster,
and the engine of a node is what its callbacks have made of the empty one. A write
request changes a node exactly as its handler says.

## Key results

- `raft_run`: the Raft nodes of a run
- `engine_eq`: the engine of a node is determined by the node's callbacks
- `step_put`, `step_delete`: the step of a write request is its handler
- `applied_issued`: only issued write commands are applied
-/

namespace Dkv

open Transition

variable {pb : Protobuf} {M : Membership} {h : List (DataCluster × DataEvent)}
  {s s' : DataCluster} {e : DataEvent}

/-! ## The Raft nodes of a run -/

/-- The steps of the Raft nodes in a history. -/
def raftHistory (pb : Protobuf) (h : List (DataCluster × DataEvent)) : List (Cluster × Event) :=
  projectHistory DataCluster.raft (DataEvent.raftEvent pb) h

/-- A step of the data cluster is a step of its Raft nodes with the callbacks run on the
    engines, or changes nothing. -/
theorem dataStep_cases (hstep : (dataSystem pb M).step s e = some s') :
    (∃ r, e.raftEvent pb = some r ∧ (raftSystem M).step s.raft r = some s'.raft ∧
      ∀ i, s'.engines i = RaftService.runCalls pb (s.engines i)
        ((s.raft.nodes i).newCalls (s'.raft.nodes i))) ∨
    (e.raftEvent pb = none ∧ s' = s) := by
  change s.step pb M e = some s' at hstep
  unfold DataCluster.step at hstep
  split at hstep
  · next r hr =>
    obtain ⟨raft, hraft, rfl⟩ := Option.map_eq_some_iff.mp hstep
    exact .inl ⟨r, hr, hraft, fun i => rfl⟩
  · next hr => exact .inr ⟨hr, (Option.some.inj hstep).symm⟩

theorem dataSystem_projects (pb : Protobuf) (M : Membership) :
    Projects (dataSystem pb M) (raftSystem M) DataCluster.raft (DataEvent.raftEvent pb) := by
  intro s e s' hstep
  rcases dataStep_cases hstep with ⟨r, hr, hraft, -⟩ | ⟨hr, rfl⟩
  · exact .inl ⟨r, hr, hraft⟩
  · exact .inr ⟨hr, rfl⟩

theorem raft_run (hrun : Run (dataSystem pb M) h s) :
    Run (raftSystem M) (raftHistory pb h) s.raft :=
  hrun.project (fun _ hinit => hinit.1) (dataSystem_projects pb M)

/-! ## Engines -/

@[simp] theorem RaftNode.newCalls_self (n : RaftNode) : n.newCalls n = [] := by
  simp [newCalls]

theorem RaftService.runCalls_append (pb : Protobuf) (e : RocksEngine) (cs ds : List Call) :
    runCalls pb e (cs ++ ds) = runCalls pb (runCalls pb e cs) ds :=
  List.foldl_append

/-- Callbacks are only ever added. -/
theorem step_calls_eq {c c' : Cluster} {r : Event} (hstep : (raftSystem M).step c r = some c')
    (i : Nat) : (c'.nodes i).calls = (c.nodes i).calls ++ (c.nodes i).newCalls (c'.nodes i) := by
  rcases step_node hstep i with hsame | ⟨env, input, reply, net, hact⟩
  · rw [hsame, RaftNode.newCalls_self, List.append_nil]
  · exact hact.reacts.newCalls_eq

/-- The engine of a node is what its callbacks have made of the empty one. -/
theorem engine_eq (hrun : Run (dataSystem pb M) h s) {i : Nat} (hi : i ∈ M.ids) :
    s.engines i = RaftService.runCalls pb .empty (s.raft.nodes i).calls := by
  induction hrun with
  | start hinit =>
    obtain ⟨env, hnew⟩ := hinit.1.1 i hi
    rw [hinit.2, hnew]
    rfl
  | next hrun hstep ih =>
    rcases dataStep_cases hstep with ⟨r, -, hraft, hengines⟩ | ⟨-, rfl⟩
    · rw [hengines, ih, step_calls_eq hraft, RaftService.runCalls_append]
    · exact ih

/-! ## Handlers -/

variable {addrs : Nat → Nat → Option Bytes}

/-- The answer to a proposed write is OK exactly at a leader. -/
theorem DataNode.submit_ok_iff (d : DataNode) (n : RaftNode) (cmd : RpcMessage) :
    (d.submit pb n cmd).2.1 = .ok ↔ n.state = .leader := by
  unfold submit
  split
  · next hleader => simp [RaftNode.propose, hleader]
  · next hleader =>
    refine iff_of_false ?_ hleader
    split <;> exact fun hcode => nomatch hcode

/-- A proposal changes its node only, as `propose` says. -/
theorem step_propose {c c' : Cluster} {i : Nat} {env : Env} {command : Bytes}
    (hstep : (raftSystem M).step c (.propose i env command) = some c') :
    i ∈ M.ids ∧ c'.nodes = Function.update c.nodes i ((c.nodes i).propose command).1 := by
  obtain ⟨hi, hact⟩ := Option.ite_none_right_eq_some.mp hstep
  simp only [Cluster.act] at hact
  obtain ⟨-, hact⟩ := Option.ite_none_right_eq_some.mp hact
  refine ⟨hi, ?_⟩
  rw [← Option.some.inj hact]
  rfl

/-- Proposing at a node is the Raft part of a write request. -/
private theorem step_submit {i : Nat} {env : Env} (cmd : RpcMessage)
    (hevent : e.raftEvent pb = some (.propose i env (pb.serializeRpc cmd)))
    (hstep : (dataSystem pb M).step s e = some s') :
    s'.node addrs i = ((s.node addrs i).submit pb (s.raft.nodes i) cmd).1 ∧
      ∀ j, j ≠ i → s'.node addrs j = s.node addrs j := by
  rcases dataStep_cases hstep with ⟨r, hr, hraft, hengines⟩ | ⟨hr, -⟩
  · obtain rfl := Option.some.inj (hevent.symm.trans hr)
    obtain ⟨-, hnode⟩ := step_propose hraft
    constructor
    · rw [DataCluster.node, hengines, hnode, Function.update_self]
      unfold DataNode.submit
      split
      · rfl
      · next hleader =>
        -- a node that is not the leader ignores the proposal
        have hsame : ((s.raft.nodes i).propose (pb.serializeRpc cmd)).1 = s.raft.nodes i := by
          rw [RaftNode.propose, if_pos hleader]
        rw [hsame, RaftNode.newCalls_self]
        split <;> rfl
    · intro j hj
      rw [DataCluster.node, hengines, hnode, Function.update_of_ne hj, RaftNode.newCalls_self]
      rfl
  · exact nomatch hevent.symm.trans hr

/-- The step of a PUT is its handler. -/
theorem step_put {i : Nat} {env : Env} {req : PutRequest}
    (hstep : (dataSystem pb M).step s (.put i env req) = some s') :
    s'.node addrs i = ((s.node addrs i).handlePut pb req).1 ∧
      ∀ j, j ≠ i → s'.node addrs j = s.node addrs j :=
  step_submit req.command rfl hstep

/-- The step of a DELETE is its handler. -/
theorem step_delete {i : Nat} {env : Env} {req : DeleteRequest}
    (hstep : (dataSystem pb M).step s (.delete i env req) = some s') :
    s'.node addrs i = ((s.node addrs i).handleDelete pb req).1 ∧
      ∀ j, j ≠ i → s'.node addrs j = s.node addrs j :=
  step_submit req.command rfl hstep

/-! ## Commands -/

/-- The command of a write request. -/
def DataEvent.command : DataEvent → Option RpcMessage
  | .put _ _ req => some req.command
  | .delete _ _ req => some req.command
  | _ => none

/-- Only issued write commands are applied. -/
theorem applied_issued (hrun : Run (dataSystem pb M) h s) {w : Nat} (hw : w ∈ M.ids) {i : Nat}
    {command : Bytes} (hmem : .apply i command ∈ (s.raft.nodes w).calls) :
    ∃ p ∈ h, ∃ cmd, p.2.command = some cmd ∧ pb.serializeRpc cmd = command := by
  obtain ⟨q, hq, j, env, hprop⟩ := applied_proposed (raft_run hrun) hw hmem
  obtain ⟨p, hp, hmap⟩ := List.mem_filterMap.mp hq
  obtain ⟨r, hr, rfl⟩ := Option.map_eq_some_iff.mp hmap
  obtain rfl : r = .propose j env command := hprop
  refine ⟨p, hp, ?_⟩
  cases hevent : p.2 with
  | put id env' req =>
    rw [hevent] at hr
    obtain ⟨-, -, rfl⟩ : id = j ∧ env' = env ∧ pb.serializeRpc req.command = command := by
      simpa [DataEvent.raftEvent] using hr
    exact ⟨_, rfl, rfl⟩
  | delete id env' req =>
    rw [hevent] at hr
    obtain ⟨-, -, rfl⟩ : id = j ∧ env' = env ∧ pb.serializeRpc req.command = command := by
      simpa [DataEvent.raftEvent] using hr
    exact ⟨_, rfl, rfl⟩
  | _ =>
    rw [hevent] at hr
    simp [DataEvent.raftEvent] at hr

end Dkv
