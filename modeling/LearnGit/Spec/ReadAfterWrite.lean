import LearnGit.Native.Protobuf
import LearnGit.Spec.AckedWrites
import LearnGit.Spec.Persistence

/-!
# Reading acknowledged writes

A read goes to the engine of the node that handles it, a write gets there when the
node applies its command. So the answer to a GET shows an acknowledged PUT exactly if
that node has applied it, provided that no persist has deleted the key since: keys in
the log range are deleted by every persist that finds them.

## Key results

- `get_runCalls`: the value of a key that one PUT writes
- `appliedAndKept_iff`: for keys outside of the log range, applied is enough
- `acked_put_visible_iff`, `acked_put_invisible`: when a GET shows an acknowledged PUT
-/

namespace Dkv

open Transition RaftService

variable {pb : Protobuf} {M : Membership} {addrs : Nat → Nat → Option Bytes}
  {h : List (DataCluster × DataEvent)} {s : DataCluster}

/-- The keys Raft itself writes to. -/
def IsMetadataKey (key : Bytes) : Prop :=
  key = termKey ∨ key = voteKey ∨ ∃ index, key = encodeLogKey index

/-! ## Callbacks and one key -/

/-- A persist deletes the keys it takes for log keys and leaves all other user keys alone. -/
theorem get_persistRaftState_user (pb : Protobuf) (e : RocksEngine) (currentTerm votedFor : Nat)
    (log : List LogEntry) {key : Bytes} (hkey : ¬ IsMetadataKey key) :
    (persistRaftState pb e currentTerm votedFor log).get key =
      if key ∈ oldLogKeys e then none else e.get key := by
  simp only [IsMetadataKey, not_or, not_exists] at hkey
  obtain ⟨hterm, hvote, hindex⟩ := hkey
  split
  · next hold => exact get_persistRaftState_of_old pb _ _ _ hold
  · next hnot =>
    rw [get_persistRaftState_of_notMem pb _ _ hnot fun x _ heq => hindex x.index heq.symm,
      if_neg (Ne.symm hvote), if_neg (Ne.symm hterm)]

/-- The node has applied the command of the PUT, and no persist since then found the
    key of the PUT among the keys it takes for log keys. -/
def AppliedAndKept (pb : Protobuf) (put : PutRequest) (calls : List Call) : Prop :=
  ∃ before index after, calls = before ++ .apply index (pb.serializeRpc put.command) :: after ∧
    ∀ mid currentTerm votedFor log rest,
      after = mid ++ .persist currentTerm votedFor log :: rest →
      put.key ∉ oldLogKeys (runCalls pb .empty
        (before ++ .apply index (pb.serializeRpc put.command) :: mid))

theorem appliedAndKept_concat {put : PutRequest} {calls : List Call} {c : Call} :
    AppliedAndKept pb put (calls ++ [c]) ↔
      (∃ index, c = .apply index (pb.serializeRpc put.command)) ∨
      (AppliedAndKept pb put calls ∧ ∀ currentTerm votedFor log,
        c = .persist currentTerm votedFor log → put.key ∉ oldLogKeys (runCalls pb .empty calls)) := by
  constructor
  · rintro ⟨before, index, after, hsplit, hkept⟩
    -- the last call is the write itself or comes after it
    rcases List.eq_nil_or_concat after with rfl | ⟨after, c', rfl⟩
    · obtain ⟨-, hc⟩ := List.append_inj' hsplit rfl
      exact .inl ⟨index, List.singleton_inj.mp hc⟩
    · rw [List.concat_eq_append, ← List.cons_append, ← List.append_assoc] at hsplit
      obtain ⟨rfl, hc⟩ := List.append_inj' hsplit rfl
      obtain rfl := List.singleton_inj.mp hc
      refine .inr ⟨⟨before, index, after, rfl, ?_⟩, ?_⟩
      · rintro mid currentTerm votedFor log rest rfl
        exact hkept mid currentTerm votedFor log (rest ++ [c]) (by simp)
      · rintro currentTerm votedFor log rfl
        exact hkept after currentTerm votedFor log [] (by simp)
  · rintro (⟨index, rfl⟩ | ⟨⟨before, index, after, rfl, hkept⟩, hc⟩)
    · refine ⟨calls, index, [], rfl, fun mid currentTerm votedFor log rest hnil => ?_⟩
      simp at hnil
    · refine ⟨before, index, after ++ [c], by simp, ?_⟩
      intro mid currentTerm votedFor log rest heq
      rcases List.eq_nil_or_concat rest with rfl | ⟨rest, c', rfl⟩
      · obtain ⟨rfl, hlast⟩ := List.append_inj' heq rfl
        exact hc currentTerm votedFor log (List.singleton_inj.mp hlast)
      · rw [List.concat_eq_append, ← List.cons_append, ← List.append_assoc] at heq
        obtain ⟨heq, -⟩ := List.append_inj' heq rfl
        exact hkept mid currentTerm votedFor log rest heq

/-- For a key outside of the log range it is enough that the command was applied. -/
theorem appliedAndKept_iff {put : PutRequest} (hkey : inLogRange put.key = false)
    {calls : List Call} : AppliedAndKept pb put calls ↔
      ∃ index, .apply index (pb.serializeRpc put.command) ∈ calls := by
  constructor
  · rintro ⟨before, index, after, rfl, -⟩
    exact ⟨index, List.mem_append_right _ List.mem_cons_self⟩
  · rintro ⟨index, hmem⟩
    obtain ⟨before, after, rfl⟩ := List.append_of_mem hmem
    refine ⟨before, index, after, rfl, fun mid currentTerm votedFor log rest _ hold => ?_⟩
    exact absurd (hkey.symm.trans (inLogRange_of_mem_oldLogKeys hold)) (by decide)

section Value

variable {put : PutRequest}

/-- The command is the PUT's or does not touch the key of the PUT. -/
def OnlyWrittenBy (pb : Protobuf) (put : PutRequest) (command : Bytes) : Prop :=
  command = pb.serializeRpc put.command ∨
    ∀ e, (onApply pb e command).get put.key = e.get put.key

/-- What one callback does to the key: it writes the value, deletes the key or leaves it. -/
private theorem get_runCall (hkey : ¬ IsMetadataKey put.key) (e : RocksEngine) {c : Call}
    (honly : ∀ index command, c = .apply index command → OnlyWrittenBy pb put command) :
    ((∃ index, c = .apply index (pb.serializeRpc put.command)) ∧
      (runCall pb e c).get put.key = some put.value) ∨
    ((∃ currentTerm votedFor log, c = .persist currentTerm votedFor log ∧
      put.key ∈ oldLogKeys e) ∧ (runCall pb e c).get put.key = none) ∨
    ((∀ index, c ≠ .apply index (pb.serializeRpc put.command)) ∧
      (∀ currentTerm votedFor log, c = .persist currentTerm votedFor log →
        put.key ∉ oldLogKeys e) ∧ (runCall pb e c).get put.key = e.get put.key) := by
  cases c with
  | send peerId msg =>
    exact .inr (.inr ⟨fun _ heq => (nomatch heq), fun _ _ _ heq => (nomatch heq), rfl⟩)
  | persist currentTerm votedFor log =>
    have hget : (runCall pb e (.persist currentTerm votedFor log)).get put.key = _ :=
      get_persistRaftState_user pb e currentTerm votedFor log hkey
    -- the keys of the old log are deleted, whoever wrote them
    by_cases hold : put.key ∈ oldLogKeys e
    · rw [if_pos hold] at hget
      exact .inr (.inl ⟨⟨_, _, _, rfl, hold⟩, hget⟩)
    · rw [if_neg hold] at hget
      exact .inr (.inr ⟨fun _ heq => (nomatch heq), fun _ _ _ _ => hold, hget⟩)
  | apply index command =>
    by_cases hput : command = pb.serializeRpc put.command
    · subst hput
      refine .inl ⟨⟨index, rfl⟩, ?_⟩
      show (onApply pb e (pb.serializeRpc put.command)).get put.key = some put.value
      rw [onApply_put, RocksEngine.get_put, if_pos rfl]
    · have hkeep := (honly index command rfl).resolve_left hput
      refine .inr (.inr ⟨fun _ heq => hput (Call.apply.inj heq).2,
        fun _ _ _ heq => (nomatch heq), hkeep e⟩)

/-- The value of a key that no applied command but one PUT writes. -/
theorem get_runCalls (hkey : ¬ IsMetadataKey put.key) {calls : List Call}
    (honly : ∀ index command, .apply index command ∈ calls → OnlyWrittenBy pb put command) :
    (AppliedAndKept pb put calls ∧ (runCalls pb .empty calls).get put.key = some put.value) ∨
      (¬ AppliedAndKept pb put calls ∧ (runCalls pb .empty calls).get put.key = none) := by
  -- from the last call: it decides, or it leaves what was there before
  induction calls using List.reverseRecOn with
  | nil =>
    refine .inr ⟨?_, RocksEngine.get_empty _⟩
    rintro ⟨before, index, after, hnil, -⟩
    exact absurd hnil (by simp)
  | append_singleton calls c ih =>
    have ih := ih fun index command hmem => honly index command (List.mem_append_left _ hmem)
    rw [appliedAndKept_concat, runCalls_append]
    rcases get_runCall hkey (runCalls pb .empty calls) fun index command heq => honly index command
      (List.mem_append_right _ (heq ▸ List.mem_singleton_self c)) with
      ⟨happly, hget⟩ | ⟨⟨currentTerm, votedFor, log, heq, hold⟩, hget⟩ | ⟨hne, hpersist, hget⟩
    · exact .inl ⟨.inl happly, hget⟩
    · refine .inr ⟨?_, hget⟩
      rintro (⟨index, happly⟩ | ⟨-, hkept⟩)
      · exact nomatch heq.symm.trans happly
      · exact hkept currentTerm votedFor log heq hold
    · rcases ih with ⟨hkept, hvalue⟩ | ⟨hnot, hvalue⟩
      · exact .inl ⟨.inr ⟨hkept, hpersist⟩, hget.trans hvalue⟩
      · refine .inr ⟨?_, hget.trans hvalue⟩
        rintro (⟨index, happly⟩ | ⟨hkept, -⟩)
        · exact hne index happly
        · exact hnot hkept

end Value

/-! ## Reads -/

/-- The key a write request writes to. -/
def DataEvent.writeKey : DataEvent → Option Bytes
  | .put _ _ req => some req.key
  | .delete _ _ req => some req.key
  | _ => none

/-- The step answers the PUT with OK. -/
def AcksPut (pb : Protobuf) (addrs : Nat → Nat → Option Bytes) (put : PutRequest)
    (s : DataCluster) : DataEvent → Prop
  | .put i _ req => req = put ∧ ((s.node addrs i).handlePut pb req).2.errorCode = .ok
  | _ => False

instance AcksPut.decidable (put : PutRequest) (s : DataCluster) :
    (e : DataEvent) → Decidable (AcksPut pb addrs put s e)
  | .put _ _ _ => inferInstanceAs (Decidable (_ ∧ _))
  | .tick _ _ | .deliver _ _ | .lose _ | .delete _ _ _ | .get _ _ | .scan _ _ => instDecidableFalse

/-- The PUT was answered OK in the history, and no other write of its key was issued. -/
def OnlyAckedPut (pb : Protobuf) (addrs : Nat → Nat → Option Bytes)
    (h : List (DataCluster × DataEvent)) (put : PutRequest) : Prop :=
  ∃ after p before, h = after ++ p :: before ∧ AcksPut pb addrs put p.1 p.2 ∧
    ∀ q ∈ after ++ before, q.2.writeKey ≠ some put.key

/-- Issued commands other than the PUT do not touch its key. -/
private theorem OnlyAckedPut.onlyWrittenBy {put : PutRequest} (hacked : OnlyAckedPut pb addrs h put)
    {p : DataCluster × DataEvent} (hp : p ∈ h) {cmd : RpcMessage}
    (hcmd : p.2.command = some cmd) : OnlyWrittenBy pb put (pb.serializeRpc cmd) := by
  obtain ⟨after, q, before, rfl, hacks, hothers⟩ := hacked
  have hp : p = q ∨ p ∈ after ++ before := by
    simp only [List.mem_append, List.mem_cons] at hp ⊢
    tauto
  rcases hp with rfl | hp
  · -- the PUT itself
    obtain ⟨c, e⟩ := p
    cases e with
    | put i env req =>
      obtain ⟨rfl, -⟩ := hacks
      obtain rfl := Option.some.inj hcmd
      exact .inl rfl
    | _ => exact hacks.elim
  have hkey := hothers p hp
  right
  intro e
  cases hevent : p.2 with
  | put j env' req =>
    rw [hevent] at hcmd hkey
    obtain rfl := Option.some.inj hcmd
    rw [onApply_put, RocksEngine.get_put, if_neg fun heq => hkey (congrArg some heq)]
  | delete j env' req =>
    rw [hevent] at hcmd hkey
    obtain rfl := Option.some.inj hcmd
    rw [onApply_delete, RocksEngine.get_del, if_neg fun heq => hkey (congrArg some heq)]
  | _ =>
    -- no other event issues a command
    rw [hevent] at hcmd
    exact absurd hcmd.symm (Option.some_ne_none _)

/-- A GET that is answered from the local engine shows what is stored there. -/
private theorem handleGet_eq_iff (d : DataNode) {get : GetRequest} {value : Bytes}
    (hreply : (d.handleGet get).errorCode = .ok ∨ (d.handleGet get).errorCode = .keyNotFound) :
    ((d.handleGet get).errorCode = .ok ∧ (d.handleGet get).value = value) ↔
      d.engine.get get.key = some value := by
  unfold DataNode.handleGet at hreply ⊢
  split at hreply
  · exact absurd hreply (by simp)
  · cases d.engine.get get.key <;> simp

/-- In Raft mode a GET that is answered with data or KEY_NOT_FOUND shows an acknowledged
    PUT, the only write of its key, exactly if the node that handles it has applied the
    PUT and has not deleted its key in a persist since. -/
theorem acked_put_visible_iff (hrun : Run (dataSystem pb M) h s) {put : PutRequest}
    (hkey : ¬ IsMetadataKey put.key) (hacked : OnlyAckedPut pb addrs h put) {j : Nat}
    (hj : j ∈ M.ids) {get : GetRequest} (hget : get.key = put.key)
    (hreply : ((s.node addrs j).handleGet get).errorCode = .ok ∨
      ((s.node addrs j).handleGet get).errorCode = .keyNotFound) :
    (((s.node addrs j).handleGet get).errorCode = .ok ∧
      ((s.node addrs j).handleGet get).value = put.value) ↔
    AppliedAndKept pb put (s.raft.nodes j).calls := by
  have honly : ∀ index command, .apply index command ∈ (s.raft.nodes j).calls →
      OnlyWrittenBy pb put command := by
    intro index command hmem
    obtain ⟨p, hp, cmd, hcmd, rfl⟩ := applied_issued hrun hj hmem
    exact hacked.onlyWrittenBy hp hcmd
  rw [handleGet_eq_iff _ hreply, hget]
  show (s.engines j).get put.key = some put.value ↔ _
  rw [engine_eq hrun hj]
  rcases get_runCalls hkey honly with ⟨hkept, hvalue⟩ | ⟨hnot, hvalue⟩
  · exact iff_of_true hvalue hkept
  · exact iff_of_false (by rw [hvalue]; exact (Option.some_ne_none _).symm) hnot

private theorem onlyAckedPut_of_index {put : PutRequest} {k : Nat}
    (hacks : h[k]?.any fun p => decide (AcksPut pb addrs put p.1 p.2))
    (hothers : ∀ q ∈ h.take k ++ h.drop (k + 1), q.2.writeKey ≠ some put.key) :
    OnlyAckedPut pb addrs h put := by
  obtain ⟨p, hp, hacks⟩ := (Option.any_eq_true _ _).mp hacks
  exact ⟨_, p, _, split_at hp, of_decide_eq_true hacks, hothers⟩

private theorem putKV_key : ¬ IsMetadataKey putKV.key := by
  rintro (hterm | hvote | ⟨index, hindex⟩)
  · exact absurd hterm (by decide)
  · exact absurd hvote (by decide)
  · rw [encodeLogKey_eq] at hindex
    exact absurd (List.cons.inj hindex).1 (by decide)

/-- Node 1 acknowledges a PUT, replicates it to node 2, commits and applies it. -/
def ackedThenApplied : List DataEvent :=
  [.tick 1 (atTime 200),
    .deliver ⟨1, 2, .requestVote ⟨1, 1, 0, 0⟩⟩ (atTime 210),
    .deliver ⟨2, 1, .requestVoteResp ⟨1, true⟩⟩ (atTime 220),
    .put 1 (atTime 230) putKV,
    .deliver ⟨1, 2, .appendEntries ⟨1, 1, 0, 0, 0,
      [⟨1, 1, Protobuf.wire.serializeRpc putKV.command⟩]⟩⟩ (atTime 240),
    .deliver ⟨2, 1, .appendEntriesResp ⟨1, true, 1⟩⟩ (atTime 250),
    .tick 1 (atTime 260)]

theorem ackedThenApplied_runs : (dataSchedule .wire 3 ackedThenApplied).isSome := by
  decide +kernel

theorem acked_put_visible_ackedThenApplied :
    let s := ((dataSchedule .wire 3 ackedThenApplied).get ackedThenApplied_runs).2
    ((s.node noAddrs 1).handleGet { key := [107] }).errorCode = .ok ∧
      ((s.node noAddrs 1).handleGet { key := [107] }).value = [118] := by
  have hacked : OnlyAckedPut .wire noAddrs
      ((dataSchedule .wire 3 ackedThenApplied).get ackedThenApplied_runs).1 putKV :=
    onlyAckedPut_of_index (k := 3) (by decide +kernel) (by decide +kernel)
  refine (acked_put_visible_iff (dataSchedule_run ackedThenApplied_runs) putKV_key hacked
    (j := 1) (by decide) rfl (by decide +kernel)).mpr ?_
  exact (appliedAndKept_iff (by decide)).mpr ⟨1, by decide +kernel⟩

/-- Node 1 acknowledges a PUT that it has not applied yet. -/
def ackedNotApplied : List DataEvent :=
  [.tick 1 (atTime 200),
    .deliver ⟨1, 2, .requestVote ⟨1, 1, 0, 0⟩⟩ (atTime 210),
    .deliver ⟨2, 1, .requestVoteResp ⟨1, true⟩⟩ (atTime 220),
    .put 1 (atTime 230) putKV]

theorem ackedNotApplied_runs : (dataSchedule .wire 3 ackedNotApplied).isSome := by
  decide +kernel

/-- The leader that acknowledged a PUT answers KEY_NOT_FOUND right after it. -/
theorem acked_put_invisible :
    ¬ ∀ (pb : Protobuf) (M : Membership) (addrs : Nat → Nat → Option Bytes)
      (h : List (DataCluster × DataEvent)) (s : DataCluster), Run (dataSystem pb M) h s →
      ∀ put, ¬ IsMetadataKey put.key → OnlyAckedPut pb addrs h put → ∀ j ∈ M.ids,
      ∀ get : GetRequest, get.key = put.key →
      ((s.node addrs j).handleGet get).errorCode = .ok ∨
        ((s.node addrs j).handleGet get).errorCode = .keyNotFound →
      ((s.node addrs j).handleGet get).errorCode = .ok ∧
        ((s.node addrs j).handleGet get).value = put.value := by
  intro hall
  have hvisible := hall .wire _ noAddrs _ _ (dataSchedule_run ackedNotApplied_runs) putKV
    putKV_key (onlyAckedPut_of_index (k := 0) (by decide +kernel) (by decide +kernel)) 1
    (by decide) { key := [107] } rfl (by decide +kernel)
  exact absurd hvisible.1 (by decide +kernel)

end Dkv
