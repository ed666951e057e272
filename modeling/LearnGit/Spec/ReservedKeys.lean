import LearnGit.Spec.ReadAfterWrite

/-!
# Client keys and Raft's own keys

User pairs share the key space of the engine with the term, the vote and the log, and
nothing checks the key of a client request. An applied write leaves what recovery would
read alone if its key is neither of the two cells nor in the log range; on every other
key a client can change it.

## Key results

- `recoveredState_eq`: recovery is a function of three values read from the engine
- `raftReads_put`, `raftReads_del`: writes outside of Raft's keys leave them alone
- `raftReads_put_iff`: these are all keys with that property
- `raftReads_apply`: runs whose clients keep away from Raft's keys
-/

namespace Dkv

open Transition RaftService OrderedStore

variable {pb : Protobuf} {M : Membership} {h : List (DataCluster × DataEvent)}
  {s : DataCluster}

/-! ## What recovery reads -/

/-- A cell of the engine as a number, 0 where it is absent. -/
def readCell (e : RocksEngine) (key : Bytes) : Except StdException Nat :=
  match e.get key with
  | some v => stoull v
  | none => pure 0

/-- The term, the vote and the log that `recoverRaftState` reads from the engine. -/
def raftReads (pb : Protobuf) (e : RocksEngine) :
    Except StdException Nat × Except StdException Nat × List LogEntry :=
  (readCell e termKey, readCell e voteKey, (scanLog e).kvs.filterMap fun kv => pb.parseEntry kv.2)

/-- Recovery depends on nothing else. -/
theorem recoveredState_eq (pb : Protobuf) (e : RocksEngine) :
    recoveredState pb e = (raftReads pb e).1.bind fun term =>
      (raftReads pb e).2.1.bind fun votedFor =>
        if term > 0 ∨ (raftReads pb e).2.2 ≠ []
          then .ok (some (term, votedFor, (raftReads pb e).2.2)) else .ok none := by
  unfold recoveredState raftReads readCell
  cases e.get termKey <;> cases e.get voteKey <;> rfl

/-- The keys that recovery reads: the two cells and the log range. -/
def isRaftKey (key : Bytes) : Bool := key == termKey || key == voteKey || inLogRange key

private theorem isRaftKey_eq_false {key : Bytes} :
    isRaftKey key = false ↔ key ≠ termKey ∧ key ≠ voteKey ∧ inLogRange key = false := by
  simp [isRaftKey, and_assoc]

theorem readCell_congr {e e' : RocksEngine} {key : Bytes} (hget : e.get key = e'.get key) :
    readCell e key = readCell e' key := by
  rw [readCell, readCell, hget]

/-! ## Writes -/

/-- A PUT on any other key changes nothing that recovery reads. -/
theorem raftReads_put (pb : Protobuf) (e : RocksEngine) {key : Bytes}
    (hkey : isRaftKey key = false) (value : Bytes) :
    raftReads pb (e.put key value).1 = raftReads pb e := by
  obtain ⟨hterm, hvote, hlog⟩ := isRaftKey_eq_false.mp hkey
  have hcell : ∀ cell, key ≠ cell → readCell (e.put key value).1 cell = readCell e cell :=
    fun cell hne => readCell_congr (by rw [RocksEngine.get_put, if_neg hne])
  rw [raftReads, raftReads, hcell _ hterm, hcell _ hvote, scanLog_put e hlog]

/-- A DELETE on any other key changes nothing that recovery reads. -/
theorem raftReads_del (pb : Protobuf) (e : RocksEngine) {key : Bytes}
    (hkey : isRaftKey key = false) : raftReads pb (e.del key).1 = raftReads pb e := by
  obtain ⟨hterm, hvote, hlog⟩ := isRaftKey_eq_false.mp hkey
  have hcell : ∀ cell, key ≠ cell → readCell (e.del key).1 cell = readCell e cell :=
    fun cell hne => readCell_congr (by rw [RocksEngine.get_del, if_neg hne])
  rw [raftReads, raftReads, hcell _ hterm, hcell _ hvote, scanLog_del e hlog]

/-- What a scan of the log range sees of a lone pair in it. -/
private theorem scanLog_lone {key : Bytes} (hkey : inLogRange key = true) (value : Bytes) :
    (scanLog (RocksEngine.empty.put key value).1).kvs = [(key, value)] := by
  have hpairs : (RocksEngine.empty.put key value).1.pairs [0xff] [0xff, 0xff] =
      [(key, value)] := by
    refine range_eq_of_ascending (List.pairwise_singleton _ _) fun k v => ?_
    have hget := RocksEngine.get_put .empty key value k
    rw [RocksEngine.get_empty] at hget
    have hget : (RocksEngine.empty.put key value).1.db[k]? =
      if key = k then some value else none := hget
    rw [hget, List.mem_singleton, Prod.mk.injEq]
    constructor
    · rintro ⟨rfl, rfl⟩
      exact ⟨if_pos rfl, hkey⟩
    · rintro ⟨hsome, -⟩
      split at hsome
      · next heq => exact ⟨heq.symm, (Option.some.inj hsome).symm⟩
      · exact nomatch hsome
  rw [scanLog, RocksEngine.scan_kvs, hpairs]
  rfl

/-- The keys on which no PUT, whatever its value and the engine, changes what recovery
    reads are exactly those that recovery does not read. -/
theorem raftReads_put_iff (pb : Protobuf) (key : Bytes) :
    (∀ (e : RocksEngine) (value : Bytes), raftReads pb (e.put key value).1 = raftReads pb e) ↔
      isRaftKey key = false := by
  refine ⟨fun hsame => isRaftKey_eq_false.mpr ⟨?_, ?_, ?_⟩, fun hkey e => raftReads_put pb e hkey⟩
  · rintro rfl
    have hterm := congrArg Prod.fst (hsame .empty (toString 1))
    simp only [raftReads, readCell, RocksEngine.get_put, RocksEngine.get_empty, if_true,
      stoull_toString (show 1 < 2 ^ 64 by decide)] at hterm
    exact absurd hterm (by decide)
  · rintro rfl
    have hvote := congrArg (Prod.fst ∘ Prod.snd) (hsame .empty (toString 1))
    simp only [raftReads, readCell, RocksEngine.get_put, RocksEngine.get_empty, if_true,
      Function.comp_apply, stoull_toString (show 1 < 2 ^ 64 by decide)] at hvote
    exact absurd hvote (by decide)
  · by_contra hrange
    rw [Bool.not_eq_false] at hrange
    -- a serialized entry under such a key is read back as a log entry
    have hlog := congrArg (Prod.snd ∘ Prod.snd) (hsame .empty (pb.serializeEntry default))
    have hempty : (scanLog .empty).kvs = [] := by
      rw [scanLog, RocksEngine.scan_kvs]
      rfl
    simp only [raftReads, Function.comp_apply, scanLog_lone hrange, hempty, List.filterMap_cons,
      pb.parse_serializeEntry default (by decide) (by decide), List.filterMap_nil] at hlog
    exact List.cons_ne_nil _ _ hlog

/-! ## Runs -/

/-- The step is no write request for one of Raft's keys. -/
def DataEvent.SparesRaft (e : DataEvent) : Prop := e.writeKey.any isRaftKey = false

instance DataEvent.SparesRaft.decidable (e : DataEvent) : Decidable e.SparesRaft :=
  inferInstanceAs (Decidable (_ = _))

/-- Applying the command of a request that spares Raft's keys. -/
private theorem raftReads_onApply {e : DataEvent} {cmd : RpcMessage} (hcmd : e.command = some cmd)
    (hspares : e.SparesRaft) (engine : RocksEngine) :
    raftReads pb (onApply pb engine (pb.serializeRpc cmd)) = raftReads pb engine := by
  cases e with
  | put i env req =>
    obtain rfl := Option.some.inj hcmd
    rw [onApply_put]
    exact raftReads_put pb engine hspares req.value
  | delete i env req =>
    obtain rfl := Option.some.inj hcmd
    rw [onApply_delete]
    exact raftReads_del pb engine hspares
  | _ => exact nomatch hcmd

/-- In every run whose write requests spare Raft's keys, recovery would read the same
    right after each apply of a command as right before it. -/
theorem raftReads_apply (hrun : Run (dataSystem pb M) h s)
    (hspares : StepsMeet (fun _ _ e => e.SparesRaft) h) {i : Nat} (hi : i ∈ M.ids)
    {before after : List Call} {index : Nat} {command : Bytes}
    (hcalls : (s.raft.nodes i).calls = before ++ .apply index command :: after) :
    raftReads pb (runCalls pb .empty (before ++ [.apply index command])) =
      raftReads pb (runCalls pb .empty before) := by
  have hmem : .apply index command ∈ (s.raft.nodes i).calls := by
    rw [hcalls]
    exact List.mem_append_right _ List.mem_cons_self
  obtain ⟨p, hp, cmd, hcmd, rfl⟩ := applied_issued hrun hi hmem
  obtain ⟨-, hevent⟩ := hspares.of_mem hp
  rw [runCalls_append]
  exact raftReads_onApply hcmd hevent _

/-- The PUT of `"k"` in this run is applied by node 1 after five other callbacks. -/
theorem raftReads_apply_ackedThenApplied :
    let s := ((dataSchedule .wire 3 ackedThenApplied).get ackedThenApplied_runs).2
    let before := (s.raft.nodes 1).calls.take ((s.raft.nodes 1).calls.length - 1)
    let command := Protobuf.wire.serializeRpc putKV.command
    raftReads .wire (runCalls .wire .empty (before ++ [.apply 1 command])) =
      raftReads .wire (runCalls .wire .empty before) :=
  raftReads_apply (dataSchedule_run ackedThenApplied_runs) (by decide +kernel) (i := 1) (by decide)
    (show _ = _ ++ Call.apply 1 _ :: [] by decide +kernel)

/-- A PUT of `"9"` under the key of the vote. -/
def putVote : PutRequest := { key := voteKey, value := [57] }

/-- Node 1 of two voted for itself, leads, and replicates and applies a PUT on the cell
    of its vote. -/
def voteOverwritten : List DataEvent :=
  [.tick 1 (atTime 200),
    .deliver ⟨1, 2, .requestVote ⟨1, 1, 0, 0⟩⟩ (atTime 210),
    .deliver ⟨2, 1, .requestVoteResp ⟨1, true⟩⟩ (atTime 220),
    .put 1 (atTime 230) putVote,
    .deliver ⟨1, 2, .appendEntries ⟨1, 1, 0, 0, 0,
      [⟨1, 1, Protobuf.wire.serializeRpc putVote.command⟩]⟩⟩ (atTime 240),
    .deliver ⟨2, 1, .appendEntriesResp ⟨1, true, 1⟩⟩ (atTime 250),
    .tick 1 (atTime 260)]

theorem voteOverwritten_runs : (dataSchedule .wire 2 voteOverwritten).isSome := by
  decide +kernel

/-- The vote that recovery would read changes from 1 to 9. -/
theorem raftReads_changed :
    ¬ ∀ (pb : Protobuf) (M : Membership) (h : List (DataCluster × DataEvent)) (s : DataCluster),
      Run (dataSystem pb M) h s → ∀ i ∈ M.ids, ∀ before index command after,
        (s.raft.nodes i).calls = before ++ .apply index command :: after →
        raftReads pb (runCalls pb .empty (before ++ [.apply index command])) =
          raftReads pb (runCalls pb .empty before) := by
  intro hall
  let n := ((dataSchedule .wire 2 voteOverwritten).get voteOverwritten_runs).2.raft.nodes 1
  have hsame := hall .wire _ _ _ (dataSchedule_run voteOverwritten_runs) 1 (by decide)
    (n.calls.take (n.calls.length - 1)) 1 (Protobuf.wire.serializeRpc putVote.command) []
    (by decide +kernel)
  exact absurd (congrArg (Prod.fst ∘ Prod.snd) hsame) (by decide +kernel)

end Dkv
