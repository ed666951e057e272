import LearnGit.Spec.ReservedKeys

/-!
# The store that clients see

The applied writes alone make an ordered map, the abstract store of a data node. The
engine holds this map and, under keys that begin with `0x00` or `0xff`, what Raft has
persisted. A SCAN walks over both: it answers with the first pairs of the abstract store
only if its limit is used up before it reaches one of Raft's keys.

## Key results

- `clientStore_get`: the abstract store is the engine without Raft's keys
- `scan_clientStore_iff`: when a SCAN at a leader answers from the abstract store
- `scan_leaks`: a SCAN without bounds answers with the term
-/

namespace Dkv

open Transition RaftService OrderedStore

variable {pb : Protobuf}

/-! ## The abstract store -/

/-- An applied write request. -/
inductive Write where
  | put (req : PutRequest)
  | delete (req : DeleteRequest)

namespace Write

def key : Write → Bytes
  | .put req => req.key
  | .delete req => req.key

/-- The command a write is proposed as. -/
def command : Write → RpcMessage
  | .put req => req.command
  | .delete req => req.command

/-- The meaning of a write. -/
def run (store : Std.ExtTreeMap Bytes Bytes) : Write → Std.ExtTreeMap Bytes Bytes
  | .put req => store.insert req.key req.value
  | .delete req => store.erase req.key

end Write

/-- The map obtained by folding the writes in order. -/
def clientStore (ws : List Write) : Std.ExtTreeMap Bytes Bytes := ws.foldl Write.run ∅

/-- The command a callback applies. -/
def Call.command? : Call → Option Bytes
  | .apply _ command => some command
  | _ => none

/-- The callbacks apply the writes `ws`, in this order. -/
def AppliesWrites (pb : Protobuf) (calls : List Call) (ws : List Write) : Prop :=
  calls.filterMap Call.command? = ws.map fun w => pb.serializeRpc w.command

/-- A key that begins with the byte of the cells or of the log. -/
def isReservedKey (key : Bytes) : Bool := key.head? == some 0x00 || key.head? == some 0xff

theorem isReservedKey_of_inLogRange {key : Bytes} (hkey : inLogRange key = true) :
    isReservedKey key = true := by
  cases key with
  | nil => exact absurd hkey (by decide)
  | cons b key =>
    by_cases hb : b = 0xff
    · subst hb
      rfl
    · -- below `0xff` a first byte is before the range
      have hlt : compare b 0xff = .lt := by
        rw [BigEndian.compare_byte]
        refine Nat.compare_eq_lt.mpr ?_
        have hne : b.toNat ≠ 255 := fun heq => hb (UInt8.toNat_inj.mp heq)
        have := b.toNat_lt
        show b.toNat < 255
        omega
      have hin : inLogRange (b :: key) = false := by
        simp [inLogRange, inRange, hlt]
      exact absurd (hkey.symm.trans hin) (by decide)

/-- Clients' keys are none of Raft's. -/
private theorem ne_of_isReservedKey {key : Bytes} (hkey : isReservedKey key = false) :
    termKey ≠ key ∧ voteKey ≠ key ∧ ∀ index, encodeLogKey index ≠ key := by
  refine ⟨?_, ?_, fun index => ?_⟩
  · rintro rfl
    exact absurd hkey (by decide)
  · rintro rfl
    exact absurd hkey (by decide)
  · rintro rfl
    exact absurd hkey (by simp [isReservedKey, encodeLogKey])

/-! ## Engine and abstract store -/

/-- The engine holds the store under the clients' keys, and the store nothing else. -/
structure Holds (e : RocksEngine) (store : Std.ExtTreeMap Bytes Bytes) : Prop where
  client : ∀ key, isReservedKey key = false → store[key]? = e.get key
  reserved : ∀ key, isReservedKey key = true → store[key]? = none

namespace Holds

variable {e : RocksEngine} {store : Std.ExtTreeMap Bytes Bytes}

theorem empty : Holds .empty ∅ :=
  ⟨fun key _ => by rw [RocksEngine.get_empty, Std.ExtTreeMap.getElem?_empty],
    fun key _ => Std.ExtTreeMap.getElem?_empty⟩

/-- A persist touches no client key. -/
theorem persist (hholds : Holds e store) (currentTerm votedFor : Nat) (log : List LogEntry) :
    Holds (persistRaftState pb e currentTerm votedFor log) store := by
  refine ⟨fun key hkey => ?_, hholds.reserved⟩
  obtain ⟨hterm, hvote, hlog⟩ := ne_of_isReservedKey hkey
  have hnew : key ∉ oldLogKeys e := fun hold =>
    absurd (hkey.symm.trans (isReservedKey_of_inLogRange (inLogRange_of_mem_oldLogKeys hold)))
      (by decide)
  rw [hholds.client key hkey, get_persistRaftState_of_notMem pb _ _ hnew fun x _ => hlog x.index,
    if_neg hvote, if_neg hterm]

/-- Applying a write is its meaning on the store. -/
theorem write (hholds : Holds e store) {w : Write} (hw : isReservedKey w.key = false) :
    Holds (onApply pb e (pb.serializeRpc w.command)) (w.run store) := by
  cases w with
  | put req =>
    have hw : isReservedKey req.key = false := hw
    rw [show pb.serializeRpc (Write.command (.put req)) = pb.serializeRpc req.command from rfl,
      onApply_put]
    constructor
    · intro key hkey
      simp only [Write.run, Std.ExtTreeMap.getElem?_insert, RocksEngine.get_put,
        Std.LawfulEqOrd.compare_eq_iff_eq, hholds.client key hkey]
    · intro key hkey
      -- the written key is a client's
      have hne : req.key ≠ key := fun heq => absurd (hw.symm.trans (heq ▸ hkey)) (by decide)
      simp only [Write.run, Std.ExtTreeMap.getElem?_insert, Std.LawfulEqOrd.compare_eq_iff_eq,
        if_neg hne, hholds.reserved key hkey]
  | delete req =>
    have hw : isReservedKey req.key = false := hw
    rw [show pb.serializeRpc (Write.command (.delete req)) = pb.serializeRpc req.command from rfl,
      onApply_delete]
    constructor
    · intro key hkey
      simp only [Write.run, Std.ExtTreeMap.getElem?_erase, RocksEngine.get_del,
        Std.LawfulEqOrd.compare_eq_iff_eq, hholds.client key hkey]
    · intro key hkey
      simp only [Write.run, Std.ExtTreeMap.getElem?_erase, hholds.reserved key hkey, ite_self]

/-- The abstract store is the part of the engine under the clients' keys. -/
theorem part (hholds : Holds e store) (key : Bytes) :
    store[key]? = if !isReservedKey key then e.db[key]? else none := by
  cases hkey : isReservedKey key with
  | true => exact hholds.reserved key hkey
  | false => exact hholds.client key hkey

end Holds

/-- The refinement over whole runs: callbacks in any order take the engine along with the
    abstract store. -/
theorem clientStore_get {calls : List Call} {ws : List Write} (happlies : AppliesWrites pb calls ws)
    (hkeys : ∀ w ∈ ws, isReservedKey w.key = false) :
    Holds (runCalls pb .empty calls) (clientStore ws) := by
  -- the last callback runs on what the earlier ones left
  induction calls using List.reverseRecOn generalizing ws with
  | nil =>
    have hnil : ws = [] := List.map_eq_nil_iff.mp happlies.symm
    rw [hnil]
    exact Holds.empty
  | append_singleton calls c ih =>
    rw [AppliesWrites, List.filterMap_append] at happlies
    rw [runCalls_append]
    cases c with
    | send peerId msg =>
      rw [show [Call.send peerId msg].filterMap Call.command? = [] from rfl,
        List.append_nil] at happlies
      exact ih happlies hkeys
    | persist currentTerm votedFor log =>
      rw [show [Call.persist currentTerm votedFor log].filterMap Call.command? = [] from rfl,
        List.append_nil] at happlies
      exact (ih happlies hkeys).persist currentTerm votedFor log
    | apply index command =>
      obtain ⟨ws, last, rfl, hws, hlast⟩ := List.map_eq_append_iff.mp happlies.symm
      obtain ⟨w, rfl, rfl⟩ := List.map_eq_singleton_iff.mp hlast
      rw [clientStore, List.foldl_append]
      have hheld := ih hws.symm fun w hw => hkeys w (List.mem_append_left _ hw)
      exact hheld.write (hkeys w (List.mem_append_right _ List.mem_cons_self))

/-! ## Scans -/

/-- A SCAN at a leader answers from the engine. -/
theorem DataNode.handleScan_leader {d : DataNode} {n : RaftNode} (hraft : d.raft = some n)
    (hleader : n.state = .leader) (req : ScanRequest) : (d.handleScan req).errorCode = .ok ∧
      (d.handleScan req).kvs = (d.engine.pairs req.startKey req.endKey).take req.limit.toNat := by
  have hredirect : d.redirect = none := by
    rw [DataNode.redirect, hraft]
    exact if_pos hleader
  rw [DataNode.handleScan, hredirect]
  exact ⟨rfl, RocksEngine.scan_kvs _ _ _ _⟩

/-- A SCAN at a leader, whose engine began empty and saw persists and applied client writes
    in any order, answers with the first pairs of the abstract store in its range exactly
    if before each of Raft's keys in the range there are enough of them. -/
theorem scan_clientStore_iff {calls : List Call} {ws : List Write}
    (happlies : AppliesWrites pb calls ws) (hkeys : ∀ w ∈ ws, isReservedKey w.key = false)
    {d : DataNode} {n : RaftNode} (hraft : d.raft = some n) (hleader : n.state = .leader)
    (hengine : d.engine = runCalls pb .empty calls) (req : ScanRequest) :
    (d.handleScan req).kvs = (range (clientStore ws) req.startKey
        (RocksEngine.stopKey req.endKey)).take req.limit.toNat ↔
      ∀ key, (d.engine.get key).isSome → isReservedKey key = true →
        inRange req.startKey (RocksEngine.stopKey req.endKey) key = true →
        req.limit.toNat ≤ (range (clientStore ws) req.startKey (some key)).length := by
  have hholds := clientStore_get happlies hkeys
  rw [← hengine] at hholds
  rw [(DataNode.handleScan_leader hraft hleader req).2, RocksEngine.pairs,
    take_range_eq_iff (P := fun key => !isReservedKey key) hholds.part]
  constructor
  · exact fun hall key hsome hkey hin => hall key hsome hin (by rw [hkey]; rfl)
  · exact fun hall key hsome hin hkey => hall key hsome (by simpa using hkey) hin

/-- Node 1 leads after one applied PUT, and a SCAN of the range from `"a"` to `"z"` shows it. -/
theorem scan_ackedThenApplied :
    let s := ((dataSchedule .wire 3 ackedThenApplied).get ackedThenApplied_runs).2
    ((s.node noAddrs 1).handleScan ⟨[97], [122], 10, 0⟩).kvs = [([107], [118])] := by
  intro s
  have hrun := dataSchedule_run ackedThenApplied_runs
  have happlies : AppliesWrites .wire (s.raft.nodes 1).calls [.put putKV] := by
    unfold AppliesWrites
    decide +kernel
  have hscan := (scan_clientStore_iff happlies (by decide) (d := s.node noAddrs 1) rfl
    (by decide +kernel) (engine_eq hrun (by decide)) ⟨[97], [122], 10, 0⟩).mpr ?_
  · rw [hscan]
    decide +kernel
  · -- no key of the range begins with `0x00` or `0xff`
    intro key _ hkey hin
    cases key with
    | nil => exact absurd hkey (by decide)
    | cons b key =>
      have hb : b = 0x00 ∨ b = 0xff := by simpa [isReservedKey] using hkey
      have hlow : compare (0x00 : UInt8) 97 = .lt := by decide
      have hhigh : compare (0xff : UInt8) 122 = .gt := by decide
      rcases hb with rfl | rfl
      · exact absurd hin (by simp [inRange, hlow])
      · exact absurd hin (by simp [inRange, below, RocksEngine.stopKey, hhigh])

/-- Node 1 of two has just been elected. No command was applied, and a SCAN without bounds
    answers with its term and its vote. -/
def justElected : List DataEvent :=
  [.tick 1 (atTime 200),
    .deliver ⟨1, 2, .requestVote ⟨1, 1, 0, 0⟩⟩ (atTime 210),
    .deliver ⟨2, 1, .requestVoteResp ⟨1, true⟩⟩ (atTime 220)]

theorem justElected_runs : (dataSchedule .wire 2 justElected).isSome := by decide +kernel

theorem scan_leaks :
    ¬ ∀ (pb : Protobuf) (calls : List Call) (ws : List Write), AppliesWrites pb calls ws →
      (∀ w ∈ ws, isReservedKey w.key = false) → ∀ (d : DataNode) (n : RaftNode),
      d.raft = some n → n.state = .leader → d.engine = runCalls pb .empty calls →
      ∀ req : ScanRequest, (d.handleScan req).kvs = (range (clientStore ws) req.startKey
        (RocksEngine.stopKey req.endKey)).take req.limit.toNat := by
  intro hall
  let s := ((dataSchedule .wire 2 justElected).get justElected_runs).2
  have hscan := hall .wire (s.raft.nodes 1).calls [] (by unfold AppliesWrites; decide +kernel)
    (by decide) (s.node noAddrs 1) _ rfl (by decide +kernel)
    (engine_eq (dataSchedule_run justElected_runs) (by decide)) ⟨[], [], 10, 0⟩
  exact absurd (congrArg List.length hscan) (by decide +kernel)

end Dkv
