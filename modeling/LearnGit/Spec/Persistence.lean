import LearnGit.Native.Protobuf
import LearnGit.Spec.LogKeys
import LearnGit.Spec.StoredPositions

/-!
# Persisting and recovering

`persistRaftState` writes the whole log and deletes in the same batch every log key it
found before, its own new ones included. So a position of the log is in the engine
only if it was not there before (`StoredPositions`), and recovery gives back the last
state only after an even number of persists of each position in a row before it.

## Key results

- `stoull_toString`: the cells of the term and the vote are read back
- `StoresLog.persist`: the log keys after a persist
- `persist_recover_iff`: when recovery gives back the last state
- `persist_recover_loses`: persisting the same log twice loses it
-/

namespace Dkv

open RaftService OrderedStore

/-! ## Decimal numbers -/

private theorem ofNat_toNat_digit {c : Char} (hc : c.isDigit) :
    Char.ofNat (UInt8.ofNat c.toNat).toNat = c := by
  have hlt : c.toNat < 256 := by
    simp only [Char.isDigit, Bool.and_eq_true, decide_eq_true_eq] at hc
    have hle : c.toNat ≤ 57 := UInt32.le_iff_toNat_le.mp hc.2
    omega
  rw [UInt8.toNat_ofNat', Nat.mod_eq_of_lt hlt, Char.ofNat_toNat]

/-- Digits are neither space nor signs. -/
private theorem readDigits_dropWhile {cs : List Char} (hcs : ∀ c ∈ cs, c.isDigit) :
    readDigits (cs.dropWhile isSpace) = (false, cs) := by
  cases cs with
  | nil => rfl
  | cons d ds =>
    have hd := hcs d List.mem_cons_self
    have hspace : isSpace d = false := by
      simp only [Char.isDigit, Bool.and_eq_true, decide_eq_true_eq] at hd
      have hle : 48 ≤ d.toNat := UInt32.le_iff_toNat_le.mp hd.1
      simp only [isSpace, Bool.or_eq_false_iff, beq_eq_false_iff_ne, Bool.and_eq_false_iff,
        decide_eq_false_iff_not]
      omega
    rw [List.dropWhile_cons_of_neg (by simp [hspace])]
    -- a first character that is a digit rules out both signs
    unfold readDigits
    split
    · next s heq =>
      obtain ⟨rfl, -⟩ := List.cons.inj heq
      exact absurd hd (by decide)
    · next s heq =>
      obtain ⟨rfl, -⟩ := List.cons.inj heq
      exact absurd hd (by decide)
    · rw [List.takeWhile_eq_self_iff.mpr hcs]

/-- `stoull` reads back what `to_string` wrote. -/
theorem stoull_toString {n : Nat} (hn : n < 2 ^ 64) : stoull (toString n) = .ok n := by
  have hdigit : ∀ c ∈ Nat.toDigits 10 n, c.isDigit := fun c hc =>
    Nat.isDigit_of_mem_toDigits (by decide) (by decide) hc
  have hback : (toString n).map (fun b => Char.ofNat b.toNat) = Nat.toDigits 10 n := by
    rw [toString, List.map_map]
    conv_rhs => rw [← List.map_id (Nat.toDigits 10 n)]
    exact List.map_congr_left fun c hc => ofNat_toNat_digit (hdigit c hc)
  unfold stoull
  rw [hback, readDigits_dropWhile hdigit]
  dsimp only
  rw [if_neg Nat.toDigits_ne_nil, Nat.ofDigitChars_ten_toDigits, if_neg (Nat.not_le.mpr hn)]
  rfl

/-! ## What the callbacks write -/

/-- The keys a persist takes for old log keys and deletes. -/
def oldLogKeys (e : RocksEngine) : List Bytes := (scanLog e).kvs.map Prod.fst

theorem inLogRange_of_mem_oldLogKeys {e : RocksEngine} {key : Bytes} (hkey : key ∈ oldLogKeys e) :
    inLogRange key = true :=
  RocksEngine.inRange_of_mem_scan hkey

/-- The scan sees nothing but the log range. -/
theorem scanLog_congr {e e' : RocksEngine}
    (hget : ∀ key, inLogRange key = true → e.get key = e'.get key) : scanLog e = scanLog e' := by
  have hpairs : e.pairs [0xff] [0xff, 0xff] = e'.pairs [0xff] [0xff, 0xff] :=
    OrderedStore.range_congr hget
  rw [scanLog, scanLog, RocksEngine.scan_eq, RocksEngine.scan_eq, hpairs]

/-- A key outside of the range does not matter to the scan. -/
theorem scanLog_put (e : RocksEngine) {key : Bytes} (hkey : inLogRange key = false) (v : Bytes) :
    scanLog (e.put key v).1 = scanLog e := by
  refine scanLog_congr fun k hk => ?_
  rw [RocksEngine.get_put, if_neg]
  rintro rfl
  exact absurd (hkey.symm.trans hk) (by decide)

theorem scanLog_del (e : RocksEngine) {key : Bytes} (hkey : inLogRange key = false) :
    scanLog (e.del key).1 = scanLog e := by
  refine scanLog_congr fun k hk => ?_
  rw [RocksEngine.get_del, if_neg]
  rintro rfl
  exact absurd (hkey.symm.trans hk) (by decide)

/-- The batch of a persist. -/
private theorem persistRaftState_eq (pb : Protobuf) (e : RocksEngine) (currentTerm votedFor : Nat)
    (log : List LogEntry) : persistRaftState pb e currentTerm votedFor log =
      (((e.put termKey (toString currentTerm)).1.put voteKey (toString votedFor)).1.writeBatch
        (log.tail.map fun x => (encodeLogKey x.index, pb.serializeEntry x)) (oldLogKeys e)).1 := by
  rw [persistRaftState, scanLog_put _ (by decide), scanLog_put _ (by decide)]
  rfl

/-- A key that was there before is deleted, even if the batch has just put it. -/
theorem get_persistRaftState_of_old (pb : Protobuf) {e : RocksEngine} (currentTerm votedFor : Nat)
    (log : List LogEntry) {key : Bytes} (hkey : key ∈ oldLogKeys e) :
    (persistRaftState pb e currentTerm votedFor log).get key = none := by
  rw [persistRaftState_eq, RocksEngine.get_writeBatch_of_delete _ _ hkey]

/-- A new log key holds its entry. -/
theorem get_persistRaftState_of_mem (pb : Protobuf) {e : RocksEngine} (currentTerm votedFor : Nat)
    {log : List LogEntry} (hnodup : (log.tail.map fun x => encodeLogKey x.index).Nodup)
    {x : LogEntry} (hx : x ∈ log.tail) (hkey : encodeLogKey x.index ∉ oldLogKeys e) :
    (persistRaftState pb e currentTerm votedFor log).get (encodeLogKey x.index) =
      some (pb.serializeEntry x) := by
  rw [persistRaftState_eq]
  refine RocksEngine.get_writeBatch_of_mem _ hkey ?_ (List.mem_map.mpr ⟨x, hx, rfl⟩)
  rw [List.map_map]
  exact hnodup

/-- All other keys keep their values, the two cells apart. -/
theorem get_persistRaftState_of_notMem (pb : Protobuf) {e : RocksEngine}
    (currentTerm votedFor : Nat) {log : List LogEntry} {key : Bytes} (hkey : key ∉ oldLogKeys e)
    (hlog : ∀ x ∈ log.tail, encodeLogKey x.index ≠ key) :
    (persistRaftState pb e currentTerm votedFor log).get key =
      if voteKey = key then some (toString votedFor)
      else if termKey = key then some (toString currentTerm) else e.get key := by
  rw [persistRaftState_eq, RocksEngine.get_writeBatch_of_notMem _ hkey, RocksEngine.get_put,
    RocksEngine.get_put]
  rw [List.map_map, List.mem_map]
  rintro ⟨x, hx, heq⟩
  exact hlog x hx heq

/-- Applying a PUT. -/
theorem onApply_put (pb : Protobuf) (e : RocksEngine) (req : PutRequest) :
    onApply pb e (pb.serializeRpc req.command) = (e.put req.key req.value).1 := by
  rw [onApply, pb.parse_serializeRpc _ (by rintro n ⟨⟩)]
  rfl

/-- Applying a DELETE. -/
theorem onApply_delete (pb : Protobuf) (e : RocksEngine) (req : DeleteRequest) :
    onApply pb e (pb.serializeRpc req.command) = (e.del req.key).1 := by
  rw [onApply, pb.parse_serializeRpc _ (by rintro n ⟨⟩)]
  rfl

/-! ## The stored log -/

/-- The log keys of the engine hold the entries `entry i` of the positions `i` in `S`. -/
structure StoresLog (pb : Protobuf) (e : RocksEngine) (S : Finset Nat) (entry : Nat → LogEntry) :
    Prop where
  get_iff : ∀ key v, inLogRange key = true →
    (e.get key = some v ↔ ∃ i ∈ S, encodeLogKey i = key ∧ pb.serializeEntry (entry i) = v)
  size_le : ∀ i ∈ S, i ≤ maxLogSize
  index_eq : ∀ i ∈ S, (entry i).index = i
  term_lt : ∀ i ∈ S, (entry i).term < 2 ^ 64

variable {pb : Protobuf} {e : RocksEngine} {S : Finset Nat} {entry : Nat → LogEntry}

private theorem lt_of_le_maxLogSize {i : Nat} (hi : i ≤ maxLogSize) :
    i < 0xff * 2 ^ 56 ∧ i < 2 ^ 64 := by
  unfold maxLogSize at hi
  omega

theorem storesLog_empty (pb : Protobuf) (entry : Nat → LogEntry) :
    StoresLog pb .empty ∅ entry := by
  constructor <;> simp

namespace StoresLog

/-- The log keys in their order. -/
theorem pairs_eq (h : StoresLog pb e S entry) :
    e.pairs [0xff] [0xff, 0xff] =
      (S.sort (· ≤ ·)).map fun i => (encodeLogKey i, pb.serializeEntry (entry i)) :=
  pairs_logKeys (fun i hi => (lt_of_le_maxLogSize (h.size_le i hi)).1) h.get_iff

/-- What persisting and recovering see of the log. -/
theorem scanLog_kvs (h : StoresLog pb e S entry) :
    (scanLog e).kvs = (seenPositions 100000 S).map
      fun i => (encodeLogKey i, pb.serializeEntry (entry i)) := by
  rw [scanLog, RocksEngine.scan_kvs, h.pairs_eq, seenPositions, List.map_take]

theorem oldLogKeys_eq (h : StoresLog pb e S entry) :
    oldLogKeys e = (seenPositions 100000 S).map encodeLogKey := by
  rw [oldLogKeys, h.scanLog_kvs, List.map_map]
  rfl

end StoresLog

/-- What `persistRaftState` reads off a node. -/
structure PersistentState where
  currentTerm : Nat
  votedFor : Nat
  log : List LogEntry
  term_lt : currentTerm < 2 ^ 64
  vote_lt : votedFor < 2 ^ 64
  index_eq : ∀ (i : Nat) (x : LogEntry), log[i]? = some x → x.index = i
  entry_term_lt : ∀ x ∈ log, x.term < 2 ^ 64
  size_le : log.length ≤ maxLogSize

namespace PersistentState

/-- The position of the last entry. -/
def lastIndex (s : PersistentState) : Nat := s.log.length - 1

/-- The entry at a position, or what was there before if the log does not reach it. -/
def entryOr (s : PersistentState) (entry : Nat → LogEntry) (i : Nat) : LogEntry :=
  s.log[i]?.getD (entry i)

theorem mem_tail_log (s : PersistentState) {x : LogEntry} :
    x ∈ s.log.tail ↔ s.log[x.index]? = some x ∧ 1 ≤ x.index := by
  rw [List.mem_iff_getElem?]
  constructor
  · rintro ⟨i, hi⟩
    rw [List.getElem?_tail] at hi
    have hindex := s.index_eq _ _ hi
    rw [hindex]
    exact ⟨hi, by omega⟩
  · rintro ⟨hx, hpos⟩
    refine ⟨x.index - 1, ?_⟩
    rw [List.getElem?_tail, Nat.sub_add_cancel hpos, hx]

theorem map_index_tail (s : PersistentState) :
    s.log.tail.map LogEntry.index = List.range' 1 s.lastIndex := by
  apply List.ext_getElem?
  intro i
  rw [List.getElem?_map, List.getElem?_tail]
  cases hx : s.log[i + 1]? with
  | none =>
    have hlen := List.getElem?_eq_none_iff.mp hx
    rw [Option.map_none, List.getElem?_eq_none]
    rw [List.length_range', lastIndex]
    omega
  | some x =>
    obtain ⟨hlen, -⟩ := List.getElem?_eq_some_iff.mp hx
    rw [Option.map_some, s.index_eq _ _ hx, List.getElem?_range' (by rw [lastIndex]; omega)]
    congr 1
    omega

theorem nodup_tail (s : PersistentState) : s.log.tail.Nodup := by
  have hindex : (s.log.tail.map LogEntry.index).Nodup := by
    rw [s.map_index_tail]
    exact List.nodup_range' ..
  exact hindex.of_map _

/-- The positions of the log behind the sentinel. -/
theorem getElem?_of_mem_Icc (s : PersistentState) {i : Nat} (hi : i ∈ Finset.Icc 1 s.lastIndex) :
    ∃ x, s.log[i]? = some x ∧ x.index = i ∧ x ∈ s.log.tail := by
  rw [Finset.mem_Icc, lastIndex] at hi
  obtain ⟨x, hx⟩ : ∃ x, s.log[i]? = some x := ⟨_, List.getElem?_eq_getElem (by omega)⟩
  obtain rfl := s.index_eq i x hx
  exact ⟨x, hx, rfl, s.mem_tail_log.mpr ⟨hx, hi.1⟩⟩

theorem index_mem_Icc (s : PersistentState) {x : LogEntry} (hx : x ∈ s.log.tail) :
    x.index ∈ Finset.Icc 1 s.lastIndex := by
  obtain ⟨hget, hpos⟩ := s.mem_tail_log.mp hx
  have hlen := (List.getElem?_eq_some_iff.mp hget).1
  rw [Finset.mem_Icc, lastIndex]
  omega

end PersistentState

/-- An entry that a persist leaves behind is one of the log or an old one. -/
private theorem entryOr_cases (s : PersistentState) (hpos : 0 ∉ S) {i : Nat}
    (hi : i ∈ Finset.Icc 1 s.lastIndex ∪ S) (entry : Nat → LogEntry) :
    (∃ x ∈ s.log.tail, x.index = i ∧ s.entryOr entry i = x) ∨
      (i ∈ S ∧ (∀ x ∈ s.log.tail, x.index ≠ i) ∧ s.entryOr entry i = entry i) := by
  by_cases hlog : i ∈ Finset.Icc 1 s.lastIndex
  · obtain ⟨x, hx, hindex, hmem⟩ := s.getElem?_of_mem_Icc hlog
    refine .inl ⟨x, hmem, hindex, ?_⟩
    rw [PersistentState.entryOr, hx, Option.getD_some]
  · have hS := (Finset.mem_union.mp hi).resolve_left hlog
    have hi0 : i ≠ 0 := fun hzero => hpos (hzero ▸ hS)
    rw [Finset.mem_Icc, PersistentState.lastIndex] at hlog
    refine .inr ⟨hS, fun x hx hindex => ?_, ?_⟩
    · have := s.index_mem_Icc hx
      rw [hindex, Finset.mem_Icc, PersistentState.lastIndex] at this
      exact hlog this
    · rw [PersistentState.entryOr, List.getElem?_eq_none (by omega), Option.getD_none]

namespace StoresLog

/-- The positions that a persist may leave behind fit in the log's vector. -/
private theorem union_size_le (h : StoresLog pb e S entry) (s : PersistentState) {i : Nat}
    (hi : i ∈ Finset.Icc 1 s.lastIndex ∪ S) : i ≤ maxLogSize := by
  rcases Finset.mem_union.mp hi with hi | hi
  · have := s.size_le
    rw [Finset.mem_Icc, PersistentState.lastIndex] at hi
    omega
  · exact h.size_le i hi

/-- Such positions have different log keys. -/
private theorem union_inj (h : StoresLog pb e S entry) (s : PersistentState) {i j : Nat}
    (hi : i ∈ Finset.Icc 1 s.lastIndex ∪ S) (hj : j ∈ Finset.Icc 1 s.lastIndex ∪ S)
    (heq : encodeLogKey i = encodeLogKey j) : i = j :=
  encodeLogKey_injective (lt_of_le_maxLogSize (h.union_size_le s hi)).2
    (lt_of_le_maxLogSize (h.union_size_le s hj)).2 heq

private theorem nodup_logKeys (h : StoresLog pb e S entry) (s : PersistentState) :
    (s.log.tail.map fun x => encodeLogKey x.index).Nodup := by
  refine List.Nodup.map_on (fun x hx y hy heq => ?_) s.nodup_tail
  have hindex := h.union_inj s (Finset.mem_union_left S (s.index_mem_Icc hx))
    (Finset.mem_union_left S (s.index_mem_Icc hy)) heq
  have hget := (s.mem_tail_log.mp hx).1
  rw [hindex, (s.mem_tail_log.mp hy).1] at hget
  exact (Option.some.inj hget).symm

/-- What a log key holds after a persist. -/
private theorem persist_get_iff (h : StoresLog pb e S entry) (hpos : 0 ∉ S)
    (s : PersistentState) {key v : Bytes} (hrange : inLogRange key = true) :
    (persistRaftState pb e s.currentTerm s.votedFor s.log).get key = some v ↔
      ∃ i ∈ persistPositions 100000 S s.lastIndex,
        encodeLogKey i = key ∧ pb.serializeEntry (s.entryOr entry i) = v := by
  by_cases hseen : key ∈ oldLogKeys e
  · -- the batch deletes what the scan saw after it has put the log
    rw [get_persistRaftState_of_old pb _ _ _ hseen]
    rw [h.oldLogKeys_eq] at hseen
    refine iff_of_false (Option.some_ne_none v).symm ?_
    rintro ⟨i, hi, rfl, -⟩
    obtain ⟨j, hj, heq⟩ := List.mem_map.mp hseen
    obtain ⟨hi, hnot⟩ := Finset.mem_sdiff.mp hi
    obtain rfl := h.union_inj s (Finset.mem_union_right _ (mem_of_mem_seenPositions hj)) hi heq
    exact absurd (List.mem_toFinset.mpr hj) hnot
  have hstays : ∀ i, encodeLogKey i = key → i ∉ (seenPositions 100000 S).toFinset :=
    fun i heq hmem => hseen
      (h.oldLogKeys_eq ▸ List.mem_map.mpr ⟨i, List.mem_toFinset.mp hmem, heq⟩)
  by_cases hput : ∃ x ∈ s.log.tail, encodeLogKey x.index = key
  · obtain ⟨x, hx, rfl⟩ := hput
    have hlog := Finset.mem_union_left S (s.index_mem_Icc hx)
    have hentry : s.entryOr entry x.index = x := by
      rw [PersistentState.entryOr, (s.mem_tail_log.mp hx).1, Option.getD_some]
    rw [get_persistRaftState_of_mem pb _ _ (h.nodup_logKeys s) hx hseen, Option.some.injEq]
    constructor
    · rintro rfl
      exact ⟨x.index, Finset.mem_sdiff.mpr ⟨hlog, hstays _ rfl⟩, rfl, by rw [hentry]⟩
    · rintro ⟨i, hi, heq, rfl⟩
      obtain rfl := h.union_inj s (Finset.mem_sdiff.mp hi).1 hlog heq
      rw [hentry]
  · -- an old entry that the scan did not reach
    rw [get_persistRaftState_of_notMem pb _ _ hseen (fun x hx heq => hput ⟨x, hx, heq⟩),
      if_neg (ne_of_inLogRange hrange).2, if_neg (ne_of_inLogRange hrange).1,
      h.get_iff key v hrange]
    constructor
    · rintro ⟨i, hi, rfl, rfl⟩
      refine ⟨i, Finset.mem_sdiff.mpr ⟨Finset.mem_union_right _ hi, hstays i rfl⟩, rfl, ?_⟩
      rcases entryOr_cases s hpos (Finset.mem_union_right _ hi) entry with
        ⟨x, hx, rfl, -⟩ | ⟨-, -, heq⟩
      · exact absurd ⟨x, hx, rfl⟩ hput
      · rw [heq]
    · rintro ⟨i, hi, rfl, rfl⟩
      rcases entryOr_cases s hpos (Finset.mem_sdiff.mp hi).1 entry with
        ⟨x, hx, rfl, -⟩ | ⟨hS, -, heq⟩
      · exact absurd ⟨x, hx, rfl⟩ hput
      · exact ⟨i, hS, rfl, by rw [heq]⟩

/-- The log keys after a persist. -/
theorem persist (h : StoresLog pb e S entry) (hpos : 0 ∉ S) (s : PersistentState) :
    StoresLog pb (persistRaftState pb e s.currentTerm s.votedFor s.log)
      (persistPositions 100000 S s.lastIndex) (s.entryOr entry) := by
  constructor
  · exact fun key v hrange => h.persist_get_iff hpos s hrange
  · exact fun i hi => h.union_size_le s (Finset.mem_sdiff.mp hi).1
  · intro i hi
    rcases entryOr_cases s hpos (Finset.mem_sdiff.mp hi).1 entry with
      ⟨x, -, hindex, heq⟩ | ⟨hS, -, heq⟩
    · rw [heq, hindex]
    · rw [heq]
      exact h.index_eq i hS
  · intro i hi
    rcases entryOr_cases s hpos (Finset.mem_sdiff.mp hi).1 entry with
      ⟨x, hx, -, heq⟩ | ⟨hS, -, heq⟩
    · rw [heq]
      exact s.entry_term_lt x (List.mem_of_mem_tail hx)
    · rw [heq]
      exact h.term_lt i hS

end StoresLog

/-! ## Sequences of persists -/

/-- The engine after a sequence of persists into an empty one, the last state first. -/
def persistAll (pb : Protobuf) : List PersistentState → RocksEngine
  | [] => .empty
  | s :: older => persistRaftState pb (persistAll pb older) s.currentTerm s.votedFor s.log

theorem storesLog_persistAll (pb : Protobuf) (states : List PersistentState) :
    ∃ entry, StoresLog pb (persistAll pb states)
      (storedPositions 100000 (states.map PersistentState.lastIndex)) entry := by
  induction states with
  | nil => exact ⟨fun _ => default, storesLog_empty pb _⟩
  | cons s older ih =>
    obtain ⟨entry, h⟩ := ih
    exact ⟨_, h.persist (zero_notMem_storedPositions _ _) s⟩

/-! ## Recovery -/

/-- A log key starts with the byte `0xff`, the cells start with a zero. -/
private theorem encodeLogKey_ne_cells (index : Nat) :
    encodeLogKey index ≠ termKey ∧ encodeLogKey index ≠ voteKey := by
  rw [encodeLogKey_eq]
  exact ⟨fun h => absurd (List.cons.inj h).1 (by decide),
    fun h => absurd (List.cons.inj h).1 (by decide)⟩

private theorem cells_notMem_oldLogKeys (e : RocksEngine) :
    termKey ∉ oldLogKeys e ∧ voteKey ∉ oldLogKeys e :=
  ⟨fun hmem => absurd (inLogRange_of_mem_oldLogKeys hmem) (by decide),
    fun hmem => absurd (inLogRange_of_mem_oldLogKeys hmem) (by decide)⟩

/-- Recovery reads back the two cells and what it sees of the log. -/
theorem recoveredState_persist (h : StoresLog pb e S entry) (hpos : 0 ∉ S) (s : PersistentState) :
    recoveredState pb (persistRaftState pb e s.currentTerm s.votedFor s.log) =
      let log := (seenPositions 100000 (persistPositions 100000 S s.lastIndex)).map
        (s.entryOr entry)
      .ok (if 0 < s.currentTerm ∨ log ≠ [] then some (s.currentTerm, s.votedFor, log)
        else none) := by
  have hterm : (persistRaftState pb e s.currentTerm s.votedFor s.log).get termKey =
      some (toString s.currentTerm) := by
    rw [get_persistRaftState_of_notMem pb _ _ (cells_notMem_oldLogKeys e).1
      fun x _ => (encodeLogKey_ne_cells x.index).1, if_neg (by decide), if_pos rfl]
  have hvote : (persistRaftState pb e s.currentTerm s.votedFor s.log).get voteKey =
      some (toString s.votedFor) := by
    rw [get_persistRaftState_of_notMem pb _ _ (cells_notMem_oldLogKeys e).2
      fun x _ => (encodeLogKey_ne_cells x.index).2, if_pos rfl]
  -- every stored value parses back, for its index and its term fit in 64 bits
  have hlog := h.persist hpos s
  have hparse : (scanLog (persistRaftState pb e s.currentTerm s.votedFor s.log)).kvs.filterMap
      (fun kv => pb.parseEntry kv.2) =
      (seenPositions 100000 (persistPositions 100000 S s.lastIndex)).map (s.entryOr entry) := by
    rw [hlog.scanLog_kvs, List.filterMap_map, ← List.filterMap_eq_map]
    refine List.filterMap_congr fun i hi => ?_
    have hi := mem_of_mem_seenPositions hi
    refine pb.parse_serializeEntry _ (hlog.term_lt i hi) ?_
    rw [hlog.index_eq i hi]
    exact (lt_of_le_maxLogSize (hlog.size_le i hi)).2
  unfold recoveredState
  rw [hterm, hvote, hparse]
  simp only [stoull_toString s.term_lt, stoull_toString s.vote_lt]
  exact (apply_ite Except.ok _ _ _).symm

/-- What is read back is the log exactly if its positions are. -/
private theorem map_entryOr_iff (h : StoresLog pb e S entry) (hpos : 0 ∉ S)
    (s : PersistentState) :
    (seenPositions 100000 (persistPositions 100000 S s.lastIndex)).map (s.entryOr entry) =
      s.log.tail ↔
    seenPositions 100000 (persistPositions 100000 S s.lastIndex) = List.range' 1 s.lastIndex := by
  have hlog := h.persist hpos s
  constructor
  · intro heq
    have hindex := congrArg (List.map LogEntry.index) heq
    rw [s.map_index_tail, List.map_map] at hindex
    rw [← hindex]
    conv_lhs => rw [← List.map_id (seenPositions 100000 _)]
    exact List.map_congr_left fun i hi => (hlog.index_eq i (mem_of_mem_seenPositions hi)).symm
  · intro heq
    rw [heq, ← s.map_index_tail, List.map_map]
    conv_rhs => rw [← List.map_id s.log.tail]
    refine List.map_congr_left fun x hx => ?_
    show s.entryOr entry x.index = x
    rw [PersistentState.entryOr, (s.mem_tail_log.mp hx).1, Option.getD_some]

/-- Recovery after a sequence of persists gives back the last state exactly if there is
    something to recover, the last log has no more than 100000 entries, each of its
    positions was reached by an even number of persists in a row before the last one,
    and the last persist saw all stored positions (or there is no room for others). -/
theorem persist_recover_iff (pb : Protobuf) (last : PersistentState)
    (older : List PersistentState) :
    recoveredState pb (persistAll pb (last :: older)) =
        .ok (some (last.currentTerm, last.votedFor, last.log.tail)) ↔
      (0 < last.currentTerm ∨ last.log.tail ≠ []) ∧ last.lastIndex ≤ 100000 ∧
      (∀ i ∈ Finset.Icc 1 last.lastIndex, Even (older.takeWhile (i ≤ ·.lastIndex)).length) ∧
      (last.lastIndex = 100000 ∨
        (storedPositions 100000 (older.map PersistentState.lastIndex)).card ≤ 100000) := by
  obtain ⟨entry, h⟩ := storesLog_persistAll pb older
  have hpos := zero_notMem_storedPositions 100000 (older.map PersistentState.lastIndex)
  -- a position is stored exactly after an odd number of persists that reach it in a row
  have hparity : ∀ i, 1 ≤ i → i ≤ 100000 →
      (i ∉ storedPositions 100000 (older.map PersistentState.lastIndex) ↔
        Even (older.takeWhile (i ≤ ·.lastIndex)).length) := by
    intro i hi hle
    rw [mem_storedPositions_iff_odd hi hle, Nat.not_odd_iff_even, List.takeWhile_map,
      List.length_map]
    rfl
  rw [persistAll, recoveredState_persist h hpos last]
  dsimp only
  rw [Except.ok.injEq]
  have hfresh : seenPositions 100000 (persistPositions 100000
      (storedPositions 100000 (older.map PersistentState.lastIndex)) last.lastIndex) =
      List.range' 1 last.lastIndex ↔ _ := seen_persistPositions_iff hpos
  rw [← map_entryOr_iff h hpos last] at hfresh
  constructor
  · intro heq
    split at heq
    · next hsome =>
      simp only [Option.some.injEq, Prod.mk.injEq, true_and] at heq
      obtain ⟨hle, hnot, hfull⟩ := hfresh.mp heq
      rw [heq] at hsome
      refine ⟨hsome, hle, fun i hi => ?_, hfull⟩
      have hbounds := Finset.mem_Icc.mp hi
      exact (hparity i hbounds.1 (hbounds.2.trans hle)).mp (hnot i hi)
    · exact absurd heq (Option.some_ne_none _).symm
  · rintro ⟨hsome, hle, heven, hfull⟩
    rw [hfresh.mpr ⟨hle, fun i hi => ?_, hfull⟩, if_pos hsome]
    have hbounds := Finset.mem_Icc.mp hi
    exact (hparity i hbounds.1 (hbounds.2.trans hle)).mpr (heven i hi)

/-- A node of term 1 that voted for itself and has one log entry. -/
def oneEntryState : PersistentState where
  currentTerm := 1
  votedFor := 1
  log := [{}, ⟨1, 1, [97]⟩]
  term_lt := by decide
  vote_lt := by decide
  index_eq i x hx := by
    match i with
    | 0 => rw [← Option.some.inj hx]
    | 1 => rw [← Option.some.inj hx]
    | i + 2 => exact nomatch hx
  entry_term_lt := by decide
  size_le := by decide

/-- Persisting the same log twice leaves no entry to recover. -/
theorem persist_recover_loses :
    ¬ ∀ (pb : Protobuf) (last : PersistentState) (older : List PersistentState),
      recoveredState pb (persistAll pb (last :: older)) =
        .ok (some (last.currentTerm, last.votedFor, last.log.tail)) := by
  intro hall
  have hlost : recoveredState .wire (persistAll .wire [oneEntryState, oneEntryState]) =
      .ok (some (1, 1, [])) := by
    decide +kernel
  have hkept := hall .wire oneEntryState [oneEntryState]
  rw [hlost] at hkept
  exact absurd hkept (by decide)

end Dkv
