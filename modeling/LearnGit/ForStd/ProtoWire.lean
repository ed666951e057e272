import Mathlib

/-!
# The protobuf wire format

A message on the wire is a list of numbered fields, each a varint or a block of
bytes with its length in front. Only these two wire types are modelled, and varints
are not cut off at 64 bits.

## Key results

- `decodeVarint_encodeVarint`: a varint is read back in front of any bytes
- `decodeFields_encodeFields`: decoding undoes encoding
-/

namespace ProtoWire

/-! ## Varints -/

/-- Base 128, least significant group first; all bytes but the last have bit 7 set. -/
def encodeVarintAux : Nat → Nat → List UInt8
  | 0, n => [UInt8.ofNat n]
  | fuel + 1, n =>
    if n < 128 then [UInt8.ofNat n]
    else UInt8.ofNat (n % 128 + 128) :: encodeVarintAux fuel (n / 128)

def encodeVarint (n : Nat) : List UInt8 := encodeVarintAux n.log2 n

def decodeVarint : List UInt8 → Option (Nat × List UInt8)
  | [] => none
  | b :: bs =>
    if b.toNat < 128 then some (b.toNat, bs)
    else (decodeVarint bs).map fun r => (b.toNat % 128 + 128 * r.1, r.2)

private theorem decodeVarint_aux {fuel n : Nat} (hn : n < 128 * 2 ^ fuel) (rest : List UInt8) :
    decodeVarint (encodeVarintAux fuel n ++ rest) = some (n, rest) := by
  induction fuel generalizing n with
  | zero =>
    have hn : n < 128 := by simpa using hn
    have hbyte : (UInt8.ofNat n).toNat = n := by
      rw [UInt8.toNat_ofNat']
      omega
    simp [encodeVarintAux, decodeVarint, hbyte, hn]
  | succ fuel ih =>
    rw [encodeVarintAux]
    split
    · next hlt =>
      have hbyte : (UInt8.ofNat n).toNat = n := by
        rw [UInt8.toNat_ofNat']
        omega
      simp [decodeVarint, hbyte, hlt]
    · -- a byte with the high bit set: seven bits of the number, and more to come
      have hbyte : (UInt8.ofNat (n % 128 + 128)).toNat = n % 128 + 128 := by
        rw [UInt8.toNat_ofNat']
        omega
      have hdiv : n / 128 < 128 * 2 ^ fuel := by
        rw [pow_succ] at hn
        omega
      rw [List.cons_append, decodeVarint, hbyte, if_neg (by omega), ih hdiv]
      simp only [Option.map_some, Option.some.injEq, Prod.mk.injEq, and_true]
      omega

/-- A varint is read back in front of any bytes. -/
theorem decodeVarint_encodeVarint (n : Nat) (rest : List UInt8) :
    decodeVarint (encodeVarint n ++ rest) = some (n, rest) := by
  apply decodeVarint_aux
  have := Nat.lt_log2_self (n := n)
  rw [pow_succ] at this
  omega

theorem encodeVarint_ne_nil (n : Nat) : encodeVarint n ≠ [] := by
  unfold encodeVarint
  cases n.log2 with
  | zero => exact List.cons_ne_nil _ _
  | succ fuel =>
    rw [encodeVarintAux]
    split <;> exact List.cons_ne_nil _ _

/-! ## Fields -/

inductive Value where
  | varint (n : Nat)
  | bytes (b : List UInt8)
deriving DecidableEq, Repr

/-- A field number with its value. -/
abbrev Field := Nat × Value

def encodeField : Field → List UInt8
  | (k, .varint n) => encodeVarint (8 * k) ++ encodeVarint n
  | (k, .bytes b) => encodeVarint (8 * k + 2) ++ (encodeVarint b.length ++ b)

def encodeFields (fs : List Field) : List UInt8 := fs.flatMap encodeField

/-- One field; `none` where the bytes end early or the wire type is another one. -/
def decodeField (bs : List UInt8) : Option (Field × List UInt8) :=
  match decodeVarint bs with
  | none => none
  | some (tag, bs) =>
    match decodeVarint bs with
    | none => none
    | some (n, bs) =>
      if tag % 8 = 0 then some ((tag / 8, .varint n), bs)
      else if tag % 8 = 2 ∧ n ≤ bs.length then some ((tag / 8, .bytes (bs.take n)), bs.drop n)
      else none

def decodeFieldsAux : Nat → List UInt8 → Option (List Field)
  | _, [] => some []
  | 0, _ :: _ => none
  | fuel + 1, bs =>
    match decodeField bs with
    | none => none
    | some (f, rest) => (decodeFieldsAux fuel rest).map (f :: ·)

def decodeFields (bs : List UInt8) : Option (List Field) := decodeFieldsAux bs.length bs

theorem decodeField_encodeField (f : Field) (rest : List UInt8) :
    decodeField (encodeField f ++ rest) = some (f, rest) := by
  obtain ⟨k, n | b⟩ := f
  · simp only [decodeField, encodeField, List.append_assoc, decodeVarint_encodeVarint]
    rw [if_pos (by omega), Nat.mul_div_cancel_left k (by decide)]
  · simp only [decodeField, encodeField, List.append_assoc, decodeVarint_encodeVarint]
    rw [if_neg (by omega), if_pos ⟨by omega, by simp⟩, List.take_left, List.drop_left]
    have : (8 * k + 2) / 8 = k := by omega
    rw [this]

theorem encodeField_length_pos (f : Field) : 0 < (encodeField f).length := by
  have hpos : ∀ n, 0 < (encodeVarint n).length := fun n =>
    List.length_pos_iff.mpr (encodeVarint_ne_nil n)
  obtain ⟨k, n | b⟩ := f <;> simp only [encodeField, List.length_append]
  · have := hpos (8 * k)
    omega
  · have := hpos (8 * k + 2)
    omega

private theorem decodeFieldsAux_encodeFields (fs : List Field) {fuel : Nat}
    (hfuel : (encodeFields fs).length ≤ fuel) :
    decodeFieldsAux fuel (encodeFields fs) = some fs := by
  induction fs generalizing fuel with
  | nil => cases fuel <;> rfl
  | cons f fs ih =>
    -- every field takes at least one byte, so the fuel is enough
    have hpos := encodeField_length_pos f
    have hlen : (encodeFields (f :: fs)).length =
        (encodeField f).length + (encodeFields fs).length := by
      simp [encodeFields]
    have hcons : encodeFields (f :: fs) = encodeField f ++ encodeFields fs := by
      simp [encodeFields]
    cases fuel with
    | zero => omega
    | succ fuel =>
      obtain ⟨b, bs, hbs⟩ : ∃ b bs, encodeFields (f :: fs) = b :: bs := by
        cases hne : encodeFields (f :: fs) with
        | nil => rw [hne] at hlen; simp at hlen; omega
        | cons b bs => exact ⟨b, bs, rfl⟩
      rw [hbs, decodeFieldsAux, ← hbs, hcons, decodeField_encodeField]
      dsimp only
      rw [ih (by omega), Option.map_some]
      exact fun h => nomatch h

/-- Decoding undoes encoding. -/
theorem decodeFields_encodeFields (fs : List Field) :
    decodeFields (encodeFields fs) = some fs :=
  decodeFieldsAux_encodeFields fs (Nat.le_refl _)

/-! ## Reading and writing single fields

A field with its default is not written; of several occurrences the last one counts. -/

def varintField (k n : Nat) : List Field := if n = 0 then [] else [(k, .varint n)]

def bytesField (k : Nat) (b : List UInt8) : List Field := if b = [] then [] else [(k, .bytes b)]

/-- A submessage is written when it is set, also when it is empty. -/
def messageField (k : Nat) : Option (List UInt8) → List Field
  | none => []
  | some b => [(k, .bytes b)]

/-- All values of a repeated field are written, one after the other. -/
def repeatedField (k : Nat) (bs : List (List UInt8)) : List Field := bs.map fun b => (k, .bytes b)

def Value.varint? : Value → Option Nat
  | .varint n => some n
  | .bytes _ => none

def Value.bytes? : Value → Option (List UInt8)
  | .varint _ => none
  | .bytes b => some b

/-- The last value of field `k` that `read` takes. -/
def getField? {α : Type*} (read : Value → Option α) (k : Nat) (fs : List Field) : Option α :=
  (fs.filterMap fun f => if f.1 = k then read f.2 else none).getLast?

/-- All values of field `k` that `read` takes, in order. -/
def getAll {α : Type*} (read : Value → Option α) (k : Nat) (fs : List Field) : List α :=
  fs.filterMap fun f => if f.1 = k then read f.2 else none

def getVarint (k : Nat) (fs : List Field) : Nat := (getField? Value.varint? k fs).getD 0

def getBytes (k : Nat) (fs : List Field) : List UInt8 := (getField? Value.bytes? k fs).getD []

/-- What a `string` field may hold. -/
def isUtf8 (b : List UInt8) : Bool := ByteArray.validateUTF8 ⟨b.toArray⟩

section GetField

variable {α : Type*} (read : Value → Option α) (k k' : Nat)

@[simp] theorem getField?_nil : getField? read k [] = none := rfl

@[simp] theorem getField?_singleton (v : Value) :
    getField? read k [(k', v)] = if k' = k then read v else none := by
  unfold getField?
  by_cases hk : k' = k
  · cases hv : read v <;> simp [hk, hv]
  · simp [hk]

@[simp] theorem getField?_append (fs gs : List Field) :
    getField? read k (fs ++ gs) = (getField? read k gs).or (getField? read k fs) := by
  unfold getField?
  rw [List.filterMap_append, List.getLast?_append]

@[simp] theorem getField?_varintField (n : Nat) :
    getField? read k (varintField k' n) =
      if k' = k ∧ n ≠ 0 then read (.varint n) else none := by
  unfold varintField
  split <;> simp [*]

@[simp] theorem getField?_bytesField (b : List UInt8) :
    getField? read k (bytesField k' b) =
      if k' = k ∧ b ≠ [] then read (.bytes b) else none := by
  unfold bytesField
  split <;> simp [*]

@[simp] theorem getField?_messageField (m : Option (List UInt8)) :
    getField? read k (messageField k' m) =
      if k' = k then m.bind fun b => read (.bytes b) else none := by
  cases m <;> simp [messageField]

@[simp] theorem getAll_append (fs gs : List Field) :
    getAll read k (fs ++ gs) = getAll read k fs ++ getAll read k gs :=
  List.filterMap_append

variable {read k k'}

theorem getAll_eq_nil {fs : List Field} (hfs : ∀ f ∈ fs, f.1 ≠ k) : getAll read k fs = [] := by
  refine List.filterMap_eq_nil_iff.mpr fun f hf => ?_
  rw [if_neg (hfs f hf)]

theorem getField?_eq_none {fs : List Field} (hfs : ∀ f ∈ fs, f.1 ≠ k) :
    getField? read k fs = none := by
  show (getAll read k fs).getLast? = none
  rw [getAll_eq_nil hfs, List.getLast?_nil]

end GetField

theorem mem_varintField {k n : Nat} {f : Field} (hf : f ∈ varintField k n) :
    f = (k, .varint n) := by
  unfold varintField at hf
  split at hf
  · exact absurd hf List.not_mem_nil
  · exact List.mem_singleton.mp hf

theorem mem_bytesField {k : Nat} {b : List UInt8} {f : Field} (hf : f ∈ bytesField k b) :
    f = (k, .bytes b) := by
  unfold bytesField at hf
  split at hf
  · exact absurd hf List.not_mem_nil
  · exact List.mem_singleton.mp hf

theorem mem_messageField {k : Nat} {m : Option (List UInt8)} {f : Field}
    (hf : f ∈ messageField k m) : ∃ b, f = (k, .bytes b) := by
  cases m with
  | none => exact absurd hf List.not_mem_nil
  | some b => exact ⟨b, List.mem_singleton.mp hf⟩

theorem mem_repeatedField {k : Nat} {bs : List (List UInt8)} {f : Field}
    (hf : f ∈ repeatedField k bs) : ∃ b, f = (k, .bytes b) := by
  obtain ⟨b, -, rfl⟩ := List.mem_map.mp hf
  exact ⟨b, rfl⟩

/-- The values of a repeated field are read back. -/
@[simp] theorem getAll_repeatedField (k : Nat) (bs : List (List UInt8)) :
    getAll Value.bytes? k (repeatedField k bs) = bs := by
  unfold getAll repeatedField
  rw [List.filterMap_map]
  simp [Function.comp_def, Value.bytes?]

/-- A number is not a value of length-delimited bytes. -/
@[simp] theorem getAll_varintField (k k' n : Nat) :
    getAll Value.bytes? k (varintField k' n) = [] := by
  refine List.filterMap_eq_nil_iff.mpr fun f hf => ?_
  rw [mem_varintField hf]
  exact ite_self none

theorem getAll_bytesField (k : Nat) (b : List UInt8) :
    getAll Value.bytes? k (bytesField k b) = if b = [] then [] else [b] := by
  unfold bytesField
  split <;> simp [getAll, Value.bytes?]

@[simp] theorem getD_varint (n : Nat) : (if n = 0 then none else some n).getD 0 = n := by
  split <;> simp [*]

@[simp] theorem getD_bytes (b : List UInt8) : (if b = [] then none else some b).getD [] = b := by
  split <;> simp [*]

end ProtoWire
