import LearnGit.ForStd.BigEndian
import LearnGit.ForStd.ChunkedStream
import LearnGit.Native.KvRpc

/-!
# Frames

The codec of `src/common/codec.cpp` and the receive loops of
`src/data_node/data_server.cpp` and `src/data_node/raft_service.cpp`. A frame is the
length of its payload in four bytes, a type byte and the payload. What the servers do with
a payload is a parameter of the loops; it does not look at the buffer.
-/

namespace Dkv

open ChunkedStream

/-- Reduction of a result to `uint32_t`. -/
def u32 (n : Nat) : Nat := n % 2 ^ 32

/-! ## Sending -/

/-- The bytes of a frame. `htonl` takes a `uint32_t`: longer data loses the upper bits of
    its length. -/
def frame (type : UInt8) (data : Bytes) : Bytes := BigEndian.encode 4 data.length ++ type :: data

/-- What `sendRaw` hands to the connection. -/
def LengthPrefixedCodec.sendRaw (data : Bytes) : Bytes := frame 0x00 data

/-- What `send` hands to the connection; `serialize` is `SerializeToString`. -/
def LengthPrefixedCodec.send {μ : Type*} (serialize : μ → Bytes) (msg : μ) : Bytes :=
  sendRaw (serialize msg)

/-- What `sendRaftRpc` hands to the connection of a peer, for a serialized message. -/
def RaftService.sendRaftRpc (data : Bytes) : Bytes := frame 0x01 data

/-! ## Receiving -/

/-- `memcpy` of four bytes and `ntohl`. -/
def lengthField (buf : Bytes) : Nat := BigEndian.decode (buf.take 4)

/-- `retrieveAsString` of muduo's `Buffer`; `none` is the call that its assertion
    `len <= readableBytes()` forbids. -/
def retrieveAsString (buf : Bytes) (len : Nat) : Option (Bytes × Bytes) :=
  if len ≤ buf.length then some (buf.take len, buf.drop len) else none

/-- One turn of a receive loop for frames whose header, length included, has `headerSize`
    bytes: header and payload, or a fault where the loop reads past its buffer. The sum is
    taken in `uint32_t`. -/
def nextFrame (headerSize : Nat) (buf : Bytes) : Decoded UInt8 (Bytes × Bytes) :=
  if buf.length < headerSize then .wait
  else
    let len := lengthField buf
    if buf.length < u32 (headerSize + len) then .wait
    else
      match retrieveAsString (buf.drop headerSize) len with
      | some (payload, rest) => .item (buf.take headerSize, payload) rest
      | none => .fault

/-- A header that announces its payload. -/
def IsFrame (headerSize : Nat) (f : Bytes × Bytes) : Prop :=
  f.1.length = headerSize ∧ lengthField f.1 = f.2.length

/-- A complete header of a frame that is not complete, with a sum that wraps around. -/
def Overlong (headerSize : Nat) (buf : Bytes) : Prop :=
  headerSize ≤ buf.length ∧ buf.length < headerSize + lengthField buf ∧
    2 ^ 32 ≤ headerSize + lengthField buf

theorem lengthField_append {header : Bytes} (hheader : 4 ≤ header.length) (more : Bytes) :
    lengthField (header ++ more) = lengthField header := by
  rw [lengthField, List.take_append_of_le_length hheader, lengthField]

/-- Whatever its arithmetic, the loop takes off frames and nothing else. -/
theorem nextFrame_eq_item_iff {headerSize : Nat} (hheader : 4 ≤ headerSize) {buf rest : Bytes}
    {f : Bytes × Bytes} :
    nextFrame headerSize buf = .item f rest ↔
      IsFrame headerSize f ∧ buf = f.1 ++ (f.2 ++ rest) := by
  obtain ⟨header, payload⟩ := f
  unfold nextFrame
  constructor
  · intro hitem
    split at hitem
    · exact nomatch hitem
    · next hlong =>
      dsimp only at hitem
      split at hitem
      · exact nomatch hitem
      · -- the buffer had what was retrieved, whatever the sum said
        unfold retrieveAsString at hitem
        split at hitem
        · next heq =>
          split at heq
          · next hle =>
            obtain ⟨hf, rfl⟩ := Decoded.item.inj hitem
            obtain ⟨rfl, rfl⟩ := Prod.mk.inj hf
            obtain ⟨rfl, rfl⟩ := Prod.mk.inj (Option.some.inj heq)
            refine ⟨⟨List.length_take_of_le (by omega), ?_⟩, ?_⟩
            · rw [lengthField, List.take_take, Nat.min_eq_left hheader,
                List.length_take_of_le hle, lengthField]
            · rw [List.take_append_drop, List.take_append_drop]
          · exact nomatch heq
        · exact nomatch hitem
  · rintro ⟨⟨hlen, hfield⟩, rfl⟩
    dsimp only at hlen hfield
    subst hlen
    have hfield' : lengthField (header ++ (payload ++ rest)) = payload.length := by
      rw [lengthField_append hheader, hfield]
    -- wrapping around only makes the sum smaller
    have hsum : u32 (header.length + payload.length) ≤ header.length + payload.length :=
      Nat.mod_le _ _
    dsimp only
    rw [hfield', if_neg (by simp), if_neg (by simp only [List.length_append]; omega),
      List.drop_left, retrieveAsString, if_pos (by simp), List.take_left, List.drop_left]
    dsimp only
    rw [List.take_left]

/-- The loop reads past its buffer where the sum wraps around. -/
theorem nextFrame_eq_fault_iff {headerSize : Nat} (hheader : headerSize ≤ 2 ^ 32) {buf : Bytes} :
    nextFrame headerSize buf = .fault ↔ Overlong headerSize buf := by
  -- the length field is read off four bytes at most
  have hfield : lengthField buf < 2 ^ 32 := by
    have hlt := BigEndian.decode_lt (buf.take 4)
    have hle : 256 ^ (buf.take 4).length ≤ 256 ^ 4 :=
      Nat.pow_le_pow_right (by decide) (List.length_take_le _ _)
    exact (hlt.trans_le hle).trans_eq (by decide)
  unfold nextFrame Overlong
  by_cases hshort : buf.length < headerSize
  · rw [if_pos hshort]
    exact iff_of_false nofun (by omega)
  · rw [if_neg hshort]
    dsimp only
    by_cases hwrap : 2 ^ 32 ≤ headerSize + lengthField buf
    · -- the wrapped sum is below the size of the header
      have hu32 : u32 (headerSize + lengthField buf) = headerSize + lengthField buf - 2 ^ 32 := by
        rw [u32, Nat.mod_eq_sub_mod hwrap, Nat.mod_eq_of_lt (by omega)]
      rw [hu32, if_neg (by omega), retrieveAsString, List.length_drop]
      split
      · next heq =>
        split at heq
        · exact iff_of_false nofun (by omega)
        · exact nomatch heq
      · next heq =>
        split at heq
        · exact nomatch heq
        · exact iff_of_true rfl (by omega)
    · -- without wrapping around the check is exact
      have hu32 : u32 (headerSize + lengthField buf) = headerSize + lengthField buf :=
        Nat.mod_eq_of_lt (by omega)
      rw [hu32]
      by_cases hlt : buf.length < headerSize + lengthField buf
      · rw [if_pos hlt]
        exact iff_of_false nofun fun h => hwrap h.2.2
      · rw [if_neg hlt, retrieveAsString, List.length_drop, if_pos (by omega)]
        exact iff_of_false nofun fun h => hwrap h.2.2

/-- The turns of a receive loop. -/
def frameDecoder (headerSize : Nat) (hheader : 4 ≤ headerSize) :
    Decoder UInt8 (Bytes × Bytes) where
  next := nextFrame headerSize
  next_nil := if_pos (Nat.lt_of_lt_of_le (by decide) hheader)
  rest_lt hitem := by
    obtain ⟨⟨hlen, -⟩, rfl⟩ := (nextFrame_eq_item_iff hheader).mp hitem
    simp only [List.length_append]
    omega
  next_append more hitem := by
    obtain ⟨hframe, rfl⟩ := (nextFrame_eq_item_iff hheader).mp hitem
    refine (nextFrame_eq_item_iff hheader).mpr ⟨hframe, ?_⟩
    rw [List.append_assoc, List.append_assoc]

/-- Frames with a type byte: the header has five bytes. -/
def typedFrames : Decoder UInt8 (Bytes × Bytes) := frameDecoder 5 (by decide)

/-- `LengthPrefixedCodec::onMessage`, for which the length is the whole header. It hands its
    payloads to nobody: `cuts` lists the header and the payload of all that it takes off. -/
def LengthPrefixedCodec.onMessage (cuts : List (Bytes × Bytes)) (buf : Bytes) :
    List (Bytes × Bytes) × Option Bytes :=
  (frameDecoder 4 (by decide)).run (fun cuts f => cuts ++ [f]) cuts buf

section Servers

variable {ε σ : Type*}

/-- `DataServer::onMessage`. `handle` parses and dispatches a payload by its type byte;
    `env` is what the surroundings are when the bytes arrive. -/
def DataServer.onMessage (handle : ε → σ → UInt8 → Bytes → σ) (env : ε) (s : σ) (buf : Bytes) :
    σ × Option Bytes :=
  typedFrames.run (fun s f => handle env s (f.1.getD 4 0) f.2) s buf

/-- `RaftService::onPeerMessage`, which skips the type byte. -/
def RaftService.onPeerMessage (handle : ε → σ → Bytes → σ) (env : ε) (s : σ) (buf : Bytes) :
    σ × Option Bytes :=
  typedFrames.run (fun s f => handle env s f.2) s buf

end Servers

end Dkv
