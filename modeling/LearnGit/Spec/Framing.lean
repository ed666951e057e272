import LearnGit.Native.PdServer
import LearnGit.Native.Protobuf

/-!
# Frames on a connection

TCP cuts the bytes of a connection anywhere. The receive loops still take off the frames
that were sent, one by one, and wait on the part of a frame that has arrived. What they
rely on is that header and length add up in `uint32_t`: a peer that announces 4 GiB makes
the sum wrap around, and the loop takes off a payload that is not there.

## Key results

- `receive_frames`: every way of cutting the frames of the two senders is undone
- `understands_sender_iff`: the receive loop of the codec itself undoes none of its sends
- `endsOverlong_iff`: the loops read past the buffer on overlong frames only
- `reads_within_buffer_iff`: the arrivals on which no loop does
-/

namespace Dkv

open ChunkedStream Decoder

/-! ## Frames of the two senders -/

/-- A frame as one of the two senders wrote it. -/
inductive SentFrame where
  | client (data : Bytes)
  | raft (data : Bytes)
deriving DecidableEq, Repr

namespace SentFrame

def bytes : SentFrame → Bytes
  | .client data => LengthPrefixedCodec.sendRaw data
  | .raft data => RaftService.sendRaftRpc data

def msgType : SentFrame → UInt8
  | .client _ => 0x00
  | .raft _ => 0x01

def payload : SentFrame → Bytes
  | .client data => data
  | .raft data => data

/-- The five bytes in front of the payload. -/
def header (f : SentFrame) : Bytes := BigEndian.encode 4 f.payload.length ++ [f.msgType]

theorem bytes_eq (f : SentFrame) : f.bytes = f.header ++ f.payload := by
  cases f <;> simp [bytes, header, payload, msgType, LengthPrefixedCodec.sendRaw,
    RaftService.sendRaftRpc, frame]

theorem header_getD (f : SentFrame) : f.header.getD 4 0 = f.msgType := by
  rw [header, List.getD_append_right _ _ _ _ (by simp)]
  simp

/-- A payload whose length fits is announced. -/
theorem isFrame (f : SentFrame) (hsize : f.payload.length < 2 ^ 32) :
    IsFrame 5 (f.header, f.payload) := by
  have hlen : (BigEndian.encode 4 f.payload.length).length = 4 := BigEndian.length_encode _ _
  refine ⟨by simp [header], ?_⟩
  show lengthField (BigEndian.encode 4 f.payload.length ++ [f.msgType]) = _
  rw [lengthField_append hlen.ge, lengthField, List.take_of_length_le hlen.le]
  exact BigEndian.decode_encode (hsize.trans_eq (by decide))

theorem nextFrame_bytes (f : SentFrame) (hsize : f.payload.length < 2 ^ 32) (rest : Bytes) :
    nextFrame 5 (f.bytes ++ rest) = .item (f.header, f.payload) rest :=
  (nextFrame_eq_item_iff (by decide)).mpr
    ⟨f.isFrame hsize, by rw [bytes_eq, List.append_assoc]⟩

/-- No part of a frame is overlong: its length field, once it is there, is that of the
    payload. -/
theorem nextFrame_part (f : SentFrame) (hsize : f.payload.length ≤ 2 ^ 31 - 1) {part : Bytes}
    (hpart : part <+: f.bytes) : nextFrame 5 part ≠ .fault := by
  intro hfault
  obtain ⟨hheader, -, hwrap⟩ := (nextFrame_eq_fault_iff (by decide)).mp hfault
  obtain ⟨(hlen : f.header.length = 5), (hfield : lengthField f.header = f.payload.length)⟩ :=
    f.isFrame (by omega)
  obtain ⟨more, hmore⟩ := hpart
  have hsame : lengthField part = f.payload.length := by
    rw [← lengthField_append (by omega) more, hmore, bytes_eq,
      lengthField_append (show 4 ≤ f.header.length by omega), hfield]
  omega

/-- What the receive loops make of frames, and of parts of them. -/
theorem decodes {frames : List SentFrame} (hsize : ∀ f ∈ frames, f.payload.length ≤ 2 ^ 31 - 1) :
    (∀ f ∈ frames, ∀ rest, typedFrames.next (f.bytes ++ rest) =
      .item (f.header, f.payload) rest) ∧
    ∀ f ∈ frames, ∀ part, part <+: f.bytes → typedFrames.next part ≠ .fault := by
  refine ⟨fun f hf rest => ?_, fun f hf part hpart => f.nextFrame_part (hsize f hf) hpart⟩
  have := hsize f hf
  exact f.nextFrame_bytes (by omega) rest

/-- A receive loop takes the whole frames off a part of a stream and keeps the rest. -/
theorem run_part {σ : Type*} (handle : σ → Bytes × Bytes → σ) {frames : List SentFrame}
    (hsize : ∀ f ∈ frames, f.payload.length ≤ 2 ^ 31 - 1) {buf chunk later : Bytes}
    (hstream : buf ++ (chunk ++ later) = frames.flatMap SentFrame.bytes) :
    ∃ k part, (∀ s, typedFrames.run handle s (buf ++ chunk) =
        (((frames.take k).map fun f => (f.header, f.payload)).foldl handle s, some part)) ∧
      part ++ later = (frames.drop k).flatMap SentFrame.bytes := by
  obtain ⟨hencode, hfault⟩ := decodes hsize
  have hpre : buf ++ chunk <+: frames.flatMap SentFrame.bytes := by
    rw [← hstream, ← List.append_assoc]
    exact List.prefix_append _ _
  obtain ⟨k, part, hcut⟩ := exists_cut hpre
  refine ⟨k, part, fun s => Prod.ext ?_ ?_, ?_⟩
  · rw [run_fst, hcut.split_eq hencode]
  · refine (run_eq_some_iff s).mpr ⟨by rw [hcut.split_eq hencode], ?_⟩
    rw [hcut.split_eq hencode]
    -- what is left is a part of one frame
    rcases hcut.2 with ⟨-, rfl⟩ | ⟨f, hf, hpart, -⟩
    · exact fun heq => nomatch typedFrames.next_nil.symm.trans heq
    · exact hfault f (List.mem_of_getElem? hf) part hpart
  · have hsplit := List.take_append_drop k frames
    rw [← List.append_assoc, hcut.1, ← hsplit, List.flatMap_append, hsplit,
      List.append_assoc] at hstream
    exact List.append_cancel_left hstream

end SentFrame

/-! ## Receiving -/

section Receive

variable {ε : Type*} {frames : List SentFrame} {arrivals : List (ε × Bytes)}

/-- Logging what is handled lists it. -/
private theorem foldl_log {α β : Type*} (f : α → β) (xs : List α) (acc : List β) :
    xs.foldl (fun acc x => acc ++ [f x]) acc = acc ++ xs.map f := by
  induction xs generalizing acc with
  | nil => rw [List.foldl_nil, List.map_nil, List.append_nil]
  | cons x xs ih =>
    rw [List.foldl_cons, ih, List.map_cons, List.append_assoc, List.singleton_append]

/-- The payloads with their types that `DataServer::onMessage` takes off, and its buffer. -/
def DataServer.extracted (arrivals : List (ε × Bytes)) :
    List (UInt8 × Bytes) × Option Bytes :=
  connection (DataServer.onMessage fun _ acc type payload => acc ++ [(type, payload)]) [] arrivals

/-- The payloads that `RaftService::onPeerMessage` takes off, and its buffer. -/
def RaftService.extracted (arrivals : List (ε × Bytes)) : List Bytes × Option Bytes :=
  connection (RaftService.onPeerMessage fun _ acc payload => acc ++ [payload]) [] arrivals

private theorem extracted_cut (hsize : ∀ f ∈ frames, f.payload.length ≤ 2 ^ 31 - 1)
    (hpre : stream arrivals <+: frames.flatMap SentFrame.bytes) {n : Nat} {part : Bytes}
    (hcut : Cut SentFrame.bytes frames n part (stream arrivals)) :
    DataServer.extracted arrivals =
        ((frames.take n).map fun f => (f.msgType, f.payload), some part) ∧
      RaftService.extracted arrivals = ((frames.take n).map SentFrame.payload, some part) := by
  obtain ⟨hencode, hfault⟩ := SentFrame.decodes hsize
  constructor
  · refine (connection_cut hencode (fun _ _ _ => rfl) hfault hpre hcut).trans ?_
    rw [foldl_log, List.nil_append, List.map_map]
    simp only [Function.comp_def, SentFrame.header_getD]
  · refine (connection_cut hencode (fun _ _ _ => rfl) hfault hpre hcut).trans ?_
    rw [foldl_log, List.nil_append, List.map_map]
    rfl

/-- However the bytes of the frames are cut into arrivals, the two loops take off these
    frames, and after every arrival their buffers hold what has arrived of the next one. -/
theorem receive_frames (hsize : ∀ f ∈ frames, f.payload.length ≤ 2 ^ 31 - 1)
    (hcut : stream arrivals = frames.flatMap SentFrame.bytes) :
    DataServer.extracted arrivals = (frames.map fun f => (f.msgType, f.payload), some []) ∧
    RaftService.extracted arrivals = (frames.map SentFrame.payload, some []) ∧
    ∀ pre, pre <+: arrivals → ∃ n part, Cut SentFrame.bytes frames n part (stream pre) ∧
      DataServer.extracted pre =
        ((frames.take n).map fun f => (f.msgType, f.payload), some part) ∧
      RaftService.extracted pre = ((frames.take n).map SentFrame.payload, some part) := by
  -- all of the stream is a cut behind the last frame
  have hwhole : Cut SentFrame.bytes frames frames.length [] (stream arrivals) := by
    refine ⟨?_, .inl ⟨rfl, rfl⟩⟩
    rw [hcut, List.take_length, List.append_nil]
  have hall := extracted_cut hsize ⟨[], by rw [hcut, List.append_nil]⟩ hwhole
  rw [List.take_length] at hall
  refine ⟨hall.1, hall.2, ?_⟩
  rintro pre ⟨more, rfl⟩
  have hpre : stream pre <+: frames.flatMap SentFrame.bytes := by
    rw [← hcut, stream, stream, List.flatMap_append]
    exact List.prefix_append _ _
  obtain ⟨n, part, hpart⟩ := exists_cut hpre
  exact ⟨n, part, hpart, extracted_cut hsize hpre hpart⟩

end Receive

/-- A frame of each sender, cut in both headers. -/
def cutInHeaders : List (Unit × Bytes) :=
  [((), [0, 0]), ((), [0, 2, 0, 8, 4, 0]), ((), [0, 0, 0, 1])]

theorem receive_frames_cutInHeaders :
    let frames : List SentFrame := [.client [8, 4], .raft []]
    DataServer.extracted cutInHeaders =
      (frames.map fun f => (f.msgType, f.payload), some []) ∧
    RaftService.extracted cutInHeaders = (frames.map SentFrame.payload, some []) ∧
    ∀ pre, pre <+: cutInHeaders → ∃ n part, Cut SentFrame.bytes frames n part (stream pre) ∧
      DataServer.extracted pre =
        ((frames.take n).map fun f => (f.msgType, f.payload), some part) ∧
      RaftService.extracted pre = ((frames.take n).map SentFrame.payload, some part) :=
  receive_frames (by decide) (by decide +kernel)

/-! ## The codec's own receiver -/

section OwnReceiver

variable {μ : Type*}

/-- However the bytes of the messages are cut into arrivals, the codec's own loop takes off
    what was sent, message by message, and extracts what was serialized. -/
def UnderstandsSender (serialize : μ → Bytes) (msgs : List μ) : Prop :=
  ∀ arrivals : List (Unit × Bytes),
    stream arrivals = msgs.flatMap (LengthPrefixedCodec.send serialize) →
    let cuts := (connection (fun _ => LengthPrefixedCodec.onMessage) [] arrivals).1
    cuts.map (fun f => f.1 ++ f.2) = msgs.map (LengthPrefixedCodec.send serialize) ∧
      cuts.map Prod.snd = msgs.map serialize

/-- No piece with a length in front is a sent message: the type byte is not counted. -/
theorem append_ne_send {f : Bytes × Bytes} (hframe : IsFrame 4 f) (serialize : μ → Bytes)
    (msg : μ) : f.1 ++ f.2 ≠ LengthPrefixedCodec.send serialize msg := by
  intro heq
  obtain ⟨hheader, hfield⟩ := hframe
  have hlen := congrArg List.length heq
  have hsame : lengthField (f.1 ++ f.2) = (serialize msg).length % 256 ^ 4 := by
    have htake : (BigEndian.encode 4 (serialize msg).length).take 4 =
        BigEndian.encode 4 (serialize msg).length :=
      List.take_of_length_le (BigEndian.length_encode _ _).le
    rw [heq, LengthPrefixedCodec.send, LengthPrefixedCodec.sendRaw, frame,
      lengthField_append (BigEndian.length_encode _ _).ge, lengthField, htake,
      BigEndian.decode_encode_mod]
  rw [lengthField_append hheader.ge, hfield] at hsame
  simp only [LengthPrefixedCodec.send, LengthPrefixedCodec.sendRaw, frame, List.length_append,
    List.length_cons, BigEndian.length_encode] at hlen
  have hle := Nat.mod_le (serialize msg).length (256 ^ 4)
  omega

/-- The codec's loop takes off pieces with their length in front, and nothing else. -/
private theorem isFrame_of_mem_cuts {buf : Bytes} {f : Bytes × Bytes}
    (hf : f ∈ (LengthPrefixedCodec.onMessage [] buf).1) : IsFrame 4 f := by
  have hsound : ∀ bs f rest, (frameDecoder 4 (by decide)).next bs = .item f rest →
      IsFrame 4 f ∧ bs = (fun f : Bytes × Bytes => f.1 ++ f.2) f ++ rest := by
    intro bs f rest hitem
    obtain ⟨hframe, rfl⟩ := (nextFrame_eq_item_iff (by decide)).mp hitem
    exact ⟨hframe, (List.append_assoc _ _ _).symm⟩
  rw [LengthPrefixedCodec.onMessage, run_fst] at hf
  have hlog := foldl_log (fun f : Bytes × Bytes => f) ((frameDecoder 4 (by decide)).split buf).1 []
  rw [List.map_id', List.nil_append] at hlog
  rw [hlog] at hf
  exact (split_spelled hsound buf).1 f hf

/-- The codec's own loop understands nothing that its sender has written. -/
theorem understands_sender_iff (serialize : μ → Bytes) (msgs : List μ) :
    UnderstandsSender serialize msgs ↔ msgs = [] := by
  constructor
  · intro hall
    -- all of the stream in one arrival
    obtain ⟨hcuts, -⟩ := hall
      [((), msgs.flatMap (LengthPrefixedCodec.send serialize))] (List.append_nil _)
    rw [connection_singleton] at hcuts
    cases msgs with
    | nil => rfl
    | cons msg msgs =>
      have hmem : LengthPrefixedCodec.send serialize msg ∈
          (msg :: msgs).map (LengthPrefixedCodec.send serialize) := List.mem_cons_self
      rw [← hcuts, List.mem_map] at hmem
      obtain ⟨f, hf, heq⟩ := hmem
      exact absurd heq (append_ne_send (isFrame_of_mem_cuts hf) serialize msg)
  · rintro rfl arrivals hstream
    have hencode : ∀ msg ∈ ([] : List μ), ∀ rest, (frameDecoder 4 (by decide)).next
        (LengthPrefixedCodec.send serialize msg ++ rest) = .item (([], []) : Bytes × Bytes) rest :=
      fun _ hmsg => absurd hmsg List.not_mem_nil
    have hfault : ∀ msg ∈ ([] : List μ), ∀ part, part <+: LengthPrefixedCodec.send serialize msg →
        (frameDecoder 4 (by decide)).next part ≠ .fault :=
      fun _ hmsg => absurd hmsg List.not_mem_nil
    have hconn := connection_encode hencode
      (fun (_ : Unit) cuts buf => (rfl : LengthPrefixedCodec.onMessage cuts buf = _)) hfault
      (s := []) hstream
    rw [hconn]
    exact ⟨rfl, rfl⟩

/-- The message of a PUT, in one piece or in any others, is not read back. -/
theorem own_receiver_misreads :
    ¬ ∀ msgs : List RpcMessage, UnderstandsSender Protobuf.wire.serializeRpc msgs := by
  intro hall
  have hcuts := hall [PutRequest.command ⟨[107], [118], 7⟩] [((), LengthPrefixedCodec.send
    Protobuf.wire.serializeRpc (PutRequest.command ⟨[107], [118], 7⟩))] (List.append_nil _)
  revert hcuts
  decide +kernel

end OwnReceiver

/-! ## Malformed lengths -/

/-- The bytes are frames and, after them, an overlong part of one. -/
def EndsOverlong (bs : Bytes) : Prop :=
  ∃ (frames : List (Bytes × Bytes)) (tail : Bytes), (∀ f ∈ frames, IsFrame 5 f) ∧
    bs = frames.flatMap (fun f => f.1 ++ f.2) ++ tail ∧ Overlong 5 tail

/-- On a buffer with these bytes, and on no other, a loop reads past the end. -/
theorem endsOverlong_iff (bs : Bytes) :
    EndsOverlong bs ↔ nextFrame 5 (typedFrames.split bs).2 = .fault := by
  constructor
  · rintro ⟨frames, tail, hframes, rfl, hover⟩
    have hfault : nextFrame 5 tail = .fault := (nextFrame_eq_fault_iff (by decide)).mpr hover
    -- nothing is taken off an overlong tail
    have hstop : typedFrames.split tail = ([], tail) :=
      split_stop fun _ _ hitem => nomatch hfault.symm.trans hitem
    have hencode : ∀ f ∈ frames, ∀ rest, typedFrames.next
        ((fun f : Bytes × Bytes => f.1 ++ f.2) f ++ rest) = .item (id f) rest :=
      fun f hf rest => (nextFrame_eq_item_iff (by decide)).mpr
        ⟨hframes f hf, List.append_assoc _ _ _⟩
    rw [split_encode hencode, hstop, hfault]
  · intro hfault
    have hsound : ∀ bs f rest, typedFrames.next bs = .item f rest →
        IsFrame 5 f ∧ bs = (fun f : Bytes × Bytes => f.1 ++ f.2) f ++ rest := by
      intro bs f rest hitem
      obtain ⟨hframe, rfl⟩ := (nextFrame_eq_item_iff (by decide)).mp hitem
      exact ⟨hframe, (List.append_assoc _ _ _).symm⟩
    -- what the decoder took off are frames, and they spell the bytes
    obtain ⟨hframes, hspell⟩ := split_spelled hsound bs
    exact ⟨_, _, hframes, hspell, (nextFrame_eq_fault_iff (by decide)).mp hfault⟩

/-- No arrival ends in an overlong part of a frame. -/
def NeverOverlong {ε : Type*} (arrivals : List (ε × Bytes)) : Prop :=
  ∀ pre, pre <+: arrivals → ¬ EndsOverlong (stream pre)

private theorem isSome_connection_iff {ε σ : Type*} {handle : ε → σ → Bytes × Bytes → σ}
    {onMessage : ε → σ → Bytes → σ × Option Bytes}
    (hrun : ∀ env s buf, onMessage env s buf =
      typedFrames.run (handle env) s buf) (s : σ)
    (arrivals : List (ε × Bytes)) :
    (connection onMessage s arrivals).2.isSome ↔ NeverOverlong arrivals := by
  rw [Option.isSome_iff_exists]
  constructor
  · rintro ⟨buf, hbuf⟩ pre hpre hover
    exact ((connection_eq_some_iff hrun).mp hbuf).2 pre hpre ((endsOverlong_iff _).mp hover)
  · intro hsafe
    exact ⟨_, (connection_eq_some_iff hrun).mpr
      ⟨rfl, fun pre hpre hfault => hsafe pre hpre ((endsOverlong_iff _).mpr hfault)⟩⟩

/-- The three loops read within their buffers exactly if no arrival ends in an overlong
    part of a frame. -/
theorem reads_within_buffer_iff {ε σ τ : Type*} (handle : ε → σ → UInt8 → Bytes → σ) (s : σ)
    (handle' : ε → τ → Bytes → τ) (s' : τ) (arrivals : List (ε × Bytes)) (pb : PdProtobuf)
    (server : PdServer) (timed : List (Int × Bytes)) :
    ((connection (DataServer.onMessage handle) s arrivals).2.isSome ↔ NeverOverlong arrivals) ∧
    ((connection (RaftService.onPeerMessage handle') s' arrivals).2.isSome ↔
      NeverOverlong arrivals) ∧
    ((connection (PdServer.onMessage pb) server timed).2.isSome ↔ NeverOverlong timed) :=
  ⟨isSome_connection_iff (fun _ _ _ => rfl) s arrivals,
    isSome_connection_iff (fun _ _ _ => rfl) s' arrivals,
    isSome_connection_iff (fun _ _ _ => rfl) server timed⟩

/-- Five bytes that announce a payload of `2 ^ 32 - 5` bytes. -/
theorem overreads :
    (connection (DataServer.onMessage fun (_ : Unit) (_ : Unit) _ _ => ()) ()
      [((), [0xff, 0xff, 0xff, 0xfb, 0x01])]).2 = none ∧
    (connection (RaftService.onPeerMessage fun (_ : Unit) (_ : Unit) _ => ()) ()
      [((), [0xff, 0xff, 0xff, 0xfb, 0x01])]).2 = none ∧
    (connection (PdServer.onMessage .wire) {} [(0, [0xff, 0xff, 0xff, 0xfb, 0x01])]).2 = none := by
  decide +kernel

end Dkv
