import LearnGit.ForStd.ProtoWire
import LearnGit.Native.KvRpc

/-!
# The wire format of the stored messages

An instance of `Protobuf` that writes and reads log entries and write commands in the
wire format, with the field numbers of the two `.proto` files.
-/

namespace Dkv

open ProtoWire

namespace Wire

def entryFields (x : LogEntry) : List Field :=
  varintField 1 x.term ++ (varintField 2 x.index ++ bytesField 3 x.command)

def readEntry (fs : List Field) : LogEntry where
  term := getVarint 1 fs
  index := getVarint 2 fs
  command := getBytes 3 fs

theorem readEntry_entryFields (x : LogEntry) : readEntry (entryFields x) = x := by
  simp [readEntry, entryFields, getVarint, getBytes, Value.varint?, Value.bytes?]

def putFields (req : PutRequest) : List Field :=
  bytesField 1 req.key ++ (bytesField 2 req.value ++ varintField 3 req.callId.toNat)

def readPut (fs : List Field) : PutRequest where
  key := getBytes 1 fs
  value := getBytes 2 fs
  callId := UInt64.ofNat (getVarint 3 fs)

theorem readPut_putFields (req : PutRequest) : readPut (putFields req) = req := by
  simp [readPut, putFields, getVarint, getBytes, Value.varint?, Value.bytes?]

def deleteFields (req : DeleteRequest) : List Field :=
  bytesField 1 req.key ++ varintField 2 req.callId.toNat

def readDelete (fs : List Field) : DeleteRequest where
  key := getBytes 1 fs
  callId := UInt64.ofNat (getVarint 2 fs)

theorem readDelete_deleteFields (req : DeleteRequest) : readDelete (deleteFields req) = req := by
  simp [readDelete, deleteFields, getVarint, getBytes, Value.varint?, Value.bytes?]

def typeNumber : RpcMessage.Type → Nat
  | .getRequest => 0
  | .getResponse => 1
  | .putRequest => 2
  | .putResponse => 3
  | .deleteRequest => 4
  | .deleteResponse => 5
  | .scanRequest => 6
  | .scanResponse => 7
  | .unrecognized n => n

def readType : Nat → RpcMessage.Type
  | 0 => .getRequest
  | 1 => .getResponse
  | 2 => .putRequest
  | 3 => .putResponse
  | 4 => .deleteRequest
  | 5 => .deleteResponse
  | 6 => .scanRequest
  | 7 => .scanResponse
  | n => .unrecognized n

theorem readType_typeNumber (t : RpcMessage.Type) (ht : ∀ n, t ≠ .unrecognized n) :
    readType (typeNumber t) = t := by
  cases t with
  | unrecognized n => exact absurd rfl (ht n)
  | _ => rfl

def rpcFields (m : RpcMessage) : List Field :=
  varintField 1 (typeNumber m.type) ++
    (messageField 12 (m.putRequest.map fun req => encodeFields (putFields req)) ++
      messageField 14 (m.deleteRequest.map fun req => encodeFields (deleteFields req)))

/-- A submessage that cannot be read fails the whole message. -/
def readRpc (fs : List Field) : Option RpcMessage := do
  let put ← (getField? Value.bytes? 12 fs).mapM fun b => (decodeFields b).map readPut
  let delete ← (getField? Value.bytes? 14 fs).mapM fun b => (decodeFields b).map readDelete
  return { type := readType (getVarint 1 fs), putRequest := put, deleteRequest := delete }

theorem readRpc_rpcFields (m : RpcMessage) (hm : ∀ n, m.type ≠ .unrecognized n) :
    readRpc (rpcFields m) = some m := by
  obtain ⟨type, put, delete⟩ := m
  have htype := readType_typeNumber type hm
  cases put <;> cases delete <;>
    simp [readRpc, rpcFields, getVarint, Value.varint?, Value.bytes?, decodeFields_encodeFields,
      readPut_putFields, readDelete_deleteFields, htype]

end Wire

/-- Messages in the wire format. -/
def Protobuf.wire : Protobuf where
  serializeEntry x := encodeFields (Wire.entryFields x)
  parseEntry bs := (decodeFields bs).map Wire.readEntry
  serializeRpc m := encodeFields (Wire.rpcFields m)
  parseRpc bs := (decodeFields bs).bind Wire.readRpc
  parse_serializeEntry x _ _ := by
    rw [decodeFields_encodeFields, Option.map_some, Wire.readEntry_entryFields]
  parse_serializeRpc m hm := by
    rw [decodeFields_encodeFields, Option.bind_some, Wire.readRpc_rpcFields m hm]

/-- A PUT of `"k"` with value `"v"` and call id 7 on the wire. -/
example : Protobuf.wire.serializeRpc (PutRequest.command ⟨[107], [118], 7⟩) =
    [8, 2, 98, 8, 10, 1, 107, 18, 1, 118, 24, 7] := by
  decide +kernel

end Dkv
