import LearnGit.Native.KvService
import LearnGit.Native.Protobuf

/-!
# Client messages on the wire

What the protobuf library does for the `dkv.kv.RpcMessage` that a client and a data node
exchange, as a parameter, and an instance in the wire format with the field numbers of
`proto/kv_rpc.proto`.
-/

namespace Dkv

/-- `SerializeToString` and `ParseFromString` of a request and of a reply. A message that
    cannot be parsed is skipped by the server, and so is one that is no request. -/
structure KvProtobuf where
  serializeRequest : KvRequest → Bytes
  parseRequest : Bytes → Option KvRequest
  serializeResponse : KvResponse → Bytes
  parseResponse : Bytes → Option KvResponse
  parse_serializeRequest : ∀ req, parseRequest (serializeRequest req) = some req
  /-- The address is a `string`, which has to be valid UTF-8; ASCII is. -/
  parse_serializeResponse : ∀ resp, (∀ b ∈ resp.correctLeaderAddr, b < 128) →
    parseResponse (serializeResponse resp) = some resp

open ProtoWire

namespace Wire

def getFields (req : GetRequest) : List Field :=
  bytesField 1 req.key ++ varintField 3 req.callId.toNat

def readGet (fs : List Field) : GetRequest where
  key := getBytes 1 fs
  callId := UInt64.ofNat (getVarint 3 fs)

theorem readGet_getFields (req : GetRequest) : readGet (getFields req) = req := by
  simp [readGet, getFields, getVarint, getBytes, Value.varint?, Value.bytes?]

def scanFields (req : ScanRequest) : List Field :=
  bytesField 1 req.startKey ++ (bytesField 2 req.endKey ++
    (varintField 3 req.limit.toNat ++ varintField 5 req.callId.toNat))

def readScan (fs : List Field) : ScanRequest where
  startKey := getBytes 1 fs
  endKey := getBytes 2 fs
  limit := UInt32.ofNat (getVarint 3 fs)
  callId := UInt64.ofNat (getVarint 5 fs)

theorem readScan_scanFields (req : ScanRequest) : readScan (scanFields req) = req := by
  simp [readScan, scanFields, getVarint, getBytes, Value.varint?, Value.bytes?]

def requestFields : KvRequest → List Field
  | .get req => varintField 1 0 ++ messageField 10 (some (encodeFields (getFields req)))
  | .put req => varintField 1 2 ++ messageField 12 (some (encodeFields (putFields req)))
  | .delete req => varintField 1 4 ++ messageField 14 (some (encodeFields (deleteFields req)))
  | .scan req => varintField 1 6 ++ messageField 16 (some (encodeFields (scanFields req)))

/-- The request that the type announces, the default one where it is not set. -/
def readRequest (fs : List Field) : Option KvRequest :=
  match getVarint 1 fs with
  | 0 => (decodeFields (getBytes 10 fs)).map fun fs => .get (readGet fs)
  | 2 => (decodeFields (getBytes 12 fs)).map fun fs => .put (readPut fs)
  | 4 => (decodeFields (getBytes 14 fs)).map fun fs => .delete (readDelete fs)
  | 6 => (decodeFields (getBytes 16 fs)).map fun fs => .scan (readScan fs)
  | _ => none

theorem readRequest_requestFields (req : KvRequest) :
    readRequest (requestFields req) = some req := by
  cases req <;>
    simp [readRequest, requestFields, getVarint, getBytes, Value.varint?, Value.bytes?,
      decodeFields_encodeFields, readGet_getFields, readPut_putFields, readDelete_deleteFields,
      readScan_scanFields]

def errorNumber : ErrorCode → Nat
  | .ok => 0
  | .keyNotFound => 1
  | .wrongLeader => 2
  | .shardNotFound => 3
  | .timeout => 4
  | .notLeader => 5
  | .internalError => 6

/-- A number outside the enumeration is no code that this program compares with. -/
def readError : Nat → ErrorCode
  | 0 => .ok
  | 1 => .keyNotFound
  | 2 => .wrongLeader
  | 3 => .shardNotFound
  | 4 => .timeout
  | 5 => .notLeader
  | _ => .internalError

@[simp] theorem readError_errorNumber (e : ErrorCode) : readError (errorNumber e) = e := by
  cases e <;> rfl

def getResponseFields (resp : GetResponse) : List Field :=
  varintField 1 (errorNumber resp.errorCode) ++ (bytesField 2 resp.key ++
    (bytesField 3 resp.value ++ (varintField 4 resp.callId.toNat ++
      bytesField 6 resp.correctLeaderAddr)))

def readGetResponse (fs : List Field) : GetResponse where
  errorCode := readError (getVarint 1 fs)
  key := getBytes 2 fs
  value := getBytes 3 fs
  callId := UInt64.ofNat (getVarint 4 fs)
  correctLeaderAddr := getBytes 6 fs

theorem readGetResponse_fields (resp : GetResponse) :
    readGetResponse (getResponseFields resp) = resp := by
  simp [readGetResponse, getResponseFields, getVarint, getBytes, Value.varint?, Value.bytes?]

def writeResponseFields (resp : WriteResponse) : List Field :=
  varintField 1 (errorNumber resp.errorCode) ++ (varintField 2 resp.callId.toNat ++
    bytesField 4 resp.correctLeaderAddr)

def readWriteResponse (fs : List Field) : WriteResponse where
  errorCode := readError (getVarint 1 fs)
  callId := UInt64.ofNat (getVarint 2 fs)
  correctLeaderAddr := getBytes 4 fs

theorem readWriteResponse_fields (resp : WriteResponse) :
    readWriteResponse (writeResponseFields resp) = resp := by
  simp [readWriteResponse, writeResponseFields, getVarint, getBytes, Value.varint?, Value.bytes?]

def pairFields (kv : Bytes × Bytes) : List Field := bytesField 1 kv.1 ++ bytesField 2 kv.2

def readPair (fs : List Field) : Bytes × Bytes := (getBytes 1 fs, getBytes 2 fs)

theorem readPair_pairFields (kv : Bytes × Bytes) : readPair (pairFields kv) = kv := by
  simp [readPair, pairFields, getBytes, Value.bytes?]

def scanResponseFields (resp : ScanResponse) : List Field :=
  varintField 1 (errorNumber resp.errorCode) ++
    (repeatedField 2 (resp.kvs.map fun kv => encodeFields (pairFields kv)) ++
      (varintField 3 resp.hasMore.toNat ++ (bytesField 4 resp.nextStartKey ++
        (varintField 5 resp.callId.toNat ++ bytesField 7 resp.correctLeaderAddr))))

/-- A pair that cannot be read fails the whole message. -/
def readScanResponse (fs : List Field) : Option ScanResponse := do
  let kvs ← (getAll Value.bytes? 2 fs).mapM fun b => (decodeFields b).map readPair
  return { errorCode := readError (getVarint 1 fs)
           kvs := kvs
           hasMore := getVarint 3 fs != 0
           nextStartKey := getBytes 4 fs
           callId := UInt64.ofNat (getVarint 5 fs)
           correctLeaderAddr := getBytes 7 fs }

theorem readScanResponse_fields (resp : ScanResponse) :
    readScanResponse (scanResponseFields resp) = some resp := by
  obtain ⟨errorCode, kvs, hasMore, nextStartKey, callId, addr⟩ := resp
  have hkvs : (kvs.map fun kv => encodeFields (pairFields kv)).mapM
      (fun b => (decodeFields b).map readPair) = some kvs := by
    induction kvs with
    | nil => rfl
    | cons kv kvs ih => simp [decodeFields_encodeFields, readPair_pairFields, ih]
  have hvarint : ∀ k n, k ≠ 2 → getAll Value.bytes? 2 (varintField k n) = [] := fun k n hk =>
    getAll_eq_nil fun f hf => by rw [mem_varintField hf]; exact hk
  have hbytes : ∀ k b, k ≠ 2 → getAll Value.bytes? 2 (bytesField k b) = [] := fun k b hk =>
    getAll_eq_nil fun f hf => by rw [mem_bytesField hf]; exact hk
  have hrepeated : ∀ {α : Type} (read : Value → Option α) k (bs : List Bytes), k ≠ 2 →
      getField? read k (repeatedField 2 bs) = none := fun _ k bs hk =>
    getField?_eq_none fun f hf => by
      obtain ⟨b, rfl⟩ := mem_repeatedField hf
      exact Ne.symm hk
  cases hasMore <;>
    simp [readScanResponse, scanResponseFields, hvarint, hbytes, hrepeated, hkvs, getVarint,
      getBytes, Value.varint?, Value.bytes?]

def responseFields : KvResponse → List Field
  | .get resp => varintField 1 1 ++ messageField 11 (some (encodeFields (getResponseFields resp)))
  | .put resp => varintField 1 3 ++
      messageField 13 (some (encodeFields (writeResponseFields resp)))
  | .delete resp => varintField 1 5 ++
      messageField 15 (some (encodeFields (writeResponseFields resp)))
  | .scan resp => varintField 1 7 ++
      messageField 17 (some (encodeFields (scanResponseFields resp)))

def readResponse (fs : List Field) : Option KvResponse :=
  match getVarint 1 fs with
  | 1 => (decodeFields (getBytes 11 fs)).map fun fs => .get (readGetResponse fs)
  | 3 => (decodeFields (getBytes 13 fs)).map fun fs => .put (readWriteResponse fs)
  | 5 => (decodeFields (getBytes 15 fs)).map fun fs => .delete (readWriteResponse fs)
  | 7 => ((decodeFields (getBytes 17 fs)).bind readScanResponse).map .scan
  | _ => none

theorem readResponse_responseFields (resp : KvResponse) :
    readResponse (responseFields resp) = some resp := by
  cases resp <;>
    simp [readResponse, responseFields, getVarint, getBytes, Value.varint?, Value.bytes?,
      decodeFields_encodeFields, readGetResponse_fields, readWriteResponse_fields,
      readScanResponse_fields]

end Wire

/-- Messages in the wire format. -/
def KvProtobuf.wire : KvProtobuf where
  serializeRequest req := encodeFields (Wire.requestFields req)
  parseRequest bs := (decodeFields bs).bind Wire.readRequest
  serializeResponse resp := encodeFields (Wire.responseFields resp)
  parseResponse bs := (decodeFields bs).bind Wire.readResponse
  parse_serializeRequest req := by
    rw [decodeFields_encodeFields, Option.bind_some, Wire.readRequest_requestFields]
  parse_serializeResponse resp _ := by
    rw [decodeFields_encodeFields, Option.bind_some, Wire.readResponse_responseFields]

end Dkv
