import LearnGit.ForStd.ProtoWire
import LearnGit.Native.KvRpc

/-!
# Messages to the placement driver

The messages of `proto/pd_rpc.proto` and `proto/common.proto` that `PdServer` reads and
writes, with the wire encoding of the requests. The commands of a heartbeat response are
never set and are left out.
-/

namespace Dkv

open ProtoWire

/-! ## Messages -/

structure NodeInfo where
  nodeId : UInt64 := 0
  ip : Bytes := []
  port : UInt32 := 0
  shardCount : UInt32 := 0
  leaderCount : UInt32 := 0
deriving DecidableEq, Repr

structure RegisterNodeRequest where
  node : Option NodeInfo := none
deriving DecidableEq, Repr

/-- `req.node()`, the default message where the field is not set. -/
def RegisterNodeRequest.nodeInfo (req : RegisterNodeRequest) : NodeInfo := req.node.getD {}

/-- The `ip` of the request is a `string` that protobuf accepts. -/
def RegisterNodeRequest.isUtf8 (req : RegisterNodeRequest) : Bool :=
  ProtoWire.isUtf8 req.nodeInfo.ip

structure HeartbeatRequest.ShardState where
  shardId : UInt64 := 0
  term : UInt64 := 0
  committedIndex : UInt64 := 0
  appliedIndex : UInt64 := 0
  isLeader : Bool := false
deriving DecidableEq, Repr

structure HeartbeatRequest where
  nodeId : UInt64 := 0
  nodeStats : Option NodeInfo := none
  shardStates : List HeartbeatRequest.ShardState := []
deriving DecidableEq, Repr

/-- The `ip` in the statistics is a `string` that protobuf accepts. -/
def HeartbeatRequest.isUtf8 (req : HeartbeatRequest) : Bool :=
  ProtoWire.isUtf8 (req.nodeStats.getD {}).ip

/-- The message has no fields. -/
structure GetShardMapRequest where
deriving DecidableEq, Repr

structure RegisterNodeResponse where
  errorCode : ErrorCode
  assignedNodeId : Nat
deriving DecidableEq, Repr

structure HeartbeatResponse where
  errorCode : ErrorCode
deriving DecidableEq, Repr

structure ShardMeta where
  shardId : Nat
  startKey : Bytes
  endKey : Bytes
  epoch : Nat
  leaderNodeId : Nat
  peerNodeIds : List Nat
deriving DecidableEq, Repr

structure ShardMap where
  shards : List ShardMeta
  version : Nat
deriving DecidableEq, Repr

structure GetShardMapResponse where
  errorCode : ErrorCode
  shardMap : ShardMap
deriving DecidableEq, Repr

/-! ## The wire format -/

namespace Wire

def nodeInfoFields (x : NodeInfo) : List Field :=
  varintField 1 x.nodeId.toNat ++ (bytesField 2 x.ip ++ (varintField 3 x.port.toNat ++
    (varintField 4 x.shardCount.toNat ++ varintField 5 x.leaderCount.toNat)))

def readNodeInfo (fs : List Field) : NodeInfo where
  nodeId := UInt64.ofNat (getVarint 1 fs)
  ip := getBytes 2 fs
  port := UInt32.ofNat (getVarint 3 fs)
  shardCount := UInt32.ofNat (getVarint 4 fs)
  leaderCount := UInt32.ofNat (getVarint 5 fs)

theorem readNodeInfo_nodeInfoFields (x : NodeInfo) : readNodeInfo (nodeInfoFields x) = x := by
  simp [readNodeInfo, nodeInfoFields, getVarint, getBytes, Value.varint?, Value.bytes?]

/-- A submessage is rejected for an `ip` that is not UTF-8. -/
def parseNodeInfo (b : Bytes) : Option NodeInfo :=
  (decodeFields b).bind fun fs =>
    if (getAll Value.bytes? 2 fs).all isUtf8 then some (readNodeInfo fs) else none

theorem parseNodeInfo_encodeFields (x : NodeInfo) :
    parseNodeInfo (encodeFields (nodeInfoFields x)) = if isUtf8 x.ip then some x else none := by
  have hall : (getAll Value.bytes? 2 (nodeInfoFields x)).all isUtf8 = isUtf8 x.ip := by
    simp only [nodeInfoFields, getAll_append, getAll_varintField, getAll_bytesField,
      List.append_nil, List.nil_append]
    split
    · next hnil =>
      rw [hnil]
      rfl
    · simp
  rw [parseNodeInfo, decodeFields_encodeFields, Option.bind_some, hall,
    readNodeInfo_nodeInfoFields]

def shardStateFields (x : HeartbeatRequest.ShardState) : List Field :=
  varintField 1 x.shardId.toNat ++ (varintField 2 x.term.toNat ++
    (varintField 3 x.committedIndex.toNat ++ (varintField 4 x.appliedIndex.toNat ++
      varintField 5 x.isLeader.toNat)))

def readShardState (fs : List Field) : HeartbeatRequest.ShardState where
  shardId := UInt64.ofNat (getVarint 1 fs)
  term := UInt64.ofNat (getVarint 2 fs)
  committedIndex := UInt64.ofNat (getVarint 3 fs)
  appliedIndex := UInt64.ofNat (getVarint 4 fs)
  isLeader := getVarint 5 fs != 0

theorem readShardState_shardStateFields (x : HeartbeatRequest.ShardState) :
    readShardState (shardStateFields x) = x := by
  obtain ⟨shardId, term, committedIndex, appliedIndex, isLeader⟩ := x
  cases isLeader <;>
    simp [readShardState, shardStateFields, getVarint, Value.varint?]

def registerFields (req : RegisterNodeRequest) : List Field :=
  messageField 1 (req.node.map fun x => encodeFields (nodeInfoFields x))

/-- A submessage that cannot be read fails the whole message. -/
def readRegister (fs : List Field) : Option RegisterNodeRequest := do
  let node ← (getField? Value.bytes? 1 fs).mapM parseNodeInfo
  return { node := node }

theorem readRegister_registerFields (req : RegisterNodeRequest) :
    readRegister (registerFields req) = if req.isUtf8 then some req else none := by
  obtain ⟨node⟩ := req
  cases node with
  | none => rfl
  | some x =>
    have hip : RegisterNodeRequest.isUtf8 ⟨some x⟩ = isUtf8 x.ip := rfl
    rw [hip]
    by_cases hutf8 : isUtf8 x.ip <;>
      simp [readRegister, registerFields, Value.bytes?, parseNodeInfo_encodeFields, hutf8]

def heartbeatFields (req : HeartbeatRequest) : List Field :=
  varintField 1 req.nodeId.toNat ++
    (messageField 2 (req.nodeStats.map fun x => encodeFields (nodeInfoFields x)) ++
      repeatedField 3 (req.shardStates.map fun x => encodeFields (shardStateFields x)))

def readHeartbeat (fs : List Field) : Option HeartbeatRequest := do
  let stats ← (getField? Value.bytes? 2 fs).mapM parseNodeInfo
  let states ← (getAll Value.bytes? 3 fs).mapM fun b => (decodeFields b).map readShardState
  return { nodeId := UInt64.ofNat (getVarint 1 fs), nodeStats := stats, shardStates := states }

private theorem mapM_readShardState (states : List HeartbeatRequest.ShardState) :
    ((states.map fun x => encodeFields (shardStateFields x)).mapM fun b =>
      (decodeFields b).map readShardState) = some states := by
  induction states with
  | nil => rfl
  | cons x states ih =>
    rw [List.map_cons, List.mapM_cons, ih, decodeFields_encodeFields, Option.map_some,
      readShardState_shardStateFields]
    rfl

theorem readHeartbeat_heartbeatFields (req : HeartbeatRequest) (hutf8 : req.isUtf8 = true) :
    readHeartbeat (heartbeatFields req) = some req := by
  obtain ⟨nodeId, stats, states⟩ := req
  -- the repeated field is found among the others, and it is none of them
  have hstates : getAll Value.bytes? 3 (heartbeatFields ⟨nodeId, stats, states⟩) =
      states.map fun x => encodeFields (shardStateFields x) := by
    have hid : getAll Value.bytes? 3 (varintField 1 nodeId.toNat) = [] :=
      getAll_eq_nil fun f hf => by
        rw [mem_varintField hf]
        exact (by decide : 1 ≠ 3)
    have hstats : getAll Value.bytes? 3
        (messageField 2 (stats.map fun x => encodeFields (nodeInfoFields x))) = [] :=
      getAll_eq_nil fun f hf => by
        obtain ⟨b, rfl⟩ := mem_messageField hf
        exact (by decide : 2 ≠ 3)
    rw [heartbeatFields, getAll_append, getAll_append, hid, hstats, getAll_repeatedField]
    rfl
  have hrest : ∀ {α : Type} (read : Value → Option α) (k : Nat), k ≠ 3 →
      getField? read k (repeatedField 3 (states.map fun x => encodeFields (shardStateFields x))) =
        none := fun read k hk => getField?_eq_none fun f hf => by
    obtain ⟨b, rfl⟩ := mem_repeatedField hf
    exact Ne.symm hk
  rw [readHeartbeat, hstates, mapM_readShardState]
  cases stats with
  | none => simp [heartbeatFields, getVarint, Value.varint?, hrest]
  | some x =>
    have hip : isUtf8 x.ip = true := hutf8
    simp [heartbeatFields, getVarint, Value.varint?, Value.bytes?, hrest,
      parseNodeInfo_encodeFields, hip]

end Wire

/-! ## The protobuf library -/

/-- `SerializeToString` and `ParseFromString` of the three requests. Parsing gives back
    what was serialized, but rejects a `string` that is not UTF-8. A field that the message
    does not have, or has with another wire type, is unknown and does not make parsing fail. -/
structure PdProtobuf where
  serializeRegister : RegisterNodeRequest → Bytes
  parseRegister : Bytes → Option RegisterNodeRequest
  serializeHeartbeat : HeartbeatRequest → Bytes
  parseHeartbeat : Bytes → Option HeartbeatRequest
  serializeGetShardMap : GetShardMapRequest → Bytes
  parseGetShardMap : Bytes → Option GetShardMapRequest
  parse_serializeRegister : ∀ req, req.isUtf8 = true →
    parseRegister (serializeRegister req) = some req
  parseRegister_invalid : ∀ req, req.isUtf8 = false → parseRegister (serializeRegister req) = none
  parse_serializeHeartbeat : ∀ req, req.isUtf8 = true →
    parseHeartbeat (serializeHeartbeat req) = some req
  parse_serializeGetShardMap : ∀ req, parseGetShardMap (serializeGetShardMap req) = some req
  heartbeat_fields : ∀ req,
    decodeFields (serializeHeartbeat req) = some (Wire.heartbeatFields req)
  getShardMap_fields : ∀ req, serializeGetShardMap req = []
  parseRegister_unknown : ∀ bs fs, decodeFields bs = some fs →
    (∀ f ∈ fs, ∀ b, f ≠ (1, .bytes b)) → parseRegister bs = some { node := none }

/-- The requests in the wire format. -/
def PdProtobuf.wire : PdProtobuf where
  serializeRegister req := encodeFields (Wire.registerFields req)
  parseRegister bs := (decodeFields bs).bind Wire.readRegister
  serializeHeartbeat req := encodeFields (Wire.heartbeatFields req)
  parseHeartbeat bs := (decodeFields bs).bind Wire.readHeartbeat
  serializeGetShardMap _ := encodeFields []
  parseGetShardMap bs := (decodeFields bs).map fun _ => ⟨⟩
  parse_serializeRegister req hutf8 := by
    rw [decodeFields_encodeFields, Option.bind_some, Wire.readRegister_registerFields, if_pos hutf8]
  parseRegister_invalid req hutf8 := by
    rw [decodeFields_encodeFields, Option.bind_some, Wire.readRegister_registerFields, hutf8]
    rfl
  parse_serializeHeartbeat req hutf8 := by
    rw [decodeFields_encodeFields, Option.bind_some, Wire.readHeartbeat_heartbeatFields req hutf8]
  parse_serializeGetShardMap _ := by rw [decodeFields_encodeFields, Option.map_some]
  heartbeat_fields req := decodeFields_encodeFields _
  getShardMap_fields _ := rfl
  parseRegister_unknown bs fs hdecode hunknown := by
    have hnone : getField? Value.bytes? 1 fs = none := by
      refine List.getLast?_eq_none_iff.mpr (List.filterMap_eq_nil_iff.mpr fun f hf => ?_)
      obtain ⟨k, n | b⟩ := f
      · simp [Value.bytes?]
      · exact if_neg fun hk => hunknown _ hf b (Prod.ext hk rfl)
    rw [hdecode, Option.bind_some, Wire.readRegister, hnone]
    rfl

end Dkv
