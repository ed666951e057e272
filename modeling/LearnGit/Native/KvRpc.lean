import LearnGit.Native.RaftRpc

/-!
# Client messages

The messages of `proto/kv_rpc.proto` as the data node reads and writes them. A
`bytes` or `string` field that is not set is empty. The fields `allow_stale` and
`correct_leader_node_id` are neither read nor set by any code and are left out.
-/

namespace Dkv

/-- `dkv.common.ErrorCode`. -/
inductive ErrorCode where
  | ok
  | keyNotFound
  | wrongLeader
  | shardNotFound
  | timeout
  | notLeader
  | internalError
deriving DecidableEq, Repr

structure GetRequest where
  key : Bytes
  callId : UInt64 := 0
deriving DecidableEq, Repr

structure GetResponse where
  errorCode : ErrorCode
  key : Bytes
  value : Bytes := []
  callId : UInt64
  correctLeaderAddr : Bytes := []
deriving DecidableEq, Repr

structure PutRequest where
  key : Bytes := []
  value : Bytes := []
  callId : UInt64 := 0
deriving DecidableEq, Repr

/-- `dkv.kv.PutResponse` and `dkv.kv.DeleteResponse`, which have the same fields. -/
structure WriteResponse where
  errorCode : ErrorCode
  callId : UInt64
  correctLeaderAddr : Bytes := []
deriving DecidableEq, Repr

structure DeleteRequest where
  key : Bytes := []
  callId : UInt64 := 0
deriving DecidableEq, Repr

structure ScanRequest where
  startKey : Bytes
  endKey : Bytes
  limit : UInt32
  callId : UInt64 := 0
deriving DecidableEq, Repr

structure ScanResponse where
  errorCode : ErrorCode
  kvs : List (Bytes × Bytes) := []
  hasMore : Bool := false
  nextStartKey : Bytes := []
  callId : UInt64
  correctLeaderAddr : Bytes := []
deriving DecidableEq, Repr

/-- `dkv.kv.RpcMessage.Type`; a number outside the enumeration is kept. -/
inductive RpcMessage.Type where
  | getRequest
  | getResponse
  | putRequest
  | putResponse
  | deleteRequest
  | deleteResponse
  | scanRequest
  | scanResponse
  | unrecognized (n : Nat)
deriving DecidableEq, Repr

/-- `dkv.kv.RpcMessage` with the payloads of write commands. -/
structure RpcMessage where
  type : RpcMessage.Type := .getRequest
  putRequest : Option PutRequest := none
  deleteRequest : Option DeleteRequest := none
deriving DecidableEq, Repr

/-- `msg.put_request()`, the default message where the field is not set. -/
def RpcMessage.put (m : RpcMessage) : PutRequest := m.putRequest.getD {}

/-- `msg.delete_request()`. -/
def RpcMessage.delete (m : RpcMessage) : DeleteRequest := m.deleteRequest.getD {}

/-- The command `handlePut` proposes. -/
def PutRequest.command (req : PutRequest) : RpcMessage :=
  { type := .putRequest, putRequest := some req }

/-- The command `handleDelete` proposes. -/
def DeleteRequest.command (req : DeleteRequest) : RpcMessage :=
  { type := .deleteRequest, deleteRequest := some req }

/-- The protobuf library, which is not part of the repository: `SerializeToString` and
    `ParseFromString` of the two messages the data node stores or proposes, and that
    parsing gives back what was serialized. -/
structure Protobuf where
  serializeEntry : LogEntry → Bytes
  parseEntry : Bytes → Option LogEntry
  serializeRpc : RpcMessage → Bytes
  parseRpc : Bytes → Option RpcMessage
  /-- `term` and `index` are `uint64` fields. -/
  parse_serializeEntry : ∀ x, x.term < 2 ^ 64 → x.index < 2 ^ 64 →
    parseEntry (serializeEntry x) = some x
  parse_serializeRpc : ∀ m, (∀ n, m.type ≠ .unrecognized n) →
    parseRpc (serializeRpc m) = some m

end Dkv
