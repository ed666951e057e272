import LearnGit.Native.RaftService

/-!
# KvService

The four request handlers of `src/data_node/kv_service.cpp`. In Raft mode a write is
proposed to the node and answered in the same call; a read goes to the local engine.
-/

namespace Dkv

/-- What a `KvService` works on. `raft` is absent in a stand-alone server; `peerAddrs`
    is the address book of the `RaftService`. -/
structure DataNode where
  engine : RocksEngine
  raft : Option RaftNode
  peerAddrs : Nat → Option Bytes

/-- A request of a client, as the handler that it is for takes it. -/
inductive KvRequest where
  | get (req : GetRequest)
  | put (req : PutRequest)
  | delete (req : DeleteRequest)
  | scan (req : ScanRequest)
deriving DecidableEq, Repr

inductive KvResponse where
  | get (resp : GetResponse)
  | put (resp : WriteResponse)
  | delete (resp : WriteResponse)
  | scan (resp : ScanResponse)
deriving DecidableEq, Repr

def KvResponse.errorCode : KvResponse → ErrorCode
  | .get resp => resp.errorCode
  | .put resp => resp.errorCode
  | .delete resp => resp.errorCode
  | .scan resp => resp.errorCode

def KvResponse.correctLeaderAddr : KvResponse → Bytes
  | .get resp => resp.correctLeaderAddr
  | .put resp => resp.correctLeaderAddr
  | .delete resp => resp.correctLeaderAddr
  | .scan resp => resp.correctLeaderAddr

namespace DataNode

/-- The branch of `handlePut` and `handleDelete` in Raft mode: the error code of the
    answer and, for a redirect, the leader's address. -/
def submit (d : DataNode) (pb : Protobuf) (n : RaftNode) (cmd : RpcMessage) :
    DataNode × ErrorCode × Bytes :=
  if n.state = .leader then
    let r := n.propose (pb.serializeRpc cmd)
    ({ d with
      raft := some r.1
      engine := RaftService.runCalls pb d.engine (n.newCalls r.1) },
      if r.2 then .ok else .internalError, [])
  else
    match n.getLeaderAddr d.peerAddrs with
    | some addr => (d, .notLeader, addr)
    | none => (d, .internalError, [])

/-- The address a read is redirected to. A node that is not the leader but knows no
    other one answers by itself. -/
def redirect (d : DataNode) : Option Bytes :=
  match d.raft with
  | some n => if n.state = .leader then none else n.getLeaderAddr d.peerAddrs
  | none => none

def handleGet (d : DataNode) (req : GetRequest) : GetResponse :=
  match d.redirect with
  | some addr =>
    { errorCode := .notLeader, key := req.key, callId := req.callId, correctLeaderAddr := addr }
  | none =>
    match d.engine.get req.key with
    | some value => { errorCode := .ok, key := req.key, value := value, callId := req.callId }
    | none => { errorCode := .keyNotFound, key := req.key, callId := req.callId }

def handlePut (d : DataNode) (pb : Protobuf) (req : PutRequest) : DataNode × WriteResponse :=
  match d.raft with
  | some n =>
    let (d', code, addr) := d.submit pb n req.command
    (d', { errorCode := code, callId := req.callId, correctLeaderAddr := addr })
  | none =>
    let r := d.engine.put req.key req.value
    ({ d with engine := r.1 },
      { errorCode := if r.2 then .ok else .internalError, callId := req.callId })

def handleDelete (d : DataNode) (pb : Protobuf) (req : DeleteRequest) :
    DataNode × WriteResponse :=
  match d.raft with
  | some n =>
    let (d', code, addr) := d.submit pb n req.command
    (d', { errorCode := code, callId := req.callId, correctLeaderAddr := addr })
  | none =>
    let r := d.engine.del req.key
    ({ d with engine := r.1 },
      { errorCode := if r.2 then .ok else .keyNotFound, callId := req.callId })

def handleScan (d : DataNode) (req : ScanRequest) : ScanResponse :=
  match d.redirect with
  | some addr => { errorCode := .notLeader, callId := req.callId, correctLeaderAddr := addr }
  | none =>
    let result := d.engine.scan req.startKey req.endKey req.limit.toNat
    { errorCode := .ok
      kvs := result.kvs
      hasMore := result.hasMore
      nextStartKey := result.nextKey
      callId := req.callId }

/-- `DataServer::dispatchClientRpc` for the four requests it has a handler for. -/
def dispatchClientRpc (pb : Protobuf) (d : DataNode) : KvRequest → DataNode × KvResponse
  | .get req => (d, .get (d.handleGet req))
  | .put req =>
    let r := d.handlePut pb req
    (r.1, .put r.2)
  | .delete req =>
    let r := d.handleDelete pb req
    (r.1, .delete r.2)
  | .scan req => (d, .scan (d.handleScan req))

/-- A server without Raft, the first phase of the data node. -/
def standAlone (engine : RocksEngine) : DataNode where
  engine := engine
  raft := none
  peerAddrs _ := none

end DataNode

end Dkv
