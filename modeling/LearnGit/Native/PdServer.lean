import LearnGit.Native.FrameCodec
import LearnGit.Native.ShardManager

/-!
# PdServer

The handlers of `src/pd_server/pd_service.cpp` and the receive loop and the timer of
`src/pd_server/pd_server.cpp`. The server keeps a list of the handlers it has invoked and
one of the responses it has sent, each a frame of its own. The clock does not advance
while bytes that have arrived are handled.
-/

namespace Dkv

/-- A request, as the handler that it is for takes it. -/
inductive PdRequest where
  | registerNode (req : RegisterNodeRequest)
  | heartbeat (req : HeartbeatRequest)
  | getShardMap (req : GetShardMapRequest)
deriving DecidableEq, Repr

/-- `SerializeToString` of the message. -/
def PdRequest.serialize (pb : PdProtobuf) : PdRequest → Bytes
  | .registerNode req => pb.serializeRegister req
  | .heartbeat req => pb.serializeHeartbeat req
  | .getShardMap req => pb.serializeGetShardMap req

inductive PdResponse where
  | registerNode (resp : RegisterNodeResponse)
  | heartbeat (resp : HeartbeatResponse)
  | getShardMap (resp : GetShardMapResponse)
deriving DecidableEq, Repr

structure PdServer where
  shardMgr : ShardManager := {}
  invoked : List PdRequest := []
  sent : List PdResponse := []

namespace PdServer

/-- What an invocation of a handler leaves behind. -/
def reply (s : PdServer) (mgr : ShardManager) (req : PdRequest) (resp : PdResponse) : PdServer where
  shardMgr := mgr
  invoked := s.invoked ++ [req]
  sent := s.sent ++ [resp]

/-! ## PdService -/

def handleRegisterNode (s : PdServer) (now : Int) (req : RegisterNodeRequest) : PdServer :=
  let r := s.shardMgr.registerNode now req.nodeInfo
  s.reply r.2 (.registerNode req) (.registerNode { errorCode := .ok, assignedNodeId := r.1 })

def handleHeartbeat (s : PdServer) (now : Int) (req : HeartbeatRequest) : PdServer :=
  let mgr := req.shardStates.foldl (fun m state => m.processHeartbeat now req.nodeId state)
    s.shardMgr
  s.reply mgr (.heartbeat req) (.heartbeat { errorCode := .ok })

def handleGetShardMap (s : PdServer) (req : GetShardMapRequest) : PdServer :=
  s.reply s.shardMgr (.getShardMap req)
    (.getShardMap { errorCode := .ok, shardMap := s.shardMgr.getShardMap })

/-! ## The receive loop -/

/-- What is done with a payload: the first of the three parsers that accepts it decides. -/
def handlePayload (pb : PdProtobuf) (now : Int) (s : PdServer) (payload : Bytes) : PdServer :=
  match pb.parseRegister payload with
  | some regReq => s.handleRegisterNode now regReq
  | none =>
    match pb.parseHeartbeat payload with
    | some hbReq => s.handleHeartbeat now hbReq
    | none =>
      match pb.parseGetShardMap payload with
      | some gsmReq => s.handleGetShardMap gsmReq
      | none => s

/-- `PdServer::onMessage`, which skips the type byte. -/
def onMessage (pb : PdProtobuf) (now : Int) (s : PdServer) (buf : Bytes) :
    PdServer × Option Bytes :=
  typedFrames.run (fun s f => s.handlePayload pb now f.2) s buf

/-! ## The timer -/

/-- The constructor. -/
def new (numShards replicaCount : Nat) : PdServer where
  shardMgr := ({} : ShardManager).initShards numShards replicaCount

/-- `PdServer::tick`. Both loops over the nodes meet them in the same order, since the hash
    map is not changed in between. -/
def tick (s : PdServer) (now : Int) (order : List Nat) : PdServer :=
  let dead := s.shardMgr.getDeadNodes now order
  { s with shardMgr := if dead.1 = [] then dead.2 else dead.2.scheduleRebalance order }

end PdServer

end Dkv
