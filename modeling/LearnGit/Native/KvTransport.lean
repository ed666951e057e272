import LearnGit.ForStd.Linearization
import LearnGit.ForStd.Transition
import LearnGit.Native.FrameCodec
import LearnGit.Native.KvClient
import LearnGit.Native.KvProtobuf

/-!
# Clients and a data node on TCP connections

Any number of clients call the operations of `src/client_sdk/kv_client.cpp` on one data node.
`sendRaw` opens a connection for each request, writes a frame and reads the one that comes
back. In between the bytes travel in chunks of any size, and the receive loop of
`src/data_node/data_server.cpp` serves the requests in the order in which they are complete.
-/

namespace Dkv

open RequestReply

/-! ## Calls of the client library -/

inductive KvCall where
  | put (key value : Bytes)
  | get (key : Bytes)
  | del (key : Bytes)
  | scan (startKey endKey : Bytes) (limit : UInt32)
deriving DecidableEq, Repr

/-- What an operation returns: `put` and `del` a flag, `get` the value if there is one. -/
inductive KvResult where
  | flag (ok : Bool)
  | value (value : Option Bytes)
  | pairs (kvs : List (Bytes × Bytes))
deriving DecidableEq, Repr

namespace KvClient

/-- A client whose requests all go to one address. The router of a client that had none is
    the default one. -/
def connect (c : KvClient) (ip : Bytes) (port : UInt16) : KvClient :=
  { router := some ((c.router.getD {}).setDirectNode (ip ++ 0x3a :: toString port.toNat)) }

/-- The operation that a call is for. -/
def perform (c : KvClient) (net : Network) : KvCall → Except StdException KvResult × KvClient
  | .put key value =>
    let r := c.put net key value
    (r.1.map .flag, r.2)
  | .get key =>
    let r := c.get net key
    (r.1.map .value, r.2)
  | .del key =>
    let r := c.del net key
    (r.1.map .flag, r.2)
  | .scan startKey endKey limit =>
    let r := c.scan net startKey endKey limit
    (r.1.map .pairs, r.2)

/-- What `sendRaw` writes to its connection, for a serialized request. -/
def sendRaw (data : Bytes) : Bytes := frame 0x00 data

/-- The reply of `sendRaw`, once it has arrived: `recv` waits for the length, the type byte
    and as many bytes as were announced. -/
def recvReply (received : Bytes) : Option Bytes :=
  if received.length < 5 then none
  else
    let rlen := lengthField received
    if received.length < 5 + rlen then none else some ((received.drop 5).take rlen)

end KvClient

/-- The message of a call. -/
def KvCall.request : KvCall → KvRequest
  | .put key value => .put { key := key, value := value, callId := 1 }
  | .get key => .get { key := key, callId := 1 }
  | .del key => .delete { key := key, callId := 1 }
  | .scan startKey endKey limit =>
    .scan { startKey := startKey, endKey := endKey, limit := limit, callId := 1 }

/-- The network of a call whose first request is answered by `reply`. -/
def replyNet (reply : Option KvResponse) : Network :=
  fun sent _ _ _ => if sent = 0 then reply else none

/-! ## The system -/

/-- The connection of one call. -/
structure KvExchange where
  call : KvCall
  toServer : Bytes
  toClient : Bytes := []
  /-- The input buffer of the server; `none` is one that was read past its end. -/
  serverBuf : Option Bytes := some []
  received : Bytes := []
  serverOpen : Bool := true
  clientOpen : Bool := true

/-- One data node and the connections of all calls so far. -/
structure KvCluster where
  node : DataNode
  conns : Nat → Option KvExchange
  /-- The calls, and the returns of those whose reply has arrived whole. -/
  history : List (Seen Nat KvCall KvResult)
  /-- What the calls return whose connection breaks before. Their clients cannot tell whether
      they were performed. -/
  failed : List (Nat × KvResult)
  /-- All messages that were serialized. -/
  handed : List Bytes

namespace KvCluster

variable (pb : Protobuf) (kpb : KvProtobuf) (ip : Bytes) (port : UInt16)

def setConn (s : KvCluster) (id : Nat) (x : KvExchange) : KvCluster :=
  { s with conns := Function.update s.conns id (some x) }

/-- What `LengthPrefixedCodec::send` does with a reply on the connection `id`. -/
def reply (s : KvCluster) (id : Nat) (resp : KvResponse) : KvCluster :=
  let data := kpb.serializeResponse resp
  let s := { s with handed := s.handed ++ [data] }
  match s.conns id with
  | some x =>
    if x.serverOpen then
      s.setConn id { x with toClient := x.toClient ++ LengthPrefixedCodec.sendRaw data }
    else s
  | none => s

/-- What the node does with a frame on the connection `id`. Without Raft every frame is taken
    for a client's; the messages of peers are not part of this system. -/
def onFrame (id : Nat) (s : KvCluster) (type : UInt8) (payload : Bytes) : KvCluster :=
  if type = 0x01 ∧ s.node.raft.isSome then s
  else
    match kpb.parseRequest payload with
    | none => s
    | some req =>
      let r := s.node.dispatchClientRpc pb req
      { s with node := r.1 }.reply kpb id r.2

/-- The end of a call whose reply has arrived. -/
def finish (s : KvCluster) (id : Nat) (x : KvExchange) (payload : Bytes) : KvCluster :=
  let client := ({ router := none } : KvClient).connect ip port
  let s := s.setConn id { x with clientOpen := false }
  match (client.perform (replyNet (kpb.parseResponse payload)) x.call).1 with
  | .ok result => { s with history := s.history ++ [Seen.ret id result] }
  | .error _ => s

/-- The end of a call whose `sendRaw` fails, if it has not ended before. -/
def fail (s : KvCluster) (id : Nat) (x : KvExchange) : KvCluster :=
  if x.clientOpen then
    let client := ({ router := none } : KvClient).connect ip port
    let s := s.setConn id { x with clientOpen := false }
    match (client.perform (replyNet none) x.call).1 with
    | .ok result => { s with failed := s.failed ++ [(id, result)] }
    | .error _ => s
  else s

end KvCluster

/-- The steps of the system. -/
inductive KvEvent where
  /-- A client makes the call `id` and writes its request. -/
  | call (id : Nat) (call : KvCall)
  /-- The next `size` bytes of the request arrive at the node. -/
  | arriveServer (id size : Nat)
  /-- The next `size` bytes of the reply arrive at the client. -/
  | arriveClient (id size : Nat)
  /-- One side of a connection is closed or notices that it is broken. -/
  | closeServer (id : Nat)
  | closeClient (id : Nat)

namespace KvCluster

variable (pb : Protobuf) (kpb : KvProtobuf) (ip : Bytes) (port : UInt16)

def step (s : KvCluster) : KvEvent → Option KvCluster
  | .call id call =>
    match s.conns id with
    | some _ => none
    | none =>
      let data := kpb.serializeRequest call.request
      some ({ s with
        history := s.history ++ [Seen.call id call]
        handed := s.handed ++ [data] }.setConn id
          { call := call, toServer := KvClient.sendRaw data })
  | .arriveServer id size =>
    match s.conns id with
    | none => none
    | some x =>
      match x.serverBuf with
      | none => none
      | some buf =>
        if x.serverOpen then
          let s' := s.setConn id { x with toServer := x.toServer.drop size }
          let r := DataServer.onMessage (fun (_ : Unit) => onFrame pb kpb id) () s'
            (buf ++ x.toServer.take size)
          (r.1.conns id).map fun x' => r.1.setConn id { x' with serverBuf := r.2 }
        else none
  | .arriveClient id size =>
    match s.conns id with
    | none => none
    | some x =>
      if x.clientOpen then
        let x' := { x with
          toClient := x.toClient.drop size
          received := x.received ++ x.toClient.take size }
        match KvClient.recvReply x'.received with
        | none => some (s.setConn id x')
        | some payload => some (s.finish kpb ip port id x' payload)
      else none
  | .closeServer id => (s.conns id).map fun x => s.setConn id { x with serverOpen := false }
  | .closeClient id => (s.conns id).map fun x => s.fail ip port id x

/-- A stand-alone node with an engine, and no calls yet. -/
def start (engine : RocksEngine) : KvCluster where
  node := DataNode.standAlone engine
  conns _ := none
  history := []
  failed := []
  handed := []

end KvCluster

/-- Clients of a stand-alone node at the address `ip:port`. -/
def kvSystem (pb : Protobuf) (kpb : KvProtobuf) (ip : Bytes) (port : UInt16)
    (engine : RocksEngine) : Transition.System KvCluster KvEvent where
  init s := s = .start engine
  step s e := s.step pb kpb ip port e

end Dkv
