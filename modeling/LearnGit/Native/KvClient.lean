import LearnGit.ForStd.Decimal
import LearnGit.Native.KvService
import LearnGit.Native.ShardRouter

/-!
# KvClient

The client library of `src/client_sdk/kv_client.cpp`: a request goes to the address that the
router has for its key, over a connection of its own, and a node that is not the leader
redirects it.
-/

namespace Dkv

/-! ## Replies -/

/-- The accessors of the parsed reply give the default message for every other kind. -/
def KvResponse.getResponse : KvResponse → GetResponse
  | .get resp => resp
  | _ => { errorCode := .ok, key := [], callId := 0 }

def KvResponse.putResponse : KvResponse → WriteResponse
  | .put resp => resp
  | _ => { errorCode := .ok, callId := 0 }

def KvResponse.deleteResponse : KvResponse → WriteResponse
  | .delete resp => resp
  | _ => { errorCode := .ok, callId := 0 }

def KvResponse.scanResponse : KvResponse → ScanResponse
  | .scan resp => resp
  | _ => { errorCode := .ok, callId := 0 }

/-- What arrives for a request, given how many the call has sent before: `none` if no
    connection is made, if it breaks or if the reply cannot be parsed. -/
abbrev Network := Nat → Bytes → UInt16 → KvRequest → Option KvResponse

/-! ## Sending -/

/-- `std::stoi`. -/
def stoi (s : Bytes) : Except StdException Int :=
  match Decimal.scan s with
  | none => .error .invalidArgument
  | some n => if -2 ^ 31 ≤ n ∧ n < 2 ^ 31 then .ok n else .error .outOfRange

/-- The host in front of the first colon and the port behind it; `none` without a colon. -/
def splitAddr (addr : Bytes) : Option (Except StdException (Bytes × UInt16)) :=
  if 0x3a ∈ addr then
    let ip := addr.takeWhile fun b => b ≠ 0x3a
    some ((stoi (addr.drop (ip.length + 1))).map fun port => (ip, UInt16.ofInt port))
  else none

/-- The address at which `sendToAddr` goes on after a reply. -/
def redirectTarget : KvResponse → Option Bytes
  | .put resp =>
    if resp.errorCode = .notLeader ∧ resp.correctLeaderAddr ≠ [] then some resp.correctLeaderAddr
    else none
  | .get resp =>
    if resp.errorCode = .notLeader ∧ resp.correctLeaderAddr ≠ [] then some resp.correctLeaderAddr
    else none
  | _ => none

/-- A request that was sent, with the router before it and after its reply. -/
structure SentRequest where
  before : Router
  reply : Option KvResponse
  after : Router

inductive SendOutcome where
  /-- `sendToAddr` returns true. -/
  | ok (resp : KvResponse)
  | failed
  | threw (e : StdException)
deriving DecidableEq, Repr

/-- The end of a call of `sendToAddr` and what it has sent. -/
structure Sent where
  outcome : SendOutcome
  router : Router
  requests : List SentRequest := []

/-- Every turn of the loop returns, so the loop is the recursion on `maxRetries`, which is an
    `int` and as good as zero when it is negative. `sent` counts the requests of the turns
    before. -/
def sendToAddr (net : Network) (req : KvRequest) : Nat → Router → Nat → Bytes → Sent
  | 0, router, _, _ => { outcome := .failed, router := router }
  | maxRetries + 1, router, sent, addr =>
    match splitAddr addr with
    | none => { outcome := .failed, router := router }
    | some (.error e) => { outcome := .threw e, router := router }
    | some (.ok (ip, port)) =>
      match net sent ip port req with
      | none => { outcome := .failed, router := router, requests := [⟨router, none, router⟩] }
      | some resp =>
        match redirectTarget resp with
        | some newAddr =>
          let router' := router.setDirectNode newAddr
          let r := sendToAddr net req maxRetries router' (sent + 1) newAddr
          { r with requests := ⟨router, some resp, router'⟩ :: r.requests }
        | none =>
          { outcome := .ok resp, router := router, requests := [⟨router, some resp, router⟩] }

/-! ## The operations -/

/-- The router is missing before the first `connect`. -/
structure KvClient where
  router : Option Router

namespace KvClient

/-- What the four operations have in common: the reply to a request that is routed by `key`. -/
def request (c : KvClient) (net : Network) (key : Bytes) (req : KvRequest) :
    Except StdException (Option KvResponse) × KvClient :=
  match c.router with
  | none => (.ok none, c)
  | some router =>
    let addr := router.getAddrForKey key
    if addr = [] then (.ok none, c)
    else
      let sent := sendToAddr net req 3 router 0 addr
      let reply := match sent.outcome with
        | .ok resp => .ok (some resp)
        | .failed => .ok none
        | .threw e => .error e
      (reply, { router := some sent.router })

def put (c : KvClient) (net : Network) (key value : Bytes) :
    Except StdException Bool × KvClient :=
  let r := c.request net key (.put { key := key, value := value, callId := 1 })
  (r.1.map fun reply => reply.any fun resp => resp.putResponse.errorCode = .ok, r.2)

/-- The value, if there is one. -/
def get (c : KvClient) (net : Network) (key : Bytes) :
    Except StdException (Option Bytes) × KvClient :=
  let r := c.request net key (.get { key := key, callId := 1 })
  (r.1.map fun reply => reply.bind fun resp =>
    if resp.getResponse.errorCode = .ok then some resp.getResponse.value else none, r.2)

def del (c : KvClient) (net : Network) (key : Bytes) : Except StdException Bool × KvClient :=
  let r := c.request net key (.delete { key := key, callId := 1 })
  (r.1.map fun reply => reply.any fun resp => resp.deleteResponse.errorCode = .ok, r.2)

def scan (c : KvClient) (net : Network) (startKey endKey : Bytes) (limit : UInt32) :
    Except StdException (List (Bytes × Bytes)) × KvClient :=
  let r := c.request net startKey
    (.scan { startKey := startKey, endKey := endKey, limit := limit, callId := 1 })
  (r.1.map fun reply => reply.elim [] fun resp => resp.scanResponse.kvs, r.2)

end KvClient

end Dkv
