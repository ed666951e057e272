import LearnGit.ForStd.RequestReply
import LearnGit.Native.KvService
import LearnGit.Native.Protobuf
import LearnGit.Spec.RocksEngineSpec

/-!
# The stand-alone server and the ordered map

Without Raft every handler works on the local engine. The server is compared with an
ordered map that replies to each request what the client library documents. The two
hold the same pairs throughout and reply alike except to a DELETE: the engine's `Delete`
succeeds on a key that is not there, so the branch of `handleDelete` that answers
`KEY_NOT_FOUND` is never taken.

## Key results

- `dispatchClientRpc_standAlone`: the engine takes the step of the map
- `reply_iff`: which replies are those of the map
- `replies_eq_mapServer_iff`: a sequence of requests is answered as by the map exactly if
  each DELETE in it finds its key
-/

namespace Dkv

open OrderedStore RequestReply

/-! ## The ordered map -/

/-- The store that clients are promised, with the reply to each request. -/
def mapServer : Server (Std.ExtTreeMap Bytes Bytes) KvRequest KvResponse
  | m, .get req =>
    (m, .get {
      errorCode := if req.key ∈ m then .ok else .keyNotFound
      key := req.key
      value := m.getD req.key []
      callId := req.callId })
  | m, .put req => (m.insert req.key req.value, .put { errorCode := .ok, callId := req.callId })
  | m, .delete req =>
    (m.erase req.key, .delete {
      errorCode := if req.key ∈ m then .ok else .keyNotFound
      callId := req.callId })
  | m, .scan req =>
    let pairs := range m req.startKey (RocksEngine.stopKey req.endKey)
    (m, .scan {
      errorCode := .ok
      kvs := pairs.take req.limit.toNat
      hasMore := decide (req.limit.toNat < pairs.length)
      nextStartKey := ((pairs[req.limit.toNat]?).map Prod.fst).getD []
      callId := req.callId })

/-- A DELETE names a key of the map. -/
def DeletesPresent (m : Std.ExtTreeMap Bytes Bytes) : KvRequest → Prop
  | .delete req => req.key ∈ m
  | _ => True

instance (m : Std.ExtTreeMap Bytes Bytes) (req : KvRequest) : Decidable (DeletesPresent m req) := by
  cases req <;> unfold DeletesPresent <;> infer_instance

/-! ## One request -/

namespace DataNode

theorem handleGet_standAlone (e : RocksEngine) (req : GetRequest) :
    (standAlone e).handleGet req =
      { errorCode := if req.key ∈ e.db then .ok else .keyNotFound
        key := req.key
        value := e.db.getD req.key []
        callId := req.callId } := by
  have hredirect : (standAlone e).redirect = none := rfl
  have hget : (standAlone e).engine.get req.key = e.db[req.key]? := rfl
  rw [handleGet, hredirect]
  dsimp only
  rw [hget]
  by_cases hmem : req.key ∈ e.db
  · rw [Std.ExtTreeMap.getElem?_eq_some_getElem hmem, if_pos hmem,
      Std.ExtTreeMap.getD_eq_getD_getElem?, Std.ExtTreeMap.getElem?_eq_some_getElem hmem]
    rfl
  · rw [Std.ExtTreeMap.getElem?_eq_none hmem, if_neg hmem, Std.ExtTreeMap.getD_eq_fallback hmem]

theorem handleScan_standAlone (e : RocksEngine) (req : ScanRequest) :
    (standAlone e).handleScan req =
      { errorCode := .ok
        kvs := (e.pairs req.startKey req.endKey).take req.limit.toNat
        hasMore := decide (req.limit.toNat < (e.pairs req.startKey req.endKey).length)
        nextStartKey :=
          (((e.pairs req.startKey req.endKey)[req.limit.toNat]?).map Prod.fst).getD []
        callId := req.callId } := by
  have hredirect : (standAlone e).redirect = none := rfl
  rw [handleScan, hredirect]
  have hscan := RocksEngine.scan_eq e req.startKey req.endKey req.limit.toNat
  show ScanResponse.mk .ok (e.scan _ _ _).kvs (e.scan _ _ _).hasMore (e.scan _ _ _).nextKey _ _ = _
  rw [hscan]

/-- The engine takes the step of the map. -/
theorem dispatchClientRpc_standAlone (pb : Protobuf) (e : RocksEngine) (req : KvRequest) :
    (dispatchClientRpc pb (standAlone e) req).1 = standAlone ⟨(mapServer e.db req).1⟩ := by
  cases req <;> rfl

/-- Only a DELETE whose key is absent is answered otherwise than by the map. -/
theorem reply_iff (pb : Protobuf) (e : RocksEngine) (req : KvRequest) :
    (dispatchClientRpc pb (standAlone e) req).2 = (mapServer e.db req).2 ↔
      DeletesPresent e.db req := by
  cases req with
  | get req => exact iff_of_true (congrArg KvResponse.get (handleGet_standAlone e req)) trivial
  | put req => exact iff_of_true rfl trivial
  | delete req =>
    show KvResponse.delete { errorCode := .ok, callId := req.callId } = KvResponse.delete _ ↔
      req.key ∈ e.db
    by_cases hmem : req.key ∈ e.db
    · simp [hmem]
    · simp [hmem]
  | scan req => exact iff_of_true (congrArg KvResponse.scan (handleScan_standAlone e req)) trivial

end DataNode

/-! ## Sequences of requests -/

/-- A stand-alone server over any store answers every sequence of requests as the map does
    exactly if each DELETE finds its key. -/
theorem replies_eq_mapServer_iff (pb : Protobuf) (e : RocksEngine) (reqs : List KvRequest) :
    Server.replies (DataNode.dispatchClientRpc pb) (DataNode.standAlone e) reqs =
        mapServer.replies e.db reqs ↔
      mapServer.Along DeletesPresent e.db reqs := by
  -- the server and the map hold the same pairs throughout
  refine Server.replies_eq_iff (fun d m => d = DataNode.standAlone ⟨m⟩) ?_ ?_ rfl reqs
  · rintro d m req rfl
    exact DataNode.dispatchClientRpc_standAlone pb ⟨m⟩ req
  · rintro d m req rfl
    exact DataNode.reply_iff pb ⟨m⟩ req

/-- A DELETE on the empty store: the server answers `OK`, the map `KEY_NOT_FOUND`. -/
theorem replies_ne_mapServer :
    ¬ ∀ (pb : Protobuf) (e : RocksEngine) (reqs : List KvRequest),
      Server.replies (DataNode.dispatchClientRpc pb) (DataNode.standAlone e) reqs =
        mapServer.replies e.db reqs := by
  intro hall
  have heq := hall .wire .empty [.delete { key := [107], callId := 1 }]
  rw [Server.replies_cons, Server.replies_cons] at heq
  have hreply := (DataNode.reply_iff .wire .empty _).mp (List.cons.inj heq).1
  exact absurd hreply (by simp [DeletesPresent, RocksEngine.empty])

end Dkv
