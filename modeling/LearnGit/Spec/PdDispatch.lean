import LearnGit.Spec.Framing

/-!
# Dispatch of the placement driver

`PdServer::onMessage` tells the three requests apart by parsing them, and asks the parser
of `RegisterNodeRequest` first. That parser needs nothing: the one field of its message is
a submessage, and where no field 1 with bytes is found the message is the default one. A
heartbeat has a varint in field 1 and a shard-map query no field at all, so both register
a node. A registration itself is not read if its `ip` is no valid `string`.

## Key results

- `handlePayload_other`: heartbeats and queries are taken for registrations
- `ownHandler_iff`: registrations that can be read alone reach their own handler
-/

namespace Dkv

open ChunkedStream Decoder ProtoWire

variable {pb : PdProtobuf} {now : Int} {s : PdServer} {req : PdRequest}

namespace PdServer

/-- A frame that arrives whole is one payload. -/
theorem onMessage_sendRaw (pb : PdProtobuf) (now : Int) (s : PdServer) {data : Bytes}
    (hsize : data.length ≤ 2 ^ 31 - 1) :
    s.onMessage pb now (LengthPrefixedCodec.sendRaw data) =
      (s.handlePayload pb now data, some []) := by
  have hsize' : ∀ f ∈ [SentFrame.client data], f.payload.length ≤ 2 ^ 31 - 1 := by
    intro f hf
    obtain rfl := List.mem_singleton.mp hf
    exact hsize
  obtain ⟨hencode, hfault⟩ := SentFrame.decodes hsize'
  have hstream : stream [((), LengthPrefixedCodec.sendRaw data)] =
      [SentFrame.client data].flatMap SentFrame.bytes := rfl
  -- the frame is all that arrives on its connection
  rw [← connection_singleton (fun _ : Unit => onMessage pb now) s ((), _)]
  exact connection_encode hencode (fun _ _ _ => rfl) hfault hstream

/-- No field of a heartbeat is the submessage of a registration. -/
private theorem parseRegister_heartbeat (pb : PdProtobuf) (req : HeartbeatRequest) :
    pb.parseRegister (pb.serializeHeartbeat req) = some { node := none } := by
  refine pb.parseRegister_unknown _ _ (pb.heartbeat_fields req) fun f hf b heq => ?_
  subst heq
  rw [Wire.heartbeatFields, List.mem_append, List.mem_append] at hf
  rcases hf with hf | hf | hf
  · have heq := mem_varintField hf
    simp at heq
  · obtain ⟨b', heq⟩ := mem_messageField hf
    simp at heq
  · obtain ⟨b', heq⟩ := mem_repeatedField hf
    simp at heq

private theorem parseRegister_getShardMap (pb : PdProtobuf) (req : GetShardMapRequest) :
    pb.parseRegister (pb.serializeGetShardMap req) = some { node := none } := by
  rw [pb.getShardMap_fields]
  exact pb.parseRegister_unknown [] [] rfl fun f hf => (List.not_mem_nil hf).elim

/-- A registration is taken for what it is. -/
theorem handlePayload_register (pb : PdProtobuf) (now : Int) (s : PdServer)
    {req : RegisterNodeRequest} (hutf8 : req.isUtf8 = true) :
    s.handlePayload pb now (pb.serializeRegister req) = s.handleRegisterNode now req := by
  rw [handlePayload, pb.parse_serializeRegister req hutf8]

/-- A registration that cannot be read is taken for something else, or for nothing. -/
theorem invoked_handlePayload_invalid (pb : PdProtobuf) (now : Int) (s : PdServer)
    {req : RegisterNodeRequest} (hutf8 : req.isUtf8 = false) (reg : RegisterNodeRequest) :
    (s.handlePayload pb now (pb.serializeRegister req)).invoked ≠
      s.invoked ++ [.registerNode reg] := by
  rw [handlePayload, pb.parseRegister_invalid req hutf8]
  dsimp only
  cases pb.parseHeartbeat (pb.serializeRegister req) with
  | some hbReq => simp [handleHeartbeat, reply]
  | none =>
    dsimp only
    cases pb.parseGetShardMap (pb.serializeRegister req) with
    | some gsmReq => simp [handleGetShardMap, reply]
    | none => simp

/-- Everything else is taken for a registration without a node. -/
theorem handlePayload_other (pb : PdProtobuf) (now : Int) (s : PdServer) {req : PdRequest}
    (hother : ∀ reg, req ≠ .registerNode reg) :
    s.handlePayload pb now (req.serialize pb) = s.handleRegisterNode now { node := none } := by
  rw [handlePayload]
  cases req with
  | registerNode reg => exact absurd rfl (hother reg)
  | heartbeat req => rw [PdRequest.serialize, parseRegister_heartbeat]
  | getShardMap req => rw [PdRequest.serialize, parseRegister_getShardMap]

/-- A registration adds the node under the next id. -/
theorem handleRegisterNode_nodes (s : PdServer) (now : Int) (req : RegisterNodeRequest) :
    s.shardMgr.nextNodeId ∈ (s.handleRegisterNode now req).shardMgr.nodes :=
  Std.ExtTreeMap.mem_insert_self

/-- Delivering a request invokes its own handler, and adds no node unless it is to. -/
def OwnHandler (pb : PdProtobuf) (now : Int) (s : PdServer) (req : PdRequest) : Prop :=
  let s' := (s.onMessage pb now (LengthPrefixedCodec.sendRaw (req.serialize pb))).1
  s'.invoked = s.invoked ++ [req] ∧
    ((∀ reg, req ≠ .registerNode reg) →
      ∀ id, id ∈ s'.shardMgr.nodes → id ∈ s.shardMgr.nodes)

/-- Registrations that can be read reach their own handler, heartbeats and queries never do. -/
theorem ownHandler_iff (hsize : (req.serialize pb).length ≤ 2 ^ 31 - 1) :
    s.OwnHandler pb now req ↔ ∃ reg, req = .registerNode reg ∧ reg.isUtf8 = true := by
  unfold OwnHandler
  rw [onMessage_sendRaw pb now s hsize]
  constructor
  · rintro ⟨hinvoked, -⟩
    by_cases hreg : ∃ reg, req = .registerNode reg
    · obtain ⟨reg, rfl⟩ := hreg
      refine ⟨reg, rfl, ?_⟩
      by_contra hutf8
      exact invoked_handlePayload_invalid pb now s (by simpa using hutf8) reg hinvoked
    · rw [handlePayload_other pb now s fun reg heq => hreg ⟨reg, heq⟩] at hinvoked
      have heq : [PdRequest.registerNode { node := none }] = [req] :=
        List.append_cancel_left hinvoked
      exact absurd ⟨_, (List.cons.inj heq).1.symm⟩ hreg
  · rintro ⟨reg, rfl, hutf8⟩
    refine ⟨?_, fun hother => absurd rfl (hother reg)⟩
    rw [PdRequest.serialize, handlePayload_register pb now s hutf8]
    rfl

/-- The registration of a node that listens on port 8001. -/
theorem ownHandler_registration :
    let req : PdRequest := .registerNode { node := some { ip := [49], port := 8001 } }
    ({} : PdServer).OwnHandler .wire 0 req ↔
      ∃ reg, req = .registerNode reg ∧ reg.isUtf8 = true :=
  ownHandler_iff (by decide +kernel)

/-- The query of a client that asks for the shard map adds a node. -/
theorem not_ownHandler_query :
    ¬ ∀ (pb : PdProtobuf) (now : Int) (s : PdServer) (req : PdRequest),
      (req.serialize pb).length ≤ 2 ^ 31 - 1 → s.OwnHandler pb now req := by
  intro hall
  have hsize : (PdRequest.serialize .wire (.getShardMap ⟨⟩)).length ≤ 2 ^ 31 - 1 := by
    decide +kernel
  have hother : ∀ reg, PdRequest.getShardMap ⟨⟩ ≠ .registerNode reg := nofun
  obtain ⟨-, hnodes⟩ := hall .wire 0 {} (.getShardMap ⟨⟩) hsize
  rw [onMessage_sendRaw _ _ _ hsize, handlePayload_other _ _ _ hother] at hnodes
  have hadded : 1 ∈ (∅ : Std.ExtTreeMap Nat ShardManager.NodeState) :=
    hnodes hother 1 (handleRegisterNode_nodes {} 0 _)
  exact Std.ExtTreeMap.not_mem_empty hadded

end PdServer

end Dkv
