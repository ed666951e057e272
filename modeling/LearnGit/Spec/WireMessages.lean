import LearnGit.Native.RaftTransport
import LearnGit.Spec.ElectionSafety
import LearnGit.Spec.Framing

/-!
# Messages under way on connections

What is under way on a connection, after what the receiver has buffered of it, spells whole
messages in the order in which they were sent. Each of them is a packet in flight of the
cluster of packets. Packets that were never written, or whose connection was closed, stay in
flight there and are never delivered.

## Key results

- `run_messages`: what a receive loop makes of a part of a stream of messages
- `Sim`: the messages under way are packets in flight
- `Sim.act`: a reaction of a node is the same one on packets
-/

namespace Dkv

open Transition ChunkedStream Decoder

variable {pb : RaftProtobuf} {M : Membership}

/-! ## Messages as frames -/

/-- A message that protobuf serializes: its fields fit, and it has less than 2 GiB. -/
def RaftMessage.Sendable (pb : RaftProtobuf) (m : RaftMessage) : Prop :=
  m.Fits ∧ (pb.serialize m).length ≤ 2 ^ 31 - 1

instance RaftMessage.Sendable.decidable (pb : RaftProtobuf) (m : RaftMessage) :
    Decidable (m.Sendable pb) :=
  inferInstanceAs (Decidable (_ ∧ _))

namespace RaftMessage

/-- The bytes of a message on a connection. -/
def bytes (pb : RaftProtobuf) (m : RaftMessage) : Bytes :=
  RaftService.sendRaftRpc (pb.serialize m)

/-- Header and payload, as the receive loops take them off. -/
def item (pb : RaftProtobuf) (m : RaftMessage) : Bytes × Bytes :=
  ((SentFrame.raft (pb.serialize m)).header, pb.serialize m)

end RaftMessage

/-- A receive loop takes the whole messages off a part of a stream and keeps the rest. -/
theorem run_messages {σ : Type*} (handle : σ → Bytes × Bytes → σ) {ms : List RaftMessage}
    (hsend : ∀ m ∈ ms, m.Sendable pb) {buf chunk later : Bytes}
    (hstream : buf ++ (chunk ++ later) = ms.flatMap (RaftMessage.bytes pb)) :
    ∃ k part, (∀ s, typedFrames.run handle s (buf ++ chunk) =
        (((ms.take k).map (RaftMessage.item pb)).foldl handle s, some part)) ∧
      part ++ later = (ms.drop k).flatMap (RaftMessage.bytes pb) := by
  have hframes : ∀ ms : List RaftMessage,
      (ms.map fun m => SentFrame.raft (pb.serialize m)).flatMap SentFrame.bytes =
        ms.flatMap (RaftMessage.bytes pb) := fun ms => List.flatMap_map _ _ _
  have hsize : ∀ f ∈ ms.map (fun m => SentFrame.raft (pb.serialize m)),
      f.payload.length ≤ 2 ^ 31 - 1 := by
    simp only [List.forall_mem_map]
    exact fun m hm => (hsend m hm).2
  obtain ⟨k, part, hrun, hrest⟩ := SentFrame.run_part handle hsize (hstream.trans (hframes ms).symm)
  rw [← List.map_drop, hframes] at hrest
  refine ⟨k, part, fun s => ?_, hrest⟩
  rw [hrun, ← List.map_take, List.map_map]
  rfl

/-! ## Messages under way -/

/-- The messages on all connections with one more from `i` to `j`. -/
def appended (ms : Nat → Nat → List RaftMessage) (i j : Nat) (x : RaftMessage) :
    Nat → Nat → List RaftMessage :=
  update₂ ms i j (ms i j ++ [x])

section Appended

variable {ms : Nat → Nat → List RaftMessage} {i j : Nat} {x : RaftMessage}

theorem forall_mem_appended {P : Nat → Nat → RaftMessage → Prop}
    (hms : ∀ a b, ∀ m ∈ ms a b, P a b m) (hx : P i j x) :
    ∀ a b, ∀ m ∈ appended ms i j x a b, P a b m := by
  intro a b m hm
  rw [appended, update₂_apply] at hm
  split at hm
  · next hab =>
    obtain ⟨rfl, rfl⟩ := hab
    rcases List.mem_append.mp hm with hm | hm
    · exact hms a b m hm
    · exact List.mem_singleton.mp hm ▸ hx
  · exact hms a b m hm

theorem count_appended (a b : Nat) (m : RaftMessage) : (appended ms i j x a b).count m =
    (ms a b).count m + if a = i ∧ b = j ∧ m = x then 1 else 0 := by
  rw [appended, update₂_apply]
  by_cases hab : a = i ∧ b = j
  · rw [if_pos hab, hab.1, hab.2, List.count_append, List.count_singleton]
    simp only [true_and, beq_iff_eq, eq_comm (a := x)]
  · rw [if_neg hab, if_neg fun h => hab ⟨h.1, h.2.1⟩, Nat.add_zero]

theorem count_packet (net : List Packet) (a b : Nat) (m : RaftMessage) :
    (net ++ [(⟨i, j, x⟩ : Packet)]).count ⟨a, b, m⟩ =
      net.count ⟨a, b, m⟩ + if a = i ∧ b = j ∧ m = x then 1 else 0 := by
  rw [List.count_append, List.count_singleton]
  simp only [beq_iff_eq, Packet.mk.injEq, eq_comm (a := i), eq_comm (a := j), eq_comm (a := x)]

/-- What the receivers have buffered and what is under way spell the messages. -/
def Spells (pb : RaftProtobuf) (buf out : Nat → Nat → Bytes)
    (ms : Nat → Nat → List RaftMessage) : Prop :=
  ∀ i j, buf i j ++ out i j = (ms i j).flatMap (RaftMessage.bytes pb)

theorem Spells.append {buf out : Nat → Nat → Bytes} (hspells : Spells pb buf out ms) :
    Spells pb buf (update₂ out i j (out i j ++ x.bytes pb)) (appended ms i j x) := by
  intro a b
  rw [appended, update₂_apply, update₂_apply]
  split
  · next hab =>
    obtain ⟨rfl, rfl⟩ := hab
    rw [← List.append_assoc, hspells, List.flatMap_append, List.flatMap_singleton]
  · exact hspells a b

end Appended

namespace Links

/-- The bytes under way to the servers. -/
def toServer (l : Links) (i j : Nat) : Bytes := (l.conns i j).toServer

/-- The bytes under way back from the servers. -/
def toClient (l : Links) (i j : Nat) : Bytes := (l.conns i j).toClient

theorem setConn_toServer (l : Links) (i j : Nat) (c : Connection) :
    (l.setConn i j c).toServer = update₂ l.toServer i j c.toServer := by
  funext a b
  simp only [toServer, setConn, update₂_apply]
  split <;> rfl

theorem setConn_toClient (l : Links) (i j : Nat) (c : Connection) :
    (l.setConn i j c).toClient = update₂ l.toClient i j c.toClient := by
  funext a b
  simp only [toClient, setConn, update₂_apply]
  split <;> rfl

end Links

theorem update₂_eq_self {α : Type*} (f : Nat → Nat → α) (i j : Nat) :
    update₂ f i j (f i j) = f := by
  funext a b
  rw [update₂_apply]
  split
  · next hab => rw [hab.1, hab.2]
  · rfl

/-- The messages under way: `ms i j` from node `i` to the server of `j` and `rs i j` back.
    What the receivers have buffered, `sb` and `cb`, and what is on the connections spell
    them, and together with `todo` they are packets of `net`. -/
structure Sim (pb : RaftProtobuf) (M : Membership) (sb cb : Nat → Nat → Bytes)
    (todo net : List Packet) (l : Links) (ms rs : Nat → Nat → List RaftMessage) : Prop where
  toServer : Spells pb sb l.toServer ms
  toClient : Spells pb cb l.toClient rs
  requests : ∀ i j, ∀ m ∈ ms i j,
    m.Sendable pb ∧ m.requester = some i ∧ i ∈ M.ids ∧ j ∈ M.ids
  answers : ∀ i j, ∀ m ∈ rs i j, m.Sendable pb ∧ m.requester = none ∧ i ∈ M.ids ∧ j ∈ M.ids
  net : ∀ a b m, (ms a b).count m + (rs b a).count m + todo.count ⟨a, b, m⟩ ≤
    net.count ⟨a, b, m⟩

namespace Sim

variable {sb cb : Nat → Nat → Bytes} {todo net : List Packet} {l : Links}
  {ms rs : Nat → Nat → List RaftMessage}

/-- Only what is on the connections counts. -/
theorem of_conns (sim : Sim pb M sb cb todo net l ms rs) {l' : Links}
    (hserver : l'.toServer = l.toServer) (hclient : l'.toClient = l.toClient) :
    Sim pb M sb cb todo net l' ms rs where
  toServer := hserver ▸ sim.toServer
  toClient := hclient ▸ sim.toClient
  requests := sim.requests
  answers := sim.answers
  net := sim.net

/-- More packets may be in flight. -/
theorem mono (sim : Sim pb M sb cb todo net l ms rs) (more : List Packet) :
    Sim pb M sb cb todo (net ++ more) l ms rs :=
  { sim with
    net := fun a b m => by
      have := sim.net a b m
      rw [List.count_append]
      omega }

/-- The next packet to handle is in flight, and the others stay so without it. -/
theorem take {p : Packet} (sim : Sim pb M sb cb (p :: todo) net l ms rs) :
    p ∈ net ∧ Sim pb M sb cb todo (net.erase p) l ms rs := by
  have hmem : p ∈ net := by
    have hp := sim.net p.src p.dst p.msg
    rw [show (⟨p.src, p.dst, p.msg⟩ : Packet) = p from rfl, List.count_cons_self] at hp
    exact List.count_pos_iff.mp (by omega)
  refine ⟨hmem, { sim with net := fun a b m => ?_ }⟩
  have hq := sim.net a b m
  rw [List.count_erase]
  rw [List.count_cons] at hq
  simp only [beq_iff_eq, eq_comm (a := p)] at hq ⊢
  split at hq
  · next heq =>
    rw [if_pos heq]
    omega
  · next hne =>
    rw [if_neg hne]
    omega

/-- A request to a peer. -/
theorem sendRaftRpc (sim : Sim pb M sb cb todo net l ms rs) {i j : Nat} {m : RaftMessage}
    (hsend : m.Sendable pb) (hreq : m.requester = some i) (hi : i ∈ M.ids) (hj : j ∈ M.ids) :
    ∃ ms', Sim pb M sb cb todo (net ++ [⟨i, j, m⟩]) (l.sendRaftRpc pb i j m) ms' rs := by
  unfold Links.sendRaftRpc
  dsimp only
  split
  · refine ⟨appended ms i j m, ?_, ?_, ?_, sim.answers, fun a b x => ?_⟩
    · rw [Links.setConn_toServer]
      exact sim.toServer.append
    · rw [Links.setConn_toClient]
      exact (update₂_eq_self l.toClient i j).symm ▸ sim.toClient
    · exact forall_mem_appended sim.requests ⟨hsend, hreq, hi, hj⟩
    · have := sim.net a b x
      rw [count_appended, count_packet]
      omega
  · exact ⟨ms, (sim.mono _).of_conns rfl rfl⟩

/-- An answer on the connection of a request. -/
theorem answer (sim : Sim pb M sb cb todo net l ms rs) {i j : Nat} {m : RaftMessage}
    (hsend : m.Sendable pb) (hreq : m.requester = none) (hi : i ∈ M.ids) (hj : j ∈ M.ids) :
    ∃ rs', Sim pb M sb cb todo (net ++ [⟨j, i, m⟩]) (l.answer pb i j m) ms rs' := by
  unfold Links.answer
  dsimp only
  split
  · refine ⟨appended rs i j m, ?_, ?_, sim.requests, ?_, fun a b x => ?_⟩
    · rw [Links.setConn_toServer]
      exact (update₂_eq_self l.toServer i j).symm ▸ sim.toServer
    · rw [Links.setConn_toClient]
      exact sim.toClient.append
    · exact forall_mem_appended sim.answers ⟨hsend, hreq, hi, hj⟩
    · have := sim.net a b x
      rw [count_appended, count_packet, if_congr and_left_comm rfl rfl]
      omega
  · exact ⟨rs, (sim.mono _).of_conns rfl rfl⟩

end Sim

/-! ## One reaction -/

/-- The message of an invocation of `rpcSender_`. -/
def Call.message? : Call → Option RaftMessage
  | .send _ msg => some msg
  | _ => none

namespace Links

@[simp] theorem sendRaftRpc_nodes (l : Links) (i j : Nat) (m : RaftMessage) :
    (l.sendRaftRpc pb i j m).nodes = l.nodes := by
  unfold sendRaftRpc
  dsimp only
  split <;> rfl

@[simp] theorem answer_nodes (l : Links) (i j : Nat) (m : RaftMessage) :
    (l.answer pb i j m).nodes = l.nodes := by
  unfold answer
  dsimp only
  split <;> rfl

@[simp] theorem sendRaftRpc_handed (l : Links) (i j : Nat) (m : RaftMessage) :
    (l.sendRaftRpc pb i j m).handed = l.handed ++ [m] := by
  unfold sendRaftRpc
  dsimp only
  split <;> rfl

@[simp] theorem answer_handed (l : Links) (i j : Nat) (m : RaftMessage) :
    (l.answer pb i j m).handed = l.handed ++ [m] := by
  unfold answer
  dsimp only
  split <;> rfl

theorem foldl_runCall (pb : RaftProtobuf) (l : Links) (i : Nat) (calls : List Call) :
    (calls.foldl (runCall pb i) l).nodes = l.nodes ∧
      (calls.foldl (runCall pb i) l).handed = l.handed ++ calls.filterMap Call.message? := by
  induction calls generalizing l with
  | nil => exact ⟨rfl, (List.append_nil _).symm⟩
  | cons c calls ih =>
    obtain ⟨hnodes, hhanded⟩ := ih (runCall pb i l c)
    rw [List.foldl_cons, hnodes, hhanded]
    cases c with
    | send peerId msg => simp [runCall, Call.message?]
    | _ => exact ⟨rfl, rfl⟩

end Links

/-- What a node sends to its peers are requests in its own name. -/
theorem RaftNode.Reacts.requester {n n' : RaftNode} {env : Env} {input : Input}
    {reply : Option RaftMessage} (hreact : n.Reacts env input n' reply) {pid : Nat}
    {msg : RaftMessage} (hmem : .send pid msg ∈ n.newCalls n') :
    msg.requester = some n.nodeId ∧ pid ∈ n.peerIds := by
  obtain ⟨ps, sends, hcalls, hps, hsends⟩ := hreact.calls_eq
  rw [RaftNode.newCalls, hcalls, List.drop_left, List.mem_append, List.mem_append] at hmem
  have hid := hreact.nodeId_eq
  have hpeers := hreact.peerIds_eq
  rcases hmem with hmem | hmem | hmem
  · obtain ⟨t, v, log, hc⟩ := hps.mem _ hmem
    cases hc
  · cases hsends with
    | none => exact (List.not_mem_nil hmem).elim
    | vote =>
      obtain ⟨p, hp, hsend⟩ := List.mem_map.mp hmem
      obtain ⟨rfl, rfl⟩ := Call.send.inj hsend
      exact ⟨congrArg some hid, hpeers ▸ hp⟩
    | append m heartbeatOnly hstate hlog hterm hnext hp hmid =>
      obtain ⟨p, hpm, hsend⟩ := List.mem_map.mp hmem
      obtain ⟨rfl, rfl⟩ := Call.send.inj hsend
      exact ⟨congrArg some (hmid.trans hid), hpeers ▸ hp ▸ hpm⟩
  · obtain ⟨i, -, -, hc⟩ := RaftNode.mem_applyCalls.mp hmem
    cases hc

/-- An answer is no request, and only requests are answered. -/
theorem RaftNode.Reacts.answered {n n' : RaftNode} {env : Env} {input : Input}
    {response : RaftMessage} (hreact : n.Reacts env input n' (some response)) :
    response.requester = none ∧ ∃ src msg, input = .message src msg ∧ msg.requester ≠ none := by
  cases hreact with
  | voteRefused src req | voteGranted src req | appendStale src req | appendMismatch src req
  | appendAccepted src req => exact ⟨rfl, src, _, rfl, nofun⟩

namespace Sim

variable {sb cb : Nat → Nat → Bytes} {todo net : List Packet} {l : Links}
  {ms rs : Nat → Nat → List RaftMessage}

/-- What a node sends to its peers. -/
theorem runCalls (sim : Sim pb M sb cb todo net l ms rs) {i : Nat} (hi : i ∈ M.ids)
    {calls : List Call} (hcalls : ∀ pid msg, .send pid msg ∈ calls →
      msg.Sendable pb ∧ msg.requester = some i ∧ pid ∈ M.ids) :
    ∃ ms', Sim pb M sb cb todo (net ++ calls.filterMap (Call.packet i))
      (calls.foldl (Links.runCall pb i) l) ms' rs := by
  induction calls generalizing net l ms with
  | nil => exact ⟨ms, sim.mono _⟩
  | cons c calls ih =>
    have hrest : ∀ pid msg, .send pid msg ∈ calls →
        msg.Sendable pb ∧ msg.requester = some i ∧ pid ∈ M.ids :=
      fun pid msg hmem => hcalls pid msg (List.mem_cons_of_mem _ hmem)
    cases c with
    | send pid msg =>
      obtain ⟨hsend, hreq, hpid⟩ := hcalls pid msg List.mem_cons_self
      obtain ⟨ms', sim'⟩ := sim.sendRaftRpc hsend hreq hi hpid
      obtain ⟨ms'', sim''⟩ := ih sim' hrest
      rw [List.append_assoc] at sim''
      exact ⟨ms'', sim''⟩
    | _ => exact ih sim hrest

/-- A reaction is the same one on both levels. -/
theorem act {g : List (Cluster × Event)} {c : Cluster} (hrun : Run (raftSystem M) g c)
    (hnodes : c.nodes = l.nodes) {i : Nat} (hi : i ∈ M.ids) {env : Env} {input : Input}
    {ev : Event} (hev : (raftSystem M).step c ev = c.act i env input net)
    (sim : Sim pb M sb cb todo net l ms rs) {l' : Links} {reply : Option RaftMessage}
    (hact : l.act pb i env input = some (l', reply))
    (hhanded : ∀ m ∈ l'.handed, m.Sendable pb) :
    ∃ c' net' ms', (raftSystem M).step c ev = some c' ∧ c'.nodes = l'.nodes ∧
      c'.net = net' ++ RaftNode.replies i input reply ∧ Sim pb M sb cb todo net' l' ms' rs ∧
      (l.nodes i).Reacts env input (l'.nodes i) reply := by
  unfold Links.act at hact
  dsimp only at hact
  split at hact
  · next hsize =>
    have hreact := (l.nodes i).react_cases env input
    obtain ⟨hl', hreply⟩ := Prod.mk.inj (Option.some.inj hact)
    obtain ⟨hnodes', hhanded'⟩ := Links.foldl_runCall pb
      { l with nodes := Function.update l.nodes i ((l.nodes i).react env input).1 } i
      ((l.nodes i).newCalls ((l.nodes i).react env input).1)
    rw [hl'] at hnodes' hhanded'
    have hself : l'.nodes i = ((l.nodes i).react env input).1 := by
      rw [hnodes']
      exact Function.update_self _ _ _
    obtain ⟨hid, hpeers⟩ := run_ident hrun hi
    rw [hnodes] at hid hpeers
    have hcalls : ∀ pid msg, .send pid msg ∈ (l.nodes i).newCalls ((l.nodes i).react env input).1 →
        msg.Sendable pb ∧ msg.requester = some i ∧ pid ∈ M.ids := by
      intro pid msg hmem
      obtain ⟨hreq, hpid⟩ := hreact.requester hmem
      refine ⟨hhanded msg ?_, hid ▸ hreq, ((M.mem_peerIds i hi pid).mp (hpeers ▸ hpid)).1⟩
      rw [hhanded']
      exact List.mem_append_right _ (List.mem_filterMap.mpr ⟨_, hmem, rfl⟩)
    obtain ⟨ms', sim'⟩ := Sim.runCalls (l := { l with
        nodes := Function.update l.nodes i ((l.nodes i).react env input).1 })
      (sim.of_conns rfl rfl) hi hcalls
    rw [hl'] at sim'
    refine ⟨⟨l'.nodes, _⟩, _, ms', ?_, rfl, rfl, sim', ?_⟩
    · rw [hev]
      unfold Cluster.act
      rw [hnodes, ← hreply, hnodes']
      exact if_pos hsize
    · rw [hself, ← hreply]
      exact hreact
  · exact nomatch hact

/-- A frame at the server is a packet that is delivered. -/
theorem serverFrame {g : List (Cluster × Event)} {c : Cluster} (hrun : Run (raftSystem M) g c)
    (hnodes : c.nodes = l.nodes) {i j : Nat} {m : RaftMessage}
    (sim : Sim pb M sb cb (⟨i, j, m⟩ :: todo) c.net l ms rs) (hm : m.Sendable pb)
    (hreq : m.requester = some i) (hi : i ∈ M.ids) (hj : j ∈ M.ids) {l' : Links}
    {envs envs' : List Env}
    (hframe : Links.onServerFrame pb i j (some (l, envs)) 0x01 (pb.serialize m) = some (l', envs'))
    (hhanded : ∀ x ∈ l'.handed, x.Sendable pb) :
    ∃ g' c' ms' rs', Continues (raftSystem M) g c g' c' ∧ c'.nodes = l'.nodes ∧
      Sim pb M sb cb todo c'.net l' ms' rs' := by
  obtain ⟨hmem, sim⟩ := sim.take
  unfold Links.onServerFrame at hframe
  simp only [if_true, pb.parse_serialize m hm.1, hreq, Option.getD_some] at hframe
  cases envs with
  | nil => exact nomatch hframe
  | cons env envs =>
    have hev : (raftSystem M).step c (.deliver ⟨i, j, m⟩ env) =
        c.act j env (.message i m) (c.net.erase ⟨i, j, m⟩) := if_pos ⟨hj, hmem⟩
    dsimp only at hframe
    split at hframe
    · exact nomatch hframe
    · next l₁ hact =>
      obtain ⟨rfl, -⟩ := Prod.mk.inj (Option.some.inj hframe)
      obtain ⟨c', net', ms', hstep, hc', hnet, sim', -⟩ :=
        Sim.act hrun hnodes hj hev sim hact hhanded
      refine ⟨_, c', ms', rs, (Continues.refl hrun).next hstep, hc', ?_⟩
      rw [hnet]
      exact sim'.mono _
    · next l₁ response hact =>
      obtain ⟨rfl, -⟩ := Prod.mk.inj (Option.some.inj hframe)
      rw [Links.answer_handed] at hhanded
      obtain ⟨c', net', ms', hstep, hc', hnet, sim', hreact⟩ := Sim.act hrun hnodes hj hev sim hact
        fun x hx => hhanded x (List.mem_append_left _ hx)
      obtain ⟨rs', sim''⟩ := sim'.answer
        (hhanded response (List.mem_append_right _ (List.mem_singleton_self _)))
        hreact.answered.1 hi hj
      refine ⟨_, c', ms', rs', (Continues.refl hrun).next hstep, by rw [hc', Links.answer_nodes], ?_⟩
      rw [hnet]
      exact sim''

/-- So is a frame on the way back. It is no request, so it is not answered. -/
theorem clientFrame {g : List (Cluster × Event)} {c : Cluster} (hrun : Run (raftSystem M) g c)
    (hnodes : c.nodes = l.nodes) {i j : Nat} {m : RaftMessage}
    (sim : Sim pb M sb cb (⟨j, i, m⟩ :: todo) c.net l ms rs) (hm : m.Sendable pb)
    (hreq : m.requester = none) (hi : i ∈ M.ids) {l' : Links} {envs envs' : List Env}
    (hframe : Links.onClientFrame pb i j (some (l, envs)) (pb.serialize m) = some (l', envs'))
    (hhanded : ∀ x ∈ l'.handed, x.Sendable pb) :
    ∃ g' c' ms', Continues (raftSystem M) g c g' c' ∧ c'.nodes = l'.nodes ∧
      Sim pb M sb cb todo c'.net l' ms' rs := by
  obtain ⟨hmem, sim⟩ := sim.take
  unfold Links.onClientFrame at hframe
  simp only [pb.parse_serialize m hm.1] at hframe
  cases envs with
  | nil => exact nomatch hframe
  | cons env envs =>
    have hev : (raftSystem M).step c (.deliver ⟨j, i, m⟩ env) =
        c.act i env (.message j m) (c.net.erase ⟨j, i, m⟩) := if_pos ⟨hi, hmem⟩
    dsimp only at hframe
    split at hframe
    · exact nomatch hframe
    · next l₁ hact =>
      obtain ⟨rfl, -⟩ := Prod.mk.inj (Option.some.inj hframe)
      obtain ⟨c', net', ms', hstep, hc', hnet, sim', -⟩ :=
        Sim.act hrun hnodes hi hev sim hact hhanded
      refine ⟨_, c', ms', (Continues.refl hrun).next hstep, hc', ?_⟩
      rw [hnet]
      exact sim'.mono _
    · next l₁ response hact =>
      obtain ⟨rfl, -⟩ := Prod.mk.inj (Option.some.inj hframe)
      rw [Links.sendRaftRpc_handed] at hhanded
      obtain ⟨-, -, -, -, -, -, -, hreact⟩ := Sim.act hrun hnodes hi hev sim hact
        fun x hx => hhanded x (List.mem_append_left _ hx)
      obtain ⟨-, src, msg, hinput, hne⟩ := hreact.answered
      obtain ⟨-, rfl⟩ := Input.message.inj hinput
      exact absurd hreq hne

end Sim

end Dkv
