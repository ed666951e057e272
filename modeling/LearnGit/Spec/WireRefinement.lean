import LearnGit.Spec.LeaderCompleteness
import LearnGit.Spec.WireMessages

/-!
# Raft on bytes refines Raft on packets

A chunk of bytes completes any number of messages, and the receive loop handles them all
before anything else happens at its node. On packets it is matched by as many deliveries.
What holds of all runs on packets then holds of the nodes that exchange bytes.

## Key results

- `FrameHandler.foldl_continues`: the frames of a chunk are deliveries
- `WireSim.step`: a step on connections is matched by steps on packets
- `wire_refines`: the nodes of every run on connections are those of a run on packets
- `wire_safety`: the safety properties of the nodes that exchange bytes
-/

namespace Dkv

open Transition ChunkedStream Decoder

variable {pb : RaftProtobuf} {M : Membership}

/-! ## One chunk -/

namespace Links

theorem act_handed {l l' : Links} {i : Nat} {env : Env} {input : Input}
    {reply : Option RaftMessage} (hact : l.act pb i env input = some (l', reply)) :
    l.handed <+: l'.handed := by
  unfold act at hact
  dsimp only at hact
  split at hact
  · obtain ⟨rfl, -⟩ := Prod.mk.inj (Option.some.inj hact)
    rw [(foldl_runCall _ _ i _).2]
    exact List.prefix_append _ _
  · exact nomatch hact

theorem onServerFrame_handed {l l' : Links} {i j : Nat} {type : UInt8} {payload : Bytes}
    {envs envs' : List Env}
    (hframe : onServerFrame pb i j (some (l, envs)) type payload = some (l', envs')) :
    l.handed <+: l'.handed := by
  unfold onServerFrame at hframe
  dsimp only at hframe
  split at hframe
  · split at hframe
    · obtain ⟨rfl, -⟩ := Prod.mk.inj (Option.some.inj hframe)
      exact List.prefix_refl _
    · split at hframe
      · exact nomatch hframe
      · split at hframe
        · exact nomatch hframe
        · next l₁ hact =>
          obtain ⟨rfl, -⟩ := Prod.mk.inj (Option.some.inj hframe)
          exact act_handed hact
        · next l₁ response hact =>
          obtain ⟨rfl, -⟩ := Prod.mk.inj (Option.some.inj hframe)
          rw [answer_handed]
          exact (act_handed hact).trans (List.prefix_append _ _)
  · obtain ⟨rfl, -⟩ := Prod.mk.inj (Option.some.inj hframe)
    exact List.prefix_refl _

theorem onClientFrame_handed {l l' : Links} {i j : Nat} {payload : Bytes} {envs envs' : List Env}
    (hframe : onClientFrame pb i j (some (l, envs)) payload = some (l', envs')) :
    l.handed <+: l'.handed := by
  unfold onClientFrame at hframe
  dsimp only at hframe
  split at hframe
  · obtain ⟨rfl, -⟩ := Prod.mk.inj (Option.some.inj hframe)
    exact List.prefix_refl _
  · split at hframe
    · exact nomatch hframe
    · split at hframe
      · exact nomatch hframe
      · next l₁ hact =>
        obtain ⟨rfl, -⟩ := Prod.mk.inj (Option.some.inj hframe)
        exact act_handed hact
      · next l₁ response hact =>
        obtain ⟨rfl, -⟩ := Prod.mk.inj (Option.some.inj hframe)
        rw [sendRaftRpc_handed]
        exact (act_handed hact).trans (List.prefix_append _ _)

end Links

/-- The handler of a receive loop: it does nothing after a failure, and never takes back
    what was handed to a connection. -/
structure FrameHandler (frame : Option (Links × List Env) → Bytes × Bytes →
    Option (Links × List Env)) : Prop where
  frame_none : ∀ f, frame none f = none
  frame_handed : ∀ {l l' envs envs' f}, frame (some (l, envs)) f = some (l', envs') →
    l.handed <+: l'.handed

namespace FrameHandler

variable {frame : Option (Links × List Env) → Bytes × Bytes → Option (Links × List Env)}

theorem foldl_none (hframe : FrameHandler frame) (fs : List (Bytes × Bytes)) :
    fs.foldl frame none = none := by
  induction fs with
  | nil => rfl
  | cons f fs ih => rw [List.foldl_cons, hframe.frame_none, ih]

theorem foldl_handed (hframe : FrameHandler frame) {fs : List (Bytes × Bytes)} {l l' : Links}
    {envs envs' : List Env} (hfold : fs.foldl frame (some (l, envs)) = some (l', envs')) :
    l.handed <+: l'.handed := by
  induction fs generalizing l envs with
  | nil =>
    obtain ⟨rfl, -⟩ := Prod.mk.inj (Option.some.inj hfold)
    exact List.prefix_refl _
  | cons f fs ih =>
    rw [List.foldl_cons] at hfold
    cases hone : frame (some (l, envs)) f with
    | none =>
      rw [hone, hframe.foldl_none] at hfold
      exact nomatch hfold
    | some s => exact (hframe.frame_handed hone).trans (ih (hone ▸ hfold))

variable {sb cb : Nat → Nat → Bytes}

/-- Where each frame is a packet that is delivered, so are the frames of a chunk. -/
theorem foldl_continues (hframe : FrameHandler frame) {packet : RaftMessage → Packet}
    {msgs : List RaftMessage}
    (hone : ∀ m ∈ msgs, ∀ {g c l l' ms rs todo envs envs'}, Run (raftSystem M) g c →
      c.nodes = l.nodes → Sim pb M sb cb (packet m :: todo) c.net l ms rs →
      frame (some (l, envs)) (m.item pb) = some (l', envs') → (∀ x ∈ l'.handed, x.Sendable pb) →
      ∃ g' c' ms' rs', Continues (raftSystem M) g c g' c' ∧ c'.nodes = l'.nodes ∧
        Sim pb M sb cb todo c'.net l' ms' rs')
    {g : List (Cluster × Event)} {c : Cluster} {l l' : Links}
    {ms rs : Nat → Nat → List RaftMessage} {envs envs' : List Env}
    (hrun : Run (raftSystem M) g c) (hnodes : c.nodes = l.nodes)
    (sim : Sim pb M sb cb (msgs.map packet) c.net l ms rs)
    (hfold : (msgs.map (RaftMessage.item pb)).foldl frame (some (l, envs)) = some (l', envs'))
    (hhanded : ∀ x ∈ l'.handed, x.Sendable pb) :
    ∃ g' c' ms' rs', Continues (raftSystem M) g c g' c' ∧ c'.nodes = l'.nodes ∧
      Sim pb M sb cb [] c'.net l' ms' rs' := by
  induction msgs generalizing g c l ms rs envs with
  | nil =>
    obtain ⟨rfl, -⟩ := Prod.mk.inj (Option.some.inj hfold)
    exact ⟨g, c, ms, rs, .refl hrun, hnodes, sim⟩
  | cons m msgs ih =>
    rw [List.map_cons, List.foldl_cons] at hfold
    cases hfirst : frame (some (l, envs)) (m.item pb) with
    | none =>
      rw [hfirst, hframe.foldl_none] at hfold
      exact nomatch hfold
    | some s =>
      obtain ⟨l₁, envs₁⟩ := s
      rw [hfirst] at hfold
      have hpre := hframe.foldl_handed hfold
      obtain ⟨g₁, c₁, ms₁, rs₁, hcont, hnodes₁, sim₁⟩ := hone m List.mem_cons_self hrun hnodes sim
        hfirst fun x hx => hhanded x (hpre.subset hx)
      obtain ⟨g', c', ms', rs', hcont', hrest⟩ := ih
        (fun x hx => hone x (List.mem_cons_of_mem _ hx)) hcont.run hnodes₁ sim₁ hfold
      exact ⟨g', c', ms', rs', hcont.trans hcont', hrest⟩

end FrameHandler

theorem frameHandler_server (i j : Nat) :
    FrameHandler fun s f => Links.onServerFrame pb i j s (f.1.getD 4 0) f.2 :=
  ⟨fun _ => rfl, Links.onServerFrame_handed⟩

theorem frameHandler_client (i j : Nat) :
    FrameHandler fun s f => Links.onClientFrame pb i j s f.2 :=
  ⟨fun _ => rfl, Links.onClientFrame_handed⟩

/-- The messages that were under way are the taken ones and those that still are. -/
theorem count_taken (ms : Nat → Nat → List RaftMessage) {i j a b : Nat} {m : RaftMessage} (k : Nat)
    (packet : RaftMessage → Packet) (p : Packet)
    (hpacket : ∀ x, packet x = p ↔ (a = i ∧ b = j) ∧ x = m) :
    (update₂ ms i j ((ms i j).drop k) a b).count m + (((ms i j).take k).map packet).count p =
      (ms a b).count m := by
  rw [update₂_apply, List.count, List.count, List.countP_map]
  by_cases hab : a = i ∧ b = j
  · obtain ⟨rfl, rfl⟩ := hab
    have hsame : ∀ x, ((· == p) ∘ packet) x = (x == m) := fun x => by
      rw [Function.comp_apply, Bool.eq_iff_iff, beq_iff_eq, beq_iff_eq, hpacket]
      simp
    rw [if_pos ⟨rfl, rfl⟩, show (· == p) ∘ packet = (· == m) from funext hsame, Nat.add_comm,
      ← List.countP_append, List.take_append_drop]
  · have hnone : ∀ x, ((· == p) ∘ packet) x = false := fun x => by
      rw [Function.comp_apply, beq_eq_false_iff_ne]
      exact fun heq => hab ((hpacket x).mp heq).1
    rw [if_neg hab, show (· == p) ∘ packet = fun _ => false from funext hnone, List.countP_false,
      Function.const_apply, Nat.add_zero]

theorem Spells.drop {buf out : Nat → Nat → Bytes} {ms : Nat → Nat → List RaftMessage}
    (hspells : Spells pb buf out ms) {i j k : Nat} {part later : Bytes}
    (hrest : part ++ later = ((ms i j).drop k).flatMap (RaftMessage.bytes pb)) :
    Spells pb (update₂ buf i j part) (update₂ out i j later)
      (update₂ ms i j ((ms i j).drop k)) := by
  intro a b
  simp only [update₂_apply]
  split
  · exact hrest
  · exact hspells a b

theorem forall_mem_drop {P : Nat → Nat → RaftMessage → Prop} {ms : Nat → Nat → List RaftMessage}
    (hms : ∀ a b, ∀ m ∈ ms a b, P a b m) (i j k : Nat) :
    ∀ a b, ∀ m ∈ update₂ ms i j ((ms i j).drop k) a b, P a b m := by
  intro a b m hm
  rw [update₂_apply] at hm
  split at hm
  · next hab =>
    obtain ⟨rfl, rfl⟩ := hab
    exact hms a b m (List.mem_of_mem_drop hm)
  · exact hms a b m hm

namespace Sim

variable {sb cb : Nat → Nat → Bytes} {net : List Packet} {l : Links}
  {ms rs : Nat → Nat → List RaftMessage} {i j k : Nat} {part later : Bytes}

/-- A chunk has arrived at a server, and the first `k` messages are to be handled. -/
theorem arriveServer (sim : Sim pb M sb cb [] net l ms rs) {c : Connection}
    (hc : c.toClient = l.toClient i j) (hlater : c.toServer = later)
    (hrest : part ++ later = ((ms i j).drop k).flatMap (RaftMessage.bytes pb)) :
    Sim pb M (update₂ sb i j part) cb (((ms i j).take k).map fun m => ⟨i, j, m⟩) net
      (l.setConn i j c) (update₂ ms i j ((ms i j).drop k)) rs where
  toServer := by
    rw [Links.setConn_toServer, hlater]
    exact sim.toServer.drop hrest
  toClient := by
    rw [Links.setConn_toClient, hc, update₂_eq_self]
    exact sim.toClient
  requests := forall_mem_drop sim.requests i j k
  answers := sim.answers
  net := fun a b m => by
    have hnet := sim.net a b m
    have htaken := count_taken ms (i := i) (j := j) (a := a) (b := b) (m := m) k
      (fun m => ⟨i, j, m⟩) ⟨a, b, m⟩ fun x => by
        simp only [Packet.mk.injEq, eq_comm (a := i), eq_comm (a := j), and_assoc]
    rw [List.count_nil] at hnet
    omega

/-- A chunk of answers has arrived. -/
theorem arriveClient (sim : Sim pb M sb cb [] net l ms rs) {c : Connection}
    (hc : c.toServer = l.toServer i j) (hlater : c.toClient = later)
    (hrest : part ++ later = ((rs i j).drop k).flatMap (RaftMessage.bytes pb)) :
    Sim pb M sb (update₂ cb i j part) (((rs i j).take k).map fun m => ⟨j, i, m⟩) net
      (l.setConn i j c) ms (update₂ rs i j ((rs i j).drop k)) where
  toServer := by
    rw [Links.setConn_toServer, hc, update₂_eq_self]
    exact sim.toServer
  toClient := by
    rw [Links.setConn_toClient, hlater]
    exact sim.toClient.drop hrest
  requests := sim.requests
  answers := forall_mem_drop sim.answers i j k
  net := fun a b m => by
    have hnet := sim.net a b m
    have htaken := count_taken rs (i := i) (j := j) (a := b) (b := a) (m := m) k
      (fun m => ⟨j, i, m⟩) ⟨a, b, m⟩ fun x => by
        simp only [Packet.mk.injEq, eq_comm (a := i), eq_comm (a := j), and_assoc,
          and_left_comm (a := a = j)]
    rw [List.count_nil] at hnet
    omega

end Sim

/-! ## Steps and runs -/

/-- The nodes are the same, and every receive loop waits on a part of the next message. -/
def WireSim (pb : RaftProtobuf) (M : Membership) (w : WireCluster) (c : Cluster) : Prop :=
  c.nodes = w.links.nodes ∧ ∃ sb cb ms rs, (∀ i j, w.serverBuf i j = some (sb i j)) ∧
    (∀ i j, w.clientBuf i j = some (cb i j)) ∧ Sim pb M sb cb [] c.net w.links ms rs

theorem WireSim.init {w : WireCluster} (hinit : (wireSystem pb M).init w) :
    ∃ c, (raftSystem M).init c ∧ WireSim pb M w c := by
  obtain ⟨hnodes, hconns, -, hserver, hclient⟩ := hinit
  refine ⟨⟨w.links.nodes, []⟩, ⟨hnodes, rfl⟩, rfl, fun _ _ => [], fun _ _ => [], fun _ _ => [],
    fun _ _ => [], hserver, hclient, ?_⟩
  constructor
  · intro i j
    rw [Links.toServer, hconns]
    rfl
  · intro i j
    rw [Links.toClient, hconns]
    rfl
  · exact fun _ _ _ hm => (List.not_mem_nil hm).elim
  · exact fun _ _ _ hm => (List.not_mem_nil hm).elim
  · exact fun _ _ _ => Nat.le_refl _

section Step

variable {w w' : WireCluster} {e : WireEvent} {g : List (Cluster × Event)} {c : Cluster}

/-- A step without bytes that arrive is a step of its node. -/
private theorem WireSim.react (hrun : Run (raftSystem M) g c) (hsim : WireSim pb M w c) {i : Nat}
    (hi : i ∈ M.ids) {env : Env} {input : Input} (ev : Event)
    (hev : (raftSystem M).step c ev = c.act i env input c.net)
    (hstep : (w.links.act pb i env input).map (fun r => { w with links := r.1 }) = some w')
    (hhanded : ∀ m ∈ w'.links.handed, m.Sendable pb) :
    ∃ g' c', Continues (raftSystem M) g c g' c' ∧ WireSim pb M w' c' := by
  obtain ⟨⟨l', reply⟩, hact, rfl⟩ := Option.map_eq_some_iff.mp hstep
  obtain ⟨hnodes, sb, cb, ms, rs, hserver, hclient, sim⟩ := hsim
  obtain ⟨c', net', ms', hc, hnodes', hnet, sim', -⟩ := Sim.act hrun hnodes hi hev sim hact hhanded
  refine ⟨_, c', (Continues.refl hrun).next hc, hnodes', sb, cb, ms', rs, hserver, hclient, ?_⟩
  rw [hnet]
  exact sim'.mono _

/-- Opening or closing a connection is no step of the nodes. -/
private theorem WireSim.setConn (hrun : Run (raftSystem M) g c) (hsim : WireSim pb M w c)
    {i j : Nat} {conn : Connection} (hserver : conn.toServer = w.links.toServer i j)
    (hclient : conn.toClient = w.links.toClient i j) :
    ∃ g' c', Continues (raftSystem M) g c g' c' ∧
      WireSim pb M { w with links := w.links.setConn i j conn } c' := by
  obtain ⟨hnodes, sb, cb, ms, rs, hsb, hcb, sim⟩ := hsim
  refine ⟨g, c, .refl hrun, hnodes, sb, cb, ms, rs, hsb, hcb, sim.of_conns ?_ ?_⟩
  · rw [Links.setConn_toServer, hserver, update₂_eq_self]
  · rw [Links.setConn_toClient, hclient, update₂_eq_self]

private theorem update₂_some {buf : Nat → Nat → Option Bytes} {sb : Nat → Nat → Bytes}
    (hbuf : ∀ i j, buf i j = some (sb i j)) {i j : Nat} {part : Bytes} (a b : Nat) :
    update₂ buf i j (some part) a b = some (update₂ sb i j part a b) := by
  rw [update₂_apply, update₂_apply, hbuf]
  split <;> rfl

/-- Each step on connections is matched by steps on packets: one for each message that it
    completes. -/
theorem WireSim.step (hstep : (wireSystem pb M).step w e = some w')
    (hhanded : ∀ m ∈ w'.links.handed, m.Sendable pb) (hrun : Run (raftSystem M) g c)
    (hsim : WireSim pb M w c) : ∃ g' c', Continues (raftSystem M) g c g' c' ∧ WireSim pb M w' c' := by
  cases e with
  | tick i env =>
    obtain ⟨hi, hstep⟩ := (Option.ite_none_right_eq_some).mp hstep
    exact WireSim.react hrun hsim hi (.tick i env) (if_pos hi) hstep hhanded
  | propose i env command =>
    obtain ⟨hi, hstep⟩ := (Option.ite_none_right_eq_some).mp hstep
    exact WireSim.react hrun hsim hi (.propose i env command) (if_pos hi) hstep hhanded
  | connect i j =>
    obtain ⟨-, hstep⟩ := (Option.ite_none_right_eq_some).mp hstep
    obtain rfl := Option.some.inj hstep
    exact hsim.setConn hrun rfl rfl
  | closeClient i j =>
    obtain rfl := Option.some.inj hstep
    exact hsim.setConn hrun rfl rfl
  | closeServer i j =>
    obtain rfl := Option.some.inj hstep
    exact hsim.setConn hrun rfl rfl
  | arriveServer i j size envs =>
    obtain ⟨hnodes, sb, cb, ms, rs, hsb, hcb, sim⟩ := hsim
    simp only [wireSystem, WireCluster.step, hsb] at hstep
    obtain ⟨-, hstep⟩ := (Option.ite_none_right_eq_some).mp hstep
    -- the loop takes the messages that the chunk completes
    have hstream := sim.toServer i j
    rw [← List.take_append_drop size (w.links.toServer i j)] at hstream
    obtain ⟨k, part, hloop, hrest⟩ := run_messages
      (fun s f => Links.onServerFrame pb i j s (f.1.getD 4 0) f.2)
      (fun m hm => (sim.requests i j m hm).1) hstream
    simp only [DataServer.onMessage, Links.toServer] at hstep hloop
    rw [hloop] at hstep
    obtain ⟨⟨l', envs'⟩, hfold, rfl⟩ := Option.map_eq_some_iff.mp hstep
    have sim₀ := sim.arriveServer (c := { w.links.conns i j with
      toServer := (w.links.conns i j).toServer.drop size }) rfl rfl hrest
    obtain ⟨g', c', ms', rs', hcont, hnodes', sim'⟩ := (frameHandler_server i j).foldl_continues
      (fun m hm _ _ _ _ _ _ _ _ _ hrun hnodes htodo hframe hhanded => by
        obtain ⟨hm, hreq, hi, hj⟩ := sim.requests i j m (List.mem_of_mem_take hm)
        exact Sim.serverFrame hrun hnodes htodo hm hreq hi hj hframe hhanded)
      hrun (by exact hnodes) sim₀ hfold hhanded
    exact ⟨g', c', hcont, hnodes', _, cb, ms', rs', update₂_some hsb, hcb, sim'⟩
  | arriveClient i j size envs =>
    obtain ⟨hnodes, sb, cb, ms, rs, hsb, hcb, sim⟩ := hsim
    simp only [wireSystem, WireCluster.step, hcb] at hstep
    obtain ⟨-, hstep⟩ := (Option.ite_none_right_eq_some).mp hstep
    have hstream := sim.toClient i j
    rw [← List.take_append_drop size (w.links.toClient i j)] at hstream
    obtain ⟨k, part, hloop, hrest⟩ := run_messages
      (fun s f => Links.onClientFrame pb i j s f.2) (fun m hm => (sim.answers i j m hm).1) hstream
    simp only [RaftService.onPeerMessage, Links.toClient] at hstep hloop
    rw [hloop] at hstep
    obtain ⟨⟨l', envs'⟩, hfold, rfl⟩ := Option.map_eq_some_iff.mp hstep
    have sim₀ := sim.arriveClient (c := { w.links.conns i j with
      toClient := (w.links.conns i j).toClient.drop size }) rfl rfl hrest
    obtain ⟨g', c', ms', rs', hcont, hnodes', sim'⟩ := (frameHandler_client i j).foldl_continues
      (fun m hm _ _ _ _ _ _ _ _ _ hrun hnodes htodo hframe hhanded => by
        obtain ⟨hm, hreq, hi, -⟩ := sim.answers i j m (List.mem_of_mem_take hm)
        obtain ⟨g', c', ms', hrest⟩ := Sim.clientFrame hrun hnodes htodo hm hreq hi hframe hhanded
        exact ⟨g', c', ms', _, hrest⟩)
      hrun (by exact hnodes) sim₀ hfold hhanded
    exact ⟨g', c', hcont, hnodes', sb, _, ms', rs', hsb, update₂_some hcb, sim'⟩

end Step

/-- What was handed to the connections is kept by every step. -/
theorem handed_prefix {w w' : WireCluster} {e : WireEvent}
    (hstep : (wireSystem pb M).step w e = some w') : w.links.handed <+: w'.links.handed := by
  cases e with
  | tick i env | propose i env command =>
    obtain ⟨-, hstep⟩ := (Option.ite_none_right_eq_some).mp hstep
    obtain ⟨⟨l', reply⟩, hact, rfl⟩ := Option.map_eq_some_iff.mp hstep
    exact Links.act_handed hact
  | connect i j =>
    obtain ⟨-, hstep⟩ := (Option.ite_none_right_eq_some).mp hstep
    obtain rfl := Option.some.inj hstep
    exact List.prefix_refl _
  | closeClient i j | closeServer i j =>
    obtain rfl := Option.some.inj hstep
    exact List.prefix_refl _
  | arriveServer i j size envs =>
    simp only [wireSystem, WireCluster.step] at hstep
    split at hstep
    · exact nomatch hstep
    · obtain ⟨-, hstep⟩ := (Option.ite_none_right_eq_some).mp hstep
      obtain ⟨⟨l', envs'⟩, hfold, rfl⟩ := Option.map_eq_some_iff.mp hstep
      rw [DataServer.onMessage, run_fst] at hfold
      have hpre := (frameHandler_server i j).foldl_handed hfold
      exact hpre
  | arriveClient i j size envs =>
    simp only [wireSystem, WireCluster.step] at hstep
    split at hstep
    · exact nomatch hstep
    · obtain ⟨-, hstep⟩ := (Option.ite_none_right_eq_some).mp hstep
      obtain ⟨⟨l', envs'⟩, hfold, rfl⟩ := Option.map_eq_some_iff.mp hstep
      rw [RaftService.onPeerMessage, run_fst] at hfold
      have hpre := (frameHandler_client i j).foldl_handed hfold
      exact hpre

section Runs

variable {h : List (WireCluster × WireEvent)} {w : WireCluster}

/-- A run on connections is followed by one on packets. -/
theorem exists_packet_run (hrun : Run (wireSystem pb M) h w)
    (hsend : ∀ m ∈ w.links.handed, m.Sendable pb) :
    ∃ g c, Run (raftSystem M) g c ∧ WireSim pb M w c ∧
      ∀ u ∈ visited h w, ∃ v ∈ visited g c, WireSim pb M u v := by
  have hhanded : ∀ u ∈ visited h w, ∀ m ∈ u.links.handed, m.Sendable pb := by
    intro u hu m hm
    have hpre := hrun.visited_le (R := fun u v => u.links.handed <+: v.links.handed)
      (fun _ => List.prefix_refl _) (fun _ _ _ => List.IsPrefix.trans)
      (fun _ _ _ _ _ hstep => handed_prefix hstep) hu
    exact hsend m (hpre.subset hm)
  exact hrun.simulates hhanded (fun w => WireSim.init)
    fun _ _ _ _ _ hstep hP hrun hsim => hsim.step hstep hP hrun

/-- However the bytes of the connections are cut into chunks and whatever connections are
    closed, the nodes of a run are at every moment those of a run on packets, and no receive
    loop reads past its buffer. -/
theorem wire_refines (hrun : Run (wireSystem pb M) h w)
    (hsend : ∀ m ∈ w.links.handed, m.Sendable pb) :
    ∃ g c, Run (raftSystem M) g c ∧ c.nodes = w.links.nodes ∧
      ∀ u ∈ visited h w, (∃ v ∈ visited g c, v.nodes = u.links.nodes) ∧
        ∀ i j, u.serverBuf i j ≠ none ∧ u.clientBuf i j ≠ none := by
  obtain ⟨g, c, hrun', ⟨hnodes, -⟩, hvisited⟩ := exists_packet_run hrun hsend
  refine ⟨g, c, hrun', hnodes, fun u hu => ?_⟩
  obtain ⟨v, hv, hnodes, sb, cb, -, -, hserver, hclient, -⟩ := hvisited u hu
  refine ⟨⟨v, hv, hnodes⟩, fun i j => ⟨?_, ?_⟩⟩
  · rw [hserver]
    exact Option.some_ne_none _
  · rw [hclient]
    exact Option.some_ne_none _

/-- Nodes that exchange bytes elect one leader a term, keep their logs matching and lose no
    entry that a majority held in its own term. -/
theorem wire_safety (hrun : Run (wireSystem pb M) h w)
    (hsend : ∀ m ∈ w.links.handed, m.Sendable pb) :
    (∀ u ∈ visited h w, ∀ v ∈ visited h w, ∀ a ∈ M.ids, ∀ b ∈ M.ids,
      (u.links.nodes a).state = .leader → (v.links.nodes b).state = .leader →
      (u.links.nodes a).currentTerm = (v.links.nodes b).currentTerm → a = b) ∧
    (∀ u ∈ visited h w, ∀ a ∈ M.ids, ∀ b ∈ M.ids, ∀ (i : Nat) (x y : LogEntry),
      (u.links.nodes a).log[i]? = some x → (u.links.nodes b).log[i]? = some y →
      x.term = y.term →
      (u.links.nodes a).log.take (i + 1) = (u.links.nodes b).log.take (i + 1)) ∧
    ∀ Q, Quorum.Majority M.ids Q → ∀ (i : Nat) (x : LogEntry),
      (∀ q ∈ Q, ∃ u ∈ visited h w,
        (u.links.nodes q).currentTerm = x.term ∧ (u.links.nodes q).log[i]? = some x) →
      ∀ u ∈ visited h w, ∀ l ∈ M.ids, (u.links.nodes l).state = .leader →
        x.term < (u.links.nodes l).currentTerm → (u.links.nodes l).log[i]? = some x := by
  obtain ⟨g, c, hrun', -, hvisited⟩ := exists_packet_run hrun hsend
  have hsame : ∀ u ∈ visited h w, ∃ v ∈ visited g c, v.nodes = u.links.nodes := by
    intro u hu
    obtain ⟨v, hv, hnodes, -⟩ := hvisited u hu
    exact ⟨v, hv, hnodes⟩
  refine ⟨fun u hu v hv a ha b hb hla hlb hterm => ?_,
    fun u hu a ha b hb i x y hx hy hterm => ?_, fun Q hQ i x hheld u hu l hl hleader hlt => ?_⟩
  · obtain ⟨u', hu', hnu⟩ := hsame u hu
    obtain ⟨v', hv', hnv⟩ := hsame v hv
    rw [← hnu] at hla hterm
    rw [← hnv] at hlb hterm
    exact leader_unique hrun' hu' hv' ha hb hla hlb hterm
  · obtain ⟨u', hu', hnu⟩ := hsame u hu
    rw [← hnu] at hx hy ⊢
    exact logs_matching hrun' hu' hu' ha hb i x y hx hy hterm
  · obtain ⟨u', hu', hnu⟩ := hsame u hu
    rw [← hnu] at hleader hlt ⊢
    refine leaderLog_complete hrun' hQ (fun q hq => ?_) ⟨u', hu', l, hl, hleader, rfl, rfl⟩ hlt
    obtain ⟨v, hv, hterm, hlog⟩ := hheld q hq
    obtain ⟨v', hv', hnv⟩ := hsame v hv
    exact ⟨v', hv', by rw [hnv, hterm], by rw [hnv, hlog]⟩

end Runs

/-- Node 1 of three asks node 2 for its vote, and the request arrives in two pieces. Node 1
    leads and proposes a command; its first heartbeat and the entry arrive at node 2 in one
    chunk, the answers in two. -/
def electedOverTcp : List WireEvent :=
  [.connect 1 2, .connect 1 3, .tick 1 (atTime 200),
    .arriveServer 1 2 3 [], .arriveServer 1 2 100 [atTime 210],
    .closeClient 1 3, .arriveClient 1 2 100 [atTime 220],
    .propose 1 (atTime 230) [97],
    .arriveServer 1 2 100 [atTime 240, atTime 241],
    .arriveClient 1 2 5 [], .arriveClient 1 2 100 [atTime 250, atTime 251]]

theorem electedOverTcp_runs : (wireSchedule .wire 3 electedOverTcp).isSome := by decide +kernel

theorem wire_refines_electedOverTcp :
    let r := (wireSchedule .wire 3 electedOverTcp).get electedOverTcp_runs
    (r.2.links.nodes 1).matchIndex 2 = 1 ∧ ∃ g c, Run (raftSystem (.ofSize 3)) g c ∧
      c.nodes = r.2.links.nodes ∧ ∀ u ∈ visited r.1 r.2,
        (∃ v ∈ visited g c, v.nodes = u.links.nodes) ∧
          ∀ i j, u.serverBuf i j ≠ none ∧ u.clientBuf i j ≠ none :=
  ⟨by decide +kernel, wire_refines (wireSchedule_run electedOverTcp_runs) (by decide +kernel)⟩

theorem wire_safety_electedOverTcp :
    let r := (wireSchedule .wire 3 electedOverTcp).get electedOverTcp_runs
    (r.2.links.nodes 1).log.length = 2 ∧
      (r.2.links.nodes 1).log.take 2 = (r.2.links.nodes 2).log.take 2 := by
  intro r
  obtain ⟨-, hmatch, -⟩ := wire_safety (wireSchedule_run electedOverTcp_runs) (by decide +kernel)
  exact ⟨by decide +kernel, hmatch _ (mem_visited_self _ _) 1 (by decide) 2 (by decide) 1
    ⟨1, 1, [97]⟩ ⟨1, 1, [97]⟩ (by decide +kernel) (by decide +kernel) rfl⟩

end Dkv
