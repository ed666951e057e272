import LearnGit.Native.CrashingCluster
import LearnGit.Spec.ElectionSafety
import LearnGit.Spec.VoteDurability

/-!
# Election safety across crashes

Nodes crash anywhere while they handle an input and start again with a follower's role
and what their engine holds. A vote lives on as the message that granted it: `Supports`
takes the place that the vote in memory has where nobody crashes. What a crashing node
leaves behind is compared with the state `d` in which it would have handled its input to
the end: the node is the one of `d` or a fresh follower, and of the packets of `d` some
may be missing.

## Key results

- `CrashActed`: a step of a node, next to the same step without a crash
- `CrashElectionInv`: the invariant behind the vote counter, on what was sent
- `crash_leader_unique`: two leaders of one term are one node, whatever crashes in between
-/

namespace Dkv

open Transition RaftNode

variable {pb : Protobuf} {M : Membership}

/-! ## Messages of a node -/

/-- The message that an effect sends. -/
def Effect.message? : Effect → Option SentMessage
  | .send m => some m
  | _ => none

theorem run_effects_sent (pb : Protobuf) (xs : List Effect) (s : Lasting) :
    (xs.foldl (Effect.run pb) s).sent = s.sent ++ xs.filterMap Effect.message? := by
  induction xs generalizing s with
  | nil => exact (List.append_nil _).symm
  | cons x xs ih =>
    rw [List.foldl_cons, ih]
    cases x with
    | send m => simp [Effect.run, Effect.message?]
    | _ => rfl

namespace CrashingNode

/-- What a node sends when it handles an input to the end. -/
def messages (s : CrashingNode) (env : Env) (input : Input) : List SentMessage :=
  (s.effects env input).filterMap Effect.message?

theorem mem_messages {s : CrashingNode} {env : Env} {input : Input} {m : SentMessage} :
    m ∈ s.messages env input ↔
      (∃ pid msg, .send pid msg ∈ s.node.newCalls (s.node.react env input).1 ∧
          m = .toPeer pid msg) ∨
        ∃ src request response, input = .message src request ∧
          (s.node.react env input).2 = some response ∧ m = .answer request response := by
  rw [messages, effects, List.filterMap_append, List.mem_append]
  refine or_congr ?_ ?_
  · simp only [List.mem_filterMap, List.mem_flatMap]
    constructor
    · rintro ⟨x, ⟨c, hc, hx⟩, hm⟩
      cases c with
      | send pid msg =>
        obtain rfl := List.mem_singleton.mp hx
        exact ⟨pid, msg, hc, (Option.some.inj hm).symm⟩
      | persist =>
        simp only [Call.effects, List.mem_cons, List.not_mem_nil, or_false] at hx
        rcases hx with rfl | rfl | rfl <;> simp [Effect.message?] at hm
      | apply =>
        obtain rfl := List.mem_singleton.mp hx
        simp [Effect.message?] at hm
    · rintro ⟨pid, msg, hc, rfl⟩
      exact ⟨.send (.toPeer pid msg), ⟨_, hc, List.mem_singleton_self _⟩, rfl⟩
  · unfold answerEffects
    split
    · next src request response hreply =>
      simp only [List.filterMap_cons, Effect.message?, List.filterMap_nil, List.mem_singleton]
      constructor
      · rintro rfl
        exact ⟨src, request, response, rfl, hreply, rfl⟩
      · rintro ⟨_, _, response', heq, hreply', rfl⟩
        obtain ⟨-, rfl⟩ := Input.message.inj heq
        rw [Option.some.inj (hreply.symm.trans hreply')]
    · next hno =>
      simp only [List.filterMap_nil, List.not_mem_nil, false_iff]
      rintro ⟨src, request, response, rfl, hreply, -⟩
      exact hno src request response rfl hreply

/-- The packets of these messages are those that the node puts in flight where nobody
    crashes. -/
theorem packets_messages (s : CrashingNode) (i : Nat) (env : Env) (input : Input) :
    (s.messages env input).filterMap (SentMessage.packet i input) =
      sent i s.node (s.node.react env input).1 ++ replies i input (s.node.react env input).2 := by
  have hcalls : ∀ calls : List Call, ((calls.flatMap Call.effects).filterMap
      Effect.message?).filterMap (SentMessage.packet i input) =
        calls.filterMap (Call.packet i) := by
    intro calls
    induction calls with
    | nil => rfl
    | cons c calls ih =>
      rw [List.flatMap_cons, List.filterMap_append, List.filterMap_append, ih]
      cases c <;> rfl
  rw [messages, effects, List.filterMap_append, List.filterMap_append, hcalls]
  congr 1
  unfold answerEffects replies
  cases input with
  | message src request => cases (s.node.react env (.message src request)).2 <;> rfl
  | tick => rfl
  | propose command => rfl

end CrashingNode

/-- What a message of a node becomes carries the message. -/
theorem SentMessage.packet_msg {i : Nat} {input : Input} {m : SentMessage} {p : Packet}
    (hp : m.packet i input = some p) : p.src = i ∧ p.msg = m.message := by
  cases m with
  | toPeer =>
    obtain rfl := Option.some.inj hp
    exact ⟨rfl, rfl⟩
  | answer =>
    obtain ⟨_, -, rfl⟩ := Option.map_eq_some_iff.mp hp
    exact ⟨rfl, rfl⟩

/-- Support is never taken back. -/
theorem Supports.mono {nodeId : Nat} {sent sent' : List SentMessage} {cand term : Nat}
    (hsup : Supports nodeId sent cand term) (hpre : sent <+: sent') :
    Supports nodeId sent' cand term := by
  obtain ⟨new, rfl⟩ := hpre
  exact supports_append.mpr (.inl hsup)

/-! ## Steps -/

/-- The nodes without their engines. -/
def CrashingCluster.raft (c : CrashingCluster) : Cluster where
  nodes i := (c.nodes i).node
  net := c.net

/-- Node `i` handled an input or crashed while it did, sending `new`; without a crash the
    step would have led to `d`. -/
structure CrashActed (M : Membership) (c c' : CrashingCluster) (d : Cluster) (e : Event)
    (i : Nat) (env : Env) (input : Input) (reply : Option RaftMessage) (net : List Packet)
    (new : List SentMessage) : Prop where
  act : Acted M c.raft d e i env input reply net
  others : ∀ j, j ≠ i → c'.nodes j = c.nodes j
  sent_eq : (c'.nodes i).lasting.sent = (c.nodes i).lasting.sent ++ new
  net_eq : c'.net = net ++ new.filterMap (SentMessage.packet i input)
  new_prefix : new <+: (c.nodes i).messages env input
  net_sublist : c'.net.Sublist d.net
  peerIds_eq : (c'.nodes i).node.peerIds = (c.nodes i).node.peerIds
  node_eq : d.nodes i = ((c.nodes i).node.react env input).1
  reply_eq : reply = ((c.nodes i).node.react env input).2
  outcome : (c'.nodes i).node = d.nodes i ∧ new = (c.nodes i).messages env input ∨
    (c'.nodes i).node.state = .follower

theorem recoverRaftState_role {engine : RocksEngine} {n n' : RaftNode}
    (hn : RaftService.recoverRaftState pb engine n = .ok n') :
    n'.state = n.state ∧ n'.peerIds = n.peerIds := by
  unfold RaftService.recoverRaftState at hn
  cases hstate : RaftService.recoveredState pb engine with
  | error => rw [hstate] at hn; exact nomatch hn
  | ok stored =>
    rw [hstate] at hn
    cases stored with
    | none =>
      obtain rfl := Except.ok.inj hn
      exact ⟨rfl, rfl⟩
    | some =>
      obtain rfl := Except.ok.inj hn
      exact ⟨rfl, rfl⟩

/-- A step of a node sends the first messages of handling its input, and either all of them
    or the node is a fresh follower. -/
theorem CrashingNode.step_cases {s s' : CrashingNode} {e : CrashEvent}
    (hstep : s.step pb e = some s') :
    ∃ new, s'.lasting.sent = s.lasting.sent ++ new ∧
      new <+: s.messages e.handled.1 e.handled.2 ∧ s'.node.peerIds = s.node.peerIds ∧
      ((s'.node = (s.node.react e.handled.1 e.handled.2).1 ∧
        new = s.messages e.handled.1 e.handled.2) ∨ s'.node.state = .follower) := by
  cases e with
  | handle env input =>
    obtain rfl := Option.some.inj hstep
    exact ⟨_, run_effects_sent pb _ _, List.prefix_refl _,
      (s.node.react_cases env input).peerIds_eq, .inl ⟨rfl, rfl⟩⟩
  | crash env input done restart =>
    unfold CrashingNode.step at hstep
    dsimp only at hstep
    split at hstep
    · next n hn =>
      obtain rfl := Option.some.inj hstep
      obtain ⟨hstate, hpeers⟩ := recoverRaftState_role hn
      exact ⟨_, run_effects_sent pb _ _, (List.take_prefix done _).filterMap _, hpeers,
        .inr hstate⟩
    · exact nomatch hstep

section Step

variable {c c' : CrashingCluster} {e : CrashingCluster.Event}

/-- A step of the cluster loses a packet or is a step of one node. -/
theorem crashing_step_cases (hstep : (crashingSystem pb M).step c e = some c') :
    (∃ p, e = .lose p ∧ c'.nodes = c.nodes ∧ c'.net = c.net.erase p) ∨
      ∃ i ce, e = .node i ce ∧ (c.nodes i).step pb ce = some (c'.nodes i) ∧
        ∃ d ev reply net new,
          CrashActed M c c' d ev i ce.handled.1 ce.handled.2 reply net new := by
  cases e with
  | lose p =>
    obtain rfl := Option.some.inj hstep
    exact .inl ⟨p, rfl, rfl, rfl⟩
  | node i ce =>
    obtain ⟨⟨hi, harrived, hsize⟩, hnode⟩ := (Option.ite_none_right_eq_some).mp hstep
    obtain ⟨n', hn', hc'⟩ := Option.map_eq_some_iff.mp hnode
    have hself' : c'.nodes i = n' := by
      rw [← hc']
      exact Function.update_self _ _ _
    have hothers : ∀ j, j ≠ i → c'.nodes j = c.nodes j := by
      rw [← hc']
      exact fun j hj => Function.update_of_ne hj _ _
    obtain ⟨new, hsent, hpre, hpeers, hout⟩ := CrashingNode.step_cases hn'
    have hnet' : c'.net = c.rest i ce.handled.2 ++
        new.filterMap (SentMessage.packet i ce.handled.2) := by
      rw [← hc', hsent, List.drop_left]
    refine .inr ⟨i, ce, rfl, by rw [hself', hn'], ?_⟩
    generalize ce.handled.1 = env at *
    generalize ce.handled.2 = input at *
    -- the state that handling the input to the end would lead to
    let d : Cluster :=
      { nodes := Function.update c.raft.nodes i ((c.nodes i).node.react env input).1
        net := c.rest i input ++ sent i (c.nodes i).node ((c.nodes i).node.react env input).1 ++
          replies i input ((c.nodes i).node.react env input).2 }
    have hself : d.nodes i = ((c.nodes i).node.react env input).1 := Function.update_self _ _ _
    obtain ⟨ev, harrives⟩ : ∃ ev, Arrives c.raft ev i env input (c.rest i input) := by
      cases input with
      | tick => exact ⟨_, .tick i env⟩
      | propose command => exact ⟨_, .propose i env command⟩
      | message src msg => exact ⟨_, .deliver ⟨src, i, msg⟩ env (harrived _ rfl)⟩
    refine ⟨d, ev, _, c.rest i input, new, ?_, hothers, by rw [hself', hsent], hnet', hpre, ?_,
      by rw [hself', hpeers], hself, rfl, by rwa [hself', hself]⟩
    · refine ⟨hi, harrives, ?_, fun j hj => Function.update_of_ne hj _ _, ?_, by rwa [hself]⟩
      · rw [hself]
        exact (c.nodes i).node.react_cases env input
      · rw [hself]
        rfl
    · show c'.net.Sublist (c.rest i input ++ _ ++ _)
      rw [hnet', List.append_assoc, ← CrashingNode.packets_messages]
      exact (hpre.filterMap _).sublist.append_left _

end Step

namespace CrashActed

variable {c c' : CrashingCluster} {d : Cluster} {e : Event} {i : Nat} {env : Env} {input : Input}
  {reply : Option RaftMessage} {net : List Packet} {new : List SentMessage}

/-- What a node has sent stays sent. -/
theorem sent_prefix (hact : CrashActed M c c' d e i env input reply net new) (j : Nat) :
    (c.nodes j).lasting.sent <+: (c'.nodes j).lasting.sent := by
  by_cases hj : j = i
  · rw [hj, hact.sent_eq]
    exact List.prefix_append _ _
  · rw [hact.others j hj]

/-- A packet in flight was so before or is a message that the node has sent in the step. -/
theorem mem_net (hact : CrashActed M c c' d e i env input reply net new) {p : Packet}
    (hp : p ∈ c'.net) : p ∈ c.net ∨ ∃ m ∈ new, m.packet i input = some p := by
  rw [hact.net_eq, List.mem_append] at hp
  rcases hp with hp | hp
  · exact .inl (hact.act.net_subset hp)
  · exact .inr (List.mem_filterMap.mp hp)

theorem mem_sent (hact : CrashActed M c c' d e i env input reply net new) {m : SentMessage}
    (hm : m ∈ new) : m ∈ (c'.nodes i).lasting.sent := by
  rw [hact.sent_eq]
  exact List.mem_append_right _ hm

theorem ballots_le (hact : CrashActed M c c' d e i env input reply net new) (cand w T : Nat) :
    ballots c'.net cand w T ≤ ballots d.net cand w T :=
  hact.net_sublist.countP_le

end CrashActed

/-! ## The invariant -/

/-- The invariant of elections among nodes that crash. -/
structure CrashElectionInv (M : Membership) (c : CrashingCluster) : Prop where
  node : ∀ i ∈ M.ids, NodeInv i (c.nodes i)
  peers : ∀ i ∈ M.ids, (c.nodes i).node.peerIds = M.peerIds i
  term_pos : ∀ i ∈ M.ids, (c.nodes i).node.state ≠ .follower → 0 < (c.nodes i).node.currentTerm
  requests : ∀ p ∈ c.net, ∀ req, p.msg = .requestVote req → p.src ∈ M.ids ∧ req.candidateId = p.src
  /-- A granted reply shows support that was sent. -/
  granted : ∀ p ∈ c.net, ∀ resp, p.msg = .requestVoteResp resp → resp.voteGranted = true →
    p.src ∈ M.ids ∧ Supports p.src (c.nodes p.src).lasting.sent p.dst resp.term
  ballots_le_one : ∀ cand w T, ballots c.net cand w T ≤ 1
  /-- A ballot in flight is of a term that its candidate has sent a message of. -/
  ballots_sent : ∀ cand w T, 0 < ballots c.net cand w T →
    cand ∈ M.ids ∧ ∃ m ∈ (c.nodes cand).lasting.sent, m.message.term = T
  /-- A candidate or leader has asked all its peers. -/
  asked : ∀ i ∈ M.ids, (c.nodes i).node.state ≠ .follower → ∀ pid ∈ M.peerIds i,
    ∃ req, .toPeer pid (.requestVote req) ∈ (c.nodes i).lasting.sent ∧
      req.term = (c.nodes i).node.currentTerm
  /-- The counted votes come from different voters, whose ballots are used up. -/
  counted : ∀ i ∈ M.ids, (c.nodes i).node.state ≠ .follower → ∃ W ⊆ M.ids,
    (∀ w ∈ W, (w = i ∨ Supports w (c.nodes w).lasting.sent i (c.nodes i).node.currentTerm) ∧
      ballots c.net i w (c.nodes i).node.currentTerm = 0) ∧
    (c.nodes i).node.votesReceived ≤ W.card
  majority : ∀ i ∈ M.ids, (c.nodes i).node.state = .leader →
    M.ids.card / 2 + 1 ≤ (c.nodes i).node.votesReceived

namespace CrashElectionInv

variable {c c' : CrashingCluster}

theorem init (hinit : (crashingSystem pb M).init c) : CrashElectionInv M c := by
  obtain ⟨hnodes, hnet⟩ := hinit
  have hfollower : ∀ i ∈ M.ids, (c.nodes i).node.state = .follower := by
    intro i hi
    obtain ⟨env, hnew⟩ := hnodes i hi
    rw [hnew]
    rfl
  constructor
  · intro i hi
    obtain ⟨env, hnew⟩ := hnodes i hi
    rw [hnew]
    exact .start i (M.peerIds i) env
  · intro i hi
    obtain ⟨env, hnew⟩ := hnodes i hi
    rw [hnew]
    rfl
  · exact fun i hi hne => absurd (hfollower i hi) hne
  · simp [hnet]
  · simp [hnet]
  · simp [hnet, ballots]
  · simp [hnet, ballots]
  · exact fun i hi hne => absurd (hfollower i hi) hne
  · exact fun i hi hne => absurd (hfollower i hi) hne
  · exact fun i hi hl => absurd (hl.symm.trans (hfollower i hi)) (by decide)

/-- Losing a packet keeps the invariant. -/
theorem lose (inv : CrashElectionInv M c) {p : Packet} (hnodes : c'.nodes = c.nodes)
    (hnet : c'.net = c.net.erase p) : CrashElectionInv M c' := by
  -- the nodes are as before, and there are no more packets than before
  have hsub : ∀ q ∈ c'.net, q ∈ c.net := by
    rw [hnet]
    exact fun q hq => List.mem_of_mem_erase hq
  have hballots : ∀ cand w T, ballots c'.net cand w T ≤ ballots c.net cand w T := by
    rw [hnet]
    exact ballots_erase_le c.net p
  obtain ⟨nodes', net'⟩ := c'
  obtain rfl : nodes' = c.nodes := hnodes
  constructor
  · exact inv.node
  · exact inv.peers
  · exact inv.term_pos
  · exact fun q hq => inv.requests q (hsub q hq)
  · exact fun q hq => inv.granted q (hsub q hq)
  · exact fun cand w T => (hballots cand w T).trans (inv.ballots_le_one cand w T)
  · exact fun cand w T hpos => inv.ballots_sent cand w T (hpos.trans_le (hballots cand w T))
  · exact inv.asked
  · intro i hi hne
    obtain ⟨W, hW, hvotes, hcard⟩ := inv.counted i hi hne
    refine ⟨W, hW, fun w hw => ⟨(hvotes w hw).1, ?_⟩, hcard⟩
    exact Nat.le_zero.mp ((hvotes w hw).2 ▸ hballots i w _)
  · exact inv.majority

section Step

variable {d : Cluster} {e : Event} {i : Nat} {env : Env} {input : Input}
  {reply : Option RaftMessage} {net : List Packet} {new : List SentMessage}

/-- A node has sent no message of a term above its own. -/
theorem term_le (inv : CrashElectionInv M c) (hi : i ∈ M.ids) {m : SentMessage}
    (hm : m ∈ (c.nodes i).lasting.sent) : m.message.term ≤ (c.nodes i).node.currentTerm :=
  (inv.node i hi).cells.term_le m hm

theorem nodup_peerIds (inv : CrashElectionInv M c)
    (hact : CrashActed M c c' d e i env input reply net new) : (d.nodes i).peerIds.Nodup := by
  rw [hact.act.reacts.peerIds_eq]
  exact (inv.peers i hact.act.mem).symm ▸ M.nodup_peerIds i hact.act.mem

theorem notMem_peerIds (inv : CrashElectionInv M c)
    (hact : CrashActed M c c' d e i env input reply net new) : i ∉ (d.nodes i).peerIds := by
  rw [hact.act.reacts.peerIds_eq, show (c.raft.nodes i).peerIds = _ from inv.peers i hact.act.mem,
    M.mem_peerIds i hact.act.mem]
  exact fun hmem => hmem.2 rfl

/-- Only a node that enters a new term adds a ballot, and there was none of this term. -/
theorem ballots_step (inv : CrashElectionInv M c)
    (hact : CrashActed M c c' d e i env input reply net new) (cand w T : Nat) :
    ballots c'.net cand w T ≤ ballots c.net cand w T ∨
      (ballots c'.net cand w T ≤ 1 ∧ ballots c.net cand w T = 0 ∧ cand = i ∧
        w ∈ (d.nodes i).peerIds ∧ T = (c.nodes i).node.currentTerm + 1) := by
  have hle := hact.ballots_le cand w T
  rcases hact.act.ballots_le (inv.nodup_peerIds hact) cand w T with hold | ⟨hone, rfl, hw, hT, hterm⟩
  · exact .inl (hle.trans hold)
  · have hterm : (d.nodes cand).currentTerm = (c.nodes cand).node.currentTerm + 1 := hterm
    have hnone : ballots c.net cand w T = 0 := by
      by_contra hpos
      obtain ⟨-, m, hm, hmT⟩ := inv.ballots_sent cand w T (Nat.pos_of_ne_zero hpos)
      have := inv.term_le hact.act.mem hm
      omega
    have hone : ballots d.net cand w T ≤ ballots c.net cand w T + 1 := hone
    exact .inr ⟨by omega, hnone, rfl, hw, by omega⟩

theorem step_requests (inv : CrashElectionInv M c)
    (hact : CrashActed M c c' d e i env input reply net new) {p : Packet} (hp : p ∈ c'.net)
    {req : RequestVoteRequest} (hmsg : p.msg = .requestVote req) :
    p.src ∈ M.ids ∧ req.candidateId = p.src := by
  have hid : (d.nodes i).nodeId = i :=
    hact.act.reacts.nodeId_eq.trans (inv.node i hact.act.mem).nodeId_eq
  rcases hact.act.mem_net (hact.net_sublist.subset hp) with hold | hemit
  · exact inv.requests p hold req hmsg
  cases hemit with
  | vote =>
    obtain rfl := RaftMessage.requestVote.inj hmsg
    exact ⟨hact.act.mem, hid⟩
  | append => exact nomatch hmsg
  | reply src msg answer =>
    dsimp only at hmsg
    subst hmsg
    exact hact.act.reacts.roleStep.reply_ne_requestVote.elim

/-- A node tells nobody but the sender of a request how it votes. -/
private theorem answer_of_mem (hact : CrashActed M c c' d e i env input reply net new)
    {m : SentMessage} (hm : m ∈ new) {resp : RequestVoteResponse}
    (hmsg : m.message = .requestVoteResp resp) : ∃ src request,
      input = .message src request ∧ reply = some (.requestVoteResp resp) ∧
        m = .answer request (.requestVoteResp resp) := by
  rcases CrashingNode.mem_messages.mp (hact.new_prefix.subset hm) with
    ⟨pid, msg, hcall, rfl⟩ | ⟨src, request, response, hinput, hreply, rfl⟩
  · -- what goes to the peers are requests
    obtain rfl : msg = .requestVoteResp resp := hmsg
    obtain ⟨ps, sends, hcalls, hps, hsends⟩ :=
      ((c.nodes i).node.react_cases env input).calls_eq
    rw [newCalls, hcalls, List.drop_left, List.mem_append, List.mem_append] at hcall
    rcases hcall with hcall | hcall | hcall
    · obtain ⟨t, v, l, hc⟩ := hps.mem _ hcall
      cases hc
    · cases hsends with
      | none => exact (List.not_mem_nil hcall).elim
      | vote => simp [voteCalls] at hcall
      | append => simp [appendCalls] at hcall
    · obtain ⟨j, -, -, hc⟩ := mem_applyCalls.mp hcall
      cases hc
  · obtain rfl : response = .requestVoteResp resp := hmsg
    exact ⟨src, request, hinput, hact.reply_eq.trans hreply, rfl⟩

theorem step_granted (inv : CrashElectionInv M c)
    (hact : CrashActed M c c' d e i env input reply net new) {p : Packet} (hp : p ∈ c'.net)
    {resp : RequestVoteResponse} (hmsg : p.msg = .requestVoteResp resp)
    (hgranted : resp.voteGranted = true) :
    p.src ∈ M.ids ∧ Supports p.src (c'.nodes p.src).lasting.sent p.dst resp.term := by
  rcases hact.mem_net hp with hold | ⟨m, hm, hpacket⟩
  · obtain ⟨hsrc, hsup⟩ := inv.granted p hold resp hmsg hgranted
    exact ⟨hsrc, hsup.mono (hact.sent_prefix p.src)⟩
  · obtain ⟨hsrc, hmessage⟩ := SentMessage.packet_msg hpacket
    obtain ⟨src, request, rfl, rfl, rfl⟩ := answer_of_mem hact hm (hmessage.symm.trans hmsg)
    obtain rfl := Option.some.inj hpacket
    refine ⟨hact.act.mem, .inl ?_⟩
    -- a new granted reply answers the request of the candidate it goes to
    cases hact.act.reacts.roleStep with
    | same _ _ _ _ hreply => exact absurd (hgranted.symm.trans hreply) (by decide)
    | stepDown _ _ _ hreply => exact absurd (hgranted.symm.trans hreply) (by decide)
    | grant _ req =>
      exact ⟨req, _, hact.mem_sent hm, rfl, rfl, (inv.requests _ hact.act.of_message.1 req rfl).2⟩

theorem step_ballots_sent (inv : CrashElectionInv M c)
    (hact : CrashActed M c c' d e i env input reply net new) {cand w T : Nat}
    (hpos : 0 < ballots c'.net cand w T) :
    cand ∈ M.ids ∧ ∃ m ∈ (c'.nodes cand).lasting.sent, m.message.term = T := by
  rcases inv.ballots_step hact cand w T with hle | ⟨-, hnone, rfl, -, rfl⟩
  · obtain ⟨hmem, m, hm, hT⟩ := inv.ballots_sent cand w T (hpos.trans_le hle)
    exact ⟨hmem, m, (hact.sent_prefix cand).subset hm, hT⟩
  · refine ⟨hact.act.mem, ?_⟩
    -- the ballot is one of the messages of the step
    obtain ⟨p, hp, hballot⟩ := List.countP_pos_iff.mp hpos
    rcases hact.mem_net hp with hold | ⟨m, hm, hpacket⟩
    · have := List.countP_pos_iff.mpr ⟨p, hold, hballot⟩
      exact absurd hnone (Nat.ne_of_gt this)
    · refine ⟨m, hact.mem_sent hm, ?_⟩
      rw [← (SentMessage.packet_msg hpacket).2]
      obtain ⟨src, dst, msg⟩ := p
      cases msg with
      | requestVote req =>
        simp only [Packet.ballot, Bool.and_eq_true, beq_iff_eq] at hballot
        exact hballot.2
      | requestVoteResp resp =>
        simp only [Packet.ballot, Bool.and_eq_true, beq_iff_eq] at hballot
        exact hballot.1.2
      | _ => cases hballot

theorem step_term_pos (inv : CrashElectionInv M c)
    (hact : CrashActed M c c' d e i env input reply net new)
    (hne : (c'.nodes i).node.state ≠ .follower) : 0 < (c'.nodes i).node.currentTerm := by
  rcases hact.outcome with ⟨hnode, -⟩ | hfollower
  · rw [hnode] at hne ⊢
    cases hact.act.reacts.roleStep with
    | same hterm _ hstate =>
      rw [hterm]
      exact inv.term_pos i hact.act.mem (hstate ▸ hne)
    | stepDown _ _ hstate => exact absurd hstate hne
    | campaign _ hterm => omega
    | grant src req hterm _ _ _ hstate =>
      rcases hstate with ⟨heq, hsame⟩ | ⟨-, hfollower⟩
      · rw [hterm, ← heq]
        exact inv.term_pos i hact.act.mem (hsame ▸ hne)
      · exact absurd hfollower hne
    | count _ _ _ hcand hterm =>
      rw [hterm]
      exact inv.term_pos i hact.act.mem (by rw [show (c.nodes i).node.state = _ from hcand]; decide)
  · exact absurd hfollower hne

/-- A node that enters a term on its own asks all its peers. -/
private theorem asks_all {n n' : RaftNode} (hreact : n.Reacts env .tick n' reply)
    (hterm : n'.currentTerm = n.currentTerm + 1) {pid : Nat} (hpid : pid ∈ n'.peerIds) :
    ∃ req, .send pid (.requestVote req) ∈ newCalls n n' ∧ req.term = n'.currentTerm := by
  cases hreact with
  | idle => omega
  | timeout =>
    refine ⟨⟨n.currentTerm + 1, n.nodeId, n.getLastLogIndex, n.getLastLogTerm⟩, ?_, rfl⟩
    rw [newCalls, List.drop_left]
    exact List.mem_cons_of_mem _ (List.mem_map.mpr ⟨pid, hpid, rfl⟩)
  | leaderTick => exact absurd hterm (by simp)

theorem step_asked (inv : CrashElectionInv M c)
    (hact : CrashActed M c c' d e i env input reply net new)
    (hne : (c'.nodes i).node.state ≠ .follower) {pid : Nat} (hpid : pid ∈ M.peerIds i) :
    ∃ req, .toPeer pid (.requestVote req) ∈ (c'.nodes i).lasting.sent ∧
      req.term = (c'.nodes i).node.currentTerm := by
  rcases hact.outcome with ⟨hnode, hall⟩ | hfollower
  · -- in the old term the node has asked already
    have hkeep : (d.nodes i).currentTerm = (c.nodes i).node.currentTerm →
        (c.nodes i).node.state ≠ .follower → ∃ req,
          .toPeer pid (.requestVote req) ∈ (c'.nodes i).lasting.sent ∧
            req.term = (d.nodes i).currentTerm := by
      intro hterm hne
      obtain ⟨req, hmem, hreq⟩ := inv.asked i hact.act.mem hne pid hpid
      exact ⟨req, (hact.sent_prefix i).subset hmem, hreq.trans hterm.symm⟩
    rw [hnode] at hne ⊢
    have hreact := hact.act.reacts
    cases hreact.roleStep with
    | same hterm _ hstate => exact hkeep hterm (hstate ▸ hne)
    | stepDown _ _ hstate => exact absurd hstate hne
    | campaign _ hterm =>
      have hpid' : pid ∈ (d.nodes i).peerIds := by
        rw [hreact.peerIds_eq]
        exact (inv.peers i hact.act.mem).symm ▸ hpid
      obtain ⟨req, hcall, hreq⟩ := asks_all hreact hterm hpid'
      refine ⟨req, hact.mem_sent ?_, hreq⟩
      rw [hall, CrashingNode.mem_messages, ← hact.node_eq]
      exact .inl ⟨pid, _, hcall, rfl⟩
    | grant src req hterm _ _ _ hstate =>
      rcases hstate with ⟨heq, hsame⟩ | ⟨-, hfollower⟩
      · exact hkeep (hterm.trans heq.symm) (hsame ▸ hne)
      · exact absurd hfollower hne
    | count _ _ _ hcand hterm =>
      exact hkeep hterm (by rw [show (c.nodes i).node.state = _ from hcand]; decide)
  · exact absurd hfollower hne

theorem step_counted (inv : CrashElectionInv M c)
    (hact : CrashActed M c c' d e i env input reply net new)
    (hne : (c'.nodes i).node.state ≠ .follower) :
    ∃ W ⊆ M.ids, (∀ w ∈ W,
        (w = i ∨ Supports w (c'.nodes w).lasting.sent i (c'.nodes i).node.currentTerm) ∧
          ballots c'.net i w (c'.nodes i).node.currentTerm = 0) ∧
      (c'.nodes i).node.votesReceived ≤ W.card := by
  rcases hact.outcome with ⟨hnode, -⟩ | hfollower
  · rw [hnode] at hne ⊢
    -- while the term stays, the voters counted so far stay counted
    have hkeep : (d.nodes i).currentTerm = (c.nodes i).node.currentTerm →
        ∀ w, (w = i ∨ Supports w (c.nodes w).lasting.sent i (c.nodes i).node.currentTerm) ∧
            ballots c.net i w (c.nodes i).node.currentTerm = 0 →
          (w = i ∨ Supports w (c'.nodes w).lasting.sent i (d.nodes i).currentTerm) ∧
            ballots c'.net i w (d.nodes i).currentTerm = 0 := by
      intro hterm w ⟨hsup, hused⟩
      rw [hterm]
      refine ⟨hsup.imp_right fun hsup => hsup.mono (hact.sent_prefix w), ?_⟩
      rcases inv.ballots_step hact i w (c.nodes i).node.currentTerm with hle | ⟨-, -, -, -, hnew⟩
      · omega
      · omega
    cases hact.act.reacts.roleStep with
    | same hterm _ hstate hvotes =>
      obtain ⟨W, hW, hcounted, hcard⟩ := inv.counted i hact.act.mem (hstate ▸ hne)
      exact ⟨W, hW, fun w hw => hkeep hterm w (hcounted w hw), hvotes.trans_le hcard⟩
    | stepDown _ _ hstate => exact absurd hstate hne
    | campaign _ hterm hvote _ hvotes =>
      -- a new candidate counts itself and sends itself no ballot
      refine ⟨{i}, Finset.singleton_subset_iff.mpr hact.act.mem, fun w hw => ?_, by
        rw [hvotes, Finset.card_singleton]⟩
      obtain rfl := Finset.mem_singleton.mp hw
      refine ⟨.inl rfl, ?_⟩
      have hnone : ballots c.net w w (d.nodes w).currentTerm = 0 := by
        by_contra hpos
        obtain ⟨-, m, hm, hmT⟩ := inv.ballots_sent w w _ (Nat.pos_of_ne_zero hpos)
        have := inv.term_le hact.act.mem hm
        have hterm : (d.nodes w).currentTerm = (c.nodes w).node.currentTerm + 1 := hterm
        omega
      rcases inv.ballots_step hact w w (d.nodes w).currentTerm with hle | ⟨-, -, -, hself, -⟩
      · omega
      · exact absurd hself (inv.notMem_peerIds hact)
    | grant src req hterm _ _ _ hstate hvotes =>
      rcases hstate with ⟨heq, hsame⟩ | ⟨-, hfollower⟩
      · obtain ⟨W, hW, hcounted, hcard⟩ := inv.counted i hact.act.mem (hsame ▸ hne)
        exact ⟨W, hW, fun w hw => hkeep (hterm.trans heq.symm) w (hcounted w hw),
          hvotes.trans_le hcard⟩
      · exact absurd hfollower hne
    | count src resp hresp hcand hterm _ hvotes =>
      have hcand : (c.nodes i).node.state = .candidate := hcand
      obtain ⟨W, hW, hcounted, hcard⟩ := inv.counted i hact.act.mem (by rw [hcand]; decide)
      have hvotes : (d.nodes i).votesReceived =
        (c.nodes i).node.votesReceived + if resp.voteGranted then 1 else 0 := hvotes
      rw [hvotes]
      split
      · next hgranted =>
        -- the new voter still had its ballot in flight, so it was not counted before
        obtain ⟨hsrc, hsup⟩ := inv.granted _ hact.act.of_message.1 resp rfl hgranted
        have hused := hact.act.ballots_counted (inv.nodup_peerIds hact) hgranted
        have hle := hact.ballots_le i src resp.term
        have hone := inv.ballots_le_one i src resp.term
        have hused : ballots d.net i src resp.term + 1 ≤ ballots c.net i src resp.term := hused
        have hresp : resp.term = (c.nodes i).node.currentTerm := hresp
        rw [hresp] at hused hle hone hsup
        have hnew : src ∉ W := fun hin => by
          have := (hcounted src hin).2
          omega
        refine ⟨insert src W, Finset.insert_subset hsrc hW, fun w hw => ?_, ?_⟩
        · rcases Finset.mem_insert.mp hw with rfl | hw
          · rw [show (d.nodes i).currentTerm = (c.nodes i).node.currentTerm from hterm]
            exact ⟨.inr (hsup.mono (hact.sent_prefix w)), by omega⟩
          · exact hkeep hterm w (hcounted w hw)
        · rw [Finset.card_insert_of_notMem hnew]
          omega
      · exact ⟨W, hW, fun w hw => hkeep hterm w (hcounted w hw), hcard⟩
  · exact absurd hfollower hne

theorem step_majority (inv : CrashElectionInv M c)
    (hact : CrashActed M c c' d e i env input reply net new)
    (hleader : (c'.nodes i).node.state = .leader) :
    M.ids.card / 2 + 1 ≤ (c'.nodes i).node.votesReceived := by
  rcases hact.outcome with ⟨hnode, -⟩ | hfollower
  · rw [hnode] at hleader ⊢
    cases hact.act.reacts.roleStep with
    | same _ _ hstate hvotes =>
      rw [hvotes]
      exact inv.majority i hact.act.mem (hstate ▸ hleader)
    | stepDown _ _ hstate => exact absurd (hstate.symm.trans hleader) (by decide)
    | campaign _ _ _ hcand => exact absurd (hcand.symm.trans hleader) (by decide)
    | grant _ _ _ _ _ _ hstate hvotes =>
      rcases hstate with ⟨-, hsame⟩ | ⟨-, hfollower⟩
      · rw [hvotes]
        exact inv.majority i hact.act.mem (hsame ▸ hleader)
      · exact absurd (hfollower.symm.trans hleader) (by decide)
    | count _ _ _ _ _ _ _ _ hstate =>
      -- the only way to become leader is to have counted a majority
      rcases hstate with hcand | ⟨-, hmaj⟩
      · exact absurd (hcand.symm.trans hleader) (by decide)
      · rwa [RaftNode.majority, show (c.raft.nodes i).peerIds = _ from inv.peers i hact.act.mem,
          Membership.length_peerIds hact.act.mem] at hmaj
  · exact absurd (hfollower.symm.trans hleader) (by decide)

/-- The votes counted by the nodes that took no step. -/
private theorem step_counted_others (inv : CrashElectionInv M c)
    (hact : CrashActed M c c' d e i env input reply net new) {j : Nat} (hj : j ∈ M.ids)
    (hji : j ≠ i) (hne : (c.nodes j).node.state ≠ .follower) : ∃ W ⊆ M.ids,
      (∀ w ∈ W, (w = j ∨ Supports w (c'.nodes w).lasting.sent j (c.nodes j).node.currentTerm) ∧
        ballots c'.net j w (c.nodes j).node.currentTerm = 0) ∧
      (c.nodes j).node.votesReceived ≤ W.card := by
  obtain ⟨W, hW, hcounted, hvotes⟩ := inv.counted j hj hne
  refine ⟨W, hW, fun w hw => ⟨(hcounted w hw).1.imp_right fun hsup =>
    hsup.mono (hact.sent_prefix w), ?_⟩, hvotes⟩
  have hused := (hcounted w hw).2
  rcases inv.ballots_step hact j w (c.nodes j).node.currentTerm with hle | ⟨-, -, hself, -⟩
  · omega
  · exact absurd hself hji

/-- A step of a node keeps the invariant. -/
theorem act (inv : CrashElectionInv M c) (hact : CrashActed M c c' d e i env input reply net new)
    (hnode : NodeInv i (c'.nodes i)) : CrashElectionInv M c' := by
  constructor
  · intro j hj
    by_cases hji : j = i
    · exact hji ▸ hnode
    · rw [hact.others j hji]
      exact inv.node j hj
  · intro j hj
    by_cases hji : j = i
    · rw [hji, hact.peerIds_eq, ← hji]
      exact inv.peers j hj
    · rw [hact.others j hji]
      exact inv.peers j hj
  · intro j hj
    by_cases hji : j = i
    · exact hji ▸ inv.step_term_pos hact
    · rw [hact.others j hji]
      exact inv.term_pos j hj
  · exact fun p hp req => inv.step_requests hact hp
  · exact fun p hp resp => inv.step_granted hact hp
  · intro cand w T
    rcases inv.ballots_step hact cand w T with hle | ⟨hone, -⟩
    · exact hle.trans (inv.ballots_le_one cand w T)
    · exact hone
  · exact fun cand w T => inv.step_ballots_sent hact
  · intro j hj hne pid hpid
    by_cases hji : j = i
    · subst hji
      exact inv.step_asked hact hne hpid
    · rw [hact.others j hji] at hne ⊢
      exact inv.asked j hj hne pid hpid
  · intro j hj hne
    by_cases hji : j = i
    · subst hji
      exact inv.step_counted hact hne
    · rw [hact.others j hji] at hne ⊢
      exact inv.step_counted_others hact hj hji hne
  · intro j hj
    by_cases hji : j = i
    · exact hji ▸ inv.step_majority hact
    · rw [hact.others j hji]
      exact inv.majority j hj

end Step

/-- Whatever asks for a vote has an id. -/
theorem hasCandidate (inv : CrashElectionInv M c) (hids : ∀ i ∈ M.ids, i < 2 ^ 64) {i : Nat}
    {input : Input} (harrived : ∀ p ∈ input.packet? i, p ∈ c.net) :
    input.hasCandidate = true := by
  cases input with
  | message src msg =>
    cases msg with
    | requestVote req =>
      obtain ⟨hsrc, hcand⟩ := inv.requests _ (harrived _ rfl) req rfl
      rw [Input.hasCandidate, hcand, Bool.and_eq_true, bne_iff_ne, decide_eq_true_eq]
      exact ⟨Membership.ne_zero hsrc, hids _ hsrc⟩
    | _ => rfl
  | _ => rfl

end CrashElectionInv

/-! ## Runs -/

/-- The term does not overflow, and no command that is applied writes to a cell of Raft. -/
def CrashingCluster.Event.Admissible (pb : Protobuf) (c : CrashingCluster) :
    CrashingCluster.Event → Prop
  | .node i e => ((c.nodes i).node.react e.handled.1 e.handled.2).1.currentTerm < 2 ^ 64 ∧
      ((c.nodes i).carriedOut e).all (Effect.sparesCells pb) = true
  | .lose _ => True

instance CrashingCluster.Event.Admissible.decidable (pb : Protobuf) (c : CrashingCluster) :
    (e : CrashingCluster.Event) → Decidable (e.Admissible pb c)
  | .node _ _ => inferInstanceAs (Decidable (_ ∧ _))
  | .lose _ => instDecidableTrue

section Run

variable {h : List (CrashingCluster × CrashingCluster.Event)} {c : CrashingCluster}

theorem CrashElectionInv.run (hrun : Run (crashingSystem pb M) h c)
    (hids : ∀ i ∈ M.ids, i < 2 ^ 64) (hadm : StepsMeet (fun _ c e => e.Admissible pb c) h) :
    CrashElectionInv M c := by
  refine hrun.rec_of_stepsMeet (I := fun _ c => CrashElectionInv M c) hadm (fun c => .init)
    fun h c e c' _ inv hstep hmeets => ?_
  rcases crashing_step_cases hstep with ⟨p, -, hnodes, hnet⟩ |
    ⟨i, ce, rfl, hnode, d, ev, reply, net, new, hact⟩
  · exact inv.lose hnodes hnet
  · have harrived := ((Option.ite_none_right_eq_some).mp hstep).1.2.1
    have hadm : ce.Admissible pb (c.nodes i) := ⟨inv.hasCandidate hids harrived, hmeets⟩
    exact inv.act hact ((inv.node i hact.act.mem).step (Membership.ne_zero hact.act.mem)
      (hids i hact.act.mem) hadm hnode)

/-- What a node has sent is kept by every later step. -/
theorem sent_prefix_of_visited (hrun : Run (crashingSystem pb M) h c) {u : CrashingCluster}
    (hu : u ∈ visited h c) (w : Nat) :
    (u.nodes w).lasting.sent <+: (c.nodes w).lasting.sent := by
  refine hrun.visited_le (R := fun u v => (u.nodes w).lasting.sent <+: (v.nodes w).lasting.sent)
    (fun _ => List.prefix_refl _) (fun _ _ _ => List.IsPrefix.trans)
    (fun _ c e c' _ hstep => ?_) hu
  rcases crashing_step_cases hstep with ⟨p, -, hnodes, -⟩ | ⟨i, ce, -, -, d, ev, reply, net, new, hact⟩
  · rw [hnodes]
  · exact hact.sent_prefix w

/-- A majority has sent its support for a leader, unless the leader is alone. -/
theorem leader_supported (hrun : Run (crashingSystem pb M) h c) (hids : ∀ i ∈ M.ids, i < 2 ^ 64)
    (hadm : StepsMeet (fun _ c e => e.Admissible pb c) h) {u : CrashingCluster}
    (hu : u ∈ visited h c) {a : Nat} (ha : a ∈ M.ids) (hne : M.peerIds a ≠ [])
    (hleader : (u.nodes a).node.state = .leader) : 1 ≤ (u.nodes a).node.currentTerm ∧
      ∃ W, Quorum.Majority M.ids W ∧
        ∀ w ∈ W, Supports w (c.nodes w).lasting.sent a (u.nodes a).node.currentTerm := by
  obtain ⟨h', hrun', hsuf⟩ := hrun.of_visited hu
  have inv := CrashElectionInv.run hrun' hids (hadm.of_suffix hsuf)
  have hnot : (u.nodes a).node.state ≠ .follower := by rw [hleader]; decide
  obtain ⟨W, hW, hcounted, hvotes⟩ := inv.counted a ha hnot
  have hmaj := inv.majority a ha hleader
  refine ⟨inv.term_pos a ha hnot, W, ⟨hW, by omega⟩, fun w hw => ?_⟩
  rcases (hcounted w hw).1 with rfl | hsup
  · -- the leader supports itself by the requests for votes it has sent
    obtain ⟨pid, hpid⟩ := List.exists_mem_of_ne_nil _ hne
    obtain ⟨req, hmem, hreq⟩ := inv.asked w ha hnot pid hpid
    exact .inr ⟨rfl, pid, req, (sent_prefix_of_visited hrun hu w).subset hmem, hreq⟩
  · exact hsup.mono (sent_prefix_of_visited hrun hu w)

/-- In all states of a run with crashes, the leaders of one term are one node. -/
theorem crash_leader_unique (hrun : Run (crashingSystem pb M) h c)
    (hids : ∀ i ∈ M.ids, i < 2 ^ 64) (hadm : StepsMeet (fun _ c e => e.Admissible pb c) h)
    {u v : CrashingCluster} (hu : u ∈ visited h c) (hv : v ∈ visited h c) {a b : Nat}
    (ha : a ∈ M.ids) (hb : b ∈ M.ids) (hla : (u.nodes a).node.state = .leader)
    (hlb : (v.nodes b).node.state = .leader)
    (hterm : (u.nodes a).node.currentTerm = (v.nodes b).node.currentTerm) : a = b := by
  by_contra hab
  have hpeers : ∀ {i j}, i ∈ M.ids → j ∈ M.ids → i ≠ j → M.peerIds i ≠ [] :=
    fun hi hj hij => List.ne_nil_of_mem ((M.mem_peerIds _ hi _).mpr ⟨hj, Ne.symm hij⟩)
  obtain ⟨hpos, Q, hQ, hsupA⟩ := leader_supported hrun hids hadm hu ha (hpeers ha hb hab) hla
  obtain ⟨-, W, hW, hsupB⟩ :=
    leader_supported hrun hids hadm hv hb (hpeers hb ha (Ne.symm hab)) hlb
  obtain ⟨w, hwQ, hwW⟩ := hQ.exists_common hW
  -- the common voter has supported both
  have inv := CrashElectionInv.run hrun hids hadm
  have hforB := hsupB w hwW
  rw [← hterm] at hforB
  exact hab ((inv.node w (hQ.1 hwQ)).cells.unique a b _ hpos (hsupA w hwQ) hforB)

end Run

/-- Node 1 of three asks for votes. Node 2 crashes right after the put of the new term, and
    node 3 elects node 1. The leader crashes after one heartbeat, and node 2 wins the next
    term. -/
def crashedLeader : List CrashingCluster.Event :=
  [.node 1 (.handle (atTime 200) .tick),
    .node 2 (.crash (atTime 210) (.message 1 (.requestVote ⟨1, 1, 0, 0⟩)) 1 (atTime 220)),
    .node 3 (.handle (atTime 210) (.message 1 (.requestVote ⟨1, 1, 0, 0⟩))),
    .node 1 (.handle (atTime 230) (.message 3 (.requestVoteResp ⟨1, true⟩))),
    .node 1 (.crash (atTime 300) .tick 1 (atTime 310)),
    .node 2 (.handle (atTime 400) .tick),
    .node 3 (.handle (atTime 410) (.message 2 (.requestVote ⟨2, 2, 0, 0⟩))),
    .node 2 (.handle (atTime 420) (.message 3 (.requestVoteResp ⟨2, true⟩)))]

theorem crashedLeader_runs : (crashingSchedule .wire 3 crashedLeader).isSome := by
  decide +kernel

theorem crash_leader_unique_crashedLeader :
    let r := (crashingSchedule .wire 3 crashedLeader).get crashedLeader_runs
    (∃ u ∈ visited r.1 r.2, (u.nodes 1).node.state = .leader) ∧
      (r.2.nodes 2).node.state = .leader ∧
      ∀ u ∈ visited r.1 r.2, ∀ v ∈ visited r.1 r.2, ∀ a ∈ (Membership.ofSize 3).ids,
        ∀ b ∈ (Membership.ofSize 3).ids, (u.nodes a).node.state = .leader →
          (v.nodes b).node.state = .leader →
          (u.nodes a).node.currentTerm = (v.nodes b).node.currentTerm → a = b :=
  ⟨by decide +kernel, by decide +kernel, fun _ hu _ hv _ ha _ hb hla hlb hterm =>
    crash_leader_unique (crashingSchedule_run crashedLeader_runs) (by decide) (by decide +kernel)
      hu hv ha hb hla hlb hterm⟩

end Dkv
