import LearnGit.Native.Protobuf
import LearnGit.Spec.DataClusterSteps
import LearnGit.Spec.StateMachineSafety

/-!
# Acknowledged writes

A write is answered OK as soon as the leader has appended it to its own log. It is safe
only once a majority holds its entry, so it survives if no node is elected earlier:
`ElectsReplicated` says of every election that all writes acknowledged before it were
already on a majority, in an earlier term than the elected node's.

## Key results

- `ackedEntry_appended`: the entry of an acknowledged write is in the leader's log
- `chosen_kept`: a chosen entry is never removed from a log
- `acked_writes_kept`, `acked_write_lost`: every later leader holds the acknowledged
  writes, unless one is elected too early
-/

namespace Dkv

open Transition

variable {pb : Protobuf} {M : Membership} {addrs : Nat → Nat → Option Bytes}
  {h : List (DataCluster × DataEvent)} {s s' : DataCluster} {e : DataEvent}

/-! ## Acknowledgements -/

/-- The entry that `propose` appends for a command. -/
def RaftNode.nextEntry (n : RaftNode) (command : Bytes) : LogEntry where
  term := n.currentTerm
  index := n.getLastLogIndex + 1
  command := command

/-- The entry of a write that is answered OK in this step. -/
def ackedEntry (pb : Protobuf) (addrs : Nat → Nat → Option Bytes) (s : DataCluster) :
    DataEvent → Option LogEntry
  | .put id _ req =>
    if ((s.node addrs id).handlePut pb req).2.errorCode = .ok then
      some ((s.raft.nodes id).nextEntry (pb.serializeRpc req.command))
    else none
  | .delete id _ req =>
    if ((s.node addrs id).handleDelete pb req).2.errorCode = .ok then
      some ((s.raft.nodes id).nextEntry (pb.serializeRpc req.command))
    else none
  | _ => none

/-- Only leaders acknowledge writes, and they have the entry in their log then. -/
theorem ackedEntry_appended (hrun : Run (dataSystem pb M) h s)
    (hstep : (dataSystem pb M).step s e = some s') {x : LogEntry}
    (hacked : ackedEntry pb addrs s e = some x) :
    ∃ i ∈ M.ids, (s'.raft.nodes i).state = .leader ∧ (s'.raft.nodes i).currentTerm = x.term ∧
      (s'.raft.nodes i).log[x.index]? = some x := by
  -- PUT and DELETE differ in the command only
  have hwrite : ∀ i env cmd, e.raftEvent pb = some (.propose i env (pb.serializeRpc cmd)) →
      ((s.node addrs i).submit pb (s.raft.nodes i) cmd).2.1 = .ok →
      x = (s.raft.nodes i).nextEntry (pb.serializeRpc cmd) →
      ∃ i ∈ M.ids, (s'.raft.nodes i).state = .leader ∧ (s'.raft.nodes i).currentTerm = x.term ∧
        (s'.raft.nodes i).log[x.index]? = some x := by
    rintro i env cmd hevent hok rfl
    have hleader := (DataNode.submit_ok_iff _ _ _).mp hok
    rcases dataStep_cases hstep with ⟨r, hr, hraft, -⟩ | ⟨hr, -⟩
    · obtain rfl := Option.some.inj (hevent.symm.trans hr)
      obtain ⟨hi, hnode⟩ := step_propose hraft
      have hpos := ((logInv (raft_run hrun)).wellFormed _ (mem_visited_self _ _) i hi).length_pos
      refine ⟨i, hi, ?_⟩
      rw [hnode, Function.update_self, RaftNode.propose, if_neg (not_not.mpr hleader)]
      refine ⟨hleader, rfl, ?_⟩
      have hlast : (s.raft.nodes i).getLastLogIndex + 1 = (s.raft.nodes i).log.length := by
        rw [RaftNode.getLastLogIndex_eq]
        omega
      show ((s.raft.nodes i).log ++ [_])[(s.raft.nodes i).getLastLogIndex + 1]? = _
      rw [hlast, List.getElem?_concat_length, RaftNode.nextEntry, hlast]
    · exact absurd (hevent.symm.trans hr) (Option.some_ne_none _)
  cases e with
  | put i env req =>
    obtain ⟨hok, hx⟩ := Option.ite_none_right_eq_some.mp hacked
    exact hwrite i env req.command rfl hok (Option.some.inj hx).symm
  | delete i env req =>
    obtain ⟨hok, hx⟩ := Option.ite_none_right_eq_some.mp hacked
    exact hwrite i env req.command rfl hok (Option.some.inj hx).symm
  | _ => exact absurd hacked (Option.some_ne_none x).symm

/-! ## Elections -/

/-- Node `i` became leader in one of the steps `after` that lead to `s`. -/
def BecameLeader (i : Nat) : List (DataCluster × DataEvent) → DataCluster → Prop
  | [], _ => False
  | (u, _) :: after, s =>
    ((u.raft.nodes i).state ≠ .leader ∧ (s.raft.nodes i).state = .leader) ∨
      BecameLeader i after u

instance BecameLeader.decidable (i : Nat) : (after : List (DataCluster × DataEvent)) →
    (s : DataCluster) → Decidable (BecameLeader i after s)
  | [], _ => instDecidableFalse
  | (u, _) :: after, _ => @instDecidableOr _ _ inferInstance (BecameLeader.decidable i after u)

/-- The message is the vote that makes the node leader. -/
def RaftNode.Wins (n : RaftNode) : RaftMessage → Prop
  | .requestVoteResp resp =>
    n.state = .candidate ∧ resp.term = n.currentTerm ∧
      n.majority ≤ n.votesReceived + if resp.voteGranted then 1 else 0
  | _ => False

instance RaftNode.Wins.decidable (n : RaftNode) : (msg : RaftMessage) → Decidable (n.Wins msg)
  | .requestVoteResp _ => inferInstanceAs (Decidable (_ ∧ _))
  | .requestVote _ | .appendEntries _ | .appendEntriesResp _ => instDecidableFalse

/-- A node becomes leader by the vote that wins it the election. -/
theorem wins_of_becomesLeader {c c' : Cluster} {r : Event}
    (hstep : (raftSystem M).step c r = some c') {i : Nat} (hnot : (c.nodes i).state ≠ .leader)
    (hleader : (c'.nodes i).state = .leader) :
    ∃ p env, r = .deliver p env ∧ p.dst = i ∧ i ∈ M.ids ∧ (c.nodes i).Wins p.msg ∧
      (c'.nodes i).currentTerm = (c.nodes i).currentTerm := by
  rcases step_node hstep i with hsame | ⟨env, input, reply, net, hact⟩
  · rw [hsame] at hleader
    exact absurd hleader hnot
  cases hact.reacts.roleStep with
  | same _ _ hstate => exact absurd (hstate.symm.trans hleader) hnot
  | stepDown _ _ hstate => exact absurd (hstate.symm.trans hleader) (by decide)
  | campaign _ _ _ hcand => exact absurd (hcand.symm.trans hleader) (by decide)
  | grant _ _ _ _ _ _ hstate =>
    rcases hstate with ⟨-, hsame⟩ | ⟨-, hfollower⟩
    · exact absurd (hsame.symm.trans hleader) hnot
    · exact absurd (hfollower.symm.trans hleader) (by decide)
  | count src resp hresp hcand hterm _ hvotes _ hstate =>
    -- counting a vote is the only reaction that ends in a new leader
    refine ⟨_, env, hact.of_message.2.2, rfl, hact.mem, ⟨hcand, hresp, ?_⟩, hterm⟩
    rcases hstate with hstill | ⟨-, hmaj⟩
    · exact absurd (hstill.symm.trans hleader) (by decide)
    · exact hvotes ▸ hmaj

/-! ## Chosen entries -/

/-- A chosen entry is never removed from a log. -/
theorem chosen_kept {c c' : Cluster} {r : Event} {hr : List (Cluster × Event)}
    (hrun : Run (raftSystem M) hr c) (hstep : (raftSystem M).step c r = some c') {n i : Nat}
    {x : LogEntry} (hchosen : Chosen M (visited hr c) n x) (hx : (c.nodes i).log[n]? = some x) :
    (c'.nodes i).log[n]? = some x := by
  rcases step_node hstep i with hsame | ⟨env, input, reply, net, hact⟩
  · rw [hsame]
    exact hx
  cases hact.reacts.logStep with
  | same hlog =>
    rw [hlog]
    exact hx
  | append command _ _ _ hlog =>
    rw [hlog]
    exact ReplicatedLog.getElem?_of_isPrefix (List.prefix_append _ _) hx
  | merge src req haccepts _ hlog =>
    rw [hlog]
    rcases hact.merge_keeps hrun haccepts hx with hkept | ⟨hlt, K, hK, hne⟩
    · exact hkept
    · -- a later leader that misses the entry: leader completeness rules it out
      exact absurd (hchosen.leaderLog hrun hK hlt) hne

/-! ## Keeping acknowledged writes -/

/-- An election comes only after the entries of all writes acknowledged so far were
    held by a majority in their own, earlier term. -/
def ElectsReplicated (pb : Protobuf) (M : Membership) (addrs : Nat → Nat → Option Bytes)
    (h : List (DataCluster × DataEvent)) (s : DataCluster) : DataEvent → Prop
  | .deliver p _ => (s.raft.nodes p.dst).Wins p.msg →
    ∀ q ∈ h, ∀ x ∈ ackedEntry pb addrs q.1 q.2, x.term < (s.raft.nodes p.dst).currentTerm ∧
      Quorum.Majority M.ids
        (M.ids.filter fun w => Held (visited (raftHistory pb h) s.raft) w x.index x)
  | _ => True

instance ElectsReplicated.decidable (h : List (DataCluster × DataEvent)) (s : DataCluster) :
    (e : DataEvent) → Decidable (ElectsReplicated pb M addrs h s e)
  | .deliver _ _ => inferInstanceAs (Decidable (_ → _))
  | .tick _ _ | .lose _ | .put _ _ _ | .delete _ _ _ | .get _ _ | .scan _ _ => instDecidableTrue

/-- Every node that became leader after a write was answered OK has its entry. -/
def AckedWritesKept (pb : Protobuf) (M : Membership) (addrs : Nat → Nat → Option Bytes)
    (h : List (DataCluster × DataEvent)) (s : DataCluster) : Prop :=
  ∀ after c e before x, h = after ++ (c, e) :: before → ackedEntry pb addrs c e = some x →
    ∀ i ∈ M.ids, BecameLeader i after s → x ∈ (s.raft.nodes i).log

/-- A node that became leader after a write was answered OK holds its entry, and so did
    a majority in the entry's term. -/
private theorem acked_chosen (hrun : Run (dataSystem pb M) h s)
    (hmeets : StepsMeet (ElectsReplicated pb M addrs) h)
    {after before : List (DataCluster × DataEvent)} {c : DataCluster} {x : LogEntry}
    (hsplit : h = after ++ (c, e) :: before) (hacked : ackedEntry pb addrs c e = some x) {i : Nat}
    (hlead : BecameLeader i after s) :
    Chosen M (visited (raftHistory pb h) s.raft) x.index x ∧
      (s.raft.nodes i).log[x.index]? = some x := by
  induction hrun generalizing after with
  | start hinit =>
    exact absurd hsplit (by simp)
  | @next h u s' e' hrun hstep ih =>
    cases after with
    | nil => exact hlead.elim
    | cons p after =>
      rw [List.cons_append, List.cons.injEq] at hsplit
      obtain ⟨rfl, hsplit⟩ := hsplit
      -- reads do not move the Raft cluster, everything else is one of its steps
      rcases dataStep_cases hstep with ⟨r, hr, hraft, -⟩ | ⟨hr, rfl⟩
      · have hhist : raftHistory pb ((u, e') :: h) = (u.raft, r) :: raftHistory pb h :=
          projectHistory_of_some hr h
        have hsub : visited (raftHistory pb h) u.raft ⊆
            visited ((u.raft, r) :: raftHistory pb h) s'.raft := List.subset_cons_self _ _
        rw [hhist]
        rcases hlead with ⟨hnot, hleader⟩ | hlead
        · -- elected in this step: the condition speaks about the write
          obtain ⟨p, env, rfl, rfl, hi, hwins, hterm⟩ := wins_of_becomesLeader hraft hnot hleader
          obtain rfl : e' = .deliver p env := by
            cases e' <;> simp_all [DataEvent.raftEvent]
          obtain ⟨hlt, hmaj⟩ := hmeets.1 hwins (c, e)
            (by rw [hsplit]; exact List.mem_append_right _ List.mem_cons_self) x hacked
          have hchosen : Chosen M (visited (raftHistory pb h) u.raft) x.index x :=
            ⟨_, hmaj, fun w hw => (Finset.mem_filter.mp hw).2⟩
          have hchosen := hchosen.mono hsub
          exact ⟨hchosen, hchosen.leaderLog ((raft_run hrun).next hraft)
            ⟨s'.raft, mem_visited_self _ _, _, hi, hleader, rfl, rfl⟩ (by rw [hterm]; exact hlt)⟩
        · -- elected before: a chosen entry stays chosen and is never removed
          obtain ⟨hchosen, hx⟩ := ih hmeets.2 hsplit hlead
          exact ⟨hchosen.mono hsub, chosen_kept (raft_run hrun) hraft hchosen hx⟩
      · have hhist : raftHistory pb ((s', e') :: h) = raftHistory pb h :=
          projectHistory_of_none hr h
        rw [hhist]
        rcases hlead with ⟨hnot, hleader⟩ | hlead
        · exact absurd hleader hnot
        · exact ih hmeets.2 hsplit hlead

/-- In a run without an early election no acknowledged write is lost. -/
theorem acked_writes_kept (hrun : Run (dataSystem pb M) h s)
    (hmeets : StepsMeet (ElectsReplicated pb M addrs) h) : AckedWritesKept pb M addrs h s := by
  intro after c e before x hsplit hacked i hi hlead
  obtain ⟨-, hx⟩ := acked_chosen hrun hmeets hsplit hacked hlead
  exact List.mem_of_getElem? hx

/-- A PUT of `"k"` with value `"v"`. -/
def putKV : PutRequest := { key := [107], value := [118], callId := 7 }

/-- No node knows an address of another one. -/
def noAddrs : Nat → Nat → Option Bytes := fun _ _ => none

/-- Node 1 acknowledges a PUT and replicates it to node 2, which wins the next term. -/
def ackedThenElected : List DataEvent :=
  [.tick 1 (atTime 200),
    .deliver ⟨1, 2, .requestVote ⟨1, 1, 0, 0⟩⟩ (atTime 210),
    .deliver ⟨2, 1, .requestVoteResp ⟨1, true⟩⟩ (atTime 220),
    .put 1 (atTime 230) putKV,
    .deliver ⟨1, 2, .appendEntries ⟨1, 1, 0, 0, 0,
      [⟨1, 1, Protobuf.wire.serializeRpc putKV.command⟩]⟩⟩ (atTime 240),
    .tick 2 (atTime 400),
    .deliver ⟨2, 3, .requestVote ⟨2, 2, 1, 1⟩⟩ (atTime 410),
    .deliver ⟨3, 2, .requestVoteResp ⟨2, true⟩⟩ (atTime 420)]

theorem ackedThenElected_runs : (dataSchedule .wire 3 ackedThenElected).isSome := by
  decide +kernel

theorem acked_writes_kept_ackedThenElected :
    let r := (dataSchedule .wire 3 ackedThenElected).get ackedThenElected_runs
    (∃ p ∈ r.1, (ackedEntry .wire noAddrs p.1 p.2).isSome) ∧
      (r.2.raft.nodes 2).state = .leader ∧ AckedWritesKept .wire (.ofSize 3) noAddrs r.1 r.2 :=
  ⟨by decide +kernel, by decide +kernel,
    acked_writes_kept (dataSchedule_run ackedThenElected_runs) (by decide +kernel)⟩

/-- Node 1 acknowledges a PUT that reaches nobody, and node 2 is elected without it. -/
def ackedThenLost : List DataEvent :=
  [.tick 1 (atTime 200),
    .deliver ⟨1, 2, .requestVote ⟨1, 1, 0, 0⟩⟩ (atTime 210),
    .deliver ⟨2, 1, .requestVoteResp ⟨1, true⟩⟩ (atTime 220),
    .put 1 (atTime 230) putKV,
    .tick 2 (atTime 400),
    .deliver ⟨2, 3, .requestVote ⟨2, 2, 0, 0⟩⟩ (atTime 410),
    .deliver ⟨3, 2, .requestVoteResp ⟨2, true⟩⟩ (atTime 420)]

theorem ackedThenLost_runs : (dataSchedule .wire 3 ackedThenLost).isSome := by decide +kernel

/-- An acknowledged write is missing at a later leader. -/
theorem acked_write_lost :
    ¬ ∀ (pb : Protobuf) (M : Membership) (addrs : Nat → Nat → Option Bytes)
      (h : List (DataCluster × DataEvent)) (s : DataCluster),
      Run (dataSystem pb M) h s → AckedWritesKept pb M addrs h s := by
  intro hall
  have hkept := hall .wire _ noAddrs _ _ (dataSchedule_run ackedThenLost_runs)
  generalize hr : (dataSchedule .wire 3 ackedThenLost).get ackedThenLost_runs = r at hkept
  have hacked : (r.1[3]?.bind fun p => ackedEntry .wire noAddrs p.1 p.2) =
      some ⟨1, 1, Protobuf.wire.serializeRpc putKV.command⟩ := by
    rw [← hr]
    decide +kernel
  obtain ⟨⟨c, e⟩, hput, hacked⟩ := Option.bind_eq_some_iff.mp hacked
  have hlead : BecameLeader 2 (r.1.take 3) r.2 := by rw [← hr]; decide +kernel
  have hin := hkept _ c e _ _ (split_at hput) hacked 2 (by decide) hlead
  rw [← hr] at hin
  exact absurd hin (by decide +kernel)

end Dkv
