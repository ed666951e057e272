import LearnGit.Spec.RaftNodeSteps

/-!
# Aspects of a step

The reactions of a node seen from one side at a time (`RoleStep`: term, vote and
role; `LogStep`: the log; `CommitStep`: commit index and applied entries), and the
step of the cluster as the reaction of one node plus a change of the packets in
flight.

## Key results

- `Reacts.roleStep`, `Reacts.logStep`, `Reacts.commitStep`, `Reacts.progressStep`: the
  aspects of a reaction
- `Reacts.sent_eq`: what a reaction sends
- `step_cases`: a step of the cluster is a reaction of one node or the loss of a packet
- `step_node`, `run_node`: the same seen from one node, and the induction over a run of what
  its reactions keep
-/

namespace Dkv

open ReplicatedLog Transition

namespace RaftNode

variable {n n' : RaftNode} {env : Env} {input : Input} {reply : Option RaftMessage}

/-! ## Constants and terms -/

theorem Reacts.nodeId_eq (h : n.Reacts env input n' reply) : n'.nodeId = n.nodeId := by
  cases h <;> simp [becomeFollower, becomeLeader, sendAppendEntries, persist, call, callAll]

theorem Reacts.peerIds_eq (h : n.Reacts env input n' reply) : n'.peerIds = n.peerIds := by
  cases h <;> simp [becomeFollower, becomeLeader, sendAppendEntries, persist, call, callAll]

/-! ## Term, vote and role -/

/-- A request for a vote or a granted vote. -/
def isBallot : RaftMessage → Bool
  | .requestVote _ => true
  | .requestVoteResp resp => resp.voteGranted
  | _ => false

/-- What a reaction does to the term, the vote and the role. -/
inductive RoleStep (n n' : RaftNode) : Input → Option RaftMessage → Prop
  | same {input : Input} {reply : Option RaftMessage} (hterm : n'.currentTerm = n.currentTerm)
      (hvote : n'.votedFor = n.votedFor) (hstate : n'.state = n.state)
      (hvotes : n'.votesReceived = n.votesReceived) (hreply : reply.any isBallot = false) :
      RoleStep n n' input reply
  | stepDown {input : Input} {reply : Option RaftMessage} (hterm : n.currentTerm < n'.currentTerm)
      (hvote : n'.votedFor = 0) (hstate : n'.state = .follower)
      (hreply : reply.any isBallot = false) : RoleStep n n' input reply
  | campaign (hstate : n.state ≠ .leader) (hterm : n'.currentTerm = n.currentTerm + 1)
      (hvote : n'.votedFor = n.nodeId) (hcand : n'.state = .candidate)
      (hvotes : n'.votesReceived = 1) (hlog : n'.log = n.log) : RoleStep n n' .tick none
  | grant (src : Nat) (req : RequestVoteRequest) (hterm : n'.currentTerm = req.term)
      (hle : n.currentTerm ≤ req.term)
      (hfree : n.currentTerm = req.term → n.votedFor = 0 ∨ n.votedFor = req.candidateId)
      (hvote : n'.votedFor = req.candidateId)
      (hstate : (n.currentTerm = req.term ∧ n'.state = n.state) ∨
        (n.currentTerm < req.term ∧ n'.state = .follower))
      (hvotes : n'.votesReceived = n.votesReceived) (hlog : n'.log = n.log)
      (hup : n.upToDate req) :
      RoleStep n n' (.message src (.requestVote req)) (some (.requestVoteResp ⟨req.term, true⟩))
  | count (src : Nat) (resp : RequestVoteResponse) (hresp : resp.term = n.currentTerm)
      (hstate : n.state = .candidate) (hterm : n'.currentTerm = n.currentTerm)
      (hvote : n'.votedFor = n.votedFor)
      (hvotes : n'.votesReceived = n.votesReceived + if resp.voteGranted then 1 else 0)
      (hlog : n'.log = n.log)
      (hstate' : n'.state = .candidate ∨ (n'.state = .leader ∧ n.majority ≤ n'.votesReceived)) :
      RoleStep n n' (.message src (.requestVoteResp resp)) none

/-- No reply is a request for a vote. -/
theorem RoleStep.reply_ne_requestVote {n n' : RaftNode} {input : Input}
    {req : RequestVoteRequest} (hrole : RoleStep n n' input (some (.requestVote req))) : False := by
  cases hrole with
  | same _ _ _ _ hreply => exact nomatch hreply
  | stepDown _ _ _ hreply => exact nomatch hreply

private theorem catchUp_roleStep (n : RaftNode) (env : Env) (term : Nat) :
    ((n.catchUp env term).currentTerm = n.currentTerm ∧
      (n.catchUp env term).votedFor = n.votedFor ∧ (n.catchUp env term).state = n.state) ∨
    (n.currentTerm < (n.catchUp env term).currentTerm ∧
      (n.catchUp env term).votedFor = 0 ∧ (n.catchUp env term).state = .follower) := by
  rcases Nat.lt_or_ge n.currentTerm term with h | h
  · rw [catchUp_of_lt h]; exact .inr ⟨h, rfl, rfl⟩
  · rw [catchUp_of_le h]; exact .inl ⟨rfl, rfl, rfl⟩

@[simp] theorem catchUp_votesReceived (n : RaftNode) (env : Env) (term : Nat) :
    (n.catchUp env term).votesReceived = n.votesReceived := by
  unfold catchUp; split <;> rfl

theorem Reacts.roleStep (h : n.Reacts env input n' reply) : RoleStep n n' input reply := by
  cases h with
  | idle | leaderTick | proposed | appendStale | matchAdvanced | retried =>
    exact .same rfl rfl rfl rfl rfl
  | timeout hstate => exact .campaign hstate rfl rfl rfl rfl rfl
  | voteRefused src req | appendMismatch src req | appendAccepted src req =>
    -- a refusal changes nothing but what catching up with the term changed
    rcases n.catchUp_roleStep env req.term with ⟨ht, hv, hs⟩ | ⟨ht, hv, hs⟩
    · exact .same ht hv hs (by simp) rfl
    · exact .stepDown ht hv hs rfl
  | voteGranted src req hterm hvote hlog =>
    have hcur : (n.catchUp env req.term).currentTerm = req.term := by simpa using hterm
    rw [hcur]
    refine .grant src req hcur hterm (fun heq => ?_) rfl ?_ (by simp) (by simp) hlog
    · rwa [catchUp_of_le heq.ge] at hvote
    · rcases n.catchUp_roleStep env req.term with ⟨ht, -, hs⟩ | ⟨ht, -, hs⟩
      · exact .inl ⟨ht.symm.trans hcur, hs⟩
      · exact .inr ⟨hcur ▸ ht, hs⟩
  | steppedDown src resp hterm => exact .stepDown hterm rfl rfl rfl
  | counted src resp hterm hstate votes hvotes =>
    exact .count src resp hterm hstate rfl rfl hvotes rfl (.inl hstate)
  | elected src resp hterm hstate votes hvotes hmaj =>
    exact .count src resp hterm hstate rfl rfl hvotes rfl (.inr ⟨rfl, hmaj⟩)

/-- Terms never decrease. -/
theorem Reacts.term_le (h : n.Reacts env input n' reply) : n.currentTerm ≤ n'.currentTerm := by
  cases h.roleStep <;> omega

/-! ## Log -/

/-- What a reaction does to the log. -/
inductive LogStep (n n' : RaftNode) : Input → Prop
  | same {input : Input} (hlog : n'.log = n.log) : LogStep n n' input
  | append (command : Bytes) (hstate : n.state = .leader) (hstate' : n'.state = .leader)
      (hterm : n'.currentTerm = n.currentTerm)
      (hlog : n'.log = n.log ++
        [{ term := n.currentTerm, index := n.log.length - 1 + 1, command := command }]) :
      LogStep n n' (.propose command)
  | merge (src : Nat) (req : AppendEntriesRequest) (haccepts : n.Accepts req)
      (hterm : n'.currentTerm = req.term) (hlog : n'.log = n.mergedLog req) :
      LogStep n n' (.message src (.appendEntries req))

theorem Reacts.logStep (h : n.Reacts env input n' reply) : LogStep n n' input := by
  cases h with
  | proposed hstate command =>
    exact .append command hstate hstate rfl (by simp only [getLastLogIndex_eq])
  | appendAccepted src req haccepts =>
    exact .merge src req haccepts (by simpa using haccepts.1) rfl
  | voteRefused | voteGranted | appendMismatch => exact .same (catchUp_log _ _ _)
  | _ => exact .same rfl

/-! ## Callbacks -/

/-- The invocations of `rpcSender_` in a reaction. The log, the term and the peers
    of the messages are those of the node afterwards; the commit index is the one
    from before. -/
inductive Sends (n n' : RaftNode) : Input → List Call → Prop
  | none {input : Input} : Sends n n' input []
  | vote (hstate : n.state ≠ .leader) (hcand : n'.state = .candidate)
      (hterm : n'.currentTerm = n.currentTerm + 1) (hlog : n'.log = n.log) :
      Sends n n' .tick n'.voteCalls
  | append {input : Input} (m : RaftNode) (heartbeatOnly : Bool) (hstate : n'.state = .leader)
      (hlog : m.log = n'.log) (hterm : m.currentTerm = n'.currentTerm)
      (hnext : m.nextIndex = n'.nextIndex) (hpeers : m.peerIds = n'.peerIds)
      (hid : m.nodeId = n'.nodeId) (hcommit : m.commitIndex = n.commitIndex)
      (hkeep : n'.commitIndex = n.commitIndex ∨
        (n.state = .leader ∧ n'.currentTerm = n.currentTerm ∧ n'.log = n.log)) :
      Sends n n' input (m.appendCalls heartbeatOnly)

/-- A reaction that applies nothing. -/
private theorem append_applyCalls_self (log : List LogEntry) (lo : Nat) (ps sends : List Call) :
    ps ++ (sends ++ applyCalls log lo (lo - lo)) = ps ++ sends := by
  rw [Nat.sub_self, applyCalls, List.range'_zero, List.map_nil, List.append_nil]

/-- Persists of a node one after the other, from the term and the vote it had before
    them to those it has after them: each shows a higher term, or the same term and,
    unless it is the first vote in it, the same vote; and no other vote than the last. -/
inductive Persists : Nat → Nat → List Call → Nat → Nat → Prop
  | nil {term vote : Nat} : Persists term vote [] term vote
  | cons {term vote t v term' vote' : Nat} {log : List LogEntry} {cs : List Call}
      (hnext : term < t ∨ (t = term ∧ (vote = 0 ∨ v = vote))) (hvote : v = 0 ∨ v = vote')
      (hrest : Persists t v cs term' vote') :
      Persists term vote (.persist t v log :: cs) term' vote'

theorem Persists.single {term vote t v : Nat} (log : List LogEntry)
    (hnext : term < t ∨ (t = term ∧ (vote = 0 ∨ v = vote))) :
    Persists term vote [.persist t v log] t v :=
  .cons hnext (.inr rfl) .nil

theorem Persists.concat {term vote t v vote' : Nat} {ps : List Call}
    (hps : Persists term vote ps t vote') (hvote : vote' = 0 ∨ v = vote') (log : List LogEntry) :
    Persists term vote (ps ++ [.persist t v log]) t v := by
  induction hps with
  | nil => exact .single log (.inr ⟨rfl, hvote⟩)
  | cons hnext hlast _ ih => exact .cons hnext (by omega) (ih hvote)

theorem Persists.mem {term vote term' vote' : Nat} {ps : List Call}
    (hps : Persists term vote ps term' vote') : ∀ c ∈ ps, ∃ t v l, c = Call.persist t v l := by
  induction hps with
  | nil => exact fun c hc => (List.not_mem_nil hc).elim
  | cons _ _ _ ih =>
    intro c hc
    cases List.mem_cons.mp hc with
    | inl heq => exact ⟨_, _, _, heq⟩
    | inr hc => exact ih c hc

theorem Persists.term_le {term vote term' vote' : Nat} {ps : List Call}
    (hps : Persists term vote ps term' vote') : term ≤ term' := by
  induction hps with
  | nil => exact Nat.le_refl _
  | cons hnext _ _ ih => omega

/-- No persist shows a higher term than the last one or another vote. -/
theorem Persists.mem_le {term vote term' vote' : Nat} {ps : List Call}
    (hps : Persists term vote ps term' vote') {t v : Nat} {log : List LogEntry}
    (hmem : .persist t v log ∈ ps) : t ≤ term' ∧ (v = 0 ∨ v = vote') := by
  induction hps with
  | nil => exact (List.not_mem_nil hmem).elim
  | cons _ hvote hrest ih =>
    cases List.mem_cons.mp hmem with
    | inl heq =>
      obtain ⟨rfl, rfl, -⟩ := Call.persist.inj heq
      exact ⟨hrest.term_le, hvote⟩
    | inr hmem => exact ih hmem

/-- The only callback of `catchUp` is a persist. -/
private theorem catchUp_calls (n : RaftNode) (env : Env) (term : Nat) :
    ∃ ps, (n.catchUp env term).calls = n.calls ++ ps ∧
      Persists n.currentTerm n.votedFor ps (n.catchUp env term).currentTerm
        (n.catchUp env term).votedFor := by
  rcases Nat.lt_or_ge n.currentTerm term with h | h
  · rw [catchUp_of_lt h]
    exact ⟨_, rfl, .single _ (.inl h)⟩
  · rw [catchUp_of_le h]
    exact ⟨[], (List.append_nil _).symm, .nil⟩

/-- A reaction first persists, then sends, then applies up to the new applied index. -/
theorem Reacts.calls_eq (h : n.Reacts env input n' reply) :
    ∃ ps sends, n'.calls = n.calls ++ (ps ++ (sends ++
        applyCalls n'.log n.lastApplied (n'.lastApplied - n.lastApplied))) ∧
      Persists n.currentTerm n.votedFor ps n'.currentTerm n'.votedFor ∧
      Sends n n' input sends := by
  have hmax : ∀ a b : Nat, max a b - a = b - a := fun a b => by omega
  cases h with
  | idle | counted | appendStale | matchAdvanced =>
    refine ⟨[], [], ?_, .nil, .none⟩
    rw [append_applyCalls_self, List.append_nil, List.append_nil]
  | timeout hstate =>
    refine ⟨[.persist (n.currentTerm + 1) n.nodeId n.log], _, ?_,
      .single _ (.inl (Nat.lt_succ_self _)), .vote hstate rfl rfl rfl⟩
    rw [append_applyCalls_self]
    rfl
  | leaderTick hstate heartbeat cs hcs =>
    refine ⟨[], cs, ?_, .nil, ?_⟩
    · dsimp only
      rw [List.nil_append, hmax]
    · rcases hcs with rfl | rfl
      · exact .none
      · exact .append n true hstate rfl rfl rfl rfl rfl rfl (.inr ⟨hstate, rfl, rfl⟩)
  | proposed hstate command =>
    let entry : LogEntry :=
      { term := n.currentTerm, index := n.getLastLogIndex + 1, command := command }
    refine ⟨[.persist n.currentTerm n.votedFor (n.log ++ [entry])], _, ?_,
      .single _ (.inr ⟨rfl, .inr rfl⟩), .append _ false hstate rfl rfl rfl rfl rfl rfl (.inl rfl)⟩
    rw [append_applyCalls_self]
    rfl
  | voteRefused src req =>
    obtain ⟨ps, hps, hpersist⟩ := n.catchUp_calls env req.term
    refine ⟨ps, [], ?_, hpersist, .none⟩
    rw [hps, catchUp_lastApplied, append_applyCalls_self, List.append_nil]
  | appendMismatch src req =>
    obtain ⟨ps, hps, hpersist⟩ := n.catchUp_calls env req.term
    refine ⟨ps, [], ?_, hpersist, .none⟩
    dsimp only
    rw [hps, catchUp_lastApplied, append_applyCalls_self, List.append_nil]
  | voteGranted src req hterm hvote =>
    -- persisted by catching up, then again with the vote
    obtain ⟨ps, hps, hpersist⟩ := n.catchUp_calls env req.term
    refine ⟨ps ++ [.persist (n.catchUp env req.term).currentTerm req.candidateId
      (n.catchUp env req.term).log], [], ?_,
      hpersist.concat (hvote.imp_right Eq.symm) _, .none⟩
    dsimp only
    rw [hps, catchUp_lastApplied, append_applyCalls_self, List.append_nil, List.append_assoc]
  | steppedDown src resp hterm =>
    refine ⟨[.persist resp.term 0 n.log], [], ?_, .single _ (.inl hterm), .none⟩
    dsimp only [becomeFollower, persist, call]
    rw [append_applyCalls_self, List.append_nil]
  | elected src resp hterm hstate votes hvotes hmaj =>
    refine ⟨[], _, ?_, .nil, .append _ true rfl rfl rfl rfl rfl rfl rfl (.inl rfl)⟩
    dsimp only [becomeLeader, sendAppendEntries, callAll]
    rw [append_applyCalls_self]
    rfl
  | appendAccepted src req =>
    -- the only reaction to a message that both persists and applies
    obtain ⟨ps, hps, hpersist⟩ := n.catchUp_calls env req.term
    refine ⟨ps ++ [.persist (n.catchUp env req.term).currentTerm
      (n.catchUp env req.term).votedFor (n.mergedLog req)], [], ?_,
      hpersist.concat (.inr rfl) _, .none⟩
    dsimp only
    rw [hps, hmax, List.nil_append, List.append_assoc, List.append_assoc, List.singleton_append]
  | retried src resp hstate =>
    refine ⟨[], _, ?_, .nil, .append _ false hstate rfl rfl rfl rfl rfl rfl (.inl rfl)⟩
    rw [append_applyCalls_self]
    rfl

/-- The packets node `i` put in flight through `rpcSender_`. -/
def sent (i : Nat) (n n' : RaftNode) : List Packet := (newCalls n n').filterMap (Call.packet i)

theorem Reacts.newCalls_eq (h : n.Reacts env input n' reply) :
    n'.calls = n.calls ++ newCalls n n' := by
  obtain ⟨ps, sends, heq, -⟩ := h.calls_eq
  rw [newCalls, heq, List.drop_left]

/-- The packets a reaction puts in flight are those of its `Sends`. -/
theorem Reacts.sent_eq (h : n.Reacts env input n' reply) (i : Nat) :
    ∃ sends, Sends n n' input sends ∧ sent i n n' = sends.filterMap (Call.packet i) := by
  obtain ⟨ps, sends, heq, hps, hsends⟩ := h.calls_eq
  refine ⟨sends, hsends, ?_⟩
  have hpersist : ps.filterMap (Call.packet i) = [] := by
    rw [List.filterMap_eq_nil_iff]
    intro c hc
    obtain ⟨t, v, l, rfl⟩ := hps.mem c hc
    rfl
  have happly : ∀ log lo k, (applyCalls log lo k).filterMap (Call.packet i) = [] := by
    intro log lo k
    rw [List.filterMap_eq_nil_iff]
    intro c hc
    obtain ⟨j, -, -, rfl⟩ := mem_applyCalls.mp hc
    rfl
  rw [sent, newCalls, heq, List.drop_left, List.filterMap_append, List.filterMap_append,
    hpersist, happly, List.nil_append, List.append_nil]

/-! ## Commit index and applied entries -/

/-- What a reaction does to the commit index. -/
inductive CommitStep (n n' : RaftNode) : Input → Prop
  | same {input : Input} (hcommit : n'.commitIndex = n.commitIndex)
      (happlied : n'.lastApplied = n.lastApplied) : CommitStep n n' input
  | advance (hstate : n.state = .leader) (hstate' : n'.state = .leader)
      (hterm : n'.currentTerm = n.currentTerm) (hlog : n'.log = n.log)
      (hcommit : n'.commitIndex = n.advanceLoop n.getLastLogIndex)
      (happlied : n'.lastApplied = max n.lastApplied n'.commitIndex) : CommitStep n n' .tick
  | follow (src : Nat) (req : AppendEntriesRequest) (haccepts : n.Accepts req)
      (hterm : n'.currentTerm = req.term) (hlog : n'.log = n.mergedLog req)
      (hcommit : n'.commitIndex = n.mergedCommit req)
      (happlied : n'.lastApplied = max n.lastApplied n'.commitIndex) :
      CommitStep n n' (.message src (.appendEntries req))

theorem Reacts.commitStep (h : n.Reacts env input n' reply) : CommitStep n n' input := by
  cases h with
  | leaderTick hstate => exact .advance hstate hstate rfl rfl rfl rfl
  | appendAccepted src req haccepts =>
    exact .follow src req haccepts (by simpa using haccepts.1) rfl rfl rfl
  | voteRefused | voteGranted | appendMismatch =>
    exact .same (catchUp_commitIndex _ _ _) (catchUp_lastApplied _ _ _)
  | _ => exact .same rfl rfl

/-- Every command handed to the state machine is the one of the node's own log at
    a position between the old applied index and the new commit index. -/
theorem Reacts.applied (h : n.Reacts env input n' reply) {i : Nat} {command : Bytes}
    (hmem : .apply i command ∈ newCalls n n') :
    n.lastApplied < i ∧ i ≤ n'.commitIndex ∧ command = (n'.log.getD i default).command := by
  -- of the new calls only the last group applies anything
  obtain ⟨ps, sends, heq, hps, hsends⟩ := h.calls_eq
  rw [newCalls, heq, List.drop_left] at hmem
  rcases List.mem_append.mp hmem with hin | hin
  · obtain ⟨t, v, l, hc⟩ := hps.mem _ hin
    exact nomatch hc
  rcases List.mem_append.mp hin with hin | hin
  · cases hsends with
    | none => exact (List.not_mem_nil hin).elim
    | vote => simp [voteCalls] at hin
    | append => simp [appendCalls] at hin
  · obtain ⟨k, hlo, hhi, hc⟩ := mem_applyCalls.mp hin
    obtain ⟨rfl, rfl⟩ : i = k ∧ command = (n'.log.getD k default).command := by simpa using hc
    refine ⟨hlo, ?_, rfl⟩
    cases h.commitStep with
    | same hcommit happlied => omega
    | advance _ _ _ _ _ happlied => omega
    | follow _ _ _ _ _ _ happlied => omega

/-! ## Replication progress -/

/-- What a reaction does to `nextIndex` and `matchIndex` of the peers. -/
inductive ProgressStep (n n' : RaftNode) : Input → Prop
  | same {input : Input} (hstate : n'.state = .leader → n.state = .leader)
      (hnext : ∀ p ∈ n.peerIds, n'.nextIndex p = n.nextIndex p)
      (hmatch : ∀ p ∈ n.peerIds, n'.matchIndex p = n.matchIndex p) : ProgressStep n n' input
  | reset {input : Input} (hcand : n.state = .candidate) (hterm : n'.currentTerm = n.currentTerm)
      (hlog : n'.log = n.log) (hnext : ∀ p ∈ n.peerIds, n'.nextIndex p = n.log.length - 1 + 1)
      (hmatch : ∀ p ∈ n.peerIds, n'.matchIndex p = 0) : ProgressStep n n' input
  | advance (src : Nat) (resp : AppendEntriesResponse) (hstate : n.state = .leader)
      (hresp : resp.term = n.currentTerm) (hsuccess : resp.success = true)
      (hterm : n'.currentTerm = n.currentTerm) (hlog : n'.log = n.log)
      (hnext : n'.nextIndex = Function.update n.nextIndex src (u64 (resp.matchIndex + 1)))
      (hmatch : n'.matchIndex = Function.update n.matchIndex src resp.matchIndex) :
      ProgressStep n n' (.message src (.appendEntriesResp resp))
  | retry {input : Input} (hstate : n.state = .leader)
      (hnext : ∀ p, n'.nextIndex p = n.nextIndex p ∨
        (1 < n.nextIndex p ∧ n'.nextIndex p = n.nextIndex p - 1))
      (hmatch : ∀ p ∈ n.peerIds, n'.matchIndex p = n.matchIndex p) : ProgressStep n n' input

private theorem foldl_update (ps : List Nat) (f : Nat → Nat) (v p : Nat) :
    ps.foldl (fun m pid => Function.update m pid v) f p = if p ∈ ps then v else f p := by
  induction ps generalizing f with
  | nil => simp
  | cons q ps ih =>
    rw [List.foldl_cons, ih]
    by_cases hp : p ∈ ps
    · simp [hp]
    · by_cases hq : p = q
      · simp [hq]
      · simp [hp, hq]

private theorem catchUp_progress (n : RaftNode) (env : Env) (term : Nat) :
    ((n.catchUp env term).state = .leader → n.state = .leader) ∧
      (n.catchUp env term).nextIndex = n.nextIndex ∧
      (n.catchUp env term).matchIndex = n.matchIndex := by
  unfold catchUp
  split
  · exact ⟨fun h => (by decide : ¬ State.follower = State.leader) h |>.elim, rfl, rfl⟩
  · exact ⟨id, rfl, rfl⟩

theorem Reacts.progressStep (h : n.Reacts env input n' reply) (hself : n.nodeId ∉ n.peerIds) :
    ProgressStep n n' input := by
  -- the node's own entries of the two maps are never a peer's
  have hne : ∀ p ∈ n.peerIds, p ≠ n.nodeId := fun p hp heq => hself (heq ▸ hp)
  cases h with
  | timeout => exact .same (fun h => nomatch h) (fun _ _ => rfl) fun _ _ => rfl
  | proposed hstate =>
    exact .same (fun _ => hstate) (fun p hp => Function.update_of_ne (hne p hp) _ _)
      fun p hp => Function.update_of_ne (hne p hp) _ _
  | voteRefused src req | voteGranted src req | appendMismatch src req
  | appendAccepted src req =>
    obtain ⟨hs, hn, hm⟩ := n.catchUp_progress env req.term
    exact .same hs (fun p _ => congrFun hn p) fun p _ => congrFun hm p
  | steppedDown => exact .same (fun h => nomatch h) (fun _ _ => rfl) fun _ _ => rfl
  | elected src resp hterm hstate =>
    refine .reset hstate rfl rfl (fun p hp => ?_) fun p hp => ?_
    · have : Function.update (n.peerIds.foldl (fun m pid => Function.update m pid
          (n.getLastLogIndex + 1)) n.nextIndex) n.nodeId (n.getLastLogIndex + 1) p
          = n.log.length - 1 + 1 := by
        rw [Function.update_of_ne (hne p hp), foldl_update, if_pos hp, getLastLogIndex_eq]
      exact this
    · have : Function.update (n.peerIds.foldl (fun m pid => Function.update m pid 0)
          n.matchIndex) n.nodeId n.getLastLogIndex p = 0 := by
        rw [Function.update_of_ne (hne p hp), foldl_update, if_pos hp]
      exact this
  | matchAdvanced src resp hstate hterm hsuccess =>
    exact .advance src resp hstate hterm hsuccess rfl rfl rfl rfl
  | retried src resp hstate _ _ next hnext => exact .retry hstate hnext fun _ _ => rfl
  | _ => exact .same id (fun _ _ => rfl) fun _ _ => rfl

/-- A node that acknowledges a request has merged it and reports its own last index. -/
theorem Reacts.acknowledged {resp : AppendEntriesResponse}
    (h : n.Reacts env input n' (some (.appendEntriesResp resp))) (hsuccess : resp.success = true) :
    ∃ src req, input = .message src (.appendEntries req) ∧ n.Accepts req ∧
      n'.log = n.mergedLog req ∧ n'.currentTerm = req.term ∧ resp.term = req.term ∧
      resp.matchIndex = n'.log.length - 1 := by
  cases h with
  | appendStale | appendMismatch => exact nomatch hsuccess
  | appendAccepted src req haccepts =>
    exact ⟨src, req, rfl, haccepts, rfl, by simpa using haccepts.1, by simpa using haccepts.1, rfl⟩

/-- An answer carries the term that the node has then. -/
theorem Reacts.answer_term {msg : RaftMessage} (h : n.Reacts env input n' (some msg)) :
    msg.term = n'.currentTerm := by
  cases h <;> rfl

/-- A node that grants a vote has voted for the candidate of the request. -/
theorem Reacts.answer_granted {src : Nat} {req : RequestVoteRequest} {resp : RequestVoteResponse}
    (h : n.Reacts env (.message src (.requestVote req)) n' (some (.requestVoteResp resp)))
    (hgranted : resp.voteGranted = true) : n'.votedFor = req.candidateId := by
  cases h with
  | voteRefused => exact nomatch hgranted
  | voteGranted => rfl

/-- A reply is never a request. -/
theorem Reacts.reply_ne_appendEntries {req : AppendEntriesRequest}
    (h : n.Reacts env input n' (some (.appendEntries req))) : False := by
  cases h

/-! ## Packets -/

/-- A packet that a reaction of node `i` put in flight. -/
inductive Emits (i : Nat) (n n' : RaftNode) : Input → Option RaftMessage → Packet → Prop
  | vote {reply : Option RaftMessage} {pid : Nat} (hpeer : pid ∈ n'.peerIds) (hcand : n'.state = .candidate)
      (hterm : n'.currentTerm = n.currentTerm + 1) (hlog : n'.log = n.log) :
      Emits i n n' .tick reply ⟨i, pid, .requestVote
        { term := n'.currentTerm
          candidateId := n'.nodeId
          lastLogIndex := n'.getLastLogIndex
          lastLogTerm := n'.getLastLogTerm }⟩
  | append {input : Input} {reply : Option RaftMessage} {pid : Nat} (m : RaftNode) (heartbeatOnly : Bool)
      (hpeer : pid ∈ n'.peerIds) (hstate : n'.state = .leader)
      (hlog : m.log = n'.log) (hterm : m.currentTerm = n'.currentTerm)
      (hnext : m.nextIndex = n'.nextIndex) (hid : m.nodeId = n'.nodeId)
      (hcommit : m.commitIndex = n.commitIndex)
      (hkeep : n'.commitIndex = n.commitIndex ∨
        (n.state = .leader ∧ n'.currentTerm = n.currentTerm ∧ n'.log = n.log)) :
      Emits i n n' input reply ⟨i, pid, .appendEntries (m.appendEntriesFor heartbeatOnly pid)⟩
  | reply (src : Nat) (msg answer : RaftMessage) :
      Emits i n n' (.message src msg) (some answer) ⟨i, src, answer⟩

/-- The packets a node answers a request with. -/
def replies (i : Nat) : Input → Option RaftMessage → List Packet
  | .message fromNode _, some msg => [⟨i, fromNode, msg⟩]
  | _, _ => []

end RaftNode

/-! ## Steps of the cluster -/

/-- Where the input of node `i` comes from, and the packets that stay in flight. -/
inductive Arrives (c : Cluster) : Event → Nat → Env → Input → List Packet → Prop
  | tick (i : Nat) (env : Env) : Arrives c (.tick i env) i env .tick c.net
  | propose (i : Nat) (env : Env) (command : Bytes) :
      Arrives c (.propose i env command) i env (.propose command) c.net
  | deliver (p : Packet) (env : Env) (hp : p ∈ c.net) :
      Arrives c (.deliver p env) p.dst env (.message p.src p.msg) (c.net.erase p)

/-- Node `i` reacted; all others are untouched. -/
structure Acted (M : Membership) (c c' : Cluster) (e : Event) (i : Nat) (env : Env)
    (input : Input) (reply : Option RaftMessage) (net : List Packet) : Prop where
  mem : i ∈ M.ids
  arrives : Arrives c e i env input net
  reacts : (c.nodes i).Reacts env input (c'.nodes i) reply
  others : ∀ j, j ≠ i → c'.nodes j = c.nodes j
  net_eq : c'.net = net ++ RaftNode.sent i (c.nodes i) (c'.nodes i) ++
    RaftNode.replies i input reply
  size_le : (c'.nodes i).log.length ≤ maxLogSize

variable {M : Membership} {c c' : Cluster} {e : Event}

private theorem act_eq_some {i : Nat} {env : Env} {input : Input} {net : List Packet}
    (hmem : i ∈ M.ids) (harrives : Arrives c e i env input net)
    (h : c.act i env input net = some c') :
    c'.nodes i = ((c.nodes i).react env input).1 ∧
      Acted M c c' e i env input ((c.nodes i).react env input).2 net := by
  -- the step exists only if the log still fits in its vector
  unfold Cluster.act at h
  dsimp only at h
  split at h
  · next hsize =>
    have hnodes : c'.nodes i = ((c.nodes i).react env input).1 := by
      rw [← Option.some.inj h]
      exact Function.update_self _ _ _
    refine ⟨hnodes, hmem, harrives, ?_, ?_, ?_, ?_⟩
    · rw [hnodes]
      exact (c.nodes i).react_cases env input
    · intro j hj
      rw [← Option.some.inj h]
      exact Function.update_of_ne hj _ _
    · rw [hnodes, ← Option.some.inj h]
      rfl
    · rw [hnodes]
      exact hsize
  · exact nomatch h

/-- A step of the cluster loses a packet or lets one node react. -/
theorem step_cases (h : (raftSystem M).step c e = some c') :
    (∃ p, c'.nodes = c.nodes ∧ c'.net = c.net.erase p) ∨
      ∃ i env input reply net, Acted M c c' e i env input reply net := by
  cases e with
  | tick id env =>
    obtain ⟨hid, h⟩ := (Option.ite_none_right_eq_some).mp h
    exact .inr ⟨id, env, _, _, _, (act_eq_some hid (.tick id env) h).2⟩
  | propose id env command =>
    obtain ⟨hid, h⟩ := (Option.ite_none_right_eq_some).mp h
    exact .inr ⟨id, env, _, _, _, (act_eq_some hid (.propose id env command) h).2⟩
  | deliver p env =>
    obtain ⟨⟨hid, hp⟩, h⟩ := (Option.ite_none_right_eq_some).mp h
    exact .inr ⟨p.dst, env, _, _, _, (act_eq_some hid (.deliver p env hp) h).2⟩
  | lose p =>
    obtain rfl := Option.some.inj h
    exact .inl ⟨p, rfl, rfl⟩

/-- Seen from one node, a step leaves it as it is or is its own reaction. -/
theorem step_node (h : (raftSystem M).step c e = some c') (i : Nat) :
    c'.nodes i = c.nodes i ∨ ∃ env input reply net, Acted M c c' e i env input reply net := by
  rcases step_cases h with ⟨p, hnodes, -⟩ | ⟨j, env, input, reply, net, hact⟩
  · exact .inl (congrFun hnodes i)
  · by_cases hij : i = j
    · exact .inr ⟨env, input, reply, net, hij ▸ hact⟩
    · exact .inl (hact.others i hij)

/-- What a new node has and its own reactions keep, it has after every run. -/
theorem run_node {h : List (Cluster × Event)} (hrun : Run (raftSystem M) h c) {i : Nat}
    (hi : i ∈ M.ids) {P : RaftNode → Prop} (hnew : ∀ env, P (RaftNode.new i (M.peerIds i) env))
    (hkeep : ∀ h c e c' env input reply net, Run (raftSystem M) h c →
      Acted M c c' e i env input reply net → P (c.nodes i) → P (c'.nodes i)) :
    P (c.nodes i) := by
  induction hrun with
  | start hinit =>
    obtain ⟨env, heq⟩ := hinit.1 i hi
    rw [heq]
    exact hnew env
  | next hrun hstep ih =>
    rcases step_node hstep i with hsame | ⟨env, input, reply, net, hact⟩
    · rw [hsame]
      exact ih
    · exact hkeep _ _ _ _ env input reply net hrun hact ih

/-- A timer that fires is handled by its node. -/
theorem step_tick {i : Nat} {env : Env} (h : (raftSystem M).step c (.tick i env) = some c') :
    c'.nodes i = (c.nodes i).tick env ∧
      Acted M c c' (.tick i env) i env .tick none c.net :=
  let ⟨hid, h⟩ := (Option.ite_none_right_eq_some).mp h
  act_eq_some hid (.tick i env) h

/-- A delivered packet is handled by the node it is for. -/
theorem step_deliver {p : Packet} {env : Env}
    (h : (raftSystem M).step c (.deliver p env) = some c') :
    c'.nodes p.dst = ((c.nodes p.dst).handleRaftMessage env p.src p.msg).1 ∧
      Acted M c c' (.deliver p env) p.dst env (.message p.src p.msg)
        ((c.nodes p.dst).handleRaftMessage env p.src p.msg).2 (c.net.erase p) :=
  let ⟨⟨hid, hp⟩, h⟩ := (Option.ite_none_right_eq_some).mp h
  act_eq_some hid (.deliver p env hp) h

private theorem act_isSome {i : Nat} {env : Env} (input : Input) (net : List Packet)
    (hsize : ((c.nodes i).react env input).1.log.length ≤ maxLogSize) :
    ∃ c', c.act i env input net = some c' := by
  unfold Cluster.act
  dsimp only
  rw [if_pos hsize]
  exact ⟨_, rfl⟩

/-- A timer can fire unless the log of its node outgrows its vector. -/
theorem exists_step_tick {i : Nat} {env : Env} (hi : i ∈ M.ids)
    (hsize : ((c.nodes i).tick env).log.length ≤ maxLogSize) :
    ∃ c', (raftSystem M).step c (.tick i env) = some c' := by
  obtain ⟨c', h⟩ := act_isSome .tick c.net hsize
  exact ⟨c', (if_pos hi).trans h⟩

/-- A packet in flight can be delivered unless the log of the receiver outgrows its vector. -/
theorem exists_step_deliver {p : Packet} (env : Env) (hdst : p.dst ∈ M.ids) (hp : p ∈ c.net)
    (hsize : ((c.nodes p.dst).handleRaftMessage env p.src p.msg).1.log.length ≤ maxLogSize) :
    ∃ c', (raftSystem M).step c (.deliver p env) = some c' := by
  obtain ⟨c', h⟩ := act_isSome (.message p.src p.msg) (c.net.erase p) hsize
  exact ⟨c', (if_pos ⟨hdst, hp⟩).trans h⟩

namespace Acted

variable {i : Nat} {env : Env} {input : Input} {reply : Option RaftMessage} {net : List Packet}

theorem net_subset (h : Acted M c c' e i env input reply net) : net ⊆ c.net := by
  cases h.arrives with
  | tick | propose => exact fun p hp => hp
  | deliver => exact List.erase_subset

/-- A packet in flight after the step was so before or was emitted in it. -/
theorem mem_net (h : Acted M c c' e i env input reply net) {p : Packet} (hp : p ∈ c'.net) :
    p ∈ c.net ∨ RaftNode.Emits i (c.nodes i) (c'.nodes i) input reply p := by
  rw [h.net_eq, List.mem_append, List.mem_append] at hp
  rcases hp with (hp | hp) | hp
  · exact .inl (h.net_subset hp)
  · right
    obtain ⟨sends, hsends, hsent⟩ := h.reacts.sent_eq i
    rw [hsent, List.mem_filterMap] at hp
    obtain ⟨call, hcall, hpacket⟩ := hp
    -- a packet the node sent is one of its round of requests
    cases hsends with
    | none => exact (List.not_mem_nil hcall).elim
    | vote hstate hcand hterm hlog =>
      obtain ⟨pid, hpid, rfl⟩ := List.mem_map.mp hcall
      obtain rfl := Option.some.inj hpacket
      exact .vote hpid hcand hterm hlog
    | append m heartbeatOnly hstate hlog hterm hnext hpeers hid hcommit hkeep =>
      obtain ⟨pid, hpid, rfl⟩ := List.mem_map.mp hcall
      obtain rfl := Option.some.inj hpacket
      exact .append m heartbeatOnly (hpeers ▸ hpid) hstate hlog hterm hnext hid hcommit hkeep
  · right
    unfold RaftNode.replies at hp
    split at hp
    · obtain rfl := List.mem_singleton.mp hp
      exact .reply _ _ _
    · exact (List.not_mem_nil hp).elim

/-- A node reacts to a message by taking it out of flight. -/
theorem of_message {src : Nat} {msg : RaftMessage}
    (h : Acted M c c' e i env (.message src msg) reply net) :
    ⟨src, i, msg⟩ ∈ c.net ∧ net = c.net.erase ⟨src, i, msg⟩ ∧
      e = .deliver ⟨src, i, msg⟩ env := by
  cases h.arrives with
  | deliver p env hp => exact ⟨hp, rfl, rfl⟩

end Acted

end Dkv
