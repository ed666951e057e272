import LearnGit.Spec.Replication

/-!
# Log matching

Every entry of term `T` that any node ever holds was written by the leader of `T`:
up to that entry the node's log equals a log the leader had (`Backed`). The logs of
one leader are prefixes of each other, so two logs that hold entries of the same
term at the same position are equal up to it.

## Key results

- `logInv`: all logs are well formed and backed by leader logs
- `logs_matching`: the logs of all visited states match each other
- `log_matching`: equal terms at a position mean equal entries up to it
-/

namespace Dkv

open Transition ReplicatedLog

variable {M : Membership} {h : List (Cluster × Event)} {c c' : Cluster} {e : Event}

/-! ## Well-formed logs -/

/-- The shape of a log at a node of term `term`: the sentinel first, every entry at
    the position of its index, terms positive after the sentinel and ascending. -/
structure WellFormed (term : Nat) (log : List LogEntry) : Prop where
  sentinel : log[0]? = some default
  index (i : Nat) (e : LogEntry) : log[i]? = some e → e.index = i
  term_pos (i : Nat) (e : LogEntry) : 0 < i → log[i]? = some e → 0 < e.term
  term_le (i : Nat) (e : LogEntry) : log[i]? = some e → e.term ≤ term
  sorted (i j : Nat) (a b : LogEntry) : i ≤ j → log[i]? = some a → log[j]? = some b →
    a.term ≤ b.term

namespace WellFormed

variable {term term' : Nat} {log log' : List LogEntry}

theorem length_pos (hlog : WellFormed term log) : 0 < log.length :=
  (List.getElem?_eq_some_iff.mp hlog.sentinel).1

theorem mono (hlog : WellFormed term log) (hle : term ≤ term') : WellFormed term' log where
  sentinel := hlog.sentinel
  index := hlog.index
  term_pos := hlog.term_pos
  term_le i e he := (hlog.term_le i e he).trans hle
  sorted := hlog.sorted

/-- A prefix that still holds the sentinel is well formed. -/
theorem of_isPrefix (hlog : WellFormed term log) (hpre : log' <+: log) (hpos : 0 < log'.length) :
    WellFormed term log' where
  sentinel := by rw [← getElem?_eq_of_isPrefix hpre hpos, hlog.sentinel]
  index i e he := hlog.index i e (getElem?_of_isPrefix hpre he)
  term_pos i e hi he := hlog.term_pos i e hi (getElem?_of_isPrefix hpre he)
  term_le i e he := hlog.term_le i e (getElem?_of_isPrefix hpre he)
  sorted i j a b hij ha hb :=
    hlog.sorted i j a b hij (getElem?_of_isPrefix hpre ha) (getElem?_of_isPrefix hpre hb)

theorem singleton : WellFormed 0 [{ term := 0, index := 0 }] := by
  have hget : ∀ (i : Nat) (e : LogEntry), [{ term := 0, index := 0 }][i]? = some e →
      i = 0 ∧ e = { term := 0, index := 0 } := by
    intro i e he
    cases i with
    | zero => exact ⟨rfl, by simpa using he.symm⟩
    | succ i => simp at he
  refine ⟨rfl, fun i e he => ?_, fun i e hi he => ?_, fun i e he => ?_, fun i j a b _ ha hb => ?_⟩
  · obtain ⟨rfl, rfl⟩ := hget i e he
    rfl
  · have := (hget i e he).1
    omega
  · obtain ⟨rfl, rfl⟩ := hget i e he
    exact Nat.le_refl _
  · rw [(hget i a ha).2, (hget j b hb).2]

/-- Appending an entry of the node's own term. -/
theorem append (hlog : WellFormed term log) (hterm : 0 < term) (command : Bytes) :
    WellFormed term (log ++
      [{ term := term, index := log.length - 1 + 1, command := command }]) := by
  have hpos := hlog.length_pos
  generalize hentry : ({ term := term, index := log.length - 1 + 1, command := command }
    : LogEntry) = entry
  have het : entry.term = term := by rw [← hentry]
  have hei : entry.index = log.length := by
    rw [← hentry]
    show log.length - 1 + 1 = log.length
    omega
  -- a position of the new log is an old one or the last
  have hget : ∀ i e, (log ++ [entry])[i]? = some e →
      log[i]? = some e ∨ (i = log.length ∧ e = entry) := by
    intro i e he
    rcases Nat.lt_or_ge i log.length with hi | hi
    · rw [List.getElem?_append_left hi] at he
      exact .inl he
    · have hlt := (List.getElem?_eq_some_iff.mp he).1
      rw [List.length_append, List.length_singleton] at hlt
      obtain rfl : i = log.length := by omega
      rw [List.getElem?_concat_length] at he
      exact .inr ⟨rfl, (Option.some.inj he).symm⟩
  refine ⟨?_, fun i e he => ?_, fun i e hi he => ?_, fun i e he => ?_,
    fun i j a b hij ha hb => ?_⟩
  · rw [List.getElem?_append_left hpos, hlog.sentinel]
  · -- each clause holds of the old entries, and of the new one by its construction
    rcases hget i e he with hold | ⟨rfl, rfl⟩
    · exact hlog.index i e hold
    · exact hei
  · rcases hget i e he with hold | ⟨rfl, rfl⟩
    · exact hlog.term_pos i e hi hold
    · omega
  · rcases hget i e he with hold | ⟨rfl, rfl⟩
    · exact hlog.term_le i e hold
    · omega
  · rcases hget i a ha with haold | ⟨rfl, rfl⟩
    · rcases hget j b hb with hbold | ⟨rfl, rfl⟩
      · exact hlog.sorted i j a b hij haold hbold
      · rw [het]
        exact hlog.term_le i a haold
    · -- nothing comes after the new entry
      rcases hget j b hb with hbold | ⟨rfl, rfl⟩
      · have := (List.getElem?_eq_some_iff.mp hbold).1
        omega
      · exact Nat.le_refl _

end WellFormed

/-! ## Backed logs -/

/-- Every entry of the log was written by the leader of its term: up to the entry
    the log equals a log that leader had. -/
def Backed (M : Membership) (V : List Cluster) (L : List LogEntry) : Prop :=
  ∀ i e, 0 < i → L[i]? = some e → ∃ K, LeaderLog M V e.term K ∧ L.take (i + 1) = K.take (i + 1)

theorem Backed.mono {V V' : List Cluster} {L : List LogEntry} (hsub : V ⊆ V')
    (hL : Backed M V L) : Backed M V' L := fun i e hi he =>
  let ⟨K, hK, heq⟩ := hL i e hi he
  ⟨K, hK.mono hsub, heq⟩

theorem Backed.of_isPrefix {V : List Cluster} {P L : List LogEntry} (hpre : P <+: L)
    (hL : Backed M V L) : Backed M V P := by
  intro i e hi he
  obtain ⟨K, hK, heq⟩ := hL i e hi (getElem?_of_isPrefix hpre he)
  refine ⟨K, hK, ?_⟩
  rw [← heq]
  exact take_eq_of_isPrefix hpre (List.getElem?_eq_some_iff.mp he).1

/-- The invariant of logs; `V` are the states visited so far. -/
structure LogInv (M : Membership) (V : List Cluster) : Prop where
  wellFormed : ∀ u ∈ V, ∀ i ∈ M.ids, WellFormed (u.nodes i).currentTerm (u.nodes i).log
  backed : ∀ u ∈ V, ∀ i ∈ M.ids, Backed M V (u.nodes i).log

private theorem logInv_init (hinit : (raftSystem M).init c) : LogInv M [c] := by
  have hlog : ∀ i ∈ M.ids, (c.nodes i).currentTerm = 0 ∧
      (c.nodes i).log = [{ term := 0, index := 0 }] := by
    intro i hi
    obtain ⟨env, hnew⟩ := hinit.1 i hi
    rw [hnew]
    exact ⟨rfl, rfl⟩
  constructor
  · intro u hu i hi
    obtain rfl := List.mem_singleton.mp hu
    rw [(hlog i hi).1, (hlog i hi).2]
    exact .singleton
  · intro u hu i hi j e hj he
    obtain rfl := List.mem_singleton.mp hu
    rw [(hlog i hi).2, List.getElem?_eq_none hj] at he
    exact nomatch he

/-- The logs of all visited states match each other. -/
theorem LogInv.matching (inv : LogInv M (visited h c)) (hrun : Run (raftSystem M) h c)
    {u v : Cluster} (hu : u ∈ visited h c) (hv : v ∈ visited h c) {a b : Nat} (ha : a ∈ M.ids)
    (hb : b ∈ M.ids) : Matching LogEntry.term (u.nodes a).log (v.nodes b).log := by
  intro i e₁ e₂ he₁ he₂ hterm
  have hwf₁ := inv.wellFormed u hu a ha
  have hwf₂ := inv.wellFormed v hv b hb
  cases i with
  | zero =>
    rw [List.take_add_one, List.take_add_one, hwf₁.sentinel, hwf₂.sentinel, List.take_zero,
      List.take_zero]
  | succ i =>
    obtain ⟨K₁, hK₁, heq₁⟩ := inv.backed u hu a ha (i + 1) e₁ (Nat.succ_pos i) he₁
    obtain ⟨K₂, hK₂, heq₂⟩ := inv.backed v hv b hb (i + 1) e₂ (Nat.succ_pos i) he₂
    have hlen : ∀ {L K : List LogEntry} {e : LogEntry}, L[i + 1]? = some e →
        L.take (i + 1 + 1) = K.take (i + 1 + 1) → i + 1 + 1 ≤ K.length := by
      intro L K e he heq
      rw [getElem?_eq_of_take_eq heq (by omega)] at he
      exact (List.getElem?_eq_some_iff.mp he).1
    rw [heq₁, heq₂]
    -- both leaders are of one term, so one of their logs extends the other
    rcases hK₁.compatible hrun (hterm ▸ hK₂) with hpre | hpre
    · exact take_eq_of_isPrefix hpre (hlen he₁ heq₁)
    · exact (take_eq_of_isPrefix hpre (hlen he₂ heq₂)).symm

/-! ## Merging -/

/-- What a node merges from a request: a section of the leader's log `K` after a
    position up to which its own log `L` agrees with `K`. -/
structure MergeSource (L K : List LogEntry) (req : AppendEntriesRequest) : Prop where
  prev_lt : req.prevLogIndex < L.length
  prev_lt' : req.prevLogIndex < K.length
  take_eq : L.take (req.prevLogIndex + 1) = K.take (req.prevLogIndex + 1)
  sec : Section K req.prevLogIndex req.entries

/-- A request that was read off inside a matching log is accepted only at a position up
    to which both logs agree. -/
theorem MergeSource.of_accepts {n : RaftNode} {K : List LogEntry} {req : AppendEntriesRequest}
    {prev : LogEntry} (hK : K[req.prevLogIndex]? = some prev)
    (hterm : prev.term = req.prevLogTerm) (hsec : Section K req.prevLogIndex req.entries)
    (hzero : n.log[0]? = K[0]?) (hmatch : Matching LogEntry.term n.log K)
    (haccepts : n.Accepts req) : MergeSource n.log K req := by
  obtain ⟨-, hlast, hprev⟩ := haccepts
  rw [RaftNode.getLastLogIndex_eq] at hlast
  have hltK := (List.getElem?_eq_some_iff.mp hK).1
  have hpos : 0 < n.log.length := by
    rw [List.getElem?_eq_getElem (by omega : 0 < K.length)] at hzero
    exact (List.getElem?_eq_some_iff.mp hzero).1
  have hlt : req.prevLogIndex < n.log.length := by omega
  have hget := List.getElem?_eq_getElem hlt
  rw [RaftNode.getLogEntry_eq hget] at hprev
  refine ⟨hlt, hltK, ?_, hsec⟩
  apply hmatch _ _ _ hget hK
  rcases Nat.eq_zero_or_pos req.prevLogIndex with hp | hp
  · -- position 0 is not compared: both logs hold the sentinel there
    rw [hp] at hK
    simp only [hp] at hget ⊢
    rw [hget, hK] at hzero
    rw [Option.some.inj hzero]
  · rw [hprev hp, hterm]

theorem ReadFrom.mergeSource {n : RaftNode} {K : List LogEntry} {req : AppendEntriesRequest}
    {term term' : Nat} (hread : ReadFrom K req) (hwf : WellFormed term n.log)
    (hwfK : WellFormed term' K) (hmatch : Matching LogEntry.term n.log K)
    (haccepts : n.Accepts req) : MergeSource n.log K req := by
  cases hread with
  | inside prev hK hterm hsec =>
    exact .of_accepts hK hterm hsec (hwf.sentinel.trans hwfK.sentinel.symm) hmatch haccepts
  | beyond hlen hterm _ =>
    -- the term of the empty entry matches no entry of the log
    obtain ⟨-, hlast, hprev⟩ := haccepts
    rw [RaftNode.getLastLogIndex_eq] at hlast
    have hpos := hwf.length_pos
    have hKpos := hwfK.length_pos
    have hp : 0 < req.prevLogIndex := by omega
    have hget := List.getElem?_eq_getElem (by omega : req.prevLogIndex < n.log.length)
    have := hwf.term_pos _ _ hp hget
    rw [RaftNode.getLogEntry_eq hget] at hprev
    rw [hprev hp, hterm] at this
    exact absurd this (Nat.lt_irrefl 0)

section Merge

variable {i src : Nat} {env : Env} {req : AppendEntriesRequest} {reply : Option RaftMessage}
  {net : List Packet}

/-- An accepted request carries a section of a log its leader had. -/
theorem Acted.mergeSource (inv : LogInv M (visited h c)) (hrun : Run (raftSystem M) h c)
    (hact : Acted M c c' e i env (.message src (.appendEntries req)) reply net)
    (haccepts : (c.nodes i).Accepts req) :
    src ∈ M.ids ∧ i ≠ src ∧ ∃ u ∈ visited h c, SentBy (u.nodes src) req ∧
      MergeSource (c.nodes i).log (u.nodes src).log req := by
  obtain ⟨hsrc, hne, u, hu, hsent⟩ := hact.sentBy hrun
  have hc := mem_visited_self h c
  exact ⟨hsrc, hne, u, hu, hsent, hsent.read.mergeSource (inv.wellFormed c hc i hact.mem)
    (inv.wellFormed u hu src hsrc) (inv.matching hrun hc hu hact.mem hsrc) haccepts⟩

end Merge

theorem MergeSource.splice {n : RaftNode} {K : List LogEntry} {req : AppendEntriesRequest}
    (hsource : MergeSource n.log K req) :
    Splice LogEntry.term n.log req.prevLogIndex req.entries (n.mergedLog req) :=
  RaftNode.mergeEntries_splice _ _ hsource.prev_lt

/-- A merge cuts the log down to a prefix of the leader's log or leaves it alone. -/
theorem MergeSource.isPrefix_or_keep {n : RaftNode} {K : List LogEntry}
    {req : AppendEntriesRequest} (hsource : MergeSource n.log K req)
    (hmatch : Matching LogEntry.term n.log K) :
    (n.mergedLog req <+: K ∧
        (n.mergedLog req).length = req.prevLogIndex + 1 + req.entries.length) ∨
      (n.mergedLog req = n.log ∧
        ∀ k, Agrees LogEntry.term n.log req.prevLogIndex req.entries k) :=
  hsource.splice.isPrefix_or_keep hsource.sec hmatch hsource.take_eq

/-! ## The invariant -/

section Step

variable {i : Nat} {env : Env} {input : Input} {reply : Option RaftMessage} {net : List Packet}

/-- The log of the node that reacted is well formed and backed. -/
private theorem LogInv.step_log (inv : LogInv M (visited h c)) (hrun : Run (raftSystem M) h c)
    (hact : Acted M c c' e i env input reply net) :
    WellFormed (c'.nodes i).currentTerm (c'.nodes i).log ∧
      Backed M (c' :: visited h c) (c'.nodes i).log := by
  have hc := mem_visited_self h c
  have hwf := (inv.wellFormed c hc i hact.mem).mono hact.reacts.term_le
  have hbacked := (inv.backed c hc i hact.mem).mono (List.subset_cons_self c' _)
  cases hact.reacts.logStep with
  | same hlog =>
    rw [hlog]
    exact ⟨hwf, hbacked⟩
  | append command hstate hstate' hterm hlog =>
    have hpos := (electionInv hrun).term_pos i hact.mem (by rw [hstate]; decide)
    constructor
    · rw [hlog, ← hterm]
      exact hwf.append (by omega) command
    · intro j entry hj hentry
      rcases Nat.lt_or_ge j (c.nodes i).log.length with hlt | hge
      · rw [hlog, List.getElem?_append_left hlt] at hentry
        obtain ⟨K, hK, heq⟩ := hbacked j entry hj hentry
        exact ⟨K, hK, by rw [hlog, List.take_append_of_le_length hlt, heq]⟩
      · -- the new entry is backed by the leader's own new log
        refine ⟨(c'.nodes i).log, ⟨c', List.mem_cons_self, i, hact.mem, hstate', ?_, rfl⟩, rfl⟩
        have hlt := (List.getElem?_eq_some_iff.mp hentry).1
        rw [hlog, List.length_append, List.length_singleton] at hlt
        obtain rfl : j = (c.nodes i).log.length := by omega
        rw [hlog, List.getElem?_concat_length] at hentry
        rw [hterm, ← Option.some.inj hentry]
  | merge src req haccepts hterm hlog =>
    obtain ⟨hsrc, -, u, hu, hsent, hsource⟩ := hact.mergeSource inv hrun haccepts
    rw [hlog]
    -- the merged log is a prefix of the sender's, or it is what the node had
    rcases hsource.isPrefix_or_keep (inv.matching hrun hc hu hact.mem hsrc) with
      ⟨hpre, hlen⟩ | ⟨heq, -⟩
    · constructor
      · rw [hterm, ← hsent.term]
        exact (inv.wellFormed u hu src hsrc).of_isPrefix hpre (by omega)
      · exact ((inv.backed u hu src hsrc).of_isPrefix hpre).mono (List.subset_cons_self _ _)
    · rw [heq]
      exact ⟨hwf, hbacked⟩

end Step

theorem logInv (hrun : Run (raftSystem M) h c) : LogInv M (visited h c) := by
  refine hrun.rec_on_run (P := fun h c => LogInv M (visited h c))
    (fun c => logInv_init) fun h c e c' hrun inv hstep => ?_
  have hc := mem_visited_self h c
  have hnode : ∀ i ∈ M.ids, WellFormed (c'.nodes i).currentTerm (c'.nodes i).log ∧
      Backed M (c' :: visited h c) (c'.nodes i).log := by
    intro i hi
    rcases step_node hstep i with hsame | ⟨env, input, reply, net, hact⟩
    · rw [hsame]
      exact ⟨inv.wellFormed c hc i hi, (inv.backed c hc i hi).mono (List.subset_cons_self _ _)⟩
    · exact inv.step_log hrun hact
  constructor
  · intro u hu i hi
    rcases List.mem_cons.mp hu with rfl | hu
    · exact (hnode i hi).1
    · exact inv.wellFormed u hu i hi
  · intro u hu i hi
    rcases List.mem_cons.mp hu with rfl | hu
    · exact (hnode i hi).2
    · exact (inv.backed u hu i hi).mono (List.subset_cons_self _ _)

/-! ## Log matching -/

/-- The logs of all nodes in all states of a run match each other. -/
theorem logs_matching (hrun : Run (raftSystem M) h c) {u v : Cluster} (hu : u ∈ visited h c)
    (hv : v ∈ visited h c) {a b : Nat} (ha : a ∈ M.ids) (hb : b ∈ M.ids) :
    Matching LogEntry.term (u.nodes a).log (v.nodes b).log :=
  (logInv hrun).matching hrun hu hv ha hb

/-- Log matching: where two nodes hold entries of the same term, their logs are
    identical up to that position. -/
theorem log_matching (hrun : Run (raftSystem M) h c) {a b : Nat} (ha : a ∈ M.ids)
    (hb : b ∈ M.ids) {i : Nat} {x y : LogEntry} (hx : (c.nodes a).log[i]? = some x)
    (hy : (c.nodes b).log[i]? = some y) (hterm : x.term = y.term) :
    ∀ j ≤ i, ∃ z, (c.nodes a).log[j]? = some z ∧ (c.nodes b).log[j]? = some z := by
  intro j hj
  have hc := mem_visited_self h c
  have htake := logs_matching hrun hc hc ha hb i x y hx hy hterm
  have hlt := (List.getElem?_eq_some_iff.mp hx).1
  have hget := List.getElem?_eq_getElem (l := (c.nodes a).log) (i := j) (by omega)
  exact ⟨_, hget, (getElem?_eq_of_take_eq htake (by omega)).symm.trans hget⟩

/-- Node 1 of three is elected, replicates one entry to node 2 and appends a second
    one that stays its own. -/
def oneReplicated : List Event :=
  [.tick 1 (atTime 200),
    .deliver ⟨1, 2, .requestVote ⟨1, 1, 0, 0⟩⟩ (atTime 210),
    .deliver ⟨2, 1, .requestVoteResp ⟨1, true⟩⟩ (atTime 220),
    .propose 1 (atTime 230) [97],
    .deliver ⟨1, 2, .appendEntries ⟨1, 1, 0, 0, 0, [⟨1, 1, [97]⟩]⟩⟩ (atTime 240),
    .propose 1 (atTime 250) [98]]

theorem oneReplicated_runs : (schedule 3 oneReplicated).isSome := by decide +kernel

theorem log_matching_oneReplicated :
    let r := (schedule 3 oneReplicated).get oneReplicated_runs
    (r.2.nodes 1).log.length = 3 ∧
      ∀ j ≤ 1, ∃ z, (r.2.nodes 1).log[j]? = some z ∧ (r.2.nodes 2).log[j]? = some z :=
  ⟨by decide +kernel,
    log_matching (schedule_run oneReplicated_runs) (x := ⟨1, 1, [97]⟩) (y := ⟨1, 1, [97]⟩)
      (by decide) (by decide) (by decide +kernel) (by decide +kernel) rfl⟩

end Dkv
