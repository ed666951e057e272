import LearnGit.Spec.LogMatching

/-!
# Where commands come from

Every entry behind the sentinel was proposed at some node, and a node applies a
command only while it is in its log. So nothing is applied that nobody proposed.

## Key results

- `entry_proposed`: the commands in the logs were proposed
- `applied_proposed`: so were the applied commands
-/

namespace Dkv

open Transition ReplicatedLog

variable {M : Membership} {h : List (Cluster × Event)} {c c' : Cluster} {e : Event}

/-- A step of the history proposed the command. -/
def Proposed (h : List (Cluster × Event)) (command : Bytes) : Prop :=
  ∃ p ∈ h, ∃ i env, p.2 = .propose i env command

theorem Proposed.cons {command : Bytes} (hp : Proposed h command) (p : Cluster × Event) :
    Proposed (p :: h) command :=
  let ⟨q, hq, hprop⟩ := hp
  ⟨q, List.mem_cons_of_mem _ hq, hprop⟩

/-! ## Entries -/

/-- Every entry of the log behind the sentinel was proposed. -/
def LogProposed (h : List (Cluster × Event)) (log : List LogEntry) : Prop :=
  ∀ k x, 0 < k → log[k]? = some x → Proposed h x.command

theorem LogProposed.cons {log : List LogEntry} (hlog : LogProposed h log) (p : Cluster × Event) :
    LogProposed (p :: h) log :=
  fun k x hk hx => (hlog k x hk hx).cons p

theorem LogProposed.of_isPrefix {log log' : List LogEntry} (hlog : LogProposed h log)
    (hpre : log' <+: log) : LogProposed h log' :=
  fun k x hk hx => hlog k x hk (getElem?_of_isPrefix hpre hx)

private theorem Acted.logProposed {w : Nat} {env : Env} {input : Input}
    {reply : Option RaftMessage} {net : List Packet} (hrun : Run (raftSystem M) h c)
    (hact : Acted M c c' e w env input reply net)
    (hlogs : ∀ u ∈ visited h c, ∀ i ∈ M.ids, LogProposed h (u.nodes i).log) :
    LogProposed ((c, e) :: h) (c'.nodes w).log := by
  have hc := mem_visited_self h c
  have hself := hlogs c hc w hact.mem
  cases hact.reacts.logStep with
  | same hlog =>
    rw [hlog]
    exact hself.cons _
  | append command _ _ _ hlog =>
    intro k x hk hx
    rw [hlog] at hx
    rcases Nat.lt_or_ge k (c.nodes w).log.length with hlt | hge
    · rw [List.getElem?_append_left hlt] at hx
      exact (hself k x hk hx).cons _
    · -- the new entry carries the command of this very step
      have hle := (List.getElem?_eq_some_iff.mp hx).1
      rw [List.length_append, List.length_singleton] at hle
      obtain rfl : k = (c.nodes w).log.length := by omega
      rw [List.getElem?_concat_length] at hx
      obtain rfl := Option.some.inj hx
      cases hact.arrives with
      | propose => exact ⟨_, List.mem_cons_self, w, env, rfl⟩
  | merge src req haccepts _ hlog =>
    -- what is merged comes from the log of the sender
    obtain ⟨hsrc, -, u, hu, -, hsource⟩ := hact.mergeSource (logInv hrun) hrun haccepts
    rw [hlog]
    have hmatch := (logInv hrun).matching hrun hc hu hact.mem hsrc
    rcases hsource.isPrefix_or_keep hmatch with ⟨hpre, -⟩ | ⟨heq, -⟩
    · exact ((hlogs u hu src hsrc).of_isPrefix hpre).cons _
    · rw [heq]
      exact hself.cons _

/-- The commands in the logs were proposed. -/
theorem entry_proposed (hrun : Run (raftSystem M) h c) :
    ∀ u ∈ visited h c, ∀ i ∈ M.ids, LogProposed h (u.nodes i).log := by
  induction hrun with
  | start hinit =>
    intro u hu i hi k x hk hx
    obtain rfl := List.mem_singleton.mp hu
    obtain ⟨env, hnew⟩ := hinit.1 i hi
    rw [hnew] at hx
    have hlt := (List.getElem?_eq_some_iff.mp hx).1
    simp only [RaftNode.new, List.length_singleton] at hlt
    omega
  | @next h c c' e hrun hstep ih =>
    intro u hu i hi
    rcases List.mem_cons.mp hu with rfl | hu
    · -- only the log of the node that reacted is new
      have hself := fun j hj => (ih c (mem_visited_self h c) j hj).cons (c, e)
      rcases step_node hstep i with hsame | ⟨env, input, reply, net, hact⟩
      · rw [hsame]
        exact hself i hi
      · exact hact.logProposed hrun ih
    · exact (ih u hu i hi).cons _

/-! ## Applied commands -/

/-- Whatever is committed is applied in the same step. -/
theorem commitIndex_le_lastApplied (hrun : Run (raftSystem M) h c) {i : Nat} (hi : i ∈ M.ids) :
    (c.nodes i).commitIndex ≤ (c.nodes i).lastApplied := by
  refine run_node hrun hi (P := fun n => n.commitIndex ≤ n.lastApplied)
    (fun _ => Nat.le_refl 0) fun _ _ _ _ _ _ _ _ _ hact hle => ?_
  cases hact.reacts.commitStep with
  | same hcommit happlied => omega
  | advance _ _ _ _ _ happlied => omega
  | follow _ _ _ _ _ _ happlied => omega

/-- A command is applied from the log. -/
theorem RaftNode.Reacts.applied_from_log {n n' : RaftNode} {env : Env} {input : Input}
    {reply : Option RaftMessage} (hreacts : n.Reacts env input n' reply)
    (hcommitted : n.commitIndex ≤ n.lastApplied) (hlen : 0 < n'.log.length) {i : Nat}
    {command : Bytes} (hmem : .apply i command ∈ newCalls n n') :
    ∃ x, 0 < i ∧ n'.log[i]? = some x ∧ x.command = command := by
  obtain ⟨hlo, hhi, hcommand⟩ := hreacts.applied hmem
  -- whoever moves the commit index keeps it inside the log
  have hlt : i < n'.log.length := by
    cases hreacts.commitStep with
    | same hcommit _ => omega
    | advance _ _ _ hlog hcommit _ =>
      rcases n.advanceLoop_spec n.getLastLogIndex with heq | ⟨-, hle, -, -⟩
      · omega
      · rw [← hcommit, getLastLogIndex_eq, ← hlog] at hle
        omega
    | follow src req _ _ hlog hcommit _ =>
      rw [mergedCommit] at hcommit
      split at hcommit
      · rw [hlog] at hlen ⊢
        omega
      · omega
  refine ⟨n'.log[i], by omega, List.getElem?_eq_getElem hlt, ?_⟩
  rw [hcommand, List.getD_eq_getElem?_getD, List.getElem?_eq_getElem hlt, Option.getD_some]

/-- The applied commands were proposed. -/
theorem applied_proposed (hrun : Run (raftSystem M) h c) {w : Nat} (hw : w ∈ M.ids) {i : Nat}
    {command : Bytes} (hmem : .apply i command ∈ (c.nodes w).calls) : Proposed h command := by
  induction hrun with
  | start hinit =>
    obtain ⟨env, hnew⟩ := hinit.1 w hw
    rw [hnew] at hmem
    exact (List.not_mem_nil hmem).elim
  | @next h c c' e hrun hstep ih =>
    rcases step_node hstep w with hsame | ⟨env, input, reply, net, hact⟩
    · rw [hsame] at hmem
      exact (ih hmem).cons _
    rw [hact.reacts.newCalls_eq, List.mem_append] at hmem
    rcases hmem with hold | hnew
    · exact (ih hold).cons _
    · -- a new call applies an entry of the node's log
      have hrun' := Run.next hrun hstep
      have hself := List.mem_cons_self (a := c') (l := visited h c)
      have hpos := ((logInv hrun').wellFormed c' hself w hw).length_pos
      obtain ⟨x, hi, hx, rfl⟩ := hact.reacts.applied_from_log
        (commitIndex_le_lastApplied hrun hw) hpos hnew
      exact entry_proposed hrun' c' hself w hw i x hi hx

end Dkv
