import LearnGit.Spec.LogMatching

/-!
# A leader only appends

`handleAppendEntries` does not look at the role of the node, and on a leader it would
truncate the log as on any other node. It never gets that far: a request of the
leader's own term would have to come from the leader itself, an older one is refused
and a newer one ends the leadership first.

## Key results

- `Acted.appendOnly`: what a step does to the log of a node that leads before and after it
- `leader_append_only`: what a stretch of a run does to the log of a node that leads
-/

namespace Dkv

open Transition

variable {M : Membership} {h : List (Cluster × Event)} {c c' : Cluster} {e : Event}

/-- From `n` to `n'` the node stays in its term and puts entries behind its log, each
    with its term and with the index of its position. -/
def AppendOnly (n n' : RaftNode) : Prop :=
  n'.currentTerm = n.currentTerm ∧ ∃ es, n'.log = n.log ++ es ∧
    ∀ (k : Nat) (entry : LogEntry), es[k]? = some entry →
      entry.term = n.currentTerm ∧ entry.index = n.log.length + k

theorem AppendOnly.of_eq {n n' : RaftNode} (hterm : n'.currentTerm = n.currentTerm)
    (hlog : n'.log = n.log) : AppendOnly n n' := by
  refine ⟨hterm, [], by rw [hlog, List.append_nil], fun k entry hentry => ?_⟩
  rw [List.getElem?_nil] at hentry
  exact nomatch hentry

theorem AppendOnly.refl (n : RaftNode) : AppendOnly n n := .of_eq rfl rfl

theorem AppendOnly.trans {n₁ n₂ n₃ : RaftNode} (h₁ : AppendOnly n₁ n₂)
    (h₂ : AppendOnly n₂ n₃) : AppendOnly n₁ n₃ := by
  obtain ⟨hterm₁, es₁, hlog₁, hes₁⟩ := h₁
  obtain ⟨hterm₂, es₂, hlog₂, hes₂⟩ := h₂
  refine ⟨hterm₂.trans hterm₁, es₁ ++ es₂, by rw [hlog₂, hlog₁, List.append_assoc],
    fun k entry hentry => ?_⟩
  rcases Nat.lt_or_ge k es₁.length with hlt | hge
  · rw [List.getElem?_append_left hlt] at hentry
    exact hes₁ k entry hentry
  · rw [List.getElem?_append_right hge] at hentry
    obtain ⟨hterm, hindex⟩ := hes₂ _ _ hentry
    refine ⟨hterm.trans hterm₁, ?_⟩
    rw [hindex, hlog₁, List.length_append]
    omega

/-- A node that leads before and after a reaction stays in its term. -/
theorem RaftNode.Reacts.leader_term {n n' : RaftNode} {env : Env} {input : Input}
    {reply : Option RaftMessage} (hreact : n.Reacts env input n' reply)
    (hleader : n.state = .leader) (hleader' : n'.state = .leader) :
    n'.currentTerm = n.currentTerm := by
  cases hreact.roleStep with
  | same hterm => exact hterm
  | stepDown _ _ hstate =>
    rw [hstate] at hleader'
    exact nomatch hleader'
  | campaign hstate => exact absurd hleader hstate
  | grant src req hterm _ _ _ hstate =>
    cases hstate with
    | inl hsame => rw [hterm, hsame.1]
    | inr hdown =>
      rw [hdown.2] at hleader'
      exact nomatch hleader'
  | count _ _ _ hcand =>
    rw [hcand] at hleader
    exact nomatch hleader

/-- A step of a node that leads before and after it only appends to its log. -/
theorem Acted.appendOnly {i : Nat} {env : Env} {input : Input} {reply : Option RaftMessage}
    {net : List Packet} (hrun : Run (raftSystem M) h c)
    (hact : Acted M c c' e i env input reply net) (hleader : (c.nodes i).state = .leader)
    (hleader' : (c'.nodes i).state = .leader) : AppendOnly (c.nodes i) (c'.nodes i) := by
  have hsame := hact.reacts.leader_term hleader hleader'
  cases hact.reacts.logStep with
  | same hlog => exact .of_eq hsame hlog
  | append command _ _ _ hlog =>
    refine ⟨hsame, _, hlog, fun k entry hentry => ?_⟩
    cases k with
    | zero =>
      rw [List.getElem?_cons_zero, Option.some.injEq] at hentry
      rw [← hentry]
      -- the last index plus one is the length: the sentinel is always there
      have hpos := ((logInv hrun).wellFormed c (mem_visited_self h c) i hact.mem).length_pos
      refine ⟨rfl, ?_⟩
      show (c.nodes i).log.length - 1 + 1 = _
      omega
    | succ k =>
      rw [List.getElem?_cons_succ, List.getElem?_nil] at hentry
      exact nomatch hentry
  | merge src req _ hreq =>
    -- the request is of the leader's own term, which only the leader itself sends
    exact absurd hleader (hact.not_leader hrun (hsame.symm.trans hreq))

/-- As long as a node leads, it removes and changes no entry of its log: over every
    stretch `after` of a run in which it is leader throughout, it only appends. -/
theorem leader_append_only {after before : List (Cluster × Event)}
    (hrun : Run (raftSystem M) (after ++ before) c) {i : Nat}
    (hleader : ∀ u ∈ visited after c, (u.nodes i).state = .leader) :
    ∀ u ∈ visited after c, AppendOnly (u.nodes i) (c.nodes i) := by
  intro u hu
  refine hrun.visited_le_while (R := fun u v => AppendOnly (u.nodes i) (v.nodes i)) hleader
    (fun _ => .refl _) (fun _ _ _ => .trans) (fun h c e c' hrun hl hl' hstep => ?_) hu
  rcases step_node hstep i with hsame | ⟨env, input, reply, net, hact⟩
  · rw [hsame]
    exact .refl _
  · exact hact.appendOnly hrun hl hl'

/-- Node 1 leads in the last four states of the run and appends twice. -/
theorem leader_append_only_oneReplicated :
    let r := (schedule 3 oneReplicated).get oneReplicated_runs
    ∃ u ∈ visited (r.1.take 3) r.2, (u.nodes 1).log.length = 1 ∧ (r.2.nodes 1).log.length = 3 ∧
      AppendOnly (u.nodes 1) (r.2.nodes 1) := by
  intro r
  have hrun : Run (raftSystem (.ofSize 3)) (r.1.take 3 ++ r.1.drop 3) r.2 := by
    rw [List.take_append_drop]
    exact schedule_run oneReplicated_runs
  have hleader : ∀ u ∈ visited (r.1.take 3) r.2, (u.nodes 1).state = .leader := by
    decide +kernel
  have hfirst : ∃ u ∈ visited (r.1.take 3) r.2, (u.nodes 1).log.length = 1 := by
    decide +kernel
  obtain ⟨u, hu, hlen⟩ := hfirst
  exact ⟨u, hu, hlen, by decide +kernel, leader_append_only hrun hleader u hu⟩

end Dkv
