import Mathlib.Data.List.Basic

/-!
# Runs of a labelled transition system

A `System` has initial states and a partial step function whose label carries
all the nondeterminism of the step. A `Run` keeps the history of the states it
left and the labels it took, newest first, so that a statement about a run can
speak about everything that happened before.

## Key results

- `Run.rec_on_run`: what holds at the start and survives a step holds after every run
- `Run.of_visited`: every state a run visited is the end of a run of its own
- `Run.visited_le`: a preorder that every step respects relates earlier to later states
- `Run.visited_le_while`: the same for a stretch of a run, with steps inside the stretch only
- `Run.throughout_iff`: a property holds throughout a run exactly if its steps meet a condition
- `Run.stepsMeet_of_end`: what a run's last state and its states say about all of its steps
- `Run.exec`: executing a list of labels gives a run
- `Run.project`: a step-by-step projection of one system onto another maps runs to runs
- `Run.refines`: where each step is a step of another system or hidden, so are whole runs
- `Run.simulates`: where each step is matched by any number of steps of another system, each
  run is matched by one that visits a related state for every state visited
-/

namespace Transition

variable {σ ε τ δ : Type*}

/-- A labelled transition system: the states a run may start in, and the state
    a label leads to, `none` where the label is not enabled. -/
structure System (σ ε : Type*) where
  init : σ → Prop
  step : σ → ε → Option σ

/-- `Run S h s`: a run of `S` that ends in `s`. The history `h` lists, newest
    first, each state the run left together with the label it took there. -/
inductive Run (S : System σ ε) : List (σ × ε) → σ → Prop
  | start {s : σ} (hinit : S.init s) : Run S [] s
  | next {h : List (σ × ε)} {s s' : σ} {e : ε} (hrun : Run S h s)
      (hstep : S.step s e = some s') : Run S ((s, e) :: h) s'

/-- All states of a run, newest first. -/
def visited (h : List (σ × ε)) (s : σ) : List σ := s :: h.map Prod.fst

@[simp] theorem visited_nil (s : σ) : visited ([] : List (σ × ε)) s = [s] := rfl

@[simp] theorem visited_cons (h : List (σ × ε)) (s s' : σ) (e : ε) :
    visited ((s, e) :: h) s' = s' :: visited h s := rfl

theorem mem_visited_self (h : List (σ × ε)) (s : σ) : s ∈ visited h s :=
  List.mem_cons_self

variable {S : System σ ε} {h : List (σ × ε)} {s : σ}

namespace Run

/-- The invariant rule: a property of the history and the state that holds at
    every start and survives every step of a run holds after every run. -/
theorem rec_on_run {P : List (σ × ε) → σ → Prop} (hrun : Run S h s)
    (hinit : ∀ s, S.init s → P [] s)
    (hstep : ∀ h s e s', Run S h s → P h s → S.step s e = some s' → P ((s, e) :: h) s') :
    P h s := by
  induction hrun with
  | start hi => exact hinit _ hi
  | next hr hs ih => exact hstep _ _ _ _ hr ih hs

/-- Every state a run visited is the end of a run whose history is the part of
    the run before it. -/
theorem of_visited (hrun : Run S h s) {u : σ} (hu : u ∈ visited h s) :
    ∃ h', Run S h' u ∧ h' <:+ h := by
  induction hrun with
  | start hi =>
    obtain rfl : u = _ := by simpa using hu
    exact ⟨[], .start hi, List.suffix_refl _⟩
  | @next h s s' e hr hs ih =>
    rw [visited_cons, List.mem_cons] at hu
    rcases hu with rfl | hu
    · exact ⟨_, .next hr hs, List.suffix_refl _⟩
    · obtain ⟨h', hr', hsuf⟩ := ih hu
      exact ⟨h', hr', hsuf.trans (List.suffix_cons _ _)⟩

end Run

theorem visited_subset {h' : List (σ × ε)} {u : σ} (hsuf : h' <:+ h) (hu : u ∈ visited h s) :
    visited h' u ⊆ visited h s := by
  intro v hv
  rcases List.mem_cons.mp hv with rfl | hv
  · exact hu
  · exact List.mem_cons_of_mem _ (hsuf.map Prod.fst |>.subset hv)

namespace Run

/-- Of two states a run visited, one was visited before the other. -/
theorem ordered (hrun : Run S h s) {u v : σ} (hu : u ∈ visited h s) (hv : v ∈ visited h s) :
    (∃ h', Run S h' v ∧ u ∈ visited h' v) ∨ (∃ h', Run S h' u ∧ v ∈ visited h' u) := by
  induction hrun with
  | start hi =>
    obtain rfl : u = _ := by simpa using hu
    obtain rfl : v = _ := by simpa using hv
    exact .inl ⟨[], .start hi, mem_visited_self _ _⟩
  | @next h s s' e hr hs ih =>
    rw [visited_cons, List.mem_cons] at hu hv
    rcases hv with rfl | hv'
    · exact .inl ⟨_, .next hr hs, List.mem_cons.mpr hu⟩
    · rcases hu with rfl | hu'
      · exact .inr ⟨_, .next hr hs, List.mem_cons.mpr (.inr hv')⟩
      · exact ih hu' hv'

/-- The interval rule: where a preorder holds across every step between two states
    with `P`, it relates all states of a stretch of the run with `P` to its last one. -/
theorem visited_le_while {P : σ → Prop} {R : σ → σ → Prop} {after before : List (σ × ε)}
    (hrun : Run S (after ++ before) s) (hP : ∀ u ∈ visited after s, P u) (hrefl : ∀ s, R s s)
    (htrans : ∀ s t u, R s t → R t u → R s u)
    (hstep : ∀ h s e s', Run S h s → P s → P s' → S.step s e = some s' → R s s') {u : σ}
    (hu : u ∈ visited after s) : R u s := by
  induction after generalizing s with
  | nil =>
    obtain rfl : u = _ := by simpa using hu
    exact hrefl _
  | cons p after ih =>
    obtain ⟨t, e⟩ := p
    cases hrun with
    | next hrun hs =>
      rw [visited_cons] at hP hu
      cases List.mem_cons.mp hu with
      | inl heq =>
        rw [heq]
        exact hrefl _
      | inr hu =>
        -- the stretch up to `t` is shorter, and the last step relates `t` to `s`
        have hPt : ∀ u ∈ visited after t, P u := fun u hu => hP u (List.mem_cons_of_mem _ hu)
        have hlast : R t s :=
          hstep _ _ _ _ hrun (hPt t (mem_visited_self after t)) (hP s List.mem_cons_self) hs
        exact htrans _ _ _ (ih hrun hPt hu) hlast

/-- The order rule: a preorder that every step respects relates every visited
    state to the last one. -/
theorem visited_le {R : σ → σ → Prop} (hrun : Run S h s) (hrefl : ∀ s, R s s)
    (htrans : ∀ s t u, R s t → R t u → R s u)
    (hstep : ∀ h s e s', Run S h s → S.step s e = some s' → R s s') {u : σ}
    (hu : u ∈ visited h s) : R u s := by
  have hrun : Run S (h ++ []) s := by rwa [List.append_nil]
  exact hrun.visited_le_while (P := fun _ => True) (fun _ _ => trivial) hrefl htrans
    (fun h s e s' hrun _ _ hs => hstep h s e s' hrun hs) hu

end Run

/-- A history split at one of its steps. -/
theorem split_at {k : Nat} {p : σ × ε} (hp : h[k]? = some p) :
    h = h.take k ++ p :: h.drop (k + 1) := by
  obtain ⟨hk, rfl⟩ := List.getElem?_eq_some_iff.mp hp
  rw [← List.drop_eq_getElem_cons hk, List.take_append_drop]

/-! ## Conditions on the steps of a run -/

/-- Every step of the history was taken under the condition `C`, which sees the
    history before the step, the state the step left and its label. -/
def StepsMeet (C : List (σ × ε) → σ → ε → Prop) : List (σ × ε) → Prop
  | [] => True
  | (s, e) :: h => C h s e ∧ StepsMeet C h

instance StepsMeet.decidable {C : List (σ × ε) → σ → ε → Prop}
    [hC : ∀ h s e, Decidable (C h s e)] : (h : List (σ × ε)) → Decidable (StepsMeet C h)
  | [] => instDecidableTrue
  | (s, e) :: h => @instDecidableAnd _ _ (hC h s e) (StepsMeet.decidable h)

theorem StepsMeet.of_suffix {C : List (σ × ε) → σ → ε → Prop} {h h' : List (σ × ε)}
    (hsuf : h' <:+ h) (hC : StepsMeet C h) : StepsMeet C h' := by
  induction h with
  | nil => rw [List.suffix_nil] at hsuf; exact hsuf ▸ hC
  | cons p h ih =>
    rcases List.suffix_cons_iff.mp hsuf with rfl | hsuf
    · exact hC
    · exact ih hsuf hC.2

/-- The condition held at each step of the history. -/
theorem StepsMeet.of_mem {C : List (σ × ε) → σ → ε → Prop} (hC : StepsMeet C h) {p : σ × ε}
    (hp : p ∈ h) : ∃ h', C h' p.1 p.2 := by
  induction h with
  | nil => exact (List.not_mem_nil hp).elim
  | cons q h ih =>
    cases List.mem_cons.mp hp with
    | inl heq => exact ⟨h, heq ▸ hC.1⟩
    | inr hp => exact ih hC.2 hp

/-- `P` held at every moment of the run, of the history up to it and the state. -/
def Throughout (P : List (σ × ε) → σ → Prop) : List (σ × ε) → σ → Prop
  | [], s => P [] s
  | (t, e) :: h, s => P ((t, e) :: h) s ∧ Throughout P h t

/-- The invariant rule for a run whose steps meet a condition. -/
theorem Run.rec_of_stepsMeet {I : List (σ × ε) → σ → Prop} {C : List (σ × ε) → σ → ε → Prop}
    (hrun : Run S h s) (hC : StepsMeet C h) (hinit : ∀ s, S.init s → I [] s)
    (hkeep : ∀ h s e s', Run S h s → I h s → S.step s e = some s' → C h s e →
      I ((s, e) :: h) s') : I h s := by
  induction hrun with
  | start hi => exact hinit _ hi
  | next hr hs ih => exact hkeep _ _ _ _ hr (ih hC.2) hs hC.1

/-- Where an invariant gives `P` and survives the steps that meet `C`, `P` holds throughout a
    run whose steps all meet `C`. -/
theorem Run.throughout_of_stepsMeet {P I : List (σ × ε) → σ → Prop}
    {C : List (σ × ε) → σ → ε → Prop} (hrun : Run S h s) (hC : StepsMeet C h)
    (hinit : ∀ s, S.init s → I [] s) (hgives : ∀ h s, I h s → P h s)
    (hkeep : ∀ h s e s', Run S h s → I h s → S.step s e = some s' → C h s e →
      I ((s, e) :: h) s') : Throughout P h s := by
  induction hrun with
  | start hi => exact hgives _ _ (hinit _ hi)
  | next hr hs ih =>
    exact ⟨hgives _ _ ((Run.next hr hs).rec_of_stepsMeet hC hinit hkeep), ih hC.2⟩

/-- The exactness rule: where an invariant gives `P` and survives the steps that meet `C`,
    and a step after which `P` holds has met `C`, `P` holds throughout a run exactly if all
    its steps meet `C`. -/
theorem Run.throughout_iff {P I : List (σ × ε) → σ → Prop} {C : List (σ × ε) → σ → ε → Prop}
    (hrun : Run S h s) (hinit : ∀ s, S.init s → I [] s) (hgives : ∀ h s, I h s → P h s)
    (hkeep : ∀ h s e s', Run S h s → I h s → S.step s e = some s' → C h s e →
      I ((s, e) :: h) s')
    (hneed : ∀ h s e s', Run S h s → I h s → S.step s e = some s' → P ((s, e) :: h) s' →
      C h s e) : Throughout P h s ↔ StepsMeet C h := by
  refine ⟨fun hall => ?_, fun hC => hrun.throughout_of_stepsMeet hC hinit hgives hkeep⟩
  induction hrun with
  | start hi => trivial
  | next hr hs ih =>
    have hC := ih hall.2
    exact ⟨hneed _ _ _ _ hr (hr.rec_of_stepsMeet hC hinit hkeep) hs hall.1, hC⟩

/-- The backward rule: where `G` after a step means `G` before it, and this together with `P`
    after it means that the step has met `C`, all steps have. -/
theorem Run.stepsMeet_of_end {P : List (σ × ε) → σ → Prop} {G : σ → Prop}
    {C : List (σ × ε) → σ → ε → Prop} (hrun : Run S h s) (hG : G s) (hP : Throughout P h s)
    (hback : ∀ h s e s', Run S h s → S.step s e = some s' → G s' → P ((s, e) :: h) s' →
      G s ∧ C h s e) : StepsMeet C h := by
  induction hrun with
  | start hi => trivial
  | next hr hs ih =>
    obtain ⟨hG', hC⟩ := hback _ _ _ _ hr hs hG hP.1
    exact ⟨hC, ih hG' hP.2⟩

/-! ## Executing a list of labels -/

/-- Take the steps labelled `es` one after the other, extending the history. -/
def System.exec (S : System σ ε) (h : List (σ × ε)) (s : σ) :
    List ε → Option (List (σ × ε) × σ)
  | [] => some (h, s)
  | e :: es =>
    match S.step s e with
    | none => none
    | some s' => S.exec ((s, e) :: h) s' es

theorem Run.exec (hrun : Run S h s) {es : List ε} {h' : List (σ × ε)} {s' : σ}
    (hexec : S.exec h s es = some (h', s')) : Run S h' s' := by
  induction es generalizing h s with
  | nil =>
    simp only [System.exec, Option.some.injEq, Prod.mk.injEq] at hexec
    obtain ⟨rfl, rfl⟩ := hexec
    exact hrun
  | cons e es ih =>
    simp only [System.exec] at hexec
    split at hexec
    · exact nomatch hexec
    · next s₁ hs => exact ih (.next hrun hs) hexec

theorem Run.of_exec (hinit : S.init s) {es : List ε} (hsome : (S.exec [] s es).isSome) :
    Run S ((S.exec [] s es).get hsome).1 ((S.exec [] s es).get hsome).2 :=
  (Run.start hinit).exec (Option.some_get hsome).symm

/-! ## Projecting runs -/

/-- The image of a history under a projection of states and labels; steps whose
    label is hidden are left out. -/
def projectHistory (f : σ → τ) (g : ε → Option δ) (h : List (σ × ε)) : List (τ × δ) :=
  h.filterMap fun p => (g p.2).map (f p.1, ·)

section Project

variable {B : System τ δ} {f : σ → τ} {g : ε → Option δ}

theorem projectHistory_of_some {s : σ} {e : ε} {d : δ} (hd : g e = some d) (h : List (σ × ε)) :
    projectHistory f g ((s, e) :: h) = (f s, d) :: projectHistory f g h := by
  simp [projectHistory, hd]

theorem projectHistory_of_none {s : σ} {e : ε} (hd : g e = none) (h : List (σ × ε)) :
    projectHistory f g ((s, e) :: h) = projectHistory f g h := by
  simp [projectHistory, hd]

/-- A step either maps to a step of `B` or, when its label is hidden, leaves the
    projected state alone. -/
def Projects (S : System σ ε) (B : System τ δ) (f : σ → τ) (g : ε → Option δ) : Prop :=
  ∀ s e s', S.step s e = some s' →
    (∃ d, g e = some d ∧ B.step (f s) d = some (f s')) ∨ (g e = none ∧ f s' = f s)

theorem Run.project (hrun : Run S h s) (hinit : ∀ s, S.init s → B.init (f s))
    (hproj : Projects S B f g) : Run B (projectHistory f g h) (f s) := by
  induction hrun with
  | start hi => exact .start (hinit _ hi)
  | @next h s s' e hr hs ih =>
    rcases hproj _ _ _ hs with ⟨d, hd, hstep⟩ | ⟨hd, heq⟩
    · rw [projectHistory_of_some hd]
      exact .next ih hstep
    · rw [projectHistory_of_none hd, heq]
      exact ih

/-- The refinement rule: where each step of a run is a step of `B` or changes nothing that `B`
    sees, the run ends where one of `B` does. -/
theorem Run.refines (hrun : Run S h s) (hinit : ∀ s, S.init s → B.init (f s))
    (hstep : ∀ h s e s', Run S h s → S.step s e = some s' →
      (∃ d, B.step (f s) d = some (f s')) ∨ f s' = f s) : ∃ h', Run B h' (f s) := by
  induction hrun with
  | start hi => exact ⟨[], .start (hinit _ hi)⟩
  | @next h s s' e hr hs ih =>
    obtain ⟨h', hrun'⟩ := ih
    cases hstep _ _ _ _ hr hs with
    | inl hmove =>
      obtain ⟨d, hd⟩ := hmove
      exact ⟨_, .next hrun' hd⟩
    | inr hsame =>
      rw [hsame]
      exact ⟨h', hrun'⟩

end Project

/-! ## Simulation by several steps -/

/-- The run that ended in `t` after `g` went on and ended in `t'` after `g'`. -/
structure Continues (B : System τ δ) (g : List (τ × δ)) (t : τ) (g' : List (τ × δ)) (t' : τ) :
    Prop where
  run : Run B g' t'
  suffix : g <:+ g'
  mem : t ∈ visited g' t'

namespace Continues

variable {B : System τ δ} {g g' g'' : List (τ × δ)} {t t' t'' : τ}

theorem refl (hrun : Run B g t) : Continues B g t g t :=
  ⟨hrun, List.suffix_refl _, mem_visited_self g t⟩

theorem next (hcont : Continues B g t g' t') {d : δ} (hstep : B.step t' d = some t'') :
    Continues B g t ((t', d) :: g') t'' where
  run := .next hcont.run hstep
  suffix := hcont.suffix.trans (List.suffix_cons _ _)
  mem := List.mem_cons_of_mem _ hcont.mem

/-- A run that goes on has visited all it visited before. -/
theorem visited_subset (hcont : Continues B g t g' t') : visited g t ⊆ visited g' t' :=
  Transition.visited_subset hcont.suffix hcont.mem

theorem trans (hcont : Continues B g t g' t') (hcont' : Continues B g' t' g'' t'') :
    Continues B g t g'' t'' :=
  ⟨hcont'.run, hcont.suffix.trans hcont'.suffix, hcont'.visited_subset hcont.mem⟩

end Continues

/-- The simulation rule: where a run of `B` can follow each step between states with `P`,
    taking any number of steps, one follows the whole run. -/
theorem Run.simulates {B : System τ δ} {P : σ → Prop} {R : σ → τ → Prop} (hrun : Run S h s)
    (hP : ∀ u ∈ visited h s, P u) (hinit : ∀ s, S.init s → ∃ t, B.init t ∧ R s t)
    (hstep : ∀ s e s' g t, S.step s e = some s' → P s' → Run B g t → R s t →
      ∃ g' t', Continues B g t g' t' ∧ R s' t') :
    ∃ g t, Run B g t ∧ R s t ∧ ∀ u ∈ visited h s, ∃ v ∈ visited g t, R u v := by
  induction hrun with
  | start hi =>
    obtain ⟨t, ht, hR⟩ := hinit _ hi
    refine ⟨[], t, .start ht, hR, fun u hu => ⟨t, mem_visited_self _ _, ?_⟩⟩
    rwa [List.mem_singleton.mp hu]
  | next hr hs ih =>
    rw [visited_cons] at hP
    obtain ⟨g, t, hrun, hR, hvisited⟩ := ih fun u hu => hP u (List.mem_cons_of_mem _ hu)
    obtain ⟨g', t', hcont, hR'⟩ := hstep _ _ _ _ _ hs (hP _ List.mem_cons_self) hrun hR
    refine ⟨g', t', hcont.run, hR', fun u hu => ?_⟩
    rcases List.mem_cons.mp hu with rfl | hu
    · exact ⟨t', mem_visited_self _ _, hR'⟩
    · obtain ⟨v, hv, hRv⟩ := hvisited u hu
      exact ⟨v, hcont.visited_subset hv, hRv⟩

end Transition
