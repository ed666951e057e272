import Mathlib.Algebra.BigOperators.Group.List.Basic
import Mathlib.Data.List.Perm.Basic
import LearnGit.ForStd.Transition

/-!
# Tasks that share a world

A program starts a task for each call and runs the tasks statement by statement, next to
each other and in any order, over a world that all of them see and that may also change on
its own. What is proved of such a program is a proof outline: an invariant of the world and
an assertion for each task, which the statements of the other tasks leave intact.

## Key results

- `exists_run_before`: each statement of a run comes at the end of a run of its own
- `Outline.holds_of_run`: after every run the invariant and the assertions of all tasks hold
- `balance_of_run`: what the world has got and what the tasks still hold add up to what the
  statements have brought in
-/

namespace Interleaving

open Transition

variable {ω π ρ χ ε : Type*}

structure Program (ω π ρ χ ε : Type*) where
  /-- The task that a call starts. -/
  task : ρ → π
  /-- The next statement of a task; `χ` is what the statement is given from elsewhere. -/
  next : χ → ω → π → Option (ω × π)
  /-- What happens to the world without a task. -/
  outside : ε → ω → Option ω

structure State (ω π : Type*) where
  world : ω
  tasks : List π

inductive Event (ρ χ ε : Type*) where
  | call (r : ρ)
  /-- The next statement of the `k`-th task. -/
  | next (k : Nat) (c : χ)
  | outside (e : ε)

namespace Program

def step (P : Program ω π ρ χ ε) (s : State ω π) : Event ρ χ ε → Option (State ω π)
  | .call r => some { s with tasks := s.tasks ++ [P.task r] }
  | .next k c =>
    s.tasks[k]?.bind fun p => (P.next c s.world p).map fun q =>
      { world := q.1, tasks := s.tasks.set k q.2 }
  | .outside e => (P.outside e s.world).map fun w => { s with world := w }

/-- The runs of a program from certain worlds, without a task at first. -/
def system (P : Program ω π ρ χ ε) (start : ω → Prop) : System (State ω π) (Event ρ χ ε) where
  init s := start s.world ∧ s.tasks = []
  step := P.step

end Program

/-! ## The statements of a run -/

/-- The statement that an event runs: what it is given, the world and the task before it. -/
def statement? (s : State ω π) : Event ρ χ ε → Option (χ × ω × π)
  | .call _ => none
  | .next k c => s.tasks[k]?.map fun p => (c, s.world, p)
  | .outside _ => none

/-- The statements of a run, the last one first. -/
def statements (h : List (State ω π × Event ρ χ ε)) : List (χ × ω × π) :=
  h.filterMap fun p => statement? p.1 p.2

section Statements

variable {s : State ω π} {h : List (State ω π × Event ρ χ ε)}

@[simp] theorem statements_nil : statements ([] : List (State ω π × Event ρ χ ε)) = [] := rfl

@[simp] theorem statements_call (r : ρ) : statements ((s, .call r) :: h) = statements h := rfl

@[simp] theorem statements_outside (e : ε) :
    statements ((s, .outside e) :: h) = statements h := rfl

theorem statements_next {k : Nat} {p : π} (hp : s.tasks[k]? = some p) (c : χ) :
    statements ((s, .next k c) :: h) = (c, s.world, p) :: statements h := by
  simp [statements, statement?, hp]

end Statements

variable {P : Program ω π ρ χ ε} {start : ω → Prop} {s s' : State ω π}
  {h : List (State ω π × Event ρ χ ε)}

/-- What a step is: a call that starts a task, a statement of a task, or a change of the
    world on its own. -/
inductive Effect (P : Program ω π ρ χ ε) (s : State ω π) : Event ρ χ ε → State ω π → Prop
  | call (r : ρ) : Effect P s (.call r) { s with tasks := s.tasks ++ [P.task r] }
  | next {k : Nat} {c : χ} {p p' : π} {w' : ω} (hp : s.tasks[k]? = some p)
    (hnext : P.next c s.world p = some (w', p')) :
    Effect P s (.next k c) { world := w', tasks := s.tasks.set k p' }
  | outside {e : ε} {w' : ω} (hout : P.outside e s.world = some w') :
    Effect P s (.outside e) { s with world := w' }

theorem step_effect {e : Event ρ χ ε} (hstep : P.step s e = some s') : Effect P s e s' := by
  cases e with
  | call r =>
    obtain rfl := Option.some.inj hstep
    exact .call r
  | next k c =>
    obtain ⟨p, hp, hstep⟩ := Option.bind_eq_some_iff.mp hstep
    obtain ⟨⟨w', p'⟩, hnext, rfl⟩ := Option.map_eq_some_iff.mp hstep
    exact .next hp hnext
  | outside e =>
    obtain ⟨w', hout, rfl⟩ := Option.map_eq_some_iff.mp hstep
    exact .outside hout

/-- A statement of a run, with the run before it. -/
theorem exists_run_before (hrun : Run (P.system start) h s) {t₁ t₂ : List (χ × ω × π)} {c : χ}
    {w : ω} {p : π} (hsplit : statements h = t₁ ++ (c, w, p) :: t₂) :
    ∃ h' u, Run (P.system start) h' u ∧ statements h' = t₂ ∧ u.world = w ∧ p ∈ u.tasks ∧
      ∃ q, P.next c w p = some q := by
  induction hrun generalizing t₁ with
  | start => exact absurd hsplit (by simp)
  | @next h s s' e hrun hstep ih =>
    cases step_effect hstep with
    | call r => exact ih hsplit
    | @next k c' p' q w' hp hnext =>
      rw [statements_next hp] at hsplit
      cases t₁ with
      | nil =>
        -- it is the last statement
        obtain ⟨heq, htail⟩ := List.cons.inj hsplit
        obtain ⟨rfl, rfl, rfl⟩ := by simpa using heq
        exact ⟨h, s, hrun, htail, rfl, List.mem_of_getElem? hp, _, hnext⟩
      | cons x t₁ => exact ih (List.cons.inj hsplit).2
    | outside => exact ih hsplit

/-! ## Proof outlines -/

/-- An invariant `I` of the world and an assertion `L` of each task, both of which may speak
    about the statements so far. -/
structure Outline (P : Program ω π ρ χ ε) (start : ω → Prop) (I : List (χ × ω × π) → ω → Prop)
    (L : List (χ × ω × π) → ω → π → Prop) : Prop where
  init : ∀ w, start w → I [] w
  task : ∀ t w r, I t w → L t w (P.task r)
  next : ∀ t c w p w' p', I t w → L t w p → P.next c w p = some (w', p') →
    I ((c, w, p) :: t) w' ∧ L ((c, w, p) :: t) w' p'
  outside : ∀ t e w w', I t w → P.outside e w = some w' → I t w'
  /-- A statement leaves the assertions of other tasks intact. -/
  stable_next : ∀ t c w p w' p' q, I t w → L t w p → P.next c w p = some (w', p') →
    L t w q → L ((c, w, p) :: t) w' q
  stable_outside : ∀ t e w w' q, I t w → P.outside e w = some w' → L t w q → L t w' q

/-- The rule of proof outlines. -/
theorem Outline.holds_of_run {I : List (χ × ω × π) → ω → Prop}
    {L : List (χ × ω × π) → ω → π → Prop} (ho : Outline P start I L)
    (hrun : Run (P.system start) h s) :
    I (statements h) s.world ∧ ∀ p ∈ s.tasks, L (statements h) s.world p := by
  induction hrun with
  | start hinit =>
    refine ⟨ho.init _ hinit.1, fun p hp => ?_⟩
    rw [hinit.2] at hp
    exact absurd hp List.not_mem_nil
  | next _ hstep ih =>
    obtain ⟨hI, hL⟩ := ih
    cases step_effect hstep with
    | call r =>
      rw [statements_call]
      refine ⟨hI, fun p hp => ?_⟩
      cases List.mem_append.mp hp with
      | inl hold => exact hL p hold
      | inr hnew =>
        rw [List.mem_singleton.mp hnew]
        exact ho.task _ _ r hI
    | @next k c p p' w' hp hnext =>
      have hLp := hL p (List.mem_of_getElem? hp)
      obtain ⟨hI', hL'⟩ := ho.next _ _ _ _ _ _ hI hLp hnext
      rw [statements_next hp]
      refine ⟨hI', fun q hq => ?_⟩
      -- the task that ran has its new assertion, the others have kept theirs
      cases List.mem_or_eq_of_mem_set hq with
      | inl hold => exact ho.stable_next _ _ _ _ _ _ q hI hLp hnext (hL q hold)
      | inr hself =>
        rw [hself]
        exact hL'
    | outside hout =>
      rw [statements_outside]
      refine ⟨ho.outside _ _ _ _ hI hout, fun q hq => ?_⟩
      exact ho.stable_outside _ _ _ _ q hI hout (hL q hq)

/-! ## What is brought in is in the world or with a task -/

section Balance

variable {M : Type*} [AddCommMonoid M] {f : ω → M} {g : π → M} {gain : χ × ω × π → M}

/-- The rule of balances: `f` is what the world has got, `g` what a task still holds, and
    `gain` what a statement brings in. The worlds of the run are known to have `J`. -/
theorem balance_of_run {J : ω → Prop} (hrun : Run (P.system start) h s)
    (hJ : ∀ u ∈ visited h s, J u.world) (hinit : ∀ w, start w → f w = 0)
    (htask : ∀ r, g (P.task r) = 0)
    (hnext : ∀ c w p w' p', J w → P.next c w p = some (w', p') →
      f w' + g p' = gain (c, w, p) + (f w + g p))
    (hout : ∀ e w w', J w → P.outside e w = some w' → f w' = f w) :
    f s.world + (s.tasks.map g).sum = ((statements h).map gain).sum := by
  induction hrun with
  | start hstart => simp [hinit _ hstart.1, hstart.2]
  | @next h s s' e _ hstep ih =>
    have ih := ih fun u hu => hJ u (List.mem_cons_of_mem _ hu)
    have hworld : J s.world := hJ s (List.mem_cons_of_mem _ (mem_visited_self h s))
    cases step_effect hstep with
    | call r => simpa [htask] using ih
    | @next k c p p' w' hp hstatement =>
      obtain ⟨hk, rfl⟩ := List.getElem?_eq_some_iff.mp hp
      -- the sum over the tasks, with the task that runs in front
      have hbefore := ((List.getElem_cons_eraseIdx_perm hk).map g).sum_eq
      have hafter := ((List.set_perm_cons_eraseIdx hk p').map g).sum_eq
      rw [List.map_cons, List.sum_cons] at hbefore hafter
      rw [statements_next hp, List.map_cons, List.sum_cons, ← ih]
      show f w' + ((s.tasks.set k p').map g).sum = _
      rw [hafter, ← hbefore, ← add_assoc, hnext _ _ _ _ _ hworld hstatement]
      simp only [add_assoc]
    | outside hstatement =>
      rw [statements_outside, ← ih, hout _ _ _ hworld hstatement]

end Balance

end Interleaving
