import Mathlib.Order.WellFounded

/-!
# What has to happen

A system that is left alone takes steps in some order. `Inevitable R P s` says that it comes to
a state with `P` in whatever order it takes them: it does not stop before, and it does not go
on for ever without one.

## Key results

- `Inevitable.of_measure`: every step brings the state closer, and some step is always possible
- `Inevitable.not_of_avoids`: there is always a step that stays away
-/

namespace Transition

variable {σ : Type*} {R : σ → σ → Prop} {P Q : σ → Prop} {s : σ}

/-- Whichever steps are taken from `s` on, `P` comes to hold. -/
inductive Inevitable (R : σ → σ → Prop) (P : σ → Prop) : σ → Prop
  | now {s : σ} (hP : P s) : Inevitable R P s
  | later {s : σ} (hsome : ∃ s', R s s') (hall : ∀ s', R s s' → Inevitable R P s') :
      Inevitable R P s

namespace Inevitable

theorem mono (hs : Inevitable R P s) (hPQ : ∀ s, P s → Q s) : Inevitable R Q s := by
  induction hs with
  | now hP => exact .now (hPQ _ hP)
  | later hsome _ ih => exact .later hsome ih

/-- The termination rule: as long as `P` does not hold, an invariant keeps the system from being
    stuck, and every step keeps the invariant and makes the measure smaller. -/
theorem of_measure {α : Type*} [LT α] [WellFoundedLT α] {I : σ → Prop} (μ : σ → α)
    (hsome : ∀ s, I s → ¬ P s → ∃ s', R s s')
    (hstep : ∀ s s', I s → ¬ P s → R s s' → I s' ∧ μ s' < μ s) (hI : I s) :
    Inevitable R P s := by
  induction hμ : μ s using WellFoundedLT.induction generalizing s with
  | ind m ih =>
    by_cases hP : P s
    · exact .now hP
    · refine .later (hsome s hI hP) fun s' hR => ?_
      obtain ⟨hI', hlt⟩ := hstep s s' hI hP hR
      exact ih (μ s') (hμ ▸ hlt) hI' rfl

/-- The avoidance rule: where each step from a state with `B` has an alternative that leads to
    a state with `B` again, the system can stay away from `P`. -/
theorem not_of_avoids {B : σ → Prop} (havoids : ∀ s, B s → ¬ P s)
    (hkeep : ∀ s s₁, B s → R s s₁ → ∃ s', R s s' ∧ B s') (hB : B s) : ¬ Inevitable R P s := by
  intro hs
  induction hs with
  | now hP => exact havoids _ hB hP
  | later hsome _ ih =>
    obtain ⟨s₁, hR⟩ := hsome
    obtain ⟨s', hR', hB'⟩ := hkeep _ s₁ hB hR
    exact ih s' hR' hB'

end Inevitable

end Transition
