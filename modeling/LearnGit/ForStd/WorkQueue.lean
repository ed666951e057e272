import Mathlib
import LearnGit.ForStd.Transition

/-!
# Work queues

Tasks are accepted, taken in the order in which they were accepted, and finished in any
order. Whoever takes and finishes them, an accepted task is always in one place.

## Key results

- `sound_of_run`: what is taken and what is queued are the accepted tasks in their order
- `Sound.count_places`: an accepted task is exactly once in the queue, at work or done
-/

namespace WorkQueue

open Transition

variable {τ : Type*} [DecidableEq τ]

/-- The tasks of a work queue: those accepted and those taken so far, each in order, and
    where they are. -/
structure Work (τ : Type*) where
  accepted : List τ := []
  taken : List τ := []
  queued : List τ := []
  running : Multiset τ := 0
  done : Multiset τ := 0

inductive Move (τ : Type*) where
  | accept (t : τ)
  | take
  | finish (t : τ)

/-- A task is accepted once; the one at the front of the queue is taken. -/
def Work.step (w : Work τ) : Move τ → Option (Work τ)
  | .accept t =>
    if t ∉ w.accepted then
      some { w with accepted := w.accepted ++ [t], queued := w.queued ++ [t] }
    else none
  | .take =>
    match w.queued with
    | t :: rest =>
      some { w with queued := rest, taken := w.taken ++ [t], running := t ::ₘ w.running }
    | [] => none
  | .finish t =>
    if t ∈ w.running then
      some { w with running := w.running.erase t, done := t ::ₘ w.done }
    else none

def workSystem (τ : Type*) [DecidableEq τ] : System (Work τ) (Move τ) where
  init w := w = {}
  step := Work.step

structure Sound (w : Work τ) : Prop where
  nodup : w.accepted.Nodup
  inOrder : w.taken ++ w.queued = w.accepted
  placed : w.running + w.done = (w.taken : Multiset τ)

theorem Sound.step {w w' : Work τ} {m : Move τ} (hw : Sound w) (hstep : w.step m = some w') :
    Sound w' := by
  cases m with
  | accept t =>
    simp only [Work.step] at hstep
    split at hstep
    · next hfresh =>
      obtain rfl := Option.some.inj hstep
      -- the new task goes to the end of both lists
      refine ⟨List.concat_eq_append ▸ hw.nodup.concat hfresh, ?_, hw.placed⟩
      show w.taken ++ (w.queued ++ [t]) = w.accepted ++ [t]
      rw [← List.append_assoc, hw.inOrder]
    · exact nomatch hstep
  | take =>
    simp only [Work.step] at hstep
    cases hqueued : w.queued with
    | nil =>
      simp only [hqueued] at hstep
      exact nomatch hstep
    | cons t rest =>
      simp only [hqueued] at hstep
      obtain rfl := Option.some.inj hstep
      -- the front of the queue moves to the end of the tasks taken, and is run
      refine ⟨hw.nodup, ?_, ?_⟩
      · show w.taken ++ [t] ++ rest = w.accepted
        rw [← hw.inOrder, hqueued, List.append_assoc, List.singleton_append]
      · show t ::ₘ w.running + w.done = ((w.taken ++ [t] : List τ) : Multiset τ)
        rw [Multiset.cons_add, hw.placed, ← Multiset.coe_add, add_comm]
        rfl
  | finish t =>
    simp only [Work.step] at hstep
    split at hstep
    · next hrunning =>
      obtain rfl := Option.some.inj hstep
      refine ⟨hw.nodup, hw.inOrder, ?_⟩
      show w.running.erase t + t ::ₘ w.done = w.taken
      rw [Multiset.add_cons, ← Multiset.cons_add, Multiset.cons_erase hrunning, hw.placed]
    · exact nomatch hstep

theorem sound_of_run {h : List (Work τ × Move τ)} {w : Work τ} (hrun : Run (workSystem τ) h w) :
    Sound w := by
  refine hrun.rec_on_run (P := fun _ w => Sound w) (fun w hinit => ?_)
    fun _ _ _ _ _ hw hstep => hw.step hstep
  rw [hinit]
  exact ⟨List.nodup_nil, rfl, rfl⟩

/-- An accepted task is in exactly one place. -/
theorem Sound.count_places {w : Work τ} (hw : Sound w) {t : τ} (ht : t ∈ w.accepted) :
    w.queued.count t + w.running.count t + w.done.count t = 1 := by
  have honce : w.accepted.count t = 1 := List.count_eq_one_of_mem hw.nodup ht
  have htaken : w.running.count t + w.done.count t = w.taken.count t := by
    rw [← Multiset.count_add, hw.placed, Multiset.coe_count]
  rw [← hw.inOrder, List.count_append] at honce
  omega

end WorkQueue
