import Mathlib.Data.List.Basic

/-!
# Crash triples

A program that is a list of effects on a lasting state can be cut short after any number
of them. A crash triple `CrashTriple run C P xs Q` says that the effects `xs` lead from
`P` to `Q`, and that every state a crash can leave on the way satisfies `C`.

## Key results

- `CrashTriple.append`: the sequence rule
- `CrashTriple.single`: the rule for one effect
- `CrashTriple.all`: effects that each keep an assertion keep it together
-/

variable {σ ε : Type*}

/-- From every state with `P` the effects lead to one with `Q`, and a crash after any
    number of them leaves a state with `C`. -/
def CrashTriple (run : σ → ε → σ) (C P : σ → Prop) (xs : List ε) (Q : σ → Prop) : Prop :=
  ∀ s, P s → Q (xs.foldl run s) ∧ ∀ k, C ((xs.take k).foldl run s)

namespace CrashTriple

variable {run : σ → ε → σ} {C P Q R : σ → Prop} {xs ys : List ε}

/-- Without an effect the crash condition has to hold at once. -/
theorem nil (hC : ∀ s, P s → C s) : CrashTriple run C P [] P := by
  intro s hs
  refine ⟨hs, fun k => ?_⟩
  rw [List.take_nil]
  exact hC s hs

/-- One effect: the crash condition holds before and after it. -/
theorem single {x : ε} (hstep : ∀ s, P s → Q (run s x)) (hP : ∀ s, P s → C s)
    (hQ : ∀ s, Q s → C s) : CrashTriple run C P [x] Q := by
  intro s hs
  refine ⟨hstep s hs, fun k => ?_⟩
  cases k with
  | zero => exact hP s hs
  | succ k =>
    rw [List.take_succ_cons, List.take_nil]
    exact hQ _ (hstep s hs)

/-- The sequence rule: a crash cuts the first part or the second one. -/
theorem append (hxs : CrashTriple run C P xs Q) (hys : CrashTriple run C Q ys R) :
    CrashTriple run C P (xs ++ ys) R := by
  intro s hs
  obtain ⟨hmid, hcut⟩ := hxs s hs
  obtain ⟨hend, hcut'⟩ := hys _ hmid
  refine ⟨by rwa [List.foldl_append], fun k => ?_⟩
  rw [List.take_append, List.foldl_append]
  rcases Nat.lt_or_ge k xs.length with hlt | hge
  · rw [Nat.sub_eq_zero_of_le (Nat.le_of_lt hlt), List.take_zero]
    exact hcut k
  · rw [List.take_of_length_le hge]
    exact hcut' _

theorem cons {x : ε} (hx : CrashTriple run C P [x] Q) (hxs : CrashTriple run C Q xs R) :
    CrashTriple run C P (x :: xs) R :=
  hx.append hxs

/-- Effects that each keep an assertion keep it together. -/
theorem all (hC : ∀ s, P s → C s) (hxs : ∀ x ∈ xs, CrashTriple run C P [x] P) :
    CrashTriple run C P xs P := by
  induction xs with
  | nil => exact nil hC
  | cons x xs ih =>
    exact (hxs x List.mem_cons_self).cons (ih fun y hy => hxs y (List.mem_cons_of_mem _ hy))

end CrashTriple
