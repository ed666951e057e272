import Mathlib.Data.List.Basic

/-!
# Request-reply servers

A server answers each request with a reply and moves to its next state. Two servers
whose states correspond give the same replies to a sequence of requests exactly if they
give the same reply to every single one of them.

## Key results

- `replies_eq_iff`: when a server gives the replies of the one it is compared with
-/

namespace RequestReply

variable {σ τ ρ ο : Type*}

/-- What a server with states `σ` does on a request. -/
abbrev Server (σ ρ ο : Type*) := σ → ρ → σ × ο

namespace Server

/-- The replies to a sequence of requests. -/
def replies (S : Server σ ρ ο) : σ → List ρ → List ο
  | _, [] => []
  | s, r :: rs => (S s r).2 :: replies S (S s r).1 rs

/-- The state in which a sequence of requests leaves the server. -/
def after (S : Server σ ρ ο) (s : σ) (rs : List ρ) : σ := rs.foldl (fun s r => (S s r).1) s

/-- `P` holds of every request of the sequence in the state it finds. -/
def Along (S : Server σ ρ ο) (P : σ → ρ → Prop) : σ → List ρ → Prop
  | _, [] => True
  | s, r :: rs => P s r ∧ Along S P (S s r).1 rs

instance decidableAlong (S : Server σ ρ ο) (P : σ → ρ → Prop) [∀ s r, Decidable (P s r)] :
    (s : σ) → (rs : List ρ) → Decidable (S.Along P s rs)
  | _, [] => inferInstanceAs (Decidable True)
  | s, r :: rs =>
    have := decidableAlong S P (S s r).1 rs
    inferInstanceAs (Decidable (P s r ∧ S.Along P (S s r).1 rs))

@[simp] theorem replies_nil (S : Server σ ρ ο) (s : σ) : S.replies s [] = [] := rfl

@[simp] theorem replies_cons (S : Server σ ρ ο) (s : σ) (r : ρ) (rs : List ρ) :
    S.replies s (r :: rs) = (S s r).2 :: S.replies (S s r).1 rs := rfl

@[simp] theorem after_nil (S : Server σ ρ ο) (s : σ) : S.after s [] = s := rfl

@[simp] theorem after_cons (S : Server σ ρ ο) (s : σ) (r : ρ) (rs : List ρ) :
    S.after s (r :: rs) = S.after (S s r).1 rs := rfl

theorem after_append (S : Server σ ρ ο) (s : σ) (rs rs' : List ρ) :
    S.after s (rs ++ rs') = S.after (S.after s rs) rs' :=
  List.foldl_append

@[simp] theorem length_replies (S : Server σ ρ ο) (s : σ) (rs : List ρ) :
    (S.replies s rs).length = rs.length := by
  induction rs generalizing s with
  | nil => rfl
  | cons r rs ih => simp [ih]

theorem replies_append (S : Server σ ρ ο) (s : σ) (rs rs' : List ρ) :
    S.replies s (rs ++ rs') = S.replies s rs ++ S.replies (S.after s rs) rs' := by
  induction rs generalizing s with
  | nil => rfl
  | cons r rs ih => simp [ih]

@[simp] theorem along_nil (S : Server σ ρ ο) (P : σ → ρ → Prop) (s : σ) : S.Along P s [] :=
  trivial

@[simp] theorem along_cons (S : Server σ ρ ο) (P : σ → ρ → Prop) (s : σ) (r : ρ) (rs : List ρ) :
    S.Along P s (r :: rs) ↔ P s r ∧ S.Along P (S s r).1 rs := Iff.rfl

/-- Related states stay related under every request, and `P` says where the two servers
    reply alike. -/
theorem replies_eq_iff {S : Server σ ρ ο} {T : Server τ ρ ο} {P : τ → ρ → Prop}
    (R : σ → τ → Prop) (hstate : ∀ s t r, R s t → R (S s r).1 (T t r).1)
    (hreply : ∀ s t r, R s t → ((S s r).2 = (T t r).2 ↔ P t r)) {s : σ} {t : τ} (hR : R s t)
    (rs : List ρ) : S.replies s rs = T.replies t rs ↔ T.Along P t rs := by
  induction rs generalizing s t with
  | nil => simp
  | cons r rs ih =>
    rw [replies_cons, replies_cons, along_cons, List.cons.injEq, hreply s t r hR,
      ih (hstate s t r hR)]

end Server

end RequestReply
