import LearnGit.ForStd.RequestReply

/-!
# Linearizability

Several clients call one server, and their calls overlap. What they see is a history of calls
and returns. The history is linearizable if there is one order of calls that explains it: a
server that performed them one after the other would give every returned call its reply, and
a call that returned before another one was made comes first. A call that has not returned may
be in the order or not.

## Key results

- `Linearizes.call`, `Linearizes.perform`, `Linearizes.ret`: the order is built while the
  history grows, one performed call at a time
-/

namespace RequestReply

/-- What the clients see: a call with its request and a return with its reply. -/
inductive Seen (ι ρ ο : Type*) where
  | call (id : ι) (req : ρ)
  | ret (id : ι) (reply : ο)
deriving DecidableEq, Repr

variable {σ ι ρ ο : Type*}

/-- In the history, `a` returns before `b` is called. -/
def ReturnsBefore (hist : List (Seen ι ρ ο)) (a b : ι) : Prop :=
  ∃ pre post reply req, hist = pre ++ post ∧ .ret a reply ∈ pre ∧ .call b req ∈ post

/-- The calls of `order`, performed one after the other from `s` on, explain the history. -/
structure Linearizes (S : Server σ ρ ο) (s : σ) (hist : List (Seen ι ρ ο))
    (order : List (ι × ρ)) : Prop where
  nodup : (order.map Prod.fst).Nodup
  called : ∀ x ∈ order, .call x.1 x.2 ∈ hist
  answered : ∀ id reply, .ret id reply ∈ hist → ∃ (k : Nat) (req : ρ),
    order[k]? = some (id, req) ∧ (S.replies s (order.map Prod.snd))[k]? = some reply
  realTime : ∀ a b, ReturnsBefore hist a b → ∀ (i j : Nat) (x y : ι × ρ),
    order[i]? = some x → order[j]? = some y → x.1 = a → y.1 = b → i < j

namespace Linearizes

variable {S : Server σ ρ ο} {s : σ} {hist : List (Seen ι ρ ο)} {order : List (ι × ρ)}

theorem nil (S : Server σ ρ ο) (s : σ) : Linearizes S s ([] : List (Seen ι ρ ο)) [] where
  nodup := List.nodup_nil
  called := by simp
  answered := by simp
  realTime := by simp

/-- What was seen before the last event was seen before it. -/
private theorem returnsBefore_concat {x : Seen ι ρ ο} {a b : ι}
    (hbefore : ReturnsBefore (hist ++ [x]) a b) :
    ReturnsBefore hist a b ∨ ∃ req, x = .call b req := by
  obtain ⟨pre, post, reply, req, heq, hret, hcall⟩ := hbefore
  rcases List.eq_nil_or_concat' post with rfl | ⟨post', y, rfl⟩
  · simp at hcall
  · rw [← List.append_assoc] at heq
    obtain ⟨rfl, hlast⟩ := List.append_inj' heq rfl
    simp only [List.cons.injEq, and_true] at hlast
    subst hlast
    rcases List.mem_append.mp hcall with hcall | hcall
    · exact .inl ⟨pre, post', reply, req, rfl, hret, hcall⟩
    · exact .inr ⟨req, (List.mem_singleton.mp hcall).symm⟩

/-- A new call changes nothing. -/
theorem call (hlin : Linearizes S s hist order) {id : ι} (hnew : id ∉ order.map Prod.fst)
    (req : ρ) : Linearizes S s (hist ++ [.call id req]) order where
  nodup := hlin.nodup
  called := fun x hx => List.mem_append_left _ (hlin.called x hx)
  answered := fun id' reply hret => by
    refine hlin.answered id' reply ?_
    simpa using hret
  realTime := fun a b hbefore i j x y hi hj hx hy => by
    rcases returnsBefore_concat hbefore with hold | ⟨req', heq⟩
    · exact hlin.realTime a b hold i j x y hi hj hx hy
    · -- the new call is not in the order
      injection heq with hid
      subst hid
      exact absurd (List.mem_map.mpr ⟨y, List.mem_of_getElem? hj, hy⟩) hnew

/-- A call that was made and is not yet in the order may be performed now. -/
theorem perform (hlin : Linearizes S s hist order) {id : ι} {req : ρ}
    (hcall : .call id req ∈ hist) (hnew : id ∉ order.map Prod.fst) :
    Linearizes S s hist (order ++ [(id, req)]) where
  nodup := by
    rw [List.map_append, List.nodup_append]
    refine ⟨hlin.nodup, by simp, fun a ha b hb => ?_⟩
    simp only [List.map_cons, List.map_nil, List.mem_singleton] at hb
    subst hb
    exact fun heq => hnew (heq ▸ ha)
  called := fun x hx => by
    rcases List.mem_append.mp hx with hx | hx
    · exact hlin.called x hx
    · rw [List.mem_singleton.mp hx]
      exact hcall
  answered := fun id' reply hret => by
    obtain ⟨k, req', hk, hreply⟩ := hlin.answered id' reply hret
    have hlt := (List.getElem?_eq_some_iff.mp hk).1
    refine ⟨k, req', by rw [List.getElem?_append_left hlt, hk], ?_⟩
    rw [List.map_append, Server.replies_append, List.getElem?_append_left (by simpa using hlt),
      hreply]
  realTime := fun a b hbefore i j x y hi hj hx hy => by
    -- a call that has returned was in the order before, so it is not the new one
    have hlt : i < order.length := by
      obtain ⟨pre, post, reply, _, rfl, hret, -⟩ := hbefore
      obtain ⟨k, req', hk, -⟩ := hlin.answered a reply (List.mem_append_left _ hret)
      by_contra hge
      have hi' := (List.getElem?_eq_some_iff.mp hi).1
      rw [List.length_append, List.length_singleton] at hi'
      obtain rfl : i = order.length := by omega
      rw [List.getElem?_concat_length] at hi
      obtain rfl := Option.some.inj hi
      exact hnew (List.mem_map.mpr ⟨_, List.mem_of_getElem? hk, hx.symm⟩)
    rw [List.getElem?_append_left hlt] at hi
    by_cases hj' : j < order.length
    · rw [List.getElem?_append_left hj'] at hj
      exact hlin.realTime a b hbefore i j x y hi hj hx hy
    · omega

/-- A performed call may return with the reply that it has in the order. -/
theorem ret (hlin : Linearizes S s hist order) {id : ι} {k : Nat} {req : ρ} {reply : ο}
    (hk : order[k]? = some (id, req))
    (hreply : (S.replies s (order.map Prod.snd))[k]? = some reply) :
    Linearizes S s (hist ++ [.ret id reply]) order where
  nodup := hlin.nodup
  called := fun x hx => List.mem_append_left _ (hlin.called x hx)
  answered := fun id' reply' hret => by
    rcases List.mem_append.mp hret with hret | hret
    · exact hlin.answered id' reply' hret
    · simp only [List.mem_singleton, Seen.ret.injEq] at hret
      obtain ⟨rfl, rfl⟩ := hret
      exact ⟨k, req, hk, hreply⟩
  realTime := fun a b hbefore i j x y hi hj hx hy => by
    rcases returnsBefore_concat hbefore with hold | ⟨req', heq⟩
    · exact hlin.realTime a b hold i j x y hi hj hx hy
    · cases heq

end Linearizes

end RequestReply
