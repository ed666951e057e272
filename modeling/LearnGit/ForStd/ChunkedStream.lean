import Mathlib.Data.List.Basic
import Mathlib.Data.List.Infix

/-!
# Streams that arrive in chunks

A receiver appends each chunk that arrives to its buffer, takes all complete items off the
front and keeps the rest for the next chunk. As long as an item does not depend on what
follows it, neither the items nor the rest depend on how the stream was cut.

## Key results

- `Decoder.split_append`: decoding may stop anywhere and go on with what is pending
- `Decoder.connection_eq_some_iff`: what a receiver holds after any sequence of chunks,
  and when none of them was its last
- `Decoder.connection_encode`, `Decoder.connection_take`: a receiver of encoded items
-/

namespace ChunkedStream

/-- What a decoder makes of the front of a buffer. -/
inductive Decoded (β α : Type*) where
  | wait
  | item (a : α) (rest : List β)
  /-- The decoder fails, and its receiver with it. -/
  | fault

/-- Nothing is decoded from nothing, and an item depends on what it takes off only. -/
structure Decoder (β α : Type*) where
  next : List β → Decoded β α
  next_nil : next [] = .wait
  rest_lt : ∀ {bs a rest}, next bs = .item a rest → rest.length < bs.length
  next_append : ∀ {bs a rest} (more), next bs = .item a rest →
    next (bs ++ more) = .item a (rest ++ more)

variable {β α σ ε : Type*}

namespace Decoder

variable (D : Decoder β α)

/-! ## Whole buffers -/

/-- The items at the front of a buffer, and what is pending after them. -/
def split (bs : List β) : List α × List β :=
  match _hnext : D.next bs with
  | .item a rest => (a :: (split rest).1, (split rest).2)
  | _ => ([], bs)
termination_by bs.length
decreasing_by all_goals exact D.rest_lt ‹_›

variable {D} {bs rest : List β} {a : α}

theorem split_item (hnext : D.next bs = .item a rest) :
    D.split bs = (a :: (D.split rest).1, (D.split rest).2) := by
  rw [split]
  split
  · next heq =>
    obtain ⟨rfl, rfl⟩ := Decoded.item.inj (hnext.symm.trans heq)
    rfl
  · next hnone => exact absurd hnext (hnone _ _)

theorem split_stop (hstop : ∀ a rest, D.next bs ≠ .item a rest) : D.split bs = ([], bs) := by
  rw [split]
  split
  · next heq => exact absurd heq (hstop _ _)
  · rfl

@[simp] theorem split_nil (D : Decoder β α) : D.split [] = ([], []) :=
  split_stop fun _ _ heq => nomatch D.next_nil.symm.trans heq

/-- Buffers are decoded from the front: either they start with an item, or they do not. -/
@[elab_as_elim]
theorem induction {motive : List β → Prop} (D : Decoder β α)
    (stop : ∀ bs, (∀ a rest, D.next bs ≠ .item a rest) → motive bs)
    (item : ∀ bs a rest, D.next bs = .item a rest → motive rest → motive bs)
    (bs : List β) : motive bs := by
  induction hlen : bs.length using Nat.strongRecOn generalizing bs with
  | ind len ih =>
    subst hlen
    cases hnext : D.next bs with
    | item a rest => exact item bs a rest hnext (ih _ (D.rest_lt hnext) rest rfl)
    | wait => exact stop bs fun a rest heq => nomatch hnext.symm.trans heq
    | fault => exact stop bs fun a rest heq => nomatch hnext.symm.trans heq

/-- Decoding may stop anywhere: it goes on with what is pending. -/
theorem split_append (D : Decoder β α) (bs more : List β) :
    D.split (bs ++ more) =
      ((D.split bs).1 ++ (D.split ((D.split bs).2 ++ more)).1,
        (D.split ((D.split bs).2 ++ more)).2) := by
  induction bs using induction D with
  | stop bs hstop => rw [split_stop hstop, List.nil_append]
  | item bs a rest hnext ih =>
    rw [split_item (D.next_append more hnext), split_item hnext, ih, List.cons_append]

/-! ## Receivers -/

variable (D)

/-- A receiver's loop: items are handled as they come off the buffer, until the decoder
    waits. After a fault no buffer is left. -/
def loop (handle : σ → α → σ) : Nat → σ → List β → σ × Option (List β)
  | 0, s, bs => (s, some bs)
  | fuel + 1, s, bs =>
    match D.next bs with
    | .wait => (s, some bs)
    | .item a rest => loop handle fuel (handle s a) rest
    | .fault => (s, none)

/-- The loop on a whole buffer. Every turn shortens the buffer, so there are no more turns
    than it has elements, and one that stops. -/
def run (handle : σ → α → σ) (s : σ) (bs : List β) : σ × Option (List β) :=
  D.loop handle (bs.length + 1) s bs

/-- What a receiver's state and buffer are after one more chunk. -/
def receive (onMessage : ε → σ → List β → σ × Option (List β)) (c : σ × Option (List β))
    (arrival : ε × List β) : σ × Option (List β) :=
  match c.2 with
  | some buf => onMessage arrival.1 c.1 (buf ++ arrival.2)
  | none => c

end Decoder

open Decoder

/-- All chunks that arrive on one connection. -/
def connection (onMessage : ε → σ → List β → σ × Option (List β)) (s : σ)
    (arrivals : List (ε × List β)) : σ × Option (List β) :=
  arrivals.foldl (receive onMessage) (s, some [])

theorem connection_singleton (onMessage : ε → σ → List β → σ × Option (List β)) (s : σ)
    (arrival : ε × List β) :
    connection onMessage s [arrival] = onMessage arrival.1 s arrival.2 := rfl

/-- The stream that was cut into the chunks. -/
def stream (arrivals : List (ε × List β)) : List β := arrivals.flatMap Prod.snd

namespace Decoder

variable {D : Decoder β α} {handle : σ → α → σ}

private theorem loop_fst {fuel : Nat} (s : σ) {bs : List β} (hfuel : bs.length < fuel) :
    (D.loop handle fuel s bs).1 = (D.split bs).1.foldl handle s := by
  induction bs using induction D generalizing s fuel with
  | stop bs hstop =>
    obtain ⟨fuel, rfl⟩ := Nat.exists_eq_add_of_lt hfuel
    rw [split_stop hstop, loop]
    split
    · rfl
    · next heq => exact absurd heq (hstop _ _)
    · rfl
  | item bs a rest hnext ih =>
    obtain ⟨fuel, rfl⟩ := Nat.exists_eq_add_of_lt hfuel
    have hlt := D.rest_lt hnext
    simp only [loop, hnext]
    rw [ih _ (by omega), split_item hnext, List.foldl_cons]

private theorem loop_snd {fuel : Nat} (s : σ) {bs buf : List β} (hfuel : bs.length < fuel) :
    (D.loop handle fuel s bs).2 = some buf ↔
      (D.split bs).2 = buf ∧ D.next (D.split bs).2 ≠ .fault := by
  induction bs using induction D generalizing s fuel with
  | stop bs hstop =>
    obtain ⟨fuel, rfl⟩ := Nat.exists_eq_add_of_lt hfuel
    rw [split_stop hstop, loop]
    cases hnext : D.next bs with
    | wait => simp
    | item a rest => exact absurd hnext (hstop _ _)
    | fault => simp
  | item bs a rest hnext ih =>
    obtain ⟨fuel, rfl⟩ := Nat.exists_eq_add_of_lt hfuel
    have hlt := D.rest_lt hnext
    simp only [loop, hnext]
    rw [ih _ (by omega), split_item hnext]

/-- The loop handles the items of its buffer, in order. -/
theorem run_fst (s : σ) (bs : List β) :
    (D.run handle s bs).1 = (D.split bs).1.foldl handle s :=
  loop_fst s (Nat.lt_succ_self _)

/-- Unless the decoder fails on it, the loop leaves what is pending. -/
theorem run_eq_some_iff (s : σ) {bs buf : List β} :
    (D.run handle s bs).2 = some buf ↔
      (D.split bs).2 = buf ∧ D.next (D.split bs).2 ≠ .fault :=
  loop_snd s (Nat.lt_succ_self _)

section Connection

variable {onMessage : ε → σ → List β → σ × Option (List β)} {handle : ε → σ → α → σ}
  (hrun : ∀ e s bs, onMessage e s bs = D.run (handle e) s bs) {s : σ}
  {arrivals : List (ε × List β)}

private theorem stream_concat (arrivals : List (ε × List β)) (x : ε × List β) :
    stream (arrivals ++ [x]) = stream arrivals ++ x.2 := by
  rw [stream, List.flatMap_append, List.flatMap_singleton, stream]

private theorem connection_concat (arrivals : List (ε × List β)) (x : ε × List β) :
    connection onMessage s (arrivals ++ [x]) =
      receive onMessage (connection onMessage s arrivals) x := by
  rw [connection, List.foldl_append, List.foldl_cons, List.foldl_nil, connection]

include hrun

/-- The buffer holds what is pending of the stream so far, as long as the decoder has not
    failed on what was pending after one of the chunks. -/
theorem connection_eq_some_iff {buf : List β} :
    (connection onMessage s arrivals).2 = some buf ↔
      (D.split (stream arrivals)).2 = buf ∧
        ∀ pre, pre <+: arrivals → D.next (D.split (stream pre)).2 ≠ .fault := by
  -- the last chunk is handled last: induction from the end
  induction arrivals using List.reverseRecOn generalizing buf with
  | nil =>
    have hnil : D.split (stream ([] : List (ε × List β))) = ([], []) := split_nil D
    have hwait : ∀ pre, pre <+: ([] : List (ε × List β)) →
        D.next (D.split (stream pre)).2 ≠ .fault := by
      intro pre hpre heq
      rw [List.prefix_nil.mp hpre, hnil] at heq
      exact nomatch D.next_nil.symm.trans heq
    rw [hnil]
    exact ⟨fun heq => ⟨Option.some.inj heq, hwait⟩, fun h => congrArg some h.1⟩
  | append_singleton arrivals x ih =>
    have hpending : (D.split (stream (arrivals ++ [x]))).2 =
        (D.split ((D.split (stream arrivals)).2 ++ x.2)).2 := by
      rw [stream_concat, split_append]
    rw [connection_concat, receive]
    constructor
    · intro hsome
      cases hbuf : (connection onMessage s arrivals).2 with
      | none =>
        simp only [hbuf] at hsome
        exact nomatch hsome
      | some buf' =>
        obtain ⟨rfl, hsafe⟩ := ih.mp hbuf
        -- the buffer was there before, so the stream up to here was safe
        simp only [hbuf, hrun, run_eq_some_iff, ← hpending] at hsome
        refine ⟨hsome.1, fun pre hpre => ?_⟩
        rcases List.prefix_concat_iff.mp hpre with rfl | hpre
        · exact hsome.2
        · exact hsafe pre hpre
    · rintro ⟨rfl, hsafe⟩
      have hbuf := ih.mpr ⟨rfl, fun pre hpre => hsafe pre (hpre.trans (List.prefix_append _ _))⟩
      simp only [hbuf, hrun, run_eq_some_iff, ← hpending]
      exact ⟨trivial, hsafe _ (List.prefix_refl _)⟩

end Connection

/-- Where what a chunk brings besides its elements does not matter, the items of the whole
    stream have been handled. -/
theorem connection_eq {onMessage : ε → σ → List β → σ × Option (List β)} {handle : σ → α → σ}
    (hrun : ∀ e s bs, onMessage e s bs = D.run handle s bs) {s : σ}
    {arrivals : List (ε × List β)}
    (hsafe : ∀ pre, pre <+: arrivals → D.next (D.split (stream pre)).2 ≠ .fault) :
    connection onMessage s arrivals =
      ((D.split (stream arrivals)).1.foldl handle s, some (D.split (stream arrivals)).2) := by
  induction arrivals using List.reverseRecOn with
  | nil =>
    rw [show stream ([] : List (ε × List β)) = [] from rfl, split_nil]
    rfl
  | append_singleton arrivals x ih =>
    have hbuf := (connection_eq_some_iff hrun (s := s)).mpr ⟨rfl, hsafe⟩
    have ih := ih fun pre hpre => hsafe pre (hpre.trans (List.prefix_append _ _))
    refine Prod.ext ?_ hbuf
    rw [connection_concat, ih, stream_concat, split_append]
    show (onMessage x.1 _ ((D.split (stream arrivals)).2 ++ x.2)).1 = _
    rw [hrun, run_fst, List.foldl_append]

/-! ## Encoded items -/

/-- Where only encodings are taken off, a buffer spells its items and what is pending. -/
theorem split_spelled {encode : α → List β} {P : α → Prop}
    (hsound : ∀ bs a rest, D.next bs = .item a rest → P a ∧ bs = encode a ++ rest)
    (bs : List β) :
    (∀ a ∈ (D.split bs).1, P a) ∧ bs = (D.split bs).1.flatMap encode ++ (D.split bs).2 := by
  induction bs using induction D with
  | stop bs hstop =>
    rw [split_stop hstop]
    exact ⟨fun _ ha => (List.not_mem_nil ha).elim, rfl⟩
  | item bs a rest hnext ih =>
    obtain ⟨ha, hbs⟩ := hsound bs a rest hnext
    rw [split_item hnext]
    refine ⟨List.forall_mem_cons.mpr ⟨ha, ih.1⟩, ?_⟩
    rw [List.flatMap_cons, List.append_assoc, ← ih.2, hbs]

variable {γ : Type*}

/-- A stream of encodings that was cut after `n` of them, in front of `part` of the next. -/
def Cut (encode : γ → List β) (cs : List γ) (n : Nat) (part bs : List β) : Prop :=
  bs = (cs.take n).flatMap encode ++ part ∧
    ((n = cs.length ∧ part = []) ∨
      ∃ c, cs[n]? = some c ∧ part <+: encode c ∧ part ≠ encode c)

theorem exists_cut {encode : γ → List β} {cs : List γ} {bs : List β}
    (hpre : bs <+: cs.flatMap encode) : ∃ n part, Cut encode cs n part bs := by
  induction cs generalizing bs with
  | nil => exact ⟨0, [], List.prefix_nil.mp hpre, .inl ⟨rfl, rfl⟩⟩
  | cons c cs ih =>
    rw [List.flatMap_cons] at hpre
    by_cases hwhole : encode c <+: bs
    · -- the whole of the first one, and a cut of the others
      obtain ⟨more, rfl⟩ := hwhole
      obtain ⟨n, part, rfl, hpart⟩ := ih ((List.prefix_append_right_inj _).mp hpre)
      refine ⟨n + 1, part, ?_, ?_⟩
      · rw [List.take_succ_cons, List.flatMap_cons, List.append_assoc]
      · rcases hpart with ⟨hlen, hpart⟩ | hpart
        · exact .inl ⟨congrArg (· + 1) hlen, hpart⟩
        · exact .inr hpart
    · refine ⟨0, bs, rfl, .inr ⟨c, rfl, ?_, fun heq => hwhole (heq ▸ List.prefix_refl _)⟩⟩
      rcases List.prefix_or_prefix_of_prefix hpre (List.prefix_append _ _) with hpart | hpart
      · exact hpart
      · exact absurd hpart hwhole

section Encoder

variable {encode : γ → List β} {item : γ → α} {cs : List γ}
  (hencode : ∀ c ∈ cs, ∀ rest, D.next (encode c ++ rest) = .item (item c) rest)

include hencode

/-- Encodings decode to what was encoded. -/
theorem split_encode (rest : List β) :
    D.split (cs.flatMap encode ++ rest) =
      (cs.map item ++ (D.split rest).1, (D.split rest).2) := by
  induction cs with
  | nil => rfl
  | cons c cs ih =>
    rw [List.flatMap_cons, List.append_assoc, split_item (hencode c List.mem_cons_self _),
      ih fun b hb => hencode b (List.mem_cons_of_mem _ hb)]
    rfl

/-- A proper part of an encoding is pending. -/
private theorem split_part {c : γ} {part : List β} (hc : c ∈ cs) (hpart : part <+: encode c)
    (hne : part ≠ encode c) : D.split part = ([], part) := by
  -- an element in a proper part would leave bytes behind in the whole encoding
  refine split_stop fun b rest hitem => ?_
  obtain ⟨more, hmore⟩ := hpart
  have hwhole := hencode c hc []
  rw [List.append_nil, ← hmore, D.next_append more hitem] at hwhole
  obtain ⟨-, hrest⟩ := Decoded.item.inj hwhole
  rw [(List.append_eq_nil_iff.mp hrest).2, List.append_nil] at hmore
  exact hne hmore

/-- The whole encodings of a cut are decoded, the part is pending. -/
theorem Cut.split_eq {n : Nat} {part bs : List β} (hcut : Cut encode cs n part bs) :
    D.split bs = ((cs.take n).map item, part) := by
  obtain ⟨rfl, hpart⟩ := hcut
  have hsplit : D.split part = ([], part) := by
    rcases hpart with ⟨-, rfl⟩ | ⟨c, hc, hpre, hne⟩
    · exact split_nil D
    · exact split_part hencode (List.mem_of_getElem? hc) hpre hne
  rw [split_encode (fun c hc => hencode c (List.mem_of_mem_take hc)), hsplit, List.append_nil]

variable {onMessage : ε → σ → List β → σ × Option (List β)}
  (hrun : ∀ e s bs, onMessage e s bs = D.run handle s bs)
  (hfault : ∀ c ∈ cs, ∀ part, part <+: encode c → D.next part ≠ .fault)
  {s : σ} {arrivals : List (ε × List β)}

include hrun hfault

/-- Wherever a stream of encodings was cut, the whole ones have been handled and the
    buffer holds the part. -/
theorem connection_cut (hpre : stream arrivals <+: cs.flatMap encode) {n : Nat} {part : List β}
    (hcut : Cut encode cs n part (stream arrivals)) :
    connection onMessage s arrivals = (((cs.take n).map item).foldl handle s, some part) := by
  have hsafe : ∀ pre, pre <+: arrivals → D.next (D.split (stream pre)).2 ≠ .fault := by
    rintro pre ⟨more, rfl⟩
    have hstream : stream pre <+: cs.flatMap encode := by
      refine List.IsPrefix.trans ?_ hpre
      rw [stream, stream, List.flatMap_append]
      exact List.prefix_append _ _
    -- after every chunk what is pending is a part of one encoding
    obtain ⟨n, part, hcut⟩ := exists_cut hstream
    rw [hcut.split_eq hencode]
    rcases hcut.2 with ⟨-, rfl⟩ | ⟨c, hc, hpart, -⟩
    · exact fun heq => nomatch D.next_nil.symm.trans heq
    · exact hfault c (List.mem_of_getElem? hc) part hpart
  rw [connection_eq hrun hsafe, hcut.split_eq hencode]

/-- All of them have been handled in the end, and nothing is left. -/
theorem connection_encode (hstream : stream arrivals = cs.flatMap encode) :
    connection onMessage s arrivals = ((cs.map item).foldl handle s, some []) := by
  have hpre : stream arrivals <+: cs.flatMap encode := ⟨[], by rw [hstream, List.append_nil]⟩
  obtain ⟨n, part, hcut⟩ := exists_cut hpre
  have hconn := connection_cut hencode hrun hfault (s := s) hpre hcut
  have hsplit := split_encode hencode []
  rw [← hstream, List.append_nil, hcut.split_eq hencode, split_nil, List.append_nil] at hsplit
  obtain ⟨hall, hpart⟩ := Prod.mk.inj hsplit
  rw [hconn, hall, hpart]

end Encoder

end Decoder

end ChunkedStream
