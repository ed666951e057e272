import LearnGit.ForStd.ChunkedStream

/-!
# Parsers of streams

A parser takes something off the front of a stream, waits for more of the stream, or fails.
What it takes off does not depend on what follows. The combinators keep this, so a format that
is put together from them has a decoder.

## Key results

- `StreamParser.pure`, `bind`, `count`: parsers one after the other
- `StreamParser.takeN`, `until₂`: a fixed number of elements, and all up to a delimiter
- `StreamParser.decoder`: a parser that always takes something off decodes streams
-/

namespace ChunkedStream

variable {α β γ : Type*}

structure StreamParser (β α : Type*) where
  run : List β → Decoded β α
  le : ∀ {bs a rest}, run bs = .item a rest → rest.length ≤ bs.length
  append : ∀ {bs a rest} (more), run bs = .item a rest →
    run (bs ++ more) = .item a (rest ++ more)

namespace StreamParser

/-- Nothing is taken off. -/
def pure (a : α) : StreamParser β α where
  run bs := .item a bs
  le hitem := by
    cases hitem
    exact Nat.le_refl _
  append more hitem := by
    cases hitem
    rfl

/-- The stream is not of the format. -/
def fail : StreamParser β α where
  run _ := .fault
  le hitem := nomatch hitem
  append _ hitem := nomatch hitem

/-- What follows a parser on the rest of the stream. -/
def andThen (f : α → List β → Decoded β γ) : Decoded β α → Decoded β γ
  | .wait => .wait
  | .item a rest => f a rest
  | .fault => .fault

theorem andThen_eq_item {f : α → List β → Decoded β γ} {d : Decoded β α} {c : γ} {rest : List β} :
    andThen f d = .item c rest ↔ ∃ a mid, d = .item a mid ∧ f a mid = .item c rest := by
  cases d with
  | wait => simp [andThen]
  | item a mid => simp [andThen]
  | fault => simp [andThen]

def bind (p : StreamParser β α) (f : α → StreamParser β γ) : StreamParser β γ where
  run bs := andThen (fun a rest => (f a).run rest) (p.run bs)
  le hitem := by
    obtain ⟨a, mid, hp, hf⟩ := andThen_eq_item.mp hitem
    exact ((f a).le hf).trans (p.le hp)
  append more hitem := by
    obtain ⟨a, mid, hp, hf⟩ := andThen_eq_item.mp hitem
    exact andThen_eq_item.mpr ⟨a, mid ++ more, p.append more hp, (f a).append more hf⟩

/-- The same parser `n` times. -/
def count (p : StreamParser β α) : Nat → StreamParser β (List α)
  | 0 => pure []
  | n + 1 => p.bind fun a => (count p n).bind fun as => pure (a :: as)

/-- The next `n` elements. -/
def takeN (n : Nat) : StreamParser β (List β) where
  run bs := if n ≤ bs.length then .item (bs.take n) (bs.drop n) else .wait
  le {bs a rest} hitem := by
    split at hitem
    · cases hitem
      rw [List.length_drop]
      exact Nat.sub_le _ _
    · cases hitem
  append {bs a rest} more hitem := by
    split at hitem
    · next hle =>
      cases hitem
      rw [if_pos (by rw [List.length_append]; omega), List.take_append_of_le_length hle,
        List.drop_append_of_le_length hle]
    · cases hitem

/-! ## Up to a delimiter -/

section Until

variable [DecidableEq β]

/-- The elements in front of the first `d` that an `e` follows. -/
def findUntil₂ (d e : β) : List β → Decoded β (List β)
  | [] => .wait
  | [_] => .wait
  | b :: c :: rest =>
    if b = d ∧ c = e then .item [] rest
    else andThen (fun line rest => .item (b :: line) rest) (findUntil₂ d e (c :: rest))

variable {d e : β}

/-- What is taken off is at least the delimiter. -/
theorem findUntil₂_lt {bs line rest : List β} (hitem : findUntil₂ d e bs = .item line rest) :
    rest.length < bs.length := by
  induction bs using findUntil₂.induct d e generalizing line with
  | case1 => cases hitem
  | case2 => cases hitem
  | case3 b c rest' hdelim =>
    rw [findUntil₂, if_pos hdelim] at hitem
    cases hitem
    simp only [List.length_cons]
    omega
  | case4 b c rest' hdelim ih =>
    rw [findUntil₂, if_neg hdelim] at hitem
    obtain ⟨line', mid, hrest, hcons⟩ := andThen_eq_item.mp hitem
    cases hcons
    exact Nat.lt_succ_of_lt (ih hrest)

theorem findUntil₂_append {bs line rest : List β} (hitem : findUntil₂ d e bs = .item line rest)
    (more : List β) : findUntil₂ d e (bs ++ more) = .item line (rest ++ more) := by
  induction bs using findUntil₂.induct d e generalizing line with
  | case1 => cases hitem
  | case2 => cases hitem
  | case3 b c rest' hdelim =>
    rw [findUntil₂, if_pos hdelim] at hitem
    cases hitem
    rw [List.cons_append, List.cons_append, findUntil₂, if_pos hdelim]
  | case4 b c rest' hdelim ih =>
    rw [findUntil₂, if_neg hdelim] at hitem
    obtain ⟨line', mid, hrest, hcons⟩ := andThen_eq_item.mp hitem
    cases hcons
    rw [List.cons_append, List.cons_append, findUntil₂, if_neg hdelim]
    exact andThen_eq_item.mpr ⟨line', _, ih hrest, rfl⟩

def until₂ (d e : β) : StreamParser β (List β) where
  run := findUntil₂ d e
  le hitem := (findUntil₂_lt hitem).le
  append more hitem := findUntil₂_append hitem more

end Until

/-! ## Decoders -/

/-- The parser takes off at least one element, and so it waits for the first. -/
structure Strict (p : StreamParser β α) : Prop where
  nil : p.run [] = .wait
  lt : ∀ {bs a rest}, p.run bs = .item a rest → rest.length < bs.length

theorem strict_until₂ [DecidableEq β] (d e : β) : (until₂ d e).Strict where
  nil := rfl
  lt := findUntil₂_lt

theorem Strict.bind {p : StreamParser β α} (hp : p.Strict) (f : α → StreamParser β γ) :
    (p.bind f).Strict where
  nil := by
    show andThen _ (p.run []) = .wait
    rw [hp.nil]
    rfl
  lt hitem := by
    obtain ⟨a, mid, hpa, hf⟩ := andThen_eq_item.mp hitem
    exact ((f a).le hf).trans_lt (hp.lt hpa)

def decoder (p : StreamParser β α) (hp : p.Strict) : Decoder β α where
  next := p.run
  next_nil := hp.nil
  rest_lt := hp.lt
  next_append := p.append

end StreamParser

end ChunkedStream
