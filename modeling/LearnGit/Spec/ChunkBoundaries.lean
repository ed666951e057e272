import LearnGit.Spec.JsonSplitting

/-!
# The splitter and chunk boundaries

A call of the splitter takes the texts of objects off the front of the buffer and looks at
nothing behind the last one. Two calls with more bytes in between therefore return what one
call on all bytes does, also where the buffer holds garbage, half an object or a text that
does not parse. The splitter catches nothing but `parse_error`, though: another exception
leaves the call and takes the objects of the texts before it along.

## Key results

- `Ends.stop`, `Ends.item`: the two kinds of buffers, as calls see them
- `exists_ends`: every call terminates
- `returns_iff`: a call returns unless a text that it cuts off throws
- `chunkFree_iff`: two calls in a row and one call on everything
-/

namespace Chat

open ChunkedStream ChunkedStream.Decoder JsonText

variable {parse : Bytes → ParseOutcome}

/-- The call with this buffer terminates, and it ends like this. -/
def Ends (parse : Bytes → ParseOutcome) (buffer : Bytes) (r : Extracted) : Prop :=
  ∃ enough, ∀ fuel, enough ≤ fuel → extractLoop parse fuel [] buffer = some r

/-- The end of a call that has extracted `objs` before. They are lost with an exception. -/
def Extracted.prepend (objs : List Json) : Extracted → Extracted
  | .returned result buffer => .returned (objs ++ result) buffer
  | .thrown buffer => .thrown buffer

@[simp] theorem Extracted.prepend_prepend (objs objs' : List Json) (r : Extracted) :
    (r.prepend objs').prepend objs = r.prepend (objs ++ objs') := by
  cases r with
  | returned result buffer => simp [prepend]
  | thrown buffer => rfl

/-- What a turn of the loop does after it has taken a text off the buffer. -/
def afterText (rest : Bytes) (go : Extracted) : ParseOutcome → Extracted
  | .value js => go.prepend [js]
  | .parseError => go
  | .otherError => .thrown rest

/-! ## Turns -/

theorem Ends.unique {buffer : Bytes} {r r' : Extracted} (hr : Ends parse buffer r)
    (hr' : Ends parse buffer r') : r = r' := by
  obtain ⟨n, hn⟩ := hr
  obtain ⟨n', hn'⟩ := hr'
  have hsome := hn (max n n') (Nat.le_max_left n n')
  rw [hn' (max n n') (Nat.le_max_right n n')] at hsome
  exact (Option.some.inj hsome).symm

/-- The loop does not look at the result. -/
theorem extractLoop_result (fuel : Nat) (result : List Json) (buffer : Bytes) :
    extractLoop parse fuel result buffer =
      (extractLoop parse fuel [] buffer).map (Extracted.prepend result) := by
  induction fuel generalizing result buffer with
  | zero => rfl
  | succ fuel ih =>
    unfold extractLoop
    split
    · simp [Extracted.prepend]
    · dsimp only
      split
      · simp [Extracted.prepend]
      · cases Scan.findEnd {} (dropLeading buffer) with
        | none => simp [Extracted.prepend]
        | some e =>
          cases hparse : parse ((dropLeading buffer).take (e + 1)) with
          | value js =>
            simp only [hparse]
            rw [ih (result ++ [js]), ih ([] ++ [js]), Option.map_map]
            congr 1
            funext r
            simp
          | parseError =>
            simp only [hparse]
            exact ih result _
          | otherError => simp [hparse, Extracted.prepend]

/-- A turn of the loop, by what the splitter's decoder finds. -/
theorem extractLoop_succ (fuel : Nat) (buffer : Bytes) :
    extractLoop parse (fuel + 1) [] buffer =
      match nextObject buffer with
      | .item text rest =>
        match parse text with
        | .otherError => some (.thrown rest)
        | outcome => (extractLoop parse fuel [] rest).map fun go => afterText rest go outcome
      | _ => some (.returned [] (dropLeading buffer)) := by
  rw [extractLoop]
  unfold nextObject
  dsimp only
  -- the three tests of a turn are those of the decoder
  by_cases hnil : buffer = []
  · subst hnil
    rfl
  · by_cases hdrop : dropLeading buffer = []
    · rw [if_neg hnil, if_pos hdrop, hdrop]
      rfl
    · rw [if_neg hnil, if_neg hdrop]
      cases Scan.findEnd {} (dropLeading buffer) with
      | none => rfl
      | some e =>
        dsimp only
        cases parse ((dropLeading buffer).take (e + 1)) with
        | value js => exact extractLoop_result fuel [js] _
        | parseError => simp [afterText]
        | otherError => rfl

theorem Ends.stop {buffer : Bytes} (hstop : ∀ text rest, nextObject buffer ≠ .item text rest) :
    Ends parse buffer (.returned [] (dropLeading buffer)) := by
  refine ⟨1, fun fuel hfuel => ?_⟩
  obtain ⟨fuel, rfl⟩ := Nat.exists_eq_add_of_le' hfuel
  rw [extractLoop_succ]
  cases hnext : nextObject buffer with
  | item text rest => exact absurd hnext (hstop text rest)
  | wait => rfl
  | fault => rfl

theorem Ends.item {buffer text rest : Bytes} (hitem : nextObject buffer = .item text rest)
    {go : Extracted} (hgo : Ends parse rest go) :
    Ends parse buffer (afterText rest go (parse text)) := by
  obtain ⟨n, hn⟩ := hgo
  refine ⟨n + 1, fun fuel hfuel => ?_⟩
  obtain ⟨fuel, rfl⟩ := Nat.exists_eq_add_of_le' (Nat.one_le_of_lt hfuel)
  rw [extractLoop_succ, hitem]
  dsimp only
  rw [hn fuel (Nat.le_of_succ_le_succ hfuel)]
  cases parse text <;> rfl

/-- Every call terminates: each turn shortens the buffer. -/
theorem exists_ends (parse : Bytes → ParseOutcome) (buffer : Bytes) : ∃ r, Ends parse buffer r := by
  induction buffer using Decoder.induction objects with
  | stop buffer hstop => exact ⟨_, .stop hstop⟩
  | item buffer text rest hitem ih =>
    obtain ⟨go, hgo⟩ := ih
    exact ⟨_, .item hitem hgo⟩

/-! ## Calls that return -/

/-- What the splitter makes of a parse that throws nothing but `parse_error`. -/
def ParseOutcome.value? : ParseOutcome → Option Json
  | .value js => some js
  | _ => none

/-- The texts that the brace matching cuts off a buffer, the first one first. -/
def cutOff (buffer : Bytes) : List Bytes := (objects.split buffer).1

/-- Turn by turn a call does what `extractJsonObjects` says, if only `parse_error` is thrown. -/
theorem ends_extractJsonObjects {buffer : Bytes}
    (hquiet : ∀ text ∈ cutOff buffer, parse text ≠ .otherError) :
    Ends parse buffer
      (.returned (extractJsonObjects (fun text => (parse text).value?) buffer).1
        (extractJsonObjects (fun text => (parse text).value?) buffer).2) := by
  rw [extractJsonObjects_eq]
  unfold cutOff at hquiet
  induction buffer using Decoder.induction objects with
  | stop buffer hstop =>
    rw [split_stop hstop]
    exact .stop hstop
  | item buffer text rest hitem ih =>
    rw [split_item hitem] at hquiet ⊢
    have hgo := ih fun t ht => hquiet t (List.mem_cons_of_mem _ ht)
    have hturn := Ends.item hitem hgo
    have htext := hquiet text List.mem_cons_self
    cases hparse : parse text with
    | value js => simpa [hparse, ParseOutcome.value?, afterText, Extracted.prepend] using hturn
    | parseError => simpa [hparse, ParseOutcome.value?, afterText] using hturn
    | otherError => exact absurd hparse htext

/-- A call that returns has met no exception but `parse_error`. -/
theorem Ends.quiet {buffer rest : Bytes} {objs : List Json}
    (hends : Ends parse buffer (.returned objs rest)) :
    ∀ text ∈ cutOff buffer, parse text ≠ .otherError := by
  unfold cutOff
  induction buffer using Decoder.induction objects generalizing objs with
  | stop buffer hstop =>
    rw [split_stop hstop]
    exact fun _ hmem => absurd hmem List.not_mem_nil
  | item buffer text rest' hitem ih =>
    obtain ⟨go, hgo⟩ := exists_ends parse rest'
    have hturn := hends.unique (.item hitem hgo)
    rw [split_item hitem]
    intro t ht
    rcases List.mem_cons.mp ht with rfl | ht
    · intro hthrow
      rw [hthrow] at hturn
      exact absurd hturn (by simp [afterText])
    · -- the turns behind this one have returned as well
      cases go with
      | returned objs' buffer' =>
        have hrest : buffer' = rest := by
          cases hparse : parse text <;> rw [hparse] at hturn <;>
            simp [afterText, Extracted.prepend] at hturn <;> simp [hturn]
        exact ih (hrest ▸ hgo) t ht
      | thrown buffer' =>
        cases hparse : parse text <;> rw [hparse] at hturn <;>
          simp [afterText, Extracted.prepend] at hturn

/-- A call returns exactly if no text that it cuts off makes `json::parse` throw anything but
    `parse_error`. -/
theorem returns_iff (parse : Bytes → ParseOutcome) (buffer : Bytes) :
    (∃ objs rest, Ends parse buffer (.returned objs rest)) ↔
      ∀ text ∈ cutOff buffer, parse text ≠ .otherError :=
  ⟨fun ⟨_, _, hends⟩ => hends.quiet, fun hquiet => ⟨_, _, ends_extractJsonObjects hquiet⟩⟩

/-! ## Two calls -/

/-- The texts of two calls are those of one call. -/
theorem cutOff_append (a b : Bytes) :
    cutOff (a ++ b) = cutOff a ++ cutOff (dropLeading (objects.split a).2 ++ b) := by
  unfold cutOff
  rw [(split_dropLeading_append (objects.split a).2 b).1, split_append objects a b]

theorem extractJsonObjects_append (parse : Bytes → Option Json) (a b : Bytes) :
    extractJsonObjects parse (a ++ b) =
      ((extractJsonObjects parse a).1 ++
          (extractJsonObjects parse ((extractJsonObjects parse a).2 ++ b)).1,
        (extractJsonObjects parse ((extractJsonObjects parse a).2 ++ b)).2) := by
  obtain ⟨hitems, hrest⟩ := split_dropLeading_append (objects.split a).2 b
  simp only [extractJsonObjects_eq]
  rw [hitems, hrest, split_append objects a b, List.flatMap_append]

/-- A call on `a`, and one on what it leaves and `b`, return the objects and leave the buffer
    that one call on `a` and `b` does. -/
def ChunkFree (parse : Bytes → ParseOutcome) (a b : Bytes) : Prop :=
  ∃ objs rest objs' rest', Ends parse a (.returned objs rest) ∧
    Ends parse (rest ++ b) (.returned objs' rest') ∧
    Ends parse (a ++ b) (.returned (objs ++ objs') rest')

/-- Chunk boundaries do not matter exactly if no text that is cut off makes `json::parse`
    throw anything but `parse_error`. -/
theorem chunkFree_iff (parse : Bytes → ParseOutcome) (a b : Bytes) :
    ChunkFree parse a b ↔ ∀ text ∈ cutOff (a ++ b), parse text ≠ .otherError := by
  constructor
  · rintro ⟨_, _, _, _, -, -, hall⟩
    exact hall.quiet
  · intro hquiet
    have hall := ends_extractJsonObjects hquiet
    rw [cutOff_append] at hquiet
    have hfirst := ends_extractJsonObjects fun text ht => hquiet text (List.mem_append_left _ ht)
    -- the second call starts from what the first one has left
    have hsecond := ends_extractJsonObjects fun text ht => hquiet text (List.mem_append_right _ ht)
    have hleft : (extractJsonObjects (fun text => (parse text).value?) a).2 =
        dropLeading (objects.split a).2 := by rw [extractJsonObjects_eq]
    rw [extractJsonObjects_append, hleft] at hall
    rw [hleft] at hfirst
    exact ⟨_, _, _, _, hfirst, hsecond, hall⟩

/-! ### A number out of range -/

/-- The text of an object `x` with the value `true`. -/
def trueText : Bytes := [0x7b, 0x22, 0x78, 0x22, 0x3a, 0x74, 0x72, 0x75, 0x65, 0x7d]

/-- The text of an object `y` whose value is the number `1e999`. -/
def overflowText : Bytes := [0x7b, 0x22, 0x79, 0x22, 0x3a, 0x31, 0x65, 0x39, 0x39, 0x39, 0x7d]

/-- The library on these texts: the number is `out_of_range`. -/
def parseOverflow (text : Bytes) : ParseOutcome :=
  if text = trueText then .value (.object [([0x78], .bool true)])
  else if text = overflowText then .otherError
  else .parseError

/-- Two calls hand the first object on before the second one throws; one call on both texts
    throws it away. -/
theorem not_chunkFree_overflow :
    Ends parseOverflow trueText (.returned [.object [([0x78], .bool true)]] []) ∧
      Ends parseOverflow ([] ++ overflowText) (.thrown []) ∧
      Ends parseOverflow (trueText ++ overflowText) (.thrown []) ∧
      ¬ ∀ parse a b, ChunkFree parse a b := by
  have hnil : Ends parseOverflow [] (.returned [] []) :=
    .stop fun _ _ hitem => absurd hitem (by simp [nextObject, dropLeading, Scan.findEnd])
  have hthrown : Ends parseOverflow overflowText (.thrown []) :=
    .item (show nextObject overflowText = .item overflowText [] from rfl) hnil
  have hboth : Ends parseOverflow (trueText ++ overflowText) (.thrown []) :=
    .item (show nextObject (trueText ++ overflowText) = .item trueText overflowText from rfl)
      hthrown
  refine ⟨.item (show nextObject trueText = .item trueText [] from rfl) hnil, hthrown, hboth, ?_⟩
  intro hall
  obtain ⟨_, _, _, _, -, -, hreturned⟩ := hall parseOverflow trueText overflowText
  exact absurd (hboth.unique hreturned) (by simp)

end Chat
