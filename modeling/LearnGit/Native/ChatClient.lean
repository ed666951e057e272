import LearnGit.ForStd.ChunkedStream
import LearnGit.ForStd.JsonText

/-!
# ChatClient

The stream splitter of `src/client/chat_client.cpp`. It looks for the brace that closes the
first one and hands the text up to there to the JSON library, whose parser is a parameter;
`none` is the `parse_error` that the splitter swallows.
-/

namespace Chat

open ChunkedStream JsonText

abbrev Bytes := List UInt8

/-- What the brace matching keeps between two characters: whether the one before was a
    backslash, `inString` and `depth`. -/
structure Scan where
  afterBackslash : Bool := false
  inString : Bool := false
  depth : Int := 0
deriving DecidableEq, Repr

namespace Scan

/-- One character of the loop over the buffer. -/
def step (s : Scan) (c : UInt8) : Scan :=
  let inString := if c = quote ∧ s.afterBackslash = false then !s.inString else s.inString
  { afterBackslash := decide (c = backslash)
    inString := inString
    depth :=
      if inString then s.depth
      else if c = openBrace then s.depth + 1
      else if c = closeBrace then s.depth - 1
      else s.depth }

/-- The loop breaks after a character. -/
def closes (s : Scan) : Bool := !s.inString && decide (s.depth = 0)

/-- The index of the character at which the loop breaks, `none` for `npos`. -/
def findEnd (s : Scan) : Bytes → Option Nat
  | [] => none
  | c :: rest => if (s.step c).closes then some 0 else ((s.step c).findEnd rest).map (· + 1)

end Scan

/-- The buffer from its first brace on. -/
def dropLeading (buffer : Bytes) : Bytes := buffer.dropWhile fun c => c != openBrace

/-- One turn of the splitter: the text of an object, or `wait` where it ends. -/
def nextObject (buffer : Bytes) : Decoded UInt8 Bytes :=
  let buffer := dropLeading buffer
  match Scan.findEnd {} buffer with
  | some e => .item (buffer.take (e + 1)) (buffer.drop (e + 1))
  | none => .wait

/-! ## The turns of the splitter -/

theorem Scan.findEnd_lt {s : Scan} {bs : Bytes} {e : Nat} (hend : s.findEnd bs = some e) :
    e < bs.length := by
  induction bs generalizing s e with
  | nil => exact absurd hend (by simp [findEnd])
  | cons c rest ih =>
    rw [findEnd] at hend
    by_cases hcloses : (s.step c).closes = true
    · rw [if_pos hcloses] at hend
      rw [← Option.some.inj hend]
      exact Nat.zero_lt_succ _
    · rw [if_neg hcloses] at hend
      obtain ⟨e', he', rfl⟩ := Option.map_eq_some_iff.mp hend
      exact Nat.succ_lt_succ (ih he')

/-- The loop does not look behind the character at which it breaks. -/
theorem Scan.findEnd_append {s : Scan} {bs : Bytes} {e : Nat} (hend : s.findEnd bs = some e)
    (more : Bytes) : s.findEnd (bs ++ more) = some e := by
  induction bs generalizing s e with
  | nil => exact absurd hend (by simp [findEnd])
  | cons c rest ih =>
    rw [findEnd] at hend
    rw [List.cons_append, findEnd]
    by_cases hcloses : (s.step c).closes = true
    · rw [if_pos hcloses] at hend ⊢
      exact hend
    · rw [if_neg hcloses] at hend ⊢
      obtain ⟨e', he', rfl⟩ := Option.map_eq_some_iff.mp hend
      rw [ih he']
      rfl

theorem length_dropLeading_le (buffer : Bytes) : (dropLeading buffer).length ≤ buffer.length :=
  (List.dropWhile_sublist _).length_le

@[simp] theorem dropLeading_idem (buffer : Bytes) :
    dropLeading (dropLeading buffer) = dropLeading buffer :=
  List.dropWhile_idempotent _ buffer

theorem dropLeading_append {buffer : Bytes} (hne : dropLeading buffer ≠ []) (more : Bytes) :
    dropLeading (buffer ++ more) = dropLeading buffer ++ more := by
  unfold dropLeading at *
  rw [List.dropWhile_append, if_neg (by simpa using hne)]

/-- Leading text may be dropped before or after more bytes arrive. -/
theorem dropLeading_dropLeading_append (buffer more : Bytes) :
    dropLeading (dropLeading buffer ++ more) = dropLeading (buffer ++ more) := by
  by_cases hnil : dropLeading buffer = []
  · rw [hnil, List.nil_append]
    unfold dropLeading at hnil ⊢
    rw [List.dropWhile_append, if_pos (by simpa using hnil)]
  · rw [dropLeading_append hnil, dropLeading_append (by rwa [dropLeading_idem]), dropLeading_idem]

/-- A turn takes off the leading text and an object. -/
theorem nextObject_eq_item_iff {buffer text rest : Bytes} :
    nextObject buffer = .item text rest ↔
      ∃ e, Scan.findEnd {} (dropLeading buffer) = some e ∧
        text = (dropLeading buffer).take (e + 1) ∧ rest = (dropLeading buffer).drop (e + 1) := by
  unfold nextObject
  dsimp only
  cases Scan.findEnd {} (dropLeading buffer) with
  | none => simp
  | some e => simp [eq_comm]

/-- The turns of the splitter. -/
def objects : Decoder UInt8 Bytes where
  next := nextObject
  next_nil := rfl
  rest_lt hitem := by
    obtain ⟨e, hend, -, rfl⟩ := nextObject_eq_item_iff.mp hitem
    have hlt := Scan.findEnd_lt hend
    have hle := length_dropLeading_le
    rw [List.length_drop]
    exact lt_of_lt_of_le (by omega) (hle _)
  next_append more hitem := by
    obtain ⟨e, hend, rfl, rfl⟩ := nextObject_eq_item_iff.mp hitem
    have hlt := Scan.findEnd_lt hend
    have hne : dropLeading _ ≠ [] := fun hnil => by
      rw [hnil] at hlt
      exact absurd hlt (Nat.not_lt_zero e)
    refine nextObject_eq_item_iff.mpr ⟨e, ?_, ?_, ?_⟩
    · rw [dropLeading_append hne, Scan.findEnd_append hend]
    · rw [dropLeading_append hne, List.take_append_of_le_length hlt]
    · rw [dropLeading_append hne, List.drop_append_of_le_length hlt]

/-- `extractJsonObjects`: the objects that parse, and what is left of the buffer. -/
def extractJsonObjects (parse : Bytes → Option Json) (buffer : Bytes) : List Json × Bytes :=
  let r := objects.run (fun result jsonStr => result ++ (parse jsonStr).toList) [] buffer
  (r.1, dropLeading (r.2.getD []))

/-! ### A call turn by turn -/

/-- What `json::parse` does with a text: it returns a value, throws the `parse_error` that the
    splitter swallows, or throws another exception, such as `out_of_range` for a number that
    is too large. -/
inductive ParseOutcome where
  | value (js : Json)
  | parseError
  | otherError

/-- How a call ends: it returns, or an exception leaves it. Either way the caller's buffer
    holds what is left. -/
inductive Extracted where
  | returned (result : List Json) (buffer : Bytes)
  | thrown (buffer : Bytes)

/-- The loop of `extractJsonObjects`; `none` where it takes more than `fuel` turns. -/
def extractLoop (parse : Bytes → ParseOutcome) : Nat → List Json → Bytes → Option Extracted
  | 0, _, _ => none
  | fuel + 1, result, buffer =>
    if buffer = [] then some (.returned result [])
    else
      let buffer := dropLeading buffer
      if buffer = [] then some (.returned result [])
      else
        match Scan.findEnd {} buffer with
        | none => some (.returned result buffer)
        | some e =>
          match parse (buffer.take (e + 1)) with
          | .value js => extractLoop parse fuel (result ++ [js]) (buffer.drop (e + 1))
          | .parseError => extractLoop parse fuel result (buffer.drop (e + 1))
          | .otherError => some (.thrown (buffer.drop (e + 1)))

/-- The objects extracted from a stream that arrives in chunks, one call after each chunk,
    and the buffer after the last call. -/
def receiveObjects (parse : Bytes → Option Json) (chunks : List Bytes) : List Json × Bytes :=
  chunks.foldl (fun r chunk =>
    let extracted := extractJsonObjects parse (r.2 ++ chunk)
    (r.1 ++ extracted.1, extracted.2)) ([], [])

/-- What `sendJson` and the server's `send` write for a value. -/
def sendJson (js : Json) : Bytes := dump js

end Chat
