import Mathlib

/-!
# JSON texts

Values of JSON and the text that a serializer writes for them, without white space. A
text is a list of tokens: the strings of the value and the bytes outside of strings. In
strings quotes, backslashes and control characters are escaped; other bytes stand for
themselves, so the encoding of characters does not matter.

## Key results

- `dump_injective`: a text belongs to one value
- `Json.balanced_marks`: outside of strings the braces of a value are balanced
-/

namespace JsonText

abbrev quote : UInt8 := 0x22
abbrev backslash : UInt8 := 0x5c
abbrev openBrace : UInt8 := 0x7b
abbrev closeBrace : UInt8 := 0x7d

/-! ## Values -/

/-- Digits, signs, points and exponent letters. -/
def isNumberByte (c : UInt8) : Bool :=
  (0x30 ≤ c && c ≤ 0x39) || [0x2b, 0x2d, 0x2e, 0x45, 0x65].contains c

/-- The text of a number. -/
structure NumberText where
  text : List UInt8
  ne_nil : text ≠ []
  bytes : text.all isNumberByte = true
deriving DecidableEq

inductive Json where
  | null
  | bool (b : Bool)
  | number (n : NumberText)
  | string (s : List UInt8)
  | array (xs : List Json)
  | object (ms : List (List UInt8 × Json))

/-! ## Tokens -/

/-- A byte outside of strings, or a string with its quotes. -/
inductive Token where
  | mark (c : UInt8)
  | string (s : List UInt8)
deriving DecidableEq, Repr

/-- Elements are separated by commas. -/
def separator (first : Bool) : List Token := if first then [] else [.mark 0x2c]

mutual

def Json.tokens : Json → List Token
  | .null => [0x6e, 0x75, 0x6c, 0x6c].map .mark
  | .bool true => [0x74, 0x72, 0x75, 0x65].map .mark
  | .bool false => [0x66, 0x61, 0x6c, 0x73, 0x65].map .mark
  | .number n => n.text.map .mark
  | .string s => [.string s]
  | .array xs => .mark 0x5b :: (items true xs ++ [.mark 0x5d])
  | .object ms => .mark openBrace :: (members true ms ++ [.mark closeBrace])

def items : Bool → List Json → List Token
  | _, [] => []
  | first, x :: xs => separator first ++ (x.tokens ++ items false xs)

def members : Bool → List (List UInt8 × Json) → List Token
  | _, [] => []
  | first, (key, x) :: ms =>
    separator first ++ (.string key :: .mark 0x3a :: (x.tokens ++ members false ms))

end

/-! ## Text -/

/-- The letter of a two-byte escape sequence. -/
def shortEscape (c : UInt8) : Option UInt8 :=
  [(quote, quote), (backslash, backslash), (0x08, 0x62), (0x0c, 0x66), (0x0a, 0x6e),
    (0x0d, 0x72), (0x09, 0x74)].lookup c

def hexDigit (n : UInt8) : UInt8 := if n < 10 then 0x30 + n else 0x57 + n

/-- What a byte of a string is written as. -/
def escapeByte (c : UInt8) : List UInt8 :=
  match shortEscape c with
  | some e => [backslash, e]
  | none =>
    if c < 0x20 then [backslash, 0x75, 0x30, 0x30, hexDigit (c / 16), hexDigit (c % 16)] else [c]

def Token.text : Token → List UInt8
  | .mark c => [c]
  | .string s => quote :: (s.flatMap escapeByte ++ [quote])

/-- The text of tokens. -/
def spell (ts : List Token) : List UInt8 := ts.flatMap Token.text

/-- The text of a value. -/
def dump (x : Json) : List UInt8 := spell x.tokens

@[simp] theorem spell_nil : spell [] = [] := rfl

@[simp] theorem spell_cons (t : Token) (ts : List Token) : spell (t :: ts) = t.text ++ spell ts :=
  List.flatMap_cons

@[simp] theorem spell_append (ts ts' : List Token) : spell (ts ++ ts') = spell ts ++ spell ts' :=
  List.flatMap_append

theorem dump_object (ms : List (List UInt8 × Json)) :
    dump (.object ms) = openBrace :: (spell (members true ms) ++ [closeBrace]) := by
  simp [dump, Json.tokens, Token.text]

/-! ## Reading escape sequences -/

def hexValue (d : UInt8) : UInt8 := if d < 0x3a then d - 0x30 else d - 0x57

/-- The first byte of the rest of a string, and what follows it. -/
def unescape : List UInt8 → Option (UInt8 × List UInt8)
  | [] => none
  | c :: t =>
    if c ≠ backslash then some (c, t)
    else
      match t with
      | 0x75 :: _ :: _ :: a :: b :: t => some (hexValue a * 16 + hexValue b, t)
      | e :: t =>
        ([(quote, quote), (backslash, backslash), (0x62, 0x08), (0x66, 0x0c), (0x6e, 0x0a),
          (0x72, 0x0d), (0x74, 0x09)].lookup e).map fun c => (c, t)
      | [] => none

/-- The three ways a byte of a string is written. -/
theorem escapeByte_cases (c : UInt8) :
    (c ∈ [quote, backslash, 0x08, 0x0c, 0x0a, 0x0d, 0x09]) ∨
      (c < 0x20 ∧ escapeByte c =
        [backslash, 0x75, 0x30, 0x30, hexDigit (c / 16), hexDigit (c % 16)]) ∨
      (c ≠ quote ∧ c ≠ backslash ∧ escapeByte c = [c]) := by
  by_cases hshort : c ∈ [quote, backslash, 0x08, 0x0c, 0x0a, 0x0d, 0x09]
  · exact .inl hshort
  · have hnone : shortEscape c = none := by
      simp only [List.mem_cons, List.not_mem_nil, or_false, not_or] at hshort
      simp [shortEscape, List.lookup, beq_eq_false_iff_ne.mpr, hshort]
    by_cases hcontrol : c < 0x20
    · exact .inr (.inl ⟨hcontrol, by simp [escapeByte, hnone, hcontrol]⟩)
    · simp only [List.mem_cons, not_or] at hshort
      exact .inr (.inr ⟨hshort.1, hshort.2.1, by simp [escapeByte, hnone, hcontrol]⟩)

private theorem hexValue_hexDigit : ∀ n : Fin 32,
    hexValue (hexDigit (UInt8.ofNat n / 16)) * 16 + hexValue (hexDigit (UInt8.ofNat n % 16)) =
      UInt8.ofNat n := by
  decide

/-- Escape sequences are read back. -/
theorem unescape_escapeByte (c : UInt8) (t : List UInt8) :
    unescape (escapeByte c ++ t) = some (c, t) := by
  rcases escapeByte_cases c with hshort | ⟨hcontrol, heq⟩ | ⟨-, hne, heq⟩
  · simp only [List.mem_cons, List.not_mem_nil, or_false] at hshort
    rcases hshort with rfl | rfl | rfl | rfl | rfl | rfl | rfl <;> rfl
  · -- a control character is below 32
    have hlt : c.toNat < 32 := UInt8.lt_iff_toNat_lt.mp hcontrol
    have hvalue := hexValue_hexDigit ⟨c.toNat, hlt⟩
    rw [UInt8.ofNat_toNat] at hvalue
    rw [heq]
    show some (hexValue (hexDigit (c / 16)) * 16 + hexValue (hexDigit (c % 16)), t) = some (c, t)
    rw [hvalue]
  · rw [heq]
    exact if_pos hne

/-- No escape sequence begins with a quote. -/
theorem head_escapeByte (c : UInt8) : ∃ b l, escapeByte c = b :: l ∧ b ≠ quote := by
  rcases escapeByte_cases c with hshort | ⟨-, heq⟩ | ⟨hne, -, heq⟩
  · simp only [List.mem_cons, List.not_mem_nil, or_false] at hshort
    rcases hshort with rfl | rfl | rfl | rfl | rfl | rfl | rfl <;>
      exact ⟨backslash, _, rfl, by decide⟩
  · exact ⟨backslash, _, heq, by decide⟩
  · exact ⟨c, [], heq, hne⟩

/-- A string ends at its closing quote. -/
theorem escaped_inj {s s' r r' : List UInt8}
    (heq : s.flatMap escapeByte ++ quote :: r = s'.flatMap escapeByte ++ quote :: r') :
    s = s' ∧ r = r' := by
  induction s generalizing s' with
  | nil =>
    cases s' with
    | nil => exact ⟨rfl, (List.cons.inj heq).2⟩
    | cons c' s' =>
      -- the quote at the end is the first byte of no escape
      obtain ⟨b, l, hb, hne⟩ := head_escapeByte c'
      rw [List.flatMap_cons, hb] at heq
      exact absurd (List.cons.inj heq).1.symm hne
  | cons c s ih =>
    cases s' with
    | nil =>
      obtain ⟨b, l, hb, hne⟩ := head_escapeByte c
      rw [List.flatMap_cons, hb] at heq
      exact absurd (List.cons.inj heq).1 hne
    | cons c' s' =>
      rw [List.flatMap_cons, List.flatMap_cons, List.append_assoc, List.append_assoc] at heq
      -- both texts begin with the same byte, the one that is read back
      have hread := congrArg unescape heq
      rw [unescape_escapeByte, unescape_escapeByte] at hread
      obtain ⟨rfl, hrest⟩ := Prod.mk.inj (Option.some.inj hread)
      obtain ⟨rfl, hr⟩ := ih hrest
      exact ⟨rfl, hr⟩

/-! ## A text belongs to one list of tokens -/

/-- Outside of strings there are neither quotes nor backslashes. -/
def Plain (ts : List Token) : Prop := ∀ c, .mark c ∈ ts → c ≠ quote ∧ c ≠ backslash

theorem Plain.of_cons {t : Token} {ts : List Token} (hplain : Plain (t :: ts)) : Plain ts :=
  fun c hc => hplain c (List.mem_cons_of_mem _ hc)

theorem plain_append {ts ts' : List Token} : Plain (ts ++ ts') ↔ Plain ts ∧ Plain ts' := by
  constructor
  · intro hplain
    exact ⟨fun c hc => hplain c (List.mem_append_left _ hc),
      fun c hc => hplain c (List.mem_append_right _ hc)⟩
  · rintro ⟨hts, hts'⟩ c hc
    exact (List.mem_append.mp hc).elim (hts c) (hts' c)

theorem plain_string (s : List UInt8) (ts : List Token) : Plain (.string s :: ts) ↔ Plain ts := by
  simp [Plain]

theorem plain_mark (c : UInt8) (ts : List Token) :
    Plain (.mark c :: ts) ↔ (c ≠ quote ∧ c ≠ backslash) ∧ Plain ts := by
  simp [Plain]

theorem spell_inj {ts ts' : List Token} (hplain : Plain ts) (hplain' : Plain ts')
    (heq : spell ts = spell ts') : ts = ts' := by
  induction ts generalizing ts' with
  | nil =>
    cases ts' with
    | nil => rfl
    | cons t' ts' => cases t' <;> exact absurd heq (by simp [Token.text])
  | cons t ts ih =>
    cases ts' with
    | nil => cases t <;> exact absurd heq (by simp [Token.text])
    | cons t' ts' =>
      rw [spell_cons, spell_cons] at heq
      -- the first byte tells a string from a byte outside of strings
      cases t with
      | mark c =>
        have hc := (hplain c List.mem_cons_self).1
        cases t' with
        | mark c' =>
          obtain ⟨rfl, hrest⟩ := List.cons.inj heq
          rw [ih hplain.of_cons hplain'.of_cons hrest]
        | string s' => exact absurd (List.cons.inj heq).1 hc
      | string s =>
        cases t' with
        | mark c' =>
          exact absurd (List.cons.inj heq).1.symm (hplain' c' List.mem_cons_self).1
        | string s' =>
          simp only [Token.text, List.cons_append, List.append_assoc, List.nil_append,
            List.cons.injEq, true_and] at heq
          obtain ⟨rfl, hrest⟩ := escaped_inj heq
          rw [ih hplain.of_cons hplain'.of_cons hrest]

theorem number_bytes {n : NumberText} {c : UInt8} (hc : c ∈ n.text) : isNumberByte c = true :=
  List.all_eq_true.mp n.bytes c hc

theorem plain_marks {l : List UInt8} (hl : ∀ c ∈ l, c ≠ quote ∧ c ≠ backslash) :
    Plain (l.map .mark) := by
  intro c hc
  obtain ⟨c', hc', heq⟩ := List.mem_map.mp hc
  exact Token.mark.inj heq ▸ hl c' hc'

theorem plain_separator (first : Bool) : Plain (separator first) := by
  cases first
  · exact plain_marks (l := [0x2c]) (by decide +kernel)
  · simp [separator, Plain]

mutual

theorem Json.plain_tokens : (x : Json) → Plain x.tokens
  | .null => plain_marks (by decide +kernel)
  | .bool true => plain_marks (by decide +kernel)
  | .bool false => plain_marks (by decide +kernel)
  | .number n => plain_marks fun c hc => by
    have hbyte := number_bytes hc
    constructor
    · rintro rfl
      exact absurd hbyte (by decide)
    · rintro rfl
      exact absurd hbyte (by decide)
  | .string s => by simp [Json.tokens, Plain]
  | .array xs => by
    rw [Json.tokens, plain_mark, plain_append]
    exact ⟨by decide, plain_items true xs, plain_marks (l := [0x5d]) (by decide +kernel)⟩
  | .object ms => by
    rw [Json.tokens, plain_mark, plain_append]
    exact ⟨by decide, plain_members true ms, plain_marks (l := [closeBrace]) (by decide +kernel)⟩

theorem plain_items : (first : Bool) → (xs : List Json) → Plain (items first xs)
  | _, [] => by simp [items, Plain]
  | first, x :: xs => by
    rw [items, plain_append, plain_append]
    exact ⟨plain_separator first, x.plain_tokens, plain_items false xs⟩

theorem plain_members : (first : Bool) → (ms : List (List UInt8 × Json)) →
    Plain (members first ms)
  | _, [] => by simp [members, Plain]
  | first, (key, x) :: ms => by
    rw [members, plain_append, plain_string, plain_mark, plain_append]
    exact ⟨plain_separator first, by decide, x.plain_tokens, plain_members false ms⟩

end

/-! ## A list of tokens belongs to one value -/

/-- What the first token of a value tells about it. -/
inductive Kind where
  | null
  | bool (b : Bool)
  | number
  | string
  | array
  | object
  | none
deriving DecidableEq

def Token.kind : Token → Kind
  | .string _ => .string
  | .mark c =>
    if isNumberByte c then .number
    else if c = 0x6e then .null
    else if c = 0x74 then .bool true
    else if c = 0x66 then .bool false
    else if c = 0x5b then .array
    else if c = openBrace then .object
    else .none

def Json.kind : Json → Kind
  | .null => .null
  | .bool b => .bool b
  | .number _ => .number
  | .string _ => .string
  | .array _ => .array
  | .object _ => .object

theorem Json.kind_ne_none (x : Json) : x.kind ≠ .none := by
  cases x <;> simp [Json.kind]

/-- The first token of a value tells its kind. -/
theorem Json.head_tokens (x : Json) : ∃ t ts, x.tokens = t :: ts ∧ t.kind = x.kind := by
  cases x with
  | null => exact ⟨_, _, rfl, rfl⟩
  | bool b => cases b <;> exact ⟨_, _, rfl, rfl⟩
  | number n =>
    obtain ⟨c, l, hcl⟩ := List.exists_cons_of_ne_nil n.ne_nil
    have hbyte := number_bytes (n := n) (c := c) (by rw [hcl]; exact List.mem_cons_self)
    refine ⟨.mark c, l.map .mark, by rw [Json.tokens, hcl]; rfl, ?_⟩
    rw [Token.kind, if_pos hbyte]
    rfl
  | string s => exact ⟨_, _, rfl, rfl⟩
  | array xs => exact ⟨_, _, rfl, rfl⟩
  | object ms => exact ⟨_, _, rfl, rfl⟩

theorem Json.kind_eq_of_tokens {x y : Json} {r r' : List Token}
    (heq : x.tokens ++ r = y.tokens ++ r') : x.kind = y.kind := by
  obtain ⟨t, ts, hx, ht⟩ := x.head_tokens
  obtain ⟨t', ts', hy, ht'⟩ := y.head_tokens
  rw [hx, hy] at heq
  rw [← ht, ← ht', (List.cons.inj heq).1]

/-- What can follow a value: nothing, a comma or a closing bracket. -/
def Follows : List Token → Prop
  | [] => True
  | t :: _ => t ∈ [Token.mark 0x2c, .mark 0x5d, .mark closeBrace]

/-- Digits end where something else follows. -/
private theorem number_inj {l l' : List UInt8} {r r' : List Token}
    (hl : ∀ c ∈ l, isNumberByte c = true) (hl' : ∀ c ∈ l', isNumberByte c = true)
    (hr : Follows r) (hr' : Follows r')
    (heq : l.map Token.mark ++ r = l'.map Token.mark ++ r') : l = l' ∧ r = r' := by
  -- what follows a number does not go on with a byte of a number
  have hstop {c : UInt8} {r : List Token} (hc : isNumberByte c = true)
      (hr : Follows (.mark c :: r)) : False := by
    simp only [Follows, List.mem_cons, Token.mark.injEq, List.not_mem_nil, or_false] at hr
    rcases hr with rfl | rfl | rfl <;> exact absurd hc (by decide)
  induction l generalizing l' with
  | nil =>
    cases l' with
    | nil => exact ⟨rfl, heq⟩
    | cons c' l' =>
      rw [show r = Token.mark c' :: (l'.map Token.mark ++ r') from heq] at hr
      exact (hstop (hl' c' List.mem_cons_self) hr).elim
  | cons c l ih =>
    cases l' with
    | nil =>
      rw [show r' = Token.mark c :: (l.map Token.mark ++ r) from heq.symm] at hr'
      exact (hstop (hl c List.mem_cons_self) hr').elim
    | cons c' l' =>
      obtain ⟨hc, hrest⟩ := List.cons.inj heq
      obtain ⟨rfl, hr⟩ := ih (fun c hc => hl c (List.mem_cons_of_mem _ hc))
        (fun c hc => hl' c (List.mem_cons_of_mem _ hc)) hrest
      exact ⟨by rw [Token.mark.inj hc], hr⟩

/-- A list that goes on does so with a comma, and otherwise its bracket follows. -/
private theorem follows_items {xs : List Json} {r : List Token} (hr : Follows r) :
    Follows (items false xs ++ r) := by
  cases xs with
  | nil => exact hr
  | cons x xs => exact List.mem_cons_self

private theorem follows_members {ms : List (List UInt8 × Json)} {r : List Token}
    (hr : Follows r) : Follows (members false ms ++ r) := by
  cases ms with
  | nil => exact hr
  | cons m ms => exact List.mem_cons_self

/-- A closing bracket does not begin another element. -/
private theorem items_ne_nil (first : Bool) (x : Json) (xs : List Json) (r r' : List Token) :
    items first (x :: xs) ++ r ≠ .mark 0x5d :: r' := by
  intro heq
  cases first with
  | false => exact absurd (List.cons.inj heq).1 (by decide)
  | true =>
    obtain ⟨t, ts, hx, ht⟩ := x.head_tokens
    rw [items, hx] at heq
    have hkind : t.kind = .none := by
      rw [(List.cons.inj heq).1]
      rfl
    exact x.kind_ne_none (ht.symm.trans hkind)

private theorem members_ne_nil (first : Bool) (m : List UInt8 × Json)
    (ms : List (List UInt8 × Json)) (r r' : List Token) :
    members first (m :: ms) ++ r ≠ .mark closeBrace :: r' := by
  intro heq
  cases first with
  | false => exact absurd (List.cons.inj heq).1 (by decide)
  | true => exact absurd (List.cons.inj heq).1 (by simp)

mutual

theorem Json.tokens_inj : (x y : Json) → {r r' : List Token} → Follows r → Follows r' →
    x.tokens ++ r = y.tokens ++ r' → x = y ∧ r = r'
  -- the first token tells the kind, so `y` is a value of the kind of `x`
  | .null, y, _, _, _, _, heq => by
    cases y with
    | null => exact ⟨rfl, List.append_cancel_left heq⟩
    | _ => exact absurd (Json.kind_eq_of_tokens heq) (by simp [Json.kind])
  | .bool b, y, _, _, _, _, heq => by
    cases y with
    | bool b' =>
      obtain rfl := Kind.bool.inj (Json.kind_eq_of_tokens heq)
      exact ⟨rfl, List.append_cancel_left heq⟩
    | _ => exact absurd (Json.kind_eq_of_tokens heq) (by simp [Json.kind])
  | .number n, y, _, _, hr, hr', heq => by
    cases y with
    | number n' =>
      simp only [Json.tokens] at heq
      obtain ⟨htext, hrest⟩ := number_inj (fun _ => number_bytes) (fun _ => number_bytes) hr hr' heq
      cases n
      cases n'
      obtain rfl := htext
      exact ⟨rfl, hrest⟩
    | _ => exact absurd (Json.kind_eq_of_tokens heq) (by simp [Json.kind])
  | .string s, y, _, _, _, _, heq => by
    cases y with
    | string s' =>
      obtain ⟨hs, hrest⟩ := List.cons.inj heq
      exact ⟨by rw [Token.string.inj hs], hrest⟩
    | _ => exact absurd (Json.kind_eq_of_tokens heq) (by simp [Json.kind])
  | .array xs, y, _, _, _, _, heq => by
    cases y with
    | array ys =>
      simp only [Json.tokens, List.cons_append, List.append_assoc, List.cons.injEq, true_and,
        List.nil_append] at heq
      obtain ⟨rfl, hrest⟩ := items_inj true xs ys heq
      exact ⟨rfl, hrest⟩
    | _ => exact absurd (Json.kind_eq_of_tokens heq) (by simp [Json.kind])
  | .object ms, y, _, _, _, _, heq => by
    cases y with
    | object ms' =>
      simp only [Json.tokens, List.cons_append, List.append_assoc, List.cons.injEq, true_and,
        List.nil_append] at heq
      obtain ⟨rfl, hrest⟩ := members_inj true ms ms' heq
      exact ⟨rfl, hrest⟩
    | _ => exact absurd (Json.kind_eq_of_tokens heq) (by simp [Json.kind])

theorem items_inj : (first : Bool) → (xs ys : List Json) → {r r' : List Token} →
    items first xs ++ .mark 0x5d :: r = items first ys ++ .mark 0x5d :: r' → xs = ys ∧ r = r'
  | _, [], [], _, _, heq => ⟨rfl, (List.cons.inj heq).2⟩
  | first, [], y :: ys, _, _, heq => absurd heq.symm (items_ne_nil first y ys _ _)
  | first, x :: xs, [], _, _, heq => absurd heq (items_ne_nil first x xs _ _)
  | first, x :: xs, y :: ys, _, _, heq => by
    rw [items, items, List.append_assoc, List.append_assoc, List.append_assoc,
      List.append_assoc, List.append_cancel_left_eq] at heq
    obtain ⟨rfl, hrest⟩ := x.tokens_inj y (follows_items (by simp [Follows]))
      (follows_items (by simp [Follows])) heq
    obtain ⟨rfl, hr⟩ := items_inj false xs ys hrest
    exact ⟨rfl, hr⟩

theorem members_inj : (first : Bool) → (ms ms' : List (List UInt8 × Json)) →
    {r r' : List Token} →
    members first ms ++ .mark closeBrace :: r = members first ms' ++ .mark closeBrace :: r' →
      ms = ms' ∧ r = r'
  | _, [], [], _, _, heq => ⟨rfl, (List.cons.inj heq).2⟩
  | first, [], m :: ms, _, _, heq => absurd heq.symm (members_ne_nil first m ms _ _)
  | first, m :: ms, [], _, _, heq => absurd heq (members_ne_nil first m ms _ _)
  | first, (key, x) :: ms, (key', x') :: ms', _, _, heq => by
    rw [members, members, List.append_assoc, List.append_assoc,
      List.append_cancel_left_eq] at heq
    simp only [List.cons_append, List.append_assoc, List.cons.injEq, Token.string.injEq,
      true_and] at heq
    obtain ⟨rfl, heq⟩ := heq
    obtain ⟨rfl, hrest⟩ := x.tokens_inj x' (follows_members (by simp [Follows]))
      (follows_members (by simp [Follows])) heq
    obtain ⟨rfl, hr⟩ := members_inj false ms ms' hrest
    exact ⟨rfl, hr⟩

end

/-- A text belongs to one value. -/
theorem dump_injective : Function.Injective dump := by
  intro x y heq
  have htokens := spell_inj x.plain_tokens y.plain_tokens heq
  have hnil : Follows [] := trivial
  exact (x.tokens_inj y hnil hnil (by rw [htokens])).1

/-! ## Braces -/

/-- What a byte does to the number of open braces. -/
def braceStep (c : UInt8) : Int := if c = openBrace then 1 else if c = closeBrace then -1 else 0

/-- The number of open braces after some bytes, if there were `d` before and at no point
    the last one was closed. -/
def depthAfter (d : Int) : List UInt8 → Option Int
  | [] => some d
  | c :: l => if d + braceStep c = 0 then none else depthAfter (d + braceStep c) l

/-- Inside of an open brace the bytes close what they open and nothing else. -/
def Balanced (l : List UInt8) : Prop := depthAfter 1 l = some 1

instance (l : List UInt8) : Decidable (Balanced l) :=
  inferInstanceAs (Decidable (depthAfter 1 l = some 1))

theorem depthAfter_append (d : Int) (l l' : List UInt8) :
    depthAfter d (l ++ l') = (depthAfter d l).bind fun e => depthAfter e l' := by
  induction l generalizing d with
  | nil => rfl
  | cons c l ih =>
    rw [List.cons_append, depthAfter, depthAfter]
    by_cases hzero : d + braceStep c = 0
    · rw [if_pos hzero, if_pos hzero]
      rfl
    · rw [if_neg hzero, if_neg hzero, ih]

theorem neg_one_le_braceStep (c : UInt8) : -1 ≤ braceStep c := by
  unfold braceStep
  split
  · decide
  · split <;> decide

/-- More braces that are open before stay open. -/
theorem depthAfter_add {d e k : Int} {l : List UInt8} (hd : 0 < d) (hk : 0 ≤ k)
    (hl : depthAfter d l = some e) : depthAfter (d + k) l = some (e + k) := by
  induction l generalizing d with
  | nil => rw [Option.some.inj hl, depthAfter]
  | cons c l ih =>
    rw [depthAfter] at hl ⊢
    by_cases hzero : d + braceStep c = 0
    · rw [if_pos hzero] at hl
      exact absurd hl (by simp)
    · rw [if_neg hzero] at hl
      have hstep := neg_one_le_braceStep c
      rw [if_neg (by omega), show d + k + braceStep c = d + braceStep c + k by omega]
      exact ih (by omega) hl

theorem Balanced.depthAfter_eq {l : List UInt8} (hl : Balanced l) {d : Int} (hd : 0 < d) :
    depthAfter d l = some d := by
  have hmore := depthAfter_add (k := d - 1) Int.one_pos (by omega) hl
  rwa [show 1 + (d - 1) = d by omega] at hmore

theorem Balanced.append {l l' : List UInt8} (hl : Balanced l) (hl' : Balanced l') :
    Balanced (l ++ l') := by
  rw [Balanced, depthAfter_append, hl]
  exact hl'

/-- Bytes that are no braces are balanced. -/
theorem balanced_of_noBrace {l : List UInt8} (hl : ∀ c ∈ l, braceStep c = 0) : Balanced l := by
  induction l with
  | nil => rfl
  | cons c l ih =>
    rw [Balanced, depthAfter, hl c List.mem_cons_self, if_neg (by decide)]
    exact ih fun c hc => hl c (List.mem_cons_of_mem _ hc)

theorem Balanced.braces {l : List UInt8} (hl : Balanced l) :
    Balanced (openBrace :: (l ++ [closeBrace])) := by
  rw [Balanced, depthAfter, if_neg (by decide), depthAfter_append,
    hl.depthAfter_eq (by decide)]
  rfl

/-- The bytes outside of strings. -/
def marks (ts : List Token) : List UInt8 :=
  ts.filterMap fun
    | .mark c => some c
    | .string _ => none

@[simp] theorem marks_nil : marks [] = [] := rfl

@[simp] theorem marks_mark (c : UInt8) (ts : List Token) : marks (.mark c :: ts) = c :: marks ts :=
  rfl

@[simp] theorem marks_string (s : List UInt8) (ts : List Token) :
    marks (.string s :: ts) = marks ts := rfl

@[simp] theorem marks_append (ts ts' : List Token) :
    marks (ts ++ ts') = marks ts ++ marks ts' := List.filterMap_append

@[simp] theorem marks_map_mark (l : List UInt8) : marks (l.map .mark) = l := by
  induction l with
  | nil => rfl
  | cons c l ih => rw [List.map_cons, marks_mark, ih]

private theorem balanced_separator (first : Bool) : Balanced (marks (separator first)) := by
  cases first <;> decide

private theorem braceStep_number {n : NumberText} {c : UInt8} (hc : c ∈ n.text) :
    braceStep c = 0 := by
  have hbyte := number_bytes hc
  unfold braceStep
  split
  · next heq => exact absurd (heq ▸ hbyte) (by decide)
  · split
    · next heq => exact absurd (heq ▸ hbyte) (by decide)
    · rfl

mutual

/-- Outside of strings the braces of a value are balanced. -/
theorem Json.balanced_marks : (x : Json) → Balanced (marks x.tokens)
  | .null => by decide
  | .bool true => by decide
  | .bool false => by decide
  | .number n => by
    rw [Json.tokens, marks_map_mark]
    exact balanced_of_noBrace fun _ => braceStep_number
  | .string _ => rfl
  | .array xs => by
    simp only [Json.tokens, marks_mark, marks_append]
    have hclose : Balanced [0x5d] := by decide
    exact Balanced.append (l := [0x5b]) (by decide) ((balanced_items true xs).append hclose)
  | .object ms => by
    simp only [Json.tokens, marks_mark, marks_append]
    exact (balanced_members true ms).braces

theorem balanced_items : (first : Bool) → (xs : List Json) → Balanced (marks (items first xs))
  | _, [] => rfl
  | first, x :: xs => by
    rw [items, marks_append, marks_append]
    exact (balanced_separator first).append (x.balanced_marks.append (balanced_items false xs))

theorem balanced_members : (first : Bool) → (ms : List (List UInt8 × Json)) →
    Balanced (marks (members first ms))
  | _, [] => rfl
  | first, (_, x) :: ms => by
    simp only [members, marks_append, marks_string, marks_mark]
    exact (balanced_separator first).append (Balanced.append (l := [0x3a]) (by decide)
      (x.balanced_marks.append (balanced_members false ms)))

end

end JsonText
