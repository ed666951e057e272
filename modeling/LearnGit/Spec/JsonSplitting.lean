import LearnGit.Native.ChatClient

/-!
# Splitting a stream of objects

The splitter tells a quote that closes a string by the byte in front of it, and takes the
closing quote of a string that ends in a backslash for an escaped one. From there on it
takes strings for structure and structure for strings, until the next such string. It
still finds the end of an object if the braces that it sees on the way are balanced and
the number of such strings is even.

## Key results

- `pass_spell`: what the splitter sees of a text
- `nextObject_dump_iff`: which objects it takes off whole
- `readable_of_noBackslash`: objects without a string that ends in a backslash
- `receiveObjects_iff`: the streams that come back as they were sent
-/

namespace Chat

open ChunkedStream Decoder JsonText

/-! ## Looking for the end of an object -/

namespace Scan

/-- The state after some bytes, unless the loop breaks at one of them. -/
def pass (s : Scan) : Bytes → Option Scan
  | [] => some s
  | c :: rest => if (s.step c).closes then none else (s.step c).pass rest

theorem pass_append (s : Scan) (a b : Bytes) :
    s.pass (a ++ b) = (s.pass a).bind fun s' => s'.pass b := by
  induction a generalizing s with
  | nil => rfl
  | cons c a ih =>
    rw [List.cons_append, pass, pass]
    by_cases hcloses : (s.step c).closes = true
    · rw [if_pos hcloses, if_pos hcloses]
      rfl
    · rw [if_neg hcloses, if_neg hcloses, ih]

theorem findEnd_of_pass {s s' : Scan} {a : Bytes} (hpass : s.pass a = some s') (b : Bytes) :
    s.findEnd (a ++ b) = (s'.findEnd b).map (· + a.length) := by
  induction a generalizing s with
  | nil =>
    obtain rfl := Option.some.inj hpass
    simp
  | cons c a ih =>
    rw [pass] at hpass
    by_cases hcloses : (s.step c).closes = true
    · rw [if_pos hcloses] at hpass
      exact absurd hpass (by simp)
    · rw [if_neg hcloses] at hpass
      rw [List.cons_append, findEnd, if_neg hcloses, ih hpass, Option.map_map]
      rfl

/-- The loop breaks before the end of the bytes it does not pass. -/
theorem findEnd_of_pass_eq_none {s : Scan} {a : Bytes} (hpass : s.pass a = none) (b : Bytes) :
    ∃ e < a.length, s.findEnd (a ++ b) = some e := by
  induction a generalizing s with
  | nil => exact absurd hpass (by simp [pass])
  | cons c a ih =>
    rw [pass] at hpass
    rw [List.cons_append, findEnd]
    by_cases hcloses : (s.step c).closes = true
    · exact ⟨0, Nat.zero_lt_succ _, by rw [if_pos hcloses]⟩
    · rw [if_neg hcloses] at hpass ⊢
      obtain ⟨e, hlt, hend⟩ := ih hpass
      exact ⟨e + 1, Nat.succ_lt_succ hlt, by rw [hend]; rfl⟩

/-- A byte that does not toggle `inString`. -/
theorem pass_cons {a i : Bool} {d : Int} {c : UInt8} (hc : c = quote → a = true) (l : Bytes) :
    pass ⟨a, i, d⟩ (c :: l) =
      if i then pass ⟨decide (c = backslash), i, d⟩ l
      else if d + braceStep c = 0 then none
      else pass ⟨decide (c = backslash), i, d + braceStep c⟩ l := by
  have hkeep : ¬ (c = quote ∧ a = false) := by
    rintro ⟨rfl, ha⟩
    exact absurd (ha.symm.trans (hc rfl)) (by decide)
  have hdepth : (if c = openBrace then d + 1 else if c = closeBrace then d - 1 else d) =
      d + braceStep c := by
    unfold braceStep
    split
    · rfl
    · split <;> omega
  have hstep : step ⟨a, i, d⟩ c =
      ⟨decide (c = backslash), i, if i then d else d + braceStep c⟩ := by
    rw [step, if_neg hkeep, hdepth]
  rw [pass, hstep]
  cases i
  · simp [closes]
  · simp [closes]

/-- A quote that toggles `inString`. -/
theorem pass_quote {i : Bool} {d : Int} (hd : 0 < d) (l : Bytes) :
    pass ⟨false, i, d⟩ (quote :: l) = pass ⟨false, !i, d⟩ l := by
  have hstep : step ⟨false, i, d⟩ quote = ⟨false, !i, d⟩ := by
    cases i <;> rfl
  have hne : d ≠ 0 := hd.ne'
  rw [pass, hstep, if_neg]
  simp [closes, hne]

/-- A backslash and the byte it escapes. -/
theorem pass_pair (a i : Bool) {d : Int} (hd : 0 < d) {e : UInt8} (he : braceStep e = 0)
    (rest : Bytes) :
    pass ⟨a, i, d⟩ (backslash :: e :: rest) = pass ⟨decide (e = backslash), i, d⟩ rest := by
  have hbackslash : braceStep backslash = 0 := by decide
  rw [pass_cons (fun heq => absurd heq (by decide)), hbackslash, Int.add_zero, if_neg hd.ne',
    ite_self, pass_cons (fun _ => by decide), he, Int.add_zero, if_neg hd.ne', ite_self]

/-- Bytes that mean nothing to the splitter. -/
theorem pass_inert {i : Bool} {d : Int} (hd : 0 < d) {l : Bytes}
    (hl : ∀ c ∈ l, c ≠ quote ∧ c ≠ backslash ∧ braceStep c = 0) (rest : Bytes) :
    pass ⟨false, i, d⟩ (l ++ rest) = pass ⟨false, i, d⟩ rest := by
  induction l with
  | nil => rfl
  | cons c l ih =>
    obtain ⟨hquote, hbackslash, hbrace⟩ := hl c List.mem_cons_self
    rw [List.cons_append, pass_cons (fun heq => absurd heq hquote), hbrace, Int.add_zero,
      if_neg hd.ne', ite_self, decide_eq_false hbackslash]
    exact ih fun c hc => hl c (List.mem_cons_of_mem _ hc)

end Scan

/-! ## What the splitter sees -/

private theorem hexDigit_inert {n : UInt8} (hn : n < 16) :
    hexDigit n ≠ quote ∧ hexDigit n ≠ backslash ∧ braceStep (hexDigit n) = 0 := by
  have hdigits : ∀ k : Fin 16, hexDigit (UInt8.ofNat k) ≠ quote ∧
      hexDigit (UInt8.ofNat k) ≠ backslash ∧ braceStep (hexDigit (UInt8.ofNat k)) = 0 := by
    decide +kernel
  have hlt : n.toNat < 16 := UInt8.lt_iff_toNat_lt.mp hn
  simpa only [UInt8.ofNat_toNat] using hdigits ⟨n.toNat, hlt⟩

/-- What a control character is written as holds no quote, no backslash and no brace. -/
private theorem hexDigits_inert {c : UInt8} (hc : c < 0x20) :
    ∀ d ∈ [0x30, 0x30, hexDigit (c / 16), hexDigit (c % 16)],
      d ≠ quote ∧ d ≠ backslash ∧ braceStep d = 0 := by
  have hlt : c.toNat < 32 := UInt8.lt_iff_toNat_lt.mp hc
  have hzero : (0x30 : UInt8) ≠ quote ∧ (0x30 : UInt8) ≠ backslash ∧ braceStep 0x30 = 0 := by
    decide
  have hdiv : c / 16 < 16 := by
    rw [UInt8.lt_iff_toNat_lt, UInt8.toNat_div]
    show c.toNat / 16 < 16
    omega
  have hmod : c % 16 < 16 := by
    rw [UInt8.lt_iff_toNat_lt, UInt8.toNat_mod]
    exact Nat.mod_lt _ (by decide)
  intro d hd
  simp only [List.mem_cons, List.not_mem_nil, or_false] at hd
  rcases hd with rfl | rfl | rfl | rfl
  · exact hzero
  · exact hzero
  · exact hexDigit_inert hdiv
  · exact hexDigit_inert hmod

/-- A byte of a string, as it is written: a brace counts where the splitter takes the
    string for structure. -/
theorem pass_escapeByte (a i : Bool) {d : Int} (hd : 0 < d) (c : UInt8) (rest : Bytes) :
    Scan.pass ⟨a, i, d⟩ (escapeByte c ++ rest) =
      if i then Scan.pass ⟨decide (c = backslash), i, d⟩ rest
      else if d + braceStep c = 0 then none
      else Scan.pass ⟨decide (c = backslash), i, d + braceStep c⟩ rest := by
  -- only a byte that stands for itself can be a brace
  have hnoBrace (hbrace : braceStep c = 0)
      (hpass : Scan.pass ⟨a, i, d⟩ (escapeByte c ++ rest) =
        Scan.pass ⟨decide (c = backslash), i, d⟩ rest) :
      Scan.pass ⟨a, i, d⟩ (escapeByte c ++ rest) =
        if i then Scan.pass ⟨decide (c = backslash), i, d⟩ rest
        else if d + braceStep c = 0 then none
        else Scan.pass ⟨decide (c = backslash), i, d + braceStep c⟩ rest := by
    rw [hpass, hbrace, Int.add_zero, if_neg hd.ne', ite_self]
  rcases escapeByte_cases c with hshort | ⟨hcontrol, heq⟩ | ⟨hquote, -, heq⟩
  · simp only [List.mem_cons, List.not_mem_nil, or_false] at hshort
    rcases hshort with rfl | rfl | rfl | rfl | rfl | rfl | rfl <;>
      exact hnoBrace (by decide) (Scan.pass_pair a i hd (by decide) rest)
  · have hplain : c ≠ backslash ∧ braceStep c = 0 := by
      constructor
      · rintro rfl
        exact absurd hcontrol (by decide)
      · unfold braceStep
        rw [if_neg (fun h => absurd (h ▸ hcontrol) (by decide)),
          if_neg (fun h => absurd (h ▸ hcontrol) (by decide))]
    refine hnoBrace hplain.2 ?_
    rw [heq, decide_eq_false hplain.1]
    show Scan.pass ⟨a, i, d⟩ (backslash :: 0x75 :: (_ ++ rest)) = _
    rw [Scan.pass_pair a i hd (by decide)]
    exact Scan.pass_inert hd (hexDigits_inert hcontrol) rest
  · rw [heq]
    exact Scan.pass_cons (fun h => absurd h hquote) rest

/-- The string ends in a backslash, so its closing quote is taken for an escaped one. -/
def endsInBackslash (s : Bytes) : Bool := s.getLast? == some backslash

/-- The bytes that the splitter takes for structure. It has the two sides right after an
    even number of strings that end in a backslash; after an odd number it sees the strings
    and not what is outside of them. -/
def seen : Bool → List Token → Bytes
  | _, [] => []
  | odd, .mark c :: ts => (if odd then [] else [c]) ++ seen odd ts
  | odd, .string s :: ts => (if odd then s else []) ++ seen (odd != endsInBackslash s) ts

/-- The number of strings that end in a backslash is odd. -/
def oddly : Bool → List Token → Bool
  | odd, [] => odd
  | odd, .mark _ :: ts => oddly odd ts
  | odd, .string s :: ts => oddly (odd != endsInBackslash s) ts

theorem depthAfter_pos {d e : Int} {l : Bytes} (hd : 0 < d) (hl : depthAfter d l = some e) :
    0 < e := by
  induction l generalizing d with
  | nil => exact Option.some.inj hl ▸ hd
  | cons c l ih =>
    rw [depthAfter] at hl
    by_cases hzero : d + braceStep c = 0
    · rw [if_pos hzero] at hl
      exact absurd hl (by simp)
    · rw [if_neg hzero] at hl
      have hstep := neg_one_le_braceStep c
      exact ih (by omega) hl

/-- The bytes of a string between its quotes. -/
theorem pass_escaped (a i : Bool) {d : Int} (hd : 0 < d) (s : Bytes) :
    Scan.pass ⟨a, i, d⟩ (s.flatMap escapeByte) =
      (depthAfter d (if i then [] else s)).map fun e =>
        ⟨if s = [] then a else endsInBackslash s, i, e⟩ := by
  induction s generalizing a d with
  | nil => cases i <;> rfl
  | cons c s ih =>
    rw [List.flatMap_cons, pass_escapeByte a i hd]
    -- the last byte decides, and `c` is the last one only if nothing follows
    have hlast (e : Int) : (⟨if s = [] then decide (c = backslash) else endsInBackslash s, i, e⟩ :
        Scan) = ⟨endsInBackslash (c :: s), i, e⟩ := by
      cases s with
      | nil => simp [endsInBackslash, beq_eq_decide]
      | cons c' s => simp [endsInBackslash]
    cases i with
    | true =>
      rw [if_pos rfl, ih _ hd]
      simp only [if_true, hlast]
      rfl
    | false =>
      rw [if_neg (by decide)]
      simp only [Bool.false_eq_true, if_false, depthAfter]
      by_cases hzero : d + braceStep c = 0
      · rw [if_pos hzero, if_pos hzero]
        rfl
      · have hstep := neg_one_le_braceStep c
        rw [if_neg hzero, if_neg hzero, ih _ (by omega)]
        simp only [Bool.false_eq_true, if_false, hlast]
        rfl

/-- What the splitter makes of a text. -/
theorem pass_spell {ts : List Token} (hplain : Plain ts) (odd : Bool) {d : Int} (hd : 0 < d) :
    Scan.pass ⟨false, odd, d⟩ (spell ts) =
      (depthAfter d (seen odd ts)).map fun e => ⟨false, oddly odd ts, e⟩ := by
  induction ts generalizing odd d with
  | nil => rfl
  | cons t ts ih =>
    rw [spell_cons]
    cases t with
    | mark c =>
      obtain ⟨hquote, hbackslash⟩ := hplain c List.mem_cons_self
      show Scan.pass _ (c :: spell ts) = _
      rw [Scan.pass_cons (fun heq => absurd heq hquote), decide_eq_false hbackslash, seen, oddly]
      cases odd with
      | true => exact ih hplain.of_cons true hd
      | false =>
        rw [if_neg (by decide)]
        show _ = (depthAfter d (c :: seen false ts)).map _
        rw [depthAfter]
        by_cases hzero : d + braceStep c = 0
        · rw [if_pos hzero, if_pos hzero]
          rfl
        · have hstep := neg_one_le_braceStep c
          rw [if_neg hzero, if_neg hzero, ih hplain.of_cons false (by omega)]
    | string s =>
      -- the opening quote always toggles, the closing one depends on what is before it
      show Scan.pass _ (quote :: ((s.flatMap escapeByte ++ [quote]) ++ spell ts)) = _
      rw [Scan.pass_quote hd, List.append_assoc, Scan.pass_append, pass_escaped _ _ hd, seen, oddly,
        depthAfter_append]
      have hsame : (if (!odd) = true then [] else s) = if odd = true then s else [] := by
        cases odd <;> rfl
      rw [hsame]
      cases hinner : depthAfter d (if odd = true then s else []) with
      | none => rfl
      | some e =>
        have he := depthAfter_pos hd hinner
        show Scan.pass ⟨if s = [] then false else endsInBackslash s, !odd, e⟩ (quote :: spell ts) =
          (depthAfter e _).map _
        have hlast : (if s = [] then false else endsInBackslash s) = endsInBackslash s := by
          split
          · next hnil => rw [hnil]; rfl
          · rfl
        rw [hlast]
        by_cases hends : endsInBackslash s = true
        · rw [hends, Scan.pass_cons (fun _ => rfl)]
          have hquote : braceStep quote = 0 := by decide
          rw [hquote, Int.add_zero, if_neg he.ne', ite_self, decide_eq_false (by decide),
            ih hplain.of_cons _ he]
          simp
        · rw [Bool.not_eq_true] at hends
          rw [hends, Scan.pass_quote he, ih hplain.of_cons _ he]
          simp

/-! ## One object -/

/-- The splitter finds the end of the object: the braces that it sees inside are balanced,
    and it is right about strings at the end. -/
def Readable (ms : List (Bytes × Json)) : Prop :=
  JsonText.Balanced (seen false (members true ms)) ∧ oddly false (members true ms) = false

instance (ms : List (Bytes × Json)) : Decidable (Readable ms) :=
  inferInstanceAs (Decidable (_ ∧ _))

private theorem findEnd_closeBrace (odd : Bool) (e : Int) (rest : Bytes) :
    Scan.findEnd ⟨false, odd, e⟩ (closeBrace :: rest) =
      if e = 1 ∧ odd = false then some 0
      else (Scan.findEnd (Scan.step ⟨false, odd, e⟩ closeBrace) rest).map (· + 1) := by
  have hcloses : (Scan.step ⟨false, odd, e⟩ closeBrace).closes = true ↔ e = 1 ∧ odd = false := by
    cases odd with
    | false =>
      have hstep : Scan.step ⟨false, false, e⟩ closeBrace = ⟨false, false, e - 1⟩ := rfl
      rw [hstep]
      simp [Scan.closes, sub_eq_zero]
    | true =>
      have hstep : Scan.step ⟨false, true, e⟩ closeBrace = ⟨false, true, e⟩ := rfl
      rw [hstep]
      simp [Scan.closes]
  rw [Scan.findEnd]
  simp only [hcloses]

/-- An object in front of the buffer is taken off whole exactly if it is readable. -/
theorem findEnd_dump_iff (ms : List (Bytes × Json)) (rest : Bytes) :
    Scan.findEnd {} (dump (.object ms) ++ rest) = some ((spell (members true ms)).length + 1) ↔
      Readable ms := by
  have hplain := plain_members true ms
  have hopen : Scan.step {} openBrace = ⟨false, false, 1⟩ := rfl
  have hnot : Scan.closes ⟨false, false, 1⟩ = false := rfl
  rw [dump_object, List.cons_append, List.append_assoc, Scan.findEnd, hopen, hnot]
  simp only [Bool.false_eq_true, if_false, Option.map_eq_some_iff, Nat.add_right_cancel_iff,
    exists_eq_right]
  have hpass := pass_spell hplain false Int.one_pos
  unfold Readable JsonText.Balanced
  cases hdepth : depthAfter 1 (seen false (members true ms)) with
  | none =>
    -- the loop breaks too early
    rw [hdepth] at hpass
    obtain ⟨e, hlt, hend⟩ := Scan.findEnd_of_pass_eq_none hpass ([closeBrace] ++ rest)
    rw [hend]
    refine iff_of_false (fun heq => ?_) (fun hread => absurd hread.1 (by simp))
    rw [Option.some.inj heq] at hlt
    exact absurd hlt (lt_irrefl _)
  | some e =>
    rw [hdepth] at hpass
    rw [Scan.findEnd_of_pass hpass]
    -- everything depends on the last brace
    show (Scan.findEnd ⟨false, oddly false (members true ms), e⟩ (closeBrace :: rest)).map _ = _ ↔ _
    rw [findEnd_closeBrace]
    by_cases hends : e = 1 ∧ oddly false (members true ms) = false
    · rw [if_pos hends]
      simp [hends]
    · rw [if_neg hends, Option.map_map]
      refine iff_of_false (fun heq => ?_) fun hread => hends ⟨Option.some.inj hread.1, hread.2⟩
      obtain ⟨e', -, hlen⟩ := Option.map_eq_some_iff.mp heq
      simp only [Function.comp_apply] at hlen
      omega

theorem dropLeading_dump (ms : List (Bytes × Json)) (rest : Bytes) :
    dropLeading (dump (.object ms) ++ rest) = dump (.object ms) ++ rest := by
  rw [dump_object]
  rfl

/-- A turn that takes off the text of an object has found its end. -/
private theorem readable_of_item {ms : List (Bytes × Json)} {rest rest' : Bytes}
    (hitem : nextObject (dump (.object ms) ++ rest) = .item (dump (.object ms)) rest') :
    Readable ms := by
  have hlen : (dump (.object ms)).length = (spell (members true ms)).length + 1 + 1 := by
    simp [dump_object]
  obtain ⟨e, hend, htext, -⟩ := nextObject_eq_item_iff.mp hitem
  rw [dropLeading_dump] at hend htext
  have hlt := Scan.findEnd_lt hend
  have htake := congrArg List.length htext
  rw [List.length_take_of_le hlt, hlen] at htake
  rw [← findEnd_dump_iff ms rest, hend, Nat.add_right_cancel htake]

theorem nextObject_dump_iff (ms : List (Bytes × Json)) (rest : Bytes) :
    nextObject (dump (.object ms) ++ rest) = .item (dump (.object ms)) rest ↔ Readable ms := by
  have hlen : (dump (.object ms)).length = (spell (members true ms)).length + 1 + 1 := by
    simp [dump_object]
  refine ⟨readable_of_item, fun hread => nextObject_eq_item_iff.mpr ?_⟩
  rw [dropLeading_dump]
  exact ⟨_, (findEnd_dump_iff ms rest).mpr hread, by rw [← hlen, List.take_left],
    by rw [← hlen, List.drop_left]⟩

/-- An object is readable if none of its strings, keys included, ends in a backslash. -/
theorem readable_of_noBackslash {ms : List (Bytes × Json)}
    (hms : ∀ s, .string s ∈ members true ms → endsInBackslash s = false) : Readable ms := by
  have hseen (ts : List Token) (hts : ∀ s, .string s ∈ ts → endsInBackslash s = false) :
      seen false ts = marks ts ∧ oddly false ts = false := by
    induction ts with
    | nil => exact ⟨rfl, rfl⟩
    | cons t ts ih =>
      have hrest := ih fun s hs => hts s (List.mem_cons_of_mem _ hs)
      cases t with
      | mark c => exact ⟨congrArg (c :: ·) hrest.1, hrest.2⟩
      | string s =>
        rw [seen, oddly, hts s List.mem_cons_self]
        exact hrest
  obtain ⟨heq, heven⟩ := hseen _ hms
  refine ⟨?_, heven⟩
  rw [heq]
  exact balanced_members true ms

/-! ## Streams -/

theorem nextObject_ne_fault (buffer : Bytes) : nextObject buffer ≠ .fault := by
  unfold nextObject
  dsimp only
  split <;> simp

theorem extractJsonObjects_eq (parse : Bytes → Option Json) (buffer : Bytes) :
    extractJsonObjects parse buffer =
      ((objects.split buffer).1.flatMap fun text => (parse text).toList,
        dropLeading (objects.split buffer).2) := by
  have hleft : (objects.run (fun result jsonStr => result ++ (parse jsonStr).toList) [] buffer).2 =
      some (objects.split buffer).2 :=
    (run_eq_some_iff []).mpr ⟨rfl, nextObject_ne_fault (objects.split buffer).2⟩
  unfold extractJsonObjects
  dsimp only
  rw [hleft, run_fst, List.flatMap_eq_foldl]
  rfl

/-- Leading text makes no difference. -/
private theorem nextObject_dropLeading (buffer : Bytes) :
    nextObject (dropLeading buffer) = nextObject buffer := by
  unfold nextObject
  rw [dropLeading_idem]

private theorem split_dropLeading (buffer : Bytes) :
    (objects.split (dropLeading buffer)).1 = (objects.split buffer).1 ∧
      dropLeading (objects.split (dropLeading buffer)).2 =
        dropLeading (objects.split buffer).2 := by
  have hnext : objects.next (dropLeading buffer) = objects.next buffer :=
    nextObject_dropLeading buffer
  cases hitem : objects.next buffer with
  | item text rest =>
    rw [split_item hitem, split_item (hnext.trans hitem)]
    exact ⟨rfl, rfl⟩
  | wait =>
    have hstop : objects.split buffer = ([], buffer) :=
      split_stop fun _ _ heq => nomatch hitem.symm.trans heq
    have hstop' : objects.split (dropLeading buffer) = ([], dropLeading buffer) :=
      split_stop fun _ _ heq => nomatch (hnext.trans hitem).symm.trans heq
    rw [hstop, hstop']
    exact ⟨rfl, List.dropWhile_idempotent _ buffer⟩
  | fault => exact absurd hitem (nextObject_ne_fault buffer)

/-- What a call leaves in the buffer may lack leading text. -/
theorem split_dropLeading_append (buffer more : Bytes) :
    (objects.split (dropLeading buffer ++ more)).1 = (objects.split (buffer ++ more)).1 ∧
      dropLeading (objects.split (dropLeading buffer ++ more)).2 =
        dropLeading (objects.split (buffer ++ more)).2 := by
  have hsame := dropLeading_dropLeading_append buffer more
  obtain ⟨hitems, hrest⟩ := split_dropLeading (dropLeading buffer ++ more)
  obtain ⟨hitems', hrest'⟩ := split_dropLeading (buffer ++ more)
  rw [hsame] at hitems hrest
  exact ⟨hitems.symm.trans hitems', hrest.symm.trans hrest'⟩

/-- A stream that arrives in chunks is split like the whole stream. -/
theorem receiveObjects_eq (parse : Bytes → Option Json) (chunks : List Bytes) :
    receiveObjects parse chunks =
      ((objects.split chunks.flatten).1.flatMap fun text => (parse text).toList,
        dropLeading (objects.split chunks.flatten).2) := by
  induction chunks using List.reverseRecOn with
  | nil =>
    rw [List.flatten_nil, split_nil]
    rfl
  | append_singleton chunks chunk ih =>
    have hlast : receiveObjects parse (chunks ++ [chunk]) =
        ((receiveObjects parse chunks).1 ++
            (extractJsonObjects parse ((receiveObjects parse chunks).2 ++ chunk)).1,
          (extractJsonObjects parse ((receiveObjects parse chunks).2 ++ chunk)).2) := by
      rw [receiveObjects, List.foldl_append, List.foldl_cons, List.foldl_nil, receiveObjects]
    obtain ⟨hitems, hrest⟩ := split_dropLeading_append (objects.split chunks.flatten).2 chunk
    rw [hlast, ih, extractJsonObjects_eq]
    dsimp only
    rw [hitems, hrest, List.flatten_append, List.flatten_singleton,
      split_append objects chunks.flatten chunk, List.flatMap_append]

/-- Texts that are cut out of a stream are not longer than the stream. -/
theorem sum_length_split (buffer : Bytes) :
    ((objects.split buffer).1.map List.length).sum ≤ buffer.length ∧
      ∀ text ∈ (objects.split buffer).1, text ≠ [] := by
  induction buffer using Decoder.induction objects with
  | stop buffer hstop =>
    rw [split_stop hstop]
    exact ⟨Nat.zero_le _, fun _ hmem => (List.not_mem_nil hmem).elim⟩
  | item buffer text rest hitem ih =>
    obtain ⟨e, hend, htext, hrest⟩ := nextObject_eq_item_iff.mp hitem
    have hlt := Scan.findEnd_lt hend
    have hle := length_dropLeading_le buffer
    have hlen : text.length = e + 1 := by rw [htext, List.length_take_of_le hlt]
    have hlen' : rest.length = (dropLeading buffer).length - (e + 1) := by
      rw [hrest, List.length_drop]
    rw [split_item hitem, List.map_cons, List.sum_cons]
    refine ⟨by omega, fun t ht => ?_⟩
    rcases List.mem_cons.mp ht with rfl | ht
    · exact List.ne_nil_of_length_eq_add_one hlen
    · exact ih.2 t ht

/-- The text of a list of objects, sent one after the other. -/
def sentObjects (xs : List (List (Bytes × Json))) : Bytes := xs.flatMap fun ms => dump (.object ms)

/-- Part of a list that is not shorter, without empty elements, is the whole list. -/
private theorem eq_of_sublist {l l' : List Bytes} (hsub : l.Sublist l') (hne : ∀ t ∈ l', t ≠ [])
    (hle : (l'.map List.length).sum ≤ (l.map List.length).sum) : l = l' := by
  induction hsub with
  | slnil => rfl
  | cons t hsub ih =>
    have hpos := List.length_pos_of_ne_nil (hne t List.mem_cons_self)
    have hsum := (hsub.map List.length).sum_le_sum fun _ _ => Nat.zero_le _
    rw [List.map_cons, List.sum_cons] at hle
    omega
  | cons_cons t hsub ih =>
    rw [List.map_cons, List.map_cons, List.sum_cons, List.sum_cons] at hle
    rw [ih (fun t ht => hne t (List.mem_cons_of_mem _ ht)) (by omega)]

/-- A parser that accepts the texts of `dump` and nothing else. -/
private theorem sublist_of_partialInv (texts : List Bytes) :
    ((texts.flatMap fun text => (Function.partialInv dump text).toList).map dump).Sublist
      texts := by
  induction texts with
  | nil => exact List.Sublist.slnil
  | cons text texts ih =>
    rw [List.flatMap_cons]
    cases hparse : Function.partialInv dump text with
    | none => exact ih.cons text
    | some x =>
      have htext : dump x = text :=
        (dump_injective.isPartialInv x text).mp hparse
      rw [← htext]
      exact ih.cons_cons (dump x)

/-- If the splitter takes the objects off one by one, it can read them. -/
private theorem readable_of_split {xs : List (List (Bytes × Json))}
    (hsplit : (objects.split (sentObjects xs)).1 = xs.map fun ms => dump (.object ms)) :
    ∀ ms ∈ xs, Readable ms := by
  induction xs with
  | nil => exact fun _ hmem => (List.not_mem_nil hmem).elim
  | cons ms xs ih =>
    rw [sentObjects, List.flatMap_cons, List.map_cons] at hsplit
    cases hnext : objects.next (dump (.object ms) ++ sentObjects xs) with
    | item text rest =>
      have hitem := hnext
      rw [sentObjects] at hnext
      rw [split_item hnext] at hsplit
      obtain ⟨rfl, htail⟩ := List.cons.inj hsplit
      -- the text that is found first is the one of `ms`, so it ends where that does
      have hread := readable_of_item hitem
      obtain ⟨-, rfl⟩ := Decoded.item.inj
        (hitem.symm.trans ((nextObject_dump_iff ms (sentObjects xs)).mpr hread))
      intro ms' hms'
      rcases List.mem_cons.mp hms' with rfl | hms'
      · exact hread
      · exact ih htail ms' hms'
    | wait =>
      rw [sentObjects] at hnext
      rw [split_stop fun _ _ heq => nomatch hnext.symm.trans heq] at hsplit
      exact absurd hsplit (by simp)
    | fault => exact absurd hnext (nextObject_ne_fault _)

/-- The calls after the chunks return the objects in order and leave nothing in the buffer,
    whatever a parser that reads the texts makes of other bytes. -/
def ReturnsSent (xs : List (List (Bytes × Json))) (chunks : List Bytes) : Prop :=
  ∀ parse : Bytes → Option Json, (∀ ms ∈ xs, parse (dump (.object ms)) = some (.object ms)) →
    receiveObjects parse chunks = (xs.map .object, [])

section Stream

variable {xs : List (List (Bytes × Json))} {chunks : List Bytes}
  (hcut : chunks.flatten = sentObjects xs)

include hcut

theorem readable_of_returnsSent (hall : ReturnsSent xs chunks) : ∀ ms ∈ xs, Readable ms := by
  have hinv := dump_injective.isPartialInv
  have hreceived := hall (Function.partialInv dump) fun ms _ => (hinv _ _).mpr rfl
  rw [receiveObjects_eq, hcut] at hreceived
  obtain ⟨hobjects, -⟩ := Prod.mk.inj hreceived
  -- the texts that parsed are those that were sent, and leave no room for others
  have hsub := sublist_of_partialInv (objects.split (sentObjects xs)).1
  rw [hobjects, List.map_map] at hsub
  obtain ⟨hsum, hne⟩ := sum_length_split (sentObjects xs)
  refine readable_of_split (eq_of_sublist hsub hne ?_).symm
  rw [sentObjects, List.length_flatMap] at hsum
  rwa [List.map_map]

theorem returnsSent_of_readable (hread : ∀ ms ∈ xs, Readable ms) : ReturnsSent xs chunks := by
  intro parse hparse
  have hencode : ∀ ms ∈ xs, ∀ rest, objects.next (dump (.object ms) ++ rest) =
      .item (dump (.object ms)) rest :=
    fun ms hms rest => (nextObject_dump_iff ms rest).mpr (hread ms hms)
  have hsplit := split_encode hencode []
  rw [List.append_nil, split_nil, List.append_nil] at hsplit
  rw [receiveObjects_eq, hcut, sentObjects, hsplit]
  refine Prod.ext ?_ rfl
  dsimp only
  rw [List.flatMap_map]
  clear hcut hsplit hencode hread
  induction xs with
  | nil => rfl
  | cons ms xs ih =>
    rw [List.flatMap_cons, hparse ms List.mem_cons_self,
      ih fun ms hms => hparse ms (List.mem_cons_of_mem _ hms)]
    rfl

end Stream

/-- However the texts of objects are cut into chunks, the client gets the objects back and
    has nothing left exactly if it can read every one of them. -/
theorem receiveObjects_iff (xs : List (List (Bytes × Json))) (chunks : List Bytes)
    (hcut : chunks.flatten = sentObjects xs) :
    ReturnsSent xs chunks ↔ ∀ ms ∈ xs, Readable ms :=
  ⟨readable_of_returnsSent hcut, returnsSent_of_readable hcut⟩

/-- A message that ends in a backslash: its object is not taken off. -/
theorem receiveObjects_lost :
    ¬ ∀ (xs : List (List (Bytes × Json))) (chunks : List Bytes),
      chunks.flatten = sentObjects xs → ReturnsSent xs chunks := by
  intro hall
  have hcut : [sentObjects [[([0x6d], .string [backslash])]]].flatten =
      sentObjects [[([0x6d], .string [backslash])]] := by simp
  have hread := readable_of_returnsSent hcut (hall _ _ hcut)
  exact absurd (hread _ List.mem_cons_self) (by decide)

/-- Two objects, with a brace and with a quote and a backslash in the middle of a string, cut
    inside of the first. -/
theorem receiveObjects_twoObjects :
    ReturnsSent
      [[([0x6d], .string [closeBrace])], [([0x6d], .string [backslash, quote, 0x61])]]
      [[0x7b, 0x22, 0x6d], [0x22, 0x3a, 0x22, 0x7d, 0x22, 0x7d, 0x7b, 0x22, 0x6d, 0x22,
        0x3a, 0x22, 0x5c, 0x5c, 0x5c, 0x22, 0x61, 0x22, 0x7d]] :=
  (receiveObjects_iff _ _ (by decide)).mpr (by decide)

end Chat
