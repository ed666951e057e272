/-!
# Decimal numbers in texts

What the C library reads off the front of a text of bytes: white space is skipped, a sign may
follow, and the number ends at the first byte that is not a digit.

## Key results

- `scan_digits`: a text of digits is read as the number that it denotes
-/

namespace Decimal

def isDigit (b : UInt8) : Bool := decide (48 ≤ b.toNat) && decide (b.toNat ≤ 57)

/-- White space in the C locale. -/
def isSpace (b : UInt8) : Bool := b.toNat == 32 || decide (9 ≤ b.toNat) && decide (b.toNat ≤ 13)

/-- The number that a list of digits denotes. -/
def value (digits : List UInt8) : Nat := digits.foldl (fun n b => 10 * n + (b.toNat - 48)) 0

/-- The digits at the front of a text, if there are any. -/
def natural (text : List UInt8) : Option Nat :=
  if text.takeWhile isDigit = [] then none else some (value (text.takeWhile isDigit))

/-- The number at the front of a text. -/
def scan (text : List UInt8) : Option Int :=
  match text.dropWhile isSpace with
  | 45 :: rest => (natural rest).map fun n => -n
  | 43 :: rest => (natural rest).map fun n => n
  | rest => (natural rest).map fun n => n

theorem not_isSpace_of_isDigit {b : UInt8} (hb : isDigit b = true) : isSpace b = false := by
  simp only [isDigit, Bool.and_eq_true, decide_eq_true_eq] at hb
  simp only [isSpace, Bool.or_eq_false_iff, beq_eq_false_iff_ne, Bool.and_eq_false_iff,
    decide_eq_false_iff_not]
  omega

/-- A number may be followed by any other text. -/
theorem scan_digits {digits rest : List UInt8} (hne : digits ≠ [])
    (hdigits : ∀ b ∈ digits, isDigit b = true) (hrest : ∀ b ∈ rest.head?, isDigit b = false) :
    scan (digits ++ rest) = some (value digits : Int) := by
  have htake : (digits ++ rest).takeWhile isDigit = digits := by
    rw [List.takeWhile_append_of_pos hdigits]
    cases rest with
    | nil => rw [List.takeWhile_nil, List.append_nil]
    | cons b rest =>
      rw [List.takeWhile_cons_of_neg (by simp [hrest b rfl]), List.append_nil]
  have hnatural : natural (digits ++ rest) = some (value digits) := by
    rw [natural, htake, if_neg hne]
  cases digits with
  | nil => exact absurd rfl hne
  | cons d ds =>
    have hd := hdigits d List.mem_cons_self
    rw [List.cons_append] at hnatural ⊢
    rw [scan, List.dropWhile_cons_of_neg (by simp [not_isSpace_of_isDigit hd])]
    -- a text that begins with a digit has no sign
    split
    · next heq =>
      cases heq
      exact absurd hd (by decide)
    · next heq =>
      cases heq
      exact absurd hd (by decide)
    · rw [hnatural]
      rfl

end Decimal
