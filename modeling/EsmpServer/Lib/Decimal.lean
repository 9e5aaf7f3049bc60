import Mathlib

/-!
# Decimal numbers and fixed-width integers

Reading and writing decimal numbers as a systems language does: signed and
unsigned fixed-width integers over `ℤ`, parsed from a string, saturated into the
range of their type or read in two's complement; and unsigned integers written one
ASCII byte a digit, read back by the reader of a fixed-width unsigned type.
-/

/-! ## Fixed-width integers over `ℤ`

A fixed-width integer is an integer in the range `[lo, hi]` of its type. The
operations here are those of a systems language that the models use: reading a
decimal string (an optional sign, then at least one ASCII digit, rejected when
the value is out of range), saturating a result into the range, and the
two's-complement reading of a residue.
-/

namespace FixedInt

/-- The value of a list of ASCII digits, most significant first. -/
def digitsValue (ds : List Char) : ℕ :=
  ds.foldl (fun acc d => 10 * acc + (d.toNat - '0'.toNat)) 0

/-- Decimal parsing for a type with range `[lo, hi]`: one optional `+` (or `-`
when the type is signed), then one or more ASCII digits. -/
def parseDecimal (signed : Bool) (lo hi : ℤ) (s : String) : Option ℤ :=
  let inRange (z : ℤ) : Option ℤ := if lo ≤ z ∧ z ≤ hi then some z else none
  let digits (ds : List Char) : Option ℕ :=
    if ds ≠ [] ∧ ds.all Char.isDigit then some (digitsValue ds) else none
  match s.toList with
  | '+' :: ds => (digits ds).bind fun n => inRange n
  | '-' :: ds => if signed then (digits ds).bind fun n => inRange (-(n : ℤ)) else none
  | ds => (digits ds).bind fun n => inRange n

/-- Clamp into `[lo, hi]`: the result of a saturating operation. -/
def saturate (lo hi z : ℤ) : ℤ := max lo (min z hi)

/-- The signed reading of a value modulo `2 ^ w`. -/
def wrapSigned (w : ℕ) (z : ℤ) : ℤ :=
  let r := z % 2 ^ w
  if r < 2 ^ (w - 1) then r else r - 2 ^ w

theorem digitsValue_toDigits (n : ℕ) : digitsValue (Nat.toDigits 10 n) = n := by
  rw [digitsValue, ← Nat.ofDigitChars_eq_foldl, Nat.ofDigitChars_ten_toDigits]

theorem parseDecimal_toDigits {signed : Bool} {lo hi : ℤ} {n : ℕ} (hlo : lo ≤ n) (hhi : n ≤ hi) :
    parseDecimal signed lo hi (String.ofList (Nat.toDigits 10 n)) = some n := by
  have hdigit : ∀ c ∈ Nat.toDigits 10 n, c.isDigit := fun c hc =>
    Nat.isDigit_of_mem_toDigits (by decide) (by decide) hc
  obtain ⟨c, cs, hcs⟩ := List.exists_cons_of_ne_nil (Nat.toDigits_ne_nil (n := n) (b := 10))
  have hc : c.isDigit := hdigit c (by simp [hcs])
  have hplus : c ≠ '+' := by rintro rfl; exact absurd hc (by decide)
  have hminus : c ≠ '-' := by rintro rfl; exact absurd hc (by decide)
  have hvalue := digitsValue_toDigits n
  rw [hcs] at hdigit hvalue
  simp only [parseDecimal, String.toList_ofList, hcs]
  split
  · next h => exact absurd (List.cons.inj h).1 hplus
  · next h => exact absurd (List.cons.inj h).1 hminus
  · have hrest : ∀ x ∈ cs, x.isDigit := fun x hx => hdigit x (List.mem_cons_of_mem _ hx)
    simp only [List.all_cons, hc, Bool.true_and, List.all_eq_true, ne_eq, reduceCtorEq, not_false_eq_true,
      true_and, hvalue]
    rw [if_pos hrest]
    simp [hlo, hhi]

end FixedInt

/-! ## Decimal numbers as ASCII bytes

An unsigned integer written in decimal, one ASCII byte a digit, and the reader of a
fixed-width unsigned type: one optional `+`, then one or more digits, rejected when the
value does not fit `w` bits. Writing then reading gives the number back.
-/

namespace DecimalBytes

/-- The bytes of an ASCII string. -/
def ascii (s : String) : List UInt8 := s.toList.map fun c => UInt8.ofNat c.toNat

/-- `u8::is_ascii_digit`. -/
def isDigit (b : UInt8) : Bool := 48 ≤ b && b ≤ 57

/-- The decimal digits of `n`, most significant first, as ASCII bytes. -/
def ofNat (n : ℕ) : List UInt8 := (Nat.toDigits 10 n).map fun c => UInt8.ofNat c.toNat

/-- The value of a list of ASCII digits, most significant first. -/
def value (ds : List UInt8) : ℕ := ds.foldl (fun acc d => 10 * acc + (d.toNat - 48)) 0

/-- Reading an unsigned integer of `w` bits from its decimal text. -/
def parse (w : ℕ) (bytes : List UInt8) : Option ℕ :=
  let digits := match bytes with
    | 43 :: ds@(_ :: _) => ds
    | ds => ds
  if digits ≠ [] ∧ digits.all isDigit ∧ value digits < 2 ^ w then some (value digits) else none

theorem toNat_lt_of_mem_toDigits {n : ℕ} {c : Char} (h : c ∈ Nat.toDigits 10 n) :
    48 ≤ c.toNat ∧ c.toNat ≤ 57 := by
  have hc := Nat.isDigit_of_mem_toDigits (by decide) (by decide) h
  simpa using Char.isDigit_iff_toNat.mp hc

theorem toNat_byte_of_mem_toDigits {n : ℕ} {c : Char} (h : c ∈ Nat.toDigits 10 n) :
    (UInt8.ofNat c.toNat).toNat = c.toNat :=
  UInt8.toNat_ofNat_of_lt' (lt_of_le_of_lt (toNat_lt_of_mem_toDigits h).2 (by decide))

theorem ofNat_ne_nil (n : ℕ) : ofNat n ≠ [] := by
  simp [ofNat, Nat.toDigits_ne_nil]

theorem isDigit_of_mem_ofNat {n : ℕ} {b : UInt8} (h : b ∈ ofNat n) : isDigit b := by
  obtain ⟨c, hc, rfl⟩ := List.mem_map.mp h
  obtain ⟨hlo, hhi⟩ := toNat_lt_of_mem_toDigits hc
  simp only [isDigit, Bool.and_eq_true, decide_eq_true_eq, UInt8.le_iff_toNat_le,
    toNat_byte_of_mem_toDigits hc]
  exact ⟨hlo, hhi⟩

theorem all_isDigit_ofNat (n : ℕ) : (ofNat n).all isDigit := by
  rw [List.all_eq_true]
  exact fun b hb => isDigit_of_mem_ofNat hb

theorem value_ofNat (n : ℕ) : value (ofNat n) = n := by
  have hfold : value (ofNat n) = Nat.ofDigitChars 10 (Nat.toDigits 10 n) 0 := by
    rw [value, ofNat, List.foldl_map, Nat.ofDigitChars_eq_foldl]
    apply List.foldl_ext
    intro acc c hc
    rw [toNat_byte_of_mem_toDigits hc]
    rfl
  rw [hfold, Nat.ofDigitChars_ten_toDigits]

theorem parse_ofNat {w n : ℕ} (h : n < 2 ^ w) : parse w (ofNat n) = some n := by
  have hdigits : (match ofNat n with
      | 43 :: ds@(_ :: _) => ds
      | ds => ds) = ofNat n := by
    split
    · next ds hds =>
      have := isDigit_of_mem_ofNat (n := n) (b := 43) (by rw [hds]; simp)
      simp [isDigit] at this
    · rfl
  simp only [parse, hdigits, value_ofNat]
  rw [if_pos ⟨ofNat_ne_nil n, all_isDigit_ofNat n, h⟩]

example : ofNat 3021 = [51, 48, 50, 49] := by decide
example : parse 32 [52, 50, 57, 52, 57, 54, 55, 50, 57, 54] = none := by decide

end DecimalBytes
