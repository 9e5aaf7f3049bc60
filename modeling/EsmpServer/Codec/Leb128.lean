import Mathlib
import EsmpServer.Lib.Iterator

/-!
# LEB128 integers

`utils::codec::leb128` writes an unsigned integer seven bits a byte, least
significant group first, with the high bit set on every byte but the last. The
reader takes bytes while the high bit is set, one shift of its type's table per
byte, and fails when the bytes or the table run out.

The main result is the round trip: reading back what was written gives the
value and leaves the bytes after it untouched, for every value that fits the
reader's type.
-/

namespace EsmpServer.Codec

theorem and_two_pow_eq_zero_iff (x s : ℕ) : x &&& 2 ^ s = 0 ↔ x / 2 ^ s % 2 = 0 := by
  have e : x &&& 2 ^ s = if x / 2 ^ s % 2 = 1 then 2 ^ s else 0 := by
    apply Nat.eq_of_testBit_eq
    intro n
    rw [Nat.testBit_and, Nat.testBit_two_pow]
    by_cases h : s = n
    · subst h
      split <;> simp_all [Nat.testBit_eq_decide_div_mod_eq]
    · split <;> simp [h]
  rw [e]
  have := Nat.two_pow_pos s
  split <;> omega

theorem and_0x7f (x : ℕ) : x &&& 0x7f = x % 128 := by
  simpa using Nat.and_two_pow_sub_one_eq_mod x 7

theorem mod_or_0x80 (x : ℕ) : x % 128 ||| 0x80 = x % 128 + 128 := by
  simpa using Nat.or_two_pow_eq_add_of_lt (a := x % 128) (n := 7) (Nat.mod_lt _ (by norm_num))

/-- `to_leb128_bytes`. -/
def toLeb128Bytes (value : ℕ) : List UInt8 :=
  if value < 0x80 then [value.toUInt8]
  else ((value &&& 0x7f) ||| 0x80).toUInt8 :: toLeb128Bytes (value >>> 7)
termination_by value
decreasing_by
  rw [Nat.shiftRight_eq_div_pow]
  omega

theorem toLeb128Bytes_of_lt {value : ℕ} (h : value < 0x80) :
    toLeb128Bytes value = [value.toUInt8] := by
  rw [toLeb128Bytes, if_pos h]

theorem toLeb128Bytes_of_ge {value : ℕ} (h : 0x80 ≤ value) :
    toLeb128Bytes value = (value % 128 + 128).toUInt8 :: toLeb128Bytes (value / 128) := by
  rw [toLeb128Bytes, if_neg (by omega), and_0x7f, mod_or_0x80, Nat.shiftRight_eq_div_pow]

theorem toLeb128Bytes_ne_nil (value : ℕ) : toLeb128Bytes value ≠ [] := by
  by_cases h : value < 0x80
  · simp [toLeb128Bytes_of_lt h]
  · simp [toLeb128Bytes_of_ge (Nat.le_of_not_lt h)]

/-- `from_leb128_it` for an integer type of `w` bits with shift table `shifts`:
the value read and the bytes after it. Shifted bits beyond the type's width are
lost, as with `<<` on the fixed-width type. -/
def fromLeb128It (w : ℕ) : List ℕ → ℕ → List UInt8 → Option (ℕ × List UInt8)
  | [], _, _ => none
  | _ :: _, _, [] => none
  | shift :: shifts, result, byte :: bytes =>
    if byte &&& 0x80 = 0 then some ((result ||| byte.toNat <<< shift) % 2 ^ w, bytes)
    else fromLeb128It w shifts ((result ||| (byte &&& 0x7f).toNat <<< shift) % 2 ^ w) bytes

/-- The shift table of `u64` and `usize`. -/
def u64Shifts : List ℕ := [0, 7, 14, 21, 28, 35, 42, 49, 56, 63]

/-- `next_leb128` at `u64` or `usize`. -/
def nextLeb128 (bytes : List UInt8) : Option (ℕ × List UInt8) :=
  fromLeb128It 64 u64Shifts 0 bytes

/-- The shifts `s, s + 7, …` of a table with `n` entries. -/
def shiftsFrom (s : ℕ) : ℕ → List ℕ
  | 0 => []
  | n + 1 => s :: shiftsFrom (s + 7) n

theorem u64Shifts_eq : u64Shifts = shiftsFrom 0 10 := rfl

theorem byte_and_0x80_eq_zero (x : ℕ) (h : x < 0x80) : x.toUInt8 &&& 0x80 = 0 := by
  apply UInt8.toNat_inj.mp
  have hx : x.toUInt8.toNat = x := by simp; omega
  rw [UInt8.toNat_and, hx]
  simpa using (and_two_pow_eq_zero_iff x 7).mpr (by omega)

theorem byte_continue (x : ℕ) (h : x < 0x80) :
    (x + 128).toUInt8 &&& 0x80 ≠ 0 ∧ ((x + 128).toUInt8 &&& 0x7f).toNat = x := by
  have hx : (x + 128).toUInt8.toNat = x + 128 := by simp; omega
  constructor
  · intro h0
    have := congrArg UInt8.toNat h0
    rw [UInt8.toNat_and, hx] at this
    have := (and_two_pow_eq_zero_iff (x + 128) 7).mp (by simpa using this)
    omega
  · rw [UInt8.toNat_and, hx]
    simp only [UInt8.reduceToNat]
    rw [and_0x7f]
    omega

theorem fromLeb128It_toLeb128Bytes (w : ℕ) (rest : List UInt8) :
    ∀ (n s result value : ℕ), 0 < n → value < 2 ^ (7 * n) → result < 2 ^ s →
      result + value * 2 ^ s < 2 ^ w →
      fromLeb128It w (shiftsFrom s n) result (toLeb128Bytes value ++ rest) =
        some (result + value * 2 ^ s, rest) := by
  intro n
  induction n with
  | zero => intro s result value hn; omega
  | succ n ih =>
    intro s result value _ hv hr hw
    have hdisj : ∀ x, result ||| x <<< s = result + x * 2 ^ s := by
      intro x
      rw [Nat.lor_comm, Nat.shiftLeft_eq, mul_comm x, ← Nat.two_pow_add_eq_or_of_lt hr]
      ring
    by_cases hsmall : value < 0x80
    · rw [toLeb128Bytes_of_lt hsmall, List.singleton_append, shiftsFrom, fromLeb128It,
        if_pos (byte_and_0x80_eq_zero value hsmall)]
      have hv' : value.toUInt8.toNat = value := by simp; omega
      rw [hv', hdisj, Nat.mod_eq_of_lt hw]
    · obtain ⟨hcont, hlow⟩ := byte_continue (value % 128) (Nat.mod_lt _ (by norm_num))
      rw [toLeb128Bytes_of_ge (by omega), List.cons_append, shiftsFrom, fromLeb128It,
        if_neg hcont, hlow, hdisj]
      have hsplit : value = value % 128 + 128 * (value / 128) := (Nat.mod_add_div value 128).symm
      have hpow : 2 ^ (s + 7) = 2 ^ s * 128 := by rw [pow_add]; norm_num
      have hstep : result + value % 128 * 2 ^ s + value / 128 * 2 ^ (s + 7) =
          result + value * 2 ^ s := by
        rw [hpow]
        conv_rhs => rw [hsplit]
        ring
      have hlow_lt : result + value % 128 * 2 ^ s < 2 ^ (s + 7) := by
        rw [hpow]
        have : value % 128 * 2 ^ s ≤ 127 * 2 ^ s :=
          Nat.mul_le_mul_right _ (by have := Nat.mod_lt value (show 128 > 0 by norm_num); omega)
        omega
      have hfit : result + value % 128 * 2 ^ s < 2 ^ w := by
        have : value % 128 ≤ value := Nat.mod_le _ _
        have : value % 128 * 2 ^ s ≤ value * 2 ^ s := Nat.mul_le_mul_right _ this
        omega
      have hn : 0 < n := by
        rcases Nat.eq_zero_or_pos n with rfl | h
        · simp at hv; omega
        · exact h
      have hv' : value / 128 < 2 ^ (7 * n) := by
        rw [Nat.div_lt_iff_lt_mul (by norm_num)]
        calc value < 2 ^ (7 * (n + 1)) := hv
          _ = 2 ^ (7 * n) * 128 := by rw [mul_add, pow_add]; norm_num
      rw [Nat.mod_eq_of_lt hfit, ih (s + 7) _ (value / 128) hn hv' hlow_lt (by omega), hstep]

theorem nextLeb128_toLeb128Bytes {value : ℕ} (h : value < 2 ^ 64) (rest : List UInt8) :
    nextLeb128 (toLeb128Bytes value ++ rest) = some (value, rest) := by
  have := fromLeb128It_toLeb128Bytes 64 rest 10 0 0 value (by norm_num)
    (lt_of_lt_of_le h (by norm_num)) (by norm_num) (by simpa using h)
  simpa [nextLeb128, u64Shifts_eq] using this

/-- The shift table of `u32`. -/
def u32Shifts : List ℕ := [0, 7, 14, 21, 28]

theorem fromLeb128It_u32_toLeb128Bytes {value : ℕ} (h : value < 2 ^ 32) (rest : List UInt8) :
    fromLeb128It 32 u32Shifts 0 (toLeb128Bytes value ++ rest) = some (value, rest) := by
  have := fromLeb128It_toLeb128Bytes 32 rest 5 0 0 value (by norm_num)
    (lt_of_lt_of_le h (by norm_num)) (by norm_num) (by simpa using h)
  simpa [show u32Shifts = shiftsFrom 0 5 from rfl] using this

/-! ## The five unsigned types

`impl_unsigned_leb128!` gives each unsigned type the same writer and readers, with its own
width and shift table. A type's readers read back every value whose bytes its table
covers (`fromLeb128It_toLeb128Bytes_of_lt`): every value of `u16`, `u32`, `u64` and
`usize`, whose tables have a shift for every seven bits of their width, but only the
values below `0x80` of `u8`, whose table has a single shift while its values from `0x80`
up are written in two bytes (`u8_fromLeb128_of_ge`). -/

/-- The types the macro is instantiated at; `usize` is 64 bits wide. -/
inductive UnsignedType where
  | u8
  | u16
  | u32
  | u64
  | usize
  deriving DecidableEq, Repr

namespace UnsignedType

/-- The width of the type. -/
def bits : UnsignedType → ℕ
  | u8 => 8
  | u16 => 16
  | u32 => 32
  | u64 => 64
  | usize => 64

/-- The shift table the macro is given. -/
def shifts : UnsignedType → List ℕ
  | u8 => [0]
  | u16 => [0, 7, 14]
  | u32 => u32Shifts
  | u64 => u64Shifts
  | usize => u64Shifts

/-- `from_leb128_bytes`. -/
def fromLeb128Bytes (T : UnsignedType) (slice : List UInt8) : Option ℕ :=
  (Codec.fromLeb128It T.bits T.shifts 0 slice).map Prod.fst

/-- `from_leb128_bytes_pos`: the value and `pos + 1` of its last byte, the number of
bytes it took. -/
def fromLeb128BytesPos (T : UnsignedType) (slice : List UInt8) : Option (ℕ × ℕ) :=
  (Codec.fromLeb128It T.bits T.shifts 0 slice).map fun r => (r.1, slice.length - r.2.length)

theorem shifts_eq (T : UnsignedType) : T.shifts = shiftsFrom 0 T.shifts.length := by
  cases T <;> rfl

theorem bits_le_of_ne_u8 {T : UnsignedType} (hT : T ≠ u8) : T.bits ≤ 7 * T.shifts.length := by
  cases T
  · exact absurd rfl hT
  all_goals decide

theorem fromLeb128It_toLeb128Bytes_of_lt (T : UnsignedType) {v : ℕ} (hv : v < 2 ^ T.bits)
    (hcov : v < 2 ^ (7 * T.shifts.length)) (s : List UInt8) :
    Codec.fromLeb128It T.bits T.shifts 0 (toLeb128Bytes v ++ s) = some (v, s) := by
  have hlen : 0 < T.shifts.length := by cases T <;> decide
  have h := fromLeb128It_toLeb128Bytes T.bits s T.shifts.length 0 0 v hlen hcov (Nat.two_pow_pos 0)
    (by simpa using hv)
  rw [T.shifts_eq]
  simpa using h

theorem fromLeb128Bytes_toLeb128Bytes (T : UnsignedType) {v : ℕ} (hv : v < 2 ^ T.bits)
    (hcov : v < 2 ^ (7 * T.shifts.length)) (s : List UInt8) :
    T.fromLeb128Bytes (toLeb128Bytes v ++ s) = some v := by
  rw [fromLeb128Bytes, T.fromLeb128It_toLeb128Bytes_of_lt hv hcov s]
  rfl

theorem fromLeb128BytesPos_toLeb128Bytes (T : UnsignedType) {v : ℕ} (hv : v < 2 ^ T.bits)
    (hcov : v < 2 ^ (7 * T.shifts.length)) (s : List UInt8) :
    T.fromLeb128BytesPos (toLeb128Bytes v ++ s) = some (v, (toLeb128Bytes v).length) := by
  rw [fromLeb128BytesPos, T.fromLeb128It_toLeb128Bytes_of_lt hv hcov s, Option.map_some,
    List.length_append, Nat.add_sub_cancel]

end UnsignedType

/-! ## Reading from an iterator

`from_leb128_it` zips the shift table with any iterator of bytes: it pulls a byte only
while a shift is left. Over an iterator that yields the bytes of a list, it reads what
the list version reads and stops just after them. -/

section Iter

variable {τ : Type} (next : τ → Option UInt8 × τ)

/-- `from_leb128_it` over an iterator: the value, and the iterator after it. -/
def fromLeb128Iter (w : ℕ) : List ℕ → ℕ → τ → Option ℕ × τ
  | [], _, t => (none, t)
  | shift :: shifts, result, t =>
    match next t with
    | (none, t') => (none, t')
    | (some byte, t') =>
      if byte &&& 0x80 = 0 then (some ((result ||| byte.toNat <<< shift) % 2 ^ w), t')
      else fromLeb128Iter w shifts ((result ||| (byte &&& 0x7f).toNat <<< shift) % 2 ^ w) t'

/-- `next_leb128` at `u64` or `usize`, over an iterator. -/
def nextLeb128Iter (t : τ) : Option ℕ × τ := fromLeb128Iter next 64 u64Shifts 0 t

theorem fromLeb128It_length_lt {w : ℕ} : ∀ {shifts : List ℕ} {result v : ℕ} {l rest : List UInt8},
    fromLeb128It w shifts result l = some (v, rest) → rest.length < l.length
  | [], _, _, _, _, h => by simp [fromLeb128It] at h
  | _ :: _, _, _, [], _, h => by simp [fromLeb128It] at h
  | _ :: _, _, _, _ :: l, _, h => by
    rw [fromLeb128It] at h
    split_ifs at h
    · obtain ⟨-, rfl⟩ := Prod.mk.inj (Option.some.inj h)
      simp
    · have := fromLeb128It_length_lt h
      simp only [List.length_cons]
      omega

theorem fromLeb128Iter_of_yields {w : ℕ} : ∀ {shifts : List ℕ} {result v : ℕ} {bytes rest : List UInt8}
    {t t' : τ}, Iterator.Yields next t bytes t' →
      fromLeb128It w shifts result (bytes ++ rest) = some (v, rest) →
        fromLeb128Iter next w shifts result t = (some v, t')
  | _, _, _, [], _, _, _, _, h => by
    have := fromLeb128It_length_lt h
    simp at this
  | [], _, _, _ :: _, _, _, _, _, h => by simp [fromLeb128It] at h
  | shift :: shifts, result, v, b :: bytes, rest, t, t', hy, h => by
    obtain ⟨t₁, hstep, hy'⟩ := hy
    rw [List.cons_append, fromLeb128It] at h
    rw [fromLeb128Iter, hstep]
    dsimp only
    split_ifs at h ⊢ with hb
    · obtain ⟨rfl, hrest⟩ := Prod.mk.inj (Option.some.inj h)
      obtain rfl : bytes = [] := by simpa using hrest
      rw [show t₁ = t' from hy']
    · exact fromLeb128Iter_of_yields hy' h

/-- `next_leb128::<u32>` over an iterator. -/
def nextLeb128U32Iter (t : τ) : Option ℕ × τ := fromLeb128Iter next 32 u32Shifts 0 t

theorem nextLeb128Iter_uint64 {t t' : τ} (x : UInt64)
    (hy : Iterator.Yields next t (toLeb128Bytes x.toNat) t') : nextLeb128Iter next t = (some x.toNat, t') :=
  fromLeb128Iter_of_yields next hy (nextLeb128_toLeb128Bytes x.toNat_lt [])

theorem nextLeb128U32Iter_uint32 {t t' : τ} (x : UInt32)
    (hy : Iterator.Yields next t (toLeb128Bytes x.toNat) t') : nextLeb128U32Iter next t = (some x.toNat, t') :=
  fromLeb128Iter_of_yields next hy (fromLeb128It_u32_toLeb128Bytes x.toNat_lt [])

/-- `from_leb128_it` of a type, over an iterator. -/
def UnsignedType.fromLeb128It (T : UnsignedType) (t : τ) : Option ℕ × τ :=
  fromLeb128Iter next T.bits T.shifts 0 t

theorem UnsignedType.fromLeb128It_of_yields (T : UnsignedType) {v : ℕ} (hv : v < 2 ^ T.bits)
    (hcov : v < 2 ^ (7 * T.shifts.length)) {t t' : τ}
    (hy : Iterator.Yields next t (toLeb128Bytes v) t') : T.fromLeb128It next t = (some v, t') :=
  fromLeb128Iter_of_yields next hy (T.fromLeb128It_toLeb128Bytes_of_lt hv hcov [])

end Iter

/-! ## Writing through `Write`

`to_leb128_writer` hands its output to any `Write`, one byte a call. It makes the calls
`to_leb128_bytes`'s bytes would make one by one (`toLeb128Writer_eq`); into a `Vec<u8>`
that appends exactly those bytes (`toLeb128Writer_vecWrite`). -/

section Writer

variable {σ ε : Type} (write : σ → List UInt8 → Except ε (σ × ℕ))

/-- `to_leb128_writer`: one `out.write` of a single byte for each group of seven bits, the
counts it returns summed, its error passed on. -/
def toLeb128Writer (value : ℕ) (out : σ) (bytesWritten : ℕ) : Except ε (σ × ℕ) :=
  if value < 0x80 then
    match write out [value.toUInt8] with
    | .ok (out, n) => .ok (out, bytesWritten + n)
    | .error e => .error e
  else
    match write out [((value &&& 0x7f) ||| 0x80).toUInt8] with
    | .ok (out, n) => toLeb128Writer (value >>> 7) out (bytesWritten + n)
    | .error e => .error e
termination_by value
decreasing_by
  rw [Nat.shiftRight_eq_div_pow]
  omega

/-- `out.write` of each byte of `bytes` in turn, the counts summed, the first error
passed on. -/
def writeBytes : List UInt8 → σ → ℕ → Except ε (σ × ℕ)
  | [], out, bytesWritten => .ok (out, bytesWritten)
  | b :: bytes, out, bytesWritten =>
    match write out [b] with
    | .ok (out, n) => writeBytes bytes out (bytesWritten + n)
    | .error e => .error e

theorem writeBytes_cons (b : UInt8) (bytes : List UInt8) (out : σ) (bytesWritten : ℕ) :
    writeBytes write (b :: bytes) out bytesWritten =
      (write out [b]).bind fun r => writeBytes write bytes r.1 (bytesWritten + r.2) := by
  rw [writeBytes]
  cases write out [b] <;> rfl

theorem toLeb128Writer_eq (value : ℕ) :
    ∀ (out : σ) (bytesWritten : ℕ),
      toLeb128Writer write value out bytesWritten = writeBytes write (toLeb128Bytes value) out bytesWritten := by
  induction value using Nat.strong_induction_on with
  | _ value ih =>
    intro out bytesWritten
    by_cases h : value < 0x80
    · rw [toLeb128Writer, if_pos h, toLeb128Bytes_of_lt h, writeBytes_cons]
      cases write out [value.toUInt8] <;> rfl
    · have hgroup : ((value &&& 0x7f) ||| 0x80).toUInt8 = (value % 128 + 128).toUInt8 := by
        rw [and_0x7f, mod_or_0x80]
      rw [toLeb128Writer, if_neg h, toLeb128Bytes_of_ge (by omega), writeBytes_cons, hgroup,
        Nat.shiftRight_eq_div_pow]
      cases write out [(value % 128 + 128).toUInt8] with
      | error e => rfl
      | ok r => exact ih (value / 2 ^ 7) (by omega) r.1 (bytesWritten + r.2)

/-- `Write for Vec<u8>`: the bytes are appended, all of them. -/
def vecWrite (out buf : List UInt8) : Except ε (List UInt8 × ℕ) := .ok (out ++ buf, buf.length)

theorem writeBytes_vecWrite : ∀ (bytes out : List UInt8) (bytesWritten : ℕ),
    writeBytes (vecWrite (ε := ε)) bytes out bytesWritten = .ok (out ++ bytes, bytesWritten + bytes.length)
  | [], out, bytesWritten => by simp [writeBytes]
  | b :: bytes, out, bytesWritten => by
    rw [writeBytes_cons, vecWrite, Except.bind, writeBytes_vecWrite bytes, List.append_assoc,
      List.singleton_append]
    congr 2
    simp only [List.length_cons, List.length_nil]
    omega

theorem toLeb128Writer_vecWrite (value : ℕ) (out : List UInt8) :
    toLeb128Writer (vecWrite (ε := ε)) value out 0 = .ok (out ++ toLeb128Bytes value, (toLeb128Bytes value).length) := by
  rw [toLeb128Writer_eq, writeBytes_vecWrite, Nat.zero_add]

end Writer

/-! ## Each type's round trip -/

theorem leb128_roundTrip_of_ne_u8 (T : UnsignedType) (hT : T ≠ .u8) (v : ℕ) (hv : v < 2 ^ T.bits)
    (s : List UInt8) :
    T.fromLeb128Bytes (toLeb128Bytes v ++ s) = some v ∧
      T.fromLeb128BytesPos (toLeb128Bytes v ++ s) = some (v, (toLeb128Bytes v).length) ∧
      (∀ {τ : Type} (next : τ → Option UInt8 × τ) (t t' : τ),
        Iterator.Yields next t (toLeb128Bytes v) t' → T.fromLeb128It next t = (some v, t')) ∧
      ∀ {σ ε : Type} (write : σ → List UInt8 → Except ε (σ × ℕ)) (out : σ),
        toLeb128Writer write v out 0 = writeBytes write (toLeb128Bytes v) out 0 := by
  have hcov : v < 2 ^ (7 * T.shifts.length) :=
    lt_of_lt_of_le hv (Nat.pow_le_pow_right (by norm_num) (UnsignedType.bits_le_of_ne_u8 hT))
  exact ⟨T.fromLeb128Bytes_toLeb128Bytes hv hcov s, T.fromLeb128BytesPos_toLeb128Bytes hv hcov s,
    fun next _ _ hy => T.fromLeb128It_of_yields next hv hcov hy,
    fun write out => toLeb128Writer_eq write v out 0⟩

/-- `u8`'s table has a single shift: each value from `0x80` up is written in two bytes, and
all three readers of `u8` give up after the first of them. -/
theorem u8_fromLeb128_of_ge (v : ℕ) (hv : 0x80 ≤ v) (hv' : v < 2 ^ 8) (s : List UInt8) :
    toLeb128Bytes v = [(v % 128 + 128).toUInt8, (v / 128).toUInt8] ∧
      UnsignedType.u8.fromLeb128Bytes (toLeb128Bytes v ++ s) = none ∧
      UnsignedType.u8.fromLeb128BytesPos (toLeb128Bytes v ++ s) = none ∧
      ∀ {τ : Type} (next : τ → Option UInt8 × τ) (t t' : τ),
        Iterator.Yields next t (toLeb128Bytes v) t' → (UnsignedType.u8.fromLeb128It next t).1 = none := by
  have hbytes : toLeb128Bytes v = [(v % 128 + 128).toUInt8, (v / 128).toUInt8] := by
    rw [toLeb128Bytes_of_ge hv, toLeb128Bytes_of_lt (by omega)]
  have hcont := (byte_continue (v % 128) (Nat.mod_lt _ (by norm_num))).1
  have hlist : fromLeb128It 8 [0] 0 (toLeb128Bytes v ++ s) = none := by
    rw [hbytes, List.cons_append, fromLeb128It, if_neg hcont]
    rfl
  refine ⟨hbytes, ?_, ?_, ?_⟩
  · show (fromLeb128It 8 [0] 0 (toLeb128Bytes v ++ s)).map Prod.fst = none
    rw [hlist]
    rfl
  · show (fromLeb128It 8 [0] 0 (toLeb128Bytes v ++ s)).map _ = none
    rw [hlist]
    rfl
  · intro τ next t t' hy
    rw [hbytes] at hy
    obtain ⟨t₁, hstep, -⟩ := hy
    show (fromLeb128Iter next 8 [0] 0 t).1 = none
    rw [fromLeb128Iter, hstep]
    dsimp only
    rw [if_neg hcont]
    rfl

theorem u8_fromLeb128_128 : (0x80 : ℕ) ≤ 128 ∧ 128 < 2 ^ 8 ∧ toLeb128Bytes 128 = [0x80, 0x01] ∧
    UnsignedType.u8.fromLeb128Bytes (toLeb128Bytes 128) = none := by
  obtain ⟨hbytes, hnone, -, -⟩ := u8_fromLeb128_of_ge 128 (by norm_num) (by norm_num) []
  refine ⟨by norm_num, by norm_num, by rw [hbytes]; rfl, ?_⟩
  simpa using hnone

end EsmpServer.Codec
