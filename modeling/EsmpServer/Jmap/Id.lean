import EsmpServer.Jmap.JsonString
import EsmpServer.Codec.Base32

/-!
# JMAP ids

`Id` (jmap-proto types/id.rs) is a `u64` written in the custom Base32 alphabet, most
significant digit first. `as_string` writes the top four bits as a digit of their own unless
they are zero, tags the word with a stop bit just below the bits left, drops leading zero
digits five bits at a time, and then writes five bits a digit until only the stop bit is
left. `from_bytes` and the JSON parser read the digits back with `id = (id << 5) | i`.

The stop bit carries the loop: with `k` digits left to write, the word is those digits `D`
followed by the bits `0001` and zeros, `D * 2^(64-5k) + 2^(60-5k)`. A turn writes the top
digit and leaves the same shape with one digit less, so the loop writes the `k` digits of
`D` and stops (`asStringLoop_digits`).
-/

namespace EsmpServer.Jmap

open Codec
open DecimalBytes (ascii)

/-- `Id`. -/
structure Id where
  id : UInt64
  deriving DecidableEq, Repr

/-- `Id::new`. -/
def Id.new (id : UInt64) : Id := ⟨id⟩

/-! ## Reading an id -/

/-- The step of `from_bytes` and of the parser: `id = (id << 5) | i` for a character of the
alphabet, and a failure for any other. -/
def idStep (id : UInt64) (ch : UInt8) : Option UInt64 :=
  if inverseByte ch ≠ 255 then some ((id <<< 5) ||| (inverseByte ch).toUInt64) else none

/-- `Id::from_bytes`. -/
def Id.fromBytes (bytes : List UInt8) : Option Id := (bytes.foldlM idStep 0).map Id.new

/-- The loop of `JsonObjectParser for Id`: bytes are read with `next_unescaped` up to the
closing quote. -/
def parseIdLoop (id : UInt64) (p : Parser) : Except JsonError (Id × Parser) :=
  match hnext : p.nextUnescaped with
  | (.ok (some ch), p') =>
    have : p'.rest.length < p.rest.length := Parser.nextUnescaped_rest_lt hnext
    match idStep id ch with
    | some id' => parseIdLoop id' p'
    | none => .error p'.errorValue.1
  | (.ok none, p') => .ok (⟨id⟩, p')
  | (.error e, _) => .error e
termination_by p.rest.length

instance : JsonObjectParser Id := ⟨parseIdLoop 0⟩

/-! ## Writing an id -/

/-- `STOP_BIT`: `1 << QUAD_SHIFT`. -/
def stopBit : UInt64 := (1 : UInt64) <<< 60

/-- `u64::leading_zeros`. -/
def leadingZeros (n : UInt64) : ℕ := 64 - n.toNat.size

/-- The `while n != STOP_BIT` loop of `as_string`, given `fuel` turns. -/
def asStringLoop (fuel : ℕ) (n : UInt64) : Option (List UInt8) :=
  if n = stopBit then some []
  else
    match fuel with
    | 0 => none
    | fuel + 1 => (asStringLoop fuel (n <<< 5)).map (alphabetChar (n >>> 59).toUInt8 :: ·)

theorem asStringLoop_stop (fuel : ℕ) : asStringLoop fuel stopBit = some [] := by
  rw [asStringLoop.eq_def, if_pos rfl]

theorem asStringLoop_succ {fuel : ℕ} {n : UInt64} (h : n ≠ stopBit) :
    asStringLoop (fuel + 1) n = (asStringLoop fuel (n <<< 5)).map (alphabetChar (n >>> 59).toUInt8 :: ·) := by
  rw [asStringLoop, if_neg h]

/-- `Id::as_string`. A word has at most thirteen groups of five bits, so the loop is given
thirteen turns. -/
def Id.asString (x : Id) : Option (List UInt8) :=
  let n := x.id
  if n = 0 then some (ascii "a")
  else
    let m := (n <<< 4) ||| 1
    if n >>> 60 = 0 then asStringLoop 13 (m <<< (leadingZeros m / 5 * 5).toUInt64)
    else (asStringLoop 13 m).map (alphabetChar (n >>> 60).toUInt8 :: ·)

example : (Id.new 1000).asString = some (ascii "3i") := by decide
example : Id.fromBytes (ascii "3i") = some (Id.new 1000) := by decide

/-! ## The digits of a word -/

/-- The `k` base-32 digits of `D`, most significant first. -/
def digits32 : ℕ → ℕ → List ℕ
  | 0, _ => []
  | k + 1, D => D / 32 ^ k :: digits32 k (D % 32 ^ k)

/-- The character of a digit. -/
def digitChar (d : ℕ) : UInt8 := alphabetChar (UInt8.ofNat d)

theorem lt_32_of_mem_digits32 : ∀ {k D d : ℕ}, D < 32 ^ k → d ∈ digits32 k D → d < 32
  | 0, _, _, _, h => by simp [digits32] at h
  | k + 1, D, d, hD, h => by
    rcases List.mem_cons.mp h with rfl | h
    · rw [Nat.div_lt_iff_lt_mul (by positivity)]
      rwa [pow_succ'] at hD
    · exact lt_32_of_mem_digits32 (Nat.mod_lt _ (by positivity)) h

theorem ofNat_lt_32 {d : ℕ} (hd : d < 32) : UInt8.ofNat d < 32 := by
  rw [UInt8.lt_iff_toNat_lt, UInt8.toNat_ofNat_of_lt' (lt_of_lt_of_le hd (by decide))]
  exact hd

theorem idStep_digitChar {acc : UInt64} {d : ℕ} (hd : d < 32) (h : acc.toNat * 32 + d < 2 ^ 64) :
    idStep acc (digitChar d) = some (UInt64.ofNat (acc.toNat * 32 + d)) := by
  have hinv := inverseByte_alphabetChar _ (ofNat_lt_32 hd)
  rw [idStep, digitChar, hinv, if_pos (ne_255_of_lt_32 (ofNat_lt_32 hd))]
  congr 1
  apply UInt64.toNat_inj.mp
  have hor : acc.toNat * 32 ||| d = acc.toNat * 32 + d := by
    rw [mul_comm, show (32 : ℕ) = 2 ^ 5 by norm_num]
    exact (Nat.two_pow_add_eq_or_of_lt (by omega) _).symm
  have h64 : acc.toNat * 32 + d < 18446744073709551616 := h
  simp [UInt64.toNat_shiftLeft, UInt64.toNat_or, Nat.shiftLeft_eq,
    UInt8.toNat_ofNat_of_lt' (lt_of_lt_of_le hd (by decide)),
    Nat.mod_eq_of_lt (show acc.toNat * 32 < 18446744073709551616 by omega), hor, Nat.mod_eq_of_lt h64]

theorem foldlM_idStep_digits : ∀ (k D : ℕ) (acc : UInt64), D < 32 ^ k →
    acc.toNat * 32 ^ k + D < 2 ^ 64 →
      ((digits32 k D).map digitChar).foldlM idStep acc = some (UInt64.ofNat (acc.toNat * 32 ^ k + D))
  | 0, D, acc, hD, _ => by
    obtain rfl : D = 0 := by simpa using hD
    simp [digits32]
  | k + 1, D, acc, hD, h => by
    have hsplit : 32 ^ k * (D / 32 ^ k) + D % 32 ^ k = D := Nat.div_add_mod D (32 ^ k)
    have hvalue : (acc.toNat * 32 + D / 32 ^ k) * 32 ^ k + D % 32 ^ k = acc.toNat * 32 ^ (k + 1) + D := by
      rw [pow_succ]
      conv_rhs => rw [← hsplit]
      ring
    have hstep : acc.toNat * 32 + D / 32 ^ k < 2 ^ 64 := by
      have : acc.toNat * 32 + D / 32 ^ k ≤ (acc.toNat * 32 + D / 32 ^ k) * 32 ^ k :=
        Nat.le_mul_of_pos_right _ (by positivity)
      omega
    have hacc : (UInt64.ofNat (acc.toNat * 32 + D / 32 ^ k)).toNat = acc.toNat * 32 + D / 32 ^ k := by
      exact UInt64.toNat_ofNat_of_lt' hstep
    rw [digits32, List.map_cons, List.foldlM_cons,
      idStep_digitChar (lt_32_of_mem_digits32 hD List.mem_cons_self) hstep]
    simp only [Option.bind_eq_bind, Option.bind_some]
    rw [foldlM_idStep_digits k _ _ (Nat.mod_lt _ (by positivity)) (by rw [hacc, hvalue]; exact h),
      hacc, hvalue]

/-! ## The loop of `as_string`

With `k` digits `D` left, the word is `D * 2^(64-5k) + 2^(60-5k)`. Writing `a` for the stop
bit's place `2^(60-5k)` one turn before the last and `T` for `32^k`, the word is
`D * (16 * a) + a`, and the lemmas below are the arithmetic of one turn. -/

section StopWord

variable {a T D : ℕ}

theorem stopWord_low (ha : 0 < a) (hT : 0 < T) : D % T * (16 * a) + a < T * (16 * a) := by
  have : D % T + 1 ≤ T := Nat.mod_lt D hT
  nlinarith

theorem stopWord_split (T D a : ℕ) :
    D * (16 * a) + a = D % T * (16 * a) + a + T * (16 * a) * (D / T) := by
  conv_lhs => rw [← Nat.div_add_mod D T]
  ring

theorem stopWord_div (ha : 0 < a) (hT : 0 < T) : (D * (16 * a) + a) / (T * (16 * a)) = D / T := by
  rw [stopWord_split T D a, Nat.add_mul_div_left _ _ (by positivity),
    Nat.div_eq_of_lt (stopWord_low ha hT), zero_add]

theorem stopWord_shift (ha : 0 < a) (hT : 0 < T) :
    (D * (16 * a) + a) * 32 % (T * (16 * a) * 32) = D % T * (16 * a * 32) + a * 32 := by
  have hlow : (D % T * (16 * a) + a) * 32 < T * (16 * a) * 32 :=
    Nat.mul_lt_mul_of_pos_right (stopWord_low ha hT) (by norm_num)
  calc (D * (16 * a) + a) * 32 % (T * (16 * a) * 32)
      = ((D % T * (16 * a) + a) * 32 + T * (16 * a) * 32 * (D / T)) % (T * (16 * a) * 32) := by
        rw [stopWord_split T D a]
        ring_nf
    _ = (D % T * (16 * a) + a) * 32 := by rw [Nat.add_mul_mod_self_left, Nat.mod_eq_of_lt hlow]
    _ = D % T * (16 * a * 32) + a * 32 := by ring

theorem stopWord_ne (ha : 0 < a) (c : ℕ) : D * (16 * a) + a ≠ 16 * a * c := by
  intro h
  have hmod := congrArg (· % (16 * a)) h
  simp only [Nat.mul_mod_right] at hmod
  rw [add_comm, Nat.add_mul_mod_self_right, Nat.mod_eq_of_lt (by omega)] at hmod
  omega

end StopWord

theorem stopWord_pows {k : ℕ} (hk : k ≤ 11) :
    2 ^ (64 - 5 * (k + 1)) = 16 * 2 ^ (55 - 5 * k) ∧ 2 ^ (60 - 5 * (k + 1)) = 2 ^ (55 - 5 * k) ∧
      32 ^ k * (16 * 2 ^ (55 - 5 * k)) = 2 ^ 59 ∧ 32 ^ k * (16 * 2 ^ (55 - 5 * k)) * 32 = 2 ^ 64 ∧
      16 * 2 ^ (55 - 5 * k) * 32 = 2 ^ (64 - 5 * k) ∧ 2 ^ (55 - 5 * k) * 32 = 2 ^ (60 - 5 * k) ∧
      2 ^ 60 = 16 * 2 ^ (55 - 5 * k) * 2 ^ (1 + 5 * k) := by
  have h32 : (32 : ℕ) ^ k = 2 ^ (5 * k) := by rw [pow_mul]; norm_num
  have h59 : 32 ^ k * (16 * 2 ^ (55 - 5 * k)) = 2 ^ 59 := by
    rw [h32, show (16 : ℕ) = 2 ^ 4 by norm_num, ← pow_add, ← pow_add]
    congr 1
    omega
  refine ⟨?_, by rw [show 60 - 5 * (k + 1) = 55 - 5 * k by omega], h59, by rw [h59]; norm_num, ?_, ?_, ?_⟩
  all_goals
    (try rw [show (16 : ℕ) = 2 ^ 4 by norm_num])
    (try rw [show (32 : ℕ) = 2 ^ 5 by norm_num])
    repeat rw [← pow_add]
    congr 1
    omega

theorem stopBit_toNat : stopBit.toNat = 2 ^ 60 := rfl

theorem asStringLoop_digits : ∀ (k D : ℕ) (n : UInt64) (fuel : ℕ), k ≤ 12 → k ≤ fuel →
    D < 32 ^ k → n.toNat = D * 2 ^ (64 - 5 * k) + 2 ^ (60 - 5 * k) →
      asStringLoop fuel n = some ((digits32 k D).map digitChar)
  | 0, D, n, fuel, _, _, hD, hn => by
    obtain rfl : D = 0 := by simpa using hD
    have hstop : n = stopBit := UInt64.toNat_inj.mp (by simpa [stopBit_toNat] using hn)
    rw [hstop, asStringLoop_stop]
    rfl
  | k + 1, D, n, fuel, hk, hfuel, hD, hn => by
    obtain ⟨f, rfl⟩ : ∃ f, fuel = f + 1 := ⟨fuel - 1, by omega⟩
    obtain ⟨h64, h60, h59, hword, h64', h60', hstop⟩ := stopWord_pows (show k ≤ 11 by omega)
    have ha : 0 < 2 ^ (55 - 5 * k) := by positivity
    have hT : 0 < 32 ^ k := by positivity
    rw [h64, h60] at hn
    have hne : n ≠ stopBit := by
      intro h
      rw [h, stopBit_toNat, hstop] at hn
      exact stopWord_ne ha _ hn.symm
    have htop : (n >>> 59).toUInt8 = UInt8.ofNat (D / 32 ^ k) := by
      have hdiv : (n >>> 59).toNat = D / 32 ^ k := by
        rw [UInt64.toNat_shiftRight, Nat.shiftRight_eq_div_pow, hn, show (59 : UInt64).toNat % 64 = 59 from rfl,
          ← h59, stopWord_div ha hT]
      have hlt : D / 32 ^ k < 256 := by
        have := @lt_32_of_mem_digits32 (k + 1) D (D / 32 ^ k) hD (by simp [digits32])
        omega
      apply UInt8.toNat_inj.mp
      simp [hdiv, Nat.mod_eq_of_lt hlt, UInt8.toNat_ofNat_of_lt' hlt]
    have hshift : (n <<< 5).toNat = D % 32 ^ k * 2 ^ (64 - 5 * k) + 2 ^ (60 - 5 * k) := by
      rw [UInt64.toNat_shiftLeft, Nat.shiftLeft_eq, hn, show (5 : UInt64).toNat % 64 = 5 from rfl,
        ← hword, ← h64', ← h60']
      exact stopWord_shift ha hT
    rw [asStringLoop_succ hne, asStringLoop_digits k (D % 32 ^ k) (n <<< 5) f (by omega) (by omega)
      (Nat.mod_lt _ hT) hshift, htop]
    rfl

/-! ## What `as_string` writes -/

theorem tagged_toNat (n : UInt64) : ((n <<< 4) ||| 1).toNat = n.toNat % 2 ^ 60 * 16 + 1 := by
  have hshift : (n <<< 4).toNat = n.toNat % 2 ^ 60 * 2 ^ 4 := by
    rw [UInt64.toNat_shiftLeft, Nat.shiftLeft_eq, show (4 : UInt64).toNat % 64 = 4 from rfl,
      show (2 : ℕ) ^ 64 = 2 ^ 60 * 2 ^ 4 by norm_num, Nat.mul_mod_mul_right]
  rw [UInt64.toNat_or, hshift, show (1 : UInt64).toNat = 1 from rfl, mul_comm,
    ← Nat.two_pow_add_eq_or_of_lt (by norm_num)]
  ring

theorem toUInt8_shiftRight_60 (n : UInt64) : (n >>> 60).toUInt8 = UInt8.ofNat (n.toNat / 2 ^ 60) := by
  have hdiv : (n >>> 60).toNat = n.toNat / 2 ^ 60 := by
    rw [UInt64.toNat_shiftRight, Nat.shiftRight_eq_div_pow, show (60 : UInt64).toNat % 64 = 60 from rfl]
  apply UInt8.toNat_inj.mp
  simp [hdiv]

theorem asString_high {n : UInt64} (hn : n ≠ 0) (htop : n >>> 60 ≠ 0) :
    (Id.new n).asString = some ((n.toNat / 2 ^ 60 :: digits32 12 (n.toNat % 2 ^ 60)).map digitChar) := by
  have hloop := asStringLoop_digits 12 (n.toNat % 2 ^ 60) ((n <<< 4) ||| 1) 13 le_rfl (by norm_num)
    (lt_of_lt_of_eq (Nat.mod_lt _ (by positivity)) (by norm_num)) (by rw [tagged_toNat]; norm_num)
  simp only [Id.asString, Id.new, if_neg hn, if_neg htop, hloop, Option.map_some, List.map_cons,
    toUInt8_shiftRight_60, digitChar]

theorem asString_low {n : UInt64} (hn : n ≠ 0) (htop : n >>> 60 = 0) :
    ∃ k, 1 ≤ k ∧ k ≤ 12 ∧ 32 ^ (k - 1) ≤ n.toNat ∧ n.toNat < 32 ^ k ∧
      (Id.new n).asString = some ((digits32 k n.toNat).map digitChar) := by
  set N := n.toNat with hNdef
  have hN : N < 2 ^ 60 := by
    have h := congrArg UInt64.toNat htop
    rw [UInt64.toNat_shiftRight, Nat.shiftRight_eq_div_pow, show (60 : UInt64).toNat % 64 = 60 from rfl] at h
    exact (Nat.div_eq_zero_iff_lt (by positivity)).mp h
  have hN0 : 0 < N := by
    rcases Nat.eq_zero_or_pos N with h | h
    · exact absurd (UInt64.toNat_inj.mp (h.trans rfl)) hn
    · exact h
  have hm : ((n <<< 4) ||| 1).toNat = N * 16 + 1 := by rw [tagged_toNat, Nat.mod_eq_of_lt hN]
  -- `z` bits are significant; `j` zero digits are dropped and `12 - j` are written
  set z := (N * 16 + 1).size with hz
  have hz5 : 5 ≤ z := Nat.lt_size.mpr (by omega)
  have hz64 : z ≤ 64 := Nat.size_le.mpr (by omega)
  have hlz : leadingZeros ((n <<< 4) ||| 1) = 64 - z := by rw [leadingZeros, hm]
  set j := (64 - z) / 5 with hj
  have hj5 : 5 * j ≤ 64 - z ∧ 64 - z < 5 * j + 5 := by omega
  have hj11 : j ≤ 11 := by omega
  have hlt : N * 16 + 1 < 2 ^ (64 - 5 * j) :=
    lt_of_lt_of_le (Nat.lt_size_self _) (Nat.pow_le_pow_right (by norm_num) (by omega))
  have hge : 2 ^ (59 - 5 * j) ≤ N * 16 + 1 := Nat.lt_size.mp (by omega)
  have h64 : 2 ^ (64 - 5 * j) = 16 * 2 ^ (60 - 5 * j) := by
    rw [show 64 - 5 * j = 4 + (60 - 5 * j) by omega, pow_add]; norm_num
  have h59 : 2 ^ (59 - 5 * j) = 16 * 2 ^ (55 - 5 * j) := by
    rw [show 59 - 5 * j = 4 + (55 - 5 * j) by omega, pow_add]; norm_num
  have h32 : ∀ i, (32 : ℕ) ^ i = 2 ^ (5 * i) := fun i => by rw [pow_mul]; norm_num
  -- the word after the shift
  have hshift : ((n <<< 4 ||| 1) <<< (leadingZeros ((n <<< 4) ||| 1) / 5 * 5).toUInt64).toNat =
      N * 2 ^ (64 - 5 * (12 - j)) + 2 ^ (60 - 5 * (12 - j)) := by
    have hamount : ((64 - z) / 5 * 5).toUInt64.toNat % 64 = 5 * j := by
      rw [Nat.toUInt64_eq, UInt64.toNat_ofNat_of_lt' (lt_of_le_of_lt (show _ ≤ 60 by omega) (by decide))]
      omega
    have hfit : (N * 16 + 1) * 2 ^ (5 * j) < 2 ^ 64 := by
      calc (N * 16 + 1) * 2 ^ (5 * j) < 2 ^ (64 - 5 * j) * 2 ^ (5 * j) :=
            Nat.mul_lt_mul_of_pos_right hlt (by positivity)
        _ = 2 ^ 64 := by rw [← pow_add]; congr 1; omega
    rw [UInt64.toNat_shiftLeft, hlz, hamount, Nat.shiftLeft_eq, hm, Nat.mod_eq_of_lt hfit,
      show 64 - 5 * (12 - j) = 4 + 5 * j by omega, show 60 - 5 * (12 - j) = 5 * j by omega, pow_add]
    ring
  refine ⟨12 - j, by omega, by omega, ?_, ?_, ?_⟩
  · rw [h32, show 5 * (12 - j - 1) = 55 - 5 * j by omega]
    omega
  · rw [h32, show 5 * (12 - j) = 60 - 5 * j by omega]
    omega
  · have hloop := asStringLoop_digits (12 - j) N _ 13 (by omega) (by omega)
      (by rw [h32, show 5 * (12 - j) = 60 - 5 * j by omega]; omega) hshift
    simp only [Id.asString, Id.new, if_neg hn, htop, if_true, hloop]

theorem parseIdLoop_text : ∀ (s : List UInt8) (id r : UInt64) (p : Parser) (rest : List UInt8),
    (∀ c ∈ s, c ≠ 34 ∧ c ≠ 92) → s.foldlM idStep id = some r → p.rest = s ++ 34 :: rest →
      parseIdLoop id p = .ok (⟨r⟩, { p with rest := rest, pos := p.pos + s.length + 1, isEof := true })
  | [], id, r, p, rest, _, hfold, hrest => by
    obtain rfl : id = r := by simpa using hfold
    have hnext := Parser.nextUnescaped_quote hrest
    rw [parseIdLoop]
    split
    next heq => rw [hnext] at heq; simp at heq
    next heq => rw [hnext] at heq; obtain ⟨-, rfl⟩ := Prod.mk.inj heq; simp
    next heq => rw [hnext] at heq; simp at heq
  | c :: s, id, r, p, rest, hs, hfold, hrest => by
    obtain ⟨id', hstep, hfold'⟩ : ∃ id', idStep id c = some id' ∧ s.foldlM idStep id' = some r := by
      simpa [List.foldlM_cons, Option.bind_eq_some_iff] using hfold
    obtain ⟨h34, h92⟩ := hs c List.mem_cons_self
    have hnext := Parser.nextUnescaped_byte h34 h92 (show p.rest = c :: (s ++ 34 :: rest) from hrest)
    have ih := parseIdLoop_text s id' r { p with rest := s ++ 34 :: rest, pos := p.pos + 1 } rest
      (fun c hc => hs c (List.mem_cons_of_mem _ hc)) hfold' rfl
    rw [parseIdLoop]
    split
    next heq =>
      rw [hnext] at heq
      obtain ⟨⟨⟩, rfl⟩ := Prod.mk.inj heq
      rw [hstep]
      simp only [ih, List.length_cons]
      congr 3
      omega
    next heq => rw [hnext] at heq; simp at heq
    next heq => rw [hnext] at heq; simp at heq

theorem asString_spec (n : UInt64) :
    ∃ ds, (Id.new n).asString = some (ds.map digitChar) ∧ (∀ d ∈ ds, d < 32) ∧
      ((n = 0 ∧ ds = [0]) ∨ ds.head? ≠ some 0) ∧ (ds.map digitChar).foldlM idStep 0 = some n := by
  by_cases hn : n = 0
  · subst hn
    exact ⟨[0], rfl, by simp, .inl ⟨rfl, rfl⟩, by decide⟩
  have hN : n.toNat < 2 ^ 64 := n.toNat_lt
  by_cases htop : n >>> 60 = 0
  · -- leading zero digits dropped
    obtain ⟨k, hk1, -, hlow, hhigh, has⟩ := asString_low hn htop
    obtain ⟨k', rfl⟩ : ∃ k', k = k' + 1 := ⟨k - 1, by omega⟩
    refine ⟨digits32 (k' + 1) n.toNat, has, fun d hd => lt_32_of_mem_digits32 hhigh hd, .inr ?_, ?_⟩
    · simp only [digits32, List.head?_cons, ne_eq, Option.some.injEq, Nat.div_eq_zero_iff_lt (by positivity : 0 < 32 ^ k')]
      simpa using hlow
    · have := foldlM_idStep_digits (k' + 1) n.toNat 0 hhigh (by simpa using hN)
      simpa using this
  · -- the top four bits are a digit of their own
    have hlt : n.toNat / 2 ^ 60 < 16 := by
      rw [Nat.div_lt_iff_lt_mul (by positivity)]
      exact lt_of_lt_of_eq hN (by norm_num)
    have htop' : n.toNat / 2 ^ 60 ≠ 0 := by
      intro h
      apply htop
      apply UInt64.toNat_inj.mp
      rw [UInt64.toNat_shiftRight, Nat.shiftRight_eq_div_pow]
      exact h
    have hL : n.toNat % 2 ^ 60 < 32 ^ 12 := lt_of_lt_of_eq (Nat.mod_lt _ (by positivity)) (by norm_num)
    have hsize : UInt64.size = 18446744073709551616 := rfl
    refine ⟨_, asString_high hn htop, ?_, .inr (by simpa using htop'), ?_⟩
    · intro d hd
      rcases List.mem_cons.mp hd with rfl | hd
      · omega
      · exact lt_32_of_mem_digits32 hL hd
    · have hvalue : n.toNat / 2 ^ 60 * 32 ^ 12 + n.toNat % 2 ^ 60 = n.toNat := by
        rw [show (32 : ℕ) ^ 12 = 2 ^ 60 by norm_num, mul_comm]
        exact Nat.div_add_mod _ _
      have hfirst := @idStep_digitChar 0 (n.toNat / 2 ^ 60) (by omega) (by simp; omega)
      have hrest := foldlM_idStep_digits 12 (n.toNat % 2 ^ 60)
        (UInt64.ofNat (n.toNat / 2 ^ 60)) hL (by rw [UInt64.toNat_ofNat_of_lt' (by omega), hvalue]; exact hN)
      rw [List.map_cons, List.foldlM_cons]
      simp only [UInt64.toNat_zero, zero_mul, zero_add] at hfirst
      rw [hfirst]
      simp only [Option.bind_eq_bind, Option.bind_some]
      rw [hrest, UInt64.toNat_ofNat_of_lt' (by omega), hvalue, UInt64.ofNat_toNat]

theorem Parser.nextToken_id_text (readFloat : List UInt8 → Option Float) {p : Parser}
    {s rest : List UInt8} {n : UInt64} (hnext : p.nextCh = none) (hrest : p.rest = 34 :: (s ++ 34 :: rest))
    (hs : ∀ c ∈ s, c ≠ 34 ∧ c ≠ 92) (hfold : s.foldlM idStep 0 = some n) :
    p.nextToken (T := Id) readFloat = .ok (.string ⟨n⟩, { p with
      rest := rest
      pos := p.pos + s.length + 2
      posMarker := p.pos + 1
      isEof := true }) := by
  rw [Parser.nextToken_quote readFloat hnext hrest]
  refine Parser.stringToken_of_parse ?_ rfl
  dsimp only
  rw [show JsonObjectParser.parse (T := Id) = parseIdLoop 0 from rfl, parseIdLoop_text s 0 n _ rest hs hfold rfl,
    show p.pos + 1 + s.length + 1 = p.pos + s.length + 2 by omega]

theorem digitChar_ne_quote {ds : List ℕ} (hds : ∀ d ∈ ds, d < 32) :
    ∀ c ∈ ds.map digitChar, c ≠ 34 ∧ c ≠ 92 := by
  simp only [List.mem_map, forall_exists_index, and_imp, forall_apply_eq_imp_iff₂]
  exact fun d hd => alphabetChar_ne_quote _ (ofNat_lt_32 (hds d hd))

/-- Every id is written with characters of the alphabet and no leading `a` but for zero's
own `a`; `from_bytes` and `next_token::<Id>` on the quoted text read it back, so no two ids
are written alike. -/
theorem asString_roundTrip (n : UInt64) :
    ∃ s, (Id.new n).asString = some s ∧ Id.fromBytes s = some (Id.new n) ∧
      (∀ (readFloat : List UInt8 → Option Float) (rest : List UInt8), ∃ p',
        (Parser.new (34 :: s ++ 34 :: rest)).nextToken (T := Id) readFloat = .ok (.string (Id.new n), p') ∧
          p'.rest = rest) ∧
      (∀ c ∈ s, c ∈ base32Alphabet) ∧ ((n = 0 ∧ s = ascii "a") ∨ s.head? ≠ some 97) ∧
      ∀ m : UInt64, (Id.new m).asString = some s → m = n := by
  obtain ⟨ds, has, hlt, hlead, hfold⟩ := asString_spec n
  refine ⟨_, has, by simp [Id.fromBytes, hfold, Id.new], ?_, ?_, ?_, ?_⟩
  · intro readFloat rest
    exact ⟨_, Parser.nextToken_id_text readFloat rfl rfl (digitChar_ne_quote hlt) hfold, rfl⟩
  · simp only [List.mem_map, forall_exists_index, and_imp, forall_apply_eq_imp_iff₂]
    exact fun d hd => alphabetChar_mem _ (ofNat_lt_32 (hlt d hd))
  · rcases hlead with ⟨rfl, rfl⟩ | hhead
    · exact .inl ⟨rfl, rfl⟩
    · right
      cases ds with
      | nil => simp
      | cons d ds =>
        have hd := ofNat_lt_32 (hlt d List.mem_cons_self)
        simp only [List.map_cons, List.head?_cons, ne_eq, Option.some.injEq, digitChar,
          alphabetChar_eq_a _ hd] at hhead ⊢
        intro h0
        apply hhead
        have := congrArg UInt8.toNat h0
        rwa [UInt8.toNat_ofNat_of_lt' (lt_of_lt_of_le (hlt d List.mem_cons_self) (by decide))] at this
  · intro m hm
    obtain ⟨ds', has', -, -, hfold'⟩ := asString_spec m
    rw [has'] at hm
    rw [Option.some.inj hm, hfold] at hfold'
    exact (Option.some.inj hfold').symm

end EsmpServer.Jmap
