import Mathlib

/-!
# Modified UTF-7 mailbox names

`utf7_encode` and `utf7_decode` (imap-proto/src/utf7.rs) convert a mailbox name to and from
the modified UTF-7 of IMAP4rev1: printable ASCII stands for itself, `&` is written `&-`, and
any other run of characters is written between `&` and `-` as the base64 of its 16-bit
units. The encoder keeps `u` and `bits` of units not yet written out; the decoder keeps `v`
and `bits` of base64 letters not yet read back into a unit, and the units go through
`String::from_utf16` at the end.

The encoder takes each character as `ch as u16`, which keeps the low 16 bits of a
character outside the Basic Multilingual Plane. Such a character is either written out
unchanged, when its low bits are printable ASCII, or written as one unit that does not
stand for it (`utf7Encode_outside_bmp`).
-/

namespace EsmpServer.Imap

/-! ## The tables -/

/-- `UTF_7_RANK`: the base64 value of an ASCII character, 255 for none. -/
def utf7Rank : List ℕ := [
    255, 255, 255, 255, 255, 255, 255, 255, 255, 255, 255, 255, 255, 255, 255, 255,
    255, 255, 255, 255, 255, 255, 255, 255, 255, 255, 255, 255, 255, 255, 255, 255,
    255, 255, 255, 255, 255, 255, 255, 255, 255, 255, 255, 62, 63, 255, 255, 255,
    52, 53, 54, 55, 56, 57, 58, 59, 60, 61, 255, 255, 255, 255, 255, 255,
    255, 0, 1, 2, 3, 4, 5, 6, 7, 8, 9, 10, 11, 12, 13, 14,
    15, 16, 17, 18, 19, 20, 21, 22, 23, 24, 25, 255, 255, 255, 255, 255,
    255, 26, 27, 28, 29, 30, 31, 32, 33, 34, 35, 36, 37, 38, 39, 40,
    41, 42, 43, 44, 45, 46, 47, 48, 49, 50, 51, 255, 255, 255, 255, 255]

/-- `UTF_7_MAP`. -/
def utf7Map : List Char := "ABCDEFGHIJKLMNOPQRSTUVWXYZabcdefghijklmnopqrstuvwxyz0123456789+,".toList

/-- `UTF_7_MAP[i]`, for the `i < 64` the encoder indexes with. -/
def mapChar (i : ℕ) : Char := utf7Map.getD i 'A'

/-! ## Decoding -/

/-- `String::from_utf16`: UTF-16 units to characters, `none` at an unpaired surrogate. -/
def fromUtf16 : List ℕ → Option (List Char)
  | [] => some []
  | unit :: rest =>
    if unit < 0xD800 ∨ 0xE000 ≤ unit then (fromUtf16 rest).map (Char.ofNat unit :: ·)
    else if unit < 0xDC00 then
      match rest with
      | low :: rest =>
        if 0xDC00 ≤ low ∧ low < 0xE000 then
          (fromUtf16 rest).map (Char.ofNat (0x10000 + (unit - 0xD800) * 0x400 + (low - 0xDC00)) :: ·)
        else none
      | [] => none
    else none

/-- The state of `utf7_decode`: the units so far, `bits`, `v` (a `u32`) and `shifted`. -/
structure DecodeState where
  bytes : List ℕ
  bits : ℕ
  v : ℕ
  shifted : Bool
  deriving DecidableEq, Repr

/-- The loop of `utf7_decode` over the text's characters, `none` where it returns `None`. -/
def decodeLoop : List Char → DecodeState → Option DecodeState
  | [], s => some s
  | ch :: text, s =>
    if s.shifted then
      if ch = '-' then decodeLoop text { s with shifted := false, bits := 0, v := 0 }
      else if 127 < ch.toNat then none
      else
        match utf7Rank[ch.toNat]? with
        | none => none
        | some rank =>
          if rank = 0xff then none
          else
            let v := (s.v <<< 6) % 2 ^ 32 ||| rank
            let bits := s.bits + 6
            if 16 ≤ bits then
              decodeLoop text { s with bytes := s.bytes ++ [(v >>> (bits - 16)) &&& 0xffff], bits := bits - 16, v }
            else decodeLoop text { s with bits, v }
    else if ch = '&' then
      match text.head? with
      | some '-' => decodeLoop text.tail { s with bytes := s.bytes ++ ['&'.toNat] }
      | some _ => decodeLoop text { s with shifted := true }
      | none => decodeLoop text { s with bytes := s.bytes ++ [ch.toNat] }
    else decodeLoop text { s with bytes := s.bytes ++ [ch.toNat % 2 ^ 16] }
termination_by text => text.length
decreasing_by all_goals simp only [List.length_cons, List.length_tail]; omega

/-- `utf7_decode`. -/
def utf7Decode (text : String) : Option String :=
  (decodeLoop text.toList ⟨[], 0, 0, false⟩).bind fun s => (fromUtf16 s.bytes).map String.ofList

/-! ## Encoding -/

/-- The state of `utf7_encode`: the text so far, `shifted`, `bits` and `u` (a `u32`). -/
structure EncodeState where
  result : List Char
  shifted : Bool
  bits : ℕ
  u : ℕ
  deriving DecidableEq, Repr

/-- The loop `while bits >= 6` of `utf7_encode`: one base64 letter for each six bits. -/
def emitSextets (u : ℕ) : ℕ → List Char → ℕ × List Char
  | bits + 6, result => emitSextets u bits (result ++ [mapChar ((u >>> bits) &&& 0x3f)])
  | bits, result => (bits, result)

/-- What `utf7_encode` writes when it leaves base64: the last bits, padded, and `-`. -/
def EncodeState.flush (s : EncodeState) : List Char :=
  (if 0 < s.bits then s.result ++ [mapChar (((s.u <<< (6 - s.bits)) % 2 ^ 32) &&& 0x3f)] else s.result) ++ ['-']

/-- One character of the loop of `utf7_encode`; `ch` is `ch_ as u16`. -/
def encodeStep (s : EncodeState) (ch_ : Char) : EncodeState :=
  let ch := ch_.toNat % 2 ^ 16
  if 0x20 ≤ ch ∧ ch < 0x7f then
    let s := if s.shifted then { s with result := s.flush, shifted := false, bits := 0 } else s
    if ch = 0x26 then { s with result := s.result ++ ['&', '-'] } else { s with result := s.result ++ [ch_] }
  else
    let s := if s.shifted then s else { s with result := s.result ++ ['&'], shifted := true }
    let u := (s.u <<< 16) % 2 ^ 32 ||| ch
    let (bits, result) := emitSextets u (s.bits + 16) s.result
    { s with u, bits, result }

/-- `utf7_encode`. -/
def utf7Encode (text : String) : String :=
  let s := text.toList.foldl encodeStep ⟨[], false, 0, 0⟩
  String.ofList (if s.shifted then s.flush else s.result)

/-- `ProtocolVersion`. -/
inductive ProtocolVersion where
  | rev1
  | rev2
  deriving DecidableEq, Repr

/-- `utf7_maybe_decode`. -/
def utf7MaybeDecode (text : String) (version : ProtocolVersion) : String :=
  if version = .rev2 then text else (utf7Decode text).getD text

/-! ## The tables -/

theorem mapChar_printable : ∀ i, i < 64 →
    0x20 ≤ (mapChar i).toNat ∧ (mapChar i).toNat < 0x7f ∧ mapChar i ≠ '-' ∧ mapChar i ≠ '&' := by
  decide +kernel

theorem rank_mapChar : ∀ i, i < 64 → utf7Rank[(mapChar i).toNat]? = some i := by
  decide +kernel

theorem shiftLeft_or_eq {a x k : ℕ} (hx : x < 2 ^ k) : a <<< k ||| x = a * 2 ^ k + x := by
  rw [← Nat.shiftLeft_add_eq_or_of_lt hx, Nat.shiftLeft_eq]

/-! ## Decoding, one character at a time -/

section DecodeSteps

variable (text : List Char) (s : DecodeState)

theorem decodeLoop_minus (hs : s.shifted = true) :
    decodeLoop ('-' :: text) s = decodeLoop text { s with shifted := false, bits := 0, v := 0 } := by
  rw [decodeLoop]
  simp [hs]

theorem decodeLoop_letter {i : ℕ} (hi : i < 64) (hs : s.shifted = true) :
    decodeLoop (mapChar i :: text) s =
      if 16 ≤ s.bits + 6 then
        decodeLoop text
          { s with
            bytes := s.bytes ++ [(((s.v <<< 6) % 2 ^ 32 ||| i) >>> (s.bits + 6 - 16)) &&& 0xffff]
            bits := s.bits + 6 - 16
            v := (s.v <<< 6) % 2 ^ 32 ||| i }
      else decodeLoop text { s with bits := s.bits + 6, v := (s.v <<< 6) % 2 ^ 32 ||| i } := by
  obtain ⟨-, hhi, hminus, -⟩ := mapChar_printable i hi
  rw [decodeLoop]
  simp [hs, hminus, show ¬ 127 < (mapChar i).toNat by omega, rank_mapChar i hi, show i ≠ 0xff by omega]

theorem decodeLoop_amp {c : Char} (hc : c ≠ '-') (hs : s.shifted = false) :
    decodeLoop ('&' :: c :: text) s = decodeLoop (c :: text) { s with shifted := true } := by
  rw [decodeLoop]
  simp [hs]

theorem decodeLoop_amp_minus (hs : s.shifted = false) :
    decodeLoop ('&' :: '-' :: text) s = decodeLoop text { s with bytes := s.bytes ++ ['&'.toNat] } := by
  rw [decodeLoop]
  simp [hs]

theorem decodeLoop_char {c : Char} (hc : c ≠ '&') (hs : s.shifted = false) :
    decodeLoop (c :: text) s = decodeLoop text { s with bytes := s.bytes ++ [c.toNat % 2 ^ 16] } := by
  rw [decodeLoop]
  simp [hs, hc]

end DecodeSteps

@[simp]
theorem decodeLoop_nil (s : DecodeState) : decodeLoop [] s = some s := by
  rw [decodeLoop]

theorem fromUtf16_singleton (unit : ℕ) :
    fromUtf16 [unit] = if unit < 0xD800 ∨ 0xE000 ≤ unit then some [Char.ofNat unit] else none := by
  by_cases hunit : unit < 0xD800 ∨ 0xE000 ≤ unit
  · simp [fromUtf16, hunit]
  · simp only [fromUtf16, if_neg hunit]
    split <;> rfl

/-! ## Encoding a character outside the Basic Multilingual Plane -/

/-- The three base64 letters of one unit, with 4 bits of padding. -/
def unitLetters (unit : ℕ) : List Char :=
  [mapChar ((unit >>> 10) &&& 0x3f), mapChar ((unit >>> 4) &&& 0x3f), mapChar (((unit <<< 2) % 2 ^ 32) &&& 0x3f)]

section Singleton

variable {c : Char}

theorem utf7Encode_singleton_printable (hp : 0x20 ≤ c.toNat % 2 ^ 16 ∧ c.toNat % 2 ^ 16 < 0x7f) :
    utf7Encode (String.singleton c) = if c.toNat % 2 ^ 16 = 0x26 then "&-" else String.singleton c := by
  simp only [utf7Encode, String.toList_singleton, List.foldl_cons, List.foldl_nil, encodeStep, if_pos hp]
  split <;> rfl

theorem utf7Encode_singleton_unit (hp : ¬ (0x20 ≤ c.toNat % 2 ^ 16 ∧ c.toNat % 2 ^ 16 < 0x7f)) :
    utf7Encode (String.singleton c) = String.ofList ('&' :: (unitLetters (c.toNat % 2 ^ 16) ++ ['-'])) := by
  simp only [utf7Encode, String.toList_singleton, List.foldl_cons, List.foldl_nil, encodeStep, if_neg hp]
  simp [emitSextets, EncodeState.flush, unitLetters]

/-- `£` (U+00A3) is written `&AKM-`, as in the source's tests. -/
example : utf7Encode (String.singleton (Char.ofNat 0xA3)) = "&AKM-" := by decide

theorem decodeLoop_unitLetters {unit : ℕ} (hunit : unit < 2 ^ 16) (text : List Char) (bytes : List ℕ) :
    decodeLoop (unitLetters unit ++ text) ⟨bytes, 0, 0, true⟩ = decodeLoop text ⟨bytes ++ [unit], 2, 4 * unit, true⟩ := by
  have h1 : (unit >>> 10) &&& 0x3f = unit / 1024 := by
    rw [show (0x3f : ℕ) = 2 ^ 6 - 1 by rfl, Nat.and_two_pow_sub_one_eq_mod, Nat.shiftRight_eq_div_pow]
    omega
  have h2 : (unit >>> 4) &&& 0x3f = unit / 16 % 64 := by
    rw [show (0x3f : ℕ) = 2 ^ 6 - 1 by rfl, Nat.and_two_pow_sub_one_eq_mod, Nat.shiftRight_eq_div_pow]
  have h3 : ((unit <<< 2) % 2 ^ 32) &&& 0x3f = unit % 16 * 4 := by
    rw [show (0x3f : ℕ) = 2 ^ 6 - 1 by rfl, Nat.and_two_pow_sub_one_eq_mod, Nat.shiftLeft_eq]
    omega
  have hv1 : (0 <<< 6) % 2 ^ 32 ||| unit / 1024 = unit / 1024 := by simp
  have hv2 : ((unit / 1024) <<< 6) % 2 ^ 32 ||| unit / 16 % 64 = unit / 16 := by
    rw [Nat.mod_eq_of_lt (by rw [Nat.shiftLeft_eq]; omega), shiftLeft_or_eq (by omega)]
    omega
  have hv3 : ((unit / 16) <<< 6) % 2 ^ 32 ||| unit % 16 * 4 = 4 * unit := by
    rw [Nat.mod_eq_of_lt (by rw [Nat.shiftLeft_eq]; omega), shiftLeft_or_eq (by omega)]
    omega
  have hpush : ((4 * unit) >>> 2) &&& 0xffff = unit := by
    rw [show (0xffff : ℕ) = 2 ^ 16 - 1 by rfl, Nat.and_two_pow_sub_one_eq_mod, Nat.shiftRight_eq_div_pow]
    omega
  simp only [unitLetters, List.cons_append, List.nil_append]
  rw [decodeLoop_letter _ _ (by omega) rfl]
  simp only [h1, hv1, show ¬ 16 ≤ 0 + 6 by omega, if_false]
  rw [decodeLoop_letter _ _ (by omega) rfl]
  simp only [h2, hv2, show ¬ 16 ≤ 6 + 6 by omega, if_false]
  rw [decodeLoop_letter _ _ (by omega) rfl]
  simp only [h3, hv3, show 16 ≤ 12 + 6 by omega, if_true, hpush]

theorem decodeLoop_amp_unitLetters {unit : ℕ} (hunit : unit < 2 ^ 16) (text : List Char) (bytes : List ℕ) :
    decodeLoop ('&' :: (unitLetters unit ++ '-' :: text)) ⟨bytes, 0, 0, false⟩ =
      decodeLoop text ⟨bytes ++ [unit], 0, 0, false⟩ := by
  obtain ⟨l1, l2, l3, hletters, hfirst⟩ : ∃ l1 l2 l3, unitLetters unit = [l1, l2, l3] ∧ l1 ≠ '-' :=
    ⟨_, _, _, rfl, (mapChar_printable _ (Nat.and_lt_two_pow _ (by decide : 0x3f < 2 ^ 6))).2.2.1⟩
  rw [hletters, List.cons_append, decodeLoop_amp _ _ hfirst rfl]
  show decodeLoop ([l1, l2, l3] ++ '-' :: text) ⟨bytes, 0, 0, true⟩ = _
  rw [← hletters, decodeLoop_unitLetters hunit, decodeLoop_minus _ _ rfl]

end Singleton

theorem toNat_ofNat_of_isValidChar {n : ℕ} (h : n.isValidChar) : (Char.ofNat n).toNat = n := by
  rw [Char.ofNat, dif_pos h]
  rfl

theorem utf7Decode_of_decodeLoop {text : String} {s : DecodeState}
    (h : decodeLoop text.toList ⟨[], 0, 0, false⟩ = some s) :
    utf7Decode text = (fromUtf16 s.bytes).map String.ofList := by
  simp [utf7Decode, h]

theorem utf7_ne_of_decode_some {text s d : String} (hdecode : utf7Decode text = some d) (hne : d ≠ s) :
    utf7Decode text ≠ some s ∧ utf7MaybeDecode text .rev1 ≠ s := by
  have hsome : utf7Decode text ≠ some s := by
    rw [hdecode]
    exact fun h => hne (Option.some.inj h)
  refine ⟨hsome, ?_⟩
  simp only [utf7MaybeDecode, reduceCtorEq, if_false, hdecode, Option.getD_some]
  exact hne

theorem utf7_ne_of_decode_none {text s : String} (hdecode : utf7Decode text = none) (hne : text ≠ s) :
    utf7Decode text ≠ some s ∧ utf7MaybeDecode text .rev1 ≠ s := by
  have hsome : utf7Decode text ≠ some s := by
    rw [hdecode]
    exact fun h => nomatch h
  refine ⟨hsome, ?_⟩
  simp only [utf7MaybeDecode, reduceCtorEq, if_false, hdecode, Option.getD_none]
  exact hne

/-- A character outside the Basic Multilingual Plane does not come back from its encoding,
neither through `utf7_decode` nor through `utf7_maybe_decode` for IMAP4rev1. -/
theorem utf7Encode_outside_bmp (c : Char) (hc : 0x10000 ≤ c.toNat) :
    utf7Decode (utf7Encode (String.singleton c)) ≠ some (String.singleton c) ∧
      utf7MaybeDecode (utf7Encode (String.singleton c)) .rev1 ≠ String.singleton c := by
  have hamp : c ≠ '&' := by
    rintro rfl
    simp at hc
  have hwlt : c.toNat % 2 ^ 16 < 2 ^ 16 := Nat.mod_lt _ (by decide)
  -- a unit below `0x10000` that is a character is another character than `c`
  have hother : ∀ unit, unit < 2 ^ 16 → unit.isValidChar → Char.ofNat unit ≠ c := by
    intro unit hunit hvalid hchar
    have hval := toNat_ofNat_of_isValidChar hvalid
    rw [hchar] at hval
    omega
  by_cases hp : 0x20 ≤ c.toNat % 2 ^ 16 ∧ c.toNat % 2 ^ 16 < 0x7f
  · -- written as itself, or as `&-` when its `u16` is `&`
    rw [utf7Encode_singleton_printable hp]
    have hvalid : (c.toNat % 2 ^ 16).isValidChar := Or.inl (by omega)
    by_cases hamp16 : c.toNat % 2 ^ 16 = 0x26
    · have hloop : decodeLoop "&-".toList ⟨[], 0, 0, false⟩ = some ⟨['&'.toNat], 0, 0, false⟩ := by
        rw [show "&-".toList = ['&', '-'] from rfl, decodeLoop_amp_minus [] _ rfl, decodeLoop_nil]
        rfl
      have hdecode : utf7Decode "&-" = some "&" := by
        rw [utf7Decode_of_decodeLoop hloop]
        rfl
      have hne : "&" ≠ String.singleton c := by
        intro h
        have hchar := congrArg String.toList h
        simp only [String.toList_singleton] at hchar
        exact hamp (by simpa using hchar.symm)
      rw [if_pos hamp16]
      exact utf7_ne_of_decode_some hdecode hne
    · have hloop : decodeLoop (String.singleton c).toList ⟨[], 0, 0, false⟩ =
          some ⟨[c.toNat % 2 ^ 16], 0, 0, false⟩ := by
        rw [String.toList_singleton, decodeLoop_char [] _ hamp rfl, decodeLoop_nil]
        rfl
      have hdecode : utf7Decode (String.singleton c) = some (String.ofList [Char.ofNat (c.toNat % 2 ^ 16)]) := by
        rw [utf7Decode_of_decodeLoop hloop, fromUtf16_singleton, if_pos (Or.inl (by omega))]
        rfl
      have hne : String.ofList [Char.ofNat (c.toNat % 2 ^ 16)] ≠ String.singleton c := by
        intro h
        have hchar := congrArg String.toList h
        simp only [String.toList_ofList, String.toList_singleton, List.cons.injEq, and_true] at hchar
        exact hother _ hwlt hvalid hchar
      rw [if_neg hamp16]
      exact utf7_ne_of_decode_some hdecode hne
  · -- written as one unit in base64, which decodes to that unit
    rw [utf7Encode_singleton_unit hp]
    have hdecode : utf7Decode (String.ofList ('&' :: (unitLetters (c.toNat % 2 ^ 16) ++ ['-']))) =
        (fromUtf16 [c.toNat % 2 ^ 16]).map String.ofList := by
      rw [utf7Decode_of_decodeLoop (s := ⟨[c.toNat % 2 ^ 16], 0, 0, false⟩)]
      rw [String.toList_ofList, decodeLoop_amp_unitLetters hwlt [] [], decodeLoop_nil]
      rfl
    rw [fromUtf16_singleton] at hdecode
    by_cases hsurrogate : c.toNat % 2 ^ 16 < 0xD800 ∨ 0xE000 ≤ c.toNat % 2 ^ 16
    · -- the unit is a character below `0x10000`
      have hvalid : (c.toNat % 2 ^ 16).isValidChar := by
        simp only [Nat.isValidChar]
        omega
      have hne : String.ofList [Char.ofNat (c.toNat % 2 ^ 16)] ≠ String.singleton c := by
        intro h
        have hchar := congrArg String.toList h
        simp only [String.toList_ofList, String.toList_singleton, List.cons.injEq, and_true] at hchar
        exact hother _ hwlt hvalid hchar
      rw [if_pos hsurrogate, Option.map_some] at hdecode
      exact utf7_ne_of_decode_some hdecode hne
    · -- the unit is an unpaired surrogate: nothing decodes, and the encoding is five characters
      rw [if_neg hsurrogate, Option.map_none] at hdecode
      have hlong : String.ofList ('&' :: (unitLetters (c.toNat % 2 ^ 16) ++ ['-'])) ≠ String.singleton c := by
        intro h
        have hlen := congrArg (fun t => t.toList.length) h
        simp [unitLetters] at hlen
      exact utf7_ne_of_decode_none hdecode hlong

/-- U+1F600 is written as the unit U+F600, which decodes to that other character. -/
theorem utf7Encode_outside_bmp_emoji :
    0x10000 ≤ (Char.ofNat 0x1F600).toNat ∧
      (utf7Decode (utf7Encode (String.singleton (Char.ofNat 0x1F600))) ≠ some (String.singleton (Char.ofNat 0x1F600)) ∧
        utf7MaybeDecode (utf7Encode (String.singleton (Char.ofNat 0x1F600))) .rev1 ≠
          String.singleton (Char.ofNat 0x1F600)) :=
  ⟨by decide, utf7Encode_outside_bmp _ (by decide)⟩

end EsmpServer.Imap
