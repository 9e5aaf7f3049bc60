import EsmpServer.Lib.Decimal
import EsmpServer.Lib.Iterator

/-!
# The custom Base32 codec

`base32_custom` (utils/src/codec) writes bytes as characters of a 32-letter
alphabet, five bits a character: five bytes fill eight characters, and
`finalize` writes the bits of an unfinished group in one more character. The
writer keeps the previous byte and the position in the group; the reader keeps
the previous character and its own position, and reads one or two characters a
byte.

The reader is written over any source of characters (`read`), so that it covers
both `Base32Reader`, over a slice of bytes, and `JsonBase32Reader`, over the
characters of a JSON string. The round trip (`yields_encode`): reading what the
writer wrote yields the bytes written, and leaves the source just after the last
character; the reader then stops at the source's end (`next_of_read_none`).
-/

namespace EsmpServer.Codec

open DecimalBytes (ascii)
open Iterator (Yields yields_append)

/-- `BASE32_ALPHABET`. -/
def base32Alphabet : List UInt8 := ascii "abcdefghijklmnopqrstuvwxyz792013"

/-- `BASE32_INVERSE`: the value of each character, 255 for a character not in
the alphabet. Of the upper-case letters, only `K` to `Z` are read, as their
lower-case letters. -/
def base32Inverse : List UInt8 := [
  255, 255, 255, 255, 255, 255, 255, 255, 255, 255, 255, 255, 255, 255, 255, 255,
  255, 255, 255, 255, 255, 255, 255, 255, 255, 255, 255, 255, 255, 255, 255, 255,
  255, 255, 255, 255, 255, 255, 255, 255, 255, 255, 255, 255, 255, 255, 255, 255,
  29, 30, 28, 31, 255, 255, 255, 26, 255, 27, 255, 255, 255, 255, 255, 255,
  255, 255, 255, 255, 255, 255, 255, 255, 255, 255, 255, 10, 11, 12, 13, 14,
  15, 16, 17, 18, 19, 20, 21, 22, 23, 24, 25, 255, 255, 255, 255, 255,
  255, 0, 1, 2, 3, 4, 5, 6, 7, 8, 9, 10, 11, 12, 13, 14,
  15, 16, 17, 18, 19, 20, 21, 22, 23, 24, 25, 255, 255, 255, 255, 255,
  255, 255, 255, 255, 255, 255, 255, 255, 255, 255, 255, 255, 255, 255, 255, 255,
  255, 255, 255, 255, 255, 255, 255, 255, 255, 255, 255, 255, 255, 255, 255, 255,
  255, 255, 255, 255, 255, 255, 255, 255, 255, 255, 255, 255, 255, 255, 255, 255,
  255, 255, 255, 255, 255, 255, 255, 255, 255, 255, 255, 255, 255, 255, 255, 255,
  255, 255, 255, 255, 255, 255, 255, 255, 255, 255, 255, 255, 255, 255, 255, 255,
  255, 255, 255, 255, 255, 255, 255, 255, 255, 255, 255, 255, 255, 255, 255, 255,
  255, 255, 255, 255, 255, 255, 255, 255, 255, 255, 255, 255, 255, 255, 255, 255,
  255, 255, 255, 255, 255, 255, 255, 255, 255, 255, 255, 255, 255, 255, 255, 255]

/-- `BASE32_ALPHABET[i as usize]`. -/
def alphabetChar (i : UInt8) : UInt8 := base32Alphabet.getD i.toNat 0

/-- `BASE32_INVERSE[ch as usize]`. -/
def inverseByte (ch : UInt8) : UInt8 := base32Inverse.getD ch.toNat 255

theorem inverseByte_alphabetChar : ∀ i : UInt8, i < 32 → inverseByte (alphabetChar i) = i := by
  intro i hi
  have hall : ∀ j < 32, inverseByte (alphabetChar (UInt8.ofNat j)) = UInt8.ofNat j := by decide
  simpa using hall i.toNat (UInt8.lt_iff_toNat_lt.mp hi)


theorem alphabetChar_ne_quote : ∀ i : UInt8, i < 32 → alphabetChar i ≠ 34 ∧ alphabetChar i ≠ 92 := by
  intro i hi
  have hall : ∀ j < 32, alphabetChar (UInt8.ofNat j) ≠ 34 ∧ alphabetChar (UInt8.ofNat j) ≠ 92 := by
    decide
  simpa using hall i.toNat (UInt8.lt_iff_toNat_lt.mp hi)

theorem alphabetChar_mem : ∀ i : UInt8, i < 32 → alphabetChar i ∈ base32Alphabet := by
  intro i hi
  have hall : ∀ j < 32, alphabetChar (UInt8.ofNat j) ∈ base32Alphabet := by decide
  simpa using hall i.toNat (UInt8.lt_iff_toNat_lt.mp hi)

theorem alphabetChar_eq_a : ∀ i : UInt8, i < 32 → (alphabetChar i = 97 ↔ i = 0) := by
  intro i hi
  have hall : ∀ j < 32, (alphabetChar (UInt8.ofNat j) = 97 ↔ UInt8.ofNat j = 0) := by decide
  simpa using hall i.toNat (UInt8.lt_iff_toNat_lt.mp hi)

/-! ## The writer -/

/-- `Base32Writer`: the previous byte, the number of bytes written, and the text. -/
structure Base32Writer where
  lastByte : UInt8
  pos : ℕ
  result : List UInt8
  deriving DecidableEq, Repr

/-- `Base32Writer::with_capacity`. -/
def Base32Writer.new : Base32Writer := ⟨0, 0, []⟩

/-- `push_char`: a character written as it is. -/
def Base32Writer.pushChar (w : Base32Writer) (ch : UInt8) : Base32Writer :=
  { w with result := w.result ++ [ch] }

/-- The characters `push_byte` writes for `byte` after `lastByte` at a position of
the group; the second is `u8::MAX` when there is none. -/
def byteChars (pos : ℕ) (lastByte byte : UInt8) : UInt8 × UInt8 :=
  match pos with
  | 0 => ((byte &&& 0xF8) >>> 3, 255)
  | 1 => (((lastByte &&& 0x07) <<< 2) ||| ((byte &&& 0xC0) >>> 6), (byte &&& 0x3E) >>> 1)
  | 2 => (((lastByte &&& 0x01) <<< 4) ||| ((byte &&& 0xF0) >>> 4), 255)
  | 3 => (((lastByte &&& 0x0F) <<< 1) ||| (byte >>> 7), (byte &&& 0x7C) >>> 2)
  | _ => (((lastByte &&& 0x03) <<< 3) ||| ((byte &&& 0xE0) >>> 5), byte &&& 0x1F)

/-- `push_byte`: a remainder writes the first character only and is not counted. -/
def Base32Writer.pushByte (w : Base32Writer) (byte : UInt8) (isRemainder : Bool) : Base32Writer :=
  let chars := byteChars (w.pos % 5) w.lastByte byte
  let result := w.result ++ [alphabetChar chars.1]
  if !isRemainder then
    { lastByte := byte, pos := w.pos + 1,
      result := if chars.2 ≠ 255 then result ++ [alphabetChar chars.2] else result }
  else { w with result := result }

/-- `write_all`. -/
def Base32Writer.write (w : Base32Writer) (bytes : List UInt8) : Base32Writer :=
  bytes.foldl (fun w byte => w.pushByte byte false) w

/-- `finalize`: the bits of an unfinished group are written with zeros after them. -/
def Base32Writer.finalize (w : Base32Writer) : List UInt8 :=
  if w.pos % 5 ≠ 0 then (w.pushByte 0 true).result else w.result

/-- The text of `bytes`. -/
def encode (bytes : List UInt8) : List UInt8 := (Base32Writer.new.write bytes).finalize

example : encode [0] = ascii "aa" := by decide
example : encode [1, 2, 3, 4, 5] = ascii "aebagbaf" := by decide

/-! ## The reader -/

/-- `Base32Reader` and `JsonBase32Reader`: the source of characters, the previous
character's value, and the number of bytes read. -/
structure Base32Reader (σ : Type) where
  src : σ
  lastByte : UInt8
  pos : ℕ

section Reader

variable {σ : Type} (read : σ → Option UInt8 × σ)

/-- `map_byte`: the value of the next character, and `None` at the end of the
source or at a character not in the alphabet. -/
def Base32Reader.mapByte (r : Base32Reader σ) : Option UInt8 × Base32Reader σ :=
  match read r.src with
  | (some ch, src) =>
    if inverseByte ch ≠ 255 then (some (inverseByte ch), { r with src, lastByte := inverseByte ch })
    else (none, { r with src })
  | (none, src) => (none, { r with src })

/-- The byte `next` assembles at a position of the group from the previous
character, the character read and, at positions 0, 1 and 3, the next one. -/
def groupByte (pos : ℕ) (lastByte byte next : UInt8) : UInt8 :=
  match pos with
  | 0 => (byte <<< 3) ||| (next >>> 2)
  | 1 => (lastByte <<< 6) ||| (byte <<< 1) ||| (next >>> 4)
  | 2 => (lastByte <<< 4) ||| (byte >>> 1)
  | 3 => (lastByte <<< 7) ||| (byte <<< 2) ||| (next >>> 3)
  | _ => (lastByte <<< 5) ||| byte

/-- Whether `next` reads a second character at a position of the group. -/
def readsSecond (pos : ℕ) : Bool := pos = 0 || pos = 1 || pos = 3

/-- `Iterator::next`: a missing second character counts as zero. -/
def Base32Reader.next (r : Base32Reader σ) : Option UInt8 × Base32Reader σ :=
  let pos := r.pos % 5
  match r.mapByte read with
  | (none, r') => (none, r')
  | (some byte, r') =>
    let r' := { r' with pos := r'.pos + 1 }
    if readsSecond pos then
      let second := r'.mapByte read
      (some (groupByte pos r.lastByte byte (second.1.getD 0)), second.2)
    else (some (groupByte pos r.lastByte byte 0), r')

end Reader

/-- The source of `Base32Reader`: a slice of bytes. -/
def sliceRead (bytes : List UInt8) : Option UInt8 × List UInt8 := (bytes.head?, bytes.tail)

/-- `Base32Reader::new`. -/
def Base32Reader.new (bytes : List UInt8) : Base32Reader (List UInt8) := ⟨bytes, 0, 0⟩

/-! ## The round trip

The writer's characters are all in the alphabet (`byteChars_fst_lt`), and the reader
puts each byte back together from them (`groupByte_byteChars`). `encodeGroups` writes
the text group by group, which is what the reader reads. -/

set_option maxRecDepth 4000 in
theorem lt_32_of_and_0xE0 : ∀ x : UInt8, x &&& 0xE0 = 0 → x < 32 := by
  intro x
  have hall : ∀ j < 256, UInt8.ofNat j &&& 0xE0 = 0 → UInt8.ofNat j < 32 := by decide
  simpa using hall x.toNat x.toNat_lt

theorem ne_255_of_lt_32 {x : UInt8} (h : x < 32) : x ≠ 255 := by
  rintro rfl
  exact absurd h (by decide)

theorem byteChars_fst_lt (pos : ℕ) (lastByte byte : UInt8) : (byteChars pos lastByte byte).1 < 32 := by
  apply lt_32_of_and_0xE0
  apply UInt8.eq_of_toBitVec_eq
  rcases pos with _ | _ | _ | _ | pos <;>
    simp only [byteChars, UInt8.toBitVec_or, UInt8.toBitVec_and, UInt8.toBitVec_shiftLeft,
      UInt8.toBitVec_shiftRight] <;>
    ext i hi <;>
    simp [BitVec.getElem_or, BitVec.getElem_shiftLeft, BitVec.getElem_ushiftRight] <;>
    interval_cases i <;> simp

theorem byteChars_snd_lt {pos : ℕ} (h0 : pos ≠ 0) (h2 : pos ≠ 2) (lastByte byte : UInt8) :
    (byteChars pos lastByte byte).2 < 32 := by
  apply lt_32_of_and_0xE0
  apply UInt8.eq_of_toBitVec_eq
  rcases pos with _ | _ | _ | _ | pos
  · exact absurd rfl h0
  rotate_left
  · exact absurd rfl h2
  all_goals
    simp only [byteChars, UInt8.toBitVec_and, UInt8.toBitVec_shiftRight]
    ext i hi
    simp [BitVec.getElem_ushiftRight]
    interval_cases i <;> simp

theorem groupByte_byteChars (lastByte b0 b1 b2 b3 b4 : UInt8) :
    groupByte 0 lastByte (byteChars 0 lastByte b0).1 (byteChars 1 b0 b1).1 = b0 ∧
      groupByte 1 (byteChars 1 b0 b1).1 (byteChars 1 b0 b1).2 (byteChars 2 b1 b2).1 = b1 ∧
      groupByte 2 (byteChars 2 b1 b2).1 (byteChars 3 b2 b3).1 0 = b2 ∧
      groupByte 3 (byteChars 3 b2 b3).1 (byteChars 3 b2 b3).2 (byteChars 4 b3 b4).1 = b3 ∧
      groupByte 4 (byteChars 4 b3 b4).1 (byteChars 4 b3 b4).2 0 = b4 := by
  refine ⟨?_, ?_, ?_, ?_, ?_⟩ <;>
    apply UInt8.eq_of_toBitVec_eq <;>
    simp only [groupByte, byteChars, UInt8.toBitVec_or, UInt8.toBitVec_and, UInt8.toBitVec_shiftLeft,
      UInt8.toBitVec_shiftRight] <;>
    ext i hi <;>
    simp [BitVec.getElem_or, BitVec.getElem_shiftLeft, BitVec.getElem_ushiftRight] <;>
    interval_cases i <;> simp

/-- The eight characters of a group of five bytes. -/
def groupChars (b0 b1 b2 b3 b4 : UInt8) : List UInt8 :=
  [(byteChars 0 0 b0).1, (byteChars 1 b0 b1).1, (byteChars 1 b0 b1).2, (byteChars 2 b1 b2).1,
    (byteChars 3 b2 b3).1, (byteChars 3 b2 b3).2, (byteChars 4 b3 b4).1, (byteChars 4 b3 b4).2].map
    alphabetChar

/-- The text of `bytes` group by group, an unfinished group closed by the
character `finalize` adds. -/
def encodeGroups : List UInt8 → List UInt8
  | b0 :: b1 :: b2 :: b3 :: b4 :: rest => groupChars b0 b1 b2 b3 b4 ++ encodeGroups rest
  | [b0, b1, b2, b3] => (groupChars b0 b1 b2 b3 0).take 7
  | [b0, b1, b2] => (groupChars b0 b1 b2 0 0).take 5
  | [b0, b1] => (groupChars b0 b1 0 0 0).take 4
  | [b0] => (groupChars b0 0 0 0 0).take 2
  | [] => []

theorem pos_succ_mod {pos : ℕ} (h : pos % 5 = 0) :
    (pos + 1) % 5 = 1 ∧ (pos + 1 + 1) % 5 = 2 ∧ (pos + 1 + 1 + 1) % 5 = 3 ∧
      (pos + 1 + 1 + 1 + 1) % 5 = 4 := by
  omega

theorem pushByte_false (w : Base32Writer) (byte : UInt8) :
    w.pushByte byte false =
      ⟨byte, w.pos + 1, w.result ++ alphabetChar (byteChars (w.pos % 5) w.lastByte byte).1 ::
        if (byteChars (w.pos % 5) w.lastByte byte).2 ≠ 255
        then [alphabetChar (byteChars (w.pos % 5) w.lastByte byte).2] else []⟩ := by
  simp only [Base32Writer.pushByte, Bool.not_false, ite_true]
  split_ifs <;> simp

/-- Positions 0 and 2 write one character, the others two. -/
@[simp] theorem byteChars_zero_snd (lastByte byte : UInt8) : (byteChars 0 lastByte byte).2 = 255 := rfl

@[simp] theorem byteChars_two_snd (lastByte byte : UInt8) : (byteChars 2 lastByte byte).2 = 255 := rfl

@[simp] theorem byteChars_one_snd_ne (lastByte byte : UInt8) : (byteChars 1 lastByte byte).2 ≠ 255 :=
  ne_255_of_lt_32 (@byteChars_snd_lt 1 (by decide) (by decide) lastByte byte)

@[simp] theorem byteChars_three_snd_ne (lastByte byte : UInt8) : (byteChars 3 lastByte byte).2 ≠ 255 :=
  ne_255_of_lt_32 (@byteChars_snd_lt 3 (by decide) (by decide) lastByte byte)

@[simp] theorem byteChars_four_snd_ne (lastByte byte : UInt8) : (byteChars 4 lastByte byte).2 ≠ 255 :=
  ne_255_of_lt_32 (@byteChars_snd_lt 4 (by decide) (by decide) lastByte byte)

theorem byteChars_zero_lastByte (lastByte byte : UInt8) : byteChars 0 lastByte byte = byteChars 0 0 byte := rfl

theorem write_group {w : Base32Writer} (hw : w.pos % 5 = 0) (b0 b1 b2 b3 b4 : UInt8) (rest : List UInt8) :
    w.write (b0 :: b1 :: b2 :: b3 :: b4 :: rest) =
      (⟨b4, w.pos + 5, w.result ++ groupChars b0 b1 b2 b3 b4⟩ : Base32Writer).write rest := by
  obtain ⟨h1, h2, h3, h4⟩ := pos_succ_mod hw
  simp only [Base32Writer.write, List.foldl_cons, pushByte_false, hw, h1, h2, h3, h4]
  simp [groupChars, Nat.add_assoc, byteChars_zero_lastByte w.lastByte]

theorem finalize_write_tail {tail : List UInt8} (htail : tail.length < 5) {w : Base32Writer}
    (hw : w.pos % 5 = 0) : (w.write tail).finalize = w.result ++ encodeGroups tail := by
  obtain ⟨h1, h2, h3, h4⟩ := pos_succ_mod hw
  rcases tail with _ | ⟨b0, _ | ⟨b1, _ | ⟨b2, _ | ⟨b3, _ | ⟨b4, rest⟩⟩⟩⟩⟩
  · simp [Base32Writer.write, Base32Writer.finalize, hw, encodeGroups]
  rotate_right
  · simp only [List.length_cons] at htail
    omega
  all_goals
    simp [Base32Writer.write, Base32Writer.finalize, Base32Writer.pushByte, hw, h1, h2, h3, h4,
      encodeGroups, groupChars, byteChars_zero_lastByte w.lastByte]

theorem finalize_write : ∀ (bytes : List UInt8) (w : Base32Writer), w.pos % 5 = 0 →
    (w.write bytes).finalize = w.result ++ encodeGroups bytes
  | b0 :: b1 :: b2 :: b3 :: b4 :: rest, w, hw => by
    rw [write_group hw, finalize_write rest _ (by simp only; omega), encodeGroups, List.append_assoc]
  | [b0, b1, b2, b3], _, hw | [b0, b1, b2], _, hw | [b0, b1], _, hw | [b0], _, hw | [], _, hw =>
    finalize_write_tail (by simp) hw

theorem encode_eq (bytes : List UInt8) : encode bytes = encodeGroups bytes := by
  simpa [encode, Base32Writer.new] using finalize_write bytes Base32Writer.new rfl

theorem Base32Writer.write_append (w : Base32Writer) (a b : List UInt8) :
    w.write (a ++ b) = (w.write a).write b :=
  List.foldl_append

theorem pushChar_write_finalize (c : UInt8) (bytes : List UInt8) :
    ((Base32Writer.new.pushChar c).write bytes).finalize = c :: encode bytes := by
  rw [encode_eq]
  simpa [Base32Writer.pushChar, Base32Writer.new] using
    finalize_write bytes (Base32Writer.new.pushChar c) rfl

theorem mem_groupChars {c b0 b1 b2 b3 b4 : UInt8} (h : c ∈ groupChars b0 b1 b2 b3 b4) :
    ∃ i < 32, c = alphabetChar i := by
  unfold groupChars at h
  obtain ⟨x, hx, rfl⟩ := List.mem_map.mp h
  refine ⟨x, ?_, rfl⟩
  have hlt : ∀ y ∈ [(byteChars 0 0 b0).1, (byteChars 1 b0 b1).1, (byteChars 1 b0 b1).2,
      (byteChars 2 b1 b2).1, (byteChars 3 b2 b3).1, (byteChars 3 b2 b3).2, (byteChars 4 b3 b4).1,
      (byteChars 4 b3 b4).2], y < 32 := by
    simp only [List.forall_mem_cons, List.not_mem_nil, IsEmpty.forall_iff, forall_const, and_true]
    exact ⟨byteChars_fst_lt _ _ _, byteChars_fst_lt _ _ _, byteChars_snd_lt (by decide) (by decide) _ _,
      byteChars_fst_lt _ _ _, byteChars_fst_lt _ _ _, byteChars_snd_lt (by decide) (by decide) _ _,
      byteChars_fst_lt _ _ _, byteChars_snd_lt (by decide) (by decide) _ _⟩
  exact hlt x hx

theorem mem_encodeGroups : ∀ {bytes : List UInt8} {c : UInt8}, c ∈ encodeGroups bytes →
    ∃ i < 32, c = alphabetChar i
  | _ :: _ :: _ :: _ :: _ :: _, _, h => by
    rw [encodeGroups, List.mem_append] at h
    exact h.elim mem_groupChars mem_encodeGroups
  | [_, _, _, _], _, h | [_, _, _], _, h | [_, _], _, h | [_], _, h => by
    rw [encodeGroups] at h
    exact mem_groupChars (List.mem_of_mem_take h)
  | [], _, h => by simp [encodeGroups] at h

section RoundTrip

variable {σ : Type} (read : σ → Option UInt8 × σ)

theorem mapByte_alphabetChar {r : Base32Reader σ} {c : UInt8} {s : σ} (hc : c < 32)
    (hread : read r.src = (some (alphabetChar c), s)) :
    r.mapByte read = (some c, { r with src := s, lastByte := c }) := by
  simp [Base32Reader.mapByte, hread, inverseByte_alphabetChar c hc, ne_255_of_lt_32 hc]

theorem next_two {r : Base32Reader σ} {c c' b : UInt8} {s₁ s₂ : σ}
    (hpos : readsSecond (r.pos % 5) = true) (hc : c < 32) (hc' : c' < 32)
    (h₁ : read r.src = (some (alphabetChar c), s₁)) (h₂ : read s₁ = (some (alphabetChar c'), s₂))
    (hb : groupByte (r.pos % 5) r.lastByte c c' = b) :
    r.next read = (some b, ⟨s₂, c', r.pos + 1⟩) := by
  have hm₂ := @mapByte_alphabetChar σ read ⟨s₁, c, r.pos + 1⟩ c' s₂ hc' h₂
  simp [Base32Reader.next, mapByte_alphabetChar read hc h₁, hpos, hm₂, hb]

theorem next_one {r : Base32Reader σ} {c b : UInt8} {s₁ : σ}
    (hpos : readsSecond (r.pos % 5) = false) (hc : c < 32)
    (h₁ : read r.src = (some (alphabetChar c), s₁)) (hb : groupByte (r.pos % 5) r.lastByte c 0 = b) :
    r.next read = (some b, ⟨s₁, c, r.pos + 1⟩) := by
  simp [Base32Reader.next, mapByte_alphabetChar read hc h₁, hpos, hb]

/-! Each byte of a group is read from its characters, whatever the bytes after it. -/

theorem yields_byte_zero {r : Base32Reader σ} (hr : r.pos % 5 = 0) (b0 b1 : UInt8) {s' : σ}
    (h : Yields read r.src [alphabetChar (byteChars 0 0 b0).1, alphabetChar (byteChars 1 b0 b1).1] s') :
    Yields (Base32Reader.next read) r [b0] ⟨s', (byteChars 1 b0 b1).1, r.pos + 1⟩ := by
  obtain ⟨s₁, h₁, s₂, h₂, rfl⟩ := h
  exact ⟨_, next_two read (by rw [hr]; rfl) (byteChars_fst_lt _ _ _) (byteChars_fst_lt _ _ _)
    h₁ h₂ (by rw [hr]; exact (groupByte_byteChars r.lastByte b0 b1 0 0 0).1), rfl⟩

theorem yields_byte_one {r : Base32Reader σ} (hr : r.pos % 5 = 1) (b0 b1 b2 : UInt8)
    (hlast : r.lastByte = (byteChars 1 b0 b1).1) {s' : σ}
    (h : Yields read r.src [alphabetChar (byteChars 1 b0 b1).2, alphabetChar (byteChars 2 b1 b2).1] s') :
    Yields (Base32Reader.next read) r [b1] ⟨s', (byteChars 2 b1 b2).1, r.pos + 1⟩ := by
  obtain ⟨s₁, h₁, s₂, h₂, rfl⟩ := h
  exact ⟨_, next_two read (by rw [hr]; rfl)
    (@byteChars_snd_lt 1 (by decide) (by decide) _ _) (byteChars_fst_lt _ _ _) h₁ h₂
    (by rw [hr, hlast]; exact (groupByte_byteChars 0 b0 b1 b2 0 0).2.1), rfl⟩

theorem yields_byte_two {r : Base32Reader σ} (hr : r.pos % 5 = 2) (b1 b2 b3 : UInt8)
    (hlast : r.lastByte = (byteChars 2 b1 b2).1) {s' : σ}
    (h : Yields read r.src [alphabetChar (byteChars 3 b2 b3).1] s') :
    Yields (Base32Reader.next read) r [b2] ⟨s', (byteChars 3 b2 b3).1, r.pos + 1⟩ := by
  obtain ⟨s₁, h₁, rfl⟩ := h
  exact ⟨_, next_one read (by rw [hr]; rfl) (byteChars_fst_lt _ _ _) h₁
    (by rw [hr, hlast]; exact (groupByte_byteChars 0 0 b1 b2 b3 0).2.2.1), rfl⟩

theorem yields_byte_three {r : Base32Reader σ} (hr : r.pos % 5 = 3) (b2 b3 b4 : UInt8)
    (hlast : r.lastByte = (byteChars 3 b2 b3).1) {s' : σ}
    (h : Yields read r.src [alphabetChar (byteChars 3 b2 b3).2, alphabetChar (byteChars 4 b3 b4).1] s') :
    Yields (Base32Reader.next read) r [b3] ⟨s', (byteChars 4 b3 b4).1, r.pos + 1⟩ := by
  obtain ⟨s₁, h₁, s₂, h₂, rfl⟩ := h
  exact ⟨_, next_two read (by rw [hr]; rfl)
    (@byteChars_snd_lt 3 (by decide) (by decide) _ _) (byteChars_fst_lt _ _ _) h₁ h₂
    (by rw [hr, hlast]; exact (groupByte_byteChars 0 0 0 b2 b3 b4).2.2.2.1), rfl⟩

theorem yields_byte_four {r : Base32Reader σ} (hr : r.pos % 5 = 4) (b3 b4 : UInt8)
    (hlast : r.lastByte = (byteChars 4 b3 b4).1) {s' : σ}
    (h : Yields read r.src [alphabetChar (byteChars 4 b3 b4).2] s') :
    Yields (Base32Reader.next read) r [b4] ⟨s', (byteChars 4 b3 b4).2, r.pos + 1⟩ := by
  obtain ⟨s₁, h₁, rfl⟩ := h
  exact ⟨_, next_one read (by rw [hr]; rfl)
    (@byteChars_snd_lt 4 (by decide) (by decide) _ _) h₁
    (by rw [hr, hlast]; exact (groupByte_byteChars 0 0 0 0 b3 b4).2.2.2.2), rfl⟩

theorem yields_encodeGroups : ∀ (bytes : List UInt8) (r : Base32Reader σ) (s' : σ), r.pos % 5 = 0 →
    Yields read r.src (encodeGroups bytes) s' →
      ∃ r', Yields (Base32Reader.next read) r bytes r' ∧ r'.src = s' ∧ r'.pos = r.pos + bytes.length
  | b0 :: b1 :: b2 :: b3 :: b4 :: rest, r, s', hr, h => by
    rw [encodeGroups, yields_append] at h
    obtain ⟨sm, hgroup, hrest⟩ := h
    simp only [groupChars, List.map_cons, List.map_nil] at hgroup
    obtain ⟨s1, e1, s2, e2, s3, e3, s4, e4, s5, e5, s6, e6, s7, e7, s8, e8, rfl⟩ := hgroup
    -- the five bytes of the group, each from its own characters
    have y0 := yields_byte_zero read hr b0 b1 ⟨s1, e1, s2, e2, rfl⟩
    have y1 := @yields_byte_one σ read ⟨s2, _, r.pos + 1⟩ (by simp only; omega) b0 b1 b2 rfl s4
      ⟨s3, e3, s4, e4, rfl⟩
    have y2 := @yields_byte_two σ read ⟨s4, _, r.pos + 1 + 1⟩ (by simp only; omega) b1 b2 b3 rfl s5
      ⟨s5, e5, rfl⟩
    have y3 := @yields_byte_three σ read ⟨s5, _, r.pos + 1 + 1 + 1⟩ (by simp only; omega) b2 b3 b4 rfl s7
      ⟨s6, e6, s7, e7, rfl⟩
    have y4 := @yields_byte_four σ read ⟨s7, _, r.pos + 1 + 1 + 1 + 1⟩ (by simp only; omega) b3 b4 rfl s8
      ⟨s8, e8, rfl⟩
    -- the rest starts the next group
    obtain ⟨r', hyields, hsrc, hpos⟩ := yields_encodeGroups rest
      ⟨s8, (byteChars 4 b3 b4).2, r.pos + 1 + 1 + 1 + 1 + 1⟩ s' (by simp only; omega) hrest
    refine ⟨r', ?_, hsrc, by simp only at hpos; simp only [List.length_cons]; omega⟩
    exact y0.cons _ (y1.cons _ (y2.cons _ (y3.cons _ (y4.cons _ hyields))))
  | [b0, b1, b2, b3], r, s', hr, h => by
    simp only [encodeGroups, groupChars, List.map_cons, List.map_nil] at h
    obtain ⟨s1, e1, s2, e2, s3, e3, s4, e4, s5, e5, s6, e6, s7, e7, rfl⟩ := h
    have y0 := yields_byte_zero read hr b0 b1 ⟨s1, e1, s2, e2, rfl⟩
    have y1 := @yields_byte_one σ read ⟨s2, _, r.pos + 1⟩ (by simp only; omega) b0 b1 b2 rfl s4
      ⟨s3, e3, s4, e4, rfl⟩
    have y2 := @yields_byte_two σ read ⟨s4, _, r.pos + 1 + 1⟩ (by simp only; omega) b1 b2 b3 rfl s5
      ⟨s5, e5, rfl⟩
    have y3 := @yields_byte_three σ read ⟨s5, _, r.pos + 1 + 1 + 1⟩ (by simp only; omega) b2 b3 0 rfl s7
      ⟨s6, e6, s7, e7, rfl⟩
    exact ⟨_, y0.cons _ (y1.cons _ (y2.cons _ y3)), rfl, rfl⟩
  | [b0, b1, b2], r, s', hr, h => by
    simp only [encodeGroups, groupChars, List.map_cons, List.map_nil] at h
    obtain ⟨s1, e1, s2, e2, s3, e3, s4, e4, s5, e5, rfl⟩ := h
    have y0 := yields_byte_zero read hr b0 b1 ⟨s1, e1, s2, e2, rfl⟩
    have y1 := @yields_byte_one σ read ⟨s2, _, r.pos + 1⟩ (by simp only; omega) b0 b1 b2 rfl s4
      ⟨s3, e3, s4, e4, rfl⟩
    have y2 := @yields_byte_two σ read ⟨s4, _, r.pos + 1 + 1⟩ (by simp only; omega) b1 b2 0 rfl s5
      ⟨s5, e5, rfl⟩
    exact ⟨_, y0.cons _ (y1.cons _ y2), rfl, rfl⟩
  | [b0, b1], r, s', hr, h => by
    simp only [encodeGroups, groupChars, List.map_cons, List.map_nil] at h
    obtain ⟨s1, e1, s2, e2, s3, e3, s4, e4, rfl⟩ := h
    have y0 := yields_byte_zero read hr b0 b1 ⟨s1, e1, s2, e2, rfl⟩
    have y1 := @yields_byte_one σ read ⟨s2, _, r.pos + 1⟩ (by simp only; omega) b0 b1 0 rfl s4
      ⟨s3, e3, s4, e4, rfl⟩
    exact ⟨_, y0.cons _ y1, rfl, rfl⟩
  | [b0], r, s', hr, h => by
    simp only [encodeGroups, groupChars, List.map_cons, List.map_nil] at h
    obtain ⟨s1, e1, s2, e2, rfl⟩ := h
    exact ⟨_, yields_byte_zero read hr b0 0 ⟨s1, e1, s2, e2, rfl⟩, rfl, rfl⟩
  | [], r, s', _, h => ⟨r, rfl, h, rfl⟩

theorem yields_encode (bytes : List UInt8) {s s' : σ} (lastByte : UInt8)
    (h : Yields read s (encode bytes) s') :
    ∃ r', Yields (Base32Reader.next read) ⟨s, lastByte, 0⟩ bytes r' ∧ r'.src = s' := by
  rw [encode_eq] at h
  obtain ⟨r', hyields, hsrc, -⟩ := yields_encodeGroups read bytes ⟨s, lastByte, 0⟩ s' rfl h
  exact ⟨r', hyields, hsrc⟩

theorem next_of_read_none {r : Base32Reader σ} {s : σ} (h : read r.src = (none, s)) :
    (r.next read).1 = none := by
  simp [Base32Reader.next, Base32Reader.mapByte, h]

end RoundTrip

theorem yields_sliceRead : ∀ (l rest : List UInt8), Yields sliceRead (l ++ rest) l rest
  | [], _ => rfl
  | _ :: l, rest => ⟨_, rfl, yields_sliceRead l rest⟩

theorem base32Reader_encode (bytes : List UInt8) :
    ∃ r', Yields (Base32Reader.next sliceRead) (Base32Reader.new (encode bytes)) bytes r' ∧
      (r'.next sliceRead).1 = none := by
  obtain ⟨r', hyields, hsrc⟩ := yields_encode sliceRead bytes 0 (by simpa using yields_sliceRead (encode bytes) [])
  exact ⟨r', hyields, next_of_read_none sliceRead (by rw [hsrc]; rfl)⟩

/-! ## Collecting the reader -/

theorem mapByte_sliceRead_src (r : Base32Reader (List UInt8)) :
    (r.mapByte sliceRead).2.src = r.src.tail := by
  unfold Base32Reader.mapByte
  cases h : r.src with
  | nil => simp [sliceRead]
  | cons c rest => by_cases hc : inverseByte c ≠ 255 <;> simp [sliceRead, hc]

theorem next_sliceRead_src_lt {r r' : Base32Reader (List UInt8)} {b : UInt8}
    (h : r.next sliceRead = (some b, r')) : r'.src.length < r.src.length := by
  unfold Base32Reader.next at h
  rcases hm : r.mapByte sliceRead with ⟨_ | byte, r₁⟩
  · simp [hm] at h
  · have h₁ : r₁.src = r.src.tail := by rw [← mapByte_sliceRead_src, hm]
    have hne : r.src ≠ [] := by
      intro hs
      simp [Base32Reader.mapByte, sliceRead, hs] at hm
    have hlt : r.src.tail.length < r.src.length := by
      rw [List.length_tail]
      exact Nat.sub_lt (List.length_pos_iff.mpr hne) Nat.one_pos
    simp only [hm] at h
    split_ifs at h
    · rw [← (Prod.mk.inj h).2, mapByte_sliceRead_src, List.length_tail, h₁]
      omega
    · rw [← (Prod.mk.inj h).2, h₁]
      exact hlt

/-- `for byte in Base32Reader::new(bytes)`: the reader over a slice run to its end. Every
item takes a character, so one step more than the characters is fuel enough
(`Base32Reader.collect_fuel`). -/
def Base32Reader.collect (bytes : List UInt8) : List UInt8 :=
  Iterator.collect (Base32Reader.next sliceRead) (bytes.length + 1) (Base32Reader.new bytes)

theorem Base32Reader.collect_fuel (bytes : List UInt8) (k : ℕ) :
    Iterator.collect (Base32Reader.next sliceRead) (bytes.length + 1 + k) (Base32Reader.new bytes) =
      Base32Reader.collect bytes :=
  @Iterator.collect_add _ _ (Base32Reader.next sliceRead) (fun r => r.src.length)
    (fun _ _ _ h => next_sliceRead_src_lt h) (bytes.length + 1) (Base32Reader.new bytes)
    (Nat.lt_succ_self _) k

/-- Collecting the reader over what the writer wrote and finalized gives back the bytes,
whatever their number modulo five. -/
theorem collect_write_finalize (bytes : List UInt8) :
    Base32Reader.collect (Base32Writer.new.write bytes).finalize = bytes := by
  obtain ⟨r', hyields, hend⟩ := base32Reader_encode bytes
  have hlen := hyields.length_add_le _ (μ := fun r => r.src.length) (fun _ _ _ h => next_sliceRead_src_lt h)
  change bytes.length + r'.src.length ≤ (encode bytes).length at hlen
  exact Iterator.collect_of_yields hyields hend (by change bytes.length < (encode bytes).length + 1; omega)

end EsmpServer.Codec
