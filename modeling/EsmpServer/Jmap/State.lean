import EsmpServer.Jmap.JsonString
import EsmpServer.Codec.Base32
import EsmpServer.Codec.Leb128

/-!
# JMAP states

A `State` (jmap-proto types/state.rs) is written as a tag character, `n` for the initial
state, `s` for an exact change id and `r` for an intermediate state, followed by the Base32
of its numbers in LEB128: the change id, or the first change id, the distance to the last
one and the number of items sent. `State::parse` reads the tag with `next_unescaped` and the
numbers through `JsonBase32Reader`.

The round trip (`parseState_display`): every state whose last change id is not before its
first and that has sent an item is read back from its text. Each number is read up to its
last byte and no further, so the reader never reads a byte that the final partial group of
the text only pads.
-/

/-! ## Base32 values in JSON strings

`JsonBase32Reader` (jmap-proto parser/base32.rs) is the Base32 reader with the JSON parser
as its source of characters: it reads them with `next_unescaped`, and an error or the
closing quote ends it. The values written in Base32 (`State`, `BlobId`) are read through it
from the string token.

Over a string whose text is the Base32 of some bytes, the reader yields those bytes and
leaves the parser just before the closing quote (`jsonBase32Reader_encode`); the string
token then ends after the quote (`Parser.stringToken_before_quote`).
-/

namespace EsmpServer.Jmap

open Codec Iterator

/-- The source of `JsonBase32Reader`: `next_unescaped`, an error read as the end. -/
def jsonRead (p : Parser) : Option UInt8 × Parser :=
  match p.nextUnescaped with
  | (.ok ch, p') => (ch, p')
  | (.error _, p') => (none, p')

/-- `JsonBase32Reader::new`. -/
def JsonBase32Reader.new (p : Parser) : Base32Reader Parser := ⟨p, 0, 0⟩

theorem yields_jsonRead_text : ∀ (s : List UInt8) (p : Parser) (rest : List UInt8),
    (∀ c ∈ s, c ≠ 34 ∧ c ≠ 92) → p.rest = s ++ rest →
      Yields jsonRead p s { p with rest := rest, pos := p.pos + s.length }
  | [], p, rest, _, hrest => by
    show p = _
    cases p
    simp_all
  | c :: s, p, rest, hs, hrest => by
    obtain ⟨h34, h92⟩ := hs c List.mem_cons_self
    have hnext := Parser.nextUnescaped_byte h34 h92 (show p.rest = c :: (s ++ rest) from hrest)
    refine ⟨{ p with rest := s ++ rest, pos := p.pos + 1 }, by simp [jsonRead, hnext], ?_⟩
    have ih := yields_jsonRead_text s { p with rest := s ++ rest, pos := p.pos + 1 } rest
      (fun c hc => hs c (List.mem_cons_of_mem _ hc)) rfl
    simpa [Nat.add_assoc, Nat.add_comm 1] using ih

theorem jsonBase32Reader_encode (bytes : List UInt8) {p : Parser} {rest : List UInt8}
    (hrest : p.rest = encode bytes ++ 34 :: rest) :
    ∃ r', Yields (Base32Reader.next jsonRead) (JsonBase32Reader.new p) bytes r' ∧
      r'.src = { p with rest := 34 :: rest, pos := p.pos + (encode bytes).length } := by
  have htext : ∀ c ∈ encode bytes, c ≠ 34 ∧ c ≠ 92 := by
    intro c hc
    rw [encode_eq] at hc
    obtain ⟨i, hi, rfl⟩ := mem_encodeGroups hc
    exact alphabetChar_ne_quote i hi
  exact yields_encode jsonRead bytes 0 (yields_jsonRead_text _ p _ htext hrest)

theorem Parser.stringToken_before_quote {T : Type} [JsonObjectParser T] {p p' : Parser} {v : T}
    {rest : List UInt8}
    (h : JsonObjectParser.parse (T := T) { p with posMarker := p.pos, isEof := false } = .ok (v, p'))
    (heof : p'.isEof = false) (hrest : p'.rest = 34 :: rest) :
    p.stringToken (T := T) = .ok (.string v, { p' with rest := rest, pos := p'.pos + 1, isEof := true }) := by
  simp [Parser.stringToken, h, heof, Parser.skipString, hrest, skipLoop_quote]

end EsmpServer.Jmap

namespace EsmpServer.Jmap

open Codec Iterator
open DecimalBytes (ascii)

/-- `State`, with `JMAPIntermediateState`'s fields in its last case; `usize` is 64 bits. -/
inductive State where
  | initial
  | exact (changeId : UInt64)
  | intermediate (fromId toId itemsSent : UInt64)
  deriving DecidableEq, Repr

/-- `u64::saturating_add`. -/
def saturatingAdd (a b : UInt64) : UInt64 := UInt64.ofNat (min (a.toNat + b.toNat) (2 ^ 64 - 1))

/-- `Display for State`. -/
def State.display : State → List UInt8
  | .initial => (Base32Writer.new.pushChar 110).finalize
  | .exact changeId => ((Base32Writer.new.pushChar 115).write (toLeb128Bytes changeId.toNat)).finalize
  | .intermediate fromId toId itemsSent =>
    ((((Base32Writer.new.pushChar 114).write (toLeb128Bytes fromId.toNat)).write
      (toLeb128Bytes (toId - fromId).toNat)).write (toLeb128Bytes itemsSent.toNat)).finalize

/-- `JsonObjectParser for State`. The three numbers of an intermediate state are all read
before any is looked at, as the tuple of the source is built. -/
def parseState (p : Parser) : Except JsonError (State × Parser) :=
  let next := Base32Reader.next jsonRead
  match p.nextUnescaped with
  | (.error e, _) => .error e
  | (.ok none, p') => .error p'.errorValue.1
  | (.ok (some ch), p') =>
    if ch = 110 then .ok (.initial, p')
    else if ch = 115 then
      match nextLeb128Iter next (JsonBase32Reader.new p') with
      | (some changeId, r) => .ok (.exact (UInt64.ofNat changeId), r.src)
      | (none, r) => .error r.src.errorValue.1
    else if ch = 114 then
      let (fromId, r₁) := nextLeb128Iter next (JsonBase32Reader.new p')
      let (toId, r₂) := nextLeb128Iter next r₁
      let (itemsSent, r₃) := nextLeb128Iter next r₂
      match fromId, toId, itemsSent with
      | some fromId, some toId, some itemsSent =>
        if itemsSent > 0 then
          .ok (.intermediate (UInt64.ofNat fromId)
            (saturatingAdd (UInt64.ofNat fromId) (UInt64.ofNat toId)) (UInt64.ofNat itemsSent), r₃.src)
        else .error r₃.src.errorValue.1
      | _, _, _ => .error r₃.src.errorValue.1
    else .error p'.errorValue.1

instance : JsonObjectParser State := ⟨parseState⟩

/-- The states `Display` writes for `State::parse` to read back. -/
def State.Valid : State → Prop
  | .intermediate fromId toId itemsSent => fromId ≤ toId ∧ 0 < itemsSent
  | _ => True

example : State.display (.exact 0) = ascii "saa" := by
  rw [State.display, toLeb128Bytes_of_lt (by decide)]
  decide

/-! ## The round trip -/

theorem display_intermediate (fromId toId itemsSent : UInt64) :
    (State.intermediate fromId toId itemsSent).display = 114 :: encode (toLeb128Bytes fromId.toNat ++
      (toLeb128Bytes (toId - fromId).toNat ++ toLeb128Bytes itemsSent.toNat)) := by
  rw [State.display, ← Base32Writer.write_append, ← Base32Writer.write_append, pushChar_write_finalize]

theorem parseState_text {s : State} (hs : s.Valid) {p : Parser} {rest : List UInt8}
    (hrest : p.rest = s.display ++ 34 :: rest) :
    ∃ p', parseState p = .ok (s, p') ∧ p'.isEof = p.isEof ∧ p'.rest = 34 :: rest := by
  cases s with
  | initial =>
    have hnext := Parser.nextUnescaped_byte (by decide) (by decide) (show p.rest = 110 :: (34 :: rest) from hrest)
    exact ⟨{ p with rest := 34 :: rest, pos := p.pos + 1 }, by simp [parseState, hnext], rfl, rfl⟩
  | exact changeId =>
    rw [State.display, pushChar_write_finalize] at hrest
    have hnext := Parser.nextUnescaped_byte (by decide) (by decide)
      (show p.rest = 115 :: (encode (toLeb128Bytes changeId.toNat) ++ 34 :: rest) from hrest)
    obtain ⟨r, hy, hsrc⟩ := @jsonBase32Reader_encode (toLeb128Bytes changeId.toNat) { p with
      rest := encode (toLeb128Bytes changeId.toNat) ++ 34 :: rest, pos := p.pos + 1 } rest rfl
    refine ⟨r.src, ?_, by rw [hsrc], by rw [hsrc]⟩
    simp [parseState, hnext, nextLeb128Iter_uint64 _ changeId hy]
  | intermediate fromId toId itemsSent =>
    obtain ⟨hle, hsent⟩ := hs
    rw [display_intermediate] at hrest
    have hnext := Parser.nextUnescaped_byte (by decide) (by decide)
      (show p.rest = 114 :: (encode (toLeb128Bytes fromId.toNat ++ (toLeb128Bytes (toId - fromId).toNat ++
        toLeb128Bytes itemsSent.toNat)) ++ 34 :: rest) from hrest)
    obtain ⟨r, hy, hsrc⟩ := @jsonBase32Reader_encode (toLeb128Bytes fromId.toNat ++
      (toLeb128Bytes (toId - fromId).toNat ++ toLeb128Bytes itemsSent.toNat)) { p with
        rest := encode (toLeb128Bytes fromId.toNat ++ (toLeb128Bytes (toId - fromId).toNat ++
          toLeb128Bytes itemsSent.toNat)) ++ 34 :: rest
        pos := p.pos + 1 } rest rfl
    -- the three numbers, one after the other
    obtain ⟨r₁, hy₁, hy₂₃⟩ := (yields_append _).mp hy
    obtain ⟨r₂, hy₂, hy₃⟩ := (yields_append _).mp hy₂₃
    -- the last change id comes back as the first plus the distance
    have hsat : saturatingAdd fromId (toId - fromId) = toId := by
      have hd : (toId - fromId).toNat = toId.toNat - fromId.toNat := UInt64.toNat_sub_of_le _ _ hle
      have hle' : fromId.toNat ≤ toId.toNat := UInt64.le_iff_toNat_le.mp hle
      have hlt := toId.toNat_lt
      rw [saturatingAdd, hd, min_eq_left (by omega), Nat.add_sub_cancel' hle', UInt64.ofNat_toNat]
    have hpos : 0 < itemsSent.toNat := UInt64.lt_iff_toNat_lt.mp hsent
    refine ⟨r.src, ?_, by rw [hsrc], by rw [hsrc]⟩
    simp [parseState, hnext, nextLeb128Iter_uint64 _ _ hy₁, nextLeb128Iter_uint64 _ _ hy₂,
      nextLeb128Iter_uint64 _ _ hy₃, hpos, hsat]

theorem Parser.nextToken_state (readFloat : List UInt8 → Option Float) {p : Parser} {s : State}
    (hs : s.Valid) {rest : List UInt8} (hnext : p.nextCh = none) (hrest : p.rest = 34 :: (s.display ++ 34 :: rest)) :
    ∃ p', p.nextToken (T := State) readFloat = .ok (.string s, p') ∧ p'.rest = rest := by
  rw [Parser.nextToken_quote readFloat hnext hrest]
  obtain ⟨p', hparse, heof, hrest'⟩ := @parseState_text s hs
    { p with rest := s.display ++ 34 :: rest, pos := p.pos + 1, posMarker := p.pos + 1, isEof := false } rest rfl
  exact ⟨_, Parser.stringToken_before_quote hparse heof hrest', rfl⟩

/-- Every state whose last change id is not before its first and that has sent an item is
read back from its quoted text, and the token ends after the closing quote. -/
theorem parseState_display (s : State) (hs : s.Valid) (readFloat : List UInt8 → Option Float)
    (rest : List UInt8) :
    ∃ p', (Parser.new (34 :: s.display ++ 34 :: rest)).nextToken (T := State) readFloat = .ok (.string s, p') ∧
      p'.rest = rest :=
  Parser.nextToken_state readFloat hs rfl rfl

theorem parseState_display_intermediate : State.Valid (.intermediate 1024 2048 100) ∧
    ∃ p', (Parser.new (34 :: (State.intermediate 1024 2048 100).display ++ [34])).nextToken (T := State)
      (fun _ => none) = .ok (.string (.intermediate 1024 2048 100), p') ∧ p'.rest = [] :=
  ⟨⟨by decide, by decide⟩, parseState_display (.intermediate 1024 2048 100) ⟨by decide, by decide⟩ (fun _ => none) []⟩

end EsmpServer.Jmap
