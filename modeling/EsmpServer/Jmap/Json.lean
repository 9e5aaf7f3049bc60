import EsmpServer.Lib.Decimal
import Mathlib

/-!
# The JSON lexer of JMAP requests

`Parser` (jmap-proto parser/json.rs) reads a request body one byte at a time: `next_char`
takes the next byte of the iterator and counts it in `pos`. `next_token` skips whitespace and
returns one token: a structural character (arrays and dictionaries nested at most
`MAX_NESTED_LEVELS` deep), a keyword, a number accumulated with saturating `i64` arithmetic
whose terminator is pushed back through `next_ch`, or a string handed to the parser of the
expected type. The `String` parser (impls.rs) returns the bytes up to the closing quote when
there is no escape, and otherwise decodes them with an escape flag; the `Ignore` parser
skips them with `skip_string`, which only looks at the byte before a quote.

Loops over the input are functions of the bytes left and the position; `fast_float::parse`,
which turns the text of a fractional number into an `f64`, is a parameter `readFloat`.
-/

namespace EsmpServer.Jmap

/-- `MAX_NESTED_LEVELS`. -/
def maxNestedLevels : ℕ := 16

/-- `Parser`: the input, the bytes the iterator has left, the pushed-back byte, the count of
bytes read, the start of the last string, the nesting depths and the end-of-string flag. -/
structure Parser where
  bytes : List UInt8
  rest : List UInt8
  nextCh : Option UInt8
  pos : ℕ
  posMarker : ℕ
  depthArray : ℕ
  depthDict : ℕ
  isEof : Bool
  deriving DecidableEq, Repr

/-- `Parser::new`. -/
def Parser.new (bytes : List UInt8) : Parser := ⟨bytes, bytes, none, 0, 0, 0, 0, false⟩

/-- The messages of `Parser::error`. -/
inductive JsonMessage where
  /-- "Too many nested objects" -/
  | tooManyNested
  /-- "Unexpected array end" -/
  | unexpectedArrayEnd
  /-- "Unexpected dictionary end" -/
  | unexpectedDictEnd
  /-- "Unexpected character {:?}" -/
  | unexpectedCharacter (ch : UInt8)
  /-- "Failed to parse number {:?}" -/
  | failedNumber (text : List UInt8)
  /-- "Invalid JSON token" -/
  | invalidToken
  /-- "Unexpected EOF" -/
  | unexpectedEof
  /-- "Incomplete unicode sequence" -/
  | incompleteUnicode
  /-- "Invalid unicode sequence {code_str}" -/
  | invalidUnicode (code : List UInt8)
  deriving DecidableEq, Repr

/-- The errors of the lexer, each with the position it reports. -/
inductive JsonError where
  /-- `Parser::error`: `NotJson`, "{message} at position {pos}." -/
  | notJson (message : JsonMessage) (pos : ℕ)
  /-- `error_unterminated`: `NotJson`, "Unterminated string at position {pos}." -/
  | unterminated (pos : ℕ)
  /-- `error_utf8`: `NotJson`, "Invalid UTF-8 sequence at position {pos}." -/
  | invalidUtf8 (pos : ℕ)
  /-- `error_value`: `InvalidArguments`, "Invalid value {:?} at position {}." -/
  | invalidValue (text : List UInt8) (pos : ℕ)
  deriving DecidableEq, Repr

/-- `Token`. -/
inductive Token (T : Type) where
  | colon
  | comma
  | dictStart
  | dictEnd
  | arrayStart
  | arrayEnd
  | integer (n : ℤ)
  | float (x : Float)
  | boolean (b : Bool)
  | string (value : T)
  | null

/-- `Ignore`: a value read only to be skipped. -/
structure Ignore where
  deriving DecidableEq, Repr

/-- `JsonObjectParser`: how a string token of type `T` is read, from just after its opening
quote. -/
class JsonObjectParser (T : Type) where
  parse : Parser → Except JsonError (T × Parser)

/-- `next_char`: the position counts the call even when the input is exhausted. -/
def Parser.nextChar (p : Parser) : Parser × Option UInt8 :=
  ({ p with pos := p.pos + 1, rest := p.rest.tail }, p.rest.head?)

/-- `next_unescaped`: the next byte of a string, the byte after a backslash as it is, and
`None` at the closing quote, which sets `is_eof`, or at the end of the input once it is set.
The parser is returned on an error too: `JsonBase32Reader` goes on from it. -/
def Parser.nextUnescaped (p : Parser) : Except JsonError (Option UInt8) × Parser :=
  match p.nextChar with
  | (p, some 34) => (.ok none, { p with isEof := true })
  | (p, some 92) =>
    match p.nextChar with
    | (p, some ch) => (.ok (some ch), p)
    | (p, none) => (.error (.unterminated p.pos), p)
  | (p, some ch) => (.ok (some ch), p)
  | (p, none) => (if p.isEof then .ok none else .error (.unterminated p.pos), p)

theorem Parser.nextUnescaped_quote {p : Parser} {rest : List UInt8} (h : p.rest = 34 :: rest) :
    p.nextUnescaped = (.ok none, { p with rest := rest, pos := p.pos + 1, isEof := true }) := by
  simp [Parser.nextUnescaped, Parser.nextChar, h]

theorem Parser.nextUnescaped_byte {p : Parser} {ch : UInt8} {rest : List UInt8}
    (h34 : ch ≠ 34) (h92 : ch ≠ 92) (h : p.rest = ch :: rest) :
    p.nextUnescaped = (.ok (some ch), { p with rest := rest, pos := p.pos + 1 }) := by
  unfold Parser.nextUnescaped
  split <;> simp_all [Parser.nextChar]

theorem Parser.nextChar_rest_lt {p p' : Parser} {ch : UInt8} (h : p.nextChar = (p', some ch)) :
    p'.rest.length < p.rest.length := by
  simp only [Parser.nextChar, Prod.mk.injEq] at h
  obtain ⟨rfl, hch⟩ := h
  cases hrest : p.rest <;> simp_all

theorem Parser.nextUnescaped_rest_lt {p p' : Parser} {ch : UInt8}
    (h : p.nextUnescaped = (.ok (some ch), p')) : p'.rest.length < p.rest.length := by
  unfold Parser.nextUnescaped at h
  split at h
  next => simp at h
  next p₁ h₁ =>
    split at h
    next p₂ _ h₂ =>
      obtain ⟨-, rfl⟩ := Prod.mk.inj h
      exact (Parser.nextChar_rest_lt h₂).trans (Parser.nextChar_rest_lt h₁)
    next => simp at h
  next p₁ _ _ _ h₁ =>
    obtain ⟨-, rfl⟩ := Prod.mk.inj h
    exact Parser.nextChar_rest_lt h₁
  next => split at h <;> simp at h

/-- `value.get(start..stop)`, in range. -/
def sliceBytes (bytes : List UInt8) (start stop : ℕ) : List UInt8 :=
  (bytes.drop start).take (stop - start)

/-- `std::str::from_utf8`. -/
def fromUtf8 (bytes : List UInt8) : Option String := String.fromUTF8? ⟨bytes.toArray⟩

/-! ## Skipping a string -/

/-- The loop of `skip_string` over the bytes left, `lastCh` the byte read before: it stops
after a quote whose previous byte is not a backslash. -/
def skipLoop : UInt8 → List UInt8 → ℕ → Bool × List UInt8 × ℕ
  | lastCh, ch :: rest, pos =>
    if ch = 34 ∧ lastCh ≠ 92 then (true, rest, pos + 1) else skipLoop ch rest (pos + 1)
  | _, [], pos => (false, [], pos + 1)

/-- `skip_string`. -/
def Parser.skipString (p : Parser) : Bool × Parser :=
  match skipLoop 0 p.rest p.pos with
  | (found, rest, pos) => (found, { p with rest := rest, pos := pos, isEof := found || p.isEof })

/-- `error_value`: the string being read is skipped unless it has ended, and the error quotes
it from its start. -/
def Parser.errorValue (p : Parser) : JsonError × Parser :=
  let (found, p') := if p.isEof then (true, p) else p.skipString
  if found then (.invalidValue (sliceBytes p'.bytes p'.posMarker (p'.pos - 1)) p'.pos, p')
  else (.unterminated p'.pos, p')

/-! ## Decoding a string -/

/-- The byte of the one-byte escapes `\"`, `\\`, `\n`, `\t`, `\r`, `\b`, `\f` and `\/`; any
other escaped byte stands for itself. -/
def escapeByte (ch : UInt8) : UInt8 :=
  match ch with
  | 34 => 34
  | 92 => 92
  | 110 => 10
  | 116 => 9
  | 114 => 13
  | 98 => 8
  | 102 => 12
  | 47 => 47
  | _ => ch

/-- The value of a hexadecimal digit of `u32::from_str_radix(_, 16)`. -/
def hexDigit? (b : UInt8) : Option ℕ :=
  if 48 ≤ b ∧ b ≤ 57 then some (b.toNat - 48)
  else if 97 ≤ b ∧ b ≤ 102 then some (b.toNat - 87)
  else if 65 ≤ b ∧ b ≤ 70 then some (b.toNat - 55)
  else none

/-- `u32::from_str_radix(code, 16)` on the four bytes of a `\u` escape: one optional `+`, then
hexadecimal digits. -/
def parseHex (code : List UInt8) : Option ℕ :=
  let digits := match code with
    | 43 :: ds@(_ :: _) => ds
    | ds => ds
  if digits = [] then none
  else digits.foldlM (fun acc b => (hexDigit? b).map (16 * acc + ·)) 0

/-- The bytes a `\u` escape decodes to: the UTF-8 of `char::from_u32` of its code, which fails
on a surrogate. `pos` is the position the errors report. -/
def unicodeEscape (code : List UInt8) (pos : ℕ) : Except JsonError (List UInt8) :=
  match fromUtf8 code with
  | none => .error (.invalidUtf8 pos)
  | some _ =>
    match parseHex code with
    | none => .error (.notJson (.invalidUnicode code) pos)
    | some n =>
      if h : n.isValidChar then .ok (String.utf8EncodeChar (Char.ofNatAux n h))
      else .error (.notJson (.invalidUnicode code) pos)

/-- The loop of the `String` parser after its first backslash: `isEscaped` says whether the
byte read is escaped, `buf` holds the bytes decoded so far. -/
def escapedLoop : Bool → List UInt8 → List UInt8 → ℕ → Except JsonError (String × List UInt8 × ℕ)
  | isEscaped, buf, ch :: rest, pos =>
    if ch = 92 ∧ !isEscaped then escapedLoop true buf rest (pos + 1)
    else if ch = 34 ∧ !isEscaped then
      match fromUtf8 buf with
      | some s => .ok (s, rest, pos + 1)
      | none => .error (.invalidUtf8 (pos + 1))
    else if !isEscaped then escapedLoop false (buf ++ [ch]) rest (pos + 1)
    else if ch = 117 then
      match rest with
      | c1 :: c2 :: c3 :: c4 :: rest' =>
        match unicodeEscape [c1, c2, c3, c4] (pos + 5) with
        | .ok bytes => escapedLoop false (buf ++ bytes) rest' (pos + 5)
        | .error e => .error e
      | _ => .error (.notJson .incompleteUnicode (pos + 1))
    else escapedLoop false (buf ++ [escapeByte ch]) rest (pos + 1)
  | _, _, [], pos => .error (.unterminated (pos + 1))

theorem escapedLoop_cons (isEscaped : Bool) (buf : List UInt8) (ch : UInt8) (rest : List UInt8) (pos : ℕ) :
    escapedLoop isEscaped buf (ch :: rest) pos =
      if ch = 92 ∧ !isEscaped then escapedLoop true buf rest (pos + 1)
      else if ch = 34 ∧ !isEscaped then
        match fromUtf8 buf with
        | some s => .ok (s, rest, pos + 1)
        | none => .error (.invalidUtf8 (pos + 1))
      else if !isEscaped then escapedLoop false (buf ++ [ch]) rest (pos + 1)
      else if ch = 117 then
        match rest with
        | c1 :: c2 :: c3 :: c4 :: rest' =>
          match unicodeEscape [c1, c2, c3, c4] (pos + 5) with
          | .ok bytes => escapedLoop false (buf ++ bytes) rest' (pos + 5)
          | .error e => .error e
        | _ => .error (.notJson .incompleteUnicode (pos + 1))
      else escapedLoop false (buf ++ [escapeByte ch]) rest (pos + 1) := by
  rw [escapedLoop.eq_def]

theorem escapedLoop_backslash (buf rest : List UInt8) (pos : ℕ) :
    escapedLoop false buf (92 :: rest) pos = escapedLoop true buf rest (pos + 1) := by
  rw [escapedLoop_cons]
  simp

theorem escapedLoop_quote (buf rest : List UInt8) (pos : ℕ) :
    escapedLoop false buf (34 :: rest) pos =
      match fromUtf8 buf with
      | some s => .ok (s, rest, pos + 1)
      | none => .error (.invalidUtf8 (pos + 1)) := by
  rw [escapedLoop_cons]
  simp

theorem escapedLoop_byte {ch : UInt8} (h92 : ch ≠ 92) (h34 : ch ≠ 34) (buf rest : List UInt8)
    (pos : ℕ) : escapedLoop false buf (ch :: rest) pos = escapedLoop false (buf ++ [ch]) rest (pos + 1) := by
  rw [escapedLoop_cons]
  simp [h92, h34]

theorem escapedLoop_escaped {ch : UInt8} (hu : ch ≠ 117) (buf rest : List UInt8) (pos : ℕ) :
    escapedLoop true buf (ch :: rest) pos = escapedLoop false (buf ++ [escapeByte ch]) rest (pos + 1) := by
  rw [escapedLoop_cons]
  simp [hu]

theorem escapedLoop_unicode {c1 c2 c3 c4 : UInt8} {pos : ℕ} {bytes : List UInt8}
    (h : unicodeEscape [c1, c2, c3, c4] (pos + 5) = .ok bytes) (buf rest : List UInt8) :
    escapedLoop true buf (117 :: c1 :: c2 :: c3 :: c4 :: rest) pos =
      escapedLoop false (buf ++ bytes) rest (pos + 5) := by
  rw [escapedLoop_cons]
  simp [h]

/-- The loop of the `String` parser up to its first backslash or its closing quote; the
string starts at `startPos` of `bytes`. -/
def stringLoop (bytes : List UInt8) (startPos : ℕ) :
    List UInt8 → ℕ → Except JsonError (String × List UInt8 × ℕ)
  | ch :: rest, pos =>
    if ch = 92 then escapedLoop true (sliceBytes bytes startPos pos) rest (pos + 1)
    else if ch = 34 then
      match fromUtf8 (sliceBytes bytes startPos pos) with
      | some s => .ok (s, rest, pos + 1)
      | none => .error (.invalidUtf8 (pos + 1))
    else stringLoop bytes startPos rest (pos + 1)
  | [], pos => .error (.unterminated (pos + 1))

/-- `JsonObjectParser for String`. -/
def parseString (p : Parser) : Except JsonError (String × Parser) :=
  match stringLoop p.bytes p.pos p.rest p.pos with
  | .ok (s, rest, pos) => .ok (s, { p with rest := rest, pos := pos, isEof := true })
  | .error e => .error e

instance : JsonObjectParser String := ⟨parseString⟩

/-- `JsonObjectParser for Ignore`. -/
def parseIgnore (p : Parser) : Except JsonError (Ignore × Parser) :=
  match p.skipString with
  | (true, p') => .ok (⟨⟩, p')
  | (false, p') => .error (.unterminated p'.pos)

instance : JsonObjectParser Ignore := ⟨parseIgnore⟩

/-! ## Tokens -/

/-- The whitespace `next_token` skips. -/
def isWhitespace (ch : UInt8) : Bool := ch = 32 || ch = 9 || ch = 13 || ch = 10

/-- The loop of `next_token` over whitespace: the first other byte, each read with
`next_char`. -/
def skipWhitespace : List UInt8 → ℕ → Option UInt8 × List UInt8 × ℕ
  | ch :: rest, pos => if isWhitespace ch then skipWhitespace rest (pos + 1) else (some ch, rest, pos + 1)
  | [], pos => (none, [], pos + 1)

/-- `i64::saturating_mul(10)` then `saturating_add(d)`. -/
def accumulateDigit (num : ℤ) (d : ℕ) : ℤ :=
  FixedInt.saturate (-2 ^ 63) (2 ^ 63 - 1) (FixedInt.saturate (-2 ^ 63) (2 ^ 63 - 1) (num * 10) + d)

/-- The local variables of the number loop. -/
structure NumberState where
  num : ℤ
  isFloat : Bool
  isNegative : Bool
  deriving DecidableEq, Repr

/-- The number loop of `next_token` at byte `ch`, position `pos`: the variables at the end of
the number, the byte pushed back into `next_ch`, the bytes left and the position. -/
def numberLoop : NumberState → UInt8 → List UInt8 → ℕ →
    Except JsonError (NumberState × Option UInt8 × List UInt8 × ℕ)
  | st, ch, rest, pos =>
    let next (st' : NumberState) := match rest with
      | c :: rest' => numberLoop st' c rest' (pos + 1)
      | [] => .error (.unterminated (pos + 1))
    if ch = 45 then next { st with isNegative := true }
    else if 48 ≤ ch ∧ ch ≤ 57 then
      next (if !st.isFloat then { st with num := accumulateDigit st.num (ch.toNat - 48) } else st)
    else if ch = 44 ∨ ch = 93 ∨ ch = 125 then .ok (st, some ch, rest, pos)
    else if ch = 43 then next st
    else if ch = 46 ∨ ch = 101 ∨ ch = 69 then next { st with isFloat := true }
    else if isWhitespace ch then .ok (st, none, rest, pos)
    else .error (.notJson (.unexpectedCharacter ch) pos)

section NextToken

variable (readFloat : List UInt8 → Option Float) {T : Type} [JsonObjectParser T]

/-- The number branch of `next_token`, from its first byte `ch`. -/
def Parser.numberToken (p : Parser) (ch : UInt8) : Except JsonError (Token T × Parser) :=
  let numStart := p.pos - 1
  match numberLoop ⟨0, false, false⟩ ch p.rest p.pos with
  | .error e => .error e
  | .ok (st, nextCh, rest, pos) =>
    let p' := { p with rest := rest, pos := pos, nextCh := nextCh.or p.nextCh }
    if !st.isFloat then .ok (.integer (if !st.isNegative then st.num else -st.num), p')
    else
      let text := sliceBytes p.bytes numStart (pos - 1)
      match readFloat text with
      | some x => .ok (.float x, p')
      | none => .error (.notJson (.failedNumber text) pos)

/-- A keyword: the bytes after its first letter are taken from the iterator directly. -/
def Parser.keyword (p : Parser) (tail : List UInt8) (token : Token T) :
    Except JsonError (Token T × Parser) :=
  if p.rest.take tail.length = tail then
    .ok (token, { p with rest := p.rest.drop tail.length, pos := p.pos + tail.length })
  else .error (.notJson .invalidToken p.pos)

/-- The string branch of `next_token`: the parser of `T` reads the string, and what it leaves
of it is skipped. -/
def Parser.stringToken (p : Parser) : Except JsonError (Token T × Parser) :=
  match JsonObjectParser.parse (T := T) { p with posMarker := p.pos, isEof := false } with
  | .error e => .error e
  | .ok (value, p') =>
    if p'.isEof then .ok (.string value, p')
    else
      match p'.skipString with
      | (true, p'') => .ok (.string value, p'')
      | (false, p'') => .error (.unterminated p''.pos)

/-- The `match ch` of `next_token`, after the byte `ch` was read. -/
def Parser.tokenAt (p : Parser) (ch : UInt8) : Except JsonError (Token T × Parser) :=
  match ch with
  | 34 => p.stringToken
  | 44 => .ok (.comma, p)
  | 58 => .ok (.colon, p)
  | 91 =>
    if p.depthArray + p.depthDict < maxNestedLevels then
      .ok (.arrayStart, { p with depthArray := p.depthArray + 1 })
    else .error (.notJson .tooManyNested p.pos)
  | 93 =>
    if p.depthArray ≠ 0 then .ok (.arrayEnd, { p with depthArray := p.depthArray - 1 })
    else .error (.notJson .unexpectedArrayEnd p.pos)
  | 123 =>
    if p.depthArray + p.depthDict < maxNestedLevels then
      .ok (.dictStart, { p with depthDict := p.depthDict + 1 })
    else .error (.notJson .tooManyNested p.pos)
  | 125 =>
    if p.depthDict ≠ 0 then .ok (.dictEnd, { p with depthDict := p.depthDict - 1 })
    else .error (.notJson .unexpectedDictEnd p.pos)
  | 116 => p.keyword [114, 117, 101] (.boolean true)
  | 102 => p.keyword [97, 108, 115, 101] (.boolean false)
  | 110 => p.keyword [117, 108, 108] .null
  | _ =>
    if 48 ≤ ch ∧ ch ≤ 57 ∨ ch = 45 ∨ ch = 43 then p.numberToken readFloat ch
    else .error (.notJson (.unexpectedCharacter ch) p.pos)

/-- `next_token`: the pushed-back byte or the next one, whitespace skipped. -/
def Parser.nextToken (p : Parser) : Except JsonError (Token T × Parser) :=
  let (p, first) := match p.nextCh with
    | some ch => ({ p with nextCh := none }, some ch)
    | none => p.nextChar
  match first with
  | none => .error (.notJson .unexpectedEof p.pos)
  | some ch =>
    if isWhitespace ch then
      match skipWhitespace p.rest p.pos with
      | (some ch', rest, pos) => ({ p with rest := rest, pos := pos } : Parser).tokenAt readFloat ch'
      | (none, _, pos) => .error (.notJson .unexpectedEof pos)
    else p.tokenAt readFloat ch

end NextToken

end EsmpServer.Jmap
