import EsmpServer.Expr.Variable

/-!
# The tokenizer

`Tokenizer::next` reads the bytes of an expression. Letters, digits, `_`, `$`
and `.` collect into a word; any other byte ends the word, which `parse_buf`
turns into a constant, a capture, a global, a function or a mapped token, and
the byte itself becomes the next token (kept in `next_token` until the following
call). Blanks only separate words; `}` ends the expression.

`tokenize` runs `next` until it returns nothing or fails: the tokens it returned
and the error, if any. The parser reads this stream token by token, so a parser
error raised before the tokenizer's error is the one reported.
-/

namespace EsmpServer.Expr

/-- What the tokenizer reads besides the text: `FUNCTIONS`, `ASYNC_FUNCTIONS`,
the `TokenMap`, the regex compiler's message for a pattern it rejects, and the
`f64` parser. -/
structure TokenizerConfig where
  functions : List BuiltinFunction
  asyncFunctions : List AsyncFunction
  tokenMap : String → Option Token
  regexError : String → Option String
  f64 : F64Text

/-- The byte of an ASCII character. -/
def byte (c : Char) : UInt8 := c.toNat.toUInt8

/-- `char::from(u8)`. -/
def byteChar (b : UInt8) : Char := Char.ofNat b.toNat

/-- `str::as_bytes`: the UTF-8 encoding of the text. -/
def asBytes (s : String) : List UInt8 := s.toList.flatMap String.utf8EncodeChar

/-- `u8::is_ascii_whitespace`. -/
def isAsciiWhitespace (c : Char) : Bool :=
  c = ' ' || c = '\t' || c = '\n' || c = '\x0C' || c = '\r'

/-- Whether `char::escape_debug` prints a character below U+0100 as itself:
the controls U+0000–U+001F and U+007F–U+00A0 and the soft hyphen U+00AD are
escaped. -/
def isPrintableLatin1 (c : Char) : Bool :=
  !(c.toNat < 0x20 || (0x7F ≤ c.toNat && c.toNat ≤ 0xA0) || c.toNat = 0xAD)

/-- `char::escape_debug_ext`, for the escapes of `{:?}`. Characters above
U+00FF are printed as themselves. -/
def escapeDebug (escapeDoubleQuote escapeSingleQuote : Bool) (c : Char) : String :=
  if c = '\x00' then "\\0"
  else if c = '\t' then "\\t"
  else if c = '\r' then "\\r"
  else if c = '\n' then "\\n"
  else if c = '\\' then "\\\\"
  else if c = '"' ∧ escapeDoubleQuote then "\\\""
  else if c = '\'' ∧ escapeSingleQuote then "\\'"
  else if c.toNat < 0x100 ∧ !isPrintableLatin1 c then
    "\\u\x7b" ++ String.ofList (Nat.toDigits 16 c.toNat) ++ "\x7d"
  else c.toString

/-- `{:?}` of a `char`. -/
def charDebug (c : Char) : String := "'" ++ escapeDebug false true c ++ "'"

/-- `{:?}` of a `str`. -/
def strDebug (s : String) : String :=
  "\"" ++ String.join (s.toList.map (escapeDebug true false)) ++ "\""

/-- `Tokenizer::find_char`: the first byte that is not ASCII whitespace, which
must be one of `chars`. -/
def findChar (chars : List Char) : List UInt8 → Except String (UInt8 × List UInt8)
  | [] => .error "Unexpected end of expression"
  | ch :: rest =>
    if isAsciiWhitespace (byteChar ch) then findChar chars rest
    else if byteChar ch ∈ chars then .ok (ch, rest)
    else .error ("Expected " ++ charDebug (chars.headD ' ') ++ ", found invalid character " ++
      charDebug (byteChar ch))

/-- The loop of `Tokenizer::parse_string`. A backslash is kept and makes the
byte after it literal, with `n`, `r` and `t` read as control characters; the
byte after an escaped byte is looked at as if it followed a backslash when the
escaped byte is itself a backslash. -/
def parseStringLoop (stopCh : UInt8) : List UInt8 → List UInt8 → UInt8 →
    Except String (List UInt8 × List UInt8)
  | [], _, _ => .error "Unterminated string"
  | ch :: rest, buf, lastCh =>
    if lastCh ≠ byte '\\' then
      if ch ≠ stopCh then parseStringLoop stopCh rest (buf ++ [ch]) ch
      else .ok (buf, rest)
    else
      let out :=
        if ch = byte 'n' then byte '\n'
        else if ch = byte 'r' then byte '\r'
        else if ch = byte 't' then byte '\t'
        else ch
      parseStringLoop stopCh rest (buf ++ [out]) ch

/-- `Tokenizer::parse_string`: the string up to `stop_ch`, which must be UTF-8. -/
def parseString (stopCh : UInt8) (iter : List UInt8) : Except String (String × List UInt8) := do
  let (buf, rest) ← parseStringLoop stopCh iter [] 0
  match String.fromUTF8? ⟨buf.toArray⟩ with
  | some s => .ok (s, rest)
  | none => .error "Invalid UTF-8"

/-- `Duration::parse_value`, in milliseconds: the digits of the text, and its
other non-blank characters, lowercased, as the unit. The product wraps at
`u64` as a release build does. -/
def parseDurationMillis (value : String) : Option ℕ :=
  let digits := value.toList.filter Char.isDigit
  let unit := String.ofList ((value.toList.filter fun c => !c.isDigit && !isAsciiWhitespace c).map
    Char.toLower)
  let multiplier : Option ℕ :=
    if unit = "d" then some (24 * 60 * 60 * 1000)
    else if unit = "h" then some (60 * 60 * 1000)
    else if unit = "m" then some (60 * 1000)
    else if unit = "s" then some 1000
    else if unit = "ms" ∨ unit = "" then some 1
    else none
  multiplier.bind fun multiplier =>
    (FixedInt.parseDecimal false 0 (2 ^ 64 - 1) (String.ofList digits)).bind fun num =>
      if 0 < num then some ((num.toNat * multiplier) % 2 ^ 64) else none

/-- The word collected in the buffer. It holds only ASCII letters, digits and
`$_.:*`, so `String::from_utf8` reads it byte for byte. -/
def asciiString (buf : List UInt8) : String := String.ofList (buf.map byteChar)

/-- `Tokenizer::parse_buf`: a number when the word has digits and no letters,
otherwise `true`/`false`, a capture `$n`, a global `$name`, a function, a mapped
token, or a duration. -/
def parseBuf (cfg : TokenizerConfig) (buf : List UInt8) (hasNumber hasDot hasAlpha : Bool) :
    Except String Token :=
  let s := asciiString buf
  if hasNumber && !hasAlpha then
    if hasDot then
      match cfg.f64.parse s with
      | some f => .ok (.constant (.float f))
      | none => .error ("Invalid float value " ++ s)
    else
      match parseI64 s with
      | some i => .ok (.constant (.integer i))
      | none => .error ("Invalid integer value " ++ s)
  else if !hasNumber && !hasDot && (buf.length = 4 || buf.length = 5) && s = "true" then
    .ok (.constant (.integer 1))
  else if !hasNumber && !hasDot && (buf.length = 4 || buf.length = 5) && s = "false" then
    .ok (.constant (.integer 0))
  else
    match s.toList with
    | '$' :: c :: cs =>
      let name := String.ofList (c :: cs)
      if (c :: cs).all Char.isDigit then
        match parseU32 name with
        | some n => .ok (.capture n)
        | none => .ok (.global name)
      else .ok (.global name)
    | _ =>
      match (cfg.functions.zipIdx).find? (fun p => p.1.name = s) with
      | some (f, idx) => .ok (.function f.name idx f.numArgs)
      | none =>
        match cfg.asyncFunctions.find? (fun f => f.name = s) with
        | some f => .ok (.function f.name (f.idx + cfg.functions.length) f.numArgs)
        | none =>
          match cfg.tokenMap s with
          | some token => .ok token
          | none =>
            match parseDurationMillis s with
            | some ms => .ok (.constant (.integer (FixedInt.wrapSigned 64 ms)))
            | none => .error ("Invalid variable or constant " ++ strDebug s)

/-- The state of `Tokenizer`. -/
structure Tokenizer where
  iter : List UInt8
  buf : List UInt8
  depth : ℕ
  nextToken : List Token
  hasNumber : Bool
  hasDot : Bool
  hasAlpha : Bool
  isStart : Bool
  isEof : Bool

/-- `Tokenizer::new`. -/
def Tokenizer.new (expr : String) : Tokenizer :=
  ⟨asBytes expr, [], 0, [], false, false, false, true, false⟩

namespace Tokenizer

variable (cfg : TokenizerConfig)

/-- The word in the buffer as a token, with the buffer emptied. -/
def takeBuf (tok : Tokenizer) : Except String (Token × Tokenizer) := do
  let token ← parseBuf cfg tok.buf tok.hasNumber tok.hasDot tok.hasAlpha
  pure (token, { tok with buf := [], hasNumber := false, hasDot := false, hasAlpha := false })

/-- Consume the next byte when it is `c` (`iter.peek` then `iter.next`). -/
def skipIf (c : Char) (tok : Tokenizer) : Tokenizer :=
  match tok.iter with
  | ch :: rest => if ch = byte c then { tok with iter := rest } else tok
  | [] => tok

/-- The word that a delimiter ends, and the delimiter: after `matches` and
`config_get` the `(` brings a regex or a setting, read up to its closing quote
(and, for a regex, up to the comma after it). -/
def endWord (ch : UInt8) (tok : Tokenizer) : Except String (Option Token × UInt8 × Tokenizer) :=
  if ch = byte '(' ∧ tok.buf = "matches".toList.map byte then do
    let (stopCh, iter) ← findChar ['"', '\''] tok.iter
    let (regexStr, iter) ← parseString stopCh iter
    match cfg.regexError regexStr with
    | some e => .error ("Invalid regular expression " ++ strDebug regexStr ++ ": " ++ e)
    | none =>
      let (_, iter) ← findChar [','] iter
      pure (some (.regex regexStr), byte '(', { tok with iter, hasAlpha := false, buf := [] })
  else if ch = byte '(' ∧ tok.buf = "config_get".toList.map byte then do
    let (stopCh, iter) ← findChar ['"', '\''] tok.iter
    let (settingStr, iter) ← parseString stopCh iter
    pure (some (.setting (Setting.ofString settingStr)), byte '(',
      { tok with iter, hasAlpha := false, buf := [] })
  else if tok.buf ≠ [] then do
    let (token, tok) ← takeBuf cfg { tok with isStart := false }
    pure (some token, ch, tok)
  else pure (none, ch, tok)

/-- The token of a delimiter byte; `none` for a blank, which only ends a word. -/
def delimiterToken (ch : UInt8) (tok : Tokenizer) : Except String (Option Token × Tokenizer) :=
  match byteChar ch with
  | '&' => .ok (some (.binaryOperator .and), skipIf '&' tok)
  | '|' => .ok (some (.binaryOperator .or), skipIf '|' tok)
  | '!' =>
    match tok.iter with
    | c :: rest =>
      if c = byte '=' then .ok (some (.binaryOperator .ne), { tok with iter := rest })
      else .ok (some (.unaryOperator .not), tok)
    | [] => .ok (some (.unaryOperator .not), tok)
  | '^' => .ok (some (.binaryOperator .xor), tok)
  | '(' => .ok (some .openParen, { tok with depth := tok.depth + 1 })
  | ')' =>
    if tok.depth = 0 then .error "Unmatched close parenthesis"
    else .ok (some .closeParen, { tok with depth := tok.depth - 1 })
  | '+' => .ok (some (.binaryOperator .add), tok)
  | '*' => .ok (some (.binaryOperator .multiply), tok)
  | '/' => .ok (some (.binaryOperator .divide), tok)
  | '-' =>
    if tok.isStart then .ok (some (.unaryOperator .minus), tok)
    else .ok (some (.binaryOperator .subtract), tok)
  | '=' =>
    -- the byte after `=` is consumed whatever it is
    match tok.iter with
    | c :: rest =>
      let op : BinaryOperator :=
        if c = byte '=' then .eq else if c = byte '>' then .ge else if c = byte '<' then .le else .eq
      .ok (some (.binaryOperator op), { tok with iter := rest })
    | [] => .ok (some (.binaryOperator .eq), tok)
  | '>' =>
    match tok.iter with
    | c :: rest =>
      if c = byte '=' then .ok (some (.binaryOperator .ge), { tok with iter := rest })
      else .ok (some (.binaryOperator .gt), tok)
    | [] => .ok (some (.binaryOperator .gt), tok)
  | '<' =>
    match tok.iter with
    | c :: rest =>
      if c = byte '=' then .ok (some (.binaryOperator .le), { tok with iter := rest })
      else .ok (some (.binaryOperator .lt), tok)
    | [] => .ok (some (.binaryOperator .lt), tok)
  | ',' => .ok (some .comma, tok)
  | '[' => .ok (some .openBracket, tok)
  | ']' => .ok (some .closeBracket, tok)
  | ' ' | '\r' | '\n' => .ok (none, tok)
  | '"' | '\'' => do
    let (s, iter) ← parseString ch tok.iter
    pure (some (.constant (.string s)), { tok with iter })
  | c => .error ("Invalid character " ++ charDebug c)

/-- Whether a token leaves the tokenizer at the start of an operand, where `-`
is a sign. -/
def startsOperand : Token → Bool
  | .openParen | .comma | .binaryOperator _ => true
  | _ => false

/-- The `_` arm of `Tokenizer::next`: `some` result to return, or `none` to go
on reading (a blank that ends no word). -/
def delimit (ch : UInt8) (tok : Tokenizer) :
    Except String (Option (Option Token × Tokenizer)) := do
  let (prevToken, ch, tok) ← endWord cfg ch tok
  let (token, tok) ← delimiterToken ch tok
  match token with
  | none => pure (if prevToken.isSome then some (prevToken, tok) else none)
  | some token =>
    let tok := { tok with isStart := startsOperand token }
    if prevToken.isSome then pure (some (prevToken, { tok with nextToken := token :: tok.nextToken }))
    else pure (some (some token, tok))

/-- After the loop of `Tokenizer::next`: open parentheses are an error, and a
word left in the buffer is the last token. -/
def atEnd (tok : Tokenizer) : Except String (Option Token × Tokenizer) :=
  if 0 < tok.depth then .error "Unmatched open parenthesis"
  else if tok.buf ≠ [] then do
    let (token, tok) ← takeBuf cfg tok
    pure (some token, tok)
  else .ok (none, tok)

/-- The loop of `Tokenizer::next`, over the bytes not yet read; the state's own
`iter` is replaced by the rest at each byte. -/
def scan : List UInt8 → Tokenizer → Except String (Option Token × Tokenizer)
  | [], tok => atEnd cfg { tok with iter := [] }
  | ch :: rest, tok =>
    let tok := { tok with iter := rest }
    let c := byteChar ch
    if c.isAlpha || c = '_' || c = '$' then
      scan rest { tok with buf := tok.buf ++ [ch], hasAlpha := true }
    else if c.isDigit then scan rest { tok with buf := tok.buf ++ [ch], hasNumber := true }
    else if c = '.' then scan rest { tok with buf := tok.buf ++ [ch], hasDot := true }
    else if c = '}' then atEnd cfg { tok with isEof := true }
    else if (c = '-' && tok.buf.getLast? = some (byte '[')) || (c = ':' && tok.buf.contains (byte '.')) ||
        (c = ']' && tok.buf.contains (byte '[')) ||
        (c = '*' && (tok.buf.getLast? = some (byte '[') || tok.buf.getLast? = some (byte '.'))) then
      scan rest { tok with buf := tok.buf ++ [ch] }
    else
      match delimit cfg ch tok with
      | .error e => .error e
      | .ok (some r) => .ok r
      | .ok none => scan rest tok

/-- `Tokenizer::next`. -/
def next (tok : Tokenizer) : Except String (Option Token × Tokenizer) :=
  match tok.nextToken with
  | token :: rest => .ok (some token, { tok with nextToken := rest })
  | [] => if tok.isEof then .ok (none, tok) else scan cfg tok.iter tok

/-- `next` called until it returns nothing or fails, at most `fuel` times. -/
def run : ℕ → Tokenizer → List Token × Option String
  | 0, _ => ([], none)
  | fuel + 1, tok =>
    match next cfg tok with
    | .error e => ([], some e)
    | .ok (none, _) => ([], none)
    | .ok (some token, tok) =>
      let r := run fuel tok
      (token :: r.1, r.2)

end Tokenizer

/-- The tokens of an expression and the tokenizer's error, if any. Each call of
`next` that returns a token reads a byte or the token a previous call kept, so
twice the length plus one calls reach the end. -/
def tokenize (cfg : TokenizerConfig) (expr : String) : List Token × Option String :=
  Tokenizer.run cfg (2 * (asBytes expr).length + 1) (Tokenizer.new expr)

end EsmpServer.Expr
