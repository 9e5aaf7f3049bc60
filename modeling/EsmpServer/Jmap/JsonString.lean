import EsmpServer.Jmap.Json

/-!
# Where a string literal ends

RFC 8259 writes a string literal as a quote, its characters and a quote. A character is a byte
other than a quote, a backslash or a control byte; a two-byte escape `\c`; or a six-byte escape
`\uXXXX`. A literal has two readers in the lexer. The `String` parser decodes it; its fast path
is the slow path with the bytes read so far as the buffer (`stringLoop_eq_escapedLoop`), and it
stops just after the closing quote of every literal whose escapes it can decode. `skip_string`
runs over the characters, where every quote byte is an escaped one, and at the closing quote
looks only at the byte before it. So the `Ignore` parser stops at the same place exactly when
the literal does not end with the escape `\\`.
-/

namespace EsmpServer.Jmap

open DecimalBytes (ascii)

/-- One character of a string literal, as it is written between the quotes. -/
inductive LiteralChar where
  /-- A byte written as itself. -/
  | byte (b : UInt8)
  /-- A two-byte escape `\c`. -/
  | escape (c : UInt8)
  /-- A six-byte escape `\uXXXX`, with its four digits. -/
  | unicode (code : List UInt8)
  deriving DecidableEq, Repr

namespace LiteralChar

/-- The bytes the character is written with. -/
def text : LiteralChar → List UInt8
  | .byte b => [b]
  | .escape c => [92, c]
  | .unicode code => 92 :: 117 :: code

/-- The characters RFC 8259 allows: no quote, backslash or control byte written as itself, the
eight two-byte escapes, and four hexadecimal digits after `\u`. -/
def Valid : LiteralChar → Prop
  | .byte b => 32 ≤ b ∧ b ≠ 34 ∧ b ≠ 92
  | .escape c => c ∈ [34, 92, 47, 98, 102, 110, 114, 116]
  | .unicode code => code.length = 4 ∧ ∀ h ∈ code, (hexDigit? h).isSome

instance (c : LiteralChar) : Decidable c.Valid :=
  match c with
  | .byte b => inferInstanceAs (Decidable (32 ≤ b ∧ b ≠ 34 ∧ b ≠ 92))
  | .escape c => inferInstanceAs (Decidable (c ∈ [34, 92, 47, 98, 102, 110, 114, 116]))
  | .unicode code =>
    inferInstanceAs (Decidable (code.length = 4 ∧ ∀ h ∈ code, (hexDigit? h).isSome))

/-- The bytes the `String` parser decodes the character to, none where `\u` fails. -/
def decoded : LiteralChar → Option (List UInt8)
  | .byte b => some [b]
  | .escape c => some [escapeByte c]
  | .unicode code =>
    match unicodeEscape code 0 with
    | .ok bytes => some bytes
    | .error _ => none

/-- The last byte the character is written with. -/
def lastByte : LiteralChar → UInt8
  | .byte b => b
  | .escape c => c
  | .unicode code => code.getLastD 117

end LiteralChar

/-- The bytes of a literal's characters, between its quotes. -/
def literalText (cs : List LiteralChar) : List UInt8 := cs.flatMap LiteralChar.text

@[simp] theorem literalText_nil : literalText [] = [] := rfl

@[simp] theorem literalText_cons (c : LiteralChar) (cs : List LiteralChar) :
    literalText (c :: cs) = c.text ++ literalText cs := rfl

theorem ne_quote_of_hexDigit {h : UInt8} (hh : (hexDigit? h).isSome) : h ≠ 34 := by
  rintro rfl
  simp [hexDigit?] at hh

theorem ne_backslash_of_hexDigit {h : UInt8} (hh : (hexDigit? h).isSome) : h ≠ 92 := by
  rintro rfl
  simp [hexDigit?] at hh

theorem LiteralChar.eq_four_of_valid {code : List UInt8} (hc : (LiteralChar.unicode code).Valid) :
    ∃ h1 h2 h3 h4, code = [h1, h2, h3, h4] ∧
      h1 ≠ 34 ∧ h2 ≠ 34 ∧ h3 ≠ 34 ∧ h4 ≠ 34 ∧ h4 ≠ 92 := by
  obtain ⟨hlen, hhex⟩ := hc
  obtain ⟨h1, h2, h3, h4, rfl⟩ := List.length_eq_four.mp hlen
  exact ⟨h1, h2, h3, h4, rfl, ne_quote_of_hexDigit (hhex h1 (by simp)),
    ne_quote_of_hexDigit (hhex h2 (by simp)), ne_quote_of_hexDigit (hhex h3 (by simp)),
    ne_quote_of_hexDigit (hhex h4 (by simp)), ne_backslash_of_hexDigit (hhex h4 (by simp))⟩

theorem LiteralChar.lastByte_eq_backslash {c : LiteralChar} (hc : c.Valid) :
    c.lastByte = 92 ↔ c = .escape 92 := by
  cases c with
  | byte b => simpa [lastByte] using hc.2.2
  | escape c => simp [lastByte]
  | unicode code =>
    obtain ⟨h1, h2, h3, h4, rfl, -, -, -, -, h4ne⟩ := eq_four_of_valid hc
    simpa [lastByte] using h4ne

/-! ## `skip_string` -/

theorem skipLoop_quote (lastCh : UInt8) (rest : List UInt8) (pos : ℕ) :
    skipLoop lastCh (34 :: rest) pos =
      if lastCh = 92 then skipLoop 34 rest (pos + 1) else (true, rest, pos + 1) := by
  by_cases h : lastCh = 92 <;> simp [skipLoop, h]

theorem skipLoop_text {c : LiteralChar} (hc : c.Valid) (lastCh : UInt8) (rest : List UInt8)
    (pos : ℕ) : skipLoop lastCh (c.text ++ rest) pos = skipLoop c.lastByte rest (pos + c.text.length) := by
  cases c with
  | byte b =>
    simp [LiteralChar.text, LiteralChar.lastByte, skipLoop, hc.2.1]
  | escape c =>
    simp [LiteralChar.text, LiteralChar.lastByte, skipLoop]
  | unicode code =>
    obtain ⟨h1, h2, h3, h4, rfl, hq1, hq2, hq3, hq4, -⟩ := LiteralChar.eq_four_of_valid hc
    simp [LiteralChar.text, LiteralChar.lastByte, skipLoop, hq1, hq2, hq3, hq4]

theorem skipLoop_literalText {cs : List LiteralChar} (hcs : ∀ c ∈ cs, c.Valid) (lastCh : UInt8)
    (rest : List UInt8) (pos : ℕ) :
    skipLoop lastCh (literalText cs ++ rest) pos =
      skipLoop ((cs.getLast?.map LiteralChar.lastByte).getD lastCh) rest
        (pos + (literalText cs).length) := by
  induction cs generalizing lastCh pos with
  | nil => rfl
  | cons c cs ih =>
    have hlast : ((c :: cs).getLast?.map LiteralChar.lastByte).getD lastCh =
        (cs.getLast?.map LiteralChar.lastByte).getD c.lastByte := by
      rw [List.getLast?_cons]
      cases cs.getLast? <;> rfl
    rw [literalText_cons, List.append_assoc, skipLoop_text (hcs c (by simp)),
      ih (fun c hc => hcs c (by simp [hc])), hlast, List.length_append, Nat.add_assoc]

theorem lt_skipLoop_pos : ∀ (lastCh : UInt8) (l : List UInt8) (pos : ℕ),
    pos < (skipLoop lastCh l pos).2.2
  | lastCh, ch :: rest, pos => by
    unfold skipLoop
    split
    · simp
    · exact lt_trans (Nat.lt_succ_self pos) (lt_skipLoop_pos ch rest (pos + 1))
  | _, [], pos => Nat.lt_succ_self pos

/-! ## The `String` parser -/

theorem sliceBytes_self (bytes : List UInt8) (pos : ℕ) : sliceBytes bytes pos pos = [] := by
  simp [sliceBytes]

theorem sliceBytes_succ {bytes rest : List UInt8} {startPos pos : ℕ} {ch : UInt8}
    (hdrop : bytes.drop pos = ch :: rest) (hle : startPos ≤ pos) :
    sliceBytes bytes startPos (pos + 1) = sliceBytes bytes startPos pos ++ [ch] := by
  have hlen : pos < bytes.length := by
    have := congrArg List.length hdrop
    simp only [List.length_drop, List.length_cons] at this
    omega
  have hget : bytes[pos]? = some ch := by
    rw [← List.head?_drop, hdrop]
    rfl
  rw [sliceBytes, sliceBytes, show pos + 1 - startPos = (pos - startPos) + 1 by omega,
    List.take_add_one, List.getElem?_drop, show startPos + (pos - startPos) = pos by omega, hget]
  rfl

theorem stringLoop_eq_escapedLoop (bytes : List UInt8) (startPos : ℕ) :
    ∀ (l : List UInt8) (pos : ℕ), bytes.drop pos = l → startPos ≤ pos →
      stringLoop bytes startPos l pos = escapedLoop false (sliceBytes bytes startPos pos) l pos
  | [], _, _, _ => rfl
  | ch :: rest, pos, hdrop, hle => by
    have hrest : bytes.drop (pos + 1) = rest := by
      rw [← List.drop_drop, hdrop]
      rfl
    by_cases h92 : ch = 92
    · subst h92
      rw [escapedLoop_backslash]
      simp [stringLoop]
    · by_cases h34 : ch = 34
      · subst h34
        rw [escapedLoop_quote]
        simp [stringLoop]
      · rw [escapedLoop_byte h92 h34, ← sliceBytes_succ hdrop hle,
          ← stringLoop_eq_escapedLoop bytes startPos rest (pos + 1) hrest (by omega)]
        simp [stringLoop, h92, h34]

theorem unicodeEscape_pos {code bytes : List UInt8} {pos : ℕ} (h : unicodeEscape code 0 = .ok bytes) :
    unicodeEscape code pos = .ok bytes := by
  unfold unicodeEscape at h ⊢
  cases hu : fromUtf8 code with
  | none => simp [hu] at h
  | some _ =>
    cases hp : parseHex code with
    | none => simp [hu, hp] at h
    | some n =>
      by_cases hv : n.isValidChar
      · simpa [hu, hp, hv] using h
      · simp [hu, hp, hv] at h

theorem escapedLoop_text {c : LiteralChar} (hc : c.Valid) {d : List UInt8} (hd : c.decoded = some d)
    (buf rest : List UInt8) (pos : ℕ) :
    escapedLoop false buf (c.text ++ rest) pos =
      escapedLoop false (buf ++ d) rest (pos + c.text.length) := by
  cases c with
  | byte b =>
    obtain ⟨-, hb34, hb92⟩ := hc
    cases hd
    exact escapedLoop_byte hb92 hb34 buf rest pos
  | escape c =>
    have hu : c ≠ 117 := by
      rintro rfl
      simp [LiteralChar.Valid] at hc
    cases hd
    rw [LiteralChar.text, List.cons_append, List.cons_append, List.nil_append,
      escapedLoop_backslash, escapedLoop_escaped hu]
    rfl
  | unicode code =>
    obtain ⟨h1, h2, h3, h4, rfl, -⟩ := LiteralChar.eq_four_of_valid hc
    have hok : unicodeEscape [h1, h2, h3, h4] 0 = .ok d := by
      simp only [LiteralChar.decoded] at hd
      split at hd
      · cases hd
        assumption
      · cases hd
    rw [LiteralChar.text, List.cons_append, List.cons_append, escapedLoop_backslash]
    exact escapedLoop_unicode (unicodeEscape_pos hok) buf rest

theorem escapedLoop_literalText {cs : List LiteralChar} (hcs : ∀ c ∈ cs, c.Valid)
    {ds : List (List UInt8)} (hds : cs.mapM LiteralChar.decoded = some ds)
    (buf rest : List UInt8) (pos : ℕ) :
    escapedLoop false buf (literalText cs ++ 34 :: rest) pos =
      match fromUtf8 (buf ++ ds.flatten) with
      | some s => .ok (s, rest, pos + (literalText cs).length + 1)
      | none => .error (.invalidUtf8 (pos + (literalText cs).length + 1)) := by
  induction cs generalizing buf pos ds with
  | nil =>
    simp only [List.mapM_nil, Option.pure_def, Option.some.injEq] at hds
    subst hds
    rw [literalText_nil, List.nil_append, escapedLoop_quote, List.flatten_nil, List.append_nil]
    rfl
  | cons c cs ih =>
    obtain ⟨d, hd, ds', hds', rfl⟩ : ∃ d, c.decoded = some d ∧
        ∃ ds', cs.mapM LiteralChar.decoded = some ds' ∧ d :: ds' = ds := by
      simpa [List.mapM_cons, Option.bind_eq_some_iff] using hds
    rw [literalText_cons, List.append_assoc, escapedLoop_text (hcs c (by simp)) hd,
      ih (fun c hc => hcs c (by simp [hc])) hds', List.flatten_cons, List.append_assoc,
      List.length_append]
    simp only [Nat.add_assoc]

theorem LiteralChar.decoded_surrogate {code : List UInt8} {n : ℕ} (hn : parseHex code = some n)
    (hlo : 0xD800 ≤ n) (hhi : n ≤ 0xDFFF) : (LiteralChar.unicode code).decoded = none := by
  have hv : ¬n.isValidChar := by
    simp only [Nat.isValidChar]
    omega
  unfold LiteralChar.decoded unicodeEscape
  cases hu : fromUtf8 code <;> simp [hu, hn, hv]

/-! ## Reading a literal as a token -/

/-- The parser's position counts exactly the bytes its iterator has taken. -/
def Parser.Synced (p : Parser) : Prop := p.rest = p.bytes.drop p.pos

theorem Parser.synced_new (bytes : List UInt8) : (Parser.new bytes).Synced := rfl

theorem parse_string_eq (p : Parser) : JsonObjectParser.parse (T := String) p = parseString p := rfl

theorem parse_ignore_eq (p : Parser) : JsonObjectParser.parse (T := Ignore) p = parseIgnore p := rfl

theorem parseString_literal {p : Parser} {cs : List LiteralChar} {rest : List UInt8}
    {ds : List (List UInt8)} {s : String} (hsync : p.Synced)
    (hrest : p.rest = literalText cs ++ 34 :: rest) (hcs : ∀ c ∈ cs, c.Valid)
    (hds : cs.mapM LiteralChar.decoded = some ds) (hs : fromUtf8 ds.flatten = some s) :
    parseString p = .ok (s, { p with
      rest := rest
      pos := p.pos + (literalText cs).length + 1
      isEof := true }) := by
  have hdrop : p.bytes.drop p.pos = literalText cs ++ 34 :: rest := hsync ▸ hrest
  unfold parseString
  rw [hrest, stringLoop_eq_escapedLoop _ _ _ _ hdrop le_rfl, sliceBytes_self,
    escapedLoop_literalText hcs hds, List.nil_append, hs]

theorem parseIgnore_literal {p : Parser} {cs : List LiteralChar} {rest : List UInt8}
    (hrest : p.rest = literalText cs ++ 34 :: rest) (hcs : ∀ c ∈ cs, c.Valid) :
    parseIgnore p =
      if cs.getLast? = some (.escape 92) then
        match skipLoop 34 rest (p.pos + (literalText cs).length + 1) with
        | (true, rest', pos) => .ok (⟨⟩, { p with rest := rest', pos := pos, isEof := true })
        | (false, _, pos) => .error (.unterminated pos)
      else .ok (⟨⟩, { p with
        rest := rest
        pos := p.pos + (literalText cs).length + 1
        isEof := true }) := by
  have hlast : ((cs.getLast?.map LiteralChar.lastByte).getD 0 = 92) ↔
      cs.getLast? = some (.escape 92) := by
    cases hc : cs.getLast? with
    | none => simp
    | some c =>
      simpa using LiteralChar.lastByte_eq_backslash (hcs c (List.mem_of_getLast? hc))
  unfold parseIgnore Parser.skipString
  rw [hrest, skipLoop_literalText hcs, skipLoop_quote]
  by_cases hend : cs.getLast? = some (.escape 92)
  · rw [if_pos (hlast.mpr hend), if_pos hend]
    rcases skipLoop 34 rest (p.pos + (literalText cs).length + 1) with ⟨_ | _, rest', pos⟩ <;> simp
  · rw [if_neg (mt hlast.mp hend), if_neg hend]
    simp

variable (readFloat : List UInt8 → Option Float)

theorem Parser.nextToken_quote {T : Type} [JsonObjectParser T] {p : Parser} {l : List UInt8}
    (hnext : p.nextCh = none) (hrest : p.rest = 34 :: l) :
    p.nextToken (T := T) readFloat =
      ({ p with rest := l, pos := p.pos + 1 } : Parser).stringToken (T := T) := by
  simp [Parser.nextToken, hnext, Parser.nextChar, hrest, isWhitespace, Parser.tokenAt]

theorem Parser.stringToken_of_parse {T : Type} [JsonObjectParser T] {p p' : Parser} {v : T}
    (h : JsonObjectParser.parse (T := T) { p with posMarker := p.pos, isEof := false } = .ok (v, p'))
    (heof : p'.isEof = true) : p.stringToken (T := T) = .ok (.string v, p') := by
  simp [Parser.stringToken, h, heof]

theorem Parser.nextToken_string_literal {p : Parser} {cs : List LiteralChar}
    {rest : List UInt8} {ds : List (List UInt8)} {s : String}
    (hsync : p.Synced) (hnext : p.nextCh = none)
    (hrest : p.rest = 34 :: (literalText cs ++ 34 :: rest)) (hcs : ∀ c ∈ cs, c.Valid)
    (hds : cs.mapM LiteralChar.decoded = some ds) (hs : fromUtf8 ds.flatten = some s) :
    p.nextToken (T := String) readFloat = .ok (.string s, { p with
      rest := rest
      pos := p.pos + (literalText cs).length + 2
      posMarker := p.pos + 1
      isEof := true }) := by
  have hsync' : ({ p with
      rest := literalText cs ++ 34 :: rest
      pos := p.pos + 1
      posMarker := p.pos + 1
      isEof := false } : Parser).Synced := by
    show _ = p.bytes.drop (p.pos + 1)
    rw [← List.drop_drop, ← hsync, hrest]
    rfl
  rw [Parser.nextToken_quote readFloat hnext hrest]
  refine Parser.stringToken_of_parse ?_ rfl
  dsimp only
  rw [parse_string_eq, parseString_literal hsync' rfl hcs hds hs,
    show p.pos + 1 + (literalText cs).length + 1 = p.pos + (literalText cs).length + 2 by omega]

/-- The literal `"\\uD83D\\uDE00"`, U+1F600 written as RFC 8259 writes a character beyond the
Basic Multilingual Plane: its characters are valid, and `next_token::<String>` fails at the first
escape. -/
theorem nextToken_surrogatePair :
    (∀ c ∈ [LiteralChar.unicode [68, 56, 51, 68], .unicode [68, 69, 48, 48]], c.Valid) ∧
    (Parser.new (34 :: (literalText [.unicode [68, 56, 51, 68], .unicode [68, 69, 48, 48]] ++
      [34]))).nextToken (T := String) readFloat =
        .error (.notJson (.invalidUnicode (ascii "D83D")) 7) :=
  ⟨by simp [LiteralChar.Valid, hexDigit?], rfl⟩

theorem Parser.nextToken_ignore_literal {p : Parser} {cs : List LiteralChar} {rest : List UInt8}
    (hnext : p.nextCh = none) (hrest : p.rest = 34 :: (literalText cs ++ 34 :: rest))
    (hcs : ∀ c ∈ cs, c.Valid) :
    p.nextToken (T := Ignore) readFloat =
      if cs.getLast? = some (.escape 92) then
        match skipLoop 34 rest (p.pos + (literalText cs).length + 2) with
        | (true, rest', pos) => .ok (.string ⟨⟩, { p with
            rest := rest'
            pos := pos
            posMarker := p.pos + 1
            isEof := true })
        | (false, _, pos) => .error (.unterminated pos)
      else .ok (.string ⟨⟩, { p with
        rest := rest
        pos := p.pos + (literalText cs).length + 2
        posMarker := p.pos + 1
        isEof := true }) := by
  rw [Parser.nextToken_quote readFloat hnext hrest]
  unfold Parser.stringToken
  rw [parse_ignore_eq, parseIgnore_literal rfl hcs]
  dsimp only
  rw [show p.pos + 1 + (literalText cs).length + 1 = p.pos + (literalText cs).length + 2 by omega]
  by_cases hend : cs.getLast? = some (.escape 92)
  · rw [if_pos hend, if_pos hend]
    rcases skipLoop 34 rest (p.pos + (literalText cs).length + 2) with ⟨_ | _, rest', pos⟩ <;> simp
  · rw [if_neg hend, if_neg hend]
    simp

theorem Parser.nextToken_ignore_pos_iff {p : Parser} {cs : List LiteralChar}
    {rest : List UInt8} {ds : List (List UInt8)} {s : String}
    (hsync : p.Synced) (hnext : p.nextCh = none)
    (hrest : p.rest = 34 :: (literalText cs ++ 34 :: rest)) (hcs : ∀ c ∈ cs, c.Valid)
    (hds : cs.mapM LiteralChar.decoded = some ds) (hs : fromUtf8 ds.flatten = some s) :
    (p.nextToken (T := Ignore) readFloat).map (·.2.pos) =
        (p.nextToken (T := String) readFloat).map (·.2.pos) ↔
      cs.getLast? ≠ some (.escape 92) := by
  rw [Parser.nextToken_string_literal readFloat hsync hnext hrest hcs hds hs,
    Parser.nextToken_ignore_literal readFloat hnext hrest hcs]
  by_cases hend : cs.getLast? = some (.escape 92)
  · rw [if_pos hend]
    have hlt := lt_skipLoop_pos 34 rest (p.pos + (literalText cs).length + 2)
    rcases hskip : skipLoop 34 rest (p.pos + (literalText cs).length + 2) with
      ⟨_ | _, rest', pos⟩ <;> rw [hskip] at hlt
    · simp [Except.map, hend]
    · simp only [Except.map, Except.ok.injEq, hend, ne_eq, not_true_eq_false, iff_false]
      exact Nat.ne_of_gt hlt
  · rw [if_neg hend]
    simp [Except.map, hend]

/-- The literal `"\\"`, then `,"x"`: `next_token::<String>` stops after the first literal and
`next_token::<Ignore>` inside the second. -/
theorem nextToken_ignore_escapedBackslash :
    (LiteralChar.escape 92).Valid ∧ literalText [.escape 92] = [92, 92] ∧
    ((Parser.new [34, 92, 92, 34, 44, 34, 120, 34]).nextToken (T := String) readFloat).map
      (·.2.pos) = .ok 4 ∧
    ((Parser.new [34, 92, 92, 34, 44, 34, 120, 34]).nextToken (T := Ignore) readFloat).map
      (·.2.pos) = .ok 6 :=
  ⟨by decide, rfl, rfl, rfl⟩

end EsmpServer.Jmap
