import EsmpServer.Lib.Decimal

/-!
# IMAP sequence sets

`Sequence` is the parsed form of an IMAP sequence set (imap-proto protocol/mod.rs): a
number, a range whose open ends stand for the largest uid or sequence number, the saved
search `$`, or a list of these. `parse_sequence_set` (parser/mod.rs) reads one in a single
pass over the bytes with five flags, flushing the pending element at every `,` and at the
last byte. `serialize_sequence` writes a list of ids, coalescing runs of consecutive ids
into ranges.
-/

namespace EsmpServer.Imap

open DecimalBytes (ascii)

/-- `Sequence`; the source names the second field of a range `end`. -/
inductive Sequence where
  | number (value : UInt32)
  | range (start stop : Option UInt32)
  | savedSearch
  | list (items : List Sequence)
  deriving Repr

mutual

/-- `Sequence::contains`: whether `value` is in the set when the largest id is `maxValue`. -/
def Sequence.contains (value maxValue : UInt32) : Sequence → Bool
  | .number n => n == value
  | .range (some start) (some stop) =>
    value ≥ start && value ≤ stop || value ≥ stop && value ≤ start
  | .range (some bound) none | .range none (some bound) =>
    value ≥ bound && value ≤ maxValue || value ≥ maxValue && value ≤ bound
  | .range none none => value == maxValue
  | .list items => Sequence.containsAny value maxValue items
  | .savedSearch => false

/-- The loop of `Sequence::contains` over the items of a list. -/
def Sequence.containsAny (value maxValue : UInt32) : List Sequence → Bool
  | [] => false
  | item :: items => item.contains value maxValue || Sequence.containsAny value maxValue items

end

/-- The errors of `parse_sequence_set`; each one's text is in its docstring, where `{:?}`
stands for the whole input. -/
inductive SequenceError where
  /-- "Invalid sequence set {:?}, parse error." -/
  | parseError
  /-- "Invalid sequence set {:?}, number expected before ':'." -/
  | numberExpectedBeforeColon
  /-- "Invalid sequence set {:?}, ':' appears multiple times." -/
  | colonRepeated
  /-- "Invalid sequence set {:?}, invalid use of '*'." -/
  | invalidWildcard
  /-- "Invalid sequence set {:?}, '*' appears multiple times." -/
  | wildcardRepeated
  /-- "Invalid sequence set {:?}, unexpected token after '$'." -/
  | tokenAfterSavedSearch
  /-- "Invalid sequence set {:?}, found invalid character '{}' at position {}." -/
  | invalidCharacter (ch : UInt8) (pos : ℕ)
  /-- "Invalid sequence set {:?}, expected number." -/
  | expectedNumber
  /-- "Expected a number, found {:?}.", from `parse_number` on the bytes it was given. -/
  | notANumber (text : List UInt8)
  /-- "Invalid empty sequence set." -/
  | emptySet
  deriving DecidableEq, Repr

/-- `parse_number::<u32>`. -/
def parseNumber (bytes : List UInt8) : Except SequenceError UInt32 :=
  match DecimalBytes.parse 32 bytes with
  | some n => .ok n.toUInt32
  | none => .error (.notANumber bytes)

/-- `value.get(start..stop)`. -/
def slice (value : List UInt8) (start stop : ℕ) : Option (List UInt8) :=
  if start ≤ stop ∧ stop ≤ value.length then some ((value.drop start).take (stop - start))
  else none

/-- The number written in `value` from `start` to `stop`. -/
def numberAt (value : List UInt8) (start stop : ℕ) : Except SequenceError UInt32 := do
  let bytes ← (slice value start stop).elim (.error .parseError) .ok
  parseNumber bytes

/-- The number of the pending token, which ends at `stop`. -/
def tokenNumber (value : List UInt8) (tokenStart : Option ℕ) (stop : ℕ) :
    Except SequenceError UInt32 := do
  let start ← tokenStart.elim (.error .expectedNumber) .ok
  numberAt value start stop

/-- The local variables of the loop of `parse_sequence_set`. -/
structure ParseState where
  sequenceSet : List Sequence
  rangeStart : Option UInt32
  tokenStart : Option ℕ
  isWildcard : Bool
  isRange : Bool
  isSavedSearch : Bool
  deriving Repr

/-- The variables before the first byte. -/
def ParseState.init : ParseState := ⟨[], none, none, false, false, false⟩

/-- What the loop ends with when it returns early: the function's result. -/
abbrev ParseExit := Except SequenceError Sequence

/-- The `match ch` of the loop at byte `ch`, position `pos`: whether the byte ends a
token, and the new variables. -/
def scanByte (value : List UInt8) (pos : ℕ) (ch : UInt8) (st : ParseState) :
    Except ParseExit (Bool × ParseState) :=
  match ch with
  | 44 => .ok (true, st)
  | 58 =>
    if !st.isRange then
      match st.tokenStart with
      | some fromPos =>
        match numberAt value fromPos pos with
        | .ok start =>
          .ok (false, { st with rangeStart := some start, tokenStart := none, isRange := true })
        | .error e => .error (.error e)
      | none =>
        if st.isWildcard then .ok (false, { st with isWildcard := false, isRange := true })
        else .error (.error .numberExpectedBeforeColon)
    else .error (.error .colonRepeated)
  | 42 =>
    if !st.isWildcard then
      if value.length = 1 then .error (.ok (.range none none))
      else if st.tokenStart.isNone then .ok (false, { st with isWildcard := true })
      else .error (.error .invalidWildcard)
    else .error (.error .wildcardRepeated)
  | 36 =>
    if value[pos + 1]?.all (· == 44) then .ok (false, { st with isSavedSearch := true })
    else .error (.error .tokenAfterSavedSearch)
  | _ =>
    if DecimalBytes.isDigit ch then
      if st.isWildcard then .error (.error .invalidWildcard)
      else .ok (false, if st.tokenStart.isNone then { st with tokenStart := some pos } else st)
    else .error (.error (.invalidCharacter ch pos))

/-- The flush after a byte that ends a token, at `,` or at the last byte: the pending
element is pushed. A range takes its end from the token, or leaves it open after `*`. -/
def flush (value : List UInt8) (pos : ℕ) (addToken : Bool) (st : ParseState) :
    Except SequenceError ParseState :=
  let stop := if addToken then pos else pos + 1
  if st.isRange then do
    let rangeEnd ← if !st.isWildcard then some <$> tokenNumber value st.tokenStart stop
      else pure none
    pure { st with
      sequenceSet := st.sequenceSet ++ [.range st.rangeStart rangeEnd]
      isRange := false
      rangeStart := none
      isWildcard := false
      tokenStart := none }
  else if st.isWildcard then
    pure { st with
      sequenceSet := st.sequenceSet ++ [.range none none]
      isWildcard := false
      tokenStart := none }
  else if st.isSavedSearch then
    pure { st with
      sequenceSet := st.sequenceSet ++ [.savedSearch]
      isSavedSearch := false
      tokenStart := none }
  else do
    let number ← tokenNumber value st.tokenStart stop
    pure { st with sequenceSet := st.sequenceSet ++ [.number number], tokenStart := none }

/-- One turn of the loop of `parse_sequence_set`. -/
def scan (value : List UInt8) (st : ParseState) (item : UInt8 × ℕ) :
    Except ParseExit ParseState :=
  match scanByte value item.2 item.1 st with
  | .error exit => .error exit
  | .ok (addToken, st') =>
    if addToken || item.2 = value.length - 1 then
      (flush value item.2 addToken st').mapError .error
    else .ok st'

/-- `parse_sequence_set`: the loop over the bytes with their positions, then one element
unwrapped, none an error, several a list. -/
def parseSequenceSet (value : List UInt8) : Except SequenceError Sequence :=
  match value.zipIdx.foldlM (scan value) ParseState.init with
  | .error exit => exit
  | .ok st =>
    match st.sequenceSet with
    | [item] => .ok item
    | [] => .error .emptySet
    | items => .ok (.list items)

/-- `serialize_sequence` writes the first id of a run as it starts the run, and the run's
`:last` (when it has more than one id) and a `,` when the next id does not extend it. -/
def closeRun (id rangeId : UInt32) : List UInt8 :=
  if rangeId ≠ id then 58 :: DecimalBytes.ofNat rangeId.toNat else []

/-- One id of `serialize_sequence`: the text so far and the open run `(id, range_id)`. The
peek of the source's inner loop is the comparison with the next id of the list. -/
def serializeStep : List UInt8 × Option (UInt32 × UInt32) → UInt32 →
    List UInt8 × Option (UInt32 × UInt32)
  | (buf, none), id => (buf ++ DecimalBytes.ofNat id.toNat, some (id, id))
  | (buf, some (id, rangeId)), nextId =>
    if nextId = rangeId + 1 then (buf, some (id, nextId))
    else (buf ++ closeRun id rangeId ++ 44 :: DecimalBytes.ofNat nextId.toNat,
      some (nextId, nextId))

/-- The end of `serialize_sequence`: the open run is closed. -/
def serializeFinish : List UInt8 × Option (UInt32 × UInt32) → List UInt8
  | (buf, none) => buf
  | (buf, some (id, rangeId)) => buf ++ closeRun id rangeId

/-- `serialize_sequence`. -/
def serializeSequence (list : List UInt32) : List UInt8 :=
  serializeFinish (list.foldl serializeStep ([], none))

example : parseSequenceSet (ascii "2,4:7,9,12:*") =
    .ok (.list [.number 2, .range (some 4) (some 7), .number 9, .range (some 12) none]) := rfl

example : parseSequenceSet (ascii "*:4,5:7") =
    .ok (.list [.range none (some 4), .range (some 5) (some 7)]) := rfl

example : serializeSequence [3, 4, 5, 7, 9, 10] = ascii "3:5,7,9:10" := by decide

end EsmpServer.Imap
