import EsmpServer.Jmap.JsonString

/-!
# JSON pointers read from a string literal

`JsonObjectParser for JSONPointer` (jmap-proto types/pointer.rs) reads a pointer straight from
the raw bytes of a string literal, one byte a turn, with a five-state token machine: a token
starts `Unknown`, becomes a `Number` on digits, a `Wildcard` on `*`, an `Escaped` after `~`,
and a `String` on any other byte, when the bytes of a number or wildcard read so far are
copied into the buffer. A `/` or the closing quote pushes the token; a JSON backslash pushes
the raw byte after it.

The number is accumulated in `num`, which only the push of a `Number` resets: a token that
starts with digits and turns into a string leaves them in `num`, and the next number token is
read on top of them (`nextToken_pointer_staleNumber`).
-/

namespace EsmpServer.Jmap

/-- `JSONPointer`. -/
inductive JsonPointer where
  | root
  | wildcard
  | string (value : String)
  | number (n : ℕ)
  | path (items : List JsonPointer)
  deriving Repr

mutual

/-- Equality of pointers, decided item by item (the deriving handler does not
reach into the list of a path). -/
def JsonPointer.decEq (a b : JsonPointer) : Decidable (a = b) :=
  match a, b with
  | .root, .root => isTrue rfl
  | .wildcard, .wildcard => isTrue rfl
  | .string s, .string t => decidable_of_iff (s = t) (by simp)
  | .number m, .number n => decidable_of_iff (m = n) (by simp)
  | .path xs, .path ys =>
    match JsonPointer.decEqList xs ys with
    | isTrue h => isTrue (h ▸ rfl)
    | isFalse h => isFalse fun e => h (by cases e; rfl)
  | .root, .wildcard | .root, .string _ | .root, .number _ | .root, .path _
  | .wildcard, .root | .wildcard, .string _ | .wildcard, .number _ | .wildcard, .path _
  | .string _, .root | .string _, .wildcard | .string _, .number _ | .string _, .path _
  | .number _, .root | .number _, .wildcard | .number _, .string _ | .number _, .path _
  | .path _, .root | .path _, .wildcard | .path _, .string _ | .path _, .number _ =>
    isFalse fun e => JsonPointer.noConfusion e

/-- Equality of lists of pointers. -/
def JsonPointer.decEqList (xs ys : List JsonPointer) : Decidable (xs = ys) :=
  match xs, ys with
  | [], [] => isTrue rfl
  | x :: xs, y :: ys =>
    match JsonPointer.decEq x y, JsonPointer.decEqList xs ys with
    | isTrue hx, isTrue hxs => isTrue (by rw [hx, hxs])
    | isFalse hx, _ => isFalse fun e => hx (List.cons.inj e).1
    | _, isFalse hxs => isFalse fun e => hxs (List.cons.inj e).2
  | [], _ :: _ | _ :: _, [] => isFalse (by simp)

end

instance : DecidableEq JsonPointer := JsonPointer.decEq

/-- `TokenType`. -/
inductive PointerToken where
  | unknown
  | number
  | string
  | wildcard
  | escaped
  deriving DecidableEq, Repr

/-- The local variables of the loop: the pointer so far, the number and the bytes of the
current token, its type, and where it started. -/
structure PointerState where
  path : List JsonPointer
  num : ℕ
  buf : List UInt8
  token : PointerToken
  startPos : ℕ

/-- `u64::saturating_mul(10)` then `saturating_add(d)`. -/
def accumulateU64 (num d : ℕ) : ℕ := min (min (num * 10) (2 ^ 64 - 1) + d) (2 ^ 64 - 1)

/-- The push at `/` or at the closing quote, read at position `pos`: the token, if any, is
added to the pointer. An `Unknown` token is an empty string except before the first `/`. -/
def PointerState.flush (st : PointerState) (posMarker pos : ℕ) :
    Except JsonError PointerState :=
  match st.token with
  | .string =>
    match fromUtf8 st.buf with
    | some s => .ok { st with path := st.path ++ [.string s], buf := [] }
    | none => .error (.invalidUtf8 pos)
  | .number => .ok { st with path := st.path ++ [.number st.num], num := 0 }
  | .wildcard => .ok { st with path := st.path ++ [.wildcard] }
  | .unknown => .ok (if posMarker ≠ st.startPos then { st with path := st.path ++ [.string ""] } else st)
  | .escaped => .ok st

/-- The pointer returned at the closing quote: one token alone, none the root. -/
def pointerResult (path : List JsonPointer) : JsonPointer :=
  match path with
  | [item] => item
  | [] => .root
  | items => .path items

/-- The loop of the parser over the bytes left, `pos` the position before the byte read. A
number or wildcard token that meets another byte copies its bytes since `start_pos` into the
buffer first. -/
def pointerLoop (bytes : List UInt8) (posMarker : ℕ) :
    PointerState → List UInt8 → ℕ → Except JsonError (JsonPointer × List UInt8 × ℕ)
  | st, ch :: rest, pos =>
    if 48 ≤ ch ∧ ch ≤ 57 ∧ (st.token = .unknown ∨ st.token = .number) then
      pointerLoop bytes posMarker
        { st with num := accumulateU64 st.num (ch.toNat - 48), token := .number } rest (pos + 1)
    else if ch = 42 ∧ st.token = .unknown then
      pointerLoop bytes posMarker { st with token := .wildcard } rest (pos + 1)
    else if ch = 48 ∧ st.token = .escaped then
      pointerLoop bytes posMarker { st with buf := st.buf ++ [126], token := .string } rest (pos + 1)
    else if ch = 49 ∧ st.token = .escaped then
      pointerLoop bytes posMarker { st with buf := st.buf ++ [47], token := .string } rest (pos + 1)
    else if ch = 47 ∨ ch = 34 then
      match st.flush posMarker (pos + 1) with
      | .error e => .error e
      | .ok st' =>
        if ch = 47 then
          pointerLoop bytes posMarker { st' with token := .unknown, startPos := pos + 1 } rest
            (pos + 1)
        else .ok (pointerResult st'.path, rest, pos + 1)
    else
      let buf := if (st.token = .number ∨ st.token = .wildcard) ∧ st.startPos < pos then
          st.buf ++ sliceBytes bytes st.startPos pos
        else st.buf
      if ch = 126 ∧ st.token ≠ .escaped then
        pointerLoop bytes posMarker { st with buf := buf, token := .escaped } rest (pos + 1)
      else if ch = 92 then
        match rest with
        | c :: rest' =>
          pointerLoop bytes posMarker { st with buf := buf ++ [c], token := .string } rest' (pos + 2)
        | [] => pointerLoop bytes posMarker { st with buf := buf ++ [92], token := .string } [] (pos + 2)
      else pointerLoop bytes posMarker { st with buf := buf ++ [ch], token := .string } rest (pos + 1)
  | _, [], pos => .error (.unterminated (pos + 1))

/-- `JsonObjectParser for JSONPointer`. -/
def parsePointer (p : Parser) : Except JsonError (JsonPointer × Parser) :=
  match pointerLoop p.bytes p.posMarker ⟨[], 0, [], .unknown, p.pos⟩ p.rest p.pos with
  | .ok (ptr, rest, pos) => .ok (ptr, { p with rest := rest, pos := pos, isEof := true })
  | .error e => .error e

instance : JsonObjectParser JsonPointer := ⟨parsePointer⟩

/-- The pointer of the string token `next_token::<JSONPointer>` reads first from a text, as
the source's tests take it with `unwrap_string`. -/
def readPointer (readFloat : List UInt8 → Option Float) (text : List UInt8) :
    Option JsonPointer :=
  match (Parser.new text).nextToken (T := JsonPointer) readFloat with
  | .ok (.string ptr, _) => some ptr
  | _ => none

example : readPointer (fun _ => none) (DecimalBytes.ascii "\"/hello/1~0~1/*~1~0\"") =
    some (.path [.string "hello", .string "1~/", .string "*/~"]) := by decide +kernel

example : readPointer (fun _ => none) (DecimalBytes.ascii "\"///\"") =
    some (.path [.string "", .string "", .string ""]) := by decide +kernel

-- the escape of a slash is a byte of the token, not a separator
example : readPointer (fun _ => none) (DecimalBytes.ascii "\"\\/a\"") = some (.string "/a") := by
  decide +kernel

/-- The pointer `/1a/2`: its second token is the number 2, but the digit of `1a` is still in
`num` when `2` is read. -/
theorem nextToken_pointer_staleNumber :
    readPointer (fun _ => none) (DecimalBytes.ascii "\"/1a/2\"") =
      some (.path [.string "1a", .number 12]) := by
  decide +kernel

end EsmpServer.Jmap
