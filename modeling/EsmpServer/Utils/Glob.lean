import Mathlib

/-!
# Glob patterns

`GlobPattern` (utils/glob.rs) is a pattern compiled to a list of characters, single-character
wildcards and runs of `*`, with `\` escaping the character after it. `matches` runs the
one-backtrack-point loop of https://research.swtch.com/glob (cited in the source) over the
pattern and the value. `GlobSet` and `GlobMap` keep the patterns that `try_compile` takes for
globs, and the others as literal entries.

`try_compile` decides glob or literal by looking one character back: a `*` or `?` is a
wildcard unless a backslash comes right before it, whether that backslash is itself escaped
or not; and the literal entry is the pattern with every backslash deleted. So an escaped
backslash is read as nothing in a literal entry, and an escaped backslash before a wildcard
turns the whole pattern into a literal (`globSet_insert_escapedBackslash`).

The loop of `matches` runs on a fuel of `(value.length + 2) * (pattern.length + 2)` turns.
-/

namespace EsmpServer.Utils

/-! ## Compiling -/

/-- `PatternChar`; the `match_pos` fields, which nothing reads, are left out. -/
inductive PatternChar where
  | wildcardMany (num : ℕ)
  | wildcardSingle
  | char (char : Char)
  deriving DecidableEq, Repr

/-- `GlobPattern`. -/
structure GlobPattern where
  pattern : List PatternChar
  toLower : Bool
  deriving DecidableEq, Repr

/-- The inner loop `while let Some('*') = str.peek()` of `compile`: the length of a run of
`*` and what follows it. -/
def starRun (num : ℕ) : List Char → ℕ × List Char
  | '*' :: str => starRun (num + 1) str
  | str => (num, str)

theorem starRun_length_le (num : ℕ) (str : List Char) : (starRun num str).2.length ≤ str.length := by
  induction str generalizing num with
  | nil => simp [starRun]
  | cons c str ih =>
    by_cases hc : c = '*'
    · subst hc
      have := ih (num + 1)
      simp only [starRun, List.length_cons]
      omega
    · simp [starRun, hc]

/-- The loop of `GlobPattern::compile` over the pattern's characters, with `is_escaped`;
`char::is_uppercase` and `char::to_lowercase` are taken on ASCII. -/
def compileLoop (toLower : Bool) (isEscaped : Bool) : List Char → List PatternChar
  | [] => []
  | char :: str =>
    if char = '*' ∧ isEscaped = false then
      .wildcardMany (starRun 1 str).1 :: compileLoop toLower isEscaped (starRun 1 str).2
    else if char = '?' ∧ isEscaped = false then
      .wildcardSingle :: compileLoop toLower isEscaped str
    else if char = '\\' ∧ isEscaped = false then
      compileLoop toLower true str
    else
      (if toLower ∧ char.isUpper then [.char char.toLower] else [.char char]) ++
        compileLoop toLower false str
termination_by str => str.length
decreasing_by
  all_goals simp only [List.length_cons]
  · have := starRun_length_le 1 str
    omega
  all_goals omega

/-- `GlobPattern::compile`. -/
def GlobPattern.compile (pattern : String) (toLower : Bool) : GlobPattern :=
  ⟨compileLoop toLower false pattern.toList, toLower⟩

/-- The state of the scan of `try_compile`: `last_ch`, `has_escape`, `is_glob`. -/
structure Scan where
  lastCh : Char
  hasEscape : Bool
  isGlob : Bool

/-- One character of the scan of `try_compile`. -/
def Scan.step (s : Scan) (ch : Char) : Scan :=
  let s :=
    if ch = '\\' then { s with hasEscape := true }
    else if (ch = '*' ∨ ch = '?') ∧ s.lastCh ≠ '\\' then { s with isGlob := true }
    else s
  { s with lastCh := ch }

/-- `GlobPattern::try_compile`: the compiled pattern, or the literal entry. -/
def GlobPattern.tryCompile (pattern : String) (toLower : Bool) : Except String GlobPattern :=
  let scan := pattern.toList.foldl Scan.step ⟨'\x00', false, false⟩
  if scan.isGlob then .ok (GlobPattern.compile pattern toLower)
  else .error (if scan.hasEscape then String.ofList (pattern.toList.filter (· != '\\')) else pattern)

/-! ## Matching -/

/-- The cursors of the loop of `matches`: `px`, `nx`, `next_px`, `next_nx`. -/
structure Cursors where
  px : ℕ
  nx : ℕ
  nextPx : ℕ
  nextNx : ℕ
  deriving DecidableEq, Repr

/-- What one turn of the loop does: go on from new cursors, or return. -/
inductive Turn where
  | next (c : Cursors)
  | done (result : Bool)
  deriving DecidableEq, Repr

/-- One turn of the loop of `GlobPattern::matches`. -/
def matchTurn (pattern : List PatternChar) (value : List Char) (c : Cursors) : Turn :=
  if c.px < pattern.length ∨ c.nx < value.length then
    let advanced : Option Cursors :=
      match pattern[c.px]? with
      | some (.char char) =>
        if value[c.nx]? = some char then some { c with px := c.px + 1, nx := c.nx + 1 } else none
      | some .wildcardSingle =>
        if c.nx < value.length then some { c with px := c.px + 1, nx := c.nx + 1 } else none
      | some (.wildcardMany _) => some { c with nextPx := c.px, nextNx := c.nx + 1, px := c.px + 1 }
      | none => none
    match advanced with
    | some c => .next c
    | none =>
      if 0 < c.nextNx ∧ c.nextNx ≤ value.length then .next { c with px := c.nextPx, nx := c.nextNx }
      else .done false
  else .done true

/-- The loop of `matches`, for at most `fuel` turns. -/
def matchLoop (pattern : List PatternChar) (value : List Char) : ℕ → Cursors → Bool
  | 0, _ => false
  | fuel + 1, c =>
    match matchTurn pattern value c with
    | .next c => matchLoop pattern value fuel c
    | .done result => result

/-- `GlobPattern::matches`; `str::to_lowercase` is taken on ASCII. -/
def GlobPattern.matches (self : GlobPattern) (value : String) : Bool :=
  let value := if self.toLower then value.toList.map Char.toLower else value.toList
  matchLoop self.pattern value ((value.length + 2) * (self.pattern.length + 2)) ⟨0, 0, 0, 0⟩

/-! ## Sets and maps of patterns -/

/-- `GlobSet`; the `AHashSet` of entries is a list. -/
structure GlobSet where
  entries : List String
  patterns : List GlobPattern

/-- `GlobSet::new`. -/
def GlobSet.new : GlobSet := ⟨[], []⟩

/-- `GlobSet::insert`. -/
def GlobSet.insert (self : GlobSet) (pattern : String) : GlobSet :=
  match GlobPattern.tryCompile pattern false with
  | .ok glob => { self with patterns := self.patterns ++ [glob] }
  | .error entry => { self with entries := self.entries.insert entry }

/-- `GlobSet::contains`. -/
def GlobSet.contains (self : GlobSet) (key : String) : Bool :=
  self.entries.contains key || self.patterns.any (·.matches key)

/-- `GlobMap`; the `AHashMap` of entries is a function. -/
structure GlobMap (V : Type) where
  entries : String → Option V
  patterns : List (GlobPattern × V)

/-- `GlobMap::new`. -/
def GlobMap.new {V : Type} : GlobMap V := ⟨fun _ => none, []⟩

/-- `GlobMap::insert`. -/
def GlobMap.insert {V : Type} (self : GlobMap V) (pattern : String) (value : V) : GlobMap V :=
  match GlobPattern.tryCompile pattern false with
  | .ok glob => { self with patterns := self.patterns ++ [(glob, value)] }
  | .error entry => { self with entries := fun key => if key = entry then some value else self.entries key }

/-- `GlobMap::get`. -/
def GlobMap.get {V : Type} (self : GlobMap V) (key : String) : Option V :=
  (self.entries key).orElse fun _ =>
    self.patterns.findSome? fun (pattern, value) => if pattern.matches key then some value else none

/-! ## The glob language -/

/-- The glob language of a pattern's text: `*` takes any run of characters, `?` one
character, `\x` the character `x`, and any other character itself. -/
def globMatches : List Char → List Char → Bool
  | [], key => key.isEmpty
  | '*' :: p, key => (List.range (key.length + 1)).any fun i => globMatches p (key.drop i)
  | '?' :: p, key =>
    match key with
    | [] => false
    | _ :: key => globMatches p key
  | '\\' :: x :: p, key =>
    match key with
    | [] => false
    | c :: key => c == x && globMatches p key
  | c :: p, key =>
    match key with
    | [] => false
    | d :: key => d == c && globMatches p key

theorem globMatches_escape_cons (x : Char) (p : List Char) (c : Char) (key : List Char) :
    globMatches ('\\' :: x :: p) (c :: key) = (c == x && globMatches p key) := rfl

theorem globMatches_escape_nil (x : Char) (p : List Char) : globMatches ('\\' :: x :: p) [] = false := rfl

theorem globMatches_star_nil (key : List Char) : globMatches ['*'] key = true := by
  show (List.range (key.length + 1)).any (fun i => globMatches [] (key.drop i)) = true
  rw [List.any_eq_true]
  refine ⟨key.length, List.mem_range.mpr (Nat.lt_succ_self _), ?_⟩
  rw [List.drop_length]
  rfl

/-- A character with no meaning in a pattern. -/
def isPlain (c : Char) : Bool := c != '\\' && c != '*' && c != '?'

section Plain

variable {c : Char} (hc : isPlain c = true)
include hc

theorem ne_backslash_of_isPlain : c ≠ '\\' := by
  rintro rfl
  exact absurd hc (by decide)

theorem globMatches_plain (p key : List Char) :
    globMatches (c :: p) key =
      match key with
      | [] => false
      | d :: key => d == c && globMatches p key := by
  simp only [isPlain, Bool.and_eq_true, bne_iff_ne, ne_eq] at hc
  obtain ⟨⟨hesc, hstar⟩, hone⟩ := hc
  rw [globMatches.eq_def]
  cases key <;> simp [hesc]

theorem globMatches_plain_cons (p : List Char) (d : Char) (key : List Char) :
    globMatches (c :: p) (d :: key) = (d == c && globMatches p key) :=
  globMatches_plain hc p (d :: key)

theorem globMatches_plain_nil (p : List Char) : globMatches (c :: p) [] = false :=
  globMatches_plain hc p []

theorem Scan.step_of_isPlain (s : Scan) : s.step c = { s with lastCh := c } := by
  simp only [isPlain, Bool.and_eq_true, bne_iff_ne, ne_eq] at hc
  obtain ⟨⟨hesc, hstar⟩, hone⟩ := hc
  simp [Scan.step, hesc, hstar, hone]

end Plain

theorem globMatches_plain_append {a : List Char} (ha : a.all isPlain = true) (p key : List Char) :
    globMatches (a ++ p) (a ++ key) = globMatches p key := by
  induction a with
  | nil => rfl
  | cons c a ih =>
    simp only [List.all_cons, Bool.and_eq_true] at ha
    rw [List.cons_append, List.cons_append, globMatches_plain_cons ha.1, beq_self_eq_true, Bool.true_and,
      ih ha.2]

theorem Scan.foldl_step_of_isPlain {a : List Char} (ha : a.all isPlain = true) (s : Scan) :
    (a.foldl Scan.step s).hasEscape = s.hasEscape ∧ (a.foldl Scan.step s).isGlob = s.isGlob := by
  induction a generalizing s with
  | nil => exact ⟨rfl, rfl⟩
  | cons c a ih =>
    simp only [List.all_cons, Bool.and_eq_true] at ha
    rw [List.foldl_cons, Scan.step_of_isPlain ha.1]
    exact ih ha.2 _

theorem filter_of_isPlain {a : List Char} (ha : a.all isPlain = true) : a.filter (· != '\\') = a := by
  rw [List.filter_eq_self]
  intro c hc
  simpa using ne_backslash_of_isPlain (List.all_eq_true.mp ha c hc)

/-! ## Escaped backslashes -/

section EscapedBackslash

variable {a b : String} (ha : a.toList.all isPlain = true)
include ha

theorem scan_escapedBackslash (hb : b.toList.all isPlain = true) :
    ((a ++ "\\\\" ++ b).toList.foldl Scan.step ⟨'\x00', false, false⟩).hasEscape = true ∧
      ((a ++ "\\\\" ++ b).toList.foldl Scan.step ⟨'\x00', false, false⟩).isGlob = false := by
  have hbefore := Scan.foldl_step_of_isPlain ha ⟨'\x00', false, false⟩
  set s := a.toList.foldl Scan.step ⟨'\x00', false, false⟩
  have hescape : (['\\', '\\'].foldl Scan.step s).hasEscape = true ∧ (['\\', '\\'].foldl Scan.step s).isGlob = false := by
    simp [Scan.step, hbefore.2]
  have hafter := Scan.foldl_step_of_isPlain hb (['\\', '\\'].foldl Scan.step s)
  simp only [String.toList_append, List.foldl_append] at hafter ⊢
  exact ⟨hafter.1.trans hescape.1, hafter.2.trans hescape.2⟩

theorem scan_escapedBackslash_star :
    ((a ++ "\\\\*").toList.foldl Scan.step ⟨'\x00', false, false⟩).hasEscape = true ∧
      ((a ++ "\\\\*").toList.foldl Scan.step ⟨'\x00', false, false⟩).isGlob = false := by
  have hbefore := Scan.foldl_step_of_isPlain ha ⟨'\x00', false, false⟩
  simp only [String.toList_append, List.foldl_append]
  simp [Scan.step, hbefore.2]

end EscapedBackslash

/-! ## Literal entries -/

theorem GlobSet.contains_new_insert_of_error {pattern entry : String}
    (h : GlobPattern.tryCompile pattern false = .error entry) (key : String) :
    (GlobSet.new.insert pattern).contains key = decide (key = entry) := by
  simp [GlobSet.insert, h, GlobSet.contains, GlobSet.new]

theorem GlobMap.get_new_insert_of_error {V : Type} {pattern entry : String} (value : V)
    (h : GlobPattern.tryCompile pattern false = .error entry) (key : String) :
    (GlobMap.new.insert pattern value).get key = if key = entry then some value else none := by
  by_cases hkey : key = entry <;> simp [GlobMap.insert, h, GlobMap.get, GlobMap.new, hkey]

section EscapedBackslashEntry

variable {a b : String} (ha : a.toList.all isPlain = true)
include ha

theorem tryCompile_escapedBackslash (hb : b.toList.all isPlain = true) (toLower : Bool) :
    GlobPattern.tryCompile (a ++ "\\\\" ++ b) toLower = .error (a ++ b) := by
  obtain ⟨hescape, hglob⟩ := scan_escapedBackslash ha hb
  have hfilter : (a ++ "\\\\" ++ b).toList.filter (· != '\\') = (a ++ b).toList := by
    simp only [String.toList_append, List.filter_append, filter_of_isPlain ha, filter_of_isPlain hb]
    simp
  simp only [GlobPattern.tryCompile, hglob, hescape, hfilter, String.ofList_toList]
  rfl

theorem tryCompile_escapedBackslash_star (toLower : Bool) :
    GlobPattern.tryCompile (a ++ "\\\\*") toLower = .error (a ++ "*") := by
  obtain ⟨hescape, hglob⟩ := scan_escapedBackslash_star ha
  have hfilter : (a ++ "\\\\*").toList.filter (· != '\\') = (a ++ "*").toList := by
    simp only [String.toList_append, List.filter_append, filter_of_isPlain ha]
    simp
  simp only [GlobPattern.tryCompile, hglob, hescape, hfilter, String.ofList_toList]
  rfl

end EscapedBackslashEntry

/-- An escaped backslash is a backslash of the key in the glob language, but nothing in the
literal entry: after inserting `a\\b` a set or map holds `ab` and not `a\b`, and after
inserting `a\\*` it holds `a*` and no key that starts with `a\`. -/
theorem globSet_insert_escapedBackslash {V : Type} (a b t : String) (v : V)
    (ha : a.toList.all isPlain = true) (hb : b.toList.all isPlain = true) :
    ((GlobSet.new.insert (a ++ "\\\\" ++ b)).contains (a ++ "\\" ++ b) = false ∧
        (GlobMap.new.insert (a ++ "\\\\" ++ b) v).get (a ++ "\\" ++ b) = none ∧
        globMatches (a ++ "\\\\" ++ b).toList (a ++ "\\" ++ b).toList = true) ∧
      ((GlobSet.new.insert (a ++ "\\\\" ++ b)).contains (a ++ b) = true ∧
        globMatches (a ++ "\\\\" ++ b).toList (a ++ b).toList = false) ∧
      ((GlobSet.new.insert (a ++ "\\\\*")).contains (a ++ "\\" ++ t) = false ∧
        (GlobMap.new.insert (a ++ "\\\\*") v).get (a ++ "\\" ++ t) = none ∧
        globMatches (a ++ "\\\\*").toList (a ++ "\\" ++ t).toList = true) := by
  have hentry := tryCompile_escapedBackslash ha hb false
  have hentryStar := tryCompile_escapedBackslash_star ha false
  -- the keys with a backslash differ from the entries in length, or at the backslash
  have hlonger : a ++ "\\" ++ b ≠ a ++ b := by
    intro h
    have hlen := congrArg (fun s => s.toList.length) h
    simp at hlen
  have hstar : a ++ "\\" ++ t ≠ a ++ "*" := by
    intro h
    have hlist := congrArg String.toList h
    simp at hlist
  have hbself : globMatches b.toList b.toList = true := by
    have h := globMatches_plain_append hb [] []
    simp only [List.append_nil] at h
    rw [h]
    rfl
  refine ⟨⟨?_, ?_, ?_⟩, ⟨?_, ?_⟩, ⟨?_, ?_, ?_⟩⟩
  · simp [GlobSet.contains_new_insert_of_error hentry, hlonger]
  · simp [GlobMap.get_new_insert_of_error v hentry, hlonger]
  · simp only [String.toList_append]
    rw [List.append_assoc, List.append_assoc, globMatches_plain_append ha]
    simp [globMatches_escape_cons, hbself]
  · simp [GlobSet.contains_new_insert_of_error hentry]
  · simp only [String.toList_append]
    rw [List.append_assoc, globMatches_plain_append ha]
    cases hbl : b.toList with
    | nil => simp [globMatches_escape_nil]
    | cons c rest =>
      have hc : isPlain c = true := by
        rw [hbl] at hb
        simp only [List.all_cons, Bool.and_eq_true] at hb
        exact hb.1
      simp [globMatches_escape_cons, ne_backslash_of_isPlain hc]
  · simp [GlobSet.contains_new_insert_of_error hentryStar, hstar]
  · simp [GlobMap.get_new_insert_of_error v hentryStar, hstar]
  · simp only [String.toList_append]
    rw [List.append_assoc, globMatches_plain_append ha]
    show globMatches ['\\', '\\', '*'] ('\\' :: t.toList) = true
    rw [globMatches_escape_cons, beq_self_eq_true, Bool.true_and, globMatches_star_nil]

/-- Inserting `a\\b` gives the entry `ab`. -/
theorem globSet_insert_escapedBackslash_ab :
    (GlobSet.new.insert "a\\\\b").contains "a\\b" = false ∧ (GlobSet.new.insert "a\\\\b").contains "ab" = true := by
  have h := globSet_insert_escapedBackslash "a" "b" "" () (by decide) (by decide)
  exact ⟨h.1.1, h.2.1.1⟩

end EsmpServer.Utils
