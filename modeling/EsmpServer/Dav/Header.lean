import EsmpServer.Expr.Tokenizer
import EsmpServer.Jmap.MailboxSet

/-!
# The precondition headers of a WebDAV request

`RequestHeaders::parse` (dav-proto/src/parser/header.rs) reads the `If`,
`If-Match` and `If-None-Match` headers into one list of `If`s, each an optional
resource tag and a list of conditions, and `Overwrite: F` into a flag.
`validate_headers` (`EsmpServer.Dav.Lock`) lets a request through when one of the
lists holds, whichever header it came from.

`parse_if` reads the header's characters once. A `<...>` outside a list is a
resource tag, a `(...)` a list of `<state-token>` and `[entity-tag]` conditions,
each after an optional `Not`; a character it does not expect ends the parse and
keeps the lists read so far. The tag is taken by the list after it, so of the
lists of a tagged group only the first carries the tag (`parseIf_print`).

`parse_if_match` gives `*` the condition that the resource exists, and a list of
entity tags one `If` each (`If-Match`) or one `If` of negated tags
(`If-None-Match`).

The header value is read as characters: every delimiter is ASCII, so the slices
the source cuts out of the bytes are the same texts.
-/

namespace EsmpServer.Dav

open EsmpServer.Expr (isAsciiWhitespace)
open Jmap (trim)

/-- `Condition`. -/
inductive Condition where
  | stateToken (isNot : Bool) (token : String)
  | eTag (isNot : Bool) (tag : String)
  | exists (isNot : Bool)
  deriving DecidableEq, Repr

/-- `If`: an optional resource tag and a list of conditions. -/
structure If where
  resource : Option String
  list : List Condition
  deriving DecidableEq, Repr

/-- `RequestHeaders`, with the fields `validate_headers` reads. -/
structure RequestHeaders where
  uri : String
  overwriteFail : Bool
  if_ : List If
  deriving DecidableEq, Repr

/-- Where `parse_if` is between two characters: in the outer loop, inside a
resource tag, in a list, after the `N` or the `No` of a `Not`, or inside a state
token (`<`) or an entity tag (`[`) of a list. -/
inductive IfState where
  | outer
  | tag (text : List Char)
  | list (isNot : Bool) (conditions : List Condition)
  | notN (conditions : List Condition)
  | notNo (conditions : List Condition)
  | condition (isNot : Bool) (conditions : List Condition) (isEtag : Bool) (text : List Char)

/-- The condition a list reads from `<text>` or `[text]`. -/
def readCondition (isNot isEtag : Bool) (text : List Char) : Condition :=
  if isEtag then .eTag isNot (String.ofList text) else .stateToken isNot (String.ofList text)

/-- The loop of `parse_if` with the tag not yet taken: the `If`s it pushes. The
parse ends at the end of the text, in whatever state, and at a character the
state does not expect. -/
def parseIfLoop (resource : Option String) : IfState → List Char → List If
  | _, [] => []
  | .outer, ch :: rest =>
    if ch = '<' ∧ resource = none then parseIfLoop resource (.tag []) rest
    else if ch = '(' then parseIfLoop resource (.list false []) rest
    else if isAsciiWhitespace ch then parseIfLoop resource .outer rest
    else []
  | .tag text, ch :: rest =>
    if ch = '>' then parseIfLoop (some (String.ofList text)) .outer rest
    else parseIfLoop resource (.tag (text ++ [ch])) rest
  | .list isNot conditions, ch :: rest =>
    if ch = 'N' then parseIfLoop resource (.notN conditions) rest
    else if ch = '<' then parseIfLoop resource (.condition isNot conditions false []) rest
    else if ch = '[' then parseIfLoop resource (.condition isNot conditions true []) rest
    else if ch = ')' then ⟨resource, conditions⟩ :: parseIfLoop none .outer rest
    else if isAsciiWhitespace ch then parseIfLoop resource (.list isNot conditions) rest
    else []
  | .notN conditions, ch :: rest =>
    if ch = 'o' then parseIfLoop resource (.notNo conditions) rest else []
  | .notNo conditions, ch :: rest =>
    if ch = 't' then parseIfLoop resource (.list true conditions) rest else []
  | .condition isNot conditions isEtag text, ch :: rest =>
    if ch = (if isEtag then ']' else '>') then
      parseIfLoop resource (.list false (conditions ++ [readCondition isNot isEtag text])) rest
    else parseIfLoop resource (.condition isNot conditions isEtag (text ++ [ch])) rest

/-! The steps of the loop, one for each state. They hold by unfolding the definition
once; the lemmas below rewrite with them rather than with the definition. -/

section Steps

variable (resource : Option String) (ch : Char) (rest : List Char)

theorem parseIfLoop_nil : ∀ s : IfState, parseIfLoop resource s [] = []
  | .outer | .tag _ | .list _ _ | .notN _ | .notNo _ | .condition _ _ _ _ => rfl

theorem parseIfLoop_outer_cons : parseIfLoop resource .outer (ch :: rest) =
    if ch = '<' ∧ resource = none then parseIfLoop resource (.tag []) rest
    else if ch = '(' then parseIfLoop resource (.list false []) rest
    else if isAsciiWhitespace ch then parseIfLoop resource .outer rest
    else [] := rfl

theorem parseIfLoop_tag_cons (text : List Char) : parseIfLoop resource (.tag text) (ch :: rest) =
    if ch = '>' then parseIfLoop (some (String.ofList text)) .outer rest
    else parseIfLoop resource (.tag (text ++ [ch])) rest := rfl

theorem parseIfLoop_list_cons (isNot : Bool) (conditions : List Condition) :
    parseIfLoop resource (.list isNot conditions) (ch :: rest) =
      if ch = 'N' then parseIfLoop resource (.notN conditions) rest
      else if ch = '<' then parseIfLoop resource (.condition isNot conditions false []) rest
      else if ch = '[' then parseIfLoop resource (.condition isNot conditions true []) rest
      else if ch = ')' then ⟨resource, conditions⟩ :: parseIfLoop none .outer rest
      else if isAsciiWhitespace ch then parseIfLoop resource (.list isNot conditions) rest
      else [] := rfl

theorem parseIfLoop_notN_cons (conditions : List Condition) :
    parseIfLoop resource (.notN conditions) (ch :: rest) =
      if ch = 'o' then parseIfLoop resource (.notNo conditions) rest else [] := rfl

theorem parseIfLoop_notNo_cons (conditions : List Condition) :
    parseIfLoop resource (.notNo conditions) (ch :: rest) =
      if ch = 't' then parseIfLoop resource (.list true conditions) rest else [] := rfl

theorem parseIfLoop_condition_cons (isNot : Bool) (conditions : List Condition) (isEtag : Bool)
    (text : List Char) : parseIfLoop resource (.condition isNot conditions isEtag text) (ch :: rest) =
      if ch = (if isEtag then ']' else '>') then
        parseIfLoop resource (.list false (conditions ++ [readCondition isNot isEtag text])) rest
      else parseIfLoop resource (.condition isNot conditions isEtag (text ++ [ch])) rest := rfl

end Steps

/-- `parse_if`. -/
def RequestHeaders.parseIf (headers : RequestHeaders) (value : String) : RequestHeaders :=
  { headers with if_ := headers.if_ ++ parseIfLoop none .outer value.toList }

/-- `str::split(',')`. -/
def splitComma (value : String) : List String :=
  (value.toList.splitOn ',').map String.ofList

/-- `parse_if_match`. -/
def RequestHeaders.parseIfMatch (headers : RequestHeaders) (value : String) (isNot : Bool) :
    RequestHeaders :=
  if value = "*" then { headers with if_ := headers.if_ ++ [⟨none, [.exists isNot]⟩] }
  else if !isNot then
    { headers with if_ := headers.if_ ++ (splitComma value).map fun etag => ⟨none, [.eTag isNot (trim etag)]⟩ }
  else { headers with if_ := headers.if_ ++ [⟨none, (splitComma value).map fun etag => .eTag isNot (trim etag)⟩] }

/-- `RequestHeaders::parse` for the headers `validate_headers` reads, the name
compared without case; `none` for the other headers, whose fields are not
modelled. -/
def RequestHeaders.parse (headers : RequestHeaders) (key value : String) :
    Option (RequestHeaders × Bool) :=
  match key.toLower with
  | "if" => let h := headers.parseIf value; some (h, h.if_.length ≠ headers.if_.length)
  | "if-match" => let h := headers.parseIfMatch value false; some (h, h.if_.length ≠ headers.if_.length)
  | "if-none-match" => let h := headers.parseIfMatch value true; some (h, h.if_.length ≠ headers.if_.length)
  | "overwrite" => some ({ headers with overwriteFail := value = "F" }, true)
  | _ => none

/-- The headers of a request to `uri` with these header lines, in order; `none`
when a line is not one of the modelled headers. -/
def RequestHeaders.parseAll (uri : String) (lines : List (String × String)) : Option RequestHeaders :=
  lines.foldlM (fun headers line => (headers.parse line.1 line.2).map Prod.fst) ⟨uri, false, []⟩

/-- The loop of `dav_base_uri` from a position of the URI with `rest` after it:
the length of the base it returns. The first `/` followed by `dav/` starts the
count; the third `/` after it ends the base. -/
def davBaseUriLoop (foundDav : Bool) (sepCount lastIdx idx : ℕ) : List Char → Option ℕ
  | [] => if sepCount = 2 then some (lastIdx + 1) else none
  | ch :: rest =>
    if ch = '/' then
      if !foundDav then davBaseUriLoop (rest.take 4 = "dav/".toList) sepCount idx (idx + 1) rest
      else if sepCount = 2 then some (lastIdx + 1)
      else davBaseUriLoop foundDav (sepCount + 1) idx (idx + 1) rest
    else davBaseUriLoop foundDav sepCount idx (idx + 1) rest

/-- `dav_base_uri`: the URI up to its account, without the trailing slash. -/
def davBaseUri (uri : String) : Option String :=
  (davBaseUriLoop false 0 0 0 uri.toList).map fun n => String.ofList (uri.toList.take n)

example : davBaseUri "http://host/dav/collection/account/test/" =
    some "http://host/dav/collection/account" := by decide +kernel
example : davBaseUri "http://host/dav/collection/account" =
    some "http://host/dav/collection/account" := by decide +kernel

/-- `RequestHeaders::base_uri`. -/
def RequestHeaders.baseUri (headers : RequestHeaders) : Option String := davBaseUri headers.uri

/-! ## The parse of a well-formed `If` header -/

/-- A condition of the `If` header as RFC 4918 writes it: negated by `Not` or not,
and a state token in angle brackets or an entity tag in square brackets. -/
structure IfCondition where
  isNot : Bool
  isEtag : Bool
  text : String

/-- The character that closes the condition. -/
def IfCondition.stop (c : IfCondition) : Char := if c.isEtag then ']' else '>'

/-- The condition's text in the header. -/
def IfCondition.print (c : IfCondition) : List Char :=
  (if c.isNot then "Not ".toList else []) ++ (if c.isEtag then '[' else '<') :: c.text.toList ++ [c.stop]

/-- The condition `parse_if` reads from it. -/
def IfCondition.toCondition (c : IfCondition) : Condition := readCondition c.isNot c.isEtag c.text.toList

/-- A list in parentheses, its conditions and the list followed by a space. -/
def printList (list : List IfCondition) : List Char :=
  '(' :: list.flatMap (fun c => c.print ++ [' ']) ++ [')', ' ']

/-- An `If` header: lists without a tag, or resource tags each followed by lists. -/
inductive IfHeader where
  | untagged (lists : List (List IfCondition))
  | tagged (groups : List (String × List (List IfCondition)))

/-- The header's text. -/
def IfHeader.print : IfHeader → List Char
  | .untagged lists => lists.flatMap printList
  | .tagged groups => groups.flatMap fun g => '<' :: g.1.toList ++ ['>', ' '] ++ g.2.flatMap printList

/-- No condition holds the character that closes it. -/
def ConditionsValid (lists : List (List IfCondition)) : Prop :=
  ∀ l ∈ lists, ∀ c ∈ l, c.stop ∉ c.text.toList

/-- A well-formed header: no condition holds the character that closes it, no tag
holds `>`, and every tag is followed by at least one list. -/
def IfHeader.Valid : IfHeader → Prop
  | .untagged lists => ConditionsValid lists
  | .tagged groups => ∀ g ∈ groups, '>' ∉ g.1.toList ∧ g.2 ≠ [] ∧ ConditionsValid g.2

/-- The `If`s of untagged lists. -/
def untaggedIfs (lists : List (List IfCondition)) : List If :=
  lists.map fun l => ⟨none, l.map IfCondition.toCondition⟩

/-- The `If`s of a tagged group: the tag goes to its first list only. -/
def taggedIfs (tag : String) : List (List IfCondition) → List If
  | [] => []
  | l :: ls => ⟨some tag, l.map IfCondition.toCondition⟩ :: untaggedIfs ls

/-- What `parse_if` reads from a header. -/
def IfHeader.parsed : IfHeader → List If
  | .untagged lists => untaggedIfs lists
  | .tagged groups => groups.flatMap fun g => taggedIfs g.1 g.2

section Parse

variable (resource : Option String)

theorem parseIfLoop_tag_text (rest : List Char) :
    ∀ (text acc : List Char), '>' ∉ text →
      parseIfLoop resource (.tag acc) (text ++ '>' :: rest) =
        parseIfLoop (some (String.ofList (acc ++ text))) .outer rest := by
  intro text
  induction text with
  | nil => intro acc _; simp [parseIfLoop_tag_cons]
  | cons ch text ih =>
    intro acc hstop
    have hch : ch ≠ '>' := fun h => hstop (h ▸ List.mem_cons_self)
    rw [List.cons_append, parseIfLoop_tag_cons, if_neg hch, ih _ (fun h => hstop (List.mem_cons_of_mem _ h))]
    simp

theorem parseIfLoop_condition_text (isNot isEtag : Bool) (conditions : List Condition)
    (rest : List Char) :
    ∀ (text acc : List Char), (if isEtag then ']' else '>') ∉ text →
      parseIfLoop resource (.condition isNot conditions isEtag acc)
          (text ++ (if isEtag then ']' else '>') :: rest) =
        parseIfLoop resource (.list false (conditions ++ [readCondition isNot isEtag (acc ++ text)])) rest := by
  intro text
  induction text with
  | nil => intro acc _; simp [parseIfLoop_condition_cons]
  | cons ch text ih =>
    intro acc hstop
    have hch : ch ≠ (if isEtag then ']' else '>') := fun h => hstop (h ▸ List.mem_cons_self)
    rw [List.cons_append, parseIfLoop_condition_cons, if_neg hch,
      ih _ (fun h => hstop (List.mem_cons_of_mem _ h))]
    simp

theorem parseIfLoop_space (isNot : Bool) (conditions : List Condition) (rest : List Char) :
    parseIfLoop resource (.list isNot conditions) (' ' :: rest) =
      parseIfLoop resource (.list isNot conditions) rest := by
  simp [parseIfLoop_list_cons, isAsciiWhitespace]

theorem parseIfLoop_outer_space (rest : List Char) :
    parseIfLoop resource .outer (' ' :: rest) = parseIfLoop resource .outer rest := by
  simp [parseIfLoop_outer_cons, isAsciiWhitespace]

theorem parseIfLoop_not (conditions : List Condition) (rest : List Char) :
    parseIfLoop resource (.list false conditions) ("Not ".toList ++ rest) =
      parseIfLoop resource (.list true conditions) rest := by
  simp [parseIfLoop_list_cons, parseIfLoop_notN_cons, parseIfLoop_notNo_cons, isAsciiWhitespace]

theorem parseIfLoop_bracket (isNot isEtag : Bool) (conditions : List Condition) (text : List Char)
    (hstop : (if isEtag then ']' else '>') ∉ text) (rest : List Char) :
    parseIfLoop resource (.list isNot conditions)
        ((if isEtag then '[' else '<') :: text ++ (if isEtag then ']' else '>') :: ' ' :: rest) =
      parseIfLoop resource (.list false (conditions ++ [readCondition isNot isEtag text])) rest := by
  have hopen : parseIfLoop resource (.list isNot conditions)
      ((if isEtag then '[' else '<') :: text ++ (if isEtag then ']' else '>') :: ' ' :: rest) =
      parseIfLoop resource (.condition isNot conditions isEtag [])
        (text ++ (if isEtag then ']' else '>') :: ' ' :: rest) := by
    cases isEtag <;> simp [parseIfLoop_list_cons]
  rw [hopen, parseIfLoop_condition_text resource isNot isEtag conditions (' ' :: rest) text [] hstop,
    List.nil_append, parseIfLoop_space]

theorem parseIfLoop_condition (conditions : List Condition) (c : IfCondition)
    (hc : c.stop ∉ c.text.toList) (rest : List Char) :
    parseIfLoop resource (.list false conditions) (c.print ++ ' ' :: rest) =
      parseIfLoop resource (.list false (conditions ++ [c.toCondition])) rest := by
  obtain ⟨isNot, isEtag, text⟩ := c
  have hbracket := parseIfLoop_bracket resource isNot isEtag conditions text.toList hc rest
  cases isNot with
  | false =>
    simpa [IfCondition.print, IfCondition.stop, IfCondition.toCondition] using hbracket
  | true =>
    simp only [IfCondition.print, IfCondition.stop, IfCondition.toCondition, ite_true,
      List.append_assoc, List.cons_append]
    rw [parseIfLoop_not]
    exact hbracket

theorem parseIfLoop_conditions (rest : List Char) :
    ∀ (list : List IfCondition) (conditions : List Condition), (∀ c ∈ list, c.stop ∉ c.text.toList) →
      parseIfLoop resource (.list false conditions) (list.flatMap (fun c => c.print ++ [' ']) ++ rest) =
        parseIfLoop resource (.list false (conditions ++ list.map IfCondition.toCondition)) rest := by
  intro list
  induction list with
  | nil => intro conditions _; simp
  | cons c list ih =>
    intro conditions hvalid
    rw [List.flatMap_cons, List.append_assoc, List.append_assoc, List.singleton_append,
      parseIfLoop_condition resource conditions c (hvalid c List.mem_cons_self),
      ih _ (fun c' h => hvalid c' (List.mem_cons_of_mem _ h))]
    simp

theorem parseIfLoop_list (list : List IfCondition) (hvalid : ∀ c ∈ list, c.stop ∉ c.text.toList)
    (rest : List Char) :
    parseIfLoop resource .outer (printList list ++ rest) =
      ⟨resource, list.map IfCondition.toCondition⟩ :: parseIfLoop none .outer rest := by
  have hlist := parseIfLoop_conditions resource (')' :: ' ' :: rest) list [] hvalid
  simp only [List.nil_append] at hlist
  simp only [printList, List.cons_append, List.append_assoc, List.nil_append]
  rw [parseIfLoop_outer_cons, if_neg (by simp), if_pos rfl, hlist]
  simp [parseIfLoop_list_cons, parseIfLoop_outer_cons, isAsciiWhitespace]

end Parse

theorem parseIfLoop_untagged (rest : List Char) :
    ∀ lists : List (List IfCondition), ConditionsValid lists →
      parseIfLoop none .outer (lists.flatMap printList ++ rest) =
        untaggedIfs lists ++ parseIfLoop none .outer rest := by
  intro lists
  induction lists with
  | nil => intro _; rfl
  | cons l lists ih =>
    intro hvalid
    rw [List.flatMap_cons, List.append_assoc,
      parseIfLoop_list none l (hvalid l List.mem_cons_self),
      ih (fun l' h => hvalid l' (List.mem_cons_of_mem _ h))]
    rfl

theorem parseIfLoop_tagged (tag : String) (htag : '>' ∉ tag.toList) (lists : List (List IfCondition))
    (hne : lists ≠ []) (hvalid : ConditionsValid lists) (rest : List Char) :
    parseIfLoop none .outer ('<' :: tag.toList ++ ['>', ' '] ++ lists.flatMap printList ++ rest) =
      taggedIfs tag lists ++ parseIfLoop none .outer rest := by
  obtain ⟨l, ls, rfl⟩ := List.exists_cons_of_ne_nil hne
  have hopen : parseIfLoop none .outer ('<' :: tag.toList ++ '>' :: ' ' :: (l :: ls).flatMap printList ++ rest) =
      parseIfLoop none (.tag []) (tag.toList ++ '>' :: ' ' :: (l :: ls).flatMap printList ++ rest) := by
    simp [parseIfLoop_outer_cons]
  have hread := parseIfLoop_tag_text none (' ' :: (l :: ls).flatMap printList ++ rest) tag.toList [] htag
  simp only [List.nil_append, String.ofList_toList] at hread
  simp only [List.append_assoc, List.cons_append, List.nil_append] at hopen hread ⊢
  rw [hopen, hread, parseIfLoop_outer_space, List.flatMap_cons, List.append_assoc,
    parseIfLoop_list (some tag) l (hvalid l List.mem_cons_self),
    parseIfLoop_untagged rest ls (fun l' h => hvalid l' (List.mem_cons_of_mem _ h))]
  rfl

theorem parseIfLoop_groups (rest : List Char) :
    ∀ groups : List (String × List (List IfCondition)), (IfHeader.tagged groups).Valid →
      parseIfLoop none .outer ((IfHeader.tagged groups).print ++ rest) =
        (IfHeader.tagged groups).parsed ++ parseIfLoop none .outer rest := by
  intro groups
  induction groups with
  | nil => intro _; rfl
  | cons g groups ih =>
    intro hvalid
    obtain ⟨htag, hne, hlists⟩ := hvalid g List.mem_cons_self
    simp only [IfHeader.print, IfHeader.parsed, List.flatMap_cons, List.append_assoc] at ih ⊢
    rw [← List.append_assoc, ← List.append_assoc,
      parseIfLoop_tagged g.1 htag g.2 hne hlists, ih (fun g' h => hvalid g' (List.mem_cons_of_mem _ h))]

theorem parseIf_print (headers : RequestHeaders) (header : IfHeader) (hvalid : header.Valid) :
    (headers.parseIf (String.ofList header.print)).if_ = headers.if_ ++ header.parsed := by
  have hread : parseIfLoop none .outer (header.print ++ []) = header.parsed ++ parseIfLoop none .outer [] := by
    cases header with
    | untagged lists => exact parseIfLoop_untagged [] lists hvalid
    | tagged groups => exact parseIfLoop_groups [] groups hvalid
  simp only [List.append_nil] at hread
  simp [RequestHeaders.parseIf, hread, parseIfLoop_nil]

end EsmpServer.Dav
