import Mathlib

/-!
# Pagination and the unsorted branch of `Store::sort`

`Store::sort` feeds document ids, in result order, to a `Pagination`, which
skips to the requested position or anchor and collects one page of ids, each
tagged with its prefix (for emails, the thread id) in the upper 32 bits.
`Pagination::add` is a small state machine over the position, the anchor offset
and the page; `Pagination::build` turns its final state into the page and the
position reported to the client.

Of `Store::sort` itself this module models the last branch, which is taken
without comparators and whenever prefixes must be unique under at most one
comparator. It walks the result set in document-id order and keeps, when
`prefix_unique` is set, only the first document of each prefix.
-/

namespace EsmpServer.Query

/-- A result set; its bitmap iterates in increasing document-id order. -/
structure ResultSet where
  results : List ℕ
  sorted : results.Pairwise (· < ·)

/-- The pagination state. Positions and offsets are the source's `i32`s. -/
structure Pagination where
  requestedPosition : ℤ
  position : ℤ
  limit : ℕ
  anchor : ℕ
  anchorOffset : ℤ
  hasAnchor : Bool
  anchorFound : Bool
  ids : List ℕ
  deriving DecidableEq, Repr

/-- `Pagination::new`. -/
def Pagination.new (limit : ℕ) (position : ℤ) (anchor : Option ℕ) (anchorOffset : ℤ) :
    Pagination :=
  ⟨position, position, limit, anchor.getD 0, anchorOffset, anchor.isSome, false, []⟩

/-- `((prefix_id as u64) << 32) | document_id as u64`. -/
def taggedId (prefixId documentId : ℕ) : ℕ := (prefixId <<< 32) ||| documentId

/-- `Pagination::add`: record one document; `false` stops the caller's loop. -/
def Pagination.add (p : Pagination) (prefixId documentId : ℕ) : Pagination × Bool :=
  let id := taggedId prefixId documentId
  if !p.hasAnchor then
    if 0 ≤ p.position then
      if 0 < p.position then ({ p with position := p.position - 1 }, true)
      else
        let ids := p.ids ++ [id]
        ({ p with ids := ids }, !(ids.length == p.limit))
    else ({ p with ids := p.ids ++ [id] }, true)
  else if 0 ≤ p.anchorOffset then
    if !p.anchorFound && documentId ≠ p.anchor then (p, true)
    else
      if 0 < p.anchorOffset then
        ({ p with anchorFound := true, anchorOffset := p.anchorOffset - 1 }, true)
      else
        let ids := p.ids ++ [id]
        ({ p with anchorFound := true, ids := ids }, !(ids.length == p.limit))
  else
    let found := documentId == p.anchor
    let p := { p with anchorFound := found, ids := p.ids ++ [id] }
    if found then ({ p with position := p.anchorOffset }, false) else (p, true)

/-- A sorted page and the position it starts at. -/
structure SortedResultSet where
  position : ℤ
  ids : List ℕ
  foundAnchor : Bool
  deriving DecidableEq, Repr

/-- `Pagination::build`. -/
def Pagination.build (p : Pagination) : SortedResultSet :=
  if !p.hasAnchor || p.anchorFound then
    if !p.hasAnchor && 0 ≤ p.requestedPosition then
      ⟨if p.position = 0 then p.requestedPosition else 0, p.ids, true⟩
    else if 0 ≤ p.position then ⟨p.position, p.ids, true⟩
    else
      let position := p.position.natAbs
      let startOffset := if position < p.ids.length then p.ids.length - position else 0
      let endOffset :=
        if 0 < p.limit then min (startOffset + p.limit) p.ids.length else p.ids.length
      ⟨startOffset, (p.ids.drop startOffset).take (endOffset - startOffset), true⟩
  else ⟨0, p.ids, false⟩

/-- The loop of the last branch of `Store::sort`. `seen` is `seen_prefixes`; a
document missing from the prefix map no longer exists and is skipped. -/
def sortUnorderedLoop (prefixMap : Option (ℕ → Option ℕ)) (prefixUnique : Bool) :
    List ℕ → List ℕ → Pagination → Pagination
  | [], _, p => p
  | documentId :: rest, seen, p =>
    match prefixMap with
    | none =>
      match p.add 0 documentId with
      | (p, true) => sortUnorderedLoop prefixMap prefixUnique rest seen p
      | (p, false) => p
    | some prefixOf =>
      match prefixOf documentId with
      | none => sortUnorderedLoop prefixMap prefixUnique rest seen p
      | some prefixId =>
        if prefixUnique && prefixId ∈ seen then
          sortUnorderedLoop prefixMap prefixUnique rest seen p
        else
          match p.add prefixId documentId with
          | (p, true) =>
            sortUnorderedLoop prefixMap prefixUnique rest
              (if prefixUnique then prefixId :: seen else seen) p
          | (p, false) => p

/-- The limit `Store::sort` sets before sorting: a limit of 0 takes every result. -/
def pageLimit (total limit : ℕ) : ℕ := if limit = 0 then total else min total limit

/-- `Store::sort` along its last branch, with the pagination's prefix map and
`prefix_unique` flag. -/
def sortUnordered (resultSet : ResultSet) (prefixMap : Option (ℕ → Option ℕ))
    (prefixUnique : Bool) (paginate : Pagination) : SortedResultSet :=
  if resultSet.results = [] then ⟨paginate.position, [], true⟩
  else
    let paginate := { paginate with limit := pageLimit resultSet.results.length paginate.limit }
    (sortUnorderedLoop prefixMap prefixUnique resultSet.results [] paginate).build

end EsmpServer.Query
