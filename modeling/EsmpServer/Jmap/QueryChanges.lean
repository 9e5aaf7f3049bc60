import EsmpServer.Jmap.Changes
import EsmpServer.Query.Sort
import Mathlib

/-!
# `Foo/queryChanges`

`QueryChanges::query_changes` answers from the `/changes` response of the same
range and a fresh run of the query. When some filter condition or sort property
can change after a record is created, every updated id is reported as removed and
re-added at its new index; otherwise only created ids are added. Destroyed ids
are always removed.

A client applies the answer by dropping the removed ids from its old result list
and inserting the added ids at their indexes. By `List.insertEach_filter` that
rebuilds the new list exactly when the ids the answer does not touch keep their
order and membership (`applyQueryChanges_of_stable`). Collapsing threads breaks
this: deleting the email that represents its thread promotes another email of
the thread, and the change log does not mention the promoted email.
-/

/-! ## Splitting a list by a predicate and inserting the parts back by index

A list is split into the elements that fail a predicate, kept in order, and the
elements that satisfy it, each paired with its index in the list. Inserting the
pairs back in ascending index order rebuilds the list. This is the contract of a
delta that reports removed entries by value and added entries by position: the
receiver keeps what was not removed and inserts the additions at their final
indexes.
-/

namespace List

variable {α : Type*}

/-- The elements of a list that satisfy `p`, each with its index, the first
element having index `start`. -/
def indexedFilter (p : α → Bool) : ℕ → List α → List (ℕ × α)
  | _, [] => []
  | i, a :: l => if p a then (i, a) :: indexedFilter p (i + 1) l else indexedFilter p (i + 1) l

@[simp] theorem indexedFilter_nil (p : α → Bool) (i : ℕ) : indexedFilter p i [] = [] := rfl

theorem indexedFilter_cons_pos {p : α → Bool} {a : α} (h : p a = true) (i : ℕ) (l : List α) :
    indexedFilter p i (a :: l) = (i, a) :: indexedFilter p (i + 1) l := by
  simp [indexedFilter, h]

theorem indexedFilter_cons_neg {p : α → Bool} {a : α} (h : p a = false) (i : ℕ) (l : List α) :
    indexedFilter p i (a :: l) = indexedFilter p (i + 1) l := by
  simp [indexedFilter, h]

theorem indexedFilter_eq_nil {p : α → Bool} (h : ∀ a, p a = false) (i : ℕ) (l : List α) :
    indexedFilter p i l = [] := by
  induction l generalizing i with
  | nil => rfl
  | cons a l ih => rw [indexedFilter_cons_neg (h a), ih]

/-- Insert the element of each pair at the pair's index, pair after pair. -/
def insertEach (l : List α) (items : List (ℕ × α)) : List α :=
  items.foldl (fun l item => l.insertIdx item.1 item.2) l

@[simp] theorem insertEach_nil (l : List α) : insertEach l [] = l := rfl

@[simp] theorem insertEach_cons (l : List α) (item : ℕ × α) (items : List (ℕ × α)) :
    insertEach l (item :: items) = insertEach (l.insertIdx item.1 item.2) items := rfl

theorem insertIdx_length_append (pre l : List α) (a : α) :
    (pre ++ l).insertIdx pre.length a = pre ++ a :: l := by
  induction pre with
  | nil => simp [insertIdx_zero]
  | cons b pre ih => simp [insertIdx_succ_cons, ih]

theorem insertEach_filter_append (p : α → Bool) (l : List α) :
    ∀ pre : List α,
      insertEach (pre ++ l.filter (fun a => !p a)) (indexedFilter p pre.length l) = pre ++ l := by
  induction l with
  | nil => simp
  | cons a l ih =>
    intro pre
    cases hp : p a with
    | false =>
      have h := ih (pre ++ [a])
      simpa [filter_cons, hp, indexedFilter_cons_neg hp] using h
    | true =>
      have h := ih (pre ++ [a])
      simpa [filter_cons, hp, indexedFilter_cons_pos hp, insertIdx_length_append] using h

theorem insertEach_filter (p : α → Bool) (l : List α) :
    insertEach (l.filter fun a => !p a) (indexedFilter p 0 l) = l := by
  simpa using insertEach_filter_append p l []

end List

namespace EsmpServer.Jmap

open EsmpServer.Codec EsmpServer.Write EsmpServer.Query

/-! ## Immutable filter conditions and sort properties -/

/-- The condition kinds of a JMAP query filter; the operators `And`, `Or`, `Not`
and `Close` open and close groups. Only the kind is read here. -/
inductive FilterCond where
  | email | name | domainName | text | type | timezone | members | quotaLt | quotaGt
  | identityIds | emailIds | threadIds | undoStatus | before | after | inMailbox
  | inMailboxOtherThan | minSize | maxSize | allInThreadHaveKeyword
  | someInThreadHaveKeyword | noneInThreadHaveKeyword | hasKeyword | notKeyword
  | hasAttachment | «from» | to | cc | bcc | subject | body | header | id | sentBefore
  | sentAfter | inThread | parentId | role | hasAnyRole | isSubscribed | isActive | scope
  | resourceType | other
  | and | or | not | close
  deriving DecidableEq, Repr

/-- `Filter::is_immutable`: the conditions on what an email was created with. -/
def FilterCond.isImmutable : FilterCond → Bool
  | .before | .after | .minSize | .maxSize | .text | .hasAttachment | .from | .to | .cc
  | .bcc | .subject | .body | .header | .id | .sentBefore | .sentAfter => true
  | _ => false

/-- The properties a JMAP query can sort by. -/
inductive SortProperty where
  | type | name | email | emailId | threadId | sentAt | receivedAt | size | «from» | to
  | subject | cc | sortOrder | parentId | isActive | hasKeyword | allInThreadHaveKeyword
  | someInThreadHaveKeyword | used | other
  deriving DecidableEq, Repr

/-- `Comparator::is_immutable`, which reads only the sort property. -/
def SortProperty.isImmutable : SortProperty → Bool
  | .sentAt | .receivedAt | .size | .from | .to | .subject | .cc => true
  | _ => false

/-- `is_mutable` of `query_changes`. -/
def isMutable (filter : List FilterCond) (sort : Option (List SortProperty)) : Bool :=
  filter.any (fun f => !f.isImmutable) || (sort.map fun s => s.any fun p => !p.isImmutable).getD false

/-! ## The answer -/

/-- An added id and its index in the new result list. -/
structure AddedItem where
  id : ℕ
  index : ℕ
  deriving DecidableEq, Repr

/-- The fields of a `QueryChangesResponse` computed here. -/
structure QueryChangesResponse where
  removed : List ℕ
  added : List AddedItem
  total : Option ℕ
  deriving DecidableEq, Repr

/-- `ChangesResponse::has_changes`. -/
def ChangesResponse.hasChanges (r : ChangesResponse) : Bool :=
  !r.created.isEmpty || !r.updated.isEmpty || !r.destroyed.isEmpty

/-- The loop over the enumerated results: it stops at `up_to_id` and adds the
ids that `pick` selects, with their indexes. -/
def addedItems (pick : ℕ → Bool) (upToId : Option ℕ) : ℕ → List ℕ → List AddedItem
  | _, [] => []
  | index, id :: ids =>
    if upToId = some id then []
    else if pick id then ⟨id, index⟩ :: addedItems pick upToId (index + 1) ids
    else addedItems pick upToId (index + 1) ids

/-- The ids a mutable query re-adds: created and updated ones. -/
def pickMutable (changes : ChangesResponse) (id : ℕ) : Bool :=
  decide (id ∈ changes.created) || decide (id ∈ changes.updated)

/-- The ids an immutable query adds: created ones. -/
def pickImmutable (changes : ChangesResponse) (id : ℕ) : Bool := decide (id ∈ changes.created)

/-- `QueryChanges::query_changes` after the `/changes` call, given the ids and
total of the query run at the present state. -/
def queryChangesResponse (changes : ChangesResponse) (isMutable calculateTotal : Bool)
    (upToId : Option ℕ) (results : List ℕ) (total : Option ℕ) : QueryChangesResponse :=
  if changes.hasChanges || calculateTotal then
    if changes.hasChanges then
      if isMutable then
        ⟨changes.updated ++ changes.destroyed,
          addedItems (pickMutable changes) upToId 0 results, total⟩
      else ⟨changes.destroyed, addedItems (pickImmutable changes) upToId 0 results, total⟩
    else ⟨[], [], total⟩
  else ⟨[], [], none⟩

/-- RFC 8620 §5.6 on the client: drop every removed id from the old result list,
then insert the added ids at their indexes in ascending index order. -/
def applyQueryChanges (old : List ℕ) (r : QueryChangesResponse) : List ℕ :=
  (old.filter fun id => id ∉ r.removed).insertEach (r.added.map fun a => (a.index, a.id))

/-! ## When the answer is right -/

theorem addedItems_none (pick : ℕ → Bool) (index : ℕ) (ids : List ℕ) :
    (addedItems pick none index ids).map (fun a => (a.index, a.id)) =
      List.indexedFilter pick index ids := by
  induction ids generalizing index with
  | nil => rfl
  | cons id ids ih =>
    cases h : pick id <;> simp [addedItems, List.indexedFilter, h, ih]

/-- The ids the answer removes and re-adds, and those it adds. -/
def removedOf (isMutable : Bool) (changes : ChangesResponse) : List ℕ :=
  if isMutable then changes.updated ++ changes.destroyed else changes.destroyed

def pickOf (isMutable : Bool) (changes : ChangesResponse) : ℕ → Bool :=
  if isMutable then pickMutable changes else pickImmutable changes

theorem queryChangesResponse_fields (changes : ChangesResponse) (isMutable calculateTotal : Bool)
    (results : List ℕ) (total : Option ℕ) :
    (queryChangesResponse changes isMutable calculateTotal none results total).removed =
        removedOf isMutable changes ∧
      (queryChangesResponse changes isMutable calculateTotal none results total).added.map
          (fun a => (a.index, a.id)) = List.indexedFilter (pickOf isMutable changes) 0 results := by
  unfold queryChangesResponse
  cases hc : changes.hasChanges
  · simp only [ChangesResponse.hasChanges, Bool.or_eq_false_iff, Bool.not_eq_eq_eq_not,
      Bool.not_false, List.isEmpty_iff] at hc
    obtain ⟨⟨hcr, hup⟩, hde⟩ := hc
    have hpick : ∀ id, pickOf isMutable changes id = false := by
      intro id
      cases isMutable <;> simp [pickOf, pickMutable, pickImmutable, hcr, hup]
    cases calculateTotal <;> cases isMutable <;> simp [removedOf, hup, hde, List.indexedFilter_eq_nil hpick]
  · cases isMutable <;> simp [removedOf, pickOf, addedItems_none]

theorem applyQueryChanges_of_stable (changes : ChangesResponse) (isMutable calculateTotal : Bool)
    (old new : List ℕ) (total : Option ℕ)
    (hstable : old.filter (fun id => id ∉ removedOf isMutable changes) =
      new.filter fun id => !pickOf isMutable changes id) :
    applyQueryChanges old (queryChangesResponse changes isMutable calculateTotal none new total) =
      new := by
  obtain ⟨hremoved, hadded⟩ :=
    queryChangesResponse_fields changes isMutable calculateTotal new total
  rw [applyQueryChanges, hremoved, hadded, hstable]
  exact List.insertEach_filter _ new

/-! ## Collapsed threads -/

/-- `email_query` as `query_changes` runs it, with no position, anchor or limit,
for a request that collapses threads and has at most one sort property: the
ids of the first email of each thread in document-id order, at most
`query_max_results` of them. -/
def collapsedEmailIds (queryMaxResults : ℕ) (emails : List (ℕ × ℕ)) (resultSet : ResultSet) :
    List ℕ :=
  let total := resultSet.results.length
  let limitTotal := min queryMaxResults total
  if 0 < limitTotal then
    (sortUnordered resultSet (some fun documentId => emails.lookup documentId) true
      (Pagination.new limitTotal 0 none 0)).ids
  else []

/-- A result set of emails 1 and 2. -/
def emailsOneTwo : ResultSet := ⟨[1, 2], by decide⟩

/-- The result set once email 1 is deleted. -/
def emailTwo : ResultSet := ⟨[2], by decide⟩

/-- Emails 1 and 2 of thread 7, sorted by the default `receivedAt` with threads
collapsed: before email 1 is deleted the query lists email 1, afterwards email 2.
The email log of the range holds only the deletion of email 1, so the answer
removes email 1 and adds nothing, and the client's list becomes empty. -/
theorem queryChanges_collapseThreads_delete (L : Listing) :
    mergeRecords [(Changes.session [.itemDelete (some 7) 1]).serialize L] [] =
        some [.deleteItem (taggedId 7 1)] ∧
      collapsedEmailIds 5000 [(1, 7), (2, 7)] emailsOneTwo = [taggedId 7 1] ∧
      collapsedEmailIds 5000 [(2, 7)] emailTwo = [taggedId 7 2] ∧
      applyQueryChanges [taggedId 7 1]
          (queryChangesResponse
            (changesResponse .email false 0 (maxChangesOf none (some 5000))
              [.deleteItem (taggedId 7 1)])
            (isMutable [] (some [.receivedAt])) false none [taggedId 7 2] none) = [] := by
  refine ⟨?_, by decide, by decide, by decide⟩
  have hfits : Changes.Fits (Changes.session [.itemDelete (some 7) 1]) L := by
    simp [Changes.Fits, Changes.idLists, Changes.session, Changes.log, Changes.empty,
      Listing.toList_empty, Listing.toList_singleton, buildId]
  rw [mergeRecords_serialize L _ hfits, mergeRecords]
  simp [Changes.idLists, Changes.session, Changes.log, Changes.empty, Listing.toList_empty,
    Listing.toList_singleton]
  decide

end EsmpServer.Jmap
