import EsmpServer.Email.MailboxTree
import EsmpServer.Lib.Fallible

/-!
# `Mailbox/set`

`mailbox_set` (jmap/mailbox/set.rs) handles the creates of a request, then its
updates, then its destroys. `mailbox_set_item` checks each create and each update on
its own. The parent it names must be a mailbox, and the walk up the parents must reach
a root within `mailbox_max_depth` steps without meeting the mailbox itself; a parent
missing from the store but created earlier in the request ends the walk. A role it
sets must not be held by a mailbox of the cache. Its name must not be the name, lower
cased, of a mailbox of the cache under the same parent.

The creates accepted are written in one batch after the loop over the creates, and the
updates accepted in one batch after theirs. The cache the checks read is built from the
store, so the items of one request are never checked against each other: two creates
named `x` and `X` at the root are both accepted (`mailboxSet_duplicateName`). A destroy
is refused while the cache holds a child of the mailbox.

The model is of a request on the account's own mailboxes: the checks of a shared
account's rights, the subscriptions, the sort order, the rights and the emails of a
mailbox are left out.
-/

namespace EsmpServer.Jmap

open Email (SpecialUse MailboxCache MailboxesCache u32Max)

/-- `Mailbox`, with the fields `mailbox_set` checks; the parent is its document id
plus one, 0 at the root. -/
structure Mailbox where
  name : String
  parentId : ℕ
  role : SpecialUse
  deriving DecidableEq, Repr

/-- `Mailbox::new`. -/
def Mailbox.new (name : String) : Mailbox := ⟨name, 0, .none⟩

/-- The mailboxes of an account, by document id, and its counter of document ids. -/
structure MailboxStore where
  mailboxes : List (ℕ × Mailbox)
  documentIds : ℕ
  deriving DecidableEq, Repr

namespace MailboxStore

/-- `get_archive`. -/
def get (store : MailboxStore) (documentId : ℕ) : Option Mailbox := store.mailboxes.lookup documentId

/-- `assign_document_ids`: `add_and_get` of one on the counter. -/
def assignDocumentId (store : MailboxStore) : ℕ × MailboxStore :=
  (store.documentIds + 1, { store with documentIds := store.documentIds + 1 })

end MailboxStore

/-- `insert_item`: the entry of the cache for a stored mailbox, whose parent is a
document id, `u32::MAX` at the root. -/
def insertItem (documentId : ℕ) (m : Mailbox) : MailboxCache :=
  ⟨documentId, m.name, "", m.role, if m.parentId > 0 then m.parentId - 1 else u32Max⟩

/-- The cache `get_cached_messages` builds from the store. -/
def MailboxStore.cache (store : MailboxStore) : MailboxesCache :=
  store.mailboxes.foldl (fun cache e => cache.insert (insertItem e.1 e.2)) MailboxesCache.empty

/-- `INBOX_ID` and `TRASH_ID`. -/
def inboxId : ℕ := 0

def trashId : ℕ := 1

/-- `JUNK_ID`. -/
def junkId : ℕ := 2

/-- The settings `mailbox_set_item` reads, `jmap.mailbox.max-depth` and
`jmap.mailbox.max-name-length`. -/
structure MailboxConfig where
  maxDepth : ℕ
  nameMaxLen : ℕ

/-- Their defaults. -/
def MailboxConfig.default : MailboxConfig := ⟨10, 255⟩

/-! ## One item -/

/-- The properties of a mailbox `mailbox_set_item` reads. -/
inductive MailboxProperty
  | name
  | parentId
  | role
  deriving DecidableEq, Repr

/-- A value given for a property; an id may be a reference to a create of the same
request. -/
inductive SetValue
  | text (value : String)
  | id (documentId : ℕ)
  | reference (creationId : String)
  | null
  deriving DecidableEq, Repr

/-- The types of `SetError` that `mailbox_set` answers with. -/
inductive SetErrorType
  | invalidProperties
  | willDestroy
  | notFound
  | forbidden
  | mailboxHasChild
  deriving DecidableEq, Repr

/-- `SetError`: its type, the property it names and its description. -/
structure SetError where
  type : SetErrorType
  property : Option MailboxProperty
  description : Option String
  deriving DecidableEq, Repr

/-- An invalid property, with its description. -/
def invalidProperty (property : Option MailboxProperty) (description : String) : SetError :=
  ⟨.invalidProperties, property, some description⟩

/-- `SetContext`: the ids of the mailboxes, those created so far in the request
included, the ids to destroy, and the ids given to the creates so far. -/
structure SetContext where
  mailboxIds : List ℕ
  willDestroy : List ℕ
  createdIds : List (String × ℕ)

/-- `eval_object_references`: a reference to a create of the request becomes the id it
was given. -/
def evalReference (ctx : SetContext) : SetValue → Except SetError SetValue
  | .reference creationId =>
    match ctx.createdIds.lookup creationId with
    | some documentId => .ok (.id documentId)
    | none => .error ⟨.notFound, none, some ("Id reference \"" ++ creationId ++ "\" not found.")⟩
  | value => .ok value

/-- `str::trim`: the text without the whitespace at its ends. -/
def trim (s : String) : String :=
  String.ofList ((s.toList.dropWhile Char.isWhitespace).reverse.dropWhile Char.isWhitespace).reverse

/-- `SpecialUse::parse_value`, which ignores case. -/
def parseRole (value : String) : Option SpecialUse :=
  match value.toLower with
  | "inbox" => some .inbox
  | "trash" => some .trash
  | "junk" => some .junk
  | "drafts" => some .drafts
  | "archive" => some .archive
  | "sent" => some .sent
  | "shared" => some .shared
  | "important" => some .important
  | _ => none

/-- One property of the loop of `mailbox_set_item`. -/
def applyProperty (config : MailboxConfig) (ctx : SetContext) (changes : Mailbox)
    (item : MailboxProperty × SetValue) : Except SetError Mailbox := do
  let value ← evalReference ctx item.2
  match item.1, value with
  | .name, .text value =>
    let value := trim value
    if value ≠ "" ∧ value.utf8ByteSize < config.nameMaxLen then .ok { changes with name := value }
    else
      .error (invalidProperty (some .name)
        (if value ≠ "" then "Mailbox name is too long." else "Mailbox name cannot be empty."))
  | .parentId, .id parentId =>
    if parentId ∈ ctx.willDestroy then .error ⟨.willDestroy, none, some "Parent ID will be destroyed."⟩
    else if parentId ∉ ctx.mailboxIds then .error (invalidProperty none "Parent ID does not exist.")
    else .ok { changes with parentId := parentId + 1 }
  | .parentId, .null => .ok { changes with parentId := 0 }
  | .role, .text value =>
    match parseRole (trim value) with
    | some role => .ok { changes with role := role }
    | none => .error (invalidProperty (some .role) ("Invalid role \"" ++ trim value ++ "\"."))
  | .role, .null => .ok { changes with role := .none }
  | property, _ => .error (invalidProperty (some property) "Invalid property or value.")

/-- The walk up the parents of `mailbox_set_item`, at most `fuel` steps, from the
parent `parentId` of the mailbox `currentId` (its document id plus one, `u32::MAX` for
a create). -/
def parentWalk (store : MailboxStore) (ctx : SetContext) (currentId : ℕ) :
    ℕ → ℕ → Except SetError Unit
  | 0, _ => .error (invalidProperty (some .parentId) "Mailbox parent-child relationship is too deep.")
  | fuel + 1, parentId =>
    if parentId = currentId then
      .error (invalidProperty (some .parentId) "Mailbox cannot be a parent of itself.")
    else if parentId = 0 then .ok ()
    else
      match store.get (parentId - 1) with
      | some parent => parentWalk store ctx currentId fuel parent.parentId
      | none =>
        if parentId - 1 ∈ ctx.mailboxIds then .ok ()
        else .error (invalidProperty (some .parentId) "Mailbox parent does not exist.")

/-- The walk up the parents, unless an update keeps its parent. -/
def checkParent (config : MailboxConfig) (store : MailboxStore) (ctx : SetContext)
    (update : Option (ℕ × Mailbox)) (changes : Mailbox) : Except SetError Unit :=
  if update.all (·.2.parentId ≠ changes.parentId) then
    parentWalk store ctx ((update.map (·.1 + 1)).getD u32Max) config.maxDepth changes.parentId
  else .ok ()

/-- The check that a role set or changed is held by no mailbox of the cache, and is not
set on Inbox or Trash. -/
def checkRole (cache : MailboxesCache) (update : Option (ℕ × Mailbox)) (changes : Mailbox) :
    Except SetError Unit :=
  if changes.role ≠ .none ∧ update.all (·.2.role ≠ changes.role) then
    if (cache.items.find? (·.role = changes.role)).isSome then
      .error (invalidProperty (some .role) ("A mailbox with role \x27" ++ reprStr changes.role ++
        "\x27 already exists."))
    else if update.any fun u => u.1 = inboxId ∨ u.1 = trashId then
      .error (invalidProperty (some .role)
        "You are not allowed to change the role of Inbox or Trash folders.")
    else .ok ()
  else .ok ()

/-- The check that the name is given and, when set or changed, is not the name, lower
cased, of a mailbox of the cache under the same parent. -/
def checkName (cache : MailboxesCache) (update : Option (ℕ × Mailbox)) (changes : Mailbox) :
    Except SetError Unit :=
  if changes.name ≠ "" then
    if update.all (·.2.name ≠ changes.name) ∧ cache.items.any (fun m =>
        m.name.toLower = changes.name.toLower ∧ (m.parent.map (· + 1)).getD 0 = changes.parentId) then
      .error (invalidProperty (some .name) ("A mailbox with name \x27" ++ changes.name ++
        "\x27 already exists."))
    else .ok ()
  else .error (invalidProperty (some .name) "Mailbox name cannot be empty.")

/-- `mailbox_set_item`: the mailbox a create, or an update of a stored mailbox, would
write. -/
def mailboxSetItem (config : MailboxConfig) (store : MailboxStore) (ctx : SetContext)
    (object : List (MailboxProperty × SetValue)) (update : Option (ℕ × Mailbox)) :
    Except SetError Mailbox := do
  let changes ← object.foldlM (applyProperty config ctx) ((update.map (·.2)).getD (Mailbox.new ""))
  checkParent config store ctx update changes
  checkRole store.cache update changes
  checkName store.cache update changes
  return changes

/-! ## The request -/

/-- A write of a batch: the assertion that a document exists, or a mailbox written. -/
inductive MailboxOp
  | assertExists (documentId : ℕ)
  | write (documentId : ℕ) (mailbox : Mailbox)
  deriving DecidableEq, Repr

/-- Writing a mailbox over the one of the same document id. -/
def MailboxStore.put (store : MailboxStore) (documentId : ℕ) (m : Mailbox) : MailboxStore :=
  { store with mailboxes := (store.mailboxes.filter (·.1 ≠ documentId)) ++ [(documentId, m)] }

/-- `commit_batch`: the writes in order, none when an assertion fails. -/
def commitBatch (store : MailboxStore) : List MailboxOp → Option MailboxStore
  | [] => some store
  | .assertExists documentId :: ops =>
    if (store.get documentId).isSome then commitBatch store ops else none
  | .write documentId m :: ops => commitBatch (store.put documentId m) ops

/-- The batch for one accepted item: the assertion that its parent exists, then the
mailbox. -/
def itemOps (documentId : ℕ) (m : Mailbox) : List MailboxOp :=
  (if m.parentId > 0 then [.assertExists (m.parentId - 1)] else []) ++ [.write documentId m]

/-- `SetResponse`, with what `mailbox_set` records in it. -/
structure SetResponse where
  created : List (String × ℕ)
  notCreated : List (String × SetError)
  updated : List ℕ
  notUpdated : List (ℕ × SetError)
  destroyed : List ℕ
  notDestroyed : List (ℕ × SetError)
  deriving DecidableEq, Repr

/-- A `Mailbox/set` request: the creates by creation id, the updates by document id,
and the ids to destroy. -/
structure MailboxSetRequest where
  create : List (String × List (MailboxProperty × SetValue))
  update : List (ℕ × List (MailboxProperty × SetValue))
  destroy : List ℕ

/-- What the loops of `mailbox_set` carry: the store, whose counter of document ids is
written as ids are assigned, the context, the batch and the response. -/
structure SetState where
  store : MailboxStore
  ctx : SetContext
  batch : List MailboxOp
  response : SetResponse

/-- One create of `mailbox_set`. -/
def createStep (config : MailboxConfig) (st : SetState)
    (item : String × List (MailboxProperty × SetValue)) : SetState :=
  match mailboxSetItem config st.store st.ctx item.2 none with
  | .ok m =>
    let assigned := st.store.assignDocumentId
    { store := assigned.2
      ctx := { st.ctx with
        mailboxIds := st.ctx.mailboxIds ++ [assigned.1]
        createdIds := st.ctx.createdIds ++ [(item.1, assigned.1)] }
      batch := st.batch ++ itemOps assigned.1 m
      response := { st.response with created := st.response.created ++ [(item.1, assigned.1)] } }
  | .error err => { st with response := { st.response with notCreated := st.response.notCreated ++ [(item.1, err)] } }

/-- One update of `mailbox_set`; the accepted ids are kept beside the state until the
batch is written. -/
def updateStep (config : MailboxConfig) (st : SetState × List ℕ)
    (item : ℕ × List (MailboxProperty × SetValue)) : SetState × List ℕ :=
  let (st, willUpdate) := st
  let notUpdated (err : SetError) : SetState × List ℕ :=
    ({ st with response := { st.response with notUpdated := st.response.notUpdated ++ [(item.1, err)] } },
      willUpdate)
  if item.1 ∈ st.ctx.willDestroy then notUpdated ⟨.willDestroy, none, none⟩
  else
    match st.store.get item.1 with
    | some current =>
      match mailboxSetItem config st.store st.ctx item.2 (some (item.1, current)) with
      | .ok m => ({ st with batch := st.batch ++ itemOps item.1 m }, willUpdate ++ [item.1])
      | .error err => notUpdated err
    | none => notUpdated ⟨.notFound, none, none⟩

/-- `mailbox_destroy` for a store without emails: the system folders stay unless the
token may delete them, and a mailbox with a child in the cache stays. -/
def mailboxDestroy (store : MailboxStore) (canDeleteSystemFolders : Bool) (documentId : ℕ) :
    Except SetError MailboxStore :=
  if documentId ∈ [inboxId, trashId, junkId] ∧ !canDeleteSystemFolders then
    .error ⟨.forbidden, none, some "You are not allowed to delete Inbox, Junk or Trash folders."⟩
  else if store.cache.items.any (·.parentId = documentId) then
    .error ⟨.mailboxHasChild, none, some "Mailbox has at least one children."⟩
  else
    match store.get documentId with
    | some _ => .ok { store with mailboxes := store.mailboxes.filter (·.1 ≠ documentId) }
    | none => .error ⟨.notFound, none, none⟩

/-- One destroy of `mailbox_set`. -/
def destroyStep (canDeleteSystemFolders : Bool) (st : MailboxStore × SetResponse) (documentId : ℕ) :
    MailboxStore × SetResponse :=
  match mailboxDestroy st.1 canDeleteSystemFolders documentId with
  | .ok store => (store, { st.2 with destroyed := st.2.destroyed ++ [documentId] })
  | .error err => (st.1, { st.2 with notDestroyed := st.2.notDestroyed ++ [(documentId, err)] })

/-- `mailbox_set`: the store after the request and the response; a failed assertion in
the batch of the creates fails the whole request. -/
def mailboxSet (config : MailboxConfig) (canDeleteSystemFolders : Bool) (store : MailboxStore)
    (request : MailboxSetRequest) : Option (MailboxStore × SetResponse) := do
  let ctx : SetContext := ⟨store.mailboxes.map (·.1), request.destroy, []⟩
  let created := request.create.foldl (createStep config) ⟨store, ctx, [], ⟨[], [], [], [], [], []⟩⟩
  let store ← commitBatch created.store created.batch
  let (updated, willUpdate) :=
    request.update.foldl (updateStep config) ({ created with store, batch := [] }, [])
  let response := match commitBatch store updated.batch with
    | some _ => { updated.response with updated := updated.response.updated ++ willUpdate }
    | none =>
      { updated.response with
        notUpdated := updated.response.notUpdated ++ willUpdate.map fun id =>
          (id, ⟨.forbidden, none, some "Another process modified this mailbox, please try again."⟩) }
  let store := (commitBatch store updated.batch).getD store
  return request.destroy.foldl (destroyStep canDeleteSystemFolders) (store, response)

/-! ## The names under one parent -/

/-- (b): two mailboxes under one parent have names that differ once lower cased. -/
def MailboxStore.SiblingNamesDistinct (store : MailboxStore) : Prop :=
  ∀ a ∈ store.mailboxes, ∀ b ∈ store.mailboxes, a.1 ≠ b.1 → a.2.parentId = b.2.parentId →
    a.2.name.toLower ≠ b.2.name.toLower

/-- The store invariant a create needs: distinct document ids, none above the counter,
and no parent at `u32::MAX`. -/
structure MailboxStore.Valid (store : MailboxStore) : Prop where
  nodup : (store.mailboxes.map (·.1)).Nodup
  le_documentIds : ∀ e ∈ store.mailboxes, e.1 ≤ store.documentIds
  parentId_ne : ∀ e ∈ store.mailboxes, e.2.parentId ≠ u32Max + 1

theorem foldl_insert_cache (entries : List (ℕ × Mailbox)) (cache : MailboxesCache)
    (hnodup : (entries.map (·.1)).Nodup) (hnew : ∀ e ∈ entries, cache.index e.1 = none) :
    (entries.foldl (fun cache e => cache.insert (insertItem e.1 e.2)) cache).items =
      cache.items ++ entries.map fun e => insertItem e.1 e.2 := by
  induction entries generalizing cache with
  | nil => simp
  | cons e entries ih =>
    rw [List.map_cons, List.nodup_cons] at hnodup
    have hinsert : cache.insert (insertItem e.1 e.2) =
        ⟨Function.update cache.index e.1 (some cache.items.length), cache.items ++ [insertItem e.1 e.2]⟩ := by
      simp [MailboxesCache.insert, insertItem, hnew e List.mem_cons_self]
    rw [List.foldl_cons, hinsert, ih _ hnodup.2]
    · simp
    · intro e' he'
      have hne : e'.1 ≠ e.1 := fun h => hnodup.1 (h ▸ List.mem_map_of_mem he')
      simp [Function.update_of_ne hne, hnew e' (List.mem_cons_of_mem _ he')]

theorem items_cache {store : MailboxStore} (hnodup : (store.mailboxes.map (·.1)).Nodup) :
    store.cache.items = store.mailboxes.map fun e => insertItem e.1 e.2 := by
  have h := foldl_insert_cache store.mailboxes MailboxesCache.empty hnodup fun _ _ => rfl
  simpa [MailboxStore.cache, MailboxesCache.empty] using h

theorem parent_insertItem (documentId : ℕ) {m : Mailbox} (h : m.parentId ≠ u32Max + 1) :
    ((insertItem documentId m).parent.map (· + 1)).getD 0 = m.parentId := by
  unfold insertItem MailboxCache.parent
  by_cases hpos : m.parentId > 0
  · have hne : m.parentId - 1 ≠ u32Max := by omega
    simp [hpos, hne]
    omega
  · simp [hpos]
    omega

theorem checkName_create {cache : MailboxesCache} {changes : Mailbox}
    (h : checkName cache none changes = .ok ()) :
    changes.name ≠ "" ∧ ∀ c ∈ cache.items, c.name.toLower = changes.name.toLower →
      (c.parent.map (· + 1)).getD 0 ≠ changes.parentId := by
  unfold checkName at h
  by_cases hname : changes.name ≠ ""
  · refine ⟨hname, fun c hc hlower hparent => ?_⟩
    have hdup : (none : Option (ℕ × Mailbox)).all (·.2.name ≠ changes.name) ∧ cache.items.any (fun m =>
        m.name.toLower = changes.name.toLower ∧ (m.parent.map (· + 1)).getD 0 = changes.parentId) := by
      refine ⟨rfl, List.any_eq_true.mpr ⟨c, hc, ?_⟩⟩
      simp [hlower, hparent]
    rw [if_pos hname, if_pos hdup] at h
    cases h
  · simp [hname] at h

theorem mailboxSetItem_ok {config : MailboxConfig} {store : MailboxStore} {ctx : SetContext}
    {object : List (MailboxProperty × SetValue)} {update : Option (ℕ × Mailbox)} {m : Mailbox}
    (h : mailboxSetItem config store ctx object update = .ok m) :
    checkRole store.cache update m = .ok () ∧ checkName store.cache update m = .ok () := by
  unfold mailboxSetItem at h
  obtain ⟨changes, -, h⟩ := Except.bind_eq_ok.mp h
  obtain ⟨⟨⟩, -, h⟩ := Except.bind_eq_ok.mp h
  obtain ⟨⟨⟩, hrole, h⟩ := Except.bind_eq_ok.mp h
  obtain ⟨⟨⟩, hname, h⟩ := Except.bind_eq_ok.mp h
  cases h
  exact ⟨hrole, hname⟩

theorem commitBatch_itemOps {store store' : MailboxStore} {documentId : ℕ} {m : Mailbox}
    (h : commitBatch store (itemOps documentId m) = some store') : store' = store.put documentId m := by
  unfold itemOps at h
  split_ifs at h
  · simp only [List.singleton_append, commitBatch] at h
    split_ifs at h
    simpa [commitBatch] using h.symm
  · simpa [commitBatch] using h.symm

theorem SiblingNamesDistinct.put {store : MailboxStore} (hdistinct : store.SiblingNamesDistinct)
    {documentId : ℕ} (hnew : ∀ e ∈ store.mailboxes, e.1 ≠ documentId) {m : Mailbox}
    (hname : ∀ e ∈ store.mailboxes, e.2.parentId = m.parentId → e.2.name.toLower ≠ m.name.toLower) :
    (store.put documentId m).SiblingNamesDistinct := by
  have hfilter : store.mailboxes.filter (·.1 ≠ documentId) = store.mailboxes :=
    List.filter_eq_self.mpr fun e he => by simpa using hnew e he
  intro a ha b hb hab hparent
  simp only [MailboxStore.put, hfilter, List.mem_append, List.mem_singleton] at ha hb
  rcases ha with ha | rfl <;> rcases hb with hb | rfl
  · exact hdistinct a ha b hb hab hparent
  · exact hname a ha hparent
  · exact fun hlower => hname b hb hparent.symm hlower.symm
  · exact absurd rfl hab

theorem mailboxSet_singleCreate {config : MailboxConfig} {canDeleteSystemFolders : Bool}
    {store store' : MailboxStore} {response : SetResponse} {creationId : String}
    {object : List (MailboxProperty × SetValue)} (hvalid : store.Valid)
    (hdistinct : store.SiblingNamesDistinct)
    (h : mailboxSet config canDeleteSystemFolders store ⟨[(creationId, object)], [], []⟩ =
      some (store', response)) : store'.SiblingNamesDistinct := by
  unfold mailboxSet at h
  simp only [List.foldl_cons, List.foldl_nil, createStep] at h
  split at h
  · rename_i m hitem
    obtain ⟨-, hcheck⟩ := mailboxSetItem_ok hitem
    obtain ⟨-, hunique⟩ := checkName_create hcheck
    rw [items_cache hvalid.nodup] at hunique
    simp only [List.nil_append] at h
    cases hcommit : commitBatch store.assignDocumentId.2 (itemOps store.assignDocumentId.1 m) with
    | none => simp [hcommit] at h
    | some written =>
      simp only [hcommit, Option.bind_eq_bind, Option.bind_some, commitBatch, Option.getD_some,
        Option.pure_def, Option.some.injEq, Prod.mk.injEq] at h
      rw [← h.1, commitBatch_itemOps hcommit]
      refine SiblingNamesDistinct.put hdistinct (fun e he => ?_) (fun e he hparent hlower => ?_)
      · have := hvalid.le_documentIds e he
        simp only [MailboxStore.assignDocumentId]
        omega
      · refine hunique (insertItem e.1 e.2) (List.mem_map_of_mem he) hlower ?_
        rw [parent_insertItem e.1 (hvalid.parentId_ne e he)]
        exact hparent
  · simp only [commitBatch, Option.bind_eq_bind, Option.bind_some, Option.getD_some, Option.pure_def,
      Option.some.injEq, Prod.mk.injEq] at h
    rw [← h.1]
    exact hdistinct

/-! ## Two creates with one name -/

instance : DecidablePred MailboxStore.SiblingNamesDistinct := fun store =>
  inferInstanceAs (Decidable (∀ a ∈ store.mailboxes, ∀ b ∈ store.mailboxes, a.1 ≠ b.1 →
    a.2.parentId = b.2.parentId → a.2.name.toLower ≠ b.2.name.toLower))

/-- An account without mailboxes. -/
def MailboxStore.empty : MailboxStore := ⟨[], 0⟩

/-- Two creates at the root, named `x` and `X`, both pass the check of the name, which
reads the store the request started from: the account then holds two mailboxes under
one parent whose names are equal once lower cased. -/
theorem mailboxSet_duplicateName (canDeleteSystemFolders : Bool) :
    mailboxSet MailboxConfig.default canDeleteSystemFolders MailboxStore.empty
        ⟨[("a", [(.name, .text "x")]), ("b", [(.name, .text "X")])], [], []⟩ =
      some (⟨[(1, ⟨"x", 0, .none⟩), (2, ⟨"X", 0, .none⟩)], 2⟩, ⟨[("a", 1), ("b", 2)], [], [], [], [], []⟩) ∧
    MailboxStore.empty.SiblingNamesDistinct ∧
    ¬ (⟨[(1, ⟨"x", 0, .none⟩), (2, ⟨"X", 0, .none⟩)], 2⟩ : MailboxStore).SiblingNamesDistinct := by
  refine ⟨?_, by decide, by decide +kernel⟩
  cases canDeleteSystemFolders <;> decide +kernel

-- two updates in one request, each checked against the stored parents, make mailboxes 5
-- and 6 each other's parent
example : mailboxSet MailboxConfig.default false ⟨[(5, ⟨"p", 0, .none⟩), (6, ⟨"q", 0, .none⟩)], 6⟩
    ⟨[], [(5, [(.parentId, .id 6)]), (6, [(.parentId, .id 5)])], []⟩ =
      some (⟨[(5, ⟨"p", 7, .none⟩), (6, ⟨"q", 6, .none⟩)], 6⟩, ⟨[], [], [5, 6], [], [], []⟩) := by
  decide +kernel

end EsmpServer.Jmap
