import EsmpServer.Lib.Batch
import EsmpServer.Write.Log

/-!
# Index values and the object index builder

An object of a collection lists its index values (`IndexableObject::index_values`,
common/src/storage/index.rs): index keys, tags, a blob link, ACL grants, a quota charge
and change log entries. `ObjectIndexBuilder::build` turns one write of a document into
batch operations. An insertion writes what the new value lists (`build_index` with
`set`), a deletion clears what the stored value lists, and an update walks the stored
and the new lists side by side and writes only their difference (`merge_index`).

The derived entries of the document are one key-value map under `EntryKey`, written by
the batches of `Lib.Batch`; the stored value and the used-quota counters sit beside it.
The change log calls go to `Write.Changes`, so the document store passes over them.
-/

namespace EsmpServer.Storage

open EsmpServer.Write

/-- `TagValue` (store/src/write/mod.rs). -/
inductive TagValue
  | id (value : ℕ)
  | text (value : List UInt8)
  deriving DecidableEq, Repr

/-- `AclGrant`: a grantee and the bitmap of its `Bitmap<Acl>`. -/
structure AclGrant where
  accountId : ℕ
  grants : ℕ
  deriving DecidableEq, Repr

/-- `BlobHash`, by its bytes. -/
abbrev BlobHash := List UInt8

/-- `IndexItem`, by the bytes of `as_slice`: its equality, hash, `is_empty` and
`into_owned` all read them. -/
abbrev IndexItem := List UInt8

/-- The lawful equality of index items, named once so that every membership test on items
reads the same instance. -/
instance : LawfulBEq IndexItem := inferInstance

/-- `IndexValue`. -/
inductive IndexValue
  | index (field : ℕ) (value : IndexItem)
  | indexList (field : ℕ) (value : List IndexItem)
  | tag (field : ℕ) (value : List TagValue)
  | blob (value : BlobHash)
  | quota (used : ℕ)
  | logContainer (syncCollection : ℕ)
  | logContainerProperty (syncCollection : ℕ) (ids : List ℕ)
  | logItem (syncCollection : ℕ) (pfx : Option ℕ)
  | acl (value : List AclGrant)
  deriving DecidableEq, Repr

/-- `IndexableObject`: a type whose values list their index values. -/
class IndexableObject (N : Type) where
  indexValues : N → List IndexValue

/-- The derived entries of one document: an index key, a tag bit, a blob link
(`BlobOp::Link`) and an ACL grant (`ValueClass::Acl`). -/
inductive EntryKey
  | index (field : ℕ) (key : List UInt8)
  | tag (field : ℕ) (value : TagValue)
  | blobLink (hash : BlobHash)
  | acl (accountId : ℕ)
  deriving DecidableEq, Repr

/-- What an entry holds: an index key, a tag bit and a link hold nothing, an ACL entry
holds the serialized grants. -/
inductive EntryValue
  | present
  | grants (bitmap : ℕ)
  deriving DecidableEq, Repr

/-- A batch operation on the derived entries. -/
abbrev EntryOp := AList.BatchOp fun _ : EntryKey => EntryValue

/-- The batch operations the builder emits. -/
inductive Operation (N : Type)
  | entry (op : EntryOp)
  | addUsedQuota (principalId : ℕ) (delta : ℤ)
  | log (collection : ℕ) (op : LogOp)
  | assertValue (value : N)
  | setValue (value : N)
  | clearValue

/-- What `build` reads of the batch: the account and document it is positioned on. -/
structure BatchContext where
  accountId : Option ℕ
  documentId : Option ℕ
  deriving DecidableEq, Repr

namespace BatchContext

variable {N : Type} (ctx : BatchContext)

/-- `log_item_insert` and its siblings: a change of the current document, logged when
the batch has an account and a document. -/
def logDocument (collection : ℕ) (op : ℕ → LogOp) : List (Operation N) :=
  match ctx.accountId, ctx.documentId with
  | some _, some documentId => [.log collection (op documentId)]
  | _, _ => []

/-- `log_container_property_change`: logged when the batch has an account. -/
def logContainerPropertyChange (collection parentId : ℕ) : List (Operation N) :=
  match ctx.accountId with
  | some _ => [.log collection (.containerPropertyUpdate parentId)]
  | none => []

/-- The quota arms: `add(UsedQuota(id), value)` for the batch's account and the tenant. -/
def addUsedQuota (tenantId : Option ℕ) (value : ℤ) : List (Operation N) :=
  (ctx.accountId.map fun accountId => Operation.addUsedQuota accountId value).toList ++
    (tenantId.map fun tenantId => Operation.addUsedQuota tenantId value).toList

end BatchContext

namespace Operation

variable {N : Type}

/-- `index` and `unindex`. -/
def index (set : Bool) (field : ℕ) (key : List UInt8) : Operation N :=
  .entry (if set then .set (.index field key) .present else .clear (.index field key))

/-- `tag` and `untag`. -/
def tag (set : Bool) (field : ℕ) (value : TagValue) : Operation N :=
  .entry (if set then .set (.tag field value) .present else .clear (.tag field value))

/-- `set(BlobOp::Link)` and `clear(BlobOp::Link)`. -/
def blobLink (set : Bool) (hash : BlobHash) : Operation N :=
  .entry (if set then .set (.blobLink hash) .present else .clear (.blobLink hash))

/-- `acl_grant`. -/
def aclGrant (accountId grants : ℕ) : Operation N := .entry (.set (.acl accountId) (.grants grants))

/-- `acl_revoke`. -/
def aclRevoke (accountId : ℕ) : Operation N := .entry (.clear (.acl accountId))

end Operation

open Operation

variable {N : Type}

/-- `build_index`: the operations of one index value on insertion (`set`) or deletion. -/
def buildIndex (ctx : BatchContext) (tenantId : Option ℕ) (set : Bool) :
    IndexValue → List (Operation N)
  | .index field value => if value.isEmpty then [] else [index set field value]
  | .indexList field value => value.map (index set field)
  | .tag field value => value.map (tag set field)
  | .blob value => [blobLink set value]
  | .acl value => value.map fun item =>
      if set then aclGrant item.accountId item.grants else aclRevoke item.accountId
  | .quota used => ctx.addUsedQuota tenantId (if set then (used : ℤ) else -(used : ℤ))
  | .logItem syncCollection pfx =>
      ctx.logDocument syncCollection (if set then .itemInsert pfx else .itemDelete pfx)
  | .logContainer syncCollection =>
      ctx.logDocument syncCollection (if set then .containerInsert else .containerDelete)
  | .logContainerProperty syncCollection ids =>
      ids.flatMap (ctx.logContainerPropertyChange syncCollection)

/-- The first loop of the `IndexList` arm: a new value still in the set of old values is
taken out of it, any other is indexed. Returns the values it indexes and the old values
left, which the arm then unindexes. -/
def mergeIndexList : List IndexItem → List IndexItem → List IndexItem × List IndexItem
  | removeValues, [] => ([], removeValues)
  | removeValues, value :: newValue =>
    if value ∈ removeValues then mergeIndexList (removeValues.erase value) newValue
    else
      let rest := mergeIndexList removeValues newValue
      (value :: rest.1, rest.2)

/-- The search of the ACL arm for a new grant: the first old grant of the same account
decides, and the loop breaks there. -/
def addItem (oldAcl : List AclGrant) (item : AclGrant) : Bool :=
  match oldAcl.find? (·.accountId == item.accountId) with
  | some currentItem => item.grants != currentItem.grants
  | none => true

/-- The `Acl` arm of `merge_index`. -/
def mergeAcl (oldAcl newAcl : List AclGrant) : List (Operation N) :=
  match !oldAcl.isEmpty, !newAcl.isEmpty with
  | true, true =>
    (oldAcl.filter fun currentItem =>
        !newAcl.any (·.accountId == currentItem.accountId)).map (aclRevoke ·.accountId) ++
      (newAcl.filter (addItem oldAcl)).map fun item => aclGrant item.accountId item.grants
  | false, true => newAcl.map fun item => aclGrant item.accountId item.grants
  | true, false => oldAcl.map (aclRevoke ·.accountId)
  | false, false => []

/-- `merge_index`: the operations that take a changed index value from its stored to its
new form. A pair of different variants is `unreachable!()`. -/
def mergeIndex (ctx : BatchContext) (tenantId : Option ℕ) :
    IndexValue → IndexValue → Option (List (Operation N))
  | .index field oldValue, .index _ newValue =>
    some ((if oldValue.isEmpty then [] else [index false field oldValue]) ++
      (if newValue.isEmpty then [] else [index true field newValue]))
  | .indexList field oldValue, .indexList _ newValue =>
    let r := mergeIndexList oldValue.dedup newValue
    some (r.1.map (index true field) ++ r.2.map (index false field))
  | .tag field oldValue, .tag _ newValue =>
    some ((oldValue.filter (· ∉ newValue)).map (tag false field) ++
      (newValue.filter (· ∉ oldValue)).map (tag true field))
  | .blob oldHash, .blob newHash => some [blobLink false oldHash, blobLink true newHash]
  | .acl oldAcl, .acl newAcl => some (mergeAcl oldAcl newAcl)
  | .quota oldUsed, .quota newUsed => some (ctx.addUsedQuota tenantId ((newUsed : ℤ) - oldUsed))
  | .logItem syncCollection oldPfx, .logItem _ newPfx =>
    some (ctx.logDocument syncCollection (.itemDelete oldPfx) ++
      ctx.logDocument syncCollection (.itemInsert newPfx))
  | .logContainerProperty syncCollection oldIds, .logContainerProperty _ newIds =>
    some ((oldIds.filter (· ∉ newIds) ++ newIds.filter (· ∉ oldIds)).flatMap
      (ctx.logContainerPropertyChange syncCollection))
  | _, _ => none

/-- The update loop on one pair of index values: an unchanged value only logs the
update of a container or an item. -/
def updateIndex (ctx : BatchContext) (tenantId : Option ℕ) (current change : IndexValue) :
    Option (List (Operation N)) :=
  if current ≠ change then mergeIndex ctx tenantId current change
  else some (match current with
    | .logContainer syncCollection => ctx.logDocument syncCollection LogOp.containerUpdate
    | .logItem syncCollection pfx => ctx.logDocument syncCollection (LogOp.itemUpdate pfx)
    | _ => [])

/-- `ObjectIndexBuilder`: the stored value, the new one, or both, never neither. -/
structure ObjectIndexBuilder (N : Type) where
  tenantId : Option ℕ
  current : Option N
  changes : Option N
  nonempty : current.isSome ∨ changes.isSome

variable [IndexableObject N]

open IndexableObject

/-- `ObjectIndexBuilder::build`. The update walks the two lists with `zip`. -/
def ObjectIndexBuilder.build (b : ObjectIndexBuilder N) (ctx : BatchContext) :
    Option (List (Operation N)) :=
  match hc : b.current, hn : b.changes with
  | none, some changes =>
    some ((indexValues changes).flatMap (buildIndex ctx b.tenantId true) ++ [.setValue changes])
  | some current, some changes => do
    let ops ← ((indexValues current).zip (indexValues changes)).mapM fun (c, n) =>
      updateIndex ctx b.tenantId c n
    some (.assertValue current :: ops.flatten ++ [.setValue changes])
  | some current, none =>
    some (.assertValue current ::
      (indexValues current).flatMap (buildIndex ctx b.tenantId false) ++ [.clearValue])
  | none, none => absurd b.nonempty (by simp [hc, hn])

/-- The part of the store a document's writes reach: its stored value, its derived
entries and the used-quota counters. -/
structure DocumentStore (N : Type) where
  value : Option N
  entries : AList fun _ : EntryKey => EntryValue
  usedQuota : ℕ → ℤ

namespace DocumentStore

variable [DecidableEq N]

/-- One operation at commit; an assertion that fails aborts the batch. -/
def applyOperation (s : DocumentStore N) : Operation N → Option (DocumentStore N)
  | .entry op => some { s with entries := s.entries.applyOp op }
  | .addUsedQuota principalId delta =>
    let used := s.usedQuota principalId + delta
    some { s with usedQuota := Function.update s.usedQuota principalId used }
  | .log _ _ => some s
  | .assertValue value => if s.value = some value then some s else none
  | .setValue value => some { s with value := some value }
  | .clearValue => some { s with value := none }

/-- The commit of a batch. -/
def commit (s : DocumentStore N) (ops : List (Operation N)) : Option (DocumentStore N) :=
  ops.foldlM applyOperation s

/-- One write of the document, as the object handlers issue it. -/
inductive DocumentWrite (N : Type)
  | insert (changes : N)
  | update (changes : N)
  | delete

/-- The builder of a write: an insertion when nothing is stored, an update or a deletion
with the stored value as current. -/
def builder (s : DocumentStore N) (tenantId : Option ℕ) :
    DocumentWrite N → Option (ObjectIndexBuilder N)
  | .insert changes => match s.value with
    | none => some ⟨tenantId, none, some changes, by simp⟩
    | some _ => none
  | .update changes => s.value.map fun current => ⟨tenantId, some current, some changes, by simp⟩
  | .delete => s.value.map fun current => ⟨tenantId, some current, none, by simp⟩

/-- A write: build the batch and commit it. -/
def write (ctx : BatchContext) (tenantId : Option ℕ) (s : DocumentStore N)
    (w : DocumentWrite N) : Option (DocumentStore N) := do
  let b ← s.builder tenantId w
  let ops ← b.build ctx
  s.commit ops

/-- A run of writes; a write that cannot be built or committed leaves the store. -/
def run (ctx : BatchContext) (tenantId : Option ℕ) (s : DocumentStore N)
    (ws : List (DocumentWrite N)) : DocumentStore N :=
  ws.foldl (fun s w => (s.write ctx tenantId w).getD s) s

end DocumentStore

end EsmpServer.Storage
