import EsmpServer.Storage.IndexInvariant

/-!
# The index values of sieve scripts and mailboxes

`SieveScript::index_values` (email/src/sieve/index.rs) lists two index keys, the script's
blob, its change log item and its size as quota; `Mailbox::index_values`
(email/src/mailbox/index.rs) lists the mailbox's change log container and its ACL. Both
keep one shape and write disjoint blocks of keys, so the builder keeps the derived entries
of a sieve script exact over every run, and those of a mailbox whenever its ACL lists name
each grantee once. A mailbox ACL that names a grantee twice leaves a stale grant.
-/

namespace EsmpServer.Storage

open IndexableObject DocumentStore

/-- `Property::Name` and `Property::IsActive` as index fields (jmap-proto property.rs). -/
def propertyName : ℕ := 13
def propertyIsActive : ℕ := 0

/-- `SyncCollection::Email` and `SyncCollection::SieveScript`. -/
def syncCollectionEmail : ℕ := 0
def syncCollectionSieveScript : ℕ := 7

/-- The fields of a sieve script that its index values read. -/
structure SieveScript where
  name : String
  isActive : Bool
  blobHash : BlobHash
  size : ℕ
  deriving DecidableEq

instance : IndexableObject SieveScript where
  indexValues script :=
    [.index propertyName script.name.toLower.toUTF8.toList,
     .index propertyIsActive (if script.isActive then [1] else [0]),
     .blob script.blobHash,
     .logItem syncCollectionSieveScript none,
     .quota script.size]

/-- The fields of a mailbox that its index values read. -/
structure Mailbox where
  acls : List AclGrant
  deriving DecidableEq, Repr

instance : IndexableObject Mailbox where
  indexValues mailbox := [.logContainer syncCollectionEmail, .acl mailbox.acls]

theorem sieveScript_shaped : Shaped SieveScript := by
  intro v w
  simp [indexValues, IndexValue.SameShape]

theorem sieveScript_separated : Separated SieveScript := by
  intro v
  have hslots : (indexValues v).filterMap IndexValue.slot =
      [.index propertyName, .index propertyIsActive, .blob] := rfl
  rw [hslots]
  decide

theorem sieveScript_aclsDistinct (v : SieveScript) : AclsDistinct v := by
  intro acl h
  simp [indexValues] at h

theorem sieveScript_run_consistent (ctx : BatchContext) (tenantId : Option ℕ)
    (ws : List (DocumentWrite SieveScript)) :
    ((empty : DocumentStore SieveScript).run ctx tenantId ws).Consistent :=
  empty_consistent.run ctx tenantId sieveScript_shaped sieveScript_separated
    fun _ _ v _ => sieveScript_aclsDistinct v

theorem mailbox_shaped : Shaped Mailbox := by
  intro v w
  simp [indexValues, IndexValue.SameShape]

theorem mailbox_separated : Separated Mailbox := by
  intro v
  have hslots : (indexValues v).filterMap IndexValue.slot = [.acl] := rfl
  rw [hslots]
  decide

theorem mailbox_run_consistent (ctx : BatchContext) (tenantId : Option ℕ)
    (ws : List (DocumentWrite Mailbox))
    (hws : ∀ w ∈ ws, ∀ v, w.changes? = some v → AclDistinct v.acls) :
    ((empty : DocumentStore Mailbox).run ctx tenantId ws).Consistent :=
  empty_consistent.run ctx tenantId mailbox_shaped mailbox_separated fun w hw v hv acl hacl => by
    simp only [indexValues, List.mem_cons, reduceCtorEq, IndexValue.acl.injEq, List.not_mem_nil,
      or_false, false_or] at hacl
    exact hacl ▸ hws w hw v hv

/-- A mailbox shared with account 7 twice, for reading (bitmap 9: `Read`, `ReadItems`) and
for writing as well (bitmap 111), then with account 7 for reading only. -/
def aclShrinkWrites : List (DocumentWrite Mailbox) :=
  [.insert ⟨[⟨7, 9⟩, ⟨7, 111⟩]⟩, .update ⟨[⟨7, 9⟩]⟩]

/-- The store after those two writes, in account 1 on document 5. -/
def aclShrinkRun : DocumentStore Mailbox :=
  (empty : DocumentStore Mailbox).run ⟨some 1, some 5⟩ none aclShrinkWrites

/-- The stored mailbox grants account 7 reading only, while its ACL entry still holds the
grants of writing: the search of `merge_index` stops at the first old entry of account 7,
whose grants are the new ones, and grants nothing. -/
theorem mailbox_aclShrink_staleGrant :
    aclShrinkRun.value = some ⟨[⟨7, 9⟩]⟩ ∧
    aclShrinkRun.entries.lookup (.acl 7) = some (.grants 111) ∧
    inducedEntries aclShrinkRun.value (.acl 7) = some (.grants 9) := by
  decide

end EsmpServer.Storage
