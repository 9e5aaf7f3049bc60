import EsmpServer.Query.Log

/-!
# The JMAP `/changes` response

`ChangesLookup::changes` maps the request to a change-log collection, reads the
merged change list of the range since the client's state, keeps the changes of
the requested kind, skips those already sent and sorts at most `max_changes` of
the rest into `created`, `updated` and `destroyed`. The sort puts every change
into exactly one of the three lists, so the lists are disjoint whenever the
merged list names each id once; the converse direction is what the change-log
merge of `Query.Log` has to deliver, and the last theorem shows an input where it
does not.
-/

namespace EsmpServer.Jmap

open EsmpServer.Codec EsmpServer.Write EsmpServer.Query

/-- The change-log collections a `/changes` request can read. -/
inductive SyncCollection where
  | email
  | thread
  | identity
  | emailSubmission
  deriving DecidableEq, Repr

/-- The `arguments` of a `ChangesRequest`: the JMAP type it asks about. -/
inductive RequestArguments where
  | email
  | mailbox
  | thread
  | identity
  | emailSubmission
  | quota
  deriving DecidableEq, Repr

/-- The collection and `is_container` flag of a request; `none` is the
`CannotCalculateChanges` error returned for quotas. Mailboxes are the
containers of the email change log. -/
def RequestArguments.collection : RequestArguments → Option (SyncCollection × Bool)
  | .email => some (.email, false)
  | .mailbox => some (.email, true)
  | .thread => some (.thread, true)
  | .identity => some (.identity, false)
  | .emailSubmission => some (.emailSubmission, false)
  | .quota => none

/-- `usize::MAX` on the 64-bit targets the server is built for. -/
def usizeMax : ℕ := 2 ^ 64 - 1

/-- `max_changes`: a requested limit of 0 means no limit, and the configured
`changes_max_results` caps it. -/
def maxChangesOf (requested configured : Option ℕ) : ℕ :=
  min ((requested.filter fun n => n ≠ 0).getD usizeMax) (configured.getD usizeMax)

/-- The mailbox counters announced in `updated_properties`. -/
inductive Property where
  | totalEmails
  | unreadEmails
  | totalThreads
  | unreadThreads
  deriving DecidableEq, Repr

/-- The fields of a `ChangesResponse` that are computed from the change list. -/
structure ChangesResponse where
  created : List ℕ
  updated : List ℕ
  destroyed : List ℕ
  hasMoreChanges : Bool
  updatedProperties : Option (List Property)
  deriving DecidableEq, Repr

/-- The response before the loop over the changes. -/
def ChangesResponse.init : ChangesResponse := ⟨[], [], [], false, none⟩

/-- One iteration of the loop over the changes sent; the flag is
`items_changed`, set by container and item updates but not by container
property updates. -/
def pushChange : ChangesResponse × Bool → Change → ChangesResponse × Bool
  | (r, itemsChanged), .insertContainer id | (r, itemsChanged), .insertItem id =>
    ({ r with created := r.created ++ [id] }, itemsChanged)
  | (r, _), .updateContainer id | (r, _), .updateItem id =>
    ({ r with updated := r.updated ++ [id] }, true)
  | (r, itemsChanged), .deleteContainer id | (r, itemsChanged), .deleteItem id =>
    ({ r with destroyed := r.destroyed ++ [id] }, itemsChanged)
  | (r, itemsChanged), .updateContainerProperty id =>
    ({ r with updated := r.updated ++ [id] }, itemsChanged)

/-- The changes of the requested kind, in change-log order. -/
def selectChanges (isContainer : Bool) (changes : List Change) : List Change :=
  changes.filter fun change =>
    (isContainer && change.isContainerChange) || (!isContainer && change.isItemChange)

/-- `ChangesLookup::changes` from the merged change list on: skip `items_sent`
changes, sort at most `max_changes` of the rest, report whether more remain, and
announce the counters when only mailbox properties changed. -/
def changesResponse (collection : SyncCollection) (isContainer : Bool)
    (itemsSent maxChanges : ℕ) (changes : List Change) : ChangesResponse :=
  let pending := (selectChanges isContainer changes).drop itemsSent
  let (response, itemsChanged) := (pending.take maxChanges).foldl pushChange (.init, false)
  { response with
    hasMoreChanges := decide (maxChanges < pending.length)
    updatedProperties :=
      if isContainer && !response.updated.isEmpty && !itemsChanged && collection == .email then
        some [.totalEmails, .unreadEmails, .totalThreads, .unreadThreads]
      else none }

/-! ## Every change sent lands in exactly one list -/

/-- The ids a response lists, in the order created, updated, destroyed. -/
def ChangesResponse.ids (r : ChangesResponse) : List ℕ := r.created ++ r.updated ++ r.destroyed

theorem pushChange_ids (acc : ChangesResponse × Bool) (change : Change) :
    ((pushChange acc change).1.ids).Perm (acc.1.ids ++ [change.changeId]) := by
  obtain ⟨r, itemsChanged⟩ := acc
  refine List.perm_iff_count.mpr fun a => ?_
  cases change <;>
    simp only [pushChange, ChangesResponse.ids, Change.changeId, List.count_append, List.count_cons,
      List.count_nil] <;>
    omega

theorem foldl_pushChange_ids (changes : List Change) :
    ∀ acc : ChangesResponse × Bool,
      ((changes.foldl pushChange acc).1.ids).Perm (acc.1.ids ++ changes.map Change.changeId) := by
  induction changes with
  | nil => simp
  | cons change changes ih =>
    intro acc
    have hstep := pushChange_ids acc change
    calc ((change :: changes).foldl pushChange acc).1.ids
        = ((changes.foldl pushChange (pushChange acc change)).1.ids) := rfl
      List.Perm _ ((pushChange acc change).1.ids ++ changes.map Change.changeId) := ih _
      List.Perm _ (acc.1.ids ++ [change.changeId] ++ changes.map Change.changeId) :=
          hstep.append_right _
      _ = acc.1.ids ++ (change :: changes).map Change.changeId := by simp

theorem changesResponse_ids (collection : SyncCollection) (isContainer : Bool)
    (itemsSent maxChanges : ℕ) (changes : List Change) :
    (changesResponse collection isContainer itemsSent maxChanges changes).ids.Perm
      ((((selectChanges isContainer changes).drop itemsSent).take maxChanges).map
        Change.changeId) := by
  have h := foldl_pushChange_ids (((selectChanges isContainer changes).drop itemsSent).take
    maxChanges) (.init, false)
  simpa [changesResponse, ChangesResponse.ids, ChangesResponse.init] using h

theorem changesResponse_ids_nodup (collection : SyncCollection) (isContainer : Bool)
    (itemsSent maxChanges : ℕ) (changes : List Change)
    (hnodup : ((selectChanges isContainer changes).map Change.changeId).Nodup) :
    (changesResponse collection isContainer itemsSent maxChanges changes).ids.Nodup := by
  have hsub : ((((selectChanges isContainer changes).drop itemsSent).take maxChanges).map
      Change.changeId).Sublist ((selectChanges isContainer changes).map Change.changeId) :=
    ((List.take_sublist _ _).trans (List.drop_sublist _ _)).map _
  exact (changesResponse_ids collection isContainer itemsSent maxChanges changes).nodup_iff.mpr
    (hnodup.sublist hsub)

/-! ## A property update followed by a deletion -/

/-- The change list of a range whose first batch changed a property of mailbox 5
and whose second batch deleted it, for any iteration order of the written sets.
The delete loop of `Changes::deserialize` does not look for the earlier property
update, so both survive, and a `Mailbox/changes` call reports 5 as updated and as
destroyed. -/
theorem changes_propertyUpdate_delete (L : Listing) :
    mergeRecords [(Changes.session [.containerPropertyUpdate 5]).serialize L,
        (Changes.session [.containerDelete 5]).serialize L] [] =
      some [.updateContainerProperty 5, .deleteContainer 5] ∧
    changesResponse .email true 0 (maxChangesOf none none)
        [.updateContainerProperty 5, .deleteContainer 5] =
      ⟨[], [5], [5], false, some [.totalEmails, .unreadEmails, .totalThreads, .unreadThreads]⟩ := by
  have hfits : ∀ ops : List LogOp, ops ∈ [[.containerPropertyUpdate 5], [.containerDelete 5]] →
      Changes.Fits (Changes.session ops) L := by
    simp [Changes.Fits, Changes.idLists, Changes.session, Changes.log, Changes.empty,
      Listing.toList_empty, Listing.toList_singleton]
  constructor
  · rw [mergeRecords_serialize L _ (hfits _ (by simp)), mergeRecords_serialize L _
      (hfits _ (by simp)), mergeRecords]
    simp [Changes.idLists, Changes.session, Changes.log, Changes.empty, Listing.toList_empty,
      Listing.toList_singleton]
    decide
  · decide

end EsmpServer.Jmap
