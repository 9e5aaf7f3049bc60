import EsmpServer.Write.Log

/-!
# Merging change-log records

`Store::changes` reads the change-log records of a collection in change-id
order and merges them with `Changes::deserialize` into one list of `Change`s.
Each record is read set by set, in the order it was written; every update or
deletion first scans the changes merged so far for the first earlier change of
the same id and lets it decide: an update after an insertion is absorbed, a
deletion after an insertion cancels it, and an earlier update is removed and
the new change appended.

The four scan loops share one definition, `mergeChange`, and differ in the
classifier that says which earlier changes they react to. The byte layer is
peeled off by `deserialize_serialize`: reading a serialized builder session
merges its id lists in the written order.
-/

namespace EsmpServer.Query

open EsmpServer.Codec EsmpServer.Write

/-- `query::log::Change`. -/
inductive Change where
  | insertContainer (id : ℕ)
  | updateContainer (id : ℕ)
  | updateContainerProperty (id : ℕ)
  | deleteContainer (id : ℕ)
  | insertItem (id : ℕ)
  | updateItem (id : ℕ)
  | deleteItem (id : ℕ)
  deriving DecidableEq, Repr

namespace Change

/-- `Change::is_container_change`. -/
def isContainerChange : Change → Bool
  | .insertContainer _ | .updateContainer _ | .updateContainerProperty _
  | .deleteContainer _ => true
  | _ => false

/-- `Change::is_item_change`. -/
def isItemChange : Change → Bool
  | .insertItem _ | .updateItem _ | .deleteItem _ => true
  | _ => false

/-- The id a change carries: `item_id` or `container_id`, whichever is set. -/
def changeId : Change → ℕ
  | .insertContainer id | .updateContainer id | .updateContainerProperty id
  | .deleteContainer id | .insertItem id | .updateItem id | .deleteItem id => id

end Change

/-- What a scan loop does at the first earlier change it reacts to. -/
inductive Hit where
  /-- `continue 'outer`: the new change is absorbed and nothing is pushed. -/
  | keep
  /-- Remove the earlier change, then `continue 'outer`: the two cancel. -/
  | drop
  /-- Remove the earlier change, then push the new one; `promote` is the
  container update loop's `is_property_change = false`. -/
  | replace (promote : Bool)
  deriving DecidableEq, Repr

/-- The index of the first change the classifier reacts to, with its verdict. -/
def findHit (classify : Change → Option Hit) : List Change → Option (ℕ × Hit)
  | [] => none
  | c :: cs =>
    match classify c with
    | some h => some (0, h)
    | none => (findHit classify cs).map fun p => (p.1 + 1, p.2)

/-- One iteration of a scan loop: `push isProperty` is the change it appends. -/
def mergeChange (classify : Change → Option Hit) (push : Bool → Change) (isProperty : Bool)
    (changes : List Change) : List Change :=
  match findHit classify changes with
  | none => changes ++ [push isProperty]
  | some (_, .keep) => changes
  | some (idx, .drop) => changes.eraseIdx idx
  | some (idx, .replace promote) => changes.eraseIdx idx ++ [push (isProperty && !promote)]

/-- The container update loop reacts to the id's insertion, update and
property update. -/
def containerUpdateHit (id : ℕ) : Change → Option Hit
  | .insertContainer i => if i = id then some .keep else none
  | .updateContainer i => if i = id then some (.replace true) else none
  | .updateContainerProperty i => if i = id then some (.replace false) else none
  | _ => none

/-- The container delete loop reacts to the id's insertion and update only. -/
def containerDeleteHit (id : ℕ) : Change → Option Hit
  | .insertContainer i => if i = id then some .drop else none
  | .updateContainer i => if i = id then some (.replace false) else none
  | _ => none

/-- The item update loop reacts to the id's insertion and update. -/
def itemUpdateHit (id : ℕ) : Change → Option Hit
  | .insertItem i => if i = id then some .keep else none
  | .updateItem i => if i = id then some (.replace false) else none
  | _ => none

/-- The item delete loop reacts to the id's insertion and update. -/
def itemDeleteHit (id : ℕ) : Change → Option Hit
  | .insertItem i => if i = id then some .drop else none
  | .updateItem i => if i = id then some (.replace false) else none
  | _ => none

/-- The loop bodies of `Changes::deserialize`, one per written set, as
functions of the position in the loop, the id read and the changes so far. -/
def containerInsertStep (_pos id : ℕ) (changes : List Change) : List Change :=
  changes ++ [.insertContainer id]

/-- `is_property_change = change_pos >= container_updates`. -/
def containerUpdateStep (containerUpdates pos id : ℕ) (changes : List Change) : List Change :=
  mergeChange (containerUpdateHit id)
    (fun isProperty => if isProperty then .updateContainerProperty id else .updateContainer id)
    (decide (containerUpdates ≤ pos)) changes

def containerDeleteStep (_pos id : ℕ) (changes : List Change) : List Change :=
  mergeChange (containerDeleteHit id) (fun _ => .deleteContainer id) false changes

def itemInsertStep (_pos id : ℕ) (changes : List Change) : List Change :=
  changes ++ [.insertItem id]

def itemUpdateStep (_pos id : ℕ) (changes : List Change) : List Change :=
  mergeChange (itemUpdateHit id) (fun _ => .updateItem id) false changes

def itemDeleteStep (_pos id : ℕ) (changes : List Change) : List Change :=
  mergeChange (itemDeleteHit id) (fun _ => .deleteItem id) false changes

/-- `for change_pos in 0..n { let id = bytes_it.next_leb128()?; .. }`. -/
def mergeLoop (step : ℕ → ℕ → List Change → List Change) :
    ℕ → ℕ → List Change → List UInt8 → Option (List Change × List UInt8)
  | 0, _, changes, bytes => some (changes, bytes)
  | n + 1, pos, changes, bytes =>
    match nextLeb128 bytes with
    | none => none
    | some (id, bytes) => mergeLoop step n (pos + 1) (step pos id changes) bytes

/-- `Changes::deserialize`: merge one record into `changes`, and report whether
it held container and item changes. -/
def deserialize (changes : List Change) (bytes : List UInt8) :
    Option (List Change × Bool × Bool) := do
  let (containerInserts, bytes) ← nextLeb128 bytes
  let (containerUpdates, bytes) ← nextLeb128 bytes
  let (containerPropertyChanges, bytes) ← nextLeb128 bytes
  let (containerDeletes, bytes) ← nextLeb128 bytes
  let (itemInserts, bytes) ← nextLeb128 bytes
  let (itemUpdates, bytes) ← nextLeb128 bytes
  let (itemDeletes, bytes) ← nextLeb128 bytes
  let (changes, bytes) ← mergeLoop containerInsertStep containerInserts 0 changes bytes
  let (changes, bytes) ← mergeLoop (containerUpdateStep containerUpdates)
    (containerUpdates + containerPropertyChanges) 0 changes bytes
  let (changes, bytes) ← mergeLoop containerDeleteStep containerDeletes 0 changes bytes
  let (changes, bytes) ← mergeLoop itemInsertStep itemInserts 0 changes bytes
  let (changes, bytes) ← mergeLoop itemUpdateStep itemUpdates 0 changes bytes
  let (changes, _) ← mergeLoop itemDeleteStep itemDeletes 0 changes bytes
  pure (changes,
    decide (containerInserts + containerUpdates + containerPropertyChanges + containerDeletes > 0),
    decide (itemInserts + itemUpdates + itemDeletes > 0))

/-- The change list `Store::changes` builds from the records of a range, in
change-id order; an empty record only marks the log as truncated. A corrupt
record makes the whole query fail. -/
def mergeRecords : List (List UInt8) → List Change → Option (List Change)
  | [], changes => some changes
  | record :: records, changes =>
    if record.isEmpty then mergeRecords records changes
    else
      match deserialize changes record with
      | none => none
      | some (changes, _) => mergeRecords records changes

/-! ## Reading back a serialized session -/

/-- `mergeLoop` on ids already decoded. -/
def mergeIds (step : ℕ → ℕ → List Change → List Change) :
    ℕ → List ℕ → List Change → List Change
  | _, [], changes => changes
  | pos, id :: ids, changes => mergeIds step (pos + 1) ids (step pos id changes)

theorem mergeLoop_flatMap (step : ℕ → ℕ → List Change → List Change) (rest : List UInt8) :
    ∀ (ids : List ℕ) (pos : ℕ) (changes : List Change), (∀ id ∈ ids, id < 2 ^ 64) →
      mergeLoop step ids.length pos changes (ids.flatMap toLeb128Bytes ++ rest) =
        some (mergeIds step pos ids changes, rest)
  | [], _, _, _ => rfl
  | id :: ids, pos, changes, h => by
    have hid : id < 2 ^ 64 := h id (by simp)
    rw [List.length_cons, List.flatMap_cons, List.append_assoc, mergeLoop,
      nextLeb128_toLeb128Bytes hid]
    exact mergeLoop_flatMap step rest ids (pos + 1) _ fun i hi => h i (by simp [hi])

/-- The merge of one record whose sets list as `ids`, in the written order. -/
def mergeRecord (ids : List (List ℕ)) (changes : List Change) : List Change :=
  match ids with
  | [ci, cu, cp, cd, ii, iu, idl] =>
    let changes := mergeIds containerInsertStep 0 ci changes
    let changes := mergeIds (containerUpdateStep cu.length) 0 (cu ++ cp) changes
    let changes := mergeIds containerDeleteStep 0 cd changes
    let changes := mergeIds itemInsertStep 0 ii changes
    let changes := mergeIds itemUpdateStep 0 iu changes
    mergeIds itemDeleteStep 0 idl changes
  | _ => changes

/-- Ids and set sizes fit the `u64`/`usize` readers. -/
def Changes.Fits (c : Write.Changes) (L : Listing) : Prop :=
  ∀ ids ∈ c.idLists L, ids.length < 2 ^ 64 ∧ ∀ id ∈ ids, id < 2 ^ 64

theorem deserialize_serialize (L : Listing) (c : Write.Changes) (hc : Changes.Fits c L)
    (changes : List Change) :
    (deserialize changes (c.serialize L)).map Prod.fst = some (mergeRecord (c.idLists L) changes) := by
  simp only [Changes.Fits, Changes.idLists, List.mem_cons, List.not_mem_nil, or_false,
    forall_eq_or_imp, forall_eq] at hc
  obtain ⟨⟨hci, hci'⟩, ⟨hcu, hcu'⟩, ⟨hcp, hcp'⟩, ⟨hcd, hcd'⟩, ⟨hii, hii'⟩, ⟨hiu, hiu'⟩,
    ⟨hid, hid'⟩⟩ := hc
  have hupd := mergeLoop_flatMap (containerUpdateStep (L.toList c.containerUpdates).length)
    ((L.toList c.containerDeletes).flatMap toLeb128Bytes ++
      ((L.toList c.itemInserts).flatMap toLeb128Bytes ++
        ((L.toList c.itemUpdates).flatMap toLeb128Bytes ++
          (L.toList c.itemDeletes).flatMap toLeb128Bytes)))
    (L.toList c.containerUpdates ++ L.toList c.containerPropertyChanges) 0
  simp only [List.length_append, List.flatMap_append, List.append_assoc, List.mem_append] at hupd
  simp only [Changes.serialize, Changes.idLists, List.map_cons, List.map_nil, List.flatten_cons,
    List.flatten_nil, List.append_nil, List.append_assoc]
  simp only [deserialize, nextLeb128_toLeb128Bytes hci, nextLeb128_toLeb128Bytes hcu,
    nextLeb128_toLeb128Bytes hcp, nextLeb128_toLeb128Bytes hcd, nextLeb128_toLeb128Bytes hii,
    nextLeb128_toLeb128Bytes hiu, nextLeb128_toLeb128Bytes hid, Option.bind_eq_bind,
    Option.bind_some, mergeLoop_flatMap _ _ _ _ _ hci']
  rw [hupd _ fun id h => h.elim (hcu' id) (hcp' id)]
  simp only [Option.bind_some, mergeLoop_flatMap _ _ _ _ _ hcd', mergeLoop_flatMap _ _ _ _ _ hii',
    mergeLoop_flatMap _ _ _ _ _ hiu']
  rw [← List.append_nil (List.flatMap toLeb128Bytes (L.toList c.itemDeletes)),
    mergeLoop_flatMap _ _ _ _ _ hid']
  rfl

theorem serialize_ne_nil (L : Listing) (c : Write.Changes) : c.serialize L ≠ [] := by
  simp [Changes.serialize, Changes.idLists, toLeb128Bytes_ne_nil]

theorem mergeRecords_serialize (L : Listing) (c : Write.Changes) (hc : Changes.Fits c L)
    (records : List (List UInt8)) (changes : List Change) :
    mergeRecords (c.serialize L :: records) changes =
      mergeRecords records (mergeRecord (c.idLists L) changes) := by
  have hne : (c.serialize L).isEmpty = false := by
    simpa [List.isEmpty_iff] using serialize_ne_nil L c
  have hd := deserialize_serialize L c hc changes
  obtain ⟨⟨merged, flags⟩, hsome, hfst⟩ := Option.map_eq_some_iff.mp hd
  simp only at hfst
  rw [mergeRecords, hne, if_neg Bool.false_ne_true, hsome, ← hfst]

end EsmpServer.Query
