import EsmpServer.Codec.Leb128

/-!
# The change log builder

A write batch records, per collection, which items and containers it inserted,
updated or deleted (`write::log::Changes`, a handful of hash sets), and writes
them to the change log as one record: the seven set sizes, then the ids of each
set, all as LEB128 integers.

The sets are `Finset ℕ`. A hash set has no fixed iteration order, so
serialization takes a `Listing`, any duplicate-free enumeration of a set;
results stated for every listing hold whatever order the hasher produces.
-/

namespace EsmpServer.Write

open EsmpServer.Codec

/-- A hash set's iteration order: a duplicate-free listing of each set. -/
structure Listing where
  toList : Finset ℕ → List ℕ
  nodup : ∀ s, (toList s).Nodup
  mem_iff : ∀ s x, x ∈ toList s ↔ x ∈ s

namespace Listing

variable (L : Listing)

theorem toList_empty : L.toList ∅ = [] := by
  apply List.eq_nil_iff_forall_not_mem.mpr
  intro x hx
  simpa using (L.mem_iff ∅ x).mp hx

theorem toList_singleton (a : ℕ) : L.toList {a} = [a] := by
  have hnd := L.nodup {a}
  have hmem : ∀ x, x ∈ L.toList {a} ↔ x = a := fun x => by simpa using L.mem_iff {a} x
  match h : L.toList {a} with
  | [] => simp [h] at hmem
  | [b] => simp [h] at hmem; simp [hmem]
  | b :: c :: l =>
    rw [h] at hmem hnd
    have hb := (hmem b).mp (by simp)
    have hc := (hmem c).mp (by simp)
    simp [hb, hc] at hnd

theorem length_toList (s : Finset ℕ) : (L.toList s).length = s.card := by
  rw [← List.toFinset_card_of_nodup (L.nodup s)]
  congr 1
  ext x
  simp [L.mem_iff]

end Listing

/-- `build_id`: an item id is its document id, under a prefix in the high half. -/
def buildId : Option ℕ → ℕ → ℕ
  | some pfx, documentId => (pfx <<< 32) ||| documentId
  | none, documentId => documentId

/-- `write::log::Changes` of one collection. -/
structure Changes where
  itemInserts : Finset ℕ
  itemUpdates : Finset ℕ
  itemDeletes : Finset ℕ
  containerInserts : Finset ℕ
  containerUpdates : Finset ℕ
  containerDeletes : Finset ℕ
  containerPropertyChanges : Finset ℕ
  deriving DecidableEq

/-- `Changes::default`. -/
def Changes.empty : Changes := ⟨∅, ∅, ∅, ∅, ∅, ∅, ∅⟩

/-- The `ChangeLogBuilder` calls on one collection. -/
inductive LogOp where
  | containerInsert (documentId : ℕ)
  | itemInsert (pfx : Option ℕ) (documentId : ℕ)
  | containerUpdate (documentId : ℕ)
  | containerPropertyUpdate (documentId : ℕ)
  | itemUpdate (pfx : Option ℕ) (documentId : ℕ)
  | containerDelete (documentId : ℕ)
  | itemDelete (pfx : Option ℕ) (documentId : ℕ)
  deriving DecidableEq, Repr

namespace Changes

/-- One builder call. A container or item inserted again after its deletion in
the same batch becomes an update (`if changes.container_deletes.remove(..)`);
a deletion drops the pending updates of the id but not its insertion. -/
def log (c : Changes) : LogOp → Changes
  | .containerInsert d =>
    if d ∈ c.containerDeletes then
      { c with containerDeletes := c.containerDeletes.erase d,
               containerUpdates := insert d c.containerUpdates }
    else { c with containerInserts := insert d c.containerInserts }
  | .itemInsert pfx d =>
    let id := buildId pfx d
    if id ∈ c.itemDeletes then
      { c with itemDeletes := c.itemDeletes.erase id, itemUpdates := insert id c.itemUpdates }
    else { c with itemInserts := insert id c.itemInserts }
  | .containerUpdate d => { c with containerUpdates := insert d c.containerUpdates }
  | .containerPropertyUpdate d =>
    { c with containerPropertyChanges := insert d c.containerPropertyChanges }
  | .itemUpdate pfx d => { c with itemUpdates := insert (buildId pfx d) c.itemUpdates }
  | .containerDelete d =>
    { c with containerUpdates := c.containerUpdates.erase d,
             containerPropertyChanges := c.containerPropertyChanges.erase d,
             containerDeletes := insert d c.containerDeletes }
  | .itemDelete pfx d =>
    let id := buildId pfx d
    { c with itemUpdates := c.itemUpdates.erase id, itemDeletes := insert id c.itemDeletes }

/-- The changes a batch accumulates from its builder calls. -/
def session (ops : List LogOp) : Changes := ops.foldl log empty

/-- The ids of the sets, in the order `serialize` writes them. -/
def idLists (L : Listing) (c : Changes) : List (List ℕ) :=
  [L.toList c.containerInserts, L.toList c.containerUpdates,
    L.toList c.containerPropertyChanges, L.toList c.containerDeletes,
    L.toList c.itemInserts, L.toList c.itemUpdates, L.toList c.itemDeletes]

/-- `SerializeInfallible for Changes`: the seven set sizes, then the ids. -/
def serialize (L : Listing) (c : Changes) : List UInt8 :=
  ((c.idLists L).map fun ids => toLeb128Bytes ids.length).flatten ++
    ((c.idLists L).map fun ids => ids.flatMap toLeb128Bytes).flatten

end Changes

end EsmpServer.Write
