import EsmpServer.Imap.SequenceSetRoundTrip
import EsmpServer.Lib.ErasePositions

/-!
# Announcing expunged messages

`write_mailbox_changes` (Imap/Mailbox.lean) hands `expunge::Response` the sorted sequence
numbers of the expunged messages, or their uids under QRESYNC. Without QRESYNC the
response writes one `* n EXPUNGE` line per message, the `i`-th number lowered by `i`: each
line renumbers the messages after it in the client's view. With QRESYNC it writes one
`* VANISHED` line with the set of uids.

For every strictly increasing list of non-zero numbers, the lines, applied in order to any
view, remove exactly the messages at those positions and keep the others in order; and the
set of the `VANISHED` line reads back as exactly those numbers.
-/

namespace EsmpServer.Imap

open DecimalBytes (ascii)

/-- `expunge::Response`. -/
structure ExpungeResponse where
  isQresync : Bool
  ids : List UInt32
  deriving DecidableEq, Repr

/-- `Vanished`. -/
structure Vanished where
  earlier : Bool
  ids : List UInt32
  deriving DecidableEq, Repr

/-- `Vanished::serialize`. -/
def Vanished.serialize (v : Vanished) : List UInt8 :=
  (if v.earlier then ascii "* VANISHED (EARLIER) " else ascii "* VANISHED ") ++
    serializeSequence v.ids ++ ascii "\r\n"

/-- `u32::saturating_sub`. -/
def saturatingSub (a b : UInt32) : UInt32 := if b ≤ a then a - b else 0

/-- The line `* n EXPUNGE`. -/
def expungeLine (n : UInt32) : List UInt8 :=
  ascii "* " ++ DecimalBytes.ofNat n.toNat ++ ascii " EXPUNGE\r\n"

/-- `Response::serialize_to`: the id at index `numDeletions` is announced lowered by the
number of messages announced before it. -/
def ExpungeResponse.serializeTo (r : ExpungeResponse) : List UInt8 :=
  if !r.isQresync then
    r.ids.zipIdx.flatMap fun p => expungeLine (saturatingSub p.1 (UInt32.ofNat p.2))
  else (Vanished.mk false r.ids).serialize

/-- What a client does on `* n EXPUNGE`: the `n`-th message of its view is gone. -/
def applyExpunge {α : Type*} (view : List α) (n : UInt32) : List α := view.eraseIdx (n.toNat - 1)

example : (ExpungeResponse.mk false [3, 4, 7, 9, 11]).serializeTo =
    expungeLine 3 ++ expungeLine 3 ++ expungeLine 5 ++ expungeLine 6 ++ expungeLine 7 := by
  decide

theorem toNat_saturatingSub {a b : UInt32} (h : b ≤ a) :
    (saturatingSub a b).toNat = a.toNat - b.toNat := by
  rw [saturatingSub, if_pos h, UInt32.toNat_sub_of_le _ _ h]

theorem map_toNat_expungeNumbers :
    ∀ (ids : List UInt32) (d : ℕ), ids.Pairwise (· < ·) → (∀ id ∈ ids, d < id.toNat) →
      (ids.zipIdx d).map (fun p => (saturatingSub p.1 (UInt32.ofNat p.2)).toNat) =
        ((ids.map UInt32.toNat).zipIdx d).map fun p => p.1 - p.2
  | [], _, _, _ => rfl
  | id :: ids, d, hsorted, hgt => by
    obtain ⟨hlt, hsorted'⟩ := List.pairwise_cons.mp hsorted
    have hd := hgt id (by simp)
    have hdsize : d < UInt32.size := lt_trans hd id.toNat_lt
    have hle : UInt32.ofNat d ≤ id := by
      rw [UInt32.le_iff_toNat_le, UInt32.toNat_ofNat_of_lt' hdsize]
      omega
    have hgt' : ∀ x ∈ ids, d + 1 < x.toNat := by
      intro x hx
      have := UInt32.lt_iff_toNat_lt.mp (hlt x hx)
      omega
    rw [List.zipIdx_cons, List.map_cons, List.map_cons, List.zipIdx_cons, List.map_cons,
      toNat_saturatingSub hle, UInt32.toNat_ofNat_of_lt' hdsize,
      map_toNat_expungeNumbers ids (d + 1) hsorted' hgt']

/-- Every strictly increasing list of non-zero sequence numbers, announced without QRESYNC,
is written as `* n EXPUNGE` lines which, applied in order to any view, remove exactly the
messages at those positions and keep the others in order; announced with QRESYNC, a
non-empty one is written as a `VANISHED` line whose set reads back as exactly those
numbers. -/
theorem expungeResponse_serializeTo {α : Type*} (view : List α) (ids : List UInt32)
    (hsorted : ids.Pairwise (· < ·)) (hpos : ∀ id ∈ ids, id ≠ 0) :
    (∃ ns : List UInt32, (ExpungeResponse.mk false ids).serializeTo = ns.flatMap expungeLine ∧
      ns.foldl applyExpunge view = List.keepFrom 1 (ids.map UInt32.toNat) view) ∧
    (ids ≠ [] → ∃ text s, (ExpungeResponse.mk true ids).serializeTo =
      ascii "* VANISHED " ++ text ++ ascii "\r\n" ∧ parseSequenceSet text = .ok s ∧
      s.expandInOrder = some ids ∧ ∀ value maxValue, s.contains value maxValue = true ↔ value ∈ ids) := by
  have hgt : ∀ id ∈ ids, 0 < id.toNat := fun id hid =>
    Nat.pos_of_ne_zero fun h => hpos id hid (UInt32.toNat_inj.mp (by simpa using h))
  refine ⟨⟨ids.zipIdx.map fun p => saturatingSub p.1 (UInt32.ofNat p.2), ?_, ?_⟩, ?_⟩
  · simp [ExpungeResponse.serializeTo, List.flatMap_map]
  · have hnat : (ids.map UInt32.toNat).Pairwise (· < ·) := by
      rw [List.pairwise_map]
      exact hsorted.imp fun h => UInt32.lt_iff_toNat_lt.mp h
    have hfold := List.foldl_eraseIdx_zipIdx (ids.map UInt32.toNat) hnat
      (by simpa using hgt) view
    rw [← map_toNat_expungeNumbers ids 0 hsorted hgt] at hfold
    simpa [List.foldl_map, applyExpunge] using hfold
  · intro hne
    refine ⟨serializeSequence ids, _, rfl, parseSequenceSet_serializeSequence_eq hne,
      expandInOrder_runs hne hpos, contains_runs hne hpos⟩

/-- Two of five messages expunged, the second and the fourth. -/
theorem expungeResponse_serializeTo_twoOfFive :
    (∃ ns : List UInt32, (ExpungeResponse.mk false [2, 4]).serializeTo = ns.flatMap expungeLine ∧
      ns.foldl applyExpunge [10, 11, 12, 13, 14] =
        List.keepFrom 1 ([2, 4].map UInt32.toNat) [10, 11, 12, 13, 14]) ∧
    ([2, 4] ≠ ([] : List UInt32) → ∃ text s, (ExpungeResponse.mk true [2, 4]).serializeTo =
      ascii "* VANISHED " ++ text ++ ascii "\r\n" ∧ parseSequenceSet text = .ok s ∧
      s.expandInOrder = some [2, 4] ∧
      ∀ value maxValue, s.contains value maxValue = true ↔ value ∈ [2, 4]) :=
  expungeResponse_serializeTo [10, 11, 12, 13, 14] [2, 4] (by simp) (by simp)

end EsmpServer.Imap
