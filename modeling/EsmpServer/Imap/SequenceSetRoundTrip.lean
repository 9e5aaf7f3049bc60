import EsmpServer.Imap.SequenceSetParse
import EsmpServer.Lib.Fallible

/-!
# Writing a list of ids and reading it back

`serialize_sequence` cuts a list of ids into its runs of consecutive ids and writes each
run as a number or a range. For every non-empty list of non-zero ids, the text it writes
is the text of the list of its runs, so `parse_sequence_set` reads it back as their
items, which expand left to right to the list itself. The increment of the run's last id
wraps at `u32::MAX` as the source's does in its builds without overflow checks; it then
gives `0`, which is no id of the list.
-/

namespace EsmpServer.Imap

/-- The ids from `a` to `b`, ascending. -/
def idsFromTo (a b : UInt32) : List UInt32 :=
  (List.range' a.toNat (b.toNat + 1 - a.toNat)).map UInt32.ofNat

/-- The items a parsed set has, in order. -/
def Sequence.items : Sequence → List Sequence
  | .list items => items
  | .number n => [.number n]
  | .range start stop => [.range start stop]
  | .savedSearch => [.savedSearch]

/-- The ids an item lists, left to right: a number, or a range with `a ≤ b` from `a` to
`b`; an open or descending range and `$` list none by themselves. -/
def Sequence.expandItem : Sequence → Option (List UInt32)
  | .number n => some [n]
  | .range (some a) (some b) => if a ≤ b then some (idsFromTo a b) else none
  | .range none _ => none
  | .range (some _) none => none
  | .savedSearch => none
  | .list _ => none

/-- The ids of a set expanded item by item, left to right. -/
def Sequence.expandInOrder (s : Sequence) : Option (List UInt32) :=
  (s.items.mapM Sequence.expandItem).map List.flatten

/-- The runs of consecutive ids from the open run `(id, rangeId)` on: the grouping the
peeking loop of `serialize_sequence` makes. -/
def runsFrom (id rangeId : UInt32) : List UInt32 → List (UInt32 × UInt32)
  | [] => [(id, rangeId)]
  | nextId :: rest =>
    if nextId = rangeId + 1 then runsFrom id nextId rest
    else (id, rangeId) :: runsFrom nextId nextId rest

def runs : List UInt32 → List (UInt32 × UInt32)
  | [] => []
  | id :: rest => runsFrom id id rest

/-- The element written for a run: its id alone, or the range from its first to its last. -/
def runElement (run : UInt32 × UInt32) : SetElement :=
  if run.2 = run.1 then .number (.number run.1) else .range (.number run.1) (.number run.2)

/-! ## Ids of a run -/

theorem toNat_of_eq_add_one {r x : UInt32} (hx : x = r + 1) (h0 : x ≠ 0) :
    x.toNat = r.toNat + 1 := by
  have hr := r.toNat_lt
  have hne : x.toNat ≠ 0 := fun h => h0 (UInt32.toNat_inj.mp (by simpa using h))
  rw [hx, UInt32.toNat_add, UInt32.toNat_one] at hne ⊢
  by_cases hmax : r.toNat + 1 = 2 ^ 32
  · simp [hmax] at hne
  · exact Nat.mod_eq_of_lt (by omega)

theorem idsFromTo_self (a : UInt32) : idsFromTo a a = [a] := by
  simp [idsFromTo, List.range'_one]

theorem idsFromTo_succ {a b x : UInt32} (hab : a ≤ b) (hx : x.toNat = b.toNat + 1) :
    idsFromTo a x = idsFromTo a b ++ [x] := by
  have hle : a.toNat ≤ b.toNat := UInt32.le_iff_toNat_le.mp hab
  rw [idsFromTo, idsFromTo, hx, show b.toNat + 1 + 1 - a.toNat = b.toNat + 1 - a.toNat + 1 by
    omega, List.range'_concat, List.map_append]
  simp only [List.map_cons, List.map_nil, Nat.one_mul]
  rw [show a.toNat + (b.toNat + 1 - a.toNat) = x.toNat by omega, UInt32.ofNat_toNat]

theorem mem_idsFromTo {a b v : UInt32} : v ∈ idsFromTo a b ↔ a ≤ v ∧ v ≤ b := by
  have hb := b.toNat_lt
  have hsize : UInt32.size = 2 ^ 32 := rfl
  rw [UInt32.le_iff_toNat_le, UInt32.le_iff_toNat_le, idsFromTo, List.mem_map]
  constructor
  · rintro ⟨k, hk, rfl⟩
    rw [List.mem_range'_1] at hk
    rw [UInt32.toNat_ofNat_of_lt' (by omega)]
    omega
  · rintro ⟨hav, hvb⟩
    exact ⟨v.toNat, List.mem_range'_1.mpr (by omega), UInt32.ofNat_toNat⟩

/-! ## The text written -/

theorem runElement_text (run : UInt32 × UInt32) :
    (runElement run).text = DecimalBytes.ofNat run.1.toNat ++ closeRun run.1 run.2 := by
  unfold runElement closeRun
  split <;> simp_all [SetElement.text, SeqNumber.text]

theorem runsFrom_ne_nil (id rangeId : UInt32) (rest : List UInt32) :
    runsFrom id rangeId rest ≠ [] := by
  cases rest with
  | nil => simp [runsFrom]
  | cons nextId rest =>
    unfold runsFrom
    split
    · exact runsFrom_ne_nil id nextId rest
    · simp

theorem serializeFinish_foldl (buf : List UInt8) :
    ∀ (rest : List UInt32) (id rangeId : UInt32),
      serializeFinish (rest.foldl serializeStep (buf ++ DecimalBytes.ofNat id.toNat,
        some (id, rangeId))) = buf ++ setText ((runsFrom id rangeId rest).map runElement)
  | [], id, rangeId => by
    simp [serializeFinish, runsFrom, setText_singleton, runElement_text]
  | nextId :: rest, id, rangeId => by
    rw [List.foldl_cons, serializeStep, runsFrom]
    split
    · exact serializeFinish_foldl buf rest id nextId
    · have hrest := serializeFinish_foldl (buf ++ (runElement (id, rangeId)).text ++ [44]) rest
        nextId nextId
      obtain ⟨run, runs, hruns⟩ := List.exists_cons_of_ne_nil (runsFrom_ne_nil nextId nextId rest)
      rw [hruns] at hrest
      rw [hruns, List.map_cons, List.map_cons, setText_cons_cons, ← List.map_cons]
      rw [runElement_text] at hrest ⊢
      simpa using hrest

theorem serializeSequence_eq_setText (list : List UInt32) :
    serializeSequence list = setText ((runs list).map runElement) := by
  cases list with
  | nil => rfl
  | cons id rest =>
    have h := serializeFinish_foldl [] rest id id
    simpa [serializeSequence, serializeStep, runs] using h

/-! ## The ids of the runs -/

theorem flatMap_runsFrom :
    ∀ (rest : List UInt32) (id rangeId : UInt32), id ≤ rangeId → (∀ x ∈ rest, x ≠ 0) →
      (runsFrom id rangeId rest).flatMap (fun run => idsFromTo run.1 run.2) =
        idsFromTo id rangeId ++ rest ∧ ∀ run ∈ runsFrom id rangeId rest, run.1 ≤ run.2
  | [], id, rangeId, hle, _ => by simp [runsFrom, hle]
  | nextId :: rest, id, rangeId, hle, hpos => by
    have hrest : ∀ x ∈ rest, x ≠ 0 := fun x hx => hpos x (List.mem_cons_of_mem _ hx)
    rw [runsFrom]
    split
    · next hnext =>
      have hsucc := toNat_of_eq_add_one hnext (hpos nextId (by simp))
      have hle' : id ≤ nextId := UInt32.le_iff_toNat_le.mpr
        (by have := UInt32.le_iff_toNat_le.mp hle; omega)
      obtain ⟨hids, hruns⟩ := flatMap_runsFrom rest id nextId hle' hrest
      refine ⟨?_, hruns⟩
      rw [hids, idsFromTo_succ hle hsucc]
      simp
    · obtain ⟨hids, hruns⟩ := flatMap_runsFrom rest nextId nextId (UInt32.le_refl _) hrest
      refine ⟨?_, ?_⟩
      · rw [List.flatMap_cons, hids, idsFromTo_self]
        simp
      · simpa [hle] using hruns

theorem flatMap_runs (list : List UInt32) (hpos : ∀ x ∈ list, x ≠ 0) :
    (runs list).flatMap (fun run => idsFromTo run.1 run.2) = list ∧
      ∀ run ∈ runs list, run.1 ≤ run.2 := by
  cases list with
  | nil => simp [runs]
  | cons id rest =>
    obtain ⟨hids, hruns⟩ := flatMap_runsFrom rest id id (UInt32.le_refl _)
      (fun x hx => hpos x (List.mem_cons_of_mem _ hx))
    exact ⟨by rw [runs, hids, idsFromTo_self]; rfl, hruns⟩

/-! ## The items read back -/

theorem runs_ne_nil {list : List UInt32} (hne : list ≠ []) : runs list ≠ [] := by
  cases list with
  | nil => exact absurd rfl hne
  | cons id rest => exact runsFrom_ne_nil id id rest

theorem SetElement.items_toSequence (e : SetElement) : e.toSequence.items = [e.toSequence] := by
  rcases e with (_ | _) | ⟨_, _⟩ | _ <;> rfl

theorem items_setTree {es : List SetElement} (hne : es ≠ []) :
    (setTree es).items = es.map SetElement.toSequence := by
  match es with
  | [e] => exact e.items_toSequence
  | e :: e' :: es => rfl

theorem expandItem_runElement {run : UInt32 × UInt32} (hle : run.1 ≤ run.2) :
    (runElement run).toSequence.expandItem = some (idsFromTo run.1 run.2) := by
  unfold runElement
  split
  · next h => simp [h, SetElement.toSequence, Sequence.expandItem, idsFromTo_self]
  · simp [SetElement.toSequence, SeqNumber.bound, Sequence.expandItem, hle]

theorem containsAny_iff {value maxValue : UInt32} {items : List Sequence} :
    Sequence.containsAny value maxValue items = true ↔
      ∃ item ∈ items, item.contains value maxValue = true := by
  induction items with
  | nil => simp [Sequence.containsAny]
  | cons item items ih => simp [Sequence.containsAny, ih]

theorem contains_setTree {value maxValue : UInt32} {es : List SetElement} (hne : es ≠ []) :
    (setTree es).contains value maxValue = true ↔
      ∃ e ∈ es, e.toSequence.contains value maxValue = true := by
  match es with
  | [e] => simp [setTree]
  | e :: e' :: es =>
    simp only [setTree, Sequence.contains, containsAny_iff, List.map_cons, List.mem_cons,
      List.mem_map]
    aesop

theorem contains_runElement {run : UInt32 × UInt32} (hle : run.1 ≤ run.2) (value maxValue : UInt32) :
    (runElement run).toSequence.contains value maxValue = true ↔ value ∈ idsFromTo run.1 run.2 := by
  rw [mem_idsFromTo]
  unfold runElement
  split
  · next h =>
    simp only [SetElement.toSequence, Sequence.contains, beq_iff_eq, h]
    constructor
    · rintro rfl
      exact ⟨UInt32.le_refl _, UInt32.le_refl _⟩
    · rintro ⟨h1, h2⟩
      exact UInt32.le_antisymm h1 h2
  · simp only [SetElement.toSequence, SeqNumber.bound, Sequence.contains, Bool.or_eq_true,
      Bool.and_eq_true, decide_eq_true_eq]
    constructor
    · rintro (⟨h1, h2⟩ | ⟨h1, h2⟩)
      · exact ⟨h1, h2⟩
      · exact ⟨UInt32.le_trans hle h1, UInt32.le_trans h2 hle⟩
    · exact Or.inl

/-! ## The round trip -/

section RoundTrip

variable {list : List UInt32}

theorem parseSequenceSet_serializeSequence_eq (hne : list ≠ []) :
    parseSequenceSet (serializeSequence list) = .ok (setTree ((runs list).map runElement)) := by
  rw [serializeSequence_eq_setText]
  exact parseSequenceSet_setText _ (by simpa using runs_ne_nil hne)

theorem expandInOrder_runs (hne : list ≠ []) (hpos : ∀ x ∈ list, x ≠ 0) :
    (setTree ((runs list).map runElement)).expandInOrder = some list := by
  obtain ⟨hids, hle⟩ := flatMap_runs list hpos
  rw [Sequence.expandInOrder, items_setTree (by simpa using runs_ne_nil hne), List.map_map,
    List.mapM_map, List.mapM_option_of_eq_some (f := Sequence.expandItem ∘ SetElement.toSequence ∘ runElement)
      (g := fun run : UInt32 × UInt32 => idsFromTo run.1 run.2)
      fun run hrun => expandItem_runElement (hle run hrun)]
  exact congrArg some hids

theorem contains_runs (hne : list ≠ []) (hpos : ∀ x ∈ list, x ≠ 0) (value maxValue : UInt32) :
    (setTree ((runs list).map runElement)).contains value maxValue = true ↔ value ∈ list := by
  obtain ⟨hids, hle⟩ := flatMap_runs list hpos
  rw [contains_setTree (by simpa using runs_ne_nil hne)]
  conv_rhs => rw [← hids]
  rw [List.mem_flatMap]
  constructor
  · rintro ⟨e, he, hc⟩
    obtain ⟨run, hrun, rfl⟩ := List.mem_map.mp he
    exact ⟨run, hrun, (contains_runElement (hle run hrun) _ _).mp hc⟩
  · rintro ⟨run, hrun, hv⟩
    exact ⟨runElement run, List.mem_map_of_mem hrun, (contains_runElement (hle run hrun) _ _).mpr hv⟩

/-- For every non-empty list of non-zero ids, in any order, `parse_sequence_set` accepts the
text `serialize_sequence` writes; its items expand left to right to the list, and the set
it reads contains exactly the ids of the list, whatever the largest id. -/
theorem parseSequenceSet_serializeSequence (list : List UInt32) (hne : list ≠ [])
    (hpos : ∀ id ∈ list, id ≠ 0) :
    ∃ s, parseSequenceSet (serializeSequence list) = .ok s ∧ s.expandInOrder = some list ∧
      ∀ value maxValue, s.contains value maxValue = true ↔ value ∈ list :=
  ⟨_, parseSequenceSet_serializeSequence_eq hne, expandInOrder_runs hne hpos, contains_runs hne hpos⟩

theorem parseSequenceSet_serializeSequence_unsorted :
    ∃ s, parseSequenceSet (serializeSequence [3, 4, 5, 9, 2]) = .ok s ∧
      s.expandInOrder = some [3, 4, 5, 9, 2] ∧
      ∀ value maxValue, s.contains value maxValue = true ↔ value ∈ [3, 4, 5, 9, 2] :=
  parseSequenceSet_serializeSequence [3, 4, 5, 9, 2] (by simp) (by simp)

end RoundTrip

end EsmpServer.Imap
