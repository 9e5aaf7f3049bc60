import EsmpServer.Imap.SequenceSetRoundTrip
import EsmpServer.Imap.Mailbox

/-!
# Two readings of a sequence set

A parsed sequence set is read in two ways (imap-proto protocol/mod.rs).
`Sequence::contains` decides whether one id is in it and recurses into the items
of a list; `Sequence::expand` builds the set of its ids, and of a list's items
expands numbers and ranges only. `sequence_to_ids` selects the messages with the
first, `sequence_expand_missing` (imap core/message.rs) lists the ids that name no
message with the second.

The two agree on every set `parse_sequence_set` returns (`mem_expand_iff`): its
items are numbers, ranges and `$`, never lists, and `$` is in neither reading.
So the ids `sequence_expand_missing` reports are exactly the ids the set
contains that name no message (`mem_sequenceExpandMissing`).

The hash set `expand` returns is a list without repeats here; the only order the
source gives its ids is the sort of `sequence_expand_missing`.
-/

namespace EsmpServer.Imap

/-- `AHashSet::extend`, on a set kept as a list without repeats. -/
def insertAll (set values : List UInt32) : List UInt32 :=
  values.foldl (fun set value => set.insert value) set

/-- The ids of a range of `expand` added to `set`: every id between its ends, an
open end standing for the largest id. -/
def expandRange (start stop : Option UInt32) (maxValue : UInt32) (set : List UInt32) :
    List UInt32 :=
  let start := start.getD maxValue
  let stop := stop.getD maxValue
  if start = stop then set.insert start
  else if start < stop then insertAll set (idsFromTo start stop)
  else insertAll set (idsFromTo stop start)

/-- One item of a list in `expand`: numbers and ranges add their ids, the other
items nothing. -/
def expandListItem (maxValue : UInt32) (set : List UInt32) : Sequence → List UInt32
  | .number value => set.insert value
  | .range start stop => expandRange start stop maxValue set
  | _ => set

/-- `Sequence::expand`. -/
def Sequence.expand (maxValue : UInt32) : Sequence → List UInt32
  | .number value => [value]
  | .list items => items.foldl (expandListItem maxValue) []
  | .range start stop => expandRange start stop maxValue []
  | .savedSearch => []

/-- `sequence_expand_missing` for a set other than `$`: the uids of the set that
map to no message, or its sequence numbers above the number of messages, sorted. -/
def sequenceExpandMissing (state : MailboxState) (sequence : Sequence) (isUid : Bool) :
    List UInt32 :=
  let deleted :=
    if isUid then
      (sequence.expand state.uidMax.toUInt32).filter fun uid => (state.uidToId.lookup uid.toNat).isNone
    else
      (sequence.expand state.totalMessages.toUInt32).filter fun seqnum =>
        decide (seqnum > state.totalMessages.toUInt32)
  deleted.insertionSort fun a b => a ≤ b

/-! ## The ids of a set -/

theorem mem_insertAll {set values : List UInt32} {v : UInt32} :
    v ∈ insertAll set values ↔ v ∈ set ∨ v ∈ values := by
  induction values generalizing set with
  | nil => simp [insertAll]
  | cons value values ih =>
    rw [insertAll, List.foldl_cons, ← insertAll, ih, List.mem_insert_iff, List.mem_cons]
    tauto

theorem contains_range_iff (start stop : Option UInt32) (v maxValue : UInt32) :
    (Sequence.range start stop).contains v maxValue = true ↔
      (start.getD maxValue ≤ v ∧ v ≤ stop.getD maxValue) ∨
        (stop.getD maxValue ≤ v ∧ v ≤ start.getD maxValue) := by
  cases start <;> cases stop <;> simp [Sequence.contains, UInt32.le_antisymm_iff, or_comm, and_comm]

theorem mem_expandRange {start stop : Option UInt32} {maxValue v : UInt32} {set : List UInt32} :
    v ∈ expandRange start stop maxValue set ↔
      v ∈ set ∨ (Sequence.range start stop).contains v maxValue = true := by
  rw [contains_range_iff]
  simp only [expandRange]
  generalize start.getD maxValue = a
  generalize stop.getD maxValue = b
  simp only [UInt32.le_iff_toNat_le]
  split_ifs with heq hlt
  · subst heq
    rw [List.mem_insert_iff, ← UInt32.toNat_inj, or_comm]
    exact or_congr_right (by omega)
  · rw [UInt32.lt_iff_toNat_lt] at hlt
    rw [mem_insertAll, mem_idsFromTo, UInt32.le_iff_toNat_le, UInt32.le_iff_toNat_le]
    exact or_congr_right (by omega)
  · rw [UInt32.lt_iff_toNat_lt] at hlt
    have hne : a.toNat ≠ b.toNat := fun h => heq (UInt32.toNat_inj.mp h)
    rw [mem_insertAll, mem_idsFromTo, UInt32.le_iff_toNat_le, UInt32.le_iff_toNat_le]
    exact or_congr_right (by omega)

/-- An item of a parsed set: a number, a range or `$`, never a list. -/
def Sequence.IsItem : Sequence → Prop
  | .list _ => False
  | _ => True

theorem Sequence.items_of_isItem {q : Sequence} (hq : q.IsItem) : q.items = [q] := by
  cases q with
  | list _ => exact hq.elim
  | _ => rfl

theorem mem_expandListItem {maxValue v : UInt32} {set : List UInt32} {item : Sequence}
    (hitem : item.IsItem) :
    v ∈ expandListItem maxValue set item ↔ v ∈ set ∨ item.contains v maxValue = true := by
  cases item with
  | number n =>
    simp only [expandListItem, Sequence.contains, List.mem_insert_iff, beq_iff_eq, @eq_comm _ n v]
    exact or_comm
  | range start stop => exact mem_expandRange
  | savedSearch => simp [expandListItem, Sequence.contains]
  | list _ => exact hitem.elim

theorem mem_foldl_expandListItem {maxValue v : UInt32} :
    ∀ {items : List Sequence} {set : List UInt32}, (∀ item ∈ items, item.IsItem) →
      (v ∈ items.foldl (expandListItem maxValue) set ↔
        v ∈ set ∨ ∃ item ∈ items, item.contains v maxValue = true)
  | [], set, _ => by simp
  | item :: items, set, hitems => by
    rw [List.foldl_cons, mem_foldl_expandListItem (fun i hi => hitems i (List.mem_cons_of_mem _ hi)),
      mem_expandListItem (hitems item List.mem_cons_self)]
    simp only [List.mem_cons, exists_eq_or_imp]
    tauto

theorem mem_expand_iff_of_items {q : Sequence} (hq : ∀ item ∈ q.items, item.IsItem)
    (maxValue v : UInt32) : v ∈ q.expand maxValue ↔ q.contains v maxValue = true := by
  cases q with
  | number n => simp [Sequence.expand, Sequence.contains, @eq_comm _ n v]
  | range start stop =>
    simpa [Sequence.expand] using @mem_expandRange start stop maxValue v []
  | savedSearch => simp [Sequence.expand, Sequence.contains]
  | list items =>
    rw [Sequence.expand, mem_foldl_expandListItem (by simpa [Sequence.items] using hq),
      Sequence.contains, containsAny_iff]
    simp

/-! ## The items `parse_sequence_set` returns -/

theorem scanByte_sequenceSet {value : List UInt8} {pos : ℕ} {ch : UInt8} {st st' : ParseState}
    {addToken : Bool} (h : scanByte value pos ch st = .ok (addToken, st')) :
    st'.sequenceSet = st.sequenceSet := by
  unfold scanByte at h
  split at h <;> (repeat' split at h) <;> (try cases h) <;> rfl

theorem flush_sequenceSet {value : List UInt8} {pos : ℕ} {addToken : Bool} {st st' : ParseState}
    (h : flush value pos addToken st = .ok st') :
    ∃ item, item.IsItem ∧ st'.sequenceSet = st.sequenceSet ++ [item] := by
  unfold flush at h
  split_ifs at h <;>
    simp only [Except.bind_eq_ok, Except.map_eq_ok, Except.pure_eq_ok, Except.ok.injEq] at h <;>
    first | subst h | obtain ⟨_, -, rfl⟩ := h
  all_goals (refine ⟨_, ?_, rfl⟩; trivial)

theorem scan_items {value : List UInt8} {st st' : ParseState} {item : UInt8 × ℕ}
    (hst : ∀ i ∈ st.sequenceSet, i.IsItem) (h : scan value st item = .ok st') :
    ∀ i ∈ st'.sequenceSet, i.IsItem := by
  unfold scan at h
  split at h
  · cases h
  · rename_i addToken st'' hbyte
    have hset := scanByte_sequenceSet hbyte
    split_ifs at h
    · cases hflush : flush value item.2 addToken st'' with
      | error e => rw [hflush] at h; cases h
      | ok st''' =>
        rw [hflush] at h
        cases h
        obtain ⟨i, hi, heq⟩ := flush_sequenceSet hflush
        intro i' hi'
        rw [heq, hset, List.mem_append, List.mem_singleton] at hi'
        rcases hi' with hi' | rfl
        · exact hst i' hi'
        · exact hi
    · cases h
      rw [hset]
      exact hst

theorem scan_exit {value : List UInt8} {st : ParseState} {item : UInt8 × ℕ} {q : Sequence}
    (h : scan value st item = .error (.ok q)) : q = .range none none := by
  unfold scan at h
  split at h
  · rename_i exit hbyte
    cases h
    unfold scanByte at hbyte
    split at hbyte <;> (repeat' split at hbyte) <;> cases hbyte
    rfl
  · split_ifs at h
    cases hflush : flush value item.2 _ _ with
    | error e => rw [hflush] at h; cases h
    | ok st' => rw [hflush] at h; cases h

theorem parseSequenceSet_items {value : List UInt8} {q : Sequence}
    (h : parseSequenceSet value = .ok q) : ∀ item ∈ q.items, item.IsItem := by
  unfold parseSequenceSet at h
  split at h
  · rename_i exit hfold
    have hexit := List.foldlM_except_error (fun exit => ∀ q, exit = .ok q → q = .range none none)
      (fun _ _ e _ hstep q hq => scan_exit (hq ▸ hstep)) hfold q h
    subst hexit
    simp [Sequence.items, Sequence.IsItem]
  · rename_i st hfold
    have hst := List.foldlM_except_invariant (fun st : ParseState => ∀ i ∈ st.sequenceSet, i.IsItem)
      (by simp [ParseState.init]) (fun _ _ _ _ hc hstep => scan_items hc hstep) hfold
    split at h
    next _ hone =>
      cases h
      have hq : q.IsItem := hst q (by simp [hone])
      intro i hi
      rw [Sequence.items_of_isItem hq, List.mem_singleton] at hi
      subst hi
      exact hq
    · cases h
    · cases h
      exact hst

/-- On every set `parse_sequence_set` returns, an id is in what `expand` builds
exactly when `contains` finds it. -/
theorem mem_expand_iff {value : List UInt8} {q : Sequence} (h : parseSequenceSet value = .ok q)
    (maxValue v : UInt32) : v ∈ q.expand maxValue ↔ q.contains v maxValue = true :=
  mem_expand_iff_of_items (parseSequenceSet_items h) maxValue v

theorem mem_expand_iff_rangeAndNumber :
    parseSequenceSet (DecimalBytes.ascii "3:1,7") = .ok (.list [.range (some 3) (some 1), .number 7]) ∧
      (2 ∈ (Sequence.list [.range (some 3) (some 1), .number 7]).expand 10 ↔
        (Sequence.list [.range (some 3) (some 1), .number 7]).contains 2 10 = true) :=
  ⟨rfl, @mem_expand_iff (DecimalBytes.ascii "3:1,7") _ rfl 10 2⟩

theorem mem_sequenceExpandMissing {value : List UInt8} {q : Sequence}
    (h : parseSequenceSet value = .ok q) (state : MailboxState) (isUid : Bool) (v : UInt32) :
    v ∈ sequenceExpandMissing state q isUid ↔
      if isUid then q.contains v state.uidMax.toUInt32 = true ∧ state.uidToId.lookup v.toNat = none
      else q.contains v state.totalMessages.toUInt32 = true ∧ v > state.totalMessages.toUInt32 := by
  rw [sequenceExpandMissing, (List.perm_insertionSort _ _).mem_iff]
  cases isUid <;> simp [mem_expand_iff_of_items (parseSequenceSet_items h)]

end EsmpServer.Imap
