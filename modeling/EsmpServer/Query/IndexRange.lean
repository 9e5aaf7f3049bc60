import EsmpServer.Query.Filter
import EsmpServer.Email.Thread
import Mathlib

/-!
# The range scan behind a value filter

`Store::range_to_bitmap` answers a `Filter::MatchValue` from the index keys of
one field: it scans the keys between two bounds built for the operator, stops at
the first key without the field's prefix, and keeps the document ids of the
keys whose value passes the comparison. An index key is the account id, the
collection and the field, then the value, then the document id in four
big-endian bytes (`IndexKey::serialize`), and the scan compares whole keys as
byte strings (`RocksDbStore::iterate`).

The bounds hold every matching key when the comparison is an equality or a
substring test, and for the four order comparisons when the values of the field
have the length of the match value (`serialize_mem_rangeBounds`). The scan then
answers exactly the matching document ids (`rangeToBitmap_indexKeys`). The bounds
of `GreaterThan`, `GreaterEqualThan` and `Contains` end at the key of the next
field, `field + 1`, a `u8` sum: for field 255 it wraps to field 0, the upper
bound falls below the lower one, and the scan finds nothing
(`rangeToBitmap_nextFieldWrap`).

Keys are lists of bytes read as naturals, in the order of `List.Lex`. The
store's index is the keys of a list of entries, in order.
-/

namespace EsmpServer.Query

open Email (be32 u32Max deserializeBeU32 keyDocumentId indexKey)

/-- `IndexKey`: an entry of the index of one field. -/
structure IndexKey where
  accountId : UInt32
  collection : UInt8
  documentId : UInt32
  field : UInt8
  key : List UInt8
  deriving DecidableEq, Repr

/-- `IndexKeyPrefix::len()`. -/
def indexKeyPrefixLen : ℕ := 4 + 2

/-- `IndexKeyPrefix::serialize(0)`. -/
def indexKeyPrefix (accountId : UInt32) (collection field : UInt8) : List ℕ :=
  be32 accountId.toNat ++ [collection.toNat, field.toNat]

/-- `IndexKey::serialize(0)`. -/
def IndexKey.serialize (k : IndexKey) : List ℕ :=
  indexKeyPrefix k.accountId k.collection k.field ++ k.key.map UInt8.toNat ++ be32 k.documentId.toNat

/-- The index subspace of the store: the keys of its entries, in byte order. -/
def indexKeys (entries : List IndexKey) : List (List ℕ) :=
  (entries.map IndexKey.serialize).insertionSort (· ≤ ·)

/-- The `(begin, end)` keys of the scan for each operator. -/
def rangeBounds (accountId : UInt32) (collection field : UInt8) (matchValue : List UInt8) :
    Operator → IndexKey × IndexKey
  | .lowerThan =>
    (⟨accountId, collection, 0, field, []⟩, ⟨accountId, collection, 0, field, matchValue⟩)
  | .lowerEqualThan =>
    (⟨accountId, collection, 0, field, []⟩, ⟨accountId, collection, 0xFFFFFFFF, field, matchValue⟩)
  | .greaterThan =>
    (⟨accountId, collection, 0xFFFFFFFF, field, matchValue⟩,
      ⟨accountId, collection, 0xFFFFFFFF, field + 1, []⟩)
  | .greaterEqualThan =>
    (⟨accountId, collection, 0, field, matchValue⟩, ⟨accountId, collection, 0xFFFFFFFF, field + 1, []⟩)
  | .equal =>
    (⟨accountId, collection, 0, field, matchValue⟩,
      ⟨accountId, collection, 0xFFFFFFFF, field, matchValue⟩)
  | .contains =>
    (⟨accountId, collection, 0, field, []⟩,
      ⟨accountId, collection, 0xFFFFFFFF, field + 1, [0xFF, 0xFF, 0xFF, 0xFF]⟩)

/-- The comparison of a key's value with the match value; `Contains` is
`memmem::Finder::find`, a substring test. -/
def Operator.matches (op : Operator) (value matchValue : List ℕ) : Bool :=
  match op with
  | .lowerThan => decide (value < matchValue)
  | .lowerEqualThan => decide (value ≤ matchValue)
  | .greaterThan => decide (matchValue < value)
  | .greaterEqualThan => decide (matchValue ≤ value)
  | .equal => decide (value = matchValue)
  | .contains => decide (matchValue <:+: value)

/-- The value of an index key: its bytes between the prefix and the document id,
`key.get(IndexKeyPrefix::len()..id_pos)`. -/
def indexKeyValue (key : List ℕ) : List ℕ := (key.take (key.length - 4)).drop indexKeyPrefixLen

/-- `RocksDbStore::iterate`, ascending: from the first key not below `begin`, the
callback reads the keys until one is outside the bounds or it returns `false`. -/
def iterateLoop {σ ε : Type} (beginKey endKey : List ℕ) (cb : List ℕ → σ → Except ε (σ × Bool)) :
    List (List ℕ) → σ → Except ε σ
  | [], s => .ok s
  | key :: keys, s =>
    if key < beginKey ∨ endKey < key then .ok s
    else
      match cb key s with
      | .error e => .error e
      | .ok (s, true) => iterateLoop beginKey endKey cb keys s
      | .ok (s, false) => .ok s

/-- `RocksDbStore::iterate` over the keys of the subspace, held in order. -/
def iterate {σ ε : Type} (beginKey endKey : List ℕ) (cb : List ℕ → σ → Except ε (σ × Bool))
    (keys : List (List ℕ)) (s : σ) : Except ε σ :=
  iterateLoop beginKey endKey cb (keys.dropWhile fun key => decide (key < beginKey)) s

/-- `RocksDbStore::iterate` in the direction of `IterateParams::set_ascending`:
descending, it starts from the last key not above `end` and meets the keys in reverse,
with the same bounds. -/
def iterateDirected {σ ε : Type} (ascending : Bool) (beginKey endKey : List ℕ)
    (cb : List ℕ → σ → Except ε (σ × Bool)) (keys : List (List ℕ)) (s : σ) : Except ε σ :=
  if ascending then iterate beginKey endKey cb keys s
  else iterateLoop beginKey endKey cb (keys.reverse.dropWhile fun key => decide (endKey < key)) s

/-- The callback of `range_to_bitmap`: a key of another field stops the scan; a
key too short for a document id is the `corrupted_key` error. -/
def rangeCallback (pfx : List ℕ) (op : Operator) (matchValue : List ℕ) (key : List ℕ)
    (bm : Finset ℕ) : Except (List ℕ) (Finset ℕ × Bool) :=
  if !pfx.isPrefixOf key then .ok (bm, false)
  else if key.length - 4 < indexKeyPrefixLen then .error key
  else if op.matches (indexKeyValue key) matchValue then .ok (insert (keyDocumentId key) bm, true)
  else .ok (bm, true)

/-- The bitmap returned: none when it is empty. -/
def bitmapResult (bm : Finset ℕ) : Option (Finset ℕ) := if bm = ∅ then none else some bm

/-- `Store::range_to_bitmap`; the error is the corrupted key. -/
def rangeToBitmap (keys : List (List ℕ)) (accountId : UInt32) (collection field : UInt8)
    (matchValue : List UInt8) (op : Operator) : Except (List ℕ) (Option (Finset ℕ)) :=
  let bounds := rangeBounds accountId collection field matchValue op
  match iterate bounds.1.serialize bounds.2.serialize
      (rangeCallback (indexKeyPrefix accountId collection field) op (matchValue.map UInt8.toNat))
      keys ∅ with
  | .error e => .error e
  | .ok bm => .ok (bitmapResult bm)

/-- The document ids of the entries of the field whose value stands in the relation
to the match value. -/
def matchingIds (entries : List IndexKey) (accountId : UInt32) (collection field : UInt8)
    (matchValue : List UInt8) (op : Operator) : Finset ℕ :=
  ((entries.filter fun e => e.accountId = accountId ∧ e.collection = collection ∧
      e.field = field ∧ op.matches (e.key.map UInt8.toNat) (matchValue.map UInt8.toNat)).map
    fun e => e.documentId.toNat).toFinset

/-- The keys a scan visits: from the first key not below `beginKey`, while they
are not above `endKey` and start with `pfx`. -/
def scannedKeys (beginKey endKey pfx : List ℕ) (keys : List (List ℕ)) : List (List ℕ) :=
  (keys.dropWhile fun k => decide (k < beginKey)).takeWhile fun k =>
    decide (k ≤ endKey) && pfx.isPrefixOf k

/-! ## The scan -/

section Loop

variable {σ : Type} {beginKey endKey P : List ℕ} {cb : List ℕ → σ → Except (List ℕ) (σ × Bool)}

theorem iterateLoop_eq {g : List ℕ → σ → σ} (l : List (List ℕ)) (hge : ∀ k ∈ l, ¬k < beginKey)
    (hcb : ∀ k ∈ l, ∀ s, cb k s = if P <+: k then .ok (g k s, true) else .ok (s, false))
    (s : σ) :
    iterateLoop beginKey endKey cb l s =
      .ok ((l.takeWhile fun k => decide (k ≤ endKey) && P.isPrefixOf k).foldl
        (fun s k => g k s) s) := by
  induction l generalizing s with
  | nil => rfl
  | cons k l ih =>
    have hk := hge k List.mem_cons_self
    rw [iterateLoop, List.takeWhile_cons]
    by_cases hend : endKey < k
    · have hle : ¬k ≤ endKey := not_le.mpr hend
      simp [hend, hle]
    · have hle : k ≤ endKey := not_lt.mp hend
      rw [if_neg (by tauto), hcb k List.mem_cons_self]
      by_cases hP : P <+: k
      · have hP' : P.isPrefixOf k = true := List.isPrefixOf_iff_prefix.mpr hP
        simp only [hP, if_true, hle, hP', decide_true, Bool.and_self, List.foldl_cons]
        exact ih (fun k' hk' => hge k' (List.mem_cons_of_mem _ hk'))
          (fun k' hk' => hcb k' (List.mem_cons_of_mem _ hk')) (g k s)
      · have hP' : P.isPrefixOf k = false := by
          rw [Bool.eq_false_iff]
          exact fun h => hP (List.isPrefixOf_iff_prefix.mp h)
        simp [hP, hP']

theorem iterate_eq {g : List ℕ → σ → σ} {keys : List (List ℕ)} (hl : keys.Pairwise (· ≤ ·))
    (hcb : ∀ k ∈ keys, ∀ s, cb k s = if P <+: k then .ok (g k s, true) else .ok (s, false))
    (s : σ) :
    iterate beginKey endKey cb keys s =
      .ok ((scannedKeys beginKey endKey P keys).foldl (fun s k => g k s) s) := by
  have hge : ∀ k ∈ keys.dropWhile (fun k => decide (k < beginKey)), ¬k < beginKey :=
    fun k hk => not_lt.mpr ((List.mem_dropWhile_lt hl (fun _ => decide_eq_true_iff)).mp hk).2
  exact iterateLoop_eq _ hge (fun k hk => hcb k ((List.dropWhile_sublist _).subset hk)) s

theorem mem_scannedKeys {keys : List (List ℕ)} (hl : keys.Pairwise (· ≤ ·)) (hP : P <+: beginKey)
    {k : List ℕ} :
    k ∈ scannedKeys beginKey endKey P keys ↔ k ∈ keys ∧ beginKey ≤ k ∧ k ≤ endKey ∧ P <+: k :=
  List.mem_takeWhile_dropWhile_prefix hl (fun _ => decide_eq_true_iff)
    (fun k => by simp [List.isPrefixOf_iff_prefix]) hP

theorem iterateLoop_of_lt (l : List (List ℕ)) (hl : ∀ k ∈ l, endKey < k) (s : σ) :
    iterateLoop beginKey endKey cb l s = .ok s := by
  cases l with
  | nil => rfl
  | cons k l => exact if_pos (.inr (hl k List.mem_cons_self))

end Loop

theorem iterateLoop_invariant {σ ε : Type} {cb : List ℕ → σ → Except ε (σ × Bool)}
    (Inv Final : σ → Prop)
    (hcb : ∀ key s, Inv s → ∃ s' b, cb key s = .ok (s', b) ∧ (b = true → Inv s') ∧
      (b = false → Final s'))
    (beginKey endKey : List ℕ) (keys : List (List ℕ)) (s : σ) (hs : Inv s) :
    ∃ s', iterateLoop beginKey endKey cb keys s = .ok s' ∧ (Inv s' ∨ Final s') := by
  induction keys generalizing s with
  | nil => exact ⟨s, rfl, .inl hs⟩
  | cons key keys ih =>
    unfold iterateLoop
    split_ifs
    · exact ⟨s, rfl, .inl hs⟩
    · obtain ⟨s', b, hstep, hinv, hfinal⟩ := hcb key s hs
      rw [hstep]
      cases b
      · exact ⟨s', rfl, .inr (hfinal rfl)⟩
      · exact ih s' (hinv rfl)

theorem iterateDirected_invariant {σ ε : Type} {cb : List ℕ → σ → Except ε (σ × Bool)}
    (Inv Final : σ → Prop)
    (hcb : ∀ key s, Inv s → ∃ s' b, cb key s = .ok (s', b) ∧ (b = true → Inv s') ∧
      (b = false → Final s'))
    (ascending : Bool) (beginKey endKey : List ℕ) (keys : List (List ℕ)) (s : σ) (hs : Inv s) :
    ∃ s', iterateDirected ascending beginKey endKey cb keys s = .ok s' ∧ (Inv s' ∨ Final s') := by
  unfold iterateDirected iterate
  split
  · exact iterateLoop_invariant Inv Final hcb _ _ _ s hs
  · exact iterateLoop_invariant Inv Final hcb _ _ _ s hs

theorem foldl_insert_eq (c : List ℕ → Bool) (h : List ℕ → ℕ) (l : List (List ℕ))
    (s : Finset ℕ) :
    l.foldl (fun s k => if c k then insert (h k) s else s) s = s ∪ ((l.filter c).map h).toFinset := by
  induction l generalizing s with
  | nil => simp
  | cons k l ih =>
    rw [List.foldl_cons, ih, List.filter_cons]
    by_cases hc : c k
    · simp [hc, Finset.insert_union, Finset.union_insert]
    · simp [hc]

/-! ## Index keys -/

theorem be32_injective {m n : ℕ} (hm : m < 2 ^ 32) (hn : n < 2 ^ 32) (h : be32 m = be32 n) :
    m = n := by
  rw [← Email.deserializeBeU32_be32 hm, h, Email.deserializeBeU32_be32 hn]

theorem map_toNat_injective : Function.Injective (List.map UInt8.toNat) :=
  List.map_injective_iff.mpr fun _ _ h => UInt8.toNat_inj.mp h

@[simp] theorem length_indexKeyPrefix (a : UInt32) (c f : UInt8) :
    (indexKeyPrefix a c f).length = indexKeyPrefixLen := rfl

theorem IndexKey.serialize_eq (k : IndexKey) :
    k.serialize = indexKeyPrefix k.accountId k.collection k.field ++
      indexKey (k.key.map UInt8.toNat) k.documentId.toNat := by
  simp [IndexKey.serialize, indexKey]

theorem indexKeyValue_serialize (k : IndexKey) : indexKeyValue k.serialize = k.key.map UInt8.toNat := by
  have hlen : k.serialize.length - 4 = indexKeyPrefixLen + (k.key.map UInt8.toNat).length := by
    simp [IndexKey.serialize]
    omega
  rw [indexKeyValue, hlen, IndexKey.serialize, List.take_left' (by simp), List.drop_left' (by simp)]

theorem keyDocumentId_serialize (k : IndexKey) : keyDocumentId k.serialize = k.documentId.toNat := by
  exact Email.keyDocumentId_indexKey (indexKeyPrefix k.accountId k.collection k.field ++
    k.key.map UInt8.toNat) (UInt32.toNat_lt _)

theorem indexKeyPrefix_prefix_serialize {a : UInt32} {c f : UInt8} {k : IndexKey} :
    indexKeyPrefix a c f <+: k.serialize ↔ k.accountId = a ∧ k.collection = c ∧ k.field = f := by
  rw [IndexKey.serialize_eq]
  constructor
  · intro h
    have hpre : indexKeyPrefix a c f <+: indexKeyPrefix k.accountId k.collection k.field :=
      List.prefix_of_prefix_length_le h (List.prefix_append _ _) (by simp)
    have heq := hpre.eq_of_length (by simp)
    obtain ⟨hbe, hrest⟩ := List.append_inj heq (by simp)
    simp only [List.cons.injEq, and_true] at hrest
    exact ⟨(UInt32.toNat_inj.mp (be32_injective (UInt32.toNat_lt _) (UInt32.toNat_lt _) hbe)).symm,
      (UInt8.toNat_inj.mp hrest.1).symm, (UInt8.toNat_inj.mp hrest.2).symm⟩
  · rintro ⟨rfl, rfl, rfl⟩
    exact List.prefix_append _ _

theorem rangeCallback_serialize (a : UInt32) (c f : UInt8) (op : Operator) (mv : List ℕ)
    (k : IndexKey) (bm : Finset ℕ) :
    rangeCallback (indexKeyPrefix a c f) op mv k.serialize bm =
      if indexKeyPrefix a c f <+: k.serialize then
        .ok (if op.matches (indexKeyValue k.serialize) mv then insert (keyDocumentId k.serialize) bm
          else bm, true)
      else .ok (bm, false) := by
  have hlong : ¬k.serialize.length - 4 < indexKeyPrefixLen := by
    simp [IndexKey.serialize]
    omega
  by_cases hP : indexKeyPrefix a c f <+: k.serialize
  · have hP' : (indexKeyPrefix a c f).isPrefixOf k.serialize = true :=
      List.isPrefixOf_iff_prefix.mpr hP
    simp only [rangeCallback, hP', Bool.not_true, Bool.false_eq_true, if_false, hlong, hP, if_true]
    split <;> rfl
  · have hP' : (indexKeyPrefix a c f).isPrefixOf k.serialize = false := by
      rw [Bool.eq_false_iff]
      exact fun h => hP (List.isPrefixOf_iff_prefix.mp h)
    simp [rangeCallback, hP', hP]

/-! ## The bounds of the scan -/

section Bounds

variable {a : UInt32} {c f : UInt8}

theorem serialize_empty_le (d : UInt32) (v : List UInt8) :
    (⟨a, c, 0, f, []⟩ : IndexKey).serialize ≤ (⟨a, c, d, f, v⟩ : IndexKey).serialize := by
  simp only [IndexKey.serialize_eq, List.map_nil, UInt32.toNat_zero, indexKey, List.nil_append,
    Email.be32_zero]
  exact List.append_le_append_left_lex _ (List.replicate_zero_le (by simp))

theorem serialize_le_of_lt {v w : List UInt8} (h : v.map UInt8.toNat < w.map UInt8.toNat)
    (hlen : v.length = w.length) (d d' : UInt32) :
    (⟨a, c, d, f, v⟩ : IndexKey).serialize ≤ (⟨a, c, d', f, w⟩ : IndexKey).serialize := by
  rw [IndexKey.serialize_eq, IndexKey.serialize_eq]
  exact List.append_le_append_left_lex _ (List.append_le_append_of_lt h (by simpa using hlen) _ _)

theorem serialize_mem_range (v : List UInt8) (d : UInt32) :
    (⟨a, c, 0, f, v⟩ : IndexKey).serialize ≤ (⟨a, c, d, f, v⟩ : IndexKey).serialize ∧
      (⟨a, c, d, f, v⟩ : IndexKey).serialize ≤ (⟨a, c, 0xFFFFFFFF, f, v⟩ : IndexKey).serialize := by
  have hmax : (0xFFFFFFFF : UInt32).toNat = u32Max := rfl
  simp only [IndexKey.serialize_eq, UInt32.toNat_zero, hmax]
  obtain ⟨hlo, hhi⟩ := Email.indexKey_mem_range (v.map UInt8.toNat) d.toNat
  exact ⟨List.append_le_append_left_lex _ hlo, List.append_le_append_left_lex _ hhi⟩

theorem serialize_lt_of_field_lt {f' : UInt8} (hf : f.toNat < f'.toNat) (d d' : UInt32)
    (v w : List UInt8) :
    (⟨a, c, d, f, v⟩ : IndexKey).serialize < (⟨a, c, d', f', w⟩ : IndexKey).serialize := by
  have hsplit : ∀ (g : UInt8) (d : UInt32) (v : List UInt8), (⟨a, c, d, g, v⟩ : IndexKey).serialize =
      (be32 a.toNat ++ [c.toNat]) ++ g.toNat :: (v.map UInt8.toNat ++ be32 d.toNat) := by
    intro g d v
    simp [IndexKey.serialize, indexKeyPrefix]
  rw [hsplit, hsplit]
  exact List.Lex.append_left _ (List.Lex.rel hf) _

theorem serialize_le_nextField (hf : f ≠ 255) (d d' : UInt32) (v w : List UInt8) :
    (⟨a, c, d, f, v⟩ : IndexKey).serialize ≤ (⟨a, c, d', f + 1, w⟩ : IndexKey).serialize := by
  have hlt : f.toNat < (f + 1).toNat := by
    have hne : f.toNat ≠ 255 := fun h => hf (UInt8.toNat_inj.mp h)
    have := UInt8.toNat_lt f
    rw [UInt8.toNat_add]
    simp only [UInt8.reduceToNat, Nat.reducePow]
    omega
  exact le_of_lt (serialize_lt_of_field_lt hlt d d' v w)

theorem serialize_mem_rangeBounds {e : IndexKey} {mv : List UInt8} {op : Operator}
    (hpre : e.accountId = a ∧ e.collection = c ∧ e.field = f)
    (hm : op.matches (e.key.map UInt8.toNat) (mv.map UInt8.toNat) = true)
    (hfield : f ≠ 255 ∨ op ∈ [.lowerThan, .lowerEqualThan, .equal])
    (hlen : op ∈ [.lowerThan, .lowerEqualThan, .greaterThan, .greaterEqualThan] →
      e.key.length = mv.length) :
    (rangeBounds a c f mv op).1.serialize ≤ e.serialize ∧
      e.serialize ≤ (rangeBounds a c f mv op).2.serialize := by
  obtain ⟨a', c', d, f', v⟩ := e
  obtain ⟨rfl, rfl, rfl⟩ := hpre
  cases op with
  | lowerThan =>
    simp only [Operator.matches, decide_eq_true_eq] at hm
    exact ⟨serialize_empty_le d v, serialize_le_of_lt hm (hlen (by simp)) d 0⟩
  | lowerEqualThan =>
    simp only [Operator.matches, decide_eq_true_eq] at hm
    refine ⟨serialize_empty_le d v, ?_⟩
    rcases hm.lt_or_eq with hlt | heq
    · exact serialize_le_of_lt hlt (hlen (by simp)) d _
    · rw [map_toNat_injective heq]
      exact (serialize_mem_range mv d).2
  | greaterThan =>
    simp only [Operator.matches, decide_eq_true_eq] at hm
    exact ⟨serialize_le_of_lt hm (hlen (by simp)).symm _ d,
      serialize_le_nextField (hfield.resolve_right (by simp)) d _ v []⟩
  | greaterEqualThan =>
    simp only [Operator.matches, decide_eq_true_eq] at hm
    refine ⟨?_, serialize_le_nextField (hfield.resolve_right (by simp)) d _ v []⟩
    rcases hm.lt_or_eq with hlt | heq
    · exact serialize_le_of_lt hlt (hlen (by simp)).symm _ d
    · rw [← map_toNat_injective heq]
      exact (serialize_mem_range mv d).1
  | equal =>
    simp only [Operator.matches, decide_eq_true_eq] at hm
    rw [map_toNat_injective hm]
    exact serialize_mem_range mv d
  | contains =>
    exact ⟨serialize_empty_le d v, serialize_le_nextField (hfield.resolve_right (by simp)) d _ v _⟩

end Bounds

/-! ## What the scan answers -/

section Answer

variable (entries : List IndexKey) (a : UInt32) (c f : UInt8) (mv : List UInt8)

theorem mem_indexKeys {k : List ℕ} : k ∈ indexKeys entries ↔ ∃ e ∈ entries, e.serialize = k := by
  simp [indexKeys, List.mem_insertionSort]

theorem pairwise_indexKeys : (indexKeys entries).Pairwise (· ≤ ·) :=
  List.pairwise_insertionSort _ _

theorem iterate_indexKeys (op : Operator) (bm : Finset ℕ) :
    iterate (rangeBounds a c f mv op).1.serialize (rangeBounds a c f mv op).2.serialize
        (rangeCallback (indexKeyPrefix a c f) op (mv.map UInt8.toNat)) (indexKeys entries) bm =
      .ok (bm ∪ (((scannedKeys (rangeBounds a c f mv op).1.serialize
        (rangeBounds a c f mv op).2.serialize (indexKeyPrefix a c f) (indexKeys entries)).filter
          fun k => op.matches (indexKeyValue k) (mv.map UInt8.toNat)).map keyDocumentId).toFinset) := by
  have hcb : ∀ k ∈ indexKeys entries, ∀ s,
      rangeCallback (indexKeyPrefix a c f) op (mv.map UInt8.toNat) k s =
        if indexKeyPrefix a c f <+: k then
          .ok (if op.matches (indexKeyValue k) (mv.map UInt8.toNat) then insert (keyDocumentId k) s
            else s, true)
        else .ok (s, false) := by
    intro k hk s
    obtain ⟨e, -, rfl⟩ := (mem_indexKeys entries).mp hk
    exact rangeCallback_serialize a c f op _ e s
  rw [iterate_eq (pairwise_indexKeys entries) hcb, foldl_insert_eq]

/-- For every index and every field but 255 (or an operator whose scan stays in
the field), `range_to_bitmap` answers the document ids of the entries whose value
matches, none when there are none; the order comparisons ask the values of the
field to have the length of the match value. -/
theorem rangeToBitmap_indexKeys (op : Operator)
    (hfield : f ≠ 255 ∨ op ∈ [.lowerThan, .lowerEqualThan, .equal])
    (hlen : op ∈ [.lowerThan, .lowerEqualThan, .greaterThan, .greaterEqualThan] →
      ∀ e ∈ entries, e.accountId = a → e.collection = c → e.field = f → e.key.length = mv.length) :
    rangeToBitmap (indexKeys entries) a c f mv op = .ok (bitmapResult (matchingIds entries a c f mv op)) := by
  have hP : indexKeyPrefix a c f <+: (rangeBounds a c f mv op).1.serialize := by
    cases op <;> exact indexKeyPrefix_prefix_serialize.mpr ⟨rfl, rfl, rfl⟩
  simp only [rangeToBitmap, iterate_indexKeys, Finset.empty_union]
  congr 2
  ext d
  simp only [List.mem_toFinset, List.mem_map, List.mem_filter,
    mem_scannedKeys (pairwise_indexKeys entries) hP, matchingIds, decide_eq_true_eq]
  constructor
  · rintro ⟨k, ⟨⟨hk, -, -, hpre⟩, hm⟩, rfl⟩
    obtain ⟨e, he, rfl⟩ := (mem_indexKeys entries).mp hk
    rw [indexKeyValue_serialize] at hm
    obtain ⟨ha, hc, hf⟩ := indexKeyPrefix_prefix_serialize.mp hpre
    exact ⟨e, ⟨he, ha, hc, hf, hm⟩, (keyDocumentId_serialize e).symm⟩
  · rintro ⟨e, ⟨he, ha, hc, hf, hm⟩, rfl⟩
    have hpre : e.accountId = a ∧ e.collection = c ∧ e.field = f := ⟨ha, hc, hf⟩
    have hbounds := serialize_mem_rangeBounds hpre hm hfield fun hop => hlen hop e he ha hc hf
    refine ⟨e.serialize, ⟨⟨(mem_indexKeys entries).mpr ⟨e, he, rfl⟩, hbounds.1, hbounds.2,
      indexKeyPrefix_prefix_serialize.mpr hpre⟩, ?_⟩, keyDocumentId_serialize e⟩
    rwa [indexKeyValue_serialize]

theorem rangeToBitmap_indexKeys_greaterThan :
    rangeToBitmap (indexKeys [⟨0, 0, 7, 3, [1]⟩, ⟨0, 0, 8, 3, [2]⟩, ⟨0, 0, 9, 4, [5]⟩]) 0 0 3 [1]
        .greaterThan =
      .ok (bitmapResult (matchingIds [⟨0, 0, 7, 3, [1]⟩, ⟨0, 0, 8, 3, [2]⟩, ⟨0, 0, 9, 4, [5]⟩]
        0 0 3 [1] .greaterThan)) :=
  rangeToBitmap_indexKeys _ 0 0 3 [1] .greaterThan (.inl (by decide)) (by decide)

example : rangeToBitmap (indexKeys [⟨0, 0, 7, 3, [1]⟩, ⟨0, 0, 8, 3, [2]⟩, ⟨0, 0, 9, 4, [5]⟩]) 0 0 3 [1]
    .greaterThan = .ok (some {8}) := by decide

theorem rangeToBitmap_nextFieldWrap (op : Operator)
    (hop : op ∈ [.greaterThan, .greaterEqualThan, .contains]) :
    rangeToBitmap (indexKeys entries) a c 255 mv op = .ok none := by
  have hwrap : (rangeBounds a c 255 mv op).2.serialize < (rangeBounds a c 255 mv op).1.serialize := by
    simp only [List.mem_cons, List.not_mem_nil, or_false] at hop
    rcases hop with rfl | rfl | rfl <;> exact serialize_lt_of_field_lt (by decide) _ _ _ _
  have hempty : iterate (rangeBounds a c 255 mv op).1.serialize (rangeBounds a c 255 mv op).2.serialize
      (rangeCallback (indexKeyPrefix a c 255) op (mv.map UInt8.toNat)) (indexKeys entries) ∅ =
        .ok ∅ := by
    refine iterateLoop_of_lt _ (fun k hk => lt_of_lt_of_le hwrap ?_) _
    exact ((List.mem_dropWhile_lt (pairwise_indexKeys entries) (fun _ => decide_eq_true_iff)).mp hk).2
  simp only [rangeToBitmap, hempty, bitmapResult, if_true]

end Answer

end EsmpServer.Query
