import EsmpServer.Storage.Index
import EsmpServer.Lib.Fallible

/-!
# The derived entries a stored value induces

The entries of a stored value are the index keys of its non-empty `Index` values and
of every `IndexList` element, its tags, the link of its blob, and for each grantee the
grants of its ACL entry. The builder keeps a document's derived entries equal to those
of its stored value over every run of insertions, updates and deletions when the
object type keeps the shape of its index values (`Shaped`), when its index values write
disjoint blocks of keys (`Separated`) and when an ACL list names each grantee once
(`AclDistinct`). The last condition cannot be dropped: the ACL search of `merge_index`
stops at the first old entry of a grantee, while the grants written last are those of
its last entry.
-/

namespace EsmpServer.Storage

open AList IndexableObject

/-- The block of keys an index value writes. -/
inductive Slot
  | index (field : ℕ)
  | tag (field : ℕ)
  | blob
  | acl
  deriving DecidableEq, Repr

/-- The block of a key. -/
def EntryKey.slot : EntryKey → Slot
  | .index field _ => .index field
  | .tag field _ => .tag field
  | .blobLink _ => .blob
  | .acl _ => .acl

namespace IndexValue

/-- The block an index value writes, if any. -/
def slot : IndexValue → Option Slot
  | .index field _ => some (.index field)
  | .indexList field _ => some (.index field)
  | .tag field _ => some (.tag field)
  | .blob _ => some .blob
  | .acl _ => some .acl
  | .quota _ => none
  | .logContainer _ => none
  | .logContainerProperty _ _ => none
  | .logItem _ _ => none

/-- The entries an index value induces. For a grantee listed twice, the grants written
last, those of its last entry. -/
def induced : IndexValue → EntryKey → Option EntryValue
  | .index field value, .index field' key =>
    if field = field' ∧ key = value ∧ value ≠ [] then some .present else none
  | .indexList field value, .index field' key =>
    if field = field' ∧ key ∈ value then some .present else none
  | .tag field value, .tag field' item => if field = field' ∧ item ∈ value then some .present else none
  | .blob hash, .blobLink hash' => if hash' = hash then some .present else none
  | .acl value, .acl accountId =>
    (value.reverse.find? (·.accountId = accountId)).map fun item => .grants item.grants
  | _, _ => none

theorem induced_eq_none_of_slot_ne {iv : IndexValue} {k : EntryKey} (h : iv.slot ≠ some k.slot) :
    iv.induced k = none := by
  cases iv <;> cases k <;> simp_all [slot, EntryKey.slot, induced]

/-- Two index values of one shape: one variant, on one field or collection. -/
def SameShape : IndexValue → IndexValue → Prop
  | .index field _, .index field' _ => field = field'
  | .indexList field _, .indexList field' _ => field = field'
  | .tag field _, .tag field' _ => field = field'
  | .blob _, .blob _ => True
  | .quota _, .quota _ => True
  | .logContainer syncCollection, .logContainer syncCollection' => syncCollection = syncCollection'
  | .logContainerProperty syncCollection _, .logContainerProperty syncCollection' _ =>
    syncCollection = syncCollection'
  | .logItem syncCollection _, .logItem syncCollection' _ => syncCollection = syncCollection'
  | .acl _, .acl _ => True
  | _, _ => False

theorem SameShape.slot_eq {c n : IndexValue} (h : SameShape c n) : c.slot = n.slot := by
  cases c <;> cases n <;> simp_all [SameShape, slot]

/-- The used quota an index value charges. -/
def quotaUsed : IndexValue → ℕ
  | .quota used => used
  | _ => 0

end IndexValue

variable {N : Type}

/-- The entry operation of a batch operation. -/
def Operation.entryOp? : Operation N → Option EntryOp
  | .entry op => some op
  | _ => none

/-- The entry operations of a batch. -/
def entryOps (ops : List (Operation N)) : List EntryOp := ops.filterMap Operation.entryOp?

@[simp] theorem entryOps_nil : entryOps ([] : List (Operation N)) = [] := rfl

@[simp] theorem entryOps_append (ops ops' : List (Operation N)) :
    entryOps (ops ++ ops') = entryOps ops ++ entryOps ops' := List.filterMap_append

@[simp] theorem entryOps_flatMap {ι : Type*} (l : List ι) (f : ι → List (Operation N)) :
    entryOps (l.flatMap f) = l.flatMap fun i => entryOps (f i) := by
  induction l with
  | nil => rfl
  | cons i l ih => simp [List.flatMap_cons, ih]

namespace BatchContext

variable (ctx : BatchContext)

@[simp] theorem entryOps_logDocument (collection : ℕ) (op : ℕ → Write.LogOp) :
    entryOps (ctx.logDocument collection op : List (Operation N)) = [] := by
  delta BatchContext.logDocument
  split <;> rfl

@[simp] theorem entryOps_logContainerPropertyChange (collection parentId : ℕ) :
    entryOps (ctx.logContainerPropertyChange collection parentId : List (Operation N)) = [] := by
  delta BatchContext.logContainerPropertyChange
  split <;> rfl

@[simp] theorem entryOps_addUsedQuota (tenantId : Option ℕ) (value : ℤ) :
    entryOps (ctx.addUsedQuota tenantId value : List (Operation N)) = [] := by
  delta BatchContext.addUsedQuota
  cases ctx.accountId <;> cases tenantId <;> rfl

end BatchContext

@[simp] theorem entryOp?_index (set : Bool) (field : ℕ) (key : List UInt8) :
    (Operation.index set field key : Operation N).entryOp? =
      some (if set then .set (.index field key) .present else .clear (.index field key)) := rfl

@[simp] theorem entryOp?_tag (set : Bool) (field : ℕ) (value : TagValue) :
    (Operation.tag set field value : Operation N).entryOp? =
      some (if set then .set (.tag field value) .present else .clear (.tag field value)) := rfl

@[simp] theorem entryOp?_blobLink (set : Bool) (hash : BlobHash) :
    (Operation.blobLink set hash : Operation N).entryOp? =
      some (if set then .set (.blobLink hash) .present else .clear (.blobLink hash)) := rfl

@[simp] theorem entryOp?_aclGrant (accountId grants : ℕ) :
    (Operation.aclGrant accountId grants : Operation N).entryOp? =
      some (.set (.acl accountId) (.grants grants)) := rfl

@[simp] theorem entryOp?_aclRevoke (accountId : ℕ) :
    (Operation.aclRevoke accountId : Operation N).entryOp? = some (.clear (.acl accountId)) := rfl


@[simp] theorem entryOps_map {ι : Type*} (l : List ι) (f : ι → Operation N) :
    entryOps (l.map f) = l.filterMap fun x => (f x).entryOp? := by
  simp [entryOps, List.filterMap_map]

@[simp] theorem entryOps_cons (op : Operation N) (ops : List (Operation N)) :
    entryOps (op :: ops) = (op.entryOp?.toList ++ entryOps ops) := by
  cases h : op.entryOp? <;> simp [entryOps, h]

/-- The derived entries of a document. -/
abbrev Entries := AList fun _ : EntryKey => EntryValue

section Steps

variable (ctx : BatchContext) (tenantId : Option ℕ)

theorem slot_of_mem_buildIndex {set : Bool} {iv : IndexValue} {op : EntryOp}
    (h : op ∈ entryOps (buildIndex ctx tenantId set iv : List (Operation N))) :
    iv.slot = some op.key.slot := by
  cases iv <;> cases set <;>
    simp [buildIndex, IndexValue.slot] at h ⊢ <;>
    first
    | (obtain ⟨-, rfl⟩ := h; rfl)
    | (obtain ⟨-, -, rfl⟩ := h; rfl)
    | (split at h <;> simp at h; subst h; rfl)

theorem lookup_buildIndex_set {iv : IndexValue} {k : EntryKey} (s : Entries)
    (hk : iv.slot = some k.slot) (hs : s.lookup k = none) :
    (s.applyBatch (entryOps (buildIndex ctx tenantId true iv : List (Operation N)))).lookup k =
      iv.induced k := by
  cases iv <;> cases k <;> simp [IndexValue.slot, EntryKey.slot] at hk
  case index.index field value field' key =>
    subst hk
    by_cases hv : value = []
    · simp [buildIndex, IndexValue.induced, hv, hs]
    · by_cases hkey : key = value
      · subst hkey
        simp [buildIndex, IndexValue.induced, hv]
      · simp [buildIndex, IndexValue.induced, hv, hkey, hs, lookup_insert_ne]
  case indexList.index field value field' key =>
    subst hk
    simp [buildIndex, IndexValue.induced, lookup_applyBatch_map_set_const, hs]
  case tag.tag field value field' item =>
    subst hk
    simp [buildIndex, IndexValue.induced, lookup_applyBatch_map_set_const, hs]
  case blob.blobLink hash hash' =>
    by_cases hh : hash' = hash
    · subst hh
      simp [buildIndex, IndexValue.induced]
    · simp [buildIndex, IndexValue.induced, hh, hs, lookup_insert_ne]
  case acl.acl value accountId =>
    simp [buildIndex, IndexValue.induced, lookup_applyBatch_map_set, hs]

theorem lookup_buildIndex_clear {iv : IndexValue} {k : EntryKey} (s : Entries)
    (hk : iv.slot = some k.slot) (hs : s.lookup k = iv.induced k) :
    (s.applyBatch (entryOps (buildIndex ctx tenantId false iv : List (Operation N)))).lookup k =
      none := by
  cases iv <;> cases k <;> simp [IndexValue.slot, EntryKey.slot] at hk
  case index.index field value field' key =>
    subst hk
    by_cases hv : value = []
    · simpa [buildIndex, IndexValue.induced, hv] using hs
    · by_cases hkey : key = value
      · subst hkey
        simp [buildIndex, hv]
      · simpa [buildIndex, IndexValue.induced, hv, hkey, lookup_erase_ne, Ne.symm hkey] using hs
  case indexList.index field value field' key =>
    subst hk
    simp only [IndexValue.induced, true_and] at hs
    simp [buildIndex, lookup_applyBatch_map_clear, hs]
  case tag.tag field value field' item =>
    subst hk
    simp only [IndexValue.induced, true_and] at hs
    simp [buildIndex, lookup_applyBatch_map_clear, hs]
  case blob.blobLink hash hash' =>
    by_cases hh : hash' = hash
    · subst hh
      simp [buildIndex]
    · simpa [buildIndex, IndexValue.induced, hh, lookup_erase_ne, Ne.symm hh] using hs
  case acl.acl value accountId =>
    simp [buildIndex, lookup_applyBatch_map_clear]
    intro hnone
    simpa [hs, IndexValue.induced, List.find?_eq_none] using hnone

end Steps


theorem mergeIndexList_spec : ∀ (removeValues newValue : List IndexItem), removeValues.Nodup →
    (∀ x ∈ (mergeIndexList removeValues newValue).1, x ∈ newValue) ∧
    (∀ x ∈ newValue, x ∉ removeValues → x ∈ (mergeIndexList removeValues newValue).1) ∧
    (∀ x, x ∈ (mergeIndexList removeValues newValue).2 ↔ x ∈ removeValues ∧ x ∉ newValue)
  | removeValues, [], _ => by simp [mergeIndexList]
  | removeValues, value :: newValue, hnd => by
    by_cases hv : value ∈ removeValues
    · obtain ⟨ih₁, ih₂, ih₃⟩ := mergeIndexList_spec (removeValues.erase value) newValue (hnd.erase value)
      simp only [mergeIndexList, hv, if_true]
      refine ⟨fun x hx => List.mem_cons_of_mem _ (ih₁ x hx), fun x hx hxr => ?_, fun x => ?_⟩
      · have hxv : x ≠ value := fun h => hxr (h ▸ hv)
        exact ih₂ x ((List.mem_cons.mp hx).resolve_left hxv)
          fun h => hxr (List.mem_of_mem_erase h)
      · rw [ih₃, hnd.mem_erase_iff, List.mem_cons]
        tauto
    · obtain ⟨ih₁, ih₂, ih₃⟩ := mergeIndexList_spec removeValues newValue hnd
      simp only [mergeIndexList, hv, if_false, List.mem_cons]
      refine ⟨fun x hx => ?_, fun x hx hxr => ?_, fun x => ?_⟩
      · rcases hx with rfl | hx
        · exact .inl rfl
        · exact .inr (ih₁ x hx)
      · rcases hx with rfl | hx
        · exact .inl rfl
        · exact .inr (ih₂ x hx hxr)
      · rw [ih₃]
        constructor
        · rintro ⟨hx, hxn⟩
          exact ⟨hx, fun h => h.elim (fun h => hv (h ▸ hx)) hxn⟩
        · rintro ⟨hx, hxn⟩
          exact ⟨hx, fun h => hxn (.inr h)⟩

theorem find?_eq_some_of_unique {α : Type*} {p : α → Bool} {x : α} :
    ∀ {l : List α}, x ∈ l → p x → (∀ y ∈ l, p y → y = x) → l.find? p = some x
  | [], hx, _, _ => absurd hx List.not_mem_nil
  | y :: l, hx, hpx, huniq => by
    by_cases hpy : p y
    · rw [List.find?_cons_of_pos hpy, huniq y (by simp) hpy]
    · have hxy : x ≠ y := fun h => hpy (h ▸ hpx)
      rw [List.find?_cons_of_neg hpy]
      exact find?_eq_some_of_unique ((List.mem_cons.mp hx).resolve_left hxy) hpx
        fun z hz => huniq z (by simp [hz])

/-- An ACL list that names each grantee once. -/
def AclDistinct (acl : List AclGrant) : Prop := (acl.map (·.accountId)).Nodup

theorem AclDistinct.eq_of_accountId {acl : List AclGrant} (h : AclDistinct acl) {x y : AclGrant}
    (hx : x ∈ acl) (hy : y ∈ acl) (hxy : x.accountId = y.accountId) : x = y :=
  List.inj_on_of_nodup_map h hx hy hxy

theorem AclDistinct.find?_reverse {acl : List AclGrant} (h : AclDistinct acl) {x : AclGrant}
    (hx : x ∈ acl) {p : AclGrant → Bool} (hp : ∀ y, p y ↔ y.accountId = x.accountId) :
    acl.reverse.find? p = some x :=
  find?_eq_some_of_unique (List.mem_reverse.mpr hx) ((hp x).mpr rfl) fun y hy hpy =>
    h.eq_of_accountId (List.mem_reverse.mp hy) hx ((hp y).mp hpy)

theorem AclDistinct.filter {acl : List AclGrant} (h : AclDistinct acl) (p : AclGrant → Bool) :
    AclDistinct (acl.filter p) :=
  h.sublist ((List.filter_sublist).map _)

theorem addItem_eq_false {oldAcl : List AclGrant} {item : AclGrant}
    (h : addItem oldAcl item = false) :
    ∃ currentItem ∈ oldAcl, currentItem.accountId = item.accountId ∧
      currentItem.grants = item.grants := by
  delta addItem at h
  split at h
  · rename_i currentItem hfind
    refine ⟨currentItem, List.mem_of_find?_eq_some hfind, ?_, ?_⟩
    · simpa using List.find?_some hfind
    · exact (bne_eq_false_iff_eq.mp h).symm
  · cases h

section Merge

variable (ctx : BatchContext) (tenantId : Option ℕ) (s : Entries)

theorem lookup_mergeIndex_index {field field' : ℕ} {oldValue newValue : IndexItem}
    {key : List UInt8} {ops : List (Operation N)} (hne : oldValue ≠ newValue)
    (hm : mergeIndex ctx tenantId (.index field oldValue) (.index field' newValue) = some ops)
    (hs : s.lookup (.index field key) = (IndexValue.index field oldValue).induced (.index field key)) :
    (s.applyBatch (entryOps ops)).lookup (.index field key) =
      (IndexValue.index field newValue).induced (.index field key) := by
  delta mergeIndex at hm
  simp only [Option.some.injEq] at hm
  subst hm
  simp only [IndexValue.induced, true_and] at hs ⊢
  by_cases ho : oldValue = [] <;> by_cases hn : newValue = [] <;>
    rcases eq_or_ne key newValue with rfl | hkn <;> rcases eq_or_ne key oldValue with rfl | hko <;>
    simp_all [lookup_insert_ne, lookup_erase_ne]

theorem lookup_mergeIndex_indexList {field field' : ℕ} {oldValue newValue : List IndexItem}
    {key : List UInt8} {ops : List (Operation N)}
    (hm : mergeIndex ctx tenantId (.indexList field oldValue) (.indexList field' newValue) = some ops)
    (hs : s.lookup (.index field key) =
      (IndexValue.indexList field oldValue).induced (.index field key)) :
    (s.applyBatch (entryOps ops)).lookup (.index field key) =
      (IndexValue.indexList field newValue).induced (.index field key) := by
  obtain ⟨hindexed, hnew, hleft⟩ := mergeIndexList_spec oldValue.dedup newValue (List.nodup_dedup _)
  delta mergeIndex at hm
  simp only [Option.some.injEq] at hm
  subst hm
  simp only [IndexValue.induced, true_and] at hs ⊢
  simp only [entryOps_append, entryOps_map, entryOp?_index, applyBatch_append, if_true,
    Bool.false_eq_true, if_false, List.filterMap_eq_map', lookup_applyBatch_map_clear,
    lookup_applyBatch_map_set_const, EntryKey.index.injEq, true_and, exists_eq_right, hleft,
    List.mem_dedup, hs]
  by_cases hkn : key ∈ newValue
  · by_cases hki : key ∈ (mergeIndexList oldValue.dedup newValue).1
    · simp [hkn, hki]
    · have hko : key ∈ oldValue := by
        by_contra hko
        exact hki (hnew key hkn (by simpa using hko))
      simp [hkn, hki, hko]
  · have hki : key ∉ (mergeIndexList oldValue.dedup newValue).1 := fun h => hkn (hindexed key h)
    simp [hkn, hki]

theorem lookup_mergeIndex_tag {field field' : ℕ} {oldValue newValue : List TagValue}
    {item : TagValue} {ops : List (Operation N)}
    (hm : mergeIndex ctx tenantId (.tag field oldValue) (.tag field' newValue) = some ops)
    (hs : s.lookup (.tag field item) = (IndexValue.tag field oldValue).induced (.tag field item)) :
    (s.applyBatch (entryOps ops)).lookup (.tag field item) =
      (IndexValue.tag field newValue).induced (.tag field item) := by
  delta mergeIndex at hm
  simp only [Option.some.injEq] at hm
  subst hm
  simp only [IndexValue.induced, true_and] at hs ⊢
  simp only [entryOps_append, entryOps_map, entryOp?_tag, applyBatch_append, if_true,
    Bool.false_eq_true, if_false, List.filterMap_eq_map', lookup_applyBatch_map_clear,
    lookup_applyBatch_map_set_const, EntryKey.tag.injEq, true_and, exists_eq_right,
    List.mem_filter, decide_eq_true_eq, hs]
  by_cases hkn : item ∈ newValue <;> by_cases hko : item ∈ oldValue <;> simp [hkn, hko]

theorem lookup_mergeIndex_blob {oldHash newHash hash : BlobHash} {ops : List (Operation N)}
    (hne : oldHash ≠ newHash)
    (hm : mergeIndex ctx tenantId (.blob oldHash) (.blob newHash) = some ops)
    (hs : s.lookup (.blobLink hash) = (IndexValue.blob oldHash).induced (.blobLink hash)) :
    (s.applyBatch (entryOps ops)).lookup (.blobLink hash) =
      (IndexValue.blob newHash).induced (.blobLink hash) := by
  delta mergeIndex at hm
  simp only [Option.some.injEq] at hm
  subst hm
  simp only [IndexValue.induced] at hs ⊢
  rcases eq_or_ne hash newHash with rfl | hn <;> rcases eq_or_ne hash oldHash with rfl | ho <;>
    simp_all [lookup_insert_ne, lookup_erase_ne]

theorem lookup_aclUpdate {oldAcl newAcl : List AclGrant} {accountId : ℕ}
    (hold : AclDistinct oldAcl) (hnew : AclDistinct newAcl)
    (hs : s.lookup (.acl accountId) = (IndexValue.acl oldAcl).induced (.acl accountId)) :
    (s.applyBatch (entryOps (((oldAcl.filter fun currentItem =>
        !newAcl.any (·.accountId == currentItem.accountId)).map (Operation.aclRevoke ·.accountId) ++
      (newAcl.filter (addItem oldAcl)).map fun item => Operation.aclGrant item.accountId item.grants) :
        List (Operation N)))).lookup (.acl accountId) =
      (IndexValue.acl newAcl).induced (.acl accountId) := by
  simp only [entryOps_append, entryOps_map, entryOp?_aclRevoke, entryOp?_aclGrant,
    List.filterMap_eq_map', applyBatch_append, lookup_applyBatch_map_set,
    lookup_applyBatch_map_clear, IndexValue.induced, EntryKey.acl.injEq]
  by_cases ha : ∃ x ∈ newAcl, x.accountId = accountId
  · obtain ⟨x, hx, rfl⟩ := ha
    rw [hnew.find?_reverse hx (by simp)]
    by_cases hadd : addItem oldAcl x
    · rw [(hnew.filter _).find?_reverse (List.mem_filter.mpr ⟨hx, hadd⟩) (by simp)]
      rfl
    · obtain ⟨currentItem, hc, hca, hcg⟩ := addItem_eq_false (by simpa using hadd)
      have hG : ((newAcl.filter (addItem oldAcl)).reverse.find?
          fun y => decide (y.accountId = x.accountId)) = none := by
        rw [List.find?_eq_none]
        intro y hy hya
        obtain ⟨hyn, hyadd⟩ := List.mem_filter.mp (List.mem_reverse.mp hy)
        rw [hnew.eq_of_accountId hyn hx (by simpa using hya)] at hyadd
        exact hadd hyadd
      have hR : ¬ ∃ y ∈ oldAcl.filter (fun currentItem =>
          !newAcl.any (·.accountId == currentItem.accountId)), y.accountId = x.accountId := by
        rintro ⟨y, hy, hya⟩
        have hany := (List.mem_filter.mp hy).2
        simp only [Bool.not_eq_eq_eq_not, Bool.not_true, List.any_eq_false, beq_iff_eq] at hany
        exact hany x hx (hya ▸ rfl)
      rw [hG, if_neg hR, hs]
      simp only [IndexValue.induced]
      rw [hold.find?_reverse hc (by simp [hca])]
      simp [hcg]
  · have hnone : ∀ l : List AclGrant, (∀ y ∈ l, y ∈ newAcl) →
        (l.reverse.find? fun y => decide (y.accountId = accountId)) = none := by
      intro l hl
      rw [List.find?_eq_none]
      intro y hy hya
      exact ha ⟨y, hl y (List.mem_reverse.mp hy), by simpa using hya⟩
    rw [hnone _ fun y hy => (List.mem_filter.mp hy).1, hnone _ fun y hy => hy]
    by_cases ho : ∃ y ∈ oldAcl, y.accountId = accountId
    · obtain ⟨y, hy, rfl⟩ := ho
      have hR : ∃ z ∈ oldAcl.filter (fun currentItem =>
          !newAcl.any (·.accountId == currentItem.accountId)), z.accountId = y.accountId := by
        refine ⟨y, List.mem_filter.mpr ⟨hy, ?_⟩, rfl⟩
        simp only [Bool.not_eq_eq_eq_not, Bool.not_true, List.any_eq_false, beq_iff_eq]
        exact fun z hz hzy => ha ⟨z, hz, hzy⟩
      rw [if_pos hR]
      rfl
    · have hR : ¬ ∃ z ∈ oldAcl.filter (fun currentItem =>
          !newAcl.any (·.accountId == currentItem.accountId)), z.accountId = accountId :=
        fun ⟨z, hz, hza⟩ => ho ⟨z, (List.mem_filter.mp hz).1, hza⟩
      have hold' : (oldAcl.reverse.find? fun y => decide (y.accountId = accountId)) = none := by
        rw [List.find?_eq_none]
        intro y hy hya
        exact ho ⟨y, List.mem_reverse.mp hy, by simpa using hya⟩
      rw [if_neg hR, hs]
      simp only [IndexValue.induced]
      rw [hold']
      rfl

theorem lookup_mergeIndex_acl {oldAcl newAcl : List AclGrant} {accountId : ℕ}
    {ops : List (Operation N)} (hold : AclDistinct oldAcl) (hnew : AclDistinct newAcl)
    (hm : mergeIndex ctx tenantId (.acl oldAcl) (.acl newAcl) = some ops)
    (hs : s.lookup (.acl accountId) = (IndexValue.acl oldAcl).induced (.acl accountId)) :
    (s.applyBatch (entryOps ops)).lookup (.acl accountId) =
      (IndexValue.acl newAcl).induced (.acl accountId) := by
  delta mergeIndex at hm
  simp only [Option.some.injEq] at hm
  subst hm
  delta mergeAcl
  rcases oldAcl with _ | ⟨y, ys⟩ <;> rcases newAcl with _ | ⟨x, xs⟩
  case nil.nil => simpa using hs
  case nil.cons =>
    simp only [List.isEmpty_cons, List.isEmpty_nil, Bool.not_false, Bool.not_true, entryOps_map,
      entryOp?_aclGrant, List.filterMap_eq_map', lookup_applyBatch_map_set, EntryKey.acl.injEq, hs]
    simp [IndexValue.induced]
  case cons.nil =>
    simp only [List.isEmpty_cons, List.isEmpty_nil, Bool.not_false, Bool.not_true, entryOps_map,
      entryOp?_aclRevoke, List.filterMap_eq_map', lookup_applyBatch_map_clear, EntryKey.acl.injEq]
    split_ifs with ha
    · rfl
    · rw [hs]
      simp only [IndexValue.induced, List.reverse_nil, List.find?_nil, Option.map_none]
      rw [List.find?_eq_none.mpr fun z hz hza => ha ⟨z, List.mem_reverse.mp hz, by simpa using hza⟩]
      rfl
  case cons.cons =>
    simp only [List.isEmpty_cons, Bool.not_false]
    exact lookup_aclUpdate s hold hnew hs

theorem slot_of_mem_mergeIndex {c n : IndexValue} {ops : List (Operation N)} {op : EntryOp}
    (hm : mergeIndex ctx tenantId c n = some ops) (h : op ∈ entryOps ops) :
    c.slot = some op.key.slot := by
  delta mergeIndex at hm
  cases c <;> cases n <;> simp only [reduceCtorEq, Option.some.injEq] at hm <;>
    subst hm <;> simp [IndexValue.slot] at h ⊢
  case index.index =>
    rcases h with h | h <;> split at h <;> simp at h <;> subst h <;> rfl
  case indexList.indexList =>
    rcases h with ⟨x, -, rfl⟩ | ⟨x, -, rfl⟩ <;> rfl
  case tag.tag =>
    rcases h with ⟨x, -, rfl⟩ | ⟨x, -, rfl⟩ <;> rfl
  case blob.blob =>
    rcases h with rfl | rfl <;> rfl
  case acl.acl oldAcl newAcl =>
    delta mergeAcl at h
    split at h <;> simp at h
    all_goals first
      | (rcases h with ⟨x, -, rfl⟩ | ⟨x, -, rfl⟩ <;> rfl)
      | (obtain ⟨x, -, rfl⟩ := h; rfl)

theorem lookup_mergeIndex {c n : IndexValue} {k : EntryKey} {ops : List (Operation N)}
    (hshape : c.SameShape n) (hne : c ≠ n)
    (hacl : ∀ acl, (c = .acl acl ∨ n = .acl acl) → AclDistinct acl)
    (hm : mergeIndex ctx tenantId c n = some ops) (hk : c.slot = some k.slot)
    (hs : s.lookup k = c.induced k) :
    (s.applyBatch (entryOps ops)).lookup k = n.induced k := by
  cases c <;> cases n <;> simp only [IndexValue.SameShape] at hshape <;>
    cases k <;> simp [IndexValue.slot, EntryKey.slot] at hk
  case index.index.index field oldValue _ newValue _ key =>
    subst hshape hk
    exact lookup_mergeIndex_index ctx tenantId s (fun h => hne (by rw [h])) hm hs
  case indexList.indexList.index field oldValue _ newValue _ key =>
    subst hshape hk
    exact lookup_mergeIndex_indexList ctx tenantId s hm hs
  case tag.tag.tag field oldValue _ newValue _ item =>
    subst hshape hk
    exact lookup_mergeIndex_tag ctx tenantId s hm hs
  case blob.blob.blobLink oldHash newHash hash =>
    exact lookup_mergeIndex_blob ctx tenantId s (fun h => hne (by rw [h])) hm hs
  case acl.acl.acl oldAcl newAcl accountId =>
    exact lookup_mergeIndex_acl ctx tenantId s (hacl _ (.inl rfl)) (hacl _ (.inr rfl)) hm hs

end Merge

section Update

variable (ctx : BatchContext) (tenantId : Option ℕ) (s : Entries)

theorem slot_of_mem_updateIndex {c n : IndexValue} {ops : List (Operation N)} {op : EntryOp}
    (hu : updateIndex ctx tenantId c n = some ops) (h : op ∈ entryOps ops) :
    c.slot = some op.key.slot := by
  delta updateIndex at hu
  split at hu
  · exact slot_of_mem_mergeIndex ctx tenantId hu h
  · rw [Option.some.injEq] at hu
    subst hu
    split at h <;> simp at h

theorem lookup_updateIndex {c n : IndexValue} {k : EntryKey} {ops : List (Operation N)}
    (hshape : c.SameShape n) (hacl : ∀ acl, (c = .acl acl ∨ n = .acl acl) → AclDistinct acl)
    (hu : updateIndex ctx tenantId c n = some ops) (hk : c.slot = some k.slot)
    (hs : s.lookup k = c.induced k) :
    (s.applyBatch (entryOps ops)).lookup k = n.induced k := by
  delta updateIndex at hu
  split at hu
  · rename_i hne
    exact lookup_mergeIndex ctx tenantId s hshape hne hacl hu hk hs
  · rename_i heq
    rw [Option.some.injEq] at hu
    subst hu
    rw [← not_not.mp heq, ← hs]
    split <;> simp

theorem updateIndex_isSome {c n : IndexValue} (hshape : c.SameShape n) :
    (updateIndex ctx tenantId c n : Option (List (Operation N))).isSome := by
  delta updateIndex
  split
  · delta mergeIndex
    cases c <;> cases n <;> simp only [IndexValue.SameShape] at hshape <;> simp
    case logContainer.logContainer c₁ c₂ hne =>
      exact hne (by rw [hshape])
  · rfl

end Update

section Document

variable [IndexableObject N]

/-- The entries a stored value induces; none when nothing is stored. -/
def inducedEntries : Option N → EntryKey → Option EntryValue
  | none, _ => none
  | some v, k => (indexValues v).findSome? (·.induced k)

variable (N) in
/-- The object type keeps the shape of its index values. -/
def Shaped : Prop := ∀ v w : N, List.Forall₂ IndexValue.SameShape (indexValues v) (indexValues w)

variable (N) in
/-- No two index values of a value write one block of keys. -/
def Separated : Prop := ∀ v : N, ((indexValues v).filterMap IndexValue.slot).Nodup

/-- A value whose ACL lists name each grantee once. -/
def AclsDistinct (v : N) : Prop := ∀ acl, IndexValue.acl acl ∈ indexValues v → AclDistinct acl

theorem filterMap_slot_eq_of_forall₂ {cs ns : List IndexValue}
    (h : List.Forall₂ IndexValue.SameShape cs ns) :
    cs.filterMap IndexValue.slot = ns.filterMap IndexValue.slot := by
  induction h with
  | nil => rfl
  | cons hcn _ ih => simp [List.filterMap_cons, hcn.slot_eq, ih]

theorem findSome?_induced_eq_none {l : List IndexValue} {k : EntryKey}
    (h : k.slot ∉ l.filterMap IndexValue.slot) : l.findSome? (·.induced k) = none :=
  List.findSome?_eq_none_iff.mpr fun iv hiv => IndexValue.induced_eq_none_of_slot_ne
    fun hslot => h (List.mem_filterMap.mpr ⟨iv, hiv, hslot⟩)

variable (ctx : BatchContext) (tenantId : Option ℕ) (s : Entries)

theorem lookup_insertEntries {n : N} (hsep : Separated N) (hs : ∀ k, s.lookup k = none)
    (k : EntryKey) :
    (s.applyBatch ((indexValues n).flatMap fun iv =>
        entryOps (buildIndex ctx tenantId true iv : List (Operation N)))).lookup k =
      inducedEntries (some n) k := by
  rw [lookup_applyBatch_flatMap_blocks EntryKey.slot IndexValue.slot
    (fun iv => entryOps (buildIndex ctx tenantId true iv : List (Operation N)))
    (fun _ _ => none) IndexValue.induced k (indexValues n) s (hsep n)
    (fun iv _ op hop => slot_of_mem_buildIndex ctx tenantId hop)
    (fun iv _ hslot => ⟨rfl, IndexValue.induced_eq_none_of_slot_ne hslot⟩)
    (fun iv _ s' hslot hs' => lookup_buildIndex_set ctx tenantId s' hslot hs')
    (fun _ => by rw [hs]; exact (List.findSome?_eq_none_iff.mpr fun _ _ => rfl).symm)]
  split_ifs with h
  · rfl
  · rw [hs, inducedEntries, findSome?_induced_eq_none h]

theorem lookup_deleteEntries {c : N} (hsep : Separated N)
    (hs : ∀ k, s.lookup k = inducedEntries (some c) k) (k : EntryKey) :
    (s.applyBatch ((indexValues c).flatMap fun iv =>
        entryOps (buildIndex ctx tenantId false iv : List (Operation N)))).lookup k = none := by
  rw [lookup_applyBatch_flatMap_blocks EntryKey.slot IndexValue.slot
    (fun iv => entryOps (buildIndex ctx tenantId false iv : List (Operation N)))
    IndexValue.induced (fun _ _ => none) k (indexValues c) s (hsep c)
    (fun iv _ op hop => slot_of_mem_buildIndex ctx tenantId hop)
    (fun iv _ hslot => ⟨IndexValue.induced_eq_none_of_slot_ne hslot, rfl⟩)
    (fun iv _ s' hslot hs' => lookup_buildIndex_clear ctx tenantId s' hslot hs')
    (fun _ => hs k)]
  split_ifs with h
  · simp
  · rw [hs, inducedEntries, findSome?_induced_eq_none h]

theorem lookup_updateEntries {c n : N} {opss : List (List (Operation N))} (hshape : Shaped N)
    (hsep : Separated N) (hc : AclsDistinct c) (hn : AclsDistinct n)
    (hu : ((indexValues c).zip (indexValues n)).mapM
      (fun p => updateIndex ctx tenantId p.1 p.2) = some opss)
    (hs : ∀ k, s.lookup k = inducedEntries (some c) k) (k : EntryKey) :
    (s.applyBatch (entryOps opss.flatten)).lookup k = inducedEntries (some n) k := by
  obtain ⟨hlen, hzip⟩ := List.forall₂_iff_zip.mp (hshape c n)
  have hfst : ((indexValues c).zip (indexValues n)).map Prod.fst = indexValues c :=
    List.map_fst_zip (by omega)
  have hsnd : ((indexValues c).zip (indexValues n)).map Prod.snd = indexValues n :=
    List.map_snd_zip (by omega)
  have hslots : ((indexValues c).zip (indexValues n)).filterMap (·.1.slot) =
      (indexValues c).filterMap IndexValue.slot := by
    conv_rhs => rw [← hfst]
    rw [List.filterMap_map]
    rfl
  have hfindc : ((indexValues c).zip (indexValues n)).findSome? (fun p => p.1.induced k) =
      (indexValues c).findSome? (·.induced k) := by
    conv_rhs => rw [← hfst]
    rw [List.findSome?_map]
    rfl
  have hfindn : ((indexValues c).zip (indexValues n)).findSome? (fun p => p.2.induced k) =
      (indexValues n).findSome? (·.induced k) := by
    conv_rhs => rw [← hsnd]
    rw [List.findSome?_map]
    rfl
  have hops : entryOps opss.flatten = ((indexValues c).zip (indexValues n)).flatMap fun p =>
      entryOps ((updateIndex ctx tenantId p.1 p.2).getD [] : List (Operation N)) := by
    rw [List.mapM_option_eq_some [] hu, ← entryOps_flatMap]
    rfl
  rw [hops, lookup_applyBatch_flatMap_blocks EntryKey.slot
      (fun p : IndexValue × IndexValue => p.1.slot)
      (fun p : IndexValue × IndexValue =>
        entryOps ((updateIndex ctx tenantId p.1 p.2).getD [] : List (Operation N)))
      (fun p : IndexValue × IndexValue => p.1.induced)
      (fun p : IndexValue × IndexValue => p.2.induced) k _ s (hslots ▸ hsep c)
      (fun p hp op hop => ?seg) (fun p hp hslot => ?out) (fun p hp s' hslot hs' => ?step)
      (fun _ => by rw [hs, inducedEntries, hfindc]),
    hslots]
  case seg =>
    obtain ⟨ops, hops⟩ := Option.isSome_iff_exists.mp
      (updateIndex_isSome (N := N) ctx tenantId (hzip hp))
    rw [hops, Option.getD_some] at hop
    exact slot_of_mem_updateIndex ctx tenantId hops hop
  case out =>
    have hslot' : p.2.slot ≠ some k.slot := (hzip hp).slot_eq ▸ hslot
    exact ⟨IndexValue.induced_eq_none_of_slot_ne hslot,
      IndexValue.induced_eq_none_of_slot_ne hslot'⟩
  case step =>
    obtain ⟨ops, hops⟩ := Option.isSome_iff_exists.mp
      (updateIndex_isSome (N := N) ctx tenantId (hzip hp))
    rw [hops, Option.getD_some]
    refine lookup_updateIndex ctx tenantId s' (hzip hp) (fun acl hacl => ?_) hops hslot hs'
    rcases hacl with h | h
    · exact hc acl (h ▸ List.of_mem_zip hp).1
    · exact hn acl (h ▸ List.of_mem_zip hp).2
  split_ifs with h
  · rw [inducedEntries, hfindn]
  · rw [hs, inducedEntries, inducedEntries, findSome?_induced_eq_none h,
      findSome?_induced_eq_none]
    rwa [← filterMap_slot_eq_of_forall₂ (hshape c n)]

end Document

/-- An assertion, the one operation that can abort a commit. -/
def Operation.isAssert : Operation N → Bool
  | .assertValue _ => true
  | _ => false

section Asserts

variable (ctx : BatchContext) (tenantId : Option ℕ)

@[simp] theorem isAssert_index (set : Bool) (field : ℕ) (key : List UInt8) :
    (Operation.index set field key : Operation N).isAssert = false := rfl

@[simp] theorem isAssert_tag (set : Bool) (field : ℕ) (value : TagValue) :
    (Operation.tag set field value : Operation N).isAssert = false := rfl

@[simp] theorem isAssert_blobLink (set : Bool) (hash : BlobHash) :
    (Operation.blobLink set hash : Operation N).isAssert = false := rfl

@[simp] theorem isAssert_aclGrant (accountId grants : ℕ) :
    (Operation.aclGrant accountId grants : Operation N).isAssert = false := rfl

@[simp] theorem isAssert_aclRevoke (accountId : ℕ) :
    (Operation.aclRevoke accountId : Operation N).isAssert = false := rfl

theorem isAssert_of_mem_logDocument {collection : ℕ} {f : ℕ → Write.LogOp} {op : Operation N}
    (h : op ∈ ctx.logDocument collection f) : op.isAssert = false := by
  delta BatchContext.logDocument at h
  split at h <;> simp at h
  subst h
  rfl

theorem isAssert_of_mem_logContainerPropertyChange {collection parentId : ℕ}
    {op : Operation N} (h : op ∈ ctx.logContainerPropertyChange collection parentId) :
    op.isAssert = false := by
  delta BatchContext.logContainerPropertyChange at h
  split at h <;> simp at h
  subst h
  rfl

theorem isAssert_of_mem_addUsedQuota {value : ℤ} {op : Operation N}
    (h : op ∈ ctx.addUsedQuota tenantId value) : op.isAssert = false := by
  delta BatchContext.addUsedQuota at h
  simp only [List.mem_append, Option.mem_toList, Option.map_eq_some_iff] at h
  rcases h with ⟨a, -, rfl⟩ | ⟨a, -, rfl⟩ <;> rfl

theorem isAssert_of_mem_buildIndex {set : Bool} {iv : IndexValue} {op : Operation N}
    (h : op ∈ buildIndex ctx tenantId set iv) : op.isAssert = false := by
  cases iv <;> simp only [buildIndex] at h
  case quota => exact isAssert_of_mem_addUsedQuota ctx tenantId h
  case logItem => exact isAssert_of_mem_logDocument ctx h
  case logContainer => exact isAssert_of_mem_logDocument ctx h
  case logContainerProperty =>
    obtain ⟨parentId, -, h⟩ := List.mem_flatMap.mp h
    exact isAssert_of_mem_logContainerPropertyChange ctx h
  all_goals
    first
    | (split at h <;> simp at h; subst h; rfl)
    | (obtain ⟨x, -, rfl⟩ := List.mem_map.mp h; cases set <;> rfl)
    | (simp at h; subst h; rfl)

theorem isAssert_of_mem_updateIndex {c n : IndexValue} {ops : List (Operation N)}
    {op : Operation N} (hu : updateIndex ctx tenantId c n = some ops) (h : op ∈ ops) :
    op.isAssert = false := by
  delta updateIndex at hu
  split at hu
  · delta mergeIndex at hu
    cases c <;> cases n <;> simp only [reduceCtorEq, Option.some.injEq] at hu <;>
      subst hu
    case quota.quota => exact isAssert_of_mem_addUsedQuota ctx tenantId h
    case logItem.logItem =>
      rcases List.mem_append.mp h with h | h <;> exact isAssert_of_mem_logDocument ctx h
    case logContainerProperty.logContainerProperty =>
      obtain ⟨_, -, h⟩ := List.mem_flatMap.mp h
      exact isAssert_of_mem_logContainerPropertyChange ctx h
    case acl.acl =>
      delta mergeAcl at h
      split at h <;> simp at h <;> aesop
    all_goals (simp at h; aesop)
  · rw [Option.some.injEq] at hu
    subst hu
    split at h
    · exact isAssert_of_mem_logDocument ctx h
    · exact isAssert_of_mem_logDocument ctx h
    · simp at h

end Asserts

namespace DocumentStore

variable [DecidableEq N]

theorem commit_cons (s : DocumentStore N) (op : Operation N) (ops : List (Operation N)) :
    s.commit (op :: ops) = (s.applyOperation op).bind (·.commit ops) := rfl

theorem commit_append (s : DocumentStore N) (ops ops' : List (Operation N)) :
    s.commit (ops ++ ops') = (s.commit ops).bind (·.commit ops') := by
  simp only [commit, List.foldlM_append]
  rfl

theorem entries_commit :
    ∀ {s s' : DocumentStore N} {ops : List (Operation N)}, s.commit ops = some s' →
      s'.entries = s.entries.applyBatch (entryOps ops)
  | s, s', [], h => by
    simp only [commit, List.foldlM_nil, Option.pure_def, Option.some.injEq] at h
    subst h
    rfl
  | s, s', op :: ops, h => by
    rw [commit_cons] at h
    obtain ⟨s₁, h₁, h⟩ := Option.bind_eq_some_iff.mp h
    rw [entries_commit h, entryOps_cons]
    cases op <;> simp only [applyOperation, Option.some.injEq] at h₁
    all_goals first
      | (subst h₁; rfl)
      | (split at h₁ <;> simp only [Option.some.injEq, reduceCtorEq] at h₁; subst h₁; rfl)

theorem value_commit_setValue {s s' : DocumentStore N} (ops : List (Operation N)) {v : N}
    (h : s.commit (ops ++ [.setValue v]) = some s') : s'.value = some v := by
  rw [commit_append] at h
  obtain ⟨s₁, -, h⟩ := Option.bind_eq_some_iff.mp h
  simp [commit, applyOperation] at h
  rw [← h]

theorem value_commit_clearValue {s s' : DocumentStore N} (ops : List (Operation N))
    (h : s.commit (ops ++ [.clearValue]) = some s') : s'.value = none := by
  rw [commit_append] at h
  obtain ⟨s₁, -, h⟩ := Option.bind_eq_some_iff.mp h
  simp [commit, applyOperation] at h
  rw [← h]

theorem commit_assertValue {s : DocumentStore N} {c : N} (hcur : s.value = some c)
    (ops : List (Operation N)) : s.commit (.assertValue c :: ops) = s.commit ops := by
  simp [commit_cons, applyOperation, hcur]

theorem commit_isSome :
    ∀ {s : DocumentStore N} {ops : List (Operation N)}, (∀ op ∈ ops, op.isAssert = false) →
      (s.commit ops).isSome
  | s, [], _ => rfl
  | s, op :: ops, h => by
    obtain ⟨s₁, h₁⟩ : ∃ s₁, s.applyOperation op = some s₁ := by
      have hop := h op (by simp)
      cases op <;> simp [applyOperation, Operation.isAssert] at hop ⊢
    rw [commit_cons, h₁, Option.bind_some]
    exact commit_isSome fun op' hop' => h op' (by simp [hop'])

variable [IndexableObject N]

/-- What the builder keeps: the entries of the stored value, and a stored value whose
ACL lists name each grantee once. -/
structure Consistent (s : DocumentStore N) : Prop where
  entries_eq : ∀ k, s.entries.lookup k = inducedEntries s.value k
  aclsDistinct : ∀ v, s.value = some v → AclsDistinct v

/-- The value a write stores, if any. -/
def DocumentWrite.changes? : DocumentWrite N → Option N
  | .insert changes => some changes
  | .update changes => some changes
  | .delete => none

variable (ctx : BatchContext) (tenantId : Option ℕ)

theorem Consistent.write (hshape : Shaped N) (hsep : Separated N) {s s' : DocumentStore N}
    {w : DocumentWrite N} (h : s.Consistent) (hw : ∀ v, w.changes? = some v → AclsDistinct v)
    (hs' : s.write ctx tenantId w = some s') : s'.Consistent := by
  obtain ⟨b, hb, hs'⟩ := Option.bind_eq_some_iff.mp hs'
  obtain ⟨ops, hops, hc⟩ := Option.bind_eq_some_iff.mp hs'
  have hentries := entries_commit hc
  cases w with
  | insert n =>
    simp only [builder] at hb
    split at hb
    · rename_i hnone
      simp only [Option.some.injEq] at hb
      subst hb
      simp only [ObjectIndexBuilder.build, Option.some.injEq] at hops
      subst hops
      have hval := value_commit_setValue _ hc
      refine ⟨fun k => ?_, fun v hv => hw v (by rw [hval] at hv; cases hv; rfl)⟩
      rw [hentries, hval]
      simpa [Operation.entryOp?] using lookup_insertEntries ctx tenantId s.entries hsep
        (fun k => by rw [h.entries_eq, hnone]; rfl) k
    · cases hb
  | update n =>
    obtain ⟨c, hcur, rfl⟩ := Option.map_eq_some_iff.mp hb
    simp only [ObjectIndexBuilder.build] at hops
    obtain ⟨opss, hu, hops⟩ := Option.bind_eq_some_iff.mp hops
    simp only [Option.some.injEq] at hops
    subst hops
    have hval := value_commit_setValue (.assertValue c :: opss.flatten) hc
    refine ⟨fun k => ?_, fun v hv => hw v (by rw [hval] at hv; cases hv; rfl)⟩
    rw [hentries, hval]
    simpa [Operation.entryOp?] using lookup_updateEntries ctx tenantId s.entries hshape hsep
      (h.aclsDistinct c hcur) (hw n rfl) hu (fun k => by rw [h.entries_eq, hcur]) k
  | delete =>
    obtain ⟨c, hcur, rfl⟩ := Option.map_eq_some_iff.mp hb
    simp only [ObjectIndexBuilder.build, Option.some.injEq] at hops
    subst hops
    have hval := value_commit_clearValue
      (.assertValue c :: (indexValues c).flatMap (buildIndex ctx tenantId false)) hc
    refine ⟨fun k => ?_, fun v hv => by simp [hval] at hv⟩
    rw [hentries, hval]
    simpa [Operation.entryOp?, inducedEntries] using lookup_deleteEntries ctx tenantId s.entries hsep
      (fun k => by rw [h.entries_eq, hcur]) k

theorem write_isSome (hshape : Shaped N) {s : DocumentStore N} {w : DocumentWrite N}
    (hfit : (s.builder tenantId w).isSome) : (s.write ctx tenantId w).isSome := by
  obtain ⟨b, hb⟩ := Option.isSome_iff_exists.mp hfit
  have hwrite : s.write ctx tenantId w = (b.build ctx).bind s.commit := by
    simp only [write, hb]
    rfl
  rw [hwrite]
  cases w with
  | insert n =>
    simp only [builder] at hb
    split at hb
    · simp only [Option.some.injEq] at hb
      subst hb
      refine commit_isSome fun op hop => ?_
      simp only [List.mem_append, List.mem_flatMap, List.mem_singleton] at hop
      rcases hop with ⟨iv, -, hop⟩ | rfl
      · exact isAssert_of_mem_buildIndex ctx tenantId hop
      · rfl
    · cases hb
  | update n =>
    obtain ⟨c, hcur, rfl⟩ := Option.map_eq_some_iff.mp hb
    obtain ⟨hlen, hzip⟩ := List.forall₂_iff_zip.mp (hshape c n)
    obtain ⟨opss, hu⟩ := Option.isSome_iff_exists.mp (List.mapM_option_isSome
      (f := fun p : IndexValue × IndexValue => (updateIndex ctx tenantId p.1 p.2 :
        Option (List (Operation N))))
      fun p hp => updateIndex_isSome ctx tenantId (hzip hp))
    have hbuild : (⟨tenantId, some c, some n, by simp⟩ : ObjectIndexBuilder N).build ctx =
        some (.assertValue c :: opss.flatten ++ [.setValue n]) := by
      simp only [ObjectIndexBuilder.build, hu]
      rfl
    rw [hbuild, Option.bind_some, List.cons_append, commit_assertValue hcur]
    refine commit_isSome fun op hop => ?_
    simp only [List.mem_append, List.mem_flatten, List.mem_singleton] at hop
    rcases hop with ⟨ops, hops, hop⟩ | rfl
    · rw [List.mapM_option_eq_some [] hu] at hops
      obtain ⟨p, hp, rfl⟩ := List.mem_map.mp hops
      obtain ⟨ops', hops'⟩ := Option.isSome_iff_exists.mp
        (updateIndex_isSome (N := N) ctx tenantId (hzip hp))
      rw [hops', Option.getD_some] at hop
      exact isAssert_of_mem_updateIndex ctx tenantId hops' hop
    · rfl
  | delete =>
    obtain ⟨c, hcur, rfl⟩ := Option.map_eq_some_iff.mp hb
    have hbuild : (⟨tenantId, some c, none, by simp⟩ : ObjectIndexBuilder N).build ctx =
        some (.assertValue c :: (indexValues c).flatMap (buildIndex ctx tenantId false) ++
          [.clearValue]) := rfl
    rw [hbuild, Option.bind_some, List.cons_append, commit_assertValue hcur]
    refine commit_isSome fun op hop => ?_
    simp only [List.mem_append, List.mem_flatMap, List.mem_singleton] at hop
    rcases hop with ⟨iv, -, hop⟩ | rfl
    · exact isAssert_of_mem_buildIndex ctx tenantId hop
    · rfl

theorem Consistent.run (hshape : Shaped N) (hsep : Separated N) {s : DocumentStore N}
    {ws : List (DocumentWrite N)} (h : s.Consistent)
    (hws : ∀ w ∈ ws, ∀ v, w.changes? = some v → AclsDistinct v) :
    (s.run ctx tenantId ws).Consistent := by
  induction ws generalizing s with
  | nil => exact h
  | cons w ws ih =>
    have hw := hws w (by simp)
    have hrest : ∀ w ∈ ws, ∀ v, w.changes? = some v → AclsDistinct v :=
      fun w' hw' => hws w' (by simp [hw'])
    show (((s.write ctx tenantId w).getD s).run ctx tenantId ws).Consistent
    cases hs' : s.write ctx tenantId w with
    | none => exact ih h hrest
    | some s' => exact ih (h.write ctx tenantId hshape hsep hw hs') hrest

/-- A store with no value and no entries. -/
def empty : DocumentStore N := ⟨none, ∅, fun _ => 0⟩

omit [DecidableEq N] in
theorem empty_consistent : (empty : DocumentStore N).Consistent :=
  ⟨fun _ => rfl, fun _ h => by cases h⟩

end DocumentStore

end EsmpServer.Storage
