import EsmpServer.Email.Thread

/-!
# What `find_or_merge_thread` finds

The scans of `find_or_merge_thread` find the messages related to the new one:
the same thread name, as indexed, and a reference in common (`Related`). That
needs three conditions, which the amended statement of the threading invariant
makes:

* at most one `Subject` field in a message: ingestion reads the last one whose
  thread name is not empty, the index the last one;
* no zero byte in an id: the scan strips a trailing zero as the `Message-ID`
  marker, and a zero inside the largest reference lets keys of a smaller one
  that is its prefix pass the end of the scan;
* document ids below `2^24`: the scan ends at the largest reference followed by
  `u32::MAX`, and a key of a reference that is a proper prefix of it lies past
  that end when the first byte of its document id passes the next byte of the
  largest reference.

Then `find_or_merge_thread` answers `Create` exactly when no message is related
to the new one, and otherwise the thread of a related message, after moving to
it every message of the threads of the related ones (`findOrMergeThread_spec`).
-/

namespace EsmpServer.Email

/-- What the amended statement asks of a message: at most one `Subject` field,
and no zero byte in an id. -/
structure Threadable (headers : List Header) : Prop where
  subject_le_one : (headers.filter Header.isSubject).length ≤ 1
  zero_not_mem : ∀ h ∈ headers, ∀ id ∈ h.ids, 0 ∉ asBytes id

/-- What the lookup needs of the stored messages: distinct document ids below
`2^24`, thread ids below `u32::MAX`, and messages as the amended statement asks. -/
structure ThreadStore.WellIndexed (s : ThreadStore) : Prop where
  nodup : (s.emails.map EmailItem.documentId).Nodup
  documentId_lt : ∀ e ∈ s.emails, e.documentId < 2 ^ 24
  threadId_lt : ∀ e ∈ s.emails, e.threadId < u32Max
  threadable : ∀ e ∈ s.emails, Threadable e.headers

theorem ThreadStore.WellIndexed.documentId_lt_u32 {s : ThreadStore} (hs : s.WellIndexed)
    {e : EmailItem} (he : e ∈ s.emails) : e.documentId < 2 ^ 32 :=
  lt_trans (hs.documentId_lt e he) (by decide)

theorem ThreadStore.WellIndexed.eq_of_documentId {s : ThreadStore} (hs : s.WellIndexed)
    {e e' : EmailItem} (he : e ∈ s.emails) (he' : e' ∈ s.emails)
    (h : e.documentId = e'.documentId) : e = e' :=
  List.inj_on_of_nodup_map hs.nodup he he' h

section Threading

variable (threadName : String → String)

/-- The edges of the threading graph: the same thread name, as indexed, and a
reference in common. -/
def Related (h₁ h₂ : List Header) : Prop :=
  indexSubject threadName h₁ = indexSubject threadName h₂ ∧
    ∃ r ∈ ingestReferences h₁, r ∈ ingestReferences h₂

instance (h₁ h₂ : List Header) : Decidable (Related threadName h₁ h₂) :=
  inferInstanceAs (Decidable (_ ∧ _))

variable {threadName}

theorem Related.symm {h₁ h₂ : List Header} (h : Related threadName h₁ h₂) :
    Related threadName h₂ h₁ := by
  obtain ⟨hname, r, hr₁, hr₂⟩ := h
  exact ⟨hname.symm, r, hr₂, hr₁⟩

/-! ## The thread name -/

theorem threadNameStep_of_isSubject_false {subject : String} {h : Header}
    (hh : h.isSubject = false) : threadNameStep threadName subject h = subject := by
  cases h <;> simp_all [threadNameStep, Header.isSubject]

theorem foldl_threadNameStep_of_forall {l : List Header} (hl : ∀ h ∈ l, h.isSubject = false)
    (subject : String) : l.foldl (threadNameStep threadName) subject = subject := by
  induction l with
  | nil => rfl
  | cons h l ih =>
    rw [List.foldl_cons, threadNameStep_of_isSubject_false (hl h List.mem_cons_self)]
    exact ih fun h' hh' => hl h' (List.mem_cons_of_mem _ hh')

theorem lookupName_ingestThreadName {headers : List Header}
    (h : (headers.filter Header.isSubject).length ≤ 1) :
    lookupName (ingestThreadName threadName headers) = indexSubject threadName headers := by
  unfold ingestThreadName indexSubject
  rw [← List.length_reverse, ← List.filter_reverse] at h
  generalize headers.reverse = l at h ⊢
  induction l with
  | nil => rfl
  | cons x l ih =>
    cases hx : x.isSubject
    · rw [List.foldl_cons, threadNameStep_of_isSubject_false hx,
        List.find?_cons_of_neg (by simp [hx])]
      exact ih (by simpa [List.filter_cons, hx] using h)
    · obtain ⟨text, rfl⟩ : ∃ text, x = .subject text := by
        cases x <;> simp_all [Header.isSubject]
      have hrest : ∀ h ∈ l, h.isSubject = false := by
        have : (l.filter Header.isSubject).length = 0 := by
          simpa [List.filter_cons, Header.isSubject] using h
        simpa [List.filter_eq_nil_iff] using this
      have hempty : (trimText (threadName text) maxSortFieldLength).isEmpty =
          (threadName text).isEmpty := by
        rw [Bool.eq_iff_iff, String.isEmpty_iff, String.isEmpty_iff, trimText_eq_empty_iff]
      rw [List.foldl_cons, List.find?_cons_of_pos rfl, foldl_threadNameStep_of_forall hrest]
      simp [threadNameStep, lookupName, hempty]

/-! ## References -/

section Ids

variable {headers : List Header}

theorem mem_ingestReferences {r : List ℕ} :
    r ∈ ingestReferences headers ↔ ∃ h ∈ headers, ∃ id ∈ h.ids,
      asBytes id ≠ [] ∧ (asBytes id).length < maxIdLength ∧ asBytes id = r := by
  simp [ingestReferences, and_assoc]

theorem mem_indexReferences {v : List ℕ} :
    v ∈ indexReferences headers ↔ ∃ h ∈ headers, ∃ id ∈ h.ids,
      (asBytes id).length < maxIdLength ∧
        (if h.isMessageId then encodeMessageId id else asBytes id) = v := by
  simp [indexReferences, and_assoc]

theorem stripMarker_indexValue (header : Header) {id : String} (h : 0 ∉ asBytes id) :
    stripMarker (if header.isMessageId then encodeMessageId id else asBytes id) = asBytes id := by
  split
  · exact stripMarker_encodeMessageId id
  · exact stripMarker_of_zero_not_mem h

variable (hz : ∀ h ∈ headers, ∀ id ∈ h.ids, 0 ∉ asBytes id)
include hz

theorem mem_ingestReferences_iff {r : List ℕ} :
    r ∈ ingestReferences headers ↔ r ≠ [] ∧ ∃ v ∈ indexReferences headers, stripMarker v = r := by
  rw [mem_ingestReferences]
  constructor
  · rintro ⟨h, hh, id, hid, hne, hlen, rfl⟩
    exact ⟨hne, _, mem_indexReferences.mpr ⟨h, hh, id, hid, hlen, rfl⟩,
      stripMarker_indexValue h (hz h hh id hid)⟩
  · rintro ⟨hne, v, hv, rfl⟩
    obtain ⟨h, hh, id, hid, hlen, rfl⟩ := mem_indexReferences.mp hv
    rw [stripMarker_indexValue h (hz h hh id hid)] at hne ⊢
    exact ⟨h, hh, id, hid, hne, hlen, rfl⟩

theorem indexReferences_shape {v : List ℕ} (hv : v ∈ indexReferences headers) :
    0 ∉ stripMarker v ∧ (v = stripMarker v ++ [0] ∨ v = stripMarker v) := by
  obtain ⟨h, hh, id, hid, -, rfl⟩ := mem_indexReferences.mp hv
  rw [stripMarker_indexValue h (hz h hh id hid)]
  refine ⟨hz h hh id hid, ?_⟩
  split
  · exact .inl rfl
  · exact .inr rfl

theorem zero_not_mem_of_mem_ingestReferences {r : List ℕ} (hr : r ∈ ingestReferences headers) :
    0 ∉ r := by
  obtain ⟨h, hh, id, hid, -, -, rfl⟩ := mem_ingestReferences.mp hr
  exact hz h hh id hid

end Ids

/-! ## The indexes and their scans -/

section Scans

variable {emails : List EmailItem}

theorem mem_subjectIndex {k : List ℕ} :
    k ∈ subjectIndex threadName emails ↔
      ∃ e ∈ emails, indexKey (asBytes (indexSubject threadName e.headers)) e.documentId = k := by
  simp [subjectIndex, List.mem_insertionSort]

theorem pairwise_subjectIndex : (subjectIndex threadName emails).Pairwise (· ≤ ·) :=
  List.pairwise_insertionSort _ _

theorem mem_referenceIndex {k : List ℕ} :
    k ∈ referenceIndex emails ↔
      ∃ e ∈ emails, ∃ v ∈ indexReferences e.headers, indexKey v e.documentId = k := by
  simp [referenceIndex, List.mem_insertionSort]

theorem pairwise_referenceIndex : (referenceIndex emails).Pairwise (· ≤ ·) :=
  List.pairwise_insertionSort _ _

theorem mem_subjectScan (hlt : ∀ e ∈ emails, e.documentId < 2 ^ 32) {name : String} {d : ℕ} :
    d ∈ subjectScan (subjectIndex threadName emails) (asBytes name) ↔
      ∃ e ∈ emails, e.documentId = d ∧ indexSubject threadName e.headers = name := by
  simp only [subjectScan, List.mem_toFinset, List.mem_map, List.mem_filter,
    mem_iterateRange pairwise_subjectIndex, mem_subjectIndex, decide_eq_true_eq]
  constructor
  · rintro ⟨k, ⟨⟨⟨e, he, rfl⟩, -, -⟩, hval⟩, rfl⟩
    rw [keyValue_indexKey] at hval
    exact ⟨e, he, (keyDocumentId_indexKey _ (hlt e he)).symm, asBytes_injective hval⟩
  · rintro ⟨e, he, rfl, rfl⟩
    exact ⟨_, ⟨⟨⟨e, he, rfl⟩, indexKey_mem_range _ _⟩, keyValue_indexKey _ _⟩,
      keyDocumentId_indexKey _ (hlt e he)⟩

theorem referenceScan_eq {subj results : Finset ℕ} {refs : List (List ℕ)} (keys : List (List ℕ))
    (hsub : results ⊆ subj) :
    referenceScan subj refs keys results = results ∪ subj.filter fun d =>
      ∃ k ∈ keys, keyDocumentId k = d ∧ stripMarker (keyValue k) ∈ refs := by
  induction keys generalizing results with
  | nil => simp [referenceScan]
  | cons k keys ih =>
    simp only [referenceScan]
    split_ifs with hk hcard
    · -- every message with the thread name is found, and the scan stops
      have hall : insert (keyDocumentId k) results = subj :=
        Finset.eq_of_subset_of_card_le (Finset.insert_subset hk.1 hsub) hcard.le
      rw [hall]
      refine le_antisymm (fun d hd => ?_) (Finset.union_subset hsub (Finset.filter_subset _ _))
      rw [← hall, Finset.mem_insert] at hd
      rcases hd with rfl | hd
      · exact Finset.mem_union_right _
          (Finset.mem_filter.mpr ⟨hk.1, k, List.mem_cons_self, rfl, hk.2⟩)
      · exact Finset.mem_union_left _ hd
    · rw [ih (Finset.insert_subset hk.1 hsub)]
      ext d
      simp only [Finset.mem_union, Finset.mem_insert, Finset.mem_filter, List.mem_cons,
        exists_eq_or_imp]
      constructor
      · rintro ((rfl | hd) | ⟨hd, hkeys⟩)
        · exact .inr ⟨hk.1, .inl ⟨rfl, hk.2⟩⟩
        · exact .inl hd
        · exact .inr ⟨hd, .inr hkeys⟩
      · rintro (hd | ⟨hd, ⟨rfl, -⟩ | hkeys⟩)
        · exact .inl (.inr hd)
        · exact .inl (.inl rfl)
        · exact .inr ⟨hd, hkeys⟩
    · rw [ih hsub]
      ext d
      simp only [Finset.mem_union, Finset.mem_filter, List.mem_cons, exists_eq_or_imp]
      constructor
      · rintro (hd | ⟨hd, hkeys⟩)
        · exact .inl hd
        · exact .inr ⟨hd, .inr hkeys⟩
      · rintro (hd | ⟨hd, ⟨rfl, hstrip⟩ | hkeys⟩)
        · exact .inl hd
        · exact absurd ⟨hd, hstrip⟩ hk
        · exact .inr ⟨hd, hkeys⟩

theorem indexKey_mem_iterateRange {refs : List (List ℕ)} (hsorted : refs.Pairwise (· ≤ ·))
    (hz : ∀ r ∈ refs, 0 ∉ r) {r v : List ℕ} (hr : r ∈ refs) (hv : v = r ++ [0] ∨ v = r)
    {d : ℕ} (hd : d < 2 ^ 24) :
    refs.head! ++ be32 0 ≤ indexKey v d ∧ indexKey v d ≤ refs.getLast! ++ be32 u32Max := by
  have hne : refs ≠ [] := List.ne_nil_of_mem hr
  have hlast : refs.getLast! = refs.getLast hne := by
    simp [List.getLast?_eq_some_getLast hne]
  obtain ⟨w, hw, hkey⟩ : ∃ w : List ℕ, 3 ≤ w.length ∧ indexKey v d = r ++ 0 :: w := by
    rcases hv with rfl | rfl
    · exact ⟨be32 d, by simp, by simp [indexKey]⟩
    · exact ⟨[_, _, _], le_rfl, by rw [indexKey, be32_of_lt hd]⟩
  rw [hkey]
  constructor
  · rw [be32_zero]
    exact List.append_replicate_zero_le (hsorted.head!_le hr) (by simp; omega)
  · rw [be32_u32Max, List.replicate_succ, hlast]
    refine List.append_zero_le_append (hsorted.rel_getLast hr) (fun c u hcu => ?_) (by decide)
    have hc : c ∈ refs.getLast hne := by rw [hcu]; simp
    exact Nat.pos_of_ne_zero fun h0 => hz _ (List.getLast_mem hne) (h0 ▸ hc)

end Scans

/-! ## Counting and moving threads -/

theorem countThreads_fst (results : Finset ℕ) (items : List EmailItem) (acc : List ℕ × ℕ × ℕ) :
    (countThreads results items acc).1 =
      acc.1 ++ (items.filter fun e => e.documentId ∈ results).map EmailItem.threadId := by
  induction items generalizing acc with
  | nil => simp [countThreads]
  | cons item items ih =>
    obtain ⟨threadCounts, threadId, threadCount⟩ := acc
    simp only [countThreads]
    split_ifs with hmem <;> simp [ih, hmem]

/-- The invariant of the counting loop: nothing counted and no thread chosen, or
a counted thread chosen. -/
def CountInv (acc : List ℕ × ℕ × ℕ) : Prop :=
  (acc.1 = [] ∧ acc.2.1 = u32Max ∧ acc.2.2 = 0) ∨ (acc.2.1 ∈ acc.1 ∧ 0 < acc.2.2)

theorem countInv_countThreads (results : Finset ℕ) (items : List EmailItem)
    {acc : List ℕ × ℕ × ℕ} (h : CountInv acc) : CountInv (countThreads results items acc) := by
  induction items generalizing acc with
  | nil => exact h
  | cons item items ih =>
    obtain ⟨threadCounts, threadId, threadCount⟩ := acc
    have hcount : 0 < (threadCounts ++ [item.threadId]).count item.threadId :=
      List.count_pos_iff.mpr (by simp)
    simp only [countThreads]
    split_ifs with hmem hgt
    · exact ih (.inr ⟨by simp, by omega⟩)
    · refine ih (.inr ?_)
      rcases h with ⟨-, -, h0⟩ | ⟨hchosen, hpos⟩
      · simp only at h0
        omega
      · exact ⟨List.mem_append_left _ hchosen, hpos⟩
    · exact ih h

theorem countThreads_threadId (results : Finset ℕ) (items : List EmailItem) :
    ((countThreads results items ([], u32Max, 0)).1 = [] ∧
        (countThreads results items ([], u32Max, 0)).2.1 = u32Max) ∨
      (countThreads results items ([], u32Max, 0)).2.1 ∈ (countThreads results items ([], u32Max, 0)).1 := by
  rcases countInv_countThreads results items
      (.inl ⟨rfl, rfl, rfl⟩ : CountInv ([], u32Max, 0)) with ⟨h1, h2, -⟩ | ⟨h, -⟩
  · exact .inl ⟨h1, h2⟩
  · exact .inr h

theorem mergeThreads_of_card_one {threadCounts : List ℕ} {t : ℕ} (items : List EmailItem)
    (h : threadCounts.toFinset.card = 1) (ht : t ∈ threadCounts) :
    mergeThreads threadCounts t items = items := by
  have hsingle : ∀ x ∈ threadCounts, x = t := by
    obtain ⟨a, ha⟩ := Finset.card_eq_one.mp h
    intro x hx
    have hx' : x ∈ threadCounts.toFinset := List.mem_toFinset.mpr hx
    have ht' : t ∈ threadCounts.toFinset := List.mem_toFinset.mpr ht
    rw [ha, Finset.mem_singleton] at hx' ht'
    rw [hx', ht']
  unfold mergeThreads
  conv_rhs => rw [← List.map_id items]
  refine List.map_congr_left fun item _ => if_pos ?_
  by_cases hin : item.threadId ∈ threadCounts
  · exact .inl (hsingle _ hin).symm
  · exact .inr hin

/-! ## What `find_or_merge_thread` finds -/

variable (threadName) in
/-- The threads of the messages related to the new one, in the order of the cache. -/
def relatedThreads (s : ThreadStore) (m : List Header) : List ℕ :=
  (s.emails.filter fun e => Related threadName e.headers m).map EmailItem.threadId

theorem relatedThreads_eq_nil {s : ThreadStore} {m : List Header}
    (h : ∀ e ∈ s.emails, ¬ Related threadName e.headers m) : relatedThreads threadName s m = [] := by
  simpa [relatedThreads, List.filter_eq_nil_iff] using h

theorem mem_relatedThreads {s : ThreadStore} {m : List Header} {t : ℕ} :
    t ∈ relatedThreads threadName s m ↔
      ∃ e ∈ s.emails, Related threadName e.headers m ∧ e.threadId = t := by
  simp [relatedThreads, and_assoc]

section Found

variable {s : ThreadStore} (hs : s.WellIndexed) {m : List Header} (hm : Threadable m)
include hs hm

theorem mem_subjectResults {d : ℕ} :
    d ∈ subjectResults threadName s.emails (ingestThreadName threadName m) ↔
      ∃ e ∈ s.emails, e.documentId = d ∧
        indexSubject threadName e.headers = indexSubject threadName m := by
  rw [subjectResults, lookupName_ingestThreadName hm.subject_le_one,
    mem_subjectScan fun e he => hs.documentId_lt_u32 he]

theorem mem_referenceResults {subj : Finset ℕ} {d : ℕ} :
    d ∈ referenceResults s.emails subj ((ingestReferences m).insertionSort (· ≤ ·)) ↔
      d ∈ subj ∧ ∃ e ∈ s.emails, e.documentId = d ∧
        ∃ r ∈ ingestReferences e.headers, r ∈ ingestReferences m := by
  have hsorted : ((ingestReferences m).insertionSort (· ≤ ·)).Pairwise (· ≤ ·) :=
    List.pairwise_insertionSort _ _
  have hz : ∀ r ∈ (ingestReferences m).insertionSort (· ≤ ·), 0 ∉ r := fun r hr =>
    zero_not_mem_of_mem_ingestReferences hm.zero_not_mem ((List.mem_insertionSort _).mp hr)
  rw [referenceResults, referenceScan_eq _ (Finset.empty_subset _), Finset.empty_union,
    Finset.mem_filter]
  refine and_congr_right fun _ => ?_
  simp only [mem_iterateRange pairwise_referenceIndex, mem_referenceIndex]
  constructor
  · rintro ⟨k, ⟨⟨e, he, v, hv, rfl⟩, -⟩, rfl, hstrip⟩
    rw [keyValue_indexKey, List.mem_insertionSort] at hstrip
    have hne : stripMarker v ≠ [] :=
      ((mem_ingestReferences_iff hm.zero_not_mem).mp hstrip).1
    exact ⟨e, he, (keyDocumentId_indexKey _ (hs.documentId_lt_u32 he)).symm, stripMarker v,
      (mem_ingestReferences_iff (hs.threadable e he).zero_not_mem).mpr ⟨hne, v, hv, rfl⟩, hstrip⟩
  · rintro ⟨e, he, rfl, r, hr, hrm⟩
    obtain ⟨-, v, hv, rfl⟩ := (mem_ingestReferences_iff (hs.threadable e he).zero_not_mem).mp hr
    have hsorted_mem := (List.mem_insertionSort (· ≤ ·)).mpr hrm
    exact ⟨indexKey v e.documentId, ⟨⟨e, he, v, hv, rfl⟩,
      indexKey_mem_iterateRange hsorted hz hsorted_mem
        (indexReferences_shape (hs.threadable e he).zero_not_mem hv).2 (hs.documentId_lt e he)⟩,
      keyDocumentId_indexKey _ (hs.documentId_lt_u32 he), by rwa [keyValue_indexKey]⟩

theorem mem_found {d : ℕ} :
    d ∈ referenceResults s.emails (subjectResults threadName s.emails (ingestThreadName threadName m))
        ((ingestReferences m).insertionSort (· ≤ ·)) ↔
      ∃ e ∈ s.emails, e.documentId = d ∧ Related threadName e.headers m := by
  rw [mem_referenceResults hs hm, mem_subjectResults hs hm]
  constructor
  · rintro ⟨⟨e, he, rfl, hname⟩, e', he', hdoc, hrefs⟩
    obtain rfl := hs.eq_of_documentId he' he hdoc
    exact ⟨e', he', rfl, hname, hrefs⟩
  · rintro ⟨e, he, rfl, hname, hrefs⟩
    exact ⟨⟨e, he, rfl, hname⟩, e, he, rfl, hrefs⟩

theorem countThreads_found :
    (countThreads (referenceResults s.emails (subjectResults threadName s.emails
        (ingestThreadName threadName m)) ((ingestReferences m).insertionSort (· ≤ ·)))
      s.emails ([], u32Max, 0)).1 = relatedThreads threadName s m := by
  rw [countThreads_fst, List.nil_append, relatedThreads]
  congr 1
  refine List.filter_congr fun e he => ?_
  rw [decide_eq_decide, mem_found hs hm]
  constructor
  · rintro ⟨e', he', hdoc, hrel⟩
    obtain rfl := hs.eq_of_documentId he' he hdoc
    exact hrel
  · exact fun hrel => ⟨e, he, rfl, hrel⟩

theorem findOrMergeThread_spec :
    (relatedThreads threadName s m = [] ∧
        findOrMergeThread threadName s (ingestThreadName threadName m) (ingestReferences m) =
          (.create, s)) ∨
      ∃ t ∈ relatedThreads threadName s m,
        findOrMergeThread threadName s (ingestThreadName threadName m) (ingestReferences m) =
          (.id t, { s with emails := mergeThreads (relatedThreads threadName s m) t s.emails }) := by
  have hcounts := @countThreads_found threadName s hs m hm
  have hchosen := countThreads_threadId (referenceResults s.emails (subjectResults threadName
    s.emails (ingestThreadName threadName m)) ((ingestReferences m).insertionSort (· ≤ ·))) s.emails
  unfold findOrMergeThread
  dsimp only
  generalize countThreads (referenceResults s.emails (subjectResults threadName s.emails
    (ingestThreadName threadName m)) ((ingestReferences m).insertionSort (· ≤ ·))) s.emails
      ([], u32Max, 0) = c at hcounts hchosen ⊢
  obtain ⟨threadCounts, threadId, _⟩ := c
  dsimp only at hcounts hchosen ⊢
  subst hcounts
  split_ifs with hrefs hsubj hres hmax hcard
  · -- no reference: nothing is related
    refine .inl ⟨relatedThreads_eq_nil fun e _ hrel => ?_, rfl⟩
    obtain ⟨-, r, -, hr⟩ := hrel
    simp [List.isEmpty_iff.mp hrefs] at hr
  · -- no message with the thread name
    refine .inl ⟨relatedThreads_eq_nil fun e he hrel => ?_, rfl⟩
    have hfound := (mem_subjectResults hs hm).mpr ⟨e, he, rfl, hrel.1⟩
    simp [hsubj] at hfound
  · -- no message found
    refine .inl ⟨relatedThreads_eq_nil fun e he hrel => ?_, rfl⟩
    have hfound := (mem_found hs hm).mpr ⟨e, he, rfl, hrel⟩
    simp [hres] at hfound
  · -- no thread chosen: no thread counted, as thread ids are below `u32::MAX`
    refine .inl ⟨?_, rfl⟩
    rcases hchosen with ⟨h, -⟩ | hmem
    · exact h
    · obtain ⟨e, he, -, rfl⟩ := mem_relatedThreads.mp hmem
      exact absurd hmax (hs.threadId_lt e he).ne
  · have ht := hchosen.resolve_left fun h => hmax h.2
    exact .inr ⟨threadId, ht, by rw [mergeThreads_of_card_one _ hcard ht]⟩
  · exact .inr ⟨threadId, hchosen.resolve_left fun h => hmax h.2, rfl⟩

end Found

end Threading

end EsmpServer.Email
