import EsmpServer.Query.Pagination
import EsmpServer.Query.IndexRange

/-!
# `Store::sort`

`Store::sort` (store/query/sort.rs) orders a result set by a list of comparators and
feeds the ordered ids to a `Pagination`. It has three branches.

With one comparator and prefixes not unique, it streams: a `Field` comparator scans the
field's index in the requested direction and gives each result the first time its id is
met, then the results without an entry, in id order; a `DocumentSet` gives the results
in the set first when ascending, last otherwise; a `SortedList` gives the results that
are in the list, in list order or reversed. The prefixes are added to the page after it
is built.

With several comparators it builds a table of ranks, one column per comparator (at most
four). A `Field` column numbers the distinct values met in the scan and gives the
results without an entry one rank past the last; when every result had an entry and no
two shared a value, the columns after it are not built. The results ranked are then
sorted by their ranks and their ids, and go through the loop of the last branch.

Otherwise, with no comparator or with one comparator and prefixes unique, the last
branch walks the results in id order: the comparator is never read
(`sort_single_prefixUnique`).
-/

namespace EsmpServer.Query

open Email (keyDocumentId)

/-- `Comparator`; a `DocumentSet`'s bitmap is held as the list of its ids. -/
inductive Comparator where
  | field (field : UInt8) (ascending : Bool)
  | documentSet (set : List ℕ) (ascending : Bool)
  | sortedList (list : List ℕ) (ascending : Bool)
  deriving DecidableEq, Repr

/-- The ids of the results in a set and out of it, `results & set` and
`results ^ (results & set)`, each in id order. -/
def splitBySet (results set : List ℕ) : List ℕ × List ℕ :=
  (results.filter (· ∈ set), results.filter (· ∉ set))

/-! ## One comparator -/

/-- Adding ids to the page until it answers `false`; the flag says whether the loop ran
to the end. -/
def addLoop : List ℕ → Pagination → Pagination × Bool
  | [], p => (p, true)
  | id :: ids, p =>
    match p.add 0 id with
    | (p, true) => addLoop ids p
    | (p, false) => (p, false)

theorem addLoop_nil (p : Pagination) : addLoop [] p = (p, true) := rfl

theorem addLoop_cons_true {id : ℕ} {ids : List ℕ} {p q : Pagination} (h : p.add 0 id = (q, true)) :
    addLoop (id :: ids) p = addLoop ids q := by
  simp only [addLoop, h]

theorem addLoop_cons_false {id : ℕ} {ids : List ℕ} {p q : Pagination} (h : p.add 0 id = (q, false)) :
    addLoop (id :: ids) p = (q, false) := by
  simp only [addLoop, h]

/-- The callback of the one-comparator scan: a result met for the first time leaves the
results for the page, whose answer goes on with the scan. -/
def streamCallback (key : List ℕ) (st : List ℕ × Pagination) :
    Except (List ℕ) ((List ℕ × Pagination) × Bool) :=
  let documentId := keyDocumentId key
  if documentId ∈ st.1 then
    let added := st.2.add 0 documentId
    .ok ((st.1.erase documentId, added.1), added.2)
  else .ok (st, true)

/-- The branch of `Store::sort` for one comparator, before the page is built. -/
def sortSingle (keys : List (List ℕ)) (accountId : UInt32) (collection : UInt8)
    (resultSet : ResultSet) (comparator : Comparator) (p : Pagination) :
    Except (List ℕ) Pagination :=
  match comparator with
  | .field field ascending =>
    match iterateDirected ascending (indexKeyPrefix accountId collection field)
        (indexKeyPrefix accountId collection (field + 1)) streamCallback keys (resultSet.results, p) with
    | .error e => .error e
    | .ok (results, p) =>
      if results ≠ [] ∧ p.ids.length ≠ p.limit then .ok (addLoop results p).1 else .ok p
  | .documentSet set ascending =>
    let sets := splitBySet resultSet.results set
    let sets := if ascending then sets else (sets.2, sets.1)
    match addLoop sets.1 p with
    | (p, true) => .ok (addLoop sets.2 p).1
    | (p, false) => .ok p
  | .sortedList list ascending =>
    .ok (addLoop ((if ascending then list else list.reverse).filter (· ∈ resultSet.results)) p).1

/-- The prefixes the one-comparator branch puts into the built page: each id found in
the map, read as a `u32`, gets its prefix in the upper 32 bits. -/
def tagPrefixes (prefixMap : Option (ℕ → Option ℕ)) (sorted : SortedResultSet) : SortedResultSet :=
  match prefixMap with
  | none => sorted
  | some prefixOf =>
    { sorted with
      ids := sorted.ids.map fun id =>
        match prefixOf (id % 2 ^ 32) with
        | some prefixId => id ||| (prefixId <<< 32)
        | none => id }

/-! ## Several comparators -/

/-- `sorted_ids.entry(document_id).or_insert([0; 4])[pos] = idx`, on the table of ranks
held as a list of ids and their four ranks. -/
def setRank (ranks : List (ℕ × List ℕ)) (pos documentId idx : ℕ) : List (ℕ × List ℕ) :=
  if ranks.any (·.1 == documentId) then
    ranks.map fun r => if r.1 = documentId then (r.1, r.2.set pos idx) else r
  else ranks ++ [(documentId, [0, 0, 0, 0].set pos idx)]

/-- What the scan of a `Field` column carries. -/
structure RankScan where
  results : List ℕ
  prevData : List ℕ
  hasGroupedIds : Bool
  idx : ℕ
  ranks : List (ℕ × List ℕ)

/-- The callback of a `Field` column: a result met for the first time gets the rank of
its value, a new rank when the value differs from the last one ranked; the scan stops
when every result is ranked. A key too short for a value is the `corrupted_key`
error. -/
def rankCallback (pos : ℕ) (key : List ℕ) (st : RankScan) : Except (List ℕ) (RankScan × Bool) :=
  let documentId := keyDocumentId key
  if documentId ∈ st.results then
    let results := st.results.erase documentId
    if key.length - 4 < indexKeyPrefixLen then .error key
    else
      let data := indexKeyValue key
      let st := if data ≠ st.prevData then { st with idx := st.idx + 1, prevData := data }
        else { st with hasGroupedIds := true }
      .ok ({ st with results, ranks := setRank st.ranks pos documentId st.idx }, results ≠ [])
  else .ok (st, true)

/-- The column `pos` of the table of ranks. The flag is `false` for the `break` taken
when a `Field` column left no result unranked and no two results tied. -/
def rankColumn (keys : List (List ℕ)) (accountId : UInt32) (collection : UInt8)
    (resultSet : ResultSet) (pos : ℕ) (comparator : Comparator) (ranks : List (ℕ × List ℕ)) :
    Except (List ℕ) (List (ℕ × List ℕ) × Bool) :=
  match comparator with
  | .field field ascending =>
    match iterateDirected ascending (indexKeyPrefix accountId collection field)
        (indexKeyPrefix accountId collection (field + 1)) (rankCallback pos) keys
        ⟨resultSet.results, [], false, 0, ranks⟩ with
    | .error e => .error e
    | .ok st =>
      if st.results ≠ [] then
        .ok (st.results.foldl (fun ranks id => setRank ranks pos id (st.idx + 1)) st.ranks, true)
      else if st.hasGroupedIds then .ok (st.ranks, true)
      else .ok (st.ranks, false)
  | .documentSet set ascending =>
    let sets := splitBySet resultSet.results set
    let sets := if ascending then [(sets.1, 0), (sets.2, 1)] else [(sets.2, 0), (sets.1, 1)]
    .ok (sets.foldl (fun ranks s => s.1.foldl (fun ranks id => setRank ranks pos id s.2) ranks) ranks,
      true)
  | .sortedList list ascending =>
    .ok ((((if ascending then list else list.reverse).zipIdx).filter (·.1 ∈ resultSet.results)).foldl
      (fun ranks e => setRank ranks pos e.1 e.2) ranks, true)

/-- The loop over the columns, `comparators.into_iter().take(4).enumerate()`. -/
def rankLoop (keys : List (List ℕ)) (accountId : UInt32) (collection : UInt8)
    (resultSet : ResultSet) : List (Comparator × ℕ) → List (ℕ × List ℕ) →
    Except (List ℕ) (List (ℕ × List ℕ))
  | [], ranks => .ok ranks
  | (comparator, pos) :: cs, ranks =>
    match rankColumn keys accountId collection resultSet pos comparator ranks with
    | .error e => .error e
    | .ok (ranks, true) => rankLoop keys accountId collection resultSet cs ranks
    | .ok (ranks, false) => .ok ranks

/-- The order of the table of ranks: the ranks, then the id. -/
def rankLe (a b : ℕ × List ℕ) : Bool := a.2 < b.2 ∨ (a.2 = b.2 ∧ a.1 ≤ b.1)

/-! ## The three branches -/

/-- `Store::sort`, with the pagination's prefix map and `prefix_unique` flag; the error
is a corrupted index key. -/
def sort (keys : List (List ℕ)) (accountId : UInt32) (collection : UInt8)
    (resultSet : ResultSet) (comparators : List Comparator) (paginate : Pagination)
    (prefixMap : Option (ℕ → Option ℕ)) (prefixUnique : Bool) : Except (List ℕ) SortedResultSet :=
  if resultSet.results = [] then .ok ⟨paginate.position, [], true⟩
  else
    let paginate := { paginate with limit := pageLimit resultSet.results.length paginate.limit }
    match comparators, prefixUnique with
    | [comparator], false =>
      (sortSingle keys accountId collection resultSet comparator paginate).map fun p =>
        tagPrefixes prefixMap p.build
    | _, _ =>
      if 1 < comparators.length then
        (rankLoop keys accountId collection resultSet (comparators.take 4).zipIdx []).map fun ranks =>
          (sortUnorderedLoop prefixMap prefixUnique ((ranks.insertionSort fun a b => rankLe a b).map Prod.fst) []
            paginate).build
      else .ok (sortUnorderedLoop prefixMap prefixUnique resultSet.results [] paginate).build

/-! ## The last branch -/

theorem sort_single_prefixUnique (keys : List (List ℕ)) (accountId : UInt32) (collection : UInt8)
    (resultSet : ResultSet) (comparator : Comparator) (paginate : Pagination)
    (prefixMap : Option (ℕ → Option ℕ)) :
    sort keys accountId collection resultSet [comparator] paginate prefixMap true =
      .ok (sortUnordered resultSet prefixMap true paginate) := by
  by_cases hempty : resultSet.results = []
  · show ite _ _ _ = Except.ok (ite _ _ _)
    rw [if_pos hempty, if_pos hempty]
  · show ite _ _ _ = Except.ok (ite _ _ _)
    rw [if_neg hempty, if_neg hempty]
    rfl

/-! ## Feeding the page -/

theorem addLoop_fst (ids : List ℕ) (p : Pagination) : (addLoop ids p).1 = p.feed ids := by
  induction ids generalizing p with
  | nil => rfl
  | cons id ids ih =>
    rcases h : p.add 0 id with ⟨q, _ | _⟩
    · rw [addLoop_cons_false h, Pagination.feed_cons, h]
    · rw [addLoop_cons_true h, Pagination.feed_cons, h, ih]

theorem addLoop_singleton (id : ℕ) (p : Pagination) : addLoop [id] p = p.add 0 id := by
  rcases h : p.add 0 id with ⟨q, _ | _⟩
  · rw [addLoop_cons_false h]
  · rw [addLoop_cons_true h, addLoop_nil]

theorem addLoop_append_of_true {xs : List ℕ} {p q : Pagination} (h : addLoop xs p = (q, true))
    (ys : List ℕ) : addLoop (xs ++ ys) p = addLoop ys q := by
  induction xs generalizing p with
  | nil =>
    rw [addLoop_nil, Prod.mk.injEq] at h
    rw [List.nil_append, h.1]
  | cons x xs ih =>
    rcases hx : p.add 0 x with ⟨p', _ | _⟩
    · rw [addLoop_cons_false hx, Prod.mk.injEq] at h
      exact absurd h.2 Bool.false_ne_true
    · rw [addLoop_cons_true hx] at h
      rw [List.cons_append, addLoop_cons_true hx]
      exact ih h

theorem addLoop_append_of_false {xs : List ℕ} {p q : Pagination} (h : addLoop xs p = (q, false))
    (ys : List ℕ) : addLoop (xs ++ ys) p = (q, false) := by
  induction xs generalizing p with
  | nil =>
    rw [addLoop_nil, Prod.mk.injEq] at h
    exact Bool.noConfusion h.2
  | cons x xs ih =>
    rw [List.cons_append]
    rcases hx : p.add 0 x with ⟨p', _ | _⟩
    · rw [addLoop_cons_false hx] at h ⊢
      exact h
    · rw [addLoop_cons_true hx] at h ⊢
      exact ih h

theorem Pagination.add_open {p : Pagination} (ha : p.hasAnchor = false) (hpos : 0 ≤ p.position)
    (hlt : p.ids.length < p.limit) (prefixId documentId : ℕ) :
    (p.add prefixId documentId).1.hasAnchor = false ∧ 0 ≤ (p.add prefixId documentId).1.position ∧
      (p.add prefixId documentId).1.limit = p.limit ∧
      ((p.add prefixId documentId).2 = true → (p.add prefixId documentId).1.ids.length < p.limit) ∧
      ((p.add prefixId documentId).2 = false → (p.add prefixId documentId).1.ids.length = p.limit) := by
  by_cases hzero : 0 < p.position
  · have hstep : p.add prefixId documentId = ({ p with position := p.position - 1 }, true) := by
      simp [Pagination.add, ha, hpos, hzero]
    rw [hstep]
    exact ⟨ha, show 0 ≤ p.position - 1 by omega, rfl, fun _ => hlt, fun h => absurd h (by simp)⟩
  · have h0 : p.position = 0 := by omega
    by_cases hfull : p.ids.length + 1 = p.limit
    · have hstep : p.add prefixId documentId =
          ({ p with ids := p.ids ++ [taggedId prefixId documentId] }, false) := by
        simp [Pagination.add, ha, h0, hfull]
      rw [hstep]
      exact ⟨ha, show 0 ≤ p.position by omega, rfl, fun h => absurd h (by simp),
        fun _ => by simpa using hfull⟩
    · have hstep : p.add prefixId documentId =
          ({ p with ids := p.ids ++ [taggedId prefixId documentId] }, true) := by
        simp [Pagination.add, ha, h0, hfull]
      rw [hstep]
      refine ⟨ha, show 0 ≤ p.position by omega, rfl, fun _ => ?_, fun h => absurd h (by simp)⟩
      show (p.ids ++ [taggedId prefixId documentId]).length < p.limit
      simp only [List.length_append, List.length_singleton]
      omega

/-! ## The scan of one comparator -/

section Stream

variable (results : List ℕ) (p : Pagination)

/-- What the one-comparator scan keeps while it goes on: the ids `met` so far went to
the page in that order, they are results, and the results left are the others. -/
def StreamOpen (s : List ℕ × Pagination) : Prop :=
  ∃ met, addLoop met p = (s.2, true) ∧ s.1 = results.filter (· ∉ met) ∧ met.Nodup ∧
    (∀ d ∈ met, d ∈ results) ∧ s.2.hasAnchor = false ∧ 0 ≤ s.2.position ∧ s.2.ids.length < s.2.limit

/-- What holds when the page stopped the scan: it is full. -/
def StreamFull (s : List ℕ × Pagination) : Prop :=
  ∃ met, addLoop met p = (s.2, false) ∧ s.1 = results.filter (· ∉ met) ∧ met.Nodup ∧
    (∀ d ∈ met, d ∈ results) ∧ s.2.ids.length = s.2.limit

variable {results p}

theorem streamCallback_step (hnodup : results.Nodup) (key : List ℕ) (s : List ℕ × Pagination)
    (hs : StreamOpen results p s) :
    ∃ s' b, streamCallback key s = .ok (s', b) ∧ (b = true → StreamOpen results p s') ∧
      (b = false → StreamFull results p s') := by
  obtain ⟨met, hloop, hleft, hmet, hsub, ha, hpos, hlt⟩ := hs
  unfold streamCallback
  by_cases hd : keyDocumentId key ∈ s.1
  · rw [if_pos hd]
    have hd' := hleft ▸ hd
    rw [List.mem_filter] at hd'
    have hnotMet : keyDocumentId key ∉ met := by simpa using hd'.2
    have hloop' : addLoop (met ++ [keyDocumentId key]) p = s.2.add 0 (keyDocumentId key) := by
      rw [addLoop_append_of_true hloop, addLoop_singleton]
    have hleft' : s.1.erase (keyDocumentId key) = results.filter (· ∉ met ++ [keyDocumentId key]) := by
      rw [hleft, (hnodup.filter _).erase_eq_filter, List.filter_filter]
      congr 1
      funext d
      by_cases h1 : d = keyDocumentId key <;> by_cases h2 : d ∈ met <;> simp [h1, h2]
    have hmet' : (met ++ [keyDocumentId key]).Nodup := by
      simp only [List.nodup_append, List.nodup_singleton, List.mem_singleton, true_and, hmet]
      intro a ha b hb hab
      subst hb hab
      exact hnotMet ha
    have hsub' : ∀ d ∈ met ++ [keyDocumentId key], d ∈ results := by
      intro d hd
      rcases List.mem_append.mp hd with hd | hd
      · exact hsub d hd
      · exact (List.mem_singleton.mp hd) ▸ hd'.1
    obtain ⟨ha', hpos', hlimit, htrue, hfalse⟩ := Pagination.add_open ha hpos hlt 0 (keyDocumentId key)
    refine ⟨_, _, rfl, fun hb => ⟨_, hloop'.trans (Prod.ext rfl hb), hleft', hmet', hsub', ha', hpos',
      hlimit ▸ htrue hb⟩, fun hb => ⟨_, hloop'.trans (Prod.ext rfl hb), hleft', hmet', hsub',
        hlimit ▸ hfalse hb⟩⟩
  · rw [if_neg hd]
    exact ⟨s, true, rfl, fun _ => ⟨met, hloop, hleft, hmet, hsub, ha, hpos, hlt⟩, by simp⟩

end Stream

theorem sortSingle_field (keys : List (List ℕ)) (accountId : UInt32) (collection : UInt8)
    (resultSet : ResultSet) (field : UInt8) (ascending : Bool) {p : Pagination}
    (ha : p.hasAnchor = false) (hpos : 0 ≤ p.position) (hlt : p.ids.length < p.limit) :
    ∃ met, met.Nodup ∧ (∀ d ∈ met, d ∈ resultSet.results) ∧
      sortSingle keys accountId collection resultSet (.field field ascending) p =
        .ok (p.feed (met ++ resultSet.results.filter (· ∉ met))) := by
  have hnodup : resultSet.results.Nodup := resultSet.sorted.imp Nat.ne_of_lt
  have hstart : StreamOpen resultSet.results p (resultSet.results, p) :=
    ⟨[], rfl, by simp, List.nodup_nil, by simp, ha, hpos, hlt⟩
  obtain ⟨⟨rest, q⟩, hscan, hopen | hfull⟩ := iterateDirected_invariant (StreamOpen resultSet.results p)
    (StreamFull resultSet.results p) (fun key s hs => streamCallback_step hnodup key s hs) ascending
    (indexKeyPrefix accountId collection field) (indexKeyPrefix accountId collection (field + 1))
    keys _ hstart
  · obtain ⟨met, hloop, hleft, hmet, hsub, -, -, hlt'⟩ := hopen
    refine ⟨met, hmet, hsub, ?_⟩
    simp only [sortSingle, hscan]
    by_cases hrest : rest = []
    · rw [if_neg (by simp [hrest]), ← hleft, hrest, List.append_nil, ← addLoop_fst, hloop]
    · have hopen : q.ids.length ≠ q.limit := Nat.ne_of_lt hlt'
      rw [if_pos ⟨hrest, hopen⟩, ← addLoop_fst, ← hleft, addLoop_append_of_true hloop]
  · obtain ⟨met, hloop, hleft, hmet, hsub, hfull'⟩ := hfull
    refine ⟨met, hmet, hsub, ?_⟩
    simp only [sortSingle, hscan]
    rw [if_neg (by simp [hfull']), ← addLoop_fst, addLoop_append_of_false hloop]

theorem sort_field_window (keys : List (List ℕ)) (accountId : UInt32) (collection : UInt8)
    (resultSet : ResultSet) (hresults : resultSet.results ≠ []) (field : UInt8) (ascending : Bool)
    (limit n : ℕ) (anchorOffset : ℤ) :
    ∃ met, (met ++ resultSet.results.filter (· ∉ met)).Perm resultSet.results ∧
      sort keys accountId collection resultSet [.field field ascending]
          (Pagination.new limit n none anchorOffset) none false =
        .ok ⟨if n ≤ resultSet.results.length then n else 0,
          ((met ++ resultSet.results.filter (· ∉ met)).drop n).take
            (pageLimit resultSet.results.length limit), true⟩ := by
  have hnodup : resultSet.results.Nodup := resultSet.sorted.imp Nat.ne_of_lt
  have hlimit : 0 < pageLimit resultSet.results.length limit := by
    have hlen := List.length_pos_iff.mpr hresults
    unfold pageLimit
    split_ifs <;> omega
  obtain ⟨met, hmet, hsub, hsingle⟩ := sortSingle_field keys accountId collection resultSet field
    ascending (p := Pagination.new (pageLimit resultSet.results.length limit) n none anchorOffset)
    rfl (by simp [Pagination.new]) (by simpa [Pagination.new] using hlimit)
  have hperm : (met ++ resultSet.results.filter (· ∉ met)).Perm resultSet.results := by
    have hmetPerm : met.Perm (resultSet.results.filter (· ∈ met)) :=
      (List.perm_ext_iff_of_nodup hmet (hnodup.filter _)).mpr fun d => by
        simp only [List.mem_filter, decide_eq_true_eq]
        exact ⟨fun hd => ⟨hsub d hd, hd⟩, fun hd => hd.2⟩
    refine (hmetPerm.append_right _).trans ?_
    simpa using List.filter_append_perm (fun d => decide (d ∈ met)) resultSet.results
  refine ⟨met, hperm, ?_⟩
  have hbranch : sort keys accountId collection resultSet [.field field ascending]
      (Pagination.new limit n none anchorOffset) none false =
      (sortSingle keys accountId collection resultSet (.field field ascending)
        (Pagination.new (pageLimit resultSet.results.length limit) n none anchorOffset)).map
        fun p => tagPrefixes none p.build := by
    show ite _ _ _ = _
    rw [if_neg hresults]
    rfl
  rw [hbranch, hsingle]
  simp only [Except.map, tagPrefixes, build_feed_position _ _ n hlimit, hperm.length_eq]

/-! ## Collapsed threads under one comparator -/

/-- The index of field 5, the received date of two emails: value 1 for document 1 and
value 2 for document 2. -/
def receivedAtKeys : List (List ℕ) := indexKeys [⟨0, 0, 1, 5, [1]⟩, ⟨0, 0, 2, 5, [2]⟩]

/-- Documents 1 and 2, each in a thread of its own. -/
def twoThreads (documentId : ℕ) : Option ℕ :=
  if documentId = 1 then some 10 else if documentId = 2 then some 20 else none

/-- Sorting results 1 and 2 newest first: without collapsing threads the page is 2, 1;
with threads collapsed, though no two results share one, it is 1, 2. -/
theorem sort_collapseThreads_single :
    sort receivedAtKeys 0 0 ⟨[1, 2], by decide⟩ [.field 5 false] (Pagination.new 0 0 none 0)
        (some twoThreads) false = .ok ⟨0, [taggedId 20 2, taggedId 10 1], true⟩ ∧
      sort receivedAtKeys 0 0 ⟨[1, 2], by decide⟩ [.field 5 false] (Pagination.new 0 0 none 0)
        (some twoThreads) true = .ok ⟨0, [taggedId 10 1, taggedId 20 2], true⟩ := by
  constructor <;> decide +kernel

end EsmpServer.Query
