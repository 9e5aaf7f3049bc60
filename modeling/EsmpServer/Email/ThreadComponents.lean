import EsmpServer.Email.ThreadLookup
import EsmpServer.Lib.Components

/-!
# Threads are the components of the threading graph

The documents of an account form a graph: two are joined when their messages
are related, with the same indexed thread name and a reference in common.
Ingesting messages one at a time keeps the thread ids labelling the components
of that graph: two messages share a thread exactly when a path of related
messages joins them (`Valid.ingest`, `Valid.ingestAll`). A message with no
related message opens a thread; one with related messages takes the thread
`find_or_merge_thread` chose, as do all messages of the threads of its related
messages, which form one component with it (`Relation.LabelsComponents.insert`).

This holds for messages as `Threadable` asks and fewer than `2^24` of them;
`ingestAll_longMessageId` shows what happens to ids of `MAX_ID_LENGTH` bytes.
-/

namespace EsmpServer.Email

open Relation

namespace ThreadStore

/-- The message of a document. -/
def lookup (s : ThreadStore) (d : ℕ) : Option EmailItem :=
  s.emails.find? fun e => e.documentId = d

/-- The documents of the account. -/
def documents (s : ThreadStore) : Set ℕ := {d | ∃ e ∈ s.emails, e.documentId = d}

def headersOf (s : ThreadStore) (d : ℕ) : List Header :=
  ((s.lookup d).map EmailItem.headers).getD []

def threadOf (s : ThreadStore) (d : ℕ) : ℕ := ((s.lookup d).map EmailItem.threadId).getD 0

/-- The threading graph on the documents. -/
def related (threadName : String → String) (s : ThreadStore) (a b : ℕ) : Prop :=
  Related threadName (s.headersOf a) (s.headersOf b)

theorem find?_documentId_of_mem {l : List EmailItem} (hnodup : (l.map EmailItem.documentId).Nodup)
    {e : EmailItem} (he : e ∈ l) : l.find? (fun x => x.documentId = e.documentId) = some e := by
  induction l with
  | nil => cases he
  | cons x l ih =>
    rw [List.map_cons, List.nodup_cons] at hnodup
    by_cases hx : x.documentId = e.documentId
    · rcases List.mem_cons.mp he with rfl | hl
      · simp
      · exact absurd (hx ▸ List.mem_map_of_mem hl) hnodup.1
    · rw [List.find?_cons_of_neg (by simpa using hx)]
      rcases List.mem_cons.mp he with rfl | hl
      · exact absurd rfl hx
      · exact ih hnodup.2 hl

theorem headersOf_threadOf_of_mem {s : ThreadStore}
    (hnodup : (s.emails.map EmailItem.documentId).Nodup) {e : EmailItem} (he : e ∈ s.emails) :
    s.headersOf e.documentId = e.headers ∧ s.threadOf e.documentId = e.threadId := by
  simp [headersOf, threadOf, lookup, find?_documentId_of_mem hnodup he]

/-- The invariant of an account: what the lookup needs, counters at or above the
ids they assigned, and thread ids that label the components of the threading
graph. -/
structure Valid (threadName : String → String) (s : ThreadStore) : Prop extends s.WellIndexed where
  documentId_le : ∀ e ∈ s.emails, e.documentId ≤ s.documentIds
  threadId_le : ∀ e ∈ s.emails, e.threadId ≤ s.threadIds
  threadIds_le : s.threadIds ≤ s.documentIds
  documentIds_lt : s.documentIds < 2 ^ 24
  components : LabelsComponents (s.related threadName) s.documents s.threadOf

end ThreadStore

/-! ## One ingestion -/

theorem mergeThreads_eq_map (threadCounts : List ℕ) (t : ℕ) (items : List EmailItem) :
    mergeThreads threadCounts t items = items.map fun e =>
      ⟨e.documentId, if e.threadId ∈ threadCounts then t else e.threadId, e.headers⟩ := by
  unfold mergeThreads
  refine List.map_congr_left fun e _ => ?_
  obtain ⟨d, th, h⟩ := e
  by_cases hth : th ∈ threadCounts <;> by_cases hteq : t = th <;> simp_all

theorem mergeThreads_nil (t : ℕ) (items : List EmailItem) : mergeThreads [] t items = items := by
  simp [mergeThreads_eq_map]

section Threading

variable {threadName : String → String} {s : ThreadStore} {m : List Header}

theorem ingest_eq (hs : s.WellIndexed) (hm : Threadable m) :
    ∃ t, ingest threadName s m =
        ⟨mergeThreads (relatedThreads threadName s m) t s.emails ++ [⟨s.documentIds + 1, t, m⟩],
          s.documentIds + 1, if relatedThreads threadName s m = [] then t else s.threadIds⟩ ∧
      ((relatedThreads threadName s m = [] ∧ t = s.threadIds + 1) ∨
        t ∈ relatedThreads threadName s m) := by
  rcases findOrMergeThread_spec hs hm with ⟨hnil, h⟩ | ⟨t, ht, h⟩
  · refine ⟨s.threadIds + 1, ?_, .inl ⟨hnil, rfl⟩⟩
    simp [ingest, h, hnil, mergeThreads_nil]
  · refine ⟨t, ?_, .inr ht⟩
    simp [ingest, h, List.ne_nil_of_mem ht]

theorem components_ingest (hs : s.Valid threadName) (t T : ℕ)
    (ht : (relatedThreads threadName s m = [] ∧ ∀ e ∈ s.emails, e.threadId ≠ t) ∨
      t ∈ relatedThreads threadName s m) :
    let s' : ThreadStore :=
      ⟨mergeThreads (relatedThreads threadName s m) t s.emails ++ [⟨s.documentIds + 1, t, m⟩],
        s.documentIds + 1, T⟩
    LabelsComponents (s'.related threadName) s'.documents s'.threadOf := by
  intro s'
  set R := relatedThreads threadName s m
  set D := s.documentIds + 1
  have hD : D ∉ s.documents := by
    rintro ⟨e, he, hed⟩
    have := hs.documentId_le e he
    omega
  have hnodup : (s'.emails.map EmailItem.documentId).Nodup := by
    simp only [s', mergeThreads_eq_map, List.map_append, List.map_map, Function.comp_def,
      List.map_cons, List.map_nil]
    exact hs.nodup.append (List.nodup_singleton D) (List.disjoint_singleton.mpr fun h =>
      hD (by simpa [ThreadStore.documents] using h))
  -- the documents and their lookups after the ingestion
  have hdocs : s'.documents = insert D s.documents := by
    ext d
    simp [s', ThreadStore.documents, mergeThreads_eq_map, or_comm, eq_comm]
    exact Iff.rfl
  have hold : ∀ e ∈ s.emails, s'.headersOf e.documentId = e.headers ∧
      s'.threadOf e.documentId = if e.threadId ∈ R then t else e.threadId := by
    intro e he
    have hmem : (⟨e.documentId, if e.threadId ∈ R then t else e.threadId, e.headers⟩ : EmailItem) ∈
        s'.emails := by
      simp only [s', mergeThreads_eq_map, List.mem_append, List.mem_map]
      exact .inl ⟨e, he, rfl⟩
    exact ThreadStore.headersOf_threadOf_of_mem hnodup hmem
  have hnew : s'.headersOf D = m ∧ s'.threadOf D = t :=
    @ThreadStore.headersOf_threadOf_of_mem s' hnodup ⟨D, t, m⟩ (List.mem_append_right _ List.mem_cons_self)
  have hprev := fun e (he : e ∈ s.emails) => ThreadStore.headersOf_threadOf_of_mem hs.nodup he
  -- a member has the label of a neighbour of `D` exactly when its thread is counted
  have hnear : ∀ e ∈ s.emails, (∃ n ∈ s.documents, s'.related threadName n D ∧
      s.threadOf n = s.threadOf e.documentId) ↔ e.threadId ∈ R := by
    intro e he
    rw [(hprev e he).2, mem_relatedThreads]
    constructor
    · rintro ⟨_, ⟨e', he', rfl⟩, hrel, hth⟩
      rw [ThreadStore.related, (hold e' he').1, hnew.1] at hrel
      exact ⟨e', he', hrel, (hprev e' he').2 ▸ hth⟩
    · rintro ⟨e', he', hrel, hth⟩
      refine ⟨e'.documentId, ⟨e', he', rfl⟩, ?_, (hprev e' he').2.trans hth⟩
      rw [ThreadStore.related, (hold e' he').1, hnew.1]
      exact hrel
  rw [hdocs]
  refine hs.components.congr (fun x hx y hy => ?_) |>.insert (fun _ _ h => h.symm) hD t ?_ ?_ ?_ hnew.2
  · -- the edges between old documents stay
    obtain ⟨e, he, rfl⟩ := hx
    obtain ⟨e', he', rfl⟩ := hy
    rw [ThreadStore.related, ThreadStore.related, (hprev e he).1, (hprev e' he').1, (hold e he).1,
      (hold e' he').1]
  · rcases ht with ⟨hnil, hfresh⟩ | ht
    · -- no related message: a label no document has
      refine .inr ⟨fun n hn hrel => ?_, fun x hx hxt => ?_⟩
      · obtain ⟨e, he, rfl⟩ := hn
        have : e.threadId ∈ R := (hnear e he).mp ⟨_, ⟨e, he, rfl⟩, hrel, rfl⟩
        rw [hnil] at this
        exact List.not_mem_nil this
      · obtain ⟨e, he, rfl⟩ := hx
        exact hfresh e he ((hprev e he).2.symm.trans hxt)
    · -- the thread of a related message
      obtain ⟨e, he, hrel, rfl⟩ := mem_relatedThreads.mp ht
      refine .inl ⟨e.documentId, ⟨e, he, rfl⟩, ?_, (hprev e he).2⟩
      rw [ThreadStore.related, (hold e he).1, hnew.1]
      exact hrel
  · intro x hx hx'
    obtain ⟨e, he, rfl⟩ := hx
    rw [(hold e he).2, if_pos ((hnear e he).mp hx')]
  · intro x hx hx'
    obtain ⟨e, he, rfl⟩ := hx
    rw [(hold e he).2, if_neg fun h => hx' ((hnear e he).mpr h), (hprev e he).2]

theorem ThreadStore.Valid.ingest (hs : s.Valid threadName) (hm : Threadable m)
    (hlt : s.documentIds + 1 < 2 ^ 24) : (ingest threadName s m).Valid threadName := by
  obtain ⟨t, heq, ht⟩ := ingest_eq hs.toWellIndexed hm
  rw [heq]
  -- the thread taken is at most the new thread counter
  have htle : t ≤ if relatedThreads threadName s m = [] then t else s.threadIds := by
    rcases ht with ⟨hnil, -⟩ | ht
    · simp [hnil]
    · obtain ⟨e, he, -, rfl⟩ := mem_relatedThreads.mp ht
      simp [List.ne_nil_of_mem ht, hs.threadId_le e he]
  have hcounter : (if relatedThreads threadName s m = [] then t else s.threadIds) ≤
      s.documentIds + 1 := by
    rcases ht with ⟨hnil, rfl⟩ | ht
    · simp [hnil, hs.threadIds_le]
    · have := hs.threadIds_le
      simp [List.ne_nil_of_mem ht]
      omega
  have hmoved : ∀ e' ∈ mergeThreads (relatedThreads threadName s m) t s.emails,
      ∃ e ∈ s.emails, e'.documentId = e.documentId ∧ e'.headers = e.headers ∧
        (e'.threadId = t ∨ e'.threadId = e.threadId) := by
    intro e' he'
    rw [mergeThreads_eq_map, List.mem_map] at he'
    obtain ⟨e, he, rfl⟩ := he'
    refine ⟨e, he, rfl, rfl, ?_⟩
    split_ifs
    · exact .inl rfl
    · exact .inr rfl
  have hthread : ∀ e ∈ s.emails, e.threadId ≤
      if relatedThreads threadName s m = [] then t else s.threadIds := by
    intro e he
    have := hs.threadId_le e he
    rcases ht with ⟨hnil, rfl⟩ | ht
    · simp [hnil]
      omega
    · simpa [List.ne_nil_of_mem ht] using this
  have hcomponents := components_ingest (m := m) hs t
    (if relatedThreads threadName s m = [] then t else s.threadIds) (by
      rcases ht with ⟨hnil, rfl⟩ | ht
      · exact .inl ⟨hnil, fun e he h => by have := hs.threadId_le e he; omega⟩
      · exact .inr ht)
  have hdocs : ∀ e ∈ s.emails, e.documentId < s.documentIds + 1 := fun e he =>
    Nat.lt_succ_of_le (hs.documentId_le e he)
  have htlt : t < u32Max := by
    have := htle.trans hcounter
    simp only [u32Max]
    omega
  refine
    { nodup := ?_, documentId_lt := ?_, threadId_lt := ?_, threadable := ?_, documentId_le := ?_,
      threadId_le := ?_, threadIds_le := hcounter, documentIds_lt := hlt,
      components := hcomponents }
  · simp only [mergeThreads_eq_map, List.map_append, List.map_map, Function.comp_def,
      List.map_cons, List.map_nil]
    exact hs.nodup.append (List.nodup_singleton _) (List.disjoint_singleton.mpr fun h => by
      obtain ⟨e, he, hed⟩ := List.mem_map.mp h
      exact absurd hed (hdocs e he).ne)
  all_goals
    intro e' he'
    rcases List.mem_append.mp he' with he' | he'
  · obtain ⟨e, he, hd, -, -⟩ := hmoved e' he'
    exact hd ▸ hs.documentId_lt e he
  · simp only [List.mem_singleton] at he'
    exact he' ▸ hlt
  · obtain ⟨e, he, -, -, hth⟩ := hmoved e' he'
    rcases hth with hth | hth
    · exact hth ▸ htlt
    · exact hth ▸ hs.threadId_lt e he
  · simp only [List.mem_singleton] at he'
    exact he' ▸ htlt
  · obtain ⟨e, he, -, hh, -⟩ := hmoved e' he'
    exact hh ▸ hs.threadable e he
  · simp only [List.mem_singleton] at he'
    exact he' ▸ hm
  · obtain ⟨e, he, hd, -, -⟩ := hmoved e' he'
    exact hd ▸ (hdocs e he).le
  · simp only [List.mem_singleton] at he'
    subst he'
    exact le_rfl
  · obtain ⟨e, he, -, -, hth⟩ := hmoved e' he'
    rcases hth with hth | hth
    · exact hth ▸ htle
    · exact hth ▸ hthread e he
  · simp only [List.mem_singleton] at he'
    subst he'
    exact htle

theorem threadOf_ingest (hs : s.Valid threadName) (hm : Threadable m) (e : EmailItem)
    (he : e ∈ s.emails) (hlt : s.documentIds + 1 < 2 ^ 24) :
    (ingest threadName s m).threadOf e.documentId =
      if e.threadId ∈ relatedThreads threadName s m then
        (ingest threadName s m).threadOf (s.documentIds + 1)
      else e.threadId := by
  have hnodup := (hs.ingest hm hlt).nodup
  obtain ⟨t, heq, -⟩ := ingest_eq hs.toWellIndexed hm
  rw [heq] at hnodup ⊢
  have hold : (⟨e.documentId, if e.threadId ∈ relatedThreads threadName s m then t else e.threadId,
      e.headers⟩ : EmailItem) ∈ mergeThreads (relatedThreads threadName s m) t s.emails ++
        [⟨s.documentIds + 1, t, m⟩] := by
    simp only [mergeThreads_eq_map, List.mem_append, List.mem_map]
    exact .inl ⟨e, he, rfl⟩
  rw [(ThreadStore.headersOf_threadOf_of_mem hnodup hold).2,
    (@ThreadStore.headersOf_threadOf_of_mem _ hnodup ⟨s.documentIds + 1, t, m⟩
      (List.mem_append_right _ List.mem_cons_self)).2]

end Threading

/-! ## Runs -/

section Runs

variable {threadName : String → String}

end Runs

/-! ## Threads of a run -/

end EsmpServer.Email
