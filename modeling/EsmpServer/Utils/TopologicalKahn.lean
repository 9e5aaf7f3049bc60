import EsmpServer.Utils.Topological
import Mathlib

/-!
# What draining a topological sort yields

For every list of edges, inserted in order, and every order in which the hash
map hands its keys to `retain`, draining `into_iterator` yields each node at
most once; `is_valid` holds afterwards exactly when the graph of the edges has
no cycle; and then every node of an edge is yielded, the start of each edge
before its end (`drain_ofEdges`).

The run keeps an invariant (`KahnInv`): the count of a node neither yielded nor
queued is the number of edges into it from nodes not yet yielded, and is not
zero; a queued node has no such edge; a yielded node has left the map, after
the start of every edge into it. A node whose count stays positive to the end
has an edge from another such node, and a finite set of nodes each with an edge
from the set holds a cycle (`exists_transGen_self`).
-/

namespace EsmpServer.Utils

open Relation

/-! ## Cycles in a finite set -/

theorem exists_transGen_self {β : Type} {r : β → β → Prop} (s : Finset β) (hne : s.Nonempty)
    (hpred : ∀ x ∈ s, ∃ y ∈ s, r y x) : ∃ x, TransGen r x x := by
  classical
  induction s using Finset.strongInduction with
  | H s ih =>
    obtain ⟨x0, hx0⟩ := hne
    by_cases hcyc : TransGen r x0 x0
    · exact ⟨x0, hcyc⟩
    · have hsub : s.filter (fun y => TransGen r y x0) ⊂ s :=
        Finset.ssubset_iff_subset_ne.mpr ⟨Finset.filter_subset _ _, fun h => by
          rw [← h] at hx0
          exact hcyc (Finset.mem_filter.mp hx0).2⟩
      obtain ⟨y, hy, hyx⟩ := hpred x0 hx0
      refine ih _ hsub ⟨y, Finset.mem_filter.mpr ⟨hy, .single hyx⟩⟩ fun z hz => ?_
      obtain ⟨hzs, hzx⟩ := Finset.mem_filter.mp hz
      obtain ⟨w, hw, hwz⟩ := hpred z hzs
      exact ⟨w, Finset.mem_filter.mpr ⟨hw, .head hwz hzx⟩, hwz⟩

variable {α : Type} [DecidableEq α]

/-! ## Edge lists -/

/-- The graph of a list of edges has no node that reaches itself. -/
def Acyclic (es : List (α × α)) : Prop := ∀ n, ¬TransGen (fun a b => (a, b) ∈ es) n n

/-- A node of the graph: an end of an edge. -/
def IsNode (es : List (α × α)) (m : α) : Prop := ∃ e ∈ es, e.1 = m ∨ e.2 = m

/-- The edges into `m` from the nodes not yet yielded. -/
def inCount (es : List (α × α)) (out : List α) (m : α) : ℕ :=
  (es.filter fun e => e.2 = m ∧ e.1 ∉ out).length

/-- The ends of the edges out of `n`, in order. -/
def neighbours (es : List (α × α)) (n : α) : List α := (es.filter fun e => e.1 = n).map (·.2)

theorem mem_neighbours {es : List (α × α)} {n m : α} : m ∈ neighbours es n ↔ (n, m) ∈ es := by
  simp only [neighbours, List.mem_map, List.mem_filter, decide_eq_true_eq]
  constructor
  · rintro ⟨⟨a, b⟩, ⟨he, rfl⟩, rfl⟩
    exact he
  · intro h
    exact ⟨(n, m), ⟨h, rfl⟩, rfl⟩

theorem inCount_append_singleton (es : List (α × α)) {out : List α} {n : α} (hn : n ∉ out) (m : α) :
    inCount es out m = inCount es (out ++ [n]) m + (neighbours es n).count m := by
  induction es with
  | nil => simp [inCount, neighbours]
  | cons e es ih =>
    obtain ⟨a, b⟩ := e
    simp only [inCount, neighbours] at ih ⊢
    by_cases hb : b = m <;> by_cases ha : a = n <;> by_cases hout : a ∈ out
    all_goals simp_all
    all_goals omega

theorem inCount_pos {es : List (α × α)} {out : List α} {a b : α} (he : (a, b) ∈ es) (ha : a ∉ out) :
    inCount es out b ≠ 0 := by
  unfold inCount
  rw [← Nat.pos_iff_ne_zero, List.length_pos_iff_exists_mem]
  exact ⟨(a, b), List.mem_filter.mpr ⟨he, by simp [ha]⟩⟩

theorem exists_of_inCount_ne_zero {es : List (α × α)} {out : List α} {m : α}
    (h : inCount es out m ≠ 0) : ∃ a, (a, m) ∈ es ∧ a ∉ out := by
  unfold inCount at h
  obtain ⟨⟨a, b⟩, he⟩ := List.exists_mem_of_ne_nil _ (List.length_pos_iff.mp (Nat.pos_of_ne_zero h))
  simp only [List.mem_filter, decide_eq_true_eq] at he
  obtain ⟨he, rfl, ha⟩ := he
  exact ⟨a, he, ha⟩

/-! ## The sort built from a list of edges -/

section OfEdges

variable (es : List (α × α))

theorem nodup_addKey {k : List α} (hk : k.Nodup) (x : α) :
    (if x ∈ k then k else k ++ [x]).Nodup := by
  split_ifs with hx
  · exact hk
  · exact List.nodup_append.mpr ⟨hk, List.nodup_singleton x, by
      intro a ha b hb hab
      rw [List.mem_singleton] at hb
      exact hx (hb ▸ hab ▸ ha)⟩

theorem mem_addKey {k : List α} {x y : α} : y ∈ (if x ∈ k then k else k ++ [x]) ↔ y ∈ k ∨ y = x := by
  split_ifs with hx
  · constructor
    · exact .inl
    · rintro (h | rfl)
      · exact h
      · exact hx
  · simp

theorem foldl_insert_keys (s : TopologicalSort α) (hs : s.keys.Nodup) :
    (es.foldl (fun s e => s.insert e.1 e.2) s).keys.Nodup ∧
      ∀ m, m ∈ (es.foldl (fun s e => s.insert e.1 e.2) s).keys ↔ m ∈ s.keys ∨ IsNode es m := by
  induction es generalizing s with
  | nil => simp [hs, IsNode]
  | cons e es ih =>
    have hins : (s.insert e.1 e.2).keys.Nodup ∧
        ∀ m, m ∈ (s.insert e.1 e.2).keys ↔ m ∈ s.keys ∨ m = e.1 ∨ m = e.2 := by
      refine ⟨nodup_addKey (nodup_addKey hs e.1) e.2, fun m => ?_⟩
      simp only [TopologicalSort.insert]
      rw [mem_addKey, mem_addKey, or_assoc]
    obtain ⟨hnd, hmem⟩ := ih (s.insert e.1 e.2) hins.1
    refine ⟨hnd, fun m => ?_⟩
    rw [List.foldl_cons, hmem, hins.2]
    simp only [IsNode, List.mem_cons, exists_eq_or_imp]
    constructor
    · rintro ((h | h | h) | h)
      · exact .inl h
      · exact .inr (.inl (.inl h.symm))
      · exact .inr (.inl (.inr h.symm))
      · exact .inr (.inr h)
    · rintro (h | (h | h) | h)
      · exact .inl (.inl h)
      · exact .inl (.inr (.inl h.symm))
      · exact .inl (.inr (.inr h.symm))
      · exact .inr h

theorem foldl_insert_edges (s : TopologicalSort α) (n : α) :
    (es.foldl (fun s e => s.insert e.1 e.2) s).edges n = s.edges n ++ neighbours es n := by
  induction es generalizing s with
  | nil => simp [neighbours]
  | cons e es ih =>
    rw [List.foldl_cons, ih]
    by_cases hn : n = e.1
    · subst hn
      simp [TopologicalSort.insert, neighbours]
    · simp [TopologicalSort.insert, neighbours, Function.update_of_ne hn, Ne.symm hn]

theorem foldl_insert_count (s : TopologicalSort α) (m : α) :
    (es.foldl (fun s e => s.insert e.1 e.2) s).count m = s.count m + inCount es [] m := by
  induction es generalizing s with
  | nil => simp [inCount]
  | cons e es ih =>
    rw [List.foldl_cons, ih]
    by_cases hm : m = e.2
    · subst hm
      simp [TopologicalSort.insert, inCount]
      omega
    · simp [TopologicalSort.insert, inCount, Function.update_of_ne hm, Ne.symm hm]

theorem nodup_keys_ofEdges : (TopologicalSort.ofEdges es).keys.Nodup :=
  (foldl_insert_keys es _ List.nodup_nil).1

theorem mem_keys_ofEdges (m : α) : m ∈ (TopologicalSort.ofEdges es).keys ↔ IsNode es m := by
  rw [TopologicalSort.ofEdges, (foldl_insert_keys es _ List.nodup_nil).2]
  simp [TopologicalSort.withCapacity]

theorem edges_ofEdges (n : α) : (TopologicalSort.ofEdges es).edges n = neighbours es n := by
  simp [TopologicalSort.ofEdges, foldl_insert_edges, TopologicalSort.withCapacity]

theorem count_ofEdges (m : α) : (TopologicalSort.ofEdges es).count m = inCount es [] m := by
  simp [TopologicalSort.ofEdges, foldl_insert_count, TopologicalSort.withCapacity]

end OfEdges

/-! ## The invariant of the run -/

namespace TopologicalSortIterator

theorem foldl_decrement (L : List α) (it : TopologicalSortIterator α)
    (h : ∀ m ∈ L, m ∈ it.keys ∧ L.count m ≤ it.count m) :
    ∃ X, (L.foldl decrement it).keys = it.keys ∧ (L.foldl decrement it).edges = it.edges ∧
      (∀ m, (L.foldl decrement it).count m = it.count m - L.count m) ∧
      (L.foldl decrement it).noEdges = X ++ it.noEdges ∧ X.Nodup ∧
      ∀ m, m ∈ X ↔ m ∈ L ∧ it.count m = L.count m := by
  induction L generalizing it with
  | nil => exact ⟨[], rfl, rfl, fun m => by simp, rfl, List.nodup_nil, fun m => by simp⟩
  | cons m L ih =>
    obtain ⟨hkey, hle⟩ := h m List.mem_cons_self
    rw [List.count_cons_self] at hle
    rw [List.foldl_cons]
    by_cases hzero : it.count m - 1 = 0
    · -- `m` reaches zero and is met no more
      have hmL : m ∉ L := fun hm => by
        have := List.count_pos_iff.mpr hm
        omega
      have hstep : it.decrement m =
          { it with count := Function.update it.count m 0, noEdges := m :: it.noEdges } := by
        simp [decrement, hkey, hzero]
        omega
      have hL : ∀ m' ∈ L, m' ∈ (it.decrement m).keys ∧ L.count m' ≤ (it.decrement m).count m' := by
        intro m' hm'
        have hne : m' ≠ m := fun h => hmL (h ▸ hm')
        obtain ⟨hk', hc'⟩ := h m' (List.mem_cons_of_mem _ hm')
        rw [List.count_cons_of_ne (Ne.symm hne)] at hc'
        rw [hstep]
        exact ⟨hk', by simpa [Function.update_of_ne hne] using hc'⟩
      obtain ⟨X, hk, he, hc, hn, hnd, hX⟩ := ih (it.decrement m) hL
      refine ⟨X ++ [m], by rw [hk, hstep], by rw [he, hstep], fun m' => ?_, ?_, ?_, fun m' => ?_⟩
      · rw [hc, hstep]
        by_cases hm' : m' = m
        · subst hm'
          simp [List.count_eq_zero_of_not_mem hmL]
          omega
        · simp [Function.update_of_ne hm', List.count_cons_of_ne (Ne.symm hm')]
      · rw [hn, hstep]
        simp
      · exact List.nodup_append.mpr ⟨hnd, List.nodup_singleton m, by
          intro a ha b hb
          rw [List.mem_singleton] at hb
          subst hb
          exact fun h => hmL (h ▸ ((hX a).mp ha).1)⟩
      · rw [List.mem_append, hX, List.mem_singleton, hstep]
        by_cases hm' : m' = m
        · subst hm'
          simp [hmL, List.count_eq_zero_of_not_mem hmL]
          omega
        · simp [hm', List.count_cons_of_ne (Ne.symm hm')]
    · -- `m` stays in the map, one lower
      have hstep : it.decrement m = { it with count := Function.update it.count m (it.count m - 1) } := by
        simp [decrement, hkey, hzero]
        omega
      have hL : ∀ m' ∈ L, m' ∈ (it.decrement m).keys ∧ L.count m' ≤ (it.decrement m).count m' := by
        intro m' hm'
        obtain ⟨hk', hc'⟩ := h m' (List.mem_cons_of_mem _ hm')
        rw [hstep]
        refine ⟨hk', ?_⟩
        by_cases hne : m' = m
        · subst hne
          simp only [Function.update_self]
          omega
        · rw [List.count_cons_of_ne (Ne.symm hne)] at hc'
          simpa [Function.update_of_ne hne] using hc'
      obtain ⟨X, hk, he, hc, hn, hnd, hX⟩ := ih (it.decrement m) hL
      refine ⟨X, by rw [hk, hstep], by rw [he, hstep], fun m' => ?_, by rw [hn, hstep], hnd,
        fun m' => ?_⟩
      · rw [hc, hstep]
        by_cases hm' : m' = m
        · subst hm'
          simp only [Function.update_self, List.count_cons_self]
          omega
        · simp [Function.update_of_ne hm', List.count_cons_of_ne (Ne.symm hm')]
      · rw [hX, hstep]
        by_cases hm' : m' = m
        · subst hm'
          simp only [Function.update_self, List.count_cons_self, List.mem_cons, true_or, true_and]
          constructor
          · rintro ⟨-, h⟩
            omega
          · intro h
            refine ⟨List.count_pos_iff.mp (by omega), by omega⟩
        · simp [hm', List.count_cons_of_ne (Ne.symm hm')]

end TopologicalSortIterator

open TopologicalSortIterator

/-- The invariant of Kahn's algorithm between two calls of `next`, `out` the
nodes yielded so far. -/
structure KahnInv (es : List (α × α)) (out : List α) (it : TopologicalSortIterator α) : Prop where
  keys : ∀ m, m ∈ it.keys ↔ IsNode es m
  edges : ∀ n, it.edges n = neighbours es n
  out_nodup : out.Nodup
  noEdges_nodup : it.noEdges.Nodup
  out_count : ∀ m ∈ out, m ∈ it.keys ∧ it.count m = 0
  queued : ∀ m ∈ it.noEdges, m ∈ it.keys ∧ m ∉ out ∧ it.count m = 0 ∧ inCount es out m = 0
  waiting : ∀ m ∈ it.keys, m ∉ out → m ∉ it.noEdges →
    it.count m = inCount es out m ∧ inCount es out m ≠ 0
  ordered : ∀ a b, (a, b) ∈ es → b ∈ out → a ∈ out ∧ out.idxOf a < out.idxOf b

omit [DecidableEq α] in
theorem isNode_fst {es : List (α × α)} {a b : α} (h : (a, b) ∈ es) : IsNode es a := ⟨(a, b), h, .inl rfl⟩

omit [DecidableEq α] in
theorem isNode_snd {es : List (α × α)} {a b : α} (h : (a, b) ∈ es) : IsNode es b := ⟨(a, b), h, .inr rfl⟩

theorem kahnInv_intoIterator (es : List (α × α)) {order : List α}
    (horder : order.Perm (TopologicalSort.ofEdges es).keys) :
    KahnInv es [] ((TopologicalSort.ofEdges es).intoIterator order) where
  keys m := mem_keys_ofEdges es m
  edges n := edges_ofEdges es n
  out_nodup := List.nodup_nil
  noEdges_nodup := (horder.nodup_iff.mpr (nodup_keys_ofEdges es)).filter _
  out_count m hm := absurd hm (List.not_mem_nil)
  queued m hm := by
    obtain ⟨hmo, hz⟩ := List.mem_filter.mp hm
    have hz : (TopologicalSort.ofEdges es).count m = 0 := by simpa using hz
    exact ⟨horder.subset hmo, List.not_mem_nil, hz, by rw [← count_ofEdges]; exact hz⟩
  waiting m hm _ hq := by
    have hz : (TopologicalSort.ofEdges es).count m ≠ 0 := fun hz =>
      hq (List.mem_filter.mpr ⟨horder.symm.subset hm, by simpa using hz⟩)
    exact ⟨count_ofEdges es m, by rwa [← count_ofEdges]⟩
  ordered a b _ hb := absurd hb (List.not_mem_nil)

section Step

variable {es : List (α × α)} {out : List α} {it : TopologicalSortIterator α}

theorem KahnInv.neighbour_waiting (hinv : KahnInv es out it) {n : α} (hn : n ∈ it.noEdges)
    {m : α} (hm : m ∈ neighbours es n) :
    m ∈ it.keys ∧ m ∉ out ∧ m ∉ it.noEdges ∧ (neighbours es n).count m ≤ it.count m := by
  obtain ⟨-, hnout, -, hnin⟩ := hinv.queued n hn
  have he := mem_neighbours.mp hm
  have hkey : m ∈ it.keys := (hinv.keys m).mpr (isNode_snd he)
  have hmout : m ∉ out := fun hmo => hnout (hinv.ordered n m he hmo).1
  have hpos := inCount_pos he hnout
  have hmq : m ∉ it.noEdges := fun hmq => hpos (hinv.queued m hmq).2.2.2
  obtain ⟨hc, -⟩ := hinv.waiting m hkey hmout hmq
  have hsplit := inCount_append_singleton es hnout m
  exact ⟨hkey, hmout, hmq, by omega⟩

theorem KahnInv.next (hinv : KahnInv es out it) {n : α} {it' : TopologicalSortIterator α}
    (h : it.next = some (n, it')) : KahnInv es (out ++ [n]) it' := by
  obtain ⟨hlast, rfl⟩ := next_eq_some_iff.mp h
  obtain ⟨init, hinit⟩ := List.getLast?_eq_some_iff.mp hlast
  have hnq : n ∈ it.noEdges := by rw [hinit]; simp
  obtain ⟨hnkey, hnout, hncount, hnin⟩ := hinv.queued n hnq
  have hnd : (init ++ [n]).Nodup := hinit ▸ hinv.noEdges_nodup
  have hninit : n ∉ init := fun h =>
    (List.nodup_append.mp hnd).2.2 n h n (List.mem_singleton_self n) rfl
  -- the neighbours are lowered from the iterator with `n` off the queue
  set it0 : TopologicalSortIterator α := { it with noEdges := it.noEdges.dropLast } with hit0
  have hdrop : it0.noEdges = init := by rw [hit0, hinit]; simp
  have hL : ∀ m ∈ it.edges n, m ∈ it0.keys ∧ (it.edges n).count m ≤ it0.count m := by
    intro m hm
    rw [hinv.edges n] at hm ⊢
    obtain ⟨hk, -, -, hle⟩ := hinv.neighbour_waiting hnq hm
    exact ⟨hk, hle⟩
  obtain ⟨X, hk, he, hc, hq, hXnd, hX⟩ := foldl_decrement (it.edges n) it0 hL
  rw [hinv.edges n] at hk he hc hq hX ⊢
  have hc0 : ∀ m, it0.count m = it.count m := fun _ => rfl
  simp only [hc0] at hc hX
  have hsplit := fun m => inCount_append_singleton es hnout m
  have hXL : ∀ m ∈ X, m ∈ neighbours es n := fun m hm => ((hX m).mp hm).1
  refine ⟨?_, ?_, ?_, ?_, ?_, ?_, ?_, ?_⟩
  · -- keys
    intro m
    rw [hk]
    exact hinv.keys m
  · -- edges
    intro m
    rw [he]
    exact hinv.edges m
  · -- the yielded nodes stay distinct
    exact List.nodup_append.mpr ⟨hinv.out_nodup, List.nodup_singleton n, by
      intro a ha b hb
      rw [List.mem_singleton] at hb
      subst hb
      exact fun h => hnout (h ▸ ha)⟩
  · -- the queue stays without repetition
    rw [hq, hdrop]
    refine List.nodup_append.mpr ⟨hXnd, (List.nodup_append.mp hnd).1, ?_⟩
    intro a ha b hb hab
    subst hab
    exact (hinv.neighbour_waiting hnq (hXL a ha)).2.2.1 (by rw [hinit]; exact List.mem_append_left _ hb)
  · -- the yielded nodes have left the map
    intro m hm
    rw [hk, hc]
    rcases List.mem_append.mp hm with hm | hm
    · obtain ⟨hkm, hcm⟩ := hinv.out_count m hm
      exact ⟨hkm, by simp [hcm]⟩
    · rw [List.mem_singleton] at hm
      subst hm
      exact ⟨hnkey, by simp [hncount]⟩
  · -- the queued nodes
    intro m hm
    rw [hq, hdrop] at hm
    rw [hk, hc]
    rcases List.mem_append.mp hm with hm | hm
    · -- newly queued: their count reached zero
      obtain ⟨hmL, hcm⟩ := (hX m).mp hm
      obtain ⟨hkm, hmout, hmq, -⟩ := hinv.neighbour_waiting hnq hmL
      have hmn : m ≠ n := fun h => hmq (h ▸ hnq)
      obtain ⟨hcount, -⟩ := hinv.waiting m hkm hmout hmq
      refine ⟨hkm, ?_, by omega, ?_⟩
      · simp [hmout, hmn]
      · have := hsplit m
        omega
    · -- already queued before `n`
      have hmq : m ∈ it.noEdges := by rw [hinit]; exact List.mem_append_left _ hm
      obtain ⟨hkm, hmout, hcm, hinm⟩ := hinv.queued m hmq
      have hmn : m ≠ n := fun h => hninit (h ▸ hm)
      refine ⟨hkm, by simp [hmout, hmn], by simp [hcm], ?_⟩
      have := hsplit m
      omega
  · -- the waiting nodes: their counts follow the edges from nodes not yielded
    intro m hkm hmout hmq
    rw [hk] at hkm
    rw [hq, hdrop] at hmq
    have hmout' : m ∉ out := fun h => hmout (List.mem_append_left _ h)
    have hmn : m ≠ n := fun h => hmout (by rw [h]; exact List.mem_append_right _ (List.mem_singleton_self n))
    have hmq' : m ∉ it.noEdges := by
      rw [hinit]
      simp only [List.mem_append, List.mem_singleton, not_or]
      exact ⟨fun h => hmq (List.mem_append_right _ h), hmn⟩
    obtain ⟨hcount, hpos⟩ := hinv.waiting m hkm hmout' hmq'
    have hnotX : m ∉ X := fun h => hmq (List.mem_append_left _ h)
    rw [hX] at hnotX
    have := hsplit m
    rw [hc]
    constructor
    · omega
    · intro hzero
      refine hnotX ⟨List.count_pos_iff.mp (by omega), by omega⟩
  · -- the start of every edge into a yielded node was yielded before it
    intro a b hab hb
    rcases List.mem_append.mp hb with hb | hb
    · obtain ⟨ha, hlt⟩ := hinv.ordered a b hab hb
      refine ⟨List.mem_append_left _ ha, ?_⟩
      rw [List.idxOf_append_of_mem ha, List.idxOf_append_of_mem hb]
      exact hlt
    · rw [List.mem_singleton] at hb
      subst hb
      have ha : a ∈ out := by
        by_contra ha
        exact inCount_pos hab ha hnin
      refine ⟨List.mem_append_left _ ha, ?_⟩
      rw [List.idxOf_append_of_mem ha, List.idxOf_append_of_notMem hnout]
      simp only [List.idxOf_cons_self, Nat.add_zero]
      exact List.idxOf_lt_length_of_mem ha

theorem KahnInv.drainFuel (hinv : KahnInv es out it) (fuel : ℕ) :
    KahnInv es (out ++ (it.drainFuel fuel).1) (it.drainFuel fuel).2 := by
  induction fuel generalizing out it with
  | zero => simpa [TopologicalSortIterator.drainFuel] using hinv
  | succ fuel ih =>
    unfold TopologicalSortIterator.drainFuel
    split
    · simpa using hinv
    · rename_i n it' hnext
      simpa using ih (hinv.next hnext)

end Step

/-! ## At the end of the run -/

section End

variable {es : List (α × α)} {out : List α} {it : TopologicalSortIterator α}

theorem KahnInv.mem_out_iff (hinv : KahnInv es out it) (hq : it.noEdges = []) {m : α}
    (hm : IsNode es m) : m ∈ out ↔ it.count m = 0 := by
  have hkm := (hinv.keys m).mpr hm
  constructor
  · exact fun h => (hinv.out_count m h).2
  · intro hz
    by_contra hmout
    obtain ⟨hc, hpos⟩ := hinv.waiting m hkm hmout (by simp [hq])
    exact hpos (hc ▸ hz)

theorem KahnInv.idxOf_lt_of_transGen (hinv : KahnInv es out it) {a b : α}
    (h : TransGen (fun a b => (a, b) ∈ es) a b) (hb : b ∈ out) :
    a ∈ out ∧ out.idxOf a < out.idxOf b := by
  induction h with
  | single hab => exact hinv.ordered _ _ hab hb
  | tail _ hcb ih =>
    obtain ⟨hc, hlt⟩ := hinv.ordered _ _ hcb hb
    obtain ⟨ha, hlt'⟩ := ih hc
    exact ⟨ha, Nat.lt_trans hlt' hlt⟩

theorem KahnInv.isValid_iff (hinv : KahnInv es out it) (hq : it.noEdges = []) :
    it.isValid = true ↔ Acyclic es := by
  unfold TopologicalSortIterator.isValid
  rw [List.all_eq_true]
  constructor
  · intro hall n hcyc
    have hn : IsNode es n := by
      obtain ⟨b, hnb, -⟩ := TransGen.head'_iff.mp hcyc
      exact isNode_fst hnb
    have hnout : n ∈ out :=
      (hinv.mem_out_iff hq hn).mpr (by simpa using hall n ((hinv.keys n).mpr hn))
    exact Nat.lt_irrefl _ (hinv.idxOf_lt_of_transGen hcyc hnout).2
  · intro hacyc m hkm
    by_contra hcount
    have hcount : it.count m ≠ 0 := by simpa using hcount
    let R := it.keys.toFinset.filter fun x => it.count x ≠ 0
    have hpred : ∀ x ∈ R, ∃ y ∈ R, (y, x) ∈ es := by
      intro x hx
      obtain ⟨hxk, hxc⟩ := Finset.mem_filter.mp hx
      have hxk := List.mem_toFinset.mp hxk
      have hxout : x ∉ out := fun h => hxc (hinv.out_count x h).2
      obtain ⟨hc, hpos⟩ := hinv.waiting x hxk hxout (by simp [hq])
      obtain ⟨y, hyx, hyout⟩ := exists_of_inCount_ne_zero hpos
      have hyk := (hinv.keys y).mpr (isNode_fst hyx)
      refine ⟨y, Finset.mem_filter.mpr ⟨List.mem_toFinset.mpr hyk, fun hy => hyout ?_⟩, hyx⟩
      exact ((hinv.mem_out_iff hq (isNode_fst hyx)).mpr hy)
    obtain ⟨x, hx⟩ := exists_transGen_self R
      ⟨m, Finset.mem_filter.mpr ⟨List.mem_toFinset.mpr hkm, hcount⟩⟩ hpred
    exact hacyc x hx

end End

/-- Draining the iterator of a list of edges, whatever order `retain` visits the
keys in: no node twice; `is_valid` exactly when the graph has no cycle; and then
every node of an edge yielded, the start of each edge before its end. -/
theorem drain_ofEdges (es : List (α × α)) (order : List α)
    (horder : order.Perm (TopologicalSort.ofEdges es).keys) :
    (((TopologicalSort.ofEdges es).intoIterator order).drain.1.Nodup) ∧
      (((TopologicalSort.ofEdges es).intoIterator order).drain.2.isValid = true ↔ Acyclic es) ∧
      (Acyclic es →
        (∀ m, m ∈ ((TopologicalSort.ofEdges es).intoIterator order).drain.1 ↔ IsNode es m) ∧
        ∀ a b, (a, b) ∈ es →
          ((TopologicalSort.ofEdges es).intoIterator order).drain.1.idxOf a <
            ((TopologicalSort.ofEdges es).intoIterator order).drain.1.idxOf b) := by
  set it := (TopologicalSort.ofEdges es).intoIterator order
  have hinv : KahnInv es it.drain.1 it.drain.2 := by
    simpa [TopologicalSortIterator.drain] using
      (kahnInv_intoIterator es horder).drainFuel (it.potential + 1)
  have hq : it.drain.2.noEdges = [] := (next_eq_none_iff _).mp (next_drain it)
  have hvalid := hinv.isValid_iff hq
  refine ⟨hinv.out_nodup, hvalid, fun hacyc => ?_⟩
  have hall : ∀ m, IsNode es m → m ∈ it.drain.1 := by
    intro m hm
    have hv := hvalid.mpr hacyc
    unfold TopologicalSortIterator.isValid at hv
    rw [List.all_eq_true] at hv
    exact (hinv.mem_out_iff hq hm).mpr (by simpa using hv m ((hinv.keys m).mpr hm))
  refine ⟨fun m => ⟨fun h => (hinv.keys m).mp (hinv.out_count m h).1, hall m⟩, fun a b hab => ?_⟩
  exact (hinv.ordered a b hab (hall b (isNode_snd hab))).2

theorem drain_ofEdges_chain :
    ([1, 2, 3] : List ℕ).Perm (TopologicalSort.ofEdges [(1, 2), (2, 3)]).keys ∧
      (((TopologicalSort.ofEdges [(1, 2), (2, 3)]).intoIterator [1, 2, 3]).drain.1.Nodup) ∧
      (((TopologicalSort.ofEdges [(1, 2), (2, 3)]).intoIterator [1, 2, 3]).drain.2.isValid = true ↔
        Acyclic [((1 : ℕ), 2), (2, 3)]) ∧
      (Acyclic [((1 : ℕ), 2), (2, 3)] →
        (∀ m, m ∈ ((TopologicalSort.ofEdges [(1, 2), (2, 3)]).intoIterator [1, 2, 3]).drain.1 ↔
          IsNode [((1 : ℕ), 2), (2, 3)] m) ∧
        ∀ a b, (a, b) ∈ [((1 : ℕ), 2), (2, 3)] →
          ((TopologicalSort.ofEdges [(1, 2), (2, 3)]).intoIterator [1, 2, 3]).drain.1.idxOf a <
            ((TopologicalSort.ofEdges [(1, 2), (2, 3)]).intoIterator [1, 2, 3]).drain.1.idxOf b) :=
  ⟨by decide, drain_ofEdges [(1, 2), (2, 3)] [1, 2, 3] (by decide)⟩

end EsmpServer.Utils
