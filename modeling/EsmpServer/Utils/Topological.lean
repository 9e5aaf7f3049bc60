import Mathlib

/-!
# Kahn's algorithm of `utils::topological`

`TopologicalSort` records the edges inserted into it and, for every node met,
the number of edges into it, duplicates counted. `into_iterator` moves the nodes
with no edge into them to a queue; each call of `next` takes a node from the
back of the queue and lowers the count of each node its edges lead to, a node
whose count reaches zero leaving the map of counts for the front of the queue.
`is_valid` holds when the map of counts is empty.

The maps are functions here. The keys of the map of counts are a list beside
it, in the order they were met; a node leaves the map when its count is zero.
The order in which `retain` visits the keys is the hash map's, a parameter of
`intoIterator`. Draining the iterator ends: a step removes a node from the
queue and moves to it at most as many nodes as it takes off the counts
(`potential_next_lt`), so `drain` gives it enough fuel (`next_drain`).
-/

namespace EsmpServer.Utils

variable {α : Type} [DecidableEq α]

/-- `TopologicalSort`: the keys of `count`, the edges out of each node, and
the count of edges into each node. -/
structure TopologicalSort (α : Type) where
  keys : List α
  edges : α → List α
  count : α → ℕ

/-- `TopologicalSort::with_capacity`. -/
def TopologicalSort.withCapacity : TopologicalSort α := ⟨[], fun _ => [], fun _ => 0⟩

/-- `TopologicalSort::insert(from, to)`: `count.entry(from).or_insert(0)`, the
edge, then `count.entry(to) += 1`. -/
def TopologicalSort.insert (s : TopologicalSort α) (src dst : α) : TopologicalSort α :=
  let keys := if src ∈ s.keys then s.keys else s.keys ++ [src]
  let keys := if dst ∈ keys then keys else keys ++ [dst]
  ⟨keys, Function.update s.edges src (s.edges src ++ [dst]),
    Function.update s.count dst (s.count dst + 1)⟩

/-- The sort of a list of edges, inserted in order. -/
def TopologicalSort.ofEdges (es : List (α × α)) : TopologicalSort α :=
  es.foldl (fun s e => s.insert e.1 e.2) withCapacity

/-- `TopologicalSortIterator`: a key whose count is zero has left `count`. -/
structure TopologicalSortIterator (α : Type) where
  keys : List α
  edges : α → List α
  count : α → ℕ
  noEdges : List α

/-- `TopologicalSort::into_iterator`, `retain` visiting the keys in `order`: the
keys of count zero leave the map for the back of `no_edges`. -/
def TopologicalSort.intoIterator (s : TopologicalSort α) (order : List α) :
    TopologicalSortIterator α :=
  ⟨s.keys, s.edges, s.count, order.filter fun n => s.count n = 0⟩

namespace TopologicalSortIterator

/-- The loop body of `next` for one neighbour: a node still in `count` loses
one; at zero it leaves the map for the front of `no_edges`. -/
def decrement (it : TopologicalSortIterator α) (m : α) : TopologicalSortIterator α :=
  if m ∈ it.keys ∧ it.count m ≠ 0 then
    if it.count m - 1 = 0 then
      { it with count := Function.update it.count m 0, noEdges := m :: it.noEdges }
    else { it with count := Function.update it.count m (it.count m - 1) }
  else it

/-- `Iterator::next`: `pop_back` a node of `no_edges`, then lower its
neighbours. -/
def next (it : TopologicalSortIterator α) : Option (α × TopologicalSortIterator α) :=
  match it.noEdges.getLast? with
  | none => none
  | some n => some (n, (it.edges n).foldl decrement { it with noEdges := it.noEdges.dropLast })

/-- `is_valid`: the map of counts is empty. -/
def isValid (it : TopologicalSortIterator α) : Bool := it.keys.all fun n => it.count n = 0

/-- The nodes `next` yields, and the iterator left, with at most `fuel` calls. -/
def drainFuel : ℕ → TopologicalSortIterator α → List α × TopologicalSortIterator α
  | 0, it => ([], it)
  | fuel + 1, it =>
    match it.next with
    | none => ([], it)
    | some (n, it') =>
      let rest := drainFuel fuel it'
      (n :: rest.1, rest.2)

/-- What the iterator can still do: the nodes queued and the counts left. -/
def potential (it : TopologicalSortIterator α) : ℕ := it.noEdges.length + (it.keys.map it.count).sum

/-- Draining the iterator: `next` until it answers `None`. -/
def drain (it : TopologicalSortIterator α) : List α × TopologicalSortIterator α :=
  drainFuel (it.potential + 1) it

/-! ## A step lowers the potential -/

theorem sum_map_update_le (keys : List α) {f : α → ℕ} {m : α} {v : ℕ} (hv : v ≤ f m) :
    (keys.map (Function.update f m v)).sum ≤ (keys.map f).sum := by
  induction keys with
  | nil => exact Nat.le_refl 0
  | cons k keys ih =>
    simp only [List.map_cons, List.sum_cons]
    by_cases hk : k = m
    · subst hk
      rw [Function.update_self]
      omega
    · rw [Function.update_of_ne hk]
      omega

theorem sum_map_update_lt {keys : List α} {f : α → ℕ} {m : α} {v : ℕ} (hm : m ∈ keys)
    (hv : v < f m) : (keys.map (Function.update f m v)).sum < (keys.map f).sum := by
  induction keys with
  | nil => simp at hm
  | cons k keys ih =>
    simp only [List.map_cons, List.sum_cons]
    by_cases hk : k = m
    · subst hk
      have hle := sum_map_update_le keys (Nat.le_of_lt hv)
      rw [Function.update_self]
      omega
    · have hm' : m ∈ keys := (List.mem_cons.mp hm).resolve_left (Ne.symm hk)
      rw [Function.update_of_ne hk]
      have := ih hm'
      omega

theorem potential_decrement_le (it : TopologicalSortIterator α) (m : α) :
    (it.decrement m).potential ≤ it.potential := by
  unfold decrement
  split_ifs with hin hzero
  · have hlt := sum_map_update_lt (f := it.count) (v := 0) hin.1 (Nat.pos_of_ne_zero hin.2)
    simp only [potential, List.length_cons]
    omega
  · have hlt := sum_map_update_lt (f := it.count) (v := it.count m - 1) hin.1 (by omega)
    simp only [potential]
    omega
  · exact Nat.le_refl _

theorem potential_foldl_decrement_le (ms : List α) (it : TopologicalSortIterator α) :
    (ms.foldl decrement it).potential ≤ it.potential := by
  induction ms generalizing it with
  | nil => exact Nat.le_refl _
  | cons m ms ih => exact Nat.le_trans (ih (it.decrement m)) (potential_decrement_le it m)

theorem next_eq_none_iff (it : TopologicalSortIterator α) : it.next = none ↔ it.noEdges = [] := by
  unfold next
  split
  · rename_i h
    simpa using h
  · rename_i n h
    simp only [reduceCtorEq, false_iff]
    intro hnil
    simp [hnil] at h

theorem next_eq_some_iff {it it' : TopologicalSortIterator α} {n : α} :
    it.next = some (n, it') ↔ it.noEdges.getLast? = some n ∧
      it' = (it.edges n).foldl decrement { it with noEdges := it.noEdges.dropLast } := by
  unfold next
  split
  · rename_i h
    simp [h]
  · rename_i n' h
    simp only [h, Option.some.injEq, Prod.mk.injEq]
    constructor
    · rintro ⟨rfl, rfl⟩
      exact ⟨rfl, rfl⟩
    · rintro ⟨rfl, rfl⟩
      exact ⟨rfl, rfl⟩

theorem potential_next_lt {it it' : TopologicalSortIterator α} {n : α}
    (h : it.next = some (n, it')) : it'.potential < it.potential := by
  obtain ⟨hlast, rfl⟩ := next_eq_some_iff.mp h
  refine Nat.lt_of_le_of_lt (potential_foldl_decrement_le _ _) ?_
  obtain ⟨ys, hys⟩ := List.getLast?_eq_some_iff.mp hlast
  simp [potential, hys]

theorem next_drainFuel (fuel : ℕ) (it : TopologicalSortIterator α) (h : it.potential < fuel) :
    (drainFuel fuel it).2.next = none := by
  induction fuel generalizing it with
  | zero => omega
  | succ fuel ih =>
    unfold drainFuel
    split
    · assumption
    · rename_i n it' hnext
      exact ih it' (by have := potential_next_lt hnext; omega)

theorem drain_of_noEdges_nil {it : TopologicalSortIterator α} (h : it.noEdges = []) :
    it.drain = ([], it) := by
  have hnext : it.next = none := (next_eq_none_iff it).mpr h
  simp [drain, drainFuel, hnext]

theorem next_drain (it : TopologicalSortIterator α) : it.drain.2.next = none :=
  next_drainFuel _ it (Nat.lt_succ_self _)

-- the two tests of topological.rs, with the keys visited in the order they were met
example : ((TopologicalSort.ofEdges [(1, 2), (1, 3), (2, 4), (3, 4), (4, 5), (5, 6)]).intoIterator
    [1, 2, 3, 4, 5, 6]).drain.1 = [1, 2, 3, 4, 5, 6] := by decide

example : ((TopologicalSort.ofEdges [(1, 2), (2, 3), (3, 1)]).intoIterator [1, 2, 3]).drain.1 = [] ∧
    ((TopologicalSort.ofEdges [(1, 2), (2, 3), (3, 1)]).intoIterator [1, 2, 3]).drain.2.isValid =
      false := by decide

end TopologicalSortIterator

end EsmpServer.Utils
