import EsmpServer.Lib.StackPotential
import Mathlib

/-!
# Ordering the objects a `/set` request creates

`Response::resolve_references` (jmap-proto/src/response/references.rs) collects, for the
create map of a `/set` request, the creation ids each object references and that no earlier
method created: a graph from creation ids to the creation ids they reference.
`topological_sort` orders the create map so that every object comes after the objects it
references. It checks that every referenced id is a key of the create map, then walks the
graph depth first from each of its keys, with a stack of iterators and no set of visited
nodes: an object is placed when it leaves the create map, and a stack of more than 1000
frames is taken for a cycle. What the walk leaves in the create map is appended in order.

The create map (`VecMap`) is its list of entries. The graph (`HashMap`) is its list of
entries in the order the map iterates them, which is left open: every order may occur. The
loop is total: weighed by the potential of `StackPotential`, every turn lowers it.
-/

namespace EsmpServer.Jmap

variable {T : Type}

/-! ## The sort -/

/-- The errors of `topological_sort`: the kind of the `trc` event, with its details. -/
inductive SortError where
  | invalidResultReference (details : String)
  | invalidArguments (details : String)
  deriving DecidableEq, Repr

/-- The first loop of `topological_sort`: every referenced id is a key of the create map.
`{:?}` of an id is the id between quotes. -/
def checkReferences (create : List (String × T)) : List (String × List String) → Except SortError Unit
  | [] => .ok ()
  | (fromId, toIds) :: graph =>
    match toIds.find? fun toId => !create.any (·.1 == toId) with
    | some toId =>
      .error (.invalidResultReference
        ("Invalid reference to non-existing object \"" ++ toId ++ "\" from \"" ++ fromId ++ "\""))
    | none => checkReferences create graph

/-- `VecMap::remove_entry`: the first entry of the key, taken out in place. -/
def removeEntry (key : String) : List (String × T) → Option ((String × T) × List (String × T))
  | [] => none
  | kv :: create =>
    if kv.1 = key then some (kv, create)
    else (removeEntry key create).map fun (e, create) => (e, kv :: create)

/-- The variables of the loop of `topological_sort`: the iterator `it`, the stack of the
iterators below it, each with the id it stopped at, the create map and the sorted map. -/
structure SortState (T : Type) where
  it : List String
  itStack : List (List String × String)
  create : List (String × T)
  sortedCreate : List (String × T)

/-- What a turn of the loop does: go on, leave the loop with the sorted map and what is left
of the create map, or return an error. -/
inductive SortStep (T : Type) where
  | next (s : SortState T)
  | done (sortedCreate create : List (String × T))
  | error (e : SortError)

/-- `if let Some((id, value)) = create.remove_entry(from_id)`: the entry moves to the sorted
map, and the loop breaks when that leaves the create map empty. -/
def placeEntry (fromId : String) (it : List String) (itStack : List (List String × String))
    (create sortedCreate : List (String × T)) : SortStep T :=
  match removeEntry fromId create with
  | some (kv, create) =>
    if create.isEmpty then .done (sortedCreate ++ [kv]) create
    else .next ⟨it, itStack, create, sortedCreate ++ [kv]⟩
  | none => .next ⟨it, itStack, create, sortedCreate⟩

/-- The error of a stack of more than 1000 frames. -/
def cyclicalReferences : SortError := .invalidArguments "Cyclical references are not allowed."

/-- A turn of the loop: the next id of the iterator on top is pushed when it references
other ids and placed otherwise; an exhausted iterator gives way to the one below it, and the
id that iterator stopped at is placed. -/
def sortStep (graph : List (String × List String)) (s : SortState T) : SortStep T :=
  match s.it, s.itStack with
  | fromId :: it, itStack =>
    match graph.lookup fromId with
    | some toIds =>
      if itStack.length + 1 > 1000 then .error cyclicalReferences
      else .next ⟨toIds, (it, fromId) :: itStack, s.create, s.sortedCreate⟩
    | none => placeEntry fromId it itStack s.create s.sortedCreate
  | [], (prevIt, fromId) :: itStack => placeEntry fromId prevIt itStack s.create s.sortedCreate
  | [], [] => .done s.sortedCreate s.create

/-- The items left in each iterator, from the bottom of the stack to its top. -/
def SortState.levels (s : SortState T) : List ℕ :=
  (s.itStack.map fun frame => frame.1.length).reverse ++ [s.it.length]

/-- A bound above the length of every list the loop iterates. -/
def sortBase (graph : List (String × List String)) (s : SortState T) : ℕ :=
  StackPotential.maxLength (graph.map (·.2.length) ++ s.levels) + 2

/-- The potential of a state, at most 1001 levels deep. -/
def sortPotential (graph : List (String × List String)) (s : SortState T) : ℕ :=
  StackPotential.weight (sortBase graph s) 1001 0 s.levels

/-! ## What a turn does -/

section Turns

variable {graph : List (String × List String)}

theorem mem_of_lookup_eq_some {key : String} {toIds : List String} :
    ∀ {graph : List (String × List String)}, graph.lookup key = some toIds → (key, toIds) ∈ graph
  | [], h => nomatch h
  | (k, v) :: graph, h => by
    by_cases hk : key = k
    · subst hk
      simp only [List.lookup_cons_self, Option.some.injEq] at h
      exact h ▸ List.mem_cons_self ..
    · rw [List.lookup_cons, beq_false_of_ne hk] at h
      exact List.mem_cons_of_mem _ (mem_of_lookup_eq_some h)

theorem sortStep_take {fromId : String} {it : List String} {itStack : List (List String × String)}
    {create sortedCreate : List (String × T)} (hl : graph.lookup fromId = none) :
    sortStep graph ⟨fromId :: it, itStack, create, sortedCreate⟩ =
      placeEntry fromId it itStack create sortedCreate := by
  delta sortStep
  dsimp only
  rw [hl]

theorem sortStep_push {fromId : String} {it toIds : List String}
    {itStack : List (List String × String)} {create sortedCreate : List (String × T)}
    (hl : graph.lookup fromId = some toIds) :
    sortStep graph ⟨fromId :: it, itStack, create, sortedCreate⟩ =
      if itStack.length + 1 > 1000 then .error cyclicalReferences
      else .next ⟨toIds, (it, fromId) :: itStack, create, sortedCreate⟩ := by
  delta sortStep
  dsimp only
  rw [hl]

theorem placeEntry_eq_next {fromId : String} {it : List String}
    {itStack : List (List String × String)} {create sortedCreate : List (String × T)}
    {s' : SortState T} (h : placeEntry fromId it itStack create sortedCreate = .next s') :
    s'.it = it ∧ s'.itStack = itStack ∧
      ((∃ kv, removeEntry fromId create = some (kv, s'.create) ∧
          s'.sortedCreate = sortedCreate ++ [kv]) ∨
        (removeEntry fromId create = none ∧ s'.create = create ∧ s'.sortedCreate = sortedCreate)) := by
  unfold placeEntry at h
  split at h
  next kv create' hr =>
    split at h
    · cases h
    · cases h
      exact ⟨rfl, rfl, .inl ⟨kv, hr, rfl⟩⟩
  next hr =>
    cases h
    exact ⟨rfl, rfl, .inr ⟨hr, rfl, rfl⟩⟩

theorem placeEntry_eq_done {fromId : String} {it : List String}
    {itStack : List (List String × String)} {create sortedCreate sorted' create' : List (String × T)}
    (h : placeEntry fromId it itStack create sortedCreate = .done sorted' create') :
    create' = [] ∧ ∃ kv, removeEntry fromId create = some (kv, []) ∧ sorted' = sortedCreate ++ [kv] := by
  unfold placeEntry at h
  split at h
  next kv create'' hr =>
    split at h
    next hempty =>
      cases h
      have hnil : create' = [] := List.isEmpty_iff.mp hempty
      subst hnil
      exact ⟨rfl, kv, hr, rfl⟩
    next => cases h
  next => cases h

theorem sortStep_eq_next {s s' : SortState T} (h : sortStep graph s = .next s') :
    (∃ fromId it toIds, s.it = fromId :: it ∧ graph.lookup fromId = some toIds ∧
        s.itStack.length + 1 ≤ 1000 ∧ s' = ⟨toIds, (it, fromId) :: s.itStack, s.create, s.sortedCreate⟩) ∨
      (∃ fromId it, s.it = fromId :: it ∧ graph.lookup fromId = none ∧
        placeEntry fromId it s.itStack s.create s.sortedCreate = .next s') ∨
      (∃ prevIt fromId itStack, s.it = [] ∧ s.itStack = (prevIt, fromId) :: itStack ∧
        placeEntry fromId prevIt itStack s.create s.sortedCreate = .next s') := by
  rcases s with ⟨_ | ⟨fromId, it⟩, itStack, create, sortedCreate⟩
  · rcases itStack with _ | ⟨⟨prevIt, fromId⟩, itStack⟩
    · cases h
    · exact .inr (.inr ⟨prevIt, fromId, itStack, rfl, rfl, h⟩)
  · cases hl : graph.lookup fromId with
    | none =>
      exact .inr (.inl ⟨fromId, it, rfl, hl, sortStep_take hl ▸ h⟩)
    | some toIds =>
      rw [sortStep_push hl] at h
      split at h
      · cases h
      next hle =>
        cases h
        exact .inl ⟨fromId, it, toIds, rfl, hl, Nat.le_of_not_lt hle, rfl⟩

theorem sortStep_eq_done {s : SortState T} {sorted' create' : List (String × T)}
    (h : sortStep graph s = .done sorted' create') :
    (∃ fromId it, s.it = fromId :: it ∧ graph.lookup fromId = none ∧
        placeEntry fromId it s.itStack s.create s.sortedCreate = .done sorted' create') ∨
      (∃ prevIt fromId itStack, s.it = [] ∧ s.itStack = (prevIt, fromId) :: itStack ∧
        placeEntry fromId prevIt itStack s.create s.sortedCreate = .done sorted' create') ∨
      (s.it = [] ∧ s.itStack = [] ∧ sorted' = s.sortedCreate ∧ create' = s.create) := by
  rcases s with ⟨_ | ⟨fromId, it⟩, itStack, create, sortedCreate⟩
  · rcases itStack with _ | ⟨⟨prevIt, fromId⟩, itStack⟩
    · cases h
      exact .inr (.inr ⟨rfl, rfl, rfl, rfl⟩)
    · exact .inr (.inl ⟨prevIt, fromId, itStack, rfl, rfl, h⟩)
  · cases hl : graph.lookup fromId with
    | none =>
      exact .inl ⟨fromId, it, rfl, hl, sortStep_take hl ▸ h⟩
    | some toIds =>
      rw [sortStep_push hl] at h
      split at h <;> cases h

theorem placeEntry_ne_error {fromId : String} {it : List String}
    {itStack : List (List String × String)} {create sortedCreate : List (String × T)} {e : SortError} :
    placeEntry fromId it itStack create sortedCreate ≠ .error e := by
  unfold placeEntry
  split
  · split <;> nofun
  · nofun

theorem sortStep_eq_error {s : SortState T} {e : SortError} (h : sortStep graph s = .error e) :
    e = cyclicalReferences ∧ ∃ fromId it toIds, s.it = fromId :: it ∧
      graph.lookup fromId = some toIds ∧ 1000 < s.itStack.length + 1 := by
  rcases s with ⟨_ | ⟨fromId, it⟩, itStack, create, sortedCreate⟩
  · rcases itStack with _ | ⟨⟨prevIt, fromId⟩, itStack⟩
    · cases h
    · exact absurd h placeEntry_ne_error
  · cases hl : graph.lookup fromId with
    | none => exact absurd (sortStep_take hl ▸ h) placeEntry_ne_error
    | some toIds =>
      rw [sortStep_push hl] at h
      split at h
      · cases h
        exact ⟨rfl, fromId, it, toIds, rfl, hl, by omega⟩
      · cases h

end Turns

theorem removeEntry_eq_some {key : String} :
    ∀ {create create' : List (String × T)} {kv : String × T},
      removeEntry key create = some (kv, create') → kv.1 = key ∧ (kv :: create').Perm create
  | [], _, _, h => nomatch h
  | e :: create, create', kv, h => by
    by_cases he : e.1 = key
    · rw [removeEntry, if_pos he] at h
      cases h
      exact ⟨he, List.Perm.refl _⟩
    · rw [removeEntry, if_neg he] at h
      obtain ⟨⟨kv', rest⟩, hr, heq⟩ := Option.map_eq_some_iff.mp h
      cases heq
      obtain ⟨hk, hp⟩ := removeEntry_eq_some hr
      exact ⟨hk, (List.Perm.swap e kv rest).trans (hp.cons e)⟩

theorem removeEntry_eq_none {key : String} :
    ∀ {create : List (String × T)}, removeEntry key create = none → key ∉ create.map Prod.fst
  | [], _ => List.not_mem_nil
  | e :: create, h => by
    by_cases he : e.1 = key
    · rw [removeEntry, if_pos he] at h
      cases h
    · rw [removeEntry, if_neg he, Option.map_eq_none_iff] at h
      simp only [List.map_cons, List.mem_cons, not_or]
      exact ⟨Ne.symm he, removeEntry_eq_none h⟩

/-! ## The loop ends -/

theorem sortBase_le {s s' : SortState T}
    (h : ∀ x ∈ s'.levels, x ≤ StackPotential.maxLength (graph.map (·.2.length) ++ s.levels)) :
    sortBase graph s' ≤ sortBase graph s := by
  apply Nat.add_le_add_right
  apply StackPotential.maxLength_le
  intro x hx
  rcases List.mem_append.mp hx with hx | hx
  · exact StackPotential.le_maxLength (List.mem_append_left _ hx)
  · exact h x hx

theorem levels_push (it toIds : List String) (fromId : String)
    (itStack : List (List String × String)) (create sortedCreate : List (String × T)) :
    (⟨toIds, (it, fromId) :: itStack, create, sortedCreate⟩ : SortState T).levels =
      (itStack.map fun frame => frame.1.length).reverse ++ [it.length, toIds.length] := by
  simp [SortState.levels]

theorem sortPotential_lt {s s' : SortState T} (h : sortStep graph s = .next s') :
    sortPotential graph s' < sortPotential graph s := by
  have hbase : 0 < sortBase graph s := Nat.succ_pos _
  have hmem : ∀ x ∈ s.levels, x ≤ StackPotential.maxLength (graph.map (·.2.length) ++ s.levels) :=
    fun x hx => StackPotential.le_maxLength (List.mem_append_right _ hx)
  rcases sortStep_eq_next h with
    ⟨fromId, it, toIds, hit, hl, hdepth, rfl⟩ | ⟨fromId, it, hit, -, hp⟩ |
      ⟨prevIt, fromId, itStack, hit, hstack, hp⟩
  · -- a push: the new iterator is over a list of the graph
    have hlevels : s.levels = (s.itStack.map fun frame => frame.1.length).reverse ++ [it.length + 1] := by
      simp [SortState.levels, hit]
    have htoIds : toIds.length ≤ StackPotential.maxLength (graph.map (·.2.length) ++ s.levels) :=
      StackPotential.le_maxLength (List.mem_append_left _
        (List.mem_map.mpr ⟨(fromId, toIds), mem_of_lookup_eq_some hl, rfl⟩))
    have hle : sortBase graph ⟨toIds, (it, fromId) :: s.itStack, s.create, s.sortedCreate⟩ ≤
        sortBase graph s := by
      apply sortBase_le
      intro x hx
      rw [levels_push] at hx
      simp only [List.mem_append, List.mem_cons, List.not_mem_nil, or_false] at hx
      rcases hx with hx | rfl | rfl
      · exact hmem x (by rw [hlevels]; exact List.mem_append_left _ hx)
      · exact (Nat.le_succ _).trans (hmem _ (by rw [hlevels]; simp))
      · exact htoIds
    unfold sortPotential
    rw [levels_push, hlevels]
    calc StackPotential.weight (sortBase graph ⟨toIds, (it, fromId) :: s.itStack, s.create, s.sortedCreate⟩)
          1001 0 ((s.itStack.map fun frame => frame.1.length).reverse ++ [it.length, toIds.length])
        ≤ StackPotential.weight (sortBase graph s) 1001 0
            ((s.itStack.map fun frame => frame.1.length).reverse ++ [it.length, toIds.length]) :=
          StackPotential.weight_mono hle _ _
      _ < StackPotential.weight (sortBase graph s) 1001 0
            ((s.itStack.map fun frame => frame.1.length).reverse ++ [it.length + 1]) := by
          apply StackPotential.weight_push_lt hbase
          · simp only [List.length_reverse, List.length_map]
            omega
          · unfold sortBase
            omega
  · -- an id of the iterator on top is placed
    obtain ⟨hit', hstack', -⟩ := placeEntry_eq_next hp
    have hlevels : s.levels = (s.itStack.map fun frame => frame.1.length).reverse ++ [it.length + 1] := by
      simp [SortState.levels, hit]
    have hlevels' : s'.levels = (s.itStack.map fun frame => frame.1.length).reverse ++ [it.length] := by
      simp [SortState.levels, hit', hstack']
    have hle : sortBase graph s' ≤ sortBase graph s := by
      apply sortBase_le
      intro x hx
      rw [hlevels'] at hx
      simp only [List.mem_append, List.mem_singleton] at hx
      rcases hx with hx | rfl
      · exact hmem x (by rw [hlevels]; exact List.mem_append_left _ hx)
      · exact (Nat.le_succ _).trans (hmem _ (by rw [hlevels]; simp))
    unfold sortPotential
    rw [hlevels', hlevels]
    exact (StackPotential.weight_mono hle _ _).trans_lt (StackPotential.weight_take_lt hbase _ _ _)
  · -- a pop
    obtain ⟨hit', hstack', -⟩ := placeEntry_eq_next hp
    have hlevels : s.levels = (itStack.map fun frame => frame.1.length).reverse ++ [prevIt.length, 0] := by
      simp [SortState.levels, hit, hstack]
    have hlevels' : s'.levels = (itStack.map fun frame => frame.1.length).reverse ++ [prevIt.length] := by
      simp [SortState.levels, hit', hstack']
    have hle : sortBase graph s' ≤ sortBase graph s := by
      apply sortBase_le
      intro x hx
      apply hmem x
      rw [hlevels', List.mem_append] at hx
      rw [hlevels]
      rcases hx with hx | hx
      · exact List.mem_append_left _ hx
      · simp only [List.mem_singleton] at hx
        simp [hx]
    unfold sortPotential
    rw [hlevels', hlevels]
    exact (StackPotential.weight_mono hle _ _).trans_lt (StackPotential.weight_pop_lt hbase _ _ _)

/-- The loop of `topological_sort`, up to the sweep of what is left: the sorted map and what
is left of the create map. -/
def sortLoop (graph : List (String × List String)) (s : SortState T) :
    Except SortError (List (String × T) × List (String × T)) :=
  match _h : sortStep graph s with
  | .next s' => sortLoop graph s'
  | .done sortedCreate create => .ok (sortedCreate, create)
  | .error e => .error e
termination_by sortPotential graph s
decreasing_by exact sortPotential_lt _h

/-- `topological_sort`: the check, the walk from every key of the graph, then the entries
left in the create map, in their order. -/
def topologicalSort (create : List (String × T)) (graph : List (String × List String)) :
    Except SortError (List (String × T)) := do
  checkReferences create graph
  let (sortedCreate, create) ← sortLoop graph ⟨graph.map Prod.fst, [], create, []⟩
  return sortedCreate ++ create


/-! ## What the walk keeps -/

/-- The ids an object references: its list in the graph. -/
def refs (graph : List (String × List String)) (id : String) : List String := (graph.lookup id).getD []

/-- `id` references `id'`. -/
def Refers (graph : List (String × List String)) (id id' : String) : Prop := id' ∈ refs graph id

/-- Every object of the list comes after the objects it references. -/
def RefsBefore (graph : List (String × List String)) (l : List (String × T)) : Prop :=
  ∀ pre e post, l = pre ++ e :: post → ∀ r ∈ refs graph e.1, r ∈ pre.map Prod.fst

/-- An id of the create map is placed once an entry of it is in the sorted map. -/
def Placed (create₀ sortedCreate : List (String × T)) (id : String) : Prop :=
  id ∈ create₀.map Prod.fst → id ∈ sortedCreate.map Prod.fst

/-- Every id an iterator has moved past is placed, but the one whose frame is above it. The
bottom iterator runs over `keys`, the iterator above a frame over what its id references. -/
def FramesOk (graph : List (String × List String)) (keys : List String) (placed : String → Prop) :
    List (List String × String) → List String → Prop
  | [], it => ∃ pre, keys = pre ++ it ∧ ∀ c ∈ pre, placed c
  | (prevIt, fromId) :: itStack, it =>
    (∃ pre, refs graph fromId = pre ++ it ∧ ∀ c ∈ pre, placed c) ∧
      FramesOk graph keys placed itStack (fromId :: prevIt)

/-- What the sorted map and the create map keep: together they are the create map `create₀`
the loop started on, the sorted map is in order, and no id on a cycle of references is ever
placed. -/
structure MapsInv (graph : List (String × List String)) (create₀ sortedCreate create : List (String × T)) :
    Prop where
  perm : (sortedCreate ++ create).Perm create₀
  ordered : RefsBefore graph sortedCreate
  acyclic : ∀ x, Relation.TransGen (Refers graph) x x → x ∉ sortedCreate.map Prod.fst

/-- The invariant of the loop of `topological_sort` started on the create map `create₀`. -/
structure SortInv (graph : List (String × List String)) (create₀ : List (String × T))
    (s : SortState T) : Prop where
  maps : MapsInv graph create₀ s.sortedCreate s.create
  frames : FramesOk graph (graph.map Prod.fst) (Placed create₀ s.sortedCreate) s.itStack s.it

section Invariant

variable {graph : List (String × List String)} {keys : List String} {placed : String → Prop}

theorem refs_of_lookup_eq_none {id : String} (h : graph.lookup id = none) : refs graph id = [] := by
  simp [refs, h]

theorem mem_keys_of_refers {id id' : String} (h : Refers graph id id') : id ∈ graph.map Prod.fst := by
  unfold Refers refs at h
  cases hl : graph.lookup id with
  | none => simp [hl] at h
  | some toIds => exact List.mem_map.mpr ⟨(id, toIds), mem_of_lookup_eq_some hl, rfl⟩

theorem mem_keys_of_refers_of_checked {create₀ : List (String × T)}
    (hrefs : ∀ e ∈ graph, ∀ r ∈ e.2, r ∈ create₀.map Prod.fst) {id r : String}
    (h : Refers graph id r) : r ∈ create₀.map Prod.fst := by
  unfold Refers refs at h
  cases hl : graph.lookup id with
  | none => simp [hl] at h
  | some toIds =>
    rw [hl, Option.getD_some] at h
    exact hrefs _ (mem_of_lookup_eq_some hl) r h

theorem RefsBefore.append {l l' : List (String × T)} (hl : RefsBefore graph l)
    (h : ∀ e ∈ l', ∀ r ∈ refs graph e.1, r ∈ l.map Prod.fst) : RefsBefore graph (l ++ l') := by
  intro pre e post heq r hr
  rcases List.append_eq_append_iff.mp heq with ⟨a', rfl, hl'⟩ | ⟨c', hlc, hc⟩
  · have he : e ∈ l' := by rw [hl']; simp
    have := h e he r hr
    simp only [List.map_append, List.mem_append]
    exact .inl this
  · rcases c' with _ | ⟨e', c''⟩
    · rw [List.append_nil] at hlc
      subst hlc
      rw [List.nil_append] at hc
      exact h e (by rw [← hc]; exact List.mem_cons_self ..) r hr
    · rw [List.cons_append, List.cons.injEq] at hc
      obtain ⟨rfl, -⟩ := hc
      exact hl pre e c'' hlc r hr

theorem RefsBefore.refs_mem {l : List (String × T)} (hl : RefsBefore graph l) {id : String}
    (hid : id ∈ l.map Prod.fst) : ∀ r ∈ refs graph id, r ∈ l.map Prod.fst := by
  intro r hr
  obtain ⟨e, he, rfl⟩ := List.mem_map.mp hid
  obtain ⟨pre, post, rfl⟩ := List.mem_iff_append.mp he
  have := hl pre e post rfl r hr
  simp only [List.map_append, List.mem_append]
  exact .inl this

theorem Placed.mono {create₀ l : List (String × T)} (l' : List (String × T)) {id : String}
    (h : Placed create₀ l id) : Placed create₀ (l ++ l') id := by
  intro hid
  simp only [List.map_append, List.mem_append]
  exact .inl (h hid)

theorem FramesOk.mono {placed' : String → Prop} (hle : ∀ c, placed c → placed' c) :
    ∀ {itStack : List (List String × String)} {it : List String},
      FramesOk graph keys placed itStack it → FramesOk graph keys placed' itStack it
  | [], _, ⟨pre, hkeys, hpre⟩ => ⟨pre, hkeys, fun c hc => hle c (hpre c hc)⟩
  | (_, _) :: _, _, ⟨⟨pre, hrefs, hpre⟩, hrest⟩ =>
    ⟨⟨pre, hrefs, fun c hc => hle c (hpre c hc)⟩, FramesOk.mono hle hrest⟩

theorem FramesOk.advance {itStack : List (List String × String)} {c : String} {it : List String}
    (h : FramesOk graph keys placed itStack (c :: it)) (hc : placed c) :
    FramesOk graph keys placed itStack it := by
  rcases itStack with _ | ⟨⟨prevIt, fromId⟩, itStack⟩
  · obtain ⟨pre, hkeys, hpre⟩ := h
    refine ⟨pre ++ [c], by simp [hkeys], fun c' hc' => ?_⟩
    rcases List.mem_append.mp hc' with hc' | hc'
    · exact hpre c' hc'
    · rw [List.mem_singleton.mp hc']
      exact hc
  · obtain ⟨⟨pre, hrefs, hpre⟩, hrest⟩ := h
    refine ⟨⟨pre ++ [c], by simp [hrefs], fun c' hc' => ?_⟩, hrest⟩
    rcases List.mem_append.mp hc' with hc' | hc'
    · exact hpre c' hc'
    · rw [List.mem_singleton.mp hc']
      exact hc

theorem FramesOk.isChain :
    ∀ {itStack : List (List String × String)} {fromId : String} {it : List String},
      FramesOk graph keys placed itStack (fromId :: it) →
        ((itStack.map Prod.snd).reverse ++ [fromId]).IsChain (Refers graph)
  | [], _, _, _ => List.isChain_singleton _
  | (prevIt, g) :: itStack, fromId, it, ⟨⟨pre, hrefs, _⟩, hrest⟩ => by
    have hchain := FramesOk.isChain hrest
    rw [List.map_cons, List.reverse_cons, List.append_assoc, ← List.append_assoc]
    refine List.isChain_append.mpr ⟨hchain, List.isChain_singleton _, ?_⟩
    intro x hx y hy
    rw [List.getLast?_append_of_ne_nil _ (List.cons_ne_nil _ _), List.getLast?_singleton,
      Option.mem_some_iff] at hx
    rw [List.head?_singleton, Option.mem_some_iff] at hy
    subst hx hy
    show fromId ∈ refs graph g
    rw [hrefs]
    simp

end Invariant


/-! ## A turn keeps the invariant -/

section Cycles

variable {α : Type} {r : α → α → Prop}

theorem cycle_succ {x : α} (h : Relation.TransGen r x x) : ∃ y, r x y ∧ Relation.TransGen r y y := by
  obtain ⟨y, hxy, hyx⟩ := Relation.TransGen.head'_iff.mp h
  exact ⟨y, hxy, Relation.TransGen.tail' hyx hxy⟩

theorem cycle_pred {x : α} (h : Relation.TransGen r x x) : ∃ z, r z x := by
  obtain ⟨z, -, hzx⟩ := Relation.TransGen.tail'_iff.mp h
  exact ⟨z, hzx⟩

end Cycles

section Preservation

variable {graph : List (String × List String)} {create₀ : List (String × T)}

theorem MapsInv.place {fromId : String} {sorted create sorted' create' : List (String × T)}
    (hinv : MapsInv graph create₀ sorted create)
    (hrefs : ∀ r ∈ refs graph fromId, r ∈ sorted.map Prod.fst)
    (hplace : (∃ kv, removeEntry fromId create = some (kv, create') ∧ sorted' = sorted ++ [kv]) ∨
      (removeEntry fromId create = none ∧ create' = create ∧ sorted' = sorted)) :
    MapsInv graph create₀ sorted' create' ∧ Placed create₀ sorted' fromId ∧
      ∀ c, Placed create₀ sorted c → Placed create₀ sorted' c := by
  have hfrom : ¬ Relation.TransGen (Refers graph) fromId fromId := fun hc => by
    obtain ⟨y, hy, hcy⟩ := cycle_succ hc
    exact hinv.acyclic y hcy (hrefs y hy)
  rcases hplace with ⟨kv, hr, rfl⟩ | ⟨hr, rfl, rfl⟩
  · obtain ⟨hk, hp⟩ := removeEntry_eq_some hr
    refine ⟨⟨?_, ?_, ?_⟩, ?_, fun c hc => hc.mono [kv]⟩
    · rw [List.append_assoc, List.singleton_append]
      exact (hp.append_left sorted).trans hinv.perm
    · apply hinv.ordered.append
      intro e he r hr'
      rw [List.mem_singleton.mp he, hk] at hr'
      exact hrefs r hr'
    · intro x hx hmem
      rw [List.map_append, List.mem_append] at hmem
      rcases hmem with hmem | hmem
      · exact hinv.acyclic x hx hmem
      · rw [List.map_singleton, List.mem_singleton, hk] at hmem
        exact hfrom (hmem ▸ hx)
    · intro _
      simp [hk]
  · refine ⟨hinv, ?_, fun c hc => hc⟩
    intro hid
    have hmem := (hinv.perm.map Prod.fst).symm.subset hid
    rw [List.map_append, List.mem_append] at hmem
    exact hmem.resolve_right (removeEntry_eq_none hr)

theorem refs_placed_of_pop (hchecked : ∀ e ∈ graph, ∀ r ∈ e.2, r ∈ create₀.map Prod.fst)
    {sorted : List (String × T)} {fromId : String} {pre : List String}
    (hpre : refs graph fromId = pre ++ []) (hplaced : ∀ c ∈ pre, Placed create₀ sorted c) :
    ∀ r ∈ refs graph fromId, r ∈ sorted.map Prod.fst := by
  intro r hr
  have hr' : r ∈ pre := by rwa [hpre, List.append_nil] at hr
  exact hplaced r hr' (mem_keys_of_refers_of_checked hchecked hr)

variable (hchecked : ∀ e ∈ graph, ∀ r ∈ e.2, r ∈ create₀.map Prod.fst)
include hchecked

theorem SortInv.next {s s' : SortState T} (hinv : SortInv graph create₀ s)
    (h : sortStep graph s = .next s') : SortInv graph create₀ s' := by
  obtain ⟨hmaps, hframes⟩ := hinv
  rcases sortStep_eq_next h with
    ⟨fromId, it, toIds, hit, hl, -, rfl⟩ | ⟨fromId, it, hit, hl, hp⟩ |
      ⟨prevIt, fromId, itStack, hit, hstack, hp⟩
  · rw [hit] at hframes
    exact ⟨hmaps, ⟨[], by simp [refs, hl], by simp⟩, hframes⟩
  · obtain ⟨hit', hstack', hplace⟩ := placeEntry_eq_next hp
    obtain ⟨hmaps', hfrom, hmono⟩ := hmaps.place (by simp [refs_of_lookup_eq_none hl]) hplace
    rw [hit] at hframes
    refine ⟨hmaps', ?_⟩
    rw [hit', hstack']
    exact (hframes.mono hmono).advance hfrom
  · obtain ⟨hit', hstack', hplace⟩ := placeEntry_eq_next hp
    rw [hit, hstack] at hframes
    obtain ⟨⟨pre, hpre, hplaced⟩, hrest⟩ := hframes
    obtain ⟨hmaps', hfrom, hmono⟩ := hmaps.place (refs_placed_of_pop hchecked hpre hplaced) hplace
    refine ⟨hmaps', ?_⟩
    rw [hit', hstack']
    exact (hrest.mono hmono).advance hfrom

theorem SortInv.done {s : SortState T} {sorted' create' : List (String × T)}
    (hinv : SortInv graph create₀ s) (h : sortStep graph s = .done sorted' create') :
    MapsInv graph create₀ (sorted' ++ create') [] := by
  obtain ⟨hmaps, hframes⟩ := hinv
  rcases sortStep_eq_done h with
    ⟨fromId, it, -, hl, hp⟩ | ⟨prevIt, fromId, itStack, hit, hstack, hp⟩ |
      ⟨hit, hstack, rfl, rfl⟩
  · -- the create map empties on an id that references nothing
    obtain ⟨rfl, kv, hr, hsorted⟩ := placeEntry_eq_done hp
    rw [List.append_nil]
    exact (hmaps.place (by simp [refs_of_lookup_eq_none hl]) (.inl ⟨kv, hr, hsorted⟩)).1
  · -- the create map empties on a pop
    obtain ⟨rfl, kv, hr, hsorted⟩ := placeEntry_eq_done hp
    rw [hit, hstack] at hframes
    obtain ⟨⟨pre, hpre, hplaced⟩, -⟩ := hframes
    rw [List.append_nil]
    exact (hmaps.place (refs_placed_of_pop hchecked hpre hplaced) (.inl ⟨kv, hr, hsorted⟩)).1
  · -- the walk is over: every id of the graph is placed, so what is left references only
    -- placed ids
    rw [hit, hstack] at hframes
    obtain ⟨pre, hkeys, hplaced⟩ := hframes
    rw [List.append_nil] at hkeys
    have hleft : ∀ e ∈ s.create, e.1 ∈ graph.map Prod.fst → e.1 ∈ s.sortedCreate.map Prod.fst := by
      intro e he hkey
      have hC : e.1 ∈ create₀.map Prod.fst :=
        (hmaps.perm.map Prod.fst).subset (by simp only [List.map_append, List.mem_append]
                                             exact .inr (List.mem_map_of_mem he))
      exact hplaced e.1 (hkeys ▸ hkey) hC
    refine ⟨by rw [List.append_nil]; exact hmaps.perm, ?_, ?_⟩
    · apply hmaps.ordered.append
      intro e he r hr
      exact hmaps.ordered.refs_mem (hleft e he (mem_keys_of_refers hr)) r hr
    · intro x hx hmem
      rw [List.map_append, List.mem_append] at hmem
      rcases hmem with hmem | hmem
      · exact hmaps.acyclic x hx hmem
      · obtain ⟨e, he, rfl⟩ := List.mem_map.mp hmem
        obtain ⟨y, hy, -⟩ := cycle_succ hx
        exact hmaps.acyclic e.1 hx (hleft e he (mem_keys_of_refers hy))

end Preservation


/-! ## The sort -/

section Result

variable {graph : List (String × List String)} {create : List (String × T)}

theorem sortLoop_inv (P : SortState T → Prop)
    (Q : Except SortError (List (String × T) × List (String × T)) → Prop)
    (hnext : ∀ s s', P s → sortStep graph s = .next s' → P s')
    (hdone : ∀ s sorted' create', P s → sortStep graph s = .done sorted' create' →
      Q (.ok (sorted', create')))
    (herror : ∀ s e, P s → sortStep graph s = .error e → Q (.error e))
    (s : SortState T) (hs : P s) : Q (sortLoop graph s) := by
  fun_induction sortLoop graph s with
  | case1 s s' h ih => exact ih (hnext s s' hs h)
  | case2 s sorted' create' h => exact hdone s sorted' create' hs h
  | case3 s e h => exact herror s e hs h

theorem sortLoop_of_next {s s' : SortState T} (h : sortStep graph s = .next s') :
    sortLoop graph s = sortLoop graph s' := by
  rw [sortLoop]
  split
  next s'' heq =>
    rw [h] at heq
    cases heq
    rfl
  next heq => rw [h] at heq; cases heq
  next heq => rw [h] at heq; cases heq

theorem sortLoop_of_done {s : SortState T} {sorted' create' : List (String × T)}
    (h : sortStep graph s = .done sorted' create') : sortLoop graph s = .ok (sorted', create') := by
  refine sortLoop_inv (· = s) (· = .ok (sorted', create')) ?_ ?_ ?_ s rfl
  · rintro _ s' rfl hnext
    rw [h] at hnext
    cases hnext
  · rintro _ sorted'' create'' rfl hdone
    rw [h] at hdone
    cases hdone
    rfl
  · rintro _ e rfl herror
    rw [h] at herror
    cases herror

theorem any_fst_eq_iff {toId : String} :
    (create.any fun kv => kv.1 == toId) = true ↔ toId ∈ create.map Prod.fst := by
  simp [List.any_eq_true, List.mem_map]

theorem checkReferences_eq_ok_iff :
    ∀ {graph : List (String × List String)},
      checkReferences create graph = .ok () ↔ ∀ e ∈ graph, ∀ r ∈ e.2, r ∈ create.map Prod.fst
  | [] => by simp [checkReferences]
  | (fromId, toIds) :: graph => by
    rw [checkReferences, List.forall_mem_cons]
    split
    next toId hfind =>
      have hmissing := List.find?_some hfind
      rw [Bool.not_eq_true', Bool.eq_false_iff, ne_eq, any_fst_eq_iff] at hmissing
      simp only [reduceCtorEq, false_iff, not_and]
      exact fun hall => absurd (hall toId (List.mem_of_find?_eq_some hfind)) hmissing
    next hfind =>
      rw [checkReferences_eq_ok_iff]
      have hall : ∀ r ∈ toIds, r ∈ create.map Prod.fst := by
        intro r hr
        have := List.find?_eq_none.mp hfind r hr
        rwa [Bool.not_eq_true', Bool.not_eq_false, any_fst_eq_iff] at this
      exact ⟨fun h => ⟨hall, h⟩, fun h => h.2⟩

theorem checkReferences_eq_error {e : SortError} :
    ∀ {graph : List (String × List String)}, checkReferences create graph = .error e →
      ∃ fromId toIds toId, (fromId, toIds) ∈ graph ∧ toId ∈ toIds ∧ toId ∉ create.map Prod.fst ∧
        e = .invalidResultReference
          ("Invalid reference to non-existing object \"" ++ toId ++ "\" from \"" ++ fromId ++ "\"")
  | [], h => nomatch h
  | (fromId, toIds) :: graph, h => by
    rw [checkReferences] at h
    split at h
    next toId hfind =>
      cases h
      have hmissing := List.find?_some hfind
      rw [Bool.not_eq_true', Bool.eq_false_iff, ne_eq, any_fst_eq_iff] at hmissing
      exact ⟨fromId, toIds, toId, List.mem_cons_self .., List.mem_of_find?_eq_some hfind,
        hmissing, rfl⟩
    next =>
      obtain ⟨fromId', toIds', toId, hmem, hrest⟩ := checkReferences_eq_error h
      exact ⟨fromId', toIds', toId, List.mem_cons_of_mem _ hmem, hrest⟩

theorem topologicalSort_of_check_error {e : SortError}
    (h : checkReferences create graph = .error e) : topologicalSort create graph = .error e := by
  delta topologicalSort
  rw [h]
  rfl

theorem topologicalSort_of_check_ok (h : checkReferences create graph = .ok ()) :
    topologicalSort create graph =
      (sortLoop graph ⟨graph.map Prod.fst, [], create, []⟩).map fun r => r.1 ++ r.2 := by
  delta topologicalSort
  rw [h]
  rcases sortLoop graph ⟨graph.map Prod.fst, [], create, []⟩ with e | ⟨sorted, create'⟩ <;> rfl

theorem sortInv_start : SortInv graph create ⟨graph.map Prod.fst, [], create, []⟩ where
  maps := ⟨List.Perm.refl _, fun pre _ _ h => absurd h (by simp), fun _ _ h => by simp at h⟩
  frames := ⟨[], rfl, fun _ h => absurd h List.not_mem_nil⟩


theorem topologicalSort_of_missing (h : ∃ e ∈ graph, ∃ r ∈ e.2, r ∉ create.map Prod.fst) :
    ∃ details, topologicalSort create graph = .error (.invalidResultReference details) := by
  obtain ⟨e, he, r, hr, hmissing⟩ := h
  cases hcheck : checkReferences create graph with
  | error err =>
    obtain ⟨fromId, toIds, toId, -, -, -, hdetails⟩ := checkReferences_eq_error hcheck
    rw [hdetails] at hcheck
    exact ⟨_, topologicalSort_of_check_error hcheck⟩
  | ok u =>
    exact absurd (checkReferences_eq_ok_iff.mp hcheck e he r hr) hmissing

theorem topologicalSort_of_chains (hchecked : ∀ e ∈ graph, ∀ r ∈ e.2, r ∈ create.map Prod.fst)
    (hchains : ∀ path : List String, path.IsChain (Refers graph) → path.length ≤ 1000) :
    ∃ sorted, topologicalSort create graph = .ok sorted ∧ sorted.Perm create ∧
      RefsBefore graph sorted := by
  rw [topologicalSort_of_check_ok (checkReferences_eq_ok_iff.mpr hchecked)]
  refine sortLoop_inv (SortInv graph create)
    (fun res => ∃ sorted, res.map (fun r => r.1 ++ r.2) = .ok sorted ∧ sorted.Perm create ∧
      RefsBefore graph sorted)
    (fun s s' hs h => hs.next hchecked h) ?_ ?_ _ sortInv_start
  · intro s sorted' create' hs h
    have hm := hs.done hchecked h
    have hperm := hm.perm
    rw [List.append_nil] at hperm
    exact ⟨sorted' ++ create', rfl, hperm, hm.ordered⟩
  · intro s e hs h
    obtain ⟨-, fromId, it, toIds, hit, -, hdeep⟩ := sortStep_eq_error h
    have hframes := hs.frames
    rw [hit] at hframes
    have hlen := hchains _ hframes.isChain
    simp only [List.length_append, List.length_reverse, List.length_map,
      List.length_singleton] at hlen
    omega

theorem topologicalSort_of_cycle (hcycle : ∃ x, Relation.TransGen (Refers graph) x x) :
    ∃ e, topologicalSort create graph = .error e := by
  obtain ⟨x, hx⟩ := hcycle
  cases hcheck : checkReferences create graph with
  | error e => exact ⟨e, topologicalSort_of_check_error hcheck⟩
  | ok u =>
    have hchecked := checkReferences_eq_ok_iff.mp hcheck
    rw [topologicalSort_of_check_ok hcheck]
    refine sortLoop_inv (SortInv graph create)
      (fun res => ∃ e, res.map (fun r => r.1 ++ r.2) = .error e)
      (fun s s' hs h => hs.next hchecked h) ?_ (fun s e _ _ => ⟨e, rfl⟩) _ sortInv_start
    intro s sorted' create' hs h
    have hm := hs.done hchecked h
    obtain ⟨z, hz⟩ := cycle_pred hx
    have hperm := hm.perm
    rw [List.append_nil] at hperm
    have hC := (hperm.map Prod.fst).symm.subset (mem_keys_of_refers_of_checked hchecked hz)
    exact absurd hC (hm.acyclic x hx)

theorem topologicalSort_eq_ok {sorted : List (String × T)}
    (h : topologicalSort create graph = .ok sorted) :
    sorted.Perm create ∧ RefsBefore graph sorted := by
  cases hcheck : checkReferences create graph with
  | error e =>
    rw [topologicalSort_of_check_error hcheck] at h
    cases h
  | ok u =>
    have hchecked := checkReferences_eq_ok_iff.mp hcheck
    rw [topologicalSort_of_check_ok hcheck] at h
    revert h
    refine sortLoop_inv (SortInv graph create)
      (fun res => res.map (fun r => r.1 ++ r.2) = .ok sorted →
        sorted.Perm create ∧ RefsBefore graph sorted)
      (fun s s' hs h => hs.next hchecked h) ?_ (fun _ _ _ _ h => nomatch h) _ sortInv_start
    intro s sorted' create' hs h hok
    obtain rfl : sorted' ++ create' = sorted := Except.ok.inj hok
    have hm := hs.done hchecked h
    have hperm := hm.perm
    rw [List.append_nil] at hperm
    exact ⟨hperm, hm.ordered⟩

end Result

/-- `topological_sort` on the create map and the graph of its references: a reference to an id
that is not a key of the create map is an `invalidResultReference` error; with no chain of
references longer than 1000 ids (so no cycle) the create map comes back reordered, every object
after those it references; a cycle is an error. The sort is a total function. -/
theorem topologicalSort_references (create : List (String × T)) (graph : List (String × List String)) :
    ((∃ e ∈ graph, ∃ r ∈ e.2, r ∉ create.map Prod.fst) →
        ∃ details, topologicalSort create graph = .error (.invalidResultReference details)) ∧
      ((∀ e ∈ graph, ∀ r ∈ e.2, r ∈ create.map Prod.fst) →
        (∀ path : List String, path.IsChain (Refers graph) → path.length ≤ 1000) →
        ∃ sorted, topologicalSort create graph = .ok sorted ∧ sorted.Perm create ∧
          RefsBefore graph sorted) ∧
      ((∃ x, Relation.TransGen (Refers graph) x x) → ∃ e, topologicalSort create graph = .error e) :=
  ⟨topologicalSort_of_missing, topologicalSort_of_chains, topologicalSort_of_cycle⟩

theorem length_le_of_rank {α : Type} {R : α → α → Prop} (rank : α → ℕ) {n : ℕ}
    (hfall : ∀ x y, R x y → rank y < rank x) (hbound : ∀ x, rank x ≤ n) :
    ∀ {path : List α}, path.IsChain R → path.length ≤ n + 1
  | [], _ => Nat.zero_le _
  | x :: path, h => by
    have hrest : ∀ {x : α} {path : List α}, (x :: path).IsChain R → path.length ≤ rank x := by
      intro x path h
      induction path generalizing x with
      | nil => exact Nat.zero_le _
      | cons y path ih =>
        rw [List.isChain_cons_cons] at h
        have := ih h.2
        have := hfall x y h.1
        rw [List.length_cons]
        omega
    have := hrest h
    have := hbound x
    rw [List.length_cons]
    omega

/-- The rank of the graph where `b` references `a`. -/
def refersRankBA (id : String) : ℕ := if id = "b" then 1 else 0

theorem topologicalSort_references_bRefersA :
    (∃ details, topologicalSort [("b", 1), ("a", 2)] [("b", ["c"])] =
        .error (.invalidResultReference details)) ∧
      (∃ sorted, topologicalSort [("b", 1), ("a", 2)] [("b", ["a"])] = .ok sorted ∧
        sorted.Perm [("b", 1), ("a", 2)] ∧ RefsBefore [("b", ["a"])] sorted) ∧
      (∃ e, topologicalSort [("a", 1)] [("a", ["a"])] = .error e) := by
  refine ⟨(topologicalSort_references _ _).1 ⟨_, List.mem_singleton_self _, "c", by simp, by simp⟩,
    (topologicalSort_references _ _).2.1 (by simp) fun path h => ?_,
    (topologicalSort_references _ _).2.2 ⟨"a", .single (by simp [Refers, refs])⟩⟩
  refine length_le_of_rank refersRankBA (fun x y hxy => ?_) (fun x => ?_) h
  · by_cases hx : x = "b"
    · subst hx
      simp only [Refers, refs, List.lookup_cons_self, Option.getD_some, List.mem_singleton] at hxy
      subst hxy
      simp [refersRankBA]
    · simp [Refers, refs, List.lookup_cons, beq_false_of_ne hx] at hxy
  · unfold refersRankBA
    split <;> omega

end EsmpServer.Jmap
