import EsmpServer.Jmap.References
import EsmpServer.Lib.Fallible
import Mathlib

/-!
# Resolving the creation ids a request references

`Response::resolve_references` replaces each `#id` reference of a request by the id the
response created under that creation id. In the create map of a `/set` or of a `Blob/upload`,
a reference to an object the request itself creates stays, and becomes an edge of a graph from
the creation id of the object that holds it; `topological_sort` then orders the create map by
that graph, so that the objects can be created in the order of the map. Anywhere else an
unknown creation id is an error.

The types of values, ids, blob ids and result references are parameters: `From<&AnyId> for
Value` is `idValue`, and the evaluation of a result reference to a value is a field of the
response, as the method responses are not modelled. The hash map of the graph is a list whose
keys are in the order they were met; `topological_sort` is correct for every order of them.
-/

namespace EsmpServer.Jmap

variable {V I B ρ P : Type}

/-! ## The model -/

/-- `MaybeReference<V, String>`: a value, or a creation id. -/
inductive MaybeReference (V : Type) where
  | value (v : V)
  | reference (id : String)
  deriving DecidableEq, Repr

/-- `AnyId`: what `created_ids` holds. -/
inductive AnyId (I B : Type) where
  | id (id : I)
  | blob (blobId : B)
  deriving DecidableEq, Repr

/-- `SetValue`: the value and patch arms, which `eval_object_references` leaves alone, and the
three kinds of reference. -/
inductive RefValue (V I B ρ : Type) where
  | value (v : V)
  | patch (vs : List V)
  | idReference (r : MaybeReference (AnyId I B))
  | idReferences (rs : List (MaybeReference (AnyId I B)))
  | resultReference (rr : ρ)
  deriving DecidableEq, Repr

/-- What `resolve_references` reads of the `Response`: `created_ids`, and a result reference
evaluated to its ids and turned into a value (`eval_result_references(rr).unwrap_ids(rr)?`). -/
structure Response (V I B ρ : Type) where
  createdIds : List (String × AnyId I B)
  evalResultIds : ρ → Except SortError V

/-- `graph.entry(child_id).or_insert_with(Vec::new).push(parent_id)`. -/
def graphPush (childId parentId : String) : List (String × List String) → List (String × List String)
  | [] => [(childId, [parentId])]
  | (k, v) :: graph =>
    if k = childId then (k, v ++ [parentId]) :: graph else (k, v) :: graphPush childId parentId graph

/-- The error of a reference that is neither created nor, outside a create map, allowed to
wait. `{:?}` of an id is the id between quotes. -/
def idReferenceNotFound (parentId : String) : SortError :=
  .invalidResultReference ("Id reference \"" ++ parentId ++ "\" not found.")

section Eval

variable (resp : Response V I B ρ)

/-- One reference `parent_id` met by `eval_object_references`: the id created under it; else,
with a graph, an edge from the object `child` being evaluated; else an error. -/
def evalParentId (child : Option String) (graph : List (String × List String)) (parentId : String) :
    Except SortError (Option (AnyId I B) × List (String × List String)) :=
  match resp.createdIds.lookup parentId with
  | some id => .ok (some id, graph)
  | none =>
    match child with
    | some childId => .ok (none, graphPush childId parentId graph)
    | none => .error (idReferenceNotFound parentId)

/-- The loop over the references of an `IdReferences` value. -/
def evalIdReferences (child : Option String) :
    List (String × List String) → List (MaybeReference (AnyId I B)) →
      Except SortError (List (MaybeReference (AnyId I B)) × List (String × List String))
  | graph, [] => .ok ([], graph)
  | graph, .value id :: idRefs => do
    let (idRefs, graph) ← evalIdReferences child graph idRefs
    return (.value id :: idRefs, graph)
  | graph, .reference parentId :: idRefs => do
    let (id, graph) ← evalParentId resp child graph parentId
    let (idRefs, graph) ← evalIdReferences child graph idRefs
    let idRef := match id with
      | some id => .value id
      | none => .reference parentId
    return (idRef :: idRefs, graph)

variable (idValue : AnyId I B → V)

/-- The arm of `eval_object_references` for one value of the object. -/
def evalSetValue (child : Option String) (graph : List (String × List String)) :
    RefValue V I B ρ → Except SortError (RefValue V I B ρ × List (String × List String))
  | .idReference (.reference parentId) => do
    let (id, graph) ← evalParentId resp child graph parentId
    let value := match id with
      | some id => .value (idValue id)
      | none => .idReference (.reference parentId)
    return (value, graph)
  | .idReferences idRefs => do
    let (idRefs, graph) ← evalIdReferences resp child graph idRefs
    return (.idReferences idRefs, graph)
  | .resultReference rr => do
    let value ← resp.evalResultIds rr
    return (.value value, graph)
  | value => .ok (value, graph)

/-- `eval_object_references`: every value of the object, in order. `child` is the creation id
of the object when the references may wait in the graph. -/
def evalObjectReferences (child : Option String) :
    List (String × List String) → List (P × RefValue V I B ρ) →
      Except SortError (List (P × RefValue V I B ρ) × List (String × List String))
  | graph, [] => .ok ([], graph)
  | graph, (property, value) :: obj => do
    let (value, graph) ← evalSetValue resp idValue child graph value
    let (obj, graph) ← evalObjectReferences child graph obj
    return ((property, value) :: obj, graph)

/-- The create loop of the `/set` arm: each object under its creation id, with the graph. -/
def evalCreates :
    List (String × List (P × RefValue V I B ρ)) → List (String × List String) →
      Except SortError (List (String × List (P × RefValue V I B ρ)) × List (String × List String))
  | [], graph => .ok ([], graph)
  | (id, obj) :: create, graph => do
    let (obj, graph) ← evalObjectReferences resp idValue (some id) graph obj
    let (create, graph) ← evalCreates create graph
    return ((id, obj) :: create, graph)

/-- The update loop of the `/set` arm: no graph. -/
def evalUpdates {K : Type} :
    List (K × List (P × RefValue V I B ρ)) → Except SortError (List (K × List (P × RefValue V I B ρ)))
  | [] => .ok []
  | (id, obj) :: update => do
    let (obj, _) ← evalObjectReferences resp idValue none [] obj
    let update ← evalUpdates update
    return (id, obj) :: update

end Eval

/-- The graph as `topological_sort` reads it: a `HashMap`, whose keys come in the order
`hashOrder` lists them, each with its references. -/
def readInOrder (hashOrder : List String → List String) (graph : List (String × List String)) :
    List (String × List String) :=
  (hashOrder (graph.map Prod.fst)).map fun k => (k, refs graph k)

/-- The end of both arms that create: `if !graph.is_empty()` the create map is sorted. -/
def sortIfReferenced {T : Type} (hashOrder : List String → List String) (create : List (String × T))
    (graph : List (String × List String)) : Except SortError (List (String × T)) :=
  if graph.isEmpty then .ok create else topologicalSort create (readInOrder hashOrder graph)

/-- The create and update maps of `SetRequest` that `resolve_references` rewrites. -/
structure SetRequest (K P V I B ρ : Type) where
  create : Option (List (String × List (P × RefValue V I B ρ)))
  update : Option (List (K × List (P × RefValue V I B ρ)))

/-- The create map of the `/set` arm: evaluated with the graph, then sorted. -/
def resolveSetCreate (resp : Response V I B ρ) (idValue : AnyId I B → V)
    (hashOrder : List String → List String) (create : List (String × List (P × RefValue V I B ρ))) :
    Except SortError (List (String × List (P × RefValue V I B ρ))) := do
  let (create, graph) ← evalCreates resp idValue create []
  sortIfReferenced hashOrder create graph

/-- The `RequestMethod::Set` arm of `resolve_references`, but for `destroy`. -/
def resolveSet {K : Type} (resp : Response V I B ρ) (idValue : AnyId I B → V)
    (hashOrder : List String → List String) (request : SetRequest K P V I B ρ) :
    Except SortError (SetRequest K P V I B ρ) := do
  let create ← request.create.mapM (resolveSetCreate resp idValue hashOrder)
  let update ← request.update.mapM (evalUpdates resp idValue)
  return ⟨create, update⟩

/-! ## `Blob/upload` -/

/-- `DataSourceObject`: a blob, by id or by creation id, with its range, or the bytes. -/
inductive DataSourceObject (B : Type) where
  | id (id : MaybeReference B) (length offset : Option ℕ)
  | value (bytes : List UInt8)
  deriving DecidableEq, Repr

/-- The error of a creation id that names something other than a blob. -/
def idReferenceInvalidType (parentId : String) : SortError :=
  .invalidResultReference ("Id reference \"" ++ parentId ++ "\" points to invalid type.")

/-- One creation id met in the data of the upload object `createId`: the blob created under it,
else an edge from the object; an id of another kind is an error. -/
def evalUploadReference (resp : Response V I B ρ) (createId : String)
    (graph : List (String × List String)) (parentId : String) :
    Except SortError (Option B × List (String × List String)) :=
  match resp.createdIds.lookup parentId with
  | some (.blob blobId) => .ok (some blobId, graph)
  | some (.id _) => .error (idReferenceInvalidType parentId)
  | none => .ok (none, graphPush createId parentId graph)

/-- The loop over the data of one upload object `createId`. -/
def evalUploadData (resp : Response V I B ρ) (createId : String) :
    List (String × List String) → List (DataSourceObject B) →
      Except SortError (List (DataSourceObject B) × List (String × List String))
  | graph, [] => .ok ([], graph)
  | graph, .id (.reference parentId) length offset :: data => do
    let (blobId, graph) ← evalUploadReference resp createId graph parentId
    let (data, graph) ← evalUploadData resp createId graph data
    let id := match blobId with
      | some blobId => .value blobId
      | none => .reference parentId
    return (.id id length offset :: data, graph)
  | graph, item :: data => do
    let (data, graph) ← evalUploadData resp createId graph data
    return (item :: data, graph)

/-- The loop of the `RequestMethod::UploadBlob` arm over the create map, the objects reduced to
their data. -/
def evalUploads (resp : Response V I B ρ) :
    List (String × List (DataSourceObject B)) → List (String × List String) →
      Except SortError (List (String × List (DataSourceObject B)) × List (String × List String))
  | [], graph => .ok ([], graph)
  | (createId, data) :: create, graph => do
    let (data, graph) ← evalUploadData resp createId graph data
    let (create, graph) ← evalUploads resp create graph
    return ((createId, data) :: create, graph)

/-- The `RequestMethod::UploadBlob` arm of `resolve_references`. -/
def resolveUpload (resp : Response V I B ρ) (hashOrder : List String → List String)
    (create : List (String × List (DataSourceObject B))) :
    Except SortError (List (String × List (DataSourceObject B))) := do
  let (create, graph) ← evalUploads resp create []
  sortIfReferenced hashOrder create graph


/-! ## What is left to resolve -/

/-- The creation ids a list of references still names. -/
def pendingIds : List (MaybeReference (AnyId I B)) → List String
  | [] => []
  | .value _ :: idRefs => pendingIds idRefs
  | .reference parentId :: idRefs => parentId :: pendingIds idRefs

/-- The creation ids a value still names. -/
def RefValue.pending : RefValue V I B ρ → List String
  | .idReference (.reference parentId) => [parentId]
  | .idReferences idRefs => pendingIds idRefs
  | _ => []

/-- The creation ids an object still names, in the order of its values. -/
def objectPending (obj : List (P × RefValue V I B ρ)) : List String :=
  obj.flatMap fun pv => pv.2.pending

/-- The creation ids the data of an upload object still names. -/
def dataPending : List (DataSourceObject B) → List String
  | [] => []
  | .id (.reference parentId) _ _ :: data => parentId :: dataPending data
  | _ :: data => dataPending data

/-- A creation id the response has not created. -/
def notCreated (resp : Response V I B ρ) (parentId : String) : Bool :=
  (resp.createdIds.lookup parentId).isNone

@[simp] theorem pendingIds_value_cons (id : AnyId I B) (idRefs : List (MaybeReference (AnyId I B))) :
    pendingIds (.value id :: idRefs) = pendingIds idRefs := rfl

@[simp] theorem pendingIds_reference_cons (parentId : String)
    (idRefs : List (MaybeReference (AnyId I B))) :
    pendingIds (.reference parentId :: idRefs) = parentId :: pendingIds idRefs := rfl

@[simp] theorem objectPending_cons (property : P) (value : RefValue V I B ρ)
    (obj : List (P × RefValue V I B ρ)) :
    objectPending ((property, value) :: obj) = value.pending ++ objectPending obj := rfl

@[simp] theorem dataPending_reference_cons (parentId : String) (length offset : Option ℕ)
    (data : List (DataSourceObject B)) :
    dataPending (.id (.reference parentId) length offset :: data) = parentId :: dataPending data := rfl

@[simp] theorem dataPending_value_cons (blobId : B) (length offset : Option ℕ)
    (data : List (DataSourceObject B)) :
    dataPending (.id (.value blobId) length offset :: data) = dataPending data := rfl

@[simp] theorem dataPending_bytes_cons (bytes : List UInt8) (data : List (DataSourceObject B)) :
    dataPending (.value bytes :: data) = dataPending data := rfl

theorem filter_notCreated_of_lookup_eq_some {resp : Response V I B ρ} {parentId : String}
    {id : AnyId I B} (h : resp.createdIds.lookup parentId = some id) (ps : List String) :
    (parentId :: ps).filter (notCreated resp) = ps.filter (notCreated resp) := by
  simp [notCreated, h]

theorem filter_notCreated_of_lookup_eq_none {resp : Response V I B ρ} {parentId : String}
    (h : resp.createdIds.lookup parentId = none) (ps : List String) :
    (parentId :: ps).filter (notCreated resp) = parentId :: ps.filter (notCreated resp) := by
  simp [notCreated, h]

/-! ## The graph -/

theorem refs_cons_of_eq {k k' : String} {v : List String} {graph : List (String × List String)}
    (h : k = k') : refs ((k', v) :: graph) k = v := by
  subst h
  simp [refs]

theorem refs_cons_of_ne {k k' : String} {v : List String} {graph : List (String × List String)}
    (h : k ≠ k') : refs ((k', v) :: graph) k = refs graph k := by
  simp only [refs, List.lookup_cons, beq_false_of_ne h]

theorem refs_graphPush (childId parentId k : String) (graph : List (String × List String)) :
    refs (graphPush childId parentId graph) k =
      if k = childId then refs graph k ++ [parentId] else refs graph k := by
  induction graph with
  | nil =>
    by_cases hk : k = childId
    · rw [if_pos hk, graphPush, refs_cons_of_eq hk]
      rfl
    · rw [if_neg hk, graphPush, refs_cons_of_ne hk]
  | cons e graph ih =>
    obtain ⟨k', v⟩ := e
    by_cases hk' : k' = childId
    · rw [graphPush, if_pos hk']
      by_cases hk : k = k'
      · rw [refs_cons_of_eq hk, refs_cons_of_eq hk, if_pos (hk.trans hk')]
      · rw [refs_cons_of_ne hk, refs_cons_of_ne hk, if_neg (fun h => hk (h.trans hk'.symm))]
    · rw [graphPush, if_neg hk']
      by_cases hk : k = k'
      · rw [refs_cons_of_eq hk, refs_cons_of_eq hk, if_neg (fun h => hk' (hk.symm.trans h))]
      · rw [refs_cons_of_ne hk, refs_cons_of_ne hk, ih]

theorem refs_map_pair (f : String → List String) (k : String) :
    ∀ ks : List String, refs (ks.map fun k' => (k', f k')) k = if k ∈ ks then f k else []
  | [] => by simp [refs]
  | k' :: ks => by
    by_cases h : k = k'
    · subst h
      rw [List.map_cons, refs_cons_of_eq rfl, if_pos List.mem_cons_self]
    · rw [List.map_cons, refs_cons_of_ne h, refs_map_pair f k ks]
      simp [h]

theorem refs_readInOrder {hashOrder : List String → List String}
    (horder : ∀ ks, (hashOrder ks).Perm ks) (graph : List (String × List String)) (k : String) :
    refs (readInOrder hashOrder graph) k = refs graph k := by
  rw [readInOrder, refs_map_pair]
  split_ifs with hk
  · rfl
  · have hkeys : k ∉ graph.map Prod.fst := fun h => hk ((horder _).mem_iff.mpr h)
    exact (List.eq_nil_iff_forall_not_mem.mpr fun r hr => hkeys (mem_keys_of_refers hr)).symm

/-- `graph'` is `graph` with edges from `child` to `ps` added, in order. -/
def Pushed (child : Option String) (graph : List (String × List String)) (ps : List String)
    (graph' : List (String × List String)) : Prop :=
  ∀ k, refs graph' k = if child = some k then refs graph k ++ ps else refs graph k

namespace Pushed

variable {child : Option String} {graph graph' graph'' : List (String × List String)}
  {ps qs : List String}

theorem refl (child : Option String) (graph : List (String × List String)) :
    Pushed child graph [] graph := by
  intro k
  split <;> simp

theorem trans (h : Pushed child graph ps graph') (h' : Pushed child graph' qs graph'') :
    Pushed child graph (ps ++ qs) graph'' := by
  intro k
  rw [h' k, h k]
  split <;> simp

theorem graphPush (childId parentId : String) (graph : List (String × List String)) :
    Pushed (some childId) graph [parentId] (EsmpServer.Jmap.graphPush childId parentId graph) := by
  intro k
  rw [refs_graphPush]
  by_cases hk : k = childId
  · rw [if_pos hk, if_pos (by rw [hk])]
  · rw [if_neg hk, if_neg (fun h => hk (Option.some.inj h).symm)]

theorem subset (h : Pushed child graph ps graph') (k : String) : refs graph k ⊆ refs graph' k := by
  intro r hr
  rw [h k]
  split
  · exact List.mem_append_left _ hr
  · exact hr

theorem mem (h : Pushed (some childId) graph ps graph') {p : String} (hp : p ∈ ps) :
    p ∈ refs graph' childId := by
  rw [h childId, if_pos rfl]
  exact List.mem_append_right _ hp

end Pushed


/-! ## What the evaluation does -/

section Spec

variable {resp : Response V I B ρ} {idValue : AnyId I B → V} {child : Option String}

theorem evalParentId_eq_ok {graph graph' : List (String × List String)} {parentId : String}
    {id : Option (AnyId I B)} (h : evalParentId resp child graph parentId = .ok (id, graph')) :
    id = resp.createdIds.lookup parentId ∧ (id = none → child.isSome) ∧
      Pushed child graph (if id.isSome then [] else [parentId]) graph' := by
  delta evalParentId at h
  cases hl : resp.createdIds.lookup parentId with
  | some id' =>
    rw [hl] at h
    cases h
    exact ⟨rfl, nofun, Pushed.refl _ _⟩
  | none =>
    rw [hl] at h
    cases child with
    | some childId =>
      cases h
      exact ⟨rfl, fun _ => rfl, Pushed.graphPush _ _ _⟩
    | none => cases h

theorem evalIdReferences_eq_ok :
    ∀ {graph graph' : List (String × List String)} {idRefs idRefs' : List (MaybeReference (AnyId I B))},
      evalIdReferences resp child graph idRefs = .ok (idRefs', graph') →
        pendingIds idRefs' = (pendingIds idRefs).filter (notCreated resp) ∧
          (child = none → pendingIds idRefs' = []) ∧ Pushed child graph (pendingIds idRefs') graph'
  | _, _, [], _, h => by
    cases h
    exact ⟨rfl, fun _ => rfl, Pushed.refl _ _⟩
  | _, _, .value id :: idRefs, _, h => by
    obtain ⟨⟨rest, graph₁⟩, hrest, hret⟩ := Except.bind_eq_ok.mp h
    cases hret
    have hspec := evalIdReferences_eq_ok hrest
    rw [pendingIds_value_cons, pendingIds_value_cons]
    exact hspec
  | _, _, .reference parentId :: idRefs, _, h => by
    obtain ⟨⟨id, graph₁⟩, hid, h⟩ := Except.bind_eq_ok.mp h
    obtain ⟨⟨rest, graph₂⟩, hrest, hret⟩ := Except.bind_eq_ok.mp h
    obtain ⟨hlookup, hchild, hpushed⟩ := evalParentId_eq_ok hid
    obtain ⟨hpend, hnone, hpushed'⟩ := evalIdReferences_eq_ok hrest
    cases id with
    | some id =>
      cases hret
      rw [pendingIds_value_cons, pendingIds_reference_cons,
        filter_notCreated_of_lookup_eq_some hlookup.symm]
      exact ⟨hpend, hnone, hpushed.trans hpushed'⟩
    | none =>
      cases hret
      rw [pendingIds_reference_cons, pendingIds_reference_cons,
        filter_notCreated_of_lookup_eq_none hlookup.symm, hpend]
      refine ⟨rfl, fun hc => absurd (hchild rfl) (by rw [hc]; exact Bool.false_ne_true), ?_⟩
      rw [← hpend]
      exact hpushed.trans hpushed'

variable (resp) in
/-- What one value becomes: what `evalIdReferences_eq_ok` says of its references. -/
def ValueEvaluated (child : Option String) (graph : List (String × List String))
    (pending pending' : List String) (graph' : List (String × List String)) : Prop :=
  pending' = pending.filter (notCreated resp) ∧ (child = none → pending' = []) ∧
    Pushed child graph pending' graph'

theorem evalSetValue_eq_ok {graph graph' : List (String × List String)} {value value' : RefValue V I B ρ}
    (h : evalSetValue resp idValue child graph value = .ok (value', graph')) :
    ValueEvaluated resp child graph value.pending value'.pending graph' := by
  rcases value with v | vs | ⟨id | parentId⟩ | idRefs | rr
  · cases h
    exact ⟨rfl, fun _ => rfl, Pushed.refl _ _⟩
  · cases h
    exact ⟨rfl, fun _ => rfl, Pushed.refl _ _⟩
  · cases h
    exact ⟨rfl, fun _ => rfl, Pushed.refl _ _⟩
  · obtain ⟨⟨id, graph₁⟩, hid, hret⟩ := Except.bind_eq_ok.mp h
    obtain ⟨hlookup, hchild, hpushed⟩ := evalParentId_eq_ok hid
    cases id with
    | some id =>
      cases hret
      exact ⟨(filter_notCreated_of_lookup_eq_some hlookup.symm []).symm, fun _ => rfl, hpushed⟩
    | none =>
      cases hret
      exact ⟨(filter_notCreated_of_lookup_eq_none hlookup.symm []).symm,
        fun hc => absurd (hchild rfl) (by rw [hc]; exact Bool.false_ne_true), hpushed⟩
  · obtain ⟨⟨idRefs', graph₁⟩, hrefs, hret⟩ := Except.bind_eq_ok.mp h
    cases hret
    exact evalIdReferences_eq_ok hrefs
  · obtain ⟨v, -, hret⟩ := Except.bind_eq_ok.mp h
    cases hret
    exact ⟨rfl, fun _ => rfl, Pushed.refl _ _⟩

theorem evalObjectReferences_eq_ok :
    ∀ {graph graph' : List (String × List String)} {obj obj' : List (P × RefValue V I B ρ)},
      evalObjectReferences resp idValue child graph obj = .ok (obj', graph') →
        obj'.map Prod.fst = obj.map Prod.fst ∧
          ValueEvaluated resp child graph (objectPending obj) (objectPending obj') graph'
  | _, _, [], _, h => by
    cases h
    exact ⟨rfl, rfl, fun _ => rfl, Pushed.refl _ _⟩
  | _, _, (property, value) :: obj, _, h => by
    obtain ⟨⟨value', graph₁⟩, hvalue, h⟩ := Except.bind_eq_ok.mp h
    obtain ⟨⟨obj', graph₂⟩, hobj, hret⟩ := Except.bind_eq_ok.mp h
    cases hret
    obtain ⟨hpend, hnone, hpushed⟩ := evalSetValue_eq_ok hvalue
    obtain ⟨hkeys, hpend', hnone', hpushed'⟩ := evalObjectReferences_eq_ok hobj
    refine ⟨by rw [List.map_cons, List.map_cons, hkeys], ?_, ?_, ?_⟩
    · rw [objectPending_cons, objectPending_cons, List.filter_append, hpend, hpend']
    · intro hc
      rw [objectPending_cons, hnone hc, hnone' hc]
      rfl
    · rw [objectPending_cons]
      exact hpushed.trans hpushed'

theorem evalCreates_eq_ok :
    ∀ {graph graph' : List (String × List String)} {create create' : List (String × List (P × RefValue V I B ρ))},
      evalCreates resp idValue create graph = .ok (create', graph') →
        List.Forall₂ (fun e e' => e'.1 = e.1 ∧ e'.2.map Prod.fst = e.2.map Prod.fst ∧
          objectPending e'.2 = (objectPending e.2).filter (notCreated resp)) create create' ∧
        (∀ k, refs graph k ⊆ refs graph' k) ∧
        ∀ e' ∈ create', ∀ p ∈ objectPending e'.2, p ∈ refs graph' e'.1
  | _, _, [], _, h => by
    cases h
    exact ⟨.nil, fun _ => List.Subset.refl _, nofun⟩
  | _, _, (id, obj) :: create, _, h => by
    obtain ⟨⟨obj', graph₁⟩, hobj, h⟩ := Except.bind_eq_ok.mp h
    obtain ⟨⟨create', graph₂⟩, hcreate, hret⟩ := Except.bind_eq_ok.mp h
    cases hret
    obtain ⟨hkeys, hpend, -, hpushed⟩ := evalObjectReferences_eq_ok hobj
    obtain ⟨hrest, hmono, hedges⟩ := evalCreates_eq_ok hcreate
    refine ⟨.cons ⟨rfl, hkeys, hpend⟩ hrest, fun k _ hr => hmono k (hpushed.subset k hr), ?_⟩
    intro e' he' p hp
    rcases List.mem_cons.mp he' with rfl | he'
    · exact hmono id (hpushed.mem hp)
    · exact hedges e' he' p hp

theorem evalUpdates_eq_ok {K : Type} :
    ∀ {update update' : List (K × List (P × RefValue V I B ρ))},
      evalUpdates resp idValue update = .ok update' →
        List.Forall₂ (fun e e' => e'.1 = e.1 ∧ e'.2.map Prod.fst = e.2.map Prod.fst ∧
          objectPending e'.2 = [] ∧ ∀ p ∈ objectPending e.2, notCreated resp p = false) update update'
  | [], _, h => by
    cases h
    exact .nil
  | (id, obj) :: update, _, h => by
    obtain ⟨⟨obj', graph₁⟩, hobj, h⟩ := Except.bind_eq_ok.mp h
    obtain ⟨update', hupdate, hret⟩ := Except.bind_eq_ok.mp h
    cases hret
    obtain ⟨hkeys, hpend, hnone, -⟩ := evalObjectReferences_eq_ok hobj
    have hall : ∀ p ∈ objectPending obj, notCreated resp p = false := by
      intro p hp
      have hnil := hpend.symm.trans (hnone rfl)
      by_contra hp'
      have hmem : p ∈ (objectPending obj).filter (notCreated resp) :=
        List.mem_filter.mpr ⟨hp, Bool.not_eq_false _ |>.mp hp'⟩
      rw [hnil] at hmem
      exact List.not_mem_nil hmem
    exact .cons ⟨rfl, hkeys, hnone rfl, hall⟩ (evalUpdates_eq_ok hupdate)

end Spec

/-! ## The order of the create map -/

theorem sortIfReferenced_eq_ok {T : Type} (pend : String × T → List String)
    {hashOrder : List String → List String} (horder : ∀ ks, (hashOrder ks).Perm ks)
    {create create' : List (String × T)} {graph : List (String × List String)}
    (h : sortIfReferenced hashOrder create graph = .ok create')
    (hedges : ∀ e ∈ create, ∀ p ∈ pend e, p ∈ refs graph e.1) :
    create'.Perm create ∧ ∀ pre e post, create' = pre ++ e :: post → ∀ p ∈ pend e, p ∈ pre.map Prod.fst := by
  delta sortIfReferenced at h
  split at h
  next hempty =>
    cases h
    refine ⟨List.Perm.refl _, fun pre e post heq p hp => ?_⟩
    have hedge := hedges e (by rw [heq]; exact List.mem_append_right _ List.mem_cons_self) p hp
    rw [List.isEmpty_iff.mp hempty] at hedge
    exact absurd hedge List.not_mem_nil
  next =>
    obtain ⟨hperm, hordered⟩ := topologicalSort_eq_ok h
    refine ⟨hperm, fun pre e post heq p hp => hordered pre e post heq p ?_⟩
    rw [refs_readInOrder horder]
    exact hedges e (hperm.subset (by rw [heq]; exact List.mem_append_right _ List.mem_cons_self)) p hp


/-! ## The upload -/

section Upload

variable {resp : Response V I B ρ} {createId : String}

theorem evalUploadReference_eq_ok {graph graph' : List (String × List String)} {parentId : String}
    {blobId : Option B} (h : evalUploadReference resp createId graph parentId = .ok (blobId, graph')) :
    blobId.map .blob = resp.createdIds.lookup parentId ∧
      Pushed (some createId) graph (if blobId.isSome then [] else [parentId]) graph' := by
  delta evalUploadReference at h
  cases hl : resp.createdIds.lookup parentId with
  | some id =>
    rw [hl] at h
    cases id with
    | blob b =>
      cases h
      exact ⟨rfl, Pushed.refl _ _⟩
    | id _ => cases h
  | none =>
    rw [hl] at h
    cases h
    exact ⟨rfl, Pushed.graphPush _ _ _⟩

theorem lookup_blob_of_evalUploadReference {graph graph' : List (String × List String)}
    {parentId : String} {blobId : Option B}
    (h : evalUploadReference resp createId graph parentId = .ok (blobId, graph')) :
    ∀ id, resp.createdIds.lookup parentId = some id → ∃ b, id = .blob b := by
  intro id hid
  rw [← (evalUploadReference_eq_ok h).1] at hid
  obtain ⟨b, -, rfl⟩ := Option.map_eq_some_iff.mp hid
  exact ⟨b, rfl⟩

theorem evalUploadData_eq_ok :
    ∀ {graph graph' : List (String × List String)} {data data' : List (DataSourceObject B)},
      evalUploadData resp createId graph data = .ok (data', graph') →
        dataPending data' = (dataPending data).filter (notCreated resp) ∧
          (∀ p ∈ dataPending data, ∀ id, resp.createdIds.lookup p = some id → ∃ b, id = .blob b) ∧
          Pushed (some createId) graph (dataPending data') graph'
  | _, _, [], _, h => by
    cases h
    exact ⟨rfl, nofun, Pushed.refl _ _⟩
  | _, _, .id (.reference parentId) length offset :: data, _, h => by
    obtain ⟨⟨blobId, graph₁⟩, href, h⟩ := Except.bind_eq_ok.mp h
    obtain ⟨⟨rest, graph₂⟩, hrest, hret⟩ := Except.bind_eq_ok.mp h
    obtain ⟨hlookup, hpushed⟩ := evalUploadReference_eq_ok href
    obtain ⟨hpend, hblobs, hpushed'⟩ := evalUploadData_eq_ok hrest
    have hall : ∀ p ∈ dataPending (.id (.reference parentId) length offset :: data), ∀ id,
        resp.createdIds.lookup p = some id → ∃ b, id = .blob b := by
      intro p hp
      rcases List.mem_cons.mp hp with rfl | hp
      · exact lookup_blob_of_evalUploadReference href
      · exact hblobs p hp
    cases blobId with
    | some b =>
      cases hret
      rw [dataPending_value_cons, dataPending_reference_cons,
        filter_notCreated_of_lookup_eq_some hlookup.symm]
      exact ⟨hpend, hall, hpushed.trans hpushed'⟩
    | none =>
      cases hret
      rw [dataPending_reference_cons, dataPending_reference_cons,
        filter_notCreated_of_lookup_eq_none hlookup.symm, hpend]
      refine ⟨rfl, hall, ?_⟩
      rw [← hpend]
      exact hpushed.trans hpushed'
  | _, _, .id (.value blobId) length offset :: data, _, h => by
    obtain ⟨⟨rest, graph₁⟩, hrest, hret⟩ := Except.bind_eq_ok.mp h
    cases hret
    have hspec := evalUploadData_eq_ok hrest
    rw [dataPending_value_cons, dataPending_value_cons]
    exact hspec
  | _, _, .value bytes :: data, _, h => by
    obtain ⟨⟨rest, graph₁⟩, hrest, hret⟩ := Except.bind_eq_ok.mp h
    cases hret
    have hspec := evalUploadData_eq_ok hrest
    rw [dataPending_bytes_cons, dataPending_bytes_cons]
    exact hspec

theorem evalUploads_eq_ok :
    ∀ {graph graph' : List (String × List String)} {create create' : List (String × List (DataSourceObject B))},
      evalUploads resp create graph = .ok (create', graph') →
        List.Forall₂ (fun e e' => e'.1 = e.1 ∧
          dataPending e'.2 = (dataPending e.2).filter (notCreated resp) ∧
          ∀ p ∈ dataPending e.2, ∀ id, resp.createdIds.lookup p = some id → ∃ b, id = .blob b)
          create create' ∧
        (∀ k, refs graph k ⊆ refs graph' k) ∧
        ∀ e' ∈ create', ∀ p ∈ dataPending e'.2, p ∈ refs graph' e'.1
  | _, _, [], _, h => by
    cases h
    exact ⟨.nil, fun _ => List.Subset.refl _, nofun⟩
  | _, _, (createId, data) :: create, _, h => by
    obtain ⟨⟨data', graph₁⟩, hdata, h⟩ := Except.bind_eq_ok.mp h
    obtain ⟨⟨create', graph₂⟩, hcreate, hret⟩ := Except.bind_eq_ok.mp h
    cases hret
    obtain ⟨hpend, hblobs, hpushed⟩ := evalUploadData_eq_ok hdata
    obtain ⟨hrest, hmono, hedges⟩ := evalUploads_eq_ok hcreate
    refine ⟨.cons ⟨rfl, hpend, hblobs⟩ hrest, fun k _ hr => hmono k (hpushed.subset k hr), ?_⟩
    intro e' he' p hp
    rcases List.mem_cons.mp he' with rfl | he'
    · exact hmono createId (hpushed.mem hp)
    · exact hedges e' he' p hp

end Upload

/-! ## `resolve_references` -/

section Resolve

variable {K : Type} {resp : Response V I B ρ} {idValue : AnyId I B → V}
  {hashOrder : List String → List String} {request request' : SetRequest K P V I B ρ}

theorem resolveSet_eq_ok (h : resolveSet resp idValue hashOrder request = .ok request') :
    (∀ create, request.create = some create → ∃ evaluated graph create',
      evalCreates resp idValue create [] = .ok (evaluated, graph) ∧
        sortIfReferenced hashOrder evaluated graph = .ok create' ∧ request'.create = some create') ∧
    (∀ update, request.update = some update → ∃ update',
      evalUpdates resp idValue update = .ok update' ∧ request'.update = some update') := by
  obtain ⟨create?, hcreate, h⟩ := Except.bind_eq_ok.mp h
  obtain ⟨update?, hupdate, hret⟩ := Except.bind_eq_ok.mp h
  cases hret
  constructor
  · intro create hc
    rw [hc, Option.mapM_some, Except.map_eq_ok] at hcreate
    obtain ⟨create', hresolve, rfl⟩ := hcreate
    obtain ⟨⟨evaluated, graph⟩, heval, hsort⟩ := Except.bind_eq_ok.mp hresolve
    exact ⟨evaluated, graph, create', heval, hsort, rfl⟩
  · intro update hu
    rw [hu, Option.mapM_some, Except.map_eq_ok] at hupdate
    obtain ⟨update', heval, rfl⟩ := hupdate
    exact ⟨update', heval, rfl⟩

/-- The create map of an accepted `/set` holds the objects of the request, each with the same
properties and with the references to ids the response created resolved and the others kept,
in an order where every reference left names an object earlier in the map. -/
theorem resolveSet_create_ordered {create : List (String × List (P × RefValue V I B ρ))}
    (horder : ∀ ks, (hashOrder ks).Perm ks)
    (h : resolveSet resp idValue hashOrder request = .ok request') (hcreate : request.create = some create) :
    ∃ evaluated create', request'.create = some create' ∧ create'.Perm evaluated ∧
      List.Forall₂ (fun e e' => e'.1 = e.1 ∧ e'.2.map Prod.fst = e.2.map Prod.fst ∧
        objectPending e'.2 = (objectPending e.2).filter (notCreated resp)) create evaluated ∧
      ∀ pre e post, create' = pre ++ e :: post → ∀ p ∈ objectPending e.2, p ∈ pre.map Prod.fst := by
  obtain ⟨evaluated, graph, create', heval, hsort, hreq⟩ := (resolveSet_eq_ok h).1 create hcreate
  obtain ⟨hobjects, -, hedges⟩ := evalCreates_eq_ok heval
  obtain ⟨hperm, hordered⟩ := sortIfReferenced_eq_ok (fun e => objectPending e.2) horder hsort hedges
  exact ⟨evaluated, create', hreq, hperm, hobjects, hordered⟩

/-- A response that has created nothing. -/
def noneCreated : Response ℕ ℕ ℕ ℕ := ⟨[], fun _ => .ok 0⟩

/-- The create map of a `/set` where `a` references `b`, created by the same request. -/
def refersBCreate : List (String × List (ℕ × RefValue ℕ ℕ ℕ ℕ)) :=
  [("a", [(0, .idReference (.reference "b"))]), ("b", [])]

theorem resolveSet_create_ordered_refersB :
    ∃ request' : SetRequest ℕ ℕ ℕ ℕ ℕ ℕ,
      resolveSet noneCreated (fun _ => 0) List.reverse ⟨some refersBCreate, none⟩ = .ok request' ∧
      ∃ evaluated create', request'.create = some create' ∧ create'.Perm evaluated ∧
        List.Forall₂ (fun e e' => e'.1 = e.1 ∧ e'.2.map Prod.fst = e.2.map Prod.fst ∧
          objectPending e'.2 = (objectPending e.2).filter (notCreated noneCreated))
          refersBCreate evaluated ∧
        ∀ pre e post, create' = pre ++ e :: post → ∀ p ∈ objectPending e.2, p ∈ pre.map Prod.fst := by
  have hsort : topologicalSort refersBCreate [("a", ["b"])] = .ok (refersBCreate.reverse) := by
    rw [topologicalSort_of_check_ok rfl, sortLoop_of_next rfl, sortLoop_of_next rfl,
      sortLoop_of_done rfl]
    rfl
  have hcreate : resolveSetCreate noneCreated (fun _ => 0) List.reverse refersBCreate =
      .ok refersBCreate.reverse :=
    Except.bind_eq_ok.mpr ⟨_, rfl, hsort⟩
  have hok : resolveSet noneCreated (fun _ => 0) List.reverse
      (⟨some refersBCreate, none⟩ : SetRequest ℕ ℕ ℕ ℕ ℕ ℕ) = .ok ⟨some refersBCreate.reverse, none⟩ :=
    Except.bind_eq_ok.mpr ⟨_, by rw [Option.mapM_some, hcreate]; rfl, rfl⟩
  exact ⟨_, hok, resolveSet_create_ordered (fun ks => List.reverse_perm ks) hok rfl⟩

/-- The update map of an accepted `/set` names only ids the response created, all resolved. -/
theorem resolveSet_update_resolved {update : List (K × List (P × RefValue V I B ρ))}
    (h : resolveSet resp idValue hashOrder request = .ok request') (hupdate : request.update = some update) :
    ∃ update', request'.update = some update' ∧
      List.Forall₂ (fun e e' => e'.1 = e.1 ∧ e'.2.map Prod.fst = e.2.map Prod.fst ∧
        objectPending e'.2 = [] ∧ ∀ p ∈ objectPending e.2, notCreated resp p = false) update update' := by
  obtain ⟨update', heval, hreq⟩ := (resolveSet_eq_ok h).2 update hupdate
  exact ⟨update', hreq, evalUpdates_eq_ok heval⟩

/-- A response that created `x` as id 5. -/
def xCreated : Response ℕ ℕ ℕ ℕ := ⟨[("x", .id 5)], fun _ => .ok 0⟩

/-- The update map of a `/set` that references `x`. -/
def refersXUpdate : List (ℕ × List (ℕ × RefValue ℕ ℕ ℕ ℕ)) := [(7, [(0, .idReference (.reference "x"))])]

theorem resolveSet_update_resolved_x :
    ∃ request' : SetRequest ℕ ℕ ℕ ℕ ℕ ℕ,
      resolveSet xCreated (fun _ => 0) List.reverse ⟨none, some refersXUpdate⟩ = .ok request' ∧
      ∃ update', request'.update = some update' ∧
        List.Forall₂ (fun e e' => e'.1 = e.1 ∧ e'.2.map Prod.fst = e.2.map Prod.fst ∧
          objectPending e'.2 = [] ∧ ∀ p ∈ objectPending e.2, notCreated xCreated p = false)
          refersXUpdate update' := by
  have hok : resolveSet xCreated (fun _ => 0) List.reverse
      (⟨none, some refersXUpdate⟩ : SetRequest ℕ ℕ ℕ ℕ ℕ ℕ) =
      .ok ⟨none, some [(7, [(0, .value 0)])]⟩ := rfl
  exact ⟨_, hok, resolveSet_update_resolved hok rfl⟩

/-- The create map of an accepted `Blob/upload` holds the objects of the request, with the
creation ids of created blobs resolved and no creation id of anything else, in an order where
every creation id left names an object earlier in the map. -/
theorem resolveUpload_ordered {create create' : List (String × List (DataSourceObject B))}
    (horder : ∀ ks, (hashOrder ks).Perm ks) (h : resolveUpload resp hashOrder create = .ok create') :
    ∃ evaluated, create'.Perm evaluated ∧
      List.Forall₂ (fun e e' => e'.1 = e.1 ∧
        dataPending e'.2 = (dataPending e.2).filter (notCreated resp) ∧
        ∀ p ∈ dataPending e.2, ∀ id, resp.createdIds.lookup p = some id → ∃ b, id = .blob b)
        create evaluated ∧
      ∀ pre e post, create' = pre ++ e :: post → ∀ p ∈ dataPending e.2, p ∈ pre.map Prod.fst := by
  obtain ⟨⟨evaluated, graph⟩, heval, hsort⟩ := Except.bind_eq_ok.mp h
  obtain ⟨hobjects, -, hedges⟩ := evalUploads_eq_ok heval
  obtain ⟨hperm, hordered⟩ := sortIfReferenced_eq_ok (fun e => dataPending e.2) horder hsort hedges
  exact ⟨evaluated, hperm, hobjects, hordered⟩

/-- The create map of an upload whose object `a` takes its data from `b`, uploaded by the same
request. -/
def fromBUpload : List (String × List (DataSourceObject ℕ)) :=
  [("a", [.id (.reference "b") none none]), ("b", [.value [1, 2]])]

theorem resolveUpload_ordered_fromB :
    resolveUpload noneCreated List.reverse fromBUpload = .ok fromBUpload.reverse ∧
      ∃ evaluated, fromBUpload.reverse.Perm evaluated ∧
        List.Forall₂ (fun e e' => e'.1 = e.1 ∧
          dataPending e'.2 = (dataPending e.2).filter (notCreated noneCreated) ∧
          ∀ p ∈ dataPending e.2, ∀ id, noneCreated.createdIds.lookup p = some id → ∃ b, id = .blob b)
          fromBUpload evaluated ∧
        ∀ pre e post, fromBUpload.reverse = pre ++ e :: post →
          ∀ p ∈ dataPending e.2, p ∈ pre.map Prod.fst := by
  have hsort : topologicalSort fromBUpload [("a", ["b"])] = .ok fromBUpload.reverse := by
    rw [topologicalSort_of_check_ok rfl, sortLoop_of_next rfl, sortLoop_of_next rfl,
      sortLoop_of_done rfl]
    rfl
  have hok : resolveUpload noneCreated List.reverse fromBUpload = .ok fromBUpload.reverse :=
    Except.bind_eq_ok.mpr ⟨_, rfl, hsort⟩
  exact ⟨hok, resolveUpload_ordered (fun ks => List.reverse_perm ks) hok⟩

end Resolve

end EsmpServer.Jmap
