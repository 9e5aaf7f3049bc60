import Mathlib

/-!
# The bitmap filter evaluator of the store

`Store::filter` evaluates a flat list of filters in which `And`, `Or` and `Not`
open a group and `End` closes the innermost one. The evaluator keeps the open
groups on an explicit stack of `State`s; each `State` is the group's operator
together with its accumulator, which stays `None` until the first child result
arrives. Leaves fetch bitmaps from the store. The complement of a `Not` group is
taken against the collection's document-id bitmap, fetched lazily the first time
a `Not` accumulator is touched, by XOR.

After every child result an `And` accumulator that became empty triggers the
short-circuit: the filters are skipped up to the first `End` that follows.

Store reads are modelled as total functions (their errors are propagated with
`?` and play no part in the result), and bitmaps of document ids are `Finset ℕ`.
The store's own lookups (`range_to_bitmap`, `get_bitmap`) are parameters; the
intersection of text-token bitmaps is the store's own
`get_bitmaps_intersection`, modelled below.
-/

namespace EsmpServer.Query

/-- Comparison operators of `Filter::MatchValue`. -/
inductive Operator where
  | lowerThan
  | lowerEqualThan
  | greaterThan
  | greaterEqualThan
  | equal
  | contains
  deriving DecidableEq, Repr

/-- `store::query::Filter`; `κ` is the bitmap class type of `InBitmap`. -/
inductive Filter (κ : Type) where
  | matchValue (field : ℕ) (op : Operator) (value : List UInt8)
  | hasText (field : ℕ) (text : String) (tokenize : Bool)
  | inBitmap (cls : κ)
  | documentSet (set : Finset ℕ)
  | and
  | or
  | not
  | «end»
  deriving DecidableEq

variable {κ : Type}

namespace Filter

/-- The filters that fetch a bitmap rather than open or close a group. -/
def IsLeaf : Filter κ → Prop
  | .matchValue .. | .hasText .. | .inBitmap _ | .documentSet _ => True
  | .and | .or | .not | .end => False

instance : DecidablePred (IsLeaf (κ := κ)) := fun f => by
  cases f <;> simp only [IsLeaf] <;> infer_instance

/-- `matches!(f, Filter::And | Filter::Or | Filter::Not)`. -/
def isGroup : Filter κ → Bool
  | .and | .or | .not => true
  | _ => false

/-- `matches!(f, Filter::And)`. -/
def isAnd : Filter κ → Bool
  | .and => true
  | _ => false

/-- `matches!(f, Filter::Not)`. -/
def isNot : Filter κ → Bool
  | .not => true
  | _ => false

end Filter

/-- What the evaluator reads from the store: the collection's document ids and
the bitmap lookups the four leaf filters issue. `words` is the set of words the
word tokenizer extracts from a text, in the order its hash set yields them. -/
structure Store (κ : Type) where
  documentIds : Option (Finset ℕ)
  rangeToBitmap : ℕ → Operator → List UInt8 → Option (Finset ℕ)
  textToken : ℕ → String → Option (Finset ℕ)
  words : String → List String
  bitmap : κ → Option (Finset ℕ)

/-- `Store::get_bitmaps_intersection`: an absent bitmap makes the whole result
absent; an intersection that becomes empty stops the scan. -/
def getBitmapsIntersection {α : Type} (get : α → Option (Finset ℕ)) :
    List α → Option (Finset ℕ) → Option (Finset ℕ)
  | [], result => result
  | key :: keys, result =>
    match get key, result with
    | none, _ => none
    | some bitmap, none => getBitmapsIntersection get keys (some bitmap)
    | some bitmap, some r =>
      if r ∩ bitmap = ∅ then some ∅ else getBitmapsIntersection get keys (some (r ∩ bitmap))

/-- A group's operator and accumulator (`struct State`). -/
structure State (κ : Type) where
  op : Filter κ
  bm : Option (Finset ℕ)
  deriving DecidableEq

/-- `From<Filter> for State`. -/
def State.ofFilter (f : Filter κ) : State κ := ⟨f, none⟩

/-- The loop's mutable variables: the current group, the stack of enclosing
groups, and the lazily fetched complement mask with its fetched flag. -/
structure Machine (κ : Type) where
  state : State κ
  stack : List (State κ)
  notMask : Finset ℕ
  notFetch : Bool
  deriving DecidableEq

namespace Store

variable (s : Store κ)

/-- The collection's document-id bitmap, an absent bitmap read as empty. -/
def documentIdsOrEmpty : Finset ℕ := s.documentIds.getD ∅

/-- The bitmap a leaf filter fetches; group filters fetch nothing. -/
def leafResult : Filter κ → Option (Finset ℕ)
  | .matchValue field op value => s.rangeToBitmap field op value
  | .hasText field text tokenize =>
    if tokenize then getBitmapsIntersection (s.textToken field) (s.words text) none
    else s.textToken field text
  | .inBitmap cls => s.bitmap cls
  | .documentSet set => some set
  | .and | .or | .not | .end => none

end Store

/-- `// Apply logical operation`: fold one child result into a group's
accumulator. The first result initialises it (complemented by XOR under `Not`);
an absent first result gives the empty set, or the whole mask under `Not`. The
fourth arm is the source's `unreachable!()`: a state's operator is always a
group opener, and the model leaves the accumulator unchanged there. -/
def applyOp (op : Filter κ) (notMask : Finset ℕ) :
    Option (Finset ℕ) → Option (Finset ℕ) → Option (Finset ℕ)
  | some dest, result =>
    match op, result with
    | .and, some r => some (dest ∩ r)
    | .and, none => some ∅
    | .or, some r => some (dest ∪ r)
    | .or, none => some dest
    | .not, some r => some (dest ∩ symmDiff r notMask)
    | .not, none => some dest
    | _, _ => some dest
  | none, some r => some (if op.isNot then symmDiff r notMask else r)
  | none, none => some (if op.isNot then notMask else ∅)

/-! The arms of `applyOp`, one lemma each: later proofs rewrite with these and never
unfold it. -/

section ApplyOp

variable (notMask dest r : Finset ℕ)

theorem applyOp_and_some : applyOp (.and : Filter κ) notMask (some dest) (some r) = some (dest ∩ r) :=
  rfl

theorem applyOp_and_none : applyOp (.and : Filter κ) notMask (some dest) none = some ∅ := rfl

theorem applyOp_or_some : applyOp (.or : Filter κ) notMask (some dest) (some r) = some (dest ∪ r) :=
  rfl

theorem applyOp_or_none : applyOp (.or : Filter κ) notMask (some dest) none = some dest := rfl

theorem applyOp_not_some :
    applyOp (.not : Filter κ) notMask (some dest) (some r) = some (dest ∩ symmDiff r notMask) := rfl

theorem applyOp_not_none : applyOp (.not : Filter κ) notMask (some dest) none = some dest := rfl

theorem applyOp_none_some (op : Filter κ) :
    applyOp op notMask none (some r) = some (if op.isNot then symmDiff r notMask else r) := rfl

theorem applyOp_none_none (op : Filter κ) :
    applyOp op notMask none none = some (if op.isNot then notMask else ∅) := rfl

end ApplyOp

/-- The condition of the `// And short-circuit`. -/
def shortCircuit (st : State κ) : Bool :=
  st.op.isAnd && st.bm = some ∅

theorem shortCircuit_eq_true {st : State κ} : shortCircuit st = true ↔ st.op = .and ∧ st.bm = some ∅ := by
  obtain ⟨op, bm⟩ := st
  cases op <;> simp [shortCircuit, Filter.isAnd]

theorem shortCircuit_ofFilter (f : Filter κ) : shortCircuit (State.ofFilter f) = false := by
  cases f <;> rfl

namespace Store

variable (s : Store κ)

/-- `// Only fetch not mask if we need it`, then fold the result into the
current group. -/
def applyResult (m : Machine κ) (result : Option (Finset ℕ)) : Machine κ :=
  let m := if m.state.op.isNot && !m.notFetch then
      { m with notMask := s.documentIdsOrEmpty, notFetch := true }
    else m
  { m with state := { m.state with bm := applyOp m.state.op m.notMask m.state.bm result } }

/-- The `while let Some(filter) = filters.next()` loop. The flag `skip` is the
source's inner `while let Some(filter) = filters.peek()` loop spread over the
outer one: while it is set, every filter before the next `End` is consumed
without effect, and that `End` is processed as usual. An `End` with no
enclosing group ends the loop (`break`). -/
def filterLoop : List (Filter κ) → Machine κ → Bool → Machine κ
  | [], m, _ => m
  | .end :: fs, m, _ =>
    match m.stack with
    | [] => m
    | prev :: stack =>
      let m' := s.applyResult { m with state := prev, stack := stack } m.state.bm
      filterLoop fs m' (shortCircuit m'.state)
  | _ :: fs, m, true => filterLoop fs m true
  | f :: fs, m, false =>
    if f.isGroup then
      filterLoop fs { m with state := State.ofFilter f, stack := m.state :: m.stack } false
    else
      let m' := s.applyResult m (s.leafResult f)
      filterLoop fs m' (shortCircuit m'.state)

section Equations

variable {fs : List (Filter κ)} {m : Machine κ}

theorem filterLoop_end_nil (skip : Bool) (h : m.stack = []) :
    s.filterLoop (.end :: fs) m skip = m := by
  obtain ⟨state, stack, notMask, notFetch⟩ := m
  dsimp only at h
  subst h
  rfl

theorem filterLoop_end_cons (skip : Bool) {prev : State κ} {stack : List (State κ)}
    (h : m.stack = prev :: stack) :
    s.filterLoop (.end :: fs) m skip =
      let m' := s.applyResult { m with state := prev, stack := stack } m.state.bm
      s.filterLoop fs m' (shortCircuit m'.state) := by
  obtain ⟨state, stack', notMask, notFetch⟩ := m
  dsimp only at h
  subst h
  rfl

theorem filterLoop_skip {f : Filter κ} (hf : f ≠ .end) :
    s.filterLoop (f :: fs) m true = s.filterLoop fs m true := by
  cases f <;> first | rfl | exact absurd rfl hf

theorem filterLoop_group {f : Filter κ} (hf : f.isGroup = true) :
    s.filterLoop (f :: fs) m false =
      s.filterLoop fs { m with state := State.ofFilter f, stack := m.state :: m.stack } false := by
  cases f <;> first | rfl | exact absurd hf Bool.false_ne_true

theorem filterLoop_leaf {f : Filter κ} (hf : f.IsLeaf) :
    s.filterLoop (f :: fs) m false =
      let m' := s.applyResult m (s.leafResult f)
      s.filterLoop fs m' (shortCircuit m'.state) := by
  cases f <;> first | rfl | exact (hf : False).elim

end Equations

/-- The evaluator's initial variables: an implicit top-level `And`. -/
def initMachine : Machine κ := ⟨State.ofFilter .and, [], ∅, false⟩

/-- `Store::filter`: the document ids of the collection when there are no
filters, and otherwise the accumulator of the group the loop ends in. -/
def filter (filters : List (Filter κ)) : Finset ℕ :=
  match filters with
  | [] => s.documentIdsOrEmpty
  | _ :: _ => ((s.filterLoop filters initMachine false).state.bm).getD ∅

theorem filter_cons (f : Filter κ) (fs : List (Filter κ)) :
    s.filter (f :: fs) = ((s.filterLoop (f :: fs) initMachine false).state.bm).getD ∅ := rfl

end Store

end EsmpServer.Query
