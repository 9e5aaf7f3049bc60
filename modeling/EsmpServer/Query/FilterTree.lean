import EsmpServer.Query.Filter
import Mathlib

/-!
# Filter trees and their meaning

A well-bracketed filter list is the preorder writing of a tree: a group is its
opener, its children and `End`. This module gives trees their set meaning
(`And` is intersection, `Or` union, `Not` the complement of the union within
the collection) and relates the evaluator of `Filter.lean` to it in three steps.

* The lazily fetched `Not` mask is always the collection's document ids once it
  is used, so `Store.filterLoop` computes what `evalLoop`, the same loop with the
  mask given up front, computes (`filterLoop_toConfig`).
* One tree run on `evalLoop` folds its value into the enclosing group
  (`evalLoop_encode`), provided the `And` short-circuit of every nested group only
  ever skips leaves: the short-circuit stops at the first `End`, which belongs to
  the group only when no subgroup follows.
* The value the fold computes is the set meaning, when every fetched bitmap lies
  within the collection (the XOR complement is a set complement only there).
-/

namespace EsmpServer.Query

variable {κ : Type}

/-- The three group operators. -/
inductive GroupOp where
  | and
  | or
  | not
  deriving DecidableEq, Repr

/-- The filter that opens a group. -/
def GroupOp.toFilter : GroupOp → Filter κ
  | .and => .and
  | .or => .or
  | .not => .not

/-- A filter tree: a leaf filter, or a group of subtrees. -/
inductive FilterTree (κ : Type) where
  | leaf (f : Filter κ)
  | group (op : GroupOp) (children : List (FilterTree κ))

namespace FilterTree

/-- Whether a tree is a single leaf (the short-circuit may skip only those). -/
def isLeafNode : FilterTree κ → Bool
  | .leaf _ => true
  | .group .. => false

mutual
/-- The filter list a tree is written as. -/
def encode : FilterTree κ → List (Filter κ)
  | .leaf f => [f]
  | .group op cs => op.toFilter :: (encodeList cs ++ [.end])

/-- The filter list of a sequence of sibling trees. -/
def encodeList : List (FilterTree κ) → List (Filter κ)
  | [] => []
  | t :: ts => encode t ++ encodeList ts
end

theorem encode_leaf (f : Filter κ) : (leaf f).encode = [f] := rfl

theorem encode_group (op : GroupOp) (cs : List (FilterTree κ)) :
    (group op cs).encode = op.toFilter :: (encodeList cs ++ [.end]) := rfl

@[simp] theorem encodeList_nil : encodeList ([] : List (FilterTree κ)) = [] := rfl

@[simp] theorem encodeList_cons (t : FilterTree κ) (ts : List (FilterTree κ)) :
    encodeList (t :: ts) = t.encode ++ encodeList ts := rfl

theorem encode_ne_nil (t : FilterTree κ) : t.encode ≠ [] := by
  cases t with
  | leaf f => rw [encode_leaf]; exact List.cons_ne_nil _ _
  | group op cs => rw [encode_group]; exact List.cons_ne_nil _ _

theorem encodeList_eq_nil {ts : List (FilterTree κ)} : encodeList ts = [] ↔ ts = [] := by
  cases ts with
  | nil => simp
  | cons t ts => simp [encode_ne_nil]

section Denotation

variable (s : Store κ) (D : Finset ℕ)

mutual
/-- The set a tree denotes; `D` is the collection's document ids. -/
def denote : FilterTree κ → Set ℕ
  | .leaf f => ↑((s.leafResult f).getD ∅)
  | .group .and cs => denoteInter cs
  | .group .or cs => denoteUnion cs
  | .group .not cs => ↑D \ denoteUnion cs

/-- The intersection of the sets of sibling trees. -/
def denoteInter : List (FilterTree κ) → Set ℕ
  | [] => Set.univ
  | t :: ts => denote t ∩ denoteInter ts

/-- The union of the sets of sibling trees. -/
def denoteUnion : List (FilterTree κ) → Set ℕ
  | [] => ∅
  | t :: ts => denote t ∪ denoteUnion ts
end

theorem denote_leaf (f : Filter κ) : denote s D (leaf f) = ↑((s.leafResult f).getD ∅) := rfl

theorem denote_and (cs : List (FilterTree κ)) : denote s D (group .and cs) = denoteInter s D cs := rfl

theorem denote_or (cs : List (FilterTree κ)) : denote s D (group .or cs) = denoteUnion s D cs := rfl

theorem denote_not (cs : List (FilterTree κ)) : denote s D (group .not cs) = ↑D \ denoteUnion s D cs :=
  rfl

theorem denoteInter_nil : denoteInter s D [] = Set.univ := rfl

theorem denoteInter_cons (t : FilterTree κ) (ts : List (FilterTree κ)) :
    denoteInter s D (t :: ts) = denote s D t ∩ denoteInter s D ts := rfl

theorem denoteUnion_nil : denoteUnion s D [] = ∅ := rfl

theorem denoteUnion_cons (t : FilterTree κ) (ts : List (FilterTree κ)) :
    denoteUnion s D (t :: ts) = denote s D t ∪ denoteUnion s D ts := rfl

mutual
/-- Trees the evaluator handles as their meaning says: leaves are leaf filters
whose bitmaps lie within the collection, groups are not empty, and in an `And`
group no subgroup follows a prefix of children with an empty intersection, so
that the short-circuit only ever skips leaves. -/
def WellFormed : FilterTree κ → Prop
  | .leaf f => f.IsLeaf ∧ ↑((s.leafResult f).getD ∅) ⊆ (↑D : Set ℕ)
  | .group op cs => cs ≠ [] ∧ WellFormedList cs ∧
      (op = .and → ∀ pre t post, cs = pre ++ t :: post → pre ≠ [] →
        denoteInter s D pre = ∅ → t.isLeafNode)

/-- Every tree of a sibling list is well formed. -/
def WellFormedList : List (FilterTree κ) → Prop
  | [] => True
  | t :: ts => WellFormed t ∧ WellFormedList ts
end

end Denotation

end FilterTree

/-! ## The evaluator with the mask given up front -/

/-- The evaluator's group state and stack, without the mask cache. -/
structure Config (κ : Type) where
  state : State κ
  stack : List (State κ)

/-- Fold one child result into the current group, complementing against `D`. -/
def Config.apply (D : Finset ℕ) (c : Config κ) (r : Option (Finset ℕ)) : Config κ :=
  { c with state := { c.state with bm := applyOp c.state.op D c.state.bm r } }

@[simp] theorem Config.apply_stack (D : Finset ℕ) (c : Config κ) (r : Option (Finset ℕ)) :
    (c.apply D r).stack = c.stack := rfl

@[simp] theorem Config.apply_op (D : Finset ℕ) (c : Config κ) (r : Option (Finset ℕ)) :
    (c.apply D r).state.op = c.state.op := rfl

@[simp] theorem Config.apply_bm (D : Finset ℕ) (c : Config κ) (r : Option (Finset ℕ)) :
    (c.apply D r).state.bm = applyOp c.state.op D c.state.bm r := rfl

/-- `Store.filterLoop` with `D` in place of the lazily fetched mask. -/
def evalLoop (s : Store κ) (D : Finset ℕ) : List (Filter κ) → Config κ → Bool → Config κ
  | [], c, _ => c
  | .end :: fs, c, _ =>
    match c.stack with
    | [] => c
    | prev :: stack =>
      let c' := Config.apply D ⟨prev, stack⟩ c.state.bm
      evalLoop s D fs c' (shortCircuit c'.state)
  | _ :: fs, c, true => evalLoop s D fs c true
  | f :: fs, c, false =>
    if f.isGroup then evalLoop s D fs ⟨State.ofFilter f, c.state :: c.stack⟩ false
    else
      let c' := c.apply D (s.leafResult f)
      evalLoop s D fs c' (shortCircuit c'.state)

section Equations

variable {s : Store κ} {D : Finset ℕ} {fs : List (Filter κ)} {c : Config κ}

theorem evalLoop_end_nil (skip : Bool) (h : c.stack = []) :
    evalLoop s D (.end :: fs) c skip = c := by
  obtain ⟨state, stack⟩ := c
  dsimp only at h
  subst h
  rfl

theorem evalLoop_end_cons (skip : Bool) {prev : State κ} {stack : List (State κ)}
    (h : c.stack = prev :: stack) :
    evalLoop s D (.end :: fs) c skip =
      let c' := Config.apply D ⟨prev, stack⟩ c.state.bm
      evalLoop s D fs c' (shortCircuit c'.state) := by
  obtain ⟨state, stack'⟩ := c
  dsimp only at h
  subst h
  rfl

theorem evalLoop_skip {f : Filter κ} (hf : f ≠ .end) :
    evalLoop s D (f :: fs) c true = evalLoop s D fs c true := by
  cases f <;> first | rfl | exact absurd rfl hf

theorem evalLoop_group {f : Filter κ} (hf : f.isGroup = true) :
    evalLoop s D (f :: fs) c false = evalLoop s D fs ⟨State.ofFilter f, c.state :: c.stack⟩ false := by
  cases f <;> first | rfl | exact absurd hf Bool.false_ne_true

theorem evalLoop_leaf {f : Filter κ} (hf : f.IsLeaf) :
    evalLoop s D (f :: fs) c false =
      let c' := c.apply D (s.leafResult f)
      evalLoop s D fs c' (shortCircuit c'.state) := by
  cases f <;> first | rfl | exact (hf : False).elim

end Equations

namespace Machine

/-- Forget the mask cache. -/
def toConfig (m : Machine κ) : Config κ := ⟨m.state, m.stack⟩

@[simp] theorem toConfig_state (m : Machine κ) : m.toConfig.state = m.state := rfl

@[simp] theorem toConfig_stack (m : Machine κ) : m.toConfig.stack = m.stack := rfl

/-- Once fetched, the mask is the collection's document ids. -/
def MaskOk (s : Store κ) (m : Machine κ) : Prop :=
  m.notFetch = true → m.notMask = s.documentIdsOrEmpty

end Machine

theorem applyOp_mask_irrel {op : Filter κ} (h : op.isNot = false) (m₁ m₂ : Finset ℕ)
    (bm r : Option (Finset ℕ)) : applyOp op m₁ bm r = applyOp op m₂ bm r := by
  cases op <;> cases bm <;> cases r <;> first | rfl | exact Bool.noConfusion h

theorem applyResult_toConfig (s : Store κ) {m : Machine κ} (hm : m.MaskOk s)
    (r : Option (Finset ℕ)) :
    (s.applyResult m r).toConfig = m.toConfig.apply s.documentIdsOrEmpty r ∧
      (s.applyResult m r).MaskOk s := by
  by_cases hfetch : m.state.op.isNot = true ∧ m.notFetch = false
  · obtain ⟨hnot, hf⟩ := hfetch
    simp [Store.applyResult, hnot, hf, Machine.toConfig, Config.apply, Machine.MaskOk]
  · have hbm : applyOp m.state.op m.notMask m.state.bm r =
        applyOp m.state.op s.documentIdsOrEmpty m.state.bm r := by
      cases hnot : m.state.op.isNot
      · exact applyOp_mask_irrel hnot _ _ _ _
      · have hf : m.notFetch = true := by simpa [hnot] using hfetch
        rw [hm hf]
    have hcond : (m.state.op.isNot && !m.notFetch) = false := by
      cases hnot : m.state.op.isNot <;> cases hf : m.notFetch <;> simp_all
    simp only [Store.applyResult, hcond, Bool.false_eq_true, ite_false]
    exact ⟨by simp [Machine.toConfig, Config.apply, hbm], hm⟩

theorem filterLoop_toConfig (s : Store κ) (l : List (Filter κ)) :
    ∀ (m : Machine κ) (skip : Bool), m.MaskOk s →
      (s.filterLoop l m skip).toConfig = evalLoop s s.documentIdsOrEmpty l m.toConfig skip := by
  induction l with
  | nil => intro m skip _; rfl
  | cons f fs ih =>
    intro m skip hm
    by_cases hend : f = .end
    · subst hend
      cases hst : m.stack with
      | nil => rw [s.filterLoop_end_nil skip hst, evalLoop_end_nil skip hst]
      | cons prev stack =>
        have hm' : Machine.MaskOk s { m with state := prev, stack := stack } := hm
        obtain ⟨hc, hok⟩ := applyResult_toConfig s hm' m.state.bm
        have hstate := congrArg Config.state hc
        rw [s.filterLoop_end_cons skip hst, evalLoop_end_cons skip hst]
        simp only [Machine.toConfig_state] at hstate ⊢
        rw [ih _ _ hok, hc, hstate]
        rfl
    · cases skip with
      | true => rw [s.filterLoop_skip hend, evalLoop_skip hend]; exact ih m true hm
      | false =>
        by_cases hg : f.isGroup = true
        · rw [s.filterLoop_group hg, evalLoop_group hg]
          exact ih _ false hm
        · have hleaf : f.IsLeaf := by
            cases f <;> trivial
          obtain ⟨hc, hok⟩ := applyResult_toConfig s hm (s.leafResult f)
          have hstate := congrArg Config.state hc
          rw [s.filterLoop_leaf hleaf, evalLoop_leaf hleaf]
          simp only [Machine.toConfig_state] at hstate ⊢
          rw [ih _ _ hok, hc, hstate]

theorem evalLoop_end_flag {s : Store κ} {D : Finset ℕ} (fs : List (Filter κ)) (c : Config κ)
    (skip : Bool) : evalLoop s D (.end :: fs) c skip = evalLoop s D (.end :: fs) c false := by
  cases skip <;> rfl

theorem applyOp_of_shortCircuit {st : State κ} (h : shortCircuit st = true) (D : Finset ℕ)
    (r : Option (Finset ℕ)) : applyOp st.op D st.bm r = st.bm := by
  obtain ⟨hop, hbm⟩ := shortCircuit_eq_true.mp h
  rw [hop, hbm]
  cases r with
  | none => exact applyOp_and_none _ _
  | some x => rw [applyOp_and_some, Finset.empty_inter]

/-! ## One tree at a time -/

namespace FilterTree

section Value

variable (s : Store κ) (D : Finset ℕ)

mutual
/-- The result a tree hands to its enclosing group: the fetched bitmap of a
leaf, or the final accumulator of a group. -/
def value : FilterTree κ → Option (Finset ℕ)
  | .leaf f => s.leafResult f
  | .group op cs => groupValue op.toFilter cs none

/-- The accumulator of group `op` after folding in the results of `cs`. -/
def groupValue (op : Filter κ) : List (FilterTree κ) → Option (Finset ℕ) → Option (Finset ℕ)
  | [], acc => acc
  | t :: ts, acc => groupValue op ts (applyOp op D acc (value t))
end

@[simp] theorem groupValue_nil (op : Filter κ) (acc : Option (Finset ℕ)) :
    groupValue s D op [] acc = acc := rfl

@[simp] theorem groupValue_cons (op : Filter κ) (t : FilterTree κ) (ts : List (FilterTree κ))
    (acc : Option (Finset ℕ)) :
    groupValue s D op (t :: ts) acc = groupValue s D op ts (applyOp op D acc (value s D t)) := rfl

theorem groupValue_append (op : Filter κ) (xs ys : List (FilterTree κ))
    (acc : Option (Finset ℕ)) :
    groupValue s D op (xs ++ ys) acc = groupValue s D op ys (groupValue s D op xs acc) := by
  induction xs generalizing acc with
  | nil => rfl
  | cons x xs ih => simp [ih]

theorem groupValue_of_shortCircuit {st : State κ} (h : shortCircuit st = true)
    (cs : List (FilterTree κ)) : groupValue s D st.op cs st.bm = st.bm := by
  induction cs with
  | nil => rfl
  | cons t ts ih => rw [groupValue_cons, applyOp_of_shortCircuit h, ih]

/-- The short-circuit of group `op` with accumulator `acc` only ever skips
leaves of `cs`. -/
def SkipsLeaves (op : Filter κ) : Option (Finset ℕ) → List (FilterTree κ) → Prop
  | _, [] => True
  | acc, t :: ts => (shortCircuit ⟨op, acc⟩ = true → t.isLeafNode = true) ∧
      SkipsLeaves op (applyOp op D acc (value s D t)) ts

mutual
/-- Trees whose writing the evaluator runs group by group: leaves are leaf
filters and no short-circuit skips a subgroup. -/
def Runs : FilterTree κ → Prop
  | .leaf f => f.IsLeaf
  | .group op cs => RunsList cs ∧ SkipsLeaves s D op.toFilter none cs

/-- Every tree of a sibling list runs group by group. -/
def RunsList : List (FilterTree κ) → Prop
  | [] => True
  | t :: ts => Runs t ∧ RunsList ts
end

end Value

variable {s : Store κ} {D : Finset ℕ}

mutual
theorem evalLoop_encode : ∀ (t : FilterTree κ), Runs s D t → ∀ (c : Config κ) (rest : List (Filter κ)),
    evalLoop s D (t.encode ++ rest) c false =
      evalLoop s D rest (c.apply D (value s D t)) (shortCircuit (c.apply D (value s D t)).state)
  | .leaf f, hf, c, rest => by
    rw [encode_leaf, List.singleton_append, evalLoop_leaf hf]
    rfl
  | .group op cs, ⟨hcs, hskip⟩, c, rest => by
    have hopen : (op.toFilter : Filter κ).isGroup = true := by cases op <;> rfl
    have hflag : shortCircuit (State.ofFilter (op.toFilter : Filter κ)) = false := shortCircuit_ofFilter _
    have hrun := evalLoopList_encodeList cs hcs ⟨State.ofFilter op.toFilter, c.state :: c.stack⟩
      rest hskip
    dsimp only at hrun
    rw [hflag] at hrun
    simp only [encode_group, List.cons_append, List.append_assoc, List.nil_append]
    rw [evalLoop_group hopen, hrun, evalLoop_end_cons false rfl]
    rfl

theorem evalLoopList_encodeList : ∀ (cs : List (FilterTree κ)), RunsList s D cs →
    ∀ (c : Config κ) (rest : List (Filter κ)), SkipsLeaves s D c.state.op c.state.bm cs →
      evalLoop s D (encodeList cs ++ .end :: rest) c (shortCircuit c.state) =
        evalLoop s D (.end :: rest)
          ⟨⟨c.state.op, groupValue s D c.state.op cs c.state.bm⟩, c.stack⟩ false
  | [], _, c, rest, _ => by
    rw [encodeList_nil, List.nil_append, evalLoop_end_flag]
    rfl
  | t :: ts, ⟨ht, hts⟩, c, rest, ⟨hleaf, hskip⟩ => by
    rw [encodeList_cons, List.append_assoc, groupValue_cons]
    cases hsc : shortCircuit c.state with
    | true =>
      obtain ⟨f⟩ | ⟨op, cs⟩ := t
      · have hend : f ≠ .end := by rintro rfl; exact ht
        have hacc := applyOp_of_shortCircuit hsc D (value s D (.leaf f))
        rw [hacc] at hskip ⊢
        rw [encode_leaf, List.singleton_append, evalLoop_skip hend, ← hsc]
        exact evalLoopList_encodeList ts hts c rest hskip
      · exact absurd (hleaf hsc) Bool.false_ne_true
    | false =>
      rw [evalLoop_encode t ht c]
      exact evalLoopList_encodeList ts hts (c.apply D (value s D t)) rest hskip
end

theorem evalLoop_skip_top (l : List (Filter κ)) (c : Config κ) (hc : c.stack = []) :
    (evalLoop s D l c true).state = c.state := by
  induction l with
  | nil => rfl
  | cons f fs ih =>
    by_cases hend : f = .end
    · subst hend
      rw [evalLoop_end_nil true hc]
    · rw [evalLoop_skip hend, ih]

theorem evalLoop_top (cs : List (FilterTree κ)) (hcs : RunsList s D cs) (c : Config κ)
    (hc : c.stack = []) :
    (evalLoop s D (encodeList cs) c (shortCircuit c.state)).state.bm =
      groupValue s D c.state.op cs c.state.bm := by
  induction cs generalizing c with
  | nil => rfl
  | cons t ts ih =>
    obtain ⟨ht, hts⟩ := hcs
    rw [encodeList_cons]
    cases hsc : shortCircuit c.state with
    | true =>
      rw [evalLoop_skip_top _ c hc, groupValue_of_shortCircuit s D hsc]
    | false =>
      rw [evalLoop_encode t ht c, ih hts (c.apply D (value s D t)) hc, groupValue_cons]
      rfl

/-! ## Values and sets -/

section Meaning

variable (s D)

/-- What every child of a group satisfies once its value is known to be its
meaning: the value read as a set is the meaning, and it lies in `D`. -/
def ValueMeans (t : FilterTree κ) : Prop :=
  (↑((value s D t).getD ∅) : Set ℕ) = denote s D t ∧ (value s D t).getD ∅ ⊆ D

variable {s D}

theorem denoteUnion_subset {cs : List (FilterTree κ)} (h : ∀ t ∈ cs, ValueMeans s D t) :
    denoteUnion s D cs ⊆ ↑D := by
  induction cs with
  | nil => simp [denoteUnion_nil]
  | cons t ts ih =>
    have ht := h t (by simp)
    simp only [denoteUnion_cons, Set.union_subset_iff]
    refine ⟨?_, ih fun u hu => h u (by simp [hu])⟩
    rw [← ht.1]
    exact Finset.coe_subset.mpr ht.2

theorem denoteInter_cons_subset {t : FilterTree κ} (ht : ValueMeans s D t)
    (ts : List (FilterTree κ)) : denoteInter s D (t :: ts) ⊆ ↑D := by
  rw [denoteInter_cons, ← ht.1]
  exact Set.inter_subset_left.trans (Finset.coe_subset.mpr ht.2)

theorem applyOp_and_getD (a : Finset ℕ) (r : Option (Finset ℕ)) :
    applyOp (.and : Filter κ) D (some a) r = some (a ∩ r.getD ∅) := by
  cases r with
  | none => rw [applyOp_and_none, Option.getD_none, Finset.inter_empty]
  | some x => rfl

theorem applyOp_or_getD (a : Finset ℕ) (r : Option (Finset ℕ)) :
    applyOp (.or : Filter κ) D (some a) r = some (a ∪ r.getD ∅) := by
  cases r with
  | none => rw [applyOp_or_none, Option.getD_none, Finset.union_empty]
  | some x => rfl

theorem applyOp_not_getD {a : Finset ℕ} (ha : a ⊆ D) (r : Option (Finset ℕ)) :
    applyOp (.not : Filter κ) D (some a) r = some (a ∩ symmDiff (r.getD ∅) D) := by
  cases r with
  | none =>
    rw [applyOp_not_none, Option.getD_none, ← Finset.bot_eq_empty, bot_symmDiff,
      Finset.inter_eq_left.mpr ha]
  | some x => rfl

theorem groupValue_and {cs : List (FilterTree κ)} (h : ∀ t ∈ cs, ValueMeans s D t)
    (a : Finset ℕ) :
    (↑((groupValue s D .and cs (some a)).getD ∅) : Set ℕ) = ↑a ∩ denoteInter s D cs := by
  induction cs generalizing a with
  | nil => simp [denoteInter_nil]
  | cons t ts ih =>
    have ht := h t (by simp)
    rw [groupValue_cons, applyOp_and_getD, ih fun u hu => h u (by simp [hu]), Finset.coe_inter, ht.1,
      denoteInter_cons, Set.inter_assoc]

theorem groupValue_or {cs : List (FilterTree κ)} (h : ∀ t ∈ cs, ValueMeans s D t)
    (a : Finset ℕ) :
    (↑((groupValue s D .or cs (some a)).getD ∅) : Set ℕ) = ↑a ∪ denoteUnion s D cs := by
  induction cs generalizing a with
  | nil => simp [denoteUnion_nil]
  | cons t ts ih =>
    have ht := h t (by simp)
    rw [groupValue_cons, applyOp_or_getD, ih fun u hu => h u (by simp [hu]), Finset.coe_union, ht.1,
      denoteUnion_cons, Set.union_assoc]

theorem coe_symmDiff_of_subset {x : Finset ℕ} (hx : x ⊆ D) :
    (↑(symmDiff x D) : Set ℕ) = ↑D \ ↑x := by
  rw [symmDiff_of_le hx, Finset.coe_sdiff]

theorem groupValue_not {cs : List (FilterTree κ)} (h : ∀ t ∈ cs, ValueMeans s D t)
    {a : Finset ℕ} (ha : a ⊆ D) :
    (↑((groupValue s D .not cs (some a)).getD ∅) : Set ℕ) = ↑a \ denoteUnion s D cs := by
  induction cs generalizing a with
  | nil => simp [denoteUnion_nil]
  | cons t ts ih =>
    have ht := h t (by simp)
    rw [groupValue_cons, applyOp_not_getD ha, ih (fun u hu => h u (by simp [hu])) (Finset.inter_subset_left.trans ha),
      Finset.coe_inter, coe_symmDiff_of_subset ht.2, ht.1]
    ext x
    simp only [denoteUnion_cons, Set.mem_sdiff, Set.mem_inter_iff, Set.mem_union, Finset.mem_coe]
    have hxD : x ∈ a → x ∈ D := fun hx => ha hx
    tauto

theorem applyOp_none_of_isNot {op : Filter κ} (h : op.isNot = false) (r : Option (Finset ℕ)) :
    applyOp op D none r = some (r.getD ∅) := by
  cases r with
  | none => rw [applyOp_none_none, h]; rfl
  | some x => rw [applyOp_none_some, h]; rfl

theorem applyOp_none_not (r : Option (Finset ℕ)) :
    applyOp (.not : Filter κ) D none r = some (symmDiff (r.getD ∅) D) := by
  cases r with
  | none => rw [applyOp_none_none, Option.getD_none, ← Finset.bot_eq_empty, bot_symmDiff]; rfl
  | some x => rfl

theorem groupValue_and_none {cs : List (FilterTree κ)} (h : ∀ t ∈ cs, ValueMeans s D t)
    (hne : cs ≠ []) :
    (↑((groupValue s D .and cs none).getD ∅) : Set ℕ) = denoteInter s D cs := by
  obtain ⟨t, ts, rfl⟩ := List.exists_cons_of_ne_nil hne
  rw [groupValue_cons, applyOp_none_of_isNot rfl, groupValue_and (fun u hu => h u (by simp [hu])),
    (h t (by simp)).1]
  rfl

theorem groupValue_or_none {cs : List (FilterTree κ)} (h : ∀ t ∈ cs, ValueMeans s D t)
    (hne : cs ≠ []) :
    (↑((groupValue s D .or cs none).getD ∅) : Set ℕ) = denoteUnion s D cs := by
  obtain ⟨t, ts, rfl⟩ := List.exists_cons_of_ne_nil hne
  rw [groupValue_cons, applyOp_none_of_isNot rfl, groupValue_or (fun u hu => h u (by simp [hu])),
    (h t (by simp)).1]
  rfl

theorem groupValue_not_none {cs : List (FilterTree κ)} (h : ∀ t ∈ cs, ValueMeans s D t)
    (hne : cs ≠ []) :
    (↑((groupValue s D .not cs none).getD ∅) : Set ℕ) = ↑D \ denoteUnion s D cs := by
  obtain ⟨t, ts, rfl⟩ := List.exists_cons_of_ne_nil hne
  have ht := h t (by simp)
  have hsub : symmDiff ((value s D t).getD ∅) D ⊆ D := by
    rw [symmDiff_of_le ht.2]
    exact Finset.sdiff_subset
  rw [groupValue_cons, applyOp_none_not, groupValue_not (fun u hu => h u (by simp [hu])) hsub,
    coe_symmDiff_of_subset ht.2, ht.1, Set.sdiff_sdiff]
  rfl

mutual
theorem valueMeans_of_wellFormed : ∀ (t : FilterTree κ), WellFormed s D t → ValueMeans s D t
  | .leaf f, ⟨_, hsub⟩ => ⟨rfl, Finset.coe_subset.mp hsub⟩
  | .group op cs, ⟨hne, hcs, _⟩ => by
    have hall := valueMeans_of_wellFormedList cs hcs
    have hD : denoteUnion s D cs ⊆ ↑D := denoteUnion_subset hall
    cases op with
    | and =>
      have heq := groupValue_and_none hall hne
      obtain ⟨t, ts, rfl⟩ := List.exists_cons_of_ne_nil hne
      exact ⟨heq, Finset.coe_subset.mp (heq ▸ denoteInter_cons_subset (hall t (by simp)) ts)⟩
    | or =>
      have heq := groupValue_or_none hall hne
      exact ⟨heq, Finset.coe_subset.mp (heq ▸ hD)⟩
    | not =>
      have heq := groupValue_not_none hall hne
      exact ⟨heq, Finset.coe_subset.mp (heq ▸ Set.sdiff_subset)⟩

theorem valueMeans_of_wellFormedList : ∀ (cs : List (FilterTree κ)), WellFormedList s D cs →
    ∀ t ∈ cs, ValueMeans s D t
  | [], _ => by simp
  | t :: ts, ⟨ht, hts⟩ => by
    have hhead := valueMeans_of_wellFormed t ht
    have htail := valueMeans_of_wellFormedList ts hts
    intro u hu
    rcases List.mem_cons.mp hu with rfl | hu
    · exact hhead
    · exact htail u hu
end

theorem skipsLeaves_of_isAnd_false {op : Filter κ} (hop : op.isAnd = false) :
    ∀ (acc : Option (Finset ℕ)) (cs : List (FilterTree κ)), SkipsLeaves s D op acc cs
  | _, [] => trivial
  | acc, t :: ts => by
    refine ⟨fun hsc => ?_, skipsLeaves_of_isAnd_false hop _ ts⟩
    obtain ⟨rfl, -⟩ := shortCircuit_eq_true.mp hsc
    exact Bool.noConfusion hop

theorem skipsLeaves_and (pre cs : List (FilterTree κ))
    (hall : ∀ t ∈ pre ++ cs, ValueMeans s D t)
    (hcond : ∀ pre' t post, pre ++ cs = pre' ++ t :: post → pre' ≠ [] →
      denoteInter s D pre' = ∅ → t.isLeafNode) :
    SkipsLeaves s D .and (groupValue s D .and pre none) cs := by
  induction cs generalizing pre with
  | nil => trivial
  | cons t ts ih =>
    refine ⟨fun hsc => ?_, ?_⟩
    · have hpre : pre ≠ [] := by
        rintro rfl
        simpa using (shortCircuit_eq_true.mp hsc).2
      have hempty : groupValue s D .and pre none = some ∅ := (shortCircuit_eq_true.mp hsc).2
      have hmeans := groupValue_and_none (fun u hu => hall u (List.mem_append_left _ hu)) hpre
      rw [hempty] at hmeans
      exact hcond pre t ts rfl hpre (by simpa using hmeans.symm)
    · have hnext : applyOp (.and : Filter κ) D (groupValue s D .and pre none) (value s D t) =
          groupValue s D .and (pre ++ [t]) none := by
        rw [groupValue_append, groupValue_cons, groupValue_nil]
      rw [hnext]
      exact ih (pre ++ [t]) (by simpa using hall) (by simpa using hcond)

mutual
theorem runs_of_wellFormed : ∀ (t : FilterTree κ), WellFormed s D t → Runs s D t
  | .leaf f, ⟨hf, _⟩ => hf
  | .group op cs, ⟨_, hcs, hand⟩ => by
    refine ⟨runsList_of_wellFormedList cs hcs, ?_⟩
    cases op with
    | and =>
      exact skipsLeaves_and [] cs (by simpa using valueMeans_of_wellFormedList cs hcs)
        (by simpa using hand rfl)
    | or => exact skipsLeaves_of_isAnd_false rfl none cs
    | not => exact skipsLeaves_of_isAnd_false rfl none cs

theorem runsList_of_wellFormedList : ∀ (cs : List (FilterTree κ)), WellFormedList s D cs →
    RunsList s D cs
  | [], _ => trivial
  | t :: ts, ⟨ht, hts⟩ => ⟨runs_of_wellFormed t ht, runsList_of_wellFormedList ts hts⟩
end

end Meaning

end FilterTree

open FilterTree in
theorem filter_encodeList (s : Store κ) (cs : List (FilterTree κ))
    (hcs : WellFormedList s s.documentIdsOrEmpty cs) :
    (↑(s.filter (encodeList cs)) : Set ℕ) =
      ↑s.documentIdsOrEmpty ∩ denoteInter s s.documentIdsOrEmpty cs := by
  cases cs with
  | nil => simp [Store.filter, denoteInter]
  | cons t ts =>
    have hall := valueMeans_of_wellFormedList (t :: ts) hcs
    obtain ⟨f, fs, hl⟩ := List.exists_cons_of_ne_nil
      (mt encodeList_eq_nil.mp (List.cons_ne_nil t ts))
    have hsim := congrArg Config.state
      (filterLoop_toConfig s (encodeList (t :: ts)) Store.initMachine false (by simp [Machine.MaskOk, Store.initMachine]))
    have hflag : shortCircuit (Store.initMachine (κ := κ)).toConfig.state = false := rfl
    simp only [Machine.toConfig_state] at hsim
    have htop := evalLoop_top (s := s) (D := s.documentIdsOrEmpty) (t :: ts)
      (runsList_of_wellFormedList _ hcs) Store.initMachine.toConfig rfl
    rw [hflag] at htop
    rw [hl, Store.filter_cons, ← hl, hsim, htop,
      Set.inter_eq_right.mpr (denoteInter_cons_subset (hall t (by simp)) ts)]
    exact groupValue_and_none hall (List.cons_ne_nil t ts)

/-- A collection of three documents whose bitmap classes `1`, `2` and `3` hold
one document each; class `0` is absent. -/
def skipStore : Store ℕ where
  documentIds := some {1, 2, 3}
  rangeToBitmap _ _ _ := none
  textToken _ _ := none
  words _ := []
  bitmap c := if c = 0 then none else if c ≤ 3 then some {c} else none

/-- `Or(And(InBitmap 0, Or(InBitmap 1, InBitmap 2)), InBitmap 3)`. The absent
leaf empties the `And` accumulator, and the short-circuit stops at the `End` of
the inner `Or`, which closes the `And` instead; the `End` of the `And` then
closes the outer `Or` and `InBitmap 3` lands in the emptied top-level `And`. -/
def skipTree : FilterTree ℕ :=
  .group .or [.group .and [.leaf (.inBitmap 0), .group .or [.leaf (.inBitmap 1), .leaf (.inBitmap 2)]],
    .leaf (.inBitmap 3)]

theorem filter_skipTree :
    skipStore.filter (FilterTree.encodeList [skipTree]) = ∅ ∧
      (↑skipStore.documentIdsOrEmpty ∩
        FilterTree.denoteInter skipStore skipStore.documentIdsOrEmpty [skipTree] : Set ℕ) = {3} := by
  refine ⟨by decide, ?_⟩
  ext x
  simp [skipTree, FilterTree.denoteInter_cons, FilterTree.denoteInter_nil, FilterTree.denoteUnion_cons,
    FilterTree.denoteUnion_nil, FilterTree.denote_or, FilterTree.denote_and, FilterTree.denote_leaf, skipStore,
    Store.leafResult, Store.documentIdsOrEmpty]

end EsmpServer.Query
