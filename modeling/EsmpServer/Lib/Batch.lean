import Mathlib

/-!
# Write batches over a key-value store

A batch is a list of set and clear operations that a store applies in order when
it is committed. The store is an association list with dependent values. The
lemmas say what a batch does to one key: a key that no operation names keeps
its value, and a key present afterwards was present before or was set by the
batch. The mirror rule is the invariant rule for keys that come in pairs: a
store where a key is present exactly when its mirror is keeps that property
under a batch that writes every such key together with its mirror.
-/

namespace AList

universe u v

variable {α : Type u} {β : α → Type v}

/-- One operation of a write batch. -/
inductive BatchOp (β : α → Type v) where
  | set (a : α) (b : β a)
  | clear (a : α)

/-- The key an operation writes. -/
def BatchOp.key : BatchOp β → α
  | .set a _ => a
  | .clear a => a

section Pairs

variable (K : α → Prop) (m : α → α)

/-- A batch whose operations on the keys of `K` come in pairs: an operation on a
key followed at once by the same operation on its mirror. -/
inductive Paired : List (BatchOp β) → Prop
  | nil : Paired []
  | other {op : BatchOp β} {ops} : ¬ K op.key → Paired ops → Paired (op :: ops)
  | set {a : α} {b : β a} {b' : β (m a)} {ops} : K a → Paired ops →
      Paired (.set a b :: .set (m a) b' :: ops)
  | clear {a : α} {ops} : K a → Paired ops → Paired (.clear a :: .clear (m a) :: ops)

variable {K m}

theorem Paired.append {ops ops' : List (BatchOp β)} (h : Paired K m ops)
    (h' : Paired K m ops') : Paired K m (ops ++ ops') := by
  induction h with
  | nil => exact h'
  | other hk _ ih => exact .other hk ih
  | set hk _ ih => exact .set hk ih
  | clear hk _ ih => exact .clear hk ih

theorem paired_flatMap {γ : Type*} {f : γ → List (BatchOp β)} :
    ∀ {l : List γ}, (∀ x ∈ l, Paired K m (f x)) → Paired K m (l.flatMap f)
  | [], _ => .nil
  | x :: l, h => by
    rw [List.flatMap_cons]
    exact (h x (by simp)).append (paired_flatMap fun y hy => h y (by simp [hy]))

theorem paired_of_forall : ∀ {ops : List (BatchOp β)}, (∀ op ∈ ops, ¬ K op.key) → Paired K m ops
  | [], _ => .nil
  | op :: ops, h => .other (h op (by simp)) (paired_of_forall fun op' hop' => h op' (by simp [hop']))

end Pairs

variable [DecidableEq α]

/-- A store after one operation. -/
def applyOp (s : AList β) : BatchOp β → AList β
  | .set a b => s.insert a b
  | .clear a => s.erase a

@[simp] theorem applyOp_set (s : AList β) (a : α) (b : β a) : s.applyOp (.set a b) = s.insert a b :=
  rfl

@[simp] theorem applyOp_clear (s : AList β) (a : α) : s.applyOp (.clear a) = s.erase a := rfl

/-- A store after a whole batch, applied in order. -/
def applyBatch (s : AList β) (ops : List (BatchOp β)) : AList β :=
  ops.foldl applyOp s

@[simp] theorem applyBatch_nil (s : AList β) : s.applyBatch [] = s := rfl

@[simp] theorem applyBatch_cons (s : AList β) (op : BatchOp β) (ops : List (BatchOp β)) :
    s.applyBatch (op :: ops) = (s.applyOp op).applyBatch ops := rfl

@[simp] theorem applyBatch_append (s : AList β) (ops ops' : List (BatchOp β)) :
    s.applyBatch (ops ++ ops') = (s.applyBatch ops).applyBatch ops' := by
  simp [applyBatch, List.foldl_append]

theorem lookup_applyOp_of_ne {s : AList β} {op : BatchOp β} {a : α} (h : op.key ≠ a) :
    (s.applyOp op).lookup a = s.lookup a := by
  cases op with
  | set a' b => exact lookup_insert_ne (Ne.symm h)
  | clear a' => exact lookup_erase_ne (Ne.symm h)

theorem lookup_applyBatch_of_forall_ne {a : α} :
    ∀ {s : AList β} {ops : List (BatchOp β)}, (∀ op ∈ ops, op.key ≠ a) →
      (s.applyBatch ops).lookup a = s.lookup a
  | _, [], _ => rfl
  | s, op :: ops, h => by
    rw [applyBatch_cons, lookup_applyBatch_of_forall_ne (fun op' hop' => h op' (by simp [hop'])),
      lookup_applyOp_of_ne (h op (by simp))]

theorem mem_applyBatch_of_forall_ne {s : AList β} {ops : List (BatchOp β)} {a : α}
    (h : ∀ op ∈ ops, op.key ≠ a) : a ∈ s.applyBatch ops ↔ a ∈ s := by
  rw [← lookup_isSome, ← lookup_isSome, lookup_applyBatch_of_forall_ne h]

theorem mem_applyBatch {a : α} :
    ∀ {s : AList β} {ops : List (BatchOp β)}, a ∈ s.applyBatch ops →
      a ∈ s ∨ ∃ b, BatchOp.set a b ∈ ops
  | _, [], h => .inl h
  | s, op :: ops, h => by
    rw [applyBatch_cons] at h
    rcases mem_applyBatch h with h | ⟨b, hb⟩
    · cases op with
      | set a' b' =>
        rcases (mem_insert s).mp h with rfl | h
        · exact .inr ⟨b', by simp⟩
        · exact .inl h
      | clear a' => exact .inl (mem_erase.mp h).2
    · exact .inr ⟨b, by simp [hb]⟩

theorem lookup_applyBatch_eq_some {a : α} {b : β a} {s : AList β} {ops : List (BatchOp β)}
    (h : (s.applyBatch ops).lookup a = some b) :
    s.lookup a = some b ∨ BatchOp.set a b ∈ ops := by
  induction ops generalizing s with
  | nil => exact .inl h
  | cons op ops ih =>
    rw [applyBatch_cons] at h
    rcases ih h with h | h
    · cases op with
      | set a' b' =>
        by_cases ha : a = a'
        · subst ha
          rw [applyOp_set, lookup_insert, Option.some_inj] at h
          exact .inr (by simp [h])
        · exact .inl (by rwa [applyOp_set, lookup_insert_ne ha] at h)
      | clear a' =>
        by_cases ha : a = a'
        · subst ha
          simp at h
        · exact .inl (by rwa [applyOp_clear, lookup_erase_ne ha] at h)
    · exact .inr (by simp [h])

theorem lookup_applyBatch_eq_none_of_eq_none {a : α} {s : AList β} {ops : List (BatchOp β)}
    (h : s.lookup a = none) (hs : ∀ b, BatchOp.set a b ∉ ops) :
    (s.applyBatch ops).lookup a = none := by
  cases hv : (s.applyBatch ops).lookup a with
  | none => rfl
  | some b =>
    rcases lookup_applyBatch_eq_some hv with hb | hb
    · simp [h] at hb
    · exact absurd hb (hs b)

theorem lookup_applyBatch_eq_none {a : α} :
    ∀ {s : AList β} {ops : List (BatchOp β)}, BatchOp.clear a ∈ ops →
      (∀ b, BatchOp.set a b ∉ ops) → (s.applyBatch ops).lookup a = none
  | _, [], hc, _ => by simp at hc
  | s, op :: ops, hc, hs => by
    rw [applyBatch_cons]
    have hs' : ∀ b, BatchOp.set a b ∉ ops := fun b hb => hs b (by simp [hb])
    rcases List.mem_cons.mp hc with rfl | hc
    · exact lookup_applyBatch_eq_none_of_eq_none (by simp) hs'
    · exact lookup_applyBatch_eq_none hc hs'

theorem lookup_applyBatch_of_clears {a : α} {s : AList β} {ops : List (BatchOp β)}
    (h : ∀ op ∈ ops, ∃ a', op = .clear a') :
    (s.applyBatch ops).lookup a = if a ∈ ops.map BatchOp.key then none else s.lookup a := by
  split_ifs with hc
  · obtain ⟨op, hop, hk⟩ := List.mem_map.mp hc
    obtain ⟨a', rfl⟩ := h op hop
    cases hk
    exact lookup_applyBatch_eq_none hop fun b hb => by
      obtain ⟨a', ha'⟩ := h _ hb
      cases ha'
  · exact lookup_applyBatch_of_forall_ne fun op hop hk => hc (List.mem_map.mpr ⟨op, hop, hk⟩)

theorem lookup_applyBatch_map_clear {ι : Type*} (f : ι → α) (a : α) :
    ∀ (xs : List ι) (s : AList β), (s.applyBatch (xs.map fun x => .clear (f x))).lookup a =
      if ∃ x ∈ xs, f x = a then none else s.lookup a
  | [], s => by simp
  | x :: xs, s => by
    rw [List.map_cons, applyBatch_cons, lookup_applyBatch_map_clear f a xs, applyOp_clear]
    by_cases hx : f x = a
    · subst hx
      simp
    · simp [lookup_erase_ne (Ne.symm hx), hx]

section Values

variable {γ : Type v}

theorem lookup_applyBatch_map_set {ι : Type*} (f : ι → α) (g : ι → γ) (a : α) :
    ∀ (xs : List ι) (s : AList fun _ : α => γ),
      (s.applyBatch (xs.map fun x => .set (f x) (g x))).lookup a =
        ((xs.reverse.find? (f · = a)).map g).or (s.lookup a)
  | [], s => by simp
  | x :: xs, s => by
    rw [List.map_cons, applyBatch_cons, lookup_applyBatch_map_set f g a xs, applyOp_set,
      List.reverse_cons, List.find?_append]
    by_cases hx : f x = a
    · subst hx
      cases xs.reverse.find? (f · = f x) <;> simp
    · cases xs.reverse.find? (f · = a) <;> simp [lookup_insert_ne (Ne.symm hx), hx]

theorem lookup_applyBatch_map_set_const {ι : Type*} (f : ι → α) (b : γ) (a : α) (xs : List ι)
    (s : AList fun _ : α => γ) :
    (s.applyBatch (xs.map fun x => .set (f x) b)).lookup a =
      if ∃ x ∈ xs, f x = a then some b else s.lookup a := by
  rw [lookup_applyBatch_map_set f (fun _ => b)]
  split_ifs with h
  · obtain ⟨x, hx, hfx⟩ := h
    obtain ⟨y, hy⟩ : ∃ y, xs.reverse.find? (f · = a) = some y := by
      rw [← Option.isSome_iff_exists, List.find?_isSome]
      exact ⟨x, List.mem_reverse.mpr hx, by simpa using hfx⟩
    simp [hy]
  · have hn : xs.reverse.find? (f · = a) = none := by
      rw [List.find?_eq_none]
      intro x hx
      simpa using fun hfx => h ⟨x, List.mem_reverse.mp hx, hfx⟩
    simp [hn]

end Values

section Blocks

variable {ι σ : Type*} [DecidableEq σ] (blk : α → σ) (slot : ι → Option σ) (seg : ι → List (BatchOp β))
  (before after : ι → (a : α) → Option (β a))

theorem lookup_applyBatch_flatMap_blocks (a : α) :
    ∀ (l : List ι) (s : AList β), (l.filterMap slot).Nodup →
      (∀ i ∈ l, ∀ op ∈ seg i, slot i = some (blk op.key)) →
      (∀ i ∈ l, slot i ≠ some (blk a) → before i a = none ∧ after i a = none) →
      (∀ i ∈ l, ∀ s : AList β, slot i = some (blk a) → s.lookup a = before i a →
        (s.applyBatch (seg i)).lookup a = after i a) →
      (blk a ∈ l.filterMap slot → s.lookup a = l.findSome? (before · a)) →
      (s.applyBatch (l.flatMap seg)).lookup a =
        if blk a ∈ l.filterMap slot then l.findSome? (after · a) else s.lookup a
  | [], s, _, _, _, _, _ => by simp
  | i :: l, s, hnd, hseg, hout, hstep, hs => by
    have hl : ∀ j ∈ l, slot j = some (blk a) → slot i ≠ some (blk a) := by
      intro j hj hja hia
      rw [List.filterMap_cons, hia, List.nodup_cons] at hnd
      exact hnd.1 (List.mem_filterMap.mpr ⟨j, hj, hja⟩)
    have hnd' : (l.filterMap slot).Nodup := by
      rw [List.filterMap_cons] at hnd
      split at hnd
      · exact hnd
      · exact (List.nodup_cons.mp hnd).2
    have ih := lookup_applyBatch_flatMap_blocks a l (s.applyBatch (seg i)) hnd'
      (fun j hj => hseg j (by simp [hj])) (fun j hj => hout j (by simp [hj]))
      (fun j hj => hstep j (by simp [hj]))
    rw [List.flatMap_cons, applyBatch_append]
    by_cases hia : slot i = some (blk a)
    · have hfree : ∀ j ∈ l, slot j ≠ some (blk a) := fun j hj hja => hl j hj hja hia
      have hnot : blk a ∉ l.filterMap slot := by
        simp only [List.mem_filterMap, not_exists, not_and]
        exact fun j hj hja => hfree j hj hja
      have hbefore : l.findSome? (before · a) = none :=
        List.findSome?_eq_none_iff.mpr fun j hj => (hout j (by simp [hj]) (hfree j hj)).1
      have hafter : l.findSome? (after · a) = none :=
        List.findSome?_eq_none_iff.mpr fun j hj => (hout j (by simp [hj]) (hfree j hj)).2
      have hmem : blk a ∈ (i :: l).filterMap slot := by simp [hia]
      have hsa : s.lookup a = before i a := by
        rw [hs hmem, List.findSome?_cons]
        cases before i a <;> simp [hbefore]
      rw [ih (fun h => absurd h hnot), if_neg hnot, if_pos hmem, hstep i (by simp) s hia hsa,
        List.findSome?_cons, hafter]
      cases after i a <;> rfl
    · have hframe : (s.applyBatch (seg i)).lookup a = s.lookup a :=
        lookup_applyBatch_of_forall_ne fun op hop hk =>
          hia (hk ▸ hseg i (by simp) op hop)
      obtain ⟨hbi, hai⟩ := hout i (by simp) hia
      have hmem : blk a ∈ (i :: l).filterMap slot ↔ blk a ∈ l.filterMap slot := by
        rw [List.filterMap_cons]
        split
        · rfl
        · rename_i b hb
          rw [List.mem_cons]
          exact ⟨fun h => h.resolve_left fun h' => hia (h' ▸ hb), .inr⟩
      rw [ih fun h => by rw [hframe, hs (hmem.mpr h), List.findSome?_cons, hbi], hframe,
        List.findSome?_cons, hai]
      simp only [hmem]

end Blocks

section Mirror

variable (K : α → Prop) (m : α → α)

/-- A store in which a key of `K` is present exactly when its mirror is. -/
def MirrorClosed (s : AList β) : Prop :=
  ∀ a, K a → (a ∈ s ↔ m a ∈ s)

variable {K m}

section Involution

-- the mirror is an involution of the paired keys
variable (hm : ∀ a, K a → K (m a) ∧ m (m a) = a)
include hm

omit [DecidableEq α] in
theorem mirror_injective {a a' : α} (ha : K a) (ha' : K a') (h : m a = m a') : a = a' := by
  rw [← (hm a ha).2, h, (hm a' ha').2]

theorem MirrorClosed.applyOp_other {s : AList β} {op : BatchOp β} (hs : MirrorClosed K m s)
    (hk : ¬ K op.key) : MirrorClosed K m (s.applyOp op) := by
  intro a ha
  have h₁ : op.key ≠ a := fun h => hk (h ▸ ha)
  have h₂ : op.key ≠ m a := fun h => hk (h ▸ (hm a ha).1)
  rw [← lookup_isSome, ← lookup_isSome, lookup_applyOp_of_ne h₁, lookup_applyOp_of_ne h₂,
    lookup_isSome, lookup_isSome]
  exact hs a ha

theorem MirrorClosed.applyPair {s : AList β} {a : α} (ha : K a) (hs : MirrorClosed K m s)
    (f : AList β → AList β) (g : AList β → AList β)
    (hf : ∀ (t : AList β) x, x ≠ a → (x ∈ f t ↔ x ∈ t))
    (hg : ∀ (t : AList β) x, x ≠ m a → (x ∈ g t ↔ x ∈ t))
    (hboth : a ∈ g (f s) ↔ m a ∈ g (f s)) : MirrorClosed K m (g (f s)) := by
  intro x hx
  by_cases hxa : x = a
  · subst hxa
    exact hboth
  by_cases hxm : x = m a
  · subst hxm
    rw [(hm a ha).2]
    exact hboth.symm
  have hmx : m x ≠ m a := fun h => hxa (mirror_injective hm hx ha h)
  have hmx' : m x ≠ a := fun h => hxm (by rw [← h, (hm x hx).2])
  rw [hg _ x hxm, hf _ x hxa, hg _ (m x) hmx, hf _ (m x) hmx']
  exact hs x hx

theorem MirrorClosed.applyBatch {ops : List (BatchOp β)} (hops : Paired K m ops) :
    ∀ {s : AList β}, MirrorClosed K m s → MirrorClosed K m (s.applyBatch ops) := by
  induction hops with
  | nil => exact id
  | other hk _ ih => exact fun hs => ih (hs.applyOp_other hm hk)
  | @set a b b' _ ha _ ih =>
    intro s hs
    refine ih (hs.applyPair hm ha (fun t => t.insert a b) (fun t => t.insert (m a) b')
      (fun t x hx => by simp [hx]) (fun t x hx => by simp [hx]) ?_)
    simp
  | @clear a _ ha _ ih =>
    intro s hs
    refine ih (hs.applyPair hm ha (fun t => t.erase a) (fun t => t.erase (m a))
      (fun t x hx => by simp [hx]) (fun t x hx => by simp [hx]) ?_)
    simp

end Involution

end Mirror

end AList
