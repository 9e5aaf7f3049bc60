import Mathlib

/-!
# Computations that can fail

The rules that run `do` blocks in `Except` and folds in `Option` symbolically, and the
invariant rules of loops that can stop early with an error.
-/

/-! ## Running `Except` computations symbolically

The equations that let `simp` run a `do` block in `Except` past a step that
succeeded or failed, and read a `pure` as a success; the inversion of a bind
that succeeded; and the invariant rules of a loop that can stop with an error
(`List.foldlM` and `List.mapM` in `Except`).
-/

namespace Except

universe u v

variable {ε : Type u} {α β : Type v}

@[simp] theorem ok_bind (a : α) (f : α → Except ε β) : (Except.ok a >>= f) = f a := rfl

@[simp] theorem error_bind (e : ε) (f : α → Except ε β) :
    (Except.error e >>= f) = Except.error e := rfl

@[simp] theorem pure_eq_ok (a : α) : (pure a : Except ε α) = Except.ok a := rfl

@[simp] theorem bind_ok_right (x : Except ε α) : (x >>= Except.ok) = x := by
  cases x <;> rfl

theorem bind_eq_ok {x : Except ε α} {f : α → Except ε β} {b : β} :
    (x >>= f) = .ok b ↔ ∃ a, x = .ok a ∧ f a = .ok b := by
  cases x with
  | error e => simp
  | ok a => simp

theorem map_eq_ok {x : Except ε α} {f : α → β} {b : β} :
    f <$> x = .ok b ↔ ∃ a, x = .ok a ∧ f a = b := by
  cases x with
  | error e => simp [Functor.map, Except.map]
  | ok a => simp [Functor.map, Except.map]

end Except

namespace List

universe u v w

variable {ε : Type u} {α : Type v} {β : Type w}

theorem foldlM_except_invariant (P : β → Prop) {f : β → α → Except ε β} :
    ∀ {l : List α} {b b' : β}, P b → (∀ c a c', a ∈ l → P c → f c a = .ok c' → P c') →
      l.foldlM f b = .ok b' → P b'
  | [], b, b', hb, _, h => by
    simp only [foldlM_nil, Except.pure_eq_ok, Except.ok.injEq] at h
    exact h ▸ hb
  | a :: l, b, b', hb, hf, h => by
    rw [foldlM_cons] at h
    obtain ⟨c, hc, hrest⟩ := Except.bind_eq_ok.mp h
    exact foldlM_except_invariant P (hf b a c (by simp) hb hc)
      (fun c a c' ha => hf c a c' (by simp [ha])) hrest

theorem foldlM_except_error (Q : ε → Prop) {f : β → α → Except ε β} :
    ∀ {l : List α} {b : β} {e : ε}, (∀ c a e, a ∈ l → f c a = .error e → Q e) →
      l.foldlM f b = .error e → Q e
  | [], b, e, _, h => by simp at h
  | a :: l, b, e, hf, h => by
    rw [foldlM_cons] at h
    cases hstep : f b a with
    | error e' =>
      rw [hstep] at h
      cases h
      exact hf b a e List.mem_cons_self hstep
    | ok c =>
      rw [hstep, Except.ok_bind] at h
      exact foldlM_except_error Q (fun c a e ha => hf c a e (List.mem_cons_of_mem _ ha)) h

theorem mem_of_mapM_except {f : α → Except ε β} :
    ∀ {l : List α} {r : List β}, l.mapM f = .ok r → ∀ y ∈ r, ∃ x ∈ l, f x = .ok y
  | [], r, h, y, hy => by
    simp only [mapM_nil, Except.pure_eq_ok, Except.ok.injEq] at h
    simp [← h] at hy
  | a :: l, r, h, y, hy => by
    rw [mapM_cons] at h
    obtain ⟨b, hb, h⟩ := Except.bind_eq_ok.mp h
    obtain ⟨r', hr', h⟩ := Except.bind_eq_ok.mp h
    simp only [Except.pure_eq_ok, Except.ok.injEq] at h
    subst h
    rcases List.mem_cons.mp hy with rfl | hy
    · exact ⟨a, by simp, hb⟩
    · obtain ⟨x, hx, hfx⟩ := mem_of_mapM_except hr' y hy
      exact ⟨x, by simp [hx], hfx⟩

end List

/-! ## Invariants of a fold that can fail

A loop that may stop early with an error is a `List.foldlM` in `Option`. A
property that every successful step keeps, and that holds at the start, holds of
the result of every successful run. A `List.mapM` in `Option` succeeds exactly
when every call does, and then returns the list of their results.
-/

namespace List

variable {α β : Type*}

theorem foldlM_option_cons (f : β → α → Option β) (a : α) (l : List α) (b : β) :
    (a :: l).foldlM f b = (f b a).bind fun b' => l.foldlM f b' := rfl

theorem foldlM_option_invariant (P : β → Prop) (f : β → α → Option β) :
    ∀ (l : List α) (b b' : β), P b → (∀ c a c', a ∈ l → P c → f c a = some c' → P c') →
      l.foldlM f b = some b' → P b'
  | [], b, b', hb, _, h => by
    simp only [foldlM_nil, Option.pure_def, Option.some.injEq] at h
    exact h ▸ hb
  | a :: l, b, b', hb, hf, h => by
    rw [foldlM_option_cons] at h
    obtain ⟨c, hc, hrest⟩ := Option.bind_eq_some_iff.mp h
    exact foldlM_option_invariant P f l c b' (hf b a c (by simp) hb hc)
      (fun c a c' ha => hf c a c' (by simp [ha])) hrest

theorem mapM_option_cons (f : α → Option β) (a : α) (l : List α) :
    (a :: l).mapM f = (f a).bind fun b => (l.mapM f).map (b :: ·) := by
  rw [mapM_cons]
  cases f a <;> cases l.mapM f <;> rfl

theorem mapM_option_eq_some {f : α → Option β} (d : β) :
    ∀ {l : List α} {r : List β}, l.mapM f = some r → r = l.map fun x => (f x).getD d
  | [], r, h => by simpa using h.symm
  | a :: l, r, h => by
    rw [mapM_option_cons] at h
    obtain ⟨b, hb, h⟩ := Option.bind_eq_some_iff.mp h
    obtain ⟨bs, hbs, rfl⟩ := Option.map_eq_some_iff.mp h
    rw [map_cons, hb, Option.getD_some, ← mapM_option_eq_some d hbs]

theorem mapM_option_isSome {f : α → Option β} :
    ∀ {l : List α}, (∀ x ∈ l, (f x).isSome) → (l.mapM f).isSome
  | [], _ => rfl
  | a :: l, h => by
    obtain ⟨b, hb⟩ := Option.isSome_iff_exists.mp (h a (by simp))
    obtain ⟨bs, hbs⟩ := Option.isSome_iff_exists.mp
      (mapM_option_isSome (l := l) fun x hx => h x (List.mem_cons_of_mem a hx))
    rw [mapM_option_cons, hb, Option.bind_some, hbs]
    rfl

theorem mapM_option_of_eq_some {f : α → Option β} {g : α → β} :
    ∀ {l : List α}, (∀ x ∈ l, f x = some (g x)) → l.mapM f = some (l.map g)
  | [], _ => rfl
  | a :: l, h => by
    rw [mapM_option_cons, h a (by simp), Option.bind_some,
      mapM_option_of_eq_some fun x hx => h x (List.mem_cons_of_mem a hx)]
    rfl

end List
