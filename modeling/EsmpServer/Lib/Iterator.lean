import Mathlib

/-!
# What an iterator yields

An iterator is a state and a step `next : τ → Option α × τ` that returns the next
item, or `none` at the end, with the state after it. `Yields next t l t'` says
that from `t` the iterator yields the items `l` in order and arrives at `t'`.
A run over a concatenation splits at the boundary (`yields_append`), which lets a
reader that pulls items lazily be followed through the pieces of what it reads.

`collect` is the loop that pulls items until the first `none` (a `for` loop pushing
each item, or `Iterator::collect`), with fuel. A run that ends gives what it yields
(`collect_of_yields`), and where every item lowers a measure, fuel above the measure is
never what stops the loop (`collect_add`).

A run that yields `l` and then ends passes through one state per call (`Yields.exists_states`).
`Peekable` keeps the result of a `peek` until the next `next`; standing before the `i`-th call
of such a run (`Peekable.At`), `next` returns the `i`-th result and `peek` returns it and stays.
-/

namespace Iterator

section Runs

variable {τ α : Type} (next : τ → Option α × τ)

/-- From `t` the iterator yields `l` and arrives at `t'`. -/
def Yields : τ → List α → τ → Prop
  | t, [], t' => t = t'
  | t, a :: l, t' => ∃ t₁, next t = (some a, t₁) ∧ Yields t₁ l t'

@[simp] theorem yields_nil {t t' : τ} : Yields next t [] t' ↔ t = t' := Iff.rfl

theorem yields_cons {t t' : τ} {a : α} {l : List α} :
    Yields next t (a :: l) t' ↔ ∃ t₁, next t = (some a, t₁) ∧ Yields next t₁ l t' := Iff.rfl

theorem yields_append : ∀ {t t' : τ} {l₁ l₂ : List α},
    Yields next t (l₁ ++ l₂) t' ↔ ∃ tm, Yields next t l₁ tm ∧ Yields next tm l₂ t'
  | t, t', [], l₂ => by simp
  | t, t', a :: l₁, l₂ => by
    simp only [List.cons_append, yields_cons, yields_append]
    constructor
    · rintro ⟨t₁, hstep, tm, h₁, h₂⟩
      exact ⟨tm, ⟨t₁, hstep, h₁⟩, h₂⟩
    · rintro ⟨tm, ⟨t₁, hstep, h₁⟩, h₂⟩
      exact ⟨t₁, hstep, tm, h₁, h₂⟩

theorem yields_singleton {t t' : τ} {a : α} : Yields next t [a] t' ↔ next t = (some a, t') := by
  simp [yields_cons]

theorem Yields.cons {t t₁ t' : τ} {a : α} {l : List α} (h₁ : Yields next t [a] t₁)
    (h : Yields next t₁ l t') : Yields next t (a :: l) t' := by
  obtain ⟨_, hstep, rfl⟩ := h₁
  exact ⟨_, hstep, h⟩

theorem Yields.length_add_le {μ : τ → ℕ} (hμ : ∀ t a t', next t = (some a, t') → μ t' < μ t) :
    ∀ {t t' : τ} {l : List α}, Yields next t l t' → l.length + μ t' ≤ μ t
  | _, _, [], h => by rw [h]; simp
  | t, t', a :: l, ⟨t₁, hstep, h⟩ => by
    have hlt := hμ t a t₁ hstep
    have ih := Yields.length_add_le hμ h
    simp only [List.length_cons]
    omega

/-- The items up to the first `none`, at most `fuel` of them. -/
def collect : ℕ → τ → List α
  | 0, _ => []
  | fuel + 1, t =>
    match next t with
    | (some a, t') => a :: collect fuel t'
    | (none, _) => []

variable {next}

theorem collect_succ_of_some {fuel : ℕ} {t t' : τ} {a : α} (h : next t = (some a, t')) :
    collect next (fuel + 1) t = a :: collect next fuel t' := by
  rw [collect, h]

theorem collect_succ_of_none {fuel : ℕ} {t t' : τ} (h : next t = (none, t')) :
    collect next (fuel + 1) t = [] := by
  rw [collect, h]

theorem collect_of_yields : ∀ {fuel : ℕ} {t t' : τ} {l : List α}, Yields next t l t' →
    (next t').1 = none → l.length < fuel → collect next fuel t = l
  | fuel + 1, t, t', [], h, hend, _ => by
    rw [yields_nil] at h
    subst h
    exact collect_succ_of_none (Prod.ext hend rfl)
  | fuel + 1, t, t', a :: l, ⟨t₁, hstep, h⟩, hend, hlen => by
    rw [collect_succ_of_some hstep, collect_of_yields h hend (by simpa using hlen)]

section Measure

variable {μ : τ → ℕ} (hμ : ∀ t a t', next t = (some a, t') → μ t' < μ t)
include hμ

theorem collect_succ_eq : ∀ (fuel : ℕ) (t : τ), μ t < fuel → collect next (fuel + 1) t = collect next fuel t
  | 0, _, hlt => absurd hlt (Nat.not_lt_zero _)
  | fuel + 1, t, hlt => by
    rcases h : next t with ⟨_ | a, t'⟩
    · rw [collect_succ_of_none h, collect_succ_of_none h]
    · have hlt' : μ t' < fuel := by have := hμ t a t' h; omega
      rw [collect_succ_of_some h, collect_succ_of_some h, collect_succ_eq fuel t' hlt']

theorem collect_add (fuel : ℕ) (t : τ) (hlt : μ t < fuel) :
    ∀ k, collect next (fuel + k) t = collect next fuel t
  | 0 => rfl
  | k + 1 => by
    rw [← Nat.add_assoc, collect_succ_eq hμ (fuel + k) t (by omega), collect_add fuel t hlt k]

end Measure

/-! ## The states of a run -/

theorem Yields.exists_states : ∀ {t t' t'' : τ} {l : List α}, Yields next t l t' → next t' = (none, t'') →
    ∃ states : ℕ → τ, states 0 = t ∧ states (l.length + 1) = t'' ∧
      ∀ i ≤ l.length, next (states i) = (l[i]?, states (i + 1))
  | t, _, t'', [], h, hend => by
    rw [yields_nil] at h
    subst h
    refine ⟨fun i => if i = 0 then t else t'', rfl, rfl, ?_⟩
    intro i hi
    obtain rfl : i = 0 := Nat.le_zero.mp hi
    simpa using hend
  | t, _, t'', a :: l, ⟨t₁, hstep, h⟩, hend => by
    obtain ⟨states, h0, hlast, hcall⟩ := Yields.exists_states h hend
    refine ⟨fun i => match i with | 0 => t | i + 1 => states i, rfl, hlast, ?_⟩
    rintro (_ | i) hi
    · simpa [h0] using hstep
    · exact hcall i (by simpa using hi)

end Runs

/-! ## Peekable -/

/-- `Peekable`: an iterator, and the result of a `peek` that no `next` has taken yet. -/
structure Peekable (τ α : Type) where
  iter : τ
  peeked : Option (Option α)

namespace Peekable

variable {τ α : Type} (iterNext : τ → Option α × τ)

/-- `Peekable::next`: the peeked result if there is one, else the iterator's. -/
def next (p : Peekable τ α) : Option α × Peekable τ α :=
  match p.peeked with
  | some a => (a, ⟨p.iter, none⟩)
  | none => ((iterNext p.iter).1, ⟨(iterNext p.iter).2, none⟩)

/-- `Peekable::peek`: the peeked result, pulled from the iterator if there is none yet. -/
def peek (p : Peekable τ α) : Option α × Peekable τ α :=
  match p.peeked with
  | some a => (a, p)
  | none => ((iterNext p.iter).1, ⟨(iterNext p.iter).2, some (iterNext p.iter).1⟩)

variable {iterNext} {states : ℕ → τ} {items : ℕ → Option α} {n : ℕ}

/-- The peekable stands before the `i`-th call of the run through `states`: either nothing is
peeked and the iterator is at `states i`, or that call is made and its result peeked. -/
def At (states : ℕ → τ) (items : ℕ → Option α) (p : Peekable τ α) (i : ℕ) : Prop :=
  (p.peeked = none ∧ p.iter = states i) ∨ (p.peeked = some (items i) ∧ p.iter = states (i + 1))

theorem at_iter (i : ℕ) : At states items ⟨states i, none⟩ i := .inl ⟨rfl, rfl⟩

variable (hstates : ∀ i ≤ n, iterNext (states i) = (items i, states (i + 1)))
include hstates

theorem At.next_eq {p : Peekable τ α} {i : ℕ} (h : p.At states items i) (hi : i ≤ n) :
    p.next iterNext = (items i, ⟨states (i + 1), none⟩) := by
  rcases h with ⟨hpeeked, hiter⟩ | ⟨hpeeked, hiter⟩
  · rw [next, hpeeked, hiter, hstates i hi]
  · rw [next, hpeeked, hiter]

theorem At.peek_eq {p : Peekable τ α} {i : ℕ} (h : p.At states items i) (hi : i ≤ n) :
    (p.peek iterNext).1 = items i ∧ (p.peek iterNext).2.At states items i := by
  rcases h with ⟨hpeeked, hiter⟩ | ⟨hpeeked, hiter⟩
  · rw [peek, hpeeked, hiter, hstates i hi]
    exact ⟨rfl, .inr ⟨rfl, rfl⟩⟩
  · rw [peek, hpeeked]
    exact ⟨rfl, .inr ⟨hpeeked, hiter⟩⟩

end Peekable

end Iterator
