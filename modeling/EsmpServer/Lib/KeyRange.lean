import Mathlib

/-!
# Keys with a fixed-width suffix in a lexicographic range

A key-value store orders keys as byte strings, lexicographically. An index key
is a value followed by a fixed-width suffix (a record id), and a range scan for
the values between `lo` and `hi` reads the keys between `lo` followed by the
smallest suffix and `hi` followed by the largest one.

The range holds every key whose value lies between `lo` and `hi` only under a
condition: a suffix compares with the bytes of a longer value. The lemmas here
give the two bounds for the shapes the lookup of this development needs.
Bytes are naturals.

A scan over keys held in order starts at the first key not below the lower
bound and stops at the first key above the upper one; on a sorted list it visits
exactly the keys between the bounds (`mem_takeWhile_dropWhile`). The keys that
start with a given prefix lie in one interval (`IsPrefix.of_le_of_le`), so a scan
that also stops at the first key without the prefix of its lower bound visits
the keys between the bounds that have it (`mem_takeWhile_dropWhile_prefix`).
-/

namespace List

theorem cons_le_cons_iff_lex {a b : ℕ} {x y : List ℕ} :
    a :: x ≤ b :: y ↔ a < b ∨ a = b ∧ x ≤ y := by
  rw [le_iff_lt_or_eq, le_iff_lt_or_eq]
  change Lex (· < ·) (a :: x) (b :: y) ∨ _ ↔ a < b ∨ a = b ∧ (Lex (· < ·) x y ∨ x = y)
  rw [cons_lex_cons_iff, cons.injEq]
  constructor
  · rintro ((hab | ⟨rfl, hxy⟩) | ⟨rfl, rfl⟩)
    · exact .inl hab
    · exact .inr ⟨rfl, .inl hxy⟩
    · exact .inr ⟨rfl, .inr rfl⟩
  · rintro (hab | ⟨rfl, hxy | rfl⟩)
    · exact .inl (.inl hab)
    · exact .inl (.inr ⟨rfl, hxy⟩)
    · exact .inr ⟨rfl, rfl⟩

theorem nil_le_lex (v : List ℕ) : [] ≤ v := by
  obtain _ | ⟨c, v⟩ := v
  · exact le_rfl
  · exact le_of_lt Lex.nil

theorem eq_nil_of_le_nil {x : List ℕ} (h : x ≤ []) : x = [] := by
  rcases le_iff_lt_or_eq.mp h with h | h
  · exact absurd h (not_lex_nil)
  · exact h

theorem replicate_zero_le {k : ℕ} {v : List ℕ} (h : k ≤ v.length) : replicate k 0 ≤ v := by
  induction k generalizing v with
  | zero => exact nil_le_lex v
  | succ k ih =>
    obtain _ | ⟨c, v⟩ := v
    · simp at h
    · rw [replicate_succ, cons_le_cons_iff_lex]
      rcases Nat.eq_zero_or_pos c with rfl | hc
      · exact .inr ⟨rfl, ih (by simpa using h)⟩
      · exact .inl hc

theorem append_le_append_left_lex (x : List ℕ) {a b : List ℕ} (h : a ≤ b) : x ++ a ≤ x ++ b := by
  induction x with
  | nil => exact h
  | cons c x ih => exact (cons_le_cons_iff_lex).mpr (.inr ⟨rfl, ih⟩)

theorem le_replicate_of_forall_le {l : List ℕ} {m n : ℕ} (hl : ∀ b ∈ l, b ≤ m)
    (hn : l.length ≤ n) : l ≤ replicate n m := by
  induction l generalizing n with
  | nil => exact nil_le_lex _
  | cons b l ih =>
    obtain _ | n := n
    · simp at hn
    · rw [replicate_succ, cons_le_cons_iff_lex]
      rcases (hl b mem_cons_self).lt_or_eq with hb | rfl
      · exact .inl hb
      · exact .inr ⟨rfl, ih (fun c hc => hl c (mem_cons_of_mem _ hc)) (by simpa using hn)⟩

theorem append_replicate_zero_le {x y w : List ℕ} {k : ℕ} (hxy : x ≤ y) (hw : k ≤ w.length) :
    x ++ replicate k 0 ≤ y ++ w := by
  induction x generalizing y with
  | nil => exact replicate_zero_le (by simp; omega)
  | cons a x ih =>
    obtain _ | ⟨b, y⟩ := y
    · exact absurd (eq_nil_of_le_nil hxy) (cons_ne_nil a x)
    · rw [cons_le_cons_iff_lex] at hxy
      rw [cons_append, cons_append, cons_le_cons_iff_lex]
      rcases hxy with hab | ⟨rfl, hxy⟩
      · exact .inl hab
      · exact .inr ⟨rfl, ih hxy⟩

theorem append_zero_le_append {x y w u : List ℕ} {m : ℕ} (hxy : x ≤ y)
    (hy : ∀ c v, y = x ++ c :: v → 0 < c) (hm : 0 < m) : x ++ 0 :: w ≤ y ++ m :: u := by
  induction x generalizing y with
  | nil =>
    obtain _ | ⟨c, v⟩ := y
    · exact cons_le_cons_iff_lex.mpr (.inl hm)
    · exact cons_le_cons_iff_lex.mpr (.inl (hy c v rfl))
  | cons a x ih =>
    obtain _ | ⟨b, y⟩ := y
    · exact absurd (eq_nil_of_le_nil hxy) (cons_ne_nil a x)
    · rw [cons_le_cons_iff_lex] at hxy
      rw [cons_append, cons_append, cons_le_cons_iff_lex]
      rcases hxy with hab | ⟨rfl, hxy⟩
      · exact .inl hab
      · exact .inr ⟨rfl, ih hxy fun c v h => hy c v (by rw [h]; rfl)⟩

theorem append_le_append_of_lt {v w : List ℕ} (h : v < w) (hlen : v.length = w.length)
    (x y : List ℕ) : v ++ x ≤ w ++ y := by
  induction v generalizing w with
  | nil =>
    obtain _ | ⟨b, w⟩ := w
    · exact absurd h (lt_irrefl _)
    · simp at hlen
  | cons a v ih =>
    obtain _ | ⟨b, w⟩ := w
    · simp at hlen
    · have h' : Lex (· < ·) (a :: v) (b :: w) := h
      rw [cons_lex_cons_iff] at h'
      rw [cons_append, cons_append, cons_le_cons_iff_lex]
      rcases h' with hab | ⟨rfl, hvw⟩
      · exact .inl hab
      · exact .inr ⟨rfl, ih hvw (by simpa using hlen)⟩

theorem IsPrefix.of_le_of_le {P x y z : List ℕ} (hx : P <+: x) (hz : P <+: z) (hxy : x ≤ y)
    (hyz : y ≤ z) : P <+: y := by
  induction P generalizing x y z with
  | nil => exact nil_prefix
  | cons c P ih =>
    obtain _ | ⟨a, x⟩ := x
    · simp at hx
    obtain _ | ⟨b, z⟩ := z
    · simp at hz
    obtain _ | ⟨m, y⟩ := y
    · exact absurd (eq_nil_of_le_nil hxy) (cons_ne_nil a x)
    rw [cons_prefix_cons] at hx hz ⊢
    obtain ⟨rfl, hx⟩ := hx
    obtain ⟨rfl, hz⟩ := hz
    rw [cons_le_cons_iff_lex] at hxy hyz
    rcases hxy with hlt | ⟨rfl, hxy⟩
    · rcases hyz with hlt' | ⟨rfl, -⟩ <;> omega
    · rcases hyz with hlt' | ⟨-, hyz⟩
      · omega
      · exact ⟨rfl, ih hx hz hxy hyz⟩

section Sorted

/-! The tests of a scan are Boolean predicates characterized by the order, so
that they may be written with any instance of it. -/

variable {α : Type*} [LinearOrder α] {l : List α} {lo hi x : α} {p q : α → Bool}

theorem mem_takeWhile_of_antitone (hl : l.Pairwise (· ≤ ·))
    (hq : ∀ a ∈ l, ∀ b ∈ l, a ≤ b → q b = true → q a = true) :
    x ∈ l.takeWhile q ↔ x ∈ l ∧ q x = true := by
  induction l with
  | nil => simp
  | cons a l ih =>
    rw [pairwise_cons] at hl
    have hq' : ∀ c ∈ l, ∀ d ∈ l, c ≤ d → q d = true → q c = true :=
      fun c hc d hd => hq c (mem_cons_of_mem _ hc) d (mem_cons_of_mem _ hd)
    rw [takeWhile_cons]
    split
    · rename_i ha
      rw [mem_cons, ih hl.2 hq', mem_cons]
      constructor
      · rintro (rfl | ⟨hx, hqx⟩)
        · exact ⟨.inl rfl, ha⟩
        · exact ⟨.inr hx, hqx⟩
      · rintro ⟨rfl | hx, hqx⟩
        · exact .inl rfl
        · exact .inr ⟨hx, hqx⟩
    · rename_i ha
      simp only [not_mem_nil, false_iff, not_and]
      intro hx hqx
      rcases mem_cons.mp hx with rfl | hx
      · exact ha hqx
      · exact ha (hq a mem_cons_self x (mem_cons_of_mem _ hx) (hl.1 x hx) hqx)

theorem mem_takeWhile_le (hl : l.Pairwise (· ≤ ·)) (hq : ∀ k, q k = true ↔ k ≤ hi) :
    x ∈ l.takeWhile q ↔ x ∈ l ∧ x ≤ hi := by
  have hanti : ∀ a ∈ l, ∀ b ∈ l, a ≤ b → q b = true → q a = true :=
    fun a _ b _ hab hb => (hq a).mpr (le_trans hab ((hq b).mp hb))
  rw [mem_takeWhile_of_antitone hl hanti, hq]

theorem mem_dropWhile_lt (hl : l.Pairwise (· ≤ ·)) (hp : ∀ k, p k = true ↔ k < lo) :
    x ∈ l.dropWhile p ↔ x ∈ l ∧ lo ≤ x := by
  induction l with
  | nil => simp
  | cons a l ih =>
    rw [dropWhile_cons]
    split
    · rename_i halo
      have halo : a < lo := (hp a).mp halo
      rw [ih (pairwise_cons.mp hl).2, mem_cons]
      constructor
      · rintro ⟨hx, hlox⟩
        exact ⟨.inr hx, hlox⟩
      · rintro ⟨rfl | hx, hlox⟩
        · exact absurd hlox (not_le.mpr halo)
        · exact ⟨hx, hlox⟩
    · rename_i halo
      have halo : lo ≤ a := not_lt.mp fun h => halo ((hp a).mpr h)
      refine ⟨fun hx => ⟨hx, ?_⟩, And.left⟩
      rcases mem_cons.mp hx with rfl | hx
      · exact halo
      · exact le_trans halo ((pairwise_cons.mp hl).1 x hx)

theorem mem_takeWhile_dropWhile (hl : l.Pairwise (· ≤ ·)) (hp : ∀ k, p k = true ↔ k < lo)
    (hq : ∀ k, q k = true ↔ k ≤ hi) :
    x ∈ (l.dropWhile p).takeWhile q ↔ x ∈ l ∧ lo ≤ x ∧ x ≤ hi := by
  rw [mem_takeWhile_le (hl.sublist (dropWhile_sublist p)) hq, mem_dropWhile_lt hl hp, and_assoc]

end Sorted

theorem mem_takeWhile_dropWhile_prefix {l : List (List ℕ)} {lo hi P x : List ℕ}
    {p q : List ℕ → Bool} (hl : l.Pairwise (· ≤ ·)) (hp : ∀ k, p k = true ↔ k < lo)
    (hq : ∀ k, q k = true ↔ k ≤ hi ∧ P <+: k) (hP : P <+: lo) :
    x ∈ (l.dropWhile p).takeWhile q ↔ x ∈ l ∧ lo ≤ x ∧ x ≤ hi ∧ P <+: x := by
  have hanti : ∀ a ∈ l.dropWhile p, ∀ b ∈ l.dropWhile p, a ≤ b → q b = true → q a = true := by
    intro a ha b _ hab hb
    rw [hq] at hb ⊢
    exact ⟨le_trans hab hb.1, hP.of_le_of_le hb.2 ((mem_dropWhile_lt hl hp).mp ha).2 hab⟩
  rw [mem_takeWhile_of_antitone (hl.sublist (dropWhile_sublist p)) hanti, mem_dropWhile_lt hl hp,
    hq, and_assoc]

end List
