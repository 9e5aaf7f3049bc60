import Mathlib

/-!
# Erasing listed positions of a list

`keepFrom k S l` keeps the elements of `l` whose position, counting the first as `k`, is not
in `S`. Erasing the positions `s₀ < s₁ < …` of a list one after the other, where each
erasure renumbers the elements after it, takes the `i`-th of them at position `sᵢ - i`; so
erased that way they leave exactly the elements at the other positions, in their order.
-/

namespace List

variable {α : Type*}

/-- The elements of `l` whose position counted from `k` is not in `S`. -/
def keepFrom (k : ℕ) (S : List ℕ) (l : List α) : List α :=
  ((l.zipIdx k).filter fun p => p.2 ∉ S).map Prod.fst

@[simp] theorem keepFrom_nil_right (k : ℕ) (S : List ℕ) : keepFrom k S ([] : List α) = [] := rfl

theorem keepFrom_cons (k : ℕ) (S : List ℕ) (x : α) (l : List α) :
    keepFrom k S (x :: l) = (if k ∈ S then [] else [x]) ++ keepFrom (k + 1) S l := by
  unfold keepFrom
  rw [zipIdx_cons, filter_cons]
  by_cases h : k ∈ S <;> simp [h]

theorem keepFrom_nil_left (k : ℕ) (l : List α) : keepFrom k [] l = l := by
  induction l generalizing k with
  | nil => rfl
  | cons x l ih => simp [keepFrom_cons, ih]

theorem keepFrom_cons_of_lt {p k : ℕ} (h : p < k) (S : List ℕ) (l : List α) :
    keepFrom k (p :: S) l = keepFrom k S l := by
  induction l generalizing k with
  | nil => rfl
  | cons x l ih =>
    have hk : k ≠ p := by omega
    rw [keepFrom_cons, keepFrom_cons, ih (by omega)]
    simp [hk]

theorem keepFrom_map_pred {S : List ℕ} (hS : ∀ r ∈ S, 0 < r) (k : ℕ) (l : List α) :
    keepFrom k (S.map (· - 1)) l = keepFrom (k + 1) S l := by
  induction l generalizing k with
  | nil => rfl
  | cons x l ih =>
    have hmem : k ∈ S.map (· - 1) ↔ k + 1 ∈ S := by
      constructor
      · intro h
        obtain ⟨r, hr, hrk⟩ := mem_map.mp h
        have := hS r hr
        rwa [show k + 1 = r by omega]
      · intro h
        exact mem_map.mpr ⟨k + 1, h, rfl⟩
    rw [keepFrom_cons, keepFrom_cons, ih]
    simp only [hmem]

theorem keepFrom_eraseIdx :
    ∀ (l : List α) (k j : ℕ) (S : List ℕ), (∀ r ∈ S, k + j < r) →
      keepFrom k (S.map (· - 1)) (l.eraseIdx j) = keepFrom k ((k + j) :: S) l
  | [], _, _, _, _ => rfl
  | x :: l, k, 0, S, hS => by
    rw [eraseIdx_cons_zero, keepFrom_map_pred (fun r hr => by have := hS r hr; omega),
      keepFrom_cons, if_pos (by simp), nil_append]
    exact (keepFrom_cons_of_lt (by omega) S l).symm
  | x :: l, k, j + 1, S, hS => by
    have hshift : k ∉ S.map (· - 1) := by
      intro h
      obtain ⟨r, hr, hrk⟩ := mem_map.mp h
      have := hS r hr
      omega
    have hnew : k ∉ (k + (j + 1)) :: S := by
      intro h
      rcases mem_cons.mp h with h | h
      · omega
      · have := hS k h
        omega
    rw [eraseIdx_cons_succ, keepFrom_cons, keepFrom_cons,
      keepFrom_eraseIdx l (k + 1) j S fun r hr => by have := hS r hr; omega,
      if_neg hshift, if_neg hnew, show k + 1 + j = k + (j + 1) by omega]

theorem map_sub_zipIdx_succ (S : List ℕ) :
    (S.zipIdx 1).map (fun p => p.1 - p.2) = ((S.map (· - 1)).zipIdx).map fun p => p.1 - p.2 := by
  rw [zipIdx_succ, zipIdx_map, map_map, map_map]
  apply map_congr_left
  intro p _
  simp only [Function.comp, Prod.map_fst, Prod.map_snd, id]
  omega

theorem foldl_eraseIdx_zipIdx :
    ∀ (S : List ℕ), S.Pairwise (· < ·) → (∀ s ∈ S, 0 < s) → ∀ (l : List α),
      ((S.zipIdx).map fun p => p.1 - p.2).foldl (fun l n => l.eraseIdx (n - 1)) l =
        keepFrom 1 S l
  | [], _, _, l => by simp [keepFrom_nil_left]
  | s :: S, hS, hpos, l => by
    obtain ⟨hlt, hS'⟩ := pairwise_cons.mp hS
    have hs := hpos s (by simp)
    have hshift : (S.map (· - 1)).Pairwise (· < ·) := by
      rw [pairwise_map]
      refine hS'.imp_of_mem fun ha _ hab => ?_
      have := hlt _ ha
      omega
    have hpos' : ∀ r ∈ S.map (· - 1), 0 < r := by
      intro r hr
      obtain ⟨a, ha, rfl⟩ := mem_map.mp hr
      have := hlt a ha
      omega
    rw [zipIdx_cons, map_cons, foldl_cons, map_sub_zipIdx_succ,
      foldl_eraseIdx_zipIdx (S.map (· - 1)) hshift hpos',
      keepFrom_eraseIdx l 1 (s - 0 - 1) S fun r hr => by have := hlt r hr; omega,
      show 1 + (s - 0 - 1) = s by omega]
termination_by S => S.length
decreasing_by simp

end List
