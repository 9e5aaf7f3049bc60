import Mathlib

/-!
# A potential for walks over a bounded stack of iterators

A loop that keeps a stack of iterators over lists runs a bounded number of turns when each
turn takes an item from the iterator on top, pushes an iterator over a list shorter than
`base - 1` while the stack is below `depth` levels, or pops an exhausted iterator. Weigh a
level `d` with `l` items left by `(l + 1) * base ^ (depth - d)`: taking an item lowers the
top level, pushing lowers it by more than the new level weighs, popping drops a level. The
remaining lengths are listed from the bottom of the stack.
-/

namespace StackPotential

/-- The weight of levels `d`, `d + 1`, ... of a stack whose iterators have `ls` items left. -/
def weight (base depth : ℕ) : ℕ → List ℕ → ℕ
  | _, [] => 0
  | d, l :: ls => (l + 1) * base ^ (depth - d) + weight base depth (d + 1) ls

variable {base base' depth : ℕ}

theorem weight_append (d : ℕ) (ls ls' : List ℕ) :
    weight base depth d (ls ++ ls') =
      weight base depth d ls + weight base depth (d + ls.length) ls' := by
  induction ls generalizing d with
  | nil => simp [weight]
  | cons l ls ih =>
    rw [List.cons_append, weight, weight, ih, List.length_cons,
      show d + 1 + ls.length = d + (ls.length + 1) by omega, Nat.add_assoc]

theorem weight_singleton (d l : ℕ) : weight base depth d [l] = (l + 1) * base ^ (depth - d) := by
  simp [weight]

theorem weight_mono (h : base ≤ base') (d : ℕ) (ls : List ℕ) :
    weight base depth d ls ≤ weight base' depth d ls := by
  induction ls generalizing d with
  | nil => exact le_rfl
  | cons l ls ih =>
    apply Nat.add_le_add _ (ih (d + 1))
    exact Nat.mul_le_mul_left _ (Nat.pow_le_pow_left h _)

section Turns

variable (hbase : 0 < base) (d : ℕ) (ls : List ℕ)
include hbase

theorem weight_take_lt (l : ℕ) : weight base depth d (ls ++ [l]) < weight base depth d (ls ++ [l + 1]) := by
  rw [weight_append, weight_append, weight_singleton, weight_singleton]
  have hpos : 0 < base ^ (depth - (d + ls.length)) := Nat.pow_pos hbase
  apply Nat.add_lt_add_left
  exact Nat.mul_lt_mul_of_pos_right (Nat.lt_succ_self _) hpos

theorem weight_pop_lt (k : ℕ) : weight base depth d (ls ++ [k]) < weight base depth d (ls ++ [k, 0]) := by
  rw [show ls ++ [k, 0] = (ls ++ [k]) ++ [0] by simp, weight_append _ (ls ++ [k]) [0],
    weight_singleton]
  have hpos : 0 < base ^ (depth - (d + (ls ++ [k]).length)) := Nat.pow_pos hbase
  omega

theorem weight_push_lt {l m : ℕ} (hd : d + ls.length < depth) (hm : m + 1 < base) :
    weight base depth d (ls ++ [l, m]) < weight base depth d (ls ++ [l + 1]) := by
  rw [show ls ++ [l, m] = (ls ++ [l]) ++ [m] by simp, weight_append _ (ls ++ [l]) [m],
    weight_append, weight_append, weight_singleton, weight_singleton, weight_singleton,
    List.length_append, List.length_singleton]
  have hsplit : depth - (d + ls.length) = depth - (d + (ls.length + 1)) + 1 := by omega
  have hpos : 0 < base ^ (depth - (d + (ls.length + 1))) := Nat.pow_pos hbase
  have hnew : (m + 1) * base ^ (depth - (d + (ls.length + 1))) <
      base ^ (depth - (d + ls.length)) := by
    rw [hsplit, Nat.pow_succ, Nat.mul_comm _ base]
    exact Nat.mul_lt_mul_of_pos_right hm hpos
  have htop : (l + 1 + 1) * base ^ (depth - (d + ls.length)) =
      (l + 1) * base ^ (depth - (d + ls.length)) + base ^ (depth - (d + ls.length)) := by
    rw [Nat.succ_mul]
  omega

end Turns

/-! ## A bound on the lengths -/

/-- The largest of a list of lengths, `0` for none. -/
def maxLength (ls : List ℕ) : ℕ := ls.foldr max 0

theorem le_maxLength {ls : List ℕ} {l : ℕ} (h : l ∈ ls) : l ≤ maxLength ls := by
  induction ls with
  | nil => simp at h
  | cons x ls ih =>
    rcases List.mem_cons.mp h with rfl | h
    · exact le_max_left _ _
    · exact (ih h).trans (le_max_right _ _)

theorem maxLength_le {ls : List ℕ} {n : ℕ} (h : ∀ l ∈ ls, l ≤ n) : maxLength ls ≤ n := by
  induction ls with
  | nil => exact Nat.zero_le _
  | cons x ls ih =>
    exact max_le (h x (List.mem_cons_self ..)) (ih fun l hl => h l (List.mem_cons_of_mem _ hl))

end StackPotential
