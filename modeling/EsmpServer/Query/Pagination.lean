import EsmpServer.Query.Sort
import Mathlib

/-!
# The window `Pagination` builds

RFC 8620 §5.5 asks `Foo/query` for the window of the sorted results that starts at `position`,
or at the anchor moved by `anchorOffset`, and reports where it starts. `queryWindow` states that
window. Feeding a list of ids to `Pagination::add` until it returns `false` and building the
result gives exactly that window without an anchor, for either sign of the position. With an
anchor the page is right for a non-negative offset but reports the requested position; a
negative offset collects the ids up to the anchor and starts one id later than asked
(`build_feed_anchor`, `build_feed_negativeOffset`).
-/

namespace EsmpServer.Query

/-- The ids a query loop gives to `Pagination::add`, with no prefix, until it returns
`false`. -/
def Pagination.feed (p : Pagination) : List ℕ → Pagination
  | [] => p
  | d :: ds =>
    match p.add 0 d with
    | (p', true) => p'.feed ds
    | (p', false) => p'

/-- The window RFC 8620 asks for: where it starts and its ids, or none when the anchor is
not among the results. -/
def queryWindow (ids : List ℕ) (limit : ℕ) (position : ℤ) (anchor : Option ℕ)
    (anchorOffset : ℤ) : Option (ℕ × List ℕ) :=
  let start : Option ℕ := match anchor with
    | none => some (if 0 ≤ position then position.toNat else (ids.length + position).toNat)
    | some a => (ids.idxOf? a).map fun i => (i + anchorOffset).toNat
  start.map fun s => (s, (ids.drop s).take limit)

@[simp] theorem taggedId_zero (d : ℕ) : taggedId 0 d = d := by simp [taggedId]

@[simp] theorem Pagination.feed_nil (p : Pagination) : p.feed [] = p := rfl

theorem Pagination.feed_cons (p : Pagination) (d : ℕ) (ds : List ℕ) :
    p.feed (d :: ds) = match p.add 0 d with
      | (p', true) => p'.feed ds
      | (p', false) => p' := rfl

/-! ## Without an anchor -/

section NoAnchor

variable {p : Pagination} (hA : p.hasAnchor = false)
include hA

theorem Pagination.feed_collect (hpos : p.position = 0) (hlt : p.ids.length < p.limit)
    (ds : List ℕ) : p.feed ds = { p with ids := p.ids ++ ds.take (p.limit - p.ids.length) } := by
  induction ds generalizing p with
  | nil => simp
  | cons d ds ih =>
    rw [Pagination.feed_cons]
    by_cases hfull : p.ids.length + 1 = p.limit
    · have hstep : p.add 0 d = ({ p with ids := p.ids ++ [d] }, false) := by
        simp [Pagination.add, hA, hpos, hfull]
      have hk : p.limit - p.ids.length = 1 := by omega
      rw [hstep, hk]
      simp
    · have hstep : p.add 0 d = ({ p with ids := p.ids ++ [d] }, true) := by
        simp [Pagination.add, hA, hpos, hfull]
      have hlt' : (p.ids ++ [d]).length < p.limit := by
        simp only [List.length_append, List.length_singleton]
        omega
      have hk : p.limit - p.ids.length = (p.limit - (p.ids.length + 1)) + 1 := by omega
      rw [hstep]
      simp only
      rw [ih (p := { p with ids := p.ids ++ [d] }) hA hpos hlt', hk, List.take_succ_cons]
      simp

theorem Pagination.feed_skip (n : ℕ) (hpos : p.position = n) (ds : List ℕ) :
    p.feed ds = if n ≤ ds.length then ({ p with position := 0 } : Pagination).feed (ds.drop n)
      else { p with position := (n - ds.length : ℕ) } := by
  induction ds generalizing p n with
  | nil =>
    cases n with
    | zero =>
      cases p
      simp_all
    | succ n => simp [← hpos]
  | cons d ds ih =>
    cases n with
    | zero =>
      cases p
      simp_all
    | succ n =>
      have hstep : p.add 0 d = ({ p with position := n }, true) := by
        simp [Pagination.add, hA, hpos]
        omega
      rw [Pagination.feed_cons, hstep]
      simp only
      rw [ih (p := { p with position := n }) hA n rfl]
      simp

theorem Pagination.feed_negative (hpos : p.position < 0) (ds : List ℕ) :
    p.feed ds = { p with ids := p.ids ++ ds } := by
  induction ds generalizing p with
  | nil => simp
  | cons d ds ih =>
    have hstep : p.add 0 d = ({ p with ids := p.ids ++ [d] }, true) := by
      have hneg : ¬0 ≤ p.position := by omega
      simp [Pagination.add, hA, hneg]
    rw [Pagination.feed_cons, hstep]
    simp only
    rw [ih (p := { p with ids := p.ids ++ [d] }) hA hpos]
    simp

end NoAnchor

theorem take_sub_drop_eq {ids : List ℕ} {s limit : ℕ} :
    (ids.drop s).take (min (s + limit) ids.length - s) = (ids.drop s).take limit := by
  rw [List.take_eq_take_iff, List.length_drop]
  omega

theorem build_feed_position (ids : List ℕ) (limit n : ℕ) (hlimit : 0 < limit)
    (anchorOffset : ℤ) :
    ((Pagination.new limit n none anchorOffset).feed ids).build =
      ⟨if n ≤ ids.length then n else 0, (ids.drop n).take limit, true⟩ := by
  rw [Pagination.feed_skip rfl n rfl]
  by_cases hn : n ≤ ids.length
  · rw [if_pos hn, Pagination.feed_collect rfl rfl (by simpa [Pagination.new] using hlimit)]
    simp [Pagination.build, Pagination.new, hn]
  · have hdrop : ids.drop n = [] := List.drop_eq_nil_of_le (by omega)
    rw [if_neg hn]
    simp [Pagination.build, Pagination.new, hn, hdrop]
    omega

theorem build_feed_negativePosition (ids : List ℕ) (limit : ℕ) (position : ℤ) (hlimit : 0 < limit)
    (hpos : position < 0) (anchorOffset : ℤ) :
    ((Pagination.new limit position none anchorOffset).feed ids).build =
      ⟨(ids.length + position).toNat, (ids.drop (ids.length + position).toNat).take limit, true⟩ := by
  rw [Pagination.feed_negative rfl hpos]
  have hneg : ¬0 ≤ position := by omega
  simp only [Pagination.build, Pagination.new, Option.isSome_none, Bool.not_false, Bool.true_or,
    if_true, hneg, decide_false, Bool.and_false, Bool.false_eq_true, if_false, List.nil_append,
    hlimit, take_sub_drop_eq]
  by_cases hlt : position.natAbs < ids.length
  · have hstart : ids.length - position.natAbs = (ids.length + position).toNat := by omega
    simp [hlt, hstart]
  · have hstart : (ids.length + position).toNat = 0 := by omega
    simp [hlt, hstart]

theorem build_feed_noAnchor (ids : List ℕ) (limit : ℕ) (position anchorOffset : ℤ)
    (hlimit : 0 < limit) :
    ∃ s page, queryWindow ids limit position none anchorOffset = some (s, page) ∧
      ((Pagination.new limit position none anchorOffset).feed ids).build.ids = page ∧
      ((Pagination.new limit position none anchorOffset).feed ids).build.foundAnchor = true ∧
      (page ≠ [] → ((Pagination.new limit position none anchorOffset).feed ids).build.position = s) := by
  by_cases hpos : 0 ≤ position
  · obtain ⟨n, rfl⟩ := Int.eq_ofNat_of_zero_le hpos
    refine ⟨n, (ids.drop n).take limit, by simp [queryWindow], ?_⟩
    rw [build_feed_position ids limit n hlimit anchorOffset]
    refine ⟨rfl, rfl, fun hne => ?_⟩
    have hn : n ≤ ids.length := by
      by_contra h
      exact hne (by simp [List.drop_eq_nil_of_le (show ids.length ≤ n by omega)])
    simp [hn]
  · have hneg : position < 0 := by omega
    refine ⟨(ids.length + position).toNat, (ids.drop (ids.length + position).toNat).take limit,
      by simp [queryWindow, hpos], ?_⟩
    rw [build_feed_negativePosition ids limit position hlimit hneg anchorOffset]
    exact ⟨rfl, rfl, fun _ => rfl⟩

/-! ## With an anchor -/

section Anchor

variable {p : Pagination} (hA : p.hasAnchor = true)
include hA

theorem Pagination.feed_seek (hoff : 0 ≤ p.anchorOffset) (hnf : p.anchorFound = false) :
    ∀ ds : List ℕ, p.feed ds = match ds.idxOf? p.anchor with
      | some i => ({ p with anchorFound := true } : Pagination).feed (ds.drop i)
      | none => p
  | [] => rfl
  | d :: ds => by
    by_cases hd : d = p.anchor
    · subst hd
      have hstep : p.add 0 p.anchor = ({ p with anchorFound := true } : Pagination).add 0 p.anchor := by
        simp [Pagination.add, hA, hoff, hnf]
      have hidx : (p.anchor :: ds).idxOf? p.anchor = some 0 := by
        simp [List.idxOf?_cons]
      rw [Pagination.feed_cons, hstep, hidx]
      simp only [List.drop_zero]
      rw [Pagination.feed_cons]
    · have hstep : p.add 0 d = (p, true) := by
        simp [Pagination.add, hA, hoff, hnf, hd]
      have hidx : (d :: ds).idxOf? p.anchor = (ds.idxOf? p.anchor).map (· + 1) := by
        simp [List.idxOf?_cons, hd]
      rw [Pagination.feed_cons, hstep, hidx]
      simp only
      rw [Pagination.feed_seek hoff hnf ds]
      cases ds.idxOf? p.anchor <;> rfl

theorem Pagination.feed_offset (hfound : p.anchorFound = true) (k : ℕ) (hoff : p.anchorOffset = k)
    (ds : List ℕ) :
    p.feed ds = if k ≤ ds.length then ({ p with anchorOffset := 0 } : Pagination).feed (ds.drop k)
      else { p with anchorOffset := (k - ds.length : ℕ) } := by
  induction ds generalizing p k with
  | nil =>
    cases k with
    | zero =>
      cases p
      simp_all
    | succ k => simp [← hoff]
  | cons d ds ih =>
    cases k with
    | zero =>
      cases p
      simp_all
    | succ k =>
      have hstep : p.add 0 d = ({ p with anchorOffset := k }, true) := by
        simp [Pagination.add, hA, hoff, hfound]
        omega
      rw [Pagination.feed_cons, hstep]
      simp only
      rw [ih (p := { p with anchorOffset := k }) hA hfound k rfl]
      simp

theorem Pagination.feed_anchorCollect (hfound : p.anchorFound = true) (hoff : p.anchorOffset = 0)
    (hlt : p.ids.length < p.limit) (ds : List ℕ) :
    p.feed ds = { p with ids := p.ids ++ ds.take (p.limit - p.ids.length) } := by
  induction ds generalizing p with
  | nil => simp
  | cons d ds ih =>
    rw [Pagination.feed_cons]
    by_cases hfull : p.ids.length + 1 = p.limit
    · have hstep : p.add 0 d = ({ p with ids := p.ids ++ [d] }, false) := by
        simp [Pagination.add, hA, hoff, hfound, hfull]
      have hk : p.limit - p.ids.length = 1 := by omega
      rw [hstep, hk]
      simp
    · have hstep : p.add 0 d = ({ p with ids := p.ids ++ [d] }, true) := by
        simp [Pagination.add, hA, hoff, hfound, hfull]
      have hlt' : (p.ids ++ [d]).length < p.limit := by
        simp only [List.length_append, List.length_singleton]
        omega
      have hk : p.limit - p.ids.length = (p.limit - (p.ids.length + 1)) + 1 := by omega
      rw [hstep]
      simp only
      rw [ih (p := { p with ids := p.ids ++ [d] }) hA hfound hoff hlt', hk, List.take_succ_cons]
      simp

theorem Pagination.feed_negativeOffset (hoff : p.anchorOffset < 0) (hnf : p.anchorFound = false)
    (ds : List ℕ) :
    p.feed ds = match ds.idxOf? p.anchor with
      | some i => { p with
          anchorFound := true
          ids := p.ids ++ ds.take (i + 1)
          position := p.anchorOffset }
      | none => { p with ids := p.ids ++ ds } := by
  induction ds generalizing p with
  | nil => simp
  | cons d ds ih =>
    have hneg : ¬0 ≤ p.anchorOffset := by omega
    by_cases hd : d = p.anchor
    · subst hd
      have hstep : p.add 0 p.anchor = ({ p with
          anchorFound := true
          ids := p.ids ++ [p.anchor]
          position := p.anchorOffset }, false) := by
        simp [Pagination.add, hA, hneg]
      simp [Pagination.feed_cons, hstep, List.idxOf?_cons]
    · have hstep : p.add 0 d = ({ p with ids := p.ids ++ [d] }, true) := by
        simp [Pagination.add, hA, hneg, hd, hnf]
      have hidx : (d :: ds).idxOf? p.anchor = (ds.idxOf? p.anchor).map (· + 1) := by
        simp [List.idxOf?_cons, hd]
      rw [Pagination.feed_cons, hstep, hidx]
      simp only
      rw [ih (p := { p with ids := p.ids ++ [d] }) hA hoff hnf]
      cases ds.idxOf? p.anchor <;> simp

end Anchor

theorem build_feed_anchor (ids : List ℕ) (limit p0 a k : ℕ) (hlimit : 0 < limit) :
    ((Pagination.new limit p0 (some a) k).feed ids).build = match ids.idxOf? a with
      | some i => ⟨p0, (ids.drop (i + k)).take limit, true⟩
      | none => ⟨0, [], false⟩ := by
  have hanchor : (Pagination.new limit p0 (some a) k).anchor = a := rfl
  rw [Pagination.feed_seek rfl (by simp [Pagination.new]) rfl, hanchor]
  cases hi : ids.idxOf? a with
  | none => simp [Pagination.build, Pagination.new]
  | some i =>
    dsimp only
    rw [Pagination.feed_offset rfl rfl k rfl]
    by_cases hk : k ≤ (ids.drop i).length
    · rw [if_pos hk, Pagination.feed_anchorCollect rfl rfl rfl
        (by simpa [Pagination.new] using hlimit)]
      simp [Pagination.build, Pagination.new, List.drop_drop]
    · have hdrop : ids.drop (i + k) = [] := List.drop_eq_nil_of_le (by simp at hk; omega)
      rw [if_neg hk]
      simp [Pagination.build, Pagination.new, hdrop]

theorem build_feed_negativeOffset (ids : List ℕ) (limit : ℕ) (p0 : ℤ) (a : ℕ) (off : ℤ)
    (hoff : off < 0) (hlimit : 0 < limit) :
    ((Pagination.new limit p0 (some a) off).feed ids).build = match ids.idxOf? a with
      | some i => ⟨(i + 1 + off).toNat, ((ids.take (i + 1)).drop (i + 1 + off).toNat).take limit,
          true⟩
      | none => ⟨0, ids, false⟩ := by
  rw [Pagination.feed_negativeOffset rfl hoff rfl]
  cases hi : ids.idxOf? (Pagination.new limit p0 (some a) off).anchor with
  | none =>
    simp only [Pagination.new, Option.getD_some] at hi
    simp [Pagination.build, Pagination.new, hi]
  | some i =>
    simp only [Pagination.new, Option.getD_some] at hi
    obtain ⟨hlen, -⟩ := List.idxOf?_eq_some_iff.mp hi
    have htake : (ids.take (i + 1)).length = i + 1 := by
      rw [List.length_take]
      omega
    have hneg : ¬0 ≤ off := by omega
    simp only [Pagination.build, Pagination.new, Option.isSome_some, Bool.not_true,
      Bool.false_or, if_true, hneg, Bool.false_and, Bool.false_eq_true, if_false,
      List.nil_append, hlimit, hi, htake]
    by_cases hlt : off.natAbs < i + 1
    · have hstart : i + 1 - off.natAbs = (i + 1 + off).toNat := by omega
      simp only [hlt, if_true, hstart, SortedResultSet.mk.injEq, and_true, true_and]
      rw [List.take_eq_take_iff, List.length_drop, htake]
      omega
    · have hstart : (i + 1 + off).toNat = 0 := by omega
      simp [hlt, hstart]

/-- Ids 10, 20, 30 with the anchor 20, at index 1, and a limit of 3. With offset 0 RFC 8620's
window starts at 1, but the result reports position 0; with offset -1 the window is every id
from 0, but the result is the anchor alone, at 1. -/
theorem pagination_anchorWindow :
    queryWindow [10, 20, 30] 3 0 (some 20) 0 = some (1, [20, 30]) ∧
    ((Pagination.new 3 0 (some 20) 0).feed [10, 20, 30]).build = ⟨0, [20, 30], true⟩ ∧
    queryWindow [10, 20, 30] 3 0 (some 20) (-1) = some (0, [10, 20, 30]) ∧
    ((Pagination.new 3 0 (some 20) (-1)).feed [10, 20, 30]).build = ⟨1, [20], true⟩ := by
  decide

end EsmpServer.Query
