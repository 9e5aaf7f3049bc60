import EsmpServer.Lib.Iterator
import Mathlib

/-!
# The OSB tokenizer

`OsbTokenizer` (nlp/tokenizers/osb.rs) turns a stream of words into orthogonal sparse bigrams:
each word alone, then the word with each of the next `window_size - 1` words. It keeps a
buffer of `window_size` slots, the word at position `i` of the stream in slot
`i % window_size`, filled lazily; `window_pos` is the first word of the window and
`window_idx` the word paired with it next. `next` fills the slot of that word if it is empty
(`fillEnd`), builds the token (`gram`), and moves the index on, moving the window on by one
word (`advance`) when the index reaches the size or when, by a `peek`, no word follows and
the next slot is empty (`step`).

A state is well formed (`Inv`) when the slots of the window hold the first `filled` words of
the stream from `window_pos` on and the peekable stands before word `filled`. From a well
formed state one call gives the next token of the spec `osbTokens` (`fillEnd_inv`,
`gram_eq`, `step_last`, `step_not_last`); the windows then follow by induction on the
bigrams left (`yields_bigrams`) and on the words left (`yields_osbTokens`), and past the
last word the tokenizer ends (`next_of_end`).
-/

namespace EsmpServer.Nlp

open Iterator

/-- `Gram`: a word, or a word with a later one. -/
inductive Gram (α : Type) where
  | uni (t1 : α)
  | bi (t1 t2 : α)
  deriving DecidableEq, Repr

/-- `OsbToken`: a gram and the distance of its second word. -/
structure OsbToken (α : Type) where
  inner : Gram α
  idx : ℕ
  deriving DecidableEq, Repr

/-- `OsbTokenizer` over an iterator of words in state `τ`; the slot `i` of `buf` is
`buf[i]` for `i < window_size`. -/
structure OsbTokenizer (τ α : Type) where
  iter : Peekable τ α
  buf : ℕ → Option α
  windowSize : ℕ
  windowPos : ℕ
  windowIdx : ℕ

namespace OsbTokenizer

variable {τ α : Type} (iterNext : τ → Option α × τ)

/-- `OsbTokenizer::new`. -/
def new (iter : τ) (windowSize : ℕ) : OsbTokenizer τ α :=
  ⟨⟨iter, none⟩, fun _ => none, windowSize, 0, 0⟩

/-- `end_pos`: the slot of the word paired with the first. -/
def endPos (s : OsbTokenizer τ α) : ℕ := (s.windowPos + s.windowIdx) % s.windowSize

/-- The start of `next`: an empty end slot takes the next word. -/
def fillEnd (s : OsbTokenizer τ α) : OsbTokenizer τ α :=
  if (s.buf s.endPos).isNone then
    { s with iter := (s.iter.next iterNext).2, buf := Function.update s.buf s.endPos (s.iter.next iterNext).1 }
  else s

/-- The gram of the token; `none` is the `?` on an empty slot. -/
def gram (s : OsbTokenizer τ α) : Option (Gram α) := do
  let t1 ← s.buf (s.windowPos % s.windowSize)
  if s.windowIdx ≠ 0 then
    let t2 ← s.buf s.endPos
    pure (.bi t1 t2)
  else pure (.uni t1)

/-- The window moves on by one word, and the slot of its first word is emptied. -/
def advance (s : OsbTokenizer τ α) : OsbTokenizer τ α :=
  { s with
    buf := Function.update s.buf (s.windowPos % s.windowSize) none
    windowIdx := 0
    windowPos := s.windowPos + 1 }

/-- The end of `next`: the index moves on, and the window too when the index reaches the size
or, by a `peek` made only then, no word follows and the next slot is empty. -/
def step (s : OsbTokenizer τ α) : OsbTokenizer τ α :=
  let s := { s with windowIdx := s.windowIdx + 1 }
  if s.windowIdx = s.windowSize then s.advance
  else
    let peeked := s.iter.peek iterNext
    let s := { s with iter := peeked.2 }
    if peeked.1.isNone ∧ (s.buf ((s.windowPos + s.windowIdx) % s.windowSize)).isNone then s.advance
    else s

/-- `Iterator::next` of `OsbTokenizer`. -/
def next (s : OsbTokenizer τ α) : Option (OsbToken α) × OsbTokenizer τ α :=
  let s := s.fillEnd iterNext
  match s.gram with
  | some inner => (some ⟨inner, s.windowIdx⟩, s.step iterNext)
  | none => (none, s)

/-! ### One spec lemma per part -/

section Parts

variable (s : OsbTokenizer τ α)

@[simp] theorem fillEnd_windowPos : (s.fillEnd iterNext).windowPos = s.windowPos := by
  unfold fillEnd; split <;> rfl

@[simp] theorem fillEnd_windowIdx : (s.fillEnd iterNext).windowIdx = s.windowIdx := by
  unfold fillEnd; split <;> rfl

@[simp] theorem fillEnd_windowSize : (s.fillEnd iterNext).windowSize = s.windowSize := by
  unfold fillEnd; split <;> rfl

@[simp] theorem advance_windowSize : s.advance.windowSize = s.windowSize := rfl

theorem fillEnd_of_some {a : α} (h : s.buf s.endPos = some a) : s.fillEnd iterNext = s := by
  rw [fillEnd, h]
  rfl

theorem fillEnd_of_none (h : s.buf s.endPos = none) :
    s.fillEnd iterNext =
      { s with iter := (s.iter.next iterNext).2, buf := Function.update s.buf s.endPos (s.iter.next iterNext).1 } := by
  rw [fillEnd, if_pos (by simp [h])]

theorem next_of_gram {g : Gram α} (h : (s.fillEnd iterNext).gram = some g) :
    s.next iterNext = (some ⟨g, s.windowIdx⟩, (s.fillEnd iterNext).step iterNext) := by
  simp only [next, h, fillEnd_windowIdx]

theorem next_of_gram_none (h : (s.fillEnd iterNext).gram = none) :
    s.next iterNext = (none, s.fillEnd iterNext) := by
  simp only [next, h]

theorem step_of_full (h : s.windowIdx + 1 = s.windowSize) :
    s.step iterNext = ({ s with windowIdx := s.windowIdx + 1 } : OsbTokenizer τ α).advance := by
  simp only [step, h, if_true]

theorem step_of_lt (h : s.windowIdx + 1 ≠ s.windowSize) :
    s.step iterNext =
      let s' : OsbTokenizer τ α := { s with windowIdx := s.windowIdx + 1, iter := (s.iter.peek iterNext).2 }
      if (s.iter.peek iterNext).1.isNone ∧ (s'.buf ((s'.windowPos + s'.windowIdx) % s'.windowSize)).isNone then
        s'.advance
      else s' := by
  simp only [step, h, if_false]

@[simp] theorem step_windowSize : (s.step iterNext).windowSize = s.windowSize := by
  by_cases h : s.windowIdx + 1 = s.windowSize
  · rw [step_of_full iterNext s h]
    rfl
  · rw [step_of_lt iterNext s h]
    dsimp only
    split <;> rfl

end Parts

end OsbTokenizer

/-! ## The tokens of a window -/

/-- `Bi(t1, u)` for each word `u` of `us`, numbered from `j`. -/
def bigrams {α : Type} (t1 : α) : ℕ → List α → List (OsbToken α)
  | _, [] => []
  | j, u :: us => ⟨.bi t1 u, j⟩ :: bigrams t1 (j + 1) us

/-- For each word, the word alone and then the word with each of the next
`windowSize - 1` words. -/
def osbTokens {α : Type} (windowSize : ℕ) : List α → List (OsbToken α)
  | [] => []
  | t1 :: rest => ⟨.uni t1, 0⟩ :: bigrams t1 1 (rest.take (windowSize - 1)) ++ osbTokens windowSize rest

/-- The gram of the window at `pos` for index `idx`, read from the words. -/
def tokenGram {α : Type} (w : List α) (pos idx : ℕ) : Option (Gram α) := do
  let t1 ← w[pos]?
  if idx ≠ 0 then
    let t2 ← w[pos + idx]?
    pure (.bi t1 t2)
  else pure (.uni t1)

/-! ## The window invariant -/

theorem mod_eq_of_window {pos k i j : ℕ} (hi : pos ≤ i) (hi' : i < pos + k) (hj : pos ≤ j)
    (hj' : j < pos + k) (h : i % k = j % k) : i = j := by
  rcases Nat.lt_trichotomy i j with hlt | heq | hgt
  · have hdiff := Nat.sub_mod_eq_zero_of_mod_eq h.symm
    rw [Nat.mod_eq_of_lt (by omega)] at hdiff
    omega
  · exact heq
  · have hdiff := Nat.sub_mod_eq_zero_of_mod_eq h
    rw [Nat.mod_eq_of_lt (by omega)] at hdiff
    omega

namespace OsbTokenizer

variable {τ α : Type} {iterNext : τ → Option α × τ} {w : List α} {states : ℕ → τ}

/-- The slots of the window hold the words of `w` below `filled` from `windowPos` on, the
others are empty, and the peekable stands before word `filled`. -/
structure Window (w : List α) (states : ℕ → τ) (s : OsbTokenizer τ α) (filled : ℕ) : Prop where
  size_pos : 0 < s.windowSize
  filled_le : filled ≤ s.windowPos + s.windowSize
  filled_le_length : filled ≤ w.length
  buf : ∀ i, s.windowPos ≤ i → i < s.windowPos + s.windowSize →
    s.buf (i % s.windowSize) = if i < filled then w[i]? else none
  iter : s.iter.At states (w[·]?) filled

/-- A state between two calls: a window, with the index inside it and at most at the words
pulled, and an index past the first word only while a word is there to pair. -/
structure Inv (w : List α) (states : ℕ → τ) (s : OsbTokenizer τ α) (filled : ℕ) : Prop
    extends Window w states s filled where
  idx_lt : s.windowIdx < s.windowSize
  end_le : s.windowPos + s.windowIdx ≤ filled
  idx_pos : 0 < s.windowIdx → s.windowPos + s.windowIdx < w.length

theorem inv_new (t : τ) (windowSize : ℕ) (hk : 0 < windowSize) (h0 : states 0 = t) :
    Inv w states (new t windowSize) 0 where
  size_pos := hk
  filled_le := Nat.zero_le _
  filled_le_length := Nat.zero_le _
  buf _ _ _ := by simp [new]
  iter := h0 ▸ Peekable.at_iter 0
  idx_lt := hk
  end_le := Nat.le_refl 0
  idx_pos h := absurd h (Nat.lt_irrefl 0)

theorem Window.advance {s : OsbTokenizer τ α} {filled : ℕ} (h : Window w states s filled) :
    Window w states s.advance filled where
  size_pos := h.size_pos
  filled_le := by simp only [OsbTokenizer.advance]; have := h.filled_le; omega
  filled_le_length := h.filled_le_length
  buf i hi hi' := by
    simp only [OsbTokenizer.advance] at hi hi' ⊢
    by_cases hlast : i = s.windowPos + s.windowSize
    · subst hlast
      have hnot : ¬ s.windowPos + s.windowSize < filled := by have := h.filled_le; omega
      simp [hnot]
    · have hne : i % s.windowSize ≠ s.windowPos % s.windowSize := fun heq =>
        absurd (mod_eq_of_window (by omega) (by omega) (Nat.le_refl _) (by have := h.size_pos; omega) heq) (by omega)
      rw [Function.update_of_ne hne]
      exact h.buf i (by omega) (by omega)
  iter := h.iter

theorem gram_eq {s : OsbTokenizer τ α} {filled : ℕ} (h : Inv w states s filled)
    (he : s.windowPos + s.windowIdx < filled) :
    s.gram = tokenGram w s.windowPos s.windowIdx := by
  have hfirst := h.buf s.windowPos (Nat.le_refl _) (by have := h.size_pos; omega)
  have hend := h.buf (s.windowPos + s.windowIdx) (by omega) (by have := h.idx_lt; omega)
  rw [if_pos (by omega)] at hfirst
  rw [if_pos he] at hend
  simp only [gram, tokenGram, endPos, hfirst, hend]

variable (hstates : ∀ i ≤ w.length, iterNext (states i) = (w[i]?, states (i + 1)))
include hstates

theorem fillEnd_inv {s : OsbTokenizer τ α} {filled : ℕ} (h : Inv w states s filled)
    (he : s.windowPos + s.windowIdx < w.length) :
    ∃ filled', Inv w states (s.fillEnd iterNext) filled' ∧ s.windowPos + s.windowIdx < filled' := by
  have hslot := h.buf (s.windowPos + s.windowIdx) (by omega) (by have := h.idx_lt; omega)
  rcases Nat.lt_or_ge (s.windowPos + s.windowIdx) filled with hlt | hge
  · rw [if_pos hlt] at hslot
    have hsome : s.buf s.endPos = some w[s.windowPos + s.windowIdx] := by
      rw [endPos, hslot, List.getElem?_eq_getElem (by omega)]
    exact ⟨filled, by rwa [fillEnd_of_some iterNext s hsome], hlt⟩
  · have hfe : s.windowPos + s.windowIdx = filled := Nat.le_antisymm h.end_le hge
    rw [if_neg (by omega)] at hslot
    have hnext := h.iter.next_eq hstates h.filled_le_length
    refine ⟨filled + 1, ?_, by omega⟩
    rw [fillEnd_of_none iterNext s hslot, hnext]
    refine { size_pos := h.size_pos, filled_le := ?_, filled_le_length := ?_, buf := ?_,
             iter := Peekable.at_iter _, idx_lt := h.idx_lt, end_le := ?_, idx_pos := h.idx_pos }
    · have := h.idx_lt; dsimp only; omega
    · omega
    · intro i hi hi'
      dsimp only at hi hi' ⊢
      by_cases hie : i = filled
      · subst hie
        rw [← hfe, endPos, Function.update_self, if_pos (by omega)]
      · have hne : i % s.windowSize ≠ s.endPos := fun heq =>
          hie (hfe ▸ mod_eq_of_window hi hi' (by omega) (by have := h.idx_lt; omega) heq)
        rw [Function.update_of_ne hne, h.buf i hi hi']
        by_cases hlt : i < filled
        · rw [if_pos hlt, if_pos (by omega)]
        · rw [if_neg hlt, if_neg (by omega)]
    · dsimp only; omega

theorem step_last {s : OsbTokenizer τ α} {filled : ℕ} (h : Inv w states s filled)
    (he : s.windowPos + s.windowIdx < filled)
    (hlast : s.windowIdx + 1 = s.windowSize ∨ s.windowPos + s.windowIdx + 1 = w.length) :
    Inv w states (s.step iterNext) filled ∧ (s.step iterNext).windowPos = s.windowPos + 1 ∧
      (s.step iterNext).windowIdx = 0 := by
  have hmoved : ∀ s' : OsbTokenizer τ α, Window w states s' filled → s'.windowPos = s.windowPos →
      Inv w states s'.advance filled ∧ s'.advance.windowPos = s.windowPos + 1 ∧ s'.advance.windowIdx = 0 := by
    intro s' hw hpos
    refine ⟨{ toWindow := hw.advance, idx_lt := ?_, end_le := ?_, idx_pos := ?_ }, ?_, rfl⟩
    · exact hw.size_pos
    · simp only [OsbTokenizer.advance]; omega
    · intro hidx; exact absurd hidx (Nat.lt_irrefl 0)
    · simp only [OsbTokenizer.advance, hpos]
  by_cases hfull : s.windowIdx + 1 = s.windowSize
  · rw [step_of_full iterNext s hfull]
    exact hmoved _ ⟨h.size_pos, h.filled_le, h.filled_le_length, h.buf, h.iter⟩ rfl
  · have hend : s.windowPos + s.windowIdx + 1 = w.length := hlast.resolve_left hfull
    have hfilled : filled = w.length := Nat.le_antisymm h.filled_le_length (by omega)
    have hpeek := h.iter.peek_eq hstates h.filled_le_length
    have hslot := h.buf (s.windowPos + s.windowIdx + 1) (by omega) (by have := h.idx_lt; omega)
    rw [if_neg (by omega)] at hslot
    rw [step_of_lt iterNext s hfull]
    dsimp only
    rw [hpeek.1]
    have hw' : Window w states ({ s with windowIdx := s.windowIdx + 1, iter := (s.iter.peek iterNext).2 } :
        OsbTokenizer τ α) filled :=
      ⟨h.size_pos, h.filled_le, h.filled_le_length, h.buf, hpeek.2⟩
    have hnone : (w[filled]?).isNone = true := by simp [hfilled]
    rw [if_pos ⟨hnone, by simpa [← Nat.add_assoc] using hslot⟩]
    exact hmoved _ hw' rfl

theorem step_not_last {s : OsbTokenizer τ α} {filled : ℕ} (h : Inv w states s filled)
    (he : s.windowPos + s.windowIdx < filled)
    (hlast : ¬ (s.windowIdx + 1 = s.windowSize ∨ s.windowPos + s.windowIdx + 1 = w.length)) :
    Inv w states (s.step iterNext) filled ∧ (s.step iterNext).windowPos = s.windowPos ∧
      (s.step iterNext).windowIdx = s.windowIdx + 1 := by
  obtain ⟨hfull, hend⟩ := not_or.mp hlast
  have hlt : s.windowPos + s.windowIdx + 1 < w.length := by have := h.filled_le_length; omega
  have hpeek := h.iter.peek_eq hstates h.filled_le_length
  rw [step_of_lt iterNext s hfull]
  dsimp only
  have hcont : ¬ ((w[filled]?).isNone = true ∧
      (s.buf ((s.windowPos + (s.windowIdx + 1)) % s.windowSize)).isNone = true) := by
    rintro ⟨hnone, hempty⟩
    have hslot := h.buf (s.windowPos + s.windowIdx + 1) (by omega) (by have := h.idx_lt; omega)
    rw [← Nat.add_assoc, hslot] at hempty
    by_cases hnext : s.windowPos + s.windowIdx + 1 < filled
    · rw [if_pos hnext, List.getElem?_eq_getElem (by omega)] at hempty
      exact absurd hempty (by simp)
    · rw [List.getElem?_eq_getElem (by omega)] at hnone
      exact absurd hnone (by simp)
  rw [hpeek.1, if_neg hcont]
  have hw : Window w states ({ s with windowIdx := s.windowIdx + 1, iter := (s.iter.peek iterNext).2 } :
      OsbTokenizer τ α) filled := ⟨h.size_pos, h.filled_le, h.filled_le_length, h.buf, hpeek.2⟩
  refine ⟨{ toWindow := hw, idx_lt := ?_, end_le := ?_, idx_pos := ?_ }, rfl, rfl⟩
  · have := h.idx_lt; dsimp only; omega
  · dsimp only; omega
  · intro; dsimp only; omega

theorem next_of_end {s : OsbTokenizer τ α} {filled : ℕ} (h : Inv w states s filled)
    (hpos : w.length ≤ s.windowPos) :
    ∃ s', s.next iterNext = (none, s') ∧ s'.iter = ⟨states (w.length + 1), none⟩ := by
  have hidx : s.windowIdx = 0 := by
    by_contra hne
    have := h.idx_pos (Nat.pos_of_ne_zero hne)
    omega
  have hfilled : filled = s.windowPos := by have := h.end_le; have := h.filled_le_length; omega
  have hslot := h.buf s.windowPos (Nat.le_refl _) (by have := h.size_pos; omega)
  rw [if_neg (by omega)] at hslot
  have hend : s.buf s.endPos = none := by rw [endPos, hidx, Nat.add_zero, hslot]
  have hnext := h.iter.next_eq hstates h.filled_le_length
  rw [hfilled, List.getElem?_eq_none hpos] at hnext
  have hfill := fillEnd_of_none iterNext s hend
  rw [hnext] at hfill
  have hgram : (s.fillEnd iterNext).gram = none := by
    rw [hfill]
    simp [gram, endPos, hidx]
  have hn : s.windowPos = w.length := by have := h.filled_le_length; omega
  refine ⟨_, next_of_gram_none iterNext s hgram, ?_⟩
  rw [hfill, hn]

theorem next_eq_of_lt {s : OsbTokenizer τ α} {filled : ℕ} (h : Inv w states s filled)
    (he : s.windowPos + s.windowIdx < w.length) {g : Gram α}
    (hg : tokenGram w s.windowPos s.windowIdx = some g) :
    ∃ filled', Inv w states (s.fillEnd iterNext) filled' ∧ s.windowPos + s.windowIdx < filled' ∧
      s.next iterNext = (some ⟨g, s.windowIdx⟩, (s.fillEnd iterNext).step iterNext) := by
  obtain ⟨filled', h', he'⟩ := fillEnd_inv hstates h he
  have hgram : (s.fillEnd iterNext).gram = some g := by
    rw [gram_eq h' (by simpa using he'), fillEnd_windowPos, fillEnd_windowIdx, hg]
  exact ⟨filled', h', he', next_of_gram iterNext s hgram⟩

theorem yields_bigrams {t1 : α} : ∀ (m : ℕ) (s : OsbTokenizer τ α) (filled : ℕ), Inv w states s filled →
    s.windowSize - s.windowIdx = m → 0 < s.windowIdx → w[s.windowPos]? = some t1 →
    ∃ s' filled', Yields (next iterNext) s (bigrams t1 s.windowIdx ((w.drop (s.windowPos + s.windowIdx)).take m)) s' ∧
      Inv w states s' filled' ∧ s'.windowPos = s.windowPos + 1 ∧ s'.windowIdx = 0 ∧ s'.windowSize = s.windowSize
  | 0, s, _, h, hm, _, _ => absurd hm (by have := h.idx_lt; omega)
  | m + 1, s, filled, h, hm, hidx, ht1 => by
    have he : s.windowPos + s.windowIdx < w.length := h.idx_pos hidx
    have hdrop := List.drop_eq_getElem_cons he
    have hg : tokenGram w s.windowPos s.windowIdx = some (.bi t1 w[s.windowPos + s.windowIdx]) := by
      simp [tokenGram, ht1, Nat.pos_iff_ne_zero.mp hidx, List.getElem?_eq_getElem he]
    obtain ⟨filled', h', he', hnext⟩ := next_eq_of_lt hstates h he hg
    have hyield : Yields (next iterNext) s [⟨.bi t1 w[s.windowPos + s.windowIdx], s.windowIdx⟩]
        ((s.fillEnd iterNext).step iterNext) := (yields_singleton _).mpr hnext
    rw [hdrop, List.take_succ_cons, bigrams]
    by_cases hlast : s.windowIdx + 1 = s.windowSize ∨ s.windowPos + s.windowIdx + 1 = w.length
    · obtain ⟨h'', hpos, hidx'⟩ := step_last hstates h' (by simpa using he') (by simpa using hlast)
      have hrest : (w.drop (s.windowPos + s.windowIdx + 1)).take m = [] := by
        rcases hlast with hfull | hend
        · rw [show m = 0 by omega, List.take_zero]
        · rw [hend, List.drop_length, List.take_nil]
      refine ⟨_, filled', ?_, h'', by simpa using hpos, hidx', by simp⟩
      rw [hrest]
      exact hyield
    · obtain ⟨h'', hpos, hidx'⟩ := step_not_last hstates h' (by simpa using he') (by simpa using hlast)
      simp only [fillEnd_windowPos, fillEnd_windowIdx] at hpos hidx'
      obtain ⟨s', filled'', hrest, hs', hpos', hidx'', hsize⟩ :=
        yields_bigrams m _ filled' h'' (by simp only [hidx', step_windowSize, fillEnd_windowSize]; omega)
          (by omega) (by rw [hpos]; exact ht1)
      rw [hpos, hidx', ← Nat.add_assoc] at hrest
      exact ⟨s', filled'', Yields.cons _ hyield hrest, hs', by rw [hpos', hpos], hidx'', by simp [hsize]⟩

theorem yields_window {s : OsbTokenizer τ α} {filled : ℕ} (h : Inv w states s filled) (hidx : s.windowIdx = 0)
    {t1 : α} (ht1 : w[s.windowPos]? = some t1) :
    ∃ s' filled', Yields (next iterNext) s
        (⟨.uni t1, 0⟩ :: bigrams t1 1 ((w.drop (s.windowPos + 1)).take (s.windowSize - 1))) s' ∧
      Inv w states s' filled' ∧ s'.windowPos = s.windowPos + 1 ∧ s'.windowIdx = 0 ∧
        s'.windowSize = s.windowSize := by
  have he : s.windowPos + s.windowIdx < w.length := by
    rw [hidx, Nat.add_zero]; exact (List.getElem?_eq_some_iff.mp ht1).1
  have hg : tokenGram w s.windowPos s.windowIdx = some (.uni t1) := by simp [tokenGram, ht1, hidx]
  obtain ⟨filled', h', he', hnext⟩ := next_eq_of_lt hstates h he hg
  rw [hidx] at hnext
  have hyield : Yields (next iterNext) s [⟨.uni t1, 0⟩] ((s.fillEnd iterNext).step iterNext) :=
    (yields_singleton _).mpr hnext
  by_cases hlast : s.windowIdx + 1 = s.windowSize ∨ s.windowPos + s.windowIdx + 1 = w.length
  · obtain ⟨h'', hpos, hidx'⟩ := step_last hstates h' (by simpa using he') (by simpa using hlast)
    have hrest : (w.drop (s.windowPos + 1)).take (s.windowSize - 1) = [] := by
      rw [hidx] at hlast
      rcases hlast with hfull | hend
      · rw [show s.windowSize - 1 = 0 by omega, List.take_zero]
      · rw [Nat.add_zero] at hend
        rw [hend, List.drop_length, List.take_nil]
    refine ⟨_, filled', ?_, h'', by simpa using hpos, hidx', by simp⟩
    rw [hrest]
    exact hyield
  · obtain ⟨h'', hpos, hidx'⟩ := step_not_last hstates h' (by simpa using he') (by simpa using hlast)
    simp only [fillEnd_windowPos, fillEnd_windowIdx, hidx] at hpos hidx'
    obtain ⟨s', filled'', hrest, hs', hpos', hidx'', hsize⟩ :=
      yields_bigrams hstates (s.windowSize - 1) _ filled' h'' (by simp [hidx'])
        (by omega) (by rw [hpos]; exact ht1)
    rw [hpos, hidx'] at hrest
    exact ⟨s', filled'', Yields.cons _ hyield hrest, hs', by rw [hpos', hpos], hidx'', by simp [hsize]⟩

theorem yields_osbTokens : ∀ (m : ℕ) (s : OsbTokenizer τ α) (filled : ℕ), Inv w states s filled →
    s.windowIdx = 0 → w.length - s.windowPos = m →
    ∃ s', Yields (next iterNext) s (osbTokens s.windowSize (w.drop s.windowPos)) s' ∧
      ∃ s'', s'.next iterNext = (none, s'') ∧ s''.iter = ⟨states (w.length + 1), none⟩
  | 0, s, _, h, _, hm => by
    have hpos : w.length ≤ s.windowPos := by omega
    refine ⟨s, ?_, next_of_end hstates h hpos⟩
    rw [List.drop_eq_nil_of_le hpos, osbTokens, yields_nil]
  | m + 1, s, filled, h, hidx, hm => by
    have hpos : s.windowPos < w.length := by omega
    rw [List.drop_eq_getElem_cons hpos, osbTokens]
    obtain ⟨s', filled', hwindow, h', hpos', hidx', hsize⟩ :=
      yields_window hstates h hidx (List.getElem?_eq_getElem hpos)
    obtain ⟨s'', hrest, hend⟩ := yields_osbTokens m s' filled' h' hidx' (by omega)
    rw [hpos', hsize] at hrest
    exact ⟨s'', (yields_append _).mpr ⟨s', hwindow, hrest⟩, hend⟩

end OsbTokenizer

/-! ## The tokens of a stream -/

/-- For every window size of at least one and every iterator that yields the words `w` and then
ends, the tokenizer yields the tokens of `osbTokens`, in order, and then ends; its iterator is
then past the end with nothing peeked, having made one call per word and the one that ended. -/
theorem osbTokenizer_yields {τ α : Type} (iterNext : τ → Option α × τ) (windowSize : ℕ)
    (hk : 1 ≤ windowSize) (w : List α) (t t' t'' : τ) (hw : Yields iterNext t w t')
    (hend : iterNext t' = (none, t'')) :
    ∃ s, Yields (OsbTokenizer.next iterNext) (OsbTokenizer.new t windowSize) (osbTokens windowSize w) s ∧
      ∃ s', OsbTokenizer.next iterNext s = (none, s') ∧ s'.iter = ⟨t'', none⟩ := by
  obtain ⟨states, h0, hlast, hcall⟩ := Yields.exists_states hw hend
  obtain ⟨s, hyield, s', hnext, hiter⟩ :=
    OsbTokenizer.yields_osbTokens hcall w.length _ 0 (OsbTokenizer.inv_new t windowSize hk h0) rfl
      (by simp [OsbTokenizer.new])
  refine ⟨s, by simpa [OsbTokenizer.new] using hyield, s', hnext, by rw [hiter, hlast]⟩

example : Iterator.collect (OsbTokenizer.next (fun l : List String => (l.head?, l.tail))) 20
    (OsbTokenizer.new ["a", "b", "c"] 2) =
    [⟨.uni "a", 0⟩, ⟨.bi "a" "b", 1⟩, ⟨.uni "b", 0⟩, ⟨.bi "b" "c", 1⟩, ⟨.uni "c", 0⟩] := by
  decide

theorem osbTokenizer_yields_abc :
    osbTokens 2 ["a", "b", "c"] = [⟨.uni "a", 0⟩, ⟨.bi "a" "b", 1⟩, ⟨.uni "b", 0⟩, ⟨.bi "b" "c", 1⟩, ⟨.uni "c", 0⟩] ∧
    ∃ s, Yields (OsbTokenizer.next (fun l : List String => (l.head?, l.tail)))
        (OsbTokenizer.new ["a", "b", "c"] 2) (osbTokens 2 ["a", "b", "c"]) s ∧
      ∃ s', OsbTokenizer.next (fun l : List String => (l.head?, l.tail)) s = (none, s') ∧ s'.iter = ⟨[], none⟩ :=
  ⟨by decide, osbTokenizer_yields _ 2 (by decide) _ _ _ _ ⟨_, rfl, _, rfl, _, rfl, rfl⟩ rfl⟩

end EsmpServer.Nlp
