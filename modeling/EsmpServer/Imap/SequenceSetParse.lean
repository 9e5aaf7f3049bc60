import EsmpServer.Imap.SequenceSet
import EsmpServer.Lib.Fallible

/-!
# Reading back a sequence set

The grammar of a sequence set (RFC 9051 `sequence-set`, with the saved search `$` as a
whole element) as a syntax tree with its text. `parse_sequence_set` reads the text of
every non-empty list of elements back as its tree: the bytes of an element, read with
nothing pending, leave exactly that element pending, and the `,` after it or the end of
the input pushes it. The converse fails: the parser accepts texts outside the grammar,
and drops a number written right before `$`.
-/

namespace EsmpServer.Imap

open DecimalBytes (ascii)

/-- `seq-number`: a number or `*`. -/
inductive SeqNumber where
  | number (n : UInt32)
  | star
  deriving DecidableEq, Repr

/-- An element of a sequence set: a `seq-number`, a `seq-range` or `$`. -/
inductive SetElement where
  | number (s : SeqNumber)
  | range (a b : SeqNumber)
  | saved
  deriving DecidableEq, Repr

def SeqNumber.text : SeqNumber → List UInt8
  | .number n => DecimalBytes.ofNat n.toNat
  | .star => [42]

/-- The end of a range a `seq-number` gives: `*` leaves it open. -/
def SeqNumber.bound : SeqNumber → Option UInt32
  | .number n => some n
  | .star => none

def SetElement.text : SetElement → List UInt8
  | .number s => s.text
  | .range a b => a.text ++ 58 :: b.text
  | .saved => [36]

/-- The item of `Sequence` an element stands for; `*` alone is the open range. -/
def SetElement.toSequence : SetElement → Sequence
  | .number (.number n) => .number n
  | .number .star => .range none none
  | .range a b => .range a.bound b.bound
  | .saved => .savedSearch

/-- The text of a list of elements, separated by `,`. -/
def setText (es : List SetElement) : List UInt8 := [44].intercalate (es.map SetElement.text)

/-- The tree of a list of elements: one element alone, several as a list. -/
def setTree : List SetElement → Sequence
  | [e] => e.toSequence
  | es => .list (es.map SetElement.toSequence)

theorem SeqNumber.text_ne_nil (s : SeqNumber) : s.text ≠ [] := by
  cases s <;> simp [text, DecimalBytes.ofNat_ne_nil]

theorem SetElement.colon_mem_text_range (a b : SeqNumber) : 58 ∈ (SetElement.range a b).text := by
  simp [text]

theorem setText_singleton (e : SetElement) : setText [e] = e.text := by
  simp [setText]

theorem setText_cons_cons (e e' : SetElement) (es : List SetElement) :
    setText (e :: e' :: es) = e.text ++ 44 :: setText (e' :: es) := by
  simp [setText, List.intercalate_cons_cons]

theorem parseNumber_ofNat (n : UInt32) : parseNumber (DecimalBytes.ofNat n.toNat) = .ok n := by
  rw [parseNumber, DecimalBytes.parse_ofNat n.toNat_lt]
  simp

/-! ## Positions in the input -/

section Positions

variable {value xs rest : List UInt8} {q : ℕ}

theorem length_eq_of_drop_eq (h : value.drop q = xs) (hne : xs ≠ []) :
    value.length = q + xs.length := by
  have hlen := congrArg List.length h
  rw [List.length_drop] at hlen
  have hq : q < value.length := by
    by_contra hq
    exact hne (h ▸ List.drop_eq_nil_of_le (by omega))
  omega

theorem drop_add_of_drop_eq (h : value.drop q = xs ++ rest) : value.drop (q + xs.length) = rest := by
  rw [← List.drop_drop, h, List.drop_left]

theorem getElem?_succ_of_drop_eq {b : UInt8} (h : value.drop q = b :: rest) :
    value[q + 1]? = rest.head? := by
  rw [← List.getElem?_drop, h]
  cases rest <;> rfl

theorem numberAt_of_drop_eq (h : value.drop q = xs ++ rest) (hne : xs ≠ []) :
    numberAt value q (q + xs.length) = parseNumber xs := by
  have hlen := length_eq_of_drop_eq h (by simp [hne])
  have hslice : slice value q (q + xs.length) = some xs := by
    rw [slice, if_pos ⟨by omega, by simp at hlen; omega⟩, Nat.add_sub_cancel_left, h]
    simp
  simp [numberAt, hslice]

end Positions

/-! ## One byte at a time -/

/-- The variables between two elements: nothing pending. -/
def ParseState.clean (items : List Sequence) : ParseState :=
  ⟨items, none, none, false, false, false⟩

/-- The variables once a digit at `q` is read: the token starts at the first digit. -/
def ParseState.startToken (q : ℕ) (st : ParseState) : ParseState :=
  if st.tokenStart.isNone then { st with tokenStart := some q } else st

section Bytes

variable {value : List UInt8} {q : ℕ} {st st' : ParseState}

theorem scan_of_scanByte {ch : UInt8} {add : Bool} (h : scanByte value q ch st = .ok (add, st')) :
    scan value st (ch, q) =
      if add || q = value.length - 1 then (flush value q add st').mapError .error else .ok st' := by
  simp only [scan, h]

theorem flush_last (value : List UInt8) (pos : ℕ) (st : ParseState) :
    flush value pos false st = flush value (pos + 1) true st := rfl

theorem scanByte_digit {d : UInt8} (hd : DecimalBytes.isDigit d) (hw : st.isWildcard = false) :
    scanByte value q d st = .ok (false, st.startToken q) := by
  have h44 : d ≠ 44 := by rintro rfl; simp [DecimalBytes.isDigit] at hd
  have h58 : d ≠ 58 := by rintro rfl; simp [DecimalBytes.isDigit] at hd
  have h42 : d ≠ 42 := by rintro rfl; simp [DecimalBytes.isDigit] at hd
  have h36 : d ≠ 36 := by rintro rfl; simp [DecimalBytes.isDigit] at hd
  delta scanByte
  split
  · exact absurd rfl h44
  · exact absurd rfl h58
  · exact absurd rfl h42
  · exact absurd rfl h36
  · delta ParseState.startToken
    simp [hd, hw]

theorem scanByte_comma : scanByte value q 44 st = .ok (true, st) := rfl

theorem scanByte_star (hlen : value.length ≠ 1) (hw : st.isWildcard = false)
    (ht : st.tokenStart = none) :
    scanByte value q 42 st = .ok (false, { st with isWildcard := true }) := by
  delta scanByte
  simp [hlen, hw, ht]

theorem scanByte_saved (hnext : value[q + 1]?.all (· == 44)) :
    scanByte value q 36 st = .ok (false, { st with isSavedSearch := true }) := by
  delta scanByte
  simp [hnext]

theorem scanByte_colon_number {start : UInt32} {p : ℕ} (hr : st.isRange = false)
    (ht : st.tokenStart = some p) (hn : numberAt value p q = .ok start) :
    scanByte value q 58 st =
      .ok (false, { st with rangeStart := some start, tokenStart := none, isRange := true }) := by
  delta scanByte
  simp [hr, ht, hn]

theorem scanByte_colon_star (hr : st.isRange = false) (ht : st.tokenStart = none)
    (hw : st.isWildcard = true) :
    scanByte value q 58 st = .ok (false, { st with isWildcard := false, isRange := true }) := by
  delta scanByte
  simp [hr, ht, hw]

theorem startToken_of_isSome (ht : st.tokenStart.isSome) : st.startToken q = st := by
  delta ParseState.startToken
  simp [Option.isSome_iff_ne_none.mp ht]

theorem startToken_tokenStart (q : ℕ) (st : ParseState) : (st.startToken q).tokenStart.isSome := by
  delta ParseState.startToken
  split <;> simp_all [Option.isNone_iff_eq_none, Option.isSome_iff_ne_none]

theorem isWildcard_startToken (q : ℕ) (st : ParseState) :
    (st.startToken q).isWildcard = st.isWildcard := by
  delta ParseState.startToken
  split <;> rfl

theorem foldlM_scan_digits {rest : List UInt8} :
    ∀ (ds : List UInt8) (q : ℕ) (st : ParseState), ds ≠ [] →
      (∀ d ∈ ds, DecimalBytes.isDigit d) → st.isWildcard = false →
      value.drop q = ds ++ rest →
      (ds.zipIdx q).foldlM (scan value) st =
        if rest = [] then (flush value (q + ds.length) true (st.startToken q)).mapError .error
        else .ok (st.startToken q)
  | [], _, _, hne, _, _, _ => absurd rfl hne
  | [d], q, st, _, hd, hw, hv => by
    have hlen := length_eq_of_drop_eq hv (by simp)
    rw [List.zipIdx_cons, List.zipIdx_nil, List.foldlM_cons,
      scan_of_scanByte (scanByte_digit (hd d (by simp)) hw)]
    by_cases hr : rest = []
    · subst hr
      simp only [List.length_append, List.length_singleton, List.length_nil] at hlen
      simp [hlen, flush_last]
    · have hpos : rest.length ≠ 0 := by simpa using hr
      simp only [List.length_append, List.length_singleton] at hlen
      simp [hr, show q ≠ value.length - 1 by omega]
  | d :: d' :: ds, q, st, _, hd, hw, hv => by
    have hlen := length_eq_of_drop_eq hv (by simp)
    have hstep : scan value st (d, q) = .ok (st.startToken q) := by
      rw [scan_of_scanByte (scanByte_digit (hd d (by simp)) hw)]
      simp only [List.length_append, List.length_cons] at hlen
      simp [show q ≠ value.length - 1 by omega]
    have hv' : value.drop (q + 1) = (d' :: ds) ++ rest := by
      rw [← List.drop_drop, hv]
      rfl
    have hrest := foldlM_scan_digits (d' :: ds) (q + 1) (st.startToken q) (by simp)
      (fun x hx => hd x (List.mem_cons_of_mem d hx)) (by rw [isWildcard_startToken, hw]) hv'
    rw [List.zipIdx_cons, List.foldlM_cons, hstep, Except.ok_bind, hrest,
      startToken_of_isSome (startToken_tokenStart q st)]
    simp only [List.length_cons]
    rw [show q + 1 + (ds.length + 1) = q + (ds.length + 1 + 1) by omega]

end Bytes

/-! ## One element at a time -/

/-- The variables once the bytes of a `seq-number` at `q` are read. -/
def SeqNumber.pend (q : ℕ) (st : ParseState) : SeqNumber → ParseState
  | .number _ => st.startToken q
  | .star => { st with isWildcard := true }

/-- The variables once the bytes of an element at `p` are read: the element is pending. -/
def SetElement.pend (items : List Sequence) (p : ℕ) : SetElement → ParseState
  | .number s => s.pend p (.clean items)
  | .range a b =>
    b.pend (p + a.text.length + 1) { ParseState.clean items with rangeStart := a.bound, isRange := true }
  | .saved => { ParseState.clean items with isSavedSearch := true }

theorem SeqNumber.pend_number (q : ℕ) (st : ParseState) (n : UInt32) :
    (SeqNumber.number n).pend q st = st.startToken q := rfl

theorem SeqNumber.pend_star (q : ℕ) (st : ParseState) :
    SeqNumber.star.pend q st = { st with isWildcard := true } := rfl

theorem SetElement.pend_range (items : List Sequence) (p : ℕ) (a b : SeqNumber) :
    (SetElement.range a b).pend items p =
      b.pend (p + a.text.length + 1) { ParseState.clean items with rangeStart := a.bound, isRange := true } :=
  rfl

theorem SetElement.pend_saved (items : List Sequence) (p : ℕ) :
    SetElement.saved.pend items p = { ParseState.clean items with isSavedSearch := true } := rfl

section Elements

variable {value rest : List UInt8}

theorem length_ne_one_of_star {q : ℕ} (hv : value.drop q = 42 :: rest) (hone : value ≠ [42]) :
    value.length ≠ 1 := by
  intro hlen
  have hq : q = 0 := by have := length_eq_of_drop_eq hv (by simp); simp at this; omega
  subst hq
  have hr : rest = [] := by
    have := congrArg List.length hv
    simp only [List.drop_zero, hlen, List.length_cons] at this
    exact List.eq_nil_of_length_eq_zero (by omega)
  exact hone (by simpa [hr] using hv)

theorem foldlM_scan_seqNumber (s : SeqNumber) (q : ℕ) (st : ParseState)
    (hv : value.drop q = s.text ++ rest) (hone : value ≠ [42]) (ht : st.tokenStart = none)
    (hw : st.isWildcard = false) :
    (s.text.zipIdx q).foldlM (scan value) st =
      if rest = [] then (flush value (q + s.text.length) true (s.pend q st)).mapError .error
      else .ok (s.pend q st) := by
  cases s with
  | number n =>
    exact foldlM_scan_digits _ q st (DecimalBytes.ofNat_ne_nil _)
      (fun d hd => DecimalBytes.isDigit_of_mem_ofNat hd) hw hv
  | star =>
    have hlen := length_eq_of_drop_eq hv (by simp [SeqNumber.text])
    have hbyte := scanByte_star (q := q) (length_ne_one_of_star hv hone) hw ht
    simp only [SeqNumber.text, List.zipIdx_cons, List.zipIdx_nil, List.foldlM_cons,
      scan_of_scanByte hbyte, SeqNumber.pend_star]
    simp only [SeqNumber.text, List.length_append, List.length_singleton] at hlen
    by_cases hr : rest = []
    · subst hr
      simp [hlen, flush_last]
    · have : rest.length ≠ 0 := by simpa using hr
      simp [hr, show q ≠ value.length - 1 by omega]

theorem foldlM_scan_rangeStart (a : SeqNumber) (p : ℕ) (items : List Sequence) (tail : List UInt8)
    (hv : value.drop p = a.text ++ 58 :: tail) (hne : tail ≠ []) (hone : value ≠ [42]) :
    ((a.text ++ [58]).zipIdx p).foldlM (scan value) (.clean items) =
      .ok { ParseState.clean items with rangeStart := a.bound, isRange := true } := by
  have hlen := length_eq_of_drop_eq hv (by simp)
  have hcolon : scan value (a.pend p (.clean items)) (58, p + a.text.length) =
      .ok { ParseState.clean items with rangeStart := a.bound, isRange := true } := by
    have hlast : p + a.text.length ≠ value.length - 1 := by
      have : tail.length ≠ 0 := by simpa using hne
      simp only [List.length_append, List.length_cons] at hlen
      omega
    cases a with
    | number n =>
      have hn : numberAt value p (p + (SeqNumber.number n).text.length) = .ok n := by
        rw [numberAt_of_drop_eq hv (SeqNumber.text_ne_nil _)]
        exact parseNumber_ofNat n
      rw [scan_of_scanByte (scanByte_colon_number rfl rfl hn)]
      simp only [SeqNumber.pend_number]
      delta SeqNumber.bound ParseState.clean ParseState.startToken
      simp [hlast]
    | star =>
      rw [scan_of_scanByte (scanByte_colon_star rfl rfl rfl)]
      simp only [SeqNumber.pend_star]
      delta SeqNumber.bound ParseState.clean
      simp [hlast]
  rw [List.zipIdx_append, List.foldlM_append,
    foldlM_scan_seqNumber a p (.clean items) hv hone rfl rfl, if_neg (by simp), Except.ok_bind]
  simpa using hcolon

theorem foldlM_scan_element (e : SetElement) (p : ℕ) (items : List Sequence)
    (hv : value.drop p = e.text ++ rest) (hsep : rest = [] ∨ rest.head? = some 44)
    (hone : value ≠ [42]) :
    (e.text.zipIdx p).foldlM (scan value) (.clean items) =
      if rest = [] then (flush value (p + e.text.length) true (e.pend items p)).mapError .error
      else .ok (e.pend items p) := by
  cases e with
  | number s => exact foldlM_scan_seqNumber s p _ hv hone rfl rfl
  | range a b =>
    have hv' : value.drop p = a.text ++ 58 :: (b.text ++ rest) := by
      simpa [SetElement.text] using hv
    have hb : value.drop (p + a.text.length + 1) = b.text ++ rest := by
      rw [← List.drop_drop, drop_add_of_drop_eq hv']
      rfl
    have hsplit : (SetElement.range a b).text = (a.text ++ [58]) ++ b.text := by
      simp [SetElement.text]
    have hpos : p + (a.text ++ [58]).length = p + a.text.length + 1 := by
      simp [Nat.add_assoc]
    rw [hsplit, List.zipIdx_append, List.foldlM_append,
      foldlM_scan_rangeStart a p items _ hv' (by simp [SeqNumber.text_ne_nil]) hone,
      Except.ok_bind, hpos,
      foldlM_scan_seqNumber b (p + a.text.length + 1)
        { ParseState.clean items with rangeStart := a.bound, isRange := true } hb hone rfl rfl]
    simp only [SetElement.pend_range, List.length_append, List.length_singleton, Nat.add_assoc]
  | saved =>
    have hv' : value.drop p = 36 :: rest := hv
    have hlen := length_eq_of_drop_eq hv' (by simp)
    have hnext : value[p + 1]?.all (· == 44) := by
      rw [getElem?_succ_of_drop_eq hv']
      rcases hsep with rfl | h
      · rfl
      · simp [h]
    simp only [SetElement.text, List.zipIdx_cons, List.zipIdx_nil, List.foldlM_cons,
      scan_of_scanByte (scanByte_saved hnext), SetElement.pend_saved]
    simp only [List.length_cons] at hlen
    by_cases hr : rest = []
    · subst hr
      simp [hlen, flush_last]
    · have : rest.length ≠ 0 := by simpa using hr
      simp [hr, show p ≠ value.length - 1 by omega]

theorem flush_pend (e : SetElement) (p : ℕ) (items : List Sequence)
    (hv : value.drop p = e.text ++ rest) :
    flush value (p + e.text.length) true (e.pend items p) =
      .ok (.clean (items ++ [e.toSequence])) := by
  cases e with
  | number s =>
    cases s with
    | number n =>
      have hn : numberAt value p (p + (DecimalBytes.ofNat n.toNat).length) = .ok n :=
        (numberAt_of_drop_eq hv (SeqNumber.text_ne_nil (.number n))).trans (parseNumber_ofNat n)
      delta SetElement.pend SeqNumber.pend ParseState.startToken ParseState.clean SetElement.toSequence
      simp [flush, tokenNumber, SetElement.text, SeqNumber.text, hn]
    | star => rfl
  | range a b =>
    have hv' : value.drop p = a.text ++ 58 :: (b.text ++ rest) := by
      simpa [SetElement.text] using hv
    have hb : value.drop (p + a.text.length + 1) = b.text ++ rest := by
      rw [← List.drop_drop, drop_add_of_drop_eq hv']
      rfl
    have hpos : p + (SetElement.range a b).text.length = p + a.text.length + 1 + b.text.length := by
      simp [SetElement.text]
      omega
    rw [hpos]
    cases b with
    | number m =>
      have hm := numberAt_of_drop_eq hb (SeqNumber.text_ne_nil (.number m))
      simp only [SeqNumber.text] at hm
      simp only [SetElement.pend_range, SeqNumber.pend_number]
      delta ParseState.startToken ParseState.clean SetElement.toSequence SeqNumber.bound
      simp [flush, tokenNumber, SeqNumber.text, hm, parseNumber_ofNat]
    | star =>
      simp only [SetElement.pend_range, SeqNumber.pend_star]
      delta ParseState.clean SetElement.toSequence SeqNumber.bound
      simp [flush]
  | saved => rfl

end Elements

theorem foldlM_scan_setText {value : List UInt8} (hone : value ≠ [42]) :
    ∀ (es : List SetElement) (p : ℕ) (items : List Sequence), es ≠ [] →
      value.drop p = setText es →
      ((setText es).zipIdx p).foldlM (scan value) (.clean items) =
        .ok (.clean (items ++ es.map SetElement.toSequence))
  | [], _, _, hne, _ => absurd rfl hne
  | [e], p, items, _, hv => by
    rw [setText_singleton] at hv ⊢
    have hv' : value.drop p = e.text ++ [] := hv.trans (List.append_nil e.text).symm
    rw [foldlM_scan_element e p items hv' (Or.inl rfl) hone, if_pos rfl,
      flush_pend e p items hv']
    rfl
  | e :: e' :: es, p, items, _, hv => by
    rw [setText_cons_cons] at hv ⊢
    have hsplit : e.text ++ 44 :: setText (e' :: es) = (e.text ++ [44]) ++ setText (e' :: es) := by
      simp
    have hrest : value.drop (p + (e.text ++ [44]).length) = setText (e' :: es) := by
      rw [hsplit] at hv
      exact drop_add_of_drop_eq hv
    have hcomma : scan value (e.pend items p) (44, p + e.text.length) =
        .ok (.clean (items ++ [e.toSequence])) := by
      rw [scan_of_scanByte scanByte_comma, Bool.true_or, if_pos rfl, flush_pend e p items hv]
      rfl
    rw [hsplit, List.zipIdx_append, List.foldlM_append, List.zipIdx_append, List.foldlM_append,
      foldlM_scan_element e p items hv (Or.inr rfl) hone, if_neg (by simp), Except.ok_bind]
    simp only [List.zipIdx_cons, List.zipIdx_nil, List.foldlM_cons, List.foldlM_nil, hcomma,
      Except.ok_bind, Except.pure_eq_ok]
    rw [foldlM_scan_setText hone (e' :: es) _ _ (by simp) hrest]
    simp

theorem eq_singleton_of_setText_eq {es : List SetElement} {bytes : List UInt8}
    (h : setText es = bytes) (hne : bytes ≠ []) (hcomma : 44 ∉ bytes) :
    ∃ e, es = [e] ∧ e.text = bytes := by
  match es with
  | [] => exact absurd h.symm (by simpa [setText] using hne)
  | [e] => exact ⟨e, rfl, by rwa [setText_singleton] at h⟩
  | e :: e' :: es => exact absurd (h ▸ by simp [setText_cons_cons]) hcomma

theorem eq_star_of_setText_eq {es : List SetElement} (h : setText es = [42]) :
    es = [.number .star] := by
  obtain ⟨e, rfl, he⟩ := eq_singleton_of_setText_eq h (by simp) (by decide)
  cases e with
  | number s =>
    cases s with
    | number n =>
      have := DecimalBytes.isDigit_of_mem_ofNat (n := n.toNat) (b := 42)
        (by simp [SetElement.text, SeqNumber.text] at he; simp [he])
      simp [DecimalBytes.isDigit] at this
    | star => rfl
  | range a b =>
    have h58 := he ▸ SetElement.colon_mem_text_range a b
    simp at h58
  | saved => simp [SetElement.text] at he

theorem parseSequenceSet_setText (es : List SetElement) (hne : es ≠ []) :
    parseSequenceSet (setText es) = .ok (setTree es) := by
  by_cases hone : setText es = [42]
  · rw [eq_star_of_setText_eq hone]
    rfl
  · have hrun := foldlM_scan_setText hone es 0 [] hne rfl
    have hinit : ParseState.init = .clean [] := rfl
    rw [parseSequenceSet, hinit, hrun]
    match es with
    | [e] => rfl
    | e :: e' :: es => rfl

/-- The text `1$`: `parse_sequence_set` takes it for the saved search alone, while it is the
text of no list of elements. -/
theorem parseSequenceSet_numberBeforeSaved :
    parseSequenceSet (ascii "1$") = .ok .savedSearch ∧ ∀ es, setText es ≠ ascii "1$" := by
  refine ⟨rfl, fun es h => ?_⟩
  have hbytes : ascii "1$" = [49, 36] := by decide
  rw [hbytes] at h
  obtain ⟨e, rfl, he⟩ := eq_singleton_of_setText_eq h (by simp) (by decide)
  cases e with
  | number s =>
    cases s with
    | number n =>
      have := DecimalBytes.isDigit_of_mem_ofNat (n := n.toNat) (b := 36)
        (by simp [SetElement.text, SeqNumber.text] at he; simp [he])
      simp [DecimalBytes.isDigit] at this
    | star => simp [SetElement.text, SeqNumber.text] at he
  | range a b =>
    have h58 := he ▸ SetElement.colon_mem_text_range a b
    simp at h58
  | saved => simp [SetElement.text] at he

end EsmpServer.Imap
