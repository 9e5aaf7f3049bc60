import Mathlib

/-!
# The concurrency limiter

`ConcurrencyLimiter` (common/listener/limiter.rs) counts the requests in flight in a shared
atomic counter. `is_allowed` loads the counter and, when it is below `max_concurrent`,
increments it with a separate `fetch_add` and hands out an `InFlight` guard, whose drop
decrements the counter. A thread is modelled by where it stands in these calls, and a run is
any interleaving of the three atomic operations of any of the threads; an operation a thread
is not at leaves the state unchanged.

Over every run the counter is the number of live guards (`concurrent_eq_live`). The bound on
the guards does not hold: when every thread loads the counter before any of them increments
it, every thread gets a guard, whatever the bound (`live_loadsThenAdds`).
-/

namespace EsmpServer.Common

/-- Where a thread stands in `is_allowed` and in the life of its guard. -/
inductive Phase where
  /-- No call in progress and no guard. -/
  | idle
  /-- The load saw the counter below the bound; the `fetch_add` comes next. -/
  | checked
  /-- The thread holds a live `InFlight`. -/
  | holding
  deriving DecidableEq, Repr

/-- The atomic operations a thread performs on the counter. -/
inductive Op where
  /-- `self.concurrent.load(..) < self.max_concurrent` in `is_allowed`. -/
  | load
  /-- `self.concurrent.fetch_add(1, ..)`, after which the guard is made. -/
  | fetchAdd
  /-- `InFlight::drop`: `self.concurrent.fetch_sub(1, ..)`. -/
  | drop
  deriving DecidableEq, Repr

/-- The limiter's bound and counter, and the phase of each thread. -/
structure Limiter (ι : Type) where
  maxConcurrent : ℕ
  concurrent : ℕ
  phase : ι → Phase

namespace Limiter

variable {ι : Type} [DecidableEq ι]

/-- `ConcurrencyLimiter::new`, with every thread idle. -/
def new (maxConcurrent : ℕ) : Limiter ι := ⟨maxConcurrent, 0, fun _ => .idle⟩

/-- One atomic operation of thread `i`. A load that sees the bound reached is the
`Forbidden` answer: the thread stays idle. -/
def step (l : Limiter ι) (i : ι) : Op → Limiter ι
  | .load =>
    if l.phase i = .idle ∧ l.concurrent < l.maxConcurrent then
      { l with phase := Function.update l.phase i .checked }
    else l
  | .fetchAdd =>
    if l.phase i = .checked then
      { l with concurrent := l.concurrent + 1, phase := Function.update l.phase i .holding }
    else l
  | .drop =>
    if l.phase i = .holding then
      { l with concurrent := l.concurrent - 1, phase := Function.update l.phase i .idle }
    else l

theorem step_load (l : Limiter ι) (i : ι) :
    l.step i .load = if l.phase i = .idle ∧ l.concurrent < l.maxConcurrent then
      { l with phase := Function.update l.phase i .checked } else l := rfl

theorem step_fetchAdd (l : Limiter ι) (i : ι) :
    l.step i .fetchAdd = if l.phase i = .checked then
      { l with concurrent := l.concurrent + 1, phase := Function.update l.phase i .holding } else l := rfl

theorem step_drop (l : Limiter ι) (i : ι) :
    l.step i .drop = if l.phase i = .holding then
      { l with concurrent := l.concurrent - 1, phase := Function.update l.phase i .idle } else l := rfl

/-- An interleaving of the operations of the threads, in order. -/
def run (l : Limiter ι) (steps : List (ι × Op)) : Limiter ι :=
  steps.foldl (fun l s => l.step s.1 s.2) l

theorem run_nil (l : Limiter ι) : l.run [] = l := rfl

theorem run_cons (l : Limiter ι) (s : ι × Op) (steps : List (ι × Op)) :
    l.run (s :: steps) = (l.step s.1 s.2).run steps := rfl

theorem run_append (l : Limiter ι) (xs ys : List (ι × Op)) :
    l.run (xs ++ ys) = (l.run xs).run ys :=
  List.foldl_append

/-! ## Loads before increments -/

/-- Every thread of `ts` loads the counter, in turn. -/
def loads (ts : List ι) : List (ι × Op) := ts.map (·, .load)

/-- Every thread of `ts` increments the counter, in turn. -/
def adds (ts : List ι) : List (ι × Op) := ts.map (·, .fetchAdd)

theorem run_loads (l : Limiter ι) (hlt : l.concurrent < l.maxConcurrent) :
    ∀ ts : List ι, ts.Nodup → (∀ j ∈ ts, l.phase j = .idle) →
      l.run (loads ts) = { l with phase := fun j => if j ∈ ts then .checked else l.phase j }
  | [], _, _ => by simp [loads, run_nil]
  | t :: ts, hnodup, hidle => by
    obtain ⟨hnotin, hnodup'⟩ := List.nodup_cons.mp hnodup
    have hstep : l.step t .load = { l with phase := Function.update l.phase t .checked } := by
      rw [step_load, if_pos ⟨hidle t List.mem_cons_self, hlt⟩]
    have hidle' : ∀ j ∈ ts, Function.update l.phase t .checked j = .idle := by
      intro j hj
      rw [Function.update_of_ne (by rintro rfl; exact hnotin hj)]
      exact hidle j (List.mem_cons_of_mem _ hj)
    rw [loads, List.map_cons, run_cons, hstep]
    rw [← loads, run_loads { l with phase := Function.update l.phase t .checked } hlt ts hnodup' hidle']
    congr 1
    funext j
    by_cases hj : j = t
    · subst hj
      simp [hnotin]
    · simp [hj]

theorem run_adds (l : Limiter ι) :
    ∀ ts : List ι, ts.Nodup → (∀ j ∈ ts, l.phase j = .checked) →
      l.run (adds ts) = { l with
        concurrent := l.concurrent + ts.length
        phase := fun j => if j ∈ ts then .holding else l.phase j }
  | [], _, _ => by simp [adds, run_nil]
  | t :: ts, hnodup, hchecked => by
    obtain ⟨hnotin, hnodup'⟩ := List.nodup_cons.mp hnodup
    have hstep : l.step t .fetchAdd =
        { l with concurrent := l.concurrent + 1, phase := Function.update l.phase t .holding } := by
      rw [step_fetchAdd, if_pos (hchecked t List.mem_cons_self)]
    have hchecked' : ∀ j ∈ ts, Function.update l.phase t .holding j = .checked := by
      intro j hj
      rw [Function.update_of_ne (by rintro rfl; exact hnotin hj)]
      exact hchecked j (List.mem_cons_of_mem _ hj)
    rw [adds, List.map_cons, run_cons, hstep, ← adds, run_adds _ ts hnodup' hchecked']
    congr 1
    · simp only [List.length_cons]
      omega
    · funext j
      by_cases hj : j = t
      · subst hj
        simp [hnotin]
      · simp [hj]

variable [Fintype ι]

/-- The threads holding a live guard. -/
def holders (l : Limiter ι) : Finset ι := Finset.univ.filter fun j => l.phase j = .holding

/-- The number of live guards. -/
def live (l : Limiter ι) : ℕ := l.holders.card

/-! ## Counting the guards -/

theorem holders_update (l : Limiter ι) (i : ι) (p : Phase) :
    Finset.univ.filter (fun j => Function.update l.phase i p j = .holding) =
      if p = .holding then insert i (l.holders.erase i) else l.holders.erase i := by
  ext j
  by_cases hj : j = i
  · subst hj
    split_ifs with hp <;> simp [hp]
  · split_ifs <;> simp [holders, hj]

theorem card_holders_update_holding (l : Limiter ι) {i : ι} (hi : l.phase i ≠ .holding) :
    (Finset.univ.filter (fun j => Function.update l.phase i .holding j = .holding)).card = l.live + 1 := by
  have hnot : i ∉ l.holders := by simpa [holders] using hi
  rw [holders_update, if_pos rfl, Finset.erase_eq_of_notMem hnot, Finset.card_insert_of_notMem hnot, live]

theorem card_holders_update_idle (l : Limiter ι) {i : ι} (hi : l.phase i = .holding) :
    (Finset.univ.filter (fun j => Function.update l.phase i .idle j = .holding)).card + 1 = l.live := by
  have hmem : i ∈ l.holders := by simpa [holders] using hi
  rw [holders_update, if_neg (by decide), Finset.card_erase_add_one hmem, live]

theorem card_holders_update_checked (l : Limiter ι) {i : ι} (hi : l.phase i = .idle) :
    (Finset.univ.filter (fun j => Function.update l.phase i .checked j = .holding)).card = l.live := by
  have hnot : i ∉ l.holders := by simp [holders, hi]
  rw [holders_update, if_neg (by decide), Finset.erase_eq_of_notMem hnot, live]

theorem step_concurrent_eq_live {l : Limiter ι} (h : l.concurrent = l.live) (i : ι) (op : Op) :
    (l.step i op).concurrent = (l.step i op).live := by
  cases op with
  | load =>
    rw [step_load]
    split_ifs with hload
    · exact h.trans (card_holders_update_checked l hload.1).symm
    · exact h
  | fetchAdd =>
    rw [step_fetchAdd]
    split_ifs with hi
    · show l.concurrent + 1 = _
      rw [live, holders, card_holders_update_holding l (by rw [hi]; decide), h]
    · exact h
  | drop =>
    rw [step_drop]
    split_ifs with hi
    · show l.concurrent - 1 = (Finset.univ.filter (fun j => Function.update l.phase i .idle j = .holding)).card
      have hcard := card_holders_update_idle l hi
      omega
    · exact h

theorem concurrent_eq_live (maxConcurrent : ℕ) (steps : List (ι × Op)) :
    ((new maxConcurrent : Limiter ι).run steps).concurrent = ((new maxConcurrent : Limiter ι).run steps).live := by
  suffices hrun : ∀ (l : Limiter ι), l.concurrent = l.live → (l.run steps).concurrent = (l.run steps).live by
    refine hrun _ ?_
    simp [new, live, holders]
  induction steps with
  | nil => exact fun l h => h
  | cons s steps ih => exact fun l h => ih _ (step_concurrent_eq_live h s.1 s.2)

end Limiter

open Limiter

/-- When each of `n` threads loads the counter before any increments it, each of them gets a
guard: with any bound above zero, `n` guards are live at once. -/
theorem live_loadsThenAdds (maxConcurrent n : ℕ) (hmax : 0 < maxConcurrent) :
    ((Limiter.new maxConcurrent : Limiter (Fin n)).run (loads (List.finRange n) ++ adds (List.finRange n))).live = n ∧
      ((Limiter.new maxConcurrent : Limiter (Fin n)).run
        (loads (List.finRange n) ++ adds (List.finRange n))).concurrent = n := by
  have hloads := run_loads (Limiter.new maxConcurrent : Limiter (Fin n)) hmax (List.finRange n)
    (List.nodup_finRange n) (fun _ _ => rfl)
  have hadds := run_adds ((Limiter.new maxConcurrent : Limiter (Fin n)).run (loads (List.finRange n)))
    (List.finRange n) (List.nodup_finRange n) (by rw [hloads]; simp)
  have hl : (Limiter.new maxConcurrent : Limiter (Fin n)).run (loads (List.finRange n) ++ adds (List.finRange n)) =
      ⟨maxConcurrent, n, fun _ => .holding⟩ := by
    rw [run_append, hadds, hloads]
    simp [Limiter.new]
  rw [hl]
  simp [live, holders]

theorem live_loadsThenAdds_two : (0 : ℕ) < 1 ∧
    ((Limiter.new 1 : Limiter (Fin 2)).run (loads (List.finRange 2) ++ adds (List.finRange 2))).live = 2 :=
  ⟨Nat.one_pos, (live_loadsThenAdds 1 2 Nat.one_pos).1⟩

end EsmpServer.Common
