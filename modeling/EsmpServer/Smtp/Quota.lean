import EsmpServer.Smtp.Queue
import EsmpServer.Lib.Fallible

/-!
# Queue quotas

`has_quota` admits a message when every configured sender, recipient-domain and
recipient quota that applies to it has room, and records one `QuotaKey` per
limit it checked: id 0 for sender quotas, `(d + 1) << 32` for domain `d` and
`r + 1` for recipient `r`. `Message::queue` adds the recorded amounts to the
counters, each `save_changes` takes back those of the finished domains and
recipients (`release_quota`), and `remove` takes back the rest.

`release_quota` splits the keys by one predicate into those it frees and those it
keeps, so at every point the counters exceed their values before the message was
queued by exactly what the keys still listed add, and `remove` brings them back.
-/

namespace EsmpServer.Smtp

/-! ## Admission -/

/-- What a quota is evaluated for: the sender, a recipient domain or a recipient. -/
inductive QuotaTarget where
  | sender
  | domain (domainIdx : ℕ)
  | recipient (domainIdx rcptIdx : ℕ)
  deriving DecidableEq, Repr

/-- A configured queue quota: whether its expression holds for a target (false
when the expression is empty), the counter key it derives, and its limits. -/
structure QueueQuota where
  applies : QuotaTarget → Bool
  key : QuotaTarget → List UInt8
  size : Option ℕ
  messages : Option ℕ

/-- The sender, recipient-domain and recipient quotas of the configuration. -/
structure QueueQuotas where
  sender : List QueueQuota
  rcptDomain : List QueueQuota
  rcpt : List QueueQuota

/-- `get_counter(..).unwrap_or(0) as u64`. -/
def asU64 (value : ℤ) : ℕ := (value % 2 ^ 64).toNat

/-- `check_quota`: `none` when a limit is exceeded, otherwise the keys recorded
so far with one key for each limit of an applying quota. -/
def checkQuota (counters : QuotaCounter → ℤ) (quota : QueueQuota) (target : QuotaTarget)
    (size id : ℕ) (refs : List QuotaKey) : Option (List QuotaKey) :=
  if quota.applies target then
    let key := quota.key target
    let refs? : Option (List QuotaKey) :=
      match quota.size with
      | some maxSize =>
        if asU64 (counters (.size key)) + size > maxSize then none else some (refs ++ [.size key id])
      | none => some refs
    refs?.bind fun refs =>
      match quota.messages with
      | some maxMessages =>
        if asU64 (counters (.count key)) + 1 > maxMessages then none
        else some (refs ++ [.count key id])
      | none => some refs
  else some refs

/-- `has_quota`: the message with the keys it was admitted with, or `none`. -/
def hasQuota (counters : QuotaCounter → ℤ) (quotas : QueueQuotas) (m : Message) :
    Option Message := do
  let keys ← quotas.sender.foldlM (fun refs quota =>
    checkQuota counters quota .sender m.size 0 refs) []
  let keys ← quotas.rcptDomain.foldlM (fun refs quota =>
    (List.range m.domains.length).foldlM (fun refs domainIdx =>
      checkQuota counters quota (.domain domainIdx) m.size ((domainIdx + 1) <<< 32) refs) refs) keys
  let keys ← quotas.rcpt.foldlM (fun refs quota =>
    m.recipients.zipIdx.foldlM (fun refs (rcpt, rcptIdx) =>
      checkQuota counters quota (.recipient rcpt.domainIdx rcptIdx) m.size (rcptIdx + 1) refs)
      refs) keys
  pure { m with quotaKeys := keys }

/-- The ids `has_quota` gives its keys. -/
def Message.QuotaIdOk (m : Message) (id : ℕ) : Prop :=
  id = 0 ∨ (∃ d < m.domains.length, id = (d + 1) <<< 32) ∨ ∃ r < m.recipients.length, id = r + 1

theorem checkQuota_keys {counters : QuotaCounter → ℤ} {quota : QueueQuota} {target : QuotaTarget}
    {size id : ℕ} {refs refs' : List QuotaKey}
    (h : checkQuota counters quota target size id refs = some refs') :
    ∀ k ∈ refs', k ∈ refs ∨ k.id = id := by
  unfold checkQuota at h
  split at h
  · obtain ⟨refs₁, h₁, h₂⟩ := Option.bind_eq_some_iff.mp h
    have hstep : ∀ {r r' : List QuotaKey} {k : QuotaKey},
        (r' = r ∨ ∃ k', r' = r ++ [k'] ∧ k'.id = id) → k ∈ r' → k ∈ r ∨ k.id = id := by
      rintro r r' k (rfl | ⟨k', rfl, hk'⟩) hk
      · exact .inl hk
      · rcases List.mem_append.mp hk with hk | hk
        · exact .inl hk
        · exact .inr (by simp_all)
    have h₁' : refs₁ = refs ∨ ∃ k', refs₁ = refs ++ [k'] ∧ k'.id = id := by
      split at h₁
      · split at h₁
        · simp at h₁
        · simp only [Option.some.injEq] at h₁
          exact .inr ⟨_, h₁.symm, rfl⟩
      · simp only [Option.some.injEq] at h₁
        exact .inl h₁.symm
    have h₂' : refs' = refs₁ ∨ ∃ k', refs' = refs₁ ++ [k'] ∧ k'.id = id := by
      split at h₂
      · split at h₂
        · simp at h₂
        · simp only [Option.some.injEq] at h₂
          exact .inr ⟨_, h₂.symm, rfl⟩
      · simp only [Option.some.injEq] at h₂
        exact .inl h₂.symm
    intro k hk
    rcases hstep h₂' hk with hk | hk
    · exact hstep h₁' hk
    · exact .inr hk
  · simp only [Option.some.injEq] at h
    subst h
    exact fun k hk => .inl hk

theorem hasQuota_quotaIds {counters : QuotaCounter → ℤ} {quotas : QueueQuotas} {m m' : Message}
    (h : hasQuota counters quotas m = some m') : ∀ k ∈ m'.quotaKeys, m.QuotaIdOk k.id := by
  let P : List QuotaKey → Prop := fun refs => ∀ k ∈ refs, m.QuotaIdOk k.id
  have hcheck : ∀ {quota target id refs refs'}, m.QuotaIdOk id → P refs →
      checkQuota counters quota target m.size id refs = some refs' → P refs' := by
    intro quota target id refs refs' hid hrefs hc k hk
    rcases checkQuota_keys hc k hk with hk | hk
    · exact hrefs k hk
    · exact hk ▸ hid
  simp only [hasQuota, Option.bind_eq_bind, Option.pure_def] at h
  obtain ⟨k₁, h₁, h⟩ := Option.bind_eq_some_iff.mp h
  obtain ⟨k₂, h₂, h⟩ := Option.bind_eq_some_iff.mp h
  obtain ⟨k₃, h₃, h⟩ := Option.bind_eq_some_iff.mp h
  simp only [Option.some.injEq] at h
  subst h
  have hP₁ : P k₁ := List.foldlM_option_invariant P _ _ [] k₁ (by simp [P])
    (fun _ _ _ _ hc hq => hcheck (.inl rfl) hc hq) h₁
  have hP₂ : P k₂ := List.foldlM_option_invariant P _ _ k₁ k₂ hP₁
    (fun c _ c' _ hc hq => List.foldlM_option_invariant P _ _ c c' hc
      (fun _ d _ hd hc' hq' =>
        hcheck (.inr (.inl ⟨d, List.mem_range.mp hd, rfl⟩)) hc' hq') hq) h₂
  exact List.foldlM_option_invariant P _ _ k₂ k₃ hP₂
    (fun c _ c' _ hc hq => List.foldlM_option_invariant P _ _ c c' hc
      (fun _ r _ hr hc' hq' =>
        hcheck (.inr (.inr ⟨r.2, by simpa using (List.mem_zipIdx hr).2.1, rfl⟩)) hc' hq') hq) h₃

/-! ## Release -/

namespace Message

theorem mem_quotaIds (m : Message) (id : ℕ) :
    id ∈ m.quotaIds ↔
      (∃ d pos, (d, pos) ∈ m.domains.zipIdx ∧ d.status.isDone = true ∧ (pos + 1) <<< 32 = id) ∨
        ∃ r pos, (r, pos) ∈ m.recipients.zipIdx ∧ r.status.isDone = true ∧ pos + 1 = id := by
  simp only [quotaIds, List.mem_append, List.mem_filterMap, Prod.exists,
    Option.ite_none_right_eq_some, Option.some.injEq]

end Message

end EsmpServer.Smtp
