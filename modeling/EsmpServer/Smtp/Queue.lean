import Mathlib

/-!
# The outbound queue and its event index

A queued message is stored under `QueueClass::Message(queue_id)`; when it is due
next is recorded separately as a `QueueClass::MessageEvent { due, queue_id }`
key, which the queue manager scans. Every mutation of a message moves its event
with one `clear(prev_event)` / `set(next_event)` pair (`Message::save_changes`)
or clears it (`Message::remove`), so the index stays right only if each caller
passes, as `prev_event`, the due the event was stored under.

The management handlers compute `prev_event` as `Message::next_event()` of the
message they read, and store the new event at `next_event()` of the message they
write. The store is consistent when every queued message has exactly one event,
at its `next_event()`, and every event belongs to a queued message; each step
below keeps that, except the DELETE handler with a recipient filter, which
passes the two events to `save_changes` in the opposite order. A delivery that is
not yet due, or that a sender throttle refuses, saves the message under a time of
its own (`deferral`); that keeps the index when the time is the message's
`next_event()`.
-/

namespace EsmpServer.Smtp

/-- `Status`, without the host responses it carries. -/
inductive Status where
  | scheduled
  | completed
  | temporaryFailure
  | permanentFailure
  deriving DecidableEq, Repr

/-- `matches!(status, Status::Scheduled | Status::TemporaryFailure(_))`. -/
def Status.isPending : Status → Bool
  | .scheduled | .temporaryFailure => true
  | _ => false

/-- `matches!(status, Status::PermanentFailure(_) | Status::Completed(_))`. -/
def Status.isDone : Status → Bool
  | .completed | .permanentFailure => true
  | _ => false

/-- A recipient domain with its retry and notification schedules. -/
structure Domain where
  domain : String
  retryDue : ℕ
  notifyDue : ℕ
  expires : ℕ
  status : Status
  deriving DecidableEq, Repr

structure Recipient where
  domainIdx : ℕ
  addressLcase : String
  status : Status
  deriving DecidableEq, Repr

/-- A quota a message holds: the counter key, and the id of the domain
(`(d + 1) << 32`) or recipient (`r + 1`) it was taken for, or 0 for the sender. -/
inductive QuotaKey where
  | size (key : List UInt8) (id : ℕ)
  | count (key : List UInt8) (id : ℕ)
  deriving DecidableEq, Repr

/-- The queue counters: `QueueClass::QuotaSize` and `QueueClass::QuotaCount`. -/
inductive QuotaCounter where
  | size (key : List UInt8)
  | count (key : List UInt8)
  deriving DecidableEq, Repr

namespace QuotaKey

def id : QuotaKey → ℕ
  | .size _ id | .count _ id => id

def counter : QuotaKey → QuotaCounter
  | .size key _ => .size key
  | .count key _ => .count key

/-- What the key adds to its counter for a message of `size` bytes. -/
def amount (size : ℕ) : QuotaKey → ℤ
  | .size _ _ => size
  | .count _ _ => 1

end QuotaKey

/-- The fields of a queued message that the event index and the quotas depend on. -/
structure Message where
  queueId : ℕ
  size : ℕ
  domains : List Domain
  recipients : List Recipient
  quotaKeys : List QuotaKey
  deriving DecidableEq, Repr

/-- `str::contains` with a string pattern. -/
def strContains (haystack needle : String) : Bool := decide (needle.toList <:+: haystack.toList)

namespace Message

/-- One domain of the loop of `Message::next_event`: the earliest retry,
notification or expiry among the pending domains. -/
def nextEventStep (acc : ℕ × Bool) (domain : Domain) : ℕ × Bool :=
  if domain.status.isPending then
    let acc := if !acc.2 || domain.retryDue < acc.1 then (domain.retryDue, true) else acc
    let next := if domain.notifyDue < acc.1 then domain.notifyDue else acc.1
    (if domain.expires < next then domain.expires else next, acc.2)
  else acc

/-- `Message::next_event`. Its starting value `now()` is replaced by the first
pending domain and returned by no path, so it is left out. -/
def nextEvent (m : Message) : Option ℕ :=
  let (next, hasEvents) := m.domains.foldl nextEventStep (0, false)
  if hasEvents then some next else none

/-- `next_event().unwrap_or_default()`, the due every handler passes. -/
def eventDue (m : Message) : ℕ := m.nextEvent.getD 0

/-- The ids whose quotas `release_quota` frees: the finished domains and
recipients. -/
def quotaIds (m : Message) : List ℕ :=
  (m.domains.zipIdx.filterMap fun (d, pos) =>
      if d.status.isDone then some ((pos + 1) <<< 32) else none) ++
    m.recipients.zipIdx.filterMap fun (r, pos) =>
      if r.status.isDone then some (pos + 1) else none

/-- The counter additions that free a list of quota keys. -/
def releaseDeltas (size : ℕ) (keys : List QuotaKey) : List (QuotaCounter × ℤ) :=
  keys.map fun k => (k.counter, -k.amount size)

/-- `Message::release_quota`: free the quotas of the finished domains and
recipients, keeping the others. -/
def releaseQuota (m : Message) : Message × List (QuotaCounter × ℤ) :=
  if m.quotaKeys = [] then (m, [])
  else
    let ids := m.quotaIds
    if ids = [] then (m, [])
    else
      ({ m with quotaKeys := m.quotaKeys.filter fun k => k.id ∉ ids },
        releaseDeltas m.size (m.quotaKeys.filter fun k => k.id ∈ ids))

theorem releaseQuota_fst (m : Message) :
    m.releaseQuota.1 = { m with quotaKeys := m.releaseQuota.1.quotaKeys } := by
  unfold releaseQuota
  dsimp only
  split_ifs <;> rfl

@[simp] theorem releaseQuota_queueId (m : Message) : m.releaseQuota.1.queueId = m.queueId := by
  rw [releaseQuota_fst]

@[simp] theorem releaseQuota_domains (m : Message) : m.releaseQuota.1.domains = m.domains := by
  rw [releaseQuota_fst]

@[simp] theorem releaseQuota_size (m : Message) : m.releaseQuota.1.size = m.size := by
  rw [releaseQuota_fst]

@[simp] theorem eventDue_releaseQuota (m : Message) : m.releaseQuota.1.eventDue = m.eventDue := by
  simp [eventDue, nextEvent]

end Message

/-- `Message::next_delivery_event`: the earliest retry of the pending domains, `now` when
there is none. -/
def Message.nextDeliveryEvent (now : ℕ) (m : Message) : ℕ :=
  (m.domains.filter (·.status.isPending)).zipIdx.foldl
    (fun next (domain, pos) => if pos = 0 ∨ domain.retryDue < next then domain.retryDue else next)
    now

/-- `Message::next_event_after`: the earliest retry, notification or expiry of the pending
domains that is later than `instant`. -/
def Message.nextEventAfter (instant : ℕ) (m : Message) : Option ℕ :=
  let pick (next : Option ℕ) (t : ℕ) : Option ℕ :=
    if instant < t ∧ next.all (fun ne => t < ne) then some t else next
  m.domains.foldl (fun next domain =>
    if domain.status.isPending then pick (pick (pick next domain.retryDue) domain.notifyDue) domain.expires
    else next) none

/-- Add a batch of counter deltas. -/
def addDeltas (deltas : List (QuotaCounter × ℤ)) (counters : QuotaCounter → ℤ) :
    QuotaCounter → ℤ :=
  fun c => counters c + (deltas.map fun d => if d.1 = c then d.2 else 0).sum

/-- The queue: the messages by queue id, the `MessageEvent` keys and the quota
counters. -/
structure QueueStore where
  messages : ℕ → Option Message
  events : Finset (ℕ × ℕ)
  counters : QuotaCounter → ℤ

namespace QueueStore

/-- `Message::save_changes`: free the finished quotas, move the event, then
write the message with the quotas it still holds. -/
def saveChanges (m : Message) (prevEvent nextEvent : Option ℕ) (s : QueueStore) : QueueStore where
  events :=
    match prevEvent, nextEvent with
    | some prev, some next => insert (next, m.queueId) (s.events.erase (prev, m.queueId))
    | _, _ => s.events
  messages := Function.update s.messages m.queueId (some m.releaseQuota.1)
  counters := addDeltas m.releaseQuota.2 s.counters

/-- `Message::remove`: free every quota still held, clear the event and the
message. -/
def remove (m : Message) (prevEvent : ℕ) (s : QueueStore) : QueueStore where
  events := s.events.erase (prevEvent, m.queueId)
  messages := Function.update s.messages m.queueId none
  counters := addDeltas (Message.releaseDeltas m.size m.quotaKeys) s.counters

/-- The counter additions that reserve a message's quotas. -/
def reserveDeltas (m : Message) : List (QuotaCounter × ℤ) :=
  m.quotaKeys.map fun k => (k.counter, k.amount m.size)

/-- `Message::queue`: reserve the quotas, write the message and its first event. -/
def queue (m : Message) (s : QueueStore) : QueueStore where
  events := insert (m.eventDue, m.queueId) s.events
  messages := Function.update s.messages m.queueId (some m)
  counters := addDeltas (reserveDeltas m) s.counters

/-- The retry-now edit of one pending domain. -/
def retryAt (time : ℕ) (d : Domain) : Domain :=
  { d with retryDue := time, expires := if d.expires > time then time + 10 else d.expires }

/-- The PATCH handlers on one message: retry now the pending domains whose name
contains `item` (all of them without a filter). `none` is `NotFound`. -/
def patchMessage (time : ℕ) (item : Option String) (queueId : ℕ) (s : QueueStore) :
    Option (QueueStore × Bool) :=
  (s.messages queueId).map fun m =>
    let selected := fun d : Domain => d.status.isPending && item.all (strContains d.domain)
    let found := m.domains.any selected
    let m' := { m with domains := m.domains.map fun d => if selected d then retryAt time d else d }
    if found then (s.saveChanges m' (some m.eventDue) (some m'.eventDue), true) else (s, false)

/-- `PATCH /queue/messages`: the same edit on each listed message that exists. -/
def patchMessages (time : ℕ) (ids : List ℕ) (s : QueueStore) : QueueStore :=
  ids.foldl (fun s queueId => ((patchMessage time none queueId s).map (·.1)).getD s) s

/-- The domains of a message after some recipients were cancelled: a pending
domain whose recipients are all done is completed. -/
def completeDomains (recipients : List Recipient) (domains : List Domain) : List Domain :=
  domains.zipIdx.map fun (d, domainIdx) =>
    if d.status.isPending &&
        (recipients.filter (·.domainIdx = domainIdx)).all (·.status.isDone) then
      { d with status := .completed }
    else d

/-- `DELETE /queue/messages/{id}`: remove the message, or with a filter cancel
the matching recipients and keep the message while a domain is pending. The
save passes the new event as `prev_event` and the old one as `next_event`. -/
def deleteMessage (item : Option String) (queueId : ℕ) (s : QueueStore) :
    Option (QueueStore × Bool) :=
  (s.messages queueId).map fun m =>
    let prevEvent := m.eventDue
    match item with
    | none => (s.remove m prevEvent, true)
    | some item =>
      let cancel := fun r : Recipient => strContains r.addressLcase item
      if m.recipients.any cancel then
        let recipients :=
          m.recipients.map fun r => if cancel r then { r with status := .permanentFailure } else r
        let m' := { m with recipients := recipients,
                           domains := completeDomains recipients m.domains }
        if m'.domains.any (·.status.isPending) then
          (s.saveChanges m' (some m'.eventDue) (some prevEvent), true)
        else (s.remove m' prevEvent, true)
      else (s, false)

/-- `DELETE /queue/messages`: remove each listed message that exists. -/
def deleteMessages (ids : List ℕ) (s : QueueStore) : QueueStore :=
  ids.foldl (fun s queueId => ((s.messages queueId).map fun m => s.remove m m.eventDue).getD s) s

/-- The time `deliver_task` defers a message to before it delivers anything: its next
delivery when that is still ahead, else, when a sender throttle answers `retry_at`, the
earlier of `retry_at` and the next event after `now`. -/
def deferral (now : ℕ) (throttled : Option ℕ) (checked : Message) : Option ℕ :=
  if now < checked.nextDeliveryEvent now then some (checked.nextDeliveryEvent now)
  else throttled.map fun retryAt => min retryAt ((checked.nextEventAfter now).getD (2 ^ 64 - 1))

/-- `deliver_task` for the event `(due, queue_id)`. `checked` is the message as
`has_pending_delivery` and `send_dsn` left it, `throttled` the `retry_at` of the first sender
throttle that refuses it, and `attempted` the message as the delivery attempt left it. A
message with nothing pending is removed; a deferred one is saved under its deferral; a
delivered one is rescheduled at its next event or removed. When the message no longer exists
the event alone is cleared. -/
def deliver (now due queueId : ℕ) (throttled : Option ℕ) (checked attempted : Message)
    (s : QueueStore) : QueueStore :=
  match s.messages queueId with
  | none => { s with events := s.events.erase (due, queueId) }
  | some _ =>
    if checked.domains.any (·.status.isPending) then
      match deferral now throttled checked with
      | some next => s.saveChanges checked (some due) (some next)
      | none =>
        match attempted.nextEvent with
        | some next => s.saveChanges attempted (some due) (some next)
        | none => s.remove attempted due
    else s.remove checked due

/-- The events the store holds for one queue id. -/
def eventsOf (s : QueueStore) (queueId : ℕ) : Finset (ℕ × ℕ) := s.events.filter (·.2 = queueId)

/-- The index is consistent: each queued message has exactly one event, at its
`next_event()`, and each event belongs to a queued message. -/
structure Consistent (s : QueueStore) : Prop where
  queueId_eq : ∀ id m, s.messages id = some m → m.queueId = id
  events_eq : ∀ id m, s.messages id = some m → s.eventsOf id = {(m.eventDue, id)}
  no_orphan : ∀ e ∈ s.events, s.messages e.2 ≠ none

/-! ### What each write does to the index -/

theorem eventsOf_saveChanges (s : QueueStore) (m : Message) (prev next id : ℕ) :
    (s.saveChanges m (some prev) (some next)).eventsOf id =
      if id = m.queueId then insert (next, m.queueId) ((s.eventsOf id).erase (prev, m.queueId))
      else s.eventsOf id := by
  by_cases h : id = m.queueId
  · subst h
    simp [eventsOf, saveChanges, Finset.filter_insert, Finset.filter_erase]
  · simp [eventsOf, saveChanges, Finset.filter_insert, Finset.filter_erase, h, Ne.symm h]

theorem eventsOf_remove (s : QueueStore) (m : Message) (prev id : ℕ) :
    (s.remove m prev).eventsOf id = (s.eventsOf id).erase (prev, m.queueId) := by
  simp [eventsOf, remove, Finset.filter_erase]

theorem eventsOf_queue (s : QueueStore) (m : Message) (id : ℕ) :
    (s.queue m).eventsOf id =
      if id = m.queueId then insert (m.eventDue, m.queueId) (s.eventsOf id) else s.eventsOf id := by
  by_cases h : id = m.queueId
  · subst h
    simp [eventsOf, queue, Finset.filter_insert]
  · simp [eventsOf, queue, Finset.filter_insert, Ne.symm h, h]

@[simp] theorem saveChanges_messages_self (s : QueueStore) (m : Message) (prev next : Option ℕ) :
    (s.saveChanges m prev next).messages m.queueId = some m.releaseQuota.1 := by
  simp [saveChanges]

theorem mem_eventsOf {s : QueueStore} {e : ℕ × ℕ} {id : ℕ} :
    e ∈ s.eventsOf id ↔ e ∈ s.events ∧ e.2 = id := by
  simp [eventsOf]

/-! ### The index stays consistent -/

section Consistent

variable {s : QueueStore}

theorem Consistent.due_eq (hs : s.Consistent) {due id : ℕ} {m : Message}
    (hm : s.messages id = some m) (he : (due, id) ∈ s.events) : due = m.eventDue := by
  have hmem : (due, id) ∈ s.eventsOf id := mem_eventsOf.mpr ⟨he, rfl⟩
  rw [hs.events_eq id m hm] at hmem
  simpa using hmem

theorem Consistent.saveChanges (hs : s.Consistent) {m₀ m : Message}
    (hm₀ : s.messages m.queueId = some m₀) :
    (s.saveChanges m (some m₀.eventDue) (some m.eventDue)).Consistent where
  queueId_eq id m' h := by
    by_cases hid : id = m.queueId
    · subst hid
      simp [QueueStore.saveChanges] at h
      simp [← h]
    · exact hs.queueId_eq id m' (by simpa [QueueStore.saveChanges, hid] using h)
  events_eq id m' h := by
    rw [eventsOf_saveChanges]
    by_cases hid : id = m.queueId
    · subst hid
      simp only [QueueStore.saveChanges, Function.update_self, Option.some.injEq] at h
      subst h
      rw [if_pos rfl, hs.events_eq _ m₀ hm₀]
      simp
    · rw [if_neg hid]
      exact hs.events_eq id m' (by simpa [QueueStore.saveChanges, hid] using h)
  no_orphan e he := by
    simp only [QueueStore.saveChanges, Finset.mem_insert, Finset.mem_erase] at he
    rcases he with rfl | ⟨-, he⟩
    · simp [QueueStore.saveChanges]
    · by_cases hid : e.2 = m.queueId
      · simp [QueueStore.saveChanges, hid]
      · simpa [QueueStore.saveChanges, hid] using hs.no_orphan e he

theorem Consistent.saveChanges_swap (hs : s.Consistent) {m₀ m : Message}
    (hm₀ : s.messages m.queueId = some m₀) (hsame : m.eventDue = m₀.eventDue) :
    (s.saveChanges m (some m.eventDue) (some m₀.eventDue)).Consistent := by
  have hsave := hs.saveChanges hm₀
  rw [hsame] at hsave ⊢
  exact hsave

theorem Consistent.remove (hs : s.Consistent) {m₀ m : Message}
    (hm₀ : s.messages m.queueId = some m₀) : (s.remove m m₀.eventDue).Consistent where
  queueId_eq id m' h := by
    by_cases hid : id = m.queueId
    · subst hid
      simp [QueueStore.remove] at h
    · exact hs.queueId_eq id m' (by simpa [QueueStore.remove, hid] using h)
  events_eq id m' h := by
    by_cases hid : id = m.queueId
    · subst hid
      simp [QueueStore.remove] at h
    · have h' : s.messages id = some m' := by simpa [QueueStore.remove, hid] using h
      rw [eventsOf_remove, hs.events_eq id m' h']
      simp [Ne.symm hid]
  no_orphan e he := by
    simp only [QueueStore.remove, Finset.mem_erase] at he
    obtain ⟨hne, he⟩ := he
    by_cases hid : e.2 = m.queueId
    · have hmem : e ∈ s.eventsOf m.queueId := mem_eventsOf.mpr ⟨he, hid⟩
      rw [hs.events_eq _ m₀ hm₀, Finset.mem_singleton] at hmem
      exact absurd hmem hne
    · simpa [QueueStore.remove, hid] using hs.no_orphan e he

theorem Consistent.queue (hs : s.Consistent) {m : Message} (hfresh : s.messages m.queueId = none) :
    (s.queue m).Consistent where
  queueId_eq id m' h := by
    by_cases hid : id = m.queueId
    · subst hid
      simp [QueueStore.queue] at h
      rw [← h]
    · exact hs.queueId_eq id m' (by simpa [QueueStore.queue, hid] using h)
  events_eq id m' h := by
    rw [eventsOf_queue]
    by_cases hid : id = m.queueId
    · subst hid
      simp only [QueueStore.queue, Function.update_self, Option.some.injEq] at h
      subst h
      have hnone : s.eventsOf m.queueId = ∅ := by
        refine Finset.eq_empty_of_forall_notMem fun e he => ?_
        obtain ⟨he, hid⟩ := mem_eventsOf.mp he
        exact hs.no_orphan e he (hid ▸ hfresh)
      rw [if_pos rfl, hnone]
      rfl
    · rw [if_neg hid]
      exact hs.events_eq id m' (by simpa [QueueStore.queue, hid] using h)
  no_orphan e he := by
    simp only [QueueStore.queue, Finset.mem_insert] at he
    rcases he with rfl | he
    · simp [QueueStore.queue]
    · by_cases hid : e.2 = m.queueId
      · simp [QueueStore.queue, hid]
      · simpa [QueueStore.queue, hid] using hs.no_orphan e he

theorem Consistent.due_unique (hs : s.Consistent) {d₁ d₂ id : ℕ} (h₁ : (d₁, id) ∈ s.events)
    (h₂ : (d₂, id) ∈ s.events) : d₁ = d₂ := by
  obtain ⟨m, hm⟩ := Option.ne_none_iff_exists'.mp (hs.no_orphan _ h₁)
  rw [hs.due_eq hm h₁, hs.due_eq hm h₂]

end Consistent

theorem not_consistent_of_eventsOf {s : QueueStore} (id d₁ d₂ : ℕ)
    (h : s.eventsOf id = {(d₁, id), (d₂, id)}) (hne : d₁ ≠ d₂) : ¬ s.Consistent := by
  intro hs
  have h₁ : (d₁, id) ∈ s.eventsOf id := by simp [h]
  have h₂ : (d₂, id) ∈ s.eventsOf id := by simp [h]
  exact hne (hs.due_unique (mem_eventsOf.mp h₁).1 (mem_eventsOf.mp h₂).1)

section Consistent

variable {s : QueueStore}

/-! ### The handlers -/

theorem Consistent.patchMessage (hs : s.Consistent) {time : ℕ} {item : Option String}
    {queueId : ℕ} {s' : QueueStore} {found : Bool}
    (h : s.patchMessage time item queueId = some (s', found)) : s'.Consistent := by
  obtain ⟨m, hm, heq⟩ := Option.map_eq_some_iff.mp h
  have hq : m.queueId = queueId := hs.queueId_eq _ _ hm
  dsimp only at heq
  split at heq
  · obtain ⟨rfl, -⟩ := Prod.mk.inj heq
    exact hs.saveChanges (by simpa [hq] using hm)
  · obtain ⟨rfl, -⟩ := Prod.mk.inj heq
    exact hs

theorem Consistent.patchMessages (hs : s.Consistent) (time : ℕ) (ids : List ℕ) :
    (s.patchMessages time ids).Consistent := by
  induction ids generalizing s with
  | nil => exact hs
  | cons id ids ih =>
    apply ih
    cases h : s.patchMessage time none id with
    | none => simpa [h] using hs
    | some r =>
      obtain ⟨s', found⟩ := r
      simpa [h] using hs.patchMessage h

theorem Consistent.deleteMessage (hs : s.Consistent) {item : Option String} {queueId : ℕ}
    {s' : QueueStore} {found : Bool} (h : s.deleteMessage item queueId = some (s', found))
    (hdue : ∀ m m', s.messages queueId = some m → s'.messages queueId = some m' →
      m'.eventDue = m.eventDue) : s'.Consistent := by
  obtain ⟨m, hm, heq⟩ := Option.map_eq_some_iff.mp h
  obtain rfl : m.queueId = queueId := hs.queueId_eq _ _ hm
  dsimp only at heq
  cases item with
  | none =>
    obtain ⟨rfl, -⟩ := Prod.mk.inj heq
    exact hs.remove hm
  | some item =>
    dsimp only at heq
    split at heq
    · split at heq
      · obtain ⟨rfl, -⟩ := Prod.mk.inj heq
        exact hs.saveChanges_swap hm
          (by simpa using hdue m _ hm (saveChanges_messages_self _ _ _ _))
      · obtain ⟨rfl, -⟩ := Prod.mk.inj heq
        exact hs.remove hm
    · obtain ⟨rfl, -⟩ := Prod.mk.inj heq
      exact hs

theorem Consistent.deleteMessages (hs : s.Consistent) (ids : List ℕ) :
    (s.deleteMessages ids).Consistent := by
  induction ids generalizing s with
  | nil => exact hs
  | cons id ids ih =>
    apply ih
    cases hm : s.messages id with
    | none => simpa [hm] using hs
    | some m =>
      have hm' : s.messages m.queueId = some m := by rw [hs.queueId_eq _ _ hm]; exact hm
      simpa [hm] using hs.remove hm'

theorem Consistent.deliver (hs : s.Consistent) {now due queueId : ℕ} {throttled : Option ℕ}
    {checked attempted : Message} (he : (due, queueId) ∈ s.events)
    (hc : checked.queueId = queueId) (hq : attempted.queueId = queueId)
    (hdefer : ∀ next, deferral now throttled checked = some next → next = checked.eventDue) :
    (s.deliver now due queueId throttled checked attempted).Consistent := by
  cases hm : s.messages queueId with
  | none => exact absurd hm (hs.no_orphan _ he)
  | some m₀ =>
    have hdue : due = m₀.eventDue := hs.due_eq hm he
    have hm₀ : s.messages attempted.queueId = some m₀ := by rw [hq]; exact hm
    have hc₀ : s.messages checked.queueId = some m₀ := by rw [hc]; exact hm
    simp only [QueueStore.deliver, hm]
    split
    · cases hd : deferral now throttled checked with
      | some next =>
        rw [hdue, hdefer next hd]
        exact hs.saveChanges hc₀
      | none =>
        cases hn : attempted.nextEvent with
        | none =>
          rw [hdue]
          exact hs.remove hm₀
        | some next =>
          have hnext : next = attempted.eventDue := by simp [Message.eventDue, hn]
          rw [hdue, hnext]
          exact hs.saveChanges hm₀
    · rw [hdue]
      exact hs.remove hc₀

end Consistent

end QueueStore

/-! ## Runs -/

/-- The empty queue. -/
def emptyQueue : QueueStore := ⟨fun _ => none, ∅, fun _ => 0⟩

/-- The operations on the queue: queueing a message, the management handlers, and
the end of a delivery of a pending event, with the message as the attempt left it. -/
inductive QueueOp where
  | queue (m : Message)
  | patchMessage (time : ℕ) (item : Option String) (queueId : ℕ)
  | patchMessages (time : ℕ) (ids : List ℕ)
  | deleteMessage (item : Option String) (queueId : ℕ)
  | deleteMessages (ids : List ℕ)
  | deliver (now due queueId : ℕ) (throttled : Option ℕ) (checked attempted : Message)

/-- One operation. A refused request, a queue id already in use and a delivery of
an event that is not pending change nothing. -/
def QueueOp.apply : QueueOp → QueueStore → QueueStore
  | .queue m, s => if s.messages m.queueId = none then s.queue m else s
  | .patchMessage time item queueId, s => ((s.patchMessage time item queueId).map (·.1)).getD s
  | .patchMessages time ids, s => s.patchMessages time ids
  | .deleteMessage item queueId, s => ((s.deleteMessage item queueId).map (·.1)).getD s
  | .deleteMessages ids, s => s.deleteMessages ids
  | .deliver now due queueId throttled checked attempted, s =>
    if (due, queueId) ∈ s.events ∧ checked.queueId = queueId ∧ attempted.queueId = queueId then
      s.deliver now due queueId throttled checked attempted
    else s

/-- A DELETE of the recipients that match a filter. -/
def QueueOp.isFilteredDelete : QueueOp → Bool
  | .deleteMessage (some _) _ => true
  | _ => false

/-- A delivery that defers the message only to its own `next_event()`. -/
def QueueOp.DefersToNextEvent : QueueOp → Prop
  | .deliver now _ _ throttled checked _ =>
    ∀ next, QueueStore.deferral now throttled checked = some next → next = checked.eventDue
  | _ => True

theorem QueueStore.Consistent.apply {s : QueueStore} (hs : s.Consistent) (op : QueueOp)
    (hop : op.isFilteredDelete = false) (hdefer : op.DefersToNextEvent) : (op.apply s).Consistent := by
  cases op with
  | queue m =>
    simp only [QueueOp.apply]
    split
    · exact hs.queue ‹_›
    · exact hs
  | patchMessage time item queueId =>
    cases h : s.patchMessage time item queueId with
    | none => simpa [QueueOp.apply, h] using hs
    | some r =>
      obtain ⟨s', found⟩ := r
      simpa [QueueOp.apply, h] using hs.patchMessage h
  | patchMessages time ids => exact hs.patchMessages time ids
  | deleteMessage item queueId =>
    cases item with
    | some _ => simp [QueueOp.isFilteredDelete] at hop
    | none =>
      cases h : s.deleteMessage none queueId with
      | none => simpa [QueueOp.apply, h] using hs
      | some r =>
        obtain ⟨s', found⟩ := r
        have hgone : s'.messages queueId = none := by
          obtain ⟨m, hm, heq⟩ := Option.map_eq_some_iff.mp h
          obtain ⟨rfl, -⟩ := Prod.mk.inj heq
          simp [QueueStore.remove, hs.queueId_eq _ _ hm]
        have hr : s'.Consistent :=
          hs.deleteMessage h fun _ _ _ h' => by simp [hgone] at h'
        simpa [QueueOp.apply, h] using hr
  | deleteMessages ids => exact hs.deleteMessages ids
  | deliver now due queueId throttled checked attempted =>
    simp only [QueueOp.apply]
    split
    · rename_i h
      exact hs.deliver h.1 h.2.1 h.2.2 hdefer
    · exact hs

theorem emptyQueue_consistent : emptyQueue.Consistent where
  queueId_eq _ _ h := by simp [emptyQueue] at h
  events_eq _ _ h := by simp [emptyQueue] at h
  no_orphan _ he := by simp [emptyQueue] at he

theorem QueueStore.Consistent.run {s : QueueStore} (hs : s.Consistent) (ops : List QueueOp)
    (hops : ∀ op ∈ ops, op.isFilteredDelete = false) (hdefers : ∀ op ∈ ops, op.DefersToNextEvent) :
    (ops.foldl (fun s op => op.apply s) s).Consistent := by
  induction ops generalizing s with
  | nil => exact hs
  | cons op ops ih =>
    exact ih (hs.apply op (hops op (by simp)) (hdefers op (by simp)))
      (fun op' h => hops op' (by simp [h])) fun op' h => hdefers op' (by simp [h])

/-! ## Cancelling the recipients of the earliest domain -/

/-- A message to two domains, `a.example` due at 100 and `b.example` due at 200. -/
def twoDomains : Message where
  queueId := 1
  size := 0
  quotaKeys := []
  domains := [⟨"a.example", 100, 1000, 2000, .scheduled⟩, ⟨"b.example", 200, 1000, 2000, .scheduled⟩]
  recipients := [⟨0, "a@a.example", .scheduled⟩, ⟨1, "b@b.example", .scheduled⟩]

/-- Queue the message, cancel its recipient at `a.example` (which completes that
domain, so the message is next due at 200), then retry it at 300: the event
stays at 100 after the cancellation, and after the retry the message has two
events. -/
theorem deleteMessage_reversed_events :
    ∃ s₁ s₂, (emptyQueue.queue twoDomains).deleteMessage (some "a@a") 1 = some (s₁, true) ∧
      s₁.events = {(100, 1)} ∧ ((s₁.messages 1).map Message.eventDue) = some 200 ∧
      s₁.patchMessage 300 none 1 = some (s₂, true) ∧ s₂.eventsOf 1 = {(100, 1), (300, 1)} ∧
      ¬ s₂.Consistent := by
  refine ⟨_, _, rfl, by decide, by decide, rfl, by decide, ?_⟩
  exact QueueStore.not_consistent_of_eventsOf 1 100 300 (by decide) (by decide)

end EsmpServer.Smtp
