import Mathlib

/-!
# The selected-mailbox state of an IMAP session

A session that has selected a mailbox keeps its messages twice: `id_to_imap`
maps each document id to its IMAP uid and sequence number, and `uid_to_id` maps
each uid back to the document id. `fetch_messages` builds the state from the
message cache, numbering the messages in uid order. `synchronize_messages`
fetches a fresh state, drops from the current one the messages that are gone,
and parks the fresh state with the list of deletions until
`write_mailbox_changes` announces the expunges and swaps it in.
`append_messages` extends the state in place after an APPEND to the selected
mailbox.

The hash maps are association lists with distinct keys (`AList`); their entry
order stands for the hash map's iteration order, which no result depends on.
-/

namespace EsmpServer.Imap

/-- The IMAP uid and sequence number of a message. -/
structure ImapId where
  uid : ℕ
  seqnum : ℕ
  deriving DecidableEq, Repr

/-- A message just appended: its uid and document id. -/
structure ImapUidToId where
  uid : ℕ
  id : ℕ
  deriving DecidableEq, Repr

/-- The uid a message has in one of its mailboxes. -/
structure MessageUidCache where
  mailboxId : ℕ
  uid : ℕ
  deriving DecidableEq, Repr

/-- The part of a cached message that the mailbox state reads. -/
structure MessageCache where
  documentId : ℕ
  mailboxes : List MessageUidCache
  deriving DecidableEq, Repr

/-- The message cache of an account. -/
structure MessagesCache where
  changeId : ℕ
  items : List MessageCache
  deriving DecidableEq, Repr

mutual

/-- `MailboxState`. -/
structure MailboxState where
  uidMax : ℕ
  idToImap : AList fun _ : ℕ => ImapId
  uidToId : AList fun _ : ℕ => ℕ
  totalMessages : ℕ
  modseq : ℕ
  nextState : Option NextMailboxState

/-- A fetched state waiting to be announced, with the messages removed since. -/
structure NextMailboxState where
  nextState : MailboxState
  deletions : List ImapId

end

/-! ## The operations -/

/-- The (uid, document id) pairs of a mailbox in uid order: the uid of each
message in the mailbox (`find_map` over its mailboxes), collected into a
`BTreeMap`, in which a later message replaces an earlier one with the same uid. -/
def uidMap (mailboxId : ℕ) (items : List MessageCache) : List (ℕ × ℕ) :=
  let pairs := items.filterMap fun item =>
    item.mailboxes.findSome? fun m =>
      if m.mailboxId = mailboxId then some (m.uid, item.documentId) else none
  let byUid : AList fun _ : ℕ => ℕ := pairs.foldl (fun m p => m.insert p.1 p.2) ∅
  (byUid.entries.map fun e => (e.1, e.2)).insertionSort fun a b => a.1 ≤ b.1

/-- The numbering loop of `fetch_messages`: the message at index `index` gets
sequence number `index + 1`. -/
def fetchLoop : ℕ → List (ℕ × ℕ) → ℕ → (AList fun _ : ℕ => ImapId) → (AList fun _ : ℕ => ℕ) →
    ℕ × (AList fun _ : ℕ => ImapId) × (AList fun _ : ℕ => ℕ)
  | _, [], uidMax, idToImap, uidToId => (uidMax, idToImap, uidToId)
  | index, (uid, messageId) :: rest, uidMax, idToImap, uidToId =>
    fetchLoop (index + 1) rest (if uid > uidMax then uid else uidMax)
      (idToImap.insert messageId ⟨uid, index + 1⟩) (uidToId.insert uid messageId)

/-- `SessionData::fetch_messages`: nothing when the cache has not changed since
`current_state`. -/
def fetchMessages (cache : MessagesCache) (mailboxId : ℕ) (currentState : Option ℕ) :
    Option MailboxState :=
  if currentState = some cache.changeId then none
  else
    let (uidMax, idToImap, uidToId) := fetchLoop 0 (uidMap mailboxId cache.items) 0 ∅ ∅
    some ⟨uidMax, idToImap, uidToId, idToImap.entries.length, cache.changeId, none⟩

/-- The loop of `synchronize_messages` over the current `id_to_imap`: keep the
messages whose uid is still in the fetched state, and record the others as
deletions, removing their uids. -/
def syncLoop (fresh : AList fun _ : ℕ => ℕ) :
    List (Σ _ : ℕ, ImapId) → List ImapId → (AList fun _ : ℕ => ℕ) →
      (AList fun _ : ℕ => ImapId) →
      List ImapId × (AList fun _ : ℕ => ℕ) × (AList fun _ : ℕ => ImapId)
  | [], deletions, uidToId, idToImap => (deletions, uidToId, idToImap)
  | ⟨id, imapId⟩ :: rest, deletions, uidToId, idToImap =>
    if imapId.uid ∈ fresh then syncLoop fresh rest deletions uidToId (idToImap.insert id imapId)
    else syncLoop fresh rest (deletions ++ [imapId]) (uidToId.erase imapId.uid) idToImap

/-- `SessionData::synchronize_messages`, with the modseq it returns. -/
def synchronizeMessages (cache : MessagesCache) (mailboxId : ℕ) (state : MailboxState) :
    MailboxState × ℕ :=
  match fetchMessages cache mailboxId (some state.modseq) with
  | none => (state, state.modseq)
  | some fresh =>
    let deletions := (state.nextState.map (·.deletions)).getD []
    let (deletions, uidToId, idToImap) :=
      syncLoop fresh.uidToId state.idToImap.entries deletions state.uidToId ∅
    ({ state with
        idToImap := idToImap
        uidToId := uidToId
        modseq := fresh.modseq
        nextState := some ⟨fresh, deletions⟩ }, fresh.modseq)

/-- What `write_mailbox_changes` sends: the sorted uids (QRESYNC) or sequence
numbers of the expunged messages, and the new message count. -/
structure MailboxChanges where
  expunged : Option (List ℕ)
  existsTotal : Option ℕ
  deriving DecidableEq, Repr

/-- `SessionData::write_mailbox_changes`: resynchronize, then announce and swap
in the parked state. -/
def writeMailboxChanges (cache : MessagesCache) (mailboxId : ℕ) (isQresync : Bool)
    (state : MailboxState) : MailboxState × MailboxChanges × ℕ :=
  let (state, modseq) := synchronizeMessages cache mailboxId state
  match state.nextState with
  | none => (state, ⟨none, none⟩, modseq)
  | some next =>
    let expunged :=
      if next.deletions = [] then none
      else some ((next.deletions.map fun id => if isQresync then id.uid else id.seqnum).insertionSort
        fun a b => a ≤ b)
    let existsTotal :=
      if expunged.isSome || 0 < next.nextState.uidMax - state.uidMax then
        some next.nextState.totalMessages
      else none
    (next.nextState, ⟨expunged, existsTotal⟩, modseq)

/-- The loop of `SelectedMailbox::append_messages`; the last component is the
local `uid_max`. -/
def appendLoop : List ImapUidToId → ℕ → (AList fun _ : ℕ => ℕ) →
    (AList fun _ : ℕ => ImapId) → ℕ →
    ℕ × (AList fun _ : ℕ => ℕ) × (AList fun _ : ℕ => ImapId) × ℕ
  | [], totalMessages, uidToId, idToImap, uidMax => (totalMessages, uidToId, idToImap, uidMax)
  | id :: ids, totalMessages, uidToId, idToImap, _ =>
    appendLoop ids (totalMessages + 1) (uidToId.insert id.uid id.uid)
      (idToImap.insert id.id ⟨id.uid, totalMessages + 1⟩) id.uid

/-- `SelectedMailbox::append_messages`. -/
def appendMessages (ids : List ImapUidToId) (modseq : Option ℕ) (state : MailboxState) :
    MailboxState :=
  if state.modseq < modseq.getD 0 then
    let (totalMessages, uidToId, idToImap, uidMax) :=
      appendLoop ids state.totalMessages state.uidToId state.idToImap 0
    { state with
        totalMessages := totalMessages
        uidToId := uidToId
        idToImap := idToImap
        uidMax := uidMax }
  else state

/-! ## The representation invariant -/

namespace MailboxState

/-- The invariant every state keeps: the two maps are inverse, sequence numbers
are distinct, in uid order and within `1..=total_messages`, and no uid exceeds
`uid_max`. -/
structure Valid (s : MailboxState) : Prop where
  inverse : ∀ u d, s.uidToId.lookup u = some d ↔ ∃ n, s.idToImap.lookup d = some ⟨u, n⟩
  seqnum_inj : ∀ d₁ d₂ i₁ i₂, s.idToImap.lookup d₁ = some i₁ → s.idToImap.lookup d₂ = some i₂ →
    i₁.seqnum = i₂.seqnum → d₁ = d₂
  order : ∀ d₁ d₂ i₁ i₂, s.idToImap.lookup d₁ = some i₁ → s.idToImap.lookup d₂ = some i₂ →
    (i₁.uid < i₂.uid ↔ i₁.seqnum < i₂.seqnum)
  seqnum_mem : ∀ d i, s.idToImap.lookup d = some i → 1 ≤ i.seqnum ∧ i.seqnum ≤ s.totalMessages
  uid_le : ∀ d i, s.idToImap.lookup d = some i → i.uid ≤ s.uidMax

/-- What a freshly fetched state adds: `uid_max` is the largest uid (0 when
empty) and the sequence numbers are exactly `1..=total_messages`. -/
structure Exact (s : MailboxState) : Prop where
  uidMax_mem : s.uidMax = 0 ∨ ∃ d i, s.idToImap.lookup d = some i ∧ i.uid = s.uidMax
  seqnum_surj : ∀ n, 1 ≤ n → n ≤ s.totalMessages → ∃ d i, s.idToImap.lookup d = some i ∧ i.seqnum = n

end MailboxState

/-! ## An append to the selected mailbox -/

/-- Mailbox 0 holding message 10 under uid 1. -/
def oneMessage : MessagesCache := ⟨1, [⟨10, [⟨0, 1⟩]⟩]⟩

/-- Appending message 11 with uid 2 to the selected mailbox records uid 2 as
belonging to document 2: the state fetched for mailbox 0 breaks the invariant
after one `append_messages`. -/
theorem appendMessages_uidToId :
    ∃ s, fetchMessages oneMessage 0 none = some s ∧
      (appendMessages [⟨2, 11⟩] (some 2) s).uidToId.lookup 2 = some 2 ∧
      (appendMessages [⟨2, 11⟩] (some 2) s).idToImap.lookup 11 = some ⟨2, 2⟩ ∧
      ¬ (appendMessages [⟨2, 11⟩] (some 2) s).Valid := by
  refine ⟨_, rfl, by decide, by decide, fun hvalid => ?_⟩
  have h := (hvalid.inverse 2 11).mpr ⟨2, by decide⟩
  exact absurd h (by decide)

end EsmpServer.Imap
