import EsmpServer.Imap.Mailbox
import EsmpServer.Imap.SequenceSet
import Mathlib

/-!
# COPY and MOVE within one account

`copy_move` (imap/op/copy_move.rs) walks the messages that `sequence_to_ids` selects,
in the order of the hash map it returns. A message no longer in the source mailbox is
skipped. One already in the destination gives the pair of its source uid and the uid it
has there. Any other gets the destination added with an unassigned uid, and every
unassigned uid of its mailboxes is drawn from that mailbox's counter
(`assign_imap_uid`), each draw giving a pair. The message updates go into one batch
written at the end; the counters are written as they are drawn.

The COPYUID response code carries the source uids and the destination uids of the
pairs, each half sorted on its own. The pairs themselves are right: one for each
selected message still in the source, of its source uid and its uid in the destination
after the command (`copyMove_pairs`). Sorting the halves apart loses the pairing. A
message already in the destination keeps its old uid, which is lower than the uid drawn
for a message copied with it whose source uid is lower (`copyMove_copyUid_misPaired`).
-/

namespace EsmpServer.Imap

open DecimalBytes (ascii)

/-- `UidMailbox`: a mailbox of a message and the message's uid there, 0 while
unassigned. -/
structure UidMailbox where
  mailboxId : ℕ
  uid : ℕ
  deriving DecidableEq, Repr

/-- `MessageData`, with the mailboxes of the message. -/
structure MessageData where
  mailboxes : List UidMailbox
  deriving DecidableEq, Repr

namespace MessageData

/-- `MessageData::add_mailbox`; two `UidMailbox`es are equal when their mailbox ids
are. -/
def addMailbox (data : MessageData) (mailbox : UidMailbox) : MessageData :=
  if data.mailboxes.any (·.mailboxId == mailbox.mailboxId) then data
  else ⟨data.mailboxes ++ [mailbox]⟩

/-- `MessageData::remove_mailbox`. -/
def removeMailbox (data : MessageData) (mailbox : ℕ) : MessageData :=
  ⟨data.mailboxes.filter (·.mailboxId != mailbox)⟩

/-- The uid of the message in a mailbox, from the first entry of that mailbox as
`find` reads it. -/
def uidIn (data : MessageData) (mailboxId : ℕ) : Option ℕ :=
  (data.mailboxes.find? (·.mailboxId == mailboxId)).map (·.uid)

end MessageData

/-- The store of one account: the message data of each document and the uid counter
(`EmailIds`) of each mailbox. -/
structure Account where
  messages : ℕ → Option MessageData
  emailIds : ℕ → ℕ

namespace Account

/-- `assign_imap_uid`: `add_and_get` of one on the mailbox's counter, written at
once. -/
def assignImapUid (account : Account) (mailboxId : ℕ) : ℕ × Account :=
  (account.emailIds mailboxId + 1,
    { account with
      emailIds := Function.update account.emailIds mailboxId (account.emailIds mailboxId + 1) })

/-- Writing a batch of message updates. -/
def commit (account : Account) (batch : List (ℕ × MessageData)) : Account :=
  { account with
    messages := batch.foldl (fun messages e => Function.update messages e.1 (some e.2))
      account.messages }

/-- The uid of document `id` in a mailbox. -/
def uidIn (account : Account) (id mailboxId : ℕ) : Option ℕ :=
  (account.messages id).bind (·.uidIn mailboxId)

/-- Whether document `id` is in a mailbox, as the loop of `copy_move` checks it. -/
def inMailbox (account : Account) (id mailboxId : ℕ) : Bool :=
  (account.messages id).any (·.mailboxes.any (·.mailboxId == mailboxId))

/-- Every uid the store holds is assigned. -/
def UidsAssigned (account : Account) : Prop :=
  ∀ id data, account.messages id = some data → ∀ m ∈ data.mailboxes, m.uid ≠ 0

end Account

/-- `SelectedMailbox::sequence_to_ids` for a set other than `$`: the entries of
`id_to_imap` whose uid, or sequence number, the set contains; for uids, the map of the
parked fresh state when there is one. -/
def sequenceToIds (state : MailboxState) (sequence : Sequence) (isUid : Bool) :
    List (ℕ × ImapId) :=
  if state.idToImap.entries = [] then []
  else if isUid then
    let idToImap := (state.nextState.map (·.nextState.idToImap)).getD state.idToImap
    (idToImap.entries.filter fun e => sequence.contains e.2.uid.toUInt32 state.uidMax.toUInt32).map
      fun e => (e.1, e.2)
  else
    (state.idToImap.entries.filter fun e =>
      sequence.contains e.2.seqnum.toUInt32 state.totalMessages.toUInt32).map fun e => (e.1, e.2)

/-- What the loop assigning uids carries: the store, the pairs `copied_ids`, and the
mailboxes done. -/
structure AssignState where
  account : Account
  copiedIds : List (ℕ × ℕ)
  mailboxes : List UidMailbox

/-- One mailbox of the loop assigning uids: an unassigned uid is drawn from the
mailbox's counter and pushes the pair of the source uid and the drawn one. -/
def assignStep (srcUid : ℕ) (st : AssignState) (m : UidMailbox) : AssignState :=
  if m.uid = 0 then
    let drawn := st.account.assignImapUid m.mailboxId
    ⟨drawn.2, st.copiedIds ++ [(srcUid, drawn.1)], st.mailboxes ++ [{ m with uid := drawn.1 }]⟩
  else { st with mailboxes := st.mailboxes ++ [m] }

/-- What the loop of `copy_move` carries: the store, the batch, and `copied_ids`. -/
structure CopyState where
  account : Account
  batch : List (ℕ × MessageData)
  copiedIds : List (ℕ × ℕ)

/-- One selected message of the loop of `copy_move`. The message data is read from
the store, which the batch has not been written to. -/
def copyStep (srcMailbox destMailbox : ℕ) (isMove : Bool) (st : CopyState)
    (entry : ℕ × ImapId) : CopyState :=
  match st.account.messages entry.1 with
  | none => st
  | some data =>
    if data.mailboxes.any (·.mailboxId == srcMailbox) then
      match data.mailboxes.find? (·.mailboxId == destMailbox) with
      | some mailbox =>
        let copiedIds := st.copiedIds ++ [(entry.2.uid, mailbox.uid)]
        if isMove then
          { st with batch := st.batch ++ [(entry.1, data.removeMailbox srcMailbox)], copiedIds }
        else { st with copiedIds }
      | none =>
        let newData := data.addMailbox ⟨destMailbox, 0⟩
        let newData := if isMove then newData.removeMailbox srcMailbox else newData
        let assigned := newData.mailboxes.foldl (assignStep entry.2.uid) ⟨st.account, st.copiedIds, []⟩
        ⟨assigned.account, st.batch ++ [(entry.1, ⟨assigned.mailboxes⟩)], assigned.copiedIds⟩
    else st

/-- The store once the batch is written. -/
def CopyState.written (st : CopyState) : Account := st.account.commit st.batch

/-- The loop of `copy_move` over the selected messages, in the hash map's order. -/
def copyLoop (srcMailbox destMailbox : ℕ) (isMove : Bool) (account : Account)
    (ids : List (ℕ × ImapId)) : CopyState :=
  ids.foldl (copyStep srcMailbox destMailbox isMove) ⟨account, [], []⟩

/-- `ResponseCode::CopyUid`. -/
structure CopyUid where
  uidValidity : ℕ
  srcUids : List ℕ
  destUids : List ℕ
  deriving DecidableEq, Repr

/-- The response code as written: `COPYUID`, the uid validity, and the two lists
through `serialize_sequence`. -/
def CopyUid.serialize (code : CopyUid) : List UInt8 :=
  ascii "COPYUID " ++ DecimalBytes.ofNat code.uidValidity ++ [32] ++
    serializeSequence (code.srcUids.map Nat.toUInt32) ++ [32] ++
    serializeSequence (code.destUids.map Nat.toUInt32)

/-- `copy_move` between two mailboxes of one account, from the check of its caller
that they differ: the store after the command and the COPYUID response code, whose
halves are sorted apart (`sort_unstable`, here by insertion). -/
def copyMove (account : Account) (ids : List (ℕ × ImapId)) (srcMailbox destMailbox : ℕ)
    (isMove : Bool) (uidValidity : ℕ) : Except String (Account × CopyUid) :=
  if srcMailbox = destMailbox then .error "Source and destination mailboxes are the same."
  else if ids = [] then .error "No messages were found."
  else
    let st := copyLoop srcMailbox destMailbox isMove account ids
    if st.copiedIds = [] then
      .error (if isMove then "No messages were moved." else "No messages were copied.")
    else
      .ok (st.written, ⟨uidValidity, (st.copiedIds.map Prod.fst).insertionSort (· ≤ ·),
        (st.copiedIds.map Prod.snd).insertionSort (· ≤ ·)⟩)

/-! ## Writing the batch -/

namespace Account

theorem messages_commit_cons (account : Account) (e : ℕ × MessageData)
    (batch : List (ℕ × MessageData)) :
    (account.commit (e :: batch)).messages =
      ({ account with messages := Function.update account.messages e.1 (some e.2) }.commit
        batch).messages := rfl

theorem messages_commit_congr {account account' : Account} (h : account.messages = account'.messages)
    (batch : List (ℕ × MessageData)) : (account.commit batch).messages = (account'.commit batch).messages := by
  simp only [commit, h]

theorem messages_commit_of_notMem {account : Account} {batch : List (ℕ × MessageData)} {id : ℕ}
    (h : ∀ e ∈ batch, e.1 ≠ id) : (account.commit batch).messages id = account.messages id := by
  induction batch generalizing account with
  | nil => rfl
  | cons e batch ih =>
    rw [messages_commit_cons, ih fun e' he' => h e' (List.mem_cons_of_mem e he')]
    exact Function.update_of_ne (h e List.mem_cons_self).symm _ _

theorem messages_commit_append (account : Account) (batch c : List (ℕ × MessageData)) :
    (account.commit (batch ++ c)).messages = ((account.commit batch).commit c).messages := by
  simp only [commit, List.foldl_append]

theorem messages_commit_append_self (account : Account) (batch : List (ℕ × MessageData))
    (id : ℕ) (data : MessageData) : (account.commit (batch ++ [(id, data)])).messages id = some data := by
  rw [messages_commit_append]
  exact Function.update_self _ _ _

theorem messages_commit_append_of_notMem {account : Account} {batch c : List (ℕ × MessageData)}
    {id : ℕ} (h : ∀ e ∈ c, e.1 ≠ id) :
    (account.commit (batch ++ c)).messages id = (account.commit batch).messages id := by
  rw [messages_commit_append]
  exact messages_commit_of_notMem h

theorem inMailbox_congr {account account' : Account} (h : account.messages = account'.messages) :
    account.inMailbox = account'.inMailbox := by
  funext id mailboxId
  simp only [inMailbox, h]

theorem UidsAssigned.congr {account account' : Account} (hassigned : account.UidsAssigned)
    (h : account.messages = account'.messages) : account'.UidsAssigned := by
  intro id data hdata
  exact hassigned id data (h ▸ hdata)

end Account

/-! ## One message -/

namespace MessageData

theorem uidIn_removeMailbox {data : MessageData} {src dest : ℕ} (hsd : src ≠ dest) :
    (data.removeMailbox src).uidIn dest = data.uidIn dest := by
  obtain ⟨mailboxes⟩ := data
  simp only [removeMailbox, uidIn]
  induction mailboxes with
  | nil => rfl
  | cons m ms ih =>
    by_cases hm : m.mailboxId = src
    · have hdest : (m.mailboxId == dest) = false := by simpa [hm] using hsd
      rw [List.filter_cons_of_neg (by simp [hm]), List.find?_cons_of_neg (by simp [hdest])]
      exact ih
    · rw [List.filter_cons_of_pos (by simp [hm])]
      cases hdest : m.mailboxId == dest
      · rw [List.find?_cons_of_neg (by simp [hdest]), List.find?_cons_of_neg (by simp [hdest])]
        exact ih
      · simp only [List.find?_cons, hdest]

theorem uidIn_append_dest {ms : List UidMailbox} {dest : ℕ} (h : ms.find? (·.mailboxId == dest) = none)
    (uid : ℕ) : (⟨ms ++ [⟨dest, uid⟩]⟩ : MessageData).uidIn dest = some uid := by
  simp [uidIn, List.find?_append, h]

theorem addMailbox_of_find?_eq_none {data : MessageData} {dest : ℕ}
    (h : data.mailboxes.find? (·.mailboxId == dest) = none) :
    data.addMailbox ⟨dest, 0⟩ = ⟨data.mailboxes ++ [⟨dest, 0⟩]⟩ := by
  have hany : data.mailboxes.any (·.mailboxId == dest) = false := by
    rw [List.any_eq_false]
    exact List.find?_eq_none.mp h
  simp only [addMailbox, hany, Bool.false_eq_true, ↓reduceIte]

end MessageData

/-! ## Assigning uids -/

theorem assignStep_of_uid_ne_zero (srcUid : ℕ) (st : AssignState) {m : UidMailbox} (hm : m.uid ≠ 0) :
    assignStep srcUid st m = { st with mailboxes := st.mailboxes ++ [m] } := by
  simp [assignStep, hm]

theorem foldl_assignStep_of_assigned (srcUid : ℕ) {ms : List UidMailbox} (h : ∀ m ∈ ms, m.uid ≠ 0)
    (st : AssignState) : ms.foldl (assignStep srcUid) st = { st with mailboxes := st.mailboxes ++ ms } := by
  induction ms generalizing st with
  | nil => simp
  | cons m ms ih =>
    rw [List.foldl_cons, assignStep_of_uid_ne_zero srcUid st (h m List.mem_cons_self),
      ih fun m' hm' => h m' (List.mem_cons_of_mem m hm')]
    simp

theorem foldl_assignStep_append_dest (srcUid : ℕ) {ms : List UidMailbox} (h : ∀ m ∈ ms, m.uid ≠ 0)
    (account : Account) (copiedIds : List (ℕ × ℕ)) (dest : ℕ) :
    (ms ++ [UidMailbox.mk dest 0]).foldl (assignStep srcUid) ⟨account, copiedIds, []⟩ =
      ⟨(account.assignImapUid dest).2, copiedIds ++ [(srcUid, account.emailIds dest + 1)],
        ms ++ [UidMailbox.mk dest (account.emailIds dest + 1)]⟩ := by
  rw [List.foldl_append, foldl_assignStep_of_assigned srcUid h]
  simp [assignStep, Account.assignImapUid]

theorem foldl_assignStep_messages (srcUid : ℕ) (ms : List UidMailbox) (st : AssignState) :
    (ms.foldl (assignStep srcUid) st).account.messages = st.account.messages := by
  induction ms generalizing st with
  | nil => rfl
  | cons m ms ih =>
    rw [List.foldl_cons, ih]
    unfold assignStep
    split <;> rfl

/-! ## One selected message -/

section Step

variable {src dest : ℕ} {isMove : Bool} {st : CopyState} {entry : ℕ × ImapId}

theorem copyStep_messages :
    (copyStep src dest isMove st entry).account.messages = st.account.messages := by
  unfold copyStep
  split
  · rfl
  · split
    · split
      · split <;> rfl
      · exact foldl_assignStep_messages _ _ _
    · rfl

theorem copyStep_batch :
    ∃ c, (copyStep src dest isMove st entry).batch = st.batch ++ c ∧ ∀ x ∈ c, x.1 = entry.1 := by
  unfold copyStep
  split
  · exact ⟨[], by simp, by simp⟩
  · split
    · split
      · split
        · exact ⟨_, rfl, by simp⟩
        · exact ⟨[], by simp, by simp⟩
      · exact ⟨_, rfl, by simp⟩
    · exact ⟨[], by simp, by simp⟩

theorem copyStep_of_inMailbox_false (h : st.account.inMailbox entry.1 src = false) :
    copyStep src dest isMove st entry = st := by
  unfold copyStep
  split
  · rfl
  · rename_i data hdata
    have hany : data.mailboxes.any (·.mailboxId == src) = false := by
      simpa [Account.inMailbox, hdata] using h
    simp only [hany, Bool.false_eq_true, ↓reduceIte]

theorem exists_mailboxes_added {data : MessageData} (hsd : src ≠ dest)
    (hassigned : ∀ m ∈ data.mailboxes, m.uid ≠ 0) (hfind : data.mailboxes.find? (·.mailboxId == dest) = none) :
    ∃ ms, (if isMove then (data.addMailbox ⟨dest, 0⟩).removeMailbox src else data.addMailbox ⟨dest, 0⟩).mailboxes =
      ms ++ [⟨dest, 0⟩] ∧ (∀ m ∈ ms, m.uid ≠ 0) ∧ ms.find? (·.mailboxId == dest) = none := by
  rw [MessageData.addMailbox_of_find?_eq_none hfind]
  cases isMove
  · exact ⟨data.mailboxes, rfl, hassigned, hfind⟩
  · refine ⟨data.mailboxes.filter (·.mailboxId != src), ?_, ?_, ?_⟩
    · simp [MessageData.removeMailbox, List.filter_append, Ne.symm hsd]
    · intro m hm
      exact hassigned m (List.mem_filter.mp hm).1
    · rw [List.find?_eq_none] at hfind ⊢
      intro m hm
      exact hfind m (List.mem_filter.mp hm).1

theorem copyStep_of_inMailbox (hsd : src ≠ dest) (hassigned : st.account.UidsAssigned)
    (hnew : ∀ x ∈ st.batch, x.1 ≠ entry.1) (h : st.account.inMailbox entry.1 src = true) :
    ∃ u, (copyStep src dest isMove st entry).copiedIds = st.copiedIds ++ [(entry.2.uid, u)] ∧
      (copyStep src dest isMove st entry).written.uidIn entry.1 dest = some u := by
  obtain ⟨data, hdata, hany⟩ : ∃ data, st.account.messages entry.1 = some data ∧
      data.mailboxes.any (·.mailboxId == src) = true := by
    cases hm : st.account.messages entry.1 with
    | none => simp [Account.inMailbox, hm] at h
    | some data => exact ⟨data, rfl, by simpa [Account.inMailbox, hm] using h⟩
  unfold copyStep
  simp only [hdata, hany, ↓reduceIte]
  cases hfind : data.mailboxes.find? (·.mailboxId == dest) with
  | some mailbox =>
    refine ⟨mailbox.uid, ?_⟩
    cases isMove
    · refine ⟨rfl, ?_⟩
      simp [CopyState.written, Account.uidIn, Account.messages_commit_of_notMem hnew, hdata,
        MessageData.uidIn, hfind]
    · refine ⟨rfl, ?_⟩
      simp only [CopyState.written, Account.uidIn, ↓reduceIte, Account.messages_commit_append_self,
        Option.bind_some]
      rw [MessageData.uidIn_removeMailbox hsd]
      simp [MessageData.uidIn, hfind]
  | none =>
    obtain ⟨ms, hms, hms0, hmsd⟩ := @exists_mailboxes_added src dest isMove data hsd
      (hassigned entry.1 data hdata) hfind
    simp only [hms, foldl_assignStep_append_dest _ hms0]
    refine ⟨_, rfl, ?_⟩
    simp [CopyState.written, Account.uidIn, Account.messages_commit_append_self,
      MessageData.uidIn_append_dest hmsd]

end Step

/-! ## The loop over the selected messages -/

section Run

variable {src dest : ℕ} {isMove : Bool}

theorem foldl_copyStep_messages (ids : List (ℕ × ImapId)) (st : CopyState) :
    (ids.foldl (copyStep src dest isMove) st).account.messages = st.account.messages := by
  induction ids generalizing st with
  | nil => rfl
  | cons e ids ih => rw [List.foldl_cons, ih, copyStep_messages]

theorem foldl_copyStep_batch (ids : List (ℕ × ImapId)) (st : CopyState) :
    ∃ c, (ids.foldl (copyStep src dest isMove) st).batch = st.batch ++ c ∧
      ∀ x ∈ c, x.1 ∈ ids.map Prod.fst := by
  induction ids generalizing st with
  | nil => exact ⟨[], by simp, by simp⟩
  | cons e ids ih =>
    obtain ⟨c₁, hc₁, hc₁e⟩ := @copyStep_batch src dest isMove st e
    obtain ⟨c₂, hc₂, hc₂ids⟩ := ih (copyStep src dest isMove st e)
    refine ⟨c₁ ++ c₂, by rw [List.foldl_cons, hc₂, hc₁, List.append_assoc], ?_⟩
    intro x hx
    rcases List.mem_append.mp hx with hx | hx
    · simp [hc₁e x hx]
    · exact List.mem_cons_of_mem _ (hc₂ids x hx)

theorem foldl_copyStep_copiedIds (hsd : src ≠ dest) (ids : List (ℕ × ImapId)) (st : CopyState)
    (hassigned : st.account.UidsAssigned) (hnodup : (ids.map Prod.fst).Nodup)
    (hnew : ∀ x ∈ st.batch, x.1 ∉ ids.map Prod.fst) :
    ∃ pairs, (ids.foldl (copyStep src dest isMove) st).copiedIds = st.copiedIds ++ pairs ∧
      List.Forall₂ (fun e p => p.1 = e.2.uid ∧
          (ids.foldl (copyStep src dest isMove) st).written.uidIn e.1 dest = some p.2)
        (ids.filter fun e => st.account.inMailbox e.1 src) pairs := by
  induction ids generalizing st with
  | nil => exact ⟨[], by simp, List.Forall₂.nil⟩
  | cons e ids ih =>
    rw [List.map_cons, List.nodup_cons] at hnodup
    have hmessages := @copyStep_messages src dest isMove st e
    obtain ⟨c₁, hc₁, hc₁e⟩ := @copyStep_batch src dest isMove st e
    have hnew₁ : ∀ x ∈ (copyStep src dest isMove st e).batch, x.1 ∉ ids.map Prod.fst := by
      intro x hx
      rw [hc₁] at hx
      rcases List.mem_append.mp hx with hx | hx
      · exact fun hmem => hnew x hx (List.mem_cons_of_mem _ hmem)
      · exact hc₁e x hx ▸ hnodup.1
    obtain ⟨pairs, hpairs, hforall⟩ :=
      ih (copyStep src dest isMove st e) (hassigned.congr hmessages.symm) hnodup.2 hnew₁
    rw [Account.inMailbox_congr hmessages] at hforall
    rw [List.foldl_cons]
    cases hin : st.account.inMailbox e.1 src
    · -- not in the source: the step does nothing
      rw [copyStep_of_inMailbox_false hin] at hpairs hforall ⊢
      refine ⟨pairs, hpairs, ?_⟩
      simpa [List.filter_cons, hin] using hforall
    · obtain ⟨u, hu, huid⟩ := @copyStep_of_inMailbox src dest isMove st e hsd hassigned
        (fun x hx hx1 => hnew x hx (hx1 ▸ List.mem_cons_self)) hin
      refine ⟨(e.2.uid, u) :: pairs, by rw [hpairs, hu, List.append_assoc, List.singleton_append], ?_⟩
      simp only [List.filter_cons, hin, ↓reduceIte]
      refine List.Forall₂.cons ⟨rfl, ?_⟩ hforall
      -- the rest of the loop neither changes the messages read nor writes this document
      obtain ⟨c₂, hc₂, hc₂ids⟩ := @foldl_copyStep_batch src dest isMove
        ids (copyStep src dest isMove st e)
      have hwritten : (ids.foldl (copyStep src dest isMove) (copyStep src dest isMove st e)).written.messages e.1 =
          (copyStep src dest isMove st e).written.messages e.1 := by
        rw [CopyState.written, hc₂, @Account.messages_commit_append_of_notMem _ _ _ e.1
          fun x hx hx1 => hnodup.1 (hx1 ▸ hc₂ids x hx)]
        exact congrFun (Account.messages_commit_congr (foldl_copyStep_messages _ _) _) e.1
      rw [Account.uidIn, hwritten]
      exact huid

end Run

theorem copyMove_eq_ok {account account' : Account} {ids : List (ℕ × ImapId)} {src dest : ℕ}
    {isMove : Bool} {uidValidity : ℕ} {code : CopyUid}
    (h : copyMove account ids src dest isMove uidValidity = .ok (account', code)) :
    src ≠ dest ∧ account' = (copyLoop src dest isMove account ids).written ∧
      code = ⟨uidValidity,
        ((copyLoop src dest isMove account ids).copiedIds.map Prod.fst).insertionSort (· ≤ ·),
        ((copyLoop src dest isMove account ids).copiedIds.map Prod.snd).insertionSort (· ≤ ·)⟩ := by
  unfold copyMove at h
  by_cases hsd : src = dest
  · simp [hsd] at h
  by_cases hids : ids = []
  · simp [hsd, hids] at h
  by_cases hnone : (copyLoop src dest isMove account ids).copiedIds = []
  · simp only [hsd, hids, hnone, ↓reduceIte] at h
    split at h <;> cases h
  simp only [hsd, hids, hnone, ↓reduceIte, Except.ok.injEq, Prod.mk.injEq] at h
  exact ⟨hsd, h.1.symm, h.2.symm⟩

/-! ## Every uid stays assigned -/

theorem foldl_assignStep_assigned (srcUid : ℕ) (ms : List UidMailbox) (st : AssignState)
    (h : ∀ m ∈ st.mailboxes, m.uid ≠ 0) : ∀ m ∈ (ms.foldl (assignStep srcUid) st).mailboxes, m.uid ≠ 0 := by
  induction ms generalizing st with
  | nil => exact h
  | cons m ms ih =>
    apply ih
    intro m' hm'
    by_cases hm0 : m.uid = 0
    · simp only [assignStep, hm0, ↓reduceIte, List.mem_append, List.mem_singleton] at hm'
      rcases hm' with hm' | rfl
      · exact h m' hm'
      · simp [Account.assignImapUid]
    · simp only [assignStep, hm0, ↓reduceIte, List.mem_append, List.mem_singleton] at hm'
      rcases hm' with hm' | rfl
      · exact h m' hm'
      · exact hm0

theorem Account.UidsAssigned.commit {account : Account} {batch : List (ℕ × MessageData)}
    (hassigned : account.UidsAssigned) (hbatch : ∀ x ∈ batch, ∀ m ∈ x.2.mailboxes, m.uid ≠ 0) :
    (account.commit batch).UidsAssigned := by
  induction batch generalizing account with
  | nil => exact hassigned
  | cons e batch ih =>
    refine Account.UidsAssigned.congr (ih ?_ fun x hx => hbatch x (List.mem_cons_of_mem e hx))
      (Account.messages_commit_cons account e batch).symm
    intro id data hdata
    by_cases hid : id = e.1
    · subst hid
      simp only [Function.update_self, Option.some.injEq] at hdata
      exact hdata ▸ hbatch e List.mem_cons_self
    · exact hassigned id data (by simpa [Function.update_of_ne hid] using hdata)

theorem copyStep_batch_assigned {src dest : ℕ} {isMove : Bool} {st : CopyState} {entry : ℕ × ImapId}
    (hassigned : st.account.UidsAssigned) (hbatch : ∀ x ∈ st.batch, ∀ m ∈ x.2.mailboxes, m.uid ≠ 0) :
    ∀ x ∈ (copyStep src dest isMove st entry).batch, ∀ m ∈ x.2.mailboxes, m.uid ≠ 0 := by
  unfold copyStep
  split
  · exact hbatch
  · rename_i data hdata
    have hdata0 := hassigned entry.1 data hdata
    split
    · split
      · split
        · intro x hx
          rcases List.mem_append.mp hx with hx | hx
          · exact hbatch x hx
          · intro m hm
            simp only [List.mem_singleton] at hx
            subst hx
            exact hdata0 m (List.mem_filter.mp hm).1
        · exact hbatch
      · intro x hx
        rcases List.mem_append.mp hx with hx | hx
        · exact hbatch x hx
        · simp only [List.mem_singleton] at hx
          subst hx
          exact foldl_assignStep_assigned _ _ _ (by simp)
    · exact hbatch

theorem foldl_copyStep_batch_assigned {src dest : ℕ} {isMove : Bool} (ids : List (ℕ × ImapId))
    (st : CopyState) (hassigned : st.account.UidsAssigned)
    (hbatch : ∀ x ∈ st.batch, ∀ m ∈ x.2.mailboxes, m.uid ≠ 0) :
    ∀ x ∈ (ids.foldl (copyStep src dest isMove) st).batch, ∀ m ∈ x.2.mailboxes, m.uid ≠ 0 := by
  induction ids generalizing st with
  | nil => exact hbatch
  | cons e ids ih =>
    exact ih _ (hassigned.congr copyStep_messages.symm) (copyStep_batch_assigned hassigned hbatch)

theorem copyMove_uidsAssigned {account account' : Account} {ids : List (ℕ × ImapId)} {src dest : ℕ}
    {isMove : Bool} {uidValidity : ℕ} {code : CopyUid} (hassigned : account.UidsAssigned)
    (h : copyMove account ids src dest isMove uidValidity = .ok (account', code)) :
    account'.UidsAssigned := by
  obtain ⟨-, rfl, -⟩ := copyMove_eq_ok h
  rw [CopyState.written]
  refine Account.UidsAssigned.commit ?_ (foldl_copyStep_batch_assigned ids _ hassigned (by simp))
  exact hassigned.congr (foldl_copyStep_messages ids ⟨account, [], []⟩).symm

/-! ## The response code -/

theorem copyMove_pairs {account account' : Account} {ids : List (ℕ × ImapId)} {src dest : ℕ}
    {isMove : Bool} {uidValidity : ℕ} {code : CopyUid} (hassigned : account.UidsAssigned)
    (hnodup : (ids.map Prod.fst).Nodup)
    (h : copyMove account ids src dest isMove uidValidity = .ok (account', code)) :
    ∃ pairs : List (ℕ × ℕ),
      List.Forall₂ (fun e p => p.1 = e.2.uid ∧ account'.uidIn e.1 dest = some p.2)
        (ids.filter fun e => account.inMailbox e.1 src) pairs ∧
      code = ⟨uidValidity, (pairs.map Prod.fst).insertionSort (· ≤ ·),
        (pairs.map Prod.snd).insertionSort (· ≤ ·)⟩ := by
  obtain ⟨hsd, rfl, rfl⟩ := copyMove_eq_ok h
  obtain ⟨pairs, hpairs, hforall⟩ := @foldl_copyStep_copiedIds src dest isMove hsd ids
    ⟨account, [], []⟩ hassigned hnodup (by simp)
  refine ⟨pairs, hforall, ?_⟩
  simp only [copyLoop, hpairs, List.nil_append]

example : (CopyUid.mk 1 [3, 5] [200, 201]).serialize = ascii "COPYUID 1 3,5 200:201" := by decide

/-! ## Two messages, one already in the destination -/

/-- Mailbox 1 holds document 0 under uid 3 and document 1 under uid 5; document 1 is also
in mailbox 2 under uid 200, the last uid drawn there. -/
def twoMessagesCache : MessagesCache := ⟨1, [⟨0, [⟨1, 3⟩]⟩, ⟨1, [⟨1, 5⟩, ⟨2, 200⟩]⟩]⟩

/-- The store of the same account. -/
def twoMessages : Account where
  messages id := if id = 0 then some ⟨[⟨1, 3⟩]⟩ else if id = 1 then some ⟨[⟨1, 5⟩, ⟨2, 200⟩]⟩ else none
  emailIds mailboxId := if mailboxId = 1 then 5 else if mailboxId = 2 then 200 else 0

/-- COPY or MOVE of `1:*` from mailbox 1 to mailbox 2, by uid or by sequence number, in
whatever order the hash map yields the two messages: document 1 keeps uid 200 and
document 0 draws 201, but the response pairs source uid 3 with 200 and 5 with 201. -/
theorem copyMove_copyUid_misPaired (isUid isMove : Bool) (uidValidity : ℕ) (state : MailboxState)
    (hstate : fetchMessages twoMessagesCache 1 none = some state) (order : List (ℕ × ImapId))
    (horder : order.Perm (sequenceToIds state (.range (some 1) none) isUid)) :
    ∃ account code, copyMove twoMessages order 1 2 isMove uidValidity = .ok (account, code) ∧
      code.srcUids = [3, 5] ∧ code.destUids = [200, 201] ∧
      account.uidIn 0 2 = some 201 ∧ account.uidIn 1 2 = some 200 := by
  have hselected : sequenceToIds state (.range (some 1) none) isUid = [(1, ⟨5, 2⟩), (0, ⟨3, 1⟩)] := by
    have h : ∀ isUid, ((fetchMessages twoMessagesCache 1 none).map fun s =>
        sequenceToIds s (.range (some 1) none) isUid) = some [(1, ⟨5, 2⟩), (0, ⟨3, 1⟩)] := by
      decide
    simpa [hstate] using h isUid
  rcases List.perm_pair.mp (hselected ▸ horder) with rfl | rfl <;>
    cases isMove <;> exact ⟨_, _, rfl, rfl, rfl, rfl, rfl⟩

theorem copyMove_copyUid_misPaired_uidCopy :
    ∃ state, fetchMessages twoMessagesCache 1 none = some state ∧
      ∃ account code, copyMove twoMessages (sequenceToIds state (.range (some 1) none) true) 1 2 false 1 =
          .ok (account, code) ∧ code.srcUids = [3, 5] ∧ code.destUids = [200, 201] ∧
        account.uidIn 0 2 = some 201 ∧ account.uidIn 1 2 = some 200 :=
  ⟨_, rfl, copyMove_copyUid_misPaired true false 1 _ rfl _ (List.Perm.refl _)⟩

end EsmpServer.Imap
