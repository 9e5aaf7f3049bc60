import EsmpServer.Imap.Mailbox
import Mathlib

/-!
# The selected-mailbox state keeps its invariant

`fetch_messages` numbers the messages of the mailbox `1..=n` in uid order: a fetched state is
`MailboxState.Valid` and `Exact`, as long as the cache holds each document once.
`synchronize_messages` drops the messages the fetched state lacks, which keeps `Valid`, and
parks the fetched state; `write_mailbox_changes` swaps it in. So a session that only
synchronizes and announces changes keeps the invariant from the state it selected, whatever the
caches it reads; `append_messages` is what breaks it.
-/

namespace EsmpServer.Imap

section Lookup

variable {β : Type}

theorem lookup_insert_eq_ite (s : AList fun _ : ℕ => β) (k k' : ℕ) (v : β) :
    (s.insert k v).lookup k' = if k' = k then some v else s.lookup k' := by
  by_cases h : k' = k
  · subst h
    rw [AList.lookup_insert, if_pos rfl]
  · rw [AList.lookup_insert_ne h, if_neg h]

theorem lookup_erase_eq_ite (s : AList fun _ : ℕ => β) (k k' : ℕ) :
    (s.erase k).lookup k' = if k' = k then none else s.lookup k' := by
  by_cases h : k' = k
  · subst h
    rw [AList.lookup_erase, if_pos rfl]
  · rw [AList.lookup_erase_ne h, if_neg h]

theorem lookup_eq_some_iff_mem_entries {s : AList fun _ : ℕ => β} {k : ℕ} {v : β} :
    s.lookup k = some v ↔ ⟨k, v⟩ ∈ s.entries :=
  AList.mem_lookup_iff

theorem exists_getElem?_cons {α : Type} {a b : α} {l : List α} {P : ℕ → Prop} :
    (∃ i, (a :: l)[i]? = some b ∧ P i) ↔ (a = b ∧ P 0) ∨ ∃ j, l[j]? = some b ∧ P (j + 1) := by
  constructor
  · rintro ⟨_ | j, h, hp⟩
    · exact .inl ⟨Option.some.inj h, hp⟩
    · exact .inr ⟨j, h, hp⟩
  · rintro (⟨rfl, hp⟩ | ⟨j, h, hp⟩)
    · exact ⟨0, rfl, hp⟩
    · exact ⟨j + 1, h, hp⟩

end Lookup

/-! ## `fetch_messages` -/

/-- What the numbering loop returns over the maps and `uid_max` it started with: message `i`
of `rest` gets sequence number `index + i + 1`, and `uid_max` grows to the largest uid. -/
structure Numbered (index : ℕ) (rest : List (ℕ × ℕ)) (uidMax : ℕ)
    (idToImap : AList fun _ : ℕ => ImapId) (uidToId : AList fun _ : ℕ => ℕ)
    (r : ℕ × (AList fun _ : ℕ => ImapId) × (AList fun _ : ℕ => ℕ)) : Prop where
  idToImap_lookup : ∀ d x, r.2.1.lookup d = some x ↔ idToImap.lookup d = some x ∨
    ∃ i, rest[i]? = some (x.uid, d) ∧ x.seqnum = index + i + 1
  uidToId_lookup : ∀ u d, r.2.2.lookup u = some d ↔ uidToId.lookup u = some d ∨ (u, d) ∈ rest
  length_entries : r.2.1.entries.length = idToImap.entries.length + rest.length
  le_uidMax : uidMax ≤ r.1
  uid_le : ∀ p ∈ rest, p.1 ≤ r.1
  uidMax_mem : r.1 = uidMax ∨ ∃ p ∈ rest, p.1 = r.1

theorem fetchLoop_nil (index uidMax : ℕ) (idToImap : AList fun _ : ℕ => ImapId)
    (uidToId : AList fun _ : ℕ => ℕ) :
    fetchLoop index [] uidMax idToImap uidToId = (uidMax, idToImap, uidToId) := rfl

theorem fetchLoop_cons (index uid messageId : ℕ) (rest : List (ℕ × ℕ)) (uidMax : ℕ)
    (idToImap : AList fun _ : ℕ => ImapId) (uidToId : AList fun _ : ℕ => ℕ) :
    fetchLoop index ((uid, messageId) :: rest) uidMax idToImap uidToId =
      fetchLoop (index + 1) rest (if uid > uidMax then uid else uidMax)
        (idToImap.insert messageId ⟨uid, index + 1⟩) (uidToId.insert uid messageId) := rfl

theorem numbered_idToImap_cons {index uid messageId d : ℕ} {rest : List (ℕ × ℕ)}
    {idToImap : AList fun _ : ℕ => ImapId} {x : ImapId} (hd : messageId ∉ idToImap)
    (hdocs : messageId ∉ rest.map Prod.snd) :
    ((idToImap.insert messageId ⟨uid, index + 1⟩).lookup d = some x ∨
        ∃ i, rest[i]? = some (x.uid, d) ∧ x.seqnum = index + 1 + i + 1) ↔
      idToImap.lookup d = some x ∨
        ∃ i, ((uid, messageId) :: rest)[i]? = some (x.uid, d) ∧ x.seqnum = index + i + 1 := by
  rw [lookup_insert_eq_ite, exists_getElem?_cons]
  by_cases hdm : d = messageId
  · subst hdm
    have hnone : idToImap.lookup d = none := AList.lookup_eq_none.mpr hd
    have hrest : ¬ ∃ j, rest[j]? = some (x.uid, d) ∧ x.seqnum = index + 1 + j + 1 :=
      fun ⟨j, hj, _⟩ => hdocs (List.mem_map.mpr ⟨_, List.mem_of_getElem? hj, rfl⟩)
    have hrest' : ¬ ∃ j, rest[j]? = some (x.uid, d) ∧ x.seqnum = index + (j + 1) + 1 :=
      fun ⟨j, hj, _⟩ => hdocs (List.mem_map.mpr ⟨_, List.mem_of_getElem? hj, rfl⟩)
    rw [if_pos rfl, hnone]
    constructor
    · rintro (h | h)
      · cases h
        exact .inr (.inl ⟨rfl, rfl⟩)
      · exact absurd h hrest
    · rintro (h | ⟨h, hseq⟩ | h)
      · cases h
      · rcases x with ⟨uid', seqnum'⟩
        obtain ⟨rfl, -⟩ := Prod.mk.inj h
        dsimp only at hseq
        rw [hseq]
        exact .inl rfl
      · exact absurd h hrest'
  · rw [if_neg hdm]
    have hne : ¬ ((uid, messageId) = (x.uid, d) ∧ x.seqnum = index + 0 + 1) :=
      fun ⟨h, _⟩ => hdm (Prod.mk.inj h).2.symm
    rw [or_iff_right hne]
    constructor
    · rintro (h | ⟨j, hj, hseq⟩)
      · exact .inl h
      · exact .inr ⟨j, hj, by omega⟩
    · rintro (h | ⟨j, hj, hseq⟩)
      · exact .inl h
      · exact .inr ⟨j, hj, by omega⟩

theorem numbered_uidToId_cons {uid messageId u d : ℕ} {rest : List (ℕ × ℕ)}
    {uidToId : AList fun _ : ℕ => ℕ} (hu : uid ∉ uidToId) (huids : uid ∉ rest.map Prod.fst) :
    ((uidToId.insert uid messageId).lookup u = some d ∨ (u, d) ∈ rest) ↔
      uidToId.lookup u = some d ∨ (u, d) ∈ (uid, messageId) :: rest := by
  rw [lookup_insert_eq_ite, List.mem_cons]
  by_cases hum : u = uid
  · subst hum
    have hnone : uidToId.lookup u = none := AList.lookup_eq_none.mpr hu
    have hrest : (u, d) ∉ rest := fun h => huids (List.mem_map.mpr ⟨_, h, rfl⟩)
    rw [if_pos rfl, hnone]
    constructor
    · rintro (h | h)
      · exact .inr (.inl (by rw [Option.some.inj h]))
      · exact absurd h hrest
    · rintro (h | h | h)
      · cases h
      · exact .inl (by rw [(Prod.mk.inj h).2])
      · exact absurd h hrest
  · rw [if_neg hum]
    have hne : (u, d) ≠ (uid, messageId) := fun h => hum (Prod.mk.inj h).1
    simp only [hne, false_or]

theorem fetchLoop_numbered :
    ∀ (index : ℕ) (rest : List (ℕ × ℕ)) (uidMax : ℕ) (idToImap : AList fun _ : ℕ => ImapId)
      (uidToId : AList fun _ : ℕ => ℕ),
      (rest.map Prod.snd).Nodup → (rest.map Prod.fst).Nodup →
      (∀ d ∈ rest.map Prod.snd, d ∉ idToImap) → (∀ u ∈ rest.map Prod.fst, u ∉ uidToId) →
      Numbered index rest uidMax idToImap uidToId (fetchLoop index rest uidMax idToImap uidToId)
  | index, [], uidMax, idToImap, uidToId, _, _, _, _ => by
    rw [fetchLoop_nil]
    exact ⟨fun d x => by simp, fun u d => by simp, rfl, le_rfl, nofun, .inl rfl⟩
  | index, (uid, messageId) :: rest, uidMax, idToImap, uidToId, hdocs, huids, hI, hU => by
    rw [List.map_cons, List.nodup_cons] at hdocs huids
    dsimp only at hdocs huids
    have hd : messageId ∉ idToImap := hI messageId List.mem_cons_self
    have hu : uid ∉ uidToId := hU uid List.mem_cons_self
    rw [fetchLoop_cons]
    -- the rest is not in the maps once the message is
    have hI' : ∀ d ∈ rest.map Prod.snd, d ∉ idToImap.insert messageId ⟨uid, index + 1⟩ := by
      intro d hd'
      rw [AList.mem_insert, not_or]
      exact ⟨fun h => hdocs.1 (h ▸ hd'), hI d (List.mem_cons_of_mem _ hd')⟩
    have hU' : ∀ u ∈ rest.map Prod.fst, u ∉ uidToId.insert uid messageId := by
      intro u hu'
      rw [AList.mem_insert, not_or]
      exact ⟨fun h => huids.1 (h ▸ hu'), hU u (List.mem_cons_of_mem _ hu')⟩
    have ih := fetchLoop_numbered (index + 1) rest (if uid > uidMax then uid else uidMax) _ _
      hdocs.2 huids.2 hI' hU'
    set r := fetchLoop (index + 1) rest (if uid > uidMax then uid else uidMax)
      (idToImap.insert messageId ⟨uid, index + 1⟩) (uidToId.insert uid messageId)
    refine ⟨fun d x => ?_, fun u d => ?_, ?_, ?_, ?_, ?_⟩
    · rw [ih.idToImap_lookup]
      exact numbered_idToImap_cons hd hdocs.1
    · rw [ih.uidToId_lookup]
      exact numbered_uidToId_cons hu huids.1
    · rw [ih.length_entries, AList.entries_insert_of_notMem hd, List.length_cons, List.length_cons]
      omega
    · have := ih.le_uidMax
      split_ifs at this <;> omega
    · intro p hp
      rcases List.mem_cons.mp hp with rfl | hp
      · have := ih.le_uidMax
        split_ifs at this <;> omega
      · exact ih.uid_le p hp
    · rcases ih.uidMax_mem with h | ⟨p, hp, h⟩
      · split_ifs at h
        · exact .inr ⟨(uid, messageId), List.mem_cons_self, h.symm⟩
        · exact .inl h
      · exact .inr ⟨p, List.mem_cons_of_mem _ hp, h⟩


/-- The pair a message adds to `uid_map`: its first uid in the mailbox, and its document id. -/
def uidPair (mailboxId : ℕ) (item : MessageCache) : Option (ℕ × ℕ) :=
  item.mailboxes.findSome? fun m =>
    if m.mailboxId = mailboxId then some (m.uid, item.documentId) else none

theorem uidMap_eq (mailboxId : ℕ) (items : List MessageCache) :
    uidMap mailboxId items =
      (((items.filterMap (uidPair mailboxId)).foldl (fun m p => m.insert p.1 p.2)
        (∅ : AList fun _ : ℕ => ℕ)).entries.map fun e => (e.1, e.2)).insertionSort
        fun a b => a.1 ≤ b.1 := rfl

theorem uidPair_snd {mailboxId : ℕ} {item : MessageCache} {p : ℕ × ℕ}
    (h : uidPair mailboxId item = some p) : p.2 = item.documentId := by
  obtain ⟨m, -, hm⟩ := List.exists_of_findSome?_eq_some h
  split at hm
  · cases hm
    rfl
  · cases hm

theorem foldl_insert_entries {S : List (ℕ × ℕ)} :
    ∀ {ps : List (ℕ × ℕ)} {m : AList fun _ : ℕ => ℕ}, (∀ e ∈ m.entries, (e.1, e.2) ∈ S) →
      (∀ p ∈ ps, p ∈ S) → ∀ e ∈ (ps.foldl (fun m p => m.insert p.1 p.2) m).entries, (e.1, e.2) ∈ S
  | [], _, hm, _ => hm
  | p :: ps, m, hm, hps => by
    apply foldl_insert_entries _ fun q hq => hps q (List.mem_cons_of_mem _ hq)
    intro e he
    rw [AList.entries_insert, List.mem_cons] at he
    rcases he with rfl | he
    · exact hps p List.mem_cons_self
    · exact hm e ((List.kerase_sublist _ _).subset he)

theorem lt_iff_of_pairwise_lt {α : Type} {f : α → ℕ} {l : List α} (hl : l.Pairwise fun a b => f a < f b)
    {i j : ℕ} {a b : α} (ha : l[i]? = some a) (hb : l[j]? = some b) : f a < f b ↔ i < j := by
  obtain ⟨hi, rfl⟩ := List.getElem?_eq_some_iff.mp ha
  obtain ⟨hj, rfl⟩ := List.getElem?_eq_some_iff.mp hb
  have hpw := List.pairwise_iff_getElem.mp hl
  constructor
  · intro hlt
    by_contra hji
    rcases Nat.lt_or_eq_of_le (Nat.le_of_not_lt hji) with hji | rfl
    · exact absurd (hpw j i hj hi hji) (Nat.lt_asymm hlt)
    · exact Nat.lt_irrefl _ hlt
  · exact hpw i j hi hj

section UidMap

variable (mailboxId : ℕ) (items : List MessageCache)

theorem uidMap_nodup_uids : ((uidMap mailboxId items).map Prod.fst).Nodup := by
  rw [uidMap_eq]
  refine ((List.perm_insertionSort _ _).map Prod.fst).nodup_iff.mpr ?_
  rw [List.map_map]
  exact AList.keys_nodup _

theorem uidMap_pairwise : (uidMap mailboxId items).Pairwise fun a b => a.1 < b.1 := by
  have hnodup := uidMap_nodup_uids mailboxId items
  rw [List.nodup_iff_pairwise_ne, List.pairwise_map] at hnodup
  have : Std.Total fun a b : ℕ × ℕ => a.1 ≤ b.1 := ⟨fun a b => le_total a.1 b.1⟩
  have : IsTrans (ℕ × ℕ) fun a b => a.1 ≤ b.1 := ⟨fun _ _ _ => le_trans⟩
  have hsorted : (uidMap mailboxId items).Pairwise fun a b => a.1 ≤ b.1 := by
    rw [uidMap_eq]
    exact List.pairwise_insertionSort _ _
  exact (hsorted.and hnodup).imp fun h => lt_of_le_of_ne h.1 h.2

theorem uidMap_nodup_docs (hdocs : (items.map (·.documentId)).Nodup) :
    ((uidMap mailboxId items).map Prod.snd).Nodup := by
  set pairs := items.filterMap (uidPair mailboxId)
  have hinj : ∀ p ∈ pairs, ∀ q ∈ pairs, p.2 = q.2 → p = q := by
    intro p hp q hq hpq
    obtain ⟨a, ha, hap⟩ := List.mem_filterMap.mp hp
    obtain ⟨b, hb, hbq⟩ := List.mem_filterMap.mp hq
    have hab : a.documentId = b.documentId := by rw [← uidPair_snd hap, ← uidPair_snd hbq, hpq]
    have := List.inj_on_of_nodup_map hdocs ha hb hab
    subst this
    exact Option.some.inj (hap.symm.trans hbq)
  have hsub : ∀ p ∈ uidMap mailboxId items, p ∈ pairs := by
    intro p hp
    rw [uidMap_eq] at hp
    obtain ⟨e, he, rfl⟩ := List.mem_map.mp ((List.perm_insertionSort _ _).subset hp)
    exact foldl_insert_entries (by simp) (fun _ h => h) e he
  have hnodup : (uidMap mailboxId items).Nodup :=
    List.Nodup.of_map _ (uidMap_nodup_uids mailboxId items)
  exact hnodup.map_on fun p hp q hq => hinj p (hsub p hp) q (hsub q hq)

end UidMap

theorem fetchMessages_eq_some {cache : MessagesCache} {mailboxId : ℕ} {currentState : Option ℕ}
    {s : MailboxState} (h : fetchMessages cache mailboxId currentState = some s) :
    fetchLoop 0 (uidMap mailboxId cache.items) 0 ∅ ∅ = (s.uidMax, s.idToImap, s.uidToId) ∧
      s.totalMessages = s.idToImap.entries.length ∧ s.modseq = cache.changeId ∧
      s.nextState = none := by
  delta fetchMessages at h
  split_ifs at h
  generalize fetchLoop 0 (uidMap mailboxId cache.items) 0 ∅ ∅ = r at h ⊢
  obtain ⟨uidMax, idToImap, uidToId⟩ := r
  cases h
  exact ⟨rfl, rfl, rfl, rfl⟩

namespace MailboxState

theorem fetchMessages_valid {cache : MessagesCache} {mailboxId : ℕ} {currentState : Option ℕ}
    {s : MailboxState} (hdocs : (cache.items.map (·.documentId)).Nodup)
    (h : fetchMessages cache mailboxId currentState = some s) : s.Valid ∧ s.Exact := by
  obtain ⟨hloop, htotal, -, -⟩ := fetchMessages_eq_some h
  set L := uidMap mailboxId cache.items
  have hnum : Numbered 0 L 0 ∅ ∅ (s.uidMax, s.idToImap, s.uidToId) :=
    hloop ▸ fetchLoop_numbered 0 L 0 ∅ ∅ (uidMap_nodup_docs _ _ hdocs) (uidMap_nodup_uids _ _)
      (fun _ _ => AList.notMem_empty _) (fun _ _ => AList.notMem_empty _)
  -- message `i` of `uid_map` is numbered `i + 1`
  have hI : ∀ d x, s.idToImap.lookup d = some x ↔ ∃ i, L[i]? = some (x.uid, d) ∧ x.seqnum = i + 1 := by
    intro d x
    rw [hnum.idToImap_lookup, AList.lookup_empty]
    simp
  have hU : ∀ u d, s.uidToId.lookup u = some d ↔ (u, d) ∈ L := by
    intro u d
    rw [hnum.uidToId_lookup, AList.lookup_empty]
    simp
  have hlen : s.totalMessages = L.length := by
    rw [htotal, hnum.length_entries, AList.empty_entries, List.length_nil, Nat.zero_add]
  have hsorted := uidMap_pairwise mailboxId cache.items
  refine ⟨⟨fun u d => ?_, fun d₁ d₂ x₁ x₂ h₁ h₂ hseq => ?_, fun d₁ d₂ x₁ x₂ h₁ h₂ => ?_,
    fun d x hx => ?_, fun d x hx => ?_⟩, ⟨?_, fun n hn hn' => ?_⟩⟩
  · -- inverse
    rw [hU, List.mem_iff_getElem?]
    constructor
    · rintro ⟨i, hi⟩
      exact ⟨i + 1, (hI d _).mpr ⟨i, hi, rfl⟩⟩
    · rintro ⟨n, hn⟩
      obtain ⟨i, hi, -⟩ := (hI d _).mp hn
      exact ⟨i, hi⟩
  · -- one number, one message
    obtain ⟨i₁, hi₁, hs₁⟩ := (hI d₁ x₁).mp h₁
    obtain ⟨i₂, hi₂, hs₂⟩ := (hI d₂ x₂).mp h₂
    have hi : i₁ = i₂ := by omega
    subst hi
    rw [hi₁, Option.some.injEq, Prod.mk.injEq] at hi₂
    exact hi₂.2
  · -- uid order is number order
    obtain ⟨i₁, hi₁, hs₁⟩ := (hI d₁ x₁).mp h₁
    obtain ⟨i₂, hi₂, hs₂⟩ := (hI d₂ x₂).mp h₂
    rw [lt_iff_of_pairwise_lt hsorted hi₁ hi₂, hs₁, hs₂]
    omega
  · obtain ⟨i, hi, hs⟩ := (hI d x).mp hx
    have := (List.getElem?_eq_some_iff.mp hi).1
    omega
  · obtain ⟨i, hi, -⟩ := (hI d x).mp hx
    exact hnum.uid_le _ (List.mem_of_getElem? hi)
  · -- `uid_max` is 0 or the uid of a message
    rcases hnum.uidMax_mem with h | ⟨⟨u, d⟩, hp, hu⟩
    · exact .inl h
    · obtain ⟨i, hi⟩ := List.mem_iff_getElem?.mp hp
      exact .inr ⟨d, ⟨u, i + 1⟩, (hI d _).mpr ⟨i, hi, rfl⟩, hu⟩
  · -- every number of `1..=total_messages` is taken
    rw [hlen] at hn'
    have hlt : n - 1 < L.length := by omega
    obtain ⟨⟨u, d⟩, hp⟩ : ∃ p, L[n - 1]? = some p := ⟨_, List.getElem?_eq_getElem hlt⟩
    exact ⟨d, ⟨u, n⟩, (hI d _).mpr ⟨n - 1, hp, by dsimp only; omega⟩, rfl⟩

/-- Messages 10 and 11 in mailbox 0 under uids 1 and 2, and message 12 in mailbox 1 only. -/
def twoMessages : MessagesCache := ⟨1, [⟨10, [⟨0, 1⟩]⟩, ⟨11, [⟨1, 5⟩, ⟨0, 2⟩]⟩, ⟨12, [⟨1, 6⟩]⟩]⟩

example :
    ∃ s, fetchMessages twoMessages 0 none = some s ∧ s.Valid ∧ s.Exact := by
  have hdocs : (twoMessages.items.map (·.documentId)).Nodup := by decide
  obtain ⟨s, hf⟩ : ∃ s, fetchMessages twoMessages 0 none = some s := ⟨_, rfl⟩
  exact ⟨s, hf, fetchMessages_valid hdocs hf⟩

end MailboxState


/-! ## `synchronize_messages` and `write_mailbox_changes` -/

/-- What the loop of `synchronize_messages` returns over the maps and deletions it started
with: the messages of `entries` whose uid the fetched state has, the uids of the others
removed, and those others as deletions, in order. -/
structure Synced (fresh : AList fun _ : ℕ => ℕ) (entries : List (Σ _ : ℕ, ImapId))
    (deletions : List ImapId) (uidToId : AList fun _ : ℕ => ℕ) (idToImap : AList fun _ : ℕ => ImapId)
    (r : List ImapId × (AList fun _ : ℕ => ℕ) × (AList fun _ : ℕ => ImapId)) : Prop where
  idToImap_lookup : ∀ d x, r.2.2.lookup d = some x ↔
    idToImap.lookup d = some x ∨ (⟨d, x⟩ ∈ entries ∧ x.uid ∈ fresh)
  uidToId_lookup : ∀ u d, r.2.1.lookup u = some d ↔
    uidToId.lookup u = some d ∧ ∀ e ∈ entries, e.2.uid = u → u ∈ fresh
  deletions_eq : r.1 = deletions ++ (entries.filter fun e => e.2.uid ∉ fresh).map Sigma.snd

theorem syncLoop_nil (fresh : AList fun _ : ℕ => ℕ) (deletions : List ImapId)
    (uidToId : AList fun _ : ℕ => ℕ) (idToImap : AList fun _ : ℕ => ImapId) :
    syncLoop fresh [] deletions uidToId idToImap = (deletions, uidToId, idToImap) := rfl

theorem syncLoop_cons (fresh : AList fun _ : ℕ => ℕ) (id : ℕ) (imapId : ImapId)
    (rest : List (Σ _ : ℕ, ImapId)) (deletions : List ImapId) (uidToId : AList fun _ : ℕ => ℕ)
    (idToImap : AList fun _ : ℕ => ImapId) :
    syncLoop fresh (⟨id, imapId⟩ :: rest) deletions uidToId idToImap =
      if imapId.uid ∈ fresh then syncLoop fresh rest deletions uidToId (idToImap.insert id imapId)
      else syncLoop fresh rest (deletions ++ [imapId]) (uidToId.erase imapId.uid) idToImap := rfl

namespace Synced

variable {fresh : AList fun _ : ℕ => ℕ} {id : ℕ} {imapId : ImapId}
  {rest : List (Σ _ : ℕ, ImapId)} {deletions : List ImapId} {uidToId : AList fun _ : ℕ => ℕ}
  {idToImap : AList fun _ : ℕ => ImapId}
  {r : List ImapId × (AList fun _ : ℕ => ℕ) × (AList fun _ : ℕ => ImapId)}

theorem kept (hin : imapId.uid ∈ fresh) (hnone : idToImap.lookup id = none)
    (hrest : ∀ x, (⟨id, x⟩ : Σ _ : ℕ, ImapId) ∉ rest)
    (ih : Synced fresh rest deletions uidToId (idToImap.insert id imapId) r) :
    Synced fresh (⟨id, imapId⟩ :: rest) deletions uidToId idToImap r := by
  refine ⟨fun d x => ?_, fun u d => ?_, ?_⟩
  · rw [ih.idToImap_lookup, lookup_insert_eq_ite, List.mem_cons]
    by_cases hd : d = id
    · subst hd
      rw [if_pos rfl, hnone]
      constructor
      · rintro (h | ⟨h, -⟩)
        · cases h
          exact .inr ⟨.inl rfl, hin⟩
        · exact absurd h (hrest x)
      · rintro (h | ⟨h | h, -⟩)
        · cases h
        · cases h
          exact .inl rfl
        · exact absurd h (hrest x)
    · rw [if_neg hd]
      have hne : (⟨d, x⟩ : Σ _ : ℕ, ImapId) ≠ ⟨id, imapId⟩ := fun h => hd (congrArg Sigma.fst h)
      simp only [hne, false_or]
  · rw [ih.uidToId_lookup, List.forall_mem_cons]
    constructor
    · rintro ⟨h, hall⟩
      exact ⟨h, fun hu => hu ▸ hin, hall⟩
    · rintro ⟨h, -, hall⟩
      exact ⟨h, hall⟩
  · rw [ih.deletions_eq, List.filter_cons_of_neg (by simpa using hin)]

theorem dropped (hin : imapId.uid ∉ fresh)
    (ih : Synced fresh rest (deletions ++ [imapId]) (uidToId.erase imapId.uid) idToImap r) :
    Synced fresh (⟨id, imapId⟩ :: rest) deletions uidToId idToImap r := by
  refine ⟨fun d x => ?_, fun u d => ?_, ?_⟩
  · rw [ih.idToImap_lookup, List.mem_cons]
    constructor
    · rintro (h | ⟨h, hx⟩)
      · exact .inl h
      · exact .inr ⟨.inr h, hx⟩
    · rintro (h | ⟨h | h, hx⟩)
      · exact .inl h
      · cases h
        exact absurd hx hin
      · exact .inr ⟨h, hx⟩
  · rw [ih.uidToId_lookup, lookup_erase_eq_ite, List.forall_mem_cons]
    by_cases hu : u = imapId.uid
    · subst hu
      rw [if_pos rfl]
      constructor
      · rintro ⟨h, -⟩
        cases h
      · rintro ⟨-, hhead, -⟩
        exact absurd (hhead rfl) hin
    · rw [if_neg hu]
      constructor
      · rintro ⟨h, hall⟩
        exact ⟨h, fun hu' => absurd hu'.symm hu, hall⟩
      · rintro ⟨h, -, hall⟩
        exact ⟨h, hall⟩
  · rw [ih.deletions_eq, List.filter_cons_of_pos (by simpa using hin)]
    simp

end Synced

theorem syncLoop_synced (fresh : AList fun _ : ℕ => ℕ) :
    ∀ (entries : List (Σ _ : ℕ, ImapId)) (deletions : List ImapId)
      (uidToId : AList fun _ : ℕ => ℕ) (idToImap : AList fun _ : ℕ => ImapId),
      entries.NodupKeys → (∀ e ∈ entries, e.1 ∉ idToImap) →
      Synced fresh entries deletions uidToId idToImap
        (syncLoop fresh entries deletions uidToId idToImap)
  | [], deletions, uidToId, idToImap, _, _ => by
    rw [syncLoop_nil]
    exact ⟨fun d x => by simp, fun u d => by simp, by simp⟩
  | ⟨id, imapId⟩ :: rest, deletions, uidToId, idToImap, hkeys, hfree => by
    rw [List.nodupKeys_cons] at hkeys
    have hid : id ∉ idToImap := hfree _ List.mem_cons_self
    have hnone : idToImap.lookup id = none := AList.lookup_eq_none.mpr hid
    have hrest : ∀ x, (⟨id, x⟩ : Σ _ : ℕ, ImapId) ∉ rest := by
      intro x hx
      have hk := List.mem_keys_of_mem hx
      exact hkeys.1 hk
    rw [syncLoop_cons]
    by_cases hin : imapId.uid ∈ fresh
    · rw [if_pos hin]
      have hfree' : ∀ e ∈ rest, e.1 ∉ idToImap.insert id imapId := by
        intro e he
        rw [AList.mem_insert, not_or]
        have hk := List.mem_keys_of_mem he
        exact ⟨fun h => hkeys.1 (h ▸ hk), hfree e (List.mem_cons_of_mem _ he)⟩
      exact (syncLoop_synced fresh rest deletions uidToId _ hkeys.2 hfree').kept hin hnone hrest
    · rw [if_neg hin]
      exact Synced.dropped hin (syncLoop_synced fresh rest (deletions ++ [imapId])
        (uidToId.erase imapId.uid) idToImap hkeys.2 fun e he => hfree e (List.mem_cons_of_mem _ he))

theorem synchronizeMessages_cases (cache : MessagesCache) (mailboxId : ℕ) (state : MailboxState) :
    (fetchMessages cache mailboxId (some state.modseq) = none ∧
        synchronizeMessages cache mailboxId state = (state, state.modseq)) ∨
      ∃ fresh r, fetchMessages cache mailboxId (some state.modseq) = some fresh ∧
        syncLoop fresh.uidToId state.idToImap.entries
          ((state.nextState.map NextMailboxState.deletions).getD []) state.uidToId ∅ = r ∧
        synchronizeMessages cache mailboxId state =
          ({ state with
              idToImap := r.2.2
              uidToId := r.2.1
              modseq := fresh.modseq
              nextState := some ⟨fresh, r.1⟩ }, fresh.modseq) := by
  cases hf : fetchMessages cache mailboxId (some state.modseq) with
  | none =>
    refine .inl ⟨rfl, ?_⟩
    delta synchronizeMessages
    rw [hf]
  | some fresh =>
    refine .inr ⟨fresh, _, rfl, rfl, ?_⟩
    delta synchronizeMessages
    rw [hf]

namespace MailboxState

theorem Valid.synchronizeMessages {state : MailboxState} (hv : state.Valid) (cache : MessagesCache)
    (mailboxId : ℕ) : (EsmpServer.Imap.synchronizeMessages cache mailboxId state).1.Valid := by
  rcases synchronizeMessages_cases cache mailboxId state with ⟨-, h⟩ | ⟨fresh, r, -, hr, h⟩
  · rw [h]
    exact hv
  · rw [h]
    have hsync := hr ▸ syncLoop_synced fresh.uidToId state.idToImap.entries
      ((state.nextState.map NextMailboxState.deletions).getD []) state.uidToId ∅
      state.idToImap.nodupKeys fun _ _ => AList.notMem_empty _
    have hI : ∀ d x, r.2.2.lookup d = some x ↔ state.idToImap.lookup d = some x ∧ x.uid ∈ fresh.uidToId := by
      intro d x
      rw [hsync.idToImap_lookup, AList.lookup_empty, lookup_eq_some_iff_mem_entries]
      simp
    have hU : ∀ u d, r.2.1.lookup u = some d ↔ state.uidToId.lookup u = some d ∧
        ∀ d' x, state.idToImap.lookup d' = some x → x.uid = u → u ∈ fresh.uidToId := by
      intro u d
      rw [hsync.uidToId_lookup]
      refine and_congr_right fun _ => ⟨fun hall d' x hx => hall ⟨d', x⟩ ?_, fun hall e he => ?_⟩
      · exact lookup_eq_some_iff_mem_entries.mp hx
      · exact hall e.1 e.2 (lookup_eq_some_iff_mem_entries.mpr he)
    refine ⟨fun u d => ?_, fun d₁ d₂ i₁ i₂ h₁ h₂ => hv.seqnum_inj d₁ d₂ i₁ i₂ ((hI _ _).mp h₁).1
      ((hI _ _).mp h₂).1, fun d₁ d₂ i₁ i₂ h₁ h₂ => hv.order d₁ d₂ i₁ i₂ ((hI _ _).mp h₁).1
      ((hI _ _).mp h₂).1, fun d i h => hv.seqnum_mem d i ((hI _ _).mp h).1,
      fun d i h => hv.uid_le d i ((hI _ _).mp h).1⟩
    dsimp only
    rw [hU]
    constructor
    · rintro ⟨hu, hall⟩
      obtain ⟨n, hn⟩ := (hv.inverse u d).mp hu
      exact ⟨n, (hI d _).mpr ⟨hn, hall d _ hn rfl⟩⟩
    · rintro ⟨n, hn⟩
      obtain ⟨hn, hfresh⟩ := (hI d _).mp hn
      exact ⟨(hv.inverse u d).mpr ⟨n, hn⟩, fun _ _ _ _ => hfresh⟩

/-- The invariant of a selected mailbox between two commands: the state is valid, and a parked
state is one just fetched. -/
structure SessionInv (s : MailboxState) : Prop where
  valid : s.Valid
  parked : ∀ next, s.nextState = some next →
    next.nextState.Valid ∧ next.nextState.Exact ∧ next.nextState.nextState = none

theorem SessionInv.of_fetchMessages {cache : MessagesCache} {mailboxId : ℕ} {currentState : Option ℕ}
    {s : MailboxState} (hdocs : (cache.items.map (·.documentId)).Nodup)
    (h : fetchMessages cache mailboxId currentState = some s) : s.SessionInv := by
  refine ⟨(fetchMessages_valid hdocs h).1, fun next hnext => ?_⟩
  rw [(fetchMessages_eq_some h).2.2.2] at hnext
  cases hnext

theorem SessionInv.synchronizeMessages {state : MailboxState} (hinv : state.SessionInv)
    {cache : MessagesCache} (hdocs : (cache.items.map (·.documentId)).Nodup) (mailboxId : ℕ) :
    (EsmpServer.Imap.synchronizeMessages cache mailboxId state).1.SessionInv := by
  refine ⟨hinv.valid.synchronizeMessages cache mailboxId, ?_⟩
  rcases synchronizeMessages_cases cache mailboxId state with ⟨-, h⟩ | ⟨fresh, r, hf, -, h⟩
  · rw [h]
    exact hinv.parked
  · rw [h]
    rintro next hnext
    cases hnext
    obtain ⟨hv, hexact⟩ := fetchMessages_valid hdocs hf
    exact ⟨hv, hexact, (fetchMessages_eq_some hf).2.2.2⟩

end MailboxState

theorem writeMailboxChanges_state (cache : MessagesCache) (mailboxId : ℕ) (isQresync : Bool)
    (state : MailboxState) :
    (writeMailboxChanges cache mailboxId isQresync state).1 =
      ((synchronizeMessages cache mailboxId state).1.nextState.map NextMailboxState.nextState).getD
        (synchronizeMessages cache mailboxId state).1 := by
  delta writeMailboxChanges
  generalize synchronizeMessages cache mailboxId state = r
  obtain ⟨⟨uidMax, idToImap, uidToId, totalMessages, modseq, _ | next⟩, modseq'⟩ := r <;> rfl

namespace MailboxState

theorem SessionInv.writeMailboxChanges {state : MailboxState} (hinv : state.SessionInv)
    {cache : MessagesCache} (hdocs : (cache.items.map (·.documentId)).Nodup) (mailboxId : ℕ)
    (isQresync : Bool) :
    (EsmpServer.Imap.writeMailboxChanges cache mailboxId isQresync state).1.SessionInv := by
  have hsync := hinv.synchronizeMessages hdocs mailboxId
  rw [writeMailboxChanges_state]
  cases hnext : (EsmpServer.Imap.synchronizeMessages cache mailboxId state).1.nextState with
  | none =>
    rw [Option.map_none, Option.getD_none]
    exact hsync
  | some next =>
    rw [Option.map_some, Option.getD_some]
    obtain ⟨hv, -, hnone⟩ := hsync.parked next hnext
    refine ⟨hv, fun next' hnext' => ?_⟩
    rw [hnone] at hnext'
    cases hnext'

end MailboxState

/-! ## A session -/

/-- What a session does to its selected mailbox between two commands: synchronize, or
synchronize and announce the changes. -/
inductive MailboxEvent where
  | synchronize (cache : MessagesCache)
  | writeChanges (cache : MessagesCache) (isQresync : Bool)

/-- The message cache an event reads. -/
def MailboxEvent.cache : MailboxEvent → MessagesCache
  | .synchronize cache => cache
  | .writeChanges cache _ => cache

/-- The state after one event. -/
def MailboxEvent.apply (mailboxId : ℕ) (state : MailboxState) : MailboxEvent → MailboxState
  | .synchronize cache => (synchronizeMessages cache mailboxId state).1
  | .writeChanges cache isQresync => (writeMailboxChanges cache mailboxId isQresync state).1

/-- The state after a run of events. -/
def runEvents (mailboxId : ℕ) (state : MailboxState) (events : List MailboxEvent) : MailboxState :=
  events.foldl (MailboxEvent.apply mailboxId) state

namespace MailboxState

theorem SessionInv.apply {state : MailboxState} (hinv : state.SessionInv) (mailboxId : ℕ)
    {e : MailboxEvent} (hdocs : (e.cache.items.map (·.documentId)).Nodup) :
    (e.apply mailboxId state).SessionInv := by
  cases e with
  | synchronize cache => exact hinv.synchronizeMessages hdocs mailboxId
  | writeChanges cache isQresync => exact hinv.writeMailboxChanges hdocs mailboxId isQresync

theorem SessionInv.runEvents (mailboxId : ℕ) :
    ∀ (state : MailboxState) (events : List MailboxEvent), state.SessionInv →
      (∀ e ∈ events, (e.cache.items.map (·.documentId)).Nodup) →
      (EsmpServer.Imap.runEvents mailboxId state events).SessionInv
  | _, [], hinv, _ => hinv
  | state, e :: events, hinv, hdocs =>
    SessionInv.runEvents mailboxId (e.apply mailboxId state) events
      (hinv.apply mailboxId (hdocs e List.mem_cons_self))
      fun e' he' => hdocs e' (List.mem_cons_of_mem _ he')

end MailboxState

/-- A session that selected a mailbox and only synchronizes and announces changes keeps the
invariant of its state: uids and document ids map to each other, and sequence numbers are
distinct, in uid order, within `1..=total_messages`, with no uid above `uid_max`. -/
theorem runEvents_valid {cache : MessagesCache} {mailboxId : ℕ} {currentState : Option ℕ}
    {s : MailboxState} (hdocs : (cache.items.map (·.documentId)).Nodup)
    (h : fetchMessages cache mailboxId currentState = some s) {events : List MailboxEvent}
    (hevents : ∀ e ∈ events, (e.cache.items.map (·.documentId)).Nodup) :
    (runEvents mailboxId s events).Valid :=
  ((MailboxState.SessionInv.of_fetchMessages hdocs h).runEvents mailboxId s events hevents).valid

/-- The cache after message 10 left mailbox 0. -/
def tenExpunged : MessagesCache := ⟨2, [⟨11, [⟨1, 5⟩, ⟨0, 2⟩]⟩, ⟨12, [⟨1, 6⟩]⟩]⟩

theorem runEvents_valid_tenExpunged :
    ∃ s, fetchMessages MailboxState.twoMessages 0 none = some s ∧
      (runEvents 0 s [.synchronize tenExpunged, .writeChanges tenExpunged false]).Valid := by
  have hdocs : (MailboxState.twoMessages.items.map (·.documentId)).Nodup := by decide
  have hevents : ∀ e ∈ [MailboxEvent.synchronize tenExpunged, .writeChanges tenExpunged false],
      (e.cache.items.map (·.documentId)).Nodup := by decide
  obtain ⟨s, hf⟩ : ∃ s, fetchMessages MailboxState.twoMessages 0 none = some s := ⟨_, rfl⟩
  exact ⟨s, hf, runEvents_valid hdocs hf hevents⟩

/-! ## What is announced -/

theorem writeMailboxChanges_expunged_eq (cache : MessagesCache) (mailboxId : ℕ) (isQresync : Bool)
    (state : MailboxState) :
    (writeMailboxChanges cache mailboxId isQresync state).2.1.expunged =
      (synchronizeMessages cache mailboxId state).1.nextState.bind fun next =>
        if next.deletions = [] then none
        else some ((next.deletions.map fun id => if isQresync then id.uid else id.seqnum).insertionSort
          fun a b => a ≤ b) := by
  delta writeMailboxChanges
  generalize synchronizeMessages cache mailboxId state = r
  obtain ⟨⟨uidMax, idToImap, uidToId, totalMessages, modseq, _ | next⟩, modseq'⟩ := r <;> rfl

theorem MailboxState.Valid.eq_of_key_eq {state : MailboxState} (hv : state.Valid) (isQresync : Bool)
    {e₁ e₂ : Σ _ : ℕ, ImapId} (h₁ : e₁ ∈ state.idToImap.entries) (h₂ : e₂ ∈ state.idToImap.entries)
    (h : (if isQresync then e₁.2.uid else e₁.2.seqnum) = if isQresync then e₂.2.uid else e₂.2.seqnum) :
    e₁ = e₂ := by
  have hl₁ := lookup_eq_some_iff_mem_entries.mpr h₁
  have hl₂ := lookup_eq_some_iff_mem_entries.mpr h₂
  have hd : e₁.1 = e₂.1 := by
    cases isQresync with
    | true =>
      have hu₁ := (hv.inverse e₁.2.uid e₁.1).mpr ⟨e₁.2.seqnum, hl₁⟩
      have hu₂ := (hv.inverse e₂.2.uid e₂.1).mpr ⟨e₂.2.seqnum, hl₂⟩
      rw [if_pos rfl, if_pos rfl] at h
      rw [h, hu₂] at hu₁
      exact (Option.some.inj hu₁).symm
    | false =>
      rw [if_neg Bool.false_ne_true, if_neg Bool.false_ne_true] at h
      exact hv.seqnum_inj _ _ _ _ hl₁ hl₂ h
  obtain ⟨d₁, x₁⟩ := e₁
  obtain ⟨d₂, x₂⟩ := e₂
  dsimp only at hd
  subst hd
  rw [hl₁] at hl₂
  cases hl₂
  rfl

/-- After a synchronization that finds the cache changed, from a state with nothing parked,
`write_mailbox_changes` announces as expunged the sequence numbers (the uids under QRESYNC) of
the messages whose uid the fetched state lacks, each once, in increasing order. -/
theorem writeMailboxChanges_expunged {cache : MessagesCache} {mailboxId : ℕ} {isQresync : Bool}
    {state fresh : MailboxState} (hv : state.Valid) (hnext : state.nextState = none)
    (hf : fetchMessages cache mailboxId (some state.modseq) = some fresh) :
    ∃ ids : List ℕ, (writeMailboxChanges cache mailboxId isQresync state).2.1.expunged =
        (if ids = [] then none else some ids) ∧
      ids.Pairwise (· < ·) ∧
      ∀ n, n ∈ ids ↔ ∃ d x, state.idToImap.lookup d = some x ∧ x.uid ∉ fresh.uidToId ∧
        n = if isQresync then x.uid else x.seqnum := by
  rcases synchronizeMessages_cases cache mailboxId state with ⟨hnone, -⟩ | ⟨fresh', r, hf', hr, hsync⟩
  · rw [hf] at hnone
    cases hnone
  rw [hf] at hf'
  cases hf'
  have hsynced := hr ▸ syncLoop_synced fresh.uidToId state.idToImap.entries
    ((state.nextState.map NextMailboxState.deletions).getD []) state.uidToId ∅
    state.idToImap.nodupKeys fun _ _ => AList.notMem_empty _
  have hdel := hsynced.deletions_eq
  rw [hnext, Option.map_none, Option.getD_none, List.nil_append] at hdel
  set key : ImapId → ℕ := fun id => if isQresync then id.uid else id.seqnum
  set dropped := state.idToImap.entries.filter fun e => e.2.uid ∉ fresh.uidToId
  refine ⟨(r.1.map key).insertionSort fun a b => a ≤ b, ?_, ?_, fun n => ?_⟩
  · -- the parked deletions are the dropped messages
    rw [writeMailboxChanges_expunged_eq, hsync]
    dsimp only [Option.bind_some]
    have hempty : ((r.1.map key).insertionSort fun a b => a ≤ b) = [] ↔ r.1 = [] := by
      rw [← List.length_eq_zero_iff, (List.perm_insertionSort _ _).length_eq, List.length_map,
        List.length_eq_zero_iff]
    by_cases h : r.1 = []
    · rw [if_pos h, if_pos (hempty.mpr h)]
    · rw [if_neg h, if_neg (mt hempty.mp h)]
  · -- sorted, and without repeats since a key names one message
    have : Std.Total fun a b : ℕ => a ≤ b := ⟨le_total⟩
    have hsorted := List.pairwise_insertionSort (fun a b : ℕ => a ≤ b) (r.1.map key)
    have hnodup : (r.1.map key).Nodup := by
      rw [hdel, List.map_map]
      refine List.Nodup.map_on (fun e₁ he₁ e₂ he₂ h => ?_) (List.nodupKeys_iff_pairwise.mp
        state.idToImap.nodupKeys |>.imp (fun h he => h (congrArg Sigma.fst he)) |>.filter _)
      exact hv.eq_of_key_eq isQresync (List.mem_of_mem_filter he₁) (List.mem_of_mem_filter he₂) h
    have hnodup' := (List.perm_insertionSort (fun a b : ℕ => a ≤ b) _).nodup_iff.mpr hnodup
    rw [List.nodup_iff_pairwise_ne] at hnodup'
    exact (hsorted.and hnodup').imp fun h => lt_of_le_of_ne h.1 h.2
  · rw [(List.perm_insertionSort _ _).mem_iff, hdel, List.map_map, List.mem_map]
    constructor
    · rintro ⟨e, he, rfl⟩
      obtain ⟨he, hdrop⟩ := List.mem_filter.mp he
      exact ⟨e.1, e.2, lookup_eq_some_iff_mem_entries.mpr he, by simpa using hdrop, rfl⟩
    · rintro ⟨d, x, hx, hdrop, rfl⟩
      exact ⟨⟨d, x⟩, List.mem_filter.mpr ⟨lookup_eq_some_iff_mem_entries.mp hx, by simpa using hdrop⟩, rfl⟩

theorem writeMailboxChanges_expunged_tenExpunged :
    ∃ s fresh, fetchMessages MailboxState.twoMessages 0 none = some s ∧
      fetchMessages tenExpunged 0 (some s.modseq) = some fresh ∧
      (writeMailboxChanges tenExpunged 0 false s).2.1.expunged = some [1] ∧
      ∃ ids : List ℕ, (writeMailboxChanges tenExpunged 0 false s).2.1.expunged =
          (if ids = [] then none else some ids) ∧
        ids.Pairwise (· < ·) ∧
        ∀ n, n ∈ ids ↔ ∃ d x, s.idToImap.lookup d = some x ∧ x.uid ∉ fresh.uidToId ∧
          n = if false then x.uid else x.seqnum := by
  have hdocs : (MailboxState.twoMessages.items.map (·.documentId)).Nodup := by decide
  obtain ⟨s, hf⟩ : ∃ s, fetchMessages MailboxState.twoMessages 0 none = some s := ⟨_, rfl⟩
  obtain ⟨fresh, hfresh⟩ : ∃ fresh, fetchMessages tenExpunged 0 (some s.modseq) = some fresh :=
    by rw [(fetchMessages_eq_some hf).2.2.1]; exact ⟨_, rfl⟩
  have hnext : s.nextState = none := (fetchMessages_eq_some hf).2.2.2
  refine ⟨s, fresh, hf, hfresh, ?_, writeMailboxChanges_expunged
    (MailboxState.fetchMessages_valid hdocs hf).1 hnext hfresh⟩
  obtain rfl : s = _ := Option.some.inj hf.symm
  rfl

end EsmpServer.Imap
