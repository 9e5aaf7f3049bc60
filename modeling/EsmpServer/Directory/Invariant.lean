import EsmpServer.Directory.Manage

/-!
# What the management requests keep true of the directory

`Store.Consistent` collects what every request keeps: both directions of a
membership are stored together, a membership names only live principals or
built-in roles, the name index and the records agree both ways, and every entry
of the e-mail index names a record that lists the address. Each request keeps
it (`Consistent.createPrincipal`, `Consistent.deletePrincipal`,
`Consistent.updatePrincipal`), hence so does every run from the empty store.

The e-mail index is only sound, not complete: a record can list an address
twice, or list one that the index gives to another principal
(`run_duplicateEmail`).
-/

namespace EsmpServer.Directory

namespace Store

variable {d d' : Store}

/-- The record stored under a principal key. -/
def record (d : Store) (principalId : ℕ) : Option Principal :=
  d.values.lookup (DirectoryClass.principal principalId)

/-- The e-mail index. -/
def emailInfo (d : Store) (email : String) : Option PrincipalInfo :=
  d.values.lookup (DirectoryClass.emailToId email)

/-- What the management requests keep true of the store. -/
structure Consistent (d : Store) : Prop where
  /-- a memberOf key is stored exactly when its members mirror is -/
  mirrorClosed : AList.MirrorClosed DirectoryClass.IsMembership DirectoryClass.mirror d.values
  /-- a membership names live principals, or a built-in role as the group -/
  liveIn : ∀ k ∈ d.values, k.LiveIn d
  /-- a record sits under its own id, one the counter has handed out -/
  record_id : ∀ i p, d.record i = some p → p.id = i ∧ 0 < i ∧ i ≤ d.principalIds
  /-- the name index points at the record of that name and type -/
  nameToId_sound : ∀ n info, d.getPrincipalInfo n = some info →
    ∃ p, d.record info.id = some p ∧ p.name = n ∧ p.typ = info.typ
  /-- every record's name points at it -/
  nameToId_complete : ∀ i p, d.record i = some p → d.getPrincipalInfo p.name = some ⟨i, p.typ⟩
  /-- the e-mail index points at a record that lists the address -/
  emailToId_sound : ∀ e info, d.emailInfo e = some info →
    ∃ p, d.record info.id = some p ∧ e ∈ p.emails ∧ p.typ = info.typ

theorem live_iff : d.Live i ↔ (d.record i).isSome := AList.lookup_isSome.symm

theorem Live.of_record {p : Principal} (h : d.record i = some p) : d.Live i :=
  live_iff.mpr (by simp [h])

theorem getPrincipal_eq_record (h : d.Consistent) (i : ℕ) : d.getPrincipal i = d.record i := by
  change (d.record i).map _ = d.record i
  cases hp : d.record i with
  | none => rfl
  | some p =>
    obtain ⟨hid, -⟩ := h.record_id i p hp
    subst hid
    rfl

theorem empty_consistent : Store.empty.Consistent where
  mirrorClosed := by simp [AList.MirrorClosed, Store.empty]
  liveIn := by simp [Store.empty]
  record_id := by simp [record, Store.empty]
  nameToId_sound := by simp [Store.empty]
  nameToId_complete := by simp [record, Store.empty]
  emailToId_sound := by simp [emailInfo, Store.empty]

theorem Consistent.live_of_getPrincipalInfo (h : d.Consistent) {name : String}
    {v : PrincipalInfo} (hv : d.getPrincipalInfo name = some v) : d.Live v.id := by
  obtain ⟨p, hp, -⟩ := h.nameToId_sound name v hv
  exact .of_record hp

theorem mapInternalRoles_eq_some {field : PrincipalField} {name : String} {v : PrincipalInfo}
    (h : field.mapInternalRoles name = some v) : IsInternalRole v.id := by
  unfold PrincipalField.mapInternalRoles PrincipalField.mapInternalRoleName at h
  split at h <;> simp only [Option.map_some, Option.some.injEq, Option.map_none,
    reduceCtorEq] at h <;> subst h <;> simp [IsInternalRole]

theorem Consistent.mapMember_live (h : d.Consistent) {field : PrincipalField}
    {ty : Option PrincipalType} {name : String} {v : PrincipalInfo}
    (hv : d.mapMember field ty name = .ok v) : d.Live v.id ∨ IsInternalRole v.id := by
  unfold mapMember at hv
  split at hv
  · rename_i hr
    cases hv
    exact .inr (mapInternalRoles_eq_some hr)
  · rename_i hf _
    cases hv
    exact .inl (h.live_of_getPrincipalInfo (Option.eq_some_of_filter_eq_some hf))
  · cases hv

theorem Consistent.mapMember_members_live (h : d.Consistent) {ty : Option PrincipalType}
    {name : String} {v : PrincipalInfo} (hv : d.mapMember .members ty name = .ok v) :
    d.Live v.id := by
  unfold mapMember at hv
  split at hv
  · rename_i hr
    simp [PrincipalField.mapInternalRoles, PrincipalField.mapInternalRoleName] at hr
  · rename_i hf _
    cases hv
    exact h.live_of_getPrincipalInfo (Option.eq_some_of_filter_eq_some hf)
  · cases hv

/-! ### Keys a batch does not write -/

theorem isMembership_of_mem_setMembership {op : BatchOp} {p g : ℕ} {t : PrincipalType}
    (h : op ∈ setMembership p g t) : op.key.IsMembership := by
  simp only [setMembership, List.mem_cons, List.mem_nil_iff, or_false] at h
  rcases h with rfl | rfl <;> trivial

theorem isMembership_of_mem_clearMembership {op : BatchOp} {p g : ℕ}
    (h : op ∈ clearMembership p g) : op.key.IsMembership := by
  simp only [clearMembership, List.mem_cons, List.mem_nil_iff, or_false] at h
  rcases h with rfl | rfl <;> trivial

theorem lookup_applyBatch_of_isMembership {s : AList DirectoryClass.Value} {ops : List BatchOp}
    {k : DirectoryClass} (hops : ∀ op ∈ ops, op.key.IsMembership) (hk : ¬ k.IsMembership) :
    (s.applyBatch ops).lookup k = s.lookup k :=
  AList.lookup_applyBatch_of_forall_ne fun op hop h => hk (h ▸ hops op hop)

theorem setMembership_paired (p g : ℕ) (t : PrincipalType) :
    AList.Paired DirectoryClass.IsMembership DirectoryClass.mirror (setMembership p g t) :=
  .set (a := DirectoryClass.memberOf p g) trivial .nil

theorem clearMembership_paired (p g : ℕ) :
    AList.Paired DirectoryClass.IsMembership DirectoryClass.mirror (clearMembership p g) :=
  .clear (a := DirectoryClass.memberOf p g) trivial .nil

/-! ### create_principal -/

theorem createPrincipal_eq {ps : PrincipalSet} {i : ℕ} (hc : d.createPrincipal ps = .ok (i, d')) :
    d.getPrincipalInfo (toLowercase ps.name) = none ∧ i = (d.principalIds + 1) % 2 ^ 32 ∧
      ∃ emails memberOf members,
        (∀ g ∈ memberOf, ∃ field ty name, d.mapMember field ty name = .ok g) ∧
        (∀ m ∈ members, ∃ name, d.mapMember .members none name = .ok m) ∧
        d' = { d with principalIds := d.principalIds + 1 }.write
          (createBatch i ps.typ (toLowercase ps.name) emails memberOf members) := by
  simp only [createPrincipal, throw, throwThe, MonadExceptOf.throw] at hc
  split at hc
  · cases hc
  split at hc
  · cases hc
  rename_i hname
  obtain ⟨members, hmembers, hc⟩ := Except.bind_eq_ok.mp hc
  obtain ⟨memberOf, hmemberOf, hc⟩ := Except.bind_eq_ok.mp hc
  obtain ⟨lists, hlists, hc⟩ := Except.bind_eq_ok.mp hc
  obtain ⟨roles, hroles, hc⟩ := Except.bind_eq_ok.mp hc
  -- the e-mail list is the checked one, or empty for an OAuth client
  obtain ⟨emails, hc⟩ : ∃ emails, ((d.principalIds + 1) % 2 ^ 32,
      { d with principalIds := d.principalIds + 1 }.write (createBatch ((d.principalIds + 1) % 2 ^ 32)
        ps.typ (toLowercase ps.name) emails (memberOf ++ lists ++ roles) members)) = (i, d') := by
    split at hc
    · obtain ⟨emails, -, hc⟩ := Except.bind_eq_ok.mp hc
      exact ⟨emails, Except.ok.inj hc⟩
    · exact ⟨[], Except.ok.inj hc⟩
  obtain ⟨rfl, rfl⟩ := Prod.mk.inj hc
  have hfree : d.getPrincipalInfo (toLowercase ps.name) = none := by
    cases hv : d.getPrincipalInfo (toLowercase ps.name) with
    | none => rfl
    | some v =>
      simp only [getPrincipalId, hv] at hname
      simp at hname
  refine ⟨hfree, rfl, emails, memberOf ++ lists ++ roles, members,
    ?_, ?_, rfl⟩
  · intro g hg
    simp only [List.mem_append] at hg
    rcases hg with (hg | hg) | hg
    · obtain ⟨n, -, hn⟩ := List.mem_of_mapM_except hmemberOf g hg
      exact ⟨_, _, n, hn⟩
    · obtain ⟨n, -, hn⟩ := List.mem_of_mapM_except hlists g hg
      exact ⟨_, _, n, hn⟩
    · obtain ⟨n, -, hn⟩ := List.mem_of_mapM_except hroles g hg
      exact ⟨_, _, n, hn⟩
  · intro m hm
    obtain ⟨n, -, hn⟩ := List.mem_of_mapM_except hmembers m hm
    exact ⟨n, hn⟩

section CreateBatch

variable {s : AList DirectoryClass.Value} {i : ℕ} {typ : PrincipalType} {name : String}
  {emails : List String} {memberOf members : List PrincipalInfo}

theorem createBatch_paired :
    AList.Paired DirectoryClass.IsMembership DirectoryClass.mirror
      (createBatch i typ name emails memberOf members) := by
  refine ((AList.Paired.other (m := DirectoryClass.mirror) id (.other id .nil)).append
    (AList.paired_of_forall (by simp [DirectoryClass.IsMembership, AList.BatchOp.key]))).append (AList.paired_flatMap fun g _ => ?_) |>.append
    (AList.paired_flatMap fun m _ => ?_)
  · exact setMembership_paired _ _ _
  · exact setMembership_paired _ _ _

theorem lookup_createBatch {k : DirectoryClass} (hk : ¬ k.IsMembership)
    (he : ∀ e, k ≠ .emailToId e) :
    (s.applyBatch (createBatch i typ name emails memberOf members)).lookup k =
      ((s.insert (.principal i) (⟨i, typ, name, emails⟩ : Principal)).insert (.nameToId name)
        (⟨i, typ⟩ : PrincipalInfo)).lookup k := by
  have hmem : ∀ op ∈ memberOf.flatMap (fun g => setMembership i g.id g.typ) ++
      members.flatMap (fun m => setMembership m.id i typ), op.key.IsMembership := by
    simp only [List.mem_append, List.mem_flatMap]
    rintro op (⟨g, -, hop⟩ | ⟨m, -, hop⟩) <;> exact isMembership_of_mem_setMembership hop
  have hm₁ : ∀ op ∈ memberOf.flatMap (fun g => setMembership i g.id g.typ), op.key.IsMembership :=
    fun op hop => hmem op (List.mem_append_left _ hop)
  have hm₂ : ∀ op ∈ members.flatMap (fun m => setMembership m.id i typ), op.key.IsMembership :=
    fun op hop => hmem op (List.mem_append_right _ hop)
  rw [createBatch, AList.applyBatch_append, AList.applyBatch_append, AList.applyBatch_append,
    lookup_applyBatch_of_isMembership hm₂ hk, lookup_applyBatch_of_isMembership hm₁ hk,
    AList.lookup_applyBatch_of_forall_ne]
  · rfl
  · simp only [List.mem_map]
    rintro op ⟨e, -, rfl⟩ h
    exact he e h.symm

theorem lookup_createBatch_eq_some_emailToId {e : String} {info : PrincipalInfo}
    (h : (s.applyBatch (createBatch i typ name emails memberOf members)).lookup
      (DirectoryClass.emailToId e) = some info) :
    (info = ⟨i, typ⟩ ∧ e ∈ emails) ∨ s.lookup (DirectoryClass.emailToId e) = some info := by
  rcases AList.lookup_applyBatch_eq_some h with h | h
  · exact .inr h
  · left
    simp only [createBatch, List.mem_append, List.mem_map, List.mem_flatMap, List.mem_cons,
      setMembership, List.not_mem_nil, or_false] at h
    rcases h with (((h | h) | ⟨e', he', h⟩) | ⟨g, -, h | h⟩) | ⟨g, -, h | h⟩
    all_goals injection h with hk hv
    all_goals try cases hk
    exact ⟨hv.symm, he'⟩

theorem record_createBatch (j : ℕ) :
    (d.write (createBatch i typ name emails memberOf members)).record j =
      if j = i then some ⟨i, typ, name, emails⟩ else d.record j := by
  rw [record, write, lookup_createBatch (by simp [DirectoryClass.IsMembership]) (by simp)]
  by_cases hj : j = i
  · subst hj
    simp
  · simp [hj, record]

theorem getPrincipalInfo_createBatch (n : String) :
    (d.write (createBatch i typ name emails memberOf members)).getPrincipalInfo n =
      if n = name then some ⟨i, typ⟩ else d.getPrincipalInfo n := by
  rw [getPrincipalInfo_eq, write, lookup_createBatch (by simp [DirectoryClass.IsMembership]) (by simp)]
  by_cases hn : n = name
  · subst hn
    simp
  · simp [hn]

theorem emailInfo_createBatch_eq_some {e : String} {info : PrincipalInfo}
    (h : (d.write (createBatch i typ name emails memberOf members)).emailInfo e = some info) :
    (info = ⟨i, typ⟩ ∧ e ∈ emails) ∨ d.emailInfo e = some info :=
  lookup_createBatch_eq_some_emailToId h

end CreateBatch

theorem Consistent.createPrincipal (h : d.Consistent) {ps : PrincipalSet} {i : ℕ}
    (hlt : d.principalIds + 1 < roleUser) (hc : d.createPrincipal ps = .ok (i, d')) :
    d'.Consistent := by
  obtain ⟨hfree, rfl, emails, memberOf, members, hmemberOf, hmembers, rfl⟩ := createPrincipal_eq hc
  have hi : (d.principalIds + 1) % 2 ^ 32 = d.principalIds + 1 :=
    Nat.mod_eq_of_lt (by unfold roleUser at hlt; omega)
  rw [hi]
  set i := d.principalIds + 1
  set name := toLowercase ps.name
  set d₁ : Store := { d with principalIds := i }
  have hrec : ∀ j, (d₁.write (createBatch i ps.typ name emails memberOf members)).record j =
      if j = i then some ⟨i, ps.typ, name, emails⟩ else d₁.record j := record_createBatch
  -- every old record has an id the counter handed out, so the new id is fresh
  have hfresh : ∀ j p, d.record j = some p → j ≠ i := fun j p hp => by
    have := (h.record_id j p hp).2.2
    omega
  have hlive : ∀ j, d.Live j → (d₁.write (createBatch i ps.typ name emails memberOf members)).Live j := by
    intro j hj
    obtain ⟨p, hp⟩ := Option.isSome_iff_exists.mp (live_iff.mp hj)
    exact .of_record (p := p) (by rw [hrec, if_neg (hfresh j p hp)]; exact hp)
  have hnew : (d₁.write (createBatch i ps.typ name emails memberOf members)).Live i :=
    .of_record (by rw [hrec, if_pos rfl])
  have hliveOrRole : ∀ j, d.Live j ∨ IsInternalRole j →
      (d₁.write (createBatch i ps.typ name emails memberOf members)).Live j ∨ IsInternalRole j :=
    fun j => Or.imp (hlive j) id
  refine ⟨?_, ?_, ?_, ?_, ?_, ?_⟩
  · exact h.mirrorClosed.applyBatch DirectoryClass.mirror_involutive createBatch_paired
  · intro k hk
    rcases AList.mem_applyBatch hk with hk | ⟨v, hv⟩
    · -- an old key keeps naming live principals
      have := h.liveIn k hk
      cases k <;> simp only [DirectoryClass.LiveIn] at this ⊢ <;> tauto
    · simp only [createBatch, List.mem_append, List.mem_map, List.mem_flatMap, List.mem_cons,
        setMembership, List.not_mem_nil, or_false] at hv
      rcases hv with (((hv | hv) | ⟨e, -, hv⟩) | ⟨g, hg, hv | hv⟩) | ⟨m, hm, hv | hv⟩
      all_goals injection hv with hk hv
      all_goals subst hk
      · trivial
      · trivial
      · trivial
      · obtain ⟨f, ty, n, hn⟩ := hmemberOf g hg
        exact ⟨hnew, hliveOrRole _ (h.mapMember_live hn)⟩
      · obtain ⟨f, ty, n, hn⟩ := hmemberOf g hg
        exact ⟨hliveOrRole _ (h.mapMember_live hn), hnew⟩
      · obtain ⟨n, hn⟩ := hmembers m hm
        exact ⟨hlive _ (h.mapMember_members_live hn), .inl hnew⟩
      · obtain ⟨n, hn⟩ := hmembers m hm
        exact ⟨.inl hnew, hlive _ (h.mapMember_members_live hn)⟩
  · intro j p hp
    show p.id = j ∧ 0 < j ∧ j ≤ i
    rw [hrec] at hp
    split_ifs at hp with hj
    · cases hp
      exact ⟨hj.symm, by omega, by omega⟩
    · obtain ⟨h₁, h₂, h₃⟩ := h.record_id j p hp
      exact ⟨h₁, h₂, by omega⟩
  · intro n info hn
    rw [getPrincipalInfo_createBatch] at hn
    split_ifs at hn with hname
    · cases hn
      exact ⟨_, by rw [hrec, if_pos rfl], hname.symm, rfl⟩
    · obtain ⟨p, hp, hpn, hpt⟩ := h.nameToId_sound n info hn
      exact ⟨p, by rw [hrec, if_neg (hfresh _ p hp)]; exact hp, hpn, hpt⟩
  · intro j p hp
    rw [hrec] at hp
    rw [getPrincipalInfo_createBatch]
    split_ifs at hp with hj
    · cases hp
      simp [hj]
    · have hn := h.nameToId_complete j p hp
      have hne : p.name ≠ name := fun he => by
        rw [he] at hn
        exact absurd (hn.symm.trans hfree) (by simp)
      rw [if_neg hne]
      exact hn
  · intro e info he
    rcases emailInfo_createBatch_eq_some he with ⟨rfl, hmem⟩ | he
    · exact ⟨_, by rw [hrec, if_pos rfl], hmem, rfl⟩
    · obtain ⟨p, hp, hpe, hpt⟩ := h.emailToId_sound e info he
      exact ⟨p, by rw [hrec, if_neg (hfresh _ p hp)]; exact hp, hpe, hpt⟩

/-! ### delete_principal -/

theorem deletePrincipal_eq {q : QueryBy} (hd : d.deletePrincipal q = .ok d') :
    ∃ i p, d.getPrincipal i = some p ∧ d' = d.write (d.deleteBatch i p) := by
  obtain ⟨i, -, hd⟩ := Except.bind_eq_ok.mp hd
  split at hd
  · rename_i p hp
    exact ⟨i, p, hp, (Except.ok.inj hd).symm⟩
  · cases hd

section DeleteBatch

variable {i : ℕ} {p : Principal}

theorem mem_keys_deleteBatch {k : DirectoryClass} :
    k ∈ (d.deleteBatch i p).map AList.BatchOp.key ↔
      k = .nameToId p.name ∨ k = .principal i ∨ (∃ e ∈ p.emails, k = .emailToId e) ∨
      (∃ g, DirectoryClass.memberOf i g ∈ d.values ∧ (k = .memberOf i g ∨ k = .members g i)) ∨
      (∃ m, DirectoryClass.members i m ∈ d.values ∧ (k = .memberOf m i ∨ k = .members i m)) := by
  simp only [deleteBatch, List.map_append, List.map_cons, List.map_nil, List.map_map,
    List.map_flatMap, clearMembership, List.mem_append, List.mem_cons, List.mem_map,
    List.mem_flatMap, List.not_mem_nil, or_false, Function.comp_def, AList.BatchOp.key]
  constructor
  · rintro ((((hk | hk) | ⟨e, he, rfl⟩) | ⟨g, hg, hk⟩) | ⟨m, hm, hk⟩)
    · exact .inl hk
    · exact .inr (.inl hk)
    · exact .inr (.inr (.inl ⟨e, he, rfl⟩))
    · exact .inr (.inr (.inr (.inl
        ⟨g.principalId, mem_getMemberOf.mp (List.mem_map_of_mem hg), hk⟩)))
    · exact .inr (.inr (.inr (.inr ⟨m, mem_getMembers.mp hm, hk⟩)))
  · rintro (hk | hk | ⟨e, he, rfl⟩ | ⟨g, hg, hk⟩ | ⟨m, hm, hk⟩)
    · exact .inl (.inl (.inl (.inl hk)))
    · exact .inl (.inl (.inl (.inr hk)))
    · exact .inl (.inl (.inr ⟨e, he, rfl⟩))
    · obtain ⟨g', hg', rfl⟩ := List.mem_map.mp (mem_getMemberOf.mpr hg)
      exact .inl (.inr ⟨g', hg', hk⟩)
    · exact .inr ⟨m, mem_getMembers.mpr hm, hk⟩

theorem lookup_deleteBatch (k : DirectoryClass) :
    (d.write (d.deleteBatch i p)).values.lookup k =
      if k ∈ (d.deleteBatch i p).map AList.BatchOp.key then none else d.values.lookup k := by
  refine AList.lookup_applyBatch_of_clears fun op hop => ?_
  simp only [deleteBatch, clearMembership, List.mem_append, List.mem_cons, List.mem_map,
    List.mem_flatMap, List.not_mem_nil, or_false] at hop
  rcases hop with (((rfl | rfl) | ⟨e, -, rfl⟩) | ⟨g, -, rfl | rfl⟩) | ⟨m, -, rfl | rfl⟩ <;>
    exact ⟨_, rfl⟩

theorem deleteBatch_paired :
    AList.Paired DirectoryClass.IsMembership DirectoryClass.mirror (d.deleteBatch i p) :=
  ((AList.Paired.other (m := DirectoryClass.mirror) id (.other id .nil)).append
    (AList.paired_of_forall (by simp [DirectoryClass.IsMembership, AList.BatchOp.key]))).append
    (AList.paired_flatMap fun _ _ => clearMembership_paired _ _) |>.append
    (AList.paired_flatMap fun _ _ => clearMembership_paired _ _)

end DeleteBatch

theorem Consistent.deletePrincipal (h : d.Consistent) {q : QueryBy}
    (hd : d.deletePrincipal q = .ok d') : d'.Consistent := by
  obtain ⟨i, p, hp, rfl⟩ := deletePrincipal_eq hd
  rw [getPrincipal_eq_record h] at hp
  have hkeys := fun k => mem_keys_deleteBatch (d := d) (i := i) (p := p) (k := k)
  have hlook := fun k => lookup_deleteBatch (d := d) (i := i) (p := p) k
  have hrec : ∀ j, (d.write (d.deleteBatch i p)).record j = if j = i then none else d.record j := by
    intro j
    rw [record, hlook]
    by_cases hj : j = i <;> simp [hkeys, hj, record]
  have hname : ∀ n, (d.write (d.deleteBatch i p)).getPrincipalInfo n =
      if n = p.name then none else d.getPrincipalInfo n := by
    intro n
    rw [getPrincipalInfo_eq, hlook]
    by_cases hn : n = p.name <;> simp [hkeys, hn]
  have hemail : ∀ e, (d.write (d.deleteBatch i p)).emailInfo e =
      if e ∈ p.emails then none else d.emailInfo e := by
    intro e
    rw [emailInfo, hlook]
    by_cases he : e ∈ p.emails <;> simp [hkeys, he, emailInfo]
  -- a record other than the deleted one stays
  have hlive : ∀ j, d.Live j → j ≠ i → (d.write (d.deleteBatch i p)).Live j := by
    intro j hj hji
    rw [live_iff, hrec, if_neg hji]
    exact live_iff.mp hj
  refine ⟨?_, ?_, ?_, ?_, ?_, ?_⟩
  · exact h.mirrorClosed.applyBatch DirectoryClass.mirror_involutive deleteBatch_paired
  · intro k hk
    have hk' : k ∈ d.values ∧ k ∉ (d.deleteBatch i p).map AList.BatchOp.key := by
      rw [← AList.lookup_isSome, hlook] at hk
      split_ifs at hk with hc
      · simp at hk
      · exact ⟨AList.lookup_isSome.mp hk, hc⟩
    obtain ⟨hk, hc⟩ := hk'
    have hold := h.liveIn k hk
    -- a membership that names the deleted principal is among the cleared keys
    cases k with
    | memberOf a g =>
      have ha : a ≠ i := by
        intro hai
        rw [hai] at hk
        exact hc ((hkeys _).mpr (.inr (.inr (.inr (.inl ⟨g, hk, .inl (by rw [hai])⟩)))))
      have hg : g ≠ i := by
        intro hgi
        rw [hgi] at hk
        have hm : DirectoryClass.members i a ∈ d.values :=
          (h.mirrorClosed (.memberOf a i) trivial).mp hk
        exact hc ((hkeys _).mpr (.inr (.inr (.inr (.inr ⟨a, hm, .inl (by rw [hgi])⟩)))))
      exact ⟨hlive a hold.1 ha, hold.2.imp (hlive g · hg) id⟩
    | members g a =>
      have hm : DirectoryClass.memberOf a g ∈ d.values :=
        (h.mirrorClosed (.members g a) trivial).mp hk
      have ha : a ≠ i := by
        intro hai
        rw [hai] at hm
        exact hc ((hkeys _).mpr (.inr (.inr (.inr (.inl ⟨g, hm, .inr (by rw [hai])⟩)))))
      have hg : g ≠ i := by
        intro hgi
        rw [hgi] at hk
        exact hc ((hkeys _).mpr (.inr (.inr (.inr (.inr ⟨a, hk, .inr (by rw [hgi])⟩)))))
      exact ⟨hold.1.imp (hlive g · hg) id, hlive a hold.2 ha⟩
    | _ => trivial
  · intro j q hq
    rw [hrec] at hq
    split_ifs at hq
    exact h.record_id j q hq
  · intro n info hn
    rw [hname] at hn
    split_ifs at hn with hnp
    obtain ⟨q, hq, hqn, hqt⟩ := h.nameToId_sound n info hn
    have hne : info.id ≠ i := by
      rintro hi
      rw [hi, hp] at hq
      cases hq
      exact hnp hqn.symm
    exact ⟨q, by rw [hrec, if_neg hne]; exact hq, hqn, hqt⟩
  · intro j q hq
    rw [hrec] at hq
    split_ifs at hq with hj
    have hn := h.nameToId_complete j q hq
    have hne : q.name ≠ p.name := by
      intro he
      have hpn := h.nameToId_complete i p hp
      rw [← he, hn] at hpn
      exact hj (PrincipalInfo.mk.inj (Option.some.inj hpn)).1
    rw [hname, if_neg hne]
    exact hn
  · intro e info he
    rw [hemail] at he
    split_ifs at he with hep
    obtain ⟨q, hq, hqe, hqt⟩ := h.emailToId_sound e info he
    have hne : info.id ≠ i := by
      rintro hi
      rw [hi, hp] at hq
      cases hq
      exact hep hqe
    exact ⟨q, by rw [hrec, if_neg hne]; exact hq, hqe, hqt⟩

/-! ### update_principal: the membership changes

A membership change appends membership writes, each with its mirror, that name
live principals or built-in roles, and touches nothing else of the loop state
but the in-memory membership lists. -/

/-- Membership writes, each with its mirror, naming live principals or roles. -/
structure MembershipOps (d : Store) (ops : List BatchOp) : Prop where
  paired : AList.Paired DirectoryClass.IsMembership DirectoryClass.mirror ops
  isMembership : ∀ op ∈ ops, op.key.IsMembership
  liveIn : ∀ k v, AList.BatchOp.set k v ∈ ops → k.LiveIn d

theorem MembershipOps.nil : MembershipOps d [] := ⟨.nil, by simp, by simp⟩

theorem MembershipOps.append {ops ops' : List BatchOp} (h : MembershipOps d ops)
    (h' : MembershipOps d ops') : MembershipOps d (ops ++ ops') where
  paired := h.paired.append h'.paired
  isMembership := by
    simp only [List.mem_append]
    rintro op (hop | hop)
    exacts [h.isMembership op hop, h'.isMembership op hop]
  liveIn := by
    simp only [List.mem_append]
    rintro k v (hk | hk)
    exacts [h.liveIn k v hk, h'.liveIn k v hk]

theorem MembershipOps.flatMap {α : Type*} {l : List α} {f : α → List BatchOp}
    (h : ∀ x ∈ l, MembershipOps d (f x)) : MembershipOps d (l.flatMap f) := by
  induction l with
  | nil => exact .nil
  | cons x l ih =>
    rw [List.flatMap_cons]
    exact (h x (by simp)).append (ih fun y hy => h y (by simp [hy]))

theorem membershipOps_setMembership {a g : ℕ} {t : PrincipalType}
    (ha : d.Live a) (hg : d.Live g ∨ IsInternalRole g) : MembershipOps d (setMembership a g t) where
  paired := setMembership_paired a g t
  isMembership := fun _ hop => isMembership_of_mem_setMembership hop
  liveIn := by
    intro k v hk
    simp only [setMembership, List.mem_cons, List.not_mem_nil, or_false] at hk
    rcases hk with hk | hk <;> injection hk with hk <;> subst hk
    exacts [⟨ha, hg⟩, ⟨hg, ha⟩]

theorem membershipOps_clearMembership (a g : ℕ) : MembershipOps d (clearMembership a g) where
  paired := clearMembership_paired a g
  isMembership := fun _ hop => isMembership_of_mem_clearMembership hop
  liveIn := by simp [clearMembership]

/-- A step of the change loop that only appends membership writes. -/
def MembershipStep (d : Store) (st st' : UpdateState) : Prop :=
  st'.store = st.store ∧ st'.principal = st.principal ∧ st'.validDomains = st.validDomains ∧
    ∃ ops, st'.batch = st.batch ++ ops ∧ MembershipOps d ops

theorem MembershipStep.refl (st : UpdateState) : MembershipStep d st st :=
  ⟨rfl, rfl, rfl, [], by simp, .nil⟩

theorem MembershipStep.trans {st₁ st₂ st₃ : UpdateState} (h₁ : MembershipStep d st₁ st₂)
    (h₂ : MembershipStep d st₂ st₃) : MembershipStep d st₁ st₃ := by
  obtain ⟨hs₁, hp₁, hv₁, ops₁, hb₁, hops₁⟩ := h₁
  obtain ⟨hs₂, hp₂, hv₂, ops₂, hb₂, hops₂⟩ := h₂
  exact ⟨hs₂.trans hs₁, hp₂.trans hp₁, hv₂.trans hv₁, ops₁ ++ ops₂,
    by rw [hb₂, hb₁, List.append_assoc], hops₁.append hops₂⟩

theorem membershipStep_append (st : UpdateState) {ops : List BatchOp} (hops : MembershipOps d ops)
    (memberOf : List MemberOf) (members : List ℕ) :
    MembershipStep d st { st with batch := st.batch ++ ops, memberOf := memberOf, members := members } :=
  ⟨rfl, rfl, rfl, ops, rfl, hops⟩

end Store

namespace UpdateState

open Store

variable {d : Store} {st st' : UpdateState} {i : ℕ} {ty : PrincipalType}

theorem removeMemberOf_step (field : PrincipalField) (member : String) :
    MembershipStep d st (st.removeMemberOf i field member) := by
  unfold removeMemberOf
  split
  · split
    · exact membershipStep_append st (membershipOps_clearMembership _ _) _ _
    · exact .refl st
  · exact .refl st


theorem removeMember_step (member : String) :
    MembershipStep d st (st.removeMember i member) := by
  unfold removeMember
  split
  · split
    · exact membershipStep_append st (membershipOps_clearMembership _ _) _ _
    · exact .refl st
  · exact .refl st


section Membership

variable (h : d.Consistent) (hi : d.Live i) (hst : st.store = d)
include h hi hst

theorem setMemberOf_step {field : PrincipalField} {names : List String}
    (hc : st.setMemberOf i ty field names = .ok st') : MembershipStep d st st' := by
  obtain ⟨⟨st₁, newMemberOf⟩, hfold, hc⟩ := Except.bind_eq_ok.mp hc
  cases Except.ok.inj hc
  have h₁ : MembershipStep d st st₁ := by
    refine List.foldlM_except_invariant (fun acc => MembershipStep d st acc.1)
      (MembershipStep.refl st) ?_ hfold
    rintro ⟨st₂, l⟩ member ⟨st₃, l'⟩ - hstep hc
    obtain ⟨memberInfo, hinfo, hc⟩ := Except.bind_eq_ok.mp hc
    obtain ⟨-, -, hc⟩ := Except.bind_eq_ok.mp hc
    cases Except.ok.inj hc
    have hlive := h.mapMember_live (hstep.1.trans hst ▸ hinfo)
    split
    · exact hstep
    · exact hstep.trans (membershipStep_append st₂
        (membershipOps_setMembership hi hlive) st₂.memberOf st₂.members)
  exact h₁.trans (membershipStep_append st₁
    (MembershipOps.flatMap fun m _ => membershipOps_clearMembership _ _) _ _)

theorem addMemberOf_step {field : PrincipalField} {member : String}
    (hc : st.addMemberOf i ty field member = .ok st') : MembershipStep d st st' := by
  obtain ⟨memberInfo, hinfo, hc⟩ := Except.bind_eq_ok.mp hc
  split at hc
  · cases Except.ok.inj hc
    exact .refl st
  · obtain ⟨-, -, hc⟩ := Except.bind_eq_ok.mp hc
    cases Except.ok.inj hc
    exact membershipStep_append st
      (membershipOps_setMembership hi (h.mapMember_live (hst ▸ hinfo))) _ _

theorem setMembers_step {names : List String}
    (hc : st.setMembers i ty names = .ok st') : MembershipStep d st st' := by
  obtain ⟨⟨st₁, newMembers⟩, hfold, hc⟩ := Except.bind_eq_ok.mp hc
  cases Except.ok.inj hc
  have h₁ : MembershipStep d st st₁ := by
    refine List.foldlM_except_invariant (fun acc => MembershipStep d st acc.1)
      (MembershipStep.refl st) ?_ hfold
    rintro ⟨st₂, l⟩ member ⟨st₃, l'⟩ - hstep hc
    simp only [setMembersStep] at hc
    split at hc
    · rename_i memberInfo hinfo
      split at hc
      · cases hc
      · cases Except.ok.inj hc
        have hlive := h.live_of_getPrincipalInfo (hstep.1.trans hst ▸ hinfo)
        split
        · exact hstep
        · exact hstep.trans (membershipStep_append st₂
            (membershipOps_setMembership hlive (.inl hi)) st₂.memberOf st₂.members)
    · cases hc
  exact h₁.trans (membershipStep_append st₁
    (MembershipOps.flatMap fun m _ => membershipOps_clearMembership _ _) _ _)

theorem addMember_step {member : String}
    (hc : st.addMember i ty member = .ok st') : MembershipStep d st st' := by
  simp only [addMember] at hc
  split at hc
  · rename_i memberInfo hinfo
    split at hc
    · cases Except.ok.inj hc
      exact .refl st
    · split at hc
      · cases hc
      · cases Except.ok.inj hc
        exact membershipStep_append st (membershipOps_setMembership
          (h.live_of_getPrincipalInfo (hst ▸ hinfo)) (.inl hi)) _ _
  · cases hc

end Membership

end UpdateState

/-! ### update_principal: the loop invariant

While no change writes the store (create_domains unset), the loop keeps a batch
whose view of the store, the store with the batch applied, relates to the
in-memory record: the name index gives the current name to the principal and
forgets the name it had at the start, and the e-mail index gives the principal
only addresses of the current list. -/

namespace Store

theorem write_append (d : Store) (ops ops' : List BatchOp) :
    d.write (ops ++ ops') = (d.write ops).write ops' := by
  simp [write]

theorem lookup_write_of_forall_ne {d : Store} {ops : List BatchOp} {k : DirectoryClass}
    (h : ∀ op ∈ ops, op.key ≠ k) : (d.write ops).values.lookup k = d.values.lookup k :=
  AList.lookup_applyBatch_of_forall_ne h

theorem getPrincipalInfo_write_rename (d : Store) (c new n : String) (info : PrincipalInfo) :
    (d.write [.clear (.nameToId c), .set (.nameToId new) info]).getPrincipalInfo n =
      if n = new then some info else if n = c then none else d.getPrincipalInfo n := by
  by_cases hn : n = new
  · subst hn
    simp [write]
  · by_cases hc : n = c
    · subst hc
      simp [write, hn]
    · simp [write, hn, hc]

theorem emailInfo_write_set (d : Store) (e e' : String) (info : PrincipalInfo) :
    (d.write [.set (.emailToId e) info]).emailInfo e' =
      if e' = e then some info else d.emailInfo e' := by
  by_cases he : e' = e
  · subst he
    simp [write, emailInfo]
  · simp [write, emailInfo, he]

theorem emailInfo_write_clears (d : Store) (l : List String) (e : String) :
    (d.write (l.map fun e => .clear (.emailToId e))).emailInfo e =
      if e ∈ l then none else d.emailInfo e := by
  rw [emailInfo, write, AList.lookup_applyBatch_of_clears (by simp)]
  simp [emailInfo, AList.BatchOp.key]

theorem emailInfo_write_clear (d : Store) (e e' : String) :
    (d.write [.clear (.emailToId e)]).emailInfo e' = if e' = e then none else d.emailInfo e' := by
  simpa using emailInfo_write_clears d [e] e'

end Store

/-- What the change loop of update_principal keeps, for the principal `i` whose
record was `p` when the request started, while no change writes the store. -/
structure UpdateInv (d : Store) (i : ℕ) (p : Principal) (st : UpdateState) : Prop where
  store_eq : st.store = d
  principal_id : st.principal.id = i
  principal_typ : st.principal.typ = p.typ
  paired : AList.Paired DirectoryClass.IsMembership DirectoryClass.mirror st.batch
  liveIn : ∀ k v, AList.BatchOp.set k v ∈ st.batch → k.LiveIn d
  noRecord : ∀ op ∈ st.batch, ∀ j, op.key ≠ .principal j
  /-- the current name is the principal's, the name it started with is nobody's -/
  name_view : ∀ n, (d.write st.batch).getPrincipalInfo n =
    if n = st.principal.name then some ⟨i, p.typ⟩
    else if n = p.name then none else d.getPrincipalInfo n
  /-- a new name was free in the store -/
  name_fresh : st.principal.name ≠ p.name → d.getPrincipalInfo st.principal.name = none
  /-- the e-mail index gives the principal only addresses of its current list -/
  email_view : ∀ e info, (d.write st.batch).emailInfo e = some info →
    (info = ⟨i, p.typ⟩ ∧ e ∈ st.principal.emails) ∨ (info.id ≠ i ∧ d.emailInfo e = some info)

namespace UpdateInv

open Store

variable {d : Store} {i : ℕ} {p : Principal} {st st' : UpdateState}

theorem start (h : d.Consistent) (hp : d.record i = some p) : UpdateInv d i p (d.updateStart i p) where
  store_eq := rfl
  principal_id := (h.record_id i p hp).1
  principal_typ := rfl
  paired := .nil
  liveIn := by simp [updateStart]
  noRecord := by simp [updateStart]
  name_view := by
    intro n
    simp only [updateStart, write, AList.applyBatch_nil]
    split_ifs with hn
    · subst hn
      exact h.nameToId_complete i p hp
    · rfl
  name_fresh := fun hne => absurd rfl hne
  email_view := by
    intro e info he
    simp only [updateStart, write, AList.applyBatch_nil] at he ⊢
    obtain ⟨q, hq, hqe, hqt⟩ := h.emailToId_sound e info he
    by_cases hi : info.id = i
    · rw [hi, hp] at hq
      cases hq
      exact .inl ⟨by rw [← hi, hqt], hqe⟩
    · exact .inr ⟨hi, he⟩

theorem of_membershipStep (hinv : UpdateInv d i p st) (hs : MembershipStep d st st') :
    UpdateInv d i p st' := by
  obtain ⟨hstore, hprincipal, -, ops, hbatch, hops⟩ := hs
  have hframe : ∀ k, ¬ k.IsMembership → (d.write st'.batch).values.lookup k =
      (d.write st.batch).values.lookup k := by
    intro k hk
    rw [hbatch, write_append]
    exact lookup_write_of_forall_ne fun op hop he => hk (he ▸ hops.isMembership op hop)
  refine ⟨hstore.trans hinv.store_eq, hprincipal ▸ hinv.principal_id,
    hprincipal ▸ hinv.principal_typ, hbatch ▸ hinv.paired.append hops.paired, ?_, ?_, ?_,
    hprincipal ▸ hinv.name_fresh, ?_⟩
  · intro k v hk
    rw [hbatch, List.mem_append] at hk
    exact hk.elim (hinv.liveIn k v) (hops.liveIn k v)
  · intro op hop j hj
    rw [hbatch, List.mem_append] at hop
    rcases hop with hop | hop
    · exact hinv.noRecord op hop j hj
    · have := hops.isMembership op hop
      rw [hj] at this
      exact this
  · intro n
    rw [getPrincipalInfo_eq, hframe _ id, hprincipal]
    exact hinv.name_view n
  · intro e info he
    rw [emailInfo, hframe _ id] at he
    rw [hprincipal]
    exact hinv.email_view e info he

end UpdateInv

/-! ### update_principal: the name and e-mail changes -/

namespace Store

variable {d d' : Store}

theorem getPrincipalInfo_eq_none {name : String} (h : ¬ (d.getPrincipalId name).isSome) :
    d.getPrincipalInfo name = none := by
  cases hv : d.getPrincipalInfo name with
  | none => rfl
  | some v =>
    simp only [getPrincipalId, hv] at h
    simp at h

theorem validateEmail_eq {email : String} (hc : d.validateEmail email false = .ok d') : d' = d := by
  simp only [validateEmail] at hc
  split at hc
  · cases hc
  · split at hc
    · split at hc
      · split at hc
        · exact (Except.ok.inj hc).symm
        · cases hc
      · cases hc
    · cases hc

end Store

namespace UpdateState

open Store

variable {d : Store} {st st' : UpdateState} {i : ℕ} {ty : PrincipalType}

theorem setName_eq {tenantId : Option ℕ} {newName : String}
    (hc : st.setName i ty tenantId newName = .ok st') :
    st' = st ∨ (st.principal.name ≠ toLowercase newName ∧
      st.store.getPrincipalInfo (toLowercase newName) = none ∧
      ∃ validDomains, st' = { st with
        validDomains
        batch := st.batch ++ [.clear (.nameToId st.principal.name),
          .set (.nameToId (toLowercase newName)) (⟨i, ty⟩ : PrincipalInfo)]
        principal := { st.principal with name := toLowercase newName } }) := by
  simp only [setName, throw, throwThe, MonadExceptOf.throw] at hc
  split at hc
  · exact .inl (Except.ok.inj hc).symm
  rename_i hne
  obtain ⟨validDomains, -, hc⟩ := Except.bind_eq_ok.mp hc
  split at hc
  · obtain ⟨_, he, -⟩ := Except.bind_eq_ok.mp hc
    cases he
  · rename_i hfree
    exact .inr ⟨hne, getPrincipalInfo_eq_none hfree, validDomains, (Except.ok.inj hc).symm⟩

theorem setEmailStep_eq {cur : List String} {email : String}
    (hc : setEmailStep i ty false cur st email = .ok st') :
    st' = st ∨ st' = { st with batch := st.batch ++ [.set (.emailToId email) (⟨i, ty⟩ : PrincipalInfo)] } := by
  simp only [setEmailStep] at hc
  split at hc
  · exact .inl (Except.ok.inj hc).symm
  · right
    split at hc
    · obtain ⟨store, hstore, hc⟩ := Except.bind_eq_ok.mp hc
      cases Except.ok.inj hc
      rw [validateEmail_eq hstore]
    · cases Except.ok.inj hc
      rfl

end UpdateState

namespace UpdateInv

open Store UpdateState

variable {d : Store} {i : ℕ} {p : Principal} {st st' : UpdateState}

theorem setName (hinv : UpdateInv d i p st) {tenantId : Option ℕ} {newName : String}
    (hc : st.setName i p.typ tenantId newName = .ok st') : UpdateInv d i p st' := by
  rcases setName_eq hc with rfl | ⟨hne, hfree, validDomains, rfl⟩
  · exact hinv
  set new := toLowercase newName
  have hfree' : d.getPrincipalInfo new = none := hinv.store_eq ▸ hfree
  refine ⟨hinv.store_eq, hinv.principal_id, hinv.principal_typ,
    hinv.paired.append (.other id (.other id .nil)), ?_, ?_, ?_, fun _ => hfree', ?_⟩
  · intro k v hk
    simp only [List.mem_append, List.mem_cons, List.not_mem_nil, or_false] at hk
    rcases hk with hk | hk | hk
    · exact hinv.liveIn k v hk
    · cases hk
    · injection hk with hk
      subst hk
      trivial
  · intro op hop j hj
    simp only [List.mem_append, List.mem_cons, List.not_mem_nil, or_false] at hop
    rcases hop with hop | rfl | rfl
    · exact hinv.noRecord op hop j hj
    all_goals cases hj
  · intro n
    rw [write_append, getPrincipalInfo_write_rename, hinv.name_view]
    by_cases hn : n = new
    · simp [hn]
    · by_cases hc : n = st.principal.name
      · -- the name being left was the start name, or a new name that was free
        subst hc
        by_cases hp : st.principal.name = p.name
        · simp [hp]
        · have hf := hinv.name_fresh hp
          rw [getPrincipalInfo_eq] at hf
          simp [hn, hp, hf]
      · simp [hn, hc]
  · intro e info he
    have hframe : (d.write (st.batch ++ [.clear (.nameToId st.principal.name),
        .set (.nameToId new) (⟨i, p.typ⟩ : PrincipalInfo)])).emailInfo e =
        (d.write st.batch).emailInfo e := by
      rw [write_append, emailInfo, lookup_write_of_forall_ne (by simp [AList.BatchOp.key])]
      rfl
    rw [hframe] at he
    exact hinv.email_view e info he

theorem of_emailOps (hinv : UpdateInv d i p st) (ops : List BatchOp)
    (hops : ∀ op ∈ ops, ∃ e, op.key = .emailToId e) (emails : List String)
    (hview : ∀ e info, (d.write (st.batch ++ ops)).emailInfo e = some info →
      (info = ⟨i, p.typ⟩ ∧ e ∈ emails) ∨ (info.id ≠ i ∧ d.emailInfo e = some info)) :
    UpdateInv d i p { st with
      batch := st.batch ++ ops, principal := { st.principal with emails := emails } } := by
  have hne : ∀ k, (∀ e, k ≠ .emailToId e) → ∀ op ∈ ops, op.key ≠ k := by
    intro k hk op hop he
    obtain ⟨e, he'⟩ := hops op hop
    exact hk e (he ▸ he')
  refine ⟨hinv.store_eq, hinv.principal_id, hinv.principal_typ,
    hinv.paired.append (AList.paired_of_forall fun op hop hk => ?_), ?_, ?_, ?_, hinv.name_fresh,
    hview⟩
  · obtain ⟨e, he⟩ := hops op hop
    rw [he] at hk
    exact hk
  · intro k v hk
    rw [List.mem_append] at hk
    rcases hk with hk | hk
    · exact hinv.liveIn k v hk
    · obtain ⟨e, he⟩ := hops _ hk
      cases he
      trivial
  · intro op hop j hj
    rw [List.mem_append] at hop
    rcases hop with hop | hop
    · exact hinv.noRecord op hop j hj
    · obtain ⟨e, he⟩ := hops op hop
      rw [he] at hj
      cases hj
  · intro n
    rw [write_append, getPrincipalInfo_eq, lookup_write_of_forall_ne (hne _ (by simp))]
    exact hinv.name_view n

theorem setEmails (hinv : UpdateInv d i p st) {emails : List String}
    (hc : st.setEmails i p.typ false emails = .ok st') : UpdateInv d i p st' := by
  obtain ⟨st₁, hfold, hc⟩ := Except.bind_eq_ok.mp hc
  cases Except.ok.inj hc
  set new := emails.map toLowercase
  -- the loop only indexes addresses of the new list, for the principal
  obtain ⟨ops, rfl, hops⟩ : ∃ ops, st₁ = { st with batch := st.batch ++ ops } ∧
      ∀ op ∈ ops, ∃ e ∈ new, op = .set (.emailToId e) (⟨i, p.typ⟩ : PrincipalInfo) := by
    refine List.foldlM_except_invariant (fun st₁ : UpdateState =>
        ∃ ops : List BatchOp, st₁ = { st with batch := st.batch ++ ops } ∧
        ∀ op ∈ ops, ∃ e ∈ new, op = .set (.emailToId e) (⟨i, p.typ⟩ : PrincipalInfo))
      ⟨[], by simp, by simp⟩ ?_ hfold
    rintro st₂ e st₃ he ⟨ops, rfl, hops⟩ hstep
    rcases setEmailStep_eq hstep with rfl | rfl
    · exact ⟨ops, rfl, hops⟩
    · refine ⟨ops ++ [.set (.emailToId e) (⟨i, p.typ⟩ : PrincipalInfo)], by simp, ?_⟩
      simp only [List.mem_append, List.mem_singleton]
      rintro op (hop | rfl)
      · exact hops op hop
      · exact ⟨e, he, rfl⟩
  set dropped := st.principal.emails.filter fun e => !new.contains e
  have h := hinv.of_emailOps (ops ++ dropped.map fun e => .clear (.emailToId e)) ?_ new ?_
  · simpa [List.append_assoc] using h
  · simp only [List.mem_append, List.mem_map]
    rintro op (hop | ⟨e, -, rfl⟩)
    · obtain ⟨e, -, rfl⟩ := hops op hop
      exact ⟨e, rfl⟩
    · exact ⟨e, rfl⟩
  · intro e info he
    rw [← List.append_assoc, write_append, emailInfo_write_clears] at he
    split_ifs at he with hdrop
    rw [write_append] at he
    rcases AList.lookup_applyBatch_eq_some he with he | he
    · rcases hinv.email_view e info he with ⟨rfl, hmem⟩ | hother
      · refine .inl ⟨rfl, ?_⟩
        simpa [dropped, hmem] using hdrop
      · exact .inr hother
    · obtain ⟨e', he', hop⟩ := hops _ he
      injection hop with hk hv
      cases hk
      exact .inl ⟨hv, he'⟩

theorem addEmail (hinv : UpdateInv d i p st) {email : String}
    (hc : st.addEmail i p.typ false email = .ok st') : UpdateInv d i p st' := by
  simp only [UpdateState.addEmail] at hc
  split at hc
  · cases Except.ok.inj hc
    exact hinv
  obtain ⟨st₁, hstep, hc⟩ := Except.bind_eq_ok.mp hc
  cases Except.ok.inj hc
  set e := toLowercase email
  rcases setEmailStep_eq hstep with h₁ | h₁ <;> rw [h₁]
  · have h := hinv.of_emailOps [] (by simp) (st.principal.emails ++ [e]) ?_
    · simpa using h
    · intro e' info he'
      rw [List.append_nil] at he'
      rcases hinv.email_view e' info he' with ⟨rfl, hmem⟩ | hother
      · exact .inl ⟨rfl, List.mem_append_left _ hmem⟩
      · exact .inr hother
  · refine hinv.of_emailOps _ (by simp [AList.BatchOp.key]) _ fun e' info he' => ?_
    rw [write_append, emailInfo_write_set] at he'
    split_ifs at he' with hee
    · cases he'
      exact .inl ⟨rfl, by simp [hee]⟩
    · rcases hinv.email_view e' info he' with ⟨rfl, hmem⟩ | hother
      · exact .inl ⟨rfl, List.mem_append_left _ hmem⟩
      · exact .inr hother

theorem removeEmail (hinv : UpdateInv d i p st) (email : String) :
    UpdateInv d i p (st.removeEmail email) := by
  unfold UpdateState.removeEmail
  dsimp only
  split
  · refine hinv.of_emailOps _ (by simp [AList.BatchOp.key]) _ fun e info he => ?_
    rw [write_append, emailInfo_write_clear] at he
    split_ifs at he with hee
    · rcases hinv.email_view e info he with ⟨rfl, hmem⟩ | hother
      · exact .inl ⟨rfl, (List.mem_erase_of_ne hee).mpr hmem⟩
      · exact .inr hother
  · exact hinv

theorem applyChange (h : d.Consistent) (hp : d.record i = some p) (hinv : UpdateInv d i p st)
    {tenantId : Option ℕ} {change : PrincipalUpdate}
    (hc : st.applyChange i p.typ tenantId false change = .ok st') :
    UpdateInv d i p st' ∧ (change.field.isMembership → st'.principal = st.principal) := by
  have hi : d.Live i := .of_record hp
  have hstep : ∀ st', MembershipStep d st st' →
      UpdateInv d i p st' ∧ st'.principal = st.principal :=
    fun st' hs => ⟨hinv.of_membershipStep hs, hs.2.1⟩
  obtain ⟨action, field, value⟩ := change
  simp only [UpdateState.applyChange] at hc
  split at hc
  · exact ⟨hinv.setName hc, by simp [PrincipalField.isMembership]⟩
  · exact ⟨hinv.setEmails hc, by simp [PrincipalField.isMembership]⟩
  · exact ⟨hinv.addEmail hc, by simp [PrincipalField.isMembership]⟩
  · cases Except.ok.inj hc
    exact ⟨hinv.removeEmail _, by simp [PrincipalField.isMembership]⟩
  all_goals first
    | exact (hstep _ (setMemberOf_step h hi hinv.store_eq hc)).imp_right fun h _ => h
    | exact (hstep _ (addMemberOf_step h hi hinv.store_eq hc)).imp_right fun h _ => h
    | exact (hstep _ (setMembers_step h hi hinv.store_eq hc)).imp_right fun h _ => h
    | exact (hstep _ (addMember_step h hi hinv.store_eq hc)).imp_right fun h _ => h
    | (cases Except.ok.inj hc
       exact (hstep _ (removeMemberOf_step _ _)).imp_right fun h _ => h)
    | (cases Except.ok.inj hc
       exact (hstep _ (removeMember_step _)).imp_right fun h _ => h)
    | cases hc

end UpdateInv

namespace Store

variable {d d' : Store}

theorem updatePrincipal_eq {params : UpdatePrincipal} (hu : d.updatePrincipal params = .ok d') :
    ∃ i p st, d.getPrincipal i = some p ∧
      params.changes.foldlM (UpdateState.applyChange i p.typ params.tenantId params.createDomains)
        (d.updateStart i p) = .ok st ∧
      d' = st.store.write (if (!params.changes.isEmpty &&
          !params.changes.all fun c => c.field.isMembership) = true then
        st.batch ++ [.set (.principal i) st.principal] else st.batch) := by
  obtain ⟨i, -, hu⟩ := Except.bind_eq_ok.mp hu
  simp only at hu
  split at hu
  · rename_i p hp
    obtain ⟨st, hfold, hu⟩ := Except.bind_eq_ok.mp hu
    exact ⟨i, p, st, hp, hfold, (Except.ok.inj hu).symm⟩
  · cases hu

theorem updatePrincipal_spec (h : d.Consistent) {params : UpdatePrincipal}
    (hcd : params.createDomains = false) (hu : d.updatePrincipal params = .ok d') :
    ∃ i p st, d.record i = some p ∧ UpdateInv d i p st ∧
      ((∀ c ∈ params.changes, c.field.isMembership) → st.principal = p) ∧
      d' = d.write (if (!params.changes.isEmpty &&
          !params.changes.all fun c => c.field.isMembership) = true then
        st.batch ++ [.set (.principal i) st.principal] else st.batch) := by
  obtain ⟨i, p, st, hp, hfold, rfl⟩ := updatePrincipal_eq hu
  rw [getPrincipal_eq_record h] at hp
  rw [hcd] at hfold
  obtain ⟨hinv, hsame⟩ : UpdateInv d i p st ∧
      ((∀ c ∈ params.changes, c.field.isMembership) → st.principal = p) := by
    refine List.foldlM_except_invariant
      (fun st : UpdateState => UpdateInv d i p st ∧
        ((∀ c ∈ params.changes, c.field.isMembership) → st.principal = p))
      ⟨.start h hp, fun _ => rfl⟩ ?_ hfold
    rintro st₁ c st₂ hc ⟨hinv₁, hsame₁⟩ hstep
    obtain ⟨hinv₂, hkeep⟩ := hinv₁.applyChange h hp hstep
    exact ⟨hinv₂, fun hall => (hkeep (hall c hc)).trans (hsame₁ hall)⟩
  exact ⟨i, p, st, hp, hinv, hsame, by rw [hinv.store_eq]⟩

theorem principalIds_updatePrincipal (h : d.Consistent) {params : UpdatePrincipal}
    (hcd : params.createDomains = false) (hu : d.updatePrincipal params = .ok d') :
    d'.principalIds = d.principalIds := by
  obtain ⟨i, p, st, -, -, -, rfl⟩ := updatePrincipal_spec h hcd hu
  rfl

theorem Consistent.updatePrincipal (h : d.Consistent) {params : UpdatePrincipal}
    (hcd : params.createDomains = false) (hu : d.updatePrincipal params = .ok d') :
    d'.Consistent := by
  obtain ⟨i, p, st, hp, hinv, hsame, rfl⟩ := updatePrincipal_spec h hcd hu
  set extra : List BatchOp := if (!params.changes.isEmpty &&
      !params.changes.all fun c => c.field.isMembership) = true then
    [.set (.principal i) st.principal] else []
  have hbatch : (if (!params.changes.isEmpty &&
      !params.changes.all fun c => c.field.isMembership) = true then
      st.batch ++ [.set (.principal i) st.principal] else st.batch) = st.batch ++ extra := by
    simp only [extra]
    split_ifs <;> simp
  rw [hbatch]
  have hextra : ∀ op ∈ extra, op.key = .principal i := by
    simp only [extra]
    split_ifs <;> simp [AList.BatchOp.key]
  -- the final record of the principal is the in-memory one
  have hrec : ∀ j, (d.write (st.batch ++ extra)).record j =
      if j = i then some st.principal else d.record j := by
    intro j
    by_cases hflag : (!params.changes.isEmpty &&
        !params.changes.all fun c => c.field.isMembership) = true
    · simp only [extra, if_pos hflag, write_append]
      by_cases hj : j = i
      · subst hj
        simp [record, write]
      · rw [if_neg hj, record, write]
        simp only [AList.applyBatch_cons, AList.applyBatch_nil, AList.applyOp_set]
        rw [AList.lookup_insert_ne (by simpa using hj)]
        exact lookup_write_of_forall_ne fun op hop he => hinv.noRecord op hop j he
    · simp only [extra, if_neg hflag, List.append_nil]
      rw [record, lookup_write_of_forall_ne fun op hop he => hinv.noRecord op hop j he]
      split_ifs with hj
      · subst hj
        rw [← record, hp, hsame]
        intro c hc
        have hall : ¬params.changes = [] → ∀ c ∈ params.changes, c.field.isMembership := by
          simpa [Bool.and_eq_true, List.all_eq_true] using hflag
        exact hall (List.ne_nil_of_mem hc) c hc
      · rfl
  have hview : ∀ k, (∀ j, k ≠ .principal j) →
      (d.write (st.batch ++ extra)).values.lookup k = (d.write st.batch).values.lookup k := by
    intro k hk
    rw [write_append]
    exact lookup_write_of_forall_ne fun op hop he => hk i ((hextra op hop).symm.trans he).symm
  have hname : ∀ n, (d.write (st.batch ++ extra)).getPrincipalInfo n =
      (d.write st.batch).getPrincipalInfo n := fun n => hview _ (by simp)
  have hemail : ∀ e, (d.write (st.batch ++ extra)).emailInfo e = (d.write st.batch).emailInfo e :=
    fun e => hview _ (by simp)
  have hlive : ∀ j, d.Live j → (d.write (st.batch ++ extra)).Live j := by
    intro j hj
    rw [live_iff, hrec]
    split_ifs
    · rfl
    · exact live_iff.mp hj
  refine ⟨?_, ?_, ?_, ?_, ?_, ?_⟩
  · exact h.mirrorClosed.applyBatch DirectoryClass.mirror_involutive
      (hinv.paired.append (AList.paired_of_forall fun op hop hk => by
        rw [hextra op hop] at hk
        exact hk))
  · intro k hk
    have hlive' : ∀ k : DirectoryClass, k.LiveIn d → k.LiveIn (d.write (st.batch ++ extra)) := by
      intro k hk
      cases k <;> simp only [DirectoryClass.LiveIn] at hk ⊢
      · exact ⟨hlive _ hk.1, hk.2.imp (hlive _) id⟩
      · exact ⟨hk.1.imp (hlive _) id, hlive _ hk.2⟩
    rcases AList.mem_applyBatch hk with hk | ⟨v, hv⟩
    · exact hlive' k (h.liveIn k hk)
    · rw [List.mem_append] at hv
      rcases hv with hv | hv
      · exact hlive' k (hinv.liveIn k v hv)
      · have := hextra _ hv
        simp only [AList.BatchOp.key] at this
        subst this
        trivial
  · intro j q hq
    rw [hrec] at hq
    split_ifs at hq with hj
    · cases hq
      subst hj
      exact ⟨hinv.principal_id, (h.record_id _ p hp).2⟩
    · exact h.record_id j q hq
  · intro n info hn
    rw [hname, hinv.name_view] at hn
    split_ifs at hn with h₁ h₂
    · cases hn
      exact ⟨st.principal, by rw [hrec, if_pos rfl], h₁.symm, hinv.principal_typ⟩
    · obtain ⟨q, hq, hqn, hqt⟩ := h.nameToId_sound n info hn
      -- the principal's own start name is not `n`, so the entry is another's
      have hne : info.id ≠ i := by
        rintro hi
        rw [hi, hp] at hq
        cases hq
        exact h₂ hqn.symm
      exact ⟨q, by rw [hrec, if_neg hne]; exact hq, hqn, hqt⟩
  · intro j q hq
    rw [hrec] at hq
    rw [hname, hinv.name_view]
    split_ifs at hq with hj
    · cases hq
      subst hj
      simp [hinv.principal_typ]
    · have hn := h.nameToId_complete j q hq
      have hpn := h.nameToId_complete i p hp
      -- another record's name is neither the current name nor the start name
      have h₁ : q.name ≠ st.principal.name := by
        intro he
        by_cases hcp : st.principal.name = p.name
        · rw [he, hcp, hpn] at hn
          exact hj (PrincipalInfo.mk.inj (Option.some.inj hn)).1.symm
        · have hf := hinv.name_fresh hcp
          rw [← he, hn] at hf
          cases hf
      have h₂ : q.name ≠ p.name := by
        intro he
        rw [he, hpn] at hn
        exact hj (PrincipalInfo.mk.inj (Option.some.inj hn)).1.symm
      rw [if_neg h₁, if_neg h₂]
      exact hn
  · intro e info he
    rw [hemail] at he
    rcases hinv.email_view e info he with ⟨rfl, hmem⟩ | ⟨hne, he⟩
    · exact ⟨st.principal, by rw [hrec, if_pos rfl], hmem, hinv.principal_typ⟩
    · obtain ⟨q, hq, hqe, hqt⟩ := h.emailToId_sound e info he
      exact ⟨q, by rw [hrec, if_neg hne]; exact hq, hqe, hqt⟩

end Store


/-! ### Runs -/

/-- A request as the management API sends it: create_domains unset. -/
def DirectoryOp.keepsDomains : DirectoryOp → Bool
  | .update params => !params.createDomains
  | _ => true

namespace Store

variable {d d' : Store}

theorem Consistent.apply (h : d.Consistent) {op : DirectoryOp} (hop : op.keepsDomains)
    (hlt : d.principalIds + 1 < roleUser) (ha : d.apply op = .ok d') :
    d'.Consistent ∧ d'.principalIds ≤ d.principalIds + 1 := by
  cases op with
  | create ps =>
    obtain ⟨⟨i, d₁⟩, hc, rfl⟩ := Except.map_eq_ok.mp ha
    refine ⟨h.createPrincipal hlt hc, ?_⟩
    obtain ⟨-, -, -, -, -, -, -, rfl⟩ := createPrincipal_eq hc
    exact le_refl _
  | update params =>
    have hcd : params.createDomains = false := by simpa [DirectoryOp.keepsDomains] using hop
    exact ⟨h.updatePrincipal hcd ha, (principalIds_updatePrincipal h hcd ha).le.trans (Nat.le_succ _)⟩
  | delete q =>
    refine ⟨h.deletePrincipal ha, ?_⟩
    obtain ⟨i, p, -, rfl⟩ := deletePrincipal_eq ha
    exact Nat.le_succ _

theorem Consistent.run (h : d.Consistent) {ops : List DirectoryOp}
    (hops : ∀ op ∈ ops, op.keepsDomains) (hlt : d.principalIds + ops.length < roleUser) :
    (d.run ops).Consistent := by
  induction ops generalizing d with
  | nil => exact h
  | cons op ops ih =>
    simp only [List.mem_cons, forall_eq_or_imp] at hops
    simp only [List.length_cons] at hlt
    simp only [run, List.foldl_cons]
    cases ha : d.apply op with
    | ok d' =>
      obtain ⟨h', hle⟩ := h.apply hops.1 (by omega) ha
      exact ih (d := d') h' hops.2 (by omega)
    | error _ => exact ih (d := d) h hops.2 (by omega)

theorem run_consistent {ops : List DirectoryOp} (hops : ∀ op ∈ ops, op.keepsDomains)
    (hlt : ops.length < roleUser) : (Store.empty.run ops).Consistent :=
  empty_consistent.run hops (by simpa [Store.empty] using hlt)

theorem Consistent.not_mem_of_deleted (h : d.Consistent) (hlt : d.principalIds < roleUser)
    {j : ℕ} (hj : j ≤ d.principalIds) (hdel : d.record j = none) (g : ℕ) :
    DirectoryClass.memberOf j g ∉ d.values ∧ DirectoryClass.memberOf g j ∉ d.values ∧
      DirectoryClass.members j g ∉ d.values ∧ DirectoryClass.members g j ∉ d.values := by
  have hdead : ¬ d.Live j := by simp [live_iff, hdel]
  have hrole : ¬ IsInternalRole j := by
    unfold IsInternalRole roleAdmin roleTenantAdmin roleUser
    unfold roleUser at hlt
    omega
  refine ⟨fun hk => hdead (h.liveIn _ hk).1, fun hk => ?_, fun hk => ?_, fun hk => hdead (h.liveIn _ hk).2⟩
  · exact ((h.liveIn _ hk).2.resolve_left hdead) |> hrole
  · exact ((h.liveIn _ hk).1.resolve_left hdead) |> hrole

theorem Consistent.eq_of_name_eq (h : d.Consistent) {i j : ℕ} {p q : Principal}
    (hp : d.record i = some p) (hq : d.record j = some q) (hn : p.name = q.name) : i = j := by
  have hi := h.nameToId_complete i p hp
  rw [hn, h.nameToId_complete j q hq] at hi
  exact (PrincipalInfo.mk.inj (Option.some.inj hi)).1.symm

end Store

/-- The requests of a run that breaks the e-mail index: a domain, a principal whose
two addresses differ only in case, the removal of one of them, and a second principal
that takes the removed address. -/
def duplicateEmailOps : List DirectoryOp :=
  [.create ⟨.domain, "x.org", [], [], [], [], []⟩,
   .create ⟨.individual, "p", ["a@x.org", "A@x.org"], [], [], [], []⟩,
   .update ⟨.name "p", [⟨.removeItem, .emails, .string "a@x.org"⟩], none, false⟩,
   .create ⟨.individual, "q", ["a@x.org"], [], [], [], []⟩]

namespace Store

/-- create_principal lower-cases the addresses without removing duplicates, and
RemoveItem takes out one copy and the index entry: p keeps an address that the index
then gives to q. -/
theorem run_duplicateEmail :
    (Store.empty.run (duplicateEmailOps.take 2)).record 2 =
      some ⟨2, .individual, "p", ["a@x.org", "a@x.org"]⟩ ∧
    (Store.empty.run duplicateEmailOps).record 2 = some ⟨2, .individual, "p", ["a@x.org"]⟩ ∧
    (Store.empty.run duplicateEmailOps).record 3 = some ⟨3, .individual, "q", ["a@x.org"]⟩ ∧
    (Store.empty.run duplicateEmailOps).emailInfo "a@x.org" = some ⟨3, .individual⟩ := by
  decide

end Store

end EsmpServer.Directory
