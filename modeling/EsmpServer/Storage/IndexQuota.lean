import EsmpServer.Storage.IndexInvariant

/-!
# The used-quota counters under the object index builder

A `Quota` index value charges its `used` bytes to the counter of the batch's account and
to that of the tenant, when there is one (`DirectoryClass::UsedQuota`). An insertion adds
the charge of the new value, a deletion takes away that of the stored one, and an update
adds the difference of each changed quota value. Over one write, a principal's counter
therefore moves by the difference of the charges of the stored values, once for each of
the account and the tenant that it is.
-/

namespace EsmpServer.Storage

open IndexableObject

variable {N : Type}

/-- The change a batch operation makes to the used-quota counter of a principal. -/
def Operation.usedQuotaDelta (principalId : ℕ) : Operation N → ℤ
  | .addUsedQuota p delta => if p = principalId then delta else 0
  | _ => 0

/-- How many times a write charges a principal: once as the batch's account, once as the
tenant. -/
def BatchContext.quotaWeight (ctx : BatchContext) (tenantId : Option ℕ) (principalId : ℕ) : ℤ :=
  (if ctx.accountId = some principalId then 1 else 0) + (if tenantId = some principalId then 1 else 0)

/-- The sum of the changes a batch makes to a principal's counter. -/
def usedQuotaDeltas (principalId : ℕ) (ops : List (Operation N)) : ℤ :=
  (ops.map (Operation.usedQuotaDelta principalId)).sum

@[simp] theorem usedQuotaDeltas_nil (a : ℕ) : usedQuotaDeltas a ([] : List (Operation N)) = 0 := rfl

@[simp] theorem usedQuotaDeltas_cons (a : ℕ) (op : Operation N) (ops : List (Operation N)) :
    usedQuotaDeltas a (op :: ops) = op.usedQuotaDelta a + usedQuotaDeltas a ops := by
  simp [usedQuotaDeltas]

@[simp] theorem usedQuotaDeltas_append (a : ℕ) (ops ops' : List (Operation N)) :
    usedQuotaDeltas a (ops ++ ops') = usedQuotaDeltas a ops + usedQuotaDeltas a ops' := by
  simp [usedQuotaDeltas]

theorem usedQuotaDeltas_flatMap {ι : Type*} (a : ℕ) (l : List ι) (f : ι → List (Operation N)) :
    usedQuotaDeltas a (l.flatMap f) = (l.map fun i => usedQuotaDeltas a (f i)).sum := by
  induction l with
  | nil => rfl
  | cons i l ih => simp [ih]

theorem usedQuotaDeltas_map {ι : Type*} (a : ℕ) (l : List ι) (f : ι → Operation N) :
    usedQuotaDeltas a (l.map f) = (l.map fun i => (f i).usedQuotaDelta a).sum := by
  simp [usedQuotaDeltas, Function.comp_def]

@[simp] theorem usedQuotaDelta_index (a : ℕ) (set : Bool) (field : ℕ) (key : List UInt8) :
    (Operation.index set field key : Operation N).usedQuotaDelta a = 0 := rfl

@[simp] theorem usedQuotaDelta_tag (a : ℕ) (set : Bool) (field : ℕ) (value : TagValue) :
    (Operation.tag set field value : Operation N).usedQuotaDelta a = 0 := rfl

@[simp] theorem usedQuotaDelta_blobLink (a : ℕ) (set : Bool) (hash : BlobHash) :
    (Operation.blobLink set hash : Operation N).usedQuotaDelta a = 0 := rfl

@[simp] theorem usedQuotaDelta_aclGrant (a accountId grants : ℕ) :
    (Operation.aclGrant accountId grants : Operation N).usedQuotaDelta a = 0 := rfl

@[simp] theorem usedQuotaDelta_aclRevoke (a accountId : ℕ) :
    (Operation.aclRevoke accountId : Operation N).usedQuotaDelta a = 0 := rfl

namespace BatchContext

variable (ctx : BatchContext) (tenantId : Option ℕ) (a : ℕ)

@[simp] theorem usedQuotaDeltas_logDocument (collection : ℕ) (op : ℕ → Write.LogOp) :
    usedQuotaDeltas a (ctx.logDocument collection op : List (Operation N)) = 0 := by
  unfold logDocument
  split <;> rfl

@[simp] theorem usedQuotaDeltas_logContainerPropertyChange (collection parentId : ℕ) :
    usedQuotaDeltas a (ctx.logContainerPropertyChange collection parentId : List (Operation N)) =
      0 := by
  unfold logContainerPropertyChange
  split <;> rfl

@[simp] theorem usedQuotaDeltas_addUsedQuota (value : ℤ) :
    usedQuotaDeltas a (ctx.addUsedQuota tenantId value : List (Operation N)) =
      ctx.quotaWeight tenantId a * value := by
  unfold addUsedQuota quotaWeight
  cases ctx.accountId <;> cases tenantId <;> simp [Operation.usedQuotaDelta, Option.some.injEq]
  split_ifs <;> ring

end BatchContext

section Charges

variable (ctx : BatchContext) (tenantId : Option ℕ) (a : ℕ)

theorem usedQuotaDeltas_buildIndex (set : Bool) (iv : IndexValue) :
    usedQuotaDeltas a (buildIndex ctx tenantId set iv : List (Operation N)) =
      ctx.quotaWeight tenantId a * (if set then 1 else -1) * iv.quotaUsed := by
  cases iv <;> simp only [buildIndex, IndexValue.quotaUsed, Nat.cast_zero, mul_zero]
  case index field value => split <;> simp
  case indexList => simp [usedQuotaDeltas_map]
  case tag => simp [usedQuotaDeltas_map]
  case blob => simp
  case acl value => cases set <;> simp [usedQuotaDeltas_map]
  case quota used =>
    rw [BatchContext.usedQuotaDeltas_addUsedQuota]
    cases set <;> simp
  case logItem => exact BatchContext.usedQuotaDeltas_logDocument ctx a _ _
  case logContainer => exact BatchContext.usedQuotaDeltas_logDocument ctx a _ _
  case logContainerProperty => simp [usedQuotaDeltas_flatMap]

theorem usedQuotaDeltas_updateIndex {c n : IndexValue} {ops : List (Operation N)}
    (hshape : c.SameShape n) (hu : updateIndex ctx tenantId c n = some ops) :
    usedQuotaDeltas a ops =
      ctx.quotaWeight tenantId a * ((n.quotaUsed : ℤ) - (c.quotaUsed : ℤ)) := by
  unfold updateIndex at hu
  split at hu
  · cases c <;> cases n <;> simp only [IndexValue.SameShape] at hshape <;>
      simp only [mergeIndex, reduceCtorEq, Option.some.injEq] at hu <;> subst hu <;>
      simp only [IndexValue.quotaUsed, Nat.cast_zero, sub_zero, mul_zero]
    case quota.quota => exact BatchContext.usedQuotaDeltas_addUsedQuota ctx tenantId a _
    case logContainerProperty.logContainerProperty => simp [usedQuotaDeltas_flatMap]
    case acl.acl =>
      unfold mergeAcl
      split <;> simp [usedQuotaDeltas_map]
    case index.index => split_ifs <;> simp
    all_goals simp [usedQuotaDeltas_map]
  · rename_i heq
    rw [Option.some.injEq] at hu
    subst hu
    rw [not_not.mp heq, sub_self, mul_zero]
    split <;> simp

end Charges

theorem sum_zip_sub (f : IndexValue → ℤ) :
    ∀ {cs ns : List IndexValue}, cs.length = ns.length →
      ((cs.zip ns).map fun p => f p.2 - f p.1).sum = (ns.map f).sum - (cs.map f).sum
  | [], [], _ => by simp
  | c :: cs, n :: ns, h => by
    simp only [List.zip_cons_cons, List.map_cons, List.sum_cons,
      sum_zip_sub f (Nat.succ.inj h)]
    ring
  | [], _ :: _, h => by simp at h
  | _ :: _, [], h => by simp at h

namespace DocumentStore

variable [DecidableEq N]

theorem usedQuota_commit :
    ∀ {s s' : DocumentStore N} {ops : List (Operation N)}, s.commit ops = some s' →
      ∀ a, s'.usedQuota a = s.usedQuota a + usedQuotaDeltas a ops
  | s, s', [], h, a => by
    simp only [commit, List.foldlM_nil, Option.pure_def, Option.some.injEq] at h
    subst h
    simp
  | s, s', op :: ops, h, a => by
    rw [commit_cons] at h
    obtain ⟨s₁, h₁, h⟩ := Option.bind_eq_some_iff.mp h
    rw [usedQuota_commit h a, usedQuotaDeltas_cons]
    cases op <;> simp only [applyOperation, Option.some.injEq] at h₁
    case addUsedQuota p delta =>
      subst h₁
      by_cases hp : p = a
      · subst hp
        simp [Operation.usedQuotaDelta]
        ring
      · simp [Operation.usedQuotaDelta, hp, Function.update_of_ne (Ne.symm hp)]
    all_goals first
      | (subst h₁; simp [Operation.usedQuotaDelta])
      | (split at h₁ <;> simp only [Option.some.injEq, reduceCtorEq] at h₁
         subst h₁; simp [Operation.usedQuotaDelta])

variable [IndexableObject N]

/-- The quota a stored value charges. -/
def quotaCharged : Option N → ℤ
  | none => 0
  | some v => ((indexValues v).map fun iv => (iv.quotaUsed : ℤ)).sum

variable (ctx : BatchContext) (tenantId : Option ℕ)

theorem usedQuota_write (hshape : Shaped N) {s s' : DocumentStore N} {w : DocumentWrite N}
    (hs' : s.write ctx tenantId w = some s') (a : ℕ) :
    s'.usedQuota a = s.usedQuota a +
      ctx.quotaWeight tenantId a * (quotaCharged s'.value - quotaCharged s.value) := by
  obtain ⟨b, hb, hs'⟩ := Option.bind_eq_some_iff.mp hs'
  obtain ⟨ops, hops, hc⟩ := Option.bind_eq_some_iff.mp hs'
  rw [usedQuota_commit hc a]
  cases w with
  | insert n =>
    simp only [builder] at hb
    split at hb
    · rename_i hnone
      simp only [Option.some.injEq] at hb
      subst hb
      simp only [ObjectIndexBuilder.build, Option.some.injEq] at hops
      subst hops
      rw [value_commit_setValue _ hc, hnone]
      simp only [usedQuotaDeltas_append, usedQuotaDeltas_flatMap, usedQuotaDeltas_buildIndex,
        List.sum_map_mul_left, quotaCharged, usedQuotaDeltas_cons, usedQuotaDeltas_nil,
        Operation.usedQuotaDelta, if_true]
      ring
    · cases hb
  | update n =>
    obtain ⟨c, hcur, rfl⟩ := Option.map_eq_some_iff.mp hb
    simp only [ObjectIndexBuilder.build] at hops
    obtain ⟨opss, hu, hops⟩ := Option.bind_eq_some_iff.mp hops
    simp only [Option.some.injEq] at hops
    subst hops
    obtain ⟨hlen, hzip⟩ := List.forall₂_iff_zip.mp (hshape c n)
    rw [value_commit_setValue (.assertValue c :: opss.flatten) hc, hcur]
    have hterm : ∀ p ∈ (indexValues c).zip (indexValues n),
        usedQuotaDeltas a ((updateIndex ctx tenantId p.1 p.2).getD [] : List (Operation N)) =
          ctx.quotaWeight tenantId a * ((p.2.quotaUsed : ℤ) - (p.1.quotaUsed : ℤ)) := by
      intro p hp
      obtain ⟨ops, hops⟩ := Option.isSome_iff_exists.mp
        (updateIndex_isSome (N := N) ctx tenantId (hzip hp))
      rw [hops, Option.getD_some, usedQuotaDeltas_updateIndex ctx tenantId a (hzip hp) hops]
    have hdeltas : usedQuotaDeltas a opss.flatten =
        ctx.quotaWeight tenantId a * (quotaCharged (some n) - quotaCharged (some c)) := by
      rw [List.mapM_option_eq_some [] hu]
      change usedQuotaDeltas a (((indexValues c).zip (indexValues n)).flatMap fun p =>
        ((updateIndex ctx tenantId p.1 p.2).getD [] : List (Operation N))) = _
      rw [usedQuotaDeltas_flatMap, List.map_congr_left hterm, List.sum_map_mul_left,
        sum_zip_sub (fun iv => (iv.quotaUsed : ℤ)) hlen]
      rfl
    simp [hdeltas, Operation.usedQuotaDelta]
  | delete =>
    obtain ⟨c, hcur, rfl⟩ := Option.map_eq_some_iff.mp hb
    simp only [ObjectIndexBuilder.build, Option.some.injEq] at hops
    subst hops
    rw [value_commit_clearValue
      (.assertValue c :: (indexValues c).flatMap (buildIndex ctx tenantId false)) hc, hcur]
    simp only [usedQuotaDeltas_cons, usedQuotaDeltas_append, usedQuotaDeltas_flatMap,
      usedQuotaDeltas_buildIndex, List.sum_map_mul_left, quotaCharged, usedQuotaDeltas_nil,
      Operation.usedQuotaDelta, Bool.false_eq_true, if_false]
    ring

theorem usedQuota_run (hshape : Shaped N) (s : DocumentStore N) (ws : List (DocumentWrite N))
    (a : ℕ) :
    (s.run ctx tenantId ws).usedQuota a = s.usedQuota a +
      ctx.quotaWeight tenantId a * (quotaCharged (s.run ctx tenantId ws).value - quotaCharged s.value) := by
  induction ws generalizing s with
  | nil => simp [run]
  | cons w ws ih =>
    have hrun : s.run ctx tenantId (w :: ws) = ((s.write ctx tenantId w).getD s).run ctx tenantId ws :=
      rfl
    rw [hrun]
    cases hs' : s.write ctx tenantId w with
    | none => rw [Option.getD_none, ih]
    | some s' =>
      rw [Option.getD_some, ih, usedQuota_write ctx tenantId hshape hs' a]
      ring

end DocumentStore

end EsmpServer.Storage
