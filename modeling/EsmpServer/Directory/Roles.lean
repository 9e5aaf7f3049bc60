import EsmpServer.Directory.Principal
import Mathlib

/-!
# The permissions of a role

`Server::build_role_permissions` (common/src/auth/roles.rs) collects the
permissions of a role and of every role it inherits from. It walks the role
graph depth first: the parent ids of the role being read are an iterator, the
iterators of the roles above it wait on a stack, and a set holds the roles
already fetched, so that a cycle ends. A role's permissions are a set of
enabled and a set of disabled permission ids, and the token's permissions are
the enabled ones less the disabled ones (`RolePermissions::finalize`).

The three built-in roles have fixed permissions and no parents. Meeting the
admin role ends the whole walk (`break 'outer`): the roles still waiting are
never read, and the permissions they disable are lost. With a role that lists
the admin role and a role revoking a permission as its parents, the revoked
permission is kept or not depending on which parent is listed first
(`buildRolePermissions_parentOrder`).

Every walk ends: each step reads one id or drops one exhausted iterator,
unless it fetches a role of the directory it has not fetched before
(`buildLoop`'s measure).
-/

namespace EsmpServer.Directory

/-- `RolePermissions`: permissions are sets of permission ids. -/
structure RolePermissions where
  enabled : Finset ℕ
  disabled : Finset ℕ
  revision : ℕ
  deriving DecidableEq

/-- `RolePermissions::union`. -/
def RolePermissions.union (p q : RolePermissions) : RolePermissions :=
  { p with enabled := p.enabled ∪ q.enabled, disabled := p.disabled ∪ q.disabled }

/-- `RolePermissions::finalize`. -/
def RolePermissions.finalize (p : RolePermissions) : Finset ℕ := p.enabled \ p.disabled

/-- The enabled permissions of the built-in roles: those `is_user_permission`
and `is_tenant_admin_permission` select, and `Permissions::all()`. -/
structure BuiltinPermissions where
  user : Finset ℕ
  tenantAdmin : Finset ℕ
  all : Finset ℕ

namespace BuiltinPermissions

variable (b : BuiltinPermissions)

/-- `user_permissions()`. -/
def userPermissions : RolePermissions := ⟨b.user, ∅, 0⟩

/-- `tenant_admin_permissions()`. -/
def tenantAdminPermissions : RolePermissions := ⟨b.tenantAdmin, ∅, 0⟩

/-- `admin_permissions()`. -/
def adminPermissions : RolePermissions := ⟨b.all, ∅, 0⟩

end BuiltinPermissions

/-- A role principal as the walk reads it: its id, its permissions, each
granted or revoked, and its parent roles. -/
structure Role where
  id : ℕ
  permissions : List (Bool × ℕ)
  roles : List ℕ
  deriving DecidableEq, Repr

/-- The permissions a role sets itself, at a revision: `// Add permissions`. -/
def Role.ownPermissions (r : Role) (revision : ℕ) : RolePermissions :=
  r.permissions.foldl (fun p perm =>
    if perm.1 then { p with enabled := insert perm.2 p.enabled }
    else { p with disabled := insert perm.2 p.disabled }) ⟨∅, ∅, revision⟩

/-- What the walk reads: the role principals of the directory, the token
revision of each role, and the permission cache. -/
structure RoleDirectory where
  roles : List Role
  tokenRevision : ℕ → Option ℕ
  cache : ℕ → Option RolePermissions

/-- The error of `build_role_permissions`: `Unauthorized`, with the details
"Principal not found while building role permissions" and the role's id. -/
inductive RoleError where
  | principalNotFound (roleId : ℕ)
  deriving DecidableEq, Repr

/-- The local variables of the walk: the parent ids still to read, the
iterators waiting on the stack, the roles fetched, the permissions so far, and
the roles the walk puts in the cache, in order. -/
structure BuildState where
  roleIds : List ℕ
  stack : List (List ℕ)
  fetched : Finset ℕ
  permissions : RolePermissions
  cached : List (ℕ × RolePermissions)

/-- The ids the walk has still to read. -/
def BuildState.pending (st : BuildState) : ℕ :=
  st.roleIds.length + (st.stack.map fun ids => ids.length + 1).sum

/-- The roles of the directory the walk has not fetched. -/
def RoleDirectory.unfetched (dir : RoleDirectory) (fetched : Finset ℕ) : ℕ :=
  ((dir.roles.map Role.id).toFinset \ fetched).card

theorem unfetched_insert_le (dir : RoleDirectory) (fetched : Finset ℕ) (x : ℕ) :
    dir.unfetched (insert x fetched) ≤ dir.unfetched fetched :=
  Finset.card_le_card (Finset.sdiff_subset_sdiff le_rfl (Finset.subset_insert x fetched))

theorem unfetched_insert_lt {dir : RoleDirectory} {fetched : Finset ℕ} {x : ℕ} {role : Role}
    (hfind : dir.roles.find? (fun r => r.id = x) = some role) (hx : x ∉ fetched) :
    dir.unfetched (insert x fetched) < dir.unfetched fetched := by
  have hmem : x ∈ (dir.roles.map Role.id).toFinset := by
    have hrole := List.mem_of_find?_eq_some hfind
    have hid : role.id = x := by simpa using List.find?_some hfind
    exact List.mem_toFinset.mpr (List.mem_map.mpr ⟨role, hrole, hid⟩)
  refine Finset.card_lt_card (Finset.ssubset_iff_subset_ne.mpr ⟨?_, fun h => ?_⟩)
  · exact Finset.sdiff_subset_sdiff le_rfl (Finset.subset_insert x fetched)
  · have hx' : x ∈ (dir.roles.map Role.id).toFinset \ fetched := Finset.mem_sdiff.mpr ⟨hmem, hx⟩
    rw [← h] at hx'
    exact (Finset.mem_sdiff.mp hx').2 (Finset.mem_insert_self x fetched)

theorem lex_lt_of_le_of_lt {a a' b b' : ℕ} (ha : a' ≤ a) (hb : b' < b) :
    Prod.Lex (· < ·) (· < ·) (a', b') (a, b) := by
  rcases ha.lt_or_eq with ha | rfl
  · exact .left _ _ ha
  · exact .right _ hb

section Walk

variable (b : BuiltinPermissions) (dir : RoleDirectory)

/-- The `'outer` loop of `build_role_permissions`. A role of the directory that
has parents is not cached: its parents' iterator replaces the current one,
which waits on the stack. -/
def buildLoop (st : BuildState) : Except RoleError BuildState :=
  match _hids : st.roleIds with
  | roleId :: rest =>
    if _hf : roleId ∈ st.fetched then buildLoop { st with roleIds := rest }
    else if roleId = roleUser then
      buildLoop { st with
        roleIds := rest
        fetched := insert roleId st.fetched
        permissions := st.permissions.union b.userPermissions }
    else if roleId = roleAdmin then
      .ok { st with
        roleIds := rest
        fetched := insert roleId st.fetched
        permissions := st.permissions.union b.adminPermissions }
    else if roleId = roleTenantAdmin then
      buildLoop { st with
        roleIds := rest
        fetched := insert roleId st.fetched
        permissions := st.permissions.union b.tenantAdminPermissions }
    else
      let revision := dir.tokenRevision roleId
      match (dir.cache roleId).filter (fun p => decide (some p.revision = revision)) with
      | some p =>
        buildLoop { st with
          roleIds := rest
          fetched := insert roleId st.fetched
          permissions := st.permissions.union p }
      | none =>
        match hfind : dir.roles.find? (fun r => r.id = roleId) with
        | none => .error (.principalNotFound roleId)
        | some principal =>
          let own := principal.ownPermissions (revision.getD (2 ^ 64 - 1))
          if principal.roles ≠ [] then
            buildLoop { st with
              roleIds := principal.roles
              stack := rest :: st.stack
              fetched := insert roleId st.fetched
              permissions := st.permissions.union own }
          else
            buildLoop { st with
              roleIds := rest
              fetched := insert roleId st.fetched
              permissions := st.permissions.union own
              cached := st.cached ++ [(roleId, own)] }
  | [] =>
    match _hstack : st.stack with
    | prev :: stack => buildLoop { st with roleIds := prev, stack := stack }
    | [] => .ok st
termination_by (dir.unfetched st.fetched, st.pending)
decreasing_by
  all_goals simp only [BuildState.pending, _hids, List.length_cons, List.length_nil]
  -- a step reads an id, or drops an iterator, or fetches a role of the directory
  all_goals first
    | exact lex_lt_of_le_of_lt le_rfl (by omega)
    | exact lex_lt_of_le_of_lt (unfetched_insert_le dir _ _) (by omega)
    | exact .left _ _ (unfetched_insert_lt ‹_› ‹_›)
    | (rw [‹st.stack = _›, List.map_cons, List.sum_cons]
       exact lex_lt_of_le_of_lt le_rfl (by omega))

/-- `Server::build_role_permissions`: the permissions and the roles cached. -/
def buildRolePermissions (roleId revision : ℕ) :
    Except RoleError (RolePermissions × List (ℕ × RolePermissions)) :=
  (buildLoop b dir ⟨[roleId], [], ∅, ⟨∅, ∅, revision⟩, []⟩).map fun st => (st.permissions, st.cached)

end Walk

/-! ## One step of the walk -/

section Steps

variable {b : BuiltinPermissions} {dir : RoleDirectory} {st : BuildState} {roleId : ℕ}
  {rest : List ℕ}

theorem buildLoop_fetched (hids : st.roleIds = roleId :: rest) (hf : roleId ∈ st.fetched) :
    buildLoop b dir st = buildLoop b dir { st with roleIds := rest } := by
  rw [buildLoop]
  split
  · rename_i roleId' rest' hids'
    obtain ⟨rfl, rfl⟩ := List.cons.inj (hids.symm.trans hids')
    rw [dif_pos hf]
  · rename_i hids'
    simp [hids] at hids'

theorem buildLoop_admin (hids : st.roleIds = roleAdmin :: rest) (hf : roleAdmin ∉ st.fetched) :
    buildLoop b dir st = .ok { st with
      roleIds := rest
      fetched := insert roleAdmin st.fetched
      permissions := st.permissions.union b.adminPermissions } := by
  rw [buildLoop]
  split
  · rename_i roleId' rest' hids'
    obtain ⟨rfl, rfl⟩ := List.cons.inj (hids.symm.trans hids')
    rw [dif_neg hf, if_neg (by decide), if_pos rfl]
  · rename_i hids'
    simp [hids] at hids'

theorem buildLoop_principal {principal : Role} (hids : st.roleIds = roleId :: rest)
    (hf : roleId ∉ st.fetched) (hint : ¬IsInternalRole roleId)
    (hcache : (dir.cache roleId).filter (fun p => decide (some p.revision = dir.tokenRevision roleId)) = none)
    (hfind : dir.roles.find? (fun r => r.id = roleId) = some principal) :
    buildLoop b dir st =
      if principal.roles ≠ [] then
        buildLoop b dir { st with
          roleIds := principal.roles
          stack := rest :: st.stack
          fetched := insert roleId st.fetched
          permissions := st.permissions.union
            (principal.ownPermissions ((dir.tokenRevision roleId).getD (2 ^ 64 - 1))) }
      else
        buildLoop b dir { st with
          roleIds := rest
          fetched := insert roleId st.fetched
          permissions := st.permissions.union
            (principal.ownPermissions ((dir.tokenRevision roleId).getD (2 ^ 64 - 1)))
          cached := st.cached ++
            [(roleId, principal.ownPermissions ((dir.tokenRevision roleId).getD (2 ^ 64 - 1)))] } := by
  simp only [IsInternalRole, not_or] at hint
  obtain ⟨hadmin, htenant, huser⟩ := hint
  rw [buildLoop]
  split
  · rename_i roleId' rest' hids'
    obtain ⟨rfl, rfl⟩ := List.cons.inj (hids.symm.trans hids')
    rw [dif_neg hf, if_neg huser, if_neg hadmin, if_neg htenant]
    simp only [hcache]
    split
    · rename_i hfind'
      rw [hfind] at hfind'
      exact absurd hfind' (by simp)
    · rename_i principal' hfind'
      rw [hfind, Option.some.injEq] at hfind'
      subst hfind'
      rfl
  · rename_i hids'
    simp [hids] at hids'

theorem buildLoop_pop {prev : List ℕ} {stack : List (List ℕ)} (hids : st.roleIds = [])
    (hstack : st.stack = prev :: stack) :
    buildLoop b dir st = buildLoop b dir { st with roleIds := prev, stack := stack } := by
  rw [buildLoop]
  split
  · rename_i roleId' rest' hids'
    simp [hids] at hids'
  · split
    · rename_i prev' stack' hstack'
      obtain ⟨rfl, rfl⟩ := List.cons.inj (hstack.symm.trans hstack')
      rfl
    · rename_i hstack'
      simp [hstack] at hstack'

end Steps

theorem not_isInternalRole_of_lt {roleId : ℕ} (h : roleId < roleUser) : ¬IsInternalRole roleId := by
  unfold IsInternalRole roleAdmin roleTenantAdmin roleUser
  unfold roleUser at h
  omega

/-- Role 1 inherits from the admin role and from role 2, which revokes
permission 0. With the admin role listed first the walk stops before role 2 and
the token keeps permission 0; listed the other way, it loses it. -/
theorem buildRolePermissions_parentOrder (b : BuiltinPermissions) (h0 : 0 ∈ b.all) :
    (buildRolePermissions b ⟨[⟨1, [], [roleAdmin, 2]⟩, ⟨2, [(false, 0)], []⟩], fun _ => none,
        fun _ => none⟩ 1 0).map (·.1.finalize) = .ok b.all ∧
      (buildRolePermissions b ⟨[⟨1, [], [2, roleAdmin]⟩, ⟨2, [(false, 0)], []⟩], fun _ => none,
        fun _ => none⟩ 1 0).map (·.1.finalize) = .ok (b.all.erase 0) ∧
      b.all.erase 0 ≠ b.all := by
  have h1 : ¬IsInternalRole 1 := not_isInternalRole_of_lt (by decide)
  have h2 : ¬IsInternalRole 2 := not_isInternalRole_of_lt (by decide)
  refine ⟨?_, ?_, fun h => Finset.notMem_erase 0 b.all (by rw [h]; exact h0)⟩
  · rw [buildRolePermissions, buildLoop_principal rfl (by simp) h1 rfl rfl, if_pos (by simp),
      buildLoop_admin rfl (by decide)]
    simp [RolePermissions.union, RolePermissions.finalize, Role.ownPermissions,
      BuiltinPermissions.adminPermissions, Except.map]
  · rw [buildRolePermissions, buildLoop_principal rfl (by simp) h1 rfl rfl, if_pos (by simp),
      buildLoop_principal rfl (by decide) h2 rfl rfl, if_neg (by simp),
      buildLoop_admin rfl (by decide)]
    simp [RolePermissions.union, RolePermissions.finalize, Role.ownPermissions,
      BuiltinPermissions.adminPermissions, Except.map, Finset.sdiff_singleton_eq_erase]

theorem buildRolePermissions_parentOrder_single :
    0 ∈ (⟨∅, ∅, {0}⟩ : BuiltinPermissions).all ∧
      ((buildRolePermissions ⟨∅, ∅, {0}⟩ ⟨[⟨1, [], [roleAdmin, 2]⟩, ⟨2, [(false, 0)], []⟩],
          fun _ => none, fun _ => none⟩ 1 0).map (·.1.finalize) = .ok {0} ∧
        (buildRolePermissions ⟨∅, ∅, {0}⟩ ⟨[⟨1, [], [2, roleAdmin]⟩, ⟨2, [(false, 0)], []⟩],
          fun _ => none, fun _ => none⟩ 1 0).map (·.1.finalize) = .ok (({0} : Finset ℕ).erase 0) ∧
        ({0} : Finset ℕ).erase 0 ≠ {0}) :=
  ⟨by simp, buildRolePermissions_parentOrder ⟨∅, ∅, {0}⟩ (by simp)⟩

end EsmpServer.Directory
