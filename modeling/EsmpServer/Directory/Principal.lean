import EsmpServer.Lib.Batch
import Mathlib

/-!
# The internal directory: principals and their keys

The store of the internal directory (backend/internal) as its management code
sees it. A principal record, the name and e-mail indexes and the two directions
of a membership are all values of one key-value store under `DirectoryClass`
keys; beside the store is the document id counter of the principal collection.
The lookups are those of manage.rs and lookup.rs in the build without the
enterprise feature, where every principal has tenant access.
-/

namespace EsmpServer.Directory

/-- Type (directory/src/lib.rs). -/
inductive PrincipalType
  | individual | group | resource | location | list | other | domain | tenant | role
  | apiKey | oauthClient
  deriving DecidableEq, Repr

/-- Type::as_str, used in error texts. -/
def PrincipalType.asStr : PrincipalType → String
  | .individual => "Individual"
  | .group => "Group"
  | .resource => "Resource"
  | .location => "Location"
  | .tenant => "Tenant"
  | .list => "List"
  | .other => "Other"
  | .role => "Role"
  | .domain => "Domain"
  | .apiKey => "API Key"
  | .oauthClient => "OAuth Client"

/-- The fields of PrincipalField that the directory's key maintenance reads. -/
inductive PrincipalField
  | name | emails | memberOf | members | roles | lists
  deriving DecidableEq, Repr

/-- PrincipalField::as_str. -/
def PrincipalField.asStr : PrincipalField → String
  | .name => "name"
  | .emails => "emails"
  | .memberOf => "memberOf"
  | .members => "members"
  | .roles => "roles"
  | .lists => "lists"

/-- The fields whose changes update_principal writes as membership keys only. -/
def PrincipalField.isMembership : PrincipalField → Bool
  | .memberOf | .members | .lists | .roles => true
  | .name | .emails => false

/-- PrincipalInfo: the value of a name or e-mail index key. -/
structure PrincipalInfo where
  id : ℕ
  typ : PrincipalType
  deriving DecidableEq, Repr

/-- A principal record (Principal in directory/src/lib.rs). -/
structure Principal where
  id : ℕ
  typ : PrincipalType
  name : String
  emails : List String
  deriving DecidableEq, Repr

/-- MemberOf: a group a principal belongs to, with the group's type. -/
structure MemberOf where
  principalId : ℕ
  typ : PrincipalType
  deriving DecidableEq, Repr

/-- The directory keys of store::write::DirectoryClass that the management code
writes. Names and addresses are kept as text; the source keys them by their
bytes, which is the same up to the injective encoding. -/
inductive DirectoryClass
  | nameToId (name : String)
  | emailToId (email : String)
  | principal (id : ℕ)
  | memberOf (principalId memberOf : ℕ)
  | members (principalId hasMember : ℕ)
  deriving DecidableEq, Repr

/-- What each key holds: the index keys a PrincipalInfo, a principal key its record,
a memberOf key the group's type (the byte the source writes), a members key nothing. -/
@[reducible] def DirectoryClass.Value : DirectoryClass → Type
  | .nameToId _ => PrincipalInfo
  | .emailToId _ => PrincipalInfo
  | .principal _ => Principal
  | .memberOf _ _ => PrincipalType
  | .members _ _ => Unit

/-- A write batch of the directory store. -/
abbrev BatchOp := AList.BatchOp DirectoryClass.Value

/-- The store as the directory uses it (ManageDirectory for Store): the values under
the directory keys, and the document id counter of the principal collection. -/
structure Store where
  values : AList DirectoryClass.Value
  principalIds : ℕ

/-- A store with no principals. -/
def Store.empty : Store := ⟨∅, 0⟩

/-- ROLE_ADMIN, ROLE_TENANT_ADMIN and ROLE_USER: the ids of the built-in roles. -/
def roleAdmin : ℕ := 2 ^ 32 - 1

def roleTenantAdmin : ℕ := 2 ^ 32 - 2

def roleUser : ℕ := 2 ^ 32 - 3

/-- An id of a built-in role, which no stored principal carries. -/
def IsInternalRole (id : ℕ) : Prop := id = roleAdmin ∨ id = roleTenantAdmin ∨ id = roleUser

/-- RcptType, without the expansion of a list. -/
inductive RcptType
  | mailbox | list | invalid
  deriving DecidableEq, Repr

/-- The errors of the management code: err_missing, err_exists, not_found (with a
name or with an id) and error. -/
inductive ManageError
  | missingParameter (key : PrincipalField)
  | alreadyExists (key : PrincipalField) (value : String)
  | notFound (key : String)
  | notFoundId (key : ℕ)
  | error (details : String) (reason : Option String)
  deriving DecidableEq, Repr

namespace Store

variable (d : Store)

/-- get_principal_info: the name index. -/
def getPrincipalInfo (name : String) : Option PrincipalInfo :=
  d.values.lookup (DirectoryClass.nameToId name)

/-- get_principal_id. -/
def getPrincipalId (name : String) : Option ℕ :=
  (d.getPrincipalInfo name).map (·.id)

/-- get_principal: the record, with its id set from the key. -/
def getPrincipal (principalId : ℕ) : Option Principal :=
  (d.values.lookup (DirectoryClass.principal principalId)).map fun p => { p with id := principalId }

/-- rcpt: whether an address is a recipient, by the e-mail index. -/
def rcpt (address : String) : RcptType :=
  match d.values.lookup (DirectoryClass.emailToId address) with
  | some pinfo => if (pinfo : PrincipalInfo).typ ≠ .list then .mailbox else .list
  | none => .invalid

/-- The memberOf entry of a store entry, when it is one of `principalId`. -/
def memberOfEntry (principalId : ℕ) : (Σ k : DirectoryClass, k.Value) → Option MemberOf
  | ⟨.memberOf p g, t⟩ => if p = principalId then some ⟨g, t⟩ else none
  | _ => none

/-- The member of a members entry, when it is one of `principalId`. -/
def membersEntry (principalId : ℕ) : (Σ k : DirectoryClass, k.Value) → Option ℕ
  | ⟨.members g m, _⟩ => if g = principalId then some m else none
  | _ => none

/-- get_member_of: the range scan over the memberOf keys of a principal, in key
order. -/
def getMemberOf (principalId : ℕ) : List MemberOf :=
  (d.values.entries.filterMap (memberOfEntry principalId)).insertionSort
    fun a b => a.principalId ≤ b.principalId

/-- get_members: the range scan over the members keys of a principal, in key order. -/
def getMembers (principalId : ℕ) : List ℕ :=
  (d.values.entries.filterMap (membersEntry principalId)).insertionSort (· ≤ ·)

/-- A principal whose record is stored. -/
def Live (id : ℕ) : Prop := DirectoryClass.principal id ∈ d.values

/-- write: commit a batch. -/
def write (batch : List BatchOp) : Store := { d with values := d.values.applyBatch batch }

end Store

/-- PrincipalField::map_internal_role_name. -/
def PrincipalField.mapInternalRoleName : PrincipalField → String → Option ℕ
  | .roles, "admin" => some roleAdmin
  | .roles, "tenant-admin" => some roleTenantAdmin
  | .roles, "user" => some roleUser
  | _, _ => none

/-- PrincipalField::map_internal_roles. -/
def PrincipalField.mapInternalRoles (field : PrincipalField) (name : String) :
    Option PrincipalInfo :=
  (field.mapInternalRoleName name).map fun roleId => ⟨roleId, .role⟩

/-- str::to_lowercase, on the characters it maps one to one. -/
def toLowercase (s : String) : String := String.ofList (s.toList.map Char.toLower)

/-- email.split('@').nth(1): the text between the first '@' and the next one. -/
def emailDomain (email : String) : Option String :=
  ((email.toList.splitOn '@')[1]?).map String.ofList

/-- The Debug form of a string in an error text. -/
def debugStr (s : String) : String := "\"" ++ s ++ "\""

/-- validate_member_of: which types a principal of type `typ` may join through
`field`. -/
def validateMemberOf (field : PrincipalField) (typ memberType : PrincipalType)
    (memberName : String) : Except ManageError Unit :=
  let expectedTypes : List PrincipalType :=
    match field, typ with
    | .memberOf, .individual => [.group, .individual]
    | .memberOf, .group => [.group]
    | .lists, .individual | .lists, .group => [.list]
    | .roles, .individual | .roles, .tenant | .roles, .role => [.role]
    | _, _ => []
  if expectedTypes.isEmpty || !expectedTypes.contains memberType then
    .error (.error ("Invalid " ++ field.asStr ++ " value")
      (some (if !expectedTypes.isEmpty then
        "Principal " ++ debugStr memberName ++ " is not a " ++
          ", ".intercalate (expectedTypes.map PrincipalType.asStr) ++ "."
      else "Principal " ++ debugStr memberName ++ " cannot be added as a member.")))
  else .ok ()

/-- The member types a principal of each type accepts (allowed_member_types). -/
def PrincipalType.allowedMemberTypes : PrincipalType → List PrincipalType
  | .group => [.individual, .group]
  | .resource => [.resource]
  | .location => [.location, .resource, .individual, .group, .other]
  | .list => [.individual, .group]
  | .other | .domain | .tenant | .individual | .apiKey | .oauthClient => []
  | .role => [.role]

/-! ### Membership keys

The two keys of one membership are mirrors of each other. -/

namespace DirectoryClass

/-- The membership keys. -/
def IsMembership : DirectoryClass → Prop
  | .memberOf _ _ | .members _ _ => True
  | _ => False

/-- The other direction of a membership key. -/
def mirror : DirectoryClass → DirectoryClass
  | .memberOf p g => .members g p
  | .members g p => .memberOf p g
  | k => k

theorem mirror_involutive (k : DirectoryClass) (hk : k.IsMembership) :
    k.mirror.IsMembership ∧ k.mirror.mirror = k := by
  cases k <;> simp_all [IsMembership, mirror]

/-- The ids a membership key names are those of live principals or built-in roles:
the member side is always a live principal. -/
def LiveIn (d : Store) : DirectoryClass → Prop
  | .memberOf p g => d.Live p ∧ (d.Live g ∨ IsInternalRole g)
  | .members g p => (d.Live g ∨ IsInternalRole g) ∧ d.Live p
  | _ => True

end DirectoryClass

/-- Both writes of a new membership of `principalId` in `memberOf`, as every branch
of the source issues them. -/
def setMembership (principalId memberOf : ℕ) (typ : PrincipalType) : List BatchOp :=
  [.set (.memberOf principalId memberOf) typ, .set (.members memberOf principalId) ()]

/-- Both clears of a membership. -/
def clearMembership (principalId memberOf : ℕ) : List BatchOp :=
  [.clear (.memberOf principalId memberOf), .clear (.members memberOf principalId)]

namespace Store

variable {d : Store}

@[simp] theorem getPrincipalInfo_eq : d.getPrincipalInfo name = d.values.lookup (DirectoryClass.nameToId name) :=
  rfl

theorem rcpt_eq_invalid {address : String} :
    d.rcpt address = .invalid ↔ d.values.lookup (DirectoryClass.emailToId address) = none := by
  unfold rcpt
  split <;> simp_all
  split <;> simp

theorem mem_getMemberOf {principalId g : ℕ} :
    g ∈ (d.getMemberOf principalId).map (·.principalId) ↔ .memberOf principalId g ∈ d.values := by
  simp only [getMemberOf, List.mem_map, (List.perm_insertionSort _ _).mem_iff, List.mem_filterMap]
  constructor
  · rintro ⟨m, ⟨⟨k, v⟩, hmem, hm⟩, rfl⟩
    match k, v, hm with
    | .memberOf p g', t, hm =>
      simp only [memberOfEntry] at hm
      split at hm <;> simp only [Option.some.injEq, reduceCtorEq] at hm
      subst hm
      rename_i hp
      subst hp
      exact AList.mem_keys.mpr (List.mem_keys_of_mem hmem)
  · intro h
    obtain ⟨t, ht⟩ := Option.isSome_iff_exists.mp (AList.lookup_isSome.mpr h)
    exact ⟨⟨g, t⟩, ⟨⟨.memberOf principalId g, t⟩, AList.mem_lookup_iff.mp ht,
      by simp [memberOfEntry]⟩, rfl⟩

theorem mem_getMembers {principalId m : ℕ} :
    m ∈ d.getMembers principalId ↔ .members principalId m ∈ d.values := by
  simp only [getMembers, (List.perm_insertionSort _ _).mem_iff, List.mem_filterMap]
  constructor
  · rintro ⟨⟨k, v⟩, hmem, hm⟩
    match k, v, hm with
    | .members g m', u, hm =>
      simp only [membersEntry] at hm
      split at hm <;> simp only [Option.some.injEq, reduceCtorEq] at hm
      subst hm
      rename_i hg
      subst hg
      exact AList.mem_keys.mpr (List.mem_keys_of_mem hmem)
  · intro h
    obtain ⟨u, hu⟩ := Option.isSome_iff_exists.mp (AList.lookup_isSome.mpr h)
    exact ⟨⟨.members principalId m, u⟩, AList.mem_lookup_iff.mp hu, by simp [membersEntry]⟩

end Store

end EsmpServer.Directory
