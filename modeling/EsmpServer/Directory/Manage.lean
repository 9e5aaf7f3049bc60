import EsmpServer.Directory.Principal
import EsmpServer.Lib.Fallible

/-!
# Creating, updating and deleting principals

create_principal, validate_email, delete_principal and update_principal of
backend/internal/manage.rs, on the keys of `Principal`. Each request builds one
write batch and commits it at its end; a request that fails writes nothing.
The one exception is validate_email with create_domains, which creates the
missing domain with a request of its own in the middle of an update.

update_principal keeps an in-memory copy of the record and of both membership
lists, and computes each change against that copy and against the store as it
was when the request started, never against the pending batch.
-/

namespace EsmpServer.Directory

/-- The fields of a new principal that create_principal reads (PrincipalSet); a
field the request leaves out is the empty list. -/
structure PrincipalSet where
  typ : PrincipalType
  name : String
  emails : List String
  members : List String
  memberOf : List String
  lists : List String
  roles : List String
  deriving DecidableEq, Repr

/-- PrincipalAction. -/
inductive PrincipalAction
  | set | addItem | removeItem
  deriving DecidableEq, Repr

/-- PrincipalValue. -/
inductive PrincipalValue
  | string (value : String)
  | stringList (values : List String)
  | integer (value : ℕ)
  | integerList (values : List ℕ)
  deriving DecidableEq, Repr

/-- The Debug form of a value in an error text. -/
def PrincipalValue.debug : PrincipalValue → String
  | .string s => "String(" ++ debugStr s ++ ")"
  | .stringList l => "StringList([" ++ ", ".intercalate (l.map debugStr) ++ "])"
  | .integer n => "Integer(" ++ toString n ++ ")"
  | .integerList l => "IntegerList([" ++ ", ".intercalate (l.map toString) ++ "])"

/-- PrincipalUpdate: one change of an update request. -/
structure PrincipalUpdate where
  action : PrincipalAction
  field : PrincipalField
  value : PrincipalValue
  deriving DecidableEq, Repr

/-- QueryBy, by name or by id. -/
inductive QueryBy
  | name (name : String)
  | id (id : ℕ)
  deriving DecidableEq, Repr

/-- UpdatePrincipal: the parameters of update_principal. -/
structure UpdatePrincipal where
  query : QueryBy
  changes : List PrincipalUpdate
  tenantId : Option ℕ
  createDomains : Bool
  deriving DecidableEq, Repr

namespace Store

variable (d : Store)

/-- The id a principal name stands for (the query of update and delete). -/
def principalIdOf : QueryBy → Except ManageError ℕ
  | .name name =>
    match d.getPrincipalId name with
    | some principalId => .ok principalId
    | none => .error (.notFound name)
  | .id principalId => .ok principalId

/-- A member name of create_principal and of the memberOf changes of
update_principal: a built-in role first, then a principal of the expected type. -/
def mapMember (field : PrincipalField) (expectedType : Option PrincipalType) (name : String) :
    Except ManageError PrincipalInfo :=
  match (d.getPrincipalInfo name).filter (fun v => expectedType.all (v.typ == ·)),
    field.mapInternalRoles name with
  | _, some v => .ok v
  | some v, none => .ok v
  | none, none => .error (.notFound name)

/-- The e-mail loop of create_principal: each address lower-cased and refused when
it is already a recipient; the domain of each is looked up once. -/
def checkNewEmails : (validDomains : List String) → List String → Except ManageError (List String)
  | _, [] => .ok []
  | validDomains, email :: rest =>
    let email := toLowercase email
    if d.rcpt email ≠ .invalid then .error (.alreadyExists .emails email)
    else
      match emailDomain email with
      | some domain =>
        if domain ∉ validDomains then
          match (d.getPrincipalInfo domain).filter (·.typ == .domain) with
          | some _ => (email :: ·) <$> checkNewEmails (domain :: validDomains) rest
          | none => .error (.notFound domain)
        else (email :: ·) <$> checkNewEmails validDomains rest
      | none => (email :: ·) <$> checkNewEmails validDomains rest

/-- The batch of create_principal: the record, its name and addresses, and both
directions of every membership. -/
def createBatch (principalId : ℕ) (typ : PrincipalType) (name : String) (emails : List String)
    (memberOf members : List PrincipalInfo) : List BatchOp :=
  [.set (.principal principalId) (⟨principalId, typ, name, emails⟩ : Principal),
    .set (.nameToId name) (⟨principalId, typ⟩ : PrincipalInfo)] ++
  emails.map (fun email => .set (.emailToId email) (⟨principalId, typ⟩ : PrincipalInfo)) ++
  memberOf.flatMap (fun g => setMembership principalId g.id g.typ) ++
  members.flatMap (fun m => setMembership m.id principalId typ)

/-- create_principal. The new id is the next value of the counter, taken as a u32. -/
def createPrincipal (principalSet : PrincipalSet) : Except ManageError (ℕ × Store) := do
  let name := toLowercase principalSet.name
  if name.isEmpty then throw (.missingParameter .name)
  if (d.getPrincipalId name).isSome then throw (.alreadyExists .name name)
  let members ← principalSet.members.mapM (d.mapMember .members none)
  let memberOf ← principalSet.memberOf.mapM (d.mapMember .memberOf (some .group))
  let lists ← principalSet.lists.mapM (d.mapMember .lists (some .list))
  let roles ← principalSet.roles.mapM (d.mapMember .roles (some .role))
  let emails ← if principalSet.typ ≠ .oauthClient then d.checkNewEmails [] principalSet.emails
    else pure []
  let principalId := (d.principalIds + 1) % 2 ^ 32
  let d := { d with principalIds := d.principalIds + 1 }
  pure (principalId,
    d.write (createBatch principalId principalSet.typ name emails (memberOf ++ lists ++ roles) members))

/-- validate_email: an address that is not yet a recipient, of a stored domain. With
`createIfMissing` a missing domain is created, and the store that comes back is
the one after that creation. -/
def validateEmail (email : String) (createIfMissing : Bool) : Except ManageError Store :=
  if d.rcpt email ≠ .invalid then .error (.alreadyExists .emails email)
  else
    match emailDomain email with
    | some domain =>
      match d.getPrincipalInfo domain with
      | some v => if v.typ = .domain then .ok d else .error (.notFound domain)
      | none =>
        if createIfMissing then (·.2) <$> d.createPrincipal ⟨.domain, domain, [], [], [], [], []⟩
        else .error (.notFound domain)
    | none => .error (.error "Invalid email" (some "Email address is invalid"))

/-- The batch of delete_principal: the record, its name and addresses, and both
directions of each membership the two range scans find. -/
def deleteBatch (principalId : ℕ) (principal : Principal) : List BatchOp :=
  [.clear (.nameToId principal.name), .clear (.principal principalId)] ++
  principal.emails.map (fun email => .clear (.emailToId email)) ++
  (d.getMemberOf principalId).flatMap (fun m => clearMembership principalId m.principalId) ++
  (d.getMembers principalId).flatMap (fun m => clearMembership m principalId)

/-- delete_principal. -/
def deletePrincipal (query : QueryBy) : Except ManageError Store := do
  let principalId ← d.principalIdOf query
  match d.getPrincipal principalId with
  | some principal => pure (d.write (d.deleteBatch principalId principal))
  | none => throw (.notFound (toString principalId))

end Store

/-- The state of the change loop of update_principal: the store (which only
validate_email with create_domains changes), the in-memory record and membership
lists, the pending batch, and the domains found valid so far. -/
structure UpdateState where
  store : Store
  principal : Principal
  memberOf : List MemberOf
  members : List ℕ
  batch : List BatchOp
  validDomains : List String

/-- The error of a members change naming a principal of the wrong type. -/
def invalidMembers (principalType : PrincipalType) (member : String) : ManageError :=
  .error "Invalid members value"
    (some ("Principal " ++ debugStr member ++ " is not one of " ++
      ", ".intercalate (principalType.allowedMemberTypes.map PrincipalType.asStr) ++ "."))

namespace UpdateState

variable (st : UpdateState) (principalId : ℕ) (principalType : PrincipalType)

/-- The tenant check of Set on Name: a tenant's principal must be named after one
of the tenant's domains. The valid domains found so far carry over to later
renames of the same request. -/
def checkTenantDomain (tenantId : Option ℕ) (newName : String) :
    Except ManageError (List String) :=
  if tenantId.isSome && principalType ≠ .tenant && principalType ≠ .domain then
    let validDomains :=
      match emailDomain newName with
      | some domain =>
        if ((st.store.getPrincipalInfo domain).filter (·.typ == .domain)).isSome then
          domain :: st.validDomains
        else st.validDomains
      | none => st.validDomains
    if validDomains.isEmpty then
      .error (.error "Invalid principal name"
        (some "Principal name must include a valid domain assigned to the tenant"))
    else .ok validDomains
  else .ok st.validDomains

/-- Set on Name. The new name is checked against the store. -/
def setName (tenantId : Option ℕ) (newName : String) : Except ManageError UpdateState := do
  let newName := toLowercase newName
  if st.principal.name = newName then return st
  let validDomains ← st.checkTenantDomain principalType tenantId newName
  if (st.store.getPrincipalId newName).isSome then throw (.alreadyExists .name newName)
  pure { st with
    validDomains
    batch := st.batch ++ [.clear (.nameToId st.principal.name),
      .set (.nameToId newName) (⟨principalId, principalType⟩ : PrincipalInfo)]
    principal := { st.principal with name := newName } }

/-- One address of Set on Emails: validated (unless the principal is an OAuth
client) and indexed, unless the record had it before the change. -/
def setEmailStep (createDomains : Bool) (current : List String) (st : UpdateState) (email : String) :
    Except ManageError UpdateState :=
  if current.contains email then pure st
  else do
    let store ← if principalType ≠ .oauthClient then st.store.validateEmail email createDomains
      else pure st.store
    pure { st with
      store
      batch := st.batch ++ [.set (.emailToId email) (⟨principalId, principalType⟩ : PrincipalInfo)] }

/-- Set on Emails: the new list, lower-cased, replaces the old one; addresses it
drops are unindexed. -/
def setEmails (createDomains : Bool) (emails : List String) : Except ManageError UpdateState := do
  let emails := emails.map toLowercase
  let st' ← emails.foldlM (setEmailStep principalId principalType createDomains st.principal.emails) st
  pure { st' with
    batch := st'.batch ++
      (st.principal.emails.filter (fun e => !emails.contains e)).map (fun e => .clear (.emailToId e))
    principal := { st.principal with emails } }

/-- AddItem on Emails: an address the record does not have is validated, indexed and
appended. -/
def addEmail (createDomains : Bool) (email : String) : Except ManageError UpdateState := do
  let email := toLowercase email
  if st.principal.emails.contains email then return st
  let st' ← setEmailStep principalId principalType createDomains st.principal.emails st email
  pure { st' with principal := { st.principal with emails := st.principal.emails ++ [email] } }

/-- RemoveItem on Emails: the first occurrence is removed and the address unindexed. -/
def removeEmail (email : String) : UpdateState :=
  let email := toLowercase email
  if st.principal.emails.contains email then
    { st with
      principal := { st.principal with emails := st.principal.emails.erase email }
      batch := st.batch ++ [.clear (.emailToId email)] }
  else st

/-- One name of Set on MemberOf, Lists or Roles: a membership is written unless the
principal had it before the change. -/
def setMemberOfStep (field : PrincipalField) (current : List MemberOf)
    (acc : UpdateState × List MemberOf) (member : String) :
    Except ManageError (UpdateState × List MemberOf) := do
  let memberInfo ← acc.1.store.mapMember field none member
  validateMemberOf field principalType memberInfo.typ member
  let st' := if current.any (·.principalId == memberInfo.id) then acc.1
    else { acc.1 with batch := acc.1.batch ++ setMembership principalId memberInfo.id memberInfo.typ }
  pure (st', acc.2 ++ [⟨memberInfo.id, memberInfo.typ⟩])

/-- Set on MemberOf, Lists or Roles: memberships the new list drops are cleared. -/
def setMemberOf (field : PrincipalField) (members : List String) :
    Except ManageError UpdateState := do
  let (st', newMemberOf) ←
    members.foldlM (setMemberOfStep principalId principalType field st.memberOf) (st, [])
  pure { st' with
    batch := st'.batch ++
      (st.memberOf.filter (fun m => !newMemberOf.any (·.principalId == m.principalId))).flatMap
        (fun m => clearMembership principalId m.principalId)
    memberOf := newMemberOf }

/-- AddItem on MemberOf, Lists or Roles. -/
def addMemberOf (field : PrincipalField) (member : String) : Except ManageError UpdateState := do
  let memberInfo ← st.store.mapMember field none member
  if st.memberOf.any (·.principalId == memberInfo.id) then return st
  validateMemberOf field principalType memberInfo.typ member
  pure { st with
    batch := st.batch ++ setMembership principalId memberInfo.id memberInfo.typ
    memberOf := st.memberOf ++ [⟨memberInfo.id, memberInfo.typ⟩] }

/-- RemoveItem on MemberOf, Lists or Roles. Unlike the other two, it looks the name
up as a principal first and as a built-in role second. -/
def removeMemberOf (field : PrincipalField) (member : String) : UpdateState :=
  match (st.store.getPrincipalInfo member).or (field.mapInternalRoles member) with
  | some memberInfo =>
    if st.memberOf.any (·.principalId == memberInfo.id) then
      { st with
        batch := st.batch ++ clearMembership principalId memberInfo.id
        memberOf := st.memberOf.eraseP (·.principalId == memberInfo.id) }
    else st
  | none => st

/-- One name of Set on Members: a principal whose type the principal accepts; the
membership is written unless it was there before the change. -/
def setMembersStep (current : List ℕ) (acc : UpdateState × List ℕ) (member : String) :
    Except ManageError (UpdateState × List ℕ) := do
  let some memberInfo := acc.1.store.getPrincipalInfo member | throw (.notFound member)
  if !principalType.allowedMemberTypes.contains memberInfo.typ then
    throw (invalidMembers principalType member)
  let st' := if current.contains memberInfo.id then acc.1
    else { acc.1 with batch := acc.1.batch ++ setMembership memberInfo.id principalId principalType }
  pure (st', acc.2 ++ [memberInfo.id])

/-- Set on Members: members the new list drops are cleared. -/
def setMembers (members : List String) : Except ManageError UpdateState := do
  let (st', newMembers) ←
    members.foldlM (setMembersStep principalId principalType st.members) (st, [])
  pure { st' with
    batch := st'.batch ++
      (st.members.filter (fun m => !newMembers.contains m)).flatMap
        (fun m => clearMembership m principalId)
    members := newMembers }

/-- AddItem on Members. -/
def addMember (member : String) : Except ManageError UpdateState := do
  let some memberInfo := st.store.getPrincipalInfo member | throw (.notFound member)
  if st.members.contains memberInfo.id then return st
  if !principalType.allowedMemberTypes.contains memberInfo.typ then
    throw (invalidMembers principalType member)
  pure { st with
    batch := st.batch ++ setMembership memberInfo.id principalId principalType
    members := st.members ++ [memberInfo.id] }

/-- RemoveItem on Members. -/
def removeMember (member : String) : UpdateState :=
  match st.store.getPrincipalInfo member with
  | some memberInfo =>
    if st.members.contains memberInfo.id then
      { st with
        batch := st.batch ++ clearMembership memberInfo.id principalId
        members := st.members.erase memberInfo.id }
    else st
  | none => st

/-- One change of update_principal; a change whose action and value do not fit its
field is refused. -/
def applyChange (tenantId : Option ℕ) (createDomains : Bool) (st : UpdateState)
    (change : PrincipalUpdate) : Except ManageError UpdateState :=
  match change.action, change.field, change.value with
  | .set, .name, .string newName => st.setName principalId principalType tenantId newName
  | .set, .emails, .stringList emails => st.setEmails principalId principalType createDomains emails
  | .addItem, .emails, .string email => st.addEmail principalId principalType createDomains email
  | .removeItem, .emails, .string email => pure (st.removeEmail email)
  | .set, .memberOf, .stringList names | .set, .lists, .stringList names
  | .set, .roles, .stringList names =>
    st.setMemberOf principalId principalType change.field names
  | .addItem, .memberOf, .string name | .addItem, .lists, .string name
  | .addItem, .roles, .string name =>
    st.addMemberOf principalId principalType change.field name
  | .removeItem, .memberOf, .string name | .removeItem, .lists, .string name
  | .removeItem, .roles, .string name =>
    pure (st.removeMemberOf principalId change.field name)
  | .set, .members, .stringList names => st.setMembers principalId principalType names
  | .addItem, .members, .string name => st.addMember principalId principalType name
  | .removeItem, .members, .string name => pure (st.removeMember principalId name)
  | _, field, value =>
    throw (.error "Invalid parameter"
      (some ("Invalid value " ++ value.debug ++ " for " ++ field.asStr)))

end UpdateState

namespace Store

variable (d : Store)

/-- The state update_principal starts its change loop from. -/
def updateStart (principalId : ℕ) (principal : Principal) : UpdateState :=
  ⟨d, principal, d.getMemberOf principalId, d.getMembers principalId, [], []⟩

/-- update_principal. The record is written back only when some change is not a
membership change. -/
def updatePrincipal (params : UpdatePrincipal) : Except ManageError Store := do
  let principalId ← d.principalIdOf params.query
  let some principal := d.getPrincipal principalId | throw (.notFoundId principalId)
  let updatePrincipal :=
    !params.changes.isEmpty && !params.changes.all (·.field.isMembership)
  let st ← params.changes.foldlM
    (UpdateState.applyChange principalId principal.typ params.tenantId params.createDomains)
    (d.updateStart principalId principal)
  let batch := if updatePrincipal then st.batch ++ [.set (.principal principalId) st.principal]
    else st.batch
  pure (st.store.write batch)

end Store

/-- A management request. -/
inductive DirectoryOp
  | create (principalSet : PrincipalSet)
  | update (params : UpdatePrincipal)
  | delete (query : QueryBy)
  deriving DecidableEq, Repr

namespace Store

/-- The store after one request, if it succeeds. -/
def apply (d : Store) : DirectoryOp → Except ManageError Store
  | .create principalSet => (·.2) <$> d.createPrincipal principalSet
  | .update params => d.updatePrincipal params
  | .delete query => d.deletePrincipal query

/-- The store after a sequence of requests; a failed request leaves it as it was. -/
def run (d : Store) (ops : List DirectoryOp) : Store :=
  ops.foldl (fun d op => match d.apply op with
    | .ok d' => d'
    | .error _ => d) d

end Store

end EsmpServer.Directory
