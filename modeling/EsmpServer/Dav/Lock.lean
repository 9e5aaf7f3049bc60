import EsmpServer.Dav.Header

/-!
# The lock and precondition check of a WebDAV request

`validate_headers` (dav/src/common/lock.rs) runs before every DAV method. A write
(any method but `GET`, `HEAD`, `LOCK` and `UNLOCK`) first walks its target
resources, the source of a `COPY` apart, and for each the locks `find_locks`
reports as covering it. The first lock whose token some list of the `If` header
submits ends the whole walk (`break 'outer`); a resource whose covering locks are
all unsubmitted ends it with 423 Locked. So only the first covered target is
checked (`lockLoop_ok`): a token for the source of a `MOVE` lets the request
through with its destination locked by someone else
(`validateHeaders_moveDestinationLocked`).

The lists of the `If`, `If-Match` and `If-None-Match` headers are then tried in
order, each against the resource of its tag, or the first target when it has none,
after looking up the etag, lock tokens or sync token its conditions read. The
first list whose conditions all hold returns the lock check's result; when none
does the answer is 412. One list of any of the headers is enough
(`validateHeaders_ifMatchFails`).

What the request handler and the store give `validate_headers` is a
`DavServer`: the lock data of an account's collection, `validate_uri`,
`has_access`, `map_uri_resource`, the etag of an archive and the highest change
id of a collection, as functions of their keys.
-/

namespace EsmpServer.Dav

open Email (u32Max)

/-- `DavMethod`. -/
inductive DavMethod where
  | get | put | post | delete | head | patch | propfind | proppatch | report | mkcol
  | mkcalendar | copy | move | lock | unlock | options | acl
  deriving DecidableEq, Repr

/-- `Collection`, with the collections of the DAV resources. -/
inductive Collection where
  | none | mailbox | email | calendar | calendarEvent | addressBook | contactCard | fileNode
  deriving DecidableEq, Repr

/-- `Collection::main_collection`. -/
def Collection.mainCollection : Collection → Collection
  | .email => .mailbox
  | .calendarEvent => .calendar
  | .contactCard => .addressBook
  | c => c

/-- `Collection::child_collection`. -/
def Collection.childCollection : Collection → Option Collection
  | .mailbox => some .email
  | .calendar => some .calendarEvent
  | .addressBook => some .contactCard
  | .fileNode => some .fileNode
  | _ => none

/-- `{id:x}`. -/
def hex (n : ℕ) : String := String.ofList (Nat.toDigits 16 n)

/-- `LockItem`, with the fields `find_locks` and the token read. -/
structure LockItem where
  lockId : ℕ
  expires : ℕ
  depthInfinity : Bool
  deriving DecidableEq, Repr

/-- `lock_item.urn().to_string()`, the lock's token. -/
def LockItem.token (lock : LockItem) : String := "urn:stalwart:davlock:" ++ hex lock.lockId

/-- `LockData`: the locks of each path, in the order the map visits its keys. -/
structure LockData where
  locks : List (String × List LockItem)
  deriving DecidableEq, Repr

/-- `rsplit_once('/')`, the text before the last `/`. -/
def rsplitOnceSlash (s : String) : Option String :=
  if '/' ∈ s.toList then some (String.ofList (s.toList.reverse.dropWhile (· ≠ '/')).tail.reverse)
  else none

/-- The walk of `find_locks` up from `resource`: at each part, the unexpired locks
stored under it that are the resource's own or reach it by `depth: infinity`. The
part shortens at each step, so the length of the resource bounds the walk. -/
def findLocksWalk (data : LockData) (now : ℕ) (resource : String) :
    ℕ → String → List (String × LockItem)
  | 0, _ => []
  | fuel + 1, part =>
    (((data.locks.lookup part).getD []).filter fun lock =>
        decide (now < lock.expires) && (resource == part || lock.depthInfinity)).map (part, ·) ++
      match rsplitOnceSlash part with
      | some parent => findLocksWalk data now resource fuel parent
      | none => []

/-- `find_locks`: the walk up from the resource, then, with `include_children`,
the unexpired locks of every path under it. -/
def findLocks (data : LockData) (now : ℕ) (resource : String) (includeChildren : Bool) :
    List (String × LockItem) :=
  findLocksWalk data now resource (resource.length + 1) resource ++
    if includeChildren then
      data.locks.flatMap fun entry =>
        if (resource ++ "/").toList.isPrefixOf entry.1.toList then
          (entry.2.filter fun lock => decide (now < lock.expires)).map (entry.1, ·)
        else []
    else []

/-- `UriResource`, as `validate_uri` returns it. -/
structure UriResource where
  collection : Collection
  accountId : Option ℕ
  resource : Option String

/-- `ResourceState`. -/
structure ResourceState where
  accountId : ℕ
  collection : Collection
  documentId : Option ℕ
  etag : Option String
  lockTokens : List String
  syncToken : Option String
  path : String
  deriving DecidableEq, Repr

/-- What `validate_headers` reads from the server: the lock data stored for an
account and main collection, `validate_uri` (`none` for an error), `has_access`,
`map_uri_resource`, the etag of the archive of a document, and the highest change
id of a collection; `now` is the time locks expire against. -/
structure DavServer where
  now : ℕ
  lockStore : ℕ → Collection → Option LockData
  validateUri : String → Option UriResource
  hasAccess : ℕ → Collection → Bool
  mapUriResource : ℕ → Collection → String → Option ℕ
  archiveEtag : ℕ → Collection → ℕ → Option String
  highestChangeId : ℕ → Collection → ℕ

/-- `find_cache_pos`: the lock data of the resource's account and collection. The
first loop of `validate_headers` caches it for every target from the store. -/
def DavServer.lockData (server : DavServer) (r : ResourceState) : Option LockData :=
  server.lockStore r.accountId r.collection.mainCollection

/-- The locks `find_locks_by_pos` reports as covering a target, children included. -/
def DavServer.coveringLocks (server : DavServer) (r : ResourceState) : List (String × LockItem) :=
  match server.lockData r with
  | some data => findLocks data server.now r.path true
  | none => []

/-- `DavError`: a status, or 423 Locked with the hrefs of the locks whose tokens
were not submitted. -/
inductive DavError where
  | code (status : ℕ)
  | lockTokenSubmitted (hrefs : List String)
  deriving DecidableEq, Repr

/-! ## The lock check -/

/-- Whether a condition is the state token `token`. -/
def Condition.isStateToken (token : String) : Condition → Bool
  | .stateToken _ t => t == token
  | _ => false

/-- Whether a list of the `If` header submits a lock's token: a state token equal
to it, in a list untagged or tagged with a URI that ends with the lock's path once
its trailing slashes are cut. -/
def submitsLock (headers : RequestHeaders) (lockPath token : String) : Bool :=
  headers.if_.any fun if_ =>
    if_.resource.all (fun r => lockPath.toList.isSuffixOf (r.toList.reverse.dropWhile (· = '/')).reverse) &&
      if_.list.any (Condition.isStateToken token)

/-- The href of a lock `validate_headers` reports. -/
def lockHref (headers : RequestHeaders) (lockPath : String) : String :=
  headers.baseUri.getD "" ++ "/" ++ lockPath

/-- The loop over the locks covering a target: `none` when a list submits one
(`break 'outer`), else the hrefs of the locks none submits. -/
def lockScan (headers : RequestHeaders) : List (String × LockItem) → List String → Option (List String)
  | [], failed => some failed
  | (lockPath, lock) :: locks, failed =>
    if submitsLock headers lockPath lock.token then none
    else lockScan headers locks (failed ++ [lockHref headers lockPath])

/-- The labelled loop over the targets, `pos` the position of the first. -/
def lockLoop (server : DavServer) (headers : RequestHeaders) (method : DavMethod) :
    ℕ → List ResourceState → Except DavError Unit
  | _, [] => .ok ()
  | pos, resource :: rest =>
    if pos = 0 ∧ method = .copy then lockLoop server headers method (pos + 1) rest
    else
      match server.lockData resource with
      | none => lockLoop server headers method (pos + 1) rest
      | some data =>
        match lockScan headers (findLocks data server.now resource.path true) [] with
        | none => .ok ()
        | some [] => lockLoop server headers method (pos + 1) rest
        | some failed => .error (.lockTokenSubmitted failed)

theorem lockScan_eq (headers : RequestHeaders) :
    ∀ (locks : List (String × LockItem)) (failed : List String),
      lockScan headers locks failed =
        if locks.any (fun lock => submitsLock headers lock.1 lock.2.token) then none
        else some (failed ++ locks.map fun lock => lockHref headers lock.1) := by
  intro locks
  induction locks with
  | nil => intro failed; simp [lockScan]
  | cons lock locks ih =>
    intro failed
    obtain ⟨lockPath, item⟩ := lock
    cases hsubmit : submitsLock headers lockPath item.token with
    | true => simp [lockScan, hsubmit]
    | false =>
      rw [lockScan, if_neg (by simp [hsubmit]), ih, List.any_cons, hsubmit, Bool.false_or]
      simp

theorem coveringLocks_of_lockData {server : DavServer} {r : ResourceState} {data : LockData}
    (h : server.lockData r = some data) :
    server.coveringLocks r = findLocks data server.now r.path true := by
  simp [DavServer.coveringLocks, h]

theorem lockLoop_ok (server : DavServer) (headers : RequestHeaders) (method : DavMethod) :
    ∀ (pos : ℕ) (resources : List ResourceState),
      lockLoop server headers method pos resources = .ok () →
        ∃ pre post, resources = pre ++ post ∧
          (∀ p ∈ pre.zipIdx pos, (p.2 = 0 ∧ method = .copy) ∨ server.coveringLocks p.1 = []) ∧
          ∀ r ∈ post.head?, ∃ lock ∈ server.coveringLocks r, submitsLock headers lock.1 lock.2.token := by
  intro pos resources
  induction resources generalizing pos with
  | nil => intro _; exact ⟨[], [], rfl, by simp, by simp⟩
  | cons r rest ih =>
    intro h
    -- the target `r` is let pass when it is skipped or covered by no lock
    have hpass : ((pos = 0 ∧ method = .copy) ∨ server.coveringLocks r = []) →
        lockLoop server headers method (pos + 1) rest = .ok () →
        ∃ pre post, r :: rest = pre ++ post ∧
          (∀ p ∈ pre.zipIdx pos, (p.2 = 0 ∧ method = .copy) ∨ server.coveringLocks p.1 = []) ∧
          ∀ r ∈ post.head?, ∃ lock ∈ server.coveringLocks r, submitsLock headers lock.1 lock.2.token := by
      intro hr hrest
      obtain ⟨pre, post, rfl, hpre, hpost⟩ := ih (pos + 1) hrest
      refine ⟨r :: pre, post, rfl, ?_, hpost⟩
      intro p hp
      rw [List.zipIdx_cons, List.mem_cons] at hp
      rcases hp with rfl | hp
      · exact hr
      · exact hpre p hp
    simp only [lockLoop] at h
    split_ifs at h with hcopy
    · exact hpass (.inl hcopy) h
    · split at h
      · rename_i hnone
        exact hpass (.inr (by simp [DavServer.coveringLocks, hnone])) h
      · rename_i data hdata
        rw [lockScan_eq] at h
        split_ifs at h with hany
        · refine ⟨[], r :: rest, rfl, by simp, ?_⟩
          intro r' hr'
          cases hr'
          rw [coveringLocks_of_lockData hdata]
          simpa using hany
        · by_cases hlocks : findLocks data server.now r.path true = []
          · simp only [hlocks, List.map_nil, List.append_nil] at h
            exact hpass (.inr (by rw [coveringLocks_of_lockData hdata, hlocks])) h
          · obtain ⟨lock, locks, hcons⟩ := List.exists_cons_of_ne_nil hlocks
            simp [hcons] at h

/-! ## The evaluation of the `If` lists -/

/-- The prefix of the tokens of a collection's sync state. -/
def syncPrefix : String := "urn:stalwart:davsync:"

/-- `Urn::try_extract_sync_id`. -/
def tryExtractSyncId (token : String) : Option String :=
  if syncPrefix.toList.isPrefixOf token.toList then
    some (String.ofList ((token.toList.drop syncPrefix.length).takeWhile (· ≠ ':')))
  else none

/-- The resource a tagged URI names: its account, collection and path; a path
with a `/` is an item of the collection, but for file nodes. -/
def UriResource.resourceState (uri : UriResource) : Option ResourceState := do
  let path ← uri.resource
  let accountId ← uri.accountId
  some { accountId, path, documentId := none, etag := none, lockTokens := [], syncToken := none,
         collection := if uri.collection ≠ .fileNode ∧ '/' ∈ path.toList
           then uri.collection.childCollection.getD uri.collection else uri.collection }

/-- The resource an `If` list is evaluated against, as a position among the
targets, which a tagged resource not among them extends when the caller has
access; `none` is `resource_not_found`. -/
def selectResource (server : DavServer) (resources : List ResourceState) (if_ : If) :
    List ResourceState × Option ℕ :=
  match if_.resource with
  | some uri =>
    match (server.validateUri uri).bind UriResource.resourceState with
    | some resource =>
      match resources.findIdx? fun r =>
          r.accountId = resource.accountId ∧ r.collection = resource.collection ∧ r.path = resource.path with
      | some idx => (resources, some idx)
      | none =>
        if server.hasAccess resource.accountId resource.collection then
          (resources ++ [resource], some resources.length)
        else (resources, none)
    | none => (resources, none)
  | none => (resources, if resources = [] then none else some 0)

/-- `resource_not_found`. -/
def resourceNotFound : ResourceState := ⟨u32Max, .none, none, none, [], none, ""⟩

/-- Whether a list reads the lock tokens, the sync token and the etag. -/
def needsLockToken (list : List Condition) : Bool :=
  list.any fun | .stateToken _ t => !syncPrefix.toList.isPrefixOf t.toList | _ => false

def needsSyncToken (list : List Condition) : Bool :=
  list.any fun | .stateToken _ t => syncPrefix.toList.isPrefixOf t.toList | _ => false

def needsEtag (list : List Condition) : Bool :=
  list.any fun | .stateToken _ _ => false | _ => true

/-- The etag of a resource from its archive, through its document id, which
`map_uri_resource` looks up when missing (`u32::MAX` when it finds none). -/
def fillEtag (server : DavServer) (r : ResourceState) : ResourceState :=
  let r := if r.documentId = none then
    { r with documentId := some ((server.mapUriResource r.accountId r.collection r.path).getD u32Max) }
  else r
  match r.documentId with
  | some id =>
    if id ≠ u32Max then
      match server.archiveEtag r.accountId r.collection id with
      | some etag => { r with etag := some etag }
      | none => r
    else r
  | none => r

/-- The tokens of the locks on a resource, children apart. -/
def fillLockTokens (server : DavServer) (r : ResourceState) : ResourceState :=
  match server.lockData r with
  | some data => { r with lockTokens := (findLocks data server.now r.path false).map fun l => l.2.token }
  | none => r

/-- `Urn::Sync { id, seq: 0 }` of the collection's highest change id. -/
def fillSyncToken (server : DavServer) (r : ResourceState) : ResourceState :=
  { r with syncToken := some (syncPrefix ++ hex (server.highestChangeId r.accountId r.collection)) }

/-- The missing data of a resource that a list reads, filled in. -/
def fillResource (server : DavServer) (list : List Condition) (r : ResourceState) : ResourceState :=
  if r.collection ≠ .none ∧ (r.etag = none ∨ r.lockTokens = [] ∨ r.syncToken = none) then
    let r := if needsEtag list ∧ r.etag = none then fillEtag server r else r
    let r := if needsLockToken list ∧ r.lockTokens = [] then fillLockTokens server r else r
    if needsSyncToken list ∧ r.syncToken = none then fillSyncToken server r else r
  else r

/-- Whether a condition holds of a resource. -/
def conditionHolds (state : ResourceState) : Condition → Bool
  | .stateToken isNot token =>
    match tryExtractSyncId token with
    | some id => Bool.xor ((state.syncToken.bind tryExtractSyncId) == some id) isNot
    | none => Bool.xor (state.lockTokens.contains token) isNot
  | .eTag isNot tag => Bool.xor (state.etag == some tag) isNot
  | .exists isNot => Bool.xor state.etag.isSome isNot

/-- The labelled loop over the `If` lists: the first whose conditions all hold
returns the lock check's result, and 412 when none does. The targets carry the
data filled in for earlier lists. -/
def ifLoop (server : DavServer) (lockResponse : Except DavError Unit) :
    List ResourceState → List If → Except DavError Unit
  | _, [] => .error (.code 412)
  | resources, if_ :: rest =>
    if if_.list = [] then ifLoop server lockResponse resources rest
    else
      let selected := selectResource server resources if_
      let state := fillResource server if_.list
        ((selected.2.bind fun i => selected.1[i]?).getD resourceNotFound)
      let resources := match selected.2 with
        | some i => selected.1.set i state
        | none => selected.1
      if if_.list.all (conditionHolds state) then lockResponse
      else ifLoop server lockResponse resources rest

/-- `validate_headers`. -/
def validateHeaders (server : DavServer) (headers : RequestHeaders) (resources : List ResourceState)
    (method : DavMethod) : Except DavError Unit :=
  if (method = .get ∨ method = .head) ∧ headers.if_ = [] then .ok ()
  else if method ∈ [.copy, .move, .post, .put, .patch] ∧ headers.overwriteFail ∧
      resources.getLast?.any (fun r => r.etag.isSome || r.documentId.any (· ≠ u32Max)) then
    .error (.code 412)
  else
    let lockResponse :=
      if method ∈ [.get, .head, .lock, .unlock] then .ok ()
      else lockLoop server headers method 0 resources
    if headers.if_ = [] then lockResponse
    else ifLoop server lockResponse resources headers.if_

theorem ifLoop_ok (server : DavServer) (lockResponse : Except DavError Unit) :
    ∀ (resources : List ResourceState) (ifs : List If),
      ifLoop server lockResponse resources ifs = .ok () → lockResponse = .ok () := by
  intro resources ifs
  induction ifs generalizing resources with
  | nil => intro h; cases h
  | cons if_ rest ih =>
    intro h
    simp only [ifLoop] at h
    split_ifs at h with hempty hholds
    · exact ih _ h
    · exact h
    · exact ih _ h

theorem validateHeaders_lockLoop {server : DavServer} {headers : RequestHeaders}
    {resources : List ResourceState} {method : DavMethod} (hwrite : method ∉ [.get, .head, .lock, .unlock])
    (h : validateHeaders server headers resources method = .ok ()) :
    lockLoop server headers method 0 resources = .ok () := by
  have hread : ¬ (method = .get ∨ method = .head) := by
    rintro (rfl | rfl) <;> simp at hwrite
  simp only [validateHeaders, hread, false_and, ↓reduceIte, hwrite] at h
  split_ifs at h with hoverwrite hno
  · exact h
  · exact ifLoop_ok server _ resources headers.if_ h

theorem validateHeaders_firstCovered {server : DavServer} {headers : RequestHeaders}
    {resources : List ResourceState} {method : DavMethod} (hwrite : method ∉ [.get, .head, .lock, .unlock])
    (h : validateHeaders server headers resources method = .ok ()) :
    ∃ pre post, resources = pre ++ post ∧
      (∀ p ∈ pre.zipIdx, (p.2 = 0 ∧ method = .copy) ∨ server.coveringLocks p.1 = []) ∧
      ∀ r ∈ post.head?, ∃ lock ∈ server.coveringLocks r, submitsLock headers lock.1 lock.2.token :=
  lockLoop_ok server headers method 0 resources (validateHeaders_lockLoop hwrite h)

/-! ## Requests the checks let through -/

/-- A file of account 1 at `path`, known by its document id. -/
def fileTarget (path : String) (documentId : ℕ) : ResourceState :=
  ⟨1, .fileNode, some documentId, none, [], none, path⟩

/-- The files `a/x` and `b/y` of account 1, each under a lock of its own (ids 1
and 2) that expires at 100; the archive of document 7 has the etag `"e1"`. -/
def twoLocksServer : DavServer where
  now := 0
  lockStore := fun account collection =>
    if account = 1 ∧ collection = .fileNode then
      some ⟨[("a/x", [⟨1, 100, false⟩]), ("b/y", [⟨2, 100, false⟩])]⟩
    else none
  validateUri := fun _ => none
  hasAccess := fun _ _ => false
  mapUriResource := fun _ _ _ => none
  archiveEtag := fun _ _ id => if id = 7 then some "\"e1\"" else none
  highestChangeId := fun _ _ => 0

/-- A `MOVE` of `a/x` onto `b/y` that submits the token of the source's lock
only is let through, although the destination is covered by a lock whose token
no list of the request names. -/
theorem validateHeaders_moveDestinationLocked :
    (RequestHeaders.parseAll "/dav/file/1/a/x" [("If", "(<urn:stalwart:davlock:1>)")]).map
        (validateHeaders twoLocksServer · [fileTarget "a/x" 5, fileTarget "b/y" 6] .move) = some (.ok ()) ∧
      twoLocksServer.coveringLocks (fileTarget "b/y" 6) = [("b/y", ⟨2, 100, false⟩)] ∧
      (RequestHeaders.parseAll "/dav/file/1/a/x" [("If", "(<urn:stalwart:davlock:1>)")]).all
        (fun headers => !submitsLock headers "b/y" (LockItem.token ⟨2, 100, false⟩)) := by
  decide +kernel

/-- A `PUT` to `a/x`, whose etag is `"e1"`, with `If-Match: "e2"` is refused; with
`If-None-Match: "e3"` added it is let through, the `If-Match` still failing. -/
theorem validateHeaders_ifMatchFails :
    (RequestHeaders.parseAll "/dav/file/1/a/x" [("If-Match", "\"e2\"")]).map
        (validateHeaders twoLocksServer · [⟨1, .fileNode, some 7, none, [], none, "c/z"⟩] .put) =
        some (.error (.code 412)) ∧
      (RequestHeaders.parseAll "/dav/file/1/a/x" [("If-Match", "\"e2\""), ("If-None-Match", "\"e3\"")]).map
        (validateHeaders twoLocksServer · [⟨1, .fileNode, some 7, none, [], none, "c/z"⟩] .put) =
        some (.ok ()) := by
  decide +kernel

end EsmpServer.Dav
