import EsmpServer.Utils.Topological
import EsmpServer.Email.Thread

/-!
# The paths of the mailbox cache

`build_tree` (email/src/cache/mailbox.rs) gives every mailbox of the cache its
path. It first sets each path to the mailbox's own name (`INBOX` for the inbox
role, `INBOX <n>` for another root mailbox named inbox), and inserts an edge
from the parent to the mailbox into a `TopologicalSort`, nodes being document
ids plus one and 0 the root. It then walks the nodes in the order the sort
yields them and prefixes each mailbox's path with its parent's.

The node of a mailbox is its document id plus one in `u32`: the mailbox whose
id is `u32::MAX` gets node 0, the root's, and its edge from the root is an edge
from 0 to itself. Node 0 then never reaches a count of zero, no node is
yielded, and no path is prefixed (`buildTree_documentIdMax`).

The cache's index maps a document id to the position of its mailbox in the
list of items; `mailbox_insert` keeps it so.
-/

namespace EsmpServer.Email

open Utils

/-- `SpecialUse`. -/
inductive SpecialUse where
  | inbox | trash | junk | drafts | archive | sent | shared | important | none
  deriving DecidableEq, Repr

/-- `MailboxCache`, with the fields `build_tree` reads and writes. -/
structure MailboxCache where
  documentId : ℕ
  name : String
  path : String
  role : SpecialUse
  parentId : ℕ
  deriving DecidableEq, Repr

/-- `MailboxCache::is_root`. -/
def MailboxCache.isRoot (m : MailboxCache) : Bool := m.parentId = u32Max

/-- `MailboxCache::parent_id`. -/
def MailboxCache.parent (m : MailboxCache) : Option ℕ := if m.parentId ≠ u32Max then some m.parentId else none

/-- `MailboxesCache`: the index from document ids to positions, and the items. -/
structure MailboxesCache where
  index : ℕ → Option ℕ
  items : List MailboxCache

/-- The empty cache. -/
def MailboxesCache.empty : MailboxesCache := ⟨fun _ => none, []⟩

/-- `by_id`. -/
def MailboxesCache.byId (cache : MailboxesCache) (id : ℕ) : Option MailboxCache :=
  (cache.index id).bind fun idx => cache.items[idx]?

/-- `mailbox_insert`: replace the item of the same id, or append it. -/
def MailboxesCache.insert (cache : MailboxesCache) (item : MailboxCache) : MailboxesCache :=
  match cache.index item.documentId with
  | some idx => { cache with items := cache.items.set idx item }
  | none =>
    { index := Function.update cache.index item.documentId (some cache.items.length)
      items := cache.items ++ [item] }

/-- `u32` addition of one. -/
def u32Succ (n : ℕ) : ℕ := (n + 1) % 2 ^ 32

/-- The edge `build_tree` inserts for a mailbox: from its parent's node, 0 for
the root, to its own. -/
def treeEdge (m : MailboxCache) : ℕ × ℕ :=
  (if m.parentId = u32Max then 0 else u32Succ m.parentId, u32Succ m.documentId)

/-- The path a mailbox starts with, at position `idx`; `eq_ignore_ascii_case`
is equality after lowering the ASCII letters. -/
def basePath (idx : ℕ) (m : MailboxCache) : String :=
  if m.role = .inbox then "INBOX"
  else if m.isRoot ∧ m.name.toLower = "inbox" then "INBOX " ++ toString (idx + 1)
  else m.name

/-- The body of the second loop of `build_tree` for the node `folderId`: the
folder's path is prefixed with its parent's, through `by_id_mut`. -/
def pathStep (cache : MailboxesCache) (folderId : ℕ) : MailboxesCache :=
  if folderId ≠ 0 then
    match cache.byId (folderId - 1) with
    | some folder =>
      match folder.parent with
      | some parentId =>
        match cache.byId parentId, cache.index (folderId - 1) with
        | some parent, some idx =>
          { cache with items := cache.items.set idx { folder with path := parent.path ++ "/" ++ folder.path } }
        | _, _ => cache
      | none => cache
    | none => cache
  else cache

/-- `build_tree`, the map of counts visiting its keys in `order`. -/
def buildTree (cache : MailboxesCache) (order : List ℕ) : MailboxesCache :=
  let sort := TopologicalSort.ofEdges (cache.items.map treeEdge)
  let cache := { cache with items := cache.items.zipIdx.map fun (m, idx) => { m with path := basePath idx m } }
  ((sort.intoIterator order).drain.1).foldl pathStep cache

-- a child's path is prefixed with its parent's
example : ((buildTree ((MailboxesCache.empty.insert ⟨0, "a", "", .none, u32Max⟩).insert
    ⟨1, "b", "", .none, 0⟩) [0, 1, 2]).byId 1).map (·.path) = some "a/b" := by decide +kernel

/-- Mailbox `a` (id 0) at the root, `b` (id 1) inside it, and `c` at the root with
the id `u32::MAX`. -/
def documentIdMaxCache : MailboxesCache :=
  ((MailboxesCache.empty.insert ⟨0, "a", "", .none, u32Max⟩).insert ⟨1, "b", "", .none, 0⟩).insert
    ⟨u32Max, "c", "", .none, u32Max⟩

/-- With `c` in the cache, whatever order the map of counts visits its keys in,
`b` keeps the path `b` instead of `a/b`. -/
theorem buildTree_documentIdMax (order : List ℕ)
    (horder : order.Perm (TopologicalSort.ofEdges (documentIdMaxCache.items.map treeEdge)).keys) :
    ((buildTree documentIdMaxCache order).byId 1).map (·.path) = some "b" := by
  have hkeys : (TopologicalSort.ofEdges (documentIdMaxCache.items.map treeEdge)).keys = [0, 1, 2] := by
    decide +kernel
  have hq : order.filter (fun n =>
      (TopologicalSort.ofEdges (documentIdMaxCache.items.map treeEdge)).count n = 0) = [] := by
    rw [List.filter_eq_nil_iff]
    intro n hn
    have hmem := horder.subset hn
    rw [hkeys] at hmem
    simp only [List.mem_cons, List.not_mem_nil, or_false] at hmem
    rcases hmem with rfl | rfl | rfl <;> decide +kernel
  rw [buildTree]
  simp only [TopologicalSort.intoIterator, hq]
  rw [TopologicalSortIterator.drain_of_noEdges_nil rfl, List.foldl_nil]
  decide +kernel

theorem buildTree_documentIdMax_keysOrder :
    [0, 1, 2].Perm (TopologicalSort.ofEdges (documentIdMaxCache.items.map treeEdge)).keys ∧
      ((buildTree documentIdMaxCache [0, 1, 2]).byId 1).map (·.path) = some "b" :=
  ⟨by decide +kernel, buildTree_documentIdMax [0, 1, 2] (by decide +kernel)⟩

end EsmpServer.Email
