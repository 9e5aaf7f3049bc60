import EsmpServer.Lib.KeyRange
import Mathlib

/-!
# Threading of ingested messages

`email_ingest` puts a new message in the thread of the messages that share a
thread name and a reference with it (`find_or_merge_thread`). It finds them
through two indexes that `index_headers` wrote for the messages ingested before:
the `Subject` index, keyed by the trimmed thread name, and the `References`
index, keyed by every id (a `Message-ID` followed by a zero byte). Ingestion
reads the references and the thread name of the new message from its headers
on its own, so what it finds depends on how the two readings agree, and on how
the range scan of the `References` index meets the byte order of its keys.

An index key is its value followed by the document id in four big-endian
bytes, and a scan visits the keys between two bounds in byte order. The keys of
other fields, collections and accounts differ from both bounds in the prefix
before the value and lie outside every scan, so only the keys of one field of
one account are kept. The store is the account's messages in the order they
were ingested, which is also the cache `find_or_merge_thread` counts threads
over. `thread_name` of `mail_parser` is a parameter.
-/

namespace EsmpServer.Email

/-- `MAX_ID_LENGTH`. -/
def maxIdLength : ℕ := 100

/-- `MAX_SORT_FIELD_LENGTH`. -/
def maxSortFieldLength : ℕ := 255

/-- `u32::MAX`. -/
def u32Max : ℕ := 2 ^ 32 - 1

/-- The UTF-8 bytes of a text, `as_bytes`. -/
def asBytes (s : String) : List ℕ := (s.toList.flatMap String.utf8EncodeChar).map UInt8.toNat

/-- The offsets of the characters, the first at `i` (`char_indices`). -/
def charOffsets : List Char → ℕ → List ℕ
  | [], _ => []
  | c :: cs, i => i :: charOffsets cs (i + c.utf8Size)

/-- `trim_text` on a text: one of `length` bytes or more is cut before the last
character that starts at an offset of at most `length`. -/
def trimText (s : String) (length : ℕ) : String :=
  if (asBytes s).length < length then s
  else
    let offsets := (charOffsets s.toList 0).takeWhile fun i => decide (i ≤ length)
    String.ofList (s.toList.take (offsets.length - 1))

theorem asBytes_injective : Function.Injective asBytes := by
  intro s t h
  have hbytes : s.toList.flatMap String.utf8EncodeChar = t.toList.flatMap String.utf8EncodeChar :=
    List.map_injective_iff.mpr (fun _ _ hab => UInt8.toNat_inj.mp hab) h
  rw [← String.toByteArray_inj, ← String.utf8Encode_toList, ← String.utf8Encode_toList]
  simp only [List.utf8Encode, hbytes]

theorem length_asBytes (s : String) : (asBytes s).length = (s.toList.map Char.utf8Size).sum := by
  simp [asBytes, List.length_flatMap]

theorem trimText_eq_empty_iff {s : String} : trimText s maxSortFieldLength = "" ↔ s = "" := by
  unfold trimText
  split_ifs with hlen
  · exact Iff.rfl
  · obtain ⟨c₀, c₁, cs, hs⟩ : ∃ c₀ c₁ cs, s.toList = c₀ :: c₁ :: cs := by
      rw [length_asBytes] at hlen
      match hs : s.toList with
      | [] => simp [hs, maxSortFieldLength] at hlen
      | [c₀] =>
        have := c₀.utf8Size_le_four
        simp [hs, maxSortFieldLength] at hlen
        omega
      | c₀ :: c₁ :: cs => exact ⟨c₀, c₁, cs, rfl⟩
    have hoffsets : ∃ k, ((charOffsets (c₀ :: c₁ :: cs) 0).takeWhile
        fun i => decide (i ≤ maxSortFieldLength)).length = k + 2 := by
      have := c₀.utf8Size_le_four
      simp only [charOffsets, List.takeWhile_cons, maxSortFieldLength]
      simp [show c₀.utf8Size ≤ 255 by omega]
    obtain ⟨k, hk⟩ := hoffsets
    have hne : s ≠ "" := fun h => by simp [h] at hs
    rw [hs]
    simp [hk, String.ofList_eq_empty_iff, hne]

/-- The header fields threading reads. An id field holds the ids its value
lists (`visit_text`), a `Subject` field its text. -/
inductive Header where
  | messageId (ids : List String)
  | inReplyTo (ids : List String)
  | references (ids : List String)
  | resentMessageId (ids : List String)
  | subject (text : String)
  | other
  deriving DecidableEq, Repr

namespace Header

/-- The ids of an id field. -/
def ids : Header → List String
  | messageId ids | inReplyTo ids | references ids | resentMessageId ids => ids
  | _ => []

def isMessageId : Header → Bool
  | messageId _ => true
  | _ => false

def isSubject : Header → Bool
  | subject _ => true
  | _ => false

end Header

section Threading

variable (threadName : String → String)

/-- The references `email_ingest` looks threads up with: the ids of the id
fields, last field first, that are not empty and shorter than `MAX_ID_LENGTH`
bytes. -/
def ingestReferences (headers : List Header) : List (List ℕ) :=
  headers.reverse.flatMap fun header =>
    (header.ids.filter fun id =>
      !(asBytes id).isEmpty && decide ((asBytes id).length < maxIdLength)).map asBytes

/-- One field of the loop of `email_ingest` that picks the thread name: a
`Subject` field sets it while it is empty. -/
def threadNameStep (subject : String) : Header → String
  | .subject text => if subject.isEmpty then trimText (threadName text) maxSortFieldLength else subject
  | _ => subject

/-- The thread name `email_ingest` looks threads up with: that of the last
`Subject` field whose trimmed thread name is not empty. -/
def ingestThreadName (headers : List Header) : String :=
  headers.reverse.foldl (threadNameStep threadName) ""

/-- `encode_message_id`: the id and a zero byte, which marks a message's own id
in the `References` index. -/
def encodeMessageId (id : String) : List ℕ := asBytes id ++ [0]

/-- The `References` values `index_headers` writes: the ids of the id fields,
last field first, shorter than `MAX_ID_LENGTH` bytes, a `Message-ID` encoded. -/
def indexReferences (headers : List Header) : List (List ℕ) :=
  headers.reverse.flatMap fun header =>
    (header.ids.filter fun id => decide ((asBytes id).length < maxIdLength)).map fun id =>
      if header.isMessageId then encodeMessageId id else asBytes id

/-- The `Subject` value `index_headers` writes: the trimmed thread name of the
last `Subject` field, `!` when it is empty or there is none. -/
def indexSubject (headers : List Header) : String :=
  match headers.reverse.find? Header.isSubject with
  | some (.subject text) =>
    if !(threadName text).isEmpty then trimText (threadName text) maxSortFieldLength else "!"
  | _ => "!"

end Threading

/-! ## Index keys and scans -/

/-- A document id in four big-endian bytes. -/
def be32 (n : ℕ) : List ℕ := [n / 2 ^ 24 % 256, n / 2 ^ 16 % 256, n / 2 ^ 8 % 256, n % 256]

/-- `deserialize_be_u32`. -/
def deserializeBeU32 (bytes : List ℕ) : ℕ := bytes.foldl (fun n b => n * 256 + b) 0

/-- An index key past the prefix its scan shares: the value, then the document id. -/
def indexKey (value : List ℕ) (documentId : ℕ) : List ℕ := value ++ be32 documentId

/-- The value of a key, before the document id. -/
def keyValue (key : List ℕ) : List ℕ := key.take (key.length - 4)

/-- The document id that ends a key. -/
def keyDocumentId (key : List ℕ) : ℕ := deserializeBeU32 (key.drop (key.length - 4))

/-- `Store::iterate`, ascending, over keys held in byte order: from the first
key not below `lower`, while the keys are not above `upper`. -/
def iterateRange (lower upper : List ℕ) (keys : List (List ℕ)) : List (List ℕ) :=
  (keys.dropWhile fun key => decide (key < lower)).takeWhile fun key => decide (key ≤ upper)

@[simp] theorem length_be32 (n : ℕ) : (be32 n).length = 4 := rfl

theorem be32_zero : be32 0 = List.replicate 4 0 := rfl

theorem be32_u32Max : be32 u32Max = List.replicate 4 255 := rfl

theorem be32_of_lt {n : ℕ} (h : n < 2 ^ 24) :
    be32 n = [0, n / 2 ^ 16 % 256, n / 2 ^ 8 % 256, n % 256] := by
  have hhigh : n / 2 ^ 24 % 256 = 0 := by omega
  rw [be32, hhigh]

theorem deserializeBeU32_be32 {n : ℕ} (h : n < 2 ^ 32) : deserializeBeU32 (be32 n) = n := by
  simp only [deserializeBeU32, be32, List.foldl]
  omega

@[simp] theorem keyValue_indexKey (v : List ℕ) (d : ℕ) : keyValue (indexKey v d) = v := by
  simp [keyValue, indexKey]

theorem keyDocumentId_indexKey (v : List ℕ) {d : ℕ} (h : d < 2 ^ 32) :
    keyDocumentId (indexKey v d) = d := by
  simp [keyDocumentId, indexKey, deserializeBeU32_be32 h]

theorem indexKey_mem_range (v : List ℕ) (d : ℕ) :
    indexKey v 0 ≤ indexKey v d ∧ indexKey v d ≤ indexKey v u32Max := by
  constructor
  · rw [indexKey, be32_zero]
    exact List.append_replicate_zero_le le_rfl (by simp)
  · rw [indexKey, indexKey, be32_u32Max]
    refine List.append_le_append_left_lex v (List.le_replicate_of_forall_le ?_ (by simp))
    intro b hb
    simp only [be32, List.mem_cons, List.not_mem_nil, or_false] at hb
    omega

theorem mem_iterateRange {keys : List (List ℕ)} (hsorted : keys.Pairwise (· ≤ ·))
    {lower upper k : List ℕ} :
    k ∈ iterateRange lower upper keys ↔ k ∈ keys ∧ lower ≤ k ∧ k ≤ upper :=
  List.mem_takeWhile_dropWhile hsorted (fun _ => decide_eq_true_iff) (fun _ => decide_eq_true_iff)

/-- A message of the cache. -/
structure EmailItem where
  documentId : ℕ
  threadId : ℕ
  headers : List Header
  deriving DecidableEq, Repr

/-- An account's messages in the order they were ingested, and the counters that
assign the ids of the `Email` and `Thread` collections. -/
structure ThreadStore where
  emails : List EmailItem
  documentIds : ℕ
  threadIds : ℕ
  deriving DecidableEq, Repr

/-- An account with no messages. -/
def ThreadStore.empty : ThreadStore := ⟨[], 0, 0⟩

section Threading

variable (threadName : String → String)

/-- The `Subject` index of the messages, in byte order. -/
def subjectIndex (emails : List EmailItem) : List (List ℕ) :=
  (emails.map fun e => indexKey (asBytes (indexSubject threadName e.headers)) e.documentId).insertionSort
    (· ≤ ·)

end Threading

/-- The `References` index of the messages, in byte order. -/
def referenceIndex (emails : List EmailItem) : List (List ℕ) :=
  (emails.flatMap fun e =>
    (indexReferences e.headers).map fun value => indexKey value e.documentId).insertionSort (· ≤ ·)

/-- The scan of the `Subject` index: the messages with thread name `name`. -/
def subjectScan (keys : List (List ℕ)) (name : List ℕ) : Finset ℕ :=
  (((iterateRange (name ++ be32 0) (name ++ be32 u32Max) keys).filter fun key =>
    decide (keyValue key = name)).map keyDocumentId).toFinset

/-- `strip_suffix(&[0])`: a value without the zero byte that marks a `Message-ID`. -/
def stripMarker (value : List ℕ) : List ℕ :=
  if value.getLast? = some 0 then value.dropLast else value

theorem stripMarker_encodeMessageId (id : String) : stripMarker (encodeMessageId id) = asBytes id := by
  simp [stripMarker, encodeMessageId]

theorem stripMarker_of_zero_not_mem {v : List ℕ} (h : 0 ∉ v) : stripMarker v = v :=
  if_neg fun hlast => h (List.mem_of_getLast? hlast)

/-- The loop of the scan of the `References` index: a key counts when its message
has the thread name and its value, unmarked, is one of the references
(`binary_search` on the sorted references); the scan stops once every message
with the thread name is found. -/
def referenceScan (subjResults : Finset ℕ) (references : List (List ℕ)) :
    List (List ℕ) → Finset ℕ → Finset ℕ
  | [], results => results
  | key :: keys, results =>
    let documentId := keyDocumentId key
    if documentId ∈ subjResults ∧ stripMarker (keyValue key) ∈ references then
      let results := insert documentId results
      if subjResults.card = results.card then results
      else referenceScan subjResults references keys results
    else referenceScan subjResults references keys results

/-- The loop over the cache that counts the threads of the messages found and
keeps the most common: the first thread whose count passes the best so far.
The map of counts is the list of the threads counted. -/
def countThreads (results : Finset ℕ) : List EmailItem → List ℕ × ℕ × ℕ → List ℕ × ℕ × ℕ
  | [], acc => acc
  | item :: items, (threadCounts, threadId, threadCount) =>
    if item.documentId ∈ results then
      let threadCounts := threadCounts ++ [item.threadId]
      let tc := threadCounts.count item.threadId
      if tc > threadCount then countThreads results items (threadCounts, item.threadId, tc)
      else countThreads results items (threadCounts, threadId, threadCount)
    else countThreads results items (threadCounts, threadId, threadCount)

/-- The moves of a merge: every message of a counted thread other than
`threadId` takes `threadId`. -/
def mergeThreads (threadCounts : List ℕ) (threadId : ℕ) (items : List EmailItem) :
    List EmailItem :=
  items.map fun item =>
    if threadId = item.threadId ∨ item.threadId ∉ threadCounts then item
    else { item with threadId }

/-- What `find_or_merge_thread` answers. -/
inductive ThreadResult where
  | id (threadId : ℕ)
  | create
  deriving DecidableEq, Repr

/-- The thread name `find_or_merge_thread` looks up: `!` for an empty one. -/
def lookupName (name : String) : String := if !name.isEmpty then name else "!"

section Threading

variable (threadName : String → String)

/-- The first scan of `find_or_merge_thread`: the messages with the thread name. -/
def subjectResults (emails : List EmailItem) (name : String) : Finset ℕ :=
  subjectScan (subjectIndex threadName emails) (asBytes (lookupName name))

end Threading

/-- The second scan of `find_or_merge_thread`, over the keys from the smallest
reference to the largest (`first().unwrap()`, `last().unwrap()` of the sorted,
nonempty references): the messages with the thread name that a key names. -/
def referenceResults (emails : List EmailItem) (subjResults : Finset ℕ)
    (references : List (List ℕ)) : Finset ℕ :=
  referenceScan subjResults references
    (iterateRange (references.head! ++ be32 0) (references.getLast! ++ be32 u32Max)
      (referenceIndex emails)) ∅

section Threading

variable (threadName : String → String)

/-- `find_or_merge_thread`: the thread of the messages with the thread name and a
reference in common, the most common one when they span several, which then
absorbs the others. -/
def findOrMergeThread (s : ThreadStore) (name : String) (references : List (List ℕ)) :
    ThreadResult × ThreadStore :=
  if references.isEmpty then (.create, s)
  else
    let references := references.insertionSort (· ≤ ·)
    let subjResults := subjectResults threadName s.emails name
    if subjResults = ∅ then (.create, s)
    else
      let results := referenceResults s.emails subjResults references
      if results = ∅ then (.create, s)
      else
        let (threadCounts, threadId, _) := countThreads results s.emails ([], u32Max, 0)
        if threadId = u32Max then (.create, s)
        else if threadCounts.toFinset.card = 1 then (.id threadId, s)
        else (.id threadId, { s with emails := mergeThreads threadCounts threadId s.emails })

/-- `email_ingest`, as far as threads go: the message takes the thread
`find_or_merge_thread` finds or the next thread id, and the next document id. -/
def ingest (s : ThreadStore) (headers : List Header) : ThreadStore :=
  let (threadId, s) : ℕ × ThreadStore :=
    match findOrMergeThread threadName s (ingestThreadName threadName headers)
        (ingestReferences headers) with
    | (.id threadId, s) => (threadId, s)
    | (.create, s) => (s.threadIds + 1, { s with threadIds := s.threadIds + 1 })
  let documentId := s.documentIds + 1
  { s with emails := s.emails ++ [⟨documentId, threadId, headers⟩], documentIds := documentId }

end Threading

end EsmpServer.Email
