import EsmpServer.Jmap.State
import Mathlib

/-!
# JMAP blob ids

A `BlobId` (jmap-proto types/blob.rs) is written in Base32 as a marker byte, the 32 bytes of
the blob's hash, and LEB128 numbers: the account id, then the expiry of a reserved blob or
the collection byte and document id of a linked one, then the offset and size of a section.
The marker packs the class flag (`B_LINKED` or `B_RESERVED`) and the section's encoding plus
one into one byte.

`BlobId::from_iter` reads a blob id from any iterator of bytes; `from_base32` runs it over
the Base32 of a slice and the JSON parser over the Base32 of a string. The round trip
(`fromBase32_display`) holds for every blob id whose encoding is at most 14: the encoding
plus one then stays in the marker's low four bits, apart from the class flag.
-/

namespace EsmpServer.Jmap

open Codec Iterator

/-- `B_LINKED`. -/
def bLinked : UInt8 := 0x10

/-- `B_RESERVED`. -/
def bReserved : UInt8 := 0x20

/-- `BlobHash`: `BLOB_HASH_LEN` bytes. -/
abbrev BlobHash := List.Vector UInt8 32

/-- `BlobClass`. -/
inductive BlobClass where
  | reserved (accountId : UInt32) (expires : UInt64)
  | linked (accountId : UInt32) (collection : UInt8) (documentId : UInt32)
  deriving DecidableEq, Repr

/-- `BlobSection`; `usize` is 64 bits. -/
structure BlobSection where
  offsetStart : UInt64
  size : UInt64
  encoding : UInt8
  deriving DecidableEq, Repr

/-- `BlobId`: the source's `class` and `section`. -/
structure BlobId where
  hash : BlobHash
  blobClass : BlobClass
  blobSection : Option BlobSection
  deriving DecidableEq

/-! ## Writing a blob id -/

/-- The marker byte of `serialize_as`. -/
def BlobId.marker (b : BlobId) : UInt8 :=
  (b.blobSection.map (·.encoding + 1)).getD 0 |||
    match b.blobClass with
    | .linked .. => bLinked
    | .reserved .. => bReserved

/-- The bytes `serialize_as` writes, in order. -/
def BlobId.serializeAs (b : BlobId) : List UInt8 :=
  b.marker :: b.hash.toList ++
    (match b.blobClass with
      | .reserved accountId expires => toLeb128Bytes accountId.toNat ++ toLeb128Bytes expires.toNat
      | .linked accountId collection documentId =>
        toLeb128Bytes accountId.toNat ++ collection :: toLeb128Bytes documentId.toNat) ++
    match b.blobSection with
    | some s => toLeb128Bytes s.offsetStart.toNat ++ toLeb128Bytes s.size.toNat
    | none => []

/-- `Display for BlobId`. -/
def BlobId.display (b : BlobId) : List UInt8 := (Base32Writer.new.write b.serializeAs).finalize

/-- The blob ids `from_iter` reads back: an encoding of at most 14, so that the encoding
plus one fits the marker's low four bits. -/
def BlobId.Valid (b : BlobId) : Prop := ∀ s ∈ b.blobSection, s.encoding ≤ 14

/-- The low four bits of the marker, the section's encoding plus one or zero. -/
def BlobId.encodingBits (b : BlobId) : UInt8 := (b.blobSection.map (·.encoding + 1)).getD 0

theorem marker_bits : ∀ e : UInt8, e < 16 →
    (e ||| 0x10) &&& 0x10 ≠ 0 ∧ (e ||| 0x20) &&& 0x10 = 0 ∧ (e ||| 0x10) &&& 0x0F = e ∧
      (e ||| 0x20) &&& 0x0F = e := by
  decide +kernel

theorem BlobId.encodingBits_lt {b : BlobId} (hv : b.Valid) : b.encodingBits < 16 := by
  rw [BlobId.encodingBits]
  cases hs : b.blobSection with
  | none => decide
  | some s =>
    have hle := UInt8.le_iff_toNat_le.mp (hv s hs)
    simp only [Option.map_some, Option.getD_some, UInt8.lt_iff_toNat_lt, UInt8.toNat_add]
    simp at hle ⊢
    omega

theorem BlobId.marker_and_0x0F {b : BlobId} (hv : b.Valid) : b.marker &&& 0x0F = b.encodingBits := by
  obtain ⟨-, -, h₁, h₂⟩ := marker_bits _ (BlobId.encodingBits_lt hv)
  rw [BlobId.marker, ← BlobId.encodingBits]
  cases b.blobClass <;> assumption

theorem BlobId.marker_linked {b : BlobId} (hv : b.Valid) {accountId : UInt32} {collection : UInt8}
    {documentId : UInt32} (h : b.blobClass = .linked accountId collection documentId) :
    decide (b.marker &&& bLinked ≠ 0) = true := by
  obtain ⟨h₁, -, -, -⟩ := marker_bits _ (BlobId.encodingBits_lt hv)
  rw [BlobId.marker, ← BlobId.encodingBits, h]
  exact decide_eq_true h₁

theorem BlobId.marker_reserved {b : BlobId} (hv : b.Valid) {accountId : UInt32} {expires : UInt64}
    (h : b.blobClass = .reserved accountId expires) : decide (b.marker &&& bLinked ≠ 0) = false := by
  obtain ⟨-, h₂, -, -⟩ := marker_bits _ (BlobId.encodingBits_lt hv)
  rw [BlobId.marker, ← BlobId.encodingBits, h]
  exact decide_eq_false (not_not.mpr h₂)

/-! ## Reading a blob id -/

section Read

variable {τ : Type} (next : τ → Option UInt8 × τ)

/-- The loop filling the hash: `k` bytes, each with `it.next()?`. -/
def readBytes : (k : ℕ) → τ → Option (List.Vector UInt8 k) × τ
  | 0, t => (some List.Vector.nil, t)
  | k + 1, t =>
    match next t with
    | (none, t) => (none, t)
    | (some b, t) =>
      match readBytes k t with
      | (some bs, t) => (some (List.Vector.cons b bs), t)
      | (none, t) => (none, t)

/-- The class of `from_iter`, after the account id. -/
def readClass (isLinked : Bool) (accountId : ℕ) (t : τ) : Option BlobClass × τ :=
  if isLinked then
    match next t with
    | (none, t) => (none, t)
    | (some collection, t) =>
      match nextLeb128U32Iter next t with
      | (some documentId, t) => (some (.linked (UInt32.ofNat accountId) collection (UInt32.ofNat documentId)), t)
      | (none, t) => (none, t)
  else
    match nextLeb128Iter next t with
    | (some expires, t) => (some (.reserved (UInt32.ofNat accountId) (UInt64.ofNat expires)), t)
    | (none, t) => (none, t)

/-- The section of `from_iter`: none for encoding 0, and otherwise the offset and size, with
the encoding one less. -/
def readSection (encoding : UInt8) (t : τ) : Option (Option BlobSection) × τ :=
  if encoding ≠ 0 then
    match nextLeb128Iter next t with
    | (none, t) => (none, t)
    | (some offsetStart, t) =>
      match nextLeb128Iter next t with
      | (some size, t) => (some (some ⟨UInt64.ofNat offsetStart, UInt64.ofNat size, encoding - 1⟩), t)
      | (none, t) => (none, t)
  else (some none, t)

/-- `BlobId::from_iter`. -/
def BlobId.fromIter (t : τ) : Option BlobId × τ :=
  match next t with
  | (none, t) => (none, t)
  | (some marker, t) =>
    match readBytes next 32 t with
    | (none, t) => (none, t)
    | (some hash, t) =>
      match nextLeb128U32Iter next t with
      | (none, t) => (none, t)
      | (some accountId, t) =>
        match readClass next (marker &&& bLinked ≠ 0) accountId t with
        | (none, t) => (none, t)
        | (some blobClass, t) =>
          match readSection next (marker &&& 0x0F) t with
          | (none, t) => (none, t)
          | (some blobSection, t) => (some ⟨hash, blobClass, blobSection⟩, t)

/-! ### Reading what was written -/

variable {next}

theorem readBytes_of_yields : ∀ {k : ℕ} (v : List.Vector UInt8 k) {t t' : τ},
    Yields next t v.toList t' → readBytes next k t = (some v, t')
  | 0, v, t, t', hy => by
    obtain rfl : v = List.Vector.nil := List.Vector.eq_nil v
    obtain rfl : t = t' := hy
    rfl
  | k + 1, v, t, t', hy => by
    rw [← List.Vector.cons_head_tail v, List.Vector.toList_cons] at hy
    obtain ⟨t₁, hstep, hy'⟩ := hy
    rw [readBytes, hstep]
    dsimp only
    rw [@readBytes_of_yields k v.tail t₁ t' hy']
    dsimp only
    rw [List.Vector.cons_head_tail]

theorem readClass_reserved {t t' : τ} (accountId : UInt32) (expires : UInt64)
    (hy : Yields next t (toLeb128Bytes expires.toNat) t') :
    readClass next false accountId.toNat t = (some (.reserved accountId expires), t') := by
  simp [readClass, nextLeb128Iter_uint64 next expires hy]

theorem readClass_linked {t t' : τ} (accountId : UInt32) (collection : UInt8) (documentId : UInt32)
    (hy : Yields next t (collection :: toLeb128Bytes documentId.toNat) t') :
    readClass next true accountId.toNat t = (some (.linked accountId collection documentId), t') := by
  obtain ⟨t₁, hstep, hy'⟩ := hy
  simp [readClass, hstep, nextLeb128U32Iter_uint32 next documentId hy']

theorem readSection_none (t : τ) : readSection next 0 t = (some none, t) := rfl

theorem readSection_some {t t' : τ} (s : BlobSection) (hs : s.encoding ≤ 14)
    (hy : Yields next t (toLeb128Bytes s.offsetStart.toNat ++ toLeb128Bytes s.size.toNat) t') :
    readSection next (s.encoding + 1) t = (some (some s), t') := by
  obtain ⟨t₁, hy₁, hy₂⟩ := (yields_append _).mp hy
  have hne : s.encoding + 1 ≠ 0 := by
    intro h
    have := congrArg UInt8.toNat h
    rw [UInt8.toNat_add] at this
    have hle := UInt8.le_iff_toNat_le.mp hs
    simp at this hle
    omega
  simp [readSection, hne, nextLeb128Iter_uint64 next _ hy₁, nextLeb128Iter_uint64 next _ hy₂]

theorem readSection_encodingBits {b : BlobId} (hv : b.Valid) {t t' : τ}
    (hy : Yields next t (match b.blobSection with
      | some s => toLeb128Bytes s.offsetStart.toNat ++ toLeb128Bytes s.size.toNat
      | none => []) t') :
    readSection next b.encodingBits t = (some b.blobSection, t') := by
  rw [BlobId.encodingBits]
  cases hs : b.blobSection with
  | none =>
    rw [hs] at hy
    obtain rfl : t = t' := hy
    rfl
  | some s =>
    rw [hs] at hy
    exact readSection_some s (hv s hs) hy

theorem fromIter_serializeAs {b : BlobId} (hv : b.Valid) {t t' : τ} (hy : Yields next t b.serializeAs t') :
    BlobId.fromIter next t = (some b, t') := by
  rw [BlobId.serializeAs] at hy
  obtain ⟨t₂, hy₀₁, hy₃⟩ := (yields_append _).mp hy
  obtain ⟨t₁, ⟨tm, hm, hh⟩, hy₂⟩ := (yields_append _).mp hy₀₁
  rw [BlobId.fromIter, hm]
  dsimp only
  rw [readBytes_of_yields b.hash hh]
  dsimp only
  cases hc : b.blobClass with
  | reserved accountId expires =>
    rw [hc] at hy₂
    obtain ⟨ta, hya, hye⟩ := (yields_append _).mp hy₂
    rw [nextLeb128U32Iter_uint32 next accountId hya]
    dsimp only
    rw [BlobId.marker_reserved hv hc, readClass_reserved accountId expires hye]
    dsimp only
    rw [BlobId.marker_and_0x0F hv, readSection_encodingBits hv hy₃, ← hc]
  | linked accountId collection documentId =>
    rw [hc] at hy₂
    obtain ⟨ta, hya, hyd⟩ := (yields_append _).mp hy₂
    rw [nextLeb128U32Iter_uint32 next accountId hya]
    dsimp only
    rw [BlobId.marker_linked hv hc, readClass_linked accountId collection documentId hyd]
    dsimp only
    rw [BlobId.marker_and_0x0F hv, readSection_encodingBits hv hy₃, ← hc]

end Read

/-- `BlobId::from_base32`. -/
def BlobId.fromBase32 (value : List UInt8) : Option BlobId :=
  (BlobId.fromIter (Base32Reader.next sliceRead) (Base32Reader.new value)).1

/-- `JsonObjectParser for BlobId`: a failure is reported by `error_value` at the parser's
position. -/
def parseBlobId (p : Parser) : Except JsonError (BlobId × Parser) :=
  match BlobId.fromIter (Base32Reader.next jsonRead) (JsonBase32Reader.new p) with
  | (some b, r) => .ok (b, r.src)
  | (none, r) => .error r.src.errorValue.1

instance : JsonObjectParser BlobId := ⟨parseBlobId⟩

/-! ## The round trip -/

theorem BlobId.display_eq (b : BlobId) : b.display = encode b.serializeAs := rfl

theorem Parser.nextToken_blobId (readFloat : List UInt8 → Option Float) {p : Parser} {b : BlobId}
    (hv : b.Valid) {rest : List UInt8} (hnext : p.nextCh = none)
    (hrest : p.rest = 34 :: (b.display ++ 34 :: rest)) :
    ∃ p', p.nextToken (T := BlobId) readFloat = .ok (.string b, p') ∧ p'.rest = rest := by
  rw [Parser.nextToken_quote readFloat hnext hrest]
  let q : Parser :=
    { p with rest := b.display ++ 34 :: rest, pos := p.pos + 1, posMarker := p.pos + 1, isEof := false }
  obtain ⟨r, hy, hsrc⟩ := @jsonBase32Reader_encode b.serializeAs q rest rfl
  have hparse : parseBlobId q = .ok (b, r.src) := by
    rw [parseBlobId, fromIter_serializeAs hv hy]
  exact ⟨_, Parser.stringToken_before_quote hparse (by rw [hsrc]) (by rw [hsrc]), rfl⟩

/-- Every blob id whose encoding is at most 14 is read back from its text, by `from_base32`
and by the JSON parser from the quoted text. -/
theorem fromBase32_display (b : BlobId) (hv : b.Valid) :
    BlobId.fromBase32 b.display = some b ∧
      ∀ (readFloat : List UInt8 → Option Float) (rest : List UInt8), ∃ p',
        (Parser.new (34 :: b.display ++ 34 :: rest)).nextToken (T := BlobId) readFloat = .ok (.string b, p') ∧
          p'.rest = rest := by
  refine ⟨?_, fun readFloat rest => Parser.nextToken_blobId readFloat hv rfl rfl⟩
  obtain ⟨r, hy, -⟩ := yields_encode sliceRead b.serializeAs 0
    (by simpa using yields_sliceRead (encode b.serializeAs) [])
  rw [BlobId.fromBase32, BlobId.display_eq, Base32Reader.new, fromIter_serializeAs hv hy]

theorem fromBase32_display_linkedSection :
    (⟨List.Vector.replicate 32 7, .linked 1 2 3, some ⟨10, 20, 3⟩⟩ : BlobId).Valid ∧
      BlobId.fromBase32 (⟨List.Vector.replicate 32 7, .linked 1 2 3, some ⟨10, 20, 3⟩⟩ : BlobId).display =
        some ⟨List.Vector.replicate 32 7, .linked 1 2 3, some ⟨10, 20, 3⟩⟩ := by
  have hv : (⟨List.Vector.replicate 32 7, .linked 1 2 3, some ⟨10, 20, 3⟩⟩ : BlobId).Valid := by
    intro s hs
    cases Option.some.inj hs
    decide
  exact ⟨hv, (fromBase32_display _ hv).1⟩

end EsmpServer.Jmap
