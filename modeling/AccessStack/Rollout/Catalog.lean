import Mathlib.Data.List.AList
import AccessStack.Text

/-!
# Catalog snapshots

A catalog is stored in chunks of four tools and a header. What is persisted
is read back, and persisting or writing elsewhere leaves the snapshots of the
other revisions readable.
-/

set_option autoImplicit false

namespace AccessStack.Rollout
open AccessStack.Text

section Storage

structure McpContractRolloutState where
  activeContractRevision : String
  candidateContractRevision : Option String
  previousContractRevision : Option String
  preparedAt : Option String
  promotedAt : Option String
  deriving DecidableEq

structure ServerIdentity where
  name : String
  version : String
  deriving DecidableEq

structure CatalogMetadata where
  contractRevision : String
  toolCount : ℤ
  deriving DecidableEq

structure StoredCatalogHeader where
  contractRevision : String
  chunkCount : ℤ
  toolCount : ℤ
  catalogMetadata : CatalogMetadata
  serverIdentity : ServerIdentity
  deriving DecidableEq

structure ReplacementReceipt where
  operationId : String
  expectedActiveContractRevision : String
  expectedPreviousCandidateContractRevision : String
  expectedCandidateContractRevision : String
  replacedAt : Option String
  deriving DecidableEq

/-- The keys of the storage; those of other features are unrelated. -/
inductive Key where
  | rollout
  | header (revision : String)
  | chunk (revision : String) (index : ℕ)
  | receipt (operationId : String)
  | unrelated (name : String)
  deriving DecidableEq

inductive Value (Tool : Type) where
  | rollout (state : McpContractRolloutState)
  | header (header : StoredCatalogHeader)
  | chunk (tools : List Tool)
  | receipt (receipt : ReplacementReceipt)
  | unrelated
  deriving DecidableEq

abbrev Storage (Tool : Type) := AList fun _ : Key => Value Tool

end Storage

variable {Tool : Type}

section Snapshot

structure EdgeMcpCatalog (Tool : Type) where
  manifest : List Tool
  catalogMetadata : CatalogMetadata
  serverIdentity : ServerIdentity
  deriving DecidableEq

def catalogChunkSize : ℕ := 4
def maxCatalogChunkBytes : ℕ := 64 * 1024

def isMcpContractRevision (value : String) : Bool := exactly isHexLower 64 value

def catalogChunks (manifest : List Tool) : List (List Tool) :=
  (List.range ((manifest.length + 3) / catalogChunkSize)).map fun index =>
    (manifest.drop (catalogChunkSize * index)).take catalogChunkSize

def persistChunks (revision : String) (storage : Storage Tool) (chunks : List (List Tool × ℕ)) :
    Storage Tool :=
  chunks.foldl (fun storage chunk => storage.insert (.chunk revision chunk.2) (.chunk chunk.1)) storage

/-- `encodedBytes` is the length of the JSON text of a chunk. -/
def persistMcpCatalogSnapshot (encodedBytes : List Tool → ℕ) (storage : Storage Tool)
    (catalog : EdgeMcpCatalog Tool) :
    Except String (Storage Tool) :=
  let revision := catalog.catalogMetadata.contractRevision
  let declaredToolCount := catalog.catalogMetadata.toolCount
  if !isMcpContractRevision revision ∨ !isSafeInteger declaredToolCount ∨
      declaredToolCount ≠ catalog.manifest.length then
    .error "Invalid MCP catalog snapshot metadata."
  else
    let chunks := catalogChunks catalog.manifest
    if chunks.any fun chunk => maxCatalogChunkBytes < encodedBytes chunk then
      .error "MCP catalog chunk exceeds 65536 bytes."
    else
      .ok ((persistChunks revision storage chunks.zipIdx).insert (.header revision) (.header
        ⟨revision, chunks.length, catalog.manifest.length, catalog.catalogMetadata, catalog.serverIdentity⟩))

def isStoredCatalogHeader (header : StoredCatalogHeader) (revision : String) : Bool :=
  header.contractRevision = revision ∧ isSafeInteger header.chunkCount ∧ 0 ≤ header.chunkCount ∧
    isSafeInteger header.toolCount ∧ 0 ≤ header.toolCount ∧
    header.catalogMetadata.contractRevision = revision ∧ header.catalogMetadata.toolCount = header.toolCount

def Value.asHeader : Value Tool → Option StoredCatalogHeader
  | .header stored => some stored
  | _ => none

def Value.asChunk : Value Tool → Option (List Tool)
  | .chunk tools => some tools
  | _ => none

def readMcpCatalogSnapshot (storage : Storage Tool) (revision : String) : Option (EdgeMcpCatalog Tool) :=
  if !isMcpContractRevision revision then none
  else
    match (storage.lookup (.header revision)).bind Value.asHeader with
    | none => none
    | some header =>
      if !isStoredCatalogHeader header revision then none
      else
        let chunks := (List.range header.chunkCount.toNat).map fun index =>
          (storage.lookup (.chunk revision index)).bind Value.asChunk
        if chunks.any (·.isNone) then none
        else
          let manifest := (chunks.filterMap id).flatten
          if (manifest.length : ℤ) ≠ header.toolCount then none
          else some ⟨manifest, header.catalogMetadata, header.serverIdentity⟩

end Snapshot

section Frame

variable {storage storage' : Storage Tool} {revision : String}

/-- A snapshot is read from its own keys. -/
theorem read_congr (hheader : storage'.lookup (.header revision) = storage.lookup (.header revision))
    (hchunks : ∀ i, storage'.lookup (.chunk revision i) = storage.lookup (.chunk revision i)) :
    readMcpCatalogSnapshot storage' revision = readMcpCatalogSnapshot storage revision := by
  simp only [readMcpCatalogSnapshot, hheader, hchunks]

def Readable (storage : Storage Tool) (revision : String) : Prop :=
  (readMcpCatalogSnapshot storage revision).isSome = true

theorem readable_insert {k : Key} {v : Value Tool} (hheader : ∀ r, k ≠ .header r)
    (hchunk : ∀ r i, k ≠ .chunk r i) :
    Readable (storage.insert k v) revision ↔ Readable storage revision := by
  unfold Readable
  rw [read_congr (AList.lookup_insert_ne (hheader revision).symm)
    fun i => AList.lookup_insert_ne (hchunk revision i).symm]

theorem readable_erase {k : Key} (hheader : ∀ r, k ≠ .header r) (hchunk : ∀ r i, k ≠ .chunk r i) :
    Readable (storage.erase k) revision ↔ Readable storage revision := by
  unfold Readable
  rw [read_congr (AList.lookup_erase_ne (hheader revision).symm)
    fun i => AList.lookup_erase_ne (hchunk revision i).symm]

end Frame

section Persist

variable {storage storage' : Storage Tool} {revision : String}

theorem lookup_persistChunks_other {k : Key} (hk : ∀ i, k ≠ .chunk revision i) (chunks : List (List Tool × ℕ))
    (storage : Storage Tool) : (persistChunks revision storage chunks).lookup k = storage.lookup k := by
  induction chunks generalizing storage with
  | nil => rfl
  | cons chunk rest ih =>
    show (persistChunks revision (storage.insert _ _) rest).lookup k = _
    rw [ih, AList.lookup_insert_ne (hk chunk.2)]

theorem lookup_persistChunks (chunks : List (List Tool)) (n i : ℕ) (storage : Storage Tool) :
    (persistChunks revision storage (chunks.zipIdx n)).lookup (.chunk revision i) =
      if n ≤ i then ((chunks[i - n]?).map Value.chunk).or (storage.lookup (.chunk revision i))
      else storage.lookup (.chunk revision i) := by
  induction chunks generalizing n storage with
  | nil => simp [persistChunks]
  | cons chunk rest ih =>
    show (persistChunks revision (storage.insert (.chunk revision n) (.chunk chunk))
      (rest.zipIdx (n + 1))).lookup _ = _
    rw [ih]
    rcases Nat.lt_trichotomy i n with hlt | heq | hgt
    · have hne : Key.chunk revision i ≠ .chunk revision n := by simp [hlt.ne]
      rw [if_neg (by omega), if_neg (by omega), AList.lookup_insert_ne hne]
    · subst heq
      rw [if_neg (by omega), if_pos (by omega), AList.lookup_insert]
      simp
    · have hne : Key.chunk revision i ≠ .chunk revision n := by simp [hgt.ne']
      have hindex : i - n = (i - (n + 1)) + 1 := by omega
      rw [if_pos (by omega), if_pos (by omega), AList.lookup_insert_ne hne, hindex, List.getElem?_cons_succ]

theorem flatten_range (manifest : List Tool) (n : ℕ) :
    ((List.range n).map fun index =>
      (manifest.drop (catalogChunkSize * index)).take catalogChunkSize).flatten =
      manifest.take (catalogChunkSize * n) := by
  induction n with
  | zero => simp
  | succ n ih =>
    rw [List.range_succ, List.map_append, List.flatten_append, ih, Nat.mul_succ, List.take_add]
    simp

theorem catalogChunks_flatten (manifest : List Tool) : (catalogChunks manifest).flatten = manifest := by
  rw [catalogChunks, flatten_range]
  apply List.take_of_length_le
  simp only [catalogChunkSize]
  omega

theorem catalogChunks_length (manifest : List Tool) :
    (catalogChunks manifest).length = (manifest.length + 3) / catalogChunkSize := by
  simp [catalogChunks]

variable {encodedBytes : List Tool → ℕ} {catalog : EdgeMcpCatalog Tool}

theorem persist_ok (h : persistMcpCatalogSnapshot encodedBytes storage catalog = .ok storage') :
    isMcpContractRevision catalog.catalogMetadata.contractRevision = true ∧
    isSafeInteger catalog.catalogMetadata.toolCount = true ∧
    catalog.catalogMetadata.toolCount = catalog.manifest.length ∧
    storage' = (persistChunks catalog.catalogMetadata.contractRevision storage
      (catalogChunks catalog.manifest).zipIdx).insert
        (.header catalog.catalogMetadata.contractRevision) (.header
        ⟨catalog.catalogMetadata.contractRevision, (catalogChunks catalog.manifest).length,
          catalog.manifest.length, catalog.catalogMetadata, catalog.serverIdentity⟩) := by
  unfold persistMcpCatalogSnapshot at h
  dsimp only at h
  split_ifs at h with hmetadata hsize
  simp only [not_or, Bool.not_eq_true, Bool.not_eq_false', not_not] at hmetadata
  cases h
  exact ⟨hmetadata.1, hmetadata.2.1, hmetadata.2.2, rfl⟩

/-- What is persisted is read back. -/
theorem read_persisted (h : persistMcpCatalogSnapshot encodedBytes storage catalog = .ok storage') :
    readMcpCatalogSnapshot storage' catalog.catalogMetadata.contractRevision = some catalog := by
  obtain ⟨hrevision, hsafe, hcount, rfl⟩ := persist_ok h
  have hlength := catalogChunks_length catalog.manifest
  have hchunks : ∀ i < (catalogChunks catalog.manifest).length,
      (((persistChunks catalog.catalogMetadata.contractRevision storage
        (catalogChunks catalog.manifest).zipIdx).insert
          (.header catalog.catalogMetadata.contractRevision) (.header
        ⟨catalog.catalogMetadata.contractRevision, (catalogChunks catalog.manifest).length,
          catalog.manifest.length, catalog.catalogMetadata, catalog.serverIdentity⟩)).lookup
        (.chunk catalog.catalogMetadata.contractRevision i)).bind Value.asChunk =
            (catalogChunks catalog.manifest)[i]? := by
    intro i hi
    rw [AList.lookup_insert_ne (by simp), lookup_persistChunks, if_pos (Nat.zero_le i), Nat.sub_zero,
      List.getElem?_eq_getElem hi]
    rfl
  have hall : ((List.range (catalogChunks catalog.manifest).length).map fun i =>
      (((persistChunks catalog.catalogMetadata.contractRevision storage
        (catalogChunks catalog.manifest).zipIdx).insert
          (.header catalog.catalogMetadata.contractRevision) (.header
        ⟨catalog.catalogMetadata.contractRevision, (catalogChunks catalog.manifest).length,
          catalog.manifest.length, catalog.catalogMetadata, catalog.serverIdentity⟩)).lookup
        (.chunk catalog.catalogMetadata.contractRevision i)).bind Value.asChunk) =
      (catalogChunks catalog.manifest).map some := by
    apply List.ext_getElem
    · simp
    · intro i hi hi'
      simp only [List.length_map, List.length_range] at hi
      rw [List.getElem_map, List.getElem_range, hchunks i hi, List.getElem?_eq_getElem hi, List.getElem_map]
  have hbound : isSafeInteger ((catalogChunks catalog.manifest).length : ℤ) = true := by
    simp only [isSafeInteger, decide_eq_true_eq, hcount, Int.natAbs_natCast] at hsafe ⊢
    rw [hlength]
    simp only [catalogChunkSize]
    omega
  have hheader : isStoredCatalogHeader ⟨catalog.catalogMetadata.contractRevision,
      (catalogChunks catalog.manifest).length, catalog.manifest.length, catalog.catalogMetadata,
      catalog.serverIdentity⟩ catalog.catalogMetadata.contractRevision = true := by
    rw [hcount] at hsafe
    simp [isStoredCatalogHeader, hbound, hsafe, hcount]
  simp only [readMcpCatalogSnapshot, hrevision, AList.lookup_insert, Option.bind_some,
    Value.asHeader, hheader, Int.toNat_natCast, hall, Bool.not_true, Bool.false_eq_true, if_false]
  simp [catalogChunks_flatten]

/-- Persisting one snapshot keeps the others readable. -/
theorem readable_persisted (h : persistMcpCatalogSnapshot encodedBytes storage catalog = .ok storage')
    (hread : Readable storage revision) : Readable storage' revision := by
  by_cases hsame : revision = catalog.catalogMetadata.contractRevision
  · rw [Readable, hsame, read_persisted h]
    rfl
  · obtain ⟨_, _, _, rfl⟩ := persist_ok h
    rw [Readable, read_congr]
    · exact hread
    · rw [AList.lookup_insert_ne (by simpa using hsame)]
      exact lookup_persistChunks_other (by simp) _ _
    · intro i
      rw [AList.lookup_insert_ne (by simp)]
      exact lookup_persistChunks_other (by simp [hsame]) _ _

/-- Persisting touches the keys of its snapshot only. -/
theorem lookup_persisted (h : persistMcpCatalogSnapshot encodedBytes storage catalog = .ok storage') {k : Key}
    (hheader : ∀ r, k ≠ .header r) (hchunk : ∀ r i, k ≠ .chunk r i) :
    storage'.lookup k = storage.lookup k := by
  obtain ⟨_, _, _, rfl⟩ := persist_ok h
  rw [AList.lookup_insert_ne (hheader _)]
  exact lookup_persistChunks_other (hchunk _) _ _

end Persist

end AccessStack.Rollout
