import Tatara.Lib.Fallible
import Tatara.Lib.Consecutive
import Tatara.Rust.Text

/-! Chunks, which are addressed by the hash of their data, and the manifests that list them. -/

namespace Tatara.P2p

open Tatara.Rust
open Tatara.Fallible (bind_eq_ok_iff)

/-- The bytes of a file or a message. -/
abbrev Bytes := List UInt8

/-- `DEFAULT_CHUNK_SIZE`. -/
def defaultChunkSize : Nat := 256 * 1024

/-- `Chunk`. -/
structure Chunk where
  hash : String
  data : Bytes
  size : Nat
  deriving DecidableEq

/-- `ChunkManifest`. -/
structure ChunkManifest where
  rootHash : String
  totalSize : Nat
  chunks : List String
  contentType : String
  label : String
  deriving DecidableEq

section

variable (blake3Hash : Bytes → String)

/-- `Chunk::new`. -/
def Chunk.new (data : Bytes) : Chunk := { hash := blake3Hash data, data, size := data.length }

/-- `verify`. -/
def Chunk.verify (chunk : Chunk) : Bool := blake3Hash chunk.data = chunk.hash

namespace ChunkManifest

/-- `from_data`. -/
def fromData (data : Bytes) (contentType label : String) : ChunkManifest × List Chunk :=
  let chunks := (slices defaultChunkSize data).map (Chunk.new blake3Hash)
  ({ rootHash := blake3Hash data, totalSize := data.length, chunks := chunks.map (·.hash)
     contentType, label }, chunks)

/-- A number in a message. -/
def renderCount (n : Nat) : String := String.ofList (renderNat n)

/-- The body of the loop of `reassemble`, for a chunk and the hash at its place. -/
def appendChunk (data : Bytes) (entry : (Chunk × String) × Nat) : Except String Bytes :=
  let ((chunk, expected), i) := entry
  if chunk.hash ≠ expected then
    .error ("Chunk " ++ renderCount i ++ " hash mismatch: expected " ++ expected ++ ", got " ++
      chunk.hash)
  else if !chunk.verify blake3Hash then
    .error ("Chunk " ++ renderCount i ++ " content verification failed")
  else .ok (data ++ chunk.data)

/-- `reassemble`. -/
def reassemble (manifest : ChunkManifest) (chunks : List Chunk) : Except String Bytes := do
  if chunks.length ≠ manifest.chunks.length then
    throw ("Expected " ++ renderCount manifest.chunks.length ++ " chunks, got " ++
      renderCount chunks.length)
  let data ← (chunks.zip manifest.chunks).zipIdx.foldlM (appendChunk blake3Hash) []
  let actualHash := blake3Hash data
  if actualHash ≠ manifest.rootHash then
    throw ("Root hash mismatch: expected " ++ manifest.rootHash ++ ", got " ++ actualHash)
  return data

end ChunkManifest

end

namespace ChunkManifest

variable {blake3Hash : Bytes → String}

/-- The loop succeeds if every chunk has the hash at its place, and really has it. -/
theorem foldlM_appendChunk {entries : List (Chunk × String)} {start : Nat} {data x : Bytes} :
    (entries.zipIdx start).foldlM (appendChunk blake3Hash) data = .ok x ↔
      (∀ entry ∈ entries, entry.1.hash = entry.2 ∧ entry.1.verify blake3Hash) ∧
        x = data ++ (entries.map (·.1.data)).flatten := by
  -- What has been put together so far stays in front.
  induction entries generalizing start data with
  | nil =>
    simp only [List.zipIdx_nil, List.foldlM_nil]
    constructor
    · rintro ⟨⟩
      simp
    · rintro ⟨-, rfl⟩
      simp [pure, Except.pure]
  | cons entry entries ih =>
    obtain ⟨chunk, expected⟩ := entry
    rw [List.zipIdx_cons, List.foldlM_cons, List.forall_mem_cons]
    by_cases same : chunk.hash = expected
    · by_cases verified : chunk.verify blake3Hash
      · have appended : appendChunk blake3Hash data ((chunk, expected), start) =
            .ok (data ++ chunk.data) := by
          simp [appendChunk, same, verified]
        rw [appended]
        refine ih.trans ?_
        simp [same, verified]
      · simp [appendChunk, same, verified, bind, Except.bind]
    · simp [appendChunk, same, bind, Except.bind]

/-- Chunks go with their hashes if they have these hashes and verify. -/
theorem forall_zip_iff {chunks : List Chunk} {hashes : List String}
    (length : chunks.length = hashes.length) :
    (∀ entry ∈ chunks.zip hashes, entry.1.hash = entry.2 ∧ entry.1.verify blake3Hash) ↔
      chunks.map (·.hash) = hashes ∧ ∀ chunk ∈ chunks, chunk.verify blake3Hash := by
  -- Chunks and hashes are gone through side by side.
  induction chunks generalizing hashes with
  | nil =>
    obtain rfl := List.eq_nil_of_length_eq_zero length.symm
    simp
  | cons chunk chunks ih =>
    obtain ⟨hash, hashes, rfl⟩ := List.exists_cons_of_length_eq_add_one length.symm
    rw [List.zip_cons_cons, List.forall_mem_cons, ih (Nat.succ.inj length), List.map_cons,
      List.cons.injEq, List.forall_mem_cons]
    exact and_and_and_comm

/-- What is put together is the data of chunks that have the hashes of the manifest, and it has the
root hash itself. -/
theorem reassemble_eq_ok_iff {manifest : ChunkManifest} {chunks : List Chunk} {x : Bytes} :
    manifest.reassemble blake3Hash chunks = .ok x ↔
      chunks.map (·.hash) = manifest.chunks ∧ (∀ chunk ∈ chunks, chunk.verify blake3Hash) ∧
        x = (chunks.map (·.data)).flatten ∧ blake3Hash x = manifest.rootHash := by
  by_cases length : chunks.length = manifest.chunks.length
  · have joined : ((chunks.zip manifest.chunks).map (·.1.data)) = chunks.map (·.data) := by
      conv_rhs => rw [← List.map_fst_zip length.le, List.map_map]
      rfl
    simp only [reassemble, length, ne_eq, not_true_eq_false, if_false, bind_eq_ok_iff,
      foldlM_appendChunk, joined, List.nil_append, forall_zip_iff length]
    constructor
    · rintro ⟨data, ⟨⟨hashes, verified⟩, rfl⟩, checked⟩
      split at checked
      · cases checked
      · rename_i root
        cases checked
        exact ⟨hashes, verified, rfl, not_not.mp root⟩
    · rintro ⟨hashes, verified, rfl, root⟩
      exact ⟨_, ⟨⟨hashes, verified⟩, rfl⟩, by simp [root, pure, Except.pure]⟩
  · -- The lists of the hashes differ in their lengths already.
    have different : chunks.map (·.hash) ≠ manifest.chunks := by
      intro same
      exact length (by simpa using congrArg List.length same)
    refine iff_of_false (fun reassembled => ?_) fun parts => different parts.1
    simp only [reassemble, length, ne_eq, not_false_eq_true, if_true] at reassembled
    cases reassembled

/-- The chunks of some data are put together to the data itself. -/
theorem reassemble_fromData (data : Bytes) (contentType label : String) :
    (fromData blake3Hash data contentType label).1.reassemble blake3Hash
      (fromData blake3Hash data contentType label).2 = .ok data := by
  rw [reassemble_eq_ok_iff]
  -- The chunks are the data again, cut into pieces.
  have whole : (((slices defaultChunkSize data).map (Chunk.new blake3Hash)).map
      (·.data)).flatten = data := by
    rw [List.map_map]
    exact (congrArg List.flatten (List.map_id _)).trans (flatten_slices (by decide) data)
  refine ⟨rfl, fun chunk among => ?_, whole.symm, rfl⟩
  obtain ⟨piece, -, rfl⟩ := List.mem_map.mp among
  simp [Chunk.verify, Chunk.new]

/-- Nothing else than the data has its root hash. -/
theorem eq_of_reassemble (injective : Function.Injective blake3Hash) {data x : Bytes}
    {contentType label : String} {chunks : List Chunk}
    (reassembled : (fromData blake3Hash data contentType label).1.reassemble blake3Hash chunks =
      .ok x) : x = data :=
  injective (reassemble_eq_ok_iff.mp reassembled).2.2.2

end ChunkManifest

end Tatara.P2p
