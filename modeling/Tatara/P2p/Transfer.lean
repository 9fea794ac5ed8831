import Tatara.P2p.Cache

/-! Runs of the cache on a disk that changes by itself, with peers that answer what they like. -/

namespace Tatara.P2p

open Tatara.Rust
open Tatara.Program (Runs runs_pure_iff runs_bind_iff runs_try_ok)

/-- The tables in memory, and the chunk files on the disk. -/
structure Store where
  index : Finset String
  manifests : Std.ExtTreeMap String ChunkManifest
  files : ChunkPath → Option Bytes

namespace Store

/-- A file has this content now, or is gone. -/
def withFile (store : Store) (path : ChunkPath) (content : Option Bytes) : Store :=
  { store with files := Function.update store.files path content }

/-- What a call is answered with, and what the store is like then. -/
inductive Answers : Store → (c : Call) → Answer c → Store → Prop where
  | createDirAll (s : Store) (shard : String) (result : Except String Unit) :
      Answers s (.createDirAll shard) result s
  | written (s : Store) (path : ChunkPath) (data : Bytes) :
      Answers s (.writeChunk path data) (.ok ()) (s.withFile path (some data))
  /-- A write that fails may leave anything behind. -/
  | notWritten (s : Store) (path : ChunkPath) (data : Bytes) (error : String)
      (content : Option Bytes) :
      Answers s (.writeChunk path data) (.error error) (s.withFile path content)
  | read (s : Store) (path : ChunkPath) (data : Bytes) (there : s.files path = some data) :
      Answers s (.readChunk path) (.ok data) s
  | notRead (s : Store) (path : ChunkPath) (error : String) :
      Answers s (.readChunk path) (.error error) s
  | removed (s : Store) (path : ChunkPath) :
      Answers s (.removeChunk path) (.ok ()) (s.withFile path none)
  | notRemoved (s : Store) (path : ChunkPath) (error : String) :
      Answers s (.removeChunk path) (.error error) s
  | contains (s : Store) (hash : String) :
      Answers s (.indexContains hash) (decide (hash ∈ s.index)) s
  | inserted (s : Store) (hash : String) :
      Answers s (.indexInsert hash) () { s with index := insert hash s.index }
  | erased (s : Store) (hash : String) :
      Answers s (.indexRemove hash) () { s with index := s.index.erase hash }
  | writeManifest (s : Store) (manifest : ChunkManifest) (result : Except String Unit) :
      Answers s (.writeManifest manifest) result s
  | insertManifest (s : Store) (manifest : ChunkManifest) :
      Answers s (.insertManifest manifest) ()
        { s with manifests := s.manifests.insert manifest.rootHash manifest }
  | findChunkHolders (s : Store) (hash : String) (holders : List String) :
      Answers s (.findChunkHolders hash) holders s
  | httpGet (s : Store) (url : String) (result : Except String Response) :
      Answers s (.httpGet url) result s

/-- A file on the disk is corrupted, appears, or disappears. -/
def Corrupted (before after : Store) : Prop :=
  ∃ path content, after = before.withFile path content

end Store

/-- What the cache is asked for. -/
inductive Request where
  | putChunk (chunk : Chunk)
  | storeData (data : Bytes) (contentType label : String)
  | getChunk (hash : String)
  | retrieveData (manifest : ChunkManifest)
  | fetchChunk (hash : String)

/-- What the cache has answered, with what it was asked for. -/
inductive Reply where
  | put (result : Except String Unit)
  | stored (result : Except String ChunkManifest)
  | served (hash : String) (result : Except String (Option Chunk))
  | retrieved (manifest : ChunkManifest) (result : Except String (Option Bytes))
  | fetched (result : Except String Unit)

section

variable (blake3Hash : Bytes → String)

/-- The program that answers a request. -/
def Request.task : Request → Task Reply
  | putChunk chunk => do return .put (← (P2p.putChunk blake3Hash chunk).run)
  | storeData data contentType label => do
    return .stored (← (P2p.storeData blake3Hash data contentType label).run)
  | getChunk hash => do return .served hash (← (P2p.getChunk blake3Hash hash).run)
  | retrieveData manifest => do
    return .retrieved manifest (← (P2p.retrieveData blake3Hash manifest).run)
  | fetchChunk hash => do return .fetched (← (P2p.fetchChunkFromPeers blake3Hash hash).run)

/-- A chunk has the hash that was asked for, and data come only from their own manifest. -/
def Reply.Faithful : Reply → Prop
  | served hash (.ok (some chunk)) => chunk.hash = hash ∧ blake3Hash chunk.data = hash
  | retrieved manifest (.ok (some x)) =>
    ∀ data contentType label,
      manifest = (ChunkManifest.fromData blake3Hash data contentType label).1 → x = data
  | _ => True

/-- Requests that are answered at the same time, while files on the disk change. -/
def cacheSystem : System Store Nat Call Answer Reply where
  starts := fun _ _ task => ∃ request : Request, task = request.task blake3Hash
  answers := fun store _ c answer changed => store.Answers c answer changed
  drifts := Store.Corrupted

end

section

variable {blake3Hash : Bytes → String}

/-- What is served has been verified, whatever the disk has answered. -/
theorem served_of_runs {hash : String} {trace : List (Program.Exchange Answer)} {chunk : Chunk}
    (runs : Runs (getChunk blake3Hash hash).run trace (.ok (some chunk))) :
    chunk.hash = hash ∧ blake3Hash chunk.data = hash := by
  simp only [getChunk] at runs
  obtain ⟨_, known, _, _, rest, rfl⟩ := runs_try_ok runs
  cases known with
  | false => cases (runs_pure_iff.mp rest).2
  | true =>
    obtain ⟨_, data, _, _, checked, rfl⟩ := runs_try_ok rest
    by_cases verified : ({ hash, data, size := 0 } : Chunk).verify blake3Hash
    · rw [verified] at checked
      cases (runs_pure_iff.mp checked).2
      exact ⟨rfl, by simpa [Chunk.verify] using verified⟩
    · -- A chunk that is not what it should be is removed and not served.
      simp only [verified, Bool.not_false, if_true] at checked
      obtain ⟨_, _, _, _, behind, rfl⟩ := runs_try_ok checked
      obtain ⟨_, _, _, _, final, rfl⟩ := runs_try_ok behind
      cases (runs_pure_iff.mp final).2

/-- What is retrieved has been put together from some chunks. -/
theorem reassembled_of_runs {manifest : ChunkManifest} {trace : List (Program.Exchange Answer)}
    {x : Bytes} (runs : Runs (retrieveData blake3Hash manifest).run trace (.ok (some x))) :
    ∃ chunks, manifest.reassemble blake3Hash chunks = .ok x := by
  simp only [retrieveData] at runs
  -- Whatever chunks the cache comes up with, they still have to be reassembled.
  obtain ⟨_, found, _, _, rest, rfl⟩ := runs_try_ok runs
  cases found with
  | none => cases (runs_pure_iff.mp rest).2
  | some chunks =>
    refine ⟨chunks, ?_⟩
    cases reassembled : manifest.reassemble blake3Hash chunks with
    | error e =>
      simp only [reassembled] at rest
      cases (runs_pure_iff.mp rest).2
    | ok data =>
      simp only [reassembled] at rest
      cases (runs_pure_iff.mp rest).2
      rfl

/-- The answer to a request is right, whatever the surroundings have answered. -/
theorem faithful_of_runs (injective : Function.Injective blake3Hash) {request : Request}
    {trace : List (Program.Exchange Answer)} {reply : Reply}
    (runs : Runs (request.task blake3Hash) trace reply) : reply.Faithful blake3Hash := by
  -- Only two of the requests hand out data.
  cases request with
  | putChunk | storeData | fetchChunk =>
    obtain ⟨_, _, _, _, rest, rfl⟩ := runs_bind_iff.mp runs
    obtain ⟨-, rfl⟩ := runs_pure_iff.mp rest
    trivial
  | getChunk hash =>
    obtain ⟨_, result, _, served, rest, rfl⟩ := runs_bind_iff.mp runs
    obtain ⟨-, rfl⟩ := runs_pure_iff.mp rest
    rcases result with _ | _ | chunk
    · trivial
    · trivial
    · exact served_of_runs served
  | retrieveData manifest =>
    obtain ⟨_, result, _, retrieved, rest, rfl⟩ := runs_bind_iff.mp runs
    obtain ⟨-, rfl⟩ := runs_pure_iff.mp rest
    rcases result with _ | _ | x
    · trivial
    · trivial
    · intro data contentType label same
      obtain ⟨chunks, reassembled⟩ := reassembled_of_runs retrieved
      exact ChunkManifest.eq_of_reassemble injective (same ▸ reassembled)

end

/-- What is published comes back as it was, from whatever chunks there are, or not at all. -/
theorem transfer_faithful (blake3Hash : Bytes → String) (injective : Function.Injective blake3Hash)
    (data : Bytes) (contentType label : String) :
    let (manifest, published) := ChunkManifest.fromData blake3Hash data contentType label
    manifest.reassemble blake3Hash published = .ok data ∧
      (∀ chunks x, manifest.reassemble blake3Hash chunks = .ok x → x = data) ∧
      ∀ w v calls, (∀ i, w.running i = none) →
        System.Run (cacheSystem blake3Hash) (fun _ _ => True) w calls v →
          ∀ i reply, v.running i = some (.done reply) →
            (∀ hash chunk, reply = .served hash (.ok (some chunk)) →
              chunk.hash = hash ∧ blake3Hash chunk.data = hash) ∧
            ∀ x, reply = .retrieved manifest (.ok (some x)) → x = data := by
  refine ⟨ChunkManifest.reassemble_fromData data contentType label,
    fun _ _ => ChunkManifest.eq_of_reassemble injective,
    fun w v calls idle run i reply answered => ?_⟩
  -- How the requests interleave makes no difference to what each of them returns.
  have faithful : reply.Faithful blake3Hash := by
    refine run.results (fun _ _ _ starts trace reply runs => ?_) idle answered
    obtain ⟨request, rfl⟩ := starts
    exact faithful_of_runs injective runs
  constructor
  · rintro hash chunk rfl
    exact faithful
  · rintro x rfl
    exact faithful data contentType label rfl

/-- A hash that is the real one for the text "abc", and for other data shows them as they are. -/
def sampleHash (data : Bytes) : String :=
  if data = [97, 98, 99] then "6437b3ac38465133ffb63b75273a8db548c558465d79db03fd359c6cd5bd9d85"
  else String.ofList ('x' :: data.map Char.ofUInt8)

/-- No two byte strings have one sample hash. -/
theorem injective_sampleHash : Function.Injective sampleHash := by
  intro a b same
  -- The real hash does not start like the others do.
  have apart (rest : List Char) : String.ofList ('x' :: rest) ≠
      "6437b3ac38465133ffb63b75273a8db548c558465d79db03fd359c6cd5bd9d85" := by
    intro equal
    have first := congrArg (fun text => text.toList.head?) equal
    simp at first
  have byte : Function.Injective Char.ofUInt8 := by
    intro a b same
    have codes : a.toUInt32 = b.toUInt32 := congrArg Char.val same
    exact UInt8.toNat_inj.mp (by simpa using congrArg UInt32.toNat codes)
  simp only [sampleHash] at same
  split at same <;> split at same
  · rename_i left right
    rw [left, right]
  · exact absurd same.symm (apart _)
  · exact absurd same (apart _)
  · have lists := (List.cons.inj (String.ofList_injective same)).2
    exact List.map_injective_iff.mpr byte lists

/-- The text "abc" is one chunk, and comes back from a node whose cache is empty at first. -/
theorem transfer_faithful_abc :
    let (manifest, published) := ChunkManifest.fromData sampleHash [97, 98, 99] "text" "abc"
    manifest.reassemble sampleHash published = .ok [97, 98, 99] ∧
      (∀ chunks x, manifest.reassemble sampleHash chunks = .ok x → x = [97, 98, 99]) ∧
      ∀ w v calls, (∀ i, w.running i = none) →
        System.Run (cacheSystem sampleHash) (fun _ _ => True) w calls v →
          ∀ i reply, v.running i = some (.done reply) →
            (∀ hash chunk, reply = .served hash (.ok (some chunk)) →
              chunk.hash = hash ∧ sampleHash chunk.data = hash) ∧
            ∀ x, reply = .retrieved manifest (.ok (some x)) → x = [97, 98, 99] :=
  transfer_faithful sampleHash injective_sampleHash [97, 98, 99] "text" "abc"

end Tatara.P2p
