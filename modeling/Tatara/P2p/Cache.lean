import Tatara.Lib.Interleaving
import Tatara.P2p.Chunk

/-! The cache of the chunks of a node, and how chunks come into it from its peers. -/

namespace Tatara.P2p

open Tatara.Rust

/-- Where the file of a chunk is: the directory that it shares with others, and its name. -/
structure ChunkPath where
  shard : String
  name : String
  deriving DecidableEq

/-- `chunk_path`. -/
def chunkPath (hash : String) : ChunkPath :=
  { shard := String.ofList (hash.toList.take 2), name := hash }

/-- What a peer has answered. -/
structure Response where
  success : Bool
  bytes : Except String Bytes

/-- What the cache and the transfer ask of the disk, of the tables in memory, and of the network. -/
inductive Call where
  | createDirAll (shard : String)
  | writeChunk (path : ChunkPath) (data : Bytes)
  | readChunk (path : ChunkPath)
  | removeChunk (path : ChunkPath)
  | indexContains (hash : String)
  | indexInsert (hash : String)
  | indexRemove (hash : String)
  | writeManifest (manifest : ChunkManifest)
  | insertManifest (manifest : ChunkManifest)
  | findChunkHolders (hash : String)
  | httpGet (url : String)

/-- The answers to calls. -/
@[reducible] def Answer : Call → Type
  | .createDirAll _ | .writeChunk _ _ | .removeChunk _ | .writeManifest _ => Except String Unit
  | .readChunk _ => Except String Bytes
  | .indexContains _ => Bool
  | .indexInsert _ | .indexRemove _ | .insertManifest _ => Unit
  | .findChunkHolders _ => List String
  | .httpGet _ => Except String Response

/-- Programs of the cache. -/
abbrev Task := Program Call Answer

/-- Programs of the cache that may fail. -/
abbrev Handler := ExceptT String Task

/-- A call whose failure is that of the program. -/
def attempt {α : Type} (task : Task (Except String α)) : Handler α := ExceptT.mk task

/-- A call that cannot fail, or whose failure is not that of the program. -/
def perform (c : Call) : Handler (Answer c) := liftM (Program.call c : Task (Answer c))

/-- `has_chunk`. -/
def hasChunk (hash : String) : Handler Bool := perform (.indexContains hash)

section

variable (blake3Hash : Bytes → String)

/-- `put_chunk`. -/
def putChunk (chunk : Chunk) : Handler Unit := do
  if !chunk.verify blake3Hash then throw ("Chunk verification failed: " ++ chunk.hash)
  let path := chunkPath chunk.hash
  attempt (Program.call (Call.createDirAll path.shard))
  attempt (Program.call (Call.writeChunk path chunk.data))
  perform (.indexInsert chunk.hash)

/-- `get_chunk`. -/
def getChunk (hash : String) : Handler (Option Chunk) := do
  if !(← hasChunk hash) then return none
  let path := chunkPath hash
  let data ← attempt (Program.call (Call.readChunk path))
  let chunk : Chunk := { hash, data, size := 0 }
  if !chunk.verify blake3Hash then
    -- The file is of no use, and whether it can be removed does not matter.
    let _ ← perform (.removeChunk path)
    perform (.indexRemove hash)
    return none
  return some { chunk with size := chunk.data.length }

/-- `put_manifest`. -/
def putManifest (manifest : ChunkManifest) : Handler Unit := do
  attempt (Program.call (Call.writeManifest manifest))
  perform (.insertManifest manifest)

/-- `store_data`. -/
def storeData (data : Bytes) (contentType label : String) : Handler ChunkManifest := do
  let (manifest, chunks) := ChunkManifest.fromData blake3Hash data contentType label
  chunks.forM (putChunk blake3Hash)
  putManifest manifest
  return manifest

/-- The loop of `retrieve_data`, which gives up at the first chunk that is missing. -/
def getChunks : List String → Handler (Option (List Chunk))
  | [] => return some []
  | hash :: hashes => do
    match ← getChunk blake3Hash hash with
    | none => return none
    | some chunk =>
      match ← getChunks hashes with
      | none => return none
      | some chunks => return some (chunk :: chunks)

/-- `retrieve_data`. -/
def retrieveData (manifest : ChunkManifest) : Handler (Option Bytes) := do
  match ← getChunks blake3Hash manifest.chunks with
  | none => return none
  | some chunks =>
    match manifest.reassemble blake3Hash chunks with
    | .ok data => return some data
    | .error e => throw ("Reassembly failed: " ++ e)

/-- The loop of `fetch_chunk_from_peers` over the holders of a chunk. -/
def tryHolders (blake3Hash : Bytes → String) (hash : String) (count : Nat) :
    List String → Handler Unit
  | [] =>
    throw ("Failed to fetch chunk " ++ hash ++ " from any of " ++ ChunkManifest.renderCount count ++
      " holders")
  | holder :: holders => do
    let url := "http://" ++ holder ++ "/p2p/chunks/" ++ hash
    match ← perform (.httpGet url) with
    | .error _ => tryHolders blake3Hash hash count holders
    | .ok response =>
      if response.success then
        let data ← attempt (pure response.bytes)
        let chunk : Chunk := { hash, data, size := data.length }
        if chunk.verify blake3Hash then putChunk blake3Hash chunk
        else tryHolders blake3Hash hash count holders
      else tryHolders blake3Hash hash count holders

/-- `fetch_chunk_from_peers`. -/
def fetchChunkFromPeers (hash : String) : Handler Unit := do
  let holders ← perform (.findChunkHolders hash)
  if holders.isEmpty then throw ("No holders found for chunk " ++ hash)
  tryHolders blake3Hash hash holders.length holders

end

end Tatara.P2p
