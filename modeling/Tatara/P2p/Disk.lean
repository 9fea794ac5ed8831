import Mathlib.Data.Set.Insert
import Tatara.P2p.Transfer

/-! The chunk files on the disk, with the jobs that write and read them in steps. -/

namespace Tatara.P2p

open Tatara.Rust
open Tatara.Program (Deferred DeferredAnswer)

/-- The calls that go on for a while: they are jobs of the pool of blocking threads. -/
def Call.Lasts : Call → Prop
  | writeChunk _ _ | readChunk _ => True
  | _ => False

/-- A job on a file, in the steps that the disk sees of it. A file that is open is known by its
inode, whatever its name stands for by then. -/
inductive Job where
  /-- The file is to be opened, which empties it. -/
  | write (path : ChunkPath) (data : Bytes)
  /-- So many bytes of the data have been written. -/
  | writing (path : ChunkPath) (data : Bytes) (inode offset : Nat)
  | read (path : ChunkPath)
  /-- These bytes have been read so far. -/
  | reading (path : ChunkPath) (inode : Nat) (taken : Bytes)
  | finished (path : ChunkPath) (bytes : Bytes)

namespace Job

/-- The job may still change the file of this name. -/
def Writes (name : ChunkPath) : Job → Prop
  | write path _ => path = name
  | writing path data _ offset => path = name ∧ offset < data.length
  | _ => False

/-- The job still has something to read in the file of this name. -/
def Reads (name : ChunkPath) : Job → Prop
  | read path | reading path _ _ => path = name
  | _ => False

/-- The file that the job has open. -/
def inode? : Job → Option Nat
  | writing _ _ inode _ | reading _ inode _ => some inode
  | _ => none

end Job

/-- A file once some bytes have been written into it; a gap in front of them is filled with
zeros. -/
def overwrite (content : Bytes) (offset : Nat) (bytes : Bytes) : Bytes :=
  content.take offset ++ List.replicate (offset - content.length) 0 ++ bytes ++
    content.drop (offset + bytes.length)

/-- The tables in memory, the chunk files on the disk under their names, and the jobs on them. -/
structure Node where
  index : Finset String
  manifests : Std.ExtTreeMap String ChunkManifest
  names : ChunkPath → Option Nat
  inodes : Nat → Bytes
  jobs : Nat → Option Job

namespace Node

/-- The tables, with what the files contain at the moment. -/
def store (n : Node) : Store :=
  { index := n.index, manifests := n.manifests, files := fun path => (n.names path).map n.inodes }

/-- The job under a ticket is at this step now. -/
def withJob (n : Node) (ticket : Nat) (job : Option Job) : Node :=
  { n with jobs := Function.update n.jobs ticket job }

/-- A file has this content now. -/
def withInode (n : Node) (inode : Nat) (content : Bytes) : Node :=
  { n with inodes := Function.update n.inodes inode content }

/-- A name stands for this file now. -/
def withName (n : Node) (path : ChunkPath) (inode : Option Nat) : Node :=
  { n with names := Function.update n.names path inode }

/-- No name stands for the file, and no job has it open. -/
def Unused (n : Node) (inode : Nat) : Prop :=
  (∀ path, n.names path ≠ some inode) ∧
    ∀ ticket job, n.jobs ticket = some job → job.inode? ≠ some inode

/-- What a call in two steps is answered with, and what the node is like then. -/
inductive Answers : Node → (c : Deferred Call) → DeferredAnswer Answer c → Node → Prop where
  | submitWrite (n : Node) (path : ChunkPath) (data : Bytes) (ticket : Nat)
      (free : n.jobs ticket = none) :
      Answers n (.submit (.writeChunk path data)) ticket
        (n.withJob ticket (some (.write path data)))
  | submitRead (n : Node) (path : ChunkPath) (ticket : Nat) (free : n.jobs ticket = none) :
      Answers n (.submit (.readChunk path)) ticket (n.withJob ticket (some (.read path)))
  | submit (n : Node) (c : Call) (ticket : Nat) (short : ¬ c.Lasts) :
      Answers n (.submit c) ticket n
  | written (n : Node) (path : ChunkPath) (data : Bytes) (inode ticket : Nat)
      (ended : n.jobs ticket = some (.writing path data inode data.length)) :
      Answers n (.await (.writeChunk path data) ticket) (.ok ()) n
  /-- A write that fails leaves behind what it has done so far. -/
  | notWritten (n : Node) (path : ChunkPath) (data : Bytes) (ticket : Nat) (error : String) :
      Answers n (.await (.writeChunk path data) ticket) (.error error) (n.withJob ticket none)
  | read (n : Node) (path : ChunkPath) (bytes : Bytes) (ticket : Nat)
      (ended : n.jobs ticket = some (.finished path bytes)) :
      Answers n (.await (.readChunk path) ticket) (.ok bytes) n
  | notRead (n : Node) (path : ChunkPath) (ticket : Nat) (error : String) :
      Answers n (.await (.readChunk path) ticket) (.error error) (n.withJob ticket none)
  | removed (n : Node) (path : ChunkPath) (ticket : Nat) :
      Answers n (.await (.removeChunk path) ticket) (.ok ()) (n.withName path none)
  | notRemoved (n : Node) (path : ChunkPath) (ticket : Nat) (error : String) :
      Answers n (.await (.removeChunk path) ticket) (.error error) n
  /-- The other calls have to do with the tables, the network and files that are not modelled. -/
  | other (n : Node) (c : Call) (ticket : Nat) (answer : Answer c) (changed : Store)
      (short : ¬ c.Lasts) (keeps : ∀ path, c ≠ .removeChunk path)
      (answers : n.store.Answers c answer changed) :
      Answers n (.await c ticket) answer
        { n with index := changed.index, manifests := changed.manifests }

/-- The node once a file has been opened to be written, which empties it. -/
def opened (n : Node) (ticket : Nat) (path : ChunkPath) (data : Bytes) (inode : Nat) : Node :=
  ((n.withName path (some inode)).withInode inode []).withJob ticket
    (some (.writing path data inode 0))

/-- The node once more of the data has been written. -/
def advanced (n : Node) (ticket : Nat) (path : ChunkPath) (data : Bytes)
    (inode offset count : Nat) : Node :=
  (n.withInode inode
    (overwrite (n.inodes inode) offset ((data.drop offset).take count))).withJob ticket
      (some (.writing path data inode (offset + count)))

/-- A job gets on by one step, whether or not anyone still awaits it. -/
inductive Works : Node → Node → Prop where
  | openWrite (n : Node) (ticket : Nat) (path : ChunkPath) (data : Bytes) (inode : Nat)
      (job : n.jobs ticket = some (.write path data))
      (found : n.names path = some inode ∨ n.names path = none ∧ n.Unused inode) :
      Works n (n.opened ticket path data inode)
  | write (n : Node) (ticket : Nat) (path : ChunkPath) (data : Bytes) (inode offset count : Nat)
      (job : n.jobs ticket = some (.writing path data inode offset)) (positive : 0 < count)
      (within : offset + count ≤ data.length) :
      Works n (n.advanced ticket path data inode offset count)
  | openRead (n : Node) (ticket : Nat) (path : ChunkPath) (inode : Nat)
      (job : n.jobs ticket = some (.read path)) (found : n.names path = some inode) :
      Works n (n.withJob ticket (some (.reading path inode [])))
  | read (n : Node) (ticket : Nat) (path : ChunkPath) (inode : Nat) (taken : Bytes) (count : Nat)
      (job : n.jobs ticket = some (.reading path inode taken)) :
      Works n (n.withJob ticket (some (.reading path inode
        (taken ++ ((n.inodes inode).drop taken.length).take count))))
  | readEnd (n : Node) (ticket : Nat) (path : ChunkPath) (inode : Nat) (taken : Bytes)
      (job : n.jobs ticket = some (.reading path inode taken))
      (atEnd : (n.inodes inode).length ≤ taken.length) :
      Works n (n.withJob ticket (some (.finished path taken)))

end Node

section overwrite

variable {content bytes : Bytes} {offset k : Nat}

/-- The part in front of the bytes that are written is as long as it should be. -/
theorem length_overwrite_front :
    (content.take offset ++ List.replicate (offset - content.length) 0).length = offset := by
  -- The zeros make up for what the file lacks.
  rw [List.length_append, List.length_take, List.length_replicate]
  omega

/-- What is in front of the bytes that are written stays as it is. -/
theorem getElem?_overwrite_front (front : k < offset) (there : k < content.length) :
    (overwrite content offset bytes)[k]? = content[k]? := by
  rw [overwrite, List.append_assoc, List.append_assoc, List.getElem?_append_left (by simp; omega),
    List.getElem?_take_of_lt front]

/-- The bytes are where they have been written. -/
theorem getElem?_overwrite_within (begun : offset ≤ k) (within : k < offset + bytes.length) :
    (overwrite content offset bytes)[k]? = bytes[k - offset]? := by
  rw [overwrite, List.getElem?_append_left (by simp; omega),
    List.getElem?_append_right (by rw [length_overwrite_front]; exact begun),
    length_overwrite_front]

/-- What is behind them stays as it is. -/
theorem getElem?_overwrite_behind (behind : offset + bytes.length ≤ k) :
    (overwrite content offset bytes)[k]? = content[k]? := by
  -- Both parts in front have a known length, and the rest is dropped by as much.
  have front : (content.take offset ++ List.replicate (offset - content.length) 0 ++ bytes).length =
      offset + bytes.length := by rw [List.length_append, length_overwrite_front]
  rw [overwrite, List.getElem?_append_right (by rw [front]; exact behind), front,
    List.getElem?_drop, Nat.add_sub_cancel' behind]

end overwrite

section

variable (blake3Hash : Bytes → String)

namespace Node

/-- A byte of the file is about to be written, by a job that has not got so far. -/
def Pending (n : Node) (path : ChunkPath) (data : Bytes) (inode k : Nat) : Prop :=
  ∃ ticket offset, n.jobs ticket = some (.writing path data inode offset) ∧ offset ≤ k ∧
    k < data.length

/-- The file of a chunk has the content that its name stands for, but for bytes that are about to be
written. -/
def Has (n : Node) (hash : String) : Prop :=
  ∃ data inode, blake3Hash data = hash ∧ n.names (chunkPath hash) = some inode ∧
    ∀ k, (n.inodes inode)[k]? = data[k]? ∨ n.Pending (chunkPath hash) data inode k

end Node

/-- A job is on its way to what it is there for: data are written under their hash, and a chunk that
is listed is read as it is. -/
def Job.Right (n : Node) : Job → Prop
  | write path data => path = chunkPath (blake3Hash data)
  | writing path data inode _ =>
    path = chunkPath (blake3Hash data) ∧ n.names path = some inode ∧
      n.Has blake3Hash (blake3Hash data)
  | read path => ∃ hash ∈ n.index, path = chunkPath hash
  | reading path inode taken =>
    ∃ data, blake3Hash data ∈ n.index ∧ path = chunkPath (blake3Hash data) ∧
      n.names path = some inode ∧ taken <+: data
  | finished path bytes => blake3Hash bytes = path.name

namespace Node

/-- Every chunk that is listed is there, every job is on its way, and none of them reads what
another one writes. -/
structure Sound (n : Node) : Prop where
  listed : ∀ hash ∈ n.index, n.Has blake3Hash hash
  apart : ∀ path path' inode, n.names path = some inode → n.names path' = some inode →
    path = path'
  right : ∀ ticket job, n.jobs ticket = some job → job.Right blake3Hash n
  alone : ∀ ticket ticket' job job' path, n.jobs ticket = some job → n.jobs ticket' = some job' →
    job.Reads path → ¬ job'.Writes path

/-- Nothing is lost from one node to the other. -/
structure Grows (n changed : Node) : Prop where
  index : ∀ hash ∈ n.index, hash ∈ changed.index
  names : ∀ path inode, n.names path = some inode → changed.names path = some inode
  has : ∀ hash, n.Has blake3Hash hash → changed.Has blake3Hash hash

/-- Nothing is under way on the disk, and every chunk that is listed is there. -/
structure Resting (n : Node) : Prop where
  idle : ∀ ticket, n.jobs ticket = none
  apart : ∀ path path' inode, n.names path = some inode → n.names path' = some inode →
    path = path'
  listed : ∀ hash ∈ n.index, ∃ data, n.store.files (chunkPath hash) = some data ∧
    blake3Hash data = hash

end Node

end

section

variable {blake3Hash : Bytes → String} {n changed : Node}

/-- Chunks whose files have one name are the same. -/
theorem chunkPath_inj {hash hash' : String} (same : chunkPath hash = chunkPath hash') :
    hash = hash' :=
  -- The name of the file is the hash itself.
  congrArg ChunkPath.name same

/-- A job that reads a file does not write it. -/
theorem Job.not_writes_of_reads {job : Job} {path : ChunkPath} (reads : job.Reads path) :
    ¬ job.Writes path := by
  -- A job is one or the other.
  cases job with
  | read | reading => exact id
  | write | writing | finished => exact reads.elim

namespace Node

/-- Where nothing of a file is about to be written, it has its content. -/
theorem Has.content {hash : String} (has : n.Has blake3Hash hash)
    (quiet : ∀ ticket job, n.jobs ticket = some job → ¬ job.Writes (chunkPath hash)) :
    ∃ inode, n.names (chunkPath hash) = some inode ∧ blake3Hash (n.inodes inode) = hash := by
  -- Whatever byte differed would be pending, by a job that still writes.
  obtain ⟨data, inode, right, named, bytes⟩ := has
  have same : n.inodes inode = data := by
    refine List.ext_getElem? fun k => (bytes k).resolve_right ?_
    rintro ⟨ticket, offset, job, begun, within⟩
    exact quiet ticket _ job ⟨rfl, Nat.lt_of_le_of_lt begun within⟩
  exact ⟨inode, named, same ▸ right⟩

/-- Where the files stay as they are, and the jobs that write, nothing is lost. -/
theorem Has.of_jobs {hash : String} (has : n.Has blake3Hash hash)
    (names : changed.names = n.names) (inodes : changed.inodes = n.inodes)
    (jobs : ∀ ticket path data inode offset,
      n.jobs ticket = some (.writing path data inode offset) →
        changed.jobs ticket = some (.writing path data inode offset)) :
    changed.Has blake3Hash hash := by
  -- The same jobs have the same bytes still to write.
  obtain ⟨data, inode, right, named, bytes⟩ := has
  refine ⟨data, inode, right, names ▸ named, fun k => ?_⟩
  rw [inodes]
  refine (bytes k).imp_right fun ⟨ticket, offset, job, begun, within⟩ => ?_
  exact ⟨ticket, offset, jobs _ _ _ _ _ job, begun, within⟩

/-- A job that does not write yet, or not any more, may be at any other step. -/
theorem grows_withJob {ticket : Nat} (job : Option Job)
    (other : ∀ path data inode offset, n.jobs ticket ≠ some (.writing path data inode offset)) :
    n.Grows blake3Hash (n.withJob ticket job) where
  index _ := id
  names _ _ := id
  has hash has := by
    -- The job that has changed is none of those that write.
    refine has.of_jobs rfl rfl fun ticket' path data inode offset writes => ?_
    have apart : ticket' ≠ ticket := by
      rintro rfl
      exact other _ _ _ _ writes
    exact (Function.update_of_ne apart _ _).trans writes

/-- A job that is on its way stays so where nothing is lost. -/
theorem Grows.right {job : Job} (grows : n.Grows blake3Hash changed)
    (right : job.Right blake3Hash n) : job.Right blake3Hash changed := by
  -- A step on the way only refers to names, to what is listed and to chunks that are there.
  cases job with
  | write | finished => exact right
  | writing path data inode offset =>
    exact ⟨right.1, grows.names _ _ right.2.1, grows.has _ right.2.2⟩
  | read path =>
    obtain ⟨hash, listed, named⟩ := right
    exact ⟨hash, grows.index hash listed, named⟩
  | reading path inode taken =>
    obtain ⟨data, listed, named, there, front⟩ := right
    exact ⟨data, grows.index _ listed, named, grows.names _ _ there, front⟩

/-- A node in which one job is at another step is sound, where nothing is lost and the job is on its
way and does not come in the way of the others. -/
theorem Sound.turn (sound : n.Sound blake3Hash) (grows : n.Grows blake3Hash changed)
    (index : changed.index = n.index)
    (apart : ∀ path path' inode, changed.names path = some inode →
      changed.names path' = some inode → path = path')
    {ticket : Nat} {job : Job} (jobs : changed.jobs = Function.update n.jobs ticket (some job))
    (right : job.Right blake3Hash changed)
    (reads : ∀ ticket' other path, n.jobs ticket' = some other → job.Reads path →
      ¬ other.Writes path)
    (writes : ∀ ticket' other path, n.jobs ticket' = some other → other.Reads path →
      ¬ job.Writes path) :
    changed.Sound blake3Hash where
  listed hash among := grows.has hash (sound.listed hash (index ▸ among))
  apart := apart
  right ticket' other there := by
    rw [jobs, Function.update_apply] at there
    split at there
    · cases there
      exact right
    · exact grows.right (sound.right _ _ there)
  alone ticket₁ ticket₂ first second path one two := by
    rw [jobs, Function.update_apply] at one two
    -- Either of the two may be the job that has changed.
    split at one <;> split at two
    · cases one
      cases two
      exact Job.not_writes_of_reads
    · cases one
      exact reads _ _ _ two
    · cases two
      exact writes _ _ _ one
    · exact sound.alone _ _ _ _ _ one two

/-- A job that gets on without coming in the way of any more files than before. -/
theorem Sound.step (sound : n.Sound blake3Hash) (grows : n.Grows blake3Hash changed)
    (index : changed.index = n.index)
    (apart : ∀ path path' inode, changed.names path = some inode →
      changed.names path' = some inode → path = path')
    {ticket : Nat} {old job : Job} (there : n.jobs ticket = some old)
    (jobs : changed.jobs = Function.update n.jobs ticket (some job))
    (right : job.Right blake3Hash changed) (reads : ∀ path, job.Reads path → old.Reads path)
    (writes : ∀ path, job.Writes path → old.Writes path) : changed.Sound blake3Hash :=
  -- What the job does to the others, it did before.
  sound.turn grows index apart jobs right
    (fun _ _ path other needs => sound.alone _ _ _ _ path there other (reads path needs))
    fun _ _ path other needs changes =>
      sound.alone _ _ _ _ path other there needs (writes path changes)

end Node

end

section

variable {blake3Hash : Bytes → String} {n changed : Node} {ticket : Nat} {path : ChunkPath}
  {data : Bytes} {inode : Nat}

namespace Node

/-- No other name stands for a file that is opened under its own. -/
theorem eq_of_opened (sound : n.Sound blake3Hash)
    (found : n.names path = some inode ∨ n.names path = none ∧ n.Unused inode)
    {path' : ChunkPath} (named : n.names path' = some inode) : path' = path := by
  -- The file is new, or it is the one that is found under the name.
  rcases found with there | ⟨-, unused⟩
  · exact sound.apart _ _ _ named there
  · exact absurd named (unused.1 path')

/-- A file that is empty, with all of its data about to be written. -/
theorem has_opened (named : path = chunkPath (blake3Hash data)) :
    (n.opened ticket path data inode).Has blake3Hash (blake3Hash data) := by
  subst named
  -- Every byte of the data is still to be written, from the start on.
  refine ⟨data, inode, rfl, Function.update_self _ _ _, fun k => ?_⟩
  rcases Nat.lt_or_ge k data.length with within | beyond
  · exact .inr ⟨ticket, 0, Function.update_self _ _ _, Nat.zero_le k, within⟩
  · left
    have empty : (n.opened ticket (chunkPath (blake3Hash data)) data inode).inodes inode = [] :=
      Function.update_self _ _ _
    rw [empty, List.getElem?_nil, List.getElem?_eq_none beyond]

/-- Opening the file of a chunk loses none, since the data are to be written again. -/
theorem grows_opened (sound : n.Sound blake3Hash) (job : n.jobs ticket = some (.write path data))
    (found : n.names path = some inode ∨ n.names path = none ∧ n.Unused inode) :
    n.Grows blake3Hash (n.opened ticket path data inode) := by
  -- Either the chunk is the one that is opened, or its file is another one.
  have named : path = chunkPath (blake3Hash data) := sound.right _ _ job
  refine ⟨fun _ => id, fun path' inode' there => ?_, fun hash has => ?_⟩
  · by_cases own : path' = path
    · subst own
      rcases found with same | ⟨none, -⟩
      · rw [there] at same
        exact (Function.update_self _ _ _).trans same.symm
      · rw [there] at none
        cases none
    · exact (Function.update_of_ne own _ _).trans there
  · by_cases own : hash = blake3Hash data
    · exact own ▸ has_opened named
    · -- The content of another file and the jobs on it stay as they are.
      obtain ⟨content, inode', right, there, bytes⟩ := has
      have other : chunkPath hash ≠ path := fun same => own (chunkPath_inj (same.trans named))
      have apart : inode' ≠ inode := by
        rintro rfl
        exact other (eq_of_opened sound found there)
      refine ⟨content, inode', right, (Function.update_of_ne other _ _).trans there, fun k => ?_⟩
      have same : (n.opened ticket path data inode).inodes inode' = n.inodes inode' :=
        Function.update_of_ne apart _ _
      rw [same]
      refine (bytes k).imp_right fun ⟨ticket', offset, writes, begun, within⟩ => ?_
      have elsewhere : ticket' ≠ ticket := by
        rintro rfl
        rw [job] at writes
        cases writes
      exact ⟨ticket', offset, (Function.update_of_ne elsewhere _ _).trans writes, begun, within⟩

/-- A file that is written stays right in front of what is written now, and is right in it. -/
theorem grows_advanced (injective : Function.Injective blake3Hash) (sound : n.Sound blake3Hash)
    {offset count : Nat} (job : n.jobs ticket = some (.writing path data inode offset))
    (within : offset + count ≤ data.length) :
    n.Grows blake3Hash (n.advanced ticket path data inode offset count) := by
  obtain ⟨named, there, -⟩ := sound.right _ _ job
  have length : ((data.drop offset).take count).length = count := by simp; omega
  refine ⟨fun _ => id, fun _ _ => id, fun hash has => ?_⟩
  obtain ⟨content, inode', right, there', bytes⟩ := has
  have still {k ticket' offset' : Nat}
      (writes : n.jobs ticket' = some (.writing (chunkPath hash) content inode' offset'))
      (begun : offset' ≤ k) (inside : k < content.length) (elsewhere : ticket' ≠ ticket) :
      (n.advanced ticket path data inode offset count).Pending (chunkPath hash) content inode' k :=
    ⟨ticket', offset', (Function.update_of_ne elsewhere _ _).trans writes, begun, inside⟩
  refine ⟨content, inode', right, there', fun k => ?_⟩
  by_cases own : chunkPath hash = path
  · -- The data that are written are those of the chunk.
    subst own
    obtain rfl : content = data := injective (right.trans (chunkPath_inj named))
    obtain rfl : inode' = inode := Option.some.inj (there'.symm.trans there)
    have now : (n.advanced ticket (chunkPath hash) content inode' offset count).inodes inode' =
        overwrite (n.inodes inode') offset ((content.drop offset).take count) :=
      Function.update_self _ _ _
    rw [now]
    rcases Nat.lt_or_ge k offset with front | begun
    · -- In front of the offset, what is there stays, and so do the other writers.
      rcases bytes k with same | ⟨ticket', offset', writes, begun, inside⟩
      · have inside : k < content.length := by omega
        rw [List.getElem?_eq_getElem inside] at same ⊢
        obtain ⟨short, -⟩ := List.getElem?_eq_some_iff.mp same
        rw [getElem?_overwrite_front front short]
        exact .inl same
      · refine .inr (still writes begun inside ?_)
        rintro rfl
        rw [job] at writes
        cases writes
        omega
    · rcases Nat.lt_or_ge k (offset + count) with among | behind
      · -- Here the data are written now.
        left
        rw [getElem?_overwrite_within begun (by omega), List.getElem?_take_of_lt (by omega),
          List.getElem?_drop, Nat.add_sub_cancel' begun]
      · rcases Nat.lt_or_ge k content.length with inside | beyond
        · exact .inr ⟨ticket, offset + count, Function.update_self _ _ _, behind, inside⟩
        · left
          rw [getElem?_overwrite_behind (by omega)]
          exact (bytes k).resolve_right fun ⟨_, _, _, _, inside⟩ => absurd inside (by omega)
  · -- Another file is left alone.
    have apart : inode' ≠ inode := by
      rintro rfl
      exact own (sound.apart _ _ _ there' there)
    have same : (n.advanced ticket path data inode offset count).inodes inode' = n.inodes inode' :=
      Function.update_of_ne apart _ _
    rw [same]
    refine (bytes k).imp_right fun ⟨ticket', offset', writes, begun, inside⟩ => ?_
    refine still writes begun inside ?_
    rintro rfl
    rw [job] at writes
    cases writes
    exact own rfl

/-- What is read is what the chunk should be, since nobody writes the file in the meantime. -/
theorem content_of_reading (sound : n.Sound blake3Hash) (injective : Function.Injective blake3Hash)
    {taken : Bytes} (job : n.jobs ticket = some (.reading path inode taken)) :
    path = chunkPath (blake3Hash (n.inodes inode)) ∧ blake3Hash (n.inodes inode) ∈ n.index ∧
      n.names path = some inode ∧ taken <+: n.inodes inode := by
  -- A job that is reading rules out those that write.
  obtain ⟨data, listed, rfl, there, front⟩ := sound.right _ _ job
  obtain ⟨inode', there', right⟩ := (sound.listed _ listed).content fun ticket' other writes =>
    sound.alone _ _ _ _ _ job writes rfl
  obtain rfl : inode' = inode := Option.some.inj (there'.symm.trans there)
  obtain rfl : n.inodes inode' = data := injective right
  exact ⟨rfl, listed, there, front⟩

/-- A file that is opened under a name has no other name. -/
theorem apart_opened (sound : n.Sound blake3Hash)
    (found : n.names path = some inode ∨ n.names path = none ∧ n.Unused inode)
    (path₁ path₂ : ChunkPath) (inode' : Nat)
    (first : (n.opened ticket path data inode).names path₁ = some inode')
    (second : (n.opened ticket path data inode).names path₂ = some inode') : path₁ = path₂ := by
  -- Either name is the one that is opened, or one that was there.
  change Function.update n.names path (some inode) path₁ = some inode' at first
  change Function.update n.names path (some inode) path₂ = some inode' at second
  rw [Function.update_apply] at first second
  split at first <;> split at second
  · rename_i same₁ same₂
    exact same₁.trans same₂.symm
  · rename_i same₁ _
    cases first
    exact same₁.trans (eq_of_opened sound found second).symm
  · rename_i _ same₂
    cases second
    exact (eq_of_opened sound found first).trans same₂.symm
  · exact sound.apart _ _ _ first second

/-- A step of a job keeps a node sound, and nothing is lost. -/
theorem Sound.works (injective : Function.Injective blake3Hash) (sound : n.Sound blake3Hash)
    (works : n.Works changed) : changed.Sound blake3Hash ∧ n.Grows blake3Hash changed := by
  cases works with
  | openWrite ticket path data inode job found =>
    have grows := grows_opened sound job found
    have named : path = chunkPath (blake3Hash data) := sound.right _ _ job
    have right : Job.Right blake3Hash (n.opened ticket path data inode)
        (.writing path data inode 0) := ⟨named, Function.update_self _ _ _, has_opened named⟩
    exact ⟨sound.step grows rfl (apart_opened sound found) job rfl right (fun _ => False.elim)
      fun _ writes => writes.1, grows⟩
  | write ticket path data inode offset count job positive within =>
    have grows := grows_advanced injective sound job within
    have right : Job.Right blake3Hash (n.advanced ticket path data inode offset count)
        (.writing path data inode offset) := grows.right (sound.right _ _ job)
    refine ⟨sound.step grows rfl sound.apart job rfl right (fun _ => False.elim)
      fun _ writes => ⟨writes.1, ?_⟩, grows⟩
    exact Nat.lt_of_le_of_lt (Nat.le_add_right _ _) writes.2
  | openRead ticket path inode job found =>
    have grows : n.Grows blake3Hash (n.withJob ticket (some (.reading path inode []))) :=
      grows_withJob _ (by simp [job])
    obtain ⟨hash, listed, named⟩ := sound.right _ _ job
    obtain ⟨data, -, right, -⟩ := sound.listed hash listed
    subst right named
    exact ⟨sound.step grows rfl sound.apart job rfl
      ⟨data, listed, rfl, found, List.nil_prefix⟩ (fun _ => id) (fun _ => id), grows⟩
  | read ticket path inode taken count job =>
    have grows : n.Grows blake3Hash (n.withJob ticket (some (.reading path inode
        (taken ++ ((n.inodes inode).drop taken.length).take count)))) :=
      grows_withJob _ (by simp [job])
    obtain ⟨named, listed, there, rest, whole⟩ := content_of_reading sound injective job
    refine ⟨sound.step grows rfl sound.apart job rfl ⟨_, listed, named, there, ?_⟩ (fun _ => id)
      (fun _ => id), grows⟩
    -- The bytes that come next are put behind those that have been read.
    rw [← whole, List.drop_left]
    exact (List.prefix_append_right_inj _).mpr (List.take_prefix _ _)
  | readEnd ticket path inode taken job atEnd =>
    have grows : n.Grows blake3Hash (n.withJob ticket (some (.finished path taken))) :=
      grows_withJob _ (by simp [job])
    obtain ⟨named, listed, there, front⟩ := content_of_reading sound injective job
    refine ⟨sound.step grows rfl sound.apart job rfl ?_ (fun _ => False.elim)
      (fun _ => False.elim), grows⟩
    rw [Job.Right, front.eq_of_length_le atEnd, named]
    rfl

end Node

end

end Tatara.P2p
