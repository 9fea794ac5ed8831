import Tatara.P2p.Disk

/-! A node whose disk does not fail loses no chunk, however its requests and the steps of their jobs
interleave and whatever its peers answer, as long as no file is read while it is written. -/

namespace Tatara.P2p

open Tatara.Rust
open Tatara.Program (Deferred DeferredAnswer Exchange Protocol Follows)

/-- What a request learns from the answers to its calls. -/
inductive Fact where
  | known (hash : String)
  | missed (hash : String)
  | written (hash : String)
  | corrupt (hash : String)
  | failed

/-- A call to the disk fails. -/
def DiskFails : Exchange Answer → Prop
  | ⟨.createDirAll _, .error _⟩ | ⟨.writeChunk _ _, .error _⟩ | ⟨.readChunk _, .error _⟩
  | ⟨.writeManifest _, .error _⟩ => True
  | _ => False

/-- No file is read while it is written nor written while it is read, and the disk does not fail. -/
def Node.Undisturbed (n : Node) : Nat × Exchange (DeferredAnswer Answer) → Prop
  | (_, ⟨.submit (.writeChunk path _), _⟩) =>
    ∀ ticket job, n.jobs ticket = some job → ¬ job.Reads path
  | (_, ⟨.submit (.readChunk path), _⟩) =>
    ∀ ticket job, n.jobs ticket = some job → ¬ job.Writes path
  | (_, ⟨.submit _, _⟩) => True
  | (_, ⟨.await c _, answer⟩) => ¬ DiskFails ⟨c, answer⟩

section

variable (blake3Hash : Bytes → String)

/-- What there is to learn from an answer. -/
def learned : (c : Call) → Answer c → Set Fact
  | .createDirAll _, .error _ | .writeChunk _ _, .error _ | .readChunk _, .error _
  | .writeManifest _, .error _ => {.failed}
  | .writeChunk path _, .ok _ => {.written path.name}
  | .readChunk path, .ok data => {fact | blake3Hash data ≠ path.name ∧ fact = .corrupt path.name}
  | .indexContains hash, true => {.known hash}
  | .indexContains hash, false => {.missed hash}
  | .indexInsert hash, _ => {.known hash}
  | _, _ => ∅

/-- How requests deal with chunks: they write what they have verified and list what they have
written, and they remove only what they have found to be corrupt. -/
def chunkProtocol : Protocol Call Answer (Set Fact) where
  allows
    | _, .writeChunk path data => path = chunkPath (blake3Hash data)
    | facts, .readChunk path => ∃ hash, path = chunkPath hash ∧ .known hash ∈ facts
    | facts, .removeChunk path => .corrupt path.name ∈ facts
    | facts, .indexInsert hash => .written hash ∈ facts
    | facts, .indexRemove hash => .corrupt hash ∈ facts
    | _, _ => True
  next facts c answer := facts ∪ learned blake3Hash c answer

end

section

variable (blake3Hash : Bytes → String)

/-- What has been learned is so, where some chunks are known to be listed to those who come late. -/
def Fact.Holds (kept : Set String) (late : Prop) (n : Node) : Fact → Prop
  | known hash => hash ∈ n.index
  | missed hash => late → hash ∉ kept
  | written hash => n.Has blake3Hash hash
  | corrupt _ | failed => False

/-- What a request has learned, and the call that it awaits. -/
abbrev Stage := Set Fact × Option (Call × Nat)

/-- What holds of the node, and of what the requests at all places have learned. -/
structure Settled (kept : Set String) (late : Nat → Prop) (n : Node) (stage : Nat → Stage) :
    Prop where
  sound : n.Sound blake3Hash
  still : ∀ hash ∈ kept, hash ∈ n.index
  holds : ∀ i, ∀ fact ∈ (stage i).1, fact.Holds blake3Hash kept (late i) n

/-- The requests of a node whose files nobody else changes. The jobs on them go on by themselves,
also where the request that has submitted one is given up. -/
def nodeSystem : System Node Nat (Deferred Call) (DeferredAnswer Answer) Reply where
  starts := fun _ _ task => ∃ request : Request, task = (request.task blake3Hash).deferred
  answers := fun n _ c answer changed => n.Answers c answer changed
  drifts := Node.Works

/-- Something has gone wrong that a request has noticed. -/
def Spoiled (facts : Set Fact) : Prop := .failed ∈ facts ∨ ∃ hash, .corrupt hash ∈ facts

/-- How a reply goes with what its request has learned. -/
def Reply.Explained (facts : Set Fact) : Reply → Prop
  | served hash result => (∃ chunk, result = .ok (some chunk)) ∨ .missed hash ∈ facts
  | retrieved manifest result =>
    (∃ hash ∈ manifest.chunks, .missed hash ∈ facts) ∨
      ∃ chunks : List Chunk, chunks.map (·.hash) = manifest.chunks ∧
        (∀ chunk ∈ chunks, chunk.verify blake3Hash) ∧
        ∀ x, manifest.reassemble blake3Hash chunks = .ok x → result = .ok (some x)
  | stored (.ok manifest) => ∀ hash ∈ manifest.chunks, .known hash ∈ facts
  | put _ | stored (.error _) | fetched _ => True

end

section

variable {blake3Hash : Bytes → String} {kept : Set String} {late : Nat → Prop} {n changed : Node}
  {stage : Nat → Stage}

/-- A node is as sound with other tables that list no more than what is there. -/
theorem Node.Sound.tables (sound : n.Sound blake3Hash)
    (index : ∀ hash ∈ n.index, hash ∈ changed.index) (names : changed.names = n.names)
    (inodes : changed.inodes = n.inodes) (jobs : changed.jobs = n.jobs)
    (listed : ∀ hash ∈ changed.index, n.Has blake3Hash hash) :
    changed.Sound blake3Hash ∧ n.Grows blake3Hash changed := by
  -- The files and the jobs are the same, so that only the index can differ.
  have grows : n.Grows blake3Hash changed :=
    ⟨index, fun _ _ there => names ▸ there, fun _ has => has.of_jobs names inodes
      fun _ _ _ _ _ there => jobs ▸ there⟩
  exact ⟨⟨fun hash among => grows.has hash (listed hash among), names ▸ sound.apart,
    fun ticket job there => grows.right (sound.right ticket job (jobs ▸ there)),
    jobs ▸ sound.alone⟩, grows⟩

/-- What has been learned before is still so where nothing is lost. -/
theorem Fact.Holds.grows {fact : Fact} {come : Prop} (holds : fact.Holds blake3Hash kept come n)
    (grows : n.Grows blake3Hash changed) : fact.Holds blake3Hash kept come changed := by
  -- The node has only more of what a fact may speak of.
  cases fact with
  | known hash => exact grows.index hash holds
  | missed hash => exact holds
  | written hash => exact grows.has hash holds
  | corrupt hash | failed => exact holds

/-- What is learned from one more answer holds as well, where nothing is lost on the way. -/
theorem Settled.learn (settled : Settled blake3Hash kept late n stage) (i : Nat) {next : Stage}
    (sound : changed.Sound blake3Hash) (grows : n.Grows blake3Hash changed)
    (new : ∀ fact ∈ next.1, fact ∈ (stage i).1 ∨ fact.Holds blake3Hash kept (late i) changed) :
    Settled blake3Hash kept late changed (Function.update stage i next) := by
  -- Only one place learns anything; what it knew it knows as before.
  refine ⟨sound, fun hash among => grows.index hash (settled.still hash among),
    fun j fact among => ?_⟩
  by_cases same : j = i
  · subst same
    rw [Function.update_self] at among
    exact (new fact among).elim (fun old => (settled.holds j fact old).grows grows) id
  · rw [Function.update_of_ne same] at among
    exact (settled.holds j fact among).grows grows

/-- An answer that leaves the node alone. -/
theorem Settled.same (settled : Settled blake3Hash kept late n stage) (i : Nat) {next : Stage}
    (new : ∀ fact ∈ next.1, fact ∈ (stage i).1 ∨ fact.Holds blake3Hash kept (late i) n) :
    Settled blake3Hash kept late n (Function.update stage i next) :=
  settled.learn i settled.sound ⟨fun _ => id, fun _ _ => id, fun _ => id⟩ new

/-- A submission keeps what holds, where the file is free. -/
theorem settled_submit {i : Nat} {c : Call} {ticket : Nat} {facts : Set Fact}
    (settled : Settled blake3Hash kept late n stage) (knows : stage i = (facts, none))
    (allowed : (chunkProtocol blake3Hash).allows facts c)
    (answers : n.Answers (.submit c) ticket changed)
    (undisturbed : n.Undisturbed (i, ⟨.submit c, ticket⟩)) :
    Settled blake3Hash kept late changed
      (Function.update stage i (facts, some (c, ticket))) := by
  have old : ∀ fact ∈ facts, fact ∈ (stage i).1 ∨ fact.Holds blake3Hash kept (late i) changed :=
    fun fact among => .inl (by rw [knows]; exact among)
  cases answers with
  | submitWrite path data ticket free =>
    have grows : n.Grows blake3Hash (n.withJob ticket (some (.write path data))) :=
      Node.grows_withJob _ (by simp [free])
    refine settled.learn i ?_ grows old
    refine settled.sound.turn grows rfl settled.sound.apart rfl allowed (fun _ _ _ _ => False.elim)
      fun ticket' other path' there reads => ?_
    -- Nobody reads the file that is to be written.
    rintro rfl
    exact undisturbed ticket' other there reads
  | submitRead path ticket free =>
    obtain ⟨hash, named, known⟩ := allowed
    have grows : n.Grows blake3Hash (n.withJob ticket (some (.read path))) :=
      Node.grows_withJob _ (by simp [free])
    have listed : hash ∈ n.index := settled.holds i (.known hash) (by rw [knows]; exact known)
    refine settled.learn i ?_ grows old
    refine settled.sound.turn grows rfl settled.sound.apart rfl ⟨hash, listed, named⟩
      (fun ticket' other path' there => ?_) fun _ _ _ _ _ => id
    rintro rfl
    exact undisturbed ticket' other there
  | submit c ticket short => exact settled.same i old

/-- A call that is answered from the tables and the network keeps what holds. -/
theorem settled_other {i : Nat} {c : Call} {answer : Answer c} {facts : Set Fact} {store : Store}
    (settled : Settled blake3Hash kept late n stage) (knows : (stage i).1 = facts)
    (allowed : (chunkProtocol blake3Hash).allows facts c) (short : ¬ c.Lasts)
    (keeps : ∀ path, c ≠ .removeChunk path) (answers : n.store.Answers c answer store)
    (works : ¬ DiskFails ⟨c, answer⟩) :
    Settled blake3Hash kept late { n with index := store.index, manifests := store.manifests }
      (Function.update stage i ((chunkProtocol blake3Hash).next facts c answer, none)) := by
  -- Of these calls, only two have to do with chunks.
  subst knows
  have nothing {m : Node} : ∀ fact ∈ (stage i).1 ∪ ∅,
      fact ∈ (stage i).1 ∨ fact.Holds blake3Hash kept (late i) m :=
    fun fact among => .inl (among.resolve_right id)
  cases answers with
  | written | notWritten | read | notRead => exact absurd trivial short
  | removed path | notRemoved path => exact absurd rfl (keeps path)
  | createDirAll shard result =>
    cases result with
    | ok done => exact settled.same i nothing
    | error e => exact absurd trivial works
  | writeManifest manifest result =>
    cases result with
    | ok done => exact settled.same i nothing
    | error e => exact absurd trivial works
  | contains hash =>
    refine settled.same i fun fact among => among.imp_right fun new => ?_
    by_cases there : hash ∈ n.index
    · simp only [Node.store, there, decide_true] at new
      obtain rfl : fact = .known hash := new
      exact there
    · simp only [Node.store, there, decide_false] at new
      obtain rfl : fact = .missed hash := new
      exact fun _ among => there (settled.still hash among)
  | inserted hash =>
    -- What has been written may be listed.
    have there : n.Has blake3Hash hash := settled.holds i _ allowed
    let listed : Node := { n with index := insert hash n.index }
    have every : ∀ other ∈ listed.index, n.Has blake3Hash other := fun other among => by
      rcases Finset.mem_insert.mp among with rfl | before
      · exact there
      · exact settled.sound.listed other before
    obtain ⟨sound, grows⟩ : listed.Sound blake3Hash ∧ n.Grows blake3Hash listed :=
      settled.sound.tables (fun _ => Finset.mem_insert_of_mem) rfl rfl rfl every
    refine settled.learn i sound grows fun fact among => among.imp_right fun new => ?_
    obtain rfl : fact = .known hash := new
    exact Finset.mem_insert_self hash _
  | erased hash => exact (settled.holds i _ allowed).elim
  | insertManifest manifest =>
    let entered : Node :=
      { n with manifests := n.manifests.insert manifest.rootHash manifest }
    obtain ⟨sound, grows⟩ : entered.Sound blake3Hash ∧ n.Grows blake3Hash entered :=
      settled.sound.tables (fun _ => id) rfl rfl rfl settled.sound.listed
    exact settled.learn i sound grows nothing
  | findChunkHolders | httpGet => exact settled.same i nothing

/-- An answer that a request may await keeps what holds, unless the disk fails. -/
theorem settled_await {i : Nat} {c : Call} {ticket : Nat} {answer : Answer c} {facts : Set Fact}
    (settled : Settled blake3Hash kept late n stage) (knows : (stage i).1 = facts)
    (allowed : (chunkProtocol blake3Hash).allows facts c)
    (answers : n.Answers (.await c ticket) answer changed) (works : ¬ DiskFails ⟨c, answer⟩) :
    Settled blake3Hash kept late changed
      (Function.update stage i ((chunkProtocol blake3Hash).next facts c answer, none)) := by
  cases answers with
  | written path data inode ticket ended =>
    -- The file has been open, and so it has the content or is about to get it.
    obtain ⟨named, -, has⟩ := settled.sound.right _ _ ended
    subst knows
    refine settled.same i fun fact among => among.imp_right fun new => ?_
    obtain rfl : fact = .written path.name := new
    rw [named]
    exact has
  | notWritten | notRead => exact absurd trivial works
  | read path bytes ticket ended =>
    have right : blake3Hash bytes = path.name := settled.sound.right _ _ ended
    subst knows
    exact settled.same i fun fact among => among.imp_right fun new => absurd right new.1
  | removed | notRemoved =>
    subst knows
    exact (settled.holds i _ allowed).elim
  | other c ticket answer store short keeps answers =>
    exact settled_other settled knows allowed short keeps answers works

/-- Every call that a request may make keeps what holds, where it disturbs no other one. -/
theorem settled_call {i : Nat} {c : Deferred Call} {answer : DeferredAnswer Answer c}
    (settled : Settled blake3Hash kept late n stage)
    (allowed : (chunkProtocol blake3Hash).deferred.allows (stage i) c)
    (answers : n.Answers c answer changed) (undisturbed : n.Undisturbed (i, ⟨c, answer⟩)) :
    Settled blake3Hash kept late changed (Function.update stage i
      ((chunkProtocol blake3Hash).deferred.next (stage i) c answer)) := by
  -- A place submits a call or awaits the one that it has submitted.
  obtain ⟨facts, awaited, knows⟩ : ∃ facts awaited, stage i = (facts, awaited) := ⟨_, _, rfl⟩
  rw [knows] at allowed ⊢
  cases c with
  | submit c =>
    cases awaited with
    | none => exact settled_submit settled knows allowed answers undisturbed
    | some awaited => exact allowed.elim
  | await c ticket =>
    cases awaited with
    | none => exact allowed.elim
    | some awaited =>
      exact settled_await settled (congrArg Prod.fst knows) allowed.2 answers undisturbed

end

section

variable {blake3Hash : Bytes → String} {kept : Set String} {late : Nat → Prop}
  {n changed : Node} {stage : Nat → Stage}

/-- What a request has learned it does not forget. -/
theorem follows_grows {α : Type} {ends : Set Fact → α → Prop} {x : Task α} {known start : Set Fact}
    (grown : known ⊆ start) (follows : Follows (chunkProtocol blake3Hash) ends x start) :
    Follows (chunkProtocol blake3Hash) (fun last a => known ⊆ last ∧ ends last a) x start := by
  -- By induction on the program: each answer adds to what is known.
  induction x generalizing start with
  | done a => exact ⟨grown, follows⟩
  | ask c next ih =>
    exact ⟨follows.1,
      fun answer => ih answer (grown.trans Set.subset_union_left) (follows.2 answer)⟩

/-- A chunk is listed once it has been written, and only if it is what it should be. -/
theorem putChunk_follows (chunk : Chunk) (known : Set Fact) :
    Follows (chunkProtocol blake3Hash)
      (fun last result => result = .ok () → .known chunk.hash ∈ last)
      (putChunk blake3Hash chunk).run known := by
  -- A chunk that does not verify is turned down before anything is called.
  by_cases verified : chunk.verify blake3Hash
  · have hash : blake3Hash chunk.data = chunk.hash := by simpa [Chunk.verify] using verified
    simp only [putChunk, verified, Bool.not_true, Bool.false_eq_true, if_false]
    refine ⟨trivial, fun created => ?_⟩
    cases created with
    | error e => exact fun stored => by cases stored
    | ok _ =>
      refine ⟨congrArg chunkPath hash.symm, fun wrote => ?_⟩
      cases wrote with
      | error e => exact fun stored => by cases stored
      | ok _ => exact ⟨.inr rfl, fun _ _ => .inr rfl⟩
  · simp only [putChunk, verified, Bool.not_false, if_true]
    exact fun stored => by cases stored

/-- What is served is what was asked for; else the chunk is not listed, or something is wrong. -/
theorem getChunk_follows (hash : String) (known : Set Fact) :
    Follows (chunkProtocol blake3Hash) (fun last result => Spoiled last ∨
        match result with
        | .ok (some chunk) => chunk.hash = hash ∧ chunk.verify blake3Hash
        | .ok none => .missed hash ∈ last
        | .error _ => False)
      (getChunk blake3Hash hash).run known := by
  refine ⟨trivial, fun there => ?_⟩
  -- The index is asked first, and the file is read only of what is listed.
  cases there with
  | false => exact .inr (.inr rfl)
  | true =>
    refine ⟨⟨hash, rfl, .inr rfl⟩, fun read => ?_⟩
    cases read with
    | error e => exact .inl (.inl (.inr rfl))
    | ok data =>
      change Follows _ _ (ite ((!Chunk.verify blake3Hash ⟨hash, data, 0⟩) = true) _ _ : Task _) _
      by_cases right : blake3Hash data = hash
      · rw [if_neg (by simpa [Chunk.verify] using right)]
        exact .inr ⟨rfl, by simpa [Chunk.verify] using right⟩
      · have noticed : Fact.corrupt hash ∈
            learned blake3Hash (.readChunk (chunkPath hash)) (.ok data) := ⟨right, rfl⟩
        rw [if_pos (by simpa [Chunk.verify] using right)]
        -- What is corrupt is removed, whether or not its file can be.
        refine ⟨.inr noticed, fun removed => ⟨.inl (.inr noticed), fun _ => ?_⟩⟩
        exact .inl (.inr ⟨hash, .inl (.inl (.inr noticed))⟩)

/-- What has gone wrong stays known. -/
theorem Spoiled.mono {known last : Set Fact} (grown : known ⊆ last) (spoiled : Spoiled known) :
    Spoiled last :=
  -- Both kinds of trouble are facts that have been learned.
  spoiled.imp (fun failed => grown failed) fun ⟨hash, corrupt⟩ => ⟨hash, grown corrupt⟩

/-- The chunks of a list come all of them, in their order, or one of them is not listed. -/
theorem getChunks_follows (hashes : List String) (known : Set Fact) :
    Follows (chunkProtocol blake3Hash) (fun last result => Spoiled last ∨
        match result with
        | .ok (some chunks) =>
          chunks.map (·.hash) = hashes ∧ ∀ chunk ∈ chunks, chunk.verify blake3Hash
        | .ok none => ∃ hash ∈ hashes, .missed hash ∈ last
        | .error _ => False)
      (getChunks blake3Hash hashes).run known := by
  induction hashes generalizing known with
  | nil => exact .inr ⟨rfl, by simp⟩
  | cons hash hashes ih =>
    refine (getChunk_follows hash known).tryBind (fun _ _ => .imp_right False.elim) ?_
    rintro first (_ | chunk) one
    · exact one.imp_right fun missed => ⟨hash, List.mem_cons_self, missed⟩
    · -- What was wrong with the first chunk is still wrong at the end.
      refine (follows_grows le_rfl (ih first)).tryBind
        (fun last e rest => rest.2.imp_right False.elim) ?_
      rintro last (_ | chunks) ⟨grown, rest⟩
      · refine rest.imp_right fun ⟨other, among, missed⟩ => ?_
        exact ⟨other, List.mem_cons_of_mem hash among, missed⟩
      · rcases one with spoiled | ⟨same, verified⟩
        · exact .inl (spoiled.mono grown)
        · refine rest.imp_right fun ⟨hashes, all⟩ => ?_
          exact ⟨congrArg₂ _ same hashes, List.forall_mem_cons.mpr ⟨verified, all⟩⟩

/-- Every chunk of a list is listed in the end, if all of them can be put. -/
theorem forM_putChunk_follows (chunks : List Chunk) (known : Set Fact) :
    Follows (chunkProtocol blake3Hash)
      (fun last result => result = .ok () → ∀ chunk ∈ chunks, .known chunk.hash ∈ last)
      (chunks.forM (putChunk blake3Hash)).run known := by
  -- By induction on the chunks: what the first one has listed stays known.
  induction chunks generalizing known with
  | nil => exact fun _ => by simp
  | cons chunk chunks ih =>
    refine (putChunk_follows chunk known).tryBind (fun _ _ _ => nofun) fun first _ listed => ?_
    refine (follows_grows le_rfl (ih first)).mono fun last result rest stored => ?_
    exact List.forall_mem_cons.mpr ⟨rest.1 (listed rfl), rest.2 stored⟩

/-- A manifest that is stored has all of its chunks listed. -/
theorem storeData_follows (data : Bytes) (contentType label : String) (known : Set Fact) :
    Follows (chunkProtocol blake3Hash)
      (fun last result => ∀ manifest, result = .ok manifest →
        ∀ hash ∈ manifest.chunks, .known hash ∈ last)
      (storeData blake3Hash data contentType label).run known := by
  refine (forM_putChunk_follows _ known).tryBind (fun _ _ _ => nofun) fun first _ listed => ?_
  have all : ∀ hash ∈ (ChunkManifest.fromData blake3Hash data contentType label).1.chunks,
      .known hash ∈ first := by
    intro hash among
    obtain ⟨chunk, member, rfl⟩ := List.mem_map.mp among
    exact listed rfl chunk member
  -- The manifest is written and entered behind that.
  refine ⟨trivial, fun wrote => ?_⟩
  cases wrote with
  | error e => exact nofun
  | ok _ =>
    refine ⟨trivial, fun _ manifest same hash among => ?_⟩
    cases same
    exact .inl (.inl (all hash among))

/-- The holders of a chunk are tried one by one, and only a chunk that verifies is put. -/
theorem tryHolders_follows (hash : String) (count : Nat) (holders : List String)
    (known : Set Fact) :
    Follows (chunkProtocol blake3Hash) (fun _ _ => True)
      (tryHolders blake3Hash hash count holders).run known := by
  -- By induction on the holders that are left.
  induction holders generalizing known with
  | nil => trivial
  | cons holder holders ih =>
    refine ⟨trivial, fun answer => ?_⟩
    cases answer with
    | error e => exact ih _
    | ok response =>
      change Follows _ _ (ite (response.success = true) _ _ : Task _) _
      split
      · obtain ⟨success, _ | data⟩ := response
        · trivial
        · change Follows _ _ (ite (Chunk.verify blake3Hash ⟨hash, data, data.length⟩ = true) _ _ :
            Task _) _
          split
          · exact (putChunk_follows _ _).mono fun _ _ _ => trivial
          · exact ih _
      · exact ih _

/-- What is retrieved has been put together from chunks that verify, if they are all listed. -/
theorem retrieveData_follows (manifest : ChunkManifest) (known : Set Fact) :
    Follows (chunkProtocol blake3Hash) (fun last result => Spoiled last ∨
        (Reply.retrieved manifest result).Explained blake3Hash last)
      (retrieveData blake3Hash manifest).run known := by
  -- The chunks come first, and the manifest says how they go together.
  refine (getChunks_follows manifest.chunks known).tryBind (fun _ _ => .imp_right False.elim) ?_
  rintro last (_ | chunks) ended
  · exact ended.imp_right .inl
  · cases reassembled : manifest.reassemble blake3Hash chunks with
    | error e =>
      simp only [reassembled]
      refine ended.imp_right fun ⟨hashes, verified⟩ => .inr ⟨chunks, hashes, verified, ?_⟩
      rw [reassembled]
      exact nofun
    | ok data =>
      simp only [reassembled]
      refine ended.imp_right fun ⟨hashes, verified⟩ => .inr ⟨chunks, hashes, verified, ?_⟩
      rw [reassembled]
      rintro x ⟨⟩
      rfl

/-- A chunk is fetched from its holders, if there are any. -/
theorem fetchChunk_follows (hash : String) (known : Set Fact) :
    Follows (chunkProtocol blake3Hash) (fun _ _ => True)
      (fetchChunkFromPeers blake3Hash hash).run known := by
  -- Without holders there is nothing to do.
  refine ⟨trivial, fun holders => ?_⟩
  cases holders with
  | nil => trivial
  | cons holder holders => exact tryHolders_follows hash _ (holder :: holders) _

/-- Every request keeps to the protocol, and its reply goes with what it has learned. -/
theorem request_follows (request : Request) (known : Set Fact) :
    Follows (chunkProtocol blake3Hash)
      (fun last reply => Spoiled last ∨ reply.Explained blake3Hash last)
      (request.task blake3Hash) known := by
  -- Each request has its own handler.
  cases request with
  | putChunk chunk => exact (putChunk_follows chunk known).bind fun _ _ _ => .inr trivial
  | storeData data contentType label =>
    refine (storeData_follows data contentType label known).bind fun last result listed => .inr ?_
    cases result with
    | error e => trivial
    | ok manifest => exact listed manifest rfl
  | getChunk hash =>
    refine (getChunk_follows hash known).bind fun last result ended => ?_
    refine ended.imp_right fun found => ?_
    rcases result with _ | _ | chunk
    · cases found
    · exact .inr found
    · exact .inl ⟨chunk, rfl⟩
  | retrieveData manifest => exact (retrieveData_follows manifest known).bind fun _ _ ended => ended
  | fetchChunk hash => exact (fetchChunk_follows hash known).bind fun _ _ _ => .inr trivial


/-- A place whose request is over knows nothing. -/
theorem Settled.forget (settled : Settled blake3Hash kept late n stage) (i : Nat) :
    Settled blake3Hash kept late n (Function.update stage i (∅, none)) :=
  settled.same i fun _ among => among.elim

/-- What holds is kept by every step of a node whose disk does not fail, where no call disturbs
another one. -/
theorem stable_settled (injective : Function.Injective blake3Hash) :
    System.Stable (nodeSystem blake3Hash) (chunkProtocol blake3Hash).deferred (∅, none) (∅, none)
      Node.Undisturbed (Settled blake3Hash kept late) where
  starts n stage i x settled starts := by
    obtain ⟨request, rfl⟩ := starts
    exact ⟨(request_follows request ∅).deferred.mono fun _ _ _ => trivial, settled.forget i⟩
  leaves n stage i settled := settled.forget i
  drifts n stage changed settled works := by
    -- A job that gets on takes nothing away of what is known.
    obtain ⟨sound, grows⟩ := settled.sound.works injective works
    have same : Settled blake3Hash kept late changed (Function.update stage 0 (stage 0)) :=
      settled.learn 0 sound grows fun _ => .inl
    rwa [Function.update_eq_self] at same
  calls n stage i c answer changed settled allowed answers undisturbed :=
    settled_call settled allowed answers undisturbed

/-- How the reply of a request goes with the stage at which it ends. -/
def Ends (blake3Hash : Bytes → String) (last : Stage) (reply : Reply) : Prop :=
  Spoiled last.1 ∨ reply.Explained blake3Hash last.1

/-- Every request that starts goes on to a reply that goes with what it has learned. -/
theorem starts_follows (n : Node) (i : Nat)
    (x : Program (Deferred Call) (DeferredAnswer Answer) Reply)
    (begins : (nodeSystem blake3Hash).starts n i x) :
    Follows (chunkProtocol blake3Hash).deferred (Ends blake3Hash) x (∅, none) := by
  -- It is the program of a request, with its calls in two steps.
  obtain ⟨request, rfl⟩ := begins
  exact (request_follows request ∅).deferred

/-- A node with the requests that it is answering. -/
abbrev NodeWorld := World Node Nat (Deferred Call) (DeferredAnswer Answer) Reply

/-- The requests under way go on to replies that go with what they have learned. -/
abbrev Explains (blake3Hash : Bytes → String) (kept : Set String) (late : Nat → Prop)
    (w : NodeWorld) (stage : Nat → Stage) : Prop :=
  System.Ending (chunkProtocol blake3Hash).deferred (Ends blake3Hash)
    (Settled blake3Hash kept late) w stage

/-- What is listed by now is known to the requests that are still to come. -/
theorem Explains.anew {w : NodeWorld} (explains : Explains blake3Hash kept late w stage) :
    ∃ anew, Explains blake3Hash {hash | hash ∈ w.store.index} (fun i => w.running i = none) w
      anew := by
  classical
  refine ⟨fun i => if w.running i = none then (∅, none) else stage i,
    ⟨explains.1.sound, fun _ => id, fun i fact among => ?_⟩, fun i x busy => ?_⟩
  -- A place that is free knows nothing yet, and the others keep what they know.
  · by_cases free : w.running i = none
    · simp only [if_pos free] at among
      exact among.elim
    · simp only [if_neg free] at among
      have holds := explains.1.holds i fact among
      cases fact with
      | missed hash => exact fun come => absurd come free
      | known | written | corrupt | failed => exact holds
  · have running : w.running i ≠ none := fun free => by cases free.symm.trans busy
    simp only [if_neg running]
    exact explains.2 i x busy

/-- Chunks with the hashes of some data and with the right content are those of the data. -/
theorem reassemble_of_hashes (injective : Function.Injective blake3Hash) {data : Bytes}
    {contentType label : String} {chunks : List Chunk}
    (hashes : chunks.map (·.hash) =
      (ChunkManifest.fromData blake3Hash data contentType label).1.chunks)
    (verified : ∀ chunk ∈ chunks, chunk.verify blake3Hash) :
    (ChunkManifest.fromData blake3Hash data contentType label).1.reassemble blake3Hash chunks =
      .ok data := by
  -- Equal hashes stand for equal contents, slice by slice.
  have contents : (chunks.map (·.data)).map blake3Hash =
      (slices defaultChunkSize data).map blake3Hash := by
    have own : chunks.map (blake3Hash ·.data) = chunks.map (·.hash) :=
      List.map_congr_left fun chunk among => by simpa [Chunk.verify] using verified chunk among
    rw [List.map_map]
    exact own.trans (hashes.trans (by simp [ChunkManifest.fromData, Chunk.new]))
  rw [ChunkManifest.reassemble_eq_ok_iff, List.map_injective_iff.mpr injective contents,
    flatten_slices (by decide) data]
  exact ⟨hashes, verified, rfl, rfl⟩

/-- A node at rest is sound. -/
theorem Node.Resting.sound (resting : n.Resting blake3Hash) : n.Sound blake3Hash where
  -- A file that is at rest is right as it stands.
  listed hash among := by
    obtain ⟨data, there, right⟩ := resting.listed hash among
    obtain ⟨inode, named, rfl⟩ := Option.map_eq_some_iff.mp there
    exact ⟨_, inode, right, named, fun _ => .inl rfl⟩
  apart := resting.apart
  -- There are no jobs that could be wrong or in each other's way.
  right ticket job there := by
    rw [resting.idle] at there
    cases there
  alone ticket _ job _ _ there := by
    rw [resting.idle] at there
    cases there

/-- On a disk that does not fail a chunk that is listed is served to every request from then on, and
what has been stored comes back as it was, however the requests and the steps of their jobs
interleave and whatever the peers answer, as long as no file is read while it is written or written
while it is read. -/
theorem served_once_listed (injective : Function.Injective blake3Hash) {w v u : NodeWorld}
    {calls more : List (Nat × Exchange (DeferredAnswer Answer))}
    (resting : w.store.Resting blake3Hash) (idle : ∀ i, w.running i = none)
    (before : System.Run (nodeSystem blake3Hash) (·.store.Undisturbed) w calls v)
    (after : System.Run (nodeSystem blake3Hash) (·.store.Undisturbed) v more u) :
    (∀ hash ∈ u.store.index, u.store.Has blake3Hash hash) ∧ v.store.index ⊆ u.store.index ∧
      (∀ i manifest, u.running i = some (.done (.stored (.ok manifest))) →
        ∀ hash ∈ manifest.chunks, hash ∈ u.store.index) ∧
      ∀ i, v.running i = none →
        (∀ hash ∈ v.store.index, ∀ result, u.running i = some (.done (.served hash result)) →
          ∃ chunk, result = .ok (some chunk)) ∧
        ∀ data contentType label result,
          let manifest := (ChunkManifest.fromData blake3Hash data contentType label).1
          (∀ hash ∈ manifest.chunks, hash ∈ v.store.index) →
            u.running i = some (.done (.retrieved manifest result)) → result = .ok (some data) := by
  -- In the beginning nothing is known, and nothing has to be listed.
  have start : Explains blake3Hash ∅ (fun _ => False) w fun _ => (∅, none) := by
    refine ⟨⟨resting.sound, fun _ => False.elim, fun _ _ => False.elim⟩, fun i x busy => ?_⟩
    rw [idle i] at busy
    cases busy
  obtain ⟨stage, middle⟩ := (stable_settled injective).results starts_follows before start
  obtain ⟨anew, again⟩ := Explains.anew middle
  obtain ⟨last, settled, ended⟩ := (stable_settled injective).results starts_follows after again
  -- A disk that does not fail spoils nothing.
  have clean (i : Nat) : ¬ Spoiled (last i).1 := by
    rintro (failed | ⟨hash, corrupt⟩)
    · exact settled.holds i _ failed
    · exact settled.holds i _ corrupt
  have explained (i : Nat) (reply : Reply) (done : u.running i = some (.done reply)) :
      reply.Explained blake3Hash (last i).1 := (ended i _ done).resolve_left (clean i)
  refine ⟨settled.sound.listed, ?_, fun i manifest done hash among => ?_, fun i free => ⟨?_, ?_⟩⟩
  · exact settled.still
  · exact settled.holds i _ (explained i _ done hash among)
  · intro hash among result done
    refine (explained i _ done).resolve_right fun missed => ?_
    exact settled.holds i _ missed free among
  · intro data contentType label result manifest stored done
    rcases explained i _ done with ⟨hash, among, missed⟩ | ⟨chunks, hashes, verified, right⟩
    · exact absurd (stored hash among) (settled.holds i _ missed free)
    · exact right data (reassemble_of_hashes injective hashes verified)

end

/-- A node that is answering one request, with what is left of it. -/
def Node.during (n : Node) (left : Program (Deferred Call) (DeferredAnswer Answer) Reply) :
    NodeWorld :=
  ⟨n, Function.update (fun _ => none) 0 (some left)⟩

section

variable {w : NodeWorld} {calls : List (Nat × Exchange (DeferredAnswer Answer))} {n changed : Node}

/-- The only request goes on with an answer. -/
theorem Node.during_call {may : Node → Nat × Exchange (DeferredAnswer Answer) → Prop}
    {c : Deferred Call} {answer : DeferredAnswer Answer c}
    {next : DeferredAnswer Answer c → Program (Deferred Call) (DeferredAnswer Answer) Reply}
    (run : System.Run (nodeSystem sampleHash) (may ·.store) w calls (n.during (.ask c next)))
    (answers : n.Answers c answer changed) (allowed : may n (0, ⟨c, answer⟩)) :
    System.Run (nodeSystem sampleHash) (may ·.store) w (calls ++ [(0, ⟨c, answer⟩)])
      (changed.during (next answer)) := by
  -- The program and what is left of it are at the same place.
  have step : System.Step (nodeSystem sampleHash) (n.during (.ask c next)) (some (0, ⟨c, answer⟩))
      ⟨changed, Function.update (n.during (.ask c next)).running 0 (some (next answer))⟩ :=
    .call rfl answers
  have same : Function.update (n.during (.ask c next)).running 0 (some (next answer)) =
      (changed.during (next answer)).running := Function.update_idem _ _ _
  rw [same] at step
  exact run.call step allowed

/-- A request starts on a node that answers none. -/
theorem Node.during_start {may : NodeWorld → Nat × Exchange (DeferredAnswer Answer) → Prop}
    (run : System.Run (nodeSystem sampleHash) may w calls ⟨n, fun _ => none⟩) (request : Request) :
    System.Run (nodeSystem sampleHash) may w calls
      (n.during (request.task sampleHash).deferred) :=
  -- The place is free.
  run.silent (.start rfl ⟨request, rfl⟩)

/-- The only request leaves. -/
theorem Node.during_leave {may : NodeWorld → Nat × Exchange (DeferredAnswer Answer) → Prop}
    {left : Program (Deferred Call) (DeferredAnswer Answer) Reply}
    (run : System.Run (nodeSystem sampleHash) may w calls (n.during left)) :
    System.Run (nodeSystem sampleHash) may w calls ⟨n, fun _ => none⟩ := by
  -- Behind the request the place is free again.
  have step : System.Step (nodeSystem sampleHash) (n.during left) none
      ⟨n, Function.update (n.during left).running 0 none⟩ := .leave rfl
  have idle : Function.update (n.during left).running 0 none = fun _ => none := by
    rw [during, Function.update_idem, Function.update_eq_self_iff]
  rw [idle] at step
  exact run.silent step

/-- A job goes on while the only request waits. -/
theorem Node.during_works {may : NodeWorld → Nat × Exchange (DeferredAnswer Answer) → Prop}
    {left : Program (Deferred Call) (DeferredAnswer Answer) Reply}
    (run : System.Run (nodeSystem sampleHash) may w calls (n.during left))
    (works : n.Works changed) :
    System.Run (nodeSystem sampleHash) may w calls (changed.during left) :=
  -- A job needs no place.
  run.silent (.drift works)

end

/-- A node without chunks. -/
def emptyNode : Node := ⟨∅, ∅, fun _ => none, fun _ => [], fun _ => none⟩

/-- On an empty node there is nothing that could be wrong. -/
theorem resting_emptyNode : emptyNode.Resting sampleHash :=
  ⟨fun _ => rfl, nofun, fun hash among => absurd among (Finset.notMem_empty hash)⟩

/-- Where the text "b" is. -/
def pathB : ChunkPath := chunkPath "xb"

/-- The node once the text has been written. -/
def writtenB : Node :=
  ((emptyNode.withJob 0 (some (.write pathB [98]))).opened 0 pathB [98] 0).advanced 0 pathB [98] 0 0
    1

/-- The node once the text is listed. -/
def listedB : Node := { writtenB with index := {"xb"} }

/-- A chunk is put into the cache of an empty node, and comes back to a request for it. -/
theorem served_once_listed_b : ∃ calls v more u chunk,
    System.Run (nodeSystem sampleHash) (·.store.Undisturbed) ⟨emptyNode, fun _ => none⟩ calls v ∧
      System.Run (nodeSystem sampleHash) (·.store.Undisturbed) v more u ∧
      "xb" ∈ v.store.index ∧ u.running 0 = some (.done (.served "xb" (.ok (some chunk)))) ∧
      u.store.Has sampleHash "xb" := by
  have start : System.Run (nodeSystem sampleHash) (·.store.Undisturbed)
      ⟨emptyNode, fun _ => none⟩ [] _ :=
    Node.during_start .refl (.putChunk ⟨"xb", [98], 1⟩)
  -- The chunk is written, in a directory that is there already.
  have created := Node.during_call (Node.during_call start
    (.submit emptyNode (.createDirAll "xb") 0 id) trivial)
    (.other _ (.createDirAll "xb") 0 (Except.ok ()) _ id (fun _ same => by cases same)
      (.createDirAll _ "xb" (.ok ()))) id
  have submitted := Node.during_call created
    (.submitWrite emptyNode pathB [98] 0 rfl) fun _ _ there => by cases there
  have unused : (emptyNode.withJob 0 (some (.write pathB [98]))).Unused 0 := by
    refine ⟨nofun, fun ticket job there => ?_⟩
    simp only [Node.withJob, Function.update_apply] at there
    -- The only job has not opened anything yet.
    split at there <;> cases there
    exact nofun
  have opened := Node.during_works submitted (.openWrite _ 0 pathB [98] 0 rfl (.inr ⟨rfl, unused⟩))
  have written := Node.during_works opened
    (.write _ 0 pathB [98] 0 0 1 rfl (by decide) (by decide))
  have answered := Node.during_call written (.written writtenB pathB [98] 0 0 rfl) id
  have listed := Node.during_call (Node.during_call answered
    (.submit writtenB (.indexInsert "xb") 0 id) trivial)
    (.other writtenB (.indexInsert "xb") 0 () { writtenB.store with index := {"xb"} } id
      (fun _ same => by cases same) (.inserted writtenB.store "xb")) id
  have stored := Node.during_leave listed
  -- Behind that it is read, and found to be what it should be.
  have again : System.Run (nodeSystem sampleHash) (·.store.Undisturbed)
      ⟨listedB, fun _ => none⟩ [] _ := Node.during_start .refl (.getChunk "xb")
  have asked := Node.during_call (Node.during_call again
    (.submit listedB (.indexContains "xb") 0 id) trivial)
    (.other listedB (.indexContains "xb") 0 true listedB.store id (fun _ same => by cases same)
      (.contains listedB.store "xb")) id
  have quiet : listedB.Undisturbed (0, ⟨.submit (.readChunk pathB), 1⟩) := by
    intro ticket job there
    by_cases first : ticket = 0
    · -- All of the data have been written.
      subst first
      cases there
      exact fun writes => absurd writes.2 (by decide)
    · simp [listedB, writtenB, Node.advanced, Node.opened, Node.withJob, Node.withInode,
        Node.withName, emptyNode, first] at there
  have submitted := Node.during_call asked (.submitRead listedB pathB 1 rfl) quiet
  have opened := Node.during_works submitted (.openRead _ 1 pathB 0 rfl rfl)
  have taken := Node.during_works opened (.read _ 1 pathB 0 [] 1 rfl)
  have ended := Node.during_works taken (.readEnd _ 1 pathB 0 _ rfl (by decide))
  have served := Node.during_call ended (.read _ pathB [98] 1 rfl) id
  have every :=
    served_once_listed injective_sampleHash resting_emptyNode (fun _ => rfl) stored served
  have among : "xb" ∈ listedB.index := Finset.mem_singleton_self _
  obtain ⟨chunk, right⟩ := (every.2.2.2 0 rfl).1 "xb" among _ rfl
  exact ⟨_, _, _, _, chunk, stored, served, among, by rw [← right]; rfl,
    every.1 "xb" (every.2.1 among)⟩

/-- Only the disk does not fail. -/
def Node.Unfailing (_ : Node) : Nat × Exchange (DeferredAnswer Answer) → Prop
  | (_, ⟨.await c _, answer⟩) => ¬ DiskFails ⟨c, answer⟩
  | _ => True

/-- The node that has the text "b", with nothing under way. -/
def restingB : Node :=
  { emptyNode with index := {"xb"}, names := fun path => if path = pathB then some 0 else none,
                   inodes := fun _ => [98] }

/-- A chunk that is put again while it is asked for may be read when its file has just been emptied.
It is found to be corrupt and forgotten, although the disk does not fail. -/
theorem forgotten_when_disturbed : restingB.Resting sampleHash ∧ ∃ calls v,
    System.Run (nodeSystem sampleHash) (·.store.Unfailing) ⟨restingB, fun _ => none⟩ calls v ∧
      v.store.index = ∅ := by
  constructor
  · refine ⟨fun _ => rfl, fun path path' inode first second => ?_, fun hash among => ?_⟩
    · -- There is one name only.
      have own {name : ChunkPath} (named : restingB.names name = some inode) : name = pathB := by
        by_contra other
        simp [restingB, other] at named
      exact (own first).trans (own second).symm
    · obtain rfl : hash = "xb" := Finset.mem_singleton.mp among
      exact ⟨[98], rfl, by decide⟩
  -- The file is opened to be written once more, and its request is given up.
  have again : System.Run (nodeSystem sampleHash) (·.store.Unfailing)
      ⟨restingB, fun _ => none⟩ [] _ := Node.during_start .refl (.putChunk ⟨"xb", [98], 1⟩)
  have created := Node.during_call (Node.during_call again
    (.submit restingB (.createDirAll "xb") 0 id) trivial)
    (.other _ (.createDirAll "xb") 0 (Except.ok ()) _ id (fun _ same => by cases same)
      (.createDirAll _ "xb" (.ok ()))) id
  have submitted := Node.during_call created (.submitWrite restingB pathB [98] 0 rfl) trivial
  have opened := Node.during_leave
    (Node.during_works submitted (.openWrite _ 0 pathB [98] 0 rfl (.inl rfl)))
  -- A request that reads the file now finds it empty.
  have asked := Node.during_call (Node.during_call (Node.during_start opened (.getChunk "xb"))
    (.submit _ (.indexContains "xb") 1 id) trivial)
    (.other _ (.indexContains "xb") 1 true _ id (fun _ same => by cases same)
      (.contains _ "xb")) id
  have reads := Node.during_works (Node.during_call asked (.submitRead _ pathB 1 rfl) trivial)
    (.openRead _ 1 pathB 0 rfl rfl)
  have ended := Node.during_works reads (.readEnd _ 1 pathB 0 [] rfl (by decide))
  have read := Node.during_call ended (.read _ pathB [] 1 rfl) id
  -- What it finds is not what it should be, so the chunk is removed.
  have removed := Node.during_call (Node.during_call read
    (.submit _ (.removeChunk pathB) 2 id) trivial) (.removed _ pathB 2) id
  have forgotten := Node.during_call (Node.during_call removed
    (.submit _ (.indexRemove "xb") 3 id) trivial)
    (.other _ (.indexRemove "xb") 3 () _ id (fun _ same => by cases same) (.erased _ "xb")) id
  exact ⟨_, _, forgotten, by decide⟩

end Tatara.P2p
