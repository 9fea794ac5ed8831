import Tatara.Domain.ContentHash
import Tatara.Engine.Executor
import Tatara.Lib.Delimited

/-! Tasks that are run as containers, and the command lines that they are started with. -/

namespace Tatara.Engine

open Tatara.Domain Tatara.Rust
open Tatara.Delimited (cut cut_append cut_joined notMem_cut mem_splitOn splitOn_joined
  perm_read_iff)

/-- What a command has printed, and whether it has succeeded. -/
structure CommandOutput where
  success : Bool
  stdout : String
  stderr : String

/-- The name of the container of a task. -/
def containerName (task : Task) : String := "tatara-" ++ task.name

/-- The arguments that `start` builds, going through the hash maps in these orders. -/
def runArgs (orders : TaskMap → Traversal) (task : Task) : Except String (List String) :=
  match task.config with
  | .oci image ports volumes entrypoint command =>
    .ok <|
      ["run", "-d", "--name", containerName task] ++
        ((orders .ports).entries ports).flatMap
          (fun (hostPort, containerPort) => ["-p", hostPort ++ ":" ++ containerPort]) ++
        ((orders .volumes).entries volumes).flatMap
          (fun (hostPath, containerPath) => ["-v", hostPath ++ ":" ++ containerPath]) ++
        ((orders .env).entries task.env).flatMap
          (fun (key, value) => ["-e", key ++ "=" ++ value]) ++
        [image] ++
        -- The option stands behind the image, where the command begins.
        (match entrypoint with
          | some ep => "--entrypoint" :: ep
          | none => []) ++
        command.getD []
  | _ => .error "OciDriver received non-oci task config"

/-- `OciDriver::start`, with the command line tool of the backend. -/
def ociStart (orders : TaskMap → Traversal) (run : List String → Except String CommandOutput)
    (now : DateTime) (task : Task) : Except String TaskHandle :=
  match runArgs orders task with
  | .error e => .error e
  | .ok args =>
    match run args with
    | .error _ => .error "Failed to start OCI container"
    | .ok output =>
      if output.success then
        .ok {
          driver := .oci
          pid := none
          containerId := some (String.ofList (trimText output.stdout.toList))
          startedAt := now }
      else .error ("Failed to start container: " ++ output.stderr)

/-! ### How `docker run` reads its arguments -/

/-- The options that are used here. -/
inductive RunOption where
  | detach
  | name (value : String)
  | publish (value : String)
  | volume (value : String)
  | env (value : String)
  | entrypoint (value : String)
  deriving DecidableEq, Repr

/-- The words of an option. -/
def RunOption.words : RunOption → List String
  | detach => ["-d"]
  | name value => ["--name", value]
  | publish value => ["-p", value]
  | volume value => ["-v", value]
  | env value => ["-e", value]
  | entrypoint value => ["--entrypoint", value]

/-- The options whose value is the next word. -/
def valuedOption (word : String) : Option (String → RunOption) :=
  if word = "--name" then some .name
  else if word = "-p" then some .publish
  else if word = "-v" then some .volume
  else if word = "-e" then some .env
  else if word = "--entrypoint" then some .entrypoint
  else none

/-- The options that the words begin with, and the words behind them. -/
def readOptions : List String → List RunOption × List String
  | [] => ([], [])
  | [word] => if word = "-d" then ([.detach], []) else ([], [word])
  | word :: value :: words =>
    if word = "-d" then
      (.detach :: (readOptions (value :: words)).1, (readOptions (value :: words)).2)
    else
      match valuedOption word with
      | some option => (option value :: (readOptions words).1, (readOptions words).2)
      | none => ([], word :: value :: words)

/-- A word that begins with a dash is an option, unless it is a dash. -/
def IsOptionWord (word : String) : Prop := word.toList.head? = some '-' ∧ word ≠ "-"

instance (word : String) : Decidable (IsOptionWord word) := inferInstanceAs (Decidable (_ ∧ _))

/-- A command line that has been read. -/
structure Reading where
  options : List RunOption
  image : String
  command : List String
  deriving DecidableEq

/-- Read the arguments: the first word that is no option is the image, and all that follow are the
command; two dashes end the options. -/
def readRun : List String → Option Reading
  | "run" :: args =>
    match readOptions args with
    | (_, []) => none
    | (options, word :: words) =>
      if word = "--" then
        match words with
        | [] => none
        | image :: command => some { options, image, command }
      else if IsOptionWord word then none
      else some { options, image := word, command := words }
  | _ => none

/-- A port that is published. -/
structure PublishedPort where
  host : Option String
  container : String
  deriving DecidableEq

/-- A volume that is mounted. -/
inductive Mount where
  | anonymous (target : String)
  | bind (source target : String) (mode : Option String)
  deriving DecidableEq

/-- A variable of the environment. -/
inductive EnvSetting where
  | inherited (key : String)
  | given (key value : String)
  deriving DecidableEq

/-- The last part of a published port is the port of the container. -/
def readPort (value : String) : Option PublishedPort :=
  let (container, host) := cut ':' value.toList.reverse
  if container = [] then none
  else
    some {
      host := host.map fun host => String.ofList host.reverse
      container := String.ofList container.reverse }

theorem lawfulBEq_text : LawfulBEq (List Char) := inferInstance

attribute [local instance (high)] lawfulBEq_text

/-- The parts of a volume are not empty, and a third one is a mode. -/
def readMount (value : String) : Option Mount :=
  let parts := value.toList.splitOn ':'
  if [] ∈ parts then none
  else
    match parts with
    | [target] => some (.anonymous (String.ofList target))
    | [source, target] => some (.bind (String.ofList source) (String.ofList target) none)
    | [source, target, mode] =>
      some (.bind (String.ofList source) (String.ofList target) (some (String.ofList mode)))
    | _ => none

/-- A variable has a key, and a value if there is an equality sign. -/
def readEnv (value : String) : Option EnvSetting :=
  let (key, given) := cut '=' value.toList
  if key = [] then none
  else
    match given with
    | none => some (.inherited (String.ofList key))
    | some text => some (.given (String.ofList key) (String.ofList text))

namespace RunOption

/-- The name that an option gives the container. -/
def name? : RunOption → Option String
  | name value => some value
  | _ => none

/-- The port that an option publishes, as far as it can be read. -/
def port? : RunOption → Option (Option PublishedPort)
  | publish value => some (readPort value)
  | _ => none

/-- The volume that an option mounts, as far as it can be read. -/
def mount? : RunOption → Option (Option Mount)
  | volume value => some (readMount value)
  | _ => none

/-- The variable that an option sets, as far as it can be read. -/
def env? : RunOption → Option (Option EnvSetting)
  | env value => some (readEnv value)
  | _ => none

/-- What an option has run instead of the entrypoint of the image. -/
def entrypoint? : RunOption → Option String
  | entrypoint value => some value
  | _ => none

end RunOption

namespace Reading

/-- The last name is the one of the container. -/
def name (r : Reading) : Option String := (r.options.filterMap RunOption.name?).getLast?

/-- The last entrypoint is the one that is run. -/
def entrypoint (r : Reading) : Option String :=
  (r.options.filterMap RunOption.entrypoint?).getLast?

/-- The command line is what the task declares: its image, its maps in any order, an entrypoint
where there is one, and the words of the entrypoint and of the command. -/
def Means (r : Reading) (task : Task) : Prop :=
  match task.config with
  | .oci image ports volumes entrypoint command =>
    r.image = image ∧
    (r.options.filterMap RunOption.port?).Perm
      (ports.toList.map fun entry => some ⟨some entry.1, entry.2⟩) ∧
    (r.options.filterMap RunOption.mount?).Perm
      (volumes.toList.map fun entry => some (.bind entry.1 entry.2 none)) ∧
    (r.options.filterMap RunOption.env?).Perm
      (task.env.toList.map fun entry => some (.given entry.1 entry.2)) ∧
    r.entrypoint.isSome = entrypoint.isSome ∧
    r.entrypoint.toList ++ r.command = entrypoint.getD [] ++ command.getD []
  | _ => False

end Reading

/-- A task that is started for an allocation, and how its hash maps are gone through. -/
structure Started where
  alloc : Uuid
  task : Task
  orders : TaskMap → Traversal

/-- What the command line of a started task is read as. -/
def Started.reading (s : Started) : Option Reading := (runArgs s.orders s.task).toOption.bind readRun

/-- Of the tasks that are started on a node each command line means the task, and no two for
different allocations ask for one name. -/
def StartsAsDeclared (started : List Started) : Prop :=
  (∀ s ∈ started, ∃ r, s.reading = some r ∧ r.Means s.task) ∧
  ∀ s ∈ started, ∀ s' ∈ started, s.alloc ≠ s'.alloc →
    s.reading.bind Reading.name ≠ s'.reading.bind Reading.name

/-- A task of which everything can be said in the arguments that `start` builds. -/
def Plain (task : Task) : Prop :=
  match task.config with
  | .oci image ports volumes entrypoint _ =>
    entrypoint = none ∧ ¬ IsOptionWord image ∧
    (∀ entry ∈ ports.toList, entry.2 ≠ "" ∧ ':' ∉ entry.2.toList) ∧
    (∀ entry ∈ volumes.toList, (entry.1 ≠ "" ∧ ':' ∉ entry.1.toList) ∧
      entry.2 ≠ "" ∧ ':' ∉ entry.2.toList) ∧
    ∀ entry ∈ task.env.toList, entry.1 ≠ "" ∧ '=' ∉ entry.1.toList
  | _ => False

/-! ### Reading the words of options -/

/-- The flag takes no value. -/
theorem readOptions_detach (words : List String) :
    readOptions ("-d" :: words) = (.detach :: (readOptions words).1, (readOptions words).2) := by
  cases words <;> simp [readOptions]

/-- The options that take a value are options, and none of them is the one without. -/
theorem isOptionWord_of_valued {word : String} {option : String → RunOption}
    (known : valuedOption word = some option) : IsOptionWord word ∧ word ≠ "-d" := by
  unfold valuedOption at known
  split_ifs at known <;> subst word <;> decide

/-- An option with a value takes the word behind it. -/
theorem readOptions_valued {word value : String} {option : String → RunOption}
    (known : valuedOption word = some option) (words : List String) :
    readOptions (word :: value :: words) =
      (option value :: (readOptions words).1, (readOptions words).2) := by
  simp [readOptions, (isOptionWord_of_valued known).2, known]

/-- Options are read off their words. -/
theorem readOptions_words (options : List RunOption) (rest : List String) :
    readOptions (options.flatMap RunOption.words ++ rest) =
      (options ++ (readOptions rest).1, (readOptions rest).2) := by
  -- By induction on the options, each of which has one or two words.
  induction options with
  | nil => rfl
  | cons option options ih =>
    rw [List.flatMap_cons, List.append_assoc]
    cases option <;>
      simp [RunOption.words, readOptions_detach, readOptions_valued, valuedOption, ih]

/-- A word that is no option ends the options. -/
theorem readOptions_plain {word : String} (plain : ¬ IsOptionWord word) (words : List String) :
    readOptions (word :: words) = ([], word :: words) := by
  -- The word is neither the flag nor an option with a value.
  have other : word ≠ "-d" := by
    rintro rfl
    exact plain (by decide)
  have unknown : valuedOption word = none :=
    Option.eq_none_iff_forall_ne_some.mpr fun _ known => plain (isOptionWord_of_valued known).1
  cases words <;> simp [readOptions, other, unknown]

/-- An option takes at least one word, and an entrypoint takes two. -/
theorem length_readOptions (words : List String) :
    2 * ((readOptions words).1.filterMap RunOption.entrypoint?).length +
      (readOptions words).2.length ≤ words.length := by
  -- The cases are those of the reading; only an option with a value can be an entrypoint.
  induction words using readOptions.induct with
  | case1 => simp [readOptions]
  | case2 => exact Nat.zero_le 1
  | case3 word other => simp [readOptions, other]
  | case4 value words ih =>
    rw [readOptions_detach, List.filterMap_cons_none rfl]
    exact Nat.le_succ_of_le ih
  | case5 word value words other option known ih =>
    rw [readOptions_valued known]
    have longer : ((option value :: (readOptions words).1).filterMap
        RunOption.entrypoint?).length ≤
          ((readOptions words).1.filterMap RunOption.entrypoint?).length + 1 := by
      cases entry : RunOption.entrypoint? (option value) <;> simp [entry]
    simp only [List.length_cons]
    omega
  | case6 word value words other unknown => simp [readOptions, other, unknown]

/-! ### Reading the values of options -/

/-- How a port is written. -/
def PublishedPort.text (port : PublishedPort) : String :=
  (port.host.elim "" fun host => host ++ ":") ++ port.container

/-- How a volume is written. -/
def Mount.text : Mount → String
  | anonymous target => target
  | bind source target mode => source ++ ":" ++ target ++ mode.elim "" fun mode => ":" ++ mode

/-- How a variable is written. -/
def EnvSetting.text : EnvSetting → String
  | inherited key => key
  | given key value => key ++ "=" ++ value

/-- A port is written as it is read. -/
theorem text_of_readPort {value : String} {port : PublishedPort}
    (read : readPort value = some port) : port.text = value := by
  -- The text is cut at its last colon, and both parts together are the text.
  have parts := cut_joined ':' value.toList.reverse
  unfold readPort at read
  generalize cut ':' value.toList.reverse = cuts at parts read
  obtain ⟨container, host⟩ := cuts
  dsimp only at parts read
  split_ifs at read
  obtain rfl := Option.some_inj.mp read
  rw [PublishedPort.text, ← String.toList_inj, ← List.reverse_inj, ← parts]
  cases host <;> simp

/-- A host and a port of a container are read back where the latter has no colon. -/
theorem readPort_eq_iff {host container : String} :
    readPort (host ++ ":" ++ container) = some ⟨some host, container⟩ ↔
      container ≠ "" ∧ ':' ∉ container.toList := by
  constructor
  · intro read
    -- Behind the last colon there is no colon.
    have absent := notMem_cut ':' (host ++ ":" ++ container).toList.reverse
    unfold readPort at read
    generalize cut ':' (host ++ ":" ++ container).toList.reverse = cuts at absent read
    obtain ⟨back, front⟩ := cuts
    dsimp only at absent read
    split_ifs at read with empty
    obtain ⟨-, rfl⟩ := PublishedPort.mk.inj (Option.some_inj.mp read)
    exact ⟨by simpa [← String.toList_inj] using empty, by simpa using absent⟩
  · rintro ⟨more, absent⟩
    -- The colon between host and container is the last one.
    have behind : ':' ∉ container.toList.reverse := by simpa using absent
    have parts : cut ':' (host ++ ":" ++ container).toList.reverse =
        (container.toList.reverse, some host.toList.reverse) := by
      rw [← cut_append behind]
      simp only [String.toList_append, List.reverse_append, String.reduceToList,
        List.reverse_singleton, List.singleton_append]
    have there : container.toList ≠ [] := by simpa using more
    rw [readPort, parts]
    simp [there]

/-- A volume is written as it is read. -/
theorem text_of_readMount {value : String} {mount : Mount}
    (read : readMount value = some mount) : mount.text = value := by
  -- The pieces put together again are the text.
  have parts : [':'].intercalate (value.toList.splitOn ':') = value.toList :=
    List.intercalate_splitOn ':'
  unfold readMount at read
  generalize value.toList.splitOn ':' = pieces at parts read
  dsimp only at read
  split_ifs at read
  rw [← String.toList_inj, ← parts]
  -- Two or three pieces make a bind, and a single one a volume of its own.
  split at read
  · cases Option.some_inj.mp read
    simp [Mount.text]
  · cases Option.some_inj.mp read
    simp [Mount.text]
  · cases Option.some_inj.mp read
    simp [Mount.text]
  · cases read

/-- A source and a target are read back where they are there and have no colons. -/
theorem readMount_eq_iff {source target : String} :
    readMount (source ++ ":" ++ target) = some (.bind source target none) ↔
      (source ≠ "" ∧ ':' ∉ source.toList) ∧ target ≠ "" ∧ ':' ∉ target.toList := by
  constructor
  · intro read
    -- No piece has a colon.
    have piece {part : List Char}
        (inside : part ∈ (source ++ ":" ++ target).toList.splitOn ':') : ':' ∉ part :=
      (mem_splitOn inside).1
    unfold readMount at read
    generalize (source ++ ":" ++ target).toList.splitOn ':' = pieces at piece read
    dsimp only at read
    split_ifs at read with empty
    -- And none is empty, since an empty one is refused.
    have whole {part : List Char} (inside : part ∈ pieces) :
        String.ofList part ≠ "" ∧ ':' ∉ (String.ofList part).toList := by
      refine ⟨fun nothing => empty ?_, by simpa using piece inside⟩
      obtain rfl : part = [] := by simpa [← String.toList_inj] using nothing
      exact inside
    split at read
    · cases read
    · obtain ⟨rfl, rfl, -⟩ := Mount.bind.inj (Option.some_inj.mp read)
      exact ⟨whole (by simp), whole (by simp)⟩
    · cases read
    · cases read
  · rintro ⟨⟨more, absent⟩, more', absent'⟩
    have there : source.toList ≠ [] := by simpa using more
    have there' : target.toList ≠ [] := by simpa using more'
    -- Two pieces without a colon are cut where they were put together.
    have parts : (source ++ ":" ++ target).toList.splitOn ':' = [source.toList, target.toList] := by
      have joined := @splitOn_joined Char _ _ ':' [source.toList, target.toList] (by simp)
      simp only [List.flatMap_cons, List.flatMap_nil, List.splitOn_eq_singleton absent,
        List.splitOn_eq_singleton absent'] at joined
      simpa [List.intercalate] using joined
    rw [readMount, parts]
    simp [there.symm, there'.symm]

/-- A variable is written as it is read. -/
theorem text_of_readEnv {value : String} {setting : EnvSetting}
    (read : readEnv value = some setting) : setting.text = value := by
  -- The text is cut at its first equality sign.
  have parts := cut_joined '=' value.toList
  unfold readEnv at read
  generalize cut '=' value.toList = cuts at parts read
  obtain ⟨key, given⟩ := cuts
  dsimp only at parts read
  split_ifs at read
  rw [← String.toList_inj, ← parts]
  -- Without the sign it only names a variable.
  cases given with
  | none =>
    cases Option.some_inj.mp read
    simp [EnvSetting.text]
  | some text =>
    cases Option.some_inj.mp read
    simp [EnvSetting.text]

/-- A key and a value are read back where the key is there and has no equality sign. -/
theorem readEnv_eq_iff {key value : String} :
    readEnv (key ++ "=" ++ value) = some (.given key value) ↔ key ≠ "" ∧ '=' ∉ key.toList := by
  constructor
  · intro read
    -- In front of the first sign there is no sign.
    have absent := notMem_cut '=' (key ++ "=" ++ value).toList
    unfold readEnv at read
    generalize cut '=' (key ++ "=" ++ value).toList = cuts at absent read
    obtain ⟨front, back⟩ := cuts
    dsimp only at absent read
    split_ifs at read with empty
    cases back with
    | none => cases read
    | some text =>
      obtain ⟨rfl, -⟩ := EnvSetting.given.inj (Option.some_inj.mp read)
      exact ⟨by simpa [← String.toList_inj] using empty, by simpa using absent⟩
  · rintro ⟨more, absent⟩
    -- The key has no sign, so that the text is cut behind it.
    have parts : cut '=' (key ++ "=" ++ value).toList = (key.toList, some value.toList) := by
      rw [← cut_append absent]
      simp only [String.toList_append, String.reduceToList, List.append_assoc,
        List.singleton_append]
    have there : key.toList ≠ [] := by simpa using more
    rw [readEnv, parts]
    simp [there]

/-- What is written for the entries of a map is read back as a whole where each entry is. -/
theorem perm_read_entries {setting : Type} {text : setting → String} {read : String → Option setting}
    (printed : ∀ {value a}, read value = some a → text a = value)
    (form : String × String → setting) (injective : Function.Injective form)
    (traversal : Traversal) (map : Std.ExtTreeMap String String) :
    ((traversal.entries map).map fun entry => read (text (form entry))).Perm
        (map.toList.map fun entry => some (form entry)) ↔
      ∀ entry ∈ map.toList, read (text (form entry)) = some (form entry) := by
  have keys : (map.toList.map Prod.fst).Nodup := by
    rw [Std.ExtTreeMap.map_fst_toList_eq_keys]
    exact Std.ExtTreeMap.nodup_keys
  have different : (map.toList.map form).Nodup := (List.Nodup.of_map _ keys).map injective
  have each := perm_read_iff printed different
  rw [List.map_map, List.map_map, List.forall_mem_map] at each
  rw [← each]
  -- The order of the entries makes no difference.
  exact ((traversal.complete map).map _).congr_left _

/-! ### The arguments of a start -/

/-- The options that `start` gives. -/
def startOptions (orders : TaskMap → Traversal) (task : Task)
    (ports volumes : Std.ExtTreeMap String String) : List RunOption :=
  .detach :: .name (containerName task) ::
    (((orders .ports).entries ports).map (fun entry => .publish (entry.1 ++ ":" ++ entry.2)) ++
    ((orders .volumes).entries volumes).map (fun entry => .volume (entry.1 ++ ":" ++ entry.2)) ++
    ((orders .env).entries task.env).map (fun entry => .env (entry.1 ++ "=" ++ entry.2)))

variable {orders : TaskMap → Traversal} {task : Task} {image : String}
  {ports volumes : Std.ExtTreeMap String String} {entrypoint command : Option (List String)}

/-- The words behind the image. -/
def behindImage (entrypoint command : Option (List String)) : List String :=
  (entrypoint.elim [] ("--entrypoint" :: ·)) ++ command.getD []

/-- The arguments are options, the image and what stands behind it. -/
theorem runArgs_oci (oci : task.config = .oci image ports volumes entrypoint command) :
    runArgs orders task = .ok ("run" ::
      ((startOptions orders task ports volumes).flatMap RunOption.words ++
        image :: behindImage entrypoint command)) := by
  rw [runArgs, oci]
  cases entrypoint <;>
    simp [startOptions, behindImage, RunOption.words, List.flatMap_append, List.flatMap_map]

/-- The ports that are asked for are those of the task. -/
theorem ports_startOptions : (startOptions orders task ports volumes).filterMap RunOption.port? =
    ((orders .ports).entries ports).map fun entry => readPort (entry.1 ++ ":" ++ entry.2) := by
  simp [startOptions, List.filterMap_cons, List.filterMap_map, RunOption.port?, Function.comp_def]

/-- The volumes that are asked for are those of the task. -/
theorem mounts_startOptions : (startOptions orders task ports volumes).filterMap RunOption.mount? =
    ((orders .volumes).entries volumes).map fun entry => readMount (entry.1 ++ ":" ++ entry.2) := by
  simp [startOptions, List.filterMap_cons, List.filterMap_map, RunOption.mount?, Function.comp_def]

/-- The variables that are set are those of the task. -/
theorem env_startOptions : (startOptions orders task ports volumes).filterMap RunOption.env? =
    ((orders .env).entries task.env).map fun entry => readEnv (entry.1 ++ "=" ++ entry.2) := by
  simp [startOptions, List.filterMap_cons, List.filterMap_map, RunOption.env?, Function.comp_def]

/-- No entrypoint is asked for. -/
theorem entrypoint_startOptions :
    (startOptions orders task ports volumes).filterMap RunOption.entrypoint? = [] := by
  simp [startOptions, List.filterMap_cons, List.filterMap_map, RunOption.entrypoint?, Function.comp_def]

/-- One name is asked for, which is made of that of the task. -/
theorem name_startOptions : (startOptions orders task ports volumes).filterMap RunOption.name? =
    [containerName task] := by
  simp [startOptions, List.filterMap_cons, List.filterMap_map, RunOption.name?, Function.comp_def]

/-- An image that is no option is read as the image. -/
theorem readRun_plain (options : List RunOption) (plain : ¬ IsOptionWord image)
    (words : List String) :
    readRun ("run" :: (options.flatMap RunOption.words ++ image :: words)) =
      some ⟨options, image, words⟩ := by
  have other : image ≠ "--" := by
    rintro rfl
    exact plain (by decide)
  simp [readRun, readOptions_words, readOptions_plain plain, other, plain]

/-- An image that is an option is the image only behind two dashes, so that words are missing. -/
theorem readRun_option {options : List RunOption} {words : List String} {r : Reading}
    (default : options.filterMap RunOption.entrypoint? = [])
    (read : readRun ("run" :: (options.flatMap RunOption.words ++ image :: words)) = some r)
    (named : IsOptionWord r.image) :
    2 * r.entrypoint.toList.length + r.command.length + 1 ≤ words.length := by
  have taken := length_readOptions (image :: words)
  simp only [readRun, readOptions_words] at read
  generalize readOptions (image :: words) = further at taken read
  obtain ⟨others, rest⟩ := further
  cases rest with
  | nil => cases read
  | cons word rest =>
    dsimp only at read
    by_cases dashes : word = "--"
    · rw [if_pos dashes] at read
      cases rest with
      | nil => cases read
      | cons last command =>
        obtain rfl := Option.some_inj.mp read
        have few : (others.filterMap RunOption.entrypoint?).getLast?.toList.length ≤
            (others.filterMap RunOption.entrypoint?).length := by
          cases others.filterMap RunOption.entrypoint? using List.reverseRecOn <;> simp
        simp only [Reading.entrypoint, List.filterMap_append, default, List.nil_append]
        simp only [List.length_cons] at taken
        omega
    · rw [if_neg dashes] at read
      split_ifs at read with option
      obtain rfl := Option.some_inj.mp read
      exact absurd named option

/-- What is read where the image is no option means the task where everything else can be said. -/
theorem means_plain_iff (orders : TaskMap → Traversal)
    (oci : task.config = .oci image ports volumes entrypoint command)
    (plain : ¬ IsOptionWord image) :
    (Reading.mk (startOptions orders task ports volumes) image
      (behindImage entrypoint command)).Means task ↔ Plain task := by
  -- Each map is read back as a whole exactly where each of its entries is.
  have portsRead := perm_read_entries text_of_readPort (fun entry => ⟨some entry.1, entry.2⟩)
    (fun _ _ same => by simpa [Prod.ext_iff] using same) (orders .ports) ports
  have mountsRead := perm_read_entries text_of_readMount
    (fun entry => .bind entry.1 entry.2 none)
    (fun _ _ same => by simpa [Prod.ext_iff] using same) (orders .volumes) volumes
  have envRead := perm_read_entries text_of_readEnv (fun entry => .given entry.1 entry.2)
    (fun _ _ same => by simpa [Prod.ext_iff] using same) (orders .env) task.env
  have textPort (host container : String) :
      PublishedPort.text ⟨some host, container⟩ = host ++ ":" ++ container := rfl
  have textMount (source target : String) :
      (Mount.bind source target none).text = source ++ ":" ++ target := by simp [Mount.text]
  have textEnv (key value : String) : (EnvSetting.given key value).text = key ++ "=" ++ value := rfl
  simp only [textPort, readPort_eq_iff] at portsRead
  simp only [textMount, readMount_eq_iff] at mountsRead
  simp only [textEnv, readEnv_eq_iff] at envRead
  simp only [Reading.Means, Plain, oci, Reading.entrypoint, ports_startOptions,
    mounts_startOptions, env_startOptions, entrypoint_startOptions, portsRead, mountsRead, envRead,
    true_and]
  cases entrypoint with
  | none => simp [behindImage, plain]
  | some ep => simp

/-- A command line means the task where everything can be said in it, and no entrypoint can. -/
theorem means_iff :
    (∃ r, (runArgs orders task).toOption.bind readRun = some r ∧ r.Means task) ↔ Plain task := by
  cases oci : task.config
  case oci image ports volumes entrypoint command =>
    rw [runArgs_oci oci]
    by_cases option : IsOptionWord image
    · -- The image would have to stand behind two dashes, and words are missing then.
      refine iff_of_false ?_ fun plain => ?_
      · rintro ⟨r, read, means⟩
        simp only [Reading.Means, oci] at means
        obtain ⟨same, -, -, -, given, words⟩ := means
        have short := readRun_option entrypoint_startOptions read (same ▸ option)
        have level := congrArg List.length words
        cases entrypoint <;> cases entry : r.entrypoint <;>
          simp [entry, behindImage] at short level given <;> omega
      · simp only [Plain, oci] at plain
        exact plain.2.1 option
    · have read := readRun_plain (startOptions orders task ports volumes) option
        (behindImage entrypoint command)
      rw [← means_plain_iff orders oci option]
      constructor
      · rintro ⟨r, found, means⟩
        obtain rfl := Option.some_inj.mp (read.symm.trans found)
        exact means
      · intro means
        exact ⟨_, read, means⟩
  all_goals
    rw [runArgs, Plain, oci, iff_false]
    rintro ⟨r, read, -⟩
    cases read

/-- A task that can be said asks for the name that is made of its own. -/
theorem name_of_plain (plain : Plain task) :
    ((runArgs orders task).toOption.bind readRun).bind Reading.name =
      some (containerName task) := by
  -- Only a task that is run as a container can be said.
  cases oci : task.config
  case oci image ports volumes entrypoint command =>
    simp only [Plain, oci] at plain
    have read := readRun_plain (startOptions orders task ports volumes) plain.2.1
      (behindImage entrypoint command)
    -- The command line is read back, and the one name in it is that of the task.
    rw [runArgs_oci oci, Except.toOption, Option.bind_some, read, Option.bind_some, Reading.name,
      name_startOptions, List.getLast?_singleton]
  all_goals
    rw [Plain, oci] at plain
    exact plain.elim

/-- Every command line that is started on a node means its task, and tasks of different allocations
ask for different names, where each task can be said in its arguments, and no two of different
allocations have one name. -/
theorem startsAsDeclared_iff {started : List Started} :
    StartsAsDeclared started ↔
      (∀ s ∈ started, Plain s.task) ∧
      ∀ s ∈ started, ∀ s' ∈ started, s.alloc ≠ s'.alloc → s.task.name ≠ s'.task.name := by
  -- What each line means is a matter of its own task.
  have lines : (∀ s ∈ started, ∃ r, s.reading = some r ∧ r.Means s.task) ↔
      ∀ s ∈ started, Plain s.task := forall₂_congr fun s _ => means_iff
  rw [StartsAsDeclared, lines]
  refine and_congr_right fun plain => forall₂_congr fun s inside => forall₂_congr fun s' inside' =>
    imp_congr_right fun _ => not_congr ?_
  -- The names of containers differ where those of the tasks do.
  rw [Started.reading, Started.reading, name_of_plain (plain s inside),
    name_of_plain (plain s' inside'), Option.some_inj, containerName, containerName,
    ← String.toList_inj, String.toList_append, String.toList_append, List.append_cancel_left_eq,
    String.toList_inj]

/-- A task starts just when the tool succeeds with the arguments that are built for it, and its
container is the one that the tool names. -/
theorem ociStart_eq_ok_iff {run : List String → Except String CommandOutput} {now : DateTime}
    {handle : TaskHandle} :
    ociStart orders run now task = .ok handle ↔
      ∃ args output, runArgs orders task = .ok args ∧ run args = .ok output ∧
        output.success = true ∧
        handle = ⟨.oci, none, some (String.ofList (trimText output.stdout.toList)), now⟩ := by
  constructor
  · intro started
    -- Each of the three ways to fail is one of the parts that are missing.
    unfold ociStart at started
    split at started
    · cases started
    · next args built =>
      split at started
      · cases started
      · next output answered =>
        split at started
        · next success => exact ⟨args, output, built, answered, success, (Except.ok.inj started).symm⟩
        · cases started
  · rintro ⟨args, output, built, answered, success, rfl⟩
    simp [ociStart, built, answered, success]

/-- A task of which everything can be said has been started by a command line that means it. -/
theorem means_of_ociStart {run : List String → Except String CommandOutput} {now : DateTime}
    {handle : TaskHandle} (plain : Plain task)
    (started : ociStart orders run now task = .ok handle) :
    ∃ args output r, run args = .ok output ∧ output.success = true ∧ readRun args = some r ∧
      r.Means task ∧ r.name = some (containerName task) := by
  obtain ⟨args, output, built, answered, success, -⟩ := ociStart_eq_ok_iff.mp started
  -- The arguments are those that are read back as the task.
  obtain ⟨r, read, means⟩ := (@means_iff orders task).mpr plain
  have named := @name_of_plain orders task plain
  rw [read, Option.bind_some] at named
  rw [built, Except.toOption, Option.bind_some] at read
  exact ⟨args, output, r, answered, success, read, means, named⟩

/-- A task with no maps, and these words for its entrypoint. -/
def shellTask (entrypoint : Option (List String)) : Task where
  name := "shell"
  driver := .oci
  config := .oci "alpine" ∅ ∅ entrypoint none
  env := ∅
  resources := { cpuMhz := 100, memoryMb := 64 }
  healthChecks := []
  volumeClaims := []

/-- An entrypoint becomes a part of the command, and tasks of different allocations with one name
ask for one container. -/
theorem not_startsAsDeclared :
    (∀ orders, ¬ StartsAsDeclared [⟨⟨0⟩, shellTask (some ["/bin/sh"]), orders⟩]) ∧
      ∀ orders, ¬ StartsAsDeclared
        [⟨⟨0⟩, shellTask none, orders⟩, ⟨⟨1⟩, shellTask none, orders⟩] := by
  constructor
  · -- A task with an entrypoint cannot be said.
    intro orders starts
    have plain := means_iff.mp (starts.1 _ (List.mem_singleton_self _))
    exact absurd plain.1 (by simp)
  · intro orders starts
    exact starts.2 _ List.mem_cons_self _ (List.mem_cons_of_mem _ (List.mem_singleton_self _))
      (show (⟨0⟩ : Uuid) ≠ ⟨1⟩ by decide) rfl

end Tatara.Engine
