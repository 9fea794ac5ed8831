import Tatara.Lib.Shell
import Tatara.Os.Closure

/-! When the script of a profile builds its farm of links. -/

namespace Tatara.Os

open Tatara.Rust Tatara.Shell

-- A statement about the characters of a text is decided on these, not on all characters.
attribute [local instance (high)] List.decidableBAll

/-- The surroundings of a build, with the directory that `$out` stands for. -/
structure BuildEnv extends Surroundings where
  out : Path
  resolved : pathOf (value "out".toList) = some out

/-- There is nothing but the root. -/
def emptyTree : FileSystem := fun path => if path = [] then some .directory else none

/-- A configuration whose services have names of letters, digits, dashes and underscores. -/
structure NamedConfig where
  cfg : SystemConfig
  named : ∀ svc ∈ cfg.services, svc.name.toList ≠ [] ∧
    ∀ c ∈ svc.name.toList, c.isAlphanum = true ∨ c = '-' ∨ c = '_'

namespace NamedConfig

variable (env : BuildEnv) (config : NamedConfig)

/-- The script of the profile. -/
def script : List Char := (profileScript (unitsOf config.cfg.services).keys).toList

/-- The links of the farm. -/
def links : List Path :=
  [["kernel".toList], ["etc".toList], ["activate".toList]] ++
    config.cfg.services.map fun svc => ["services".toList, svc.name.toList]

/-- The script succeeds in an empty directory, and there are exactly the links of the farm. -/
def BuildsFarm : Prop :=
  ∃ st, run env.toSurroundings { fs := below env.out emptyTree } config.script = some st ∧
    st.succeeded = true ∧
      ∀ path, (∃ target, st.fs path = some (.link target)) ↔
        ∃ link ∈ config.links, path = env.out ++ link

end NamedConfig

namespace BuildEnv

variable {env : BuildEnv} {st : State} {tree : FileSystem}

/-- The state of a script that ends where a command fails, with a tree below `$out`. -/
def state (env : BuildEnv) (tree : FileSystem) : State :=
  { fs := below env.out tree, errexit := true, succeeded := true }

/-- The names of a path, none of which has a meaning of its own. -/
def IsNames (names : Path) : Prop :=
  names ≠ [] ∧ ∀ name ∈ names, name ≠ [] ∧ '/' ∉ name ∧ name ≠ ['.'] ∧ name ≠ ['.', '.']

instance : DecidablePred IsNames := fun _ => inferInstanceAs (Decidable (_ ∧ _))

/-- A file below `$out`. -/
theorem pathOf_out {names : Path} (ok : IsNames names) :
    pathOf (env.value "out".toList ++ '/' :: ['/'].intercalate names) = some (env.out ++ names) :=
  pathOf_append env.resolved (pathOf_joined ok.1 ok.2)

/-- A word that begins with `$out`. -/
theorem expand_out {text : List Char} (plain : '$' ∉ text) :
    expand env.value .text (("$out/".toList ++ text).map .bare) =
      some (env.value "out".toList ++ '/' :: text) :=
  @expand_dollar env.value "out".toList text (by decide) (by decide) '/' (by decide)
    (by simpa using plain)

/-- The same for a whole word. -/
theorem wordText_out {text : List Char} (plain : '$' ∉ text) :
    wordText env.value (("$out/".toList ++ text).map .bare) =
      some (env.value "out".toList ++ '/' :: text) := by
  rw [← expand_out plain]
  rfl

/-- A word that begins with a parameter in braces. -/
theorem wordText_braces {name suffix : List Char} (inner : '\x7d' ∉ name) (plain : '$' ∉ suffix) :
    wordText env.value (("$\x7b".toList ++ (name ++ '\x7d' :: suffix)).map .bare) =
      some (env.value name ++ suffix) := by
  -- Behind the brace there is nothing left to expand.
  have behind := @expand_bare env.value suffix plain []
  have expanded := @expand_braces env.value [] name inner (suffix.map .bare)
  rw [List.append_nil] at behind
  rw [behind] at expanded
  -- The first two characters only say that a name in braces is to come.
  have opened (rest : List Symbol) :
      wordText env.value ("$\x7b".toList.map .bare ++ rest) = expand env.value (.braces []) rest := rfl
  rw [List.map_append, List.map_append, List.map_cons]
  refine (opened _).trans ?_
  rw [expanded]
  simp [expand]

/-- Where a command succeeds the script goes on, and else it ends. -/
theorem runAll_single {command : Simple} {body : List Char} :
    runAll env.toSurroundings body [command] (env.state tree) =
      (command.run env.toSurroundings body (env.state tree)).map fun behind =>
        { behind with succeeded := true } := by
  unfold runAll
  cases command.run env.toSurroundings body (env.state tree) <;> rfl

/-- The first line of a script. -/
theorem run_set (rest : List Char) :
    run env.toSurroundings { fs := below env.out tree } ("set -eu\n".toList ++ rest) =
      run env.toSurroundings (env.state tree) rest := by
  have line := @run_words env.toSurroundings { fs := below env.out tree }
    ["set".toList, "-eu".toList] ["set".toList, "-eu".toList] (by decide) rfl rest
  exact line

/-- The effect of `mkdir -p`. -/
theorem run_mkdirCommand {text body : List Char} {path : Path}
    (found : pathOf text = some (env.out ++ path)) (root : tree [] = some .directory) :
    ({ words := ["mkdir".toList, "-p".toList, text] } : Simple).run env.toSurroundings body
        (env.state tree) = (makeDirectories tree path).map env.state := by
  -- A path below `$out` is found where the tree has been put.
  have ran : builtin env.toSurroundings (env.state tree) body
      ["mkdir".toList, "-p".toList, text] =
        ((pathOf text).bind (makeDirectories (below env.out tree))).map fun fs =>
          ([], { env.state tree with fs }) := rfl
  rw [Simple.run, ran, found, Option.bind_some, makeDirectories_below root]
  cases makeDirectories tree path <;> rfl

/-- The same for a command that stands alone. -/
theorem runAll_mkdir {text : List Char} {path : Path} (found : pathOf text = some (env.out ++ path))
    (root : tree [] = some .directory) :
    runAll env.toSurroundings [] [{ words := ["mkdir".toList, "-p".toList, text] }]
        (env.state tree) = (makeDirectories tree path).map env.state := by
  rw [runAll_single, run_mkdirCommand found root]
  cases makeDirectories tree path <;> rfl

/-- The effect of `ln -s`. -/
theorem runAll_ln {target text : List Char} {path : Path}
    (found : pathOf text = some (env.out ++ path)) (more : path ≠ []) :
    runAll env.toSurroundings [] [{ words := ["ln".toList, "-s".toList, target, text] }]
        (env.state tree) = (makeLink tree target path).map env.state := by
  -- As with `mkdir -p`, the link is made in the tree that has been put below `$out`.
  have ran : builtin env.toSurroundings (env.state tree) []
      ["ln".toList, "-s".toList, target, text] =
        ((pathOf text).bind (makeLink (below env.out tree) target)).map fun fs =>
          ([], { env.state tree with fs }) := rfl
  rw [runAll_single, Simple.run, ran, found, Option.bind_some, makeLink_below more]
  cases makeLink tree target path <;> rfl

/-- The directory itself is there already. -/
theorem run_mkdir_out (root : tree [] = some .directory) (rest : List Char) :
    run env.toSurroundings (env.state tree) ("mkdir -p $out\n".toList ++ rest) =
      run env.toSurroundings (env.state tree) rest := by
  -- The path of `$out` itself has no more names.
  have line := @run_words env.toSurroundings (env.state tree)
    ["mkdir".toList, "-p".toList, "$out".toList]
    ["mkdir".toList, "-p".toList, env.value "out".toList] (by decide) rfl rest
  rw [runAll_mkdir (by rw [List.append_nil]; exact env.resolved) root, makeDirectories_root root]
    at line
  exact line

/-- The words of a path. -/
theorem isWordChar_out {text : List Char} (plain : ∀ c ∈ text, isWordChar c = true ∧ c ≠ '$') :
    ∀ c ∈ "$out/".toList ++ text, isWordChar c = true := by
  intro c inside
  rcases List.mem_append.mp inside with front | behind
  · -- The front is fixed, and what comes behind it is plain.
    have fixed : ∀ d ∈ "$out/".toList, isWordChar d = true := by decide
    exact fixed c front
  · exact (plain c behind).1

/-- A directory is made below `$out`. -/
theorem run_mkdir {names : Path} (root : tree [] = some .directory) (ok : IsNames names)
    (plain : ∀ c ∈ ['/'].intercalate names, isWordChar c = true ∧ c ≠ '$') (rest : List Char) :
    run env.toSurroundings (env.state tree)
        ("mkdir -p $out/".toList ++ (['/'].intercalate names ++ '\n' :: rest)) =
      (makeDirectories tree names).bind fun tree => run env.toSurroundings (env.state tree) rest := by
  -- Only the last of the three words has anything to expand.
  have value := @wordText_out env (['/'].intercalate names) fun inside => (plain _ inside).2 rfl
  have line := @run_words env.toSurroundings (env.state tree)
    ["mkdir".toList, "-p".toList, "$out/".toList ++ ['/'].intercalate names]
    ["mkdir".toList, "-p".toList, env.value "out".toList ++ '/' :: ['/'].intercalate names] ?_ ?_ rest
  · rw [runAll_mkdir (pathOf_out ok) root] at line
    refine Eq.trans ?_ (line.trans ?_)
    · simp [List.intercalate_cons_cons]
    · cases makeDirectories tree names <;> rfl
  · -- None of the characters ends a word.
    simp only [List.forall_mem_cons]
    refine ⟨by decide, by decide, ⟨by simp, isWordChar_out plain⟩, by simp⟩
  · rw [List.mapM_cons, List.mapM_cons, List.mapM_cons, value]
    rfl

/-- A link is made below `$out`. -/
theorem run_ln {names : Path} {name suffix : List Char} (ok : IsNames names)
    (plain : ∀ c ∈ ['/'].intercalate names, isWordChar c = true ∧ c ≠ '$')
    (plain' : ∀ c ∈ name, isWordChar c = true ∧ c ≠ '\x7d')
    (plain'' : ∀ c ∈ suffix, isWordChar c = true ∧ c ≠ '$') (rest : List Char) :
    run env.toSurroundings (env.state tree)
        ("ln -s $\x7b".toList ++ (name ++ '\x7d' :: (suffix ++ (" $out/".toList ++
          (['/'].intercalate names ++ '\n' :: rest))))) =
      (makeLink tree (env.value name ++ suffix) names).bind fun tree =>
        run env.toSurroundings (env.state tree) rest := by
  -- Two of the four words have something to expand: the target and the path.
  have value := @wordText_out env (['/'].intercalate names) fun inside => (plain _ inside).2 rfl
  have target := @wordText_braces env name suffix (fun inside => (plain' _ inside).2 rfl)
    fun inside => (plain'' _ inside).2 rfl
  have line := @run_words env.toSurroundings (env.state tree)
    ["ln".toList, "-s".toList, "$\x7b".toList ++ (name ++ '\x7d' :: suffix),
      "$out/".toList ++ ['/'].intercalate names]
    ["ln".toList, "-s".toList, env.value name ++ suffix,
      env.value "out".toList ++ '/' :: ['/'].intercalate names] ?_ ?_ rest
  · rw [runAll_ln (pathOf_out ok) ok.1] at line
    refine Eq.trans ?_ (line.trans ?_)
    · simp [List.intercalate_cons_cons]
    · cases makeLink tree (env.value name ++ suffix) names <;> rfl
  · -- None of the characters ends a word, neither those around the name nor the name itself.
    simp only [List.forall_mem_cons]
    refine ⟨by decide, by decide, ⟨by simp, ?_⟩, ⟨by simp, isWordChar_out plain⟩, by simp⟩
    intro c inside
    rw [List.mem_append, List.mem_append, List.mem_cons] at inside
    rcases inside with opened | inner | rfl | behind
    · have fixed : ∀ d ∈ "$\x7b".toList, isWordChar d = true := by decide
      exact fixed c opened
    · exact (plain' c inner).1
    · decide
    · exact (plain'' c behind).1
  · rw [List.mapM_cons, List.mapM_cons, List.mapM_cons, List.mapM_cons, value, target]
    rfl

end BuildEnv

/-! ### The farm -/

/-- The tree behind the lines that are always there. -/
def linkedTree (env : BuildEnv) : FileSystem :=
  Function.update
    (Function.update
      (Function.update emptyTree ["kernel".toList] (some (.link (env.value "kernel".toList))))
      ["etc".toList] (some (.link (env.value "etc".toList))))
    ["activate".toList] (some (.link (env.value "activation".toList ++ "/activate".toList)))

section

variable {env : BuildEnv}

open BuildEnv

/-- Where the parent is a directory and the name is free, a link is made. -/
theorem makeLink_eq_some {tree : FileSystem} {target : List Char} {path : Path}
    (parent : HasParent tree path) (free : tree path = none) :
    makeLink tree target path = some (Function.update tree path (some (.link target))) := by
  rw [makeLink, if_pos ⟨parent, free⟩]

/-- The lines in front of those of the services make three links. -/
theorem run_profileScript (names : List String) :
    run env.toSurroundings { fs := below env.out emptyTree } (profileScript names).toList =
      run env.toSurroundings (env.state (linkedTree env))
        ((serviceLinks names).toList ++ "mkdir -p $out/services\n".toList) := by
  -- Each of the three links is a line of the same form, with other names.
  have kernel (tree : FileSystem) (rest : List Char) := @run_ln env tree ["kernel".toList]
    "kernel".toList [] (by decide) (by decide) (by decide) (by decide) rest
  have etc (tree : FileSystem) (rest : List Char) := @run_ln env tree ["etc".toList]
    "etc".toList [] (by decide) (by decide) (by decide) (by decide) rest
  have activate (tree : FileSystem) (rest : List Char) := @run_ln env tree ["activate".toList]
    "activation".toList "/activate".toList (by decide) (by decide) (by decide) (by decide) rest
  have first (rest : List Char) := @run_set env emptyTree rest
  have second (rest : List Char) := @run_mkdir_out env emptyTree rfl rest
  simp only [List.append_nil] at kernel etc
  -- The text is cut into its lines.
  have written : (profileScript names).toList = "set -eu\n".toList ++ ("mkdir -p $out\n".toList ++
      ("ln -s $\x7bkernel\x7d $out/kernel\n".toList ++ ("ln -s $\x7betc\x7d $out/etc\n".toList ++
        ("ln -s $\x7bactivation\x7d/activate $out/activate\n".toList ++
          ((serviceLinks names).toList ++ "mkdir -p $out/services\n".toList))))) := by
    have head : "set -eu\nmkdir -p $out\n".toList = "set -eu\n".toList ++ "mkdir -p $out\n".toList :=
      rfl
    unfold profileScript
    rw [String.toList_append, String.toList_append, String.toList_append, String.toList_append,
      String.toList_append, head]
    simp only [List.append_assoc]
  -- Line by line; each link finds its directory and a free name.
  rw [written, first, second]
  refine (kernel _ _).trans ?_
  rw [makeLink_eq_some (by decide) (by decide), Option.bind_some]
  refine (etc _ _).trans ?_
  rw [makeLink_eq_some ⟨by decide, rfl⟩ rfl, Option.bind_some]
  refine (activate _ _).trans ?_
  rw [makeLink_eq_some ⟨by decide, rfl⟩ rfl, Option.bind_some]
  rfl

/-- A link below a directory. -/
theorem below_eq_link_iff {out path : Path} {tree : FileSystem} {target : List Char} :
    below out tree path = some (.link target) ↔
      ∃ rest, path = out ++ rest ∧ tree rest = some (.link target) := by
  constructor
  · intro linked
    unfold below at linked
    -- Outside of the directory nothing is a link.
    split at linked
    · rename_i inside
      obtain ⟨rest, rfl⟩ := inside
      exact ⟨rest, rfl, by simpa using linked⟩
    · split at linked <;> cases linked
  · rintro ⟨rest, rfl, linked⟩
    rwa [below_append]

/-- The characters of names stand for themselves. -/
theorem isWordChar_of_named {c : Char} (named : c.isAlphanum = true ∨ c = '-' ∨ c = '_') :
    isWordChar c = true ∧ c ≠ '$' ∧ c ≠ '\x7d' ∧ c ≠ '/' ∧ c ≠ '.' := by
  -- Each of the others is looked at once, and none is in a name.
  have others : ∀ d ∈ foreign ++ special ++ ['$', '\x7d', '/', '.'],
      d.isAlphanum = false ∧ d ≠ '-' ∧ d ≠ '_' := by decide
  have absent : c ∉ foreign ++ special ++ ['$', '\x7d', '/', '.'] := by
    intro inside
    obtain ⟨plain, dash, line⟩ := others c inside
    rcases named with letter | rfl | rfl
    · rw [plain] at letter
      cases letter
    · exact dash rfl
    · exact line rfl
  simp only [List.mem_append, List.mem_cons, List.not_mem_nil, or_false, not_or] at absent
  exact ⟨decide_eq_true absent.1, absent.2⟩

/-- A name with a unit is that of a service. -/
theorem exists_of_mem_keys {services : List ServiceSpec} {name : String}
    (inside : name ∈ (unitsOf services).keys) : ∃ svc ∈ services, svc.name = name := by
  rw [Std.ExtTreeMap.mem_keys, Std.ExtTreeMap.mem_iff_isSome_getElem?, getElem?_unitsOf,
    Option.isSome_map] at inside
  obtain ⟨svc, found⟩ := Option.isSome_iff_exists.mp inside
  exact ⟨svc, List.mem_reverse.mp (List.mem_of_find?_eq_some found), by
    simpa using List.find?_some found⟩

/-- There are no names just where there are no services. -/
theorem keys_unitsOf_eq_nil_iff {services : List ServiceSpec} :
    (unitsOf services).keys = [] ↔ services = [] := by
  constructor
  · -- A first service would have a unit, and the unit a name.
    intro none
    by_contra some
    obtain ⟨svc, inside⟩ := List.exists_mem_of_ne_nil services some
    have unit : svc.name ∈ (unitsOf services).keys := by
      rw [Std.ExtTreeMap.mem_keys, Std.ExtTreeMap.mem_iff_isSome_getElem?, getElem?_unitsOf,
        Option.isSome_map]
      refine List.find?_isSome.mpr ⟨svc, List.mem_reverse.mpr inside, by simp⟩
    rw [none] at unit
    cases unit
  · rintro rfl
    exact Std.ExtTreeMap.keys_eq_nil_iff.mpr rfl

/-- The first line of a service ends the script, since the directory of its link is missing. -/
theorem run_serviceLinks {name : String} {names : List String} (more : name.toList ≠ [])
    (named : ∀ c ∈ name.toList, c.isAlphanum = true ∨ c = '-' ∨ c = '_') (rest : List Char) :
    run env.toSurroundings (env.state (linkedTree env))
      ((serviceLinks (name :: names)).toList ++ rest) = none := by
  -- None of the characters of a name is special to the shell.
  have plain (c) (inside : c ∈ name.toList) := isWordChar_of_named (named c inside)
  have names_ : IsNames ["services".toList, name.toList] := by
    refine ⟨by simp, ?_⟩
    simp only [List.forall_mem_cons]
    refine ⟨by decide, ⟨more, fun slash => (plain _ slash).2.2.2.1 rfl, ?_, ?_⟩, by simp⟩
    · intro dot
      exact (plain '.' (by rw [dot]; decide)).2.2.2.2 rfl
    · intro dots
      exact (plain '.' (by rw [dots]; decide)).2.2.2.2 rfl
  have chars : ∀ c ∈ ['/'].intercalate ["services".toList, name.toList],
      isWordChar c = true ∧ c ≠ '$' := by
    intro c inside
    have joined : ['/'].intercalate ["services".toList, name.toList] =
        "services/".toList ++ name.toList := by simp [List.intercalate_cons_cons]
    rw [joined] at inside
    rcases List.mem_append.mp inside with front | behind
    · have fixed : ∀ d ∈ "services/".toList, isWordChar d = true ∧ d ≠ '$' := by decide
      exact fixed c front
    · exact ⟨(plain c behind).1, (plain c behind).2.1⟩
  -- The line is one that makes a link, as soon as it is known where.
  have line := @run_ln env (linkedTree env) ["services".toList, name.toList] name.toList []
    names_ chars (fun c inside => ⟨(plain c inside).1, (plain c inside).2.2.1⟩) (by simp)
    ((serviceLinks names).toList ++ rest)
  -- The parent would be `services`, which only the last line makes.
  have missing : makeLink (linkedTree env) (env.value name.toList ++ [])
      ["services".toList, name.toList] = none := by
    refine if_neg fun possible => ?_
    have parent : linkedTree env ["services".toList] = none := rfl
    have directory := possible.1.2
    rw [show ["services".toList, name.toList].dropLast = ["services".toList] from rfl, parent]
      at directory
    cases directory
  rw [missing, Option.bind_none] at line
  rw [← line]
  congr 1
  simp [serviceLinks, List.intercalate_cons_cons]

/-- Without services the last line makes the directory for them. -/
theorem run_mkdir_services :
    run env.toSurroundings (env.state (linkedTree env)) "mkdir -p $out/services\n".toList =
      some (env.state fun other =>
        if other <+: ["services".toList] then some .directory else linkedTree env other) := by
  -- The line is one that makes a directory.
  have line := @run_mkdir env (linkedTree env) ["services".toList] rfl (by decide) (by decide) []
  have made : makeDirectories (linkedTree env) ["services".toList] = some fun other =>
      if other <+: ["services".toList] then some .directory else linkedTree env other := by
    -- Only the root and the directory itself are on the way.
    have fronts : (["services".toList] : Path).inits = [[], ["services".toList]] := rfl
    rw [makeDirectories, fronts, if_pos]
    simp only [List.forall_mem_cons]
    exact ⟨.inr rfl, .inl rfl, by simp⟩
  rw [made, Option.bind_some, run_nil] at line
  exact line

/-- The links behind a script without services. -/
theorem link_of_no_services {rest : Path} :
    (∃ target, (if rest <+: ["services".toList] then some .directory else linkedTree env rest) =
        some (.link target)) ↔
      rest = ["kernel".toList] ∨ rest = ["etc".toList] ∨ rest = ["activate".toList] := by
  constructor
  · -- Whatever is a link was updated by one of the three lines.
    rintro ⟨target, linked⟩
    split at linked
    · cases linked
    · simp only [linkedTree, Function.update_apply, emptyTree] at linked
      split_ifs at linked with activate etc kernel <;> simp_all
  · rintro (rfl | rfl | rfl)
    · exact ⟨env.value "kernel".toList, rfl⟩
    · exact ⟨env.value "etc".toList, rfl⟩
    · exact ⟨env.value "activation".toList ++ "/activate".toList, rfl⟩

/-- The script of a profile builds the farm just where there are no services. -/
theorem NamedConfig.buildsFarm_iff (env : BuildEnv) (config : NamedConfig) :
    config.BuildsFarm env ↔ config.cfg.services = [] := by
  unfold NamedConfig.BuildsFarm NamedConfig.script
  -- What the fixed lines do is known; only those of the services remain.
  rw [run_profileScript]
  constructor
  · -- A first service has a name, and its line ends the script.
    rintro ⟨st, ran, -⟩
    by_contra some
    obtain ⟨name, names, keys⟩ := List.exists_cons_of_ne_nil (mt keys_unitsOf_eq_nil_iff.mp some)
    obtain ⟨svc, inside, rfl⟩ := exists_of_mem_keys (keys ▸ List.mem_cons_self)
    obtain ⟨more, named⟩ := config.named svc inside
    rw [keys, run_serviceLinks more named] at ran
    cases ran
  · -- Without services the last line makes a directory, which is no link.
    intro without
    rw [keys_unitsOf_eq_nil_iff.mpr without]
    have none : (serviceLinks []).toList ++ "mkdir -p $out/services\n".toList =
        "mkdir -p $out/services\n".toList := rfl
    rw [none, run_mkdir_services]
    refine ⟨_, rfl, rfl, fun path => ?_⟩
    simp only [BuildEnv.state, below_eq_link_iff, NamedConfig.links, without]
    constructor
    · rintro ⟨target, rest, rfl, linked⟩
      rcases link_of_no_services.mp ⟨target, linked⟩ with rfl | rfl | rfl <;> simp
    · rintro ⟨link, inside, rfl⟩
      obtain ⟨target, linked⟩ := link_of_no_services.mpr (by simpa using inside)
      exact ⟨target, link, rfl, linked⟩

/-- A system with a web server. -/
def nginxConfig : NamedConfig where
  cfg := { hostname := "plex", services := [{ name := "nginx", exec := "nginx" }] }
  named := by decide

/-- A build whose parameters are all the same directory. -/
def storeEnv : BuildEnv where
  value _ := "/nix/store/out".toList
  value_plain _ := by decide
  echo words := [' '].intercalate words ++ ['\n']
  echo_plain _ _ _ := rfl
  out := ["nix".toList, "store".toList, "out".toList]
  resolved := by decide

/-- The first service ends the script. -/
theorem nginx_not_buildsFarm : ¬ nginxConfig.BuildsFarm storeEnv := by
  unfold NamedConfig.BuildsFarm NamedConfig.script
  rintro ⟨st, ran, -⟩
  have keys : (unitsOf nginxConfig.cfg.services).keys = ["nginx"] := by decide
  rw [run_profileScript, keys, run_serviceLinks (by decide) (by decide)] at ran
  cases ran

end

end Tatara.Os
