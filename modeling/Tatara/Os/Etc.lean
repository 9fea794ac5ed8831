import Tatara.Os.Profile

/-! When the script of `/etc` writes what the configuration declares. -/

namespace Tatara.Os

open Tatara.Rust Tatara.Shell BuildEnv

-- A statement about the characters of a text is decided on these, not on all characters.
attribute [local instance (high)] List.decidableBAll

/-- The names on the way to a file of `/etc`. -/
def EtcFile.names (f : EtcFile) : Path := f.path.toList.splitOn '/'

/-- The characters of a path that stand for themselves. -/
def isPathChar (c : Char) : Bool := c.isAlphanum || c == '-' || c == '_' || c == '.' || c == '/'

/-- A configuration whose files of `/etc` have relative paths of plain characters. -/
structure EtcConfig where
  cfg : SystemConfig
  relative : ∀ f ∈ cfg.environment.etcFiles, IsNames f.names
  plain : ∀ f ∈ cfg.environment.etcFiles, ∀ c ∈ f.path.toList, isPathChar c = true

/-- An entry of a passwd file. -/
structure PasswdEntry where
  name : List Char
  uid : Nat
  gid : Nat
  home : List Char
  shell : List Char
  deriving DecidableEq

/-- The line of an entry. -/
def PasswdEntry.line (e : PasswdEntry) : List Char :=
  [':'].intercalate
    [e.name, ['x'], renderNat e.uid, renderNat e.gid, [], e.home, e.shell]

/-- Read a line of a passwd file. -/
def PasswdEntry.read (line : List Char) : Option PasswdEntry :=
  match line.splitOn ':' with
  | [name, _, uid, gid, _, home, shell] => do
    let uid ← parseNat uid
    let gid ← parseNat gid
    pure { name, uid, gid, home, shell }
  | _ => none

/-- Read a passwd file, of which every line ends. -/
def readPasswd (text : List Char) : Option (List PasswdEntry) :=
  let lines := text.splitOn '\n'
  if lines.getLast? = some [] then lines.dropLast.mapM PasswdEntry.read else none

/-- The entry that a user declares. -/
def UserSpec.entry (u : UserSpec) : PasswdEntry :=
  let uid := u.uid.getD 1000
  { name := u.name.toList
    uid := uid.toNat
    gid := (u.gid.getD uid).toNat
    home := (u.home.getD ("/home/" ++ u.name)).toList
    shell := (u.shell.getD "/bin/sh").toList }

/-- The last of the files with these names. -/
def lastFile? (files : List EtcFile) (names : Path) : Option EtcFile :=
  files.reverse.find? (·.names = names)

namespace EtcConfig

variable (env : BuildEnv) (config : EtcConfig)

/-- What is there behind the script is what has been declared. -/
structure Declared (fs : FileSystem) : Prop where
  files : ∀ names f, lastFile? config.cfg.environment.etcFiles names = some f →
    ∃ text, fs (env.out ++ names) = some (.file text) ∧ Contains f.content.toList text
  users : config.cfg.users ≠ [] → ∃ text, fs (env.out ++ ["passwd".toList]) = some (.file text) ∧
    readPasswd text = some (config.cfg.users.map UserSpec.entry)
  hostname : ∃ text, fs (env.out ++ ["hostname".toList]) = some (.file text) ∧
    Contains config.cfg.hostname.toList text

/-- The script succeeds in an empty directory, and leaves what has been declared. -/
def WritesDeclared : Prop :=
  ∃ st, run env.toSurroundings { fs := below env.out emptyTree } (etcScript config.cfg).toList =
      some st ∧ st.succeeded = true ∧ config.Declared env st.fs

/-- The text of the passwd file. -/
def passwdText (users : List UserSpec) : List Char := users.flatMap fun u => u.entry.line ++ ['\n']

/-- The text of the release. -/
def releaseText (hostname : String) : List Char :=
  "NAME=\"tatara-os\"\nID=tatara\nPRETTY_NAME=\"tatara-os ".toList ++
    (hostname.toList ++ "\"\n".toList)

/-- The files that are written, one after the other. -/
def writes (config : EtcConfig) : List (Path × List Char) :=
  [(["hostname".toList], config.cfg.hostname.toList ++ ['\n']),
    (["os-release".toList], releaseText config.cfg.hostname)] ++
    config.cfg.environment.etcFiles.map (fun f => (f.names, f.content.toList)) ++
    if config.cfg.users = [] then [] else [(["passwd".toList], passwdText config.cfg.users)]

/-- A text between colons, on one line and in quotes. -/
def IsField (text : List Char) : Prop := ∀ c ∈ text, c ∉ ['\x27', '\\', ':', '\n']

instance : DecidablePred IsField := fun text => inferInstanceAs (Decidable (∀ c ∈ text, _))

/-- Nothing that is spliced into the script ends what it is in: the hostname is no option of `echo`
and has no backslash, and no line of it that the here-document has for itself is its sentinel; the
contents of files end their last line and have no sentinel; and the fields of users are fields. No
file is on the way to another one, and the file of the hostname and that of the users are not
written by others with another content. -/
structure Spliceable : Prop where
  option : config.cfg.hostname ≠ "-n"
  backslash : '\\' ∉ config.cfg.hostname.toList
  sentinel : "EOF".toList ∉ ((config.cfg.hostname.toList.splitOn '\n').drop 1).dropLast
  contents : ∀ f ∈ config.cfg.environment.etcFiles, Enclosed "TATARA_EOF".toList f.content.toList
  fields : ∀ u ∈ config.cfg.users,
    IsField u.entry.name ∧ IsField u.entry.home ∧ IsField u.entry.shell
  apart : Apart config.writes
  hostname : ∀ f, lastFile? config.cfg.environment.etcFiles ["hostname".toList] = some f →
    Contains config.cfg.hostname.toList f.content.toList
  passwd : config.cfg.users ≠ [] →
    ∀ f, lastFile? config.cfg.environment.etcFiles ["passwd".toList] = some f →
      Contains f.content.toList (passwdText config.cfg.users)

end EtcConfig

/-! ### The lines of the script -/

/-- The line for the hostname. -/
def hostnameLine (hostname : String) : List (Token (List Part)) :=
  [.word [.plain "echo".toList], .word [.quotes hostname.toList], .write,
    .word [.plain "$out/hostname".toList]]

/-- The line for the release. -/
def releaseLine : List (Token (List Part)) :=
  [.word [.plain "cat".toList], .write, .word [.plain "$out/os-release".toList], .hereDoc,
    .word [.quotes "EOF".toList]]

/-- The line for a file. -/
def EtcFile.line (f : EtcFile) : List (Token (List Part)) :=
  [.word [.plain "mkdir".toList], .word [.plain "-p".toList],
    .word [.plain "$".toList, .parens ("dirname $out/".toList ++ f.path.toList)], .and,
    .word [.plain "cat".toList], .write, .word [.plain ("$out/".toList ++ f.path.toList)], .hereDoc,
    .word [.quotes "TATARA_EOF".toList]]

/-- The line for an empty passwd file. -/
def passwdLine : List (Token (List Part)) :=
  [.word [.plain ":".toList], .write, .word [.plain "$out/passwd".toList]]

/-- The line for a user. -/
def UserSpec.line (u : UserSpec) : List (Token (List Part)) :=
  [.word [.plain "echo".toList], .word [.quotes u.entry.line], .append,
    .word [.plain "$out/passwd".toList]]

/-- A line is written with its end. -/
def printed (line : List (Token (List Part))) : List Char := spell line ++ ['\n']

/-- A file is written with its here-document. -/
def EtcFile.printed (f : EtcFile) : List Char :=
  spell f.line ++ '\n' :: (f.content.toList ++ ("TATARA_EOF".toList ++ ['\n']))

/-- A text without quotes is written in quotes as it is. -/
theorem escapeQuotes_of_notMem {text : List Char} (absent : '\x27' ∉ text) :
    escapeQuotes text = text := by
  -- By induction on the text: no character of it is doubled.
  induction text with
  | nil => rfl
  | cons c text ih =>
    have other : c ≠ '\x27' := fun same => absent (same ▸ List.mem_cons_self)
    have rest := ih fun inside => absent (List.mem_cons_of_mem _ inside)
    unfold escapeQuotes at rest ⊢
    rw [List.flatMap_cons, if_neg other, rest]
    rfl

/-- The text for a file. -/
theorem toList_etcFile (f : EtcFile) :
    ("mkdir -p $(dirname $out/" ++ f.path ++ ") && cat > $out/" ++ f.path ++
      " <<'TATARA_EOF'\n" ++ f.content ++ "TATARA_EOF\n").toList = f.printed := by
  simp [EtcFile.printed, EtcFile.line, spell, spellToken, Part.spell, escapeQuotes]

/-- The text for a user. -/
theorem toList_user {u : UserSpec} (field : '\x27' ∉ u.entry.line) :
    ("echo '" ++ u.name ++ ":x:" ++ renderU32 (u.uid.getD 1000) ++ ":" ++
      renderU32 (u.gid.getD (u.uid.getD 1000)) ++ "::" ++ u.home.getD ("/home/" ++ u.name) ++ ":" ++
      u.shell.getD "/bin/sh" ++ "' >> $out/passwd\n").toList = printed u.line := by
  -- Only the quotes would be spelled in another way, and there are none.
  rw [printed, UserSpec.line]
  simp only [spell, spellToken, Part.spell, List.flatMap_cons, List.flatMap_nil,
    escapeQuotes_of_notMem field]
  simp [PasswdEntry.line, UserSpec.entry, List.intercalate_cons_cons, renderU32]

variable {env : BuildEnv} {config : EtcConfig}

/-- The text for the hostname. -/
theorem toList_hostname (hostname : String) :
    ("echo '" ++ shellEscape hostname ++ "' > $out/hostname\n").toList =
      printed (hostnameLine hostname) := by
  -- Both write a quote as the shell wants it.
  have quoted : (shellEscape hostname).toList = escapeQuotes hostname.toList := by
    rw [shellEscape, shellSingleQuote, String.toList_ofList]
    rfl
  simp [printed, hostnameLine, spell, spellToken, Part.spell, quoted]

/-- A text that is spliced between two others. -/
theorem toList_splice {before behind : String} {line front back sentinel : List Char}
    (first : before.toList = line ++ '\n' :: front) (last : behind.toList = back ++ sentinel)
    (text : String) :
    (before ++ text ++ behind).toList =
      line ++ '\n' :: (front ++ (text.toList ++ back) ++ sentinel) := by
  simp only [String.toList_append, first, last, List.append_assoc, List.cons_append]

/-- The text for the release. -/
theorem toList_release (hostname : String) :
    ("cat > $out/os-release <<'EOF'\nNAME=\"tatara-os\"\nID=tatara\nPRETTY_NAME=\"tatara-os " ++
        hostname ++ "\"\nEOF\n").toList =
      spell releaseLine ++ '\n' :: (EtcConfig.releaseText hostname ++ ("EOF".toList ++ ['\n'])) := by
  -- Neither end depends on the hostname.
  have front : "cat > $out/os-release <<'EOF'\nNAME=\"tatara-os\"\nID=tatara\nPRETTY_NAME=\"tatara-os ".toList =
      spell releaseLine ++ '\n' ::
        "NAME=\"tatara-os\"\nID=tatara\nPRETTY_NAME=\"tatara-os ".toList := by decide +kernel
  have back : "\"\nEOF\n".toList = "\"\n".toList ++ ("EOF".toList ++ ['\n']) := rfl
  exact toList_splice front back hostname

/-- The parts of the script behind one another. -/
theorem toList_parts {start open_ name close release host ended files users : String}
    {first second line text sentinel nameLine fileLines userLines : List Char}
    (hStart : start.toList = first ++ second) (hName : (open_ ++ name ++ close).toList = nameLine)
    (hRelease : (release ++ host ++ ended).toList =
      line ++ '\n' :: (text ++ (sentinel ++ ['\n'])))
    (hFiles : files.toList = fileLines) (hUsers : users.toList = userLines) :
    (start ++ open_ ++ name ++ close ++ release ++ host ++ ended ++ files ++ users).toList =
      first ++ (second ++ (nameLine ++ (line ++ '\n' :: (text ++ (sentinel ++ '\n' ::
        (fileLines ++ userLines)))))) := by
  -- The text is grouped the way its parts are known.
  have grouped : start ++ open_ ++ name ++ close ++ release ++ host ++ ended ++ files ++ users =
      start ++ ((open_ ++ name ++ close) ++ ((release ++ host ++ ended) ++ (files ++ users))) := by
    simp only [String.append_assoc]
  rw [grouped, @String.toList_append start, hStart, @String.toList_append (open_ ++ name ++ close),
    hName, @String.toList_append (release ++ host ++ ended), hRelease, String.toList_append, hFiles,
    hUsers]
  simp only [List.append_assoc, List.cons_append, List.nil_append]

/-- The script, line by line. -/
theorem toList_etcScript (fields : ∀ u ∈ config.cfg.users, '\x27' ∉ u.entry.line) :
    (etcScript config.cfg).toList = "set -eu\n".toList ++ ("mkdir -p $out\n".toList ++
      (printed (hostnameLine config.cfg.hostname) ++
        (spell releaseLine ++ '\n' :: (EtcConfig.releaseText config.cfg.hostname ++
          ("EOF".toList ++ '\n' :: (config.cfg.environment.etcFiles.flatMap EtcFile.printed ++
            if config.cfg.users = [] then []
            else printed passwdLine ++ config.cfg.users.flatMap fun u => printed u.line)))))) := by
  -- One line a user, each known by itself.
  have users : (String.join (config.cfg.users.map fun u =>
      "echo '" ++ u.name ++ ":x:" ++ renderU32 (u.uid.getD 1000) ++ ":" ++
        renderU32 (u.gid.getD (u.uid.getD 1000)) ++ "::" ++ u.home.getD ("/home/" ++ u.name) ++
        ":" ++ u.shell.getD "/bin/sh" ++ "' >> $out/passwd\n")).toList =
      config.cfg.users.flatMap fun u => printed u.line := by
    rw [String.toList_join, List.flatMap_map]
    exact List.flatMap_congr fun u inside => toList_user (fields u inside)
  have empty : ": > $out/passwd\n".toList = printed passwdLine := rfl
  refine toList_parts rfl (toList_hostname config.cfg.hostname)
    (toList_release config.cfg.hostname) ?_ ?_
  · rw [String.toList_join, List.flatMap_map]
    exact List.flatMap_congr fun f _ => toList_etcFile f
  · -- The file for the users is only made if there are any.
    by_cases none : config.cfg.users = []
    · rw [none]
      rfl
    · rw [if_neg none, if_neg (by simpa using none), String.toList_append, users]
      exact congrArg (· ++ _) empty

/-! ### The effects of the lines -/

section effects

variable {tree : FileSystem} {files : List (Path × List Char)}

/-- A quoted word is its text. -/
theorem wordText_quoted (value : List Char → List Char) (text : List Char) :
    wordText value (text.map .quoted) = some text := by
  -- A quoted character is never expanded.
  have expanded := @expand_quoted value text []
  rw [List.append_nil] at expanded
  have whole : wordText value (text.map .quoted) = expand value .text (text.map .quoted) := by
    cases text <;> rfl
  rw [whole, expanded]
  simp [expand]

/-- The output of a command goes to a file. -/
theorem run_output {words : List (List Char)} {text body : List Char} {names : Path} {append : Bool}
    (ran : builtin env.toSurroundings (env.state tree) body words = some (text, env.state tree))
    (ok : IsNames names) :
    runAll env.toSurroundings body
        [{ words, output := some (append, env.value "out".toList ++ '/' :: ['/'].intercalate names) }]
        (env.state tree) = (writeFile tree names append text).map env.state := by
  -- The text of the command goes to the path below `$out`.
  rw [runAll_single, Simple.run, ran, Option.bind_some]
  dsimp only
  rw [pathOf_out ok, Option.bind_some, BuildEnv.state, writeFile_below ok.1]
  cases writeFile tree names append text <;> rfl

/-- The first file of a name in the root. -/
theorem writeFile_top {names : Path} {text : List Char} (apart : Apart (files ++ [(names, text)]))
    (top : names.dropLast = []) :
    writeFile (treeOf files) names false text = some (treeOf (files ++ [(names, text)])) := by
  have root := treeOf_root apart.front
  have written := write_treeOf apart
  rwa [top, makeDirectories_root root, Option.bind_some] at written

/-- The hostname is written. -/
theorem run_hostname {hostname : String} (option : hostname ≠ "-n") (plain : '\\' ∉ hostname.toList)
    (apart : Apart (files ++ [(["hostname".toList], hostname.toList ++ ['\n'])]))
    (rest : List Char) :
    run env.toSurroundings (env.state (treeOf files)) (printed (hostnameLine hostname) ++ rest) =
      run env.toSurroundings
        (env.state (treeOf (files ++ [(["hostname".toList], hostname.toList ++ ['\n'])]))) rest := by
  -- Only the path has anything to expand.
  have target := @wordText_out env "hostname".toList (by decide)
  have texts : ((hostnameLine hostname).map symbolsOf).mapM (tokenText env.value) =
      some [.word "echo".toList, .word hostname.toList, .write,
        .word (env.value "out".toList ++ '/' :: "hostname".toList)] := by
    have symbols : (hostnameLine hostname).map symbolsOf = [.word ("echo".toList.map .bare),
        .word (hostname.toList.map .quoted), .write,
        .word (("$out/".toList ++ "hostname".toList).map .bare)] := by
      simp [hostnameLine, symbolsOf, Part.symbols]
    rw [symbols, List.mapM_cons, List.mapM_cons, List.mapM_cons, List.mapM_cons]
    simp only [tokenText, wordText_quoted, target]
    rfl
  have sound : Sound (hostnameLine hostname) :=
    .word (by decide) (.word trivial (.word (by decide) trivial))
  -- The builtin prints the hostname and a newline.
  have echo : builtin env.toSurroundings (env.state (treeOf files)) []
      ["echo".toList, hostname.toList] =
        some (hostname.toList ++ ['\n'], env.state (treeOf files)) := by
    have prints := env.echo_plain [hostname.toList]
      (by simpa [String.ext_iff] using option) (by simpa using plain)
    rw [List.intercalate_singleton] at prints
    exact congrArg (fun text => some (text, env.state (treeOf files))) prints
  rw [printed, List.append_assoc, List.singleton_append, run_spell sound texts rfl rfl]
  -- The file is new, since its name is apart from all others.
  have effect := @run_output env (treeOf files) _ _ [] ["hostname".toList] false echo (by decide)
  rw [writeFile_top apart rfl] at effect
  exact congrArg (·.bind (run env.toSurroundings · rest)) effect

/-- The release is written. -/
theorem run_release {text : List Char} (enclosed : Enclosed "EOF".toList text)
    (apart : Apart (files ++ [(["os-release".toList], text)])) (rest : List Char) :
    run env.toSurroundings (env.state (treeOf files))
        (spell releaseLine ++ '\n' :: (text ++ ("EOF".toList ++ '\n' :: rest))) =
      run env.toSurroundings (env.state (treeOf (files ++ [(["os-release".toList], text)]))) rest := by
  -- The path is expanded, the sentinel is quoted, and the rest is fixed.
  have target := @wordText_out env "os-release".toList (by decide)
  have sentinel := wordText_quoted env.value "EOF".toList
  have texts : (releaseLine.map symbolsOf).mapM (tokenText env.value) =
      some [.word "cat".toList, .write,
        .word (env.value "out".toList ++ '/' :: "os-release".toList), .hereDoc,
        .word "EOF".toList] := by
    have symbols : releaseLine.map symbolsOf = [.word ("cat".toList.map .bare), .write,
        .word (("$out/".toList ++ "os-release".toList).map .bare), .hereDoc,
        .word ("EOF".toList.map .quoted)] := rfl
    rw [symbols, List.mapM_cons, List.mapM_cons, List.mapM_cons, List.mapM_cons, List.mapM_cons]
    simp only [tokenText, sentinel, target]
    rfl
  have sound : Sound releaseLine := .word (by decide) (.word (by decide) trivial)
  -- `cat` prints what stands between the line and the sentinel.
  have effect := @run_output env (treeOf files) ["cat".toList] text text ["os-release".toList] false
    rfl (by decide)
  rw [writeFile_top apart rfl] at effect
  rw [run_spell_hereDoc sound texts rfl rfl enclosed (by decide)]
  exact congrArg (·.bind (run env.toSurroundings · rest)) effect

/-- The directory of a file below `$out`. -/
theorem pathOf_dirname {names : Path} (ok : IsNames names) :
    pathOf (dirname (env.value "out".toList ++ '/' :: ['/'].intercalate names)) =
      some (env.out ++ names.dropLast) := by
  obtain ⟨more, each⟩ := ok
  -- The last name is what `dirname` drops.
  rw [← List.dropLast_concat_getLast more] at each ⊢
  generalize names.dropLast = front at each ⊢
  generalize names.getLast more = last at each ⊢
  have whole := (each last (List.mem_append_right _ List.mem_cons_self)).2.1
  rw [List.dropLast_concat]
  -- Without a name in front of it what is left is `$out` itself.
  by_cases top : front = []
  · subst top
    rw [List.nil_append, List.intercalate_singleton, dirname_append whole, List.append_nil]
    exact env.resolved
  · rw [Delimited.intercalate_concat top, ← List.cons_append, ← List.append_assoc, dirname_append whole]
    exact pathOf_out ⟨top, fun name inside => each name (List.mem_append_left _ inside)⟩

/-- The characters of a path stand for themselves in a word. -/
theorem isWordChar_of_path {c : Char} (plain : isPathChar c = true) :
    isWordChar c = true ∧ c ≠ '$' ∧ c ≠ ' ' := by
  -- Each of the others is looked at once, and none of them belongs to a path.
  have others : ∀ d ∈ foreign ++ special ++ ['$', ' '], isPathChar d = false := by decide
  have absent : c ∉ foreign ++ special ++ ['$', ' '] := by
    intro inside
    rw [others c inside] at plain
    cases plain
  simp only [List.mem_append, List.mem_cons, List.not_mem_nil, or_false, not_or] at absent
  exact ⟨decide_eq_true absent.1, absent.2⟩

/-- A file is written, with the directories on its way. -/
theorem run_etcFile {f : EtcFile} (ok : IsNames f.names)
    (plain : ∀ c ∈ f.path.toList, isPathChar c = true)
    (enclosed : Enclosed "TATARA_EOF".toList f.content.toList)
    (apart : Apart (files ++ [(f.names, f.content.toList)])) (rest : List Char) :
    run env.toSurroundings (env.state (treeOf files)) (f.printed ++ rest) =
      run env.toSurroundings (env.state (treeOf (files ++ [(f.names, f.content.toList)]))) rest := by
  have path : ['/'].intercalate f.names = f.path.toList := List.intercalate_splitOn '/'
  -- Nothing in a path is expanded, and nothing in it separates words.
  have noDollar : '$' ∉ f.path.toList := fun inside => (isWordChar_of_path (plain _ inside)).2.1 rfl
  have target := @wordText_out env f.path.toList noDollar
  have whole : Symbol.bare ' ' ∉ ("$out/".toList ++ f.path.toList).map Symbol.bare := by
    intro inside
    obtain ⟨c, among, same⟩ := List.mem_map.mp inside
    cases same
    rcases List.mem_append.mp among with front | behind
    · exact absurd front (by decide)
    · exact (isWordChar_of_path (plain _ behind)).2.2 rfl
  have directory := wordText_dirname whole (@expand_out env _ noDollar)
  -- Nine tokens: the directory is made first, then the file is written.
  have sentinel := wordText_quoted env.value "TATARA_EOF".toList
  have symbols : f.line.map symbolsOf = [.word ("mkdir".toList.map .bare),
      .word ("-p".toList.map .bare),
      .word (.bare '$' :: .bare '(' :: ("dirname ".toList.map .bare ++
        ("$out/".toList ++ f.path.toList).map .bare ++ [.bare ')'])), .and,
      .word ("cat".toList.map .bare), .write,
      .word (("$out/".toList ++ f.path.toList).map .bare), .hereDoc,
      .word ("TATARA_EOF".toList.map .quoted)] := by
    simp [EtcFile.line, symbolsOf, Part.symbols]
  have texts : (f.line.map symbolsOf).mapM (tokenText env.value) =
      some [.word "mkdir".toList, .word "-p".toList,
        .word (dirname (env.value "out".toList ++ '/' :: f.path.toList)), .and,
        .word "cat".toList, .write, .word (env.value "out".toList ++ '/' :: f.path.toList), .hereDoc,
        .word "TATARA_EOF".toList] := by
    rw [symbols, List.mapM_cons, List.mapM_cons, List.mapM_cons, List.mapM_cons, List.mapM_cons,
      List.mapM_cons, List.mapM_cons, List.mapM_cons, List.mapM_cons]
    simp only [tokenText, sentinel, target, directory]
    rfl
  have words : ∀ c ∈ "$out/".toList ++ f.path.toList, isWordChar c = true :=
    isWordChar_out fun c inside => ⟨(isWordChar_of_path (plain c inside)).1,
      (isWordChar_of_path (plain c inside)).2.1⟩
  -- Of the nine tokens only three depend on the path, one of them through `dirname`.
  have sound : Sound f.line := by
    refine .word (by decide) (.word (by decide) ⟨by simp, ?_, .word (by decide) (.word ⟨by simp, words⟩
      trivial)⟩)
    simp only [List.forall_mem_cons]
    refine ⟨by decide, fun c inside => ?_, by simp⟩
    rcases List.mem_append.mp inside with front | behind
    · have fixed : ∀ d ∈ "dirname $out/".toList, isWordChar d = true ∨ d = ' ' := by decide
      exact fixed c front
    · exact .inl (isWordChar_of_path (plain c behind)).1
  have root := treeOf_root apart.front
  have found := @pathOf_dirname env _ ok
  rw [path] at found
  have text : f.printed ++ rest = spell f.line ++ '\n' :: (f.content.toList ++
      ("TATARA_EOF".toList ++ '\n' :: rest)) := by
    simp only [EtcFile.printed, List.append_assoc, List.cons_append, List.nil_append]
  -- The file can be written, so that its directories can be made.
  obtain ⟨made, directories, written⟩ := Option.bind_eq_some_iff.mp (write_treeOf apart)
  have first := @run_mkdirCommand env (treeOf files) _ f.content.toList _ found root
  rw [directories, Option.map_some] at first
  have second := @run_output env made ["cat".toList] f.content.toList f.content.toList f.names false
    rfl ok
  rw [written, path] at second
  have both := (runAll_cons first (List.cons_ne_nil _ [])).trans second
  rw [text, run_spell_hereDoc sound texts rfl rfl enclosed (by decide)]
  exact congrArg (·.bind (run env.toSurroundings · rest)) both

/-- The files are written one after the other. -/
theorem run_etcFiles {etcFiles : List EtcFile} (ok : ∀ f ∈ etcFiles, IsNames f.names)
    (plain : ∀ f ∈ etcFiles, ∀ c ∈ f.path.toList, isPathChar c = true)
    (enclosed : ∀ f ∈ etcFiles, Enclosed "TATARA_EOF".toList f.content.toList)
    (apart : Apart (files ++ etcFiles.map fun f => (f.names, f.content.toList)))
    (rest : List Char) :
    run env.toSurroundings (env.state (treeOf files)) (etcFiles.flatMap EtcFile.printed ++ rest) =
      run env.toSurroundings
        (env.state (treeOf (files ++ etcFiles.map fun f => (f.names, f.content.toList)))) rest := by
  -- By induction on the files: each is apart from those written before it.
  induction etcFiles generalizing files with
  | nil => simp
  | cons f etcFiles ih =>
    have split : files ++ (f :: etcFiles).map (fun f => (f.names, f.content.toList)) =
        (files ++ [(f.names, f.content.toList)]) ++
          etcFiles.map fun f => (f.names, f.content.toList) := by simp
    rw [split] at apart ⊢
    rw [List.flatMap_cons, List.append_assoc,
      run_etcFile (ok f List.mem_cons_self) (plain f List.mem_cons_self)
        (enclosed f List.mem_cons_self) apart.front,
      ih (fun g inside => ok g (List.mem_cons_of_mem _ inside))
        (fun g inside => plain g (List.mem_cons_of_mem _ inside))
        (fun g inside => enclosed g (List.mem_cons_of_mem _ inside)) apart]

/-- The passwd file is emptied. -/
theorem run_passwd (apart : Apart (files ++ [(["passwd".toList], [])])) (rest : List Char) :
    run env.toSurroundings (env.state (treeOf files)) (printed passwdLine ++ rest) =
      run env.toSurroundings (env.state (treeOf (files ++ [(["passwd".toList], [])]))) rest := by
  -- Only the path has anything to expand.
  have target := @wordText_out env "passwd".toList (by decide)
  have texts : (passwdLine.map symbolsOf).mapM (tokenText env.value) =
      some [.word ":".toList, .write,
        .word (env.value "out".toList ++ '/' :: "passwd".toList)] := by
    have symbols : passwdLine.map symbolsOf = [.word (":".toList.map .bare), .write,
        .word (("$out/".toList ++ "passwd".toList).map .bare)] := rfl
    rw [symbols, List.mapM_cons, List.mapM_cons, List.mapM_cons]
    simp only [tokenText, target]
    rfl
  have sound : Sound passwdLine := .word (by decide) (.word (by decide) trivial)
  -- The command prints nothing, so that the file is made empty.
  have effect := @run_output env (treeOf files) [":".toList] [] [] ["passwd".toList] false rfl
    (by decide)
  rw [writeFile_top apart rfl] at effect
  rw [printed, List.append_assoc, List.singleton_append, run_spell sound texts rfl rfl]
  exact congrArg (·.bind (run env.toSurroundings · rest)) effect

/-- The line of an entry is no option. -/
theorem PasswdEntry.line_ne (e : PasswdEntry) : e.line ≠ ['-', 'n'] := by
  intro same
  -- An entry has colons, and `-n` has none.
  have colon : ':' ∈ e.line := by simp [PasswdEntry.line, List.intercalate_cons_cons]
  rw [same] at colon
  exact absurd colon (by decide)

/-- A user is written behind the others. -/
theorem run_user {u : UserSpec} (plain : '\\' ∉ u.entry.line) {text : List Char}
    (apart : Apart (files ++ [(["passwd".toList], text)])) (rest : List Char) :
    run env.toSurroundings (env.state (treeOf (files ++ [(["passwd".toList], text)])))
        (printed u.line ++ rest) =
      run env.toSurroundings
        (env.state (treeOf (files ++ [(["passwd".toList], text ++ (u.entry.line ++ ['\n']))])))
          rest := by
  -- The entry stands in quotes, so that only the path is expanded.
  have target := @wordText_out env "passwd".toList (by decide)
  have texts : (u.line.map symbolsOf).mapM (tokenText env.value) =
      some [.word "echo".toList, .word u.entry.line, .append,
        .word (env.value "out".toList ++ '/' :: "passwd".toList)] := by
    have symbols : u.line.map symbolsOf = [.word ("echo".toList.map .bare),
        .word (u.entry.line.map .quoted), .append,
        .word (("$out/".toList ++ "passwd".toList).map .bare)] := by
      simp [UserSpec.line, symbolsOf, Part.symbols]
    rw [symbols, List.mapM_cons, List.mapM_cons, List.mapM_cons, List.mapM_cons]
    simp only [tokenText, wordText_quoted, target]
    rfl
  have sound : Sound u.line := .word (by decide) (.word trivial (.word (by decide) trivial))
  -- With a newline behind it, this is a line of the file.
  have echo (st : State) : builtin env.toSurroundings st [] ["echo".toList, u.entry.line] =
      some (u.entry.line ++ ['\n'], st) := by
    have prints := env.echo_plain [u.entry.line] (by simpa using u.entry.line_ne)
      (by simpa using plain)
    rw [List.intercalate_singleton] at prints
    exact congrArg (fun text => some (text, st)) prints
  -- The file is there, and the line goes to its end.
  have effect := @run_output env (treeOf (files ++ [(["passwd".toList], text)])) _ _ []
    ["passwd".toList] true (echo _) (by decide)
  rw [append_treeOf apart rfl] at effect
  rw [printed, List.append_assoc, List.singleton_append, run_spell sound texts rfl rfl]
  exact congrArg (·.bind (run env.toSurroundings · rest)) effect

/-- The users are written one after the other. -/
theorem run_users {users : List UserSpec} (plain : ∀ u ∈ users, '\\' ∉ u.entry.line)
    {text : List Char} (apart : Apart (files ++ [(["passwd".toList], text)])) :
    run env.toSurroundings (env.state (treeOf (files ++ [(["passwd".toList], text)])))
        (users.flatMap fun u => printed u.line) =
      some (env.state (treeOf
        (files ++ [(["passwd".toList], text ++ EtcConfig.passwdText users)]))) := by
  -- By induction on the users: the text that is in the file grows by a line each time.
  induction users generalizing text with
  | nil => simp [EtcConfig.passwdText]
  | cons u users ih =>
    have level : Apart (files ++ [(["passwd".toList], text ++ (u.entry.line ++ ['\n']))]) :=
      apart.congr (by simp)
    rw [List.flatMap_cons, run_user (plain u List.mem_cons_self) apart,
      ih (fun v inside => plain v (List.mem_cons_of_mem _ inside)) level]
    simp [EtcConfig.passwdText]

end effects

/-! ### The files that are left -/

namespace PasswdEntry

variable {e : PasswdEntry}

/-- An entry whose texts are fields is one line that can be written in quotes. -/
theorem notMem_line (name : EtcConfig.IsField e.name) (home : EtcConfig.IsField e.home)
    (shell : EtcConfig.IsField e.shell) {c : Char} (apart : c ∈ ['\x27', '\\', '\n']) :
    c ∉ e.line := by
  -- What may stand in a field is none of the three.
  have outside {text : List Char} (field : EtcConfig.IsField text) : c ∉ text := by
    intro inside
    have other := field c inside
    simp only [List.mem_cons, List.not_mem_nil, or_false] at apart other
    tauto
  -- A number has only digits.
  have digits (n : Nat) : c ∉ renderNat n := by
    intro inside
    have digit := renderNat_isDigit inside
    have others : ∀ d ∈ ['\x27', '\\', '\n'], d.isDigit = false := by decide
    rw [others c apart] at digit
    cases digit
  have fixed : c ≠ ':' ∧ c ≠ 'x' := by
    have others : ∀ d ∈ ['\x27', '\\', '\n'], d ≠ ':' ∧ d ≠ 'x' := by decide
    exact others c apart
  simp [line, List.intercalate_cons_cons, outside name, outside home, outside shell, digits, fixed]

/-- The line of an entry is read back. -/
theorem read_line (name : EtcConfig.IsField e.name) (home : EtcConfig.IsField e.home)
    (shell : EtcConfig.IsField e.shell) : read e.line = some e := by
  -- No part of the entry has a colon, so that it is cut where it was put together.
  have outside {text : List Char} (field : EtcConfig.IsField text) : ':' ∉ text :=
    fun inside => field ':' inside (by simp)
  have digits (n : Nat) : ':' ∉ renderNat n := fun inside =>
    absurd (renderNat_isDigit inside) (by decide)
  have parts : e.line.splitOn ':' =
      [e.name, ['x'], renderNat e.uid, renderNat e.gid, [], e.home, e.shell] :=
    List.splitOn_intercalate ':'
      (by simp [outside name, outside home, outside shell, digits]) (by simp)
  simp [read, parts, parseNat_renderNat]

end PasswdEntry

namespace EtcConfig

/-- The passwd file is read back. -/
theorem readPasswd_passwdText {users : List UserSpec}
    (fields : ∀ u ∈ users, IsField u.entry.name ∧ IsField u.entry.home ∧ IsField u.entry.shell) :
    readPasswd (passwdText users) = some (users.map UserSpec.entry) := by
  -- Cut at the newlines: one line for each user, and what stands behind the last newline.
  have lines : (passwdText users).splitOn '\n' = users.map (fun u => u.entry.line) ++ [[]] := by
    induction users with
    | nil => rfl
    | cons u users ih =>
      obtain ⟨name, home, shell⟩ := fields u List.mem_cons_self
      have whole : '\n' ∉ u.entry.line := PasswdEntry.notMem_line name home shell (by simp)
      have rest := ih fun v inside => fields v (List.mem_cons_of_mem _ inside)
      have first : passwdText (u :: users) = u.entry.line ++ '\n' :: passwdText users := by
        simp [passwdText]
      rw [first, List.splitOn_append_cons_self_of_not_mem whole, rest]
      rfl
  -- Each of the lines is read by itself.
  have entries : (users.map fun u => u.entry.line).mapM PasswdEntry.read =
      some (users.map UserSpec.entry) := by
    clear lines
    induction users with
    | nil => rfl
    | cons u users ih =>
      obtain ⟨name, home, shell⟩ := fields u List.mem_cons_self
      rw [List.map_cons, List.mapM_cons, PasswdEntry.read_line name home shell,
        ih fun v inside => fields v (List.mem_cons_of_mem _ inside)]
      rfl
  have ended : ((passwdText users).splitOn '\n').getLast? = some [] := by rw [lines]; simp
  unfold readPasswd
  rw [if_pos ended, lines, List.dropLast_concat, entries]

/-- The release is taken whole, where no line of the hostname is the sentinel. -/
theorem enclosed_releaseText {hostname : String}
    (absent : "EOF".toList ∉ ((hostname.toList.splitOn '\n').drop 1).dropLast) :
    Enclosed "EOF".toList (releaseText hostname) := by
  -- The text in front and the one behind each have a line of their own.
  have spliced {front first before back behind : List Char} (split : front = first ++ '\n' :: before)
      (split' : back = behind ++ ['\n']) (text : List Char) : front ++ (text ++ back) =
        first ++ '\n' :: ((before ++ text ++ behind) ++ '\n' :: []) := by
    rw [split, split']
    simp
  have front : "NAME=\"tatara-os\"\nID=tatara\nPRETTY_NAME=\"tatara-os ".toList =
      "NAME=\"tatara-os\"\nID=tatara".toList ++ '\n' :: "PRETTY_NAME=\"tatara-os ".toList := by
    decide +kernel
  have back : "\"\n".toList = ['\x22'] ++ ['\n'] := rfl
  have text : releaseText hostname = _ := spliced front back hostname.toList
  -- Of the lines of the text only those within the hostname could be the sentinel.
  rw [text]
  exact enclosed_splice (by decide) (by decide +kernel) absent (by decide +kernel)
    (by decide +kernel) (by decide +kernel) (by decide)

/-- The script writes its files one after the other. -/
theorem run_etcScript (h : config.Spliceable) :
    run env.toSurroundings { fs := below env.out emptyTree } (etcScript config.cfg).toList =
      some (env.state (treeOf config.writes)) := by
  obtain ⟨option, backslash, sentinel, contents, fields, apart, -, -⟩ := h
  -- No line of a user has one of the characters that would end it.
  have lines (u : UserSpec) (inside : u ∈ config.cfg.users) {c : Char}
      (special : c ∈ ['\x27', '\\', '\n']) : c ∉ u.entry.line := by
    obtain ⟨name, home, shell⟩ := fields u inside
    exact PasswdEntry.notMem_line name home shell special
  have empty : emptyTree = treeOf [] := by
    funext path
    simp [emptyTree, treeOf]
  have root : emptyTree [] = some .directory := rfl
  have enclosed := enclosed_releaseText sentinel
  have files : Apart ([(["hostname".toList], config.cfg.hostname.toList ++ ['\n']),
      (["os-release".toList], releaseText config.cfg.hostname)] ++
        config.cfg.environment.etcFiles.map fun f => (f.names, f.content.toList)) := apart.front
  -- Whatever has been written so far is apart from what comes.
  have second : Apart ([(["hostname".toList], config.cfg.hostname.toList ++ ['\n'])] ++
      [(["os-release".toList], releaseText config.cfg.hostname)]) := files.front
  -- From here on the script goes line by line.
  rw [toList_etcScript fun u inside => lines u inside (by simp), run_set, run_mkdir_out root, empty]
  refine (@run_hostname env [] _ option backslash second.front _).trans ?_
  refine (run_release enclosed second _).trans ?_
  refine (run_etcFiles config.relative config.plain contents files _).trans ?_
  unfold writes at apart ⊢
  -- The file for the users is only there if there are users.
  by_cases none : config.cfg.users = []
  · rw [if_pos none, if_pos none, run_nil, List.append_nil]
  · rw [if_neg none] at apart ⊢
    rw [if_neg none]
    refine (run_passwd (apart.congr (by simp)) _).trans ?_
    exact run_users (fun u inside => lines u inside (by simp)) (apart.congr (by simp))

/-- The last file of a name is looked up. -/
theorem lookup_etcFiles (etcFiles : List EtcFile) (names : Path) :
    (etcFiles.map fun f => (f.names, f.content.toList)).reverse.lookup names =
      (lastFile? etcFiles names).map fun f => f.content.toList := by
  -- The search from the end is a search in the reversed list.
  rw [← List.map_reverse, lastFile?]
  induction etcFiles.reverse with
  | nil => rfl
  | cons f others ih =>
    rw [List.map_cons, List.lookup_cons, ih, List.find?_cons]
    by_cases same : f.names = names
    · simp [same]
    · simp [same, beq_false_of_ne (Ne.symm same)]

/-- The files are looked up from the last one on. -/
theorem lookup_writes (config : EtcConfig) (names : Path) :
    config.writes.reverse.lookup names =
      ((if config.cfg.users = [] then [] else
          [(["passwd".toList], passwdText config.cfg.users)]).lookup names).or
        (((lastFile? config.cfg.environment.etcFiles names).map fun f => f.content.toList).or
          ([(["os-release".toList], releaseText config.cfg.hostname),
            (["hostname".toList], config.cfg.hostname.toList ++ ['\n'])].lookup names)) := by
  -- A list of at most one entry is its own reverse.
  have single : (if config.cfg.users = [] then [] else
      [(["passwd".toList], passwdText config.cfg.users)]).reverse =
        if config.cfg.users = [] then [] else
          [(["passwd".toList], passwdText config.cfg.users)] := by
    split <;> rfl
  rw [writes, List.reverse_append, List.reverse_append, single, List.lookup_append,
    List.lookup_append, lookup_etcFiles]
  rfl

/-- The script writes what has been declared, where nothing that is spliced into it ends what it is
in. -/
theorem writesDeclared_of_spliceable (env : BuildEnv) (config : EtcConfig)
    (h : config.Spliceable) : config.WritesDeclared env := by
  -- The script runs through; what is left is what the tree holds then.
  refine ⟨_, run_etcScript h, rfl, ?_⟩
  have found {names : Path} {text : List Char}
      (there : config.writes.reverse.lookup names = some text) :
      (env.state (treeOf config.writes)).fs (env.out ++ names) = some (.file text) := by
    have inside : (env.state (treeOf config.writes)).fs (env.out ++ names) =
        treeOf config.writes names := below_append
    rw [inside, treeOf, there]
  have root : ["hostname".toList] ≠ ["passwd".toList] := by decide
  -- Each of the three is looked up in the order of the writes, the last one first.
  constructor
  case files =>
    intro names f last
    -- Only the file for the users is written behind the declared ones.
    by_cases users : config.cfg.users ≠ [] ∧ names = ["passwd".toList]
    · obtain ⟨more, rfl⟩ := users
      exact ⟨_, found (by rw [lookup_writes, if_neg more]; rfl), h.passwd more f last⟩
    · have other : (if config.cfg.users = [] then [] else
          [(["passwd".toList], passwdText config.cfg.users)]).lookup names = none := by
        split
        · rfl
        · next more =>
          have apart : names ≠ ["passwd".toList] := fun same => users ⟨more, same⟩
          rw [List.lookup_cons, beq_false_of_ne apart]
          rfl
      exact ⟨_, found (by rw [lookup_writes, other, last]; rfl), .inl rfl⟩
  case users =>
    intro more
    exact ⟨_, found (by rw [lookup_writes, if_neg more]; rfl), readPasswd_passwdText h.fields⟩
  case hostname =>
    have other : (if config.cfg.users = [] then [] else
        [(["passwd".toList], passwdText config.cfg.users)]).lookup ["hostname".toList] = none := by
      split
      · rfl
      · rw [List.lookup_cons, beq_false_of_ne root]
        rfl
    cases last : lastFile? config.cfg.environment.etcFiles ["hostname".toList] with
    | none => exact ⟨_, found (by rw [lookup_writes, other, last]; rfl), .inr rfl⟩
    | some f => exact ⟨_, found (by rw [lookup_writes, other, last]; rfl), h.hostname f last⟩

end EtcConfig

/-- A web server with a file of its own and a user. -/
def proxyConfig : EtcConfig where
  cfg :=
    { hostname := "plex"
      users := [{ name := "web", uid := some 900 }]
      environment := { etcFiles := [{ path := "nginx/nginx.conf", content := "user web;\n" }] } }
  relative := by decide
  plain := by decide

/-- Nothing of it ends what it is in. -/
theorem proxy_writesDeclared : proxyConfig.Spliceable ∧ proxyConfig.WritesDeclared storeEnv := by
  -- No declared file has the name of one that the script writes by itself.
  have noHostname : lastFile? proxyConfig.cfg.environment.etcFiles ["hostname".toList] = none := rfl
  have noPasswd : lastFile? proxyConfig.cfg.environment.etcFiles ["passwd".toList] = none := rfl
  have spliceable : proxyConfig.Spliceable :=
    { option := by decide
      backslash := by decide
      sentinel := by decide
      contents := by decide
      fields := by decide
      apart := by decide +kernel
      hostname := fun f last => by
        rw [noHostname] at last
        cases last
      passwd := fun _ f last => by
        rw [noPasswd] at last
        cases last }
  exact ⟨spliceable, EtcConfig.writesDeclared_of_spliceable storeEnv proxyConfig spliceable⟩

/-- A message without an end of its line. -/
def motd : EtcFile := { path := "motd", content := "welcome" }

/-- A system with nothing but the message. -/
def motdConfig : EtcConfig where
  cfg := { hostname := "plex", environment := { etcFiles := [motd] } }
  relative := by decide
  plain := by decide

/-- The message takes its sentinel in. -/
theorem motd_not_writesDeclared : ¬ motdConfig.WritesDeclared storeEnv := by
  rintro ⟨st, ran, -, declared⟩
  have empty : emptyTree = treeOf [] := by
    funext path
    simp [emptyTree, treeOf]
  let name : Path × List Char := (["hostname".toList], motdConfig.cfg.hostname.toList ++ ['\n'])
  let release : Path × List Char :=
    (["os-release".toList], EtcConfig.releaseText motdConfig.cfg.hostname)
  have apart : Apart ([name] ++ [release]) := by decide +kernel
  -- Neither the hostname nor the release is in the way of the message.
  rw [toList_etcScript (by decide), run_set, run_mkdir_out rfl, empty,
    @run_hostname storeEnv [] motdConfig.cfg.hostname (by decide) (by decide) apart.front] at ran
  have rest := (@run_release storeEnv [name] _ (EtcConfig.enclosed_releaseText (by decide)) apart
    (motd.printed ++ [])).symm.trans ran
  let simples : List Simple := [{ words := ["mkdir".toList, "-p".toList, "/nix/store/out".toList] },
    { words := ["cat".toList], output := some (false, "/nix/store/out/motd".toList) }]
  have read : readOne storeEnv.value (motd.printed ++ []) =
      some (⟨simples, "welcomeTATARA_EOF\n".toList⟩, []) := by
    decide +kernel
  have left : (runAll storeEnv.toSurroundings "welcomeTATARA_EOF\n".toList simples
      (storeEnv.state (treeOf ([name] ++ [release])))).bind (·.fs (storeEnv.out ++ ["motd".toList])) =
        some (.file "welcomeTATARA_EOF\n".toList) := by
    decide +kernel
  rw [run_line (by decide +kernel) read] at rest
  obtain ⟨behind, done, same⟩ := Option.bind_eq_some_iff.mp rest
  rw [run_nil] at same
  cases same
  obtain ⟨text, there, contains⟩ := declared.files ["motd".toList] motd rfl
  rw [done, Option.bind_some, there] at left
  cases left
  exact absurd contains (by decide +kernel)

end Tatara.Os
