import Tatara.Lib.Script
import Tatara.Nix.Indented
import Tatara.Os.Config

/-! The script that builds the root file system of a guest, and when it writes the files of it. -/

namespace Tatara.Vm

open Tatara.Nix Tatara.Os Tatara.Script

-- A statement about the characters of a text is decided on these, not on all characters.
attribute [local instance (high)] List.decidableBAll

/-- `InitrdContent`. -/
inductive InitrdContent where
  | inline (body : String)
  | storePath (path : String)

/-- `InitrdFile`. -/
structure InitrdFile where
  path : String
  content : InitrdContent
  mode : UInt32

/-- `GuestPackage`. -/
structure GuestPackage where
  attrPath : String
  binNames : List String := []

/-- `SshdSpec`. -/
structure SshdSpec where
  port : UInt16 := 22
  authorizedKeys : List String := []
  permitRoot : Bool := false
  passwordAuthentication : Bool := false

/-- `LinuxRootfs`. -/
structure LinuxRootfs where
  initBinary : String := ""
  initConfig : String := ""
  extraFiles : List InitrdFile := []
  busybox : Option String := some "busybox"
  sshd : Option SshdSpec := none
  packages : List GuestPackage := []
  name : String := "tatara-rootfs"

/-! ### The expression -/

/-- Some lines with their ends. -/
def lines (ls : List String) : String := String.join (ls.map (· ++ "\n"))

/-- A text whose last line ends. -/
def ended (text : String) : String :=
  if text.toList.getLast? = some '\n' then text else text ++ "\n"

/-- A command that writes a text to a file. -/
def heredoc (target sentinel text : String) : String :=
  "  cat > " ++ target ++ " <<'" ++ sentinel ++ "'\n" ++ ended text ++ sentinel ++ "\n"

/-- `nix_path_escape`. -/
def nixPathEscape (s : String) : String := s

/-- `heredoc_escape`. -/
def heredocEscape (s : String) : String :=
  if "TATARA_INIT_LISP_EOF".toList <:+: s.toList then
    replaceText s "TATARA_INIT_LISP_EOF" "TATARA_INIT_LISP_ESC_EOF"
  else s

/-- A package where it is interpolated. -/
def packagePath (attr : String) : String := "$\x7bpkgs." ++ attr ++ "\x7d"

/-- The lines for a busybox. -/
def busyboxLines (attr : String) : List String :=
  ["  mkdir -p root/bin",
    "  cp " ++ packagePath attr ++ "/bin/busybox root/bin/busybox",
    "  # Install busybox applet symlinks so sh/mount/mkdir/… work",
    "  for app in $(root/bin/busybox --list); do",
    "    ln -sf /bin/busybox root/bin/$app",
    "  done"]

/-- The lines for the closure of the packages. -/
def closureLines : List String :=
  ["  # userspace packages: pull the full closure into root/nix/store",
    "  mkdir -p root/nix/store root/bin",
    "  while read -r store_path; do",
    "    cp -r \"$store_path\" root/nix/store/",
    "  done < $\x7bguestClosure\x7d/store-paths",
    "  # Symlink each package's bin/* into /bin (best-effort — skip",
    "  # packages with no bin/ dir)."]

/-- The lines for the programs of a package. -/
def GuestPackage.lines (p : GuestPackage) : List String :=
  if p.binNames.isEmpty then
    ["  if [ -d " ++ packagePath p.attrPath ++ "/bin ]; then",
      "    for bin in " ++ packagePath p.attrPath ++ "/bin/*; do",
      "      [ -e \"$bin\" ] && ln -sf \"$bin\" root/bin/$(basename \"$bin\")",
      "    done",
      "  fi"]
  else
    p.binNames.map fun name =>
      "  [ -e " ++ packagePath p.attrPath ++ "/bin/" ++ name ++ " ] && ln -sf " ++
        packagePath p.attrPath ++ "/bin/" ++ name ++ " root/bin/" ++ name

/-- The bindings for the packages. -/
def packagePrelude (packages : List GuestPackage) : String :=
  if packages.isEmpty then ""
  else
    lines (["  guestPackages = ["] ++ packages.map (fun p => "    pkgs." ++ p.attrPath) ++
      ["  ];", "  guestClosure = pkgs.closureInfo \x7b rootPaths = guestPackages; \x7d;"])

/-- The lines for the packages. -/
def packageLines (packages : List GuestPackage) : List String :=
  if packages.isEmpty then [] else closureLines ++ packages.flatMap GuestPackage.lines

/-- The configuration of the server. -/
def SshdSpec.config (s : SshdSpec) : String :=
  lines ["Port " ++ renderU32 s.port.toUInt32,
    "HostKey /etc/ssh/ssh_host_ed25519_key",
    "PermitRootLogin " ++ (if s.permitRoot then "yes" else "no"),
    "PasswordAuthentication " ++ (if s.passwordAuthentication then "yes" else "no"),
    "PubkeyAuthentication yes",
    "AuthorizedKeysFile /etc/ssh/authorized_keys",
    "StrictModes no",
    "UsePAM no",
    "Subsystem sftp internal-sftp"]

/-- The bindings for the server. -/
def sshdPrelude : String :=
  lines ["  openssh = pkgs.openssh;",
    "  opensshClosure = pkgs.closureInfo \x7b rootPaths = [ pkgs.openssh ]; \x7d;"]

/-- The lines for the programs of the server. -/
def sshdLines : List String :=
  ["  # openssh: bring the closure into root/nix/store",
    "  mkdir -p root/nix/store root/bin root/etc/ssh root/var/empty",
    "  while read -r store_path; do",
    "    cp -r \"$store_path\" root/nix/store/",
    "  done < $\x7bopensshClosure\x7d/store-paths",
    "  ln -sf $\x7bopenssh\x7d/bin/sshd root/bin/sshd",
    "  ln -sf $\x7bopenssh\x7d/bin/ssh-keygen root/bin/ssh-keygen"]

/-- The command that makes the key of the host, on three lines. -/
def keygenLine (name : String) : String :=
  "  $\x7bopenssh\x7d/bin/ssh-keygen -t ed25519 -N '' \\\n    -f root/etc/ssh/ssh_host_ed25519_key \\\n" ++
    "    -C \"tatara-os-" ++ name ++ "\""

/-- The lines for the key of the host. -/
def keyLines (name : String) : List String :=
  ["  chmod 0600 root/etc/ssh/authorized_keys",
    "  # Deterministic(-ish) host key: generate at build.",
    keygenLine name,
    "  chmod 0600 root/etc/ssh/ssh_host_ed25519_key"]

/-- The commands for the server. -/
def sshdBlock (name : String) (s : SshdSpec) : String :=
  lines sshdLines ++ heredoc "root/etc/ssh/sshd_config" "TATARA_SSHD_CFG_EOF" s.config ++
    "  cat > root/etc/ssh/authorized_keys <<'TATARA_AUTH_KEYS_EOF'\n" ++
      "\n".intercalate s.authorizedKeys ++ "\nTATARA_AUTH_KEYS_EOF\n" ++
    lines (keyLines name)

/-- The directory of a file: what is in front of the last slash. -/
def InitrdFile.dir (f : InitrdFile) : String := String.ofList (Shell.dirname f.path.toList)

/-- The line for the directory of a file, if it has one. -/
def InitrdFile.dirLines (f : InitrdFile) : List String :=
  if f.dir = "" then [] else ["  mkdir -p root" ++ nixPathEscape f.dir]

/-- The line for the mode of a file. -/
def InitrdFile.modeLine (f : InitrdFile) : String :=
  "  chmod " ++ String.ofList (Nat.toDigits 8 f.mode.toNat) ++ " root" ++ nixPathEscape f.path

/-- The commands for a file. -/
def InitrdFile.commands (f : InitrdFile) : String :=
  lines f.dirLines ++
    (match f.content with
      | .inline body => heredoc ("root" ++ nixPathEscape f.path) "TATARA_ROOTFS_EOF" body
      | .storePath path => lines ["  cp " ++ path ++ " root" ++ nixPathEscape f.path]) ++
    lines [f.modeLine]

/-- The lines for the program of the first process. -/
def initLines (initBinary : String) : List String :=
  ["  mkdir -p $out",
    "  mkdir -p root/bin root/sbin root/etc/tatara root/proc root/sys root/dev root/run root/tmp",
    "  # tatara-init — the PID 1 supervisor",
    "  cp " ++ initBinary ++ " root/bin/tatara-init",
    "  chmod 0755 root/bin/tatara-init",
    "  # Linux looks for /init at initramfs root before honoring kernel cmdline",
    "  # \x60init=…\x60. Symlink both so either path works.",
    "  ln -sf /bin/tatara-init root/init",
    "  ln -sf /bin/tatara-init root/sbin/init",
    "  # init.lisp — the service manifest"]

/-- The lines for the archive. -/
def archiveLines : List String :=
  ["  # cpio + gzip into initrd",
    "  ( cd root && find . -print0 | cpio -o -0 --format=newc ) | gzip -9 > $out/initrd.cpio.gz",
    "  # Emit the top-level filesystem tree too, for anyone who wants ext4 later.",
    "  cp -r root $out/rootfs"]

namespace LinuxRootfs

variable (spec : LinuxRootfs)

/-- The lines for the busybox, if there is one. -/
def busyboxBlock : List String :=
  match spec.busybox with
  | some attr => busyboxLines attr
  | none => []

/-- The expression in front of the script. -/
def header : String :=
  "let\n  pkgs = import <nixpkgs> \x7b\x7d;\n" ++ packagePrelude spec.packages ++
    (if spec.sshd.isSome then sshdPrelude else "") ++
    "in\npkgs.runCommand \"" ++ spec.name ++ "\"" ++
    " \x7b\n  buildInputs = [ pkgs.cpio pkgs.gzip pkgs.coreutils pkgs.findutils ];\n\x7d "

/-- The script, as it is written between the quotes. -/
def script : String :=
  lines (initLines spec.initBinary) ++
    heredoc "root/etc/tatara/init.lisp" "TATARA_INIT_LISP_EOF" (heredocEscape spec.initConfig) ++
    lines ["  chmod 0644 root/etc/tatara/init.lisp"] ++ lines spec.busyboxBlock ++
    lines (packageLines spec.packages) ++
    (match spec.sshd with
      | some s => sshdBlock spec.name s
      | none => "") ++
    String.join (spec.extraFiles.map InitrdFile.commands) ++ lines archiveLines

/-- The literal of the script. -/
def literal : String := "''\n" ++ spec.script ++ "''"

/-- `LinuxRootfs::to_nix_expr`. -/
def toNixExpr : String := spec.header ++ spec.literal

end LinuxRootfs

/-! ### What is declared -/

/-- A step of a script: a line of it, or a file that is written, with the sentinel of its text. -/
inductive Step where
  | line (text : String)
  | write (target sentinel content : String)

/-- The steps for the server. -/
def sshdSteps (name : String) (s : SshdSpec) : List Step :=
  sshdLines.map .line ++
    [.write "root/etc/ssh/sshd_config" "TATARA_SSHD_CFG_EOF" s.config,
      .write "root/etc/ssh/authorized_keys" "TATARA_AUTH_KEYS_EOF"
        ("\n".intercalate s.authorizedKeys)] ++
    (keyLines name).map .line

/-- The steps for a file. -/
def InitrdFile.steps (f : InitrdFile) : List Step :=
  f.dirLines.map .line ++
    (match f.content with
      | .inline body => [.write ("root" ++ f.path) "TATARA_ROOTFS_EOF" body]
      | .storePath path => [.line ("  cp " ++ path ++ " root" ++ f.path)]) ++
    [.line f.modeLine]

/-- The steps in front of the configuration. -/
def LinuxRootfs.firstSteps (spec : LinuxRootfs) : List Step :=
  (initLines spec.initBinary).map .line

/-- The steps behind the configuration. -/
def LinuxRootfs.lastSteps (spec : LinuxRootfs) : List Step :=
  .line "  chmod 0644 root/etc/tatara/init.lisp" ::
    ((spec.busyboxBlock ++ packageLines spec.packages).map .line ++
      (match spec.sshd with
        | some s => sshdSteps spec.name s
        | none => []) ++
      spec.extraFiles.flatMap InitrdFile.steps ++ archiveLines.map .line)

/-- The steps of the script, one after the other. -/
def LinuxRootfs.steps (spec : LinuxRootfs) : List Step :=
  spec.firstSteps ++
    .write "root/etc/tatara/init.lisp" "TATARA_INIT_LISP_EOF" spec.initConfig :: spec.lastSteps

/-- The lexemes of signs as they are written. -/
def signs (texts : List String) : List Lexeme := texts.map fun text => .sign text.toList

/-- The lexemes for a package in a list. -/
def GuestPackage.lexemes (p : GuestPackage) : List Lexeme :=
  signs ["pkgs", "."] ++ attrLexemes (p.attrPath.toList.splitOn '.')

/-- The lexemes of the bindings for the packages. -/
def packageLexemes (packages : List GuestPackage) : List Lexeme :=
  if packages.isEmpty then []
  else
    signs ["guestPackages", "=", "["] ++ packages.flatMap GuestPackage.lexemes ++
      signs ["]", ";", "guestClosure", "=", "pkgs", ".", "closureInfo", "\x7b", "rootPaths", "=",
        "guestPackages", ";", "\x7d", ";"]

/-- The lexemes of the bindings for the server. -/
def sshdLexemes : List Lexeme :=
  signs ["openssh", "=", "pkgs", ".", "openssh", ";", "opensshClosure", "=", "pkgs", ".",
    "closureInfo", "\x7b", "rootPaths", "=", "[", "pkgs", ".", "openssh", "]", ";", "\x7d", ";"]

/-- The call that is declared, up to the script: the one that builds a derivation with the name. -/
def LinuxRootfs.call (spec : LinuxRootfs) : List Lexeme :=
  signs ["let", "pkgs", "=", "import", "<nixpkgs>", "\x7b", "\x7d", ";"] ++
    packageLexemes spec.packages ++ (if spec.sshd.isSome then sshdLexemes else []) ++
    signs ["in", "pkgs", ".", "runCommand"] ++ [.literal spec.name.toList] ++
    signs ["\x7b", "buildInputs", "=", "[", "pkgs", ".", "cpio", "pkgs", ".", "gzip", "pkgs", ".",
      "coreutils", "pkgs", ".", "findutils", "]", ";", "\x7d"]

section delivery

variable (rules : LexicalRules) (scope : Scope)

/-- A command is a step: it is the line as it is read by itself, or it writes the file with its
content. -/
def Does (command : Command) : Step → Prop
  | .line text => ∃ pieces,
      readTemplate rules scope none (text.toList ++ '\n' :: closing) = some pieces ∧
        readCommand (pieces.map Prod.fst) = some (command, [])
  | .write target _ content => command.Writes target.toList content.toList

/-- A literal is read as a script whose commands are the steps, each file with its content, and no
file is written again with another one. -/
def LinuxRootfs.Performs (spec : LinuxRootfs) (literal : List Char) : Prop :=
  ∃ text commands, templateText rules scope literal = some text ∧
    readScript text = some commands ∧ List.Forall₂ (Does rules scope) commands spec.steps ∧
      ∀ target sentinel content, .write target sentinel content ∈ spec.steps →
        ∃ body, lastWritten target.toList commands = some body ∧
          Shell.Contains content.toList body

/-- The expression is read as the call that is declared, of which the script is the last argument;
and the script is read as its steps, each file with its content. -/
def LinuxRootfs.Delivers (spec : LinuxRootfs) : Prop :=
  ∃ literal, readFront rules .between spec.toNixExpr.toList = some (spec.call, literal) ∧
    spec.Performs rules scope literal

/-- A piece of a line that means nothing to what is around it: a character, or the path of an
attribute that is interpolated. -/
inductive Segment where
  | char (c : Char)
  | value (name : List Char)

/-- A segment as it is written. -/
def Segment.spell : Segment → List Char
  | .char c => [c]
  | .value name => "$\x7b".toList ++ (name ++ ['\x7d'])

/-- A segment has neither quotes nor escapes, ends no line and begins no here-document. -/
def Segment.Sound : Segment → Prop
  | .char c => c ∉ ['\n', '\x27', '\x22', '\\', '$', '<']
  | .value name => ∀ c ∈ name, isAttrChar c = true

instance : DecidablePred Segment.Sound
  | .char c => inferInstanceAs (Decidable (c ∉ _))
  | .value name => inferInstanceAs (Decidable (∀ c ∈ name, _))

/-- A text that can be spliced into a line. -/
def Spliced (text : List Char) : Prop :=
  ∃ segments : List Segment, text = segments.flatMap Segment.spell ∧ ∀ s ∈ segments, s.Sound

/-- A path of attributes: bare names with dots between them. -/
def IsAttrPath (attr : String) : Prop :=
  (∀ c ∈ attr.toList, isAttrChar c = true) ∧
    ∀ part ∈ attr.toList.splitOn '.', isIdentifier part = true

/-- A character that is taken as it stands in the arguments of a command, of which a blank ends
one. -/
def isArgumentChar (c : Char) : Bool := c == ' ' || (Shell.isWordChar c && c != '$')

/-- A segment of arguments: a character that is taken as it stands, or an attribute of the package
set. -/
def Segment.Inert : Segment → Prop
  | .char c => isArgumentChar c = true
  | .value name => ∃ attr, name = ("pkgs." ++ attr).toList ∧ IsAttrPath attr

/-- Arguments of a command. -/
def IsArguments (text : List Char) : Prop :=
  ∃ segments : List Segment, text = segments.flatMap Segment.spell ∧ ∀ s ∈ segments, s.Inert

/-- A text that is a part of a word. -/
def IsPath (text : String) : Prop :=
  ∀ c ∈ text.toList, Shell.isWordChar c = true ∧ c ≠ '$'

/-- What is spliced into the expression beside the contents is what it is taken for: the name a
text, the attributes paths of such, the files on absolute paths of their own that are words, and the
rest arguments of commands. -/
structure LinuxRootfs.Plain (spec : LinuxRootfs) : Prop where
  name : '"' ∉ spec.name.toList ∧ '\\' ∉ spec.name.toList ∧
    NoInterpolation rules spec.name.toList
  binary : IsArguments spec.initBinary.toList
  busybox : ∀ attr, spec.busybox = some attr → IsAttrPath attr
  packages : ∀ p ∈ spec.packages, IsAttrPath p.attrPath ∧
    ∀ name ∈ p.binNames, ∀ c ∈ name.toList, isArgumentChar c = true
  copies : ∀ f ∈ spec.extraFiles, ∀ path, f.content = .storePath path →
    IsArguments path.toList ∧ ∀ c ∈ f.path.toList, isArgumentChar c = true
  paths : ∀ f ∈ spec.extraFiles, ∀ body, f.content = .inline body →
    f.path.toList.head? = some '/' ∧ IsPath f.path
  apart : ("/etc/tatara/init.lisp" :: spec.extraFiles.map InitrdFile.path).Nodup

/-- No text ends what it is in: there is no server; the configuration has nothing that the literal
reads otherwise, nor its sentinel anywhere; and the contents of the files have nothing of the kind,
and no line that is their sentinel. -/
structure LinuxRootfs.Harmless (spec : LinuxRootfs) : Prop where
  sshd : spec.sshd = none
  config : Quiet rules spec.initConfig.toList
  configSentinel : ¬ "TATARA_INIT_LISP_EOF".toList <:+: spec.initConfig.toList
  contents : ∀ f ∈ spec.extraFiles, ∀ body, f.content = .inline body →
    Quiet rules body.toList ∧ "TATARA_ROOTFS_EOF".toList ∉ body.toList.splitOn '\n'

/-- All that is spliced into the expression can be. -/
structure LinuxRootfs.Spliceable (spec : LinuxRootfs) : Prop where
  plain : spec.Plain rules
  harmless : spec.Harmless rules

end delivery

/-! ### The steps as they are written -/

/-- A step as it is written. -/
def Step.printed : Step → List Char
  | .line text => text.toList ++ ['\n']
  | .write target sentinel content => (heredoc target sentinel content).toList

/-- Lines are written with a newline behind each. -/
theorem toList_lines (ls : List String) :
    (lines ls).toList = (ls.map Step.line).flatMap Step.printed := by
  rw [lines, String.toList_join, List.flatMap_map, List.flatMap_map]
  exact List.flatMap_congr fun l _ => String.toList_append

/-- The commands for a file are written as its steps. -/
theorem toList_commands (f : InitrdFile) : f.commands.toList = f.steps.flatMap Step.printed := by
  rw [InitrdFile.commands, InitrdFile.steps, String.toList_append, String.toList_append,
    toList_lines, toList_lines, List.flatMap_append, List.flatMap_append]
  cases f.content with
  | inline body => simp [Step.printed, nixPathEscape]
  | storePath path => simp [toList_lines, nixPathEscape]

/-- The step for the configuration. -/
def configStep (content : String) : Step :=
  .write "root/etc/tatara/init.lisp" "TATARA_INIT_LISP_EOF" content

/-- The script is made of its steps, where there is no server, with the configuration escaped. -/
theorem LinuxRootfs.toList_script {spec : LinuxRootfs} (sshd : spec.sshd = none) :
    spec.script.toList = spec.firstSteps.flatMap Step.printed ++
      ((configStep (heredocEscape spec.initConfig)).printed ++
        spec.lastSteps.flatMap Step.printed) := by
  -- One block for each file, in the order of the spec.
  have files : (String.join (spec.extraFiles.map InitrdFile.commands)).toList =
      (spec.extraFiles.flatMap InitrdFile.steps).flatMap Step.printed := by
    rw [String.toList_join, List.flatMap_map, List.flatMap_assoc]
    exact List.flatMap_congr fun f _ => toList_commands f
  unfold script firstSteps lastSteps
  rw [sshd]
  -- The blocks of the script are those of its steps, one by one.
  simp only [String.toList_append, toList_lines, files, List.flatMap_append, List.flatMap_cons,
    List.map_append, List.map_cons, List.map_nil, List.flatMap_nil, List.append_nil,
    List.append_assoc, String.toList_empty, Step.printed, configStep]

/-! ### Lines that are read -/

section steps

variable {rules : LexicalRules} {scope : Scope}

/-- A line is read, and then it is one for the shell. -/
def FineLine (rules : LexicalRules) (scope : Scope) (text : String) : Prop :=
  ∃ line tokens, Reads rules scope text.toList line ∧ '\n' ∉ line.map Prod.fst ∧
    readLine .bare none (line.map Prod.fst ++ ['\n']) = some (tokens, []) ∧
      sentinels tokens = []

/-- A line that is one for the shell as it is written, since the literal reads nothing in it
otherwise. -/
def Fixed (text : List Char) : Prop :=
  (∀ pair ∈ [['$', '\x7b'], ['$', '$'], ['\x27', '\x27']], ¬ pair <:+: text) ∧
    (∀ c ∈ text.getLast?.toList, c ≠ '\x27' ∧ c ≠ '$') ∧ '\n' ∉ text ∧ isLine (text ++ ['\n']) = true

instance (text : List Char) : Decidable (Fixed text) := instDecidableAnd

/-- A fixed line is read. -/
theorem Fixed.fine {text : List Char} (fixed : Fixed text) :
    FineLine rules scope (String.ofList text) := by
  obtain ⟨apart, last, whole, line⟩ := fixed
  -- The conditions on a fixed line rule out both the end of the literal and an interpolation.
  have quiet : Quiet rules text :=
    ⟨noInterpolation_of_apart (apart _ (by simp)) (apart ['$', '$'] (by simp)),
      apart _ (by simp)⟩
  have letters : (text.map (·, false)).map Prod.fst = text := by
    simp [Function.comp_def]
  -- The words of the line are those that it is read as.
  obtain ⟨tokens, read, without⟩ := exists_of_isLine line
  have reads := @Reads.quiet rules scope _ quiet fun c found => last c (Option.mem_toList.mpr found)
  exact ⟨_, tokens, by rwa [String.toList_ofList], by rwa [letters], by rwa [letters], without⟩

namespace Spliced

variable {text text' : List Char}

/-- Texts that are spliced behind one another are spliced together. -/
theorem append (front : Spliced text) (back : Spliced text') : Spliced (text ++ text') := by
  obtain ⟨segments, rfl, sound⟩ := front
  obtain ⟨segments', rfl, sound'⟩ := back
  refine ⟨segments ++ segments', List.flatMap_append.symm, fun s inside => ?_⟩
  rcases List.mem_append.mp inside with early | late
  · exact sound s early
  · exact sound' s late

/-- The characters without a meaning are spliced. -/
theorem plain (others : ∀ c ∈ text, (Segment.char c).Sound) : Spliced text := by
  refine ⟨text.map .char, ?_, ?_⟩
  · simp [List.flatMap_map, Segment.spell]
  · simpa using others

/-- So are those of a fixed text. -/
theorem fixed (others : ∀ c ∈ text, (Segment.char c).Sound) :
    Spliced (String.ofList text).toList := by
  rw [String.toList_ofList]
  exact plain others

/-- So is an attribute. -/
theorem attr {attr : String} (named : ∀ c ∈ attr.toList, isAttrChar c = true) :
    Spliced (packagePath attr).toList := by
  refine ⟨[.value ("pkgs.".toList ++ attr.toList)], ?_, ?_⟩
  · -- The attribute is one value, and its path is of the characters of an attribute.
    simp [packagePath, Segment.spell]
  · have whole : ∀ c ∈ "pkgs.".toList ++ attr.toList, isAttrChar c = true :=
      List.forall_mem_append.mpr ⟨by decide, named⟩
    exact List.forall_mem_singleton.mpr whole

/-- Characters that are taken as they stand in arguments have no meaning for the literal. -/
theorem taken (taken : ∀ c ∈ text, isArgumentChar c = true) : Spliced text := by
  refine plain fun c inside special => ?_
  -- None of the six is taken in an argument.
  have others : ∀ d ∈ ['\n', '\x27', '\x22', '\\', '$', '<'], isArgumentChar d = false := by decide
  have argument := taken c inside
  rw [others c special] at argument
  cases argument

/-- So arguments are spliced. -/
theorem arguments (arguments : IsArguments text) : Spliced text := by
  obtain ⟨segments, rfl, inert⟩ := arguments
  refine ⟨segments, rfl, fun segment inside => ?_⟩
  have whole := inert segment inside
  -- Either segment is sound for a reason of its own.
  cases segment with
  | char c =>
    intro special
    have others : ∀ d ∈ ['\n', '\x27', '\x22', '\\', '$', '<'], isArgumentChar d = false := by
      decide
    rw [Segment.Inert, others c special] at whole
    cases whole
  | value name =>
    obtain ⟨attr, rfl, named, -⟩ := whole
    rw [Segment.Sound, String.toList_append]
    exact List.forall_mem_append.mpr ⟨by decide, named⟩

/-- What is spliced is read as a text that means nothing to the shell. -/
theorem reads (spliced : Spliced text) : ∃ pieces, Reads rules scope text pieces ∧
    ∀ c ∈ pieces.map Prod.fst, c ∉ ['\n', '\x27', '\x22', '\\', '<'] := by
  obtain ⟨segments, rfl, sound⟩ := spliced
  -- By induction on the segments: what is read of them is free of the five characters.
  induction segments with
  | nil => exact ⟨[], Reads.nil, by simp⟩
  | cons s segments ih =>
    obtain ⟨pieces, others, calm⟩ := ih fun s inside => sound s (List.mem_cons_of_mem _ inside)
    have first := sound s List.mem_cons_self
    obtain ⟨front, reads, free⟩ : ∃ front, Reads rules scope s.spell front ∧
        ∀ c ∈ front.map Prod.fst, c ∉ ['\n', '\x27', '\x22', '\\', '<'] := by
      -- A character stands for itself, and a value for a path of the store.
      cases s with
      | char c =>
        simp only [Segment.Sound, List.mem_cons, List.not_mem_nil, or_false, not_or] at first
        obtain ⟨noEnd, noQuote, noQuotes, noEscape, noDollar, noLess⟩ := first
        exact ⟨_, Reads.char noQuote noDollar, by simp [noEnd, noQuote, noQuotes, noEscape, noLess]⟩
      | value name =>
        refine ⟨_, Reads.value first, fun c inside => ?_⟩
        have others : ∀ d ∈ ['\n', '\x27', '\x22', '\\', '<'], isStoreChar d = false := by decide
        have stored : isStoreChar c = true := by
          refine scope.path name c ?_
          simpa [Function.comp_def] using inside
        intro special
        rw [others c special] at stored
        cases stored
    refine ⟨front ++ pieces, reads.append others, ?_⟩
    rw [List.map_append, List.forall_mem_append]
    exact ⟨free, calm⟩

/-- A spliced line is read. -/
theorem fine {text : String} (spliced : Spliced text.toList) : FineLine rules scope text := by
  obtain ⟨pieces, reads, free⟩ := @reads rules scope _ spliced
  -- What is free of the special characters has nothing for the shell to act on.
  have calm : Calm (pieces.map Prod.fst) := by
    refine ⟨fun c inside special => free c inside (List.mem_append_left ['<'] special), ?_⟩
    exact fun inside => free '<' (inside.subset List.mem_cons_self) (by simp)
  obtain ⟨tokens, line, without⟩ := readLine_calm calm none
  exact ⟨pieces, tokens, reads, fun inside => free '\n' inside (by simp), line, without⟩

end Spliced

/-- The line that reads the paths of a closure is read. -/
theorem fine_done {name : String} (named : ∀ c ∈ name.toList, isAttrChar c = true) :
    FineLine rules scope ("  done < $\x7b" ++ name ++ "\x7d/store-paths") := by
  have back : Spliced ("$\x7b".toList ++ (name.toList ++ ['\x7d']) ++ "/store-paths".toList) :=
    Spliced.append ⟨[.value name.toList], by simp [Segment.spell],
      List.forall_mem_singleton.mpr named⟩ (Spliced.fixed (by decide))
  obtain ⟨pieces, reads, free⟩ := @Spliced.reads rules scope _ back
  have front : Reads rules scope "  done < ".toList ("  done < ".toList.map (·, false)) :=
    Reads.plain (by decide)
  have text : ("  done < $\x7b" ++ name ++ "\x7d/store-paths").toList =
      "  done < ".toList ++ ("$\x7b".toList ++ (name.toList ++ ['\x7d']) ++
        "/store-paths".toList) := by
    simp
  have letters : ("  done < ".toList.map (·, false) ++ pieces).map Prod.fst =
      "  done < ".toList ++ pieces.map Prod.fst := by
    simp
  -- The only operator is the one in front of the path.
  have calm : Calm ("  done < ".toList ++ pieces.map Prod.fst) := by
    refine ⟨fun c inside => ?_, fun pair => ?_⟩
    · rcases List.mem_append.mp inside with early | late
      · have fixed : ∀ d ∈ "  done < ".toList, d ∉ ['\n', '\x27', '\x22', '\\'] := by decide
        exact fixed c early
      · exact fun special => free c late (List.mem_append_left ['<'] special)
    · have none : (pieces.map Prod.fst).count '<' = 0 :=
        List.count_eq_zero.mpr fun inside => free '<' inside (by simp)
      have twice := pair.sublist.count_le '<'
      rw [List.count_append, none] at twice
      exact absurd twice (by decide)
  obtain ⟨tokens, line, without⟩ := readLine_calm calm none
  have whole := front.append reads
  rw [← text] at whole
  exact ⟨_, tokens, whole, by rw [letters]; exact fun inside => calm.1 '\n' inside (by simp),
    by rwa [letters], without⟩

variable {spec : LinuxRootfs}

set_option maxRecDepth 1000 in
/-- The lines in front of the configuration are read. -/
theorem fine_initLines (plain : spec.Plain rules) :
    ∀ l ∈ initLines spec.initBinary, FineLine rules scope l := by
  -- One line depends on the spec, and the others are fixed.
  have binary : Spliced ("  cp " ++ spec.initBinary ++ " root/bin/tatara-init").toList := by
    rw [String.toList_append, String.toList_append]
    exact ((Spliced.fixed (by decide)).append (Spliced.arguments plain.binary)).append
      (Spliced.fixed (by decide))
  simp only [initLines, List.forall_mem_cons]
  refine ⟨?_, ?_, ?_, binary.fine, ?_, ?_, ?_, ?_, ?_, ?_, by simp⟩
  all_goals exact Fixed.fine (by decide)

/-- The lines for a busybox are read. -/
theorem fine_busyboxBlock (plain : spec.Plain rules) :
    ∀ l ∈ spec.busyboxBlock, FineLine rules scope l := by
  -- Without a busybox there are no lines.
  unfold LinuxRootfs.busyboxBlock
  split
  · next attr found =>
    have copy :
        Spliced ("  cp " ++ packagePath attr ++ "/bin/busybox root/bin/busybox").toList := by
      rw [String.toList_append, String.toList_append]
      exact ((Spliced.fixed (by decide)).append (Spliced.attr (plain.busybox attr found).1)).append
        (Spliced.fixed (by decide))
    simp only [busyboxLines, List.forall_mem_cons]
    refine ⟨?_, copy.fine, ?_, ?_, ?_, ?_, by simp⟩
    all_goals exact Fixed.fine (by decide)
  · simp

/-- The lines for the closure of the packages are read. -/
theorem fine_closureLines : ∀ l ∈ closureLines, FineLine rules scope l := by
  -- The last word of a loop is a line of its own.
  have done := @fine_done rules scope "guestClosure" (by decide)
  simp only [closureLines, List.forall_mem_cons]
  refine ⟨?_, ?_, ?_, ?_, done, ?_, ?_, by simp⟩
  all_goals exact Fixed.fine (by decide)

set_option maxRecDepth 1000 in
/-- The lines for the programs of a package are read. -/
theorem fine_packageLines {p : GuestPackage} (attr : ∀ c ∈ p.attrPath.toList, isAttrChar c = true)
    (names : ∀ name ∈ p.binNames, ∀ c ∈ name.toList, isArgumentChar c = true) :
    ∀ l ∈ p.lines, FineLine rules scope l := by
  have path := Spliced.attr attr
  -- Either all programs of the package are linked, or those that are named.
  unfold GuestPackage.lines
  split
  · have test : Spliced ("  if [ -d " ++ packagePath p.attrPath ++ "/bin ]; then").toList := by
      rw [String.toList_append, String.toList_append]
      exact ((Spliced.fixed (by decide)).append path).append (Spliced.fixed (by decide))
    have loop : Spliced ("    for bin in " ++ packagePath p.attrPath ++ "/bin/*; do").toList := by
      rw [String.toList_append, String.toList_append]
      exact ((Spliced.fixed (by decide)).append path).append (Spliced.fixed (by decide))
    simp only [List.forall_mem_cons]
    refine ⟨test.fine, loop.fine, ?_, ?_, ?_, by simp⟩
    all_goals exact Fixed.fine (by decide)
  · rw [List.forall_mem_map]
    intro name inside
    have word := Spliced.taken (names name inside)
    -- The attribute stands twice in the line, and the name three times.
    refine Spliced.fine ?_
    simp only [String.toList_append]
    exact ((((((((Spliced.fixed (by decide)).append path).append (Spliced.fixed (by decide))).append
      word).append (Spliced.fixed (by decide))).append path).append
        (Spliced.fixed (by decide))).append word).append (Spliced.fixed (by decide)) |>.append word

/-- A character of a word is taken as it stands. -/
theorem isArgumentChar_of_word {c : Char} (word : Shell.isWordChar c = true ∧ c ≠ '$') :
    isArgumentChar c = true := by
  simp [isArgumentChar, word.1, word.2]

/-- The lines for the directory of a file are read. -/
theorem fine_dirLines {f : InitrdFile} (path : ∀ c ∈ f.path.toList, isArgumentChar c = true) :
    ∀ l ∈ f.dirLines, FineLine rules scope l := by
  -- The directory is the path without its last name.
  have dir : ∀ c ∈ f.dir.toList, isArgumentChar c = true := by
    intro c inside
    rw [InitrdFile.dir, String.toList_ofList] at inside
    have among := List.mem_of_mem_drop (List.mem_reverse.mp inside)
    exact path c (List.mem_reverse.mp ((List.dropWhile_sublist _).subset among))
  unfold InitrdFile.dirLines
  -- A file in the root needs no directory.
  split
  · simp
  · refine List.forall_mem_singleton.mpr (Spliced.fine ?_)
    rw [String.toList_append, nixPathEscape]
    exact (Spliced.fixed (by decide)).append (Spliced.taken dir)

/-- The line for the mode of a file is read. -/
theorem fine_modeLine {f : InitrdFile} (path : ∀ c ∈ f.path.toList, isArgumentChar c = true) :
    FineLine rules scope f.modeLine := by
  -- The mode is written in digits.
  have mode : Spliced (String.ofList (Nat.toDigits 8 f.mode.toNat)).toList := by
    rw [String.toList_ofList]
    refine Spliced.plain fun c inside special => ?_
    have digit := Nat.isDigit_of_mem_toDigits (by decide) (by decide) inside
    have others : ∀ d ∈ ['\n', '\x27', '\x22', '\\', '$', '<'], d.isDigit = false := by decide
    rw [others c special] at digit
    cases digit
  refine Spliced.fine ?_
  rw [InitrdFile.modeLine, String.toList_append, String.toList_append, String.toList_append]
  exact (((Spliced.fixed (by decide)).append mode).append (Spliced.fixed (by decide))).append
    (Spliced.taken path)

/-! ### Sound steps -/

/-- A step whose line is read, or whose file has a path and a sentinel that are parts of words. -/
def Step.Sound (rules : LexicalRules) (scope : Scope) : Step → Prop
  | .line text => FineLine rules scope text
  | .write target sentinel _ =>
    (target.toList ≠ [] ∧ IsPath target) ∧ sentinel.toList ≠ [] ∧ IsPath sentinel

/-- Nothing in the content of a step ends what it is in. -/
def Step.Harmless (rules : LexicalRules) : Step → Prop
  | .line _ => True
  | .write _ sentinel content =>
    Quiet rules content.toList ∧ sentinel.toList ∉ content.toList.splitOn '\n'

/-- The step for the configuration is sound. -/
theorem sound_configStep (content : String) : (configStep content).Sound rules scope := by
  refine ⟨⟨by decide, ?_⟩, by decide, ?_⟩ <;> (unfold IsPath; decide)

/-- The steps for a file are sound. -/
theorem sound_file {f : InitrdFile}
    (inline : ∀ body, f.content = .inline body → IsPath f.path)
    (copied : ∀ source, f.content = .storePath source →
      IsArguments source.toList ∧ ∀ c ∈ f.path.toList, isArgumentChar c = true) :
    ∀ step ∈ f.steps, step.Sound rules scope := by
  -- Either kind of content asks as much of the path.
  have path : ∀ c ∈ f.path.toList, isArgumentChar c = true := by
    cases content : f.content with
    | inline body => exact fun c inside => isArgumentChar_of_word (inline body content c inside)
    | storePath source => exact (copied source content).2
  rw [InitrdFile.steps, List.forall_mem_append, List.forall_mem_append, List.forall_mem_map]
  refine ⟨⟨fine_dirLines path, ?_⟩, List.forall_mem_singleton.mpr (fine_modeLine path)⟩
  -- Only here does the kind of content matter.
  split
  · next body content =>
    have target : IsPath ("root" ++ f.path) := by
      intro c inside
      rw [String.toList_append] at inside
      rcases List.mem_append.mp inside with root | below
      · have fixed : ∀ d ∈ "root".toList, Shell.isWordChar d = true ∧ d ≠ '$' := by decide
        exact fixed c root
      · exact inline body content c below
    exact List.forall_mem_singleton.mpr
      ⟨⟨by simp, target⟩, by decide, by unfold IsPath; decide⟩
  · next source stored =>
    refine List.forall_mem_singleton.mpr (Spliced.fine ?_)
    rw [String.toList_append, String.toList_append, String.toList_append]
    exact (((Spliced.fixed (by decide)).append (Spliced.arguments (copied source stored).1)).append
      (Spliced.fixed (by decide))).append (Spliced.taken path)

set_option maxRecDepth 1000 in
/-- The steps behind the configuration are sound. -/
theorem sound_lastSteps (plain : spec.Plain rules) (sshd : spec.sshd = none) :
    ∀ step ∈ spec.lastSteps, step.Sound rules scope := by
  -- Block by block: every line that depends on the spec is plain.
  have chmod : FineLine rules scope "  chmod 0644 root/etc/tatara/init.lisp" :=
    Fixed.fine (by decide)
  have packages : ∀ l ∈ packageLines spec.packages, FineLine rules scope l := by
    unfold packageLines
    split
    · simp
    · rw [List.forall_mem_append, List.forall_mem_flatMap]
      refine ⟨fine_closureLines, fun p inside => ?_⟩
      obtain ⟨attr, names⟩ := plain.packages p inside
      exact fine_packageLines attr.1 names
  have files : ∀ step ∈ spec.extraFiles.flatMap InitrdFile.steps, step.Sound rules scope := by
    rw [List.forall_mem_flatMap]
    exact fun f inside => sound_file (fun body inline => (plain.paths f inside body inline).2)
      (plain.copies f inside)
  have archive : ∀ l ∈ archiveLines, FineLine rules scope l := by
    simp only [archiveLines, List.forall_mem_cons]
    refine ⟨?_, ?_, ?_, ?_, by simp⟩
    all_goals exact Fixed.fine (by decide)
  rw [LinuxRootfs.lastSteps, sshd, List.forall_mem_cons]
  simp only [List.forall_mem_append, List.forall_mem_map]
  exact ⟨chmod, ⟨⟨⟨fine_busyboxBlock plain, packages⟩, by simp⟩, files⟩, archive⟩

/-- The contents behind the configuration are those of the files. -/
theorem harmless_lastSteps (sshd : spec.sshd = none) :
    (∀ step ∈ spec.lastSteps, step.Harmless rules) ↔
      ∀ f ∈ spec.extraFiles, ∀ body, f.content = .inline body →
        Quiet rules body.toList ∧ "TATARA_ROOTFS_EOF".toList ∉ body.toList.splitOn '\n' := by
  -- Lines have no content of their own.
  have lines (ls : List String) : ∀ l ∈ ls, (Step.line l).Harmless rules := fun _ _ => trivial
  -- A file has one content, and only if it is written in the spec.
  have file (f : InitrdFile) : (∀ step ∈ f.steps, step.Harmless rules) ↔
      ∀ body, f.content = .inline body →
        Quiet rules body.toList ∧ "TATARA_ROOTFS_EOF".toList ∉ body.toList.splitOn '\n' := by
    unfold InitrdFile.steps
    rw [List.forall_mem_append, List.forall_mem_append, List.forall_mem_map,
      List.forall_mem_singleton]
    cases f.content with
    | inline body =>
      rw [List.forall_mem_singleton]
      constructor
      · rintro ⟨⟨-, quiet⟩, -⟩ other same
        cases same
        exact quiet
      · exact fun quiet => ⟨⟨lines _, quiet body rfl⟩, trivial⟩
    | storePath path =>
      rw [List.forall_mem_singleton]
      exact ⟨fun _ => nofun, fun _ => ⟨⟨lines _, trivial⟩, trivial⟩⟩
  rw [LinuxRootfs.lastSteps, sshd]
  -- Of the blocks only that of the files has contents.
  simp only [List.forall_mem_cons, List.forall_mem_append, List.forall_mem_map,
    List.forall_mem_flatMap, file]
  exact ⟨fun all => all.2.1.2, fun files =>
    ⟨trivial, ⟨⟨⟨lines _, lines _⟩, by simp⟩, files⟩, lines _⟩⟩

end steps

/-! ### Texts with their ends -/

section ended

variable {rules : LexicalRules} {content : String}

/-- The text of a here-document ends with a newline. -/
theorem getLast?_ended (content : String) :
    (ended content).toList.getLast? = some '\n' := by
  unfold ended
  split
  · assumption
  · simp

/-- The lines of a text are those that it has with its end, and an empty one. -/
theorem exists_ended (content : String) : ∃ front, (ended content).toList = front ++ ['\n'] ∧
    (content.toList = front ∨ content.toList = front ++ ['\n']) := by
  -- The two cases are those in which the newline is added or not.
  unfold ended
  split
  · next last =>
    obtain ⟨front, split⟩ := List.getLast?_eq_some_iff.mp last
    exact ⟨front, split, .inr split⟩
  · exact ⟨content.toList, by simp, .inl rfl⟩

/-- A text whose last line ends is one that a here-document takes. -/
theorem enclosed_ended {sentinel : List Char} (more : sentinel ≠ [])
    (absent : sentinel ∉ content.toList.splitOn '\n') :
    Shell.Enclosed sentinel (ended content).toList := by
  refine ⟨.inr (getLast?_ended content), ?_⟩
  -- The newline that is added only adds an empty line, and that is no sentinel.
  obtain ⟨front, split, same | same⟩ := exists_ended content
  · rw [split, ← same, List.splitOn_append_cons_self, List.splitOn_nil, List.mem_append, not_or]
    exact ⟨absent, by simpa using more⟩
  · rwa [split, ← same]

/-- It has no more than its end besides. -/
theorem contains_ended (content : String) :
    Shell.Contains content.toList (ended content).toList := by
  -- Both texts are the same up to a last newline.
  obtain ⟨front, split, same | same⟩ := exists_ended content
  · exact .inr (by rw [split, same])
  · exact .inl (by rw [split, same])

/-- The end of a text does not matter to what is read otherwise. -/
theorem quiet_ended : Quiet rules (ended content).toList ↔ Quiet rules content.toList := by
  obtain ⟨front, split, same | same⟩ := exists_ended content
  · rw [split, same, quiet_concat]
  · rw [split, same]

/-- The newline that ends a text opens no quotes. -/
theorem openers_ended : openers (ended content).toList = openers content.toList := by
  obtain ⟨front, split, same | same⟩ := exists_ended content
  · rw [split, same]
    simp [openers, List.countP_append]
  · rw [split, same]

end ended

/-! ### Files that are written -/

section write

variable {rules : LexicalRules} {scope : Scope} {target sentinel : String}

/-- A character that is part of a word means nothing to the literal and ends no line. -/
theorem IsPath.char {text : String} (path : IsPath text) :
    ∀ c ∈ text.toList, c ≠ '\x27' ∧ c ≠ '$' ∧ c ≠ ' ' ∧ c ≠ '\n' := by
  intro c inside
  obtain ⟨word, noDollar⟩ := path c inside
  -- None of the three is a character of a word.
  have others : ∀ d ∈ ['\x27', ' ', '\n'], Shell.isWordChar d = false := by decide
  have apart {d : Char} (special : d ∈ ['\x27', ' ', '\n']) : c ≠ d := by
    rintro rfl
    rw [others c special] at word
    cases word
  exact ⟨apart (by simp), noDollar, apart (by simp), apart (by simp)⟩

/-- The line of a file that is written. -/
def catLine (target sentinel : String) : List Char :=
  "  cat > ".toList ++ (target.toList ++ " <<".toList) ++
    ('\x27' :: (sentinel.toList ++ ['\x27']))

/-- A file is written with its line, its content and its sentinel. -/
theorem printed_write (target sentinel content : String) :
    (Step.write target sentinel content).printed =
      catLine target sentinel ++
        '\n' :: ((ended content).toList ++ (sentinel.toList ++ ['\n'])) := by
  have opened : " <<\x27".toList = " <<".toList ++ ['\x27'] := rfl
  have closed : "\x27\n".toList = ['\x27', '\n'] := rfl
  have newline : "\n".toList = ['\n'] := rfl
  -- The fixed parts are set aside, and the rest is regrouped.
  unfold Step.printed heredoc catLine
  simp only [String.toList_append, opened, closed, newline]
  generalize "  cat > ".toList = cat
  generalize " <<".toList = redirect
  simp only [List.append_assoc, List.cons_append, List.nil_append]

/-- The line of a file is read as it is. -/
theorem reads_catLine (path : IsPath target) (more : sentinel.toList ≠ [])
    (mark : IsPath sentinel) : Reads rules scope (catLine target sentinel ++ ['\n'])
      ((catLine target sentinel ++ ['\n']).map (·, false)) := by
  -- In front of the quotes nothing means anything to the literal.
  have front : ∀ c ∈ "  cat > ".toList ++ (target.toList ++ " <<".toList),
      c ≠ '\x27' ∧ c ≠ '$' := by
    simp only [List.forall_mem_append]
    exact ⟨by decide, fun c inside => ⟨(path.char c inside).1, (path.char c inside).2.1⟩, by decide⟩
  -- The quotes around the sentinel stand alone, so that they do not end the literal.
  have quoted := @Reads.quoted rules scope sentinel.toList '\n' more
    (fun c inside => ⟨(mark.char c inside).1, (mark.char c inside).2.1⟩) (by decide) (by decide)
  have whole := (@Reads.plain rules scope _ front).append quoted
  unfold catLine
  generalize "  cat > ".toList ++ (target.toList ++ " <<".toList) = opened at whole ⊢
  rw [List.append_assoc, List.cons_append, List.append_assoc, List.singleton_append,
    List.map_append]
  exact whole

/-- It is one line. -/
theorem notMem_catLine (path : IsPath target) (mark : IsPath sentinel) :
    '\n' ∉ catLine target sentinel := by
  have opened : '\n' ∉ "  cat > ".toList := by decide
  have redirection : '\n' ∉ " <<".toList := by decide
  -- The line has four parts without a newline.
  unfold catLine
  simp only [List.mem_append, List.mem_cons, List.not_mem_nil, or_false, not_or]
  exact ⟨⟨opened, fun inside => (path.char _ inside).2.2.2 rfl, redirection⟩, by decide,
    fun inside => (mark.char _ inside).2.2.2 rfl, by decide⟩

/-- The tokens of the line of a file. -/
def catTokens (target sentinel : String) : List Token :=
  [.word ("cat".toList.map (.bare, ·)), .operator '>', .word (target.toList.map (.bare, ·)),
    .hereDoc, .word (sentinel.toList.map (.single, ·))]

/-- The line of a file is one for the shell. -/
theorem readLine_catLine (more : target.toList ≠ []) (path : IsPath target)
    (mark : IsPath sentinel) : readLine .bare none (catLine target sentinel ++ ['\n']) =
      some (catTokens target sentinel, []) := by
  -- Blanks in front of a command are skipped.
  have indented (rest : List Char) : readLine .bare none ("  ".toList ++ rest) =
      readLine .bare none rest := readLine_replicate 2 rest
  -- Behind its indentation the line is the one that writes a file.
  have text : catLine target sentinel ++ ['\n'] =
      "  ".toList ++ writeLine target.toList sentinel.toList := by
    have opened : "  cat > ".toList = "  ".toList ++ "cat > ".toList := rfl
    have quoted : " <<\x27".toList = " <<".toList ++ ['\x27'] := rfl
    have closed : "\x27\n".toList = ['\x27', '\n'] := rfl
    unfold catLine writeLine
    simp only [opened, quoted, closed]
    generalize "  ".toList = blanks
    generalize "cat > ".toList = cat
    generalize " <<".toList = redirect
    simp only [List.append_assoc, List.cons_append, List.nil_append]
  rw [text, indented, readLine_writeLine more (fun c inside => (path c inside).1)
    fun inside => (mark.char _ inside).1 rfl]
  rfl

theorem sentinels_catTokens (target sentinel : String) :
    sentinels (catTokens target sentinel) = [some (sentinel.toList.map (.single, ·))] := rfl

end write

/-! ### Files that are read -/

section read

variable {rules : LexicalRules} {scope : Scope}

/-- A line of characters that mean nothing to the literal is read as itself. -/
theorem reads_mark {mark : List Char}
    (plain : ∀ c ∈ mark, c ≠ '\x27' ∧ c ≠ '$' ∧ c ≠ ' ' ∧ c ≠ '\n') :
    Reads rules scope (mark ++ ['\n']) ((mark ++ ['\n']).map (·, false)) := by
  refine Reads.plain (List.forall_mem_append.mpr ⟨fun c inside => ?_, by decide⟩)
  exact ⟨(plain c inside).1, (plain c inside).2.1⟩

/-- So is a text with its end, where nothing in it is read otherwise. -/
theorem reads_ended {content : String} (quiet : Quiet rules content.toList) :
    Reads rules scope (ended content).toList ((ended content).toList.map (·, false)) := by
  -- The last character is a newline, and so no dollar sign that could open something.
  refine Reads.quiet (quiet_ended.mpr quiet) fun c last => ?_
  rw [getLast?_ended] at last
  cases last
  decide

/-- In the text of a here-document that is its content nothing is read otherwise: what is read
otherwise takes a quote or a dollar sign away, and none can be missing. -/
theorem quiet_of_contains {text content mark rest : List Char} {pieces short : List Piece}
    (last : text.getLast? = some '\n')
    (plain : ∀ c ∈ mark, c ≠ '\x27' ∧ c ≠ '$' ∧ c ≠ ' ' ∧ c ≠ '\n')
    (found : readTemplate rules scope none (text ++ (mark ++ '\n' :: rest)) = some pieces)
    (shortened : Shortened short pieces) (same : openers text = openers content)
    (contains : Shell.Contains content (Shell.hereBody mark [] (short.map Prod.fst)).1) :
    Quiet rules text := by
  obtain ⟨front, back, reads, behind, rfl, escaped, final⟩ := divides last found
  -- The sentinel is read as itself, and so it stands in the shortened text.
  rw [← List.singleton_append, ← List.append_assoc, reads_mark plain,
    Option.map_eq_some_iff] at behind
  obtain ⟨others, -, rfl⟩ := behind
  obtain ⟨front', back', rfl, shortFront, shortBack⟩ := shortened.exists_append
  obtain ⟨line', others', rfl, shortLine, -⟩ := shortBack.exists_append
  obtain rfl := shortLine.eq_of_notMem (by
    simp only [List.map_append, List.map_map, Function.comp_def, List.map_id', List.map_cons,
      List.map_nil, List.mem_append, List.mem_singleton, not_or]
    exact ⟨fun inside => (plain ' ' inside).2.2.1 rfl, by decide⟩)
  -- The last line in front of it ends.
  have begins : (front'.map Prod.fst).getLast? = some '\n' := by
    obtain ⟨first, rfl⟩ := List.getLast?_eq_some_iff.mp final
    obtain ⟨first', last', rfl, -, shortLast⟩ := shortFront.exists_append
    obtain rfl := shortLast.eq_of_notMem (by simp)
    rw [List.map_append, List.map_singleton, List.getLast?_concat]
  have letters : (front' ++ ((mark ++ ['\n']).map (·, false) ++ others')).map Prod.fst =
      front'.map Prod.fst ++ (mark ++ '\n' :: others'.map Prod.fst) := by
    simp [Function.comp_def]
  rw [letters] at contains
  have oneLine : '\n' ∉ mark := fun inside => (plain '\n' inside).2.2.2 rfl
  have short := Shell.length_hereBody_le oneLine (.inr begins) (others'.map Prod.fst)
  have prefixed := Shell.isPrefix_hereBody mark [] (front'.map Prod.fst ++
    (mark ++ '\n' :: others'.map Prod.fst))
  rw [List.nil_append] at prefixed
  have within := List.prefix_of_prefix_length_le prefixed (List.prefix_append _ _) short
  have counted := within.sublist.countP_le (p := fun c => c == '\x27' || c == '$')
  have body : openers (Shell.hereBody mark [] (front'.map Prod.fst ++
      (mark ++ '\n' :: others'.map Prod.fst))).1 = openers content := by
    rcases contains with same | same <;> rw [same]
    simp [openers, List.countP_append]
  obtain ⟨fewer, exactly⟩ := Reads.openers_le reads
  have kept := openers_shortened shortFront
  refine exactly ?_
  unfold openers at *
  omega

/-- The sentinel is no line of the content that its here-document has. -/
theorem notMem_of_contains {content : String} {mark rest : List Char} (more : mark ≠ [])
    (oneLine : '\n' ∉ mark)
    (contains : Shell.Contains content.toList
      (Shell.hereBody mark [] ((ended content).toList ++ (mark ++ '\n' :: rest))).1) :
    mark ∉ content.toList.splitOn '\n' := by
  intro inside
  obtain ⟨text, split, same⟩ := exists_ended content
  have among : mark ∈ text.splitOn '\n' := by
    rcases same with same | same <;> rw [same] at inside
    · exact inside
    · rw [List.splitOn_append_cons_self, List.splitOn_nil, List.mem_append] at inside
      exact inside.resolve_right (by simpa using more)
  -- The here-document goes no further than to that line.
  obtain ⟨front, back, lines, begins⟩ := Delimited.exists_of_mem_splitOn among
  have written : (ended content).toList ++ (mark ++ '\n' :: rest) =
      front ++ (mark ++ '\n' :: (back ++ (mark ++ '\n' :: rest))) := by
    rw [split, lines, List.append_assoc, List.append_assoc, List.cons_append]
  have short := Shell.length_hereBody_le oneLine begins (back ++ (mark ++ '\n' :: rest))
  rw [← written] at short
  have longer : content.toList.length ≤
      (Shell.hereBody mark [] ((ended content).toList ++ (mark ++ '\n' :: rest))).1.length := by
    rcases contains with whole | whole <;> rw [whole]
    exact (List.prefix_append _ _).length_le
  have size := congrArg List.length lines
  have positive := List.length_pos_of_ne_nil more
  simp only [List.length_append, List.length_cons, List.length_nil] at size
  rcases same with same | same <;> rw [same] at longer
  · omega
  · rw [List.length_append] at longer
    omega

/-- A file is written with the text that its here-document has. -/
theorem contains_of_writes {target sentinel content : String} {line text : List Char}
    {commands : List Command} {steps : List Step} {tokens : List Token}
    (read : readLine .bare none line = some (tokens, []))
    (only : sentinels tokens = [some (sentinel.toList.map (.single, ·))])
    (script : readScript (line ++ text) = some commands)
    (does : List.Forall₂ (Does rules scope) commands (.write target sentinel content :: steps)) :
    Shell.Contains content.toList (Shell.hereBody sentinel.toList [] text).1 := by
  -- The first command is read with its here-document, and it is the one that writes the file.
  rw [readScript_cons (readCommand_hereDoc read only text), Option.map_eq_some_iff] at script
  obtain ⟨others, -, rfl⟩ := script
  obtain ⟨writes, -⟩ := List.forall₂_cons.mp does
  obtain ⟨cat, name, mark, -, -, -, contains⟩ := writes
  exact contains

/-- A text is read up to what closes the literal, and its commands are some steps. -/
def Done (rules : LexicalRules) (scope : Scope) (text : List Char) (steps : List Step) : Prop :=
  ∃ pieces commands, readTemplate rules scope none text = some pieces ∧
    readScript (pieces.map Prod.fst) = some commands ∧
      List.Forall₂ (Does rules scope) commands steps

section done

variable {text : List Char} {steps : List Step} {target sentinel content : String}

/-- A step that is done by what it is read as is done in front of others. -/
theorem done_cons {step : Step} {written : List Char} {pieces : List Piece} {command : Command}
    (reads : Reads rules scope written pieces) (takes : Takes (pieces.map Prod.fst) command)
    (does : Does rules scope command step) :
    Done rules scope (written ++ text) (step :: steps) ↔ Done rules scope text steps := by
  -- The command takes its pieces wherever it stands.
  have script (behind : List Piece) : readScript ((pieces ++ behind).map Prod.fst) =
      (readScript (behind.map Prod.fst)).map (command :: ·) := by
    rw [List.map_append]
    exact readScript_cons (takes _)
  unfold Done
  -- What stands in front is read first on both sides; the rest decides.
  rw [reads]
  constructor
  · rintro ⟨whole, commands, all, read, each⟩
    obtain ⟨behind, found, rfl⟩ := Option.map_eq_some_iff.mp all
    rw [script, Option.map_eq_some_iff] at read
    obtain ⟨others, read, rfl⟩ := read
    exact ⟨behind, others, found, read, (List.forall₂_cons.mp each).2⟩
  · rintro ⟨behind, others, found, read, each⟩
    exact ⟨pieces ++ behind, command :: others, by rw [found]; rfl, by rw [script, read]; rfl,
      List.forall₂_cons.mpr ⟨does, each⟩⟩

/-- A line that is read is done. -/
theorem done_line {l : String} (fine : FineLine rules scope l) :
    Done rules scope ((Step.line l).printed ++ text) (.line l :: steps) ↔
      Done rules scope text steps := by
  -- The line is read with its end, and the shell reads it as a command of its own.
  obtain ⟨line, tokens, reads, -, read, without⟩ := fine
  have ended : Reads rules scope (l.toList ++ ['\n']) (line ++ [('\n', false)]) :=
    reads.append (Reads.char (by decide) (by decide))
  have letters : (line ++ [('\n', false)]).map Prod.fst = line.map Prod.fst ++ ['\n'] :=
    List.map_append
  have takes : Takes ((line ++ [('\n', false)]).map Prod.fst) ⟨tokens, []⟩ := by
    rw [letters]
    exact Takes.plain read without
  -- The two conditions on a line of the script.
  refine done_cons ended takes ⟨line ++ [('\n', false)], ?_, ?_⟩
  · have closed := ended closing
    rwa [readTemplate_closing, Option.map_some, List.append_nil, List.append_assoc] at closed
  · have alone := takes []
    rwa [List.append_nil] at alone

/-- So are lines that are read. -/
theorem done_lines {ls : List String} (fine : ∀ l ∈ ls, FineLine rules scope l) :
    Done rules scope ((ls.map Step.line).flatMap Step.printed ++ text) (ls.map .line ++ steps) ↔
      Done rules scope text steps := by
  -- By induction on the lines.
  induction ls with
  | nil => exact Iff.rfl
  | cons l ls ih =>
    obtain ⟨first, others⟩ := List.forall_mem_cons.mp fine
    rw [List.map_cons, List.flatMap_cons, List.append_assoc, List.cons_append, done_line first,
      ih others]

/-- A file is written in a step as it is written. -/
theorem done_write (sound : (Step.write target sentinel content).Sound rules scope)
    (quiet : Quiet rules content.toList)
    (absent : sentinel.toList ∉ content.toList.splitOn '\n') :
    Done rules scope ((Step.write target sentinel content).printed ++ text)
        (.write target sentinel content :: steps) ↔ Done rules scope text steps := by
  -- The line, the content and the sentinel are each read as they are.
  obtain ⟨⟨named, path⟩, more, mark⟩ := sound
  have front := @reads_catLine rules scope _ _ path more mark
  have body := @reads_ended rules scope _ quiet
  have back := @reads_mark rules scope _ mark.char
  have written : (Step.write target sentinel content).printed =
      (catLine target sentinel ++ ['\n']) ++
        ((ended content).toList ++ (sentinel.toList ++ ['\n'])) := by
    rw [printed_write, List.append_assoc, List.singleton_append]
  have reads : Reads rules scope (Step.write target sentinel content).printed
      ((Step.write target sentinel content).printed.map (·, false)) := by
    rw [written]
    simpa only [List.map_append] using front.append (body.append back)
  have letters : ((Step.write target sentinel content).printed.map (·, false)).map Prod.fst =
      (Step.write target sentinel content).printed := by
    simp [Function.comp_def]
  -- The sentinel is one line, and no line of the content is it.
  have oneLine : '\n' ∉ sentinel.toList := fun inside => (mark.char _ inside).2.2.2 rfl
  have writes : Does rules scope ⟨catTokens target sentinel, (ended content).toList⟩
      (.write target sentinel content) :=
    ⟨_, _, _, rfl, rfl, literal?_bare path, contains_ended content⟩
  refine done_cons reads ?_ writes
  rw [letters, written]
  exact Takes.hereDoc (readLine_catLine named path mark) (sentinels_catTokens target sentinel)
    (enclosed_ended more absent) oneLine

/-- A file is written with the text that is read behind its line. -/
theorem contains_of_done {printed : String}
    (sound : (Step.write target sentinel content).Sound rules scope)
    (done : Done rules scope ((Step.write target sentinel printed).printed ++ text)
      (.write target sentinel content :: steps)) :
    ∃ rest, readTemplate rules scope none
        ((ended printed).toList ++ (sentinel.toList ++ '\n' :: text)) = some rest ∧
      Shell.Contains content.toList (Shell.hereBody sentinel.toList [] (rest.map Prod.fst)).1 := by
  -- The line of the file is read as it is, so that its content is what comes behind.
  obtain ⟨⟨named, path⟩, more, mark⟩ := sound
  obtain ⟨pieces, commands, found, script, does⟩ := done
  have written : (Step.write target sentinel printed).printed ++ text =
      (catLine target sentinel ++ ['\n']) ++
        ((ended printed).toList ++ (sentinel.toList ++ '\n' :: text)) := by
    rw [printed_write]
    simp only [List.append_assoc, List.cons_append, List.nil_append]
  rw [written, reads_catLine path more mark, Option.map_eq_some_iff] at found
  obtain ⟨rest, found, rfl⟩ := found
  have letters : ((catLine target sentinel ++ ['\n']).map (·, false) ++ rest).map Prod.fst =
      (catLine target sentinel ++ ['\n']) ++ rest.map Prod.fst := by
    simp [Function.comp_def]
  -- The shell takes as the content what stands in front of the first sentinel.
  rw [letters] at script
  exact ⟨rest, found, contains_of_writes (readLine_catLine named path mark)
    (sentinels_catTokens target sentinel) script does⟩

/-- A text that is read as itself is followed by its sentinel. -/
theorem exists_of_quiet {mark : List Char} {rest : List Piece}
    (quiet : Quiet rules content.toList)
    (plain : ∀ c ∈ mark, c ≠ '\x27' ∧ c ≠ '$' ∧ c ≠ ' ' ∧ c ≠ '\n')
    (found : readTemplate rules scope none ((ended content).toList ++ (mark ++ '\n' :: text)) =
      some rest) :
    ∃ behind, rest.map Prod.fst = (ended content).toList ++ (mark ++ '\n' :: behind) := by
  -- The content and the mark behind it are read as they are.
  rw [← List.singleton_append, ← List.append_assoc mark, reads_ended quiet,
    reads_mark plain, Option.map_map, Option.map_eq_some_iff] at found
  obtain ⟨behind, -, rfl⟩ := found
  exact ⟨behind.map Prod.fst, by simp [Function.comp_def]⟩

/-- Nothing in a file that is written ends what it is in. -/
theorem harmless_write (sound : (Step.write target sentinel content).Sound rules scope)
    (done : Done rules scope ((Step.write target sentinel content).printed ++ text)
      (.write target sentinel content :: steps)) :
    (Step.write target sentinel content).Harmless rules := by
  -- What is written contains the content, whatever was read.
  obtain ⟨rest, found, contains⟩ := contains_of_done sound done
  obtain ⟨-, more, mark⟩ := sound
  -- A quote or an interpolation in the content would have made what is read another text.
  have quiet := quiet_ended.mp (quiet_of_contains (getLast?_ended content) mark.char found
    (Shortened.refl rest) openers_ended contains)
  -- Since the content is read as it is, the sentinel is looked for in the content itself.
  obtain ⟨behind, letters⟩ := exists_of_quiet quiet mark.char found
  rw [letters] at contains
  exact ⟨quiet, notMem_of_contains more (fun inside => (mark.char _ inside).2.2.2 rfl) contains⟩

end done

/-- Sound steps are done as they are written when nothing in them ends what it is in. -/
theorem done_iff {steps : List Step} (sound : ∀ step ∈ steps, step.Sound rules scope) :
    Done rules scope (steps.flatMap Step.printed ++ closing) steps ↔
      ∀ step ∈ steps, step.Harmless rules := by
  -- By induction on the steps: what one of them leaves to be read is read by the next one.
  induction steps with
  | nil =>
    have done : Done rules scope closing [] := ⟨[], [], readTemplate_closing, readScript_nil, .nil⟩
    simp [done]
  | cons step steps ih =>
    obtain ⟨first, others⟩ := List.forall_mem_cons.mp sound
    rw [List.forall_mem_cons, ← ih others, List.flatMap_cons, List.append_assoc]
    -- A line does no harm; of a file, both conditions are necessary.
    cases step with
    | line text => exact (done_line first).trans (and_iff_right trivial).symm
    | write target sentinel content =>
      constructor
      · intro done
        have harmless := harmless_write first done
        exact ⟨harmless, (done_write first harmless.1 harmless.2).mp done⟩
      · exact fun both => (done_write first both.1.1 both.1.2).mpr both.2

end read

/-! ### The sentinel of the configuration -/

/-- Where neither the pattern nor what is put in its place has a kind of characters, there are as
many of them as before. -/
theorem countP_replaceFrom {select : Char → Bool} {pattern new : List Char} (more : pattern ≠ [])
    (without : pattern.countP select = 0) (without' : new.countP select = 0) (skip : Nat)
    (text : List Char) :
    (replaceFrom pattern new skip text).countP select = (text.drop skip).countP select := by
  -- The induction follows the replacement; only the third case puts something in the text.
  fun_induction replaceFrom pattern new skip text with
  | case1 skip => simp
  | case2 skip c rest ih => exact ih
  | case3 c rest found ih =>
    obtain ⟨behind, split⟩ := List.isPrefixOf_iff_prefix.mp found
    obtain ⟨first, others, rfl⟩ := List.exists_cons_of_ne_nil more
    rw [List.cons_append, List.cons.injEq] at split
    obtain ⟨rfl, rfl⟩ := split
    have size : (first :: others).length - 1 = others.length := rfl
    rw [size, List.drop_left] at ih
    rw [size, List.countP_append, without', ih, List.drop_zero, ← List.cons_append,
      List.countP_append, without]
  | case4 c rest _ ih => rw [List.countP_cons, ih, List.drop_zero, List.drop_zero, List.countP_cons]

/-- The first place where the pattern stands is the first one that is replaced. -/
theorem exists_replaceFrom {pattern text : List Char} (new : List Char) (more : pattern ≠ [])
    (inside : pattern <:+: text) :
    ∃ front back others, text = front ++ (pattern ++ back) ∧
      replaceFrom pattern new 0 text = front ++ (new ++ others) := by
  -- By induction on the text: the pattern stands at its front, or further behind.
  induction text with
  | nil => exact absurd (List.infix_nil.mp inside) more
  | cons c text ih =>
    rw [replaceFrom]
    split
    · next found =>
      obtain ⟨back, split⟩ := List.isPrefixOf_iff_prefix.mp found
      exact ⟨[], back, _, split.symm, rfl⟩
    · next apart =>
      have later := (List.infix_cons_iff.mp inside).resolve_left fun found =>
        apart (List.isPrefixOf_iff_prefix.mpr found)
      obtain ⟨front, back, others, split, replaced⟩ := ih later
      exact ⟨c :: front, back, others, by rw [split]; rfl, by rw [replaced]; rfl⟩

/-- What is put in the place of the pattern is not the pattern. -/
theorem notPrefix_replaceFrom {pattern new text : List Char} (more : pattern ≠ [])
    (shorter : pattern.length ≤ new.length) (apart : ¬ pattern <+: new)
    (inside : pattern <:+: text) (behind : List Char) :
    ¬ text <+: replaceFrom pattern new 0 text ++ behind := by
  -- At the first place the two texts differ, since one has the pattern and the other has not.
  obtain ⟨front, back, others, split, replaced⟩ := exists_replaceFrom new more inside
  rw [replaced, split, List.append_assoc, List.prefix_append_right_inj, List.append_assoc]
  intro both
  have first := (List.prefix_append pattern back).trans both
  exact apart (List.prefix_of_prefix_length_le first (List.prefix_append new _) shorter)

/-- The replacement of the sentinel opens no quotes. -/
theorem openers_heredocEscape (s : String) :
    openers (heredocEscape s).toList = openers s.toList := by
  unfold heredocEscape
  split
  · rw [replaceText, String.toList_ofList]
    exact countP_replaceFrom (by decide) (by decide) (by decide) 0 s.toList
  · rfl

/-- A configuration that its here-document has in front of something else has no sentinel. -/
theorem notInfix_of_isPrefix {s : String} {behind : List Char}
    (prefixed : s.toList <+: (ended (heredocEscape s)).toList ++ behind) :
    ¬ "TATARA_INIT_LISP_EOF".toList <:+: s.toList := by
  -- If it had one, the first of them would have been replaced.
  intro inside
  have escaped : (heredocEscape s).toList = replaceFrom "TATARA_INIT_LISP_EOF".toList
      "TATARA_INIT_LISP_ESC_EOF".toList 0 s.toList := by
    unfold heredocEscape
    rw [if_pos inside, replaceText, String.toList_ofList]
  have apart := @notPrefix_replaceFrom _ "TATARA_INIT_LISP_ESC_EOF".toList _ (by decide)
    (by decide) (by decide) inside
  rw [← escaped] at apart
  obtain ⟨text, whole, same | same⟩ := exists_ended (heredocEscape s)
  · exact apart ('\n' :: behind) (by rwa [whole, ← same, List.append_assoc] at prefixed)
  · exact apart behind (by rwa [whole, ← same] at prefixed)

/-! ### The whole script -/

/-- The literal of the script is read as a script whose commands are the steps. -/
def LinuxRootfs.Runs (rules : LexicalRules) (scope : Scope) (spec : LinuxRootfs) : Prop :=
  ∃ text commands, templateText rules scope spec.literal.toList = some text ∧
    readScript text = some commands ∧ List.Forall₂ (Does rules scope) commands spec.steps

/-- The literal is read behind its quotes and the end of their line. -/
theorem templateText_literal (rules : LexicalRules) (scope : Scope) (spec : LinuxRootfs) :
    templateText rules scope spec.literal.toList =
      (readTemplate rules scope none (spec.script.toList ++ closing)).map fun pieces =>
        (strip rules pieces).map Prod.fst := by
  -- The newline behind the quotes belongs to the literal, and reading starts behind it.
  have text : spec.literal.toList =
      '\x27' :: '\x27' :: '\n' :: (spec.script.toList ++ closing) := by
    rw [LinuxRootfs.literal, String.toList_append, String.toList_append]
    rfl
  rw [text]
  rfl

section whole

variable {rules : LexicalRules} {scope : Scope} {spec : LinuxRootfs}

/-- The empty passphrase of a key ends the literal. -/
theorem keygenLine_closes {text rest : List Char} (name : String) :
    readTemplate rules scope none ((text ++ ['\n']) ++ ((keygenLine name).toList ++ rest)) =
      none := by
  -- The line is read up to the two quotes.
  have front : Spliced ("  ".toList ++ ("$\x7b".toList ++ ("openssh".toList ++ ['\x7d'])) ++
      "/bin/ssh-keygen -t ed25519 -N ".toList) := by
    refine Spliced.append (Spliced.append (Spliced.fixed (by decide))
      ⟨[.value "openssh".toList], ?_, ?_⟩) (Spliced.fixed (by decide))
    · rw [List.flatMap_singleton]
      rfl
    · exact List.forall_mem_singleton.mpr (by decide)
  obtain ⟨pieces, reads, -⟩ := @Spliced.reads rules scope _ front
  -- Two quotes, and then a blank: nothing that could take them as a part of the text.
  obtain ⟨behind, split⟩ : ∃ behind, (keygenLine name).toList ++ rest =
      ("  ".toList ++ ("$\x7b".toList ++ ("openssh".toList ++ ['\x7d'])) ++
        "/bin/ssh-keygen -t ed25519 -N ".toList) ++ '\x27' :: '\x27' :: ' ' :: behind := by
    have opened : ("  $\x7bopenssh\x7d/bin/ssh-keygen -t ed25519 -N \x27\x27 \\\n" ++
        "    -f root/etc/ssh/ssh_host_ed25519_key \\\n").toList =
        ("  ".toList ++ ("$\x7b".toList ++ ("openssh".toList ++ ['\x7d'])) ++
          "/bin/ssh-keygen -t ed25519 -N ".toList) ++ '\x27' :: '\x27' :: ' ' ::
            "\\\n    -f root/etc/ssh/ssh_host_ed25519_key \\\n".toList := by
      simp
    have text : (keygenLine name).toList =
        ("  $\x7bopenssh\x7d/bin/ssh-keygen -t ed25519 -N \x27\x27 \\\n" ++
          "    -f root/etc/ssh/ssh_host_ed25519_key \\\n").toList ++
            "    -C \"tatara-os-".toList ++ name.toList ++ "\"".toList := by
      unfold keygenLine
      rw [String.toList_append, String.toList_append, String.toList_append]
      rfl
    refine ⟨"\\\n    -f root/etc/ssh/ssh_host_ed25519_key \\\n".toList ++
      ("    -C \"tatara-os-".toList ++ (name.toList ++ ("\"".toList ++ rest))), ?_⟩
    rw [text, opened]
    generalize "  ".toList ++ ("$\x7b".toList ++ ("openssh".toList ++ ['\x7d'])) ++
      "/bin/ssh-keygen -t ed25519 -N ".toList = start
    generalize "\\\n    -f root/etc/ssh/ssh_host_ed25519_key \\\n".toList = middle
    generalize "    -C \"tatara-os-".toList = comment
    simp only [List.append_assoc, List.cons_append]
  -- If the text in front could be read, the line would have to be read behind it.
  cases found : readTemplate rules scope none
      ((text ++ ['\n']) ++ ((keygenLine name).toList ++ rest)) with
  | none => rfl
  | some pieces =>
    obtain ⟨-, back, -, unread, -⟩ := divides List.getLast?_concat found
    rw [split, reads, readTemplate_closed (by decide) (by decide) (by decide)] at unread
    cases unread

/-- No file is written with a server, since the literal ends at the key of the host. -/
theorem sshd_of_runs (runs : spec.Runs rules scope) : spec.sshd = none := by
  -- With a server the script has the line that makes a key, whatever is in front of it.
  obtain ⟨text, commands, read, -⟩ := runs
  cases server : spec.sshd with
  | none => rfl
  | some s =>
    obtain ⟨front, back, split⟩ : (lines (keyLines spec.name)).toList <:+: spec.script.toList := by
      have block : (lines (keyLines spec.name)).toList <:+ (sshdBlock spec.name s).toList := by
        unfold sshdBlock
        rw [String.toList_append]
        exact List.suffix_append _ _
      refine block.isInfix.trans ?_
      unfold LinuxRootfs.script
      rw [server, String.toList_append, String.toList_append, String.toList_append,
        List.append_assoc]
      exact List.infix_append _ _ _
    rw [templateText_literal, ← split, toList_lines, keyLines] at read
    simp only [List.map_cons, List.flatMap_cons, List.append_assoc, Step.printed] at read
    generalize "  chmod 0600 root/etc/ssh/authorized_keys".toList = first at read
    generalize "  # Deterministic(-ish) host key: generate at build.".toList = second at read
    -- And the line ends the literal.
    have closes := @keygenLine_closes rules scope (front ++ (first ++ ('\n' :: second)))
    simp only [List.append_assoc, List.cons_append, List.nil_append] at closes read
    rw [closes] at read
    cases read

/-- Lines that are read one after the other. -/
theorem reads_lines {ls : List String} (fine : ∀ l ∈ ls, FineLine rules scope l) :
    ∃ lines : List (List Piece), lines.length = ls.length ∧
      Reads rules scope ((ls.map Step.line).flatMap Step.printed)
        (lines.flatMap (· ++ [('\n', false)])) ∧
      ∀ line ∈ lines, '\n' ∉ line.map Prod.fst ∧ ∃ tokens,
        readLine .bare none (line.map Prod.fst ++ ['\n']) = some (tokens, []) ∧
          sentinels tokens = [] := by
  -- By induction on the lines: each is read on its own, with its newline.
  induction ls with
  | nil => exact ⟨[], rfl, Reads.nil, by simp⟩
  | cons l ls ih =>
    obtain ⟨first, others⟩ := List.forall_mem_cons.mp fine
    obtain ⟨lines, size, reads, each⟩ := ih others
    obtain ⟨line, tokens, read, whole, found, without⟩ := first
    refine ⟨line :: lines, by rw [List.length_cons, size, List.length_cons], ?_,
      List.forall_mem_cons.mpr ⟨⟨whole, tokens, found, without⟩, each⟩⟩
    exact (read.append (Reads.char (by decide) (by decide))).append reads

/-- What is left of a line when its indentation is stripped. -/
def Unindented (short line : List Piece) : Prop :=
  ∃ n, line = List.replicate n (' ', false) ++ short

/-- A line is read alike without its indentation. -/
theorem Unindented.read {short line : List Piece} (shorter : Unindented short line) :
    readLine .bare none (short.map Prod.fst ++ ['\n']) =
      readLine .bare none (line.map Prod.fst ++ ['\n']) := by
  obtain ⟨n, rfl⟩ := shorter
  rw [List.map_append, List.map_replicate, List.append_assoc, readLine_replicate]

/-- The steps of some lines are done in front of others. -/
theorem exists_behind_lines {lines back short : List (List Piece)} {rest : List Char}
    {commands : List Command} {steps others : List Step}
    (shorter : List.Forall₂ Unindented short (lines ++ back))
    (fine : ∀ line ∈ lines, ∃ tokens,
      readLine .bare none (line.map Prod.fst ++ ['\n']) = some (tokens, []) ∧
        sentinels tokens = [])
    (size : lines.length = steps.length)
    (script : readScript ((short.flatMap (· ++ [('\n', false)])).map Prod.fst ++ rest) =
      some commands)
    (does : List.Forall₂ (Does rules scope) commands (steps ++ others)) :
    ∃ short' commands', List.Forall₂ Unindented short' back ∧
      readScript ((short'.flatMap (· ++ [('\n', false)])).map Prod.fst ++ rest) =
        some commands' ∧ List.Forall₂ (Does rules scope) commands' others := by
  -- By induction on the lines: the shell reads one command for each of them.
  induction lines generalizing short commands steps with
  | nil =>
    obtain rfl := List.length_eq_zero_iff.mp size.symm
    exact ⟨short, commands, shorter, script, does⟩
  | cons line lines ih =>
    obtain ⟨step, steps, rfl⟩ := List.exists_cons_of_length_eq_add_one size.symm
    obtain ⟨⟨tokens, read, without⟩, fine⟩ := List.forall_mem_cons.mp fine
    obtain ⟨first, short, unindented, others', rfl⟩ := List.forall₂_cons_right_iff.mp shorter
    -- Without its indentation the line is read as the same command.
    rw [← unindented.read] at read
    have letters : ((first :: short).flatMap (· ++ [('\n', false)])).map Prod.fst ++ rest =
        (first.map Prod.fst ++ ['\n']) ++
          ((short.flatMap (· ++ [('\n', false)])).map Prod.fst ++ rest) := by
      rw [List.flatMap_cons, List.map_append, List.map_append, List.append_assoc]
      rfl
    rw [letters, readScript_cons (Takes.plain read without _), Option.map_eq_some_iff] at script
    obtain ⟨commands, script, rfl⟩ := script
    exact ih others' fine (Nat.succ.inj size) script (List.forall₂_cons.mp does).2

/-- Nothing in the configuration ends the literal. -/
theorem quiet_of_runs (plain : spec.Plain rules) (sshd : spec.sshd = none)
    (runs : spec.Runs rules scope) : Quiet rules (heredocEscape spec.initConfig).toList := by
  obtain ⟨text, commands, read, script, does⟩ := runs
  obtain ⟨lines, size, reads, each⟩ := reads_lines (@fine_initLines rules scope _ plain)
  obtain ⟨⟨named, path⟩, more, mark⟩ := @sound_configStep rules scope ""
  have front := @reads_catLine rules scope _ _ path more mark
  have line := readLine_catLine named path mark
  have only := sentinels_catTokens "root/etc/tatara/init.lisp" "TATARA_INIT_LISP_EOF"
  have oneLine := notMem_catLine path mark
  rw [LinuxRootfs.steps] at does
  rw [templateText_literal, LinuxRootfs.toList_script sshd, configStep, printed_write] at read
  generalize catTokens "root/etc/tatara/init.lisp" "TATARA_INIT_LISP_EOF" = tokens at line only
  generalize catLine "root/etc/tatara/init.lisp" "TATARA_INIT_LISP_EOF" = cat at *
  have written : spec.firstSteps.flatMap Step.printed ++
      (cat ++ '\n' :: ((ended (heredocEscape spec.initConfig)).toList ++
        ("TATARA_INIT_LISP_EOF".toList ++ ['\n'])) ++ spec.lastSteps.flatMap Step.printed) ++
        closing = spec.firstSteps.flatMap Step.printed ++ ((cat ++ ['\n']) ++
          ((ended (heredocEscape spec.initConfig)).toList ++ ("TATARA_INIT_LISP_EOF".toList ++
            '\n' :: (spec.lastSteps.flatMap Step.printed ++ closing)))) := by
    generalize "TATARA_INIT_LISP_EOF".toList = sentinel
    simp only [List.append_assoc, List.cons_append, List.nil_append]
  rw [written, LinuxRootfs.firstSteps, reads, front, Option.map_map, Option.map_map,
    Option.map_eq_some_iff] at read
  obtain ⟨rest, found, rfl⟩ := read
  -- The line in front of the text is one of those that only lose their indentation.
  have split : lines.flatMap (· ++ [('\n', false)]) ++ ((cat ++ ['\n']).map (·, false) ++ rest) =
      (lines ++ [cat.map (·, false)]).flatMap (· ++ [('\n', false)]) ++ rest := by
    simp
  have whole : ∀ line ∈ lines ++ [cat.map (·, false)], ('\n', false) ∉ line := by
    rw [List.forall_mem_append, List.forall_mem_singleton]
    exact ⟨fun line inside among => (each line inside).1 (List.mem_map_of_mem among),
      fun among => oneLine (by simpa using among)⟩
  obtain ⟨short, behind, shortened, stripped, shorter⟩ := strip_lines rules whole rest
  simp only [Function.comp_apply] at script
  rw [split, stripped, List.map_append] at script
  have level : lines.length = spec.firstSteps.length := by
    rw [size, LinuxRootfs.firstSteps, List.length_map]
  obtain ⟨lasts, commands, last, script, does⟩ := exists_behind_lines shorter
    (fun line inside => (each line inside).2) level script does
  obtain ⟨cat', others, unindented, none, rfl⟩ := List.forall₂_cons_right_iff.mp last
  obtain rfl := List.forall₂_nil_right_iff.mp none
  have letters : (cat.map (·, false)).map Prod.fst = cat := by simp [Function.comp_def]
  rw [← letters, ← unindented.read] at line
  rw [List.flatMap_singleton, List.map_append] at script
  have contains := contains_of_writes line only script does
  exact quiet_ended.mp (quiet_of_contains (getLast?_ended _) mark.char found shortened
    (openers_ended.trans (openers_heredocEscape _)) contains)

end whole

/-! ### Delivery -/

section delivery

variable {rules : LexicalRules} {scope : Scope} {spec : LinuxRootfs}

set_option maxRecDepth 1000 in
/-- The last line of the script ends. -/
theorem getLast?_of_read {pieces : List Piece}
    (found : readTemplate rules scope none (spec.script.toList ++ closing) = some pieces) :
    pieces.getLast? = some ('\n', false) := by
  -- The script ends with a line that depends on nothing.
  obtain ⟨front, split⟩ : ∃ front, spec.script.toList =
      (front ++ ['\n']) ++ (Step.line "  cp -r root $out/rootfs").printed := by
    unfold LinuxRootfs.script
    rw [String.toList_append, toList_lines, archiveLines]
    generalize (lines (initLines spec.initBinary) ++ _ ++ _ ++ _ ++ _ ++ _ ++ _).toList = begun
    simp only [List.map_cons, List.map_nil, List.flatMap_cons, List.flatMap_nil, List.append_nil]
    have last (a b c d e : List Char) :
        a ++ (b ++ (c ++ ((d ++ ['\n']) ++ e))) = ((a ++ (b ++ (c ++ d))) ++ ['\n']) ++ e := by
      simp
    exact ⟨_, last ..⟩
  have fine : FineLine rules scope "  cp -r root $out/rootfs" := Fixed.fine (by decide)
  obtain ⟨line, -, reads, -⟩ := fine
  have ended : Reads rules scope (Step.line "  cp -r root $out/rootfs").printed
      (line ++ [('\n', false)]) := reads.append (Reads.char (by decide) (by decide))
  rw [split, List.append_assoc] at found
  obtain ⟨-, back, -, behind, rfl, -⟩ := divides List.getLast?_concat found
  rw [ended, readTemplate_closing, Option.map_some, List.append_nil, Option.some_inj] at behind
  rw [← behind, ← List.append_assoc, List.getLast?_concat]

/-- Nothing is stripped where the sentinel of the configuration begins a line. -/
theorem strip_of_quiet (plain : spec.Plain rules) (sshd : spec.sshd = none)
    (quiet : Quiet rules (heredocEscape spec.initConfig).toList) {pieces : List Piece}
    (found : readTemplate rules scope none (spec.script.toList ++ closing) = some pieces) :
    strip rules pieces = pieces := by
  -- The last piece is a newline, and the sentinel of the configuration stands at the margin.
  have last := getLast?_of_read found
  obtain ⟨lines, -, reads, -⟩ := reads_lines (@fine_initLines rules scope _ plain)
  obtain ⟨⟨named, path⟩, more, mark⟩ := @sound_configStep rules scope ""
  have front := @reads_catLine rules scope _ _ path more mark
  obtain ⟨text, split⟩ :=
    List.getLast?_eq_some_iff.mp (getLast?_ended (heredocEscape spec.initConfig))
  have body := @reads_ended rules scope _ quiet
  rw [split] at body
  have begins := @reads_mark rules scope _ mark.char
  have sentinel : "TATARA_INIT_LISP_EOF".toList ++ ['\n'] =
      'T' :: "ATARA_INIT_LISP_EOF\n".toList := rfl
  rw [LinuxRootfs.toList_script sshd, configStep, printed_write, split] at found
  rw [sentinel] at begins found
  generalize catLine "root/etc/tatara/init.lisp" "TATARA_INIT_LISP_EOF" = cat at found front
  generalize "ATARA_INIT_LISP_EOF\n".toList = others at found begins
  -- The script, cut in front of the sentinel.
  have written : spec.firstSteps.flatMap Step.printed ++ (cat ++ '\n' :: (text ++ ['\n'] ++
      'T' :: others) ++ spec.lastSteps.flatMap Step.printed) ++ closing =
        spec.firstSteps.flatMap Step.printed ++ ((cat ++ ['\n']) ++ ((text ++ ['\n']) ++
          ('T' :: others ++ (spec.lastSteps.flatMap Step.printed ++ closing)))) := by
    simp only [List.append_assoc, List.cons_append, List.nil_append]
  rw [written, LinuxRootfs.firstSteps, reads, front, body, begins] at found
  simp only [Option.map_map, Option.map_eq_some_iff, Function.comp_apply] at found
  obtain ⟨rest, -, rfl⟩ := found
  -- What is read, cut in the same place: there a line begins without a blank.
  have unindented : lines.flatMap (· ++ [('\n', false)]) ++ ((cat ++ ['\n']).map (·, false) ++
      ((text ++ ['\n']).map (·, false) ++ (('T' :: others).map (·, false) ++ rest))) =
        (lines.flatMap (· ++ [('\n', false)]) ++ ((cat ++ ['\n']).map (·, false) ++
          text.map (·, false))) ++ ('\n', false) :: ('T', false) ::
            (others.map (·, false) ++ rest) := by
    simp only [List.map_append, List.map_cons, List.map_nil, List.append_assoc, List.cons_append,
      List.nil_append]
  exact strip_of_unindented rules unindented rfl (by decide) last

/-- Where nothing in the configuration ends the literal, this is read as it is. -/
theorem runs_iff_done (plain : spec.Plain rules) (sshd : spec.sshd = none)
    (quiet : Quiet rules (heredocEscape spec.initConfig).toList) :
    spec.Runs rules scope ↔ Done rules scope (spec.script.toList ++ closing) spec.steps := by
  unfold LinuxRootfs.Runs Done
  -- Both say what the literal is read as; only the indentation could be dropped.
  rw [templateText_literal]
  constructor
  · rintro ⟨text, commands, read, script, does⟩
    obtain ⟨pieces, found, rfl⟩ := Option.map_eq_some_iff.mp read
    rw [strip_of_quiet plain sshd quiet found] at script
    exact ⟨pieces, commands, found, script, does⟩
  · rintro ⟨pieces, commands, found, script, does⟩
    refine ⟨pieces.map Prod.fst, commands, ?_, script, does⟩
    rw [found, Option.map_some, strip_of_quiet plain sshd quiet found]

/-- The sentinel of the configuration is nowhere in it. -/
theorem sentinel_of_done {text : List Char} {steps : List Step}
    (quiet : Quiet rules (heredocEscape spec.initConfig).toList)
    (done : Done rules scope ((configStep (heredocEscape spec.initConfig)).printed ++ text)
      (configStep spec.initConfig :: steps)) :
    ¬ "TATARA_INIT_LISP_EOF".toList <:+: spec.initConfig.toList := by
  have sound := @sound_configStep rules scope spec.initConfig
  -- What the shell takes as the configuration begins with what is written.
  obtain ⟨rest, found, contains⟩ := contains_of_done sound done
  obtain ⟨-, -, mark⟩ := sound
  obtain ⟨behind, letters⟩ := exists_of_quiet quiet mark.char found
  rw [letters] at contains
  -- The here-document begins with the escaped text.
  have prefixed := Shell.isPrefix_hereBody "TATARA_INIT_LISP_EOF".toList []
    ((ended (heredocEscape spec.initConfig)).toList ++
      ("TATARA_INIT_LISP_EOF".toList ++ '\n' :: behind))
  rw [List.nil_append] at prefixed
  -- So the escaped text begins with the configuration, which then has no sentinel.
  refine notInfix_of_isPrefix (List.IsPrefix.trans ?_ prefixed)
  rcases contains with same | same <;> rw [same]
  exact List.prefix_append _ _

/-- Without its sentinel a configuration is written as it is, and no line of it is the sentinel. -/
theorem configuration_of_absent {content : String}
    (absent : ¬ "TATARA_INIT_LISP_EOF".toList <:+: content.toList) :
    heredocEscape content = content ∧
      "TATARA_INIT_LISP_EOF".toList ∉ content.toList.splitOn '\n' :=
  ⟨if_neg absent, fun inside => absent (Delimited.infix_of_mem_splitOn inside)⟩

/-- When the commands of the script are its steps, nothing ends what it is in. -/
theorem harmless_of_runs (plain : spec.Plain rules) (runs : spec.Runs rules scope) :
    spec.Harmless rules := by
  have sshd := sshd_of_runs runs
  have quiet := quiet_of_runs plain sshd runs
  have done := (runs_iff_done plain sshd quiet).mp runs
  rw [LinuxRootfs.toList_script sshd, LinuxRootfs.steps, LinuxRootfs.firstSteps, List.append_assoc,
    List.append_assoc, done_lines (fine_initLines plain)] at done
  -- The sentinel is not in the configuration, so this is written as it is.
  have absent := sentinel_of_done quiet done
  obtain ⟨same, line⟩ := configuration_of_absent absent
  rw [same] at quiet done
  have others := (done_iff (sound_lastSteps plain sshd)).mp
    ((done_write (sound_configStep spec.initConfig) quiet line).mp done)
  exact ⟨sshd, quiet, absent, (harmless_lastSteps sshd).mp others⟩

/-- Where nothing ends what it is in, the commands of the script are its steps. -/
theorem runs_of_harmless (plain : spec.Plain rules) (harmless : spec.Harmless rules) :
    spec.Runs rules scope := by
  obtain ⟨sshd, quiet, absent, contents⟩ := harmless
  obtain ⟨same, line⟩ := configuration_of_absent absent
  refine (runs_iff_done plain sshd (by rwa [same])).mpr ?_
  -- The lines in front are read, the configuration is written, and the rest is harmless.
  rw [LinuxRootfs.toList_script sshd, LinuxRootfs.steps, LinuxRootfs.firstSteps, List.append_assoc,
    List.append_assoc, done_lines (fine_initLines plain), same]
  exact (done_write (sound_configStep spec.initConfig) quiet line).mpr
    ((done_iff (sound_lastSteps plain sshd)).mpr ((harmless_lastSteps sshd).mpr contents))

/-- All steps of the script are sound. -/
theorem sound_steps (plain : spec.Plain rules) (sshd : spec.sshd = none) :
    ∀ step ∈ spec.steps, step.Sound rules scope := by
  have first : ∀ step ∈ spec.firstSteps, step.Sound rules scope :=
    List.forall_mem_map.mpr (fine_initLines plain)
  rw [LinuxRootfs.steps, List.forall_mem_append, List.forall_mem_cons]
  exact ⟨first, sound_configStep spec.initConfig, sound_lastSteps plain sshd⟩

end delivery

/-! ### Files that are written once -/

section once

variable {rules : LexicalRules} {scope : Scope} {spec : LinuxRootfs}

/-- The file that a step writes. -/
def Step.target? : Step → Option String
  | .line _ => none
  | .write target _ _ => some target

/-- A command writes the file of its step, and none for a line. -/
theorem target?_of_does {command : Command} {step : Step} (sound : step.Sound rules scope)
    (does : Does rules scope command step) :
    command.target? = step.target?.map String.toList := by
  cases step with
  | line text =>
    -- The line is read in one way, and there is no here-document behind it.
    obtain ⟨line, tokens, reads, -, read, without⟩ := sound
    obtain ⟨pieces, found, alone⟩ := does
    have ended : Reads rules scope (text.toList ++ ['\n']) (line ++ [('\n', false)]) :=
      reads.append (Reads.char (by decide) (by decide))
    have whole := ended closing
    rw [List.append_assoc, List.singleton_append, found, readTemplate_closing, Option.map_some,
      List.append_nil, Option.some_inj] at whole
    have takes := Takes.plain read without []
    rw [whole, List.map_append, ← List.append_nil (_ ++ _)] at alone
    rw [List.map_singleton, takes, Option.some_inj, Prod.mk.injEq] at alone
    rw [← alone.1]
    exact Command.target?_of_sentinels without
  | write target sentinel content => exact Command.Writes.target? does

/-- So all commands do. -/
theorem targets_of_does {commands : List Command} {steps : List Step}
    (does : List.Forall₂ (Does rules scope) commands steps)
    (sound : ∀ step ∈ steps, step.Sound rules scope) :
    commands.map Command.target? = steps.map fun step => step.target?.map String.toList := by
  -- Step by step.
  induction does with
  | nil => rfl
  | cons first _ ih =>
    obtain ⟨soundFirst, soundOthers⟩ := List.forall_mem_cons.mp sound
    rw [List.map_cons, List.map_cons, target?_of_does soundFirst first, ih soundOthers]

/-- Each file that one step writes has its content when all commands have run. -/
theorem lastWritten_of_does {commands : List Command} {steps : List Step}
    (does : List.Forall₂ (Does rules scope) commands steps)
    (sound : ∀ step ∈ steps, step.Sound rules scope)
    (apart : (steps.filterMap Step.target?).Nodup) {target sentinel content : String}
    (inside : Step.write target sentinel content ∈ steps) :
    ∃ body, lastWritten target.toList commands = some body ∧
      Shell.Contains content.toList body := by
  -- By induction on the steps: the command for the file is the last one, since no later step writes
  -- the file.
  induction does with
  | nil => cases inside
  | @cons command step commands steps first others ih =>
    obtain ⟨soundFirst, soundOthers⟩ := List.forall_mem_cons.mp sound
    have same := target?_of_does soundFirst first
    rw [lastWritten_cons]
    rcases List.mem_cons.mp inside with rfl | later
    · have named : (Step.write target sentinel content).target? = some target := rfl
      rw [List.filterMap_cons_some named, List.nodup_cons] at apart
      have none : lastWritten target.toList commands = none := by
        refine lastWritten_eq_none fun other among writes => ?_
        have found := List.mem_map_of_mem (f := Command.target?) among
        rw [targets_of_does others soundOthers, writes] at found
        obtain ⟨step, behind, names⟩ := List.mem_map.mp found
        obtain ⟨target', found, equal⟩ := Option.map_eq_some_iff.mp names
        rw [String.toList_injective equal] at found
        exact apart.1 (List.mem_filterMap.mpr ⟨step, behind, found⟩)
      obtain ⟨cat, name, mark, -, -, -, contains⟩ := first
      exact ⟨command.body, by rw [none, same]; simp [Step.target?], contains⟩
    · have fewer : (steps.filterMap Step.target?).Nodup :=
        apart.sublist ((List.sublist_cons_self step steps).filterMap _)
      obtain ⟨body, found, contains⟩ := ih soundOthers fewer later
      exact ⟨body, by rw [found]; rfl, contains⟩

/-- The files of the script are the configuration and the extra files. -/
theorem targets_steps (plain : spec.Plain rules) (sshd : spec.sshd = none) :
    (spec.steps.filterMap Step.target?).Nodup := by
  -- Lines write nothing, and a file at most one.
  have lines (ls : List String) : (ls.map Step.line).filterMap Step.target? = [] :=
    List.filterMap_eq_nil_iff.mpr (List.forall_mem_map.mpr fun _ _ => rfl)
  have file (f : InitrdFile) : (f.steps.filterMap Step.target?).Sublist ["root" ++ f.path] := by
    unfold InitrdFile.steps
    rw [List.filterMap_append, List.filterMap_append, lines]
    cases f.content <;> simp [Step.target?]
  have files : ((spec.extraFiles.flatMap InitrdFile.steps).filterMap Step.target?).Sublist
      ((spec.extraFiles.map InitrdFile.path).map ("root" ++ ·)) := by
    induction spec.extraFiles with
    | nil => simp
    | cons f others ih =>
      rw [List.flatMap_cons, List.filterMap_append, List.map_cons, List.map_cons,
        ← List.singleton_append]
      exact (file f).append ih
  have line (text : String) (steps : List Step) : (Step.line text :: steps).filterMap Step.target? =
      steps.filterMap Step.target? := rfl
  have config (content : String) (steps : List Step) : (configStep content :: steps).filterMap
      Step.target? = "root/etc/tatara/init.lisp" :: steps.filterMap Step.target? := rfl
  -- The configuration is written first, and then the files.
  have whole : spec.steps.filterMap Step.target? = "root/etc/tatara/init.lisp" ::
      (spec.extraFiles.flatMap InitrdFile.steps).filterMap Step.target? := by
    rw [LinuxRootfs.steps, ← configStep, LinuxRootfs.firstSteps, LinuxRootfs.lastSteps, sshd]
    simp only [List.filterMap_append, lines, line, config, List.nil_append, List.append_nil,
      List.map_append]
  rw [whole]
  refine List.Nodup.sublist (files.cons_cons "root/etc/tatara/init.lisp") ?_
  -- The same prefix is put before all paths.
  have injective : Function.Injective fun path : String => "root" ++ path := by
    intro path path' same
    have letters := congrArg String.toList same
    simp only [String.toList_append, List.append_cancel_left_eq] at letters
    exact String.toList_injective letters
  exact plain.apart.map injective

end once

/-! ### The call -/

section call

variable {rules : LexicalRules} {spec : LinuxRootfs}

/-- Lines that are read as some lexemes each are read as those of all of them. -/
theorem lexes_lines {τ : Type} {items : List τ} {line : τ → String} {lexemes : τ → List Lexeme}
    (each : ∀ x ∈ items, Lexes rules .between ((line x).toList ++ ['\n']) (lexemes x) .between) :
    Lexes rules .between (lines (items.map line)).toList (items.flatMap lexemes) .between := by
  -- Line by line both texts are the same.
  have text : (lines (items.map line)).toList = items.flatMap fun x =>
      (line x).toList ++ ['\n'] := by
    rw [lines, String.toList_join, List.flatMap_map, List.flatMap_map]
    exact List.flatMap_congr fun x _ => String.toList_append
  rw [text]
  exact Lexes.flatMap each

/-- A package is read as its attribute of the package set. -/
theorem lexes_package {p : GuestPackage} (attr : IsAttrPath p.attrPath) :
    Lexes rules .between (("    pkgs." ++ p.attrPath).toList ++ ['\n']) p.lexemes .between := by
  -- Behind `pkgs.` the attributes are read one after the other.
  have set : Lexes rules .between "    pkgs.".toList (signs ["pkgs", "."]) .between :=
    Lexes.of_readLexemes (by decide) rfl
  have path := @Lexes.attrPath rules (p.attrPath.toList.splitOn '.')
    (List.splitOn_ne_nil '.' p.attrPath.toList) attr.2
  rw [List.intercalate_splitOn] at path
  rw [String.toList_append, List.append_assoc]
  exact set.append path

/-- The bindings for the packages are read. -/
theorem lexes_packagePrelude {packages : List GuestPackage}
    (attrs : ∀ p ∈ packages, IsAttrPath p.attrPath) :
    Lexes rules .between (packagePrelude packages).toList (packageLexemes packages) .between := by
  unfold packagePrelude packageLexemes
  -- Without packages there are no bindings.
  split
  · exact Lexes.nil .between
  · have opened : Lexes rules .between (lines ["  guestPackages = ["]).toList
        (signs ["guestPackages", "=", "["]) .between := Lexes.of_readLexemes (by decide) rfl
    have closed : Lexes rules .between (lines ["  ];",
        "  guestClosure = pkgs.closureInfo \x7b rootPaths = guestPackages; \x7d;"]).toList
        (signs ["]", ";", "guestClosure", "=", "pkgs", ".", "closureInfo", "\x7b", "rootPaths",
          "=", "guestPackages", ";", "\x7d", ";"]) .between :=
      Lexes.of_readLexemes (by decide) rfl
    have list := lexes_lines fun p inside => @lexes_package rules p (attrs p inside)
    -- The three parts, written one after the other.
    have text (front middle back : List String) : (lines (front ++ middle ++ back)).toList =
        (lines front).toList ++ (lines middle).toList ++ (lines back).toList := by
      simp [lines, String.toList_join]
    rw [text]
    exact (opened.append list).append closed

set_option maxRecDepth 2000 in
/-- The bindings for the server are read. -/
theorem lexes_sshdPrelude :
    Lexes rules .between sshdPrelude.toList sshdLexemes .between :=
  Lexes.of_readLexemes (by decide) rfl

set_option maxRecDepth 2000 in
/-- The programs that the script needs are read as attributes of the package set. -/
theorem lexes_buildInputs : Lexes rules .between
    " \x7b\n  buildInputs = [ pkgs.cpio pkgs.gzip pkgs.coreutils pkgs.findutils ];\n\x7d ".toList
    (signs ["\x7b", "buildInputs", "=", "[", "pkgs", ".", "cpio", "pkgs", ".", "gzip", "pkgs", ".",
      "coreutils", "pkgs", ".", "findutils", "]", ";", "\x7d"]) .between :=
  Lexes.of_readLexemes (by decide) rfl

/-- What is in front of the script is read as the call that is declared. -/
theorem lexes_header (plain : spec.Plain rules) :
    Lexes rules .between spec.header.toList spec.call .between := by
  have opened : Lexes rules .between "let\n  pkgs = import <nixpkgs> \x7b\x7d;\n".toList
      (signs ["let", "pkgs", "=", "import", "<nixpkgs>", "\x7b", "\x7d", ";"]) .between :=
    Lexes.of_readLexemes (by decide) rfl
  have packages := @lexes_packagePrelude rules spec.packages fun p inside =>
    (plain.packages p inside).1
  have server : Lexes rules .between (if spec.sshd.isSome then sshdPrelude else "").toList
      (if spec.sshd.isSome then sshdLexemes else []) .between := by
    split
    · exact lexes_sshdPrelude
    · exact Lexes.nil .between
  have called : Lexes rules .between "in\npkgs.runCommand \"".toList
      (signs ["in", "pkgs", ".", "runCommand"]) (.literal [] false) :=
    Lexes.of_readLexemes (by decide) rfl
  -- The quotes around the name are the ones that it is read up to.
  obtain ⟨noQuote, noEscape, uninterrupted⟩ := plain.name
  have name := Lexes.literal noQuote noEscape uninterrupted
  have whole := ((((opened.append packages).append server).append called).append name).append
    lexes_buildInputs
  have quote : "\"".toList = ['"'] := rfl
  unfold LinuxRootfs.header LinuxRootfs.call
  simp only [String.toList_append, List.append_assoc, quote] at whole ⊢
  exact whole

/-- The expression is read as the call that is declared, in front of the literal of the script. -/
theorem readFront_toNixExpr (plain : spec.Plain rules) :
    readFront rules .between spec.toNixExpr.toList = some (spec.call, spec.literal.toList) := by
  -- The literal begins with its quotes, and there the reading of the front stops.
  have opened : spec.literal.toList =
      '\x27' :: '\x27' :: '\n' :: (spec.script.toList ++ closing) := by
    rw [LinuxRootfs.literal, String.toList_append, String.toList_append]
    rfl
  rw [LinuxRootfs.toNixExpr, String.toList_append, opened]
  exact (lexes_header plain).front

end call

/-! ### Delivery -/

section delivery

variable {rules : LexicalRules} {scope : Scope} {spec : LinuxRootfs}

/-- Where the rest is plain, nothing ends what it is in when every file is written with its
content. -/
theorem LinuxRootfs.harmless_of_delivers (plain : spec.Plain rules)
    (delivers : spec.Delivers rules scope) : spec.Harmless rules := by
  -- The expression is read as the declared call, so that the literal is that of the spec.
  obtain ⟨literal, read, text, commands, unquoted, script, does, -⟩ := delivers
  rw [readFront_toNixExpr plain, Option.some_inj, Prod.mk.injEq] at read
  rw [← read.2] at unquoted
  exact harmless_of_runs plain ⟨text, commands, unquoted, script, does⟩

/-- Every file is written with its content where all that is spliced can be. -/
theorem LinuxRootfs.delivers_of_harmless (plain : spec.Plain rules)
    (harmless : spec.Harmless rules) : spec.Delivers rules scope := by
  -- The script runs, and each of its files is the last one to be written at its path.
  obtain ⟨text, commands, unquoted, script, does⟩ :=
    @runs_of_harmless rules scope spec plain harmless
  refine ⟨spec.literal.toList, readFront_toNixExpr plain, text, commands, unquoted, script, does, ?_⟩
  intro target sentinel content inside
  exact lastWritten_of_does does (sound_steps plain harmless.sshd)
    (targets_steps plain harmless.sshd) inside

end delivery

/-- A store in which every attribute is the same path. -/
def oneScope : Scope where
  value _ := "/nix/store/package".toList
  path _ := by decide

/-- A guest with the names of its hosts. -/
def hostsRootfs : LinuxRootfs where
  initBinary := packagePath "hello" ++ "/bin/hello"
  initConfig := "(definit :name \"plex\")"
  extraFiles := [{ path := "/etc/hosts", content := .inline "127.0.0.1 localhost\n", mode := 420 }]
  packages := [{ attrPath := "htop" }]

/-- A guest with a profile that sets an empty prompt. -/
def promptRootfs : LinuxRootfs where
  initBinary := "/nix/store/init/bin/tatara-init"
  extraFiles := [{ path := "/etc/profile", content := .inline "PS1=\x27\x27\n", mode := 420 }]

end Tatara.Vm
