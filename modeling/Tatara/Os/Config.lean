import Tatara.Nix.Store

/-! The configuration of a system, and the script that activates it. -/

namespace Tatara.Os

open Tatara.Rust Tatara.Nix

/-- Where the kernel comes from. -/
inductive KernelSpec where
  | bridge (attrPath : String)
  | package (name : String)
  | custom (derivation : Derivation Recipe)

/-- The init system. -/
inductive InitSystem where
  | tatara
  | systemd
  | s6
  | openRC
  deriving DecidableEq

/-- `ServiceSpec`. -/
structure ServiceSpec where
  name : String
  exec : String
  enable : Bool := true
  extra : List String := []
  deriving DecidableEq

/-- `UserSpec`. -/
structure UserSpec where
  name : String
  uid : Option UInt32 := none
  gid : Option UInt32 := none
  home : Option String := none
  shell : Option String := none

/-- `EtcFile`. -/
structure EtcFile where
  path : String
  content : String

/-- `EnvSpec`. -/
structure EnvSpec where
  timezone : Option String := none
  locale : Option String := none
  etcFiles : List EtcFile := []

/-- `SystemConfig`. -/
structure SystemConfig where
  hostname : String
  system : String := "x86_64-linux"
  kernel : KernelSpec := .bridge "linuxPackages.kernel"
  init : InitSystem := .tatara
  services : List ServiceSpec := []
  users : List UserSpec := []
  environment : EnvSpec := {}
  packages : List String := []

/-- `shell_single_quote`. -/
def shellSingleQuote (s : String) : String :=
  String.ofList (s.toList.flatMap fun c => if c = '\x27' then "'\\''".toList else [c])

/-- `shell_path_component`. -/
def shellPathComponent (s : String) : String := shellSingleQuote s

/-- The loop of `str::replace`, where some characters are still to be skipped. -/
def replaceFrom (pattern new : List Char) : Nat → List Char → List Char
  | _, [] => []
  | skip + 1, _ :: rest => replaceFrom pattern new skip rest
  | 0, c :: rest =>
    if pattern.isPrefixOf (c :: rest) then
      new ++ replaceFrom pattern new (pattern.length - 1) rest
    else c :: replaceFrom pattern new 0 rest

/-- `str::replace`. -/
def replaceText (s pattern new : String) : String :=
  String.ofList (replaceFrom pattern.toList new.toList 0 s.toList)

def renderU32 (n : UInt32) : String := String.ofList (renderNat n.toNat)

/-- The arguments that a user is added with. -/
def useraddArgs (u : UserSpec) : String :=
  let args := "--create-home --shell /bin/sh"
  let args :=
    match u.uid with
    | some uid => args ++ " --uid " ++ renderU32 uid
    | none => args
  let args :=
    match u.home with
    | some home =>
      replaceText args "--create-home" "" ++ " --home-dir '" ++ shellSingleQuote home ++ "'"
    | none => args
  match u.shell with
  | some shell =>
    replaceText args "--shell /bin/sh" "" ++ " --shell '" ++ shellSingleQuote shell ++ "'"
  | none => args

/-- A line for every service, between two texts and with a verb for whether it is enabled. -/
def serviceLines (services : List ServiceSpec) (command enabled disabled suffix : String) :
    String :=
  String.join (services.map fun svc =>
    command ++ " " ++ (if svc.enable then enabled else disabled) ++ " '" ++
      shellSingleQuote svc.name ++ suffix)

/-- `ActivationScript`. -/
structure ActivationScript where
  content : String
  shebang : String
  target : String
  deriving DecidableEq

/-- `ActivationScript::render`. -/
def ActivationScript.render (cfg : SystemConfig) : ActivationScript :=
  let hostname :=
    "# hostname\n" ++
      "echo '" ++ shellSingleQuote cfg.hostname ++ "' > /etc/hostname\n" ++
      "hostname '" ++ shellSingleQuote cfg.hostname ++ "' || true\n\n"
  let etcFiles :=
    if cfg.environment.etcFiles.isEmpty then ""
    else
      "# /etc files\n" ++
        String.join (cfg.environment.etcFiles.map fun f =>
          "install -D -m 0644 /run/current-system/etc/" ++ shellPathComponent f.path ++ " /etc/" ++
            shellPathComponent f.path ++ "\n") ++
        "\n"
  let timezone :=
    match cfg.environment.timezone with
    | some tz =>
      "ln -sf /usr/share/zoneinfo/" ++ shellPathComponent tz ++ " /etc/localtime\n"
    | none => ""
  let locale :=
    match cfg.environment.locale with
    | some loc => "echo 'LANG=" ++ shellSingleQuote loc ++ "' > /etc/locale.conf\n"
    | none => ""
  let afterLocale :=
    if cfg.environment.timezone.isSome || cfg.environment.locale.isSome then "\n" else ""
  let users :=
    if cfg.users.isEmpty then ""
    else
      "# users (safety: only add missing, never remove)\n" ++
        String.join (cfg.users.map fun u =>
          "id -u '" ++ shellSingleQuote u.name ++ "' >/dev/null 2>&1 || useradd " ++
            useraddArgs u ++ " '" ++ shellSingleQuote u.name ++ "'\n") ++
        "\n"
  let services :=
    if cfg.services.isEmpty then ""
    else
      (match cfg.init with
        | .tatara =>
          "# services (tatara-init — PID 1)\n" ++
            "if [ -r /run/tatara-init.pid ]; then\n" ++
            "    kill -HUP \"$(cat /run/tatara-init.pid)\" || true\n" ++
            "fi\n"
        | .systemd =>
          "# services (systemd)\nsystemctl daemon-reload\n" ++
            serviceLines cfg.services "systemctl" "enable --now" "disable" ".service' || true\n"
        | .s6 =>
          "# services (s6)\n" ++
            serviceLines cfg.services "s6-rc" "enable" "disable" "' || true\n"
        | .openRC =>
          "# services (openrc)\n" ++
            serviceLines cfg.services "rc-update" "add" "del" "' default || true\n") ++
        "\n"
  { shebang := "#!/bin/sh"
    content :=
      "set -eu\n" ++ "echo \"[tatara-os] activating configuration for " ++ cfg.hostname ++
        "\"\n\n" ++ hostname ++ etcFiles ++ timezone ++ locale ++ afterLocale ++ users ++
        services ++ "echo \"[tatara-os] activation complete\"\n"
    target := "/run/current-system/activate" }

/-- `as_file_text`. -/
def ActivationScript.asFileText (script : ActivationScript) : String :=
  script.shebang ++ "\n" ++ script.content

end Tatara.Os
