import Tatara.Os.Config

/-! The closure of a system, and when its profile identifies it. -/

namespace Tatara.Os

open Tatara.Rust
open Tatara.Nix (BridgeTarget Derivation Recipe)

/-- `PackageSetError`. -/
inductive PackageSetError where
  | unknown (name : String)
  | backend (message : String)

/-- `PackageSet`, by its lookup. -/
structure PackageSet where
  get : String → Except PackageSetError (Option (Derivation Recipe))

/-- `SystemClosureError`. -/
inductive SystemClosureError where
  | missingPackage (name : String)
  | missingKernel (name : String)
  deriving DecidableEq

/-- `SystemClosure`. -/
structure SystemClosure where
  hostname : String
  system : String
  kernel : Derivation Recipe
  etc : Derivation Recipe
  services : Std.ExtTreeMap String (Derivation Recipe)
  activation : Derivation Recipe
  profile : Derivation Recipe

/-- `sanitize`. -/
def sanitize (s : String) : String :=
  String.ofList (s.toList.map fun c => if c.isAlphanum ∨ c = '-' ∨ c = '_' then c else '-')

/-- `shell_escape`. -/
def shellEscape (s : String) : String := shellSingleQuote s

/-- `bridge_derivation`. -/
def bridgeDerivation (name : String) (bridge : BridgeTarget) : Derivation Recipe :=
  { name, recipe := { bridge := some bridge } }

/-- `hermetic_derivation`. -/
def hermeticDerivation (name : String) (version : Option String) (installCmd : String) :
    Derivation Recipe :=
  { name
    recipe :=
      { version
        source := .inline ""
        builder := { phases := [.install], commands := [("Install", [installCmd])] } } }

/-- The kernel of a closure. -/
def kernelOf (cfg : SystemConfig) (pkgs : PackageSet) :
    Except SystemClosureError (Derivation Recipe) :=
  match cfg.kernel with
  | .bridge attrPath =>
    .ok (bridgeDerivation ("linux-kernel-" ++ sanitize cfg.hostname) { attrPath })
  | .package name =>
    match pkgs.get name with
    | .ok (some d) => .ok d
    | .ok none | .error _ => .error (.missingKernel name)
  | .custom derivation => .ok derivation

/-- The script that lays out `/etc`. -/
def etcScript (cfg : SystemConfig) : String :=
  let files := cfg.environment.etcFiles.map fun f =>
    "mkdir -p $(dirname $out/" ++ f.path ++ ") && cat > $out/" ++ f.path ++ " <<'TATARA_EOF'\n" ++
      f.content ++ "TATARA_EOF\n"
  let users := cfg.users.map fun u =>
    let uid := u.uid.getD 1000
    let gid := u.gid.getD uid
    let home := u.home.getD ("/home/" ++ u.name)
    let shell := u.shell.getD "/bin/sh"
    "echo '" ++ u.name ++ ":x:" ++ renderU32 uid ++ ":" ++ renderU32 gid ++ "::" ++ home ++ ":" ++
      shell ++ "' >> $out/passwd\n"
  "set -eu\nmkdir -p $out\n" ++
    "echo '" ++ shellEscape cfg.hostname ++ "' > $out/hostname\n" ++
    "cat > $out/os-release <<'EOF'\nNAME=\"tatara-os\"\nID=tatara\nPRETTY_NAME=\"tatara-os " ++
    cfg.hostname ++ "\"\nEOF\n" ++
    String.join files ++
    (if cfg.users.isEmpty then "" else ": > $out/passwd\n" ++ String.join users)

/-- The unit file of a service. -/
def unitText (svc : ServiceSpec) : String :=
  "[Unit]\nDescription=tatara-os service: " ++ svc.name ++ "\n\n[Service]\nExecStart=" ++
    svc.exec ++ "\n" ++ "\n".intercalate svc.extra ++ "\n\n[Install]\nWantedBy=multi-user.target\n"

/-- The derivation of a service. -/
def unitDerivation (svc : ServiceSpec) : Derivation Recipe :=
  hermeticDerivation ("unit-" ++ sanitize svc.name) none
    ("set -eu\nmkdir -p $out\ncat > $out/" ++ svc.name ++ ".service <<'TATARA_UNIT'\n" ++
      unitText svc ++ "TATARA_UNIT\n")

/-- The services of a closure. -/
def unitsOf (services : List ServiceSpec) : Std.ExtTreeMap String (Derivation Recipe) :=
  services.foldl (fun units svc => units.insert svc.name (unitDerivation svc)) ∅

/-- The script that the activation script is wrapped in. -/
def activationScript (cfg : SystemConfig) : String :=
  "set -eu\nmkdir -p $out\ncat > $out/activate <<'TATARA_ACTIVATE'\n" ++
    (ActivationScript.render cfg).asFileText ++ "\nTATARA_ACTIVATE\nchmod +x $out/activate\n"

/-- The lines of a profile that link its services. -/
def serviceLinks (names : List String) : String :=
  String.join (names.map fun name =>
    "ln -s $\x7b" ++ name ++ "\x7d $out/services/" ++ name ++ "\n")

/-- The script of a profile: a flat farm of links. -/
def profileScript (names : List String) : String :=
  "set -eu\nmkdir -p $out\n" ++
    "ln -s $\x7bkernel\x7d $out/kernel\n" ++
    "ln -s $\x7betc\x7d $out/etc\n" ++
    "ln -s $\x7bactivation\x7d/activate $out/activate\n" ++
    serviceLinks names ++
    "mkdir -p $out/services\n"

/-- `SystemClosure::from_config`, which does not look at the packages. -/
def SystemClosure.fromConfig (cfg : SystemConfig) (pkgs : PackageSet) :
    Except SystemClosureError SystemClosure := do
  let kernel ← kernelOf cfg pkgs
  let services := unitsOf cfg.services
  return {
    hostname := cfg.hostname
    system := cfg.system
    kernel
    etc := hermeticDerivation ("etc-" ++ sanitize cfg.hostname) none (etcScript cfg)
    services
    activation := hermeticDerivation ("activate-" ++ sanitize cfg.hostname) none
      (activationScript cfg)
    profile := hermeticDerivation ("profile-" ++ sanitize cfg.hostname) none
      (profileScript services.keys) }

/-! ### What the profile tells -/

variable {cfg cfg' : SystemConfig} {pkgs pkgs' : PackageSet}

/-- A hermetic derivation is told by its name, its version and its command. -/
theorem hermeticDerivation_inj {name name' : String} {version version' : Option String}
    {installCmd installCmd' : String} :
    hermeticDerivation name version installCmd = hermeticDerivation name' version' installCmd' ↔
      name = name' ∧ version = version' ∧ installCmd = installCmd' := by
  simp [hermeticDerivation]

/-- The last of the services of a name. -/
def lastService? (services : List ServiceSpec) (name : String) : Option ServiceSpec :=
  services.reverse.find? (·.name = name)

/-- The unit of a name is that of the last service of the name. -/
theorem getElem?_unitsOf (services : List ServiceSpec) (name : String) :
    (unitsOf services)[name]? = (lastService? services name).map unitDerivation := by
  -- A service overwrites the earlier ones of its name.
  unfold unitsOf lastService?
  induction services using List.reverseRecOn with
  | nil => rfl
  | append_singleton services svc ih =>
    rw [List.foldl_append, List.reverse_append]
    simp only [List.foldl_cons, List.foldl_nil, List.reverse_singleton, List.singleton_append]
    rw [Std.ExtTreeMap.getElem?_insert, ih]
    by_cases same : svc.name = name
    · rw [List.find?_cons_of_pos (by simpa using same)]
      simp [same]
    · rw [List.find?_cons_of_neg (by simpa using same)]
      simp [same]

/-- Units of one name are the same derivation exactly if they are the same text. -/
theorem unitDerivation_eq_iff {svc svc' : ServiceSpec} (named : svc.name = svc'.name) :
    unitDerivation svc = unitDerivation svc' ↔ unitText svc = unitText svc' := by
  -- The name and the version are the same, and the text is the command.
  unfold unitDerivation
  rw [hermeticDerivation_inj, named]
  simp

/-- The script of a profile tells the links of its services. -/
theorem profileScript_inj {names names' : List String} :
    profileScript names = profileScript names' ↔ serviceLinks names = serviceLinks names' := by
  unfold profileScript
  rw [String.append_left_inj, String.append_right_inj]

/-- The text of an activation script tells it. -/
theorem activationScript_inj :
    activationScript cfg = activationScript cfg' ↔
      ActivationScript.render cfg = ActivationScript.render cfg' := by
  -- What is wrapped is the content, behind a shebang that is always the same.
  unfold activationScript ActivationScript.asFileText
  rw [String.append_left_inj, String.append_right_inj]
  constructor
  · intro same
    have contents :
        (ActivationScript.render cfg).content = (ActivationScript.render cfg').content :=
      String.append_right_inj _ |>.mp same
    unfold ActivationScript.render at contents ⊢
    rw [ActivationScript.mk.injEq]
    exact ⟨contents, rfl, rfl⟩
  · rintro same
    rw [same]

/-- A closure is made exactly where there is a kernel. -/
theorem fromConfig_eq_ok_iff {closure : SystemClosure} :
    SystemClosure.fromConfig cfg pkgs = .ok closure ↔
      ∃ kernel, kernelOf cfg pkgs = .ok kernel ∧
        closure =
          { hostname := cfg.hostname
            system := cfg.system
            kernel
            etc := hermeticDerivation ("etc-" ++ sanitize cfg.hostname) none (etcScript cfg)
            services := unitsOf cfg.services
            activation := hermeticDerivation ("activate-" ++ sanitize cfg.hostname) none
              (activationScript cfg)
            profile := hermeticDerivation ("profile-" ++ sanitize cfg.hostname) none
              (profileScript (unitsOf cfg.services).keys) } := by
  -- Only the kernel can be missing.
  unfold SystemClosure.fromConfig
  cases kernelOf cfg pkgs with
  | error e => exact iff_of_false nofun (by rintro ⟨_, success, -⟩; cases success)
  | ok kernel =>
    constructor
    · intro success
      cases success
      exact ⟨kernel, rfl, rfl⟩
    · rintro ⟨kernel', same, rfl⟩
      cases same
      rfl

variable (hash : Derivation Recipe → String)

/-- Two closures have the same kernel, `/etc`, activation and services, as store paths. -/
structure SystemClosure.SamePaths (closure closure' : SystemClosure) : Prop where
  kernel : closure.kernel.storePath hash = closure'.kernel.storePath hash
  etc : closure.etc.storePath hash = closure'.etc.storePath hash
  activation : closure.activation.storePath hash = closure'.activation.storePath hash
  services : ∀ name : String, closure.services[name]?.map (·.storePath hash) =
    closure'.services[name]?.map (·.storePath hash)

variable (cfg cfg' pkgs pkgs')

/-- The profile identifies the system: closures with one profile have the same parts. -/
def Identifies : Prop :=
  ∀ closure closure', SystemClosure.fromConfig cfg pkgs = .ok closure →
    SystemClosure.fromConfig cfg' pkgs' = .ok closure' →
    closure.profile.storePath hash = closure'.profile.storePath hash →
      closure.SamePaths hash closure'

/-- A closure is made only if all packages are found. -/
def ResolvesPackages : Prop :=
  ∀ closure, SystemClosure.fromConfig cfg pkgs = .ok closure →
    ∀ name ∈ cfg.packages, ∃ d, pkgs.get name = .ok (some d)

/-- Two configurations say the same of the parts of the system that are not in the profile. -/
structure SaySame (kernel kernel' : Derivation Recipe) : Prop where
  kernel : kernel = kernel'
  etc : etcScript cfg = etcScript cfg'
  activation : ActivationScript.render cfg = ActivationScript.render cfg'
  units : ∀ name, (lastService? cfg.services name).map unitText =
    (lastService? cfg'.services name).map unitText

/-- Two configurations with kernels whose hostnames and names of services look the same in the
profile say the same of everything else. -/
def ToldByProfile : Prop :=
  ∀ kernel kernel', kernelOf cfg pkgs = .ok kernel → kernelOf cfg' pkgs' = .ok kernel' →
    sanitize cfg.hostname = sanitize cfg'.hostname →
    serviceLinks (unitsOf cfg.services).keys = serviceLinks (unitsOf cfg'.services).keys →
      SaySame cfg cfg' kernel kernel'

/-- There is no kernel, or all packages are found. -/
def PackagesFound : Prop :=
  ∀ kernel, kernelOf cfg pkgs = .ok kernel →
    ∀ name ∈ cfg.packages, ∃ d, pkgs.get name = .ok (some d)

variable {hash cfg cfg' pkgs pkgs'}

/-- The last service of a name has the name. -/
theorem name_of_lastService? {services : List ServiceSpec} {name : String} {svc : ServiceSpec}
    (found : lastService? services name = some svc) : svc.name = name := by
  simpa using List.find?_some found

/-- The units of a name have the same path exactly if they are the same text. -/
theorem units_samePath_iff (collisionFree : Function.Injective hash)
    (services services' : List ServiceSpec) (name : String) :
    ((unitsOf services)[name]?.map (·.storePath hash) =
        (unitsOf services')[name]?.map (·.storePath hash)) ↔
      (lastService? services name).map unitText = (lastService? services' name).map unitText := by
  -- Both units, if there are any, are of this name.
  rw [getElem?_unitsOf, getElem?_unitsOf]
  cases found : lastService? services name with
  | none => cases lastService? services' name <;> simp
  | some svc =>
    cases found' : lastService? services' name with
    | none => simp
    | some svc' =>
      have named := (name_of_lastService? found).trans (name_of_lastService? found').symm
      simp only [Option.map_some, Option.some.injEq]
      rw [Derivation.storePath_inj collisionFree, unitDerivation_eq_iff named]

/-- The profile identifies the system exactly where it says all that is said of the system. -/
theorem identifies_iff (collisionFree : Function.Injective hash) :
    Identifies cfg cfg' pkgs pkgs' hash ↔ ToldByProfile cfg cfg' pkgs pkgs' := by
  have etcPrefixed := fun host : sanitize cfg.hostname = sanitize cfg'.hostname =>
    congrArg ("etc-" ++ ·) host
  have activatePrefixed := fun host : sanitize cfg.hostname = sanitize cfg'.hostname =>
    congrArg ("activate-" ++ ·) host
  -- What the profile leaves out is named by the paths, and what it says by its own path.
  constructor
  · intro identifies kernel kernel' isKernel isKernel' hosts links
    have same := identifies _ _ (fromConfig_eq_ok_iff.mpr ⟨kernel, isKernel, rfl⟩)
      (fromConfig_eq_ok_iff.mpr ⟨kernel', isKernel', rfl⟩) <| by
        rw [Derivation.storePath_inj collisionFree, hermeticDerivation_inj]
        exact ⟨congrArg _ hosts, rfl, profileScript_inj.mpr links⟩
    have etc := (Derivation.storePath_inj collisionFree).mp same.etc
    have activation := (Derivation.storePath_inj collisionFree).mp same.activation
    exact {
      kernel := (Derivation.storePath_inj collisionFree).mp same.kernel
      etc := (hermeticDerivation_inj.mp etc).2.2
      activation := activationScript_inj.mp (hermeticDerivation_inj.mp activation).2.2
      units := fun name => (units_samePath_iff collisionFree _ _ name).mp (same.services name) }
  · intro alone closure closure' made made' sameProfile
    obtain ⟨kernel, isKernel, rfl⟩ := fromConfig_eq_ok_iff.mp made
    obtain ⟨kernel', isKernel', rfl⟩ := fromConfig_eq_ok_iff.mp made'
    have profiles := (Derivation.storePath_inj collisionFree).mp sameProfile
    obtain ⟨names, -, scripts⟩ := hermeticDerivation_inj.mp profiles
    have hosts := String.append_right_inj _ |>.mp names
    have say := alone kernel kernel' isKernel isKernel' hosts (profileScript_inj.mp scripts)
    exact {
      kernel := congrArg _ say.kernel
      etc := (Derivation.storePath_inj collisionFree).mpr
        (hermeticDerivation_inj.mpr ⟨etcPrefixed hosts, rfl, say.etc⟩)
      activation := (Derivation.storePath_inj collisionFree).mpr
        (hermeticDerivation_inj.mpr
          ⟨activatePrefixed hosts, rfl, activationScript_inj.mpr say.activation⟩)
      services := fun name => (units_samePath_iff collisionFree _ _ name).mpr (say.units name) }

/-- Every closure has its packages exactly where they are found or there is no kernel. -/
theorem resolvesPackages_iff : ResolvesPackages cfg pkgs ↔ PackagesFound cfg pkgs := by
  -- The closure is there once the kernel is.
  constructor
  · intro resolves kernel isKernel
    exact resolves _ (fromConfig_eq_ok_iff.mpr ⟨kernel, isKernel, rfl⟩)
  · intro found closure made
    obtain ⟨kernel, isKernel, -⟩ := fromConfig_eq_ok_iff.mp made
    exact found kernel isKernel

/-- The profile identifies the system, and a closure has its packages, exactly where the profile
says all that is said of the system, and the packages are found or there is no kernel. -/
theorem profile_identifies_iff (collisionFree : Function.Injective hash)
    (cfg cfg' : SystemConfig) (pkgs pkgs' : PackageSet) :
    Identifies cfg cfg' pkgs pkgs' hash ∧ ResolvesPackages cfg pkgs ∧ ResolvesPackages cfg' pkgs' ↔
      ToldByProfile cfg cfg' pkgs pkgs' ∧ PackagesFound cfg pkgs ∧ PackagesFound cfg' pkgs' := by
  rw [identifies_iff collisionFree, resolvesPackages_iff, resolvesPackages_iff]

/-- Every configuration with a kernel has another one with its profile, on another kernel. -/
theorem exists_not_identifies (collisionFree : Function.Injective hash) {kernel : Derivation Recipe}
    (isKernel : kernelOf cfg pkgs = .ok kernel) :
    ∃ other, ¬ Identifies cfg { cfg with kernel := .custom other } pkgs pkgs hash := by
  refine ⟨{ kernel with name := kernel.name ++ "-next" }, fun identifies => ?_⟩
  -- The hostname and the services are all that the profile names.
  have same := (identifies_iff collisionFree).mp identifies _ _ isKernel rfl rfl rfl
  have names := congrArg (fun d : Derivation Recipe => d.name.length) same.kernel
  simp at names

/-- A set without packages. -/
def noPackages : PackageSet := { get := fun _ => .ok none }

/-- A set with one package. -/
def helloPackages : PackageSet where
  get name := .ok (if name = "hello" then some (bridgeDerivation "hello" { attrPath := "hello" })
    else none)

/-- A system with a service. -/
def servingSystem (packages : List String) : SystemConfig where
  hostname := "plex"
  services := [{ name := "sshd", exec := "/bin/sshd" }]
  users := [{ name := "guest" }]
  packages

/-- The profile of a system with a service tells all of it but its packages, which are found. -/
theorem profile_identifies_hosts :
    Identifies (servingSystem ["hello"]) (servingSystem []) helloPackages helloPackages
        Nix.numberedHash ∧
      ResolvesPackages (servingSystem ["hello"]) helloPackages ∧
      ResolvesPackages (servingSystem []) helloPackages := by
  refine (profile_identifies_iff Nix.numberedHash_injective _ _ _ _).mpr ⟨?_, ?_, ?_⟩
  · -- Whatever the script is made of is the same in both.
    rintro kernel kernel' isKernel isKernel' - -
    cases isKernel
    cases isKernel'
    exact ⟨rfl, rfl, rfl, fun _ => rfl⟩
  · intro kernel _ name listed
    obtain rfl := List.mem_singleton.mp listed
    exact ⟨_, rfl⟩
  · intro kernel _ name listed
    cases listed

/-- A system on the newest kernel. -/
def newestKernel : SystemConfig :=
  { hostname := "plex", kernel := .bridge "linuxPackages_latest.kernel", packages := ["hello"] }

/-- Another kernel has the same profile, and a package that is not there is not missed. -/
theorem kernel_not_in_profile :
    ¬ Identifies { hostname := "plex" } newestKernel noPackages noPackages Nix.numberedHash ∧
      ¬ ResolvesPackages newestKernel noPackages := by
  -- Neither the kernel nor the packages are in the script of the profile.
  constructor
  · intro identifies
    have same := identifies_iff Nix.numberedHash_injective |>.mp identifies _ _ rfl rfl rfl rfl
    exact absurd same.kernel (by decide)
  · intro resolves
    obtain ⟨d, found⟩ := resolves _ rfl "hello" List.mem_cons_self
    cases found

end Tatara.Os
