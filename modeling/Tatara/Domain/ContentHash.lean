import Tatara.Domain.Job
import Tatara.Rust.JsonWriter

/-! The documents that specifications of jobs are written as, and their hash. -/

namespace Tatara.Domain

open Tatara.Rust

/-- In which order a hash map goes through its entries: in any order, but through all of them. -/
structure Traversal where
  entries : Std.ExtTreeMap String String → List (String × String)
  complete : ∀ map, (entries map).Perm map.toList

/-- The hash maps of a task. -/
inductive TaskMap where
  | env
  | ports
  | volumes
  | mounts
  deriving DecidableEq

/-- In which orders the hash maps of a specification go through their entries: of its own map, and
of the maps of the tasks, which are told by the places of the group and of the task in it. -/
structure Layout where
  «meta» : Traversal
  task : Nat → Nat → TaskMap → Traversal

/-- The document of a hash map. -/
def mapDocument (traversal : Traversal) (map : Std.ExtTreeMap String String) : Document :=
  .object ((traversal.entries map).map fun entry => (entry.1, .string entry.2))

/-- The document of an optional value, which is null where there is none. -/
def optionDocument {α : Type} (document : α → Document) : Option α → Document
  | none => .null
  | some a => document a

/-- The document of a list. -/
def listDocument {α : Type} (document : α → Document) (items : List α) : Document :=
  .array (items.map document)

/-- The document of a list of texts. -/
def textsDocument (texts : List String) : Document := listDocument .string texts

namespace JobType

def document : JobType → Document
  | service => .string "service"
  | batch => .string "batch"
  | system => .string "system"

end JobType

namespace DriverType

def document : DriverType → Document
  | exec => .string "exec"
  | oci => .string "oci"
  | nix => .string "nix"
  | nixBuild => .string "nix_build"
  | kasou => .string "kasou"
  | kube => .string "kube"
  | wasi => .string "wasi"

end DriverType

namespace RestartMode

def document : RestartMode → Document
  | onFailure => .string "on_failure"
  | always => .string "always"
  | never => .string "never"

end RestartMode

namespace SecretProvider

def document : SecretProvider → Document
  | akeyless => .string "akeyless"
  | sops => .string "sops"
  | env => .string "env"

end SecretProvider

def RestartPolicy.document (policy : RestartPolicy) : Document :=
  .object [("mode", policy.mode.document), ("attempts", .number policy.attempts.toNat),
    ("interval_secs", .number policy.intervalSecs.toNat),
    ("delay_secs", .number policy.delaySecs.toNat)]

def Resources.document (resources : Resources) : Document :=
  .object [("cpu_mhz", .number resources.cpuMhz.toNat),
    ("memory_mb", .number resources.memoryMb.toNat)]

def Constraint.document (constraint : Constraint) : Document :=
  .object [("attribute", .string constraint.attribute), ("operator", .string constraint.operator),
    ("value", .string constraint.value)]

def PortMapping.document (port : PortMapping) : Document :=
  .object [("label", .string port.label), ("value", .number port.value.toNat)]

def NetworkConfig.document (network : NetworkConfig) : Document :=
  .object [("ports", listDocument PortMapping.document network.ports)]

def HealthCheck.document : HealthCheck → Document
  | .http port path intervalSecs timeoutSecs =>
    .object [("type", .string "http"), ("port", .number port.toNat), ("path", .string path),
      ("interval_secs", .number intervalSecs.toNat), ("timeout_secs", .number timeoutSecs.toNat)]
  | .exec command intervalSecs timeoutSecs =>
    .object [("type", .string "exec"), ("command", .string command),
      ("interval_secs", .number intervalSecs.toNat), ("timeout_secs", .number timeoutSecs.toNat)]
  | .tcp port intervalSecs timeoutSecs =>
    .object [("type", .string "tcp"), ("port", .number port.toNat),
      ("interval_secs", .number intervalSecs.toNat), ("timeout_secs", .number timeoutSecs.toNat)]

def WasiCapabilities.document (capabilities : WasiCapabilities) : Document :=
  .object [("filesystem", .bool capabilities.filesystem), ("network", .bool capabilities.network),
    ("clocks", .bool capabilities.clocks), ("random", .bool capabilities.random),
    ("stdout", .bool capabilities.stdout), ("stderr", .bool capabilities.stderr)]

def TaskConfig.document (layout : TaskMap → Traversal) : TaskConfig → Document
  | .exec command args workingDir =>
    .object [("type", .string "exec"), ("command", .string command), ("args", textsDocument args),
      ("working_dir", optionDocument .string workingDir)]
  | .oci image ports volumes entrypoint command =>
    .object [("type", .string "oci"), ("image", .string image),
      ("ports", mapDocument (layout .ports) ports),
      ("volumes", mapDocument (layout .volumes) volumes),
      ("entrypoint", optionDocument textsDocument entrypoint),
      ("command", optionDocument textsDocument command)]
  | .nix flakeRef args =>
    .object [("type", .string "nix"), ("flake_ref", .string flakeRef),
      ("args", textsDocument args)]
  | .nixBuild flakeRef system extraArgs atticCache =>
    .object [("type", .string "nix_build"), ("flake_ref", .string flakeRef),
      ("system", optionDocument .string system), ("extra_args", textsDocument extraArgs),
      ("attic_cache", optionDocument .string atticCache)]
  | .kasou kernel initrd cmdline disks macAddress cpus memoryMib =>
    .object [("type", .string "kasou"), ("kernel", .string kernel), ("initrd", .string initrd),
      ("cmdline", .string cmdline), ("disks", textsDocument disks),
      ("mac_address", optionDocument .string macAddress), ("cpus", .number cpus.toNat),
      ("memory_mib", .number memoryMib.toNat)]
  | .wasi wasmPath capabilities mounts allowedServices =>
    .object [("type", .string "wasi"), ("wasm_path", .string wasmPath),
      ("capabilities", capabilities.document), ("mounts", mapDocument (layout .mounts) mounts),
      ("allowed_services", textsDocument allowedServices)]

def SecretRef.document (secret : SecretRef) : Document :=
  .object [("name", .string secret.name), ("provider", secret.provider.document),
    ("key", .string secret.key), ("env_var", optionDocument .string secret.envVar),
    ("mount_path", optionDocument .string secret.mountPath)]

def VolumeSource.document : VolumeSource → Document
  | .local sizeMb =>
    .object [("type", .string "local"),
      ("size_mb", optionDocument (fun size => .number size.toNat) sizeMb)]
  | .hostPath path => .object [("type", .string "host_path"), ("path", .string path)]
  | .nfs server path =>
    .object [("type", .string "nfs"), ("server", .string server), ("path", .string path)]

def VolumeSpec.document (volume : VolumeSpec) : Document :=
  .object [("name", .string volume.name), ("source", volume.source.document),
    ("read_only", .bool volume.readOnly)]

def VolumeClaim.document (claim : VolumeClaim) : Document :=
  .object [("volume_name", .string claim.volumeName), ("mount_path", .string claim.mountPath),
    ("read_only", .bool claim.readOnly)]

def Task.document (layout : TaskMap → Traversal) (task : Task) : Document :=
  .object [("name", .string task.name), ("driver", task.driver.document),
    ("config", task.config.document layout), ("env", mapDocument (layout .env) task.env),
    ("resources", task.resources.document),
    ("health_checks", listDocument HealthCheck.document task.healthChecks),
    ("volume_claims", listDocument VolumeClaim.document task.volumeClaims)]

def TaskGroup.document (layout : Nat → TaskMap → Traversal) (group : TaskGroup) : Document :=
  .object [("name", .string group.name), ("count", .number group.count.toNat),
    ("tasks", .array (group.tasks.mapIdx fun place task => task.document (layout place))),
    ("restart_policy", group.restartPolicy.document), ("resources", group.resources.document),
    ("network", optionDocument NetworkConfig.document group.network),
    ("secrets", listDocument SecretRef.document group.secrets),
    ("volumes", listDocument VolumeSpec.document group.volumes),
    ("service_name", optionDocument .string group.serviceName)]

def JobSpec.document (layout : Layout) (spec : JobSpec) : Document :=
  .object [("id", .string spec.id), ("job_type", spec.jobType.document),
    ("groups", .array (spec.groups.mapIdx fun place group => group.document (layout.task place))),
    ("constraints", listDocument Constraint.document spec.constraints),
    ("meta", mapDocument layout.meta spec.meta)]

/-- `content_hash`, for the digest of a text in hexadecimal digits. Writing never fails, as the keys
of the maps are texts. -/
def JobSpec.contentHash (digest : String → String) (layout : Layout) (spec : JobSpec) : String :=
  digest (spec.document layout).text

end Tatara.Domain
