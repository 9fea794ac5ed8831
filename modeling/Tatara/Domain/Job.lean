import Tatara.Rust.Data

/-! Jobs, the task groups they are made of, and the secrets and volumes of their tasks. -/

namespace Tatara.Domain

open Tatara.Rust

/-- Which scheduling a job asks for. -/
inductive JobType where
  | service
  | batch
  | system
  deriving DecidableEq, Repr

namespace JobType

/-- The name of a job type in JSON. -/
def serialize : JobType → Json
  | service => .string "service"
  | batch => .string "batch"
  | system => .string "system"

end JobType

/-- Where a job is in its life. -/
inductive JobStatus where
  | pending
  | running
  | dead
  deriving DecidableEq, Repr

namespace JobStatus

/-- The name of a job status in JSON. -/
def serialize : JobStatus → Json
  | pending => .string "pending"
  | running => .string "running"
  | dead => .string "dead"

end JobStatus

/-- What runs a task. -/
inductive DriverType where
  | exec
  | oci
  | nix
  | nixBuild
  | kasou
  | kube
  | wasi
  deriving DecidableEq, Repr

/-- When a task is started again. -/
inductive RestartMode where
  | onFailure
  | always
  | never
  deriving DecidableEq, Repr

/-- How often and how fast a task is started again. -/
structure RestartPolicy where
  mode : RestartMode
  attempts : UInt32
  intervalSecs : UInt64
  delaySecs : UInt64

/-- What a task or a node has of processor and memory. -/
structure Resources where
  cpuMhz : UInt64
  memoryMb : UInt64

/-- A condition on the nodes a job may run on. -/
structure Constraint where
  «attribute» : String
  operator : String
  value : String

/-- A port with its label. -/
structure PortMapping where
  label : String
  value : UInt16

/-- The ports of a task group. -/
structure NetworkConfig where
  ports : List PortMapping

/-- A check that a running task answers. -/
inductive HealthCheck where
  | http (port : UInt16) (path : String) (intervalSecs timeoutSecs : UInt64)
  | exec (command : String) (intervalSecs timeoutSecs : UInt64)
  | tcp (port : UInt16) (intervalSecs timeoutSecs : UInt64)

/-- The capabilities that a sandboxed workload is granted. -/
structure WasiCapabilities where
  filesystem : Bool
  network : Bool
  clocks : Bool
  random : Bool
  stdout : Bool
  stderr : Bool

/-- What the driver of a task is told to run. -/
inductive TaskConfig where
  | exec (command : String) (args : List String) (workingDir : Option String)
  | oci (image : String) (ports volumes : Std.ExtTreeMap String String)
      (entrypoint command : Option (List String))
  | nix (flakeRef : String) (args : List String)
  | nixBuild (flakeRef : String) (system : Option String) (extraArgs : List String)
      (atticCache : Option String)
  | kasou (kernel initrd cmdline : String) (disks : List String) (macAddress : Option String)
      (cpus : UInt32) (memoryMib : UInt64)
  | wasi (wasmPath : String) (capabilities : WasiCapabilities)
      (mounts : Std.ExtTreeMap String String) (allowedServices : List String)

/-- Where a secret is kept. -/
inductive SecretProvider where
  | akeyless
  | sops
  | env
  deriving DecidableEq, Repr

/-- A reference to a secret, which never holds its value. -/
structure SecretRef where
  name : String
  provider : SecretProvider
  key : String
  envVar : Option String
  mountPath : Option String

/-- Where the contents of a volume are. -/
inductive VolumeSource where
  | «local» (sizeMb : Option UInt64)
  | hostPath (path : String)
  | nfs (server path : String)

/-- A volume of a task group. -/
structure VolumeSpec where
  name : String
  source : VolumeSource
  readOnly : Bool

/-- The place of a volume inside a task. -/
structure VolumeClaim where
  volumeName : String
  mountPath : String
  readOnly : Bool

/-- One process of a task group. -/
structure Task where
  name : String
  driver : DriverType
  config : TaskConfig
  env : Std.ExtTreeMap String String
  resources : Resources
  healthChecks : List HealthCheck
  volumeClaims : List VolumeClaim

/-- Tasks that are placed together, some number of times. -/
structure TaskGroup where
  name : String
  count : UInt32
  tasks : List Task
  restartPolicy : RestartPolicy
  resources : Resources
  network : Option NetworkConfig
  secrets : List SecretRef
  volumes : List VolumeSpec
  serviceName : Option String

/-- A job as the cluster keeps it. -/
structure Job where
  id : String
  version : UInt64
  jobType : JobType
  status : JobStatus
  submittedAt : DateTime
  groups : List TaskGroup
  constraints : List Constraint
  «meta» : Std.ExtTreeMap String String
  specHash : Option String

/-- A job as it is submitted. -/
structure JobSpec where
  id : String
  jobType : JobType
  groups : List TaskGroup
  constraints : List Constraint
  «meta» : Std.ExtTreeMap String String

end Tatara.Domain
