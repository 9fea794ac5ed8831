import Mathlib.Data.List.DropRight
import Tatara.Domain.Allocation

/-! Releases, watched sources, and the events that the cluster keeps in a ring. -/

namespace Tatara.Domain

open Tatara.Rust

/-- Where a release is in its life. -/
inductive ReleaseStatus where
  | pending
  | active
  | superseded
  | rolledBack
  deriving DecidableEq, Repr

/-- A release of a job from a flake. -/
structure Release where
  id : Uuid
  name : String
  flakeRef : String
  flakeRev : Option String
  jobId : String
  jobSpecSnapshot : Option JobSpec
  version : UInt64
  status : ReleaseStatus
  createdAt : DateTime

/-- What kind of flake a source watches. -/
inductive SourceKind where
  | gitFlake
  | flakeOutput
  deriving DecidableEq, Repr

/-- Where a source is in its life. -/
inductive SourceStatus where
  | pending
  | ready
  | failed
  | suspended
  deriving DecidableEq, Repr

namespace SourceStatus

/-- The name of a source status in JSON. -/
def serialize : SourceStatus → Json
  | pending => .string "pending"
  | ready => .string "ready"
  | failed => .string "failed"
  | suspended => .string "suspended"

end SourceStatus

/-- A watched flake and the jobs that come from it. -/
structure Source where
  id : Uuid
  name : String
  kind : SourceKind
  flakeRef : String
  status : SourceStatus
  lastRev : Option String
  lastReconciledAt : Option DateTime
  lastError : Option String
  managedJobs : Std.ExtTreeMap String String
  createdAt : DateTime

/-- What an event is about. -/
inductive EventKind where
  | jobSubmitted
  | jobUpdated
  | jobStopped
  | allocationPlaced
  | allocationStarted
  | allocationFailed
  | allocationCompleted
  | nodeJoined
  | nodeLeft
  | nodeDraining
  | nodeReady
  | evaluationCompleted
  | deploymentStarted
  | deploymentCompleted
  | allocationRestarted
  | allocationLost
  | allocationRescheduled
  | reconcileCompleted
  | specDriftDetected
  | rollingUpdateStarted
  | rollingUpdateCompleted
  | sourceCreated
  | sourceReconciled
  | sourceFailed
  | sourceSuspended
  | sourceResumed
  | sourceJobCreated
  | sourceJobUpdated
  | sourceJobRemoved
  deriving DecidableEq, Repr

/-- A state change of the cluster. -/
structure Event where
  id : Uuid
  timestamp : DateTime
  kind : EventKind
  payload : Json

/-- What the surroundings supply while one log entry is applied: the readings of the clock and the
fresh identifiers, in the order in which they are asked for. -/
structure Readings where
  now : Nat → DateTime
  newV4 : Nat → Uuid

/-- Surroundings in which the clock stands still. -/
def Readings.still (time : DateTime) : Readings where
  now := fun _ => time
  newV4 := fun _ => 0x00000000000040008000000000000000

/-- A new event takes a fresh identifier and then reads the clock, which was read so many times. -/
def Event.new (readings : Readings) (reads : Nat) (kind : EventKind) (payload : Json) : Event :=
  { id := readings.newV4 0, timestamp := readings.now reads, kind := kind, payload := payload }

/-- A ring of the latest events. -/
structure EventRing where
  events : List Event
  capacity : Nat

namespace EventRing

/-- The ring that the cluster starts with. -/
def default : EventRing := ⟨[], 10000⟩

/-- `with_capacity`. -/
def withCapacity (capacity : Nat) : EventRing := ⟨[], capacity⟩

/-- Add an event, at the cost of the oldest one when the ring is full. -/
def push (ring : EventRing) (event : Event) : EventRing :=
  let kept := if ring.capacity ≤ ring.events.length then ring.events.tail else ring.events
  { ring with events := kept ++ [event] }

/-- The event just added is the last one of the ring. -/
@[simp] theorem push_getLast? (ring : EventRing) (event : Event) :
    (ring.push event).events.getLast? = some event := by
  -- The oldest event may go, the newest is always added.
  simp [push]

/-- `query`. -/
def query (ring : EventRing) (kind : Option EventKind) (since : Option DateTime) : List Event :=
  ring.events.filter fun e => kind.all (e.kind = ·) && since.all (·.nanos ≤ e.timestamp.nanos)

/-- A ring that holds the latest of some events holds the latest ones after one more. Also a ring
without room holds the event just added. -/
theorem push_events {ring : EventRing} {told : List Event}
    (latest : ring.events = told.rtake (max 1 ring.capacity)) (event : Event) :
    (ring.push event).events = (told ++ [event]).rtake (max 1 ring.capacity) := by
  obtain ⟨n, room⟩ : ∃ n, max 1 ring.capacity = n + 1 := ⟨max 1 ring.capacity - 1, by omega⟩
  rw [room] at latest ⊢
  rw [List.rtake_concat_succ]
  unfold push
  dsimp only
  congr 1
  have held : ring.events.length = told.length - (told.length - (n + 1)) := by
    rw [latest, List.rtake, List.length_drop]
  split
  · -- The oldest event makes room, or there is none.
    rw [latest, List.rtake, List.tail_drop, List.rtake]
    by_cases full : n + 1 ≤ told.length
    · congr 1
      omega
    · rw [List.drop_eq_nil_of_le (by omega), List.drop_eq_nil_of_le (by omega)]
  · -- Not all of the room has been needed so far.
    rw [latest, List.rtake, List.rtake]
    congr 1
    omega

/-- A ring that starts empty holds the latest of the events that it is told. -/
theorem foldl_push (capacity : Nat) (told : List Event) :
    told.foldl push (withCapacity capacity) = ⟨told.rtake (max 1 capacity), capacity⟩ := by
  induction told using List.reverseRecOn with
  | nil => simp [withCapacity]
  | append_singleton front event ih =>
    rw [List.foldl_append, List.foldl_cons, List.foldl_nil, ih]
    have pushed := @push_events ⟨front.rtake (max 1 capacity), capacity⟩ front rfl event
    dsimp only at pushed
    rw [← pushed]
    rfl

end EventRing

end Tatara.Domain
