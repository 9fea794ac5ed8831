import Tatara.Operator.FlakeSource
import Tatara.Rust.MergePatch

/-! The status of a flake source as it is stored: what is merged into it, and what is read back. -/

namespace Tatara.Operator

open Tatara.Rust Tatara.Rust.Json

/-- The texts of instants: the one that `to_rfc3339` gives, and the one that is serialized. -/
class DateTimeText where
  toRfc3339 : DateTime → String
  serialize : DateTime → String
  deserialize : String → Option DateTime

section primitives

variable {α : Type}

/-- A text is read. -/
def decodeString : Json → Option String
  | .string text => some text
  | _ => none

/-- A `u32` is read. -/
def decodeU32 : Json → Option UInt32
  | .number (.posInt n) => if n.toNat < 2 ^ 32 then some n.toUInt32 else none
  | _ => none

/-- A value that may be null is read. -/
def decodeOption (decode : Json → Option α) : Json → Option (Option α)
  | .null => some none
  | value => (decode value).map some

/-- A list is read item by item. -/
def decodeVec (decode : Json → Option α) : Json → Option (List α)
  | .array items => items.mapM decode
  | _ => none

/-- A field that has a default where it is missing is read. -/
def decodeField (default : α) (decode : Json → Option α) (key : String) (value : Json) :
    Option α :=
  match value.field key with
  | none => some default
  | some value => decode value

/-- A value that there may be is written, or else null. -/
def encodeOption (encode : α → Json) : Option α → Json
  | none => .null
  | some a => encode a

end primitives

/-- The name of a state. -/
def OutputState.label : OutputState → String
  | pending => "Pending"
  | building => "Building"
  | cached => "Cached"
  | failed => "Failed"

/-- The state of a name. -/
def OutputState.ofLabel : String → Option OutputState
  | "Pending" => some pending
  | "Building" => some building
  | "Cached" => some cached
  | "Failed" => some failed
  | _ => none

section codec

variable [DateTimeText]

/-- An instant is read. -/
def decodeTime (value : Json) : Option DateTime :=
  (decodeString value).bind DateTimeText.deserialize

/-- An instant is written. -/
def encodeTime (t : DateTime) : Json := .string (DateTimeText.serialize t)

/-- `Serialize` of an output status. -/
def OutputStatus.encode (os : OutputStatus) : Json :=
  .object [("attr", .string os.attr), ("build_ref", encodeOption .string os.buildRef),
    ("last_built", encodeOption encodeTime os.lastBuilt), ("state", .string os.state.label),
    ("store_path", encodeOption .string os.storePath)]

/-- `Deserialize` of an output status. -/
def OutputStatus.decode (value : Json) : Option OutputStatus := do
  let attr ← (value.field "attr").bind decodeString
  let state ← ((value.field "state").bind decodeString).bind OutputState.ofLabel
  let storePath ← decodeField none (decodeOption decodeString) "store_path" value
  let buildRef ← decodeField none (decodeOption decodeString) "build_ref" value
  let lastBuilt ← decodeField none (decodeOption decodeTime) "last_built" value
  pure { attr, state, storePath, buildRef, lastBuilt }

/-- The fields that `Serialize` writes of a status. -/
def FlakeSourceStatus.encode (status : FlakeSourceStatus) : List (String × Json) :=
  [("cached_outputs", .ofU64 status.cachedOutputs.toUInt64),
    ("last_commit", encodeOption .string status.lastCommit),
    ("last_error", encodeOption .string status.lastError),
    ("last_polled", encodeOption encodeTime status.lastPolled),
    ("output_statuses", .array (status.outputStatuses.map OutputStatus.encode)),
    ("previous_commit", encodeOption .string status.previousCommit),
    ("total_outputs", .ofU64 status.totalOutputs.toUInt64)]

/-- `Deserialize` of a status: the fields have the names that are declared, and any other is passed
over. -/
def FlakeSourceStatus.decode (value : Json) : Option FlakeSourceStatus := do
  let lastPolled ← decodeField none (decodeOption decodeTime) "last_polled" value
  let lastCommit ← decodeField none (decodeOption decodeString) "last_commit" value
  let previousCommit ← decodeField none (decodeOption decodeString) "previous_commit" value
  let cachedOutputs ← decodeField 0 decodeU32 "cached_outputs" value
  let totalOutputs ← decodeField 0 decodeU32 "total_outputs" value
  let outputStatuses ← decodeField [] (decodeVec OutputStatus.decode) "output_statuses" value
  let lastError ← decodeField none (decodeOption decodeString) "last_error" value
  pure { lastPolled, lastCommit, previousCommit, cachedOutputs, totalOutputs, outputStatuses
         lastError }

end codec

section patches

variable (ref : ObjectRef) (spec : FlakeSourceSpec) (answers : SourceAnswers) (s : SourceState)

/-- The status of an output once its build has been looked at. -/
def progressed (place : Nat) (os : OutputStatus) : OutputStatus :=
  match os.buildRef, answers.get place with
  | some name, none =>
    match s.builds ⟨ref.namespace_, name⟩ with
    | some build =>
      match build.status with
      | some bs =>
        match bs.phase with
        | .complete =>
          { os with state := .cached, storePath := bs.storePath, lastBuilt := some answers.now }
        | phase => { os with state := outputState phase }
      | none => os
    | none => os
  | none, _ | some _, some _ => os

/-- The statuses of the outputs once the builds have been looked at. -/
def computedOutputs (statuses : List OutputStatus) : List OutputStatus :=
  statuses.zipIdx.map fun (os, place) => progressed ref answers s place os

/-- How many outputs are cached. -/
def cachedCount (statuses : List OutputStatus) : UInt32 :=
  .ofNat (statuses.countP fun os => os.state = .cached)

variable [DateTimeText]

/-- What is merged into the status after the poll has failed. -/
def pollErrorPatch (error : String) : List (String × Json) :=
  [("lastError", .string error), ("lastPolled", .string (DateTimeText.toRfc3339 answers.now))]

/-- What is merged into the status when the state of an output has changed. -/
def progressPatch (outputStatuses : List OutputStatus) : List (String × Json) :=
  [("cachedOutputs", .ofU64 (cachedCount outputStatuses).toUInt64), ("lastError", .null),
    ("lastPolled", .string (DateTimeText.toRfc3339 answers.now)),
    ("outputStatuses", .array (outputStatuses.map OutputStatus.encode))]

/-- What a reconcile asks the server to merge into the status, if it does. -/
def statusPatch : Option (List (String × Json)) :=
  match answers.latestCommit with
  | .error e => some (pollErrorPatch answers e)
  | .ok latest =>
    let isNew := s.lastCommit ≠ some latest
    let isFirst := s.lastCommit = none ∧ spec.buildOnCreate
    if isNew ∨ isFirst then
      match (createOutputs ref spec answers 0 spec.outputs s).1 with
      | .error _ => none
      | .ok outputStatuses =>
        some (FlakeSourceStatus.encode
          { lastPolled := some answers.now
            lastCommit := some latest
            previousCommit := s.lastCommit
            cachedOutputs := 0
            totalOutputs := .ofNat spec.outputs.length
            outputStatuses
            lastError := none })
    else
      match s.status with
      | none => none
      | some status =>
        if outputsMoved ref answers s status.outputStatuses then
          some (progressPatch answers (computedOutputs ref answers s status.outputStatuses))
        else none

end patches

section

/-- The names of the fields of a status, as they are declared. -/
def statusKeys : List String :=
  ["last_polled", "last_commit", "previous_commit", "cached_outputs", "total_outputs",
    "output_statuses", "last_error"]

/-- A field is read from the value of its name. -/
theorem decodeField_congr {α : Type} {default : α} {decode : Json → Option α} {key : String}
    {value other : Json} (same : value.field key = other.field key) :
    decodeField default decode key value = decodeField default decode key other := by
  rw [decodeField, decodeField, same]

variable [DateTimeText]

/-- A status is read from the fields that are declared. -/
theorem decode_congr {value other : Json}
    (same : ∀ key ∈ statusKeys, value.field key = other.field key) :
    FlakeSourceStatus.decode value = FlakeSourceStatus.decode other := by
  -- The fields are decoded one by one, under the keys that are declared.
  simp only [statusKeys, List.forall_mem_cons, List.not_mem_nil, false_implies, implies_true,
    and_true] at same
  obtain ⟨polled, commit, previous, cached, total, outputs, error⟩ := same
  rw [FlakeSourceStatus.decode, FlakeSourceStatus.decode, decodeField_congr polled,
    decodeField_congr commit, decodeField_congr previous, decodeField_congr cached,
    decodeField_congr total, decodeField_congr outputs, decodeField_congr error]

/-- A patch whose fields are none of those declared does not change what is read. -/
theorem decode_mergePatch_of_foreign {patch : List (String × Json)}
    (distinct : (patch.map Prod.fst).Nodup) (foreign : ∀ key ∈ statusKeys, patch.lookup key = none)
    (stored : Json) :
    FlakeSourceStatus.decode (mergePatch stored (.object patch)) =
      FlakeSourceStatus.decode stored := by
  -- What is read only depends on the declared fields, and of these the patch has none.
  refine decode_congr fun key declared => ?_
  rw [field_mergePatch distinct, foreign key declared]
  rfl

/-- The patch after a poll that failed leaves what is read as it was. -/
theorem decode_pollErrorPatch (answers : SourceAnswers) (error : String) (stored : Json) :
    FlakeSourceStatus.decode (mergePatch stored (.object (pollErrorPatch answers error))) =
      FlakeSourceStatus.decode stored := by
  -- The keys of the patch are written in camel case, and none of them is declared.
  refine decode_mergePatch_of_foreign ?_ ?_ stored
  · simp [pollErrorPatch]
  · simp [statusKeys, pollErrorPatch, List.lookup_cons]

/-- So does the patch with the progress. -/
theorem decode_progressPatch (answers : SourceAnswers) (outputStatuses : List OutputStatus)
    (stored : Json) :
    FlakeSourceStatus.decode (mergePatch stored (.object (progressPatch answers outputStatuses))) =
      -- As before, no key of the patch is declared.
      FlakeSourceStatus.decode stored := by
  refine decode_mergePatch_of_foreign ?_ ?_ stored
  · simp [progressPatch]
  · simp [statusKeys, progressPatch, List.lookup_cons]

end

section

variable {ref : ObjectRef} {answers : SourceAnswers} {s : SourceState}

/-- Whether some output has moved shows in the states that are computed. -/
theorem outputsMoved_eq_false_iff {statuses : List OutputStatus} :
    outputsMoved ref answers s statuses = false ↔
      (computedOutputs ref answers s statuses).map OutputStatus.state =
        statuses.map OutputStatus.state := by
  have places : statuses.map OutputStatus.state =
      statuses.zipIdx.map fun entry => entry.1.state := by
    conv_lhs => rw [← List.zipIdx_map_fst 0 statuses, List.map_map]
    rfl
  rw [computedOutputs, List.map_map, places, List.map_inj_left, outputsMoved, List.any_eq_false]
  refine forall₂_congr fun entry _ => ?_
  obtain ⟨os, place⟩ := entry
  -- Only a build that is found, and has a status, can be in another state.
  cases named : os.buildRef with
  | none => simp [progressed, named]
  | some name =>
    cases got : answers.get place with
    | some e => simp [progressed, named, got]
    | none =>
      cases there : s.builds ⟨ref.namespace_, name⟩ with
      | none => simp [progressed, named, got, there]
      | some build =>
        cases shown : build.status with
        | none => simp [progressed, named, got, there, shown]
        | some bs =>
          cases phase : bs.phase <;>
            simp [progressed, named, got, there, shown, phase, outputState]

end

section

variable [DateTimeText]

/-- What a reconcile merges into the stored status of a source whose commit is unchanged is read
back: the states of the outputs are those computed, the cached ones are counted, there is no error,
and another reconcile with the same builds writes nothing. -/
def ProgressSurvives (ref : ObjectRef) (spec : FlakeSourceSpec) (answers : SourceAnswers)
    (builds : NixBuilds) (created : Nat) (stored : Json) : Prop :=
  ∀ status latest patch, FlakeSourceStatus.decode stored = some status →
    answers.latestCommit = .ok latest → status.lastCommit = some latest →
      statusPatch ref spec answers ⟨builds, created, some status⟩ = some patch →
        ∃ status', FlakeSourceStatus.decode (mergePatch stored (.object patch)) = some status' ∧
          status'.outputStatuses.map OutputStatus.state =
            (computedOutputs ref answers ⟨builds, created, some status⟩
              status.outputStatuses).map OutputStatus.state ∧
          status'.cachedOutputs = cachedCount status'.outputStatuses ∧
          status'.lastError = none ∧
          ∀ now, statusPatch ref spec { answers with now } ⟨builds, created, some status'⟩ = none

/-- The state that the stored status shows of each output is the one that its build is in. -/
def Settled (ref : ObjectRef) (answers : SourceAnswers) (builds : NixBuilds) (created : Nat)
    (stored : Json) : Prop :=
  ∀ status latest, FlakeSourceStatus.decode stored = some status →
    answers.latestCommit = .ok latest → status.lastCommit = some latest →
      outputsMoved ref answers ⟨builds, created, some status⟩ status.outputStatuses = false

/-- With the commit unchanged, what is merged is the progress of the outputs, if there is any. -/
theorem statusPatch_of_unchanged {ref : ObjectRef} {spec : FlakeSourceSpec}
    {answers : SourceAnswers} {builds : NixBuilds} {created : Nat} {status : FlakeSourceStatus}
    {latest : String} (polled : answers.latestCommit = .ok latest)
    (recorded : status.lastCommit = some latest) :
    statusPatch ref spec answers ⟨builds, created, some status⟩ =
      if outputsMoved ref answers ⟨builds, created, some status⟩ status.outputStatuses then
        some (progressPatch answers (computedOutputs ref answers ⟨builds, created, some status⟩
          status.outputStatuses))
      else none := by
  -- The commit is neither new nor the first one.
  simp [statusPatch, polled, SourceState.lastCommit, recorded]

/-- Build progress is read back exactly when there is none to write. -/
theorem progressSurvives_iff (ref : ObjectRef) (spec : FlakeSourceSpec) (answers : SourceAnswers)
    (builds : NixBuilds) (created : Nat) (stored : Json) :
    ProgressSurvives ref spec answers builds created stored ↔
      Settled ref answers builds created stored := by
  constructor
  · intro survives status latest read polled recorded
    by_contra moved
    rw [Bool.not_eq_false] at moved
    have patched : statusPatch ref spec answers ⟨builds, created, some status⟩ = _ :=
      statusPatch_of_unchanged polled recorded
    rw [if_pos moved] at patched
    -- What is read after the merge is the status as it was before.
    obtain ⟨status', read', states, -⟩ := survives status latest _ read polled recorded patched
    rw [decode_progressPatch, read] at read'
    obtain rfl := Option.some.inj read'
    rw [outputsMoved_eq_false_iff.mpr states.symm] at moved
    cases moved
  · intro settled status latest patch read polled recorded patched
    rw [statusPatch_of_unchanged polled recorded, settled status latest read polled recorded]
      at patched
    cases patched

end

section

variable {α : Type} {decode : Json → Option α} (text : α → String)
  (back : ∀ a, decode (.string (text a)) = some a)

include back

/-- What there may be of a text is read back. -/
theorem decodeOption_text (a : Option α) :
    decodeOption decode (encodeOption (fun a => .string (text a)) a) = some a := by
  -- An absent text is null, and a text goes there and back.
  cases a with
  | none => rfl
  | some a => exact congrArg (Option.map some) (back a)

/-- A text that is merged into a field is read back, and so is its absence, which takes the field
out. -/
theorem decodeField_text {value : Json} {key : String} {old : Option Json} (a : Option α)
    (merged : value.field key =
      patchedField old (some (encodeOption (fun a => .string (text a)) a))) :
    decodeField none (decodeOption decode) key value = some a := by
  -- The null of an absent text takes the field out, which then reads as absent.
  rw [decodeField, merged]
  cases a with
  | none => rfl
  | some a => exact congrArg (Option.map some) (back a)

end

section

variable [DateTimeText] (faithful : ∀ t : DateTime,
  DateTimeText.deserialize (DateTimeText.serialize t) = some t)

include faithful

/-- What is written of an output is read back. -/
theorem OutputStatus.decode_encode (os : OutputStatus) :
    OutputStatus.decode os.encode = some os := by
  -- Each field is a text, a time or a label, and each goes there and back.
  have text (t : Option String) : decodeOption decodeString (encodeOption .string t) = some t :=
    decodeOption_text id (fun _ => rfl) t
  have time (t : Option DateTime) : decodeOption decodeTime (encodeOption encodeTime t) = some t :=
    decodeOption_text DateTimeText.serialize faithful t
  have state : OutputState.ofLabel os.state.label = some os.state := by cases os.state <;> rfl
  simp [OutputStatus.decode, OutputStatus.encode, decodeField, field, List.lookup_cons, text, time,
    decodeString, state]

/-- What is written of outputs is read back. -/
theorem decodeVec_encode (outputs : List OutputStatus) :
    decodeVec OutputStatus.decode (.array (outputs.map OutputStatus.encode)) = some outputs := by
  -- The outputs are read one by one.
  show (outputs.map OutputStatus.encode).mapM OutputStatus.decode = some outputs
  induction outputs with
  | nil => rfl
  | cons os rest ih =>
    rw [List.map_cons, List.mapM_cons, OutputStatus.decode_encode faithful os, ih]
    rfl

/-- A status that is written as a whole is read back from whatever it is merged into. -/
theorem decode_mergePatch_encode (status : FlakeSourceStatus) (stored : Json) :
    FlakeSourceStatus.decode (mergePatch stored (.object status.encode)) = some status := by
  have distinct : (status.encode.map Prod.fst).Nodup := by simp [FlakeSourceStatus.encode]
  -- Each field is what the patch makes of the one that is stored.
  have merged (key : String) :
      (mergePatch stored (.object status.encode)).field key =
        patchedField (stored.field key) (status.encode.lookup key) :=
    field_mergePatch distinct stored key
  have text (key : String) (t : Option String)
      (own : status.encode.lookup key = some (encodeOption .string t)) :
      decodeField none (decodeOption decodeString) key (mergePatch stored (.object status.encode)) =
        some t :=
    decodeField_text id (fun _ => rfl) t ((merged key).trans (by rw [own]; rfl))
  have number (key : String) (n : UInt32)
      (own : status.encode.lookup key = some (.ofU64 n.toUInt64)) :
      decodeField 0 decodeU32 key (mergePatch stored (.object status.encode)) = some n := by
    rw [decodeField, merged, own]
    simpa [patchedField, ofU64, mergePatch, decodeU32] using n.toNat_lt
  have outputs : decodeField [] (decodeVec OutputStatus.decode) "output_statuses"
      (mergePatch stored (.object status.encode)) = some status.outputStatuses := by
    rw [decodeField, merged]
    exact decodeVec_encode faithful status.outputStatuses
  have polled : decodeField none (decodeOption decodeTime) "last_polled"
      (mergePatch stored (.object status.encode)) = some status.lastPolled :=
    decodeField_text DateTimeText.serialize faithful _ (merged "last_polled")
  rw [FlakeSourceStatus.decode, polled, text "last_commit" _ rfl, text "previous_commit" _ rfl,
    number "cached_outputs" _ rfl, number "total_outputs" _ rfl, outputs, text "last_error" _ rfl]
  rfl

/-- Where the patch of a reconcile lands, the status that is read from the merged one is the status
that the reconcile leaves. -/
theorem decode_statusPatch {ref : ObjectRef} {spec : FlakeSourceSpec} {answers : SourceAnswers}
    {s : SourceState} {stored : Json} (read : FlakeSourceStatus.decode stored = s.status)
    {patch : List (String × Json)} (patched : statusPatch ref spec answers s = some patch)
    (lands : Lands answers.patch) :
    FlakeSourceStatus.decode (mergePatch stored (.object patch)) =
      (reconcileSource ref spec answers s).2.status := by
  unfold statusPatch at patched
  unfold reconcileSource
  -- The branches of the two are the same; only the status that is written as a whole is read back.
  cases polled : answers.latestCommit with
  | error e =>
    rw [polled] at patched
    cases patched
    exact (decode_pollErrorPatch answers e stored).trans read
  | ok latest =>
    rw [polled] at patched
    dsimp only at patched ⊢
    split at patched
    · rename_i due
      rw [if_pos due]
      split at patched
      · cases patched
      · rename_i outputStatuses made
        cases patched
        cases all : createOutputs ref spec answers 0 spec.outputs s with
        | mk result t =>
          rw [all] at made
          cases made
          dsimp only
          rw [if_pos lands]
          exact decode_mergePatch_encode faithful _ stored
    · rename_i notDue
      rw [if_neg notDue]
      cases held : s.status with
      | none =>
        rw [held] at patched
        cases patched
      | some status =>
        rw [held] at patched
        dsimp only at patched ⊢
        split at patched
        · rename_i moved
          cases patched
          rw [if_pos moved]
          exact (decode_progressPatch _ _ stored).trans read
        · cases patched

end

section

/-- Instants that are all the epoch. -/
@[reducible] def epochText : DateTimeText where
  toRfc3339 _ := "1970-01-01T00:00:00+00:00"
  serialize _ := "1970-01-01T00:00:00Z"
  deserialize text := if text = "1970-01-01T00:00:00Z" then some ⟨0⟩ else none

/-- The status that the first reconcile of a source writes. -/
def firstStatus : FlakeSourceStatus :=
  { lastPolled := some ⟨0⟩, lastCommit := some "da39a3ee", previousCommit := none
    cachedOutputs := 0, totalOutputs := 1
    outputStatuses := [⟨"packages.x86_64-linux.web", .pending, none, some "web-web", none⟩]
    lastError := none }

/-- The build of the only output is complete. -/
def completeBuilds : NixBuilds := fun ref =>
  if ref = ⟨"builds", "web-web"⟩ then
    some
      { uid := 0, spec := buildSpec twoSystems ⟨"packages.x86_64-linux.web", "x86_64-linux", []⟩
        status := some { NixBuildStatus.default with phase := .complete } }
  else none

/-- An output whose build is complete is pending still when its progress has been written. -/
theorem not_progressSurvives_complete :
    let _ := epochText
    ¬ ProgressSurvives ⟨"builds", "web"⟩ twoSystems firstCommit completeBuilds 1
      (.object firstStatus.encode) := by
  intro _ survives
  -- The output has moved, so that its progress is written.
  have patched : statusPatch ⟨"builds", "web"⟩ twoSystems firstCommit
      ⟨completeBuilds, 1, some firstStatus⟩ = some (progressPatch firstCommit
        (computedOutputs ⟨"builds", "web"⟩ firstCommit ⟨completeBuilds, 1, some firstStatus⟩
          firstStatus.outputStatuses)) := rfl
  obtain ⟨status', read', states, -⟩ := survives firstStatus "da39a3ee" _ rfl rfl rfl patched
  rw [decode_progressPatch] at read'
  cases read'
  exact absurd states (by decide)

end

end Tatara.Operator
