import Mathlib.Data.List.DropRight
import Tatara.Operator.NixBuild

/-! Flake sources and the outputs that are built of them, and the names of Kubernetes objects. -/

namespace Tatara.Operator

open Tatara.Rust

/-- `WebhookSecretRef`. -/
structure WebhookSecretRef where
  name : String
  key : String

/-- An output of a flake that is to be built. -/
structure FlakeOutput where
  attr : String
  system : String
  extraArgs : List String

/-- `FlakeSourceSpec`. -/
structure FlakeSourceSpec where
  repo : String
  branch : String
  pollInterval : String
  webhookSecretRef : Option WebhookSecretRef
  outputs : List FlakeOutput
  atticCache : String
  buildOnCreate : Bool
  extraArgs : List String

/-- What has become of an output. -/
inductive OutputState where
  | pending
  | building
  | cached
  | failed
  deriving DecidableEq, Repr

/-- The status of an output. -/
structure OutputStatus where
  attr : String
  state : OutputState
  storePath : Option String
  buildRef : Option String
  lastBuilt : Option DateTime

/-- `FlakeSourceStatus`. -/
structure FlakeSourceStatus where
  lastPolled : Option DateTime
  lastCommit : Option String
  previousCommit : Option String
  cachedOutputs : UInt32
  totalOutputs : UInt32
  outputStatuses : List OutputStatus
  lastError : Option String

/-- The longest name of a Kubernetes object. -/
def maxNameLength : Nat := 63

/-- `truncate_k8s_name`. -/
def truncateK8sName (name : String) : String :=
  String.ofList ((name.toList.take maxNameLength).rdropWhile (· == '-'))

/-- The beginnings of two names are the same but for dashes at their ends. -/
def SameStem (name name' : String) : Prop :=
  ∃ stem dashes dashes', name.toList.take maxNameLength = stem ++ List.replicate dashes '-' ∧
    name'.toList.take maxNameLength = stem ++ List.replicate dashes' '-'

/-- A text is what is left of it without the dashes at its end, and these dashes. -/
theorem exists_rdropWhile_append (text : List Char) :
    ∃ dashes, text = text.rdropWhile (· == '-') ++ List.replicate dashes '-' := by
  -- What is dropped from the end is dashes.
  refine ⟨(text.rtakeWhile (· == '-')).length, ?_⟩
  have same := (List.rdropWhile_append_rtakeWhile (p := (· == '-')) (l := text)).symm
  have dashes : text.rtakeWhile (· == '-') =
      List.replicate (text.rtakeWhile (· == '-')).length '-' := by
    refine List.eq_replicate_iff.mpr ⟨rfl, fun c among => ?_⟩
    simpa using List.mem_rtakeWhile_imp among
  rwa [dashes] at same

/-- Dashes behind a text make no difference to what is left without them. -/
theorem rdropWhile_append_dashes (stem : List Char) (dashes : Nat) :
    (stem ++ List.replicate dashes '-').rdropWhile (· == '-') = stem.rdropWhile (· == '-') := by
  -- The dashes go one by one from the end.
  induction dashes with
  | zero => simp
  | succ dashes ih =>
    rw [List.replicate_succ', ← List.append_assoc, List.rdropWhile_concat_pos _ _ _ (by rfl), ih]

/-- Two names are truncated to the same one exactly when they begin alike. -/
theorem truncateK8sName_eq_iff {name name' : String} :
    truncateK8sName name = truncateK8sName name' ↔ SameStem name name' := by
  -- The stem is what the truncation leaves.
  unfold truncateK8sName SameStem
  rw [String.ofList_inj]
  constructor
  · intro same
    obtain ⟨dashes, first⟩ := exists_rdropWhile_append (name.toList.take maxNameLength)
    obtain ⟨dashes', second⟩ := exists_rdropWhile_append (name'.toList.take maxNameLength)
    exact ⟨_, dashes, dashes', first, same ▸ second⟩
  · rintro ⟨stem, dashes, dashes', first, second⟩
    rw [first, second, rdropWhile_append_dashes, rdropWhile_append_dashes]

end Tatara.Operator
