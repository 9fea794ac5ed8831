import Tatara.Crd.Attestation
import Tatara.Lib.Fallible

/-! The envelopes in which Jobs report what they have done. -/

namespace Tatara.Crd

open Tatara.Rust

/-- `RECEIPT_VERSION`. -/
def receiptVersion : String := "tatara-receipt/v1"

/-- `RECEIPT_CM_SUFFIX`. -/
def receiptCmSuffix : String := "-receipt"

/-- `default_receipt_config_map_name`. -/
def defaultReceiptConfigMapName (jobName : String) : String := jobName ++ receiptCmSuffix

/-- `resolve_receipt_config_map_name`. -/
def resolveReceiptConfigMapName (overrideName : Option String) (jobName : String) : String :=
  match overrideName with
  | some name => name
  | none => defaultReceiptConfigMapName jobName

/-- `RECEIPT_JSON_KEY`. -/
def receiptJsonKey : String := "receipt.json"

/-- `RECEIPT_YAML_KEY`. -/
def receiptYamlKey : String := "receipt.yaml"

/-- `RECEIPT_CM_KEYS`. -/
def receiptCmKeys : List String := [receiptJsonKey, receiptYamlKey]

/-- `RECEIPT_CM_MISSING_KEY_MSG`. -/
def receiptCmMissingKeyMsg : String :=
  "ConfigMap missing data['receipt.json' | 'receipt.yaml'] string key"

/-- A receipt, as far as it is looked at. -/
structure ReceiptEnvelope where
  version : String
  kind : String
  composedRoot : String
  intentHash : String
  artifactHash : String
  controlHash : String
  deriving DecidableEq, Repr

/-- The forms in which a receipt may be written. -/
inductive ReceiptWireForm where
  | json
  | yaml
  deriving DecidableEq, Repr

/-- What is wrong with a receipt. -/
inductive ReceiptError where
  | invalidJson (message : String)
  | invalidYaml (message : String)
  | wrongVersion (version : String)
  | missingField (field : String)
  | emptyKind
  | rootMismatch (got want : String)
  deriving DecidableEq, Repr

/-- The deserializers of `serde_json` and `serde_yaml` for receipts, with the texts of their
errors. -/
class ReceiptFormat where
  fromStr : ReceiptWireForm → String → Except String ReceiptEnvelope

/-- `parse_raw`. -/
def ReceiptWireForm.parseRaw [ReceiptFormat] (form : ReceiptWireForm) (payload : String) :
    Except ReceiptError ReceiptEnvelope :=
  match form with
  | .json => (ReceiptFormat.fromStr .json payload).mapError .invalidJson
  | .yaml => (ReceiptFormat.fromStr .yaml payload).mapError .invalidYaml

/-- `empty_to_none`. -/
def emptyToNone (s : String) : Option String := if s = "" then none else some s

/-- `require_nonempty`. -/
def requireNonempty (field value : String) : Except ReceiptError Unit :=
  if value = "" then .error (.missingField field) else .ok ()

namespace ReceiptEnvelope

/-- `REQUIRED_PILLARS`. -/
def requiredPillars : List (String × (ReceiptEnvelope → String)) :=
  [("composed_root", composedRoot), ("intent_hash", intentHash), ("artifact_hash", artifactHash)]

/-- `verify_shape`. -/
def verifyShape (e : ReceiptEnvelope) : Except ReceiptError Unit :=
  if e.version ≠ receiptVersion then .error (.wrongVersion e.version)
  else if e.kind = "" then .error .emptyKind
  else requiredPillars.forM fun (field, accessor) => requireNonempty field (accessor e)

/-- `control_hash_opt`. -/
def controlHashOpt (e : ReceiptEnvelope) : Option String := emptyToNone e.controlHash

/-- `expect_root`. -/
def expectRoot (e : ReceiptEnvelope) (expected : Option String) : Except ReceiptError String :=
  match expected with
  | none => .ok e.composedRoot
  | some want =>
    if want ≠ e.composedRoot then .error (.rootMismatch e.composedRoot want)
    else .ok e.composedRoot

/-- A receipt in shape has the version of the format. -/
theorem version_of_verifyShape {e : ReceiptEnvelope} (shape : e.verifyShape = .ok ()) :
    e.version = receiptVersion := by
  by_contra other
  rw [verifyShape, if_pos other] at shape
  cases shape

section

variable [ReceiptFormat]

/-- `parse`. -/
def parse (payload : String) (form : ReceiptWireForm) : Except ReceiptError ReceiptEnvelope := do
  let env ← form.parseRaw payload
  env.verifyShape
  return env

/-- `parse_either`, with its loop over the two forms written out. -/
def parseEither (payload : String) : Except ReceiptError ReceiptEnvelope :=
  match parse payload .json with
  | .ok env => .ok env
  -- What is neither is reported as the form that was tried last.
  | .error _ => parse payload .yaml

/-- What is read has the version and the fields that are asked for. -/
theorem verifyShape_of_parse {payload : String} {form : ReceiptWireForm} {e : ReceiptEnvelope}
    (read : parse payload form = .ok e) : e.verifyShape = .ok () := by
  -- The shape is checked before the receipt is returned.
  obtain ⟨env, -, checked⟩ := Fallible.bind_eq_ok_iff.mp read
  obtain ⟨_, shape, same⟩ := Fallible.bind_eq_ok_iff.mp checked
  obtain rfl := Except.ok.inj same
  exact shape

/-- The same holds whichever form was read. -/
theorem verifyShape_of_parseEither {payload : String} {e : ReceiptEnvelope}
    (read : parseEither payload = .ok e) : e.verifyShape = .ok () := by
  unfold parseEither at read
  -- One of the two forms was read.
  split at read
  · rename_i env json
    obtain rfl := Except.ok.inj read
    exact verifyShape_of_parse json
  · exact verifyShape_of_parse read

end

section

variable [Crates]

/-- `build`. -/
def build (kind intentHash artifactHash controlHash : String) (previousRoot : Option String) :
    ReceiptEnvelope :=
  { version := receiptVersion
    kind, intentHash, artifactHash, controlHash
    composedRoot := composeRoot artifactHash (emptyToNone controlHash) intentHash previousRoot }

/-- `verify_root`. -/
def verifyRoot (e : ReceiptEnvelope) (expectedPreviousRoot : Option String) : Bool :=
  let want := composeRoot e.artifactHash e.controlHashOpt e.intentHash expectedPreviousRoot
  constantTimeEq want.toUTF8 e.composedRoot.toUTF8

/-- A root verifies where it is the composed one. -/
theorem verifyRoot_iff {e : ReceiptEnvelope} {previous : Option String} :
    e.verifyRoot previous = true ↔
      e.composedRoot = composeRoot e.artifactHash e.controlHashOpt e.intentHash previous := by
  unfold verifyRoot
  rw [constantTimeEq_iff, String.toUTF8_eq_toByteArray, String.toUTF8_eq_toByteArray,
    String.toByteArray_inj]
  exact eq_comm

/-- What is built verifies, with the root that it was built on. -/
theorem verifyRoot_build (kind intentHash artifactHash controlHash : String)
    (previous : Option String) :
    (build kind intentHash artifactHash controlHash previous).verifyRoot previous = true :=
  verifyRoot_iff.mpr rfl

end

end ReceiptEnvelope

end Tatara.Crd
