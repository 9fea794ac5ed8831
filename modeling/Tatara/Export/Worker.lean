import Std.Data.ExtTreeMap
import Tatara.Lib.Bits
import Tatara.Lib.Writes
import Tatara.Rust.Data

/-! The events that the export worker ships, and what of an artifact they keep. -/

namespace Tatara.Export

open Tatara.Bits Tatara.Rust Tatara.Writes

/-! ### Base64 -/

/-- `ALPHA`. -/
def base64Alphabet : Vector Char 64 :=
  #v['A', 'B', 'C', 'D', 'E', 'F', 'G', 'H', 'I', 'J', 'K', 'L', 'M', 'N', 'O', 'P', 'Q', 'R', 'S',
    'T', 'U', 'V', 'W', 'X', 'Y', 'Z', 'a', 'b', 'c', 'd', 'e', 'f', 'g', 'h', 'i', 'j', 'k', 'l',
    'm', 'n', 'o', 'p', 'q', 'r', 's', 't', 'u', 'v', 'w', 'x', 'y', 'z', '0', '1', '2', '3', '4',
    '5', '6', '7', '8', '9', '+', '/']

/-- Six bits are a remainder. -/
theorem toNat_low (n : UInt32) : (n &&& 0x3f).toNat = n.toNat % 2 ^ 6 := by
  rw [UInt32.toNat_and]
  exact Nat.and_two_pow_sub_one_eq_mod n.toNat 6

/-- Six bits are a place in the alphabet. -/
theorem low_lt (n : UInt32) : (n &&& 0x3f).toNat < 64 := by
  rw [toNat_low]
  exact Nat.mod_lt _ (by decide)

/-- The character of the lowest six bits. -/
def base64Char (n : UInt32) : Char := base64Alphabet.get ⟨(n &&& 0x3f).toNat, low_lt n⟩

/-- The loop of `base64_inline::encode` over the complete chunks, and the rest behind them. -/
def encodeFrom (out : String) : List UInt8 → String
  | a :: b :: c :: input =>
    let n := (a.toUInt32 <<< 16) ||| (b.toUInt32 <<< 8) ||| c.toUInt32
    encodeFrom
      ((((out.push (base64Char (n >>> 18))).push (base64Char (n >>> 12))).push
        (base64Char (n >>> 6))).push (base64Char n))
      input
  | [a] =>
    let n := a.toUInt32 <<< 16
    (((out.push (base64Char (n >>> 18))).push (base64Char (n >>> 12))).push '=').push '='
  | [a, b] =>
    let n := (a.toUInt32 <<< 16) ||| (b.toUInt32 <<< 8)
    (((out.push (base64Char (n >>> 18))).push (base64Char (n >>> 12))).push
      (base64Char (n >>> 6))).push '='
  | [] => out

/-- `base64_inline::encode`. -/
def base64Encode (input : List UInt8) : String := encodeFrom "" input

/-- The bytes that a text stands for: six bits for each character up to the padding. -/
def base64Decode (text : String) : List UInt8 :=
  bytesOf ((text.toList.takeWhile (· ≠ '=')).flatMap fun c =>
    bitsOf 6 (base64Alphabet.toList.idxOf c))

/-- The six bits that a character stands for. -/
def sextet (c : Char) : List Bool := bitsOf 6 (base64Alphabet.toList.idxOf c)

/-- A character stands for the six bits that it is made of. -/
theorem sextet_base64Char (n : UInt32) : sextet (base64Char n) = bitsOf 6 n.toNat := by
  -- Its place in the alphabet is the number of its lower six bits, as no character is there twice.
  have place : base64Alphabet.toList.idxOf (base64Char n) = (n &&& 0x3f).toNat := by
    have different : base64Alphabet.toList.Nodup := by decide
    have inside : (n &&& 0x3f).toNat < base64Alphabet.toList.length := by simpa using low_lt n
    have there : base64Char n = base64Alphabet.toList[(n &&& 0x3f).toNat] := rfl
    rw [there, different.idxOf_getElem]
  rw [sextet, place, toNat_low]
  exact bitsOf_of_mod_eq (Nat.mod_mod _ _)

/-- None of the characters is the one that pads. -/
theorem base64Char_ne_padding (n : UInt32) : base64Char n ≠ '=' := by
  have each : ∀ place, base64Alphabet.get place ≠ '=' := by decide
  exact each _

/-- The number of a chunk has three bytes. -/
theorem toNat_chunk (a b c : UInt8) :
    ((a.toUInt32 <<< 16) ||| (b.toUInt32 <<< 8) ||| c.toUInt32).toNat =
      (a.toNat * 2 ^ 8 + b.toNat) * 2 ^ 8 + c.toNat := by
  -- No byte reaches into the one above it.
  have smallA := a.toNat_lt
  have smallB := b.toNat_lt
  have smallC := c.toNat_lt
  have first : (a.toUInt32 <<< 16).toNat = (a.toNat * 2 ^ 8) <<< 8 := by
    rw [UInt32.toNat_shiftLeft, UInt8.toNat_toUInt32, Nat.shiftLeft_eq, Nat.shiftLeft_eq,
      Nat.mod_eq_of_lt (by simp; omega)]
    simp [Nat.mul_assoc]
  have second : (b.toUInt32 <<< 8).toNat = b.toNat <<< 8 := by
    rw [UInt32.toNat_shiftLeft, UInt8.toNat_toUInt32, Nat.mod_eq_of_lt]
    · rfl
    · simp [Nat.shiftLeft_eq]; omega
  have upper : (a.toNat * 2 ^ 8) ||| b.toNat = a.toNat * 2 ^ 8 + b.toNat := by
    rw [← Nat.shiftLeft_eq, Nat.shiftLeft_add_eq_or_of_lt smallB]
  rw [UInt32.toNat_or, UInt32.toNat_or, first, second, UInt8.toNat_toUInt32,
    ← Nat.shiftLeft_or_distrib, upper, ← Nat.shiftLeft_add_eq_or_of_lt smallC, Nat.shiftLeft_eq]

/-- Four characters of a number stand for its 24 bits, of which each three make up a byte together
with what the one before has left. -/
theorem sextets (n : UInt32) (tail : List Bool) :
    sextet (base64Char (n >>> 18)) ++ (sextet (base64Char (n >>> 12)) ++ tail) =
        bitsOf 8 (n.toNat >>> 16) ++ (bitsOf 4 (n.toNat >>> 12) ++ tail) ∧
      bitsOf 4 (n.toNat >>> 12) ++ (sextet (base64Char (n >>> 6)) ++ tail) =
        bitsOf 8 (n.toNat >>> 8) ++ (bitsOf 2 (n.toNat >>> 6) ++ tail) ∧
      bitsOf 2 (n.toNat >>> 6) ++ (sextet (base64Char n) ++ tail) = bitsOf 8 n.toNat ++ tail := by
  -- Shifting by less than the width is dividing.
  have shift (k : UInt32) (small : k.toNat < 32) : (n >>> k).toNat = n.toNat >>> k.toNat := by
    rw [UInt32.toNat_shiftRight, Nat.mod_eq_of_lt small]
  -- Two neighbouring groups of bits are one longer group.
  have shifted (m k l : Nat) : bitsOf m (n.toNat >>> (l + k)) ++ (bitsOf k (n.toNat >>> l) ++ tail) =
      bitsOf (m + k) (n.toNat >>> l) ++ tail := by
    rw [bitsOf_add, Nat.shiftRight_add, List.append_assoc]
  simp only [sextet_base64Char, shift 18 (by decide), shift 12 (by decide), shift 6 (by decide)]
  exact ⟨(shifted 6 6 12).trans (shifted 8 4 12).symm,
    (shifted 4 6 6).trans (shifted 8 2 6).symm, shifted 2 6 0⟩

/-- The bits of a chunk are those of its bytes. -/
theorem bitsOf_chunk (a b c : UInt8) {n : UInt32}
    (chunk : n = (a.toUInt32 <<< 16) ||| (b.toUInt32 <<< 8) ||| c.toUInt32) :
    bitsOf 8 (n.toNat >>> 16) = bitsOf 8 a.toNat ∧ bitsOf 8 (n.toNat >>> 8) = bitsOf 8 b.toNat ∧
      bitsOf 8 n.toNat = bitsOf 8 c.toNat := by
  have smallB := b.toNat_lt
  have smallC := c.toNat_lt
  rw [chunk, toNat_chunk, Nat.shiftRight_eq_div_pow, Nat.shiftRight_eq_div_pow]
  exact ⟨bitsOf_of_mod_eq (by omega), bitsOf_of_mod_eq (by omega), bitsOf_of_mod_eq (by omega)⟩

/-- The characters stand for the bytes, with fewer bits behind them than a byte has, and with
padding at the end. -/
theorem exists_encodeFrom (out : String) (input : List UInt8) :
    ∃ chars rest, ∃ padding, (encodeFrom out input).toList =
        out.toList ++ (chars ++ List.replicate padding '=') ∧
      (∀ c ∈ chars, c ≠ '=') ∧ chars.flatMap sextet = bytesBits input ++ rest ∧
      rest.length < 8 := by
  -- By induction along the chunks: each of three bytes has four characters and nothing left over.
  induction out, input using encodeFrom.induct with
  | case1 out a b c input n ih =>
    obtain ⟨chars, rest, padding, text, plain, bits, few⟩ := ih
    obtain ⟨bitsA, bitsB, bitsC⟩ := bitsOf_chunk a b c (n := n) rfl
    refine ⟨base64Char (n >>> 18) :: base64Char (n >>> 12) :: base64Char (n >>> 6) ::
      base64Char n :: chars, rest, padding, ?_, ?_, ?_, few⟩
    · -- The four characters come in front of those of the other chunks.
      rw [encodeFrom, text]
      simp
    · simpa [base64Char_ne_padding] using plain
    · simp only [List.flatMap_cons, bits, bytesBits, List.append_assoc]
      -- Group by group the bits are those of the three bytes.
      rw [(sextets n _).1, (sextets n _).2.1, (sextets n _).2.2, bitsA, bitsB, bitsC]
  | case2 out a =>
    -- Of a last byte four bits are left over, which are no byte.
    let n := a.toUInt32 <<< 16
    obtain ⟨bitsA, -, -⟩ := bitsOf_chunk a 0 0 (n := n) (by simp [n])
    refine ⟨[base64Char (n >>> 18), base64Char (n >>> 12)], bitsOf 4 (n.toNat >>> 12), 2, ?_, ?_, ?_,
      by simp⟩
    · simp [encodeFrom, n]
    · simp [base64Char_ne_padding]
    · simp only [List.flatMap_cons, List.flatMap_nil, bytesBits, List.append_assoc]
      rw [(sextets n _).1, bitsA, List.append_nil, List.nil_append]
  | case3 out a b =>
    -- Of two last bytes two bits are left over.
    let n := (a.toUInt32 <<< 16) ||| (b.toUInt32 <<< 8)
    obtain ⟨bitsA, bitsB, -⟩ := bitsOf_chunk a b 0 (n := n) (by simp [n])
    refine ⟨[base64Char (n >>> 18), base64Char (n >>> 12), base64Char (n >>> 6)],
      bitsOf 2 (n.toNat >>> 6), 1, ?_, ?_, ?_, by simp⟩
    · simp [encodeFrom, n]
    · simp [base64Char_ne_padding]
    · simp only [List.flatMap_cons, List.flatMap_nil, bytesBits, List.append_assoc]
      rw [(sextets n _).1, (sextets n _).2.1, bitsA, bitsB, List.append_nil, List.nil_append]
  | case4 out => exact ⟨[], [], 0, by simp [encodeFrom, bytesBits]⟩

/-- A text is decoded to the bytes that it was made of. -/
theorem base64Decode_base64Encode (input : List UInt8) :
    base64Decode (base64Encode input) = input := by
  obtain ⟨chars, rest, padding, text, plain, bits, few⟩ := exists_encodeFrom "" input
  -- What stands in front of the padding are the characters.
  have body : (base64Encode input).toList.takeWhile (· ≠ '=') = chars := by
    have front : ∀ c ∈ chars, decide (c ≠ '=') = true := fun c inside => by simpa using plain c inside
    rw [base64Encode, text, String.toList_empty, List.nil_append,
      List.takeWhile_append_of_pos front]
    cases padding <;> simp [List.replicate_succ]
  rw [base64Decode, body]
  exact (congrArg bytesOf bits).trans (bytesOf_append input few)

/-! ### Events -/

/-- `ReportFormat`. -/
inductive ReportFormat where
  | junit
  | tapV13
  | ndJson
  | raw
  deriving DecidableEq, Repr

/-- `ReportPayloadShape`. -/
inductive ReportPayloadShape where
  | ndJsonLines
  | opaqueBytes
  deriving DecidableEq, Repr

/-- `payload_shape`. -/
def ReportFormat.payloadShape : ReportFormat → ReportPayloadShape
  | ndJson => .ndJsonLines
  | junit | tapV13 | raw => .opaqueBytes

/-- `TestReportSource`. -/
structure TestReportSource where
  configmap : String
  key : String
  format : ReportFormat := .raw
  «namespace» : Option String := none

/-- `ProcessSnapshotSource`. -/
structure ProcessSnapshotSource where
  includeAttestationChain : Bool := false

/-- `RunMarkerSource`. -/
structure RunMarkerSource where
  labels : Std.ExtTreeMap String String

/-- `ArtifactVariant`. -/
inductive ArtifactVariant where
  | receipts
  | testReport (tr : TestReportSource)
  | processSnapshot (ps : ProcessSnapshotSource)
  | runMarker (rm : RunMarkerSource)

/-- `ExportEvent`. -/
structure ExportEvent where
  signalType : String
  runId : String
  timestamp : DateTime
  labels : Std.ExtTreeMap String String
  payload : Json
  format : Option ReportFormat

/-- `merge_labels`. -/
def mergeLabels («into» source : Std.ExtTreeMap String String) : Std.ExtTreeMap String String :=
  source.foldl (fun labels k v => labels.insert k v) «into»

/-- The lines of a report that are not empty. -/
def nonEmptyLines (bytes : List UInt8) : List (List UInt8) :=
  (bytes.splitOn 0x0a).filter (· ≠ [])

variable (fromSlice : List UInt8 → Option Json)

/-- `prepare_event_payload`, where the bytes of a JSON text are read by `fromSlice`. -/
def prepareEventPayload (source : ArtifactVariant) (artifactBytes : List UInt8)
    (runId signalType : String) (now : DateTime) : ExportEvent :=
  let labels := (∅ : Std.ExtTreeMap String String).insert "run_id" runId
  let event := fun labels payload format =>
    { signalType, runId, timestamp := now, labels, payload, format : ExportEvent }
  match source with
  | .receipts =>
    let parsed := (fromSlice artifactBytes).getD (.array [])
    event labels (.ofFields [("receipts", parsed)]) none
  | .testReport tr =>
    let labels := (labels.insert "configmap" tr.configmap).insert "key" tr.key
    let p :=
      match tr.format.payloadShape with
      | .ndJsonLines =>
        -- A line that is no JSON text is left out.
        let lines := (nonEmptyLines artifactBytes).filterMap fromSlice
        Json.ofFields [("ndjson", .array lines)]
      | .opaqueBytes => Json.ofFields [("raw_b64", .string (base64Encode artifactBytes))]
    event labels p (some tr.format)
  | .processSnapshot _ =>
    let parsed := (fromSlice artifactBytes).getD .null
    event labels (.ofFields [("snapshot", parsed)]) none
  | .runMarker rm => event (mergeLabels labels rm.labels) .null none

/-! ### What an event keeps -/

/-- Bytes that hold nothing but the whitespace of JSON. -/
def Blank (bytes : List UInt8) : Prop := ∀ byte ∈ bytes, byte ∈ [0x20, 0x09, 0x0a, 0x0d]

/-- What is there in the bytes is not replaced by an empty value, unless it is one. -/
def KeepsValue (bytes : List UInt8) (empty value : Json) : Prop :=
  ¬ Blank bytes → value = empty → fromSlice bytes = some empty

/-- The payload of an event keeps the artifact: a JSON value is not replaced by an empty one, each
line of a report has its place, and opaque bytes can be decoded. -/
def KeepsArtifact (source : ArtifactVariant) (bytes : List UInt8) (payload : Json) : Prop :=
  match source with
  | .receipts =>
    ∃ value, payload = .ofFields [("receipts", value)] ∧ KeepsValue fromSlice bytes (.array []) value
  | .testReport tr =>
    match tr.format.payloadShape with
    | .ndJsonLines =>
      ∃ items, payload = .ofFields [("ndjson", .array items)] ∧
        List.Forall₂ (fun line item => ∀ value, fromSlice line = some value → item = value)
          (nonEmptyLines bytes) items
    | .opaqueBytes =>
      ∃ text, payload = .ofFields [("raw_b64", .string text)] ∧ base64Decode text = bytes
  | .processSnapshot _ =>
    ∃ value, payload = .ofFields [("snapshot", value)] ∧ KeepsValue fromSlice bytes .null value
  | .runMarker _ => True

/-- An event keeps the artifact, and it is labelled with its run. -/
def KeepsRecord (source : ArtifactVariant) (bytes : List UInt8) (runId signalType : String)
    (now : DateTime) : Prop :=
  let event := prepareEventPayload fromSlice source bytes runId signalType now
  KeepsArtifact fromSlice source bytes event.payload ∧ event.labels["run_id"]? = some runId

/-- What is to be parsed can be, and no label of a marker is in the way of the run. -/
def Parses (source : ArtifactVariant) (bytes : List UInt8) (runId : String) : Prop :=
  match source with
  | .receipts | .processSnapshot _ => Blank bytes ∨ (fromSlice bytes).isSome
  | .testReport tr =>
    tr.format.payloadShape = .ndJsonLines →
      ∀ line ∈ nonEmptyLines bytes, (fromSlice line).isSome
  | .runMarker rm => ∀ v ∈ rm.labels["run_id"]?, v = runId

/-! ### Which events keep everything -/

variable {fromSlice} {bytes : List UInt8}

/-- A value that is read, or else an empty one, is what the bytes hold if they can be read. -/
theorem keepsValue_iff (empty : Json) :
    KeepsValue fromSlice bytes empty ((fromSlice bytes).getD empty) ↔
      Blank bytes ∨ (fromSlice bytes).isSome := by
  rw [KeepsValue]
  -- If the bytes cannot be read, an empty value only keeps blanks.
  cases read : fromSlice bytes with
  | none => simp [or_iff_not_imp_left]
  | some value => simp

/-- Lines that are read, with those left out that cannot be, have their places if all can be. -/
theorem keepsLines_iff (lines : List (List UInt8)) :
    List.Forall₂ (fun line item => ∀ value, fromSlice line = some value → item = value) lines
        (lines.filterMap fromSlice) ↔
      ∀ line ∈ lines, (fromSlice line).isSome := by
  constructor
  · -- No line is left out if there are as many values as lines.
    intro placed
    exact List.filterMap_length_eq_length.mp placed.length_eq.symm
  · intro each
    -- By induction on the lines: if each can be read, each is in its place.
    induction lines with
    | nil => exact .nil
    | cons line lines ih =>
      obtain ⟨first, others⟩ := List.forall_mem_cons.mp each
      obtain ⟨value, read⟩ := Option.isSome_iff_exists.mp first
      rw [List.filterMap_cons_some read]
      exact .cons (fun value' read' => Option.some_inj.mp (read.symm.trans read')) (ih others)

/-- A label shows what the marker has for it, and else what was there. -/
theorem getElem?_mergeLabels («into» source : Std.ExtTreeMap String String) (k : String) :
    (mergeLabels «into» source)[k]? = source[k]?.or «into»[k]? := by
  rw [mergeLabels, Std.ExtTreeMap.foldl_eq_foldl_toList, ← lastWrite_toList source]
  exact getElem?_writeAll «into» source.toList k

/-- A payload of one field has one value there. -/
theorem exists_field_iff {k : String} {value : Json} {kept : Json → Prop} :
    (∃ shown, Json.ofFields [(k, value)] = .ofFields [(k, shown)] ∧ kept shown) ↔ kept value := by
  constructor
  · -- The payload shows what it is made of.
    rintro ⟨shown, same, holds⟩
    obtain ⟨-, rfl⟩ := Prod.mk.inj (List.cons.inj (Json.object.inj same)).1
    exact holds
  · intro holds
    exact ⟨value, rfl, holds⟩

/-- An event keeps the artifact and is labelled with its run where everything that is to be parsed
can be, and no label of a marker is in the way. -/
theorem keepsRecord_iff {source : ArtifactVariant} {runId signalType : String} {now : DateTime} :
    KeepsRecord fromSlice source bytes runId signalType now ↔
      Parses fromSlice source bytes runId := by
  -- All events start with one label.
  have labelled : ((∅ : Std.ExtTreeMap String String).insert "run_id" runId)["run_id"]? =
      some runId := Std.ExtTreeMap.getElem?_insert_self
  -- Each source has its own artifact, and only that of a report has more labels.
  cases source with
  | receipts =>
    exact (and_iff_left labelled).trans (exists_field_iff.trans (keepsValue_iff (.array [])))
  | processSnapshot ps =>
    exact (and_iff_left labelled).trans (exists_field_iff.trans (keepsValue_iff .null))
  | testReport tr =>
    -- The two labels that are added have other keys.
    have labelled' : ((((∅ : Std.ExtTreeMap String String).insert "run_id" runId).insert "configmap"
        tr.configmap).insert "key" tr.key)["run_id"]? = some runId := by
      rw [Std.ExtTreeMap.getElem?_insert, if_neg (by decide), Std.ExtTreeMap.getElem?_insert,
        if_neg (by decide), labelled]
    refine (and_iff_left labelled').trans ?_
    simp only [KeepsArtifact, prepareEventPayload, Parses]
    cases shape : tr.format.payloadShape with
    | ndJsonLines =>
      rw [forall_prop_of_true rfl, ← keepsLines_iff]
      constructor
      · rintro ⟨items, same, placed⟩
        obtain ⟨-, lines⟩ := Prod.mk.inj (List.cons.inj (Json.object.inj same)).1
        rwa [Json.array.inj lines]
      · intro placed
        exact ⟨_, rfl, placed⟩
    | opaqueBytes =>
      -- Bytes that are not parsed are encoded, which can be undone.
      refine iff_of_true ⟨_, rfl, base64Decode_base64Encode bytes⟩ fun impossible => ?_
      cases impossible
  | runMarker rm =>
    refine (and_iff_right trivial).trans ?_
    simp only [prepareEventPayload, getElem?_mergeLabels, labelled, Parses]
    cases rm.labels["run_id"]? <;> simp

/-- A reader of JSON that is not given any JSON text. -/
def noText (_ : List UInt8) : Option Json := none

/-- A brace that is not closed is no JSON text: as receipts it becomes an empty list, as the line of
a report it is left out. A marker can be labelled with another run. -/
theorem not_keepsRecord :
    ¬ KeepsRecord noText .receipts [0x7b] "ns/n" "receipt" ⟨0⟩ ∧
    ¬ KeepsRecord noText (.testReport ⟨"cm", "out.ndjson", .ndJson, none⟩) [0x7b] "ns/n"
        "test-report" ⟨0⟩ ∧
    ¬ KeepsRecord noText (.runMarker ⟨(∅ : Std.ExtTreeMap String String).insert "run_id" "x"⟩) []
        "ns/n" "ephemeral-marker" ⟨0⟩ := by
  refine ⟨?_, ?_, ?_⟩
  · -- The payload shows an empty list, and the bytes are not blank.
    rintro ⟨⟨value, same, kept⟩, -⟩
    obtain ⟨-, rfl⟩ := Prod.mk.inj (List.cons.inj (Json.object.inj same)).1
    have there : ¬ Blank [0x7b] := by
      intro blank
      exact absurd (blank _ (List.mem_singleton_self _)) (by decide)
    cases kept there rfl
  · -- The payload shows no lines, and there is one.
    rintro ⟨⟨items, same, placed⟩, -⟩
    obtain ⟨-, lines⟩ := Prod.mk.inj (List.cons.inj (Json.object.inj same)).1
    cases Json.array.inj lines
    exact absurd placed.length_eq (by decide)
  · rintro ⟨-, labelled⟩
    simp [prepareEventPayload, getElem?_mergeLabels] at labelled

end Tatara.Export
