import Tatara.Lisp.Json
import Mathlib.Data.List.Basic
import Mathlib.Data.String.Basic

/-! Which JSON values come back from their forms. -/

namespace Tatara.Lisp

open Tatara.Rust

/-- A key behind all others is put at the end. -/
theorem insertField_last {key : String} (value : Json) {fields : List (String × Json)}
    (last : ∀ field ∈ fields, field.1 < key) :
    Json.insertField key value fields = fields ++ [(key, value)] := by
  -- By induction on the fields: the key goes past each of them.
  induction fields with
  | nil => rfl
  | cons field fields ih =>
    have behind : compare key field.1 = .gt := compare_gt_iff_gt.mpr (last field (by simp))
    simp only [Json.insertField, behind, List.cons_append]
    rw [ih fun other later => last other (List.mem_cons_of_mem field later)]

/-- A signed 64-bit integer comes back from its atom. -/
theorem toJson_fromJsonNumber_int {n : JsonNumber} (built : n.Built) {i : Int64}
    (fits : n.asI64 = some i) : (Atom.fromJsonNumber n).toJson = .number n := by
  rw [Atom.fromJsonNumber, fits, Atom.toJson, JsonNumber.ofI64]
  -- The sign decides which of the two integer forms the number is written in.
  cases n with
  | float x => simp [JsonNumber.asI64] at fits
  | negInt n =>
    obtain rfl : n = i := by simpa [JsonNumber.asI64] using fits
    have negative : n < 0 := built
    simp [negative]
  | posInt n =>
    simp only [JsonNumber.asI64, Option.ite_none_right_eq_some, Option.some.injEq] at fits
    obtain ⟨small, rfl⟩ := fits
    -- Below the bound the bits read the same with and without a sign.
    have nonnegative : ¬ n.toInt64 < 0 := by
      rw [Int64.lt_iff_toInt_lt, Int64.toInt, UInt64.toBitVec_toInt64, BitVec.toInt_eq_toNat_cond]
      have : n.toBitVec.toNat = n.toNat := rfl
      simp
      omega
    simp [nonnegative]

/-- A finite float comes back from its atom. -/
theorem toJson_fromJsonNumber_float {x : F64} (finite : x.isFinite = true) :
    (Atom.fromJsonNumber (.float x)).toJson = .number (.float x) := by
  simp [Atom.fromJsonNumber, JsonNumber.asI64, JsonNumber.asF64, Atom.toJson, JsonNumber.ofF64,
    finite]

section Bridge

variable [CaseTable]

/-- A key without dashes, in which every uppercase letter behind the first character is the
uppercase form of its lowercase form. -/
structure CamelKey (key : String) : Prop where
  noDash : '-' ∉ key.toList
  cased : ∀ c ∈ key.toList.tail, CaseTable.isUppercase c = true →
    ∃ l, CaseTable.toLowercase c = [l] ∧ l ≠ '-' ∧ CaseTable.toUppercase l = [c]

/-- A value that its form keeps: its objects have fields, under keys in camel case, and its integers
are signed 64-bit ones. -/
inductive Kept : Json → Prop where
  | null : Kept .null
  | bool (b : Bool) : Kept (.bool b)
  | int (n : JsonNumber) (i : Int64) (fits : n.asI64 = some i) : Kept (.number n)
  | float (x : F64) : Kept (.number (.float x))
  | string (text : String) : Kept (.string text)
  | array (items : List Json) (each : ∀ item ∈ items, Kept item) : Kept (.array items)
  | object (fields : List (String × Json)) (nonempty : fields ≠ [])
      (keys : ∀ field ∈ fields, CamelKey field.1) (each : ∀ field ∈ fields, Kept field.2) :
      Kept (.object fields)

/-- Behind the first character, the two conversions undo each other. -/
theorem camelChars_kebabChars {chars : List Char} (noDash : '-' ∉ chars)
    (cased : ∀ c ∈ chars, CaseTable.isUppercase c = true →
      ∃ l, CaseTable.toLowercase c = [l] ∧ l ≠ '-' ∧ CaseTable.toUppercase l = [c]) :
    camelChars false (kebabChars false chars) = chars := by
  induction chars with
  | nil => rfl
  | cons c rest ih =>
    obtain ⟨notDash, noDash⟩ : '-' ≠ c ∧ '-' ∉ rest := by simpa using noDash
    have tail := ih noDash fun d later => cased d (List.mem_cons_of_mem c later)
    cases upper : CaseTable.isUppercase c with
    | false => simp [kebabChars, camelChars, upper, Ne.symm notDash, tail]
    | true =>
      -- The dash asks for the uppercase form again.
      obtain ⟨l, lower, letter, back⟩ := cased c (by simp) upper
      simp [kebabChars, camelChars, upper, lower, letter, back, tail]

/-- A key in camel case comes back from its keyword. -/
theorem kebabToCamel_camelToKebab {key : String} (camel : CamelKey key) :
    kebabToCamel (camelToKebab key) = key := by
  have chars : camelChars false (kebabChars true key.toList) = key.toList := by
    obtain ⟨noDash, cased⟩ := camel
    generalize key.toList = chars at noDash cased
    cases chars with
    | nil => rfl
    | cons c rest =>
      -- The first character is taken as it is.
      obtain ⟨notDash, noDash⟩ : '-' ≠ c ∧ '-' ∉ rest := by simpa using noDash
      simp [kebabChars, camelChars, Ne.symm notDash, camelChars_kebabChars noDash cased]
  simp [kebabToCamel, camelToKebab, chars]

namespace Sexp

/-- No JSON value is written as a keyword. -/
theorem fromJson_asKeyword (v : Json) : (fromJson v).asKeyword = none := by
  cases v with
  | number n =>
    -- A number becomes an integer or a float.
    simp only [fromJson, Atom.fromJsonNumber]
    cases n.asI64 with
    | some i => rfl
    | none => cases n.asF64 <;> rfl
  | _ => simp [fromJson, asKeyword]

/-- The items of an array do not read as keywords and values. -/
theorem isKwargsList_itemsFromJson (items : List Json) :
    isKwargsList (itemsFromJson items) = false := by
  -- With two items or more, the first of them would have to be a keyword.
  match items with
  | [] => rfl
  | [item] => simp [isKwargsList, itemsFromJson]
  | first :: second :: rest =>
    simp [isKwargsList, itemsFromJson, keywordsAlternate, fromJson_asKeyword]

/-- The items of an array come back if each of them does. -/
theorem itemsToJson_itemsFromJson {items : List Json}
    (each : ∀ item ∈ items, (fromJson item).toJson = .ok item) :
    itemsToJson (itemsFromJson items) = .ok items := by
  -- By induction on the items.
  induction items with
  | nil => rfl
  | cons item items ih =>
    have rest := ih fun other later => each other (List.mem_cons_of_mem item later)
    simp only [itemsFromJson, itemsToJson, each item (by simp), rest]
    rfl

/-- The fields of an object alternate keywords and values. -/
theorem keywordsAlternate_kwargsFromJson (fields : List (String × Json)) :
    keywordsAlternate (kwargsFromJson fields) = true := by
  induction fields with
  | nil => rfl
  | cons field fields ih => simpa [kwargsFromJson, keywordsAlternate, asKeyword] using ih

/-- A field takes two places. -/
theorem length_kwargsFromJson (fields : List (String × Json)) :
    (kwargsFromJson fields).length = 2 * fields.length := by
  -- By induction on the fields.
  induction fields with
  | nil => rfl
  | cons field fields ih =>
    simp only [kwargsFromJson, List.length_cons, ih]
    omega

/-- The fields of an object read as keywords and values. -/
theorem isKwargsList_kwargsFromJson {fields : List (String × Json)} (nonempty : fields ≠ []) :
    isKwargsList (kwargsFromJson fields) = true := by
  -- They are not empty, even in number, and alternate.
  have some_ : (kwargsFromJson fields).isEmpty = false := by
    obtain ⟨field, rest, rfl⟩ := List.exists_cons_of_ne_nil nonempty
    rfl
  simp [isKwargsList, some_, length_kwargsFromJson, keywordsAlternate_kwargsFromJson]

/-- The fields of an object come back, behind those that are there, if each of them does. -/
theorem kwargsToJson_kwargsFromJson (done : List (String × Json)) {fields : List (String × Json)}
    (ascending : (done ++ fields).Pairwise fun a b => a.1 < b.1)
    (keys : ∀ field ∈ fields, CamelKey field.1)
    (each : ∀ field ∈ fields, (fromJson field.2).toJson = .ok field.2) :
    kwargsToJson done (kwargsFromJson fields) = .ok (done ++ fields) := by
  induction fields generalizing done with
  | nil => simp [kwargsFromJson, kwargsToJson]
  | cons field fields ih =>
    obtain ⟨key, value⟩ := field
    have key_ := kebabToCamel_camelToKebab (keys (key, value) (by simp))
    have value_ := each (key, value) (by simp)
    -- The key is larger than those that are there, so it is new, and it goes to the end.
    have before : ∀ other ∈ done, other.1 < key := fun other early =>
      (List.pairwise_append.mp ascending).2.2 other early (key, value) (by simp)
    have new : done.any (·.1 = key) = false := by
      rw [List.any_eq_false]
      exact fun other early => by simpa using (before other early).ne
    have rest := ih (done ++ [(key, value)]) (by simpa using ascending)
      (fun other later => keys other (List.mem_cons_of_mem _ later))
      (fun other later => each other (List.mem_cons_of_mem _ later))
    rw [List.append_assoc, ← insertField_last value before] at rest
    simp only [kwargsFromJson, kwargsToJson, asKeyword, key_, value_]
    simpa [bind, Except.bind, new] using rest

/-- A value that its form keeps comes back from it. -/
theorem toJson_fromJson_of_kept {v : Json} (built : v.Built) (kept : Kept v) :
    (fromJson v).toJson = .ok v := by
  -- By induction on what is kept, one case for each form of a value.
  induction kept with
  | null => rfl
  | bool b => rfl
  | string text => rfl
  | int n i fits =>
    cases built with
    | number _ isBuilt =>
      rw [fromJson, toJson, toJson_fromJsonNumber_int isBuilt fits]
  | float x =>
    cases built with
    | number _ finite => rw [fromJson, toJson, toJson_fromJsonNumber_float finite]
  | array items _ ih =>
    cases built with
    | array _ each =>
      -- The items of an array do not pass for fields.
      have values := itemsToJson_itemsFromJson fun item listed => ih item listed (each item listed)
      simp only [fromJson, toJson, isKwargsList_itemsFromJson, values]
      rfl
  | object fields nonempty keys _ ih =>
    cases built with
    | object _ ascending each =>
      have values := kwargsToJson_kwargsFromJson [] ascending keys fun field listed =>
        ih field listed (each field listed)
      simp only [fromJson, toJson, isKwargsList_kwargsFromJson nonempty, values]
      rfl

end Sexp

/-- What a type does at the JSON boundary: `Deserialize` undoes `Serialize`, and the arguments that
a value is written as are read as `Deserialize` reads the value. -/
structure TataraDomain.ThroughJson {T : Type} (domain : TataraDomain T)
    (fromValue : Json → Option T) : Prop where
  roundTrips : ∀ input v, domain.toValue input = .ok v → fromValue v.json = some input
  enters : ∀ (v : JsonValue) args output, Sexp.fromJson v.json = .list args →
    (Sexp.list args).toJson = .ok v.json → fromValue v.json = some output →
    domain.compileFromArgs args = .ok output

/-- A value that its form keeps comes back from it, and so does a typed value that is written as an
object of this kind and not rewritten. -/
theorem toJson_fromJson_kept [CharTable] :
    (∀ v : JsonValue, Kept v.json → (Sexp.fromJson v.json).toJson = .ok v.json) ∧
      ∀ (T : Type) (domain : TataraDomain T) (fromValue : Json → Option T),
        domain.ThroughJson fromValue → ∀ input v fields, domain.toValue input = .ok v →
          v.json = .object fields → Kept v.json →
          rewriteTyped domain input (fun form => .ok form) = .ok input := by
  refine ⟨fun v kept => Sexp.toJson_fromJson_of_kept v.built kept, ?_⟩
  intro T domain fromValue through input v fields written isObject kept
  have back := Sexp.toJson_fromJson_of_kept v.built kept
  -- An object is written as a list of keywords and values.
  have form : Sexp.fromJson v.json = .list (Sexp.kwargsFromJson fields) := by
    rw [isObject, Sexp.fromJson]
  have entered := through.enters v _ input form (form ▸ back) (through.roundTrips input v written)
  simp only [rewriteTyped, written, bind, Except.bind, form]
  exact entered

end Bridge

/-- A type with one text, which is written under a key of two words. -/
def noticeDomain : TataraDomain String where
  keyword := "defnotice"
  compileFromArgs
    | [.atom (.keyword "must-reach"), .atom (.str text)] => .ok text
    | args => .error (.domainSerialize "defnotice" (toString args.length))
  toValue text := .ok ⟨.object [("mustReach", .string text)],
    .object _ (List.pairwise_singleton _ _) (by simp [Json.Built.string])⟩

/-- The `Deserialize` of that type. -/
def noticeFromValue : Json → Option String
  | .object [("mustReach", .string text)] => some text
  | _ => none

/-- A value of that type comes back, as a value and as typed. -/
theorem toJson_fromJson_notice :
    letI := asciiCase
    letI := asciiTable
    (Sexp.fromJson (.object [("mustReach", .string "all")])).toJson =
        .ok (.object [("mustReach", .string "all")]) ∧
      rewriteTyped noticeDomain "all" (fun form => .ok form) = .ok "all" := by
  let _ := asciiCase
  let _ := asciiTable
  have built : (Json.object [("mustReach", .string "all")]).Built :=
    .object _ (List.pairwise_singleton _ _) (by simp [Json.Built.string])
  have camel : CamelKey "mustReach" := by
    refine ⟨by decide, fun c later upper => ?_⟩
    -- Only one of the letters is an uppercase one.
    have letters : ∀ letter ∈ ['u', 's', 't', 'R', 'e', 'a', 'c', 'h'],
        letter.isUpper = true → letter = 'R' := by
      simp
    obtain rfl : c = 'R' := letters c later upper
    exact ⟨'r', by decide, by decide, by decide⟩
  have kept : Kept (.object [("mustReach", .string "all")]) :=
    .object _ (by simp) (by simpa using camel) (by simp [Kept.string])
  -- The type reads the one field that it writes.
  have through : noticeDomain.ThroughJson noticeFromValue := by
    refine ⟨?_, ?_⟩
    · rintro input v written
      obtain rfl := Except.ok.inj written
      rfl
    · intro v args output form _ read
      unfold noticeFromValue at read
      split at read
      · rename_i text isObject
        obtain rfl := Option.some.inj read
        rw [isObject] at form
        -- The key is written with a dash.
        have key : camelToKebab "mustReach" = "must-reach" := by decide
        simp only [Sexp.fromJson, Sexp.kwargsFromJson, key, Sexp.list.injEq] at form
        rw [← form]
        rfl
      · cases read
  obtain ⟨plain, typed⟩ := toJson_fromJson_kept
  exact ⟨plain ⟨_, built⟩ kept, typed String noticeDomain noticeFromValue through "all"
    ⟨_, built⟩ _ rfl rfl kept⟩

/-- An empty object comes back as an array, a key with a dash loses it, and an integer that is too
large for 64 bits with a sign comes back as a float. -/
theorem not_toJson_fromJson :
    letI := asciiCase
    (Sexp.fromJson (.object [])).toJson ≠ .ok (.object []) ∧
      (Sexp.fromJson (.object [("must-reach", .null)])).toJson ≠
        .ok (.object [("must-reach", .null)]) ∧
      (Sexp.fromJson (.number (.posInt 0x8000000000000000))).toJson ≠
        .ok (.number (.posInt 0x8000000000000000)) := by
  let _ := asciiCase
  refine ⟨?_, ?_, ?_⟩
  · intro same
    cases same
  · -- The dash asks for an uppercase letter on the way back.
    intro same
    have key : kebabToCamel (camelToKebab "must-reach") = "mustReach" := by decide
    simp [Sexp.fromJson, Sexp.kwargsFromJson, Sexp.toJson, Sexp.isKwargsList, Sexp.kwargsToJson,
      Sexp.keywordsAlternate, Sexp.asKeyword, key, Json.insertField, bind, Except.bind, pure,
      Except.pure] at same
  · -- The integer becomes a float, and stays one.
    intro same
    have float : Atom.fromJsonNumber (.posInt 0x8000000000000000) =
        .float (F64.ofRatio false 0x8000000000000000 1) := by decide
    have finite : (F64.ofRatio false 0x8000000000000000 1).isFinite = true := by decide
    simp [Sexp.fromJson, float, Sexp.toJson, Atom.toJson, JsonNumber.ofF64, finite] at same

end Tatara.Lisp
