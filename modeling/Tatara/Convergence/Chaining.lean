import Tatara.Convergence.Attestation
import Tatara.Lib.Delimited

/-! What a point attests: its name, the attestations before it, and the number of its checks. -/

namespace Tatara.Convergence

open Tatara.Rust Tatara.Delimited

/-- A text of hexadecimal digits. -/
@[ext]
structure HexString where
  text : String
  hex : ∀ c ∈ text.toList, c.isDigit ∨ 'a' ≤ c ∧ c ≤ 'f' ∨ 'A' ≤ c ∧ c ≤ 'F'

/-- How an attestation is written: as digits only, or with the scheme in front of them. -/
inductive HashForm where
  | bare
  | display
  deriving DecidableEq, Repr

/-- An attestation as it is written. -/
def HashForm.write : HashForm → HexString → String
  | bare, hash => hash.text
  | display, hash => blake3SchemePrefix ++ hash.text

/-- The data that a point is attested with. -/
def attestationData (name : String) (inputAttestation : Option String) (postconditions : Nat) :
    String :=
  name ++ ":" ++ inputAttestation.getD "genesis" ++ ":" ++ toString postconditions

/-- What the attestation of a point is about. -/
@[ext]
structure History where
  name : String
  upstream : List HexString
  postconditions : Nat

namespace History

/-- The input of a point from the attestations of the points before it. -/
def input (form : HashForm) (h : History) : Option String := combine (h.upstream.map form.write)

/-- What is hashed. -/
def bytes (form : HashForm) (h : History) : ByteArray :=
  (attestationData h.name (h.input form) h.postconditions).toUTF8

/-- Attestations that are the first of one history stand at the end of the name of the other one. -/
def Shifts (form : HashForm) (a b : History) : Prop :=
  ∃ first, first ≠ [] ∧ b.upstream ≠ [] ∧ a.upstream = first ++ b.upstream ∧
    b.name = a.name ++ ":" ++ String.intercalate ":" (first.map form.write)

end History

/-- The pieces of a text between its colons. -/
def segments (text : String) : List (List Char) := text.toList.splitOn ':'

theorem segments_inj {s t : String} : segments s = segments t ↔ s = t := by
  rw [segments, segments, splitOn_inj, String.toList_inj]

/-- The pieces of two texts with a colon between them are those of both. -/
theorem segments_colon (s t : String) : segments (s ++ ":" ++ t) = segments s ++ segments t := by
  -- The colon ends the last piece in front of it.
  have texts : (s ++ ":" ++ t).toList = s.toList ++ ':' :: t.toList := by simp
  rw [segments, texts, List.splitOn_append_cons_self]
  rfl

theorem segments_ne_nil (text : String) : segments text ≠ [] := List.splitOn_ne_nil _ _

/-- Texts that are joined with colons have the pieces that each of them has. -/
theorem segments_intercalate {texts : List String} (some : texts ≠ []) :
    segments (String.intercalate ":" texts) = texts.flatMap segments := by
  -- As lists of characters, the texts are joined with one mark.
  have rows : texts.map String.toList ≠ [] := by simpa using some
  have joined : (String.intercalate ":" texts).toList =
      [':'].intercalate (texts.map String.toList) := String.toList_intercalate
  rw [segments, joined, splitOn_joined rows, List.flatMap_map]
  rfl

/-- A number has no colons. -/
theorem segments_toString (n : Nat) : segments (toString n) = [(toString n).toList] := by
  -- Digits are no colons.
  refine List.splitOn_eq_singleton fun colon => ?_
  rw [Nat.toString_eq_ofList_toDigits, String.toList_ofList] at colon
  exact absurd (renderNat_isDigit colon) (by decide)

/-- Two numbers with the same digits are the same. -/
theorem toString_inj {m n : Nat} (same : toString m = toString n) : m = n := by
  -- The number can be read off its digits again.
  have digits : renderNat m = renderNat n := String.ofList_injective same
  have values := congrArg parseNat digits
  rw [parseNat_renderNat, parseNat_renderNat] at values
  exact Option.some.inj values

/-- The piece that a form puts in front of the digits. -/
def HashForm.scheme : HashForm → List (List Char)
  | bare => []
  | display => ["blake3".toList]

/-- An attestation ends with its digits, which have no colons. -/
theorem segments_write (form : HashForm) (hash : HexString) :
    segments (form.write hash) = form.scheme ++ [hash.text.toList] := by
  -- In the display form the scheme is a piece of its own.
  have digits : segments hash.text = [hash.text.toList] :=
    List.splitOn_eq_singleton fun colon => absurd (hash.hex ':' colon) (by decide)
  cases form with
  | bare => exact digits
  | display =>
    have split : HashForm.display.write hash = "blake3" ++ ":" ++ hash.text := rfl
    rw [split, segments_colon, digits]
    rfl

/-- The pieces of a hash tell the hash. -/
theorem segments_write_injective (form : HashForm) :
    Function.Injective fun hash => segments (form.write hash) := by
  -- The last piece has all the digits.
  intro hash hash' same
  simp only [segments_write, List.append_cancel_left_eq, List.cons.injEq, and_true] at same
  exact HexString.ext (String.toList_inj.mp same)

/-- No hash is the word that stands for none. -/
theorem genesis_ne (hash : HexString) : hash.text ≠ "genesis" := by
  -- The first letter is no hexadecimal digit.
  intro same
  have digit := hash.hex 'g' (by rw [same]; decide)
  exact absurd digit (by decide)

namespace History

variable (form : HashForm) {a b : History}

/-- The pieces of the input of a point. -/
def inputSegments (h : History) : List (List Char) := segments ((h.input form).getD "genesis")

/-- Without an attestation before it the input is one word. -/
theorem inputSegments_genesis (first : a.upstream = []) :
    a.inputSegments form = ["genesis".toList] := by
  -- Nothing is combined, so the word stands in its place.
  have none_ : a.input form = none := by rw [input, first]; rfl
  have piece : segments "genesis" = ["genesis".toList] := by decide
  rw [inputSegments, none_, Option.getD_none, piece]

/-- With attestations before it the input is made of their pieces. -/
theorem inputSegments_upstream (later : a.upstream ≠ []) :
    a.inputSegments form = a.upstream.flatMap fun hash => segments (form.write hash) := by
  -- The attestations are joined with colons.
  have rows : a.upstream.map form.write ≠ [] := by simpa using later
  rw [inputSegments, input, combine, if_neg (by simpa using later), Option.getD_some,
    segments_intercalate rows, List.flatMap_map]

/-- The input of a point that is not the first one does not end like that of a first one. -/
theorem inputSegments_ne_append_genesis (later : a.upstream ≠ []) (front : List (List Char)) :
    a.inputSegments form ≠ front ++ ["genesis".toList] := by
  intro same
  obtain ⟨init, hash, split⟩ := List.eq_nil_or_concat' a.upstream |>.resolve_left later
  rw [inputSegments_upstream form later, split, List.flatMap_append, List.flatMap_singleton,
    segments_write, ← List.append_assoc] at same
  -- The last piece would be one of digits.
  have last := (List.append_inj' same rfl).2
  exact genesis_ne hash (String.toList_inj.mp (List.cons.inj last).1)

variable {form}

/-- What is hashed tells the number of checks, and the pieces of the name and the input together. -/
theorem bytes_eq_iff :
    a.bytes form = b.bytes form ↔ a.postconditions = b.postconditions ∧
      segments a.name ++ a.inputSegments form = segments b.name ++ b.inputSegments form := by
  have pieces (h : History) : segments (attestationData h.name (h.input form) h.postconditions) =
      (segments h.name ++ h.inputSegments form) ++ [(toString h.postconditions).toList] := by
    rw [attestationData, segments_colon, segments_colon, segments_toString]
    rfl
  rw [bytes, bytes, String.toUTF8_eq_toByteArray, String.toUTF8_eq_toByteArray,
    String.toByteArray_inj, ← segments_inj, pieces, pieces]
  constructor
  · intro same
    -- The number is the last piece.
    obtain ⟨fronts, counts⟩ := List.append_inj' same rfl
    exact ⟨toString_inj (String.toList_inj.mp (List.cons.inj counts).1), fronts⟩
  · rintro ⟨counts, fronts⟩
    rw [counts, fronts]

/-- What stands in front of an input that is the end of another one are the attestations that the
other one has before its own. -/
theorem exists_first_of_inputSegments {front : List (List Char)}
    (same : a.inputSegments form = front ++ b.inputSegments form) :
    ∃ first, a.upstream = first ++ b.upstream ∧
      front = first.flatMap (fun hash => segments (form.write hash)) ∧
        (first ≠ [] → b.upstream ≠ []) := by
  by_cases later : a.upstream = []
  · rw [inputSegments_genesis form later] at same
    by_cases later' : b.upstream = []
    · -- Both are first points.
      rw [inputSegments_genesis form later'] at same
      have front_ : front = [] := by simpa using same
      exact ⟨[], by rw [later, later']; rfl, front_, fun some => absurd rfl some⟩
    · have ends : b.inputSegments form = ["genesis".toList] := by
        rcases List.append_eq_singleton_iff.mp same.symm with ⟨-, rest⟩ | ⟨-, none_⟩
        · exact rest
        · exact absurd none_ (segments_ne_nil _)
      exact absurd ends (inputSegments_ne_append_genesis form later' [])
  · by_cases later' : b.upstream = []
    · rw [inputSegments_genesis form later'] at same
      exact absurd same (inputSegments_ne_append_genesis form later front)
    · rw [inputSegments_upstream form later, inputSegments_upstream form later'] at same
      have wide (hash : HexString) :
          (segments (form.write hash)).length = form.scheme.length + 1 := by
        rw [segments_write, List.length_append, List.length_singleton]
      obtain ⟨first, split, front_⟩ :=
        exists_front_of_width (Nat.succ_pos _) (segments_write_injective form) wide same
      exact ⟨first, split, front_, fun _ => later'⟩

/-- Attestations that were moved to the name leave all pieces where they are. -/
theorem Shifts.pieces (shifts : Shifts form a b) :
    segments a.name ++ a.inputSegments form = segments b.name ++ b.inputSegments form := by
  -- The moved attestations end the name on one side and begin the input on the other.
  obtain ⟨first, some, later, split, name⟩ := shifts
  have later' : a.upstream ≠ [] := by simp [split, later]
  have moved : first.map form.write ≠ [] := by simpa using some
  rw [inputSegments_upstream form later', inputSegments_upstream form later, name, segments_colon,
    segments_intercalate moved, split, List.flatMap_append, List.flatMap_map, List.append_assoc]

/-- What shifts the pieces is another attestation. -/
theorem Shifts.ne (shifts : Shifts form a b) : a ≠ b := by
  rintro rfl
  obtain ⟨first, some, -, split, -⟩ := shifts
  -- One of the two has more attestations before it.
  exact some (List.self_eq_append_left.mp split)

/-- Two histories with the same pieces, of which the second one has the longer name, are one
history, or attestations were moved to this name. -/
theorem eq_or_shifts {front : List (List Char)} (counts : a.postconditions = b.postconditions)
    (names : segments b.name = segments a.name ++ front)
    (inputs : a.inputSegments form = front ++ b.inputSegments form) :
    a = b ∨ Shifts form a b := by
  obtain ⟨first, split, rfl, later⟩ := exists_first_of_inputSegments inputs
  -- Where nothing is left in front of the shorter input, all fields are the same.
  by_cases none_ : first = []
  · rw [none_, List.flatMap_nil, List.append_nil] at names
    rw [none_, List.nil_append] at split
    exact .inl (History.ext (segments_inj.mp names.symm) split counts)
  · have moved : first.map form.write ≠ [] := by simpa using none_
    refine .inr ⟨first, none_, later none_, split, ?_⟩
    rw [← segments_inj, segments_colon, segments_intercalate moved, List.flatMap_map, names]

/-- What is hashed for two histories tells them apart, except where the first attestations of one
of them have been moved to the name of the other one. -/
theorem bytes_tell_iff (form : HashForm) (a b : History) :
    (a.bytes form = b.bytes form → a = b) ↔
      ¬ (a.postconditions = b.postconditions ∧ (Shifts form a b ∨ Shifts form b a)) := by
  constructor
  · rintro tells ⟨counts, shifts | shifts⟩
    · exact shifts.ne (tells (bytes_eq_iff.mpr ⟨counts, shifts.pieces⟩))
    · exact shifts.ne (tells (bytes_eq_iff.mpr ⟨counts, shifts.pieces.symm⟩)).symm
  · intro apart same
    obtain ⟨counts, pieces⟩ := bytes_eq_iff.mp same
    -- One of the names has all pieces of the other one.
    rcases List.append_eq_append_iff.mp pieces with ⟨front, names, inputs⟩ | ⟨front, names, inputs⟩
    · exact (eq_or_shifts counts names inputs).resolve_right fun shifts =>
        apart ⟨counts, .inl shifts⟩
    · exact ((eq_or_shifts counts.symm names inputs).resolve_right fun shifts =>
        apart ⟨counts, .inr shifts⟩).symm

/-- A point behind two attested ones. -/
def afterBoth : History := ⟨"web", [⟨"0a", by simp⟩, ⟨"1b", by simp⟩], 1⟩

/-- A point behind one of them, which has the other one in its name. -/
def afterOne (form : HashForm) : History :=
  ⟨"web:" ++ form.write ⟨"0a", by simp⟩, [⟨"1b", by simp⟩], 1⟩

/-- The two are attested with the same data. -/
theorem not_bytes_tell :
    ¬ (∀ a b : History, a.bytes .bare = b.bytes .bare → a = b) ∧
      ¬ (∀ a b : History, a.bytes .display = b.bytes .display → a = b) := by
  -- The names differ, whatever form the attestations have.
  have names (form : HashForm) : afterBoth.name ≠ (afterOne form).name := by
    cases form <;> decide
  constructor
  · intro tells
    have same : afterBoth.bytes .bare = (afterOne .bare).bytes .bare := by decide
    exact names .bare (congrArg name (tells _ _ same))
  · intro tells
    have same : afterBoth.bytes .display = (afterOne .display).bytes .display := by decide
    exact names .display (congrArg name (tells _ _ same))

end History

/-- A point that is attested is attested with its name, its input, and the number of its checks. -/
theorem executePoint_attestation {blake3 : ByteArray → BitVec 256} {point : ConvergencePoint}
    {inputAttestation : Option String} {elapsed : Int} {attestation : String}
    (attested : (executePoint blake3 point inputAttestation elapsed).attestation =
      some attestation) :
    attestation = pillarHash blake3 (attestationData point.name inputAttestation
      point.boundary.postconditions.length).toUTF8 := by
  -- Only the last of the phases leaves an attestation.
  unfold executePoint at attested
  dsimp only at attested
  split at attested
  · cases attested
  · split at attested
    · cases attested
    · split at attested
      · cases attested
      · exact (Option.some.inj attested).symm

/-- The history of a point behind given attestations. -/
def ConvergencePoint.history (point : ConvergencePoint) (upstream : List HexString) : History where
  name := point.name
  upstream := upstream
  postconditions := point.boundary.postconditions.length

/-- As far as the hash does not make two inputs collide, points that are attested alike have one
history, unless attestations were moved to a name. -/
theorem history_eq_of_attestation {blake3 : ByteArray → BitVec 256} {form : HashForm}
    {p q : ConvergencePoint} {upstream upstream' : List HexString} {elapsed elapsed' : Int}
    {attestation : String}
    (attested : (executePoint blake3 p ((p.history upstream).input form) elapsed).attestation =
      some attestation)
    (attested' : (executePoint blake3 q ((q.history upstream').input form) elapsed').attestation =
      some attestation)
    (free : Set.InjOn blake3 {(p.history upstream).bytes form, (q.history upstream').bytes form})
    (apart : ¬ (History.Shifts form (p.history upstream) (q.history upstream') ∨
      History.Shifts form (q.history upstream') (p.history upstream))) :
    p.history upstream = q.history upstream' := by
  -- One digest is that of one text, and the text tells the history.
  have digests :=
    (executePoint_attestation attested).symm.trans (executePoint_attestation attested')
  have hashes := toHex_injective (String.append_right_inj _ |>.mp digests)
  have same := free (by simp [History.bytes, ConvergencePoint.history])
    (by simp [History.bytes, ConvergencePoint.history]) hashes
  exact (History.bytes_tell_iff form _ _).mpr (fun both => apart both.2) same

/-- What the executor attests is written in the display form. -/
theorem exists_hash_of_pillarHash (blake3 : ByteArray → BitVec 256) (bytes : ByteArray) :
    ∃ hash, pillarHash blake3 bytes = HashForm.display.write hash := by
  -- Digits of a digest are lowercase ones.
  obtain ⟨digits, -, hex, written⟩ := isDigest_toHex (blake3 bytes)
  refine ⟨⟨String.ofList digits, fun c among => ?_⟩, written⟩
  rw [String.toList_ofList] at among
  exact (hex c among).imp_right .inl

end Tatara.Convergence
