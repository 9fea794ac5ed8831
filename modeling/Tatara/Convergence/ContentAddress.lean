import Mathlib.Algebra.GroupWithZero.Nat
import Mathlib.Data.List.SplitLengths
import Tatara.Convergence.Executor
import Tatara.Lib.Delimited

/-! What the address of a point tells of the computation that it is the address of. -/

namespace Tatara.Convergence

/-- The arguments of a call of `PointId::compute`. -/
@[ext]
structure Computation where
  functionHash : ByteArray
  inputHashes : List ByteArray
  desiredStateHash : ByteArray

namespace Computation

/-- What the hasher is fed with. -/
def hashed (c : Computation) : ByteArray :=
  c.inputHashes.foldl (· ++ ·) c.functionHash ++ c.desiredStateHash

/-- The fields, in the order in which they are fed. -/
def fields (c : Computation) : List (List UInt8) :=
  (c.functionHash :: (c.inputHashes ++ [c.desiredStateHash])).map fun field => field.data.toList

/-- The lengths of the fields. -/
def shape (c : Computation) : List Nat := c.fields.map List.length

variable {a b : Computation}

/-- The address is the hash of what is fed. -/
theorem compute_eq (blake3 : ByteArray → BitVec 256) (c : Computation) :
    PointId.compute blake3 c.functionHash c.inputHashes c.desiredStateHash = blake3 c.hashed := rfl

theorem bytes_inj {x y : ByteArray} : x.data.toList = y.data.toList ↔ x = y :=
  ⟨fun same => ByteArray.ext (Array.toList_inj.mp same), fun same => by rw [same]⟩

/-- The fields are fed one behind the other. -/
theorem hashed_eq (c : Computation) : c.hashed.data.toList = c.fields.flatten := by
  -- The induction is on the inputs, with all bytes fed before them.
  have fed (start : ByteArray) (inputs : List ByteArray) :
      (inputs.foldl (· ++ ·) start).data.toList =
        start.data.toList ++ (inputs.map fun field => field.data.toList).flatten := by
    induction inputs generalizing start with
    | nil => simp
    | cons input rest ih => simp [ih]
  rw [hashed, ByteArray.data_append, Array.toList_append, fed]
  simp [fields]

/-- The fields are what the computation consists of. -/
theorem fields_inj : a.fields = b.fields ↔ a = b := by
  constructor
  · intro same
    have all := List.map_injective_iff.mpr (fun _ _ => bytes_inj.mp) same
    obtain ⟨functions, rests⟩ := List.cons.inj all
    -- The desired state is the last of them.
    obtain ⟨inputs, states⟩ := List.append_inj' rests rfl
    exact Computation.ext functions inputs (List.cons.inj states).1
  · intro same
    rw [same]

/-- Two points are hashed alike where their fields are the same, one behind the other. -/
theorem hashed_eq_iff : a.hashed = b.hashed ↔ a.fields.flatten = b.fields.flatten := by
  rw [← hashed_eq, ← hashed_eq, bytes_inj]

/-- The computation with the given fields. -/
theorem exists_fields {rows : List (List UInt8)} (two : 2 ≤ rows.length) :
    ∃ c : Computation, c.fields = rows := by
  -- The first row is the function, and the last one the desired state.
  obtain ⟨first, rest, rfl⟩ := List.exists_cons_of_length_pos (by omega : 0 < rows.length)
  rw [List.length_cons] at two
  obtain ⟨init, last, rfl⟩ := List.eq_nil_or_concat' rest |>.resolve_left
    (List.ne_nil_of_length_pos (by omega))
  refine ⟨⟨⟨first.toArray⟩, init.map fun row => ⟨row.toArray⟩, ⟨last.toArray⟩⟩, ?_⟩
  simp [fields, Function.comp_def]

/-- The lengths of the fields tell whether bytes can move between them: two computations of these
lengths can be hashed alike unless the lengths are the same ones, or add up to another length. -/
theorem shapes_tell_iff (a b : Computation) :
    (∀ a' b' : Computation, a'.shape = a.shape → b'.shape = b.shape → a'.hashed = b'.hashed →
      a' = b') ↔ a.shape = b.shape ∨ a.shape.sum ≠ b.shape.sum := by
  constructor
  · intro tells
    by_contra neither
    obtain ⟨other, whole⟩ := not_or.mp neither
    have whole := not_ne_iff.mp whole
    -- A text of one byte throughout is cut into fields of both lengths.
    have cut (c : Computation) (text : List UInt8) (long : text.length = c.shape.sum) :
        ∃ c' : Computation, c'.shape = c.shape ∧ c'.fields.flatten = text := by
      have two : 2 ≤ (c.shape.splitLengths text).length := by simp [shape, fields]
      obtain ⟨c', fields_⟩ := exists_fields two
      refine ⟨c', ?_, ?_⟩
      · rw [shape, fields_, List.map_splitLengths_length _ _ long.ge]
      · rw [fields_, List.flatten_splitLengths _ _ long.le]
    obtain ⟨a', shape_, text_⟩ := cut a (List.replicate a.shape.sum 0) (by simp)
    obtain ⟨b', shape_', text_'⟩ := cut b (List.replicate a.shape.sum 0) (by simp [whole])
    have same := tells a' b' shape_ shape_' (hashed_eq_iff.mpr (text_.trans text_'.symm))
    rw [← shape_, ← shape_', same] at other
    exact other rfl
  · intro apart a' b' shape_ shape_' same
    rw [hashed_eq_iff] at same
    rcases apart with level | other
    · exact fields_inj.mp (List.eq_iff_flatten_eq.mpr
        ⟨same, shape_.trans (level.trans shape_'.symm)⟩)
    · have lengths := congrArg List.length same
      rw [List.length_flatten, List.length_flatten] at lengths
      have sums : a.shape.sum = b.shape.sum := by
        rw [← shape_, ← shape_']
        exact lengths
      exact absurd sums other

/-- Fields that are hashes of one width are told apart. -/
theorem eq_of_hashed_of_width {width : Nat} (wide : 0 < width)
    (fit : ∀ field ∈ a.fields, field.length = width)
    (fit' : ∀ field ∈ b.fields, field.length = width) (same : a.hashed = b.hashed) : a = b :=
  fields_inj.mp (flatten_inj_of_length wide fit fit' (hashed_eq_iff.mp same))

/-- The end of a function in the place of the desired state. -/
def movedBoundary : Computation × Computation :=
  (⟨"ab".toUTF8, [], "c".toUTF8⟩, ⟨"a".toUTF8, [], "bc".toUTF8⟩)

/-- Two functions with two desired states are hashed alike. -/
theorem not_hashed_tell : ¬ ∀ a b : Computation, a.hashed = b.hashed → a = b := by
  -- Both calls feed the same three bytes.
  intro tells
  have same : movedBoundary.1.hashed = movedBoundary.2.hashed := by decide
  have functions := congrArg functionHash (tells _ _ same)
  exact absurd functions (by decide)

end Computation

end Tatara.Convergence
