import Mathlib.Data.Set.Function
import Tatara.Convergence.Executor
import Tatara.Lib.Delimited

/-! The attestations of convergence points, and what their roots commit to. -/

namespace Tatara.Convergence

/-- The three pillars of a point, with the root that is composed of them. -/
structure ConvergenceAttestation where
  artifactHash : String
  controlHash : Option String
  intentHash : String
  composedRoot : String
  generation : UInt64
  previousRoot : Option String
  deriving DecidableEq, Repr

/-- What the hasher of `compose_root` is fed with. -/
def rootInput (artifactHash : String) (controlHash : Option String) (intentHash : String)
    (previousRoot : Option String) : ByteArray :=
  let hasher := artifactHash.toUTF8
  -- A slot that is empty leaves no trace.
  let hasher := match controlHash with
    | some ch => hasher ++ ch.toUTF8
    | none => hasher
  let hasher := hasher ++ intentHash.toUTF8
  match previousRoot with
  | some prev => hasher ++ prev.toUTF8
  | none => hasher

section

variable (blake3 : ByteArray → BitVec 256)

/-- `compose_root`. -/
def composeRoot (artifactHash : String) (controlHash : Option String) (intentHash : String)
    (previousRoot : Option String) : String :=
  blake3SchemePrefix ++
    PointId.toHex (blake3 (rootInput artifactHash controlHash intentHash previousRoot))

namespace ConvergenceAttestation

/-- `produce`. -/
def produce (artifactData : ByteArray) (controlData : Option ByteArray) (intentData : ByteArray)
    (generation : UInt64) (previousRoot : Option String) : ConvergenceAttestation :=
  let artifactHash := pillarHash blake3 artifactData
  let controlHash := controlData.map (pillarHash blake3)
  let intentHash := pillarHash blake3 intentData
  { artifactHash, controlHash, intentHash, generation, previousRoot
    composedRoot := composeRoot blake3 artifactHash controlHash intentHash previousRoot }

/-- `verify`. -/
def verify (a : ConvergenceAttestation) : Bool :=
  a.composedRoot = composeRoot blake3 a.artifactHash a.controlHash a.intentHash a.previousRoot

end ConvergenceAttestation

end

/-- A digest as it is written: the scheme, and 64 digits in lowercase hexadecimal. -/
def IsDigest (text : String) : Prop :=
  ∃ digits : List Char, digits.length = 64 ∧ (∀ c ∈ digits, c.isDigit ∨ 'a' ≤ c ∧ c ≤ 'f') ∧
    text = blake3SchemePrefix ++ String.ofList digits

/-- A digest is as long as its scheme and its digits. -/
theorem IsDigest.length {text : String} (digest : IsDigest text) : text.toList.length = 71 := by
  obtain ⟨digits, long, -, rfl⟩ := digest
  simp [blake3SchemePrefix, long]

/-- What is computed is written as a digest. -/
theorem isDigest_toHex (id : PointId) : IsDigest (blake3SchemePrefix ++ id.toHex) := by
  refine ⟨_, by simp, fun c among => ?_, rfl⟩
  obtain ⟨place, -, rfl⟩ := List.mem_map.mp among
  -- Each digit is one of the sixteen.
  have small : id.toNat / 16 ^ (63 - place) % 16 < 16 := Nat.mod_lt _ (by decide)
  generalize id.toNat / 16 ^ (63 - place) % 16 = digit at small
  revert digit
  decide

namespace ConvergenceAttestation

/-- The slots that are filled, in the order in which they are hashed. -/
def pillars (a : ConvergenceAttestation) : List String :=
  a.artifactHash :: (a.controlHash.toList ++ a.intentHash :: a.previousRoot.toList)

/-- Every hash that an attestation has is a digest. -/
def WellFormed (a : ConvergenceAttestation) : Prop :=
  (∀ text ∈ a.pillars, IsDigest text) ∧ IsDigest a.composedRoot

/-- What the root of an attestation is the hash of. -/
def input (a : ConvergenceAttestation) : ByteArray :=
  rootInput a.artifactHash a.controlHash a.intentHash a.previousRoot

/-- Two attestations have the same pillars, and the same root before them. -/
def SamePillars (a b : ConvergenceAttestation) : Prop :=
  a.artifactHash = b.artifactHash ∧ a.controlHash = b.controlHash ∧
    a.intentHash = b.intentHash ∧ a.previousRoot = b.previousRoot

/-- The intent of the first attestation is the control of the second one, whose intent is the root
before the first one. -/
def Relabels (a b : ConvergenceAttestation) : Prop :=
  a.artifactHash = b.artifactHash ∧ a.controlHash = none ∧ b.controlHash = some a.intentHash ∧
    a.previousRoot = some b.intentHash ∧ b.previousRoot = none

end ConvergenceAttestation

/-- The low digits of a number determine what it is modulo their power. -/
theorem mod_pow_of_digits {m n k : Nat} (digits : ∀ i < k, m / 16 ^ i % 16 = n / 16 ^ i % 16) :
    m % 16 ^ k = n % 16 ^ k := by
  -- By induction on the number of digits that are known.
  induction k with
  | zero => simp [Nat.mod_one]
  | succ k ih =>
    have low := ih fun i below => digits i (Nat.lt_succ_of_lt below)
    rw [Nat.mod_pow_succ, Nat.mod_pow_succ, low, digits k (Nat.lt_succ_self k)]

/-- Digits are told apart by their characters. -/
theorem digitChar_inj {i j : Nat} (small : i < 16) (small' : j < 16)
    (same : Nat.digitChar i = Nat.digitChar j) : i = j := by
  -- A digit is the place of its character in the alphabet.
  have place : ∀ i < 16, "0123456789abcdef".toList.idxOf (Nat.digitChar i) = i := by decide
  rw [← place i small, same, place j small']

/-- A digest is written in one way only. -/
theorem toHex_injective : Function.Injective PointId.toHex := by
  intro x y same
  have digits := List.map_inj_left.mp (String.ofList_injective same)
  -- Place by place the two numbers have the same digit.
  have level : ∀ i < 64, x.toNat / 16 ^ i % 16 = y.toNat / 16 ^ i % 16 := by
    intro i below
    have here := digits (63 - i) (List.mem_range.mpr (by omega))
    rw [show 63 - (63 - i) = i by omega] at here
    exact digitChar_inj (Nat.mod_lt _ (by decide)) (Nat.mod_lt _ (by decide)) here
  have whole := mod_pow_of_digits level
  have width : (16 : Nat) ^ 64 = 2 ^ 256 := by decide
  rw [width, Nat.mod_eq_of_lt x.isLt, Nat.mod_eq_of_lt y.isLt] at whole
  exact BitVec.eq_of_toNat_eq whole

namespace ConvergenceAttestation

/-- What is hashed is the text of the pillars, one behind the other. -/
theorem input_eq (a : ConvergenceAttestation) :
    a.input = (String.ofList (a.pillars.map String.toList).flatten).toUTF8 := by
  unfold input rootInput pillars
  cases a.controlHash <;> cases a.previousRoot <;>
    simp [String.ofList_append, ByteArray.append_assoc]

/-- Digests are of one length, so that the input shows which ones were hashed, if not under which
names. -/
theorem pillars_eq_of_input {a b : ConvergenceAttestation} (formed : a.WellFormed)
    (formed' : b.WellFormed) (same : a.input = b.input) : a.pillars = b.pillars := by
  -- Each digest takes up the same room in the text that is hashed.
  rw [input_eq, input_eq, String.toUTF8_eq_toByteArray, String.toUTF8_eq_toByteArray,
    String.toByteArray_inj] at same
  have long {c : ConvergenceAttestation} (formed : c.WellFormed) :
      ∀ block ∈ c.pillars.map String.toList, block.length = 71 := by
    intro block among
    obtain ⟨text, filled, rfl⟩ := List.mem_map.mp among
    exact (formed.1 text filled).length
  have blocks := flatten_inj_of_length (by decide) (long formed) (long formed')
    (String.ofList_injective same)
  exact List.map_injective_iff.mpr (fun _ _ => String.toList_inj.mp) blocks

/-- The same digests in the same order are the same pillars, or one of them has changed its name. -/
theorem pillars_eq_iff {a b : ConvergenceAttestation} :
    a.pillars = b.pillars ↔ SamePillars a b ∨ Relabels a b ∨ Relabels b a := by
  unfold pillars SamePillars Relabels
  cases a.controlHash <;> cases b.controlHash <;> cases a.previousRoot <;>
    cases b.previousRoot <;> simp <;> grind

section

variable {blake3 : ByteArray → BitVec 256} {a b : ConvergenceAttestation}

/-- An attestation verifies where its root is that of its input. -/
theorem verify_iff :
    a.verify blake3 = true ↔
      a.composedRoot = blake3SchemePrefix ++ PointId.toHex (blake3 a.input) :=
  decide_eq_true_iff

/-- What is produced from a root that is a digest is well formed, and verifies. -/
theorem produce_wellFormed (artifactData : ByteArray) (controlData : Option ByteArray)
    (intentData : ByteArray) (generation : UInt64) {previousRoot : Option String}
    (digest : ∀ root ∈ previousRoot, IsDigest root) :
    let produced := produce blake3 artifactData controlData intentData generation previousRoot
    produced.WellFormed ∧ produced.verify blake3 = true := by
  refine ⟨⟨fun text filled => ?_, isDigest_toHex _⟩, verify_iff.mpr rfl⟩
  simp only [pillars, produce, List.mem_cons, List.mem_append, Option.mem_toList] at filled
  -- Each of the texts has been hashed here, except for the root before.
  rcases filled with rfl | control | rfl | previous
  · exact isDigest_toHex _
  · obtain ⟨data, -, rfl⟩ := Option.map_eq_some_iff.mp control
    exact isDigest_toHex _
  · exact isDigest_toHex _
  · exact digest text previous

/-- Equal roots come from equal inputs, as far as the hash does not make two inputs collide. -/
theorem composedRoot_eq_iff (verified : a.verify blake3 = true) (verified' : b.verify blake3 = true)
    (free : Set.InjOn blake3 {a.input, b.input}) :
    a.composedRoot = b.composedRoot ↔ a.input = b.input := by
  -- The roots are the digests of the inputs, and no two of these collide.
  rw [verify_iff.mp verified, verify_iff.mp verified']
  constructor
  · intro same
    have digests := toHex_injective (String.append_right_inj _ |>.mp same)
    exact free (by simp) (by simp) digests
  · intro same
    rw [same]

/-- The root of an attestation binds its pillars, except that the intent of a later one passes as
the control of a first one. -/
theorem root_binds_iff (formed : a.WellFormed) (formed' : b.WellFormed)
    (verified : a.verify blake3 = true) (verified' : b.verify blake3 = true)
    (free : Set.InjOn blake3 {a.input, b.input}) :
    (a.composedRoot = b.composedRoot → SamePillars a b) ↔ ¬ (Relabels a b ∨ Relabels b a) := by
  rw [composedRoot_eq_iff verified verified' free]
  constructor
  · intro binds relabelled
    have same : a.input = b.input := by
      rw [input_eq, input_eq, pillars_eq_iff.mpr (.inr relabelled)]
    have control := (binds same).2.1
    -- One of the two has a control pillar, and the other one has none.
    rcases relabelled with ⟨-, absent, present, -⟩ | ⟨-, absent, present, -⟩
    · rw [absent, present] at control
      cases control
    · rw [absent, present] at control
      cases control
  · intro apart same
    exact (pillars_eq_iff.mp (pillars_eq_of_input formed formed' same)).resolve_right apart

/-- A control pillar cannot be left out of an attestation that keeps the rest. -/
theorem not_verify_dropControl {control : String} (formed : a.WellFormed)
    (verified : a.verify blake3 = true) (present : a.controlHash = some control)
    (free : Set.InjOn blake3 {a.input, { a with controlHash := none }.input}) :
    { a with controlHash := none }.verify blake3 = false := by
  rw [Bool.eq_false_iff]
  intro verified'
  have formed' : { a with controlHash := none }.WellFormed := by
    refine ⟨fun text filled => formed.1 text ?_, formed.2⟩
    simp only [pillars, List.mem_cons, List.mem_append, Option.mem_toList] at filled ⊢
    simp only [reduceCtorEq, false_or] at filled
    exact filled.imp id .inr
  have pillars := pillars_eq_of_input formed formed'
    ((composedRoot_eq_iff verified verified' free).mp rfl)
  -- There is one digest less.
  have lengths := congrArg List.length pillars
  simp [ConvergenceAttestation.pillars, present] at lengths

end

/-- A hash that reads the bytes as one number. -/
def plainBlake3 (bytes : ByteArray) : BitVec 256 :=
  BitVec.ofNat 256 (bytes.toList.foldl (fun n byte => 256 * n + byte.toNat) 1)

/-- The attestation of a first convergence without compliance. -/
def genesis : ConvergenceAttestation :=
  produce plainBlake3 "workload running".toUTF8 none "replicas 3".toUTF8 0 none

/-- The attestation that follows it. -/
def successor : ConvergenceAttestation :=
  produce plainBlake3 "workload running".toUTF8 none "replicas 4".toUTF8 1
    (some genesis.composedRoot)

/-- The successor is well formed, and it verifies. -/
theorem successor_formed : successor.WellFormed ∧ successor.verify plainBlake3 = true := by
  refine produce_wellFormed _ _ _ _ fun root before => ?_
  rw [← Option.some.inj before]
  exact isDigest_toHex _

/-- The generation is no pillar: an attestation may be given another one. -/
theorem root_binds_successor :
    successor.composedRoot = { successor with generation := 7 }.composedRoot ∧
      SamePillars successor { successor with generation := 7 } := by
  obtain ⟨formed, verified⟩ := successor_formed
  -- The two have one input.
  have free : Set.InjOn plainBlake3
      {successor.input, { successor with generation := 7 }.input} := by
    intro x among y among' _
    simp only [Set.mem_insert_iff, Set.mem_singleton_iff] at among among'
    rcases among with rfl | rfl <;> rcases among' with rfl | rfl <;> rfl
  have apart : ¬ (Relabels successor { successor with generation := 7 } ∨
      Relabels { successor with generation := 7 } successor) := by
    simp [Relabels, successor, produce]
  have binds := root_binds_iff formed ⟨formed.1, formed.2⟩ verified verified free
  exact ⟨rfl, binds.mpr apart rfl⟩

/-- The successor with its intent in the place of a control pillar, and the root before it in the
place of the intent. -/
def relabelled : ConvergenceAttestation :=
  { successor with
    controlHash := some successor.intentHash
    intentHash := genesis.composedRoot
    previousRoot := none }

/-- It verifies as a first attestation that has passed its compliance, under the same root. -/
theorem not_root_binds :
    successor.WellFormed ∧ relabelled.WellFormed ∧ successor.verify plainBlake3 = true ∧
      relabelled.verify plainBlake3 = true ∧
        successor.composedRoot = relabelled.composedRoot ∧ ¬ SamePillars successor relabelled := by
  -- Both records are hashed from one text, as a label does not go into it.
  obtain ⟨formed, verified⟩ := successor_formed
  have control : successor.controlHash = none := rfl
  have previous : successor.previousRoot = some genesis.composedRoot := rfl
  have pillars : relabelled.pillars = successor.pillars := by
    simp only [ConvergenceAttestation.pillars, relabelled, control, previous, Option.toList_some,
      Option.toList_none, List.singleton_append, List.nil_append]
  have root : relabelled.composedRoot = successor.composedRoot := by rw [relabelled]
  have input : relabelled.input = successor.input := by rw [input_eq, input_eq, pillars]
  have formed' : relabelled.WellFormed := by rwa [WellFormed, pillars, root]
  refine ⟨formed, formed', verified, ?_, root.symm, ?_⟩
  · rw [verify_iff, input, root]
    exact verify_iff.mp verified
  · intro pillars
    cases pillars.2.1

end ConvergenceAttestation

end Tatara.Convergence
