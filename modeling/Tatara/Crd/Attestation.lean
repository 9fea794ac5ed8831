import Mathlib.Data.Set.Function
import Tatara.Crd.Process
import Tatara.Lib.Delimited

/-! The attestations of a Process, each of which names the root of the one before it. -/

namespace Tatara.Crd

open Tatara.Rust
open Tatara.Delimited (append_mark_inj)

/-- `constant_time_eq`. -/
def constantTimeEq (a b : ByteArray) : Bool :=
  if a.size ≠ b.size then false
  else
    let acc := (a.data.toList.zip b.data.toList).foldl
      (fun acc pair => acc ||| (pair.1 ^^^ pair.2)) (0 : UInt8)
    acc == 0

/-- No bit is left over exactly where the bytes of all pairs are the same. -/
theorem foldl_or_xor_eq_zero (pairs : List (UInt8 × UInt8)) (acc : UInt8) :
    pairs.foldl (fun acc pair => acc ||| (pair.1 ^^^ pair.2)) acc = 0 ↔
      acc = 0 ∧ ∀ pair ∈ pairs, pair.1 = pair.2 := by
  -- By induction on the pairs: a bit that has been left over stays.
  induction pairs generalizing acc with
  | nil => simp
  | cons pair pairs ih =>
    rw [List.foldl_cons, ih, UInt8.or_eq_zero_iff, UInt8.xor_eq_zero_iff, List.forall_mem_cons,
      and_assoc]

/-- The comparison is equality. -/
theorem constantTimeEq_iff {a b : ByteArray} : constantTimeEq a b = true ↔ a = b := by
  unfold constantTimeEq
  split
  · rename_i longer
    constructor
    · intro impossible
      cases impossible
    · intro same
      exact absurd (congrArg ByteArray.size same) longer
  · rename_i level
    -- The bits that differ are gathered, and none of them may be set in the end.
    have lengths : a.data.toList.length = b.data.toList.length := not_not.mp level
    rw [beq_iff_eq, foldl_or_xor_eq_zero]
    constructor
    · intro same
      have bytes : a.data.toList = b.data.toList :=
        List.forall₂_eq_eq_eq ▸ List.forall₂_iff_zip.mpr
          ⟨lengths, fun among => same.2 _ among⟩
      exact ByteArray.ext (Array.toList_inj.mp bytes)
    · intro same
      subst same
      refine ⟨rfl, fun pair among => ?_⟩
      exact (List.forall₂_iff_zip.mp (List.forall₂_refl a.data.toList)).2 among

/-- `DOMAIN_TAG`. -/
def domainTag : String := "tatara-process/v1alpha1\n"

/-- The text that `compose_root` hashes. -/
def rootText (artifact : String) (control : Option String) (intent : String)
    (previous : Option String) : String :=
  domainTag ++ artifact ++ "\n" ++ control.getD "" ++ "\n" ++ intent ++ "\n" ++ previous.getD ""

/-- A text on one line. -/
def OneLine (text : String) : Prop := '\n' ∉ text.toList

/-- Pillars that are lines can be told apart in what is hashed, and so can the root before them;
only an empty slot looks like one that is missing. -/
theorem rootText_inj {artifact artifact' intent intent' : String}
    {control control' previous previous' : Option String} (lineA : OneLine artifact)
    (lineA' : OneLine artifact') (lineC : OneLine (control.getD ""))
    (lineC' : OneLine (control'.getD "")) (lineI : OneLine intent) (lineI' : OneLine intent')
    (same : rootText artifact control intent previous =
      rootText artifact' control' intent' previous') :
    artifact = artifact' ∧ control.getD "" = control'.getD "" ∧ intent = intent' ∧
      previous.getD "" = previous'.getD "" := by
  have split (tag a c i p : String) :
      (tag ++ a ++ "\n" ++ c ++ "\n" ++ i ++ "\n" ++ p).toList =
        tag.toList ++
          (a.toList ++ '\n' :: (c.toList ++ '\n' :: (i.toList ++ '\n' :: p.toList))) := by
    simp [String.toList_append]
  have texts := congrArg String.toList same
  rw [rootText, rootText, split, split, List.append_right_inj] at texts
  -- One line after the other is read off both texts.
  obtain ⟨artifacts, texts⟩ := append_mark_inj lineA lineA' texts
  obtain ⟨controls, texts⟩ := append_mark_inj lineC lineC' texts
  obtain ⟨intents, previouses⟩ := append_mark_inj lineI lineI' texts
  exact ⟨String.toList_inj.mp artifacts, String.toList_inj.mp controls,
    String.toList_inj.mp intents, String.toList_inj.mp previouses⟩

namespace ProcessAttestation

/-- What the root of an attestation is the hash of. -/
def text (a : ProcessAttestation) : String :=
  rootText a.artifactHash a.controlHash a.intentHash a.previousRoot

/-- The pillars of an attestation are on one line each. -/
def Lines (a : ProcessAttestation) : Prop :=
  OneLine a.artifactHash ∧ OneLine (a.controlHash.getD "") ∧ OneLine a.intentHash

/-- Two attestations have the same pillars, where an empty control counts as none. -/
def SamePillars (a b : ProcessAttestation) : Prop :=
  a.artifactHash = b.artifactHash ∧ a.controlHash.getD "" = b.controlHash.getD "" ∧
    a.intentHash = b.intentHash

section

variable [Crates]

/-- `verify`. -/
def verify (a : ProcessAttestation) : Bool :=
  let recomputed := composeRoot a.artifactHash a.controlHash a.intentHash a.previousRoot
  constantTimeEq recomputed.toUTF8 a.composedRoot.toUTF8

/-- An attestation verifies where its root is the digest of its text. -/
theorem verify_iff {a : ProcessAttestation} :
    a.verify = true ↔ a.composedRoot = Crates.hexBlake3 a.text := by
  unfold verify
  rw [constantTimeEq_iff, String.toUTF8_eq_toByteArray, String.toUTF8_eq_toByteArray,
    String.toByteArray_inj]
  exact eq_comm

/-- The pillars of a convergence cycle, and when it is attested. -/
structure Cycle where
  artifactHash : String
  controlHash : Option String
  intentHash : String
  now : DateTime

/-- The pillars of a cycle are on one line each. -/
def Cycle.Lines (cycle : Cycle) : Prop :=
  OneLine cycle.artifactHash ∧ OneLine (cycle.controlHash.getD "") ∧ OneLine cycle.intentHash

/-- The attestations of one cycle after the other, each by `next` on the one before it. -/
def attest (prior : Option ProcessAttestation) : List Cycle → List ProcessAttestation
  | [] => []
  | cycle :: cycles =>
    let attestation := next prior cycle.artifactHash cycle.controlHash cycle.intentHash cycle.now
    attestation :: attest (some attestation) cycles

/-- The attestations all verify, and each one names the root of the one before it. -/
structure Chained (chain : List ProcessAttestation) : Prop where
  verified : ∀ a ∈ chain, a.verify = true
  first : ∀ a ∈ chain.head?, a.previousRoot = none
  linked : chain.IsChain fun a b => b.previousRoot = some a.composedRoot

/-- Attestations in a chain are linked by their roots. -/
theorem Chained.toLinked {chain : List ProcessAttestation} (chained : Chained chain) :
    Linked composedRoot (fun a => a.previousRoot.getD "") "" chain := by
  refine linked_of_isChain (fun a head => ?_) (chained.linked.imp fun a b names => ?_)
  · rw [chained.first a head]
    rfl
  · rw [names]
    rfl

/-- The root of an attestation binds its pillars and the root before it, as far as the hash does not
make two texts collide. -/
theorem samePillars_of_root {texts : Set String} (free : Set.InjOn Crates.hexBlake3 texts)
    {a b : ProcessAttestation} (sound : a.verify = true ∧ a.Lines ∧ a.text ∈ texts)
    (sound' : b.verify = true ∧ b.Lines ∧ b.text ∈ texts)
    (same : a.composedRoot = b.composedRoot) :
    SamePillars a b ∧ a.previousRoot.getD "" = b.previousRoot.getD "" := by
  -- Equal roots are those of one text, whose lines are the pillars in order.
  obtain ⟨verified, ⟨artifact, control, intent⟩, hashed⟩ := sound
  obtain ⟨verified', ⟨artifact', control', intent'⟩, hashed'⟩ := sound'
  rw [verify_iff.mp verified, verify_iff.mp verified'] at same
  obtain ⟨artifacts, controls, intents, previous⟩ :=
    rootText_inj artifact artifact' control control' intent intent' (free hashed hashed' same)
  exact ⟨⟨artifacts, controls, intents⟩, previous⟩

/-- Chains of one length with the same last root say the same at every position. -/
theorem Chained.samePillars {chain others : List ProcessAttestation} (chained : Chained chain)
    (chained' : Chained others) (lines : ∀ a ∈ chain, a.Lines) (lines' : ∀ a ∈ others, a.Lines)
    (free : Set.InjOn Crates.hexBlake3 {text | ∃ a ∈ chain ++ others, text = a.text})
    (level : chain.length = others.length)
    (root : chain.getLast?.map composedRoot = others.getLast?.map composedRoot) :
    List.Forall₂ SamePillars chain others := by
  have last : lastRoot composedRoot "" chain = lastRoot composedRoot "" others := by
    rw [lastRoot_eq, lastRoot_eq, root]
  -- All that is hashed anywhere is among the texts that do not collide.
  have sound := fun a among => And.intro (chained.verified a among) <| And.intro (lines a among)
    (show a.text ∈ {text | ∃ a ∈ chain ++ others, text = a.text} from
      ⟨a, List.mem_append_left _ among, rfl⟩)
  have sound' := fun a among => And.intro (chained'.verified a among) <| And.intro (lines' a among)
    (show a.text ∈ {text | ∃ a ∈ chain ++ others, text = a.text} from
      ⟨a, List.mem_append_right _ among, rfl⟩)
  exact (chained.toLinked.commits (fun a b => samePillars_of_root free) chained'.toLinked sound
    sound' level last).1

/-- The next attestation verifies. -/
theorem next_verify (prior : Option ProcessAttestation) (cycle : Cycle) :
    (next prior cycle.artifactHash cycle.controlHash cycle.intentHash cycle.now).verify = true := by
  rw [verify_iff]
  cases prior <;> rfl

/-- Attestations made one on the other are chained, and numbered from where they go on. -/
theorem attest_chained (prior : Option ProcessAttestation) (cycles : List Cycle) :
    (∀ a ∈ attest prior cycles, a.verify = true) ∧
      (∀ a ∈ (attest prior cycles).head?, a.previousRoot = prior.map composedRoot) ∧
        (attest prior cycles).IsChain fun a b => b.previousRoot = some a.composedRoot := by
  -- Each cycle signs what the one before it has left, which the rest starts from.
  induction cycles generalizing prior with
  | nil => exact ⟨by simp [attest], by simp [attest], .nil⟩
  | cons cycle cycles ih =>
    obtain ⟨verified, first, linked⟩ :=
      ih (some (next prior cycle.artifactHash cycle.controlHash cycle.intentHash cycle.now))
    refine ⟨List.forall_mem_cons.mpr ⟨next_verify prior cycle, verified⟩, fun a head => ?_,
      linked.cons first⟩
    cases head
    cases prior <;> rfl

/-- The generation that comes after what there is. -/
def generationAfter (prior : Option ProcessAttestation) : UInt64 :=
  match prior with
  | none => 0
  | some prior => prior.generation + 1

/-- The generations go up by one with each attestation. -/
theorem attest_generation (prior : Option ProcessAttestation) (cycles : List Cycle) (k : Nat)
    (a : ProcessAttestation) (there : (attest prior cycles)[k]? = some a) :
    a.generation = generationAfter prior + UInt64.ofNat k := by
  induction cycles generalizing prior k with
  | nil => cases there
  | cons cycle cycles ih =>
    cases k with
    | zero =>
      cases there
      cases prior <;> simp [next, compose, generationAfter]
    | succ k =>
      have later := ih _ k there
      -- The attestation of the first cycle counts as one.
      have counts : generationAfter
          (some (next prior cycle.artifactHash cycle.controlHash cycle.intentHash cycle.now)) =
            generationAfter prior + 1 := by
        cases prior <;> rfl
      rw [later, counts, UInt64.add_assoc, UInt64.add_comm 1, UInt64.ofNat_add]
      rfl

/-- Attestations of cycles whose hashes are lines have lines only. -/
theorem attest_lines (prior : Option ProcessAttestation) {cycles : List Cycle}
    (lines : ∀ cycle ∈ cycles, cycle.Lines) : ∀ a ∈ attest prior cycles, a.Lines := by
  -- By induction on the cycles.
  induction cycles generalizing prior with
  | nil => simp [attest]
  | cons cycle cycles ih =>
    obtain ⟨here, others⟩ := List.forall_mem_cons.mp lines
    refine List.forall_mem_cons.mpr ⟨?_, ih _ others⟩
    cases prior <;> exact here

/-- A chain of attestations verifies and is numbered from zero; and whoever has its last root can
tell it from every other chain of this length. -/
theorem chain_tamper_evident {cycles : List Cycle} (lines : ∀ cycle ∈ cycles, cycle.Lines) :
    Chained (attest none cycles) ∧
    (∀ k a, (attest none cycles)[k]? = some a → a.generation = UInt64.ofNat k) ∧
    ∀ others : List ProcessAttestation, others.length = (attest none cycles).length →
      Chained others → (∀ a ∈ others, a.Lines) →
      Set.InjOn Crates.hexBlake3 {text | ∃ a ∈ attest none cycles ++ others, text = a.text} →
      others.getLast?.map composedRoot = (attest none cycles).getLast?.map composedRoot →
        List.Forall₂ SamePillars (attest none cycles) others := by
  obtain ⟨verified, first, linked⟩ := attest_chained none cycles
  -- What the cycles make is one of the chains that the last root decides between.
  have chained : Chained (attest none cycles) := ⟨verified, first, linked⟩
  refine ⟨chained, fun k a there => ?_, ?_⟩
  · simpa [generationAfter] using attest_generation none cycles k a there
  · intro others level chained' lines' free root
    exact chained.samePillars chained' (attest_lines none lines) lines' free level.symm root.symm

end

/-- Surroundings whose hash gives the text back. -/
@[reducible] def echoCrates : Crates := { plainCrates with hexBlake3 := id }

/-- Two cycles, of which the second one has its compliance verified. -/
def twoCycles : List Cycle :=
  [{ artifactHash := "a0", controlHash := none, intentHash := "i0", now := ⟨0⟩ },
    { artifactHash := "a1", controlHash := some "c1", intentHash := "i1", now := ⟨1⟩ }]

/-- The chain of two cycles, with nothing in the place of the control that the first one lacks. -/
theorem chain_tamper_evident_two :
    let _ := echoCrates
    Chained (attest none twoCycles) ∧
      (∀ k a, (attest none twoCycles)[k]? = some a → a.generation = UInt64.ofNat k) ∧
        List.Forall₂ SamePillars (attest none twoCycles)
          (attest none (twoCycles.map fun cycle =>
            { cycle with controlHash := some (cycle.controlHash.getD "") })) := by
  -- The hash gives back the text itself, so that nothing collides.
  intro _
  have lines : ∀ cycle ∈ twoCycles, cycle.Lines := by
    simp [twoCycles, Cycle.Lines, OneLine]
  obtain ⟨chained, numbered, binds⟩ := chain_tamper_evident lines
  obtain ⟨verified, first, linked⟩ := attest_chained none
    (twoCycles.map fun cycle => { cycle with controlHash := some (cycle.controlHash.getD "") })
  refine ⟨chained, numbered, binds _ rfl ⟨verified, first, linked⟩ ?_ ?_ rfl⟩
  · exact attest_lines none (by simp [twoCycles, Cycle.Lines, OneLine])
  · exact Function.injective_id.injOn

end ProcessAttestation

end Tatara.Crd
