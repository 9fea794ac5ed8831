import Mathlib.Data.List.Basic
import Mathlib.Data.List.Chain
import Mathlib.Data.List.Forall2
import Mathlib.Data.List.Nodup
import Mathlib.Data.Option.Basic
import Mathlib.Tactic.Common

/-! What the hash of a text commits to, and what the last root of a chain of links does. -/

namespace Tatara

/-- Blocks of one width can be told apart after they have been written one behind the other. -/
theorem flatten_inj_of_length {α : Type*} {width : Nat} (wide : 0 < width)
    {blocks blocks' : List (List α)} (fit : ∀ block ∈ blocks, block.length = width)
    (fit' : ∀ block ∈ blocks', block.length = width)
    (same : blocks.flatten = blocks'.flatten) : blocks = blocks' := by
  -- The induction takes one block off both lists at a time.
  induction blocks generalizing blocks' with
  | nil =>
    cases blocks' with
    | nil => rfl
    | cons block' rest' =>
      have empty : block' = [] := by
        have none := same.symm
        simp only [List.flatten_nil, List.flatten_cons, List.append_eq_nil_iff] at none
        exact none.1
      have long := fit' block' List.mem_cons_self
      rw [empty, List.length_nil] at long
      omega
  | cons block rest ih =>
    cases blocks' with
    | nil =>
      simp only [List.flatten_nil, List.flatten_cons, List.append_eq_nil_iff] at same
      have long := fit block List.mem_cons_self
      rw [same.1, List.length_nil] at long
      omega
    | cons block' rest' =>
      have level : block.length = block'.length :=
        (fit block List.mem_cons_self).trans (fit' block' List.mem_cons_self).symm
      obtain ⟨first, others⟩ := List.append_inj same level
      rw [first, ih (fun b among => fit b (List.mem_cons_of_mem _ among))
        (fun b among => fit' b (List.mem_cons_of_mem _ among)) others]

section

variable {Link Root : Type*} (root previous : Link → Root)

/-- Each link says which root it follows, the first one that of the start. -/
def Linked : Root → List Link → Prop
  | _, [] => True
  | start, link :: rest => previous link = start ∧ Linked (root link) rest

/-- The root at the end of a chain. -/
def lastRoot : Root → List Link → Root
  | start, [] => start
  | _, link :: rest => lastRoot (root link) rest

variable {root previous}

/-- The last root is that of the last link, if there is one. -/
theorem lastRoot_eq (start : Root) (chain : List Link) :
    lastRoot root start chain = (chain.getLast?.map root).getD start := by
  -- By induction on the chain.
  induction chain generalizing start with
  | nil => rfl
  | cons link rest ih =>
    rw [lastRoot, ih, List.getLast?_cons]
    cases rest.getLast? <;> rfl

/-- A chain may be linked pair by pair, and to the start by its first link. -/
theorem linked_of_isChain {chain : List Link} {start : Root}
    (first : ∀ link ∈ chain.head?, previous link = start)
    (pairs : chain.IsChain fun a b => previous b = root a) : Linked root previous start chain := by
  induction chain generalizing start with
  | nil => trivial
  | cons link rest ih =>
    -- The next link follows the root of this one.
    exact ⟨first link rfl, ih (fun next head => pairs.rel_head? head) pairs.tail⟩

/-- Where the root of a link binds what the link says and the root before it, the last root of a
chain binds the whole chain. -/
theorem Linked.commits {Sound : Link → Prop} {Same : Link → Link → Prop}
    (binds : ∀ a b, Sound a → Sound b → root a = root b → Same a b ∧ previous a = previous b)
    {chain chain' : List Link} {start start' : Root} (linked : Linked root previous start chain)
    (linked' : Linked root previous start' chain') (sound : ∀ link ∈ chain, Sound link)
    (sound' : ∀ link ∈ chain', Sound link) (level : chain.length = chain'.length)
    (same : lastRoot root start chain = lastRoot root start' chain') :
    List.Forall₂ Same chain chain' ∧ start = start' := by
  -- What follows a link binds the root of that link, and so on towards the front.
  induction chain generalizing chain' start start' with
  | nil =>
    cases chain' with
    | nil => exact ⟨.nil, same⟩
    | cons link' rest' => cases level
  | cons link rest ih =>
    cases chain' with
    | nil => cases level
    | cons link' rest' =>
      obtain ⟨before, linked⟩ := linked
      obtain ⟨before', linked'⟩ := linked'
      obtain ⟨here, sound⟩ := List.forall_mem_cons.mp sound
      obtain ⟨here', sound'⟩ := List.forall_mem_cons.mp sound'
      obtain ⟨others, roots⟩ := ih linked linked' sound sound' (Nat.succ.inj level) same
      obtain ⟨first, links⟩ := binds link link' here here' roots
      exact ⟨.cons first others, before.symm.trans (links.trans before')⟩

end

end Tatara

/-! Encodings that can be taken apart again wherever they stand in front of other ones. -/

namespace Tatara.Delimited

variable {α β τ : Type*}

/-- Whatever follows the encoding of a value, no other value is read there, and no other rest. -/
def EndsItself (encode : α → List τ) (a : α) : Prop :=
  ∀ b rest rest', encode a ++ rest = encode b ++ rest' → a = b ∧ rest = rest'

variable {encode : α → List τ}

/-- An encoding that ends itself is the front of no other one. -/
theorem EndsItself.eq_of_prefix {a b : α} (ends : EndsItself encode a)
    (front : encode a <+: encode b) : a = b := by
  obtain ⟨rest, same⟩ := front
  exact (ends b rest [] (by rw [same, List.append_nil])).1

/-- As many encodings one behind the other end themselves together. -/
theorem flatMap_inj {xs ys : List α} (ends : ∀ x ∈ xs, EndsItself encode x)
    (level : xs.length = ys.length) {rest rest' : List τ}
    (same : xs.flatMap encode ++ rest = ys.flatMap encode ++ rest') : xs = ys ∧ rest = rest' := by
  -- The first encodings end at one place, and so do the others behind them.
  induction xs generalizing ys with
  | nil =>
    cases ys with
    | nil => exact ⟨rfl, same⟩
    | cons y ys => cases level
  | cons x xs ih =>
    cases ys with
    | nil => cases level
    | cons y ys =>
      obtain ⟨first, others⟩ := List.forall_mem_cons.mp ends
      rw [List.flatMap_cons, List.flatMap_cons, List.append_assoc, List.append_assoc] at same
      obtain ⟨rfl, tails⟩ := first y _ _ same
      obtain ⟨rfl, rests⟩ := ih others (Nat.succ.inj level) tails
      exact ⟨rfl, rests⟩

/-- Encodings of one width end themselves. -/
theorem endsItself_of_width {width : Nat} (injective : Function.Injective encode)
    (wide : ∀ a, (encode a).length = width) (a : α) : EndsItself encode a := by
  -- The width says where the encoding stops.
  intro b rest rest' same
  obtain ⟨fronts, rests⟩ := List.append_inj same (by rw [wide, wide])
  exact ⟨injective fronts, rests⟩

/-- Encodings of one width behind each other: what stands in front of the last of them is a row of
encodings as well. -/
theorem exists_front_of_width {width : Nat} (positive : 0 < width)
    (injective : Function.Injective encode) (wide : ∀ a, (encode a).length = width)
    {xs ys : List α} {front : List τ} (same : xs.flatMap encode = front ++ ys.flatMap encode) :
    ∃ first, xs = first ++ ys ∧ front = first.flatMap encode := by
  -- As many encodings as there are on the right end both rows.
  have total (zs : List α) : (zs.flatMap encode).length = zs.length * width := by
    simp [List.length_flatMap, wide]
  have lengths := congrArg List.length same
  rw [List.length_append, total, total] at lengths
  have fewer : ys.length ≤ xs.length := Nat.le_of_mul_le_mul_right (by omega) positive
  obtain ⟨first, last, rfl, level⟩ : ∃ first last, xs = first ++ last ∧
      last.length = ys.length :=
    ⟨xs.take (xs.length - ys.length), xs.drop (xs.length - ys.length),
      (List.take_append_drop _ xs).symm, by rw [List.length_drop]; omega⟩
  rw [List.flatMap_append] at same
  obtain ⟨fronts, lasts⟩ := List.append_inj' same (by rw [total, total, level])
  have ends := fun x (_ : x ∈ last) => endsItself_of_width injective wide x
  obtain ⟨rfl, -⟩ := @flatMap_inj _ _ encode _ _ ends level [] [] (by rw [lasts])
  exact ⟨first, rfl, fronts.symm⟩

/-- What is closed by a mark that does not occur in it ends itself. -/
theorem append_mark_inj {mark : τ} {xs ys rest rest' : List τ} (absent : mark ∉ xs)
    (absent' : mark ∉ ys) (same : xs ++ mark :: rest = ys ++ mark :: rest') :
    xs = ys ∧ rest = rest' := by
  induction xs generalizing ys with
  | nil =>
    cases ys with
    | nil => exact ⟨rfl, (List.cons.inj same).2⟩
    | cons y ys => exact absurd (by simp [(List.cons.inj same).1]) absent'
  | cons x xs ih =>
    cases ys with
    | nil => exact absurd (by simp [(List.cons.inj same).1]) absent
    | cons y ys =>
      -- Neither mark is reached yet.
      obtain ⟨first, others⟩ := List.cons.inj same
      obtain ⟨rfl, rests⟩ := ih (fun inside => absent (List.mem_cons_of_mem _ inside))
        (fun inside => absent' (List.mem_cons_of_mem _ inside)) others
      exact ⟨by rw [first], rests⟩

/-- The last row goes behind a mark. -/
theorem intercalate_concat {rows : List (List τ)} (more : rows ≠ []) (mark : τ) (last : List τ) :
    [mark].intercalate (rows ++ [last]) = [mark].intercalate rows ++ mark :: last := by
  -- By induction on the rows; only a single row has no mark of its own in front of the last.
  induction rows with
  | nil => exact absurd rfl more
  | cons row rows ih =>
    by_cases single : rows = []
    · subst single
      simp [List.intercalate_cons_cons]
    · rw [List.cons_append, List.intercalate_cons_of_ne_nil (by simp),
        List.intercalate_cons_of_ne_nil single, ih single]
      simp

section

variable [BEq τ] [LawfulBEq τ] {mark : τ}

/-- A row is told by the pieces of it between its marks. -/
theorem splitOn_inj {xs ys : List τ} : xs.splitOn mark = ys.splitOn mark ↔ xs = ys := by
  constructor
  · intro same
    -- The pieces are joined again.
    have joined := congrArg (List.intercalate [mark]) same
    rwa [List.intercalate_splitOn, List.intercalate_splitOn] at joined
  · intro same
    rw [same]

/-- Rows that are joined with marks have the pieces that each of them has. -/
theorem splitOn_joined {rows : List (List τ)} (some : rows ≠ []) :
    ([mark].intercalate rows).splitOn mark = rows.flatMap (·.splitOn mark) := by
  -- The mark behind the first row ends its last piece.
  induction rows with
  | nil => exact absurd rfl some
  | cons row rest ih =>
    cases rest with
    | nil => simp
    | cons next rest =>
      rw [List.intercalate_cons_cons, List.append_assoc, List.singleton_append,
        List.splitOn_append_cons_self, ih (List.cons_ne_nil next rest)]
      rfl

/-- The pieces of a row have no marks, and nothing that the row has not. -/
theorem mem_splitOn {xs piece : List τ} (inside : piece ∈ xs.splitOn mark) :
    mark ∉ piece ∧ ∀ x ∈ piece, x ∈ xs := by
  induction xs generalizing piece with
  | nil =>
    obtain rfl : piece = [] := by simpa using inside
    simp
  | cons x xs ih =>
    obtain ⟨first, others, pieces⟩ := List.exists_cons_of_ne_nil (List.splitOn_ne_nil mark xs)
    rw [List.splitOn_cons_eq_if_modifyHead, pieces] at inside
    rw [pieces] at ih
    split at inside
    · rcases List.mem_cons.mp inside with rfl | inside
      · simp
      · exact ⟨(ih inside).1, fun y among => List.mem_cons_of_mem x ((ih inside).2 y among)⟩
    · next other =>
      -- The element is no mark, and it is put in front of the first piece.
      rw [List.modifyHead_cons] at inside
      rcases List.mem_cons.mp inside with rfl | inside
      · obtain ⟨absent, among⟩ := ih List.mem_cons_self
        refine ⟨fun marked => ?_, fun y within => ?_⟩
        · rcases List.mem_cons.mp marked with rfl | marked
          · simp at other
          · exact absent marked
        · rcases List.mem_cons.mp within with rfl | within
          · exact List.mem_cons_self
          · exact List.mem_cons_of_mem x (among y within)
      · obtain ⟨absent, among⟩ := ih (List.mem_cons_of_mem first inside)
        exact ⟨absent, fun y within => List.mem_cons_of_mem x (among y within)⟩

/-- A piece of a row stands in it. -/
theorem infix_of_mem_splitOn {xs piece : List τ} (inside : piece ∈ xs.splitOn mark) :
    piece <:+: xs := by
  -- With a mark in the row, a piece is in front of it or is one of the rest.
  by_cases more : mark ∈ xs
  · obtain ⟨first, rest, rfl, absent⟩ := List.eq_append_cons_of_mem more
    rw [List.splitOn_append_cons_self_of_not_mem absent] at inside
    rcases List.mem_cons.mp inside with rfl | later
    · exact (List.prefix_append piece (mark :: rest)).isInfix
    · have shorter : rest.length < (first ++ mark :: rest).length := by simp; omega
      exact (infix_of_mem_splitOn later).trans
        ((List.suffix_cons mark rest).trans (List.suffix_append first _)).isInfix
  · rw [List.splitOn_eq_singleton more, List.mem_singleton] at inside
    exact inside ▸ List.infix_refl xs
termination_by xs.length

/-- In front of a piece of a row there is nothing or a mark, and behind it one, if there is one behind
the row. -/
theorem exists_of_mem_splitOn {xs piece : List τ} (inside : piece ∈ xs.splitOn mark) :
    ∃ front back, xs ++ [mark] = front ++ (piece ++ mark :: back) ∧
      (front = [] ∨ front.getLast? = some mark) := by
  -- With a mark in the row, a piece is in front of it or is one of the rest.
  by_cases more : mark ∈ xs
  · obtain ⟨first, rest, rfl, absent⟩ := List.eq_append_cons_of_mem more
    rw [List.splitOn_append_cons_self_of_not_mem absent] at inside
    rcases List.mem_cons.mp inside with rfl | later
    · exact ⟨[], rest ++ [mark], by simp, .inl rfl⟩
    · have shorter : rest.length < (first ++ mark :: rest).length := by simp; omega
      obtain ⟨front, back, split, begins⟩ := exists_of_mem_splitOn later
      refine ⟨first ++ mark :: front, back, by simp [split], .inr ?_⟩
      rcases begins with rfl | last
      · exact List.getLast?_concat
      · rw [List.getLast?_append, List.getLast?_cons, last]
        rfl
  · rw [List.splitOn_eq_singleton more, List.mem_singleton] at inside
    exact ⟨[], [], by rw [inside, List.nil_append], .inl rfl⟩
termination_by xs.length

/-- What is put behind a row without a mark goes on with its last piece. -/
theorem splitOn_append_last {xs back : List τ} (absent : mark ∉ back) :
    ∃ last, (xs ++ back).splitOn mark = (xs.splitOn mark).dropLast ++ [last ++ back] := by
  have split := List.dropLast_concat_getLast (List.splitOn_ne_nil mark xs)
  have pieces : ∀ piece ∈ xs.splitOn mark, mark ∉ piece := fun _ inside => (mem_splitOn inside).1
  have joined := @List.intercalate_splitOn _ xs _ _ mark
  generalize (xs.splitOn mark).dropLast = front at split ⊢
  generalize (xs.splitOn mark).getLast _ = last at split
  rw [← split] at pieces joined
  refine ⟨last, ?_⟩
  -- The pieces are joined with the longer one at the end.
  have longer : [mark].intercalate (front ++ [last ++ back]) = xs ++ back := by
    rw [← joined]
    by_cases top : front = []
    · simp [top]
    · rw [intercalate_concat top, intercalate_concat top, List.append_assoc, List.cons_append]
  rw [← longer]
  refine List.splitOn_intercalate mark (fun piece inside => ?_) (by simp)
  rcases List.mem_append.mp inside with early | late
  · exact pieces piece (List.mem_append_left _ early)
  · rw [List.mem_singleton.mp late, List.mem_append, not_or]
    exact ⟨pieces last (List.mem_append_right _ List.mem_cons_self), absent⟩

/-- A row is split where its image is, when nothing else has the image of the mark. -/
theorem splitOn_map {σ : Type*} [BEq σ] [LawfulBEq σ] (f : τ → σ) {xs : List τ}
    (alone : ∀ x ∈ xs, f x = f mark → x = mark) :
    (xs.map f).splitOn (f mark) = (xs.splitOn mark).map (List.map f) := by
  -- By induction on the row: its first piece goes on or a new one is begun, on both sides alike.
  induction xs with
  | nil => simp
  | cons x xs ih =>
    obtain ⟨first, others, pieces⟩ := List.exists_cons_of_ne_nil (List.splitOn_ne_nil mark xs)
    have rest := ih fun y inside => alone y (List.mem_cons_of_mem x inside)
    rw [List.map_cons, List.splitOn_cons_eq_if_modifyHead, List.splitOn_cons_eq_if_modifyHead, rest,
      pieces]
    by_cases marked : x = mark
    · subst marked
      simp
    · have other : f x ≠ f mark := fun same => marked (alone x List.mem_cons_self same)
      simp [marked, other]

end

section

variable [DecidableEq τ] {mark : τ}

/-- What stands in front of the first mark, and what stands behind it if there is one. -/
def cut (mark : τ) : List τ → List τ × Option (List τ)
  | [] => ([], none)
  | x :: row => if x = mark then ([], some row) else (x :: (cut mark row).1, (cut mark row).2)

/-- The first mark is where a row is cut. -/
theorem cut_append {front back : List τ} (absent : mark ∉ front) :
    cut mark (front ++ mark :: back) = (front, some back) := by
  -- By induction on the front, in which there is no mark.
  induction front with
  | nil => simp [cut]
  | cons x front ih =>
    have other : x ≠ mark := fun same => absent (same ▸ List.mem_cons_self)
    rw [List.cons_append, cut, if_neg other, ih fun inside => absent (List.mem_cons_of_mem x inside)]

/-- The parts of a row make it up. -/
theorem cut_joined (mark : τ) (row : List τ) :
    (cut mark row).1 ++ (cut mark row).2.elim [] (mark :: ·) = row := by
  -- By induction on the row, which is cut at its first mark.
  induction row with
  | nil => rfl
  | cons x row ih =>
    by_cases marked : x = mark
    · simp [cut, marked]
    · simp [cut, marked, ih]

/-- In front of the first mark there is none. -/
theorem notMem_cut (mark : τ) (row : List τ) : mark ∉ (cut mark row).1 := by
  -- By induction on the row, which is cut at its first mark.
  induction row with
  | nil => simp [cut]
  | cons x row ih =>
    by_cases marked : x = mark
    · simp [cut, marked]
    · simp [cut, marked, ih, Ne.symm marked]

end

/-- Different things that are written down, in whatever order, are read back exactly where each of
them is, if nothing is read as what is not written that way. -/
theorem perm_read_iff {print : α → τ} {read : τ → Option α}
    (printed : ∀ {text a}, read text = some a → print a = text) {items : List α}
    (different : items.Nodup) :
    (items.map fun a => read (print a)).Perm (items.map some) ↔
      ∀ a ∈ items, read (print a) = some a := by
  constructor
  · -- What one thing is read as is written like it, and is not what another one is read as.
    intro same a inside
    have apart : (items.map fun a => read (print a)).Nodup :=
      same.nodup_iff.mpr (different.map (Option.some_injective _))
    obtain ⟨b, among, found⟩ := List.mem_map.mp
      (same.mem_iff.mp (List.mem_map_of_mem (f := fun a => read (print a)) inside))
    have alike : read (print b) = read (print a) := by rw [printed found.symm]
    have equal := List.inj_on_of_nodup_map apart among inside alike
    rw [← found, equal]
  · intro each
    rw [List.map_congr_left each]

end Tatara.Delimited
