import Mathlib.Algebra.BigOperators.Group.List.Basic
import Mathlib.Algebra.Order.Floor.Div
import Mathlib.Data.List.Forall2
import Mathlib.Data.List.Nodup
import Mathlib.Data.Nat.Bitwise
import Mathlib.Tactic.Common
import Mathlib.Tactic.Ring

/-! Numbers written in a base that changes from place to place, the first place changing fastest. -/

namespace Tatara.MixedRadix

/-- The digits of a number, one for each base. -/
def digits : List Nat → Nat → List Nat
  | [], _ => []
  | base :: bases, n => n % base :: digits bases (n / base)

/-- The number that digits stand for. -/
def value : List Nat → List Nat → Nat
  | base :: bases, d :: ds => d + base * value bases ds
  | _, _ => 0

/-- One digit for each base, and smaller than it. -/
def Fits (bases ds : List Nat) : Prop := List.Forall₂ (· < ·) ds bases

variable {bases ds : List Nat} {n : Nat}

/-- The digits of a number fit the bases. -/
theorem fits_digits (positive : ∀ base ∈ bases, 0 < base) (n : Nat) :
    Fits bases (digits bases n) := by
  -- A remainder is smaller than what is divided by.
  induction bases generalizing n with
  | nil => exact .nil
  | cons base bases ih =>
    exact .cons (Nat.mod_lt n (positive base (.head _)))
      (ih (fun other listed => positive other (.tail _ listed)) _)

/-- Digits that fit stand for a number below the product of the bases. -/
theorem value_lt (fits : Fits bases ds) : value bases ds < bases.prod := by
  induction fits with
  | nil => simp [value]
  | @cons d base ds bases small _ ih =>
    rw [value, List.prod_cons]
    -- The rest stands for at most one less than its product.
    have step : base * (value bases ds + 1) ≤ base * bases.prod := Nat.mul_le_mul_left base ih
    rw [Nat.mul_add, Nat.mul_one] at step
    omega

/-- A number below the product comes back from its digits. -/
theorem value_digits (below : n < bases.prod) : value bases (digits bases n) = n := by
  -- By induction on the bases: what is left of the number is below the product of the others.
  induction bases generalizing n with
  | nil =>
    rw [List.prod_nil] at below
    simp only [value]
    omega
  | cons base bases ih =>
    rw [List.prod_cons] at below
    rw [digits, value, ih (Nat.div_lt_of_lt_mul below)]
    exact Nat.mod_add_div n base

/-- Digits that fit come back from their number. -/
theorem digits_value (fits : Fits bases ds) : digits bases (value bases ds) = ds := by
  -- By induction on the digits, of which the first one is the remainder.
  induction fits with
  | nil => rfl
  | @cons d base ds bases small _ ih =>
    rw [value, digits, Nat.add_mul_mod_self_left, Nat.mod_eq_of_lt small,
      Nat.add_mul_div_left _ _ (Nat.zero_lt_of_lt small), Nat.div_eq_of_lt small, Nat.zero_add, ih]

/-- All digits that fit, each once, are those of the numbers below the product. -/
theorem nodup_map_digits (bases : List Nat) :
    ((List.range bases.prod).map (digits bases)).Nodup := by
  refine List.Nodup.map_on (fun n below m below' same => ?_) List.nodup_range
  rw [← value_digits (List.mem_range.mp below), same, value_digits (List.mem_range.mp below')]

/-- The digits of the numbers below the product are all that fit. -/
theorem mem_map_digits_iff (positive : ∀ base ∈ bases, 0 < base) :
    ds ∈ (List.range bases.prod).map (digits bases) ↔ Fits bases ds := by
  rw [List.mem_map]
  constructor
  · rintro ⟨n, -, rfl⟩
    exact fits_digits positive n
  · intro fits
    exact ⟨value bases ds, List.mem_range.mpr (value_lt fits), digits_value fits⟩

/-- Nothing fits when one base is zero. -/
theorem not_fits_of_zero (zero : 0 ∈ bases) : ¬ Fits bases ds := by
  intro fits
  -- By induction on the digits, none of which is below zero.
  induction fits with
  | nil => cases zero
  | cons small _ ih =>
    rcases List.mem_cons.mp zero with rfl | later
    · omega
    · exact ih later

end Tatara.MixedRadix

/-! Numbers as strings of bits, the highest bit first, and such strings cut into digits. -/

namespace Tatara.Bits

/-- The lowest bits of a number, so many of them. -/
def bitsOf : Nat → Nat → List Bool
  | 0, _ => []
  | width + 1, n => n.testBit width :: bitsOf width n

/-- The number that a string of bits stands for. -/
def valueOf (bits : List Bool) : Nat := bits.foldl (fun value bit => 2 * value + bit.toNat) 0

/-- So many bits from a place on, with zeros behind the end of the string. -/
def window (bits : List Bool) (start width : Nat) : List Bool :=
  (List.range width).map fun i => bits.getD (start + i) false

/-- The digits of a string of bits, each of so many bits, with zeros added at the end. -/
def digits (width : Nat) (bits : List Bool) : List Nat :=
  (List.range (bits.length ⌈/⌉ width)).map fun i => valueOf (window bits (width * i) width)

/-- There are as many bits as are asked for. -/
@[simp] theorem length_bitsOf (width n : Nat) : (bitsOf width n).length = width := by
  induction width with
  | zero => rfl
  | succ width ih => simp [bitsOf, ih]

/-- A window is as long as it is wide. -/
@[simp] theorem length_window (bits : List Bool) (start width : Nat) :
    (window bits start width).length = width := by
  simp [window]

/-- There are as many digits as it takes. -/
@[simp] theorem length_digits (width : Nat) (bits : List Bool) :
    (digits width bits).length = bits.length ⌈/⌉ width := by
  simp [digits]

/-- The bits in front count for as much as they are moved up. -/
theorem valueOf_append (front back : List Bool) :
    valueOf (front ++ back) = valueOf front * 2 ^ back.length + valueOf back := by
  -- The number that is read before a string is moved up by the length of the string.
  have read (bits : List Bool) (value : Nat) :
      bits.foldl (fun value bit => 2 * value + bit.toNat) value =
        value * 2 ^ bits.length + valueOf bits := by
    induction bits generalizing value with
    | nil => simp [valueOf]
    | cons bit bits ih =>
      rw [valueOf, List.foldl_cons, List.foldl_cons, ih, ih (2 * 0 + bit.toNat), List.length_cons,
        Nat.pow_succ]
      ring
  rw [valueOf, List.foldl_append, read, ← valueOf]

/-- Bits stand for less than the power of two. -/
theorem valueOf_lt (bits : List Bool) : valueOf bits < 2 ^ bits.length := by
  -- By induction on the bits, from the last one on.
  induction bits using List.reverseRecOn with
  | nil => simp [valueOf]
  | append_singleton bits bit ih =>
    have one : valueOf [bit] < 2 := by cases bit <;> decide
    rw [valueOf_append, List.length_append, List.length_singleton, Nat.pow_succ]
    omega

/-- The bits of bytes, one byte after the other. -/
def bytesBits (bytes : List UInt8) : List Bool := bytes.flatMap fun byte => bitsOf 8 byte.toNat

/-- The bytes that a string of bits has, as far as they are complete. -/
def bytesOf (bits : List Bool) : List UInt8 :=
  (digits 8 (bits.take (bits.length / 8 * 8))).map UInt8.ofNat

/-- Each byte has eight bits. -/
@[simp] theorem length_bytesBits (bytes : List UInt8) :
    (bytesBits bytes).length = 8 * bytes.length := by
  simp [bytesBits, Nat.mul_comm]

/-- Two strings of one length that stand for one number are the same. -/
theorem valueOf_inj {bits bits' : List Bool} (level : bits.length = bits'.length) :
    valueOf bits = valueOf bits' ↔ bits = bits' := by
  refine ⟨fun same => ?_, congrArg valueOf⟩
  induction bits using List.reverseRecOn generalizing bits' with
  | nil => exact (List.length_eq_zero_iff.mp level.symm).symm
  | append_singleton bits bit ih =>
    cases bits' using List.reverseRecOn with
    | nil => simp at level
    | append_singleton bits' bit' =>
      -- The last bit is the parity of the number.
      have one (bit : Bool) : valueOf [bit] = bit.toNat := by cases bit <;> rfl
      have low : bit.toNat < 2 := bit.toNat_lt
      have low' : bit'.toNat < 2 := bit'.toNat_lt
      rw [valueOf_append, valueOf_append, one, one, List.length_singleton, List.length_singleton]
        at same
      have front : bits = bits' := ih (by simpa using level) (by omega)
      have last : bit = bit' := by cases bit <;> cases bit' <;> simp_all
      rw [front, last]

/-- The higher bits of a number are those of what is left when the lower ones are shifted out. -/
theorem bitsOf_add (high low n : Nat) :
    bitsOf (high + low) n = bitsOf high (n >>> low) ++ bitsOf low n := by
  -- By induction on the number of higher bits.
  induction high with
  | zero => simp [bitsOf]
  | succ high ih =>
    rw [Nat.succ_add, bitsOf, ih, bitsOf, List.cons_append, Nat.testBit_shiftRight,
      Nat.add_comm low high]

/-- The bits of two numbers are the same where the numbers agree on these places. -/
theorem bitsOf_congr {width n n' : Nat} (same : ∀ i < width, n.testBit i = n'.testBit i) :
    bitsOf width n = bitsOf width n' := by
  -- By induction on the width, from the highest bit on.
  induction width with
  | zero => rfl
  | succ width ih =>
    rw [bitsOf, bitsOf, same width (Nat.lt_succ_self width),
      ih fun i below => same i (Nat.lt_succ_of_lt below)]

/-- So many bits are told by the remainder. -/
theorem bitsOf_of_mod_eq {width n n' : Nat} (same : n % 2 ^ width = n' % 2 ^ width) :
    bitsOf width n = bitsOf width n' := by
  refine bitsOf_congr fun i below => ?_
  have bit := congrArg (Nat.testBit · i) same
  simpa [Nat.testBit_mod_two_pow, below] using bit

/-- A register that is shifted and filled up from below keeps what it has room for. -/
theorem bitsOf_shift_or {high low width n filling : Nat} (room : high + low ≤ width)
    (small : filling < 2 ^ low) :
    bitsOf (high + low) (n <<< low % 2 ^ width ||| filling) =
      bitsOf high n ++ bitsOf low filling := by
  rw [bitsOf_add]
  congr 1
  · -- Above, the filling has no bits.
    refine bitsOf_congr fun i below => ?_
    have above : filling.testBit (low + i) = false :=
      Nat.testBit_lt_two_pow (small.trans_le (Nat.pow_le_pow_right (by decide) (by omega)))
    simp [above, show low + i < width by omega]
  · -- Below, the number has none.
    refine bitsOf_congr fun i below => ?_
    simp [show ¬ low ≤ i by omega]

/-- All bits of zero are zero. -/
@[simp] theorem bitsOf_zero (width : Nat) : bitsOf width 0 = List.replicate width false := by
  induction width with
  | zero => rfl
  | succ width ih => rw [bitsOf, ih, Nat.zero_testBit, List.replicate_succ]

/-- The lowest bits of a number stand for its remainder. -/
theorem valueOf_bitsOf (width n : Nat) : valueOf (bitsOf width n) = n % 2 ^ width := by
  -- By induction on the width: the highest bit counts for its power of two.
  induction width with
  | zero => simp [bitsOf, valueOf, Nat.mod_one]
  | succ width ih =>
    have one : valueOf [n.testBit width] = n / 2 ^ width % 2 := by
      rw [← Nat.toNat_testBit]
      cases n.testBit width <;> rfl
    rw [bitsOf, ← List.singleton_append, valueOf_append, length_bitsOf, ih, one, Nat.mod_pow_succ]
    ring

/-- Bytes are what their bits say. -/
theorem bytesBits_injective : Function.Injective bytesBits := by
  intro bytes bytes' same
  -- By induction on the bytes: each has eight bits, and they are what it is.
  induction bytes generalizing bytes' with
  | nil => simpa using congrArg List.length same
  | cons byte bytes ih =>
    cases bytes' with
    | nil => simpa using congrArg List.length same
    | cons byte' bytes' =>
      rw [bytesBits, bytesBits, List.flatMap_cons, List.flatMap_cons] at same
      obtain ⟨first, rest⟩ := List.append_inj same (by simp)
      have value := congrArg valueOf first
      rw [valueOf_bitsOf, valueOf_bitsOf, Nat.mod_eq_of_lt byte.toNat_lt,
        Nat.mod_eq_of_lt byte'.toNat_lt] at value
      rw [UInt8.toNat_inj.mp value, ih rest]

/-- A window that lies inside the front does not see the rest. -/
theorem window_front {width : Nat} {front back : List Bool} (full : front.length = width) :
    window (front ++ back) 0 width = front := by
  refine List.ext_getElem (by simp [full]) fun i inside inside' => ?_
  simp [window, List.getElem?_append_left inside', List.getElem?_eq_getElem inside']

/-- A window behind the front sees the rest only. -/
theorem window_behind {start width : Nat} {front back : List Bool} :
    window (front ++ back) (front.length + start) width = window back start width := by
  refine List.map_congr_left fun i _ => ?_
  simp [Nat.add_assoc, List.getElem?_append_right]

/-- Zeros at the end are not seen. -/
theorem window_padded (bits : List Bool) (start width zeros : Nat) :
    window (bits ++ List.replicate zeros false) start width = window bits start width := by
  refine List.map_congr_left fun i _ => ?_
  -- Behind the bits there are only zeros, whether written or not.
  by_cases inside : start + i < bits.length
  · simp [List.getElem?_append_left inside]
  · have behind := not_lt.mp inside
    simp only [List.getD_eq_getElem?_getD, List.getElem?_append_right behind,
      List.getElem?_eq_none behind, List.getElem?_replicate]
    split <;> rfl

/-- A digit is less than the base. -/
theorem lt_of_mem_digits {width digit : Nat} {bits : List Bool} (inside : digit ∈ digits width bits) :
    digit < 2 ^ width := by
  obtain ⟨i, -, rfl⟩ := List.mem_map.mp inside
  simpa using valueOf_lt (window bits (width * i) width)

@[simp] theorem digits_nil (width : Nat) : digits width [] = [] := by
  simp [digits]

/-- The first digit stands for the first bits. -/
theorem digits_append {width : Nat} (positive : 0 < width) {front back : List Bool}
    (full : front.length = width) :
    digits width (front ++ back) = valueOf front :: digits width back := by
  -- The front takes one digit, and the others are those of what is behind it.
  have more : (front ++ back).length ⌈/⌉ width = back.length ⌈/⌉ width + 1 := by
    rw [List.length_append, full, Nat.ceilDiv_eq_add_pred_div, Nat.ceilDiv_eq_add_pred_div,
      ← Nat.add_div_right _ positive]
    congr 1
    omega
  rw [digits, more, List.range_succ_eq_map, List.map_cons, List.map_map, Nat.mul_zero,
    window_front full, digits]
  refine congrArg _ (List.map_congr_left fun i _ => ?_)
  rw [Function.comp_apply, Nat.succ_eq_add_one, Nat.mul_add_one, Nat.add_comm, ← full, window_behind]

/-- The digits of eight bits are the bytes. -/
theorem digits_bytesBits (bytes : List UInt8) :
    digits 8 (bytesBits bytes) = bytes.map UInt8.toNat := by
  -- By induction on the bytes: each is one digit.
  induction bytes with
  | nil => exact digits_nil 8
  | cons byte bytes ih =>
    rw [bytesBits, List.flatMap_cons, digits_append (by decide) (length_bitsOf 8 byte.toNat),
      valueOf_bitsOf, Nat.mod_eq_of_lt byte.toNat_lt, ← bytesBits, ih, List.map_cons]

/-- Bytes are read off their bits, with fewer bits than a byte has behind them. -/
theorem bytesOf_append (bytes : List UInt8) {rest : List Bool} (few : rest.length < 8) :
    bytesOf (bytesBits bytes ++ rest) = bytes := by
  -- The few bits behind the bytes do not make up another one.
  have complete : (bytesBits bytes ++ rest).length / 8 * 8 = (bytesBits bytes).length := by
    rw [List.length_append, length_bytesBits]
    omega
  rw [bytesOf, complete, List.take_left, digits_bytesBits, List.map_map]
  exact List.map_id'' (fun byte => UInt8.ofNat_toNat) bytes

/-- Bits that do not fill more than one digit are filled up with zeros. -/
theorem digits_short {width : Nat} {bits : List Bool} (some : bits ≠ [])
    (short : bits.length ≤ width) :
    digits width bits = [valueOf (bits ++ List.replicate (width - bits.length) false)] := by
  have positive : 0 < width := (List.length_pos_of_ne_nil some).trans_le short
  have filled : (bits ++ List.replicate (width - bits.length) false).length = width := by
    simp [short]
  -- Some bits, and not more than a digit has, make one digit.
  have one : bits.length ⌈/⌉ width = 1 := by
    have more := List.length_pos_of_ne_nil some
    rw [Nat.ceilDiv_eq_add_pred_div, Nat.div_eq_iff positive]
    omega
  have zeros := window_padded bits 0 width (width - bits.length)
  rw [← List.append_nil (bits ++ _), window_front filled] at zeros
  rw [digits, one, List.range_one, List.map_singleton, Nat.mul_zero, ← zeros]

/-- Digits tell strings of one length apart. -/
theorem digits_inj {width : Nat} (positive : 0 < width) {bits bits' : List Bool}
    (level : bits.length = bits'.length) : digits width bits = digits width bits' ↔ bits = bits' := by
  refine ⟨fun same => List.ext_getElem level fun i inside inside' => ?_, congrArg _⟩
  -- A bit is in the window of the digit that its place falls into.
  have place : i / width < bits.length ⌈/⌉ width := by
    rw [Nat.ceilDiv_eq_add_pred_div, Nat.lt_div_iff_mul_lt positive]
    have := Nat.div_mul_le_self i width
    omega
  have digit : valueOf (window bits (width * (i / width)) width) =
      valueOf (window bits' (width * (i / width)) width) := by
    rw [digits, digits, level, List.map_inj_left] at same
    exact same _ (List.mem_range.mpr (level ▸ place))
  have windows := (valueOf_inj (by simp)).mp digit
  rw [window, window, List.map_inj_left] at windows
  have bit := windows _ (List.mem_range.mpr (Nat.mod_lt i positive))
  rwa [Nat.div_add_mod, List.getD_eq_getElem _ _ inside, List.getD_eq_getElem _ _ inside'] at bit

end Tatara.Bits
