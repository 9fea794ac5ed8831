import Tatara.Lib.Bits

/-! Names that are derived from the hash of a specification, and the text that a hash is written
as. -/

namespace Tatara.Crd

open Tatara.Bits

/-- `BASE32_ALPHABET`. -/
def base32Alphabet : Vector Char 32 :=
  #v['0', '1', '2', '3', '4', '5', '6', '7', '8', '9', 'a', 'b', 'c', 'd', 'e', 'f', 'g', 'h', 'j',
    'k', 'm', 'n', 'p', 'q', 'r', 's', 't', 'v', 'w', 'x', 'y', 'z']

/-- Five bits are a remainder. -/
theorem toNat_low (bits : UInt64) : (bits &&& 0x1f).toNat = bits.toNat % 2 ^ 5 := by
  rw [UInt64.toNat_and]
  exact Nat.and_two_pow_sub_one_eq_mod bits.toNat 5

/-- Five bits are a place in the alphabet. -/
theorem low_lt (bits : UInt64) : (bits &&& 0x1f).toNat < 32 := by
  rw [toNat_low]
  exact Nat.mod_lt _ (by decide)

/-- The character of the lowest five bits of a register. -/
def base32Char (bits : UInt64) : Char := base32Alphabet.get ⟨(bits &&& 0x1f).toNat, low_lt bits⟩

/-- What the loops of `base32_encode` change: the text, and how many of the bits that have been
shifted in are not written yet. -/
structure Base32 where
  out : String := ""
  bits : UInt64 := 0
  n : UInt32 := 0

namespace Base32

/-- The inner loop: write the digits that are complete. -/
def emit (s : Base32) : Base32 :=
  if 5 ≤ s.n then
    emit { s with n := s.n - 5, out := s.out.push (base32Char (s.bits >>> (s.n - 5).toUInt64)) }
  else s
termination_by s.n.toNat
decreasing_by
  rename_i more
  rw [UInt32.toNat_sub_of_le _ _ more]
  have := UInt32.le_iff_toNat_le.mp more
  simp at this ⊢
  omega

/-- The outer loop: shift one byte in. -/
def feed (s : Base32) (byte : UInt8) : Base32 :=
  emit { s with bits := (s.bits <<< 8) ||| byte.toUInt64, n := s.n + 8 }

end Base32

/-- `base32_encode`. -/
def base32Encode (bytes : List UInt8) : String :=
  let s := bytes.foldl Base32.feed {}
  if 0 < s.n then s.out.push (base32Char (s.bits <<< (5 - s.n).toUInt64)) else s.out

/-- `HASH_BYTES`. -/
def hashBytes : Nat := 16

/-- `content_hash`. -/
def contentHash {T : Type*} (pillarBytes : T → List UInt8) (blake3 : List UInt8 → Vector UInt8 32)
    (spec : T) : String :=
  base32Encode ((blake3 (pillarBytes spec)).toList.take hashBytes)

/-- The character that stands for a number below 32. -/
def base32Digit (digit : Nat) : Option Char := base32Alphabet.toList[digit]?

/-- The character of a register is that of its five lowest bits. -/
theorem base32Digit_low (bits : UInt64) :
    base32Digit (bits.toNat % 2 ^ 5) = some (base32Char bits) := by
  -- The five bits are a place in the alphabet.
  have inside := low_lt bits
  rw [← toNat_low, base32Digit, base32Char, List.getElem?_eq_getElem (by simpa using inside),
    Vector.getElem_toList]
  rfl

namespace Base32

/-- The text and the bits that are not written yet make up what has been read, whatever is to
come. -/
def Holds (s : Base32) (bits : List Bool) : Prop :=
  ∀ rest, (digits 5 (bits ++ rest)).map base32Digit =
    s.out.toList.map some ++ (digits 5 (bitsOf s.n.toNat s.bits.toNat ++ rest)).map base32Digit

/-- One complete digit is written. -/
theorem Holds.write {s : Base32} {bits : List Bool} (holds : s.Holds bits) (complete : 5 ≤ s.n)
    (inside : s.n.toNat ≤ 64) :
    Holds { s with n := s.n - 5, out := s.out.push (base32Char (s.bits >>> (s.n - 5).toUInt64)) }
      bits := by
  intro rest
  have more : 5 ≤ s.n.toNat := UInt32.le_iff_toNat_le.mp complete
  have left : (s.n - 5).toNat = s.n.toNat - 5 := UInt32.toNat_sub_of_le _ _ complete
  have shifted : (s.bits >>> (s.n - 5).toUInt64).toNat = s.bits.toNat >>> (s.n.toNat - 5) := by
    rw [UInt64.toNat_shiftRight, UInt32.toNat_toUInt64, left, Nat.mod_eq_of_lt (by omega)]
  -- The five highest of the bits that are left are what the register begins with when it is shifted.
  have front : bitsOf s.n.toNat s.bits.toNat =
      bitsOf 5 (s.bits.toNat >>> (s.n.toNat - 5)) ++ bitsOf (s.n.toNat - 5) s.bits.toNat := by
    rw [← bitsOf_add, Nat.add_sub_cancel' more]
  rw [holds rest, front, List.append_assoc, digits_append (by decide) (length_bitsOf _ _),
    valueOf_bitsOf, List.map_cons, ← shifted, base32Digit_low, String.toList_push, left]
  simp

/-- The inner loop leaves fewer bits than a digit has. -/
theorem Holds.emit {s : Base32} {bits : List Bool} (holds : s.Holds bits)
    (inside : s.n.toNat ≤ 64) : s.emit.Holds bits ∧ s.emit.n.toNat < 5 := by
  -- Each turn of the loop writes a digit and leaves five bits fewer.
  induction s using Base32.emit.induct with
  | case1 s complete ih =>
    have left : (s.n - 5).toNat = s.n.toNat - 5 := UInt32.toNat_sub_of_le _ _ complete
    rw [Base32.emit, if_pos complete]
    exact ih (holds.write complete inside) (by simp only [left]; omega)
  | case2 s incomplete =>
    rw [Base32.emit, if_neg incomplete]
    exact ⟨holds, by simpa [UInt32.lt_iff_toNat_lt] using incomplete⟩

/-- The outer loop reads one byte. -/
theorem Holds.feed {s : Base32} {bits : List Bool} (holds : s.Holds bits) (few : s.n.toNat < 5)
    (byte : UInt8) :
    (s.feed byte).Holds (bits ++ bitsOf 8 byte.toNat) ∧ (s.feed byte).n.toNat < 5 := by
  have more : (s.n + 8).toNat = s.n.toNat + 8 := by
    rw [UInt32.toNat_add]
    exact Nat.mod_eq_of_lt (by simp; omega)
  refine Holds.emit (fun rest => ?_) (by simp only [more]; omega)
  -- Of the bits that are left, none is shifted out.
  have shifted : bitsOf (s.n.toNat + 8) ((s.bits <<< 8) ||| byte.toUInt64).toNat =
      bitsOf s.n.toNat s.bits.toNat ++ bitsOf 8 byte.toNat := by
    rw [UInt64.toNat_or, UInt64.toNat_shiftLeft, UInt8.toNat_toUInt64]
    exact bitsOf_shift_or (by omega) byte.toNat_lt
  simp only [more]
  rw [shifted, List.append_assoc, holds, List.append_assoc]

/-- The loops read all bytes, and leave fewer bits than a digit has. -/
theorem holds_feed (bytes : List UInt8) :
    (bytes.foldl Base32.feed {}).Holds (bytesBits bytes) ∧
      (bytes.foldl Base32.feed {}).n.toNat < 5 := by
  -- By induction on the bytes, from the last one on.
  induction bytes using List.reverseRecOn with
  | nil => exact ⟨fun rest => rfl, by decide⟩
  | append_singleton bytes byte ih =>
    have read := ih.1.feed ih.2 byte
    rw [List.foldl_concat]
    simpa [bytesBits] using read

end Base32

/-- The text is that of the digits of the bits. -/
theorem base32Encode_digits (bytes : List UInt8) :
    (base32Encode bytes).toList.map some = (digits 5 (bytesBits bytes)).map base32Digit := by
  obtain ⟨holds, few⟩ := Base32.holds_feed bytes
  have whole := holds []
  simp only [List.append_nil] at whole
  rw [whole, base32Encode]
  generalize bytes.foldl Base32.feed {} = s at few
  by_cases left : 0 < s.n
  · -- The bits that are left get zeros behind them, as the register does when it is shifted.
    have several : 0 < s.n.toNat := UInt32.lt_iff_toNat_lt.mp left
    have room : (5 - s.n).toUInt64.toNat = 5 - s.n.toNat := by
      rw [UInt32.toNat_toUInt64, UInt32.toNat_sub_of_le _ _ (UInt32.le_iff_toNat_le.mpr (by simp; omega))]
      rfl
    have shifted : bitsOf 5 (s.bits <<< (5 - s.n).toUInt64).toNat =
        bitsOf s.n.toNat s.bits.toNat ++ List.replicate (5 - s.n.toNat) false := by
      rw [UInt64.toNat_shiftLeft, room, Nat.mod_eq_of_lt (show 5 - s.n.toNat < 64 by omega),
        ← bitsOf_zero, ← @bitsOf_shift_or _ _ 64 _ _ (by omega) (Nat.two_pow_pos _), Nat.or_zero,
        Nat.add_sub_cancel' (by omega)]
    rw [if_pos left, digits_short (List.ne_nil_of_length_pos (by simpa using several)) (by simp; omega),
      length_bitsOf, ← shifted, valueOf_bitsOf, List.map_singleton, base32Digit_low,
      String.toList_push, List.map_append, List.map_singleton]
  · have empty : s.n.toNat = 0 := by simpa [UInt32.lt_iff_toNat_lt] using left
    rw [if_neg left, empty, bitsOf, digits_nil, List.map_nil, List.append_nil]

/-- No two numbers below 32 have one character. -/
theorem base32Digit_inj {digit digit' : Nat} (small : digit < 32)
    (same : base32Digit digit = base32Digit digit') : digit = digit' :=
  (List.getElem?_inj (by simpa using small) (by decide)).mp same

/-- Byte strings of one length are told apart by their texts. -/
theorem base32Encode_inj {bytes bytes' : List UInt8} (level : bytes.length = bytes'.length) :
    base32Encode bytes = base32Encode bytes' ↔ bytes = bytes' := by
  refine ⟨fun same => bytesBits_injective ?_, congrArg _⟩
  -- Texts of one length have equally many digits, so that those can be compared one by one.
  refine (@digits_inj 5 (by decide) _ _ (by simp [level])).mp ?_
  have chars : (digits 5 (bytesBits bytes)).map base32Digit =
      (digits 5 (bytesBits bytes')).map base32Digit := by
    rw [← base32Encode_digits, ← base32Encode_digits, same]
  -- Different digits have different characters.
  refine List.ext_getElem (by simp [level]) fun i inside inside' =>
    base32Digit_inj (lt_of_mem_digits (List.getElem_mem inside)) ?_
  have char := congrArg (·[i]?) chars
  rw [List.getElem?_map, List.getElem?_map, List.getElem?_eq_getElem inside,
    List.getElem?_eq_getElem inside'] at char
  exact Option.some_inj.mp char

/-- The text is the textbook encoding of the bytes, of which each digit is five bits of the string
of bits with zeros behind it; so it tells byte strings of one length apart, and the hash of a
specification loses nothing of the bytes of the digest that it is made of. -/
theorem base32Encode_textbook (bytes : List UInt8) :
    (base32Encode bytes).length = (8 * bytes.length) ⌈/⌉ 5 ∧
    (∀ i < (base32Encode bytes).length, (base32Encode bytes).toList[i]? =
      base32Alphabet.toList[valueOf (window (bytesBits bytes) (5 * i) 5)]?) ∧
    (∀ bytes', bytes'.length = bytes.length → base32Encode bytes' = base32Encode bytes →
      bytes' = bytes) ∧
    ∀ {T : Type*} (pillarBytes : T → List UInt8) (blake3 : List UInt8 → Vector UInt8 32)
      (spec spec' : T),
      contentHash pillarBytes blake3 spec = contentHash pillarBytes blake3 spec' ↔
        (blake3 (pillarBytes spec)).toList.take hashBytes =
          (blake3 (pillarBytes spec')).toList.take hashBytes := by
  -- The text has a character for each digit.
  have width := congrArg List.length (base32Encode_digits bytes)
  rw [List.length_map, List.length_map, length_digits, length_bytesBits, String.length_toList]
    at width
  refine ⟨width, fun i inside => ?_, fun bytes' level => (base32Encode_inj level).mp,
    fun pillarBytes blake3 spec spec' => base32Encode_inj ?_⟩
  · -- The character at a place is that of the digit there.
    have char := congrArg (·[i]?) (base32Encode_digits bytes)
    have place : i < (8 * bytes.length) ⌈/⌉ 5 := width ▸ inside
    simp only [List.getElem?_map, digits, length_bytesBits, List.getElem?_range place,
      Option.map_some] at char
    rw [List.getElem?_eq_getElem (by rwa [String.length_toList])] at char ⊢
    exact Option.some_inj.mp char
  · simp

end Tatara.Crd
