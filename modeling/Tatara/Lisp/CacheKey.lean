import Tatara.Lib.Delimited
import Tatara.Lisp.Expander

/-! The values that the hash of an argument list is fed with determine the list. -/

namespace Tatara.Lisp

open Tatara.Rust Tatara.Delimited

/-- A value that a hasher is fed with. -/
inductive Fed where
  | u8 (value : UInt8)
  | usize (value : Nat)
  | i64 (value : Int64)
  | u64 (value : UInt64)
  deriving DecidableEq, Repr

/-- `Hash for str` feeds the bytes, and then a byte that no text contains. -/
def feedStr (text : String) : List Fed := text.toUTF8.data.toList.map .u8 ++ [.u8 0xff]

/-- The byte for each kind of atom. -/
def Atom.hashDiscriminator : Atom → UInt8
  | .symbol _ => 0
  | .keyword _ => 1
  | .str _ => 2
  | .int _ => 3
  | .float _ => 4
  | .bool _ => 5

/-- `Hash for Atom`. -/
def Atom.feed (atom : Atom) : List Fed :=
  .u8 atom.hashDiscriminator ::
    match atom with
    | .symbol name => feedStr name
    | .keyword name => feedStr name
    | .str text => feedStr text
    | .int value => [.i64 value]
    | .float value => [.u64 value.bits]
    | .bool value => [.u8 (if value then 1 else 0)]

/-- The byte for each wrapper. -/
def QuoteForm.hashDiscriminator : QuoteForm → UInt8
  | .quote => 3
  | .quasiquote => 4
  | .unquote => 5
  | .unquoteSplice => 6

namespace Sexp

/-- The byte for each outer shape, where all atoms share one. -/
def hashDiscriminator : Sexp → UInt8
  | .nil => 0
  | .atom _ => 1
  | .list _ => 2
  | .quote _ => QuoteForm.quote.hashDiscriminator
  | .quasiquote _ => QuoteForm.quasiquote.hashDiscriminator
  | .unquote _ => QuoteForm.unquote.hashDiscriminator
  | .unquoteSplice _ => QuoteForm.unquoteSplice.hashDiscriminator

mutual

/-- `Hash for Sexp`. -/
def feed : Sexp → List Fed
  | .nil => [.u8 (hashDiscriminator .nil)]
  | .atom a => .u8 (hashDiscriminator (.atom a)) :: a.feed
  | .list items => .u8 (hashDiscriminator (.list items)) :: .usize items.length :: feedItems items
  | .quote inner => .u8 (hashDiscriminator (.quote inner)) :: feed inner
  | .quasiquote inner => .u8 (hashDiscriminator (.quasiquote inner)) :: feed inner
  | .unquote inner => .u8 (hashDiscriminator (.unquote inner)) :: feed inner
  | .unquoteSplice inner => .u8 (hashDiscriminator (.unquoteSplice inner)) :: feed inner

/-- The items of a list one after the other. -/
def feedItems : List Sexp → List Fed
  | [] => []
  | item :: rest => feed item ++ feedItems rest

end

/-- The items are fed one after the other. -/
theorem feedItems_eq (items : List Sexp) : feedItems items = items.flatMap feed := by
  induction items with
  | nil => rfl
  | cons item rest ih => rw [feedItems, ih, List.flatMap_cons]

/-- A wrapper is its byte in front of the form inside. -/
theorem feed_wrap (qf : QuoteForm) (inner : Sexp) :
    (qf.wrap inner).feed = .u8 qf.hashDiscriminator :: inner.feed := by
  cases qf <;> rfl

/-- A form is fed with the byte of its shape first. -/
theorem feed_head (form : Sexp) : ∃ payload, form.feed = .u8 form.hashDiscriminator :: payload := by
  cases form <;> exact ⟨_, rfl⟩

end Sexp

/-- What the hasher of `args_cache_key` is fed with. -/
def feedArgs (args : List Sexp) : List Fed := .usize args.length :: args.flatMap Sexp.feed

/-- No text has the byte that is fed behind it. -/
theorem mark_not_mem (text : String) : (0xff : UInt8) ∉ text.toUTF8.data.toList := by
  have bytes : text.toUTF8.data.toList = text.toList.flatMap String.utf8EncodeChar := by
    have encoded := congrArg (·.data.toList) (String.utf8Encode_toList (b := text))
    simpa [List.utf8Encode] using encoded.symm
  rw [bytes, List.mem_flatMap]
  rintro ⟨c, -, inside⟩
  -- The first byte of a character has a zero among its bits, and so has every other one.
  have small (n : Nat) (less : n < 255) : (0xff : UInt8) ≠ UInt8.ofNat n := by
    intro same
    have values := congrArg UInt8.toNat same
    simp only [UInt8.toNat_ofNat', UInt8.reduceToNat] at values
    omega
  dsimp only [String.utf8EncodeChar] at inside
  split at inside
  · rw [List.mem_singleton] at inside
    exact small _ (by omega) inside
  split at inside
  · simp only [List.mem_cons, List.not_mem_nil, or_false] at inside
    rcases inside with same | same <;> exact small _ (by omega) same
  split at inside
  · simp only [List.mem_cons, List.not_mem_nil, or_false] at inside
    rcases inside with same | same | same <;> exact small _ (by omega) same
  · simp only [List.mem_cons, List.not_mem_nil, or_false] at inside
    rcases inside with same | same | same | same <;> exact small _ (by omega) same

/-- A text that is fed ends itself. -/
theorem feedStr_endsItself (text : String) : EndsItself feedStr text := by
  intro other rest rest' same
  have absent (text : String) : Fed.u8 0xff ∉ text.toUTF8.data.toList.map Fed.u8 := by
    intro inside
    obtain ⟨byte, member, same⟩ := List.mem_map.mp inside
    cases same
    exact mark_not_mem text member
  rw [feedStr, feedStr, List.append_assoc, List.append_assoc] at same
  obtain ⟨bytes, rests⟩ := append_mark_inj (absent text) (absent other) same
  -- Equal bytes are the bytes of one text.
  have lists := List.map_injective_iff.mpr (fun a b same => Fed.u8.inj same) bytes
  have arrays : text.toUTF8 = other.toUTF8 := ByteArray.ext (Array.toList_inj.mp lists)
  exact ⟨String.toByteArray_inj.mp arrays, rests⟩

/-- An atom that is fed ends itself. -/
theorem Atom.feed_endsItself (atom : Atom) : EndsItself Atom.feed atom := by
  intro other rest rest' same
  obtain ⟨kinds, payloads⟩ := List.cons.inj same
  -- The byte says of which kind both atoms are, and each kind of payload ends itself.
  cases atom with
  | symbol name =>
    cases other with
    | symbol name' =>
      obtain ⟨rfl, rests⟩ := feedStr_endsItself name name' rest rest' payloads
      exact ⟨rfl, rests⟩
    | _ => simp [hashDiscriminator] at kinds
  | keyword name =>
    cases other with
    | keyword name' =>
      obtain ⟨rfl, rests⟩ := feedStr_endsItself name name' rest rest' payloads
      exact ⟨rfl, rests⟩
    | _ => simp [hashDiscriminator] at kinds
  | str text =>
    cases other with
    | str text' =>
      obtain ⟨rfl, rests⟩ := feedStr_endsItself text text' rest rest' payloads
      exact ⟨rfl, rests⟩
    | _ => simp [hashDiscriminator] at kinds
  | int value =>
    cases other with
    | int value' =>
      obtain ⟨values, rests⟩ := List.cons.inj payloads
      exact ⟨congrArg Atom.int (Fed.i64.inj values), rests⟩
    | _ => simp [hashDiscriminator] at kinds
  | float value =>
    cases other with
    | float value' =>
      -- Floats are told apart by their bits.
      obtain ⟨values, rests⟩ := List.cons.inj payloads
      obtain ⟨bits⟩ := value
      obtain ⟨bits'⟩ := value'
      obtain rfl := Fed.u64.inj values
      exact ⟨rfl, rests⟩
    | _ => simp [hashDiscriminator] at kinds
  | bool value =>
    cases other with
    | bool value' =>
      obtain ⟨values, rests⟩ := List.cons.inj payloads
      cases value <;> cases value' <;> first | exact ⟨rfl, rests⟩ | exact absurd values (by decide)
    | _ => simp [hashDiscriminator] at kinds

/-- A form that is fed ends itself. -/
theorem Sexp.feed_endsItself (form : Sexp) : EndsItself Sexp.feed form := by
  induction form using wrapInduction with
  | nil =>
    intro other rest rest' same
    cases other with
    | nil => exact ⟨rfl, (List.cons.inj same).2⟩
    | _ => exact absurd (List.cons.inj same).1 (by simp [hashDiscriminator,
        QuoteForm.hashDiscriminator])
  | atom atom =>
    intro other rest rest' same
    cases other with
    | atom other =>
      obtain ⟨rfl, rests⟩ := atom.feed_endsItself other rest rest' (List.cons.inj same).2
      exact ⟨rfl, rests⟩
    | _ => exact absurd (List.cons.inj same).1 (by simp [hashDiscriminator,
        QuoteForm.hashDiscriminator])
  | list items ih =>
    intro other rest rest' same
    cases other with
    | list others =>
      -- The length comes before the items, so that it is known where the last of them ends.
      obtain ⟨level, inside⟩ := List.cons.inj (List.cons.inj same).2
      rw [feedItems_eq, feedItems_eq] at inside
      obtain ⟨rfl, rests⟩ := flatMap_inj ih (Fed.usize.inj level) inside
      exact ⟨rfl, rests⟩
    | _ => exact absurd (List.cons.inj same).1 (by simp [hashDiscriminator,
        QuoteForm.hashDiscriminator])
  | wrap qf inner ih =>
    intro other rest rest' same
    rw [feed_wrap] at same
    -- The other form starts with the byte of the same wrapper.
    obtain ⟨inner', rfl⟩ : ∃ inner', other = qf.wrap inner' := by
      obtain ⟨payload, shape⟩ := feed_head other
      rw [shape] at same
      have first := (List.cons.inj same).1
      cases qf <;> cases other <;> first
        | exact ⟨_, rfl⟩
        | exact absurd first (by simp [hashDiscriminator, QuoteForm.hashDiscriminator])
    rw [feed_wrap] at same
    obtain ⟨rfl, rests⟩ := ih inner' rest rest' (List.cons.inj same).2
    exact ⟨rfl, rests⟩

/-- An argument list can be told from the values that its hash is fed with. -/
theorem feedArgs_inj {xs ys : List Sexp} (same : feedArgs xs = feedArgs ys) : xs = ys := by
  obtain ⟨level, items⟩ := List.cons.inj same
  have ends : ∀ x ∈ xs, EndsItself Sexp.feed x := fun x _ => x.feed_endsItself
  exact (flatMap_inj ends (Fed.usize.inj level) (congrArg (· ++ []) items)).1

/-- A hasher that finishes what it was fed with, as the hash of argument lists. -/
abbrev hasherOf (finish : List Fed → UInt64) : ArgsHasher := ⟨fun args => finish (feedArgs args)⟩

/-- Two calls share a cache entry only if they are the same, or if the hasher finishes two different
inputs with one hash. -/
theorem argsCacheKey_eq (finish : List Fed → UInt64) {name name' : String} {args args' : List Sexp}
    (same : @Expander.argsCacheKey (hasherOf finish) name args =
      @Expander.argsCacheKey (hasherOf finish) name' args') :
    name = name' ∧ (args = args' ∨
      feedArgs args ≠ feedArgs args' ∧ finish (feedArgs args) = finish (feedArgs args')) := by
  -- Equal hashes are those of one input, or of two that collide.
  obtain ⟨names, hashes⟩ := CacheKey.mk.inj same
  refine ⟨names, ?_⟩
  by_cases fed : feedArgs args = feedArgs args'
  · exact .inl (feedArgs_inj fed)
  · exact .inr ⟨fed, hashes⟩

/-- The values that the hash of an argument list is fed with determine the list, where floats are
compared by their bits, and the values of one form are the front of those of no other form. -/
theorem feedArgs_injective_prefixFree :
    (∀ xs ys, feedArgs xs = feedArgs ys → xs = ys) ∧
      ∀ x y : Sexp, x.feed <+: y.feed → x = y := by
  -- The second part is stronger, but the first one is about lists.
  constructor
  · exact fun xs ys => feedArgs_inj
  · exact fun x y front => x.feed_endsItself.eq_of_prefix front

end Tatara.Lisp
