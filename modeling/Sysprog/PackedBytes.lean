import Mathlib.Data.Nat.Bitwise
import Sysprog.ByteMemory

namespace Sysprog.PackedBytes

open ByteMemory

/-!
# Bytes packed in a word

A little-endian word holds several bytes, and an operation on the word is an operation on
every byte as long as nothing is carried from one into the next.  The words here are those
that `decode` makes of the values of functions over one list of lanes.
-/

variable {Lane : Type} {lanes : List Lane} {first second : Lane → UInt8}

/-- The bits of a word of bytes are the bits of its bytes. -/
theorem testBit_cons (byte : UInt8) (rest bit : Nat) :
    (byte.toNat + 256 * rest).testBit bit =
      if bit < 8 then byte.toNat.testBit bit else rest.testBit (bit - 8) := by
  rw [Nat.add_comm]
  exact Nat.testBit_two_pow_mul_add rest (show byte.toNat < 2 ^ 8 from byte.toNat_lt) bit

/-- An operation on words that is one on bits, and the same one on bytes, acts byte by byte. -/
theorem decode_bitwise
    {word : Nat → Nat → Nat}
    {byte : UInt8 → UInt8 → UInt8}
    {bool : Bool → Bool → Bool}
    (none : bool false false = false)
    (wordBits : ∀ a b bit, (word a b).testBit bit = bool (a.testBit bit) (b.testBit bit))
    (byteBits :
      ∀ a b bit,
        (byte a b).toNat.testBit bit = bool (a.toNat.testBit bit) (b.toNat.testBit bit))
    (lanes : List Lane)
    (first second : Lane → UInt8) :
    word (decode (lanes.map first)) (decode (lanes.map second)) =
      decode (lanes.map fun lane => byte (first lane) (second lane)) := by
  induction lanes with
  | nil =>
      apply Nat.eq_of_testBit_eq
      intro bit
      rw [wordBits]
      simpa [decode] using none
  | cons lane rest inductionHypothesis =>
      apply Nat.eq_of_testBit_eq
      intro bit
      simp only [List.map_cons, decode, wordBits, testBit_cons]
      rw [← inductionHypothesis, wordBits, byteBits]
      split <;> rfl

/-- Bitwise conjunction acts byte by byte. -/
theorem decode_and (lanes : List Lane) (first second : Lane → UInt8) :
    decode (lanes.map first) &&& decode (lanes.map second) =
      decode (lanes.map fun lane => first lane &&& second lane) :=
  @decode_bitwise Lane _ _ and rfl Nat.testBit_and
    (fun a b bit => by rw [UInt8.toNat_and, Nat.testBit_and]) lanes first second

/-- Bitwise disjunction acts byte by byte. -/
theorem decode_or (lanes : List Lane) (first second : Lane → UInt8) :
    decode (lanes.map first) ||| decode (lanes.map second) =
      decode (lanes.map fun lane => first lane ||| second lane) :=
  @decode_bitwise Lane _ _ or rfl Nat.testBit_or
    (fun a b bit => by rw [UInt8.toNat_or, Nat.testBit_or]) lanes first second

/-- Exclusive disjunction acts byte by byte. -/
theorem decode_xor (lanes : List Lane) (first second : Lane → UInt8) :
    decode (lanes.map first) ^^^ decode (lanes.map second) =
      decode (lanes.map fun lane => first lane ^^^ second lane) :=
  @decode_bitwise Lane _ _ xor rfl Nat.testBit_xor
    (fun a b bit => by rw [UInt8.toNat_xor, Nat.testBit_xor]) lanes first second

/-- Addition acts byte by byte where no byte carries. -/
theorem decode_add
    (noCarry : ∀ lane ∈ lanes, (first lane).toNat + (second lane).toNat < 256) :
    decode (lanes.map first) + decode (lanes.map second) =
      decode (lanes.map fun lane => first lane + second lane) := by
  induction lanes with
  | nil => rfl
  | cons lane rest inductionHypothesis =>
      have own := noCarry lane List.mem_cons_self
      have others := inductionHypothesis fun other member =>
        noCarry other (List.mem_cons_of_mem _ member)
      simp only [List.map_cons, decode]
      rw [← others, UInt8.toNat_add, Nat.mod_eq_of_lt own]
      omega

/-- Two words of as many bytes are equal exactly if all their bytes are. -/
theorem decode_inj :
    decode (lanes.map first) = decode (lanes.map second) ↔
      ∀ lane ∈ lanes, first lane = second lane := by
  induction lanes with
  | nil => simp
  | cons lane rest inductionHypothesis =>
      have left := (first lane).toNat_lt
      have right := (second lane).toNat_lt
      simp only [List.map_cons, decode, List.forall_mem_cons, ← inductionHypothesis]
      rw [← UInt8.toNat_inj]
      omega

/-- The word of zero bytes is zero. -/
theorem decode_zero (lanes : List Lane) : decode (lanes.map fun _ => 0) = 0 := by
  induction lanes with
  | nil => rfl
  | cons lane rest inductionHypothesis =>
      rw [List.map_cons, decode, inductionHypothesis]
      rfl

/-- A word has no bit of a mask exactly if no byte has one of the mask's byte. -/
theorem decode_and_eq_zero :
    decode (lanes.map first) &&& decode (lanes.map second) = 0 ↔
      ∀ lane ∈ lanes, first lane &&& second lane = 0 := by
  rw [decode_and, ← decode_inj, decode_zero]

/-- A shift to the right acts byte by byte where no byte loses a bit to the one below. -/
theorem decode_shiftRight
    {amount : Nat}
    {shifted : Lane → UInt8}
    (exact : ∀ lane ∈ lanes, (first lane).toNat = 2 ^ amount * (shifted lane).toNat) :
    decode (lanes.map first) >>> amount = decode (lanes.map shifted) := by
  have scaled : decode (lanes.map first) = 2 ^ amount * decode (lanes.map shifted) := by
    induction lanes with
    | nil => rfl
    | cons lane rest inductionHypothesis =>
        have own := exact lane List.mem_cons_self
        have others := inductionHypothesis fun other member =>
          exact other (List.mem_cons_of_mem _ member)
        simp only [List.map_cons, decode]
        rw [own, others]
        ring
  rw [Nat.shiftRight_eq_div_pow, scaled, Nat.mul_div_cancel_left _ (Nat.two_pow_pos amount)]

/-- A shift by whole bytes drops them. -/
theorem decode_shiftRight_bytes (bytes : List UInt8) (count : Nat) :
    decode bytes >>> (8 * count) = decode (bytes.drop count) := by
  induction count generalizing bytes with
  | zero => rfl
  | succ count inductionHypothesis =>
      cases bytes with
      | nil => simp [decode]
      | cons byte rest =>
          have low := byte.toNat_lt
          have one : decode (byte :: rest) >>> 8 = decode rest := by
            rw [decode, Nat.shiftRight_eq_div_pow]
            omega
          rw [List.drop_succ_cons, ← inductionHypothesis, ← one, ← Nat.shiftRight_add,
            Nat.mul_succ, Nat.add_comm]

end Sysprog.PackedBytes
