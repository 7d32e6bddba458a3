import Mathlib.Data.Nat.Digits.Lemmas
import Mathlib.Tactic.IntervalCases
import Sysprog.AsciiLetters
import Sysprog.CountedLoop

namespace Sysprog.HexString

open Ascii ByteMemory CountedLoop MachineWord PackedBytes

/-!
# Hexadecimal digits to a number, `bitwise-1/hex.c`

The digits are packed into one word, the first of them highest, converted all at once, and
gathered four bits at a time.
-/

/-- `hexchar2val`. -/
def hexchar2val (c : UInt8) : UInt8 :=
  let letter := c &&& 0x40
  let shift := (letter >>> 3) ||| (letter >>> 6)
  (c + shift) &&& 0xf

/-- A `char`, which is signed, as a `uint64_t`. -/
def widen (c : UInt8) : Nat :=
  if c < 128 then c.toNat else words - 256 + c.toNat

/-- The `int` `0xF << count` as a `uint64_t`: the bits above 31 are lost, bit 31 is the sign. -/
def nibbleMask (count : Nat) : Nat :=
  let value := 0xF <<< count % 2 ^ 32
  if value < 2 ^ 31 then value else words - 2 ^ 32 + value

/-- `hexstr2val`; `none` is the assertion that fails. -/
def hexstr2val (str : Memory) (size : Nat) : Option Nat :=
  if size ≠ 0 ∧ size ≤ 8 then
    let hex := forLoop size 0 fun i hex =>
      hex ||| (widen (str i) <<< (sub (sub size i) 1 <<< 3)) % words
    let letter := hex &&& packedByte 0x40
    let shift := (letter >>> 3) ||| (letter >>> 6)
    let raw := add hex shift &&& packedByte 0x0F
    some (forLoop size 0 fun i hex => hex ||| ((raw >>> (i <<< 2)) &&& nibbleMask (i <<< 2)))
  else
    none

/-! ## Digits -/

/-- A digit of either case. -/
def IsHexDigit (c : UInt8) : Prop :=
  (48 ≤ c ∧ c ≤ 57) ∨ (65 ≤ c ∧ c ≤ 70) ∨ (97 ≤ c ∧ c ≤ 102)

instance (c : UInt8) : Decidable (IsHexDigit c) :=
  inferInstanceAs (Decidable (_ ∨ _))

/-- What a digit of either case denotes. -/
def digitValue (c : UInt8) : Nat :=
  if c ≤ 57 then c.toNat - 48 else if c ≤ 70 then c.toNat - 55 else c.toNat - 87

/-- One to eight digits. -/
structure HexText where
  chars : List UInt8
  nonempty : chars ≠ []
  short : chars.length ≤ 8
  digits : ∀ c ∈ chars, IsHexDigit c

/-- The number that a text denotes in base 16, its last digit being the lowest. -/
def HexText.number (text : HexText) : Nat :=
  Nat.ofDigits 16 (text.chars.reverse.map digitValue)

theorem hexchar2val_digit :
    ∀ c : UInt8, IsHexDigit c → (hexchar2val c).toNat = digitValue c :=
  @forall_byte (fun c => IsHexDigit c → (hexchar2val c).toNat = digitValue c)
    (by decide +kernel)

/-- A digit has the sign bit clear. -/
theorem digit_lt : ∀ c : UInt8, IsHexDigit c → c < 103 :=
  @forall_byte (fun c => IsHexDigit c → c < 103) (by decide +kernel)

/-! ## Packing -/

variable {str : Memory} {size : Nat}

/-- The byte of the packed word in a lane: the digits, the last lowest, and zeros above. -/
def packed (str : Memory) (size lane : Nat) : UInt8 :=
  if lane < size then str (size - 1 - lane) else 0

/-- A byte moved up by whole bytes. -/
theorem byte_shiftLeft {lane : Nat} (c : UInt8) (inside : lane < 8) :
    c.toNat <<< (8 * lane) = eight fun other => if other = lane then c else 0 := by
  have lanes : List.range 8 = [0, 1, 2, 3, 4, 5, 6, 7] := by
    decide
  interval_cases lane <;>
    simp [eight, lanes, decode, Nat.shiftLeft_eq] <;> omega

theorem eight_lt (bytes : Nat → UInt8) : eight bytes < words := by
  have bounded := decode_lt ((List.range 8).map bytes)
  rwa [List.length_map, List.length_range] at bounded

/-- The loop that packs fills the lanes from the top. -/
theorem packing_rounds
    (short : size ≤ 8)
    (plain : ∀ i, i < size → str i < 128)
    {rounds : Nat}
    (within : rounds ≤ size) :
    (forLoop rounds 0 fun i hex =>
        hex ||| (widen (str i) <<< (sub (sub size i) 1 <<< 3)) % words) =
      eight fun lane => if size - rounds ≤ lane then packed str size lane else 0 := by
  induction rounds with
  | zero =>
      have empty :
          (fun lane => if size - 0 ≤ lane then packed str size lane else 0) =
            fun _ => (0 : UInt8) := by
        funext lane
        split
        · rw [packed, if_neg (by omega)]
        · rfl
      rw [empty, eight, decode_zero]
      rfl
  | succ rounds inductionHypothesis =>
      have fits : size < words := Nat.lt_of_le_of_lt short (by decide)
      have place : sub (sub size rounds) 1 = size - rounds - 1 := by
        rw [sub_of_le fits (by omega), sub_of_le (by omega) (by omega)]
      have byte : widen (str rounds) = (str rounds).toNat :=
        if_pos (plain rounds (by omega))
      have lane : (size - rounds - 1) <<< 3 = 8 * (size - rounds - 1) := by
        rw [Nat.shiftLeft_eq, Nat.mul_comm]
      rw [forLoop_succ, inductionHypothesis (by omega), place, byte, lane,
        byte_shiftLeft _ (by omega), Nat.mod_eq_of_lt (eight_lt _)]
      refine (decode_or _ _ _).trans (congrArg eight ?_)
      funext lane
      by_cases here : lane = size - rounds - 1
      · have digit : size - 1 - lane = rounds := by omega
        rw [if_neg (by omega), if_pos here, if_pos (by omega), packed, if_pos (by omega), digit,
          UInt8.zero_or]
      · rw [if_neg here, UInt8.or_zero]
        by_cases filled : size - rounds ≤ lane
        · rw [if_pos filled, if_pos (by omega)]
        · rw [if_neg filled, if_neg (by omega)]

/-- The word that is packed. -/
theorem packing_eq (short : size ≤ 8) (plain : ∀ i, i < size → str i < 128) :
    (forLoop size 0 fun i hex =>
        hex ||| (widen (str i) <<< (sub (sub size i) 1 <<< 3)) % words) =
      eight (packed str size) := by
  rw [packing_rounds short plain (Nat.le_refl size)]
  simp

/-! ## Converting -/

/-- The bits that tell a letter lose nothing in either shift. -/
theorem letter_shifts :
    ∀ c : UInt8,
      (c &&& 0x40).toNat = 2 ^ 3 * ((c &&& 0x40) >>> 3).toNat ∧
        (c &&& 0x40).toNat = 2 ^ 6 * ((c &&& 0x40) >>> 6).toNat :=
  @forall_byte
    (fun c =>
      (c &&& 0x40).toNat = 2 ^ 3 * ((c &&& 0x40) >>> 3).toNat ∧
        (c &&& 0x40).toNat = 2 ^ 6 * ((c &&& 0x40) >>> 6).toNat)
    (by decide +kernel)

/-- What is added to a byte below 128 does not carry. -/
theorem letter_noCarry :
    ∀ c : UInt8,
      c < 128 → c.toNat + (((c &&& 0x40) >>> 3) ||| ((c &&& 0x40) >>> 6)).toNat < 256 :=
  @forall_byte
    (fun c =>
      c < 128 → c.toNat + (((c &&& 0x40) >>> 3) ||| ((c &&& 0x40) >>> 6)).toNat < 256)
    (by decide +kernel)

/-- The conversion of the word is that of every byte. -/
theorem converted_eq {bytes : Nat → UInt8} (plain : ∀ lane, lane < 8 → bytes lane < 128) :
    add (eight bytes)
          (((eight bytes &&& packedByte 0x40) >>> 3) |||
            ((eight bytes &&& packedByte 0x40) >>> 6)) &&&
        packedByte 0x0F =
      eight fun lane => hexchar2val (bytes lane) := by
  have letter : eight bytes &&& packedByte 0x40 = eight fun lane => bytes lane &&& 0x40 := by
    rw [packedByte_eq]
    exact decode_and _ _ _
  have shiftThree :
      (eight fun lane => bytes lane &&& 0x40) >>> 3 =
        eight fun lane => (bytes lane &&& 0x40) >>> 3 :=
    decode_shiftRight fun lane _ => (letter_shifts (bytes lane)).1
  have shiftSix :
      (eight fun lane => bytes lane &&& 0x40) >>> 6 =
        eight fun lane => (bytes lane &&& 0x40) >>> 6 :=
    decode_shiftRight fun lane _ => (letter_shifts (bytes lane)).2
  have sum :=
    @decode_add Nat (List.range 8) bytes
      (fun lane => ((bytes lane &&& 0x40) >>> 3) ||| ((bytes lane &&& 0x40) >>> 6))
      fun lane member => letter_noCarry _ (plain lane (List.mem_range.mp member))
  rw [letter, shiftThree, shiftSix, eight, eight, eight, decode_or, add_of_lt, sum,
    packedByte_eq, eight, decode_and]
  · rfl
  · rw [sum]
    exact eight_lt _

/-! ## Gathering -/

/-- A mask that is moved up keeps what it keeps of the number moved down. -/
theorem and_shiftLeft (x mask amount : Nat) :
    x &&& (mask <<< amount) = ((x >>> amount) &&& mask) <<< amount := by
  apply Nat.eq_of_testBit_eq
  intro bit
  simp only [Nat.testBit_and, Nat.testBit_shiftLeft, Nat.testBit_shiftRight]
  by_cases above : amount ≤ bit
  · simp [above]
  · simp [above]

/--
The masks keep four bits.  The last one is negative as an `int` and keeps everything from
bit 28 on, where only four bits are left.
-/
theorem and_nibbleMask {x lane : Nat} (inside : lane < 8) (top : lane = 7 → x >>> 28 < 16) :
    x &&& nibbleMask (4 * lane) = ((x >>> (4 * lane)) % 16) <<< (4 * lane) := by
  by_cases last : lane = 7
  · subst last
    have mask : nibbleMask (4 * 7) = (2 ^ 36 - 1) <<< 28 := by decide
    have small := top rfl
    rw [mask, and_shiftLeft, Nat.and_two_pow_sub_one_eq_mod,
      Nat.mod_eq_of_lt (Nat.lt_trans small (by decide)), Nat.mod_eq_of_lt small]
  · have mask : nibbleMask (4 * lane) = (2 ^ 4 - 1) <<< (4 * lane) := by
      have below : lane < 7 := by omega
      interval_cases lane <;> decide
    rw [mask, and_shiftLeft, Nat.and_two_pow_sub_one_eq_mod]

variable {digit : Nat → UInt8}

/-- Each round takes its digit from the middle of the lanes to its place in the number. -/
theorem gather_round (small : ∀ lane, (digit lane).toNat < 16) {lane : Nat}
    (inside : lane < 8) :
    (eight digit >>> (4 * lane)) &&& nibbleMask (4 * lane) =
      (digit lane).toNat <<< (4 * lane) := by
  have twice : eight digit >>> (4 * lane) >>> (4 * lane) = eight digit >>> (8 * lane) := by
    rw [← Nat.shiftRight_add]
    congr 1
    omega
  have lanes :
      ((List.range 8).map digit).drop lane =
        digit lane :: ((List.range 8).map digit).drop (lane + 1) := by
    rw [List.drop_eq_getElem_cons (by simpa using inside)]
    simp
  have value := small lane
  have found :
      eight digit >>> (8 * lane) =
        (digit lane).toNat + 256 * decode (((List.range 8).map digit).drop (lane + 1)) := by
    rw [eight, decode_shiftRight_bytes, lanes, decode]
  rw [and_nibbleMask inside, twice, found]
  · congr 1
    omega
  · intro last
    subst last
    rw [show eight digit >>> (4 * 7) >>> 28 = eight digit >>> (8 * 7) from twice, found,
      List.drop_eq_nil_of_le (by simp)]
    simpa [decode] using value

/-- The loop that gathers makes the number of the digits, the first lane being the lowest. -/
theorem gather_rounds (small : ∀ lane, (digit lane).toNat < 16) {rounds : Nat}
    (within : rounds ≤ 8) :
    (forLoop rounds 0 fun i hex =>
        hex ||| ((eight digit >>> (i <<< 2)) &&& nibbleMask (i <<< 2))) =
      Nat.ofDigits 16 ((List.range rounds).map fun lane => (digit lane).toNat) := by
  induction rounds with
  | zero => rfl
  | succ rounds inductionHypothesis =>
      have amount : rounds <<< 2 = 4 * rounds := by
        rw [Nat.shiftLeft_eq, Nat.mul_comm]
      have below :
          Nat.ofDigits 16 ((List.range rounds).map fun lane => (digit lane).toNat) <
            2 ^ (4 * rounds) := by
        have bounded :=
          @Nat.ofDigits_lt_base_pow_length 16
            ((List.range rounds).map fun lane => (digit lane).toNat) (by decide)
            (by simpa using fun lane _ => small lane)
        rwa [List.length_map, List.length_range, show 16 = 2 ^ 4 from rfl, ← Nat.pow_mul]
          at bounded
      rw [forLoop_succ, inductionHypothesis (by omega), amount, gather_round small (by omega),
        Nat.lor_comm, ← Nat.shiftLeft_add_eq_or_of_lt below, List.range_succ, List.map_append,
        Nat.ofDigits_append, List.length_map, List.length_range, Nat.shiftLeft_eq,
        show 16 = 2 ^ 4 from rfl, ← Nat.pow_mul]
      simp only [List.map_cons, List.map_nil, Nat.ofDigits_singleton]
      ring

/-! ## The number -/

/-- What is packed from a text are its digits. -/
theorem packed_digit
    {text : HexText}
    (placed : read str 0 text.chars.length = text.chars)
    {lane : Nat}
    (inside : lane < text.chars.length) :
    ∃ index : Fin text.chars.length,
      index.val = text.chars.length - 1 - lane ∧
        packed str text.chars.length lane = text.chars[index] := by
  have position : text.chars.length - 1 - lane < text.chars.length := by omega
  refine ⟨⟨_, position⟩, rfl, ?_⟩
  have cell := @getElem?_read str 0 _ _ position
  rw [placed, List.getElem?_eq_getElem position, Nat.zero_add] at cell
  rw [packed, if_pos inside]
  exact (Option.some.inj cell).symm

/-- `hexstr2val` returns the number that the text denotes. -/
theorem hexstr2val_eq {text : HexText}
    (placed : read str 0 text.chars.length = text.chars) :
    hexstr2val str text.chars.length = some text.number := by
  have short := text.short
  have digits : ∀ i, i < text.chars.length → IsHexDigit (str i) := by
    intro i inside
    have cell := @getElem?_read str 0 _ _ inside
    rw [placed, List.getElem?_eq_getElem inside, Nat.zero_add] at cell
    rw [← Option.some.inj cell]
    exact text.digits _ (List.getElem_mem inside)
  have plain : ∀ i, i < text.chars.length → str i < 128 := fun i inside =>
    UInt8.lt_trans (digit_lt _ (digits i inside)) (by decide)
  have lanes : ∀ lane, lane < 8 → packed str text.chars.length lane < 128 := by
    intro lane _
    rw [packed]
    split
    · exact plain _ (by omega)
    · decide
  have small : ∀ lane, (hexchar2val (packed str text.chars.length lane)).toNat < 16 := by
    intro lane
    exact @forall_byte (fun c => (hexchar2val c).toNat < 16) (by decide +kernel) _
  have positive : text.chars.length ≠ 0 := fun empty =>
    text.nonempty (List.length_eq_zero_iff.mp empty)
  have values :
      ((List.range text.chars.length).map fun lane =>
          (hexchar2val (packed str text.chars.length lane)).toNat) =
        text.chars.reverse.map digitValue := by
    apply List.ext_getElem
    · simp
    · intro lane inside _
      have within : lane < text.chars.length := by simpa using inside
      obtain ⟨index, position, byte⟩ := packed_digit placed within
      simp only [List.getElem_map, List.getElem_range, List.getElem_reverse, byte, ← position]
      exact hexchar2val_digit _ (text.digits _ (List.getElem_mem _))
  rw [hexstr2val, if_pos ⟨positive, short⟩, HexText.number, ← values,
    ← gather_rounds small short, packing_eq short plain]
  simp only [converted_eq lanes]

/-! ## Printing -/

/-- A digit as `%X` prints it, or as `%x` does with the small letters. -/
def digitChar (letters : UInt8) (digit : Nat) : UInt8 :=
  if digit < 10 then 48 + UInt8.ofNat digit else letters + UInt8.ofNat (digit - 10)

/-- A number of 32 bits, printed with `%0*X` or `%0*x` at a width of at most eight. -/
structure Printing where
  number : Nat
  small : number < 2 ^ 32
  width : Nat
  fits : width ≤ 8
  letters : UInt8
  cases : letters = 65 ∨ letters = 97

/-- The characters printed: at least one digit, and zeros up to the width. -/
def Printing.chars (printing : Printing) : List UInt8 :=
  ((Nat.digits 16 printing.number).reverse.map (digitChar printing.letters)).leftpad
    (max 1 printing.width) 48

/-- What is printed for a digit is a digit that denotes it. -/
theorem digitChar_value {letters : UInt8} (cases : letters = 65 ∨ letters = 97) {digit : Nat}
    (small : digit < 16) :
    IsHexDigit (digitChar letters digit) ∧ digitValue (digitChar letters digit) = digit := by
  rcases cases with rfl | rfl <;> interval_cases digit <;> decide

/-- The text that is printed. -/
def Printing.text (printing : Printing) : HexText where
  chars := printing.chars
  nonempty := by
    intro empty
    have length := congrArg List.length empty
    simp only [Printing.chars, List.leftpad, List.length_append, List.length_replicate,
      List.length_nil] at length
    omega
  short := by
    have digits : (Nat.digits 16 printing.number).length ≤ 8 :=
      (Nat.digits_length_le_iff (by decide) _).mpr printing.small
    have width := printing.fits
    simp only [Printing.chars, List.leftpad, List.length_append, List.length_replicate,
      List.length_map, List.length_reverse]
    omega
  digits := by
    intro c member
    simp only [Printing.chars, List.leftpad, List.mem_append, List.mem_replicate, List.mem_map,
      List.mem_reverse] at member
    rcases member with ⟨_, rfl⟩ | ⟨digit, printed, rfl⟩
    · decide
    · exact (digitChar_value printing.cases (Nat.digits_lt_base (by decide) printed)).1

/-- What is printed denotes the number. -/
theorem Printing.text_number (printing : Printing) :
    printing.text.number = printing.number := by
  have back :
      (Nat.digits 16 printing.number).map (digitValue ∘ digitChar printing.letters) =
        Nat.digits 16 printing.number := by
    conv_rhs => rw [← List.map_id (Nat.digits 16 printing.number)]
    apply List.map_congr_left
    intro digit printed
    exact (digitChar_value printing.cases (Nat.digits_lt_base (by decide) printed)).2
  have zero : digitValue 48 = 0 := by decide
  simp only [HexText.number, Printing.text, Printing.chars, List.leftpad, List.reverse_append,
    List.reverse_replicate, List.map_append, List.map_replicate, ← List.map_reverse,
    List.reverse_reverse, List.map_map, zero, Nat.ofDigits_append_replicate_zero, back,
    Nat.ofDigits_digits]

/--
`hexstr2val` returns the number that a text of one to eight digits denotes; the text of a
number that is printed, in either case and with any padding, gives the number back.
-/
theorem hexstr2val_correct :
    (∀ (text : HexText) (str : Memory),
        read str 0 text.chars.length = text.chars →
        hexstr2val str text.chars.length = some text.number) ∧
      ∀ (printing : Printing) (str : Memory),
        read str 0 printing.chars.length = printing.chars →
        hexstr2val str printing.chars.length = some printing.number := by
  refine ⟨fun text str placed => hexstr2val_eq placed, ?_⟩
  intro printing str placed
  rw [← printing.text_number]
  exact @hexstr2val_eq str printing.text placed

theorem hexstr2val_correct_mixed :
    hexstr2val (write (fun _ => 0) 0 [55, 70, 97]) 3 = some 0x7FA ∧
      hexstr2val (write (fun _ => 0) 0 [48, 48, 48, 48, 48, 48, 48, 70]) 8 = some 0xF :=
  ⟨hexstr2val_correct.1 ⟨[55, 70, 97], by decide, by decide, by simp [IsHexDigit]⟩ _
      (by decide),
    hexstr2val_correct.2 ⟨0xF, by decide, 8, by decide, 65, by decide⟩ _ (by decide)⟩

end Sysprog.HexString
