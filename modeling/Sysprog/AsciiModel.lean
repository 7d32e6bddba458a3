import Sysprog.BlockScan
import Sysprog.ByteMemory
import Sysprog.MachineWord

namespace Sysprog.Ascii

open BlockScan ByteMemory FuelLoop MachineWord

/-!
# The character tests of `bitwise-1/ascii.c`

The memory starts at `str`; the string is its first `size` bytes, and what lies behind it is
part of the memory too.  A loop has a budget of rounds.  `none` stands for a budget that
runs out and for an access outside of the string.
-/

/-! ## Eight bytes at a time, then one by one -/

/-- One round of the loop over what the eight-byte loop leaves. -/
def byteRound (indices size : Nat) (memory : Memory) (test : UInt8 → Bool) (i : Nat) :
    Round Nat Found :=
  if i < size then
    if test (memory i) then .again ((i + 1) % indices) else .leave .rejected
  else
    .leave (.passed i)

/-- The two loops, with an index that has `indices` values. -/
def scan
    (indices : Nat)
    (word : Nat → Bool)
    (byte : UInt8 → Bool)
    (fuel : Nat)
    (memory : Memory)
    (size : Nat) : Option Bool :=
  if size = 0 then
    some false
  else
    match loop (blockRound indices 8 size fun i => word (decode (read memory i 8))) fuel 0 with
    | some (.passed i) =>
        match loop (byteRound indices size memory byte) fuel i with
        | some (.passed _) => some true
        | some .rejected => some false
        | _ => none
    | some .rejected => some false
    | _ => none

/-- `is_ascii`, whose index is an `unsigned int`. -/
def isAscii : Nat → Memory → Nat → Option Bool :=
  scan (2 ^ 32)
    (fun payload => decide (payload &&& 0x8080808080808080 = 0))
    (fun c => decide (c &&& 0x80 = 0))

/-- The macro `PACKED_BYTE`. -/
def packedByte (b : Nat) : Nat :=
  (b &&& 0xff) * 0x0101010101010101 % words

/-- The test of `is_alphabet` on eight bytes. -/
def alphabetWord (chunk : Nat) : Bool :=
  if chunk &&& packedByte 128 = 0 then
    let chunk := chunk ||| packedByte 0x20
    let a := add chunk (packedByte (128 - 97))
    let z := add chunk (packedByte (128 - 122 - 1))
    packedByte 128 = (a ^^^ z) &&& packedByte 128
  else
    false

/-- The test of `is_alphabet` on one byte. -/
def alphabetByte (c : UInt8) : Bool :=
  if c &&& 128 = 0 then
    let c := c ||| 0x20
    let a := c + (128 - 97)
    let z := c + (128 - 122 - 1)
    128 = (a ^^^ z) &&& 128
  else
    false

/-- `is_alphabet`, whose index is a `size_t`. -/
def isAlphabet : Nat → Memory → Nat → Option Bool :=
  scan words alphabetWord alphabetByte

/-! ## Sixteen bytes at a time -/

/-- The byte lies in one of the two ranges of `range`. -/
def inRange (byte : UInt8) : Bool :=
  (97 ≤ byte ∧ byte ≤ 122) ∨ (65 ≤ byte ∧ byte ≤ 90)

/--
`_mm_cmpistri` with the ranges and with negative polarity: the index of the first of the
bytes that is NUL, follows a NUL or lies outside both ranges, or the number of bytes.
-/
def cmpistri (m : List UInt8) : Nat :=
  (List.range m.length).findIdx fun index =>
    (m.take (index + 1)).any (· = 0) || !inRange (m.getD index 0)

/-- `is_alphabet_sse`, which reads sixteen bytes also where fewer are left. -/
def isAlphabetSse (fuel : Nat) (memory : Memory) (size : Nat) : Option Bool :=
  match loop (blockRound words 16 size fun i => cmpistri (read memory i 16) = 16) fuel 0 with
  | some (.passed i) =>
      let size := sub size i
      if size ≠ 0 then
        some (decide (size = cmpistri (read memory i 16)))
      else
        some true
  | some .rejected => some false
  | _ => none

/-- The function returns this value, given rounds enough. -/
def Returns (function : Nat → Option Bool) (value : Bool) : Prop :=
  ∃ enough, ∀ fuel, enough < fuel → function fuel = some value

end Sysprog.Ascii
