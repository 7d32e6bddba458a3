import Sysprog.AsciiScan

namespace Sysprog.Ascii

open BlockScan ByteMemory FuelLoop MachineWord PackedBytes

/-!
# The letter tests

`is_alphabet` folds the case and adds two constants, eight bytes at once.  No byte of an
ASCII word carries, so this is the test of every byte, and the test of a byte is that it is
a letter.  `is_alphabet_sse` reads sixteen bytes also at the end, where the bytes behind the
string take part in the answer.
-/

/-- What the letter tests ask of every byte. -/
def IsLetter (c : UInt8) : Prop :=
  (65 ≤ c ∧ c ≤ 90) ∨ (97 ≤ c ∧ c ≤ 122)

instance (c : UInt8) : Decidable (IsLetter c) :=
  inferInstanceAs (Decidable (_ ∨ _))

/-- A string in memory: no object is larger than a `ptrdiff_t` can say. -/
structure Text where
  memory : Memory
  size : Nat
  addressable : size < 2 ^ 63

/-! ## Eight bytes at once -/

/-- The test of one byte asks for a letter. -/
theorem alphabetByte_iff : ∀ c : UInt8, alphabetByte c = true ↔ IsLetter c :=
  @forall_byte (fun c => alphabetByte c = true ↔ IsLetter c) (by decide +kernel)

/-- An ASCII byte with its case folded is still below 128. -/
theorem folded_lt : ∀ c : UInt8, c &&& 128 = 0 → (c ||| 0x20).toNat < 128 :=
  @forall_byte (fun c => c &&& 128 = 0 → (c ||| 0x20).toNat < 128) (by decide +kernel)

/-- The word of eight bytes. -/
abbrev eight (bytes : Nat → UInt8) : Nat :=
  decode ((List.range 8).map bytes)

/-- The macro puts its byte into every lane. -/
theorem packedByte_eq (b : Nat) : packedByte b = eight fun _ => UInt8.ofNat b := by
  have low : b &&& 0xff = b % 2 ^ 8 := Nat.and_two_pow_sub_one_eq_mod b 8
  have lanes : List.range 8 = [0, 1, 2, 3, 4, 5, 6, 7] := by
    decide
  simp only [packedByte, eight, low, lanes, List.map_cons, List.map_nil, decode,
    UInt8.toNat_ofNat', words]
  omega

variable {bytes : Nat → UInt8}

/-- Adding a small constant to every byte of a folded ASCII word carries nowhere. -/
theorem add_packedByte
    {constant : Nat}
    (small : constant ≤ 128)
    (ascii : ∀ lane, lane < 8 → bytes lane &&& 128 = 0) :
    add (eight bytes ||| packedByte 0x20) (packedByte constant) =
      eight fun lane => (bytes lane ||| 0x20) + UInt8.ofNat constant := by
  have folded : eight bytes ||| packedByte 0x20 = eight fun lane => bytes lane ||| 0x20 := by
    rw [packedByte_eq]
    exact decode_or _ _ _
  have plain :
      (eight fun lane => bytes lane ||| 0x20) + packedByte constant =
        eight fun lane => (bytes lane ||| 0x20) + UInt8.ofNat constant := by
    rw [packedByte_eq]
    apply decode_add
    intro lane inside
    have below := folded_lt (bytes lane) (ascii lane (List.mem_range.mp inside))
    rw [UInt8.toNat_ofNat']
    omega
  have fits :
      (eight fun lane => bytes lane ||| 0x20) + packedByte constant < words := by
    rw [plain]
    have bounded := decode_lt ((List.range 8).map fun lane =>
      (bytes lane ||| 0x20) + UInt8.ofNat constant)
    rwa [List.length_map, List.length_range] at bounded
  rw [folded, add_of_lt fits, plain]

/-- The test for ASCII on a word is the one on the bytes. -/
theorem ascii_eight :
    eight bytes &&& packedByte 128 = 0 ↔ ∀ lane, lane < 8 → bytes lane &&& 128 = 0 := by
  rw [packedByte_eq, decode_and_eq_zero]
  simp only [List.mem_range]
  rfl

/-- The test of `is_alphabet` on a word is its test on the bytes. -/
theorem alphabetWord_iff (bytes : Nat → UInt8) :
    alphabetWord (eight bytes) = true ↔
      ∀ lane, lane < 8 → alphabetByte (bytes lane) = true := by
  by_cases ascii : ∀ lane, lane < 8 → bytes lane &&& 128 = 0
  · rw [alphabetWord, if_pos (ascii_eight.mpr ascii)]
    simp only [add_packedByte (show 128 - 97 ≤ 128 by decide) ascii,
      add_packedByte (show 128 - 122 - 1 ≤ 128 by decide) ascii]
    rw [packedByte_eq, eight, eight, decode_xor, decode_and, decide_eq_true_eq, decode_inj]
    simp only [List.mem_range]
    refine forall₂_congr fun lane inside => ?_
    rw [alphabetByte, if_pos (ascii lane inside), decide_eq_true_eq]
    rfl
  · rw [alphabetWord, if_neg (mt ascii_eight.mp ascii)]
    simp only [Bool.false_eq_true, false_iff]
    intro letters
    refine ascii fun lane inside => ?_
    by_contra high
    have letter := letters lane inside
    rw [alphabetByte, if_neg high] at letter
    simp at letter

/-- The two loops of `is_alphabet` make the same test. -/
theorem alphabet_bytewise : Bytewise alphabetWord alphabetByte :=
  fun memory i => alphabetWord_iff fun lane => memory (i + lane)

/-- What `is_alphabet` returns for a text that is not empty. -/
theorem alphabet_returns (text : Text) (positive : 0 < text.size) :
    Returns (fun fuel => isAlphabet fuel text.memory text.size)
      (decide (∀ i, i < text.size → IsLetter (text.memory i))) := by
  have small := text.addressable
  have scanned :=
    @scan_narrow words text.size text.memory _ _ alphabet_bytewise positive
      (by rw [words]; omega)
  simpa only [isAlphabet, alphabetByte_iff] using scanned

/--
`is_alphabet` says whether the text is all letters.  The word test is the byte test at every
offset, and where it adds, no byte carries into the next.
-/
theorem isAlphabet_letters (text : Text) (positive : 0 < text.size) :
    Returns (fun fuel => isAlphabet fuel text.memory text.size)
        (decide (∀ i, i < text.size → IsLetter (text.memory i))) ∧
      (∀ i,
        alphabetWord (decode (ByteMemory.read text.memory i 8)) = true ↔
          ∀ lane, lane < 8 → alphabetByte (text.memory (i + lane)) = true) ∧
      ∀ i constant,
        constant ∈ [128 - 97, 128 - 122 - 1] →
        decode (ByteMemory.read text.memory i 8) &&& packedByte 128 = 0 →
        add (decode (ByteMemory.read text.memory i 8) ||| packedByte 0x20)
            (packedByte constant) =
          decode ((List.range 8).map fun lane =>
            (text.memory (i + lane) ||| 0x20) + UInt8.ofNat constant) := by
  refine ⟨alphabet_returns text positive, alphabet_bytewise text.memory, ?_⟩
  intro i constant member ascii
  refine @add_packedByte (fun lane => text.memory (i + lane)) constant ?_ (ascii_eight.mp ascii)
  simp only [List.mem_cons, List.not_mem_nil, or_false] at member
  omega

/-- A text of eleven bytes: a word of large and small letters, two letters and a full stop. -/
def elevenBytes : Text where
  memory := fun i => if i < 10 then if i % 2 = 0 then 90 else 97 else 46
  size := 11
  addressable := by decide

theorem isAlphabet_letters_eleven :
    Returns (fun fuel => isAlphabet fuel elevenBytes.memory elevenBytes.size) false ∧
      alphabetWord (decode (ByteMemory.read elevenBytes.memory 0 8)) = true ∧
      alphabetWord (decode (ByteMemory.read elevenBytes.memory 3 8)) = false := by
  obtain ⟨returns, bytewise, _⟩ := isAlphabet_letters elevenBytes (by decide)
  refine ⟨returns, (bytewise 0).mpr (by decide), ?_⟩
  rw [← Bool.not_eq_true, bytewise 3]
  decide

/-! ## Sixteen bytes at once -/

/-- The two ranges are the letters. -/
theorem inRange_iff (c : UInt8) : inRange c = true ↔ IsLetter c := by
  rw [inRange, decide_eq_true_eq, IsLetter, or_comm]

/-- No letter is NUL. -/
theorem IsLetter.ne_zero {c : UInt8} (letter : IsLetter c) : c ≠ 0 := by
  rintro rfl
  revert letter
  decide

/-- The comparison stops at no byte of some first ones exactly if they are letters. -/
theorem compare_passes {memory : Memory} {i count : Nat} (inside : count ≤ 16) :
    (∀ index, index < count →
        (((ByteMemory.read memory i 16).take (index + 1)).any (· = 0) ||
          !inRange ((ByteMemory.read memory i 16).getD index 0)) = false) ↔
      ∀ lane, lane < count → IsLetter (memory (i + lane)) := by
  have byteAt : ∀ index, index < 16 →
      (ByteMemory.read memory i 16).getD index 0 = memory (i + index) := by
    intro index below
    rw [List.getD_eq_getElem?_getD, getElem?_read below, Option.getD_some]
  constructor
  · intro passes lane below
    have here := passes lane below
    rw [byteAt lane (by omega), Bool.or_eq_false_iff, Bool.not_eq_false'] at here
    exact (inRange_iff _).mp here.2
  · intro letters index below
    rw [byteAt index (by omega), (inRange_iff _).mpr (letters index below), Bool.not_true,
      Bool.or_false, List.any_eq_false]
    intro byte member
    obtain ⟨lane, lower, rfl⟩ := List.mem_take_iff_getElem.mp member
    rw [getElem_read, decide_eq_true_eq]
    exact (letters lane (by omega)).ne_zero

/-- The index is the number of letters in front of the first other byte. -/
theorem cmpistri_eq_iff {memory : Memory} {i count : Nat} (inside : count ≤ 16) :
    cmpistri (ByteMemory.read memory i 16) = count ↔
      (∀ lane, lane < count → IsLetter (memory (i + lane))) ∧
        (count < 16 → ¬ IsLetter (memory (i + count))) := by
  rw [cmpistri, length_read]
  rcases Nat.lt_or_eq_of_le inside with below | rfl
  · rw [List.findIdx_eq (by simpa using below), and_comm]
    simp only [List.getElem_range, below, true_implies]
    rw [compare_passes inside]
    refine and_congr_right fun letters => ?_
    have onward := @compare_passes memory i (count + 1) below
    constructor
    · intro stops letter
      have passes := onward.mpr (fun lane lower => by
        rcases Nat.lt_or_eq_of_le (Nat.le_of_lt_succ lower) with less | rfl
        · exact letters lane less
        · exact letter) count (Nat.lt_succ_self count)
      rw [stops] at passes
      simp at passes
    · intro other
      by_contra goesOn
      refine other (onward.mp (fun index lower => ?_) count (Nat.lt_succ_self count))
      rcases Nat.lt_or_eq_of_le (Nat.le_of_lt_succ lower) with less | rfl
      · exact (compare_passes inside).mpr letters index less
      · exact Bool.eq_false_iff.mpr goesOn
  · have whole := @List.findIdx_eq_length _
      (fun index =>
        ((ByteMemory.read memory i 16).take (index + 1)).any (· = 0) ||
          !inRange ((ByteMemory.read memory i 16).getD index 0)) (List.range 16)
    rw [List.length_range] at whole
    rw [whole, ← compare_passes inside]
    simp only [List.mem_range, Nat.lt_irrefl, false_implies, and_true]

/-- Whether `is_alphabet_sse` finds letters only, in the text and right behind it. -/
theorem isAlphabetSse_returns (text : Text) :
    Returns (fun fuel => isAlphabetSse fuel text.memory text.size)
      (decide ((∀ i, i < text.size → IsLetter (text.memory i)) ∧
        (text.size % 16 = 0 ∨ ¬ IsLetter (text.memory text.size)))) := by
  have small := text.addressable
  refine ⟨text.size, fun fuel enough => ?_⟩
  obtain ⟨found, whole, blocks⟩ :=
    @block_scans words 16 text.size fuel
      (fun i => cmpistri (ByteMemory.read text.memory i 16) = 16) (by decide)
      (by rw [words]; omega) enough
  obtain ⟨rfl, block, -, inside, fails⟩ | ⟨rfl, passes⟩ := blocks
  · rw [decide_eq_false_iff_not, cmpistri_eq_iff (Nat.le_refl 16)] at fails
    have bad : ¬ ∀ i, i < text.size → IsLetter (text.memory i) := by
      intro letters
      exact fails ⟨fun lane below => letters _ (by omega), by simp⟩
    simp only [isAlphabetSse, whole, bad, false_and, decide_false]
  · have blockLetters : ∀ i, i < text.size - text.size % 16 → IsLetter (text.memory i) := by
      intro i below
      have block := passes (i - i % 16) (Nat.dvd_sub_mod i) (by omega)
      rw [decide_eq_true_eq, cmpistri_eq_iff (Nat.le_refl 16)] at block
      have letter := block.1 (i % 16) (Nat.mod_lt _ (by decide))
      rwa [Nat.sub_add_cancel (Nat.mod_le _ _)] at letter
    have rest : sub text.size (text.size - text.size % 16) = text.size % 16 := by
      rw [sub_of_le (by rw [words]; omega) (Nat.sub_le _ _), Nat.sub_sub_self (Nat.mod_le _ _)]
    simp only [isAlphabetSse, whole, rest]
    by_cases aligned : text.size % 16 = 0
    · have letters : ∀ i, i < text.size → IsLetter (text.memory i) := fun i below =>
        blockLetters i (by omega)
      rw [if_neg (not_not.mpr aligned),
        decide_eq_true (And.intro letters (Or.inl aligned))]
    · rw [if_pos aligned, Option.some.injEq, decide_eq_decide, eq_comm,
        cmpistri_eq_iff (Nat.le_of_lt (Nat.mod_lt _ (by decide))),
        Nat.sub_add_cancel (Nat.mod_le _ _)]
      simp only [aligned, false_or, Nat.mod_lt text.size (show 0 < 16 by decide), true_implies]
      refine and_congr_left fun _ => ⟨fun tail i below => ?_, fun letters lane below => ?_⟩
      · by_cases inBlocks : i < text.size - text.size % 16
        · exact blockLetters i inBlocks
        · have letter := tail (i - (text.size - text.size % 16)) (by omega)
          rwa [Nat.add_sub_cancel' (Nat.le_of_not_lt inBlocks)] at letter
      · exact letters _ (by omega)

/-- `is_alphabet` on an empty text. -/
theorem alphabet_empty (memory : Memory) :
    Returns (fun fuel => isAlphabet fuel memory 0) false :=
  ⟨0, fun _ _ => rfl⟩

/--
`is_alphabet_sse` agrees with `is_alphabet` exactly if there is some text and, where its last
sixteen bytes are not whole, either no letter follows or the answer is no in any case.
-/
theorem isAlphabetSse_agrees_iff (text : Text) :
    (∃ value,
        Returns (fun fuel => isAlphabetSse fuel text.memory text.size) value ∧
          Returns (fun fuel => isAlphabet fuel text.memory text.size) value) ↔
      0 < text.size ∧
        (text.size % 16 = 0 ∨ ¬ IsLetter (text.memory text.size) ∨
          ∃ i, i < text.size ∧ ¬ IsLetter (text.memory i)) := by
  have sse := isAlphabetSse_returns text
  rcases Nat.eq_zero_or_pos text.size with empty | positive
  · have other : Returns (fun fuel => isAlphabet fuel text.memory text.size) false := by
      rw [empty]
      exact alphabet_empty text.memory
    rw [sse.agree_iff other]
    simp [empty]
  · rw [sse.agree_iff (alphabet_returns text positive), decide_eq_decide]
    simp only [positive, true_and, and_iff_left_iff_imp]
    constructor
    · intro implied
      by_cases letters : ∀ i, i < text.size → IsLetter (text.memory i)
      · rcases implied letters with aligned | other
        · exact Or.inl aligned
        · exact Or.inr (Or.inl other)
      · exact Or.inr (Or.inr (by simpa using letters))
    · rintro (aligned | other | ⟨i, below, bad⟩) letters
      · exact Or.inl aligned
      · exact Or.inr other
      · exact absurd (letters i below) bad

/-- Seven letters with a letter behind them: the answers differ. -/
theorem isAlphabetSse_disagrees :
    Returns (fun fuel => isAlphabet fuel (fun _ => 65) 7) true ∧
      Returns (fun fuel => isAlphabetSse fuel (fun _ => 65) 7) false := by
  have letters := alphabet_returns ⟨fun _ => 65, 7, by decide⟩ (by decide)
  have sse := isAlphabetSse_returns ⟨fun _ => 65, 7, by decide⟩
  have letter : IsLetter 65 := by decide
  simp only [letter, implies_true, decide_true] at letters
  simp only [letter, implies_true, not_true, or_false, true_and] at sse
  exact ⟨letters, sse⟩

end Sysprog.Ascii
