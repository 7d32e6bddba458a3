import Mathlib.Data.Nat.Digits.Defs
import Sysprog.CountedLoop
import Sysprog.StringBuffer

namespace Sysprog.LogShow

open ByteMemory CStrings CountedLoop StringBuffer

/-!
# `mylog_show` of `simple-logfs/logfs.c`

Every log page holds a line.  The lines are formatted one by one into an array of 32 bytes,
which is appended to the output page; the values that `snprintf` returns are added up.
-/

/-- `1 << PAGE_SHIFT`. -/
def pageSize : Nat :=
  1 <<< 12

/-- `LOG_LINE_BUF_SIZE`. -/
def logLineBufSize : Nat :=
  32

/-- The memory behind `GLOG->buff`, with a terminated line in every page. -/
structure LogPages where
  buff : Memory
  terminated : ∀ i, i < logLineBufSize → (0 : UInt8) ∈ read buff (i <<< 12) pageSize

/-- The line of a page, up to its NUL. -/
def line (buff : Memory) (i : Nat) : List UInt8 :=
  content pageSize (read buff (i <<< 12) pageSize)

/-- A number as `%d` prints it. -/
def decimal (number : Nat) : List UInt8 :=
  if number = 0 then [48] else (Nat.digits 10 number).reverse.map fun digit => 48 + .ofNat digit

/-- The text that `"[%d]: %s\\n"` stands for. -/
def formatted (i : Nat) (line : List UInt8) : List UInt8 :=
  [91] ++ decimal i ++ [93, 58, 32] ++ line ++ [10]

/-- The body of the loop: the length and the memory of the output page. -/
def showRound (buff : Memory) (buf i : Nat) : Nat × Memory → Nat × Memory
  | (len, memory) =>
      let tmp := List.replicate 32 0
      let (tmp, written) := snprintf 32 tmp (formatted i (line buff i))
      (len + written, strncat pageSize 32 memory buf tmp)

/-- `mylog_show`: the length returned, and the memory with the output page at `buf`. -/
def mylogShow (buff memory : Memory) (buf : Nat) : Nat × Memory :=
  forLoop logLineBufSize (0, memory) (showRound buff buf)

/-- The value returned is the length of the text in the output page. -/
def ReturnsLength (buff memory : Memory) (buf : Nat) : Prop :=
  (mylogShow buff memory buf).1 = strlen pageSize (mylogShow buff memory buf).2 buf

/-- The most characters that a line may have: with its number and the brackets it is 31. -/
def longestLine (i : Nat) : Nat :=
  if i < 10 then 25 else 24

/-! ## One line -/

variable {buff memory : Memory} {buf i : Nat}

/-- The numbers of the pages have one or two digits. -/
theorem decimal_digits :
    ∀ i, i < logLineBufSize →
      (decimal i).length = (if i < 10 then 1 else 2) ∧ (0 : UInt8) ∉ decimal i := by
  decide

/-- The length of a formatted line. -/
theorem length_formatted (inside : i < logLineBufSize) (line : List UInt8) :
    (formatted i line).length = line.length + (if i < 10 then 6 else 7) := by
  have digits := (decimal_digits i inside).1
  simp only [formatted, List.length_append, List.length_cons, List.length_nil, digits]
  split <;> omega

/-- A formatted line fits the array exactly if the line is short enough. -/
theorem formatted_fits_iff (inside : i < logLineBufSize) (line : List UInt8) :
    (formatted i line).length ≤ 31 ↔ line.length ≤ longestLine i := by
  rw [length_formatted inside, longestLine]
  split <;> omega

/-- A formatted line has no NUL. -/
theorem formatted_noNul (inside : i < logLineBufSize) :
    (0 : UInt8) ∉ formatted i (line buff i) := by
  have digits := (decimal_digits i inside).2
  have own : (0 : UInt8) ∉ line buff i := content_noNul
  simp [formatted, digits, own]

/-! ## All lines -/

/-- What the rounds append: of every formatted line what fits the array. -/
def shown (buff : Memory) (rounds : Nat) : List UInt8 :=
  (List.range rounds).flatMap fun i => (formatted i (line buff i)).take 31

theorem shown_succ (buff : Memory) (rounds : Nat) :
    shown buff (rounds + 1) =
      shown buff rounds ++ (formatted rounds (line buff rounds)).take 31 := by
  simp [shown, List.range_succ]

theorem length_shown_le (buff : Memory) (rounds : Nat) :
    (shown buff rounds).length ≤ 31 * rounds := by
  induction rounds with
  | zero => simp [shown]
  | succ rounds inductionHypothesis =>
      rw [shown_succ, List.length_append, List.length_take]
      omega

theorem showRound_eq (len : Nat) :
    showRound buff buf i (len, memory) =
      (len + (formatted i (line buff i)).length,
        strncat pageSize 32 memory buf
          (snprintf 32 (List.replicate 32 0) (formatted i (line buff i))).1) :=
  rfl

/-- The rounds add up the lengths of the formatted lines, and append what fits of them. -/
theorem showRounds
    (zeroed : ∀ offset, offset < pageSize → memory (buf + offset) = 0)
    {rounds : Nat}
    (within : rounds ≤ logLineBufSize) :
    (forLoop rounds (0, memory) (showRound buff buf)).1 =
        ((List.range rounds).map fun i => (formatted i (line buff i)).length).sum ∧
      Holds pageSize (forLoop rounds (0, memory) (showRound buff buf)).2 buf
        (shown buff rounds) := by
  induction rounds with
  | zero => exact ⟨rfl, Holds.empty (by decide) zeroed⟩
  | succ rounds inductionHypothesis =>
      obtain ⟨len, holds⟩ := inductionHypothesis (by omega)
      have noNul := @formatted_noNul buff rounds (by omega)
      have kept := @content_snprintf 32 (List.replicate 32 0) _ noNul (by decide)
      rw [show 32 - 1 = 31 from rfl] at kept
      have before := length_shown_le buff rounds
      have page : pageSize = 4096 := rfl
      have lines : logLineBufSize = 32 := rfl
      rw [forLoop_succ, ← Prod.eta (forLoop rounds (0, memory) (showRound buff buf)),
        showRound_eq]
      refine ⟨?_, ?_⟩
      · simp only [len, List.range_succ, List.map_append, List.map_cons, List.map_nil,
          List.sum_append, List.sum_singleton]
      · rw [shown_succ]
        have room :
            (shown buff rounds).length + ((formatted rounds (line buff rounds)).take 31).length <
              pageSize := by
          rw [List.length_take]
          omega
        have appended := holds.strncat kept room
        dsimp only
        exact appended

/-- The text in the output page is as long as what fits of the formatted lines. -/
theorem length_shown (buff : Memory) (rounds : Nat) :
    (shown buff rounds).length =
      ((List.range rounds).map fun i => min 31 (formatted i (line buff i)).length).sum := by
  simp [shown, List.length_flatMap]

/-- Sums of lengths and of cut lengths agree exactly if nothing is cut. -/
theorem sum_min_eq_iff (limit : Nat) (lengths : Nat → Nat) (rounds : Nat) :
    ((List.range rounds).map lengths).sum =
        ((List.range rounds).map fun i => min limit (lengths i)).sum ↔
      ∀ i, i < rounds → lengths i ≤ limit := by
  have below : ∀ rounds,
      ((List.range rounds).map fun i => min limit (lengths i)).sum ≤
        ((List.range rounds).map lengths).sum := by
    intro rounds
    induction rounds with
    | zero => simp
    | succ rounds inductionHypothesis =>
        simp only [List.range_succ, List.map_append, List.map_cons, List.map_nil,
          List.sum_append, List.sum_singleton]
        omega
  induction rounds with
  | zero => simp
  | succ rounds inductionHypothesis =>
      have earlier := below rounds
      simp only [List.range_succ, List.map_append, List.map_cons, List.map_nil, List.sum_append,
        List.sum_singleton, Nat.lt_succ_iff_lt_or_eq, or_imp, forall_and, forall_eq,
        ← inductionHypothesis]
      omega

/-- The value returned is right exactly if nothing is cut off a formatted line. -/
theorem returnsLength_iff_formatted
    (zeroed : ∀ offset, offset < pageSize → memory (buf + offset) = 0) :
    ReturnsLength buff memory buf ↔
      ∀ i, i < logLineBufSize → (formatted i (line buff i)).length ≤ 31 := by
  obtain ⟨len, holds⟩ := @showRounds buff memory buf zeroed _ (Nat.le_refl _)
  rw [ReturnsLength, mylogShow, len, holds.strlen_eq, length_shown, sum_min_eq_iff]

/--
`mylog_show` returns the length of the text it has put into the page exactly if every line
fits the array, with its number and the brackets.
-/
theorem returnsLength_iff
    (pages : LogPages)
    (zeroed : ∀ offset, offset < pageSize → memory (buf + offset) = 0) :
    ReturnsLength pages.buff memory buf ↔
      ∀ i, i < logLineBufSize → (line pages.buff i).length ≤ longestLine i := by
  rw [returnsLength_iff_formatted zeroed]
  exact forall₂_congr fun i inside => formatted_fits_iff inside _

/-- Pages with a line of `length` letters in the first one and empty lines in the others. -/
def firstLine (length : Nat) (short : length < pageSize) : LogPages where
  buff := fun address => if address < length then 97 else 0
  terminated := by
    intro i _
    have page : pageSize = 4096 := rfl
    refine List.mem_iff_getElem?.mpr ⟨if i = 0 then length else 0, ?_⟩
    rw [getElem?_read (by split <;> omega), Nat.shiftLeft_eq]
    split
    · simp [*]
    · rw [if_neg (by omega)]

theorem length_firstLine (length : Nat) (short : length < pageSize) :
    (line (firstLine length short).buff 0).length = length := by
  have holds : Holds pageSize (firstLine length short).buff 0 (List.replicate length 97) := by
    refine ⟨?_, ?_, ?_, by rwa [List.length_replicate]⟩
    · apply List.ext_getElem
      · simp
      · intro index _ inside
        rw [List.length_replicate] at inside
        rw [getElem_read, List.getElem_replicate]
        exact if_pos (by omega)
    · intro offset behind _
      rw [List.length_replicate] at behind
      exact if_neg (by omega)
    · intro member
      exact absurd (List.eq_of_mem_replicate member) (by decide)
  have total := holds.strlen_eq
  rw [List.length_replicate] at total
  exact total

theorem returnsLength_short :
    ReturnsLength (firstLine 25 (by decide)).buff (fun _ => 0) 0 ↔
      ∀ i, i < logLineBufSize →
        (line (firstLine 25 (by decide)).buff i).length ≤ longestLine i :=
  returnsLength_iff (firstLine 25 (by decide)) fun _ _ => rfl

/-- A line of 26 letters in the first page makes the value returned one too large. -/
theorem length_overstated : ¬ ReturnsLength (firstLine 26 (by decide)).buff (fun _ => 0) 0 := by
  rw [returnsLength_iff_formatted fun _ _ => rfl]
  intro fits
  have first := fits 0 (by decide)
  rw [length_formatted (by decide), length_firstLine] at first
  simp at first

end Sysprog.LogShow
