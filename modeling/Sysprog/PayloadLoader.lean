import Mathlib.Tactic.IntervalCases
import Sysprog.ByteMemory
import Sysprog.MachineWord

namespace Sysprog.PayloadLoader

open ByteMemory MachineWord

/-!
# The search of `embedded-payload/loader.c`

The loader looks for a second ELF header in its own image.  The memory is that of the whole
process, since the second search is given a length computed from an address, and the bytes
that are examined are recorded with what is found.
-/

/-- The addresses from `start` up to, not including, `stop`. -/
structure Range where
  start : Nat
  stop : Nat
  deriving DecidableEq, Repr

/-- The first match of a needle that lies in `length` bytes from `haystack` on. -/
def firstMatch (memory : Memory) (needle : List UInt8) : Nat → Nat → Option Nat
  | 0, _ => none
  | length + 1, haystack =>
      if length + 1 < needle.length then
        none
      else if read memory haystack needle.length = needle then
        some haystack
      else
        firstMatch memory needle length (haystack + 1)

/-- `memmem`, which goes over its range up to the end of the first match. -/
def memmem (memory : Memory) (haystack length : Nat) (needle : List UInt8) :
    Option Nat × Range :=
  match firstMatch memory needle length haystack with
  | some place => (some place, ⟨haystack, place + needle.length⟩)
  | none => (none, ⟨haystack, haystack + length⟩)

/-- `valid_elf`, with the bytes that its conditions look at before one of them fails. -/
def validElf (memory : Memory) (ptr : Nat) : Bool × Range :=
  if memory (ptr + 4) = 1 ∨ memory (ptr + 4) = 2 then
    if memory (ptr + 5) = 1 ∨ memory (ptr + 5) = 2 then
      (decide (memory (ptr + 6) = 1), ⟨ptr + 4, ptr + 7⟩)
    else
      (false, ⟨ptr + 4, ptr + 6⟩)
  else
    (false, ⟨ptr + 4, ptr + 5⟩)

/-- `elf_magic`. -/
def elfMagic : List UInt8 :=
  [0x7F, 0x45, 0x4C, 0x46]

/--
The search in `main`, with the lengths that it passes to `memmem`: `newelf` where a header
was found, `none` where the loader reports that there is none, and the ranges examined.
-/
def searchWith (memory : Memory) (entirefile length : Nat) (lengthBehind : Nat → Nat) :
    Option Nat × List Range :=
  match memmem memory (entirefile + 52) length elfMagic with
  | (none, scanned) => (none, [scanned])
  | (some newelf, scanned) =>
      let (valid, fields) := validElf memory newelf
      if valid then
        (some newelf, [scanned, fields])
      else
        match memmem memory (newelf + 6) (lengthBehind newelf) elfMagic with
        | (none, again) => (none, [scanned, fields, again])
        | (some newelf, again) =>
            let (valid, fieldsAgain) := validElf memory newelf
            (if valid then some newelf else none, [scanned, fields, again, fieldsAgain])

/-- The search with the lengths as `main` computes them. -/
def search (memory : Memory) (entirefile size : Nat) : Option Nat × List Range :=
  searchWith memory entirefile (sub size 52) fun newelf => sub (sub size newelf) 6

/-- An executable image of at least 52 bytes, and where it is loaded. -/
structure Image where
  memory : Memory
  entirefile : Nat
  size : Nat
  placed : 0 < entirefile
  large : 52 ≤ size
  fits : entirefile + size ≤ words

namespace Image

/-- The magic bytes stand at an offset. -/
def Magic (image : Image) (offset : Nat) : Prop :=
  read image.memory (image.entirefile + offset) 4 = elfMagic

/-- The fields behind an offset are ones that `valid_elf` accepts. -/
def Accepted (image : Image) (offset : Nat) : Prop :=
  (validElf image.memory (image.entirefile + offset)).1 = true

/-- A header of the image at an offset that the loader is to consider. -/
def Header (image : Image) (offset : Nat) : Prop :=
  52 ≤ offset ∧ offset + 7 ≤ image.size ∧ image.Magic offset ∧ image.Accepted offset

/-- The range lies in the image. -/
def Inside (image : Image) (range : Range) : Prop :=
  image.entirefile ≤ range.start ∧ range.stop ≤ image.entirefile + image.size

/-- The image only is looked at, and its first header is found if it has one. -/
structure Right (image : Image) (found : Option Nat) (examined : List Range) : Prop where
  inside : ∀ range ∈ examined, image.Inside range
  selected :
    ∀ newelf,
      found = some newelf →
      ∃ offset,
        newelf = image.entirefile + offset ∧
          image.Header offset ∧
          ∀ other, image.Header other → offset ≤ other
  reported : found = none ↔ ∀ offset, ¬ image.Header offset

/-- The search of the loader goes right. -/
def SearchedRight (image : Image) : Prop :=
  image.Right (search image.memory image.entirefile image.size).1
    (search image.memory image.entirefile image.size).2

/-- The first magic from an offset on that lies in the image. -/
structure FirstMagic (image : Image) (start offset : Nat) : Prop where
  lower : start ≤ offset
  upper : offset + 4 ≤ image.size
  magic : image.Magic offset
  first : ∀ other, start ≤ other → other < offset → ¬ image.Magic other

/-- The fields that `valid_elf` looks at behind an offset lie in the image. -/
def FieldsInside (image : Image) (offset : Nat) : Prop :=
  (validElf image.memory (image.entirefile + offset)).2.stop ≤ image.entirefile + image.size

/--
After the magic at `offset` is rejected, the second search goes right: its match lies in
the image and no header is before it, or any at all if it is rejected as well; or, in an
image at so low an address that the length does not wrap, it ends without a match and there
is no header.
-/
def SearchesAgain (image : Image) (offset : Nat) : Prop :=
  (∃ second,
      image.FirstMagic (offset + 6) second ∧
        (image.entirefile + offset + 6 ≤ image.size →
          image.entirefile + second + 4 ≤ image.size) ∧
        image.FieldsInside second ∧
        ∀ other, image.Header other → image.Accepted second ∧ second ≤ other) ∨
    (image.entirefile + offset + 6 ≤ image.size ∧
      (∀ other,
        offset + 6 ≤ other → image.entirefile + other + 4 ≤ image.size → ¬ image.Magic other) ∧
      ∀ other, ¬ image.Header other)

/--
The images that are searched right: those without a magic, and those whose first magic has
fields in the image that are accepted, or are rejected and the second search goes right.
-/
def Searchable (image : Image) : Prop :=
  (∀ offset, 52 ≤ offset → offset + 4 ≤ image.size → ¬ image.Magic offset) ∨
    ∃ offset,
      image.FirstMagic 52 offset ∧
        image.FieldsInside offset ∧
        (image.Accepted offset ∨ image.SearchesAgain offset)

end Image

/-! ## The first match of a range -/

variable {memory : Memory} {needle : List UInt8} {haystack length place ptr : Nat}

/-- What is found is a match in the range, and the first one. -/
theorem firstMatch_some (found : firstMatch memory needle length haystack = some place) :
    haystack ≤ place ∧
      place + needle.length ≤ haystack + length ∧
      read memory place needle.length = needle ∧
      ∀ other, haystack ≤ other → other < place → read memory other needle.length ≠ needle := by
  induction length generalizing haystack with
  | zero => simp [firstMatch] at found
  | succ length inductionHypothesis =>
      rw [firstMatch] at found
      split at found
      · simp at found
      · rename_i room
        split at found
        · rename_i here
          obtain rfl := Option.some.inj found
          exact ⟨Nat.le_refl _, by omega, here, fun other lower upper => by omega⟩
        · rename_i missed
          obtain ⟨lower, upper, here, first⟩ := inductionHypothesis found
          refine ⟨by omega, by omega, here, fun other above below => ?_⟩
          by_cases same : other = haystack
          · rw [same]
            exact missed
          · exact first other (by omega) below

/-- Where nothing is found there is no match in the range. -/
theorem firstMatch_none
    (some : 0 < needle.length)
    (missed : firstMatch memory needle length haystack = none) :
    ∀ other,
      haystack ≤ other →
      other + needle.length ≤ haystack + length →
      read memory other needle.length ≠ needle := by
  induction length generalizing haystack with
  | zero => intro other lower upper; omega
  | succ length inductionHypothesis =>
      rw [firstMatch] at missed
      intro other lower upper
      split at missed
      · omega
      · split at missed
        · simp at missed
        · rename_i here
          by_cases same : other = haystack
          · rw [same]
            exact here
          · exact inductionHypothesis missed other (by omega) (by omega)

/-! ## The fields -/

/-- The fields are looked at from the first one on, and all three if they are accepted. -/
theorem validElf_range (memory : Memory) (ptr : Nat) :
    (validElf memory ptr).2.start = ptr + 4 ∧
      ptr + 5 ≤ (validElf memory ptr).2.stop ∧
      ((validElf memory ptr).1 = true → (validElf memory ptr).2.stop = ptr + 7) := by
  rw [validElf]
  split
  · split <;> simp
  · simp

/-! ## The lengths -/

variable {image : Image} {offset second : Nat}

/-- The first search has what is left of the image. -/
theorem firstLength (image : Image) : sub image.size 52 = image.size - 52 := by
  have placed := image.placed
  have fits := image.fits
  exact sub_of_le (by omega) image.large

/-- Where the second search ends: at the address `size`, or beyond all addresses. -/
def Image.secondStop (image : Image) (offset : Nat) : Nat :=
  if image.entirefile + offset + 6 ≤ image.size then image.size else words + image.size

/--
The length of the second search is short by the address of the image; whether it wraps
decides where the range ends.
-/
theorem secondLength
    (image : Image)
    (inside : offset + 4 ≤ image.size) :
    image.entirefile + offset + 6 + sub (sub image.size (image.entirefile + offset)) 6 =
      image.secondStop offset := by
  have placed := image.placed
  have large := image.large
  have fits := image.fits
  have six : 6 < words := by decide
  rw [Image.secondStop]
  by_cases ordered : image.entirefile + offset ≤ image.size
  · have inner := sub_of_le (show image.size < words by omega) ordered
    rw [inner]
    split
    · rw [sub_of_le (by omega) (by omega)]
      omega
    · rw [sub_of_lt six (by omega)]
      omega
  · have inner := sub_of_lt (show image.entirefile + offset < words by omega)
      (Nat.not_le.mp ordered)
    rw [inner, sub_of_le (by omega) (by omega), if_neg (by omega)]
    omega

namespace Image

/-! ## Magics in the image -/

/-- There is one first magic. -/
theorem FirstMagic.unique
    {start other : Nat}
    (first : image.FirstMagic start offset)
    (same : image.FirstMagic start other) :
    offset = other := by
  rcases Nat.lt_trichotomy offset other with before | equal | behind
  · exact absurd first.magic (same.first offset first.lower before)
  · exact equal
  · exact absurd same.magic (first.first other same.lower behind)

/-- A match of a search from an offset on, as an offset. -/
theorem match_offset
    {start : Nat}
    (found :
      firstMatch image.memory elfMagic length (image.entirefile + start) = some place) :
    ∃ offset,
      place = image.entirefile + offset ∧
        start ≤ offset ∧
        offset + 4 ≤ start + length ∧
        image.Magic offset ∧
        ∀ other, start ≤ other → other < offset → ¬ image.Magic other := by
  obtain ⟨lower, upper, here, first⟩ := firstMatch_some found
  have four : elfMagic.length = 4 := rfl
  refine ⟨place - image.entirefile, by omega, by omega, by omega, ?_, ?_⟩
  · rw [Magic, show image.entirefile + (place - image.entirefile) = place by omega]
    exact here
  · intro other above below
    exact first (image.entirefile + other) (by omega) (by omega)

/-- Where a search from an offset on finds nothing, there is no magic in its range. -/
theorem match_none
    {start : Nat}
    (missed : firstMatch image.memory elfMagic length (image.entirefile + start) = none) :
    ∀ other, start ≤ other → other + 4 ≤ start + length → ¬ image.Magic other := by
  intro other lower upper
  have four : elfMagic.length = 4 := rfl
  exact firstMatch_none (by decide) missed (image.entirefile + other) (by omega) (by omega)

/-- A header has all its fields in the image, and the magic of one is a magic. -/
theorem header_iff_fields (accepted : image.Accepted offset) :
    image.FieldsInside offset ↔ offset + 7 ≤ image.size := by
  rw [FieldsInside, (validElf_range image.memory _).2.2 accepted]
  omega

/-- A first magic that is accepted in the image is the first header. -/
theorem header_first
    (first : image.FirstMagic 52 offset)
    (fields : image.FieldsInside offset)
    (accepted : image.Accepted offset) :
    image.Header offset ∧ ∀ other, image.Header other → offset ≤ other := by
  refine ⟨⟨first.lower, (header_iff_fields accepted).mp fields, first.magic, accepted⟩, ?_⟩
  intro other header
  by_contra before
  exact first.first other header.1 (Nat.not_le.mp before) header.2.2.1

/-! ## The ways the search goes -/

theorem memmem_some (found : firstMatch memory needle length haystack = some place) :
    memmem memory haystack length needle = (some place, ⟨haystack, place + needle.length⟩) := by
  rw [memmem, found]

theorem memmem_none (missed : firstMatch memory needle length haystack = none) :
    memmem memory haystack length needle = (none, ⟨haystack, haystack + length⟩) := by
  rw [memmem, missed]

section Ways

variable {entirefile first second : Nat} {lengthBehind : Nat → Nat}

/-- Without a match the search ends. -/
theorem searchWith_none
    (missed : firstMatch memory elfMagic length (entirefile + 52) = none) :
    searchWith memory entirefile length lengthBehind =
      (none, [⟨entirefile + 52, entirefile + 52 + length⟩]) := by
  rw [searchWith, memmem_none missed]

/-- A match with the right fields is what is found. -/
theorem searchWith_accepted
    (found : firstMatch memory elfMagic length (entirefile + 52) = some first)
    (accepted : (validElf memory first).1 = true) :
    searchWith memory entirefile length lengthBehind =
      (some first, [⟨entirefile + 52, first + 4⟩, (validElf memory first).2]) := by
  rw [searchWith, memmem_some found]
  simp only [accepted, if_true]
  rfl

/-- Behind a rejected match the search ends without another one. -/
theorem searchWith_rejected_none
    (found : firstMatch memory elfMagic length (entirefile + 52) = some first)
    (rejected : (validElf memory first).1 = false)
    (missed : firstMatch memory elfMagic (lengthBehind first) (first + 6) = none) :
    searchWith memory entirefile length lengthBehind =
      (none,
        [⟨entirefile + 52, first + 4⟩, (validElf memory first).2,
          ⟨first + 6, first + 6 + lengthBehind first⟩]) := by
  rw [searchWith, memmem_some found]
  simp only [rejected, Bool.false_eq_true, if_false, memmem_none missed]
  rfl

/-- Behind a rejected match the next one decides. -/
theorem searchWith_rejected_some
    (found : firstMatch memory elfMagic length (entirefile + 52) = some first)
    (rejected : (validElf memory first).1 = false)
    (again : firstMatch memory elfMagic (lengthBehind first) (first + 6) = some second) :
    searchWith memory entirefile length lengthBehind =
      (if (validElf memory second).1 then some second else none,
        [⟨entirefile + 52, first + 4⟩, (validElf memory first).2, ⟨first + 6, second + 4⟩,
          (validElf memory second).2]) := by
  rw [searchWith, memmem_some found]
  simp only [rejected, Bool.false_eq_true, if_false, memmem_some again]
  rfl

end Ways

/-! ## When the search goes right -/

/-- A first magic decides which one `Searchable` speaks about. -/
theorem searchable_iff (first : image.FirstMagic 52 offset) :
    image.Searchable ↔
      image.FieldsInside offset ∧ (image.Accepted offset ∨ image.SearchesAgain offset) := by
  constructor
  · rintro (none | ⟨other, otherFirst, fields, goes⟩)
    · exact absurd first.magic (none offset first.lower first.upper)
    · obtain rfl := first.unique otherFirst
      exact ⟨fields, goes⟩
  · rintro ⟨fields, goes⟩
    exact .inr ⟨offset, first, fields, goes⟩

/-- An image without a magic has no header, and the search ends there. -/
theorem right_none
    (none : ∀ other, 52 ≤ other → other + 4 ≤ image.size → ¬ image.Magic other) :
    image.Right .none [⟨image.entirefile + 52, image.entirefile + image.size⟩] where
  inside := by
    intro range member
    obtain rfl := List.mem_singleton.mp member
    exact ⟨by simp, Nat.le_refl _⟩
  selected := by simp
  reported := by
    simp only [true_iff]
    intro offset header
    exact none offset header.1 (by have := header.2.1; omega) header.2.2.1

/-- The first match is looked at in the image, and its fields are where they lie in it. -/
theorem inside_first (first : image.FirstMagic 52 offset) :
    image.Inside ⟨image.entirefile + 52, image.entirefile + offset + 4⟩ ∧
      (image.Inside (validElf image.memory (image.entirefile + offset)).2 ↔
        image.FieldsInside offset) := by
  have upper := first.upper
  obtain ⟨start, _, _⟩ := validElf_range image.memory (image.entirefile + offset)
  refine ⟨⟨by simp, by simp only []; omega⟩, ?_⟩
  rw [Inside, FieldsInside, start]
  exact and_iff_right (by omega)

/-- A first magic that is accepted. -/
theorem right_accepted_iff
    (first : image.FirstMagic 52 offset)
    (accepted : image.Accepted offset) :
    image.Right (some (image.entirefile + offset))
        [⟨image.entirefile + 52, image.entirefile + offset + 4⟩,
          (validElf image.memory (image.entirefile + offset)).2] ↔
      image.Searchable := by
  obtain ⟨scanned, fieldsIff⟩ := inside_first first
  rw [searchable_iff first]
  constructor
  · intro right
    exact ⟨fieldsIff.mp (right.inside _ (by simp)), .inl accepted⟩
  · rintro ⟨fields, _⟩
    obtain ⟨header, least⟩ := header_first first fields accepted
    refine ⟨?_, ?_, ?_⟩
    · intro range member
      simp only [List.mem_cons, List.not_mem_nil, or_false] at member
      rcases member with rfl | rfl
      · exact scanned
      · exact fieldsIff.mpr fields
    · intro newelf found
      exact ⟨offset, (Option.some.inj found).symm, header, least⟩
    · simp only [reduceCtorEq, false_iff, not_forall, not_not]
      exact ⟨offset, header⟩

/-- The range of the second search, as offsets that a magic in the image may have. -/
theorem second_range
    {behind : Nat}
    (stop : image.entirefile + offset + 6 + behind = image.secondStop offset)
    (within : second + 4 ≤ image.size)
    (low :
      image.entirefile + offset + 6 ≤ image.size → image.entirefile + second + 4 ≤ image.size) :
    second + 4 ≤ offset + 6 + behind := by
  have fits := image.fits
  rw [secondStop] at stop
  split at stop
  · rename_i below
    have := low below
    omega
  · omega

/-- A first magic that is rejected, and no match behind it. -/
theorem right_rejected_none_iff
    {behind : Nat}
    (first : image.FirstMagic 52 offset)
    (rejected : ¬ image.Accepted offset)
    (stop : image.entirefile + offset + 6 + behind = image.secondStop offset)
    (missed :
      ∀ other, offset + 6 ≤ other → other + 4 ≤ offset + 6 + behind → ¬ image.Magic other) :
    image.Right none
        [⟨image.entirefile + 52, image.entirefile + offset + 4⟩,
          (validElf image.memory (image.entirefile + offset)).2,
          ⟨image.entirefile + offset + 6, image.entirefile + offset + 6 + behind⟩] ↔
      image.Searchable := by
  have fits := image.fits
  have large := image.large
  obtain ⟨scanned, fieldsIff⟩ := inside_first first
  rw [searchable_iff first]
  constructor
  · intro right
    refine ⟨fieldsIff.mp (right.inside _ (by simp)), .inr (.inr ?_)⟩
    have end_inside := (right.inside
      ⟨image.entirefile + offset + 6, image.entirefile + offset + 6 + behind⟩ (by simp)).2
    rw [secondStop] at stop
    simp only [stop] at end_inside
    split at end_inside
    · rename_i below
      rw [if_pos below] at stop
      exact ⟨below, fun other lower upper => missed other lower (by omega),
        right.reported.mp rfl⟩
    · omega
  · rintro ⟨fields, accepted | ⟨second, again, low, _⟩ | ⟨below, _, none⟩⟩
    · exact absurd accepted rejected
    · exact absurd again.magic
        (missed second again.lower (second_range stop again.upper low))
    · rw [secondStop, if_pos below] at stop
      refine ⟨?_, by simp, by simpa using none⟩
      intro range member
      simp only [List.mem_cons, List.not_mem_nil, or_false] at member
      rcases member with rfl | rfl | rfl
      · exact scanned
      · exact fieldsIff.mpr fields
      · exact ⟨by simp only []; omega, by simp only [stop]; omega⟩

/-- A first magic that is rejected, and a match behind it. -/
theorem right_rejected_some_iff
    {behind : Nat}
    (first : image.FirstMagic 52 offset)
    (rejected : ¬ image.Accepted offset)
    (stop : image.entirefile + offset + 6 + behind = image.secondStop offset)
    (lower : offset + 6 ≤ second)
    (upper : second + 4 ≤ offset + 6 + behind)
    (magic : image.Magic second)
    (next : ∀ other, offset + 6 ≤ other → other < second → ¬ image.Magic other) :
    image.Right
        (if (validElf image.memory (image.entirefile + second)).1 then
          some (image.entirefile + second)
        else
          none)
        [⟨image.entirefile + 52, image.entirefile + offset + 4⟩,
          (validElf image.memory (image.entirefile + offset)).2,
          ⟨image.entirefile + offset + 6, image.entirefile + second + 4⟩,
          (validElf image.memory (image.entirefile + second)).2] ↔
      image.Searchable := by
  obtain ⟨scanned, fieldsIff⟩ := inside_first first
  obtain ⟨start, _, _⟩ := validElf_range image.memory (image.entirefile + second)
  rw [searchable_iff first]
  constructor
  · intro right
    have end_inside := (right.inside
      ⟨image.entirefile + offset + 6, image.entirefile + second + 4⟩ (by simp)).2
    have within : second + 4 ≤ image.size := by
      simp only [] at end_inside
      omega
    refine ⟨fieldsIff.mp (right.inside _ (by simp)),
      .inr (.inl ⟨second, ⟨lower, within, magic, next⟩, fun below => ?_,
        (right.inside _ (by simp)).2, fun other header => ?_⟩)⟩
    · rw [secondStop, if_pos below] at stop
      omega
    · by_cases accepted : (validElf image.memory (image.entirefile + second)).1 = true
      · rw [if_pos accepted] at right
        obtain ⟨chosen, place, _, least⟩ := right.selected _ rfl
        obtain rfl : second = chosen := by omega
        exact ⟨accepted, least other header⟩
      · rw [if_neg accepted] at right
        exact absurd header (right.reported.mp rfl other)
  · rintro ⟨fields, accepted | ⟨chosen, again, low, secondFields, least⟩ | ⟨below, none, _⟩⟩
    · exact absurd accepted rejected
    · have found := second_range stop again.upper low
      obtain rfl : chosen = second := by
        rcases Nat.lt_trichotomy chosen second with before | equal | behind
        · exact absurd again.magic (next chosen again.lower before)
        · exact equal
        · exact absurd magic (again.first second lower behind)
      have within := again.upper
      have large := first.lower
      refine ⟨?_, ?_, ?_⟩
      · intro range member
        simp only [List.mem_cons, List.not_mem_nil, or_false] at member
        rcases member with rfl | rfl | rfl | rfl
        · exact scanned
        · exact fieldsIff.mpr fields
        · exact ⟨by simp only []; omega, by simp only []; omega⟩
        · exact ⟨by omega, secondFields⟩
      · intro newelf
        split
        · rename_i accepted
          intro found
          refine ⟨chosen, (Option.some.inj found).symm, ⟨by omega, ?_, magic, accepted⟩,
            fun other header => (least other header).2⟩
          exact (header_iff_fields accepted).mp secondFields
        · simp
      · split
        · rename_i accepted
          simp only [reduceCtorEq, false_iff, not_forall, not_not]
          exact ⟨chosen, by omega, (header_iff_fields accepted).mp secondFields, magic, accepted⟩
        · rename_i refused
          simp only [true_iff]
          exact fun other header => refused (least other header).1
    · rw [secondStop, if_pos below] at stop
      exact absurd magic (none second lower (by omega))

/-- The search behind a first magic that is rejected. -/
theorem right_rejected_iff
    {lengthBehind : Nat → Nat}
    (found :
      firstMatch image.memory elfMagic length (image.entirefile + 52) =
        some (image.entirefile + offset))
    (first : image.FirstMagic 52 offset)
    (rejected : ¬ image.Accepted offset)
    (stop :
      image.entirefile + offset + 6 + lengthBehind (image.entirefile + offset) =
        image.secondStop offset) :
    image.Right (searchWith image.memory image.entirefile length lengthBehind).1
        (searchWith image.memory image.entirefile length lengthBehind).2 ↔
      image.Searchable := by
  have refused : (validElf image.memory (image.entirefile + offset)).1 = false :=
    Bool.eq_false_iff.mpr rejected
  cases again :
      firstMatch image.memory elfMagic (lengthBehind (image.entirefile + offset))
        (image.entirefile + offset + 6) with
  | none =>
      rw [searchWith_rejected_none found refused again]
      rw [Nat.add_assoc image.entirefile offset 6] at again
      exact right_rejected_none_iff first rejected stop (match_none again)
  | some place =>
      rw [searchWith_rejected_some found refused again]
      rw [Nat.add_assoc image.entirefile offset 6] at again
      obtain ⟨second, rfl, lower, upper, magic, next⟩ := match_offset again
      exact right_rejected_some_iff first rejected stop lower upper magic next

/-- The search of the loader behind a first magic that is rejected. -/
theorem searchedRight_rejected_iff
    (found :
      firstMatch image.memory elfMagic (sub image.size 52) (image.entirefile + 52) =
        some (image.entirefile + offset))
    (first : image.FirstMagic 52 offset)
    (rejected : ¬ image.Accepted offset) :
    image.SearchedRight ↔ image.Searchable := by
  rw [SearchedRight, search]
  exact right_rejected_iff found first rejected (secondLength image first.upper)

/--
The loader looks at its image only and finds the first header, or reports that there is
none, exactly for the images that the condition names.
-/
theorem searchedRight_iff (image : Image) : image.SearchedRight ↔ image.Searchable := by
  have large := image.large
  cases scan : firstMatch image.memory elfMagic (sub image.size 52) (image.entirefile + 52) with
  | none =>
      have stop : image.entirefile + 52 + sub image.size 52 = image.entirefile + image.size := by
        rw [firstLength]
        omega
      have nowhere : ∀ other, 52 ≤ other → other + 4 ≤ image.size → ¬ image.Magic other := by
        intro other lower upper
        refine match_none scan other lower ?_
        rw [firstLength]
        omega
      rw [SearchedRight, search, searchWith_none scan, stop]
      exact iff_of_true (right_none nowhere) (.inl nowhere)
  | some place =>
      obtain ⟨offset, rfl, lower, upper, magic, before⟩ := match_offset scan
      rw [firstLength] at upper
      have first : image.FirstMagic 52 offset := ⟨lower, by omega, magic, before⟩
      by_cases accepted : image.Accepted offset
      · rw [SearchedRight, search, searchWith_accepted scan accepted]
        exact right_accepted_iff first accepted
      · exact searchedRight_rejected_iff scan first accepted

/-- An image of 80 bytes with magics at 52, 60 and 70, of which the last has a header's fields. -/
def threeMagics : Image where
  memory :=
    write (write (write (fun _ => 0) (65536 + 52) elfMagic) (65536 + 60) elfMagic) (65536 + 70)
      (elfMagic ++ [1, 1, 1])
  entirefile := 65536
  size := 80
  placed := by decide
  large := by decide
  fits := by decide

/-- The loader rejects the first two magics and does not look for a third. -/
theorem header_missed : threeMagics.Header 70 ∧ ¬ threeMagics.SearchedRight := by
  have header : threeMagics.Header 70 := by
    refine ⟨by decide, by decide, ?_, ?_⟩
    · rw [Magic]
      decide +kernel
    · rw [Accepted]
      decide +kernel
  have first : threeMagics.FirstMagic 52 52 := by
    refine ⟨Nat.le_refl _, by decide, ?_, fun other lower upper => by omega⟩
    rw [Magic]
    decide +kernel
  have rejected : ¬ threeMagics.Accepted 52 := by
    rw [Accepted]
    decide +kernel
  have scan :
      firstMatch threeMagics.memory elfMagic (sub threeMagics.size 52)
          (threeMagics.entirefile + 52) =
        some (threeMagics.entirefile + 52) := by
    decide +kernel
  refine ⟨header, fun right => ?_⟩
  have searchable := (searchedRight_rejected_iff scan first rejected).mp right
  rcases ((searchable_iff first).mp searchable).2 with
    accepted | ⟨second, again, _, _, least⟩ | ⟨below, _, _⟩
  · exact rejected accepted
  · have place : second ≤ 60 := by
      by_contra behind
      refine again.first 60 (by decide) (Nat.not_le.mp behind) ?_
      rw [Magic]
      decide +kernel
    have refused : ∀ other, 58 ≤ other → other ≤ 60 → ¬ threeMagics.Accepted other := by
      intro other lower upper
      rw [Accepted]
      interval_cases other <;> decide +kernel
    exact refused second again.lower place (least 70 header).1
  · exact absurd below (by decide)

end Image

end Sysprog.PayloadLoader
