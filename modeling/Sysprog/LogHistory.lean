import Sysprog.LogDevice

namespace Sysprog.LogDevice

open ByteMemory CStrings Execution LogShow StringBuffer

/-!
# The log pages over whole runs

Whatever programs print and however their stores mix, no byte outside of the buffer changes
and every page keeps a NUL at its end.  A page that programs have had one at a time holds
the text that was printed to it last.
-/

variable {Id : Type} [DecidableEq Id] {admits : Nat → Nat → Bool} {buffer : LogBuffer}
  {state after : State Id} {start memory : Memory} {page offset : Nat}

/-! ## Mapped pages -/

/-- The address of a page of the buffer. -/
def LogBuffer.base (buffer : LogBuffer) (page : Nat) : Nat :=
  buffer.phys + page * pageSize

/-- The addresses of a page belong to it. -/
theorem page_base (inside : offset < pageSize) : buffer.page (buffer.base page + offset) = page := by
  have size : pageSize = 4096 := rfl
  simp only [LogBuffer.page, LogBuffer.base, size] at inside ⊢
  omega

/-- What the kernel and the driver map is a page of the buffer. -/
theorem mapMemory_base
    {idx : Int}
    {address : Nat}
    (limited : RefusesOverflow admits)
    (granted : mapMemory admits buffer idx = some address) :
    pageOffset idx < logLineBufSize ∧ address = buffer.base (pageOffset idx) := by
  have size : pageSize = 4096 := rfl
  have mapped : mappedSize = 4096 := rfl
  have bound : logBufOutputBufSize = 131072 := rfl
  have words : unsignedLong = 2 ^ 64 := rfl
  have lines : logLineBufSize = 32 := rfl
  have aligned := buffer.aligned
  have inside := buffer.inside
  rw [mapMemory] at granted
  split at granted
  · rename_i admitted
    have within := limited _ _ admitted
    obtain ⟨pfn, allowed, rfl⟩ := Option.map_eq_some_iff.mp granted
    rw [mylogMmap] at allowed
    split at allowed
    · cases allowed
    · rename_i notBehind
      obtain rfl := Option.some.inj allowed
      simp only [Nat.shiftLeft_eq, Nat.shiftRight_eq_div_pow, LogBuffer.base, size, mapped, bound,
        words, lines] at *
      omega
  · cases granted

/-- The page that a number of the command line names. -/
theorem pageOffset_eq
    {idx : Int}
    (inside : pageOffset idx < logLineBufSize) :
    (pageOffset idx : Int) = idx % 2 ^ 20 := by
  have lines : logLineBufSize = 32 := rfl
  rw [pageOffset, Nat.shiftRight_eq_div_pow] at *
  rw [Int.bmod_def] at *
  omega

/-! ## Single stores -/

/-- A store outside of a block leaves it. -/
theorem read_update_outside
    {address cell length : Nat}
    {byte : UInt8}
    (outside : cell < address ∨ address + length ≤ cell) :
    read (Function.update memory cell byte) address length = read memory address length := by
  apply read_congr
  intro index inside
  exact Function.update_of_ne (by omega) _ _

/-- A store right behind a block makes it longer. -/
theorem read_update_behind
    {address length : Nat}
    {byte : UInt8} :
    read (Function.update memory (address + length) byte) address (length + 1) =
      read memory address length ++ [byte] := by
  rw [read_add, read_update_outside (Or.inr (Nat.le_refl _))]
  simp [ByteMemory.read]

/-! ## The invariant -/

/-- A program prints at some place of a page, and has room for what is left of its text. -/
def PrintsAt (buffer : LogBuffer) (state : State Id) (page offset : Nat) (bytes : List UInt8)
    (program : Id) : Prop :=
  page < logLineBufSize ∧
    offset + bytes.length ≤ pageSize ∧
      state.phases program = .printing (buffer.base page + offset) bytes

/-- What every step keeps. -/
structure Orderly (buffer : LogBuffer) (start : Memory) (state : State Id) : Prop where
  outside :
    ∀ address,
      address < buffer.phys ∨ buffer.phys + logBufOutputBufSize ≤ address →
      state.memory address = start address
  located :
    ∀ program address bytes,
      state.phases program = .printing address bytes →
      ∃ page offset text,
        PrintsAt buffer state page offset bytes program ∧
          address = buffer.base page + offset ∧ bytes = text ++ [0] ∧ (0 : UInt8) ∉ text
  ended : ∀ page, page < logLineBufSize → state.memory (buffer.base page + (pageSize - 1)) = 0
  alone :
    ∀ page,
      ¬ state.clashed page →
      ∀ first second,
        Prints buffer state page first → Prints buffer state page second → first = second
  noNul : ∀ page, (0 : UInt8) ∉ state.latest page
  printed :
    ∀ page offset bytes program,
      ¬ state.clashed page →
      PrintsAt buffer state page offset bytes program →
      read state.memory (buffer.base page) offset ++ bytes = state.latest page ++ [0]
  settled :
    ∀ page,
      page < logLineBufSize →
      ¬ state.clashed page →
      (∀ program, ¬ Prints buffer state page program) →
      content pageSize (read state.memory (buffer.base page) pageSize) = state.latest page

/-- A program that goes on has bytes left. -/
theorem resume_printing
    {address place : Nat}
    {rest bytes : List UInt8}
    (printing : Phase.resume address rest = .printing place bytes) :
    place = address ∧ bytes = rest ∧ rest ≠ [] := by
  cases rest with
  | nil => cases printing
  | cons byte rest =>
      obtain ⟨rfl, rfl⟩ := Phase.printing.inj printing
      exact ⟨rfl, rfl, List.cons_ne_nil _ _⟩

/-- Places in pages are the same only in the same page. -/
theorem place_unique
    {other place : Nat}
    (inside : offset < pageSize)
    (alsoInside : place < pageSize)
    (same : buffer.base page + offset = buffer.base other + place) :
    page = other ∧ offset = place := by
  have pages : buffer.page (buffer.base page + offset) = page := page_base inside
  rw [same, page_base alsoInside] at pages
  subst pages
  exact ⟨rfl, Nat.add_left_cancel same⟩

/-- A place in a page is one of the buffer. -/
theorem place_inside
    (isPage : page < logLineBufSize)
    (inside : offset < pageSize) :
    buffer.phys ≤ buffer.base page + offset ∧
      buffer.base page + offset < buffer.phys + logBufOutputBufSize := by
  have size : pageSize = 4096 := rfl
  have bound : logBufOutputBufSize = 131072 := rfl
  have lines : logLineBufSize = 32 := rfl
  simp only [LogBuffer.base, size, bound, lines] at *
  omega

omit [DecidableEq Id] in
/-- A program that stands at a place of a page prints to the page. -/
theorem PrintsAt.prints
    {bytes : List UInt8}
    {program : Id}
    (standing : PrintsAt buffer state page offset bytes program)
    (goesOn : bytes ≠ []) :
    Prints buffer state page program := by
  obtain ⟨_, fits, printing⟩ := standing
  have some := List.length_pos_iff.mpr goesOn
  exact ⟨_, bytes, printing, page_base (by omega)⟩

/-- A text of which something is left still has its NUL. -/
theorem rest_terminated
    {byte : UInt8}
    {rest text : List UInt8}
    (shape : byte :: rest = text ++ [0])
    (noNul : (0 : UInt8) ∉ text)
    (goesOn : rest ≠ []) :
    ∃ later, rest = later ++ [0] ∧ (0 : UInt8) ∉ later := by
  cases text with
  | nil =>
      exact absurd (List.cons.inj shape).2 goesOn
  | cons first later =>
      exact ⟨later, (List.cons.inj shape).2,
        fun member => noNul (List.mem_cons_of_mem first member)⟩

/-- The last byte of a text is its NUL. -/
theorem last_isNul
    {byte : UInt8}
    {text : List UInt8}
    (shape : [byte] = text ++ [0]) :
    byte = 0 := by
  cases text with
  | nil => exact (List.cons.inj shape).1
  | cons first later => simp at shape

namespace Orderly

omit [DecidableEq Id] in
/-- The pages are zeroed when the driver is loaded. -/
theorem loaded
    (zeroed : ∀ offset, offset < logBufOutputBufSize → memory (buffer.phys + offset) = 0) :
    Orderly buffer memory (State.loaded memory : State Id) := by
  have zero : ∀ page offset, page < logLineBufSize → offset < pageSize →
      memory (buffer.base page + offset) = 0 := by
    intro page offset isPage inside
    obtain ⟨above, below⟩ :
        buffer.phys ≤ buffer.base page + offset ∧
          buffer.base page + offset < buffer.phys + logBufOutputBufSize :=
      place_inside isPage inside
    have located : buffer.phys + (buffer.base page + offset - buffer.phys) =
        buffer.base page + offset := Nat.add_sub_cancel' above
    rw [← located]
    exact zeroed _ (by omega)
  refine ⟨fun _ _ => rfl, ?_, ?_, ?_, ?_, ?_, ?_⟩
  · intro program address bytes printing
    cases printing
  · exact fun page isPage => zero page _ isPage (by decide)
  · rintro page _ first second ⟨address, bytes, printing, _⟩
    cases printing
  · exact fun page => List.not_mem_nil
  · rintro page offset bytes program _ ⟨_, _, printing⟩
    cases printing
  · intro page isPage _ _
    have holds : Holds pageSize memory (buffer.base page) [] :=
      Holds.empty (by decide) fun offset inside => zero page offset isPage inside
    exact List.eq_nil_of_length_eq_zero holds.strlen_eq

end Orderly

/-! ### A program is given a page -/

section Begin

variable
  {program other : Id}
  {context : CString}
  {there address place : Nat}
  {text bytes : List UInt8}

/-- The page of its first address. -/
theorem page_start : buffer.page (buffer.base page) = page := by
  have first : buffer.page (buffer.base page + 0) = page := page_base (by decide)
  exact first

/-- It prints its text with the NUL. -/
theorem begin_self :
    (state.begin buffer program address text).phases program =
      .printing address (text ++ [0]) :=
  Function.update_self _ _ _

/-- Who prints afterwards is the program, or has printed before. -/
theorem begin_printing
    (printing : (state.begin buffer program address text).phases other = .printing place bytes) :
    (other = program ∧ place = address ∧ bytes = text ++ [0]) ∨
      (other ≠ program ∧ state.phases other = .printing place bytes) := by
  by_cases same : other = program
  · rw [same, begin_self] at printing
    obtain ⟨rfl, rfl⟩ := Phase.printing.inj printing
    exact Or.inl ⟨same, rfl, rfl⟩
  · exact Or.inr ⟨same, (Function.update_of_ne same _ _).symm.trans printing⟩

/-- Whoever has printed to a page goes on with it. -/
theorem prints_begin
    (ready : state.phases program = .ready)
    (prints : Prints buffer state there other) :
    Prints buffer (state.begin buffer program address text) there other := by
  obtain ⟨place, bytes, printing, isThere⟩ := prints
  have different : other ≠ program := by
    rintro rfl
    rw [ready] at printing
    cases printing
  exact ⟨place, bytes, (Function.update_of_ne different _ _).trans printing, isThere⟩

/-- No other page gets a program. -/
theorem begin_prints
    (elsewhere : there ≠ page)
    (prints : Prints buffer (state.begin buffer program (buffer.base page) text) there other) :
    Prints buffer state there other := by
  obtain ⟨place, bytes, printing, isThere⟩ := prints
  rcases begin_printing printing with ⟨_, rfl, _⟩ | ⟨_, earlier⟩
  · exact absurd (isThere.symm.trans page_start) elsewhere
  · exact ⟨place, bytes, earlier, isThere⟩

/-- A page on which no programs meet was given to nobody else. -/
theorem begin_unclashed
    (free : ¬ (state.begin buffer program (buffer.base page) text).clashed page) :
    ¬ Prints buffer state page other := by
  intro prints
  apply free
  simp only [State.begin, page_start, Function.update_self]
  exact Or.inr ⟨other, prints⟩

/-- On the other pages programs meet as before. -/
theorem begin_clashed
    (elsewhere : there ≠ page) :
    (state.begin buffer program (buffer.base page) text).clashed there ↔
      state.clashed there := by
  simp only [State.begin, page_start, Function.update_of_ne elsewhere]

/-- The text is meant for the page that was given. -/
theorem begin_latest_self :
    (state.begin buffer program (buffer.base page) text).latest page = text := by
  simp only [State.begin, page_start, Function.update_self]

/-- The other pages keep their texts. -/
theorem begin_latest
    (elsewhere : there ≠ page) :
    (state.begin buffer program (buffer.base page) text).latest there = state.latest there := by
  simp only [State.begin, page_start, Function.update_of_ne elsewhere]

namespace Orderly

/-- Every program stands at a place of a page. -/
theorem begin_located
    (orderly : Orderly buffer start state)
    (isPage : page < logLineBufSize)
    (short : context.bytes.length < pageSize)
    (printing :
      (state.begin buffer program (buffer.base page) context.bytes).phases other =
        .printing place bytes) :
    ∃ there offset text,
      PrintsAt buffer (state.begin buffer program (buffer.base page) context.bytes) there offset
          bytes other ∧
        place = buffer.base there + offset ∧ bytes = text ++ [0] ∧ (0 : UInt8) ∉ text := by
  rcases begin_printing printing with ⟨_, rfl, rfl⟩ | ⟨_, earlier⟩
  · have room : 0 + (context.bytes ++ [0]).length ≤ pageSize := by
      rw [List.length_append, List.length_singleton, Nat.zero_add]
      exact short
    exact ⟨page, 0, context.bytes, ⟨isPage, room, printing⟩, rfl, rfl, context.noNul⟩
  · obtain ⟨there, offset, text, ⟨isThere, fits, _⟩, rfl, shape, noNul⟩ :=
      orderly.located other place bytes earlier
    exact ⟨there, offset, text, ⟨isThere, fits, printing⟩, rfl, shape, noNul⟩

/-- Where no programs meet there is one at most. -/
theorem begin_alone
    (orderly : Orderly buffer start state)
    {first second : Id}
    (free : ¬ (state.begin buffer program (buffer.base page) text).clashed there)
    (firstPrints :
      Prints buffer (state.begin buffer program (buffer.base page) text) there first)
    (secondPrints :
      Prints buffer (state.begin buffer program (buffer.base page) text) there second) :
    first = second := by
  by_cases here : there = page
  · subst here
    have isProgram :
        ∀ {other},
          Prints buffer (state.begin buffer program (buffer.base there) text) there other →
          other = program := by
      rintro other ⟨place, bytes, printing, isThere⟩
      rcases begin_printing printing with ⟨same, _, _⟩ | ⟨_, earlier⟩
      · exact same
      · exact absurd ⟨place, bytes, earlier, isThere⟩ (begin_unclashed free)
    exact (isProgram firstPrints).trans (isProgram secondPrints).symm
  · exact orderly.alone there (fun met => free ((begin_clashed here).mpr met)) first second
      (begin_prints here firstPrints) (begin_prints here secondPrints)

/-- What a page holds and what is still to be stored make up the text for it. -/
theorem begin_printed
    (orderly : Orderly buffer start state)
    (free : ¬ (state.begin buffer program (buffer.base page) text).clashed there)
    (standing :
      PrintsAt buffer (state.begin buffer program (buffer.base page) text) there offset bytes
        other) :
    read state.memory (buffer.base there) offset ++ bytes =
      (state.begin buffer program (buffer.base page) text).latest there ++ [0] := by
  obtain ⟨isThere, fits, printing⟩ := standing
  rcases begin_printing printing with ⟨_, place, rfl⟩ | ⟨_, earlier⟩
  · have inside : offset < pageSize := by
      rw [List.length_append, List.length_singleton] at fits
      omega
    obtain ⟨rfl, rfl⟩ : there = page ∧ offset = 0 :=
      place_unique inside (by decide) (place.trans (Nat.add_zero _).symm)
    rw [begin_latest_self]
    rfl
  · obtain ⟨_, _, _, _, _, shape, _⟩ := orderly.located other _ _ earlier
    have before : PrintsAt buffer state there offset bytes other := ⟨isThere, fits, earlier⟩
    by_cases here : there = page
    · subst here
      exact absurd (before.prints (by simp [shape])) (begin_unclashed free)
    · rw [begin_latest here]
      exact orderly.printed there offset bytes other
        (fun met => free ((begin_clashed here).mpr met)) before

/-- A page that nobody prints to is not the one that was given. -/
theorem begin_settled
    (orderly : Orderly buffer start state)
    (ready : state.phases program = .ready)
    (isThere : there < logLineBufSize)
    (free : ¬ (state.begin buffer program (buffer.base page) text).clashed there)
    (quiet :
      ∀ other, ¬ Prints buffer (state.begin buffer program (buffer.base page) text) there other) :
    content pageSize (read state.memory (buffer.base there) pageSize) =
      (state.begin buffer program (buffer.base page) text).latest there := by
  have here : there ≠ page := by
    rintro rfl
    exact quiet program ⟨_, _, begin_self, page_start⟩
  rw [begin_latest here]
  exact orderly.settled there isThere (fun met => free ((begin_clashed here).mpr met))
    fun other prints => quiet other (prints_begin ready prints)

/-- A program that is given a page starts to print its text there. -/
theorem begin
    (orderly : Orderly buffer start state)
    (ready : state.phases program = .ready)
    (isPage : page < logLineBufSize)
    (short : context.bytes.length < pageSize) :
    Orderly buffer start (state.begin buffer program (buffer.base page) context.bytes) := by
  refine ⟨orderly.outside, ?_, orderly.ended, ?_, ?_, ?_, ?_⟩
  · exact fun other place bytes => orderly.begin_located isPage short
  · exact fun there free first second => orderly.begin_alone free
  · intro there
    by_cases here : there = page
    · rw [here, begin_latest_self]
      exact context.noNul
    · rw [begin_latest here]
      exact orderly.noNul there
  · exact fun there offset bytes other => orderly.begin_printed
  · exact fun there isThere => orderly.begin_settled ready isThere

end Orderly

end Begin

/-! ### A program stores a byte -/

section Store

variable
  {program other : Id}
  {byte : UInt8}
  {there address place length : Nat}
  {text rest bytes : List UInt8}

/-- The program goes on with what is left, and the others stand where they stood. -/
theorem store_printing
    (printing : (state.store program address byte rest).phases other = .printing place bytes) :
    (other = program ∧ place = address + 1 ∧ bytes = rest ∧ rest ≠ []) ∨
      (other ≠ program ∧ state.phases other = .printing place bytes) := by
  by_cases same : other = program
  · subst same
    have resumed : Phase.resume (address + 1) rest = .printing place bytes :=
      (Function.update_self _ _ _).symm.trans printing
    exact Or.inl ⟨rfl, resume_printing resumed⟩
  · exact Or.inr ⟨same, (Function.update_of_ne same _ _).symm.trans printing⟩

/-- A program with bytes left stands one place further. -/
theorem store_self
    (goesOn : rest ≠ []) :
    (state.store program address byte rest).phases program = .printing (address + 1) rest := by
  obtain ⟨first, behind, rfl⟩ := List.exists_cons_of_ne_nil goesOn
  exact Function.update_self _ _ _

/-- A store leaves the other pages. -/
theorem store_elsewhere
    (inside : offset < pageSize)
    (elsewhere : there ≠ page)
    (within : length ≤ pageSize) :
    read (state.store program (buffer.base page + offset) byte rest).memory (buffer.base there)
        length =
      read state.memory (buffer.base there) length := by
  have size : pageSize = 4096 := rfl
  apply read_update_outside
  simp only [LogBuffer.base, size] at *
  omega

/-- A store makes what is printed longer. -/
theorem store_grown :
    read (state.store program (buffer.base page + offset) byte rest).memory (buffer.base page)
        (offset + 1) =
      read state.memory (buffer.base page) offset ++ [byte] :=
  read_update_behind

omit [DecidableEq Id] in
/-- The place of a program that has a byte to store. -/
theorem PrintsAt.inside
    (standing : PrintsAt buffer state page offset (byte :: rest) program) :
    offset < pageSize := by
  have fits := standing.2.1
  rw [List.length_cons] at fits
  omega

/-- A program stays on its page. -/
theorem store_prints
    (standing : PrintsAt buffer state page offset (byte :: rest) program)
    (prints :
      Prints buffer (state.store program (buffer.base page + offset) byte rest) there other) :
    Prints buffer state there other := by
  obtain ⟨place, bytes, printing, isThere⟩ := prints
  rcases store_printing printing with ⟨rfl, rfl, _, goesOn⟩ | ⟨_, earlier⟩
  · have fits := standing.2.1
    have some := List.length_pos_iff.mpr goesOn
    rw [List.length_cons] at fits
    rw [Nat.add_assoc, page_base (by omega)] at isThere
    subst isThere
    exact standing.prints (List.cons_ne_nil _ _)
  · exact ⟨place, bytes, earlier, isThere⟩

namespace Orderly

/-- No byte outside of the buffer is stored to. -/
theorem store_outside
    (orderly : Orderly buffer start state)
    (standing : PrintsAt buffer state page offset (byte :: rest) program)
    (outside : place < buffer.phys ∨ buffer.phys + logBufOutputBufSize ≤ place) :
    (state.store program (buffer.base page + offset) byte rest).memory place = start place := by
  obtain ⟨above, below⟩ :
      buffer.phys ≤ buffer.base page + offset ∧
        buffer.base page + offset < buffer.phys + logBufOutputBufSize :=
    place_inside standing.1 standing.inside
  exact (Function.update_of_ne (by omega) _ _).trans (orderly.outside place outside)

/-- Every program stands at a place of a page. -/
theorem store_located
    (orderly : Orderly buffer start state)
    (standing : PrintsAt buffer state page offset (byte :: rest) program)
    (shape : byte :: rest = text ++ [0])
    (noNul : (0 : UInt8) ∉ text)
    (printing :
      (state.store program (buffer.base page + offset) byte rest).phases other =
        .printing place bytes) :
    ∃ there offset' text,
      PrintsAt buffer (state.store program (buffer.base page + offset) byte rest) there offset'
          bytes other ∧
        place = buffer.base there + offset' ∧ bytes = text ++ [0] ∧ (0 : UInt8) ∉ text := by
  rcases store_printing printing with ⟨_, rfl, rfl, goesOn⟩ | ⟨_, earlier⟩
  · obtain ⟨isPage, fits, _⟩ := standing
    obtain ⟨later, whole, laterNoNul⟩ := rest_terminated shape noNul goesOn
    rw [List.length_cons] at fits
    exact ⟨page, offset + 1, later, ⟨isPage, by omega, printing⟩, Nat.add_assoc _ _ _, whole,
      laterNoNul⟩
  · obtain ⟨there, offset, text, ⟨isThere, fits, _⟩, rfl, shape, noNul⟩ :=
      orderly.located other place bytes earlier
    exact ⟨there, offset, text, ⟨isThere, fits, printing⟩, rfl, shape, noNul⟩

/-- The last byte of a page is stored only as the end of a text. -/
theorem store_ended
    (orderly : Orderly buffer start state)
    (standing : PrintsAt buffer state page offset (byte :: rest) program)
    (shape : byte :: rest = text ++ [0])
    (isThere : there < logLineBufSize) :
    (state.store program (buffer.base page + offset) byte rest).memory
        (buffer.base there + (pageSize - 1)) =
      0 := by
  by_cases last : buffer.base there + (pageSize - 1) = buffer.base page + offset
  · have atEnd : pageSize - 1 = offset :=
      (place_unique (by decide) standing.inside last).2
    have fits := standing.2.1
    rw [List.length_cons] at fits
    obtain rfl : rest = [] := List.eq_nil_of_length_eq_zero (by omega)
    rw [last, ← last_isNul shape]
    exact Function.update_self _ _ _
  · simp only [State.store, Function.update_of_ne last]
    exact orderly.ended there isThere

/-- What a page holds and what is still to be stored make up the text for it. -/
theorem store_printed
    (orderly : Orderly buffer start state)
    (standing : PrintsAt buffer state page offset (byte :: rest) program)
    (free : ¬ state.clashed there)
    (after :
      PrintsAt buffer (state.store program (buffer.base page + offset) byte rest) there place
        bytes other) :
    read (state.store program (buffer.base page + offset) byte rest).memory (buffer.base there)
        place ++
        bytes =
      state.latest there ++ [0] := by
  obtain ⟨isThere, fits, printing⟩ := after
  rcases store_printing printing with ⟨_, isPlace, rfl, goesOn⟩ | ⟨different, earlier⟩
  · have some := List.length_pos_iff.mpr goesOn
    have room := standing.2.1
    rw [List.length_cons] at room
    obtain ⟨rfl, rfl⟩ : there = page ∧ place = offset + 1 :=
      place_unique (by omega) (by omega) isPlace
    rw [store_grown, List.append_assoc]
    exact orderly.printed there offset _ program free standing
  · obtain ⟨_, _, _, _, _, shape, _⟩ := orderly.located other _ _ earlier
    have before : PrintsAt buffer state there place bytes other := ⟨isThere, fits, earlier⟩
    have elsewhere : there ≠ page := by
      rintro rfl
      exact different (orderly.alone there free other program
        (before.prints (by simp [shape])) (standing.prints (List.cons_ne_nil _ _)))
    rw [store_elsewhere standing.inside elsewhere (by omega)]
    exact orderly.printed there place bytes other free before

/-- The page of a program that stores its last byte holds its text. -/
theorem store_finished
    (orderly : Orderly buffer start state)
    (standing : PrintsAt buffer state page offset [byte] program)
    (free : ¬ state.clashed page) :
    content pageSize
        (read (state.store program (buffer.base page + offset) byte []).memory (buffer.base page)
          pageSize) =
      state.latest page := by
  have inside := standing.inside
  have whole := orderly.printed page offset [byte] program free standing
  have grown :
      read (state.store program (buffer.base page + offset) byte []).memory (buffer.base page)
          (offset + 1) =
        read state.memory (buffer.base page) offset ++ [byte] :=
    store_grown
  rw [← grown] at whole
  obtain ⟨behind, total⟩ := Nat.exists_eq_add_of_le (show offset + 1 ≤ pageSize from inside)
  rw [total, read_add, whole, List.append_assoc, List.singleton_append, ← total]
  have length := congrArg List.length whole
  rw [length_read, List.length_append, List.length_singleton] at length
  exact content_terminated (orderly.noNul page) (by omega)

/-- A page that nobody prints to holds the text that was meant for it. -/
theorem store_settled
    (orderly : Orderly buffer start state)
    (standing : PrintsAt buffer state page offset (byte :: rest) program)
    (isThere : there < logLineBufSize)
    (free : ¬ state.clashed there)
    (quiet :
      ∀ other,
        ¬ Prints buffer (state.store program (buffer.base page + offset) byte rest) there
          other) :
    content pageSize
        (read (state.store program (buffer.base page + offset) byte rest).memory
          (buffer.base there) pageSize) =
      state.latest there := by
  by_cases here : there = page
  · subst here
    have finished : rest = [] := by
      by_contra goesOn
      have some := List.length_pos_iff.mpr goesOn
      have room := standing.2.1
      rw [List.length_cons] at room
      exact quiet program
        ⟨_, _, store_self goesOn, (Nat.add_assoc _ _ _).symm ▸ page_base (by omega)⟩
    subst finished
    exact orderly.store_finished standing free
  · rw [store_elsewhere standing.inside here (Nat.le_refl _)]
    refine orderly.settled there isThere free ?_
    rintro other ⟨place, bytes, printing, inThere⟩
    have different : other ≠ program := by
      rintro rfl
      rw [standing.2.2] at printing
      obtain ⟨rfl, _⟩ := Phase.printing.inj printing
      exact here (inThere.symm.trans (page_base standing.inside))
    exact quiet other
      ⟨place, bytes, (Function.update_of_ne different _ _).trans printing, inThere⟩

/-- A store goes on with a text, or ends it. -/
theorem store
    (orderly : Orderly buffer start state)
    (prints : state.phases program = .printing address (byte :: rest)) :
    Orderly buffer start (state.store program address byte rest) := by
  obtain ⟨page, offset, text, standing, rfl, shape, noNul⟩ :=
    orderly.located program address _ prints
  refine ⟨?_, ?_, ?_, ?_, orderly.noNul, ?_, ?_⟩
  · exact fun cell => orderly.store_outside standing
  · exact fun other place bytes => orderly.store_located standing shape noNul
  · exact fun there => orderly.store_ended standing shape
  · exact fun there free first second firstPrints secondPrints =>
      orderly.alone there free first second (store_prints standing firstPrints)
        (store_prints standing secondPrints)
  · exact fun there place bytes other => orderly.store_printed standing
  · exact fun there => orderly.store_settled standing

end Orderly

end Store

namespace Orderly

/-- Every step of every program keeps the pages in order. -/
theorem step
    {label : Label Id}
    (limited : RefusesOverflow admits)
    (orderly : Orderly buffer start state)
    (step : Step admits buffer state label after) :
    Orderly buffer start after := by
  cases step with
  | refused _ _ => exact orderly
  | mapped ready short granted =>
      obtain ⟨isPage, rfl⟩ := mapMemory_base limited granted
      exact orderly.begin ready isPage short
  | stores prints => exact orderly.store prints

end Orderly

/-! ## What is logged -/

/-- The bytes from `GLOG->buff` on. -/
def buff (buffer : LogBuffer) (state : State Id) : Memory :=
  fun offset => state.memory (buffer.phys + offset)

omit [DecidableEq Id] in
/-- A page is read from its base. -/
theorem read_buff :
    read (buff buffer state) (page <<< 12) pageSize =
      read state.memory (buffer.base page) pageSize := by
  apply read_congr
  intro index _
  rw [buff, LogBuffer.base, Nat.shiftLeft_eq, Nat.add_assoc]
  rfl

/-- No program prints to a page, and no two have had it at the same time. -/
def Quiet (buffer : LogBuffer) (state : State Id) (page : Nat) : Prop :=
  ¬ state.clashed page ∧ ∀ program, ¬ Prints buffer state page program

/--
In every interleaving of the stores, programs get pages of the buffer only, by their number
modulo 2^20, and no byte outside of it changes.  Every page holds a terminated line.  A quiet
page holds the text that was meant for it last, and when all are quiet, `mylog_show` puts
those texts into the output page, cut to 31 characters with their numbers.
-/
theorem lines_follow_programs
    (limited : RefusesOverflow admits)
    (zeroed : ∀ offset, offset < logBufOutputBufSize → memory (buffer.phys + offset) = 0)
    (reachable : Reachable (Step admits buffer) (State.loaded memory) state) :
    (∀ idx address,
        mapMemory admits buffer idx = some address →
        idx % 2 ^ 20 < 32 ∧ address = buffer.base (idx % 2 ^ 20).toNat) ∧
      (∀ address,
        address < buffer.phys ∨ buffer.phys + logBufOutputBufSize ≤ address →
        state.memory address = memory address) ∧
      (∀ i, i < logLineBufSize → (0 : UInt8) ∈ read (buff buffer state) (i <<< 12) pageSize) ∧
      (∀ i,
        i < logLineBufSize →
        Quiet buffer state i →
        line (buff buffer state) i = state.latest i) ∧
      ∀ output buf,
        (∀ offset, offset < pageSize → output (buf + offset) = 0) →
        (∀ i, i < logLineBufSize → Quiet buffer state i) →
        Holds pageSize (mylogShow (buff buffer state) output buf).2 buf
          ((List.range logLineBufSize).flatMap fun i =>
            (formatted i (state.latest i)).take 31) := by
  have orderly : Orderly buffer memory state :=
    reachable.invariant (Orderly.loaded zeroed) fun held step => held.step limited step
  have lines :
      ∀ i,
        i < logLineBufSize →
        Quiet buffer state i →
        line (buff buffer state) i = state.latest i := by
    intro i isPage quiet
    rw [line, read_buff]
    exact orderly.settled i isPage quiet.1 quiet.2
  refine ⟨?_, orderly.outside, ?_, lines, ?_⟩
  · intro idx address granted
    obtain ⟨isPage, rfl⟩ := mapMemory_base limited granted
    have number := pageOffset_eq isPage
    rw [← number]
    exact ⟨by exact_mod_cast isPage, rfl⟩
  · intro i isPage
    rw [read_buff]
    refine List.mem_iff_getElem?.mpr ⟨pageSize - 1, ?_⟩
    rw [getElem?_read (by decide), orderly.ended i isPage]
  · intro output buf blank quiet
    have shownLines := (@showRounds (buff buffer state) output buf blank _ (Nat.le_refl _)).2
    have same : shown (buff buffer state) logLineBufSize =
        (List.range logLineBufSize).flatMap fun i => (formatted i (state.latest i)).take 31 := by
      apply List.flatMap_congr
      intro i member
      have isPage := List.mem_range.mp member
      rw [lines i isPage (quiet i isPage)]
    rw [← same]
    exact shownLines

/-- The buffer at the second page of the memory. -/
def secondPage : LogBuffer where
  phys := 4096
  aligned := rfl
  inside := by decide

/-- A kernel that looks at the end of a range only. -/
def checksEnd (pgoff size : Nat) : Bool :=
  pgoff * pageSize + size < unsignedLong

/-- Two programs are about to print a letter each, to page 3 and to page 5. -/
def twoStarted : State Bool :=
  ((State.loaded fun _ => 0).begin secondPage true (4096 + 3 * 4096) [65]).begin secondPage false
    (4096 + 5 * 4096) [66]

/-- They have printed in turn. -/
def twoPrinted : State Bool :=
  (((twoStarted.store false (4096 + 5 * 4096) 66 [0]).store true (4096 + 3 * 4096) 65 [0]).store
    true (4096 + 3 * 4096 + 1) 0 []).store false (4096 + 5 * 4096 + 1) 0 []

theorem twoPrinted_reachable :
    Reachable (Step checksEnd secondPage) (State.loaded fun _ => 0) twoPrinted := by
  have granted : mapMemory checksEnd secondPage 3 = some (4096 + 3 * 4096) := by decide
  have grantedOther : mapMemory checksEnd secondPage (2 ^ 20 + 5) = some (4096 + 5 * 4096) := by
    decide
  let context : CString := ⟨[65], by decide⟩
  let otherContext : CString := ⟨[66], by decide⟩
  have started :
      Step checksEnd secondPage (State.loaded fun _ => 0) (.start true 3 context)
        ((State.loaded fun _ => 0).begin secondPage true (4096 + 3 * 4096) [65]) :=
    .mapped rfl (by decide) granted
  have startedOther :
      Step checksEnd secondPage
        ((State.loaded fun _ => 0).begin secondPage true (4096 + 3 * 4096) [65])
        (.start false (2 ^ 20 + 5) otherContext) twoStarted :=
    .mapped rfl (by decide) grantedOther
  have begun := (Reachable.refl.next started).next startedOther
  exact (((begun.next (.stores rfl)).next (.stores rfl)).next (.stores rfl)).next (.stores rfl)

theorem lines_follow_programs_twoPrinted :
    line (buff secondPage twoPrinted) 3 = [65] ∧ line (buff secondPage twoPrinted) 5 = [66] := by
  have limited : RefusesOverflow checksEnd := fun _ _ admitted => of_decide_eq_true admitted
  obtain ⟨_, _, _, lines, _⟩ :=
    lines_follow_programs limited (fun _ _ => rfl) twoPrinted_reachable
  have finished : ∀ page program, ¬ Prints secondPage twoPrinted page program := by
    rintro page program ⟨address, bytes, printing, _⟩
    cases program <;> cases printing
  refine ⟨lines 3 (by decide) ⟨?_, finished 3⟩, lines 5 (by decide) ⟨?_, finished 5⟩⟩
  · rintro (never | ⟨other, address, bytes, printing, _⟩)
    · exact never
    · cases printing
  · rintro (never | ⟨other, address, bytes, printing, page⟩)
    · exact never
    · cases other with
      | false => cases printing
      | true =>
          obtain ⟨rfl, _⟩ := Phase.printing.inj printing
          exact absurd page (by decide)

end Sysprog.LogDevice
