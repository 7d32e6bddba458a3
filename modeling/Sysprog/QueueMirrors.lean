import Sysprog.QueueMapping

namespace Sysprog.QueueMapping

open AddressSpace ByteMemory Execution MachineWord MirroredBuffer

/-!
# Every queue has a mirrored buffer of its own

Whatever a process does with its queues and beside them, the buffer of every queue shows the
queue's cells twice, a copy into it reaches no other queue, and `queue_destroy` leaves
nothing behind.
-/

variable {Id : Type} {pageSize s : Nat} {process after : Process} {q : Mapping}
  {answers : InitAnswers}

/-! ## The two functions -/

/-- The pages of a length that is a number of whole pages. -/
theorem pageCount_of_dvd {length : Nat} (positive : 0 < pageSize) (whole : pageSize ∣ length) :
    pageCount pageSize length = length / pageSize := by
  obtain ⟨count, rfl⟩ := whole
  rw [pageCount, Nat.mul_add_div positive, Nat.div_eq_of_lt (by omega), Nat.add_zero,
    Nat.mul_div_cancel_left _ positive]

/-- What `queue_init` has done when it returns. -/
theorem queueInit_some (returned : queueInit pageSize process s answers = some (q, after)) :
    s % pageSize = 0 ∧
      answers.memfdCreate = some q.fd ∧
      answers.reserve = some q.buffer ∧
      answers.first = true ∧
      answers.second = true ∧
      q.size = s ∧
      after =
        (((process.memfdCreate q.fd).reserve pageSize q.buffer (2 * s % words)).mapShared
          pageSize q.buffer s q.fd).mapShared pageSize (add q.buffer s) s q.fd := by
  rw [queueInit] at returned
  split at returned
  · cases returned
  rename_i whole
  split at returned
  · cases returned
  rename_i fd descriptor
  split at returned
  · cases returned
  split at returned
  · cases returned
  rename_i buffer reserved
  split at returned
  · cases returned
  rename_i first
  split at returned
  · cases returned
  rename_i second
  split at returned
  · cases returned
  split at returned
  · cases returned
  split at returned
  · cases returned
  obtain ⟨rfl, rfl⟩ := Prod.mk.inj (Option.some.inj returned)
  exact ⟨not_not.mp whole, descriptor, reserved, Bool.of_not_eq_false first,
    Bool.of_not_eq_false second, rfl, rfl⟩

/-- A buffer consists of whole pages, at least one, and ends in the address space. -/
structure Mapping.Whole (pageSize : Nat) (q : Mapping) : Prop where
  buffer : q.buffer = q.first pageSize * pageSize
  size : q.size = q.count pageSize * pageSize
  some : 0 < q.count pageSize
  inside : q.buffer + 2 * q.size < words

/-- The pages of a queue. -/
theorem not_apart_iff {page : Nat} :
    ¬ q.Apart pageSize page ↔
      ∃ offset, offset < 2 * q.count pageSize ∧ page = q.first pageSize + offset := by
  rw [Mapping.Apart]
  constructor
  · intro inside
    exact ⟨page - q.first pageSize, by omega, by omega⟩
  · rintro ⟨offset, inside, rfl⟩
    omega

/-- `queue_init` has mapped a new file twice over pages that were free. -/
structure Initialised (pageSize : Nat) (process after : Process) (q : Mapping) : Prop where
  whole : q.Whole pageSize
  closed : process.fds q.fd = none
  fds : after.fds = Function.update process.fds q.fd (some process.files)
  files : after.files = process.files + 1
  contents :
    after.space.contents =
      Function.update process.space.contents process.files fun _ => 0
  free :
    ∀ page,
      page < 2 * q.count pageSize → process.space.pages (q.first pageSize + page) = none
  pages :
    ∀ page,
      page < 2 * q.count pageSize →
      after.space.pages (q.first pageSize + page) =
        some (.file process.files (page % q.count pageSize))
  others : ∀ page, q.Apart pageSize page → after.space.pages page = process.space.pages page

/-- The pages of a shared mapping show the file. -/
theorem mapShared_inside
    {address length fd file page : Nat}
    (opened : process.fds fd = some file)
    (inside : page < pageCount pageSize length) :
    (process.mapShared pageSize address length fd).space.pages (address / pageSize + page) =
      some (.file file page) := by
  rw [Process.mapShared, mapPages_inside inside, opened]
  rfl

/-- Other pages stay. -/
theorem mapShared_outside
    {address length fd page : Nat}
    (outside :
      page < address / pageSize ∨ address / pageSize + pageCount pageSize length ≤ page) :
    (process.mapShared pageSize address length fd).space.pages page =
      process.space.pages page := by
  simp only [Process.mapShared]
  exact mapPages_outside outside

/-- `queue_init`, if it returns. -/
theorem queueInit_initialised
    (positive : 0 < pageSize)
    (allowed : answers.Allowed pageSize process s)
    (returned : queueInit pageSize process s answers = some (q, after)) :
    q.size = s ∧ Initialised pageSize process after q := by
  obtain ⟨whole, descriptor, reserved, first, second, rfl, rfl⟩ := queueInit_some returned
  obtain ⟨_, firstPage⟩ := allowed.aligned _ reserved
  have firstEnd := allowed.first _ reserved first
  have sum : add q.buffer q.size = q.buffer + q.size := add_of_lt firstEnd
  have secondEnd := allowed.second _ reserved second
  have some := allowed.nonempty _ reserved
  rw [sum] at secondEnd ⊢
  have noWrap : 2 * q.size % words = 2 * q.size := Nat.mod_eq_of_lt (by omega)
  rw [noWrap] at some ⊢
  have sizeWhole : pageSize ∣ q.size := Nat.dvd_of_mod_eq_zero whole
  have sized : q.size = q.count pageSize * pageSize := (Nat.div_mul_cancel sizeWhole).symm
  have placed : q.buffer = q.first pageSize * pageSize := (Nat.div_mul_cancel firstPage).symm
  have nonempty : 0 < q.count pageSize := by
    rcases Nat.eq_zero_or_pos (q.count pageSize) with none | positive
    · rw [sized, none] at some
      simp at some
    · exact positive
  have onePart : pageCount pageSize q.size = q.count pageSize :=
    pageCount_of_dvd positive sizeWhole
  have bothParts : pageCount pageSize (2 * q.size) = 2 * q.count pageSize := by
    rw [pageCount_of_dvd positive (Nat.dvd_mul_left_of_dvd sizeWhole 2),
      Nat.mul_div_assoc 2 sizeWhole]
    rfl
  have secondPage : (q.buffer + q.size) / pageSize = q.first pageSize + q.count pageSize := by
    rw [placed, sized, ← Nat.add_mul, Nat.mul_div_cancel _ positive]
  have opened :
      ((process.memfdCreate q.fd).reserve pageSize q.buffer (2 * q.size)).fds q.fd =
        .some process.files :=
    Function.update_self _ _ _
  have openedAgain :
      (((process.memfdCreate q.fd).reserve pageSize q.buffer (2 * q.size)).mapShared pageSize
        q.buffer q.size q.fd).fds q.fd = .some process.files :=
    opened
  refine ⟨rfl, ⟨placed, sized, nonempty, by omega⟩, allowed.descriptor _ descriptor, rfl, rfl, rfl,
    ?_, ?_, ?_⟩
  · intro page inside
    have free := allowed.free _ reserved page
    rw [noWrap, bothParts] at free
    exact free inside
  · intro page inside
    by_cases firstHalf : page < q.count pageSize
    · rw [mapShared_outside (by rw [secondPage, Mapping.first]; omega),
        Nat.mod_eq_of_lt firstHalf]
      exact mapShared_inside opened (onePart ▸ firstHalf)
    · obtain ⟨behind, rfl⟩ := Nat.exists_eq_add_of_le (Nat.le_of_not_lt firstHalf)
      have secondHalf : behind < q.count pageSize := by omega
      rw [Nat.add_mod_left, Nat.mod_eq_of_lt secondHalf, ← Nat.add_assoc, ← secondPage]
      exact mapShared_inside openedAgain (onePart ▸ secondHalf)
  · intro page apart
    rw [Mapping.Apart, Mapping.first] at apart
    rw [mapShared_outside (by rw [secondPage, onePart, Mapping.first]; omega),
      mapShared_outside (by rw [onePart]; omega)]
    have apartFromBoth :
        page < q.buffer / pageSize ∨
          q.buffer / pageSize + pageCount pageSize (2 * q.size) ≤ page := by
      rw [bothParts]
      exact apart
    simp only [Process.reserve]
    exact mapPages_outside apartFromBoth

/-- What `queue_destroy` has done when it returns. -/
theorem queueDestroy_some
    {answers : DestroyAnswers}
    (returned : queueDestroy pageSize process q answers = some after) :
    after =
      ((process.munmap pageSize (add q.buffer q.size) q.size).munmap pageSize q.buffer
        q.size).close q.fd := by
  rw [queueDestroy] at returned
  split at returned
  · cases returned
  split at returned
  · cases returned
  split at returned
  · cases returned
  split at returned
  · cases returned
  split at returned
  · cases returned
  split at returned
  · cases returned
  exact (Option.some.inj returned).symm

/-- `queue_destroy` has taken the pages and the descriptor of a queue back, and no others. -/
structure Destroyed (pageSize : Nat) (process after : Process) (q : Mapping) : Prop where
  fds : after.fds = Function.update process.fds q.fd none
  files : after.files = process.files
  contents : after.space.contents = process.space.contents
  pages : ∀ page, ¬ q.Apart pageSize page → after.space.pages page = none
  others : ∀ page, q.Apart pageSize page → after.space.pages page = process.space.pages page

/-- `queue_destroy`, if it returns. -/
theorem queueDestroy_destroyed
    {answers : DestroyAnswers}
    (positive : 0 < pageSize)
    (whole : q.Whole pageSize)
    (returned : queueDestroy pageSize process q answers = some after) :
    Destroyed pageSize process after q := by
  have onePart : pageCount pageSize q.size = q.count pageSize :=
    pageCount_of_dvd positive (Dvd.intro_left _ whole.size.symm)
  have some : 0 < q.size := by
    rw [whole.size]
    exact Nat.mul_pos whole.some positive
  have sum : add q.buffer q.size = q.buffer + q.size :=
    add_of_lt (by have := whole.inside; omega)
  have secondPage : (q.buffer + q.size) / pageSize = q.first pageSize + q.count pageSize := by
    rw [whole.buffer, whole.size, ← Nat.add_mul, Nat.mul_div_cancel _ positive]
  rw [queueDestroy_some returned, sum]
  have pages :
      ∀ page,
        (((process.munmap pageSize (q.buffer + q.size) q.size).munmap pageSize q.buffer
          q.size).close q.fd).space.pages page =
          if q.first pageSize ≤ page ∧ page < q.first pageSize + pageCount pageSize q.size then
            none
          else if
              (q.buffer + q.size) / pageSize ≤ page ∧
                page < (q.buffer + q.size) / pageSize + pageCount pageSize q.size then
            none
          else
            process.space.pages page :=
    fun _ => rfl
  simp only [secondPage, onePart] at pages
  refine ⟨rfl, rfl, rfl, ?_, ?_⟩
  · intro page inside
    rw [Mapping.Apart] at inside
    rw [pages]
    split
    · rfl
    · rw [if_pos (by omega)]
  · intro page apart
    rw [Mapping.Apart] at apart
    rw [pages, if_neg (by omega), if_neg (by omega)]

/-! ## The invariant -/

/-- The pages, the descriptor and the file of a queue. -/
structure Mirrored
    (pageSize : Nat)
    (process : Process)
    (q : Mapping)
    (cells : Memory)
    (file : Nat) : Prop where
  whole : q.Whole pageSize
  opened : process.fds q.fd = some file
  created : file < process.files
  pages :
    ∀ page,
      page < 2 * q.count pageSize →
      process.space.pages (q.first pageSize + page) =
        some (.file file (page % q.count pageSize))
  contents : process.space.contents file = cells

/-- Two queues share no page, no descriptor and no file. -/
structure Separate (pageSize : Nat) (process : Process) (q other : Mapping) : Prop where
  pages : ∀ page, q.Apart pageSize page ∨ other.Apart pageSize page
  fds : q.fd ≠ other.fd
  files : process.fds q.fd ≠ process.fds other.fd

/-- What every step keeps. -/
structure Kept (pageSize : Nat) (state : State Id) : Prop where
  mirrored :
    ∀ {id q},
      state.queues id = some q →
      ∃ file, Mirrored pageSize state.process q (state.cells id) file
  separate :
    ∀ {id other q another},
      id ≠ other →
      state.queues id = some q →
      state.queues other = some another →
      Separate pageSize state.process q another
  pages :
    ∀ page, state.PageApart pageSize page → state.process.space.pages page = state.ownPages page
  noPages : ∀ page, ¬ state.PageApart pageSize page → state.ownPages page = none
  fds : ∀ fd, state.FdApart fd → state.process.fds fd = state.ownFds fd
  noFds : ∀ fd, ¬ state.FdApart fd → state.ownFds fd = none

variable {state : State Id} {cells : Memory} {file : Nat}

/-- A page of a queue is mapped. -/
theorem Mirrored.mapped
    {page : Nat}
    (mirrored : Mirrored pageSize process q cells file)
    (inside : ¬ q.Apart pageSize page) :
    process.space.pages page ≠ none := by
  obtain ⟨offset, within, rfl⟩ := not_apart_iff.mp inside
  rw [mirrored.pages offset within]
  exact Option.some_ne_none _

/-- A queue goes on where its pages, its descriptor and its file are left alone. -/
theorem Mirrored.keep
    {other : Memory}
    (mirrored : Mirrored pageSize process q cells file)
    (fds : after.fds q.fd = process.fds q.fd)
    (files : process.files ≤ after.files)
    (pages :
      ∀ page, ¬ q.Apart pageSize page → after.space.pages page = process.space.pages page)
    (contents : after.space.contents file = other) :
    Mirrored pageSize after q other file where
  whole := mirrored.whole
  opened := fds.trans mirrored.opened
  created := Nat.lt_of_lt_of_le mirrored.created files
  pages := by
    intro page inside
    rw [pages _ (not_apart_iff.mpr ⟨page, inside, rfl⟩)]
    exact mirrored.pages page inside
  contents := contents

/-- The pages of a queue show its file twice. -/
theorem Mirrored.mirrors
    (positive : 0 < pageSize)
    (mirrored : Mirrored pageSize process q cells file) :
    Mirrors pageSize process.space q.buffer q.size file := by
  rw [mirrored.whole.buffer, mirrored.whole.size]
  exact mirrors_of_pages positive mirrored.pages

/-- Queues stay separate where descriptors stay. -/
theorem Separate.keep
    {other : Mapping}
    (separate : Separate pageSize process q other)
    (fds : after.fds q.fd = process.fds q.fd)
    (otherFds : after.fds other.fd = process.fds other.fd) :
    Separate pageSize after q other where
  pages := separate.pages
  fds := separate.fds
  files := by
    rw [fds, otherFds]
    exact separate.files

/-- The order of two separate queues does not matter. -/
theorem Separate.symm
    {other : Mapping}
    (separate : Separate pageSize process q other) :
    Separate pageSize process other q where
  pages := fun page => (separate.pages page).symm
  fds := separate.fds.symm
  files := separate.files.symm

/-- A new queue is separate from those that are there. -/
theorem Initialised.separate
    {other : Mapping}
    (initialised : Initialised pageSize process after q)
    (mirrored : Mirrored pageSize process other cells file) :
    Separate pageSize after q other := by
  have fds : other.fd ≠ q.fd := by
    intro same
    have opened := mirrored.opened
    rw [same, initialised.closed] at opened
    cases opened
  refine ⟨fun page => ?_, fds.symm, ?_⟩
  · by_contra neither
    obtain ⟨here, there⟩ := not_or.mp neither
    obtain ⟨offset, inside, rfl⟩ := not_apart_iff.mp here
    exact mirrored.mapped there (initialised.free offset inside)
  · rw [initialised.fds, Function.update_self, Function.update_of_ne fds, mirrored.opened]
    intro same
    exact Nat.ne_of_gt mirrored.created (Option.some.inj same)

/-- A queue that is there goes on when another one is initialised. -/
theorem Initialised.keep
    {other : Mapping}
    (initialised : Initialised pageSize process after q)
    (mirrored : Mirrored pageSize process other cells file) :
    Mirrored pageSize after other cells file := by
  have separate := initialised.separate mirrored
  refine mirrored.keep ?_ (by rw [initialised.files]; omega) ?_ ?_
  · rw [initialised.fds, Function.update_of_ne separate.fds.symm]
  · intro page inside
    exact initialised.others page ((separate.pages page).resolve_right inside)
  · rw [initialised.contents, Function.update_of_ne (Nat.ne_of_lt mirrored.created)]
    exact mirrored.contents

variable [DecidableEq Id]

namespace Kept

/-- `queue_init` makes a queue with zeroed cells. -/
theorem queueInit
    {id : Id}
    (kept : Kept pageSize state)
    (unused : state.queues id = none)
    (initialised : Initialised pageSize state.process after q) :
    Kept pageSize
      { state with
        process := after
        queues := Function.update state.queues id (some q)
        cells := Function.update state.cells id fun _ => 0 } := by
  have cases_queue :
      ∀ {other another},
        Function.update state.queues id (some q) other = some another →
        (other = id ∧ another = q) ∨ (other ≠ id ∧ state.queues other = some another) := by
    intro other another live
    by_cases same : other = id
    · rw [same, Function.update_self] at live
      exact Or.inl ⟨same, (Option.some.inj live).symm⟩
    · rw [Function.update_of_ne same] at live
      exact Or.inr ⟨same, live⟩
  have still :
      ∀ {other another},
        state.queues other = some another →
        Function.update state.queues id (some q) other = some another := by
    intro other another live
    have different : other ≠ id := by
      rintro rfl
      rw [unused] at live
      cases live
    rw [Function.update_of_ne different]
    exact live
  refine ⟨?_, ?_, ?_, ?_, ?_, ?_⟩
  · intro other another live
    rcases cases_queue live with ⟨rfl, rfl⟩ | ⟨different, before⟩
    · refine ⟨state.process.files, initialised.whole, ?_, ?_, initialised.pages, ?_⟩
      · rw [initialised.fds, Function.update_self]
      · rw [initialised.files]
        omega
      · rw [initialised.contents, Function.update_self]
        exact (Function.update_self other _ state.cells).symm
    · obtain ⟨file, mirrored⟩ := kept.mirrored before
      refine ⟨file, ?_⟩
      simp only [Function.update_of_ne different]
      exact initialised.keep mirrored
  · intro first second one two different live alsoLive
    rcases cases_queue live with ⟨rfl, rfl⟩ | ⟨notNew, before⟩
    · rcases cases_queue alsoLive with ⟨rfl, _⟩ | ⟨_, alsoBefore⟩
      · exact absurd rfl different
      · obtain ⟨file, mirrored⟩ := kept.mirrored alsoBefore
        exact initialised.separate mirrored
    · obtain ⟨file, mirrored⟩ := kept.mirrored before
      rcases cases_queue alsoLive with ⟨rfl, rfl⟩ | ⟨_, alsoBefore⟩
      · exact (initialised.separate mirrored).symm
      · obtain ⟨other, alsoMirrored⟩ := kept.mirrored alsoBefore
        refine (kept.separate different before alsoBefore).keep ?_ ?_
        · rw [initialised.fds,
            Function.update_of_ne (initialised.separate mirrored).fds.symm]
        · rw [initialised.fds,
            Function.update_of_ne (initialised.separate alsoMirrored).fds.symm]
  · intro page apart
    rw [initialised.others page (apart id q (Function.update_self _ _ _))]
    exact kept.pages page fun other another live => apart other another (still live)
  · intro page inside
    by_cases before : state.PageApart pageSize page
    · have isNew : ¬ q.Apart pageSize page := by
        intro apart
        apply inside
        intro other another live
        rcases cases_queue live with ⟨_, rfl⟩ | ⟨_, was⟩
        · exact apart
        · exact before other another was
      obtain ⟨offset, within, rfl⟩ := not_apart_iff.mp isNew
      exact (kept.pages _ before).symm.trans (initialised.free offset within)
    · exact kept.noPages page before
  · intro fd apart
    rw [initialised.fds, Function.update_of_ne (apart id q (Function.update_self _ _ _)).symm]
    exact kept.fds fd fun other another live => apart other another (still live)
  · intro fd inside
    by_cases before : state.FdApart fd
    · have isNew : fd = q.fd := by
        by_contra apart
        apply inside
        intro other another live
        rcases cases_queue live with ⟨_, rfl⟩ | ⟨_, was⟩
        · exact Ne.symm apart
        · exact before other another was
      rw [← kept.fds fd before, isNew]
      exact initialised.closed
    · exact kept.noFds fd before

/-- A copy into a queue changes its cells, and no other queue's. -/
theorem copy
    {id : Id}
    {start : Nat}
    {bytes : List UInt8}
    {space : Space Nat}
    (positive : 0 < pageSize)
    (kept : Kept pageSize state)
    (live : state.queues id = some q)
    (within : start + bytes.length ≤ 2 * q.size)
    (stored : state.process.space.storeAll pageSize (q.buffer + start) bytes = some space) :
    Kept pageSize
      { state with
        process := { state.process with space := space }
        cells := Function.update state.cells id (copyIn q.size (state.cells id) start bytes) } := by
  obtain ⟨file, mirrored⟩ := kept.mirrored live
  obtain ⟨changed, ran, pages, contents⟩ :=
    storeAll_mirrored (mirrored.mirrors positive) within
  obtain rfl := Option.some.inj (ran.symm.trans stored)
  refine ⟨?_, ?_, ?_, kept.noPages, kept.fds, kept.noFds⟩
  · intro other another alsoLive
    obtain ⟨shown, alsoMirrored⟩ := kept.mirrored alsoLive
    refine ⟨shown, alsoMirrored.keep rfl (Nat.le_refl _) (fun page _ => congrFun pages page) ?_⟩
    by_cases same : other = id
    · subst same
      obtain rfl := Option.some.inj (alsoLive.symm.trans live)
      obtain rfl := Option.some.inj (alsoMirrored.opened.symm.trans mirrored.opened)
      simp only [contents, Function.update_self, mirrored.contents]
    · have different : shown ≠ file := by
        rintro rfl
        exact (kept.separate same alsoLive live).files
          (alsoMirrored.opened.trans mirrored.opened.symm)
      simp only [contents, Function.update_of_ne different, Function.update_of_ne same]
      exact alsoMirrored.contents
  · intro first second one two different firstLive secondLive
    exact (kept.separate different firstLive secondLive).keep rfl rfl
  · intro page apart
    exact (congrFun pages page).trans (kept.pages page apart)

/-- `queue_destroy` leaves the other queues alone. -/
theorem queueDestroy
    {id : Id}
    (kept : Kept pageSize state)
    (live : state.queues id = some q)
    (destroyed : Destroyed pageSize state.process after q) :
    Kept pageSize
      { state with
        process := after
        queues := Function.update state.queues id none } := by
  have was :
      ∀ {other another},
        Function.update state.queues id none other = some another →
        other ≠ id ∧ state.queues other = some another := by
    intro other another alsoLive
    by_cases same : other = id
    · rw [same, Function.update_self] at alsoLive
      cases alsoLive
    · rw [Function.update_of_ne same] at alsoLive
      exact ⟨same, alsoLive⟩
  have stays :
      ∀ {other another},
        other ≠ id → state.queues other = some another →
        after.fds another.fd = state.process.fds another.fd := by
    intro other another different alsoLive
    have apart := (kept.separate different alsoLive live).fds
    rw [destroyed.fds, Function.update_of_ne apart]
  refine ⟨?_, ?_, ?_, ?_, ?_, ?_⟩
  · intro other another alsoLive
    obtain ⟨different, before⟩ := was alsoLive
    obtain ⟨file, mirrored⟩ := kept.mirrored before
    have separate := kept.separate different before live
    refine ⟨file, mirrored.keep (stays different before) destroyed.files.ge ?_ ?_⟩
    · intro page inside
      exact destroyed.others page ((separate.pages page).resolve_left inside)
    · rw [destroyed.contents]
      exact mirrored.contents
  · intro first second one two different firstLive secondLive
    obtain ⟨notFirst, firstBefore⟩ := was firstLive
    obtain ⟨notSecond, secondBefore⟩ := was secondLive
    exact (kept.separate different firstBefore secondBefore).keep (stays notFirst firstBefore)
      (stays notSecond secondBefore)
  · intro page apart
    by_cases own : q.Apart pageSize page
    · rw [destroyed.others page own]
      apply kept.pages
      intro other another alsoLive
      by_cases same : other = id
      · subst same
        obtain rfl := Option.some.inj (live.symm.trans alsoLive)
        exact own
      · exact apart other another ((Function.update_of_ne same _ _).trans alsoLive)
    · rw [destroyed.pages page own]
      exact (kept.noPages page fun all => own (all id q live)).symm
  · intro page inside
    refine kept.noPages page fun all => inside fun other another alsoLive => ?_
    exact all other another (was alsoLive).2
  · intro fd apart
    by_cases own : q.fd = fd
    · rw [destroyed.fds, ← own, Function.update_self]
      exact (kept.noFds q.fd fun all => all id q live rfl).symm
    · rw [destroyed.fds, Function.update_of_ne (Ne.symm own)]
      apply kept.fds
      intro other another alsoLive
      by_cases same : other = id
      · subst same
        obtain rfl := Option.some.inj (live.symm.trans alsoLive)
        exact own
      · exact apart other another ((Function.update_of_ne same _ _).trans alsoLive)
  · intro fd inside
    refine kept.noFds fd fun all => inside fun other another alsoLive => ?_
    exact all other another (was alsoLive).2

omit [DecidableEq Id] in
/-- The process maps or unmaps a page of its own. -/
theorem map
    {page : Nat}
    {backing : Option (Backing Nat)}
    (kept : Kept pageSize state)
    (apart : state.PageApart pageSize page) :
    Kept pageSize
      { state with
        process :=
          { state.process with space := state.process.space.mapPages page 1 fun _ => backing }
        ownPages := Function.update state.ownPages page backing } := by
  have others :
      ∀ other, other ≠ page →
        (state.process.space.mapPages page 1 fun _ => backing).pages other =
          state.process.space.pages other :=
    fun other different => mapPages_outside (by omega)
  refine ⟨?_, ?_, ?_, ?_, kept.fds, kept.noFds⟩
  · intro id q live
    obtain ⟨file, mirrored⟩ := kept.mirrored live
    refine ⟨file, mirrored.keep rfl (Nat.le_refl _) ?_ mirrored.contents⟩
    intro other inside
    refine others other ?_
    rintro rfl
    exact inside (apart id q live)
  · intro first second one two different firstLive secondLive
    exact (kept.separate different firstLive secondLive).keep rfl rfl
  · intro other otherApart
    by_cases same : other = page
    · subst same
      have mapped :
          (state.process.space.mapPages other 1 fun _ => backing).pages (other + 0) = backing :=
        mapPages_inside (by decide)
      simp only [Function.update_self]
      exact mapped
    · simp only [Function.update_of_ne same]
      exact (others other same).trans (kept.pages other otherApart)
  · intro other inside
    have different : other ≠ page := by
      rintro rfl
      exact inside apart
    simp only [Function.update_of_ne different]
    exact kept.noPages other inside

omit [DecidableEq Id] in
/-- The process opens or closes a descriptor of its own. -/
theorem descriptor
    {fd : Nat}
    {opened : Option Nat}
    (kept : Kept pageSize state)
    (apart : state.FdApart fd) :
    Kept pageSize
      { state with
        process := { state.process with fds := Function.update state.process.fds fd opened }
        ownFds := Function.update state.ownFds fd opened } := by
  have stays :
      ∀ {id q}, state.queues id = some q →
        Function.update state.process.fds fd opened q.fd = state.process.fds q.fd :=
    fun live => Function.update_of_ne (apart _ _ live) _ _
  refine ⟨?_, ?_, kept.pages, kept.noPages, ?_, ?_⟩
  · intro id q live
    obtain ⟨file, mirrored⟩ := kept.mirrored live
    exact ⟨file, mirrored.keep (stays live) (Nat.le_refl _) (fun _ _ => rfl) mirrored.contents⟩
  · intro first second one two different firstLive secondLive
    exact (kept.separate different firstLive secondLive).keep (stays firstLive)
      (stays secondLive)
  · intro other otherApart
    by_cases same : other = fd
    · subst same
      simp only [Function.update_self]
    · simp only [Function.update_of_ne same]
      exact kept.fds other otherApart
  · intro other inside
    have different : other ≠ fd := by
      rintro rfl
      exact inside apart
    simp only [Function.update_of_ne different]
    exact kept.noFds other inside

/-- Every step keeps every queue mirrored and separate. -/
theorem step
    {label : Label Id}
    {later : State Id}
    (positive : 0 < pageSize)
    (kept : Kept pageSize state)
    (step : Step pageSize state label later) :
    Kept pageSize later := by
  cases step with
  | queueInit unused allowed returned =>
      exact kept.queueInit unused (queueInit_initialised positive allowed returned).2
  | copy live within stored => exact kept.copy positive live within stored
  | queueDestroy live returned =>
      obtain ⟨file, mirrored⟩ := kept.mirrored live
      exact kept.queueDestroy live (queueDestroy_destroyed positive mirrored.whole returned)
  | map apart _ => exact kept.map apart
  | descriptor apart _ => exact kept.descriptor apart
  | create =>
      refine ⟨?_, ?_, kept.pages, kept.noPages, kept.fds, kept.noFds⟩
      · intro id q live
        obtain ⟨file, mirrored⟩ := kept.mirrored live
        exact ⟨file, mirrored.keep rfl (Nat.le_succ _) (fun _ _ => rfl) mirrored.contents⟩
      · intro first second one two different firstLive secondLive
        exact (kept.separate different firstLive secondLive).keep rfl rfl
  | @write file cell byte own =>
      refine ⟨?_, ?_, kept.pages, kept.noPages, kept.fds, kept.noFds⟩
      · intro id q live
        obtain ⟨shown, mirrored⟩ := kept.mirrored live
        have different : shown ≠ file := by
          rintro rfl
          exact own.2 id q live mirrored.opened
        exact ⟨shown, mirrored.keep rfl (Nat.le_refl _) (fun _ _ => rfl)
          ((Function.update_of_ne different _ _).trans mirrored.contents)⟩
      · intro first second one two different firstLive secondLive
        exact (kept.separate different firstLive secondLive).keep rfl rfl

omit [DecidableEq Id] in
/-- The buffer of a queue shows its cells twice. -/
theorem load
    {id : Id}
    {index : Nat}
    (positive : 0 < pageSize)
    (kept : Kept pageSize state)
    (live : state.queues id = some q)
    (inside : index < 2 * q.size) :
    state.process.space.load pageSize (q.buffer + index) =
      some (view q.size (state.cells id) index) := by
  obtain ⟨file, mirrored⟩ := kept.mirrored live
  rw [load_mirrored (mirrored.mirrors positive) inside, mirrored.contents]

omit [DecidableEq Id] in
/-- Without queues there is nothing mapped or open but what the process has of its own. -/
theorem own_of_none
    (kept : Kept pageSize state)
    (none : ∀ id, state.queues id = none) :
    state.process.space.pages = state.ownPages ∧ state.process.fds = state.ownFds := by
  have noQueue : ∀ {id q}, state.queues id ≠ some q := by
    intro id q live
    rw [none id] at live
    cases live
  exact ⟨funext fun page => kept.pages page fun id q live => absurd live noQueue,
    funext fun fd => kept.fds fd fun id q live => absurd live noQueue⟩

end Kept

omit [DecidableEq Id] in
/-- A process without queues. -/
theorem kept_initial : Kept pageSize (State.initial process : State Id) where
  mirrored := fun live => (Option.some_ne_none _ live.symm).elim
  separate := fun _ live => (Option.some_ne_none _ live.symm).elim
  pages := fun _ _ => rfl
  noPages := fun _ inside => absurd (fun _ _ live => (Option.some_ne_none _ live.symm).elim) inside
  fds := fun _ _ => rfl
  noFds := fun _ inside => absurd (fun _ _ live => (Option.some_ne_none _ live.symm).elim) inside

/--
In every run, the buffer of each queue shows the queue's cells twice in a row.  A copy into
it that ends within the two mappings succeeds, and changes the cells of that queue alone, as
a copy into a mirrored buffer does.  When `queue_init` returns, its queue is the one that is
modelled with such a buffer; and when all queues are destroyed, nothing is left of them that
is mapped or open.
-/
theorem queues_mirrored
    (positive : 0 < pageSize)
    (reachable : Reachable (Step pageSize) (State.initial process : State Id) state) :
    (∀ id q,
        state.queues id = some q →
        (∀ index,
          index < 2 * q.size →
          state.process.space.load pageSize (q.buffer + index) =
            some (view q.size (state.cells id) index)) ∧
          ∀ start bytes,
            start + bytes.length ≤ 2 * q.size →
            ∃ space,
              state.process.space.storeAll pageSize (q.buffer + start) bytes = some space ∧
                ∀ other another,
                  state.queues other = some another →
                  ∀ index,
                    index < 2 * another.size →
                    space.load pageSize (another.buffer + index) =
                      some
                        (view another.size
                          (if other = id then copyIn q.size (state.cells id) start bytes
                          else state.cells other)
                          index)) ∧
      (∀ s answers q after,
        answers.Allowed pageSize state.process s →
        queueInit pageSize state.process s answers = some (q, after) →
        q.size = s ∧
          MessageQueue.queueInit pageSize s =
            some
              { cells := fun _ => 0, size := s, head := 0, tail := 0, headSeq := 0,
                tailSeq := 0 }) ∧
      ((∀ id, state.queues id = none) →
        state.process.space.pages = state.ownPages ∧ state.process.fds = state.ownFds) := by
  have kept : Kept pageSize state :=
    reachable.invariant kept_initial fun held step => held.step positive step
  refine ⟨?_, ?_, kept.own_of_none⟩
  · intro id q live
    refine ⟨fun index inside => kept.load positive live inside, ?_⟩
    intro start bytes within
    obtain ⟨file, mirrored⟩ := kept.mirrored live
    obtain ⟨space, stored, _, _⟩ := storeAll_mirrored (mirrored.mirrors positive) within
    refine ⟨space, stored, ?_⟩
    intro other another alsoLive index inside
    have later := (kept.copy positive live within stored).load positive alsoLive inside
    simpa only [Function.update_apply] using later
  · intro s answers q after allowed returned
    obtain ⟨rfl, initialised⟩ := queueInit_initialised positive allowed returned
    have whole := initialised.whole
    have some : 0 < q.size := by
      rw [whole.size]
      exact Nat.mul_pos whole.some positive
    have multiple : q.size % pageSize = 0 := by
      rw [whole.size, Nat.mul_mod_left]
    have below := whole.inside
    refine ⟨rfl, ?_⟩
    rw [MessageQueue.queueInit, if_neg (not_not.mpr multiple), if_neg (by omega)]

/-- A process with nothing mapped or open. -/
def bareProcess : Process where
  space := { pages := fun _ => none, contents := fun _ _ => 0 }
  fds := fun _ => none
  files := 0

/-- Every call succeeds, with descriptor 3 and the pages from the second one on. -/
def granted : InitAnswers where
  memfdCreate := some 3
  ftruncate := true
  reserve := some 4096
  first := true
  second := true
  mutexInit := true
  readableInit := true
  writeableInit := true

/-- A queue of one page has been initialised. -/
def onePage : State Unit where
  process :=
    (((bareProcess.memfdCreate 3).reserve 4096 4096 8192).mapShared 4096 4096 4096 3).mapShared
      4096 8192 4096 3
  queues := Function.update (fun _ => none) () (some { fd := 3, buffer := 4096, size := 4096 })
  cells := Function.update (fun _ _ => 0) () fun _ => 0
  ownPages := fun _ => none
  ownFds := fun _ => none

theorem onePage_reachable :
    Reachable (Step 4096) (State.initial bareProcess : State Unit) onePage := by
  have allowed : granted.Allowed 4096 bareProcess 4096 := by
    refine ⟨fun _ _ => rfl, fun _ _ => by decide, ?_, fun _ _ _ _ => rfl, ?_, ?_⟩
    · rintro buffer reserved
      obtain rfl := Option.some.inj reserved
      decide
    · rintro buffer reserved _
      obtain rfl := Option.some.inj reserved
      decide
    · rintro buffer reserved _
      obtain rfl := Option.some.inj reserved
      decide
  have initialised :
      Step 4096 (State.initial bareProcess) (.queueInit () 4096 granted) onePage :=
    .queueInit rfl allowed rfl
  exact Reachable.refl.next initialised

theorem queues_mirrored_onePage :
    onePage.process.space.load 4096 (4096 + 5000) = some (view 4096 (onePage.cells ()) 5000) :=
  ((queues_mirrored (by decide) onePage_reachable).1 () _ rfl).1 5000 (by decide)

end Sysprog.QueueMapping
