import Sysprog.MirroredBuffer

namespace Sysprog.AddressSpace

open ByteMemory CountedLoop MirroredBuffer

/-!
# Pages that show files

A process sees memory through its pages: a page shows a page of a file, is reserved without
being accessible, or is not mapped.  Several pages may show the same page of a file, so a
store through one of them is seen through all.  A file that is mapped twice in a row is a
mirrored buffer.

The module names no program.
-/

/-- What is behind a page. -/
inductive Backing (File : Type) where
  | reserved
  | file (file : File) (index : Nat)
  deriving DecidableEq

/-- The pages of a process, and what the files hold. -/
structure Space (File : Type) where
  pages : Nat → Option (Backing File)
  contents : File → Memory

variable {File : Type}

namespace Space

/-- Give some pages in a row another backing. -/
def mapPages
    (space : Space File)
    (first count : Nat)
    (backing : Nat → Option (Backing File)) : Space File :=
  { space with
    pages := fun page =>
      if first ≤ page ∧ page < first + count then backing (page - first) else space.pages page }

/-- The byte of a file that an address stands for. -/
def place (pageSize : Nat) (space : Space File) (address : Nat) : Option (File × Nat) :=
  match space.pages (address / pageSize) with
  | some (.file file index) => some (file, index * pageSize + address % pageSize)
  | _ => none

/-- Load a byte; `none` is a fault. -/
def load (pageSize : Nat) (space : Space File) (address : Nat) : Option UInt8 :=
  (place pageSize space address).map fun cell => space.contents cell.1 cell.2

variable [DecidableEq File]

/-- Store a byte; `none` is a fault. -/
def store (pageSize : Nat) (space : Space File) (address : Nat) (byte : UInt8) :
    Option (Space File) :=
  (place pageSize space address).map fun cell =>
    { space with
      contents :=
        Function.update space.contents cell.1
          (Function.update (space.contents cell.1) cell.2 byte) }

/-- `memcpy` to an address, byte by byte. -/
def storeAll (pageSize : Nat) (space : Space File) (address : Nat) (bytes : List UInt8) :
    Option (Space File) :=
  forLoop bytes.length (some space) fun index result =>
    result.bind fun space => space.store pageSize (address + index) (bytes.getD index 0)

end Space

open Space

variable {space changed : Space File} {pageSize base size address index : Nat} {file : File}

/-! ## Mapped pages -/

/-- Pages outside of the range stay. -/
theorem mapPages_outside
    {first count page : Nat}
    {backing : Nat → Option (Backing File)}
    (outside : page < first ∨ first + count ≤ page) :
    (space.mapPages first count backing).pages page = space.pages page :=
  if_neg (by omega)

/-- Pages in the range have their new backing. -/
theorem mapPages_inside
    {first count page : Nat}
    {backing : Nat → Option (Backing File)}
    (inside : page < count) :
    (space.mapPages first count backing).pages (first + page) = backing page := by
  have within : first ≤ first + page ∧ first + page < first + count := by omega
  rw [mapPages]
  simp only [if_pos within, Nat.add_sub_cancel_left]

/-- Addresses of pages that stay stand for the same bytes. -/
theorem place_congr (same : changed.pages (address / pageSize) = space.pages (address / pageSize)) :
    place pageSize changed address = place pageSize space address := by
  rw [place, place, same]

/-- An address in a page that shows a file. -/
theorem place_of_page
    {page shown : Nat}
    (positive : 0 < pageSize)
    (inside : index < pageSize)
    (shows : space.pages page = some (.file file shown)) :
    place pageSize space (page * pageSize + index) = some (file, shown * pageSize + index) := by
  have quotient : (page * pageSize + index) / pageSize = page := by
    rw [Nat.add_comm, Nat.add_mul_div_right _ _ positive, Nat.div_eq_of_lt inside, Nat.zero_add]
  have remainder : (page * pageSize + index) % pageSize = index := by
    rw [Nat.add_comm, Nat.add_mul_mod_self_right, Nat.mod_eq_of_lt inside]
  rw [place, quotient, shows, remainder]

/-! ## Mirrored buffers -/

/-- A file is mapped twice in a row. -/
def Mirrors (pageSize : Nat) (space : Space File) (base size : Nat) (file : File) : Prop :=
  ∀ index, index < 2 * size → place pageSize space (base + index) = some (file, index % size)

/-- The pages of both mappings. -/
theorem mirrors_of_pages
    {first count : Nat}
    (positive : 0 < pageSize)
    (shows :
      ∀ page, page < 2 * count → space.pages (first + page) = some (.file file (page % count))) :
    Mirrors pageSize space (first * pageSize) (count * pageSize) file := by
  intro index inside
  have bound : index / pageSize < 2 * count := by
    rw [Nat.div_lt_iff_lt_mul positive, Nat.mul_assoc]
    exact inside
  have split := Nat.div_add_mod index pageSize
  have rest := Nat.mod_lt index positive
  have at_page := place_of_page positive rest (shows (index / pageSize) bound)
  have address : first * pageSize + index =
      (first + index / pageSize) * pageSize + index % pageSize := by
    rw [Nat.add_mul, Nat.mul_comm (index / pageSize)]
    omega
  rw [address, at_page]
  -- The page within the file and the byte within the page make up the byte within the file.
  have cell : index / pageSize % count * pageSize + index % pageSize =
      index % (count * pageSize) := by
    rw [Nat.mul_comm count, Nat.mod_mul, Nat.mul_comm, Nat.add_comm]
  rw [cell]

/-- A mirrored buffer is seen through both mappings. -/
theorem load_mirrored
    (mirrors : Mirrors pageSize space base size file)
    (inside : index < 2 * size) :
    load pageSize space (base + index) = some (view size (space.contents file) index) := by
  rw [load, mirrors index inside]
  rfl

variable [DecidableEq File]

/--
Copying into a mirrored buffer, in the window of both mappings: the file holds what it holds
after the copy into the cells, and other files are not touched.
-/
theorem storeAll_mirrored
    {start : Nat}
    {bytes : List UInt8}
    (mirrors : Mirrors pageSize space base size file)
    (within : start + bytes.length ≤ 2 * size) :
    ∃ changed,
      space.storeAll pageSize (base + start) bytes = some changed ∧
        changed.pages = space.pages ∧
        changed.contents =
          Function.update space.contents file
            (copyIn size (space.contents file) start bytes) := by
  suffices rounds :
      ∀ count, count ≤ bytes.length →
        ∃ changed,
          (forLoop count (some space) fun index result =>
              result.bind fun space =>
                space.store pageSize (base + start + index) (bytes.getD index 0)) =
              some changed ∧
            changed.pages = space.pages ∧
            changed.contents =
              Function.update space.contents file
                (fill count (space.contents file) (fun index => (start + index) % size) fun index =>
                  bytes.getD index 0) from
    rounds bytes.length (Nat.le_refl _)
  intro count
  induction count with
  | zero =>
      intro _
      exact ⟨space, rfl, rfl, (Function.update_eq_self file space.contents).symm⟩
  | succ count inductionHypothesis =>
      intro enough
      obtain ⟨before, ran, pages, contents⟩ := inductionHypothesis (by omega)
      have here : place pageSize before (base + start + count) =
          some (file, (start + count) % size) := by
        rw [place_congr (congrFun pages _), Nat.add_assoc]
        exact mirrors (start + count) (by omega)
      rw [forLoop_succ, ran, Option.bind_some, store, here, Option.map_some]
      refine ⟨_, rfl, pages, ?_⟩
      rw [contents, Function.update_idem, Function.update_self, fill, fill, forLoop_succ]

end Sysprog.AddressSpace
