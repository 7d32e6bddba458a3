import Mathlib.Data.Int.Interval
import Mathlib.Data.List.Nodup
import Mathlib.Logic.Function.Basic

namespace Sysprog.DescriptorTable

/-!
# Descriptors and the ones among them that are watched

A process has descriptors under numbers, each with what is behind it, and an interest
list: a descriptor is watched at most once, with a datum of the caller.  Closing a
descriptor takes it off the list.  What makes a table well formed is part of it.
-/

/-- A number a descriptor can have: an `int` that is not negative. -/
def Number (fd : Int) : Prop :=
  0 ≤ fd ∧ fd < 2 ^ 31

instance (fd : Int) : Decidable (Number fd) :=
  inferInstanceAs (Decidable (_ ∧ _))

/-- The open descriptors, and the watched ones with their data. -/
structure Table (Behind Datum : Type) where
  behind : Int → Option Behind
  interest : List (Int × Datum)
  numbered : ∀ fd, (behind fd).isSome → Number fd
  once : (interest.map Prod.fst).Nodup
  live : ∀ entry ∈ interest, (behind entry.1).isSome

namespace Table

variable {Behind Datum : Type}

/-- Nothing is open. -/
def empty : Table Behind Datum where
  behind := fun _ => none
  interest := []
  numbered := by simp
  once := by simp
  live := by simp

/-- The descriptor is watched. -/
def Registered (table : Table Behind Datum) (fd : Int) : Prop :=
  fd ∈ table.interest.map Prod.fst

instance (table : Table Behind Datum) (fd : Int) : Decidable (table.Registered fd) :=
  inferInstanceAs (Decidable (fd ∈ _))

/-- Open a descriptor under a number that is free. -/
def openAt? (table : Table Behind Datum) (fd : Int) (what : Behind) :
    Option (Table Behind Datum) :=
  if possible : table.behind fd = none ∧ Number fd then
    some
      { table with
        behind := Function.update table.behind fd (some what)
        numbered := by
          intro cell
          by_cases atFd : cell = fd
          · simpa [atFd] using possible.2
          · simpa [atFd] using table.numbered cell
        live := by
          intro entry member
          have there := table.live entry member
          by_cases atFd : entry.1 = fd
          · simp [atFd]
          · simpa [atFd] using there }
  else
    none

/-- Close whatever is open under a number. -/
def close (table : Table Behind Datum) (fd : Int) : Table Behind Datum where
  behind := Function.update table.behind fd none
  interest := table.interest.filter (·.1 ≠ fd)
  numbered := by
    intro cell
    by_cases atFd : cell = fd
    · simp [atFd]
    · simpa [atFd] using table.numbered cell
  once := table.once.sublist (List.filter_sublist.map Prod.fst)
  live := by
    intro entry member
    obtain ⟨listed, notFd⟩ := List.mem_filter.mp member
    have elsewhere : entry.1 ≠ fd := by simpa using notFd
    simpa [elsewhere] using table.live entry listed

/-- Watch an open descriptor that is not watched yet. -/
def add? (table : Table Behind Datum) (fd : Int) (datum : Datum) :
    Option (Table Behind Datum) :=
  if possible : (table.behind fd).isSome ∧ ¬ table.Registered fd then
    some
      { table with
        interest := table.interest ++ [(fd, datum)]
        once := by
          rw [List.map_append, List.nodup_append']
          exact ⟨table.once, by simp, by simpa [Registered] using possible.2⟩
        live := by
          intro entry member
          rcases List.mem_append.mp member with listed | last
          · exact table.live entry listed
          · rw [List.mem_singleton.mp last]
            exact possible.1 }
  else
    none

/-- Stop watching a descriptor that is watched. -/
def delete? (table : Table Behind Datum) (fd : Int) : Option (Table Behind Datum) :=
  if table.Registered fd then
    some
      { table with
        interest := table.interest.filter (·.1 ≠ fd)
        once := table.once.sublist (List.filter_sublist.map Prod.fst)
        live := fun entry member => table.live entry (List.mem_of_mem_filter member) }
  else
    none

variable {table after : Table Behind Datum} {fd : Int}

@[simp] theorem close_behind :
    (table.close fd).behind = Function.update table.behind fd none :=
  rfl

theorem close_interest :
    (table.close fd).interest = table.interest.filter (·.1 ≠ fd) :=
  rfl

/-- A free number is taken, and nothing else changes. -/
theorem openAt?_spec {what : Behind} (opened : table.openAt? fd what = some after) :
    table.behind fd = none ∧
      after.behind = Function.update table.behind fd (some what) ∧
      after.interest = table.interest := by
  simp only [openAt?] at opened
  split at opened
  · rename_i possible
    obtain rfl := Option.some.inj opened
    exact ⟨possible.1, rfl, rfl⟩
  · simp at opened

/-- The descriptor is new on the list, and stands at its end. -/
theorem add?_spec {datum : Datum} (added : table.add? fd datum = some after) :
    ¬ table.Registered fd ∧
      after.behind = table.behind ∧
      after.interest = table.interest ++ [(fd, datum)] := by
  simp only [add?] at added
  split at added
  · rename_i possible
    obtain rfl := Option.some.inj added
    exact ⟨possible.2, rfl, rfl⟩
  · simp at added

/-- The descriptor was on the list, and is taken off. -/
theorem delete?_spec (deleted : table.delete? fd = some after) :
    table.Registered fd ∧
      after.behind = table.behind ∧
      after.interest = table.interest.filter (·.1 ≠ fd) := by
  simp only [delete?] at deleted
  split at deleted
  · rename_i registered
    obtain rfl := Option.some.inj deleted
    exact ⟨registered, rfl, rfl⟩
  · simp at deleted

/-- Only watched descriptors can be taken off the list. -/
theorem delete?_isSome : (table.delete? fd).isSome ↔ table.Registered fd := by
  by_cases registered : table.Registered fd <;> simp [delete?, registered]

/-- What is watched is open. -/
theorem Registered.isSome (registered : table.Registered fd) : (table.behind fd).isSome := by
  obtain ⟨entry, listed, rfl⟩ := List.mem_map.mp registered
  exact table.live entry listed

/-- What is not watched cannot be taken off the list. -/
theorem filter_of_not_registered (notRegistered : ¬ table.Registered fd) :
    table.interest.filter (·.1 ≠ fd) = table.interest := by
  rw [List.filter_eq_self]
  intro entry listed
  have : entry.1 ≠ fd := by
    rintro rfl
    exact notRegistered (List.mem_map_of_mem listed)
  simpa using this

/-- What is watched is on the list once. -/
theorem length_filter_of_registered (registered : table.Registered fd) :
    (table.interest.filter (·.1 ≠ fd)).length + 1 = table.interest.length := by
  have counted : table.interest.countP (·.1 = fd) = 1 := by
    have once := List.count_eq_one_of_mem table.once registered
    rw [List.count, List.countP_map] at once
    rw [← once]
    congr 1
  have split := List.length_eq_countP_add_countP (fun entry : Int × Datum => entry.1 = fd)
    (l := table.interest)
  rw [counted] at split
  rw [← List.countP_eq_length_filter]
  simpa [Nat.add_comm] using split.symm

/-- No more descriptors are watched than there are numbers. -/
theorem length_interest_le : table.interest.length ≤ 2 ^ 31 := by
  have within : (table.interest.map Prod.fst).toFinset ⊆ Finset.Ico (0 : Int) (2 ^ 31) := by
    intro fd member
    have registered : table.Registered fd := List.mem_toFinset.mp member
    have number := table.numbered fd registered.isSome
    exact Finset.mem_Ico.mpr number
  have size := Finset.card_le_card within
  rw [List.toFinset_card_of_nodup table.once, List.length_map, Int.card_Ico] at size
  simpa using size

end Table

end Sysprog.DescriptorTable
