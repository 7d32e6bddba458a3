import Mathlib.Data.List.Basic

namespace Sysprog.ReleaseAcquire

/-!
# Release and acquire between two threads

One thread stores to an atomic variable and another one loads it.  A load may return an old
store, but none that is older than the one loaded last.  An acquire load that returns a
release store orders what the storing thread did before that store ahead of what the loading
thread does from then on.

A plain access is stamped with the number of stores its thread had made.  It is ordered
ahead of an access of the other thread exactly when the other thread has acquired a later
store; two accesses to one cell that are not ordered are a data race.
-/

/-- The memory orders of loads and stores considered here. -/
inductive MemoryOrder where
  | relaxed
  | acquire
  | release
  deriving Repr, DecidableEq

/--
An atomic variable with all stores to it, the number of the store the other thread loaded
last, and that of the last store it has acquired.  The initial value has number 0.
-/
structure Atomic (Value : Type) where
  former : List Value
  latest : Value
  loaded : Nat
  known : Nat
  loaded_le : loaded ≤ former.length
  known_le : known ≤ loaded

namespace Atomic

variable {Value : Type} {value : Value} {index : Nat}

/-- All stores, the first one first. -/
def stores (atomic : Atomic Value) : List Value :=
  atomic.former ++ [atomic.latest]

/-- The number of the last store. -/
def epoch (atomic : Atomic Value) : Nat :=
  atomic.former.length

/-- A variable that holds its initial value. -/
def initial (value : Value) : Atomic Value where
  former := []
  latest := value
  loaded := 0
  known := 0
  loaded_le := Nat.le_refl 0
  known_le := Nat.le_refl 0

/-- The value the other thread loaded last. -/
def returned (atomic : Atomic Value) : Value :=
  atomic.stores.get
    ⟨atomic.loaded, by
      have inside := atomic.loaded_le
      simp only [stores, List.length_append, List.length_singleton]
      omega⟩

/-- A store by the storing thread. -/
def store (atomic : Atomic Value) (value : Value) : Atomic Value where
  former := atomic.stores
  latest := value
  loaded := atomic.loaded
  known := atomic.known
  loaded_le := by
    have inside := atomic.loaded_le
    simp only [stores, List.length_append, List.length_singleton]
    omega
  known_le := atomic.known_le

/-- A load by the other thread may return this store. -/
structure MayLoad (atomic : Atomic Value) (index : Nat) (value : Value) : Prop where
  coherent : atomic.loaded ≤ index
  stored : atomic.stores[index]? = some value

/-- There is no store behind the last one. -/
theorem MayLoad.le_epoch
    {atomic : Atomic Value}
    (may : atomic.MayLoad index value) :
    index ≤ atomic.epoch := by
  have inside := (List.getElem?_eq_some_iff.mp may.stored).1
  simp only [stores, List.length_append, List.length_singleton] at inside
  exact Nat.le_of_lt_succ inside

/-- A load of a store, which synchronizes with it or not. -/
def load
    (atomic : Atomic Value)
    (may : atomic.MayLoad index value)
    (synchronizes : Bool) : Atomic Value where
  former := atomic.former
  latest := atomic.latest
  loaded := index
  known := if synchronizes then index else atomic.known
  loaded_le := may.le_epoch
  known_le := by
    have ordered := may.coherent
    have below := atomic.known_le
    split <;> omega

section Stores

variable {atomic : Atomic Value} {may : atomic.MayLoad index value} {synchronizes : Bool}

@[simp] theorem epoch_initial : (initial value).epoch = 0 :=
  rfl

@[simp] theorem epoch_store : (atomic.store value).epoch = atomic.epoch + 1 := by
  simp [epoch, store, stores]

@[simp] theorem epoch_load : (atomic.load may synchronizes).epoch = atomic.epoch :=
  rfl

@[simp] theorem stores_store : (atomic.store value).stores = atomic.stores ++ [value] :=
  rfl

@[simp] theorem stores_load : (atomic.load may synchronizes).stores = atomic.stores :=
  rfl

@[simp] theorem loaded_store : (atomic.store value).loaded = atomic.loaded :=
  rfl

@[simp] theorem loaded_load : (atomic.load may synchronizes).loaded = index :=
  rfl

@[simp] theorem known_store : (atomic.store value).known = atomic.known :=
  rfl

/-- A load that synchronizes makes its store known. -/
@[simp] theorem known_load : (atomic.load may true).known = index :=
  rfl

/-- There is one store more than the number of the last one. -/
theorem length_stores : atomic.stores.length = atomic.epoch + 1 := by
  simp [stores, epoch]

/-- The last store is that of the latest value. -/
@[simp] theorem stores_epoch : atomic.stores[atomic.epoch]? = some atomic.latest := by
  simp [stores, epoch]

/-- What was loaded last is the store of that number. -/
theorem stores_loaded : atomic.stores[atomic.loaded]? = some atomic.returned := by
  rw [returned, List.get_eq_getElem, List.getElem?_eq_getElem]

/-- A load returns the store of its number. -/
@[simp] theorem returned_load : (atomic.load may synchronizes).returned = value := by
  have stored : (atomic.load may synchronizes).stores[index]? = some value := may.stored
  have loaded :
      (atomic.load may synchronizes).stores[index]? =
        some (atomic.load may synchronizes).returned :=
    stores_loaded
  exact Option.some.inj (loaded.symm.trans stored)

/-- A store does not change what the other thread has loaded. -/
@[simp] theorem returned_store : (atomic.store value).returned = atomic.returned := by
  have stored : (atomic.store value).stores[atomic.loaded]? = some atomic.returned := by
    rw [stores_store, List.getElem?_append_left (by
      rw [length_stores]
      exact Nat.lt_succ_of_le atomic.loaded_le)]
    exact stores_loaded
  have loaded :
      (atomic.store value).stores[atomic.loaded]? = some (atomic.store value).returned :=
    stores_loaded
  exact Option.some.inj (loaded.symm.trans stored)

/-- Every store has a number up to that of the last one. -/
theorem index_le (stored : atomic.stores[index]? = some value) : index ≤ atomic.epoch := by
  have inside := (List.getElem?_eq_some_iff.mp stored).1
  rw [length_stores] at inside
  exact Nat.le_of_lt_succ inside

/-- A store adds one behind the earlier ones. -/
theorem stores_store_cases
    {stored : Value}
    (at_index : (atomic.store value).stores[index]? = some stored) :
    atomic.stores[index]? = some stored ∨ (index = atomic.epoch + 1 ∧ stored = value) := by
  rw [stores_store, List.getElem?_append] at at_index
  split at at_index
  · exact Or.inl at_index
  · rename_i beyond
    rw [length_stores] at at_index beyond
    have last : index - (atomic.epoch + 1) = 0 := by
      by_contra further
      rw [List.getElem?_eq_none (by simp only [List.length_singleton]; omega)] at at_index
      exact absurd at_index (by simp)
    rw [last] at at_index
    exact Or.inr ⟨by omega, (Option.some.inj at_index).symm⟩

end Stores

end Atomic

/-! ## Plain accesses -/

/-- For each cell the epoch of the last access of one thread. -/
abbrev Stamps := Nat → Option Nat

namespace Stamps

variable {stamps : Stamps} {start length known epoch cell : Nat}

/-- Stamp an access to a block of cells. -/
def mark (stamps : Stamps) (start length epoch : Nat) : Stamps :=
  fun cell => if start ≤ cell ∧ cell < start + length then some epoch else stamps cell

/-- An access to a block races with one that is not known to be over. -/
def conflict (stamps : Stamps) (start length known : Nat) : Bool :=
  (List.range length).any fun offset =>
    match stamps (start + offset) with
    | none => false
    | some epoch => decide (known ≤ epoch)

/-- An access to cells whose earlier accesses are all known does not race. -/
theorem conflict_eq_false
    (ordered :
      ∀ cell epoch,
        start ≤ cell →
        cell < start + length →
        stamps cell = some epoch →
        epoch < known) :
    stamps.conflict start length known = false := by
  rw [conflict, List.any_eq_false]
  intro offset member
  have inside := List.mem_range.mp member
  cases stamped : stamps (start + offset) with
  | none =>
      simp
  | some epoch =>
      have earlier := ordered _ _ (Nat.le_add_right start offset) (by omega) stamped
      simpa using earlier

/-- A stamp is the new one, inside the block, or an old one. -/
theorem mark_cases
    {stamp : Nat}
    (stamped : stamps.mark start length epoch cell = some stamp) :
    (start ≤ cell ∧ cell < start + length ∧ stamp = epoch) ∨ stamps cell = some stamp := by
  rw [mark] at stamped
  split at stamped
  · rename_i inside
    exact Or.inl ⟨inside.1, inside.2, (Option.some.inj stamped).symm⟩
  · exact Or.inr stamped

end Stamps

end Sysprog.ReleaseAcquire
