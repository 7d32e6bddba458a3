import Mathlib.Data.List.Nodup
import Mathlib.Logic.Function.Basic

namespace Sysprog.CircularList

/-!
# Intrusive circular doubly-linked lists

The links of a list are stored in its own entries, and the list closes through a head
cell that is no entry itself.  `Ring` relates the stored links to the entries in order;
the usual updates are shown to change the entries as expected and to leave every other
ring alone.
-/

/-- The two links stored at every address. -/
structure Links (Address : Type) where
  prev : Address → Address
  next : Address → Address

variable {Address : Type} [DecidableEq Address]

namespace Links

/-- The assignment `cell->prev = value`. -/
def setPrev (links : Links Address) (cell value : Address) : Links Address :=
  { links with prev := Function.update links.prev cell value }

/-- The assignment `cell->next = value`. -/
def setNext (links : Links Address) (cell value : Address) : Links Address :=
  { links with next := Function.update links.next cell value }

/-- Make a head an empty list. -/
def init (links : Links Address) (head : Address) : Links Address :=
  (links.setPrev head head).setNext head head

/-- Append an entry at the end of a list. -/
def pushBack (links : Links Address) (head entry : Address) : Links Address :=
  let last := links.prev head
  let links := links.setPrev entry last
  let links := links.setNext entry head
  let links := links.setNext last entry
  links.setPrev head entry

/-- Insert an entry at the start of a list. -/
def pushFront (links : Links Address) (head entry : Address) : Links Address :=
  let first := links.next head
  let links := links.setPrev first entry
  let links := links.setNext entry first
  let links := links.setPrev entry head
  links.setNext head entry

/-- The same links read in the other direction. -/
def flip (links : Links Address) : Links Address where
  prev := links.next
  next := links.prev

/-- Take an entry out of its list. -/
def remove (links : Links Address) (entry : Address) : Links Address :=
  let before := links.prev entry
  let after := links.next entry
  (links.setNext before after).setPrev after before

end Links

variable {links changed : Links Address} {head entry : Address} {entries : List Address}

/-- Two neighbours point to each other. -/
def Linked (links : Links Address) (first second : Address) : Prop :=
  links.next first = second ∧ links.prev second = first

/-- The links lead from one address through a list of cells to another. -/
def Path (links : Links Address) : Address → List Address → Address → Prop
  | first, [], last => Linked links first last
  | first, cell :: rest, last => Linked links first cell ∧ Path links cell rest last

/-- The links lead from the head through the entries back to the head. -/
structure Ring (links : Links Address) (head : Address) (entries : List Address) : Prop where
  path : Path links head entries head
  nodup : (head :: entries).Nodup

/-! ## Paths -/

omit [DecidableEq Address] in
/-- A path through a cell is a path to it and a path from it. -/
theorem path_append
    {first middle last : Address}
    {front back : List Address} :
    Path links first (front ++ middle :: back) last ↔
      Path links first front middle ∧ Path links middle back last := by
  induction front generalizing first with
  | nil =>
      rfl
  | cons cell rest inductionHypothesis =>
      simp only [List.cons_append, Path, inductionHypothesis, and_assoc]

omit [DecidableEq Address] in
/-- A path depends on the links along it only. -/
theorem Path.congr
    {first last : Address}
    {cells : List Address}
    (path : Path links first cells last)
    (nexts : ∀ cell ∈ first :: cells, changed.next cell = links.next cell)
    (prevs : ∀ cell ∈ cells ++ [last], changed.prev cell = links.prev cell) :
    Path changed first cells last := by
  induction cells generalizing first with
  | nil =>
      exact ⟨(nexts first (by simp)).trans path.1, (prevs last (by simp)).trans path.2⟩
  | cons cell rest inductionHypothesis =>
      obtain ⟨linked, onward⟩ := path
      refine ⟨⟨(nexts first (by simp)).trans linked.1, (prevs cell (by simp)).trans linked.2⟩,
        inductionHypothesis onward ?_ ?_⟩
      · intro other member
        exact nexts other (List.mem_cons_of_mem first member)
      · intro other member
        exact prevs other (List.mem_cons_of_mem cell member)

omit [DecidableEq Address] in
/-- The link forward from the start of a path stays on it. -/
theorem Path.next_mem
    {first last : Address}
    {cells : List Address}
    (path : Path links first cells last) :
    links.next first ∈ cells ++ [last] := by
  cases cells with
  | nil =>
      rw [path.1]
      simp
  | cons cell rest =>
      rw [path.1.1]
      simp

omit [DecidableEq Address] in
/-- The link forward from the start of a path leads to its first cell. -/
theorem Path.next_eq
    {first last : Address}
    {cells : List Address}
    (path : Path links first cells last) :
    links.next first = cells.headD last := by
  cases cells with
  | nil => exact path.1
  | cons cell rest => exact path.1.1

omit [DecidableEq Address] in
/-- The link back from the end of a path stays on it. -/
theorem Path.prev_mem
    {first last : Address}
    {cells : List Address}
    (path : Path links first cells last) :
    links.prev last ∈ first :: cells := by
  induction cells generalizing first with
  | nil =>
      rw [path.2]
      simp
  | cons cell rest inductionHypothesis =>
      exact List.mem_cons_of_mem first (inductionHypothesis path.2)

omit [DecidableEq Address] in
/-- The link back from the end of a path is answered by a link forward. -/
theorem Path.next_prev
    {first last : Address}
    {cells : List Address}
    (path : Path links first cells last) :
    links.next (links.prev last) = last := by
  induction cells generalizing first with
  | nil =>
      rw [path.2]
      exact path.1
  | cons cell rest inductionHypothesis =>
      exact inductionHypothesis path.2

/-- Removing a cell from a path joins its two neighbours. -/
theorem Path.remove
    {first last : Address}
    {front back : List Address}
    (path : Path links first (front ++ entry :: back) last)
    (nodup : (front ++ entry :: back).Nodup)
    (firstOutside : first ∉ front ++ entry :: back)
    (lastOutside : last ∉ front ++ entry :: back) :
    Path (links.remove entry) first (front ++ back) last := by
  induction front generalizing first with
  | nil =>
      obtain ⟨linked, onward⟩ := path
      simp only [List.nil_append, List.nodup_cons, List.mem_cons, not_or] at *
      cases back with
      | nil =>
          simp only [Path, Linked] at linked onward ⊢
          rw [Links.remove, linked.2, onward.1]
          simp [Links.setNext, Links.setPrev]
      | cons cell rest =>
          obtain ⟨⟨nextEntry, _⟩, onward⟩ := onward
          simp only [List.mem_cons, not_or, List.nodup_cons] at *
          refine ⟨?_, onward.congr ?_ ?_⟩
          · rw [Links.remove, linked.2, nextEntry]
            simp [Linked, Links.setNext, Links.setPrev]
          · intro other member
            rw [Links.remove, linked.2, nextEntry]
            apply Function.update_of_ne
            rintro rfl
            rcases List.mem_cons.mp member with rfl | behind
            · exact firstOutside.2.1 rfl
            · exact firstOutside.2.2 behind
          · intro other member
            rw [Links.remove, linked.2, nextEntry]
            apply Function.update_of_ne
            rintro rfl
            rcases List.mem_append.mp member with behind | atEnd
            · exact nodup.2.1 behind
            · exact lastOutside.2.1 (List.mem_singleton.mp atEnd).symm
  | cons cell rest inductionHypothesis =>
      obtain ⟨linked, onward⟩ := path
      obtain ⟨toEntry, fromEntry⟩ := path_append.mp onward
      simp only [List.cons_append, List.nodup_cons] at nodup
      have lastBehind : last ∉ rest ++ entry :: back := by
        intro member
        exact lastOutside (List.mem_cons_of_mem cell member)
      refine ⟨⟨?_, ?_⟩, inductionHypothesis onward nodup.2 nodup.1 lastBehind⟩
      · -- The neighbour before the entry comes after the first address.
        have before := toEntry.prev_mem
        have apart : first ≠ links.prev entry := by
          intro same
          rw [← same] at before
          apply firstOutside
          rcases List.mem_cons.mp before with rfl | behind
          · simp
          · simp [behind]
        exact (Function.update_of_ne apart _ _).trans linked.1
      · have after := fromEntry.next_mem
        have apart : cell ≠ links.next entry := by
          intro same
          rw [← same] at after
          rcases List.mem_append.mp after with behind | atEnd
          · exact nodup.1 (by simp [behind])
          · rw [List.mem_singleton] at atEnd
            exact lastOutside (by simp [atEnd])
        exact (Function.update_of_ne apart _ _).trans linked.2

/-! ## Rings -/

omit [DecidableEq Address] in
/-- A ring depends on its own cells only. -/
theorem Ring.congr
    (ring : Ring links head entries)
    (prevs : ∀ cell ∈ head :: entries, changed.prev cell = links.prev cell)
    (nexts : ∀ cell ∈ head :: entries, changed.next cell = links.next cell) :
    Ring changed head entries := by
  refine ⟨ring.path.congr nexts ?_, ring.nodup⟩
  intro cell member
  apply prevs
  simpa [or_comm] using member

/-- An initialised head is an empty ring. -/
theorem ring_init : Ring (links.init head) head [] where
  path := by simp [Path, Linked, Links.init, Links.setPrev, Links.setNext]
  nodup := by simp

omit [DecidableEq Address] in
/-- The head of an empty ring points to itself. -/
theorem Ring.prev_nil (ring : Ring links head []) : links.prev head = head :=
  ring.path.2

omit [DecidableEq Address] in
/-- The head points back to the last entry. -/
theorem Ring.prev_concat
    {front : List Address}
    {last : Address}
    (ring : Ring links head (front ++ [last])) :
    links.prev head = last :=
  (path_append.mp ring.path).2.2

omit [DecidableEq Address] in
/-- The last entry is not the head. -/
theorem Ring.ne_head
    (ring : Ring links head entries)
    (member : entry ∈ entries) :
    entry ≠ head := by
  rintro rfl
  exact (List.nodup_cons.mp ring.nodup).1 member

omit [DecidableEq Address] in
/-- The link forward of every cell of a ring, its head included. -/
theorem Ring.next_eq
    {front back : List Address}
    {cell : Address}
    (ring : Ring links head entries)
    (shape : head :: entries = front ++ cell :: back) :
    links.next cell = back.headD head := by
  cases front with
  | nil =>
      obtain ⟨rfl, rfl⟩ := List.cons.inj shape
      exact ring.path.next_eq
  | cons first rest =>
      obtain ⟨rfl, rfl⟩ := List.cons.inj shape
      exact (path_append.mp ring.path).2.next_eq

/-- Appending changes the links back of the entry and of the head only. -/
theorem prev_pushBack
    {cell : Address}
    (notEntry : cell ≠ entry)
    (notHead : cell ≠ head) :
    (links.pushBack head entry).prev cell = links.prev cell := by
  simp [Links.pushBack, Links.setPrev, Links.setNext, notEntry, notHead]

/-- Appending changes the links forward of the entry and of the last one only. -/
theorem next_pushBack
    {cell : Address}
    (notEntry : cell ≠ entry)
    (notLast : cell ≠ links.prev head) :
    (links.pushBack head entry).next cell = links.next cell := by
  simp [Links.pushBack, Links.setPrev, Links.setNext, notEntry, notLast]

/-- Appending an entry to a ring. -/
theorem Ring.pushBack
    (ring : Ring links head entries)
    (fresh : entry ∉ head :: entries) :
    Ring (links.pushBack head entry) head (entries ++ [entry]) := by
  have nodup : (head :: (entries ++ [entry])).Nodup := by
    have appended : ((head :: entries) ++ [entry]).Nodup := by
      rw [List.nodup_append]
      refine ⟨ring.nodup, by simp, ?_⟩
      rintro cell member other atEnd rfl
      rw [List.mem_singleton] at atEnd
      exact fresh (atEnd ▸ member)
    exact appended
  have entryNotHead : entry ≠ head := by
    rintro rfl
    exact fresh (by simp)
  refine ⟨?_, nodup⟩
  rcases List.eq_nil_or_concat' entries with rfl | ⟨front, last, rfl⟩
  · have prev := ring.prev_nil
    simp [Path, Linked, Links.pushBack, Links.setPrev, Links.setNext, prev, entryNotHead]
  · obtain ⟨toLast, linked⟩ := path_append.mp ring.path
    have prev := ring.prev_concat
    have distinct := ring.nodup
    have entryNotLast : entry ≠ last := by
      rintro rfl
      exact fresh (by simp)
    rw [List.append_assoc]
    refine path_append.mpr ⟨toLast.congr ?_ ?_, ?_⟩
    · intro cell member
      refine next_pushBack ?_ ?_
      · rintro rfl
        exact fresh (List.cons_append ▸ List.mem_append_left [last] member)
      · rintro rfl
        rw [prev] at member
        rw [← List.cons_append, List.nodup_append] at distinct
        exact distinct.2.2 _ member last (by simp) rfl
    · intro cell member
      refine prev_pushBack ?_ ?_
      · rintro rfl
        exact fresh (List.mem_cons_of_mem head member)
      · exact ring.ne_head member
    · simp [Path, Linked, Links.pushBack, Links.setPrev, Links.setNext, prev, entryNotHead,
        entryNotLast]

omit [DecidableEq Address] in
/-- Backwards a path leads through its cells in reverse. -/
theorem Path.flip
    {first last : Address}
    {cells : List Address}
    (path : Path links first cells last) :
    Path links.flip last cells.reverse first := by
  induction cells generalizing first with
  | nil =>
      exact ⟨path.2, path.1⟩
  | cons cell rest inductionHypothesis =>
      rw [List.reverse_cons]
      exact path_append.mpr ⟨inductionHypothesis path.2, path.1.2, path.1.1⟩

omit [DecidableEq Address] in
/-- Backwards a ring has its entries in reverse. -/
theorem Ring.flip (ring : Ring links head entries) :
    Ring links.flip head entries.reverse where
  path := ring.path.flip
  nodup := by
    obtain ⟨outside, distinct⟩ := List.nodup_cons.mp ring.nodup
    rw [List.nodup_cons, List.mem_reverse, List.nodup_reverse]
    exact ⟨outside, distinct⟩

/-- Inserting at the start is appending backwards. -/
theorem pushFront_eq
    (notFirst : entry ≠ links.next head) :
    links.pushFront head entry = (links.flip.pushBack head entry).flip := by
  simp only [Links.pushFront, Links.pushBack, Links.flip, Links.setPrev, Links.setNext,
    Links.mk.injEq, and_true]
  exact Function.update_comm notFirst.symm _ _ _

omit [DecidableEq Address] in
/-- The first entry is not one from outside. -/
theorem Ring.ne_first
    (ring : Ring links head entries)
    (fresh : entry ∉ head :: entries) :
    entry ≠ links.next head := by
  have inside := ring.path.next_mem
  rintro rfl
  exact fresh (by simpa [or_comm] using inside)

/-- Inserting an entry at the start of a ring. -/
theorem Ring.pushFront
    (ring : Ring links head entries)
    (fresh : entry ∉ head :: entries) :
    Ring (links.pushFront head entry) head (entry :: entries) := by
  have backwards : entry ∉ head :: entries.reverse := by
    simpa using fresh
  have appended := (ring.flip.pushBack backwards).flip
  rw [pushFront_eq (ring.ne_first fresh)]
  simpa using appended

/-- Taking an entry out of a ring. -/
theorem Ring.remove
    {front back : List Address}
    (ring : Ring links head (front ++ entry :: back)) :
    Ring (links.remove entry) head (front ++ back) := by
  obtain ⟨headOutside, distinct⟩ := List.nodup_cons.mp ring.nodup
  refine ⟨ring.path.remove distinct headOutside headOutside, ?_⟩
  exact ring.nodup.sublist
    ((List.Sublist.append_left (List.sublist_cons_self entry back) front).cons_cons head)

omit [DecidableEq Address] in
/-- The neighbours of an entry belong to its ring. -/
theorem Ring.neighbours
    (ring : Ring links head entries)
    (member : entry ∈ entries) :
    links.prev entry ∈ head :: entries ∧ links.next entry ∈ head :: entries := by
  obtain ⟨front, back, rfl⟩ := List.append_of_mem member
  obtain ⟨toEntry, fromEntry⟩ := path_append.mp ring.path
  have before := toEntry.prev_mem
  have after := fromEntry.next_mem
  simp only [List.mem_cons, List.mem_append] at before after ⊢
  constructor
  · rcases before with atHead | inFront
    · exact Or.inl atHead
    · exact Or.inr (Or.inl inFront)
  · rcases after with inBack | atHead
    · exact Or.inr (Or.inr (Or.inr inBack))
    · exact Or.inl (by simpa using atHead)

/-- A ring with no cell in common with the one appended to is left alone. -/
theorem Ring.pushBack_other
    {other : Address}
    {others : List Address}
    (ring : Ring links head entries)
    (apart : Ring links other others)
    (disjoint : ∀ cell ∈ other :: others, cell ≠ entry ∧ cell ∉ head :: entries) :
    Ring (links.pushBack head entry) other others := by
  refine apart.congr ?_ ?_
  · intro cell member
    refine prev_pushBack (disjoint cell member).1 ?_
    rintro rfl
    exact (disjoint cell member).2 (by simp)
  · intro cell member
    refine next_pushBack (disjoint cell member).1 ?_
    rintro rfl
    exact (disjoint _ member).2 ring.path.prev_mem

/-- A ring with no cell in common with the one inserted into is left alone. -/
theorem Ring.pushFront_other
    {other : Address}
    {others : List Address}
    (ring : Ring links head entries)
    (fresh : entry ∉ head :: entries)
    (apart : Ring links other others)
    (disjoint : ∀ cell ∈ other :: others, cell ≠ entry ∧ cell ∉ head :: entries) :
    Ring (links.pushFront head entry) other others := by
  have kept := ring.flip.pushBack_other apart.flip fun cell member => by
    simpa using disjoint cell (by simpa using member)
  rw [pushFront_eq (ring.ne_first fresh)]
  simpa using kept.flip

/-- A ring with no cell in common with the one removed from is left alone. -/
theorem Ring.remove_other
    {other : Address}
    {others : List Address}
    (ring : Ring links head entries)
    (member : entry ∈ entries)
    (apart : Ring links other others)
    (disjoint : ∀ cell ∈ other :: others, cell ∉ head :: entries) :
    Ring (links.remove entry) other others := by
  obtain ⟨before, after⟩ := ring.neighbours member
  refine apart.congr ?_ ?_
  · intro cell inside
    apply Function.update_of_ne
    rintro rfl
    exact disjoint _ inside after
  · intro cell inside
    apply Function.update_of_ne
    rintro rfl
    exact disjoint _ inside before

/-- Appending the last entry again undoes its removal. -/
theorem Ring.pushBack_remove
    {front : List Address}
    {last : Address}
    (ring : Ring links head (front ++ [last])) :
    (links.remove last).pushBack head last = links := by
  obtain ⟨toLast, nextLast, prevHead⟩ := path_append.mp ring.path
  have answered := toLast.next_prev
  have headNotLast := (ring.ne_head (show last ∈ front ++ [last] by simp)).symm
  obtain ⟨prev, next⟩ := links
  simp only at nextLast prevHead answered
  simp only [Links.pushBack, Links.remove, Links.setPrev, Links.setNext, nextLast,
    Function.update_self, Links.mk.injEq]
  constructor
  · funext cell
    by_cases atHead : cell = head
    · simp [atHead, prevHead]
    · by_cases atLast : cell = last
      · simp [atLast, headNotLast.symm]
      · simp [atHead, atLast]
  · funext cell
    by_cases before : cell = prev last
    · simp [before, answered]
    · by_cases atLast : cell = last
      · subst atLast
        simp [before, nextLast]
      · simp [before, atLast]

/-- Initialising a head leaves the rings it is no part of alone. -/
theorem Ring.init_other
    {other : Address}
    {others : List Address}
    (ring : Ring links other others)
    (outside : head ∉ other :: others) :
    Ring (links.init head) other others := by
  refine ring.congr ?_ ?_
  · intro cell member
    apply Function.update_of_ne
    rintro rfl
    exact outside member
  · intro cell member
    apply Function.update_of_ne
    rintro rfl
    exact outside member

/-- Removing an entry keeps the links back outside of its ring. -/
theorem Ring.prev_remove
    {cell : Address}
    (ring : Ring links head entries)
    (member : entry ∈ entries)
    (outside : cell ∉ head :: entries) :
    (links.remove entry).prev cell = links.prev cell := by
  apply Function.update_of_ne
  rintro rfl
  exact outside (ring.neighbours member).2

omit [DecidableEq Address] in
/-- A path to an address it meets only at its end is determined by the links. -/
private theorem Path.unique
    {first last : Address}
    {cells others : List Address}
    (path : Path links first cells last)
    (other : Path links first others last)
    (outside : last ∉ cells)
    (outsideOther : last ∉ others) :
    cells = others := by
  induction cells generalizing first others with
  | nil =>
      cases others with
      | nil =>
          rfl
      | cons cell rest =>
          have same : cell = last := other.1.1.symm.trans path.1
          exact absurd (by simp [same]) outsideOther
  | cons cell rest inductionHypothesis =>
      cases others with
      | nil =>
          have same : cell = last := path.1.1.symm.trans other.1
          exact absurd (by simp [same]) outside
      | cons second behind =>
          obtain rfl : cell = second := path.1.1.symm.trans other.1.1
          simp only [List.mem_cons, not_or] at outside outsideOther
          rw [inductionHypothesis path.2 other.2 outside.2 outsideOther.2]

omit [DecidableEq Address] in
/-- The links determine the entries of a ring. -/
theorem Ring.unique
    {others : List Address}
    (ring : Ring links head entries)
    (other : Ring links head others) :
    entries = others :=
  ring.path.unique other.path (List.nodup_cons.mp ring.nodup).1
    (List.nodup_cons.mp other.nodup).1

omit [DecidableEq Address] in
/-- The neighbours of every cell of a ring, its head included, belong to it. -/
theorem Ring.closed
    {cell : Address}
    (ring : Ring links head entries)
    (member : cell ∈ head :: entries) :
    links.prev cell ∈ head :: entries ∧ links.next cell ∈ head :: entries := by
  rcases List.mem_cons.mp member with rfl | inside
  · exact ⟨ring.path.prev_mem, by simpa [or_comm] using ring.path.next_mem⟩
  · exact ring.neighbours inside

omit [DecidableEq Address] in
/-- The links of the cells of a ring are determined by its entries. -/
theorem Ring.agree
    {cell : Address}
    (ring : Ring links head entries)
    (other : Ring changed head entries)
    (member : cell ∈ head :: entries) :
    changed.next cell = links.next cell ∧ changed.prev cell = links.prev cell := by
  have backwards : cell ∈ head :: entries.reverse := by simpa using member
  obtain ⟨front, back, shape⟩ := List.append_of_mem member
  obtain ⟨front', back', shape'⟩ := List.append_of_mem backwards
  constructor
  · rw [ring.next_eq shape, other.next_eq shape]
  · exact (other.flip.next_eq shape').trans (ring.flip.next_eq shape').symm

/-- The node of no list points to itself, or between two neighbours of the list. -/
def Stray (links : Links Address) (head : Address) (entries : List Address) (cell : Address) :
    Prop :=
  (links.prev cell = cell ∧ links.next cell = cell) ∨
    (links.prev cell ∈ head :: entries ∧
      links.next cell ∈ head :: entries ∧
      Linked links (links.prev cell) (links.next cell))

omit [DecidableEq Address] in
/-- Such a node points to itself or into the list. -/
theorem Stray.mem
    {cell : Address}
    (stray : Stray links head entries cell) :
    links.next cell ∈ cell :: head :: entries ∧ links.prev cell ∈ cell :: head :: entries := by
  rcases stray with ⟨prevSelf, nextSelf⟩ | ⟨prev, next, _⟩
  · rw [prevSelf, nextSelf]
    simp
  · exact ⟨List.mem_cons_of_mem _ next, List.mem_cons_of_mem _ prev⟩

/-- Taking out a cell that is in no list leaves a list alone only in these two cases. -/
theorem Ring.remove_stray_iff
    (ring : Ring links head entries)
    (outside : entry ∉ head :: entries)
    (prev : links.prev entry ∈ entry :: head :: entries)
    (next : links.next entry ∈ entry :: head :: entries) :
    Ring (links.remove entry) head entries ↔ Stray links head entries entry := by
  have nextOf : (links.remove entry).next (links.prev entry) = links.next entry :=
    Function.update_self _ _ _
  have prevOf : (links.remove entry).prev (links.next entry) = links.prev entry :=
    Function.update_self _ _ _
  constructor
  · intro removed
    rcases List.mem_cons.mp prev with prevSelf | prevInside
    · rcases List.mem_cons.mp next with nextSelf | nextInside
      · exact Or.inl ⟨prevSelf, nextSelf⟩
      · have inside := (removed.closed nextInside).1
        rw [prevOf, prevSelf] at inside
        exact absurd inside outside
    · rcases List.mem_cons.mp next with nextSelf | nextInside
      · have inside := (removed.closed prevInside).2
        rw [nextOf, nextSelf] at inside
        exact absurd inside outside
      · refine Or.inr ⟨prevInside, nextInside, ?_, ?_⟩
        · rw [← (ring.agree removed prevInside).1, nextOf]
        · rw [← (ring.agree removed nextInside).2, prevOf]
  · rintro (⟨prevSelf, nextSelf⟩ | ⟨_, _, nextSame, prevSame⟩)
    · refine ring.congr ?_ ?_
      · intro cell member
        refine Function.update_of_ne ?_ _ _
        rintro rfl
        exact outside (nextSelf ▸ member)
      · intro cell member
        refine Function.update_of_ne ?_ _ _
        rintro rfl
        exact outside (prevSelf ▸ member)
    · refine ring.congr ?_ ?_
      · intro cell _
        exact congrFun (Function.update_eq_self_iff.mpr prevSame.symm) cell
      · intro cell _
        exact congrFun (Function.update_eq_self_iff.mpr nextSame.symm) cell

end Sysprog.CircularList
