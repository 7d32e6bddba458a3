import Sysprog.CircularList

namespace Sysprog.RingFamilies

open CircularList

/-!
# Several circular lists in one memory

`CircularList` looks at one ring at a time.  Here any number of rings lie in one memory, and
their cells go from one to another: an entry is taken out of one list and put into another,
the entries of a list are spliced into a second one, a list is cut in two.  All of these
make two cells neighbours, once or several times.

The lists are a map from the heads to the entries in order; a cell that is neither is free.
-/

variable {Cell : Type} {links changed : Links Cell}

/-- The entries behind every head. -/
abbrev RingLists (Cell : Type) : Type :=
  Cell → Option (List Cell)

/-- A cell is an entry of a list. -/
def RingLists.IsEntry (lists : RingLists Cell) (cell : Cell) : Prop :=
  ∃ head entries, lists head = some entries ∧ cell ∈ entries

/-- A cell belongs to no list, neither as its head nor as an entry. -/
def RingLists.Unused (lists : RingLists Cell) (cell : Cell) : Prop :=
  lists cell = none ∧ ¬ lists.IsEntry cell

/-- All lists in the other direction. -/
def RingLists.reversed (lists : RingLists Cell) : RingLists Cell :=
  fun head => (lists head).map List.reverse

/-- The rings of a memory are the lists, and no cell is in two of them. -/
structure Family (links : Links Cell) (lists : RingLists Cell) : Prop where
  ring : ∀ {head entries}, lists head = some entries → Ring links head entries
  apart :
    ∀ {first second entries others cell},
      lists first = some entries →
      lists second = some others →
      cell ∈ first :: entries →
      cell ∈ second :: others →
      first = second

/-- A cell holds the same links in two memories. -/
def SameAt (links changed : Links Cell) (cell : Cell) : Prop :=
  changed.prev cell = links.prev cell ∧ changed.next cell = links.next cell

/-! ## Pieces of rings -/

/-- The links lead through some cells, from the first of them, to another. -/
def Trail (links : Links Cell) : List Cell → Cell → Prop
  | [], _ => True
  | first :: rest, last => Path links first rest last

/-- A path goes through its cells wherever it begins. -/
theorem trail_of_path
    {first last : Cell}
    {cells : List Cell}
    (path : Path links first cells last) :
    Trail links cells last := by
  cases cells with
  | nil => trivial
  | cons cell rest => exact path.2

/-- A link to the first cell begins a path. -/
theorem path_of_trail
    {first last : Cell}
    {cells : List Cell}
    (trail : Trail links cells last)
    (linked : Linked links first (cells.headD last)) :
    Path links first cells last := by
  cases cells with
  | nil => exact linked
  | cons cell rest => exact ⟨linked, trail⟩

/-- The first cell of some that are distinct is none of the others. -/
theorem ne_headD_of_mem_tail
    {cells : List Cell}
    {cell last : Cell}
    (nodup : (cells ++ [last]).Nodup)
    (member : cell ∈ (cells ++ [last]).tail) :
    cell ≠ cells.headD last := by
  cases cells with
  | nil => simp at member
  | cons first rest =>
      rintro rfl
      exact (List.nodup_cons.mp nodup).1 member

/-- The first of some cells and a last one is one of them. -/
theorem headD_mem (cells : List Cell) (last : Cell) : cells.headD last ∈ cells ++ [last] := by
  cases cells <;> simp

/-- The cells of a ring in the order in which they are reached from its head. -/
theorem nodup_concat
    {head : Cell}
    {entries : List Cell}
    (ring : Ring links head entries) :
    (entries ++ [head]).Nodup :=
  (List.perm_append_singleton head entries).nodup_iff.mpr ring.nodup

variable [DecidableEq Cell]

/-- Make two cells neighbours. -/
def connect (links : Links Cell) (first second : Cell) : Links Cell :=
  (links.setNext first second).setPrev second first

/-- Two cells that were connected are neighbours. -/
theorem linked_connect {first second : Cell} : Linked (connect links first second) first second :=
  ⟨Function.update_self _ _ _, Function.update_self _ _ _⟩

/-- Connecting two cells leaves other neighbours alone. -/
theorem linked_connect_other
    {first second before after : Cell}
    (linked : Linked links before after)
    (notFirst : before ≠ first)
    (notSecond : after ≠ second) :
    Linked (connect links first second) before after :=
  ⟨(Function.update_of_ne notFirst _ _).trans linked.1,
    (Function.update_of_ne notSecond _ _).trans linked.2⟩

/-- Connecting two cells leaves a trail alone that leads neither on from one nor to the other. -/
theorem trail_connect
    {first second last : Cell}
    {cells : List Cell}
    (trail : Trail links cells last)
    (notFirst : first ∉ cells)
    (notSecond : second ∉ (cells ++ [last]).tail) :
    Trail (connect links first second) cells last := by
  cases cells with
  | nil => trivial
  | cons cell rest =>
      refine Path.congr trail ?_ ?_
      · intro other member
        refine Function.update_of_ne ?_ _ _
        rintro rfl
        exact notFirst member
      · intro other member
        refine Function.update_of_ne ?_ _ _
        rintro rfl
        exact notSecond member

/-- Put the entries of a list before those of another one. -/
def splice (links : Links Cell) (list head : Cell) : Links Cell :=
  connect (connect links head (links.next list)) (links.prev list) (links.next head)

/-- Move the entries of a list up to a node to another head. -/
def cut (links : Links Cell) (headTo headFrom node : Cell) : Links Cell :=
  connect (connect (connect links headFrom (links.next node)) node headTo) headTo
    (links.next headFrom)

/-- Splicing a list with entries into another one. -/
theorem ring_splice
    {head list : Cell}
    {entries cells : List Cell}
    (ring : Ring links head entries)
    (other : Ring links list cells)
    (filled : cells ≠ [])
    (apart : ∀ cell ∈ list :: cells, cell ∉ head :: entries) :
    Ring (splice links list head) head (cells ++ entries) := by
  obtain ⟨front, last, rfl⟩ := (List.eq_nil_or_concat' cells).resolve_left filled
  obtain ⟨toLast, back⟩ := path_append.mp other.path
  have inside : ∀ cell ∈ front ++ [last], cell ∉ entries ++ [head] := by
    intro cell member own
    exact apart cell (List.mem_cons_of_mem _ member) (by simpa [or_comm] using own)
  have distinct : (front ++ [last]).Nodup := (List.nodup_cons.mp other.nodup).2
  have ownDistinct := nodup_concat ring
  have lastMember : last ∈ front ++ [last] := by simp
  have headMember : head ∈ entries ++ [head] := by simp
  have firstMember := headD_mem front last
  have ownFirstMember := headD_mem entries head
  have headOutside : head ∉ front := fun member =>
    inside head (List.mem_append_left _ member) headMember
  have lastOutside : last ∉ entries := fun member =>
    inside last lastMember (List.mem_append_left _ member)
  have lastOnce : last ∉ front := fun member =>
    (List.nodup_append.mp distinct).2.2 last member last (by simp) rfl
  have headOnce : head ∉ entries := (List.nodup_cons.mp ring.nodup).1
  have headNotLast : head ≠ last := by
    rintro rfl
    exact inside _ lastMember headMember
  have firstsDiffer : front.headD last ≠ entries.headD head := by
    intro same
    exact inside _ firstMember (same ▸ ownFirstMember)
  rw [splice, toLast.next_eq, back.2, ring.path.next_eq]
  have through :
      Trail (connect (connect links head (front.headD last)) last (entries.headD head)) front
        last := by
    refine trail_connect (trail_connect (trail_of_path toLast) headOutside ?_) lastOnce ?_
    · exact fun member => ne_headD_of_mem_tail distinct member rfl
    · exact fun member => inside _ (List.mem_of_mem_tail member) ownFirstMember
  have onward :
      Trail (connect (connect links head (front.headD last)) last (entries.headD head)) entries
        head := by
    refine trail_connect (trail_connect (trail_of_path ring.path) headOnce ?_) lastOutside ?_
    · exact fun member => inside _ firstMember (List.mem_of_mem_tail member)
    · exact fun member => ne_headD_of_mem_tail ownDistinct member rfl
  refine ⟨?_, ?_⟩
  · rw [List.append_assoc]
    exact path_append.mpr
      ⟨path_of_trail through (linked_connect_other linked_connect headNotLast firstsDiffer),
        path_of_trail onward linked_connect⟩
  · rw [List.nodup_cons, List.mem_append, List.nodup_append]
    refine ⟨?_, distinct, (List.nodup_cons.mp ring.nodup).2, ?_⟩
    · rintro (among | own)
      · exact inside head among headMember
      · exact headOnce own
    · rintro cell among _ own rfl
      exact inside cell among (List.mem_append_left _ own)

/-- Cutting a list in two behind one of its entries. -/
theorem ring_cut
    {headTo headFrom node : Cell}
    {front back : List Cell}
    (ring : Ring links headFrom (front ++ node :: back))
    (outside : headTo ∉ headFrom :: (front ++ node :: back)) :
    Ring (cut links headTo headFrom node) headTo (front ++ [node]) ∧
      Ring (cut links headTo headFrom node) headFrom back := by
  obtain ⟨toNode, fromNode⟩ := path_append.mp ring.path
  obtain ⟨headOnce, distinct⟩ := List.nodup_cons.mp ring.nodup
  obtain ⟨frontDistinct, behindDistinct, parts⟩ := List.nodup_append.mp distinct
  obtain ⟨nodeOnce, backDistinct⟩ := List.nodup_cons.mp behindDistinct
  simp only [List.mem_cons, List.mem_append, not_or] at outside headOnce
  obtain ⟨toNotFrom, toNotFront, toNotNode, toNotBack⟩ := outside
  obtain ⟨fromNotFront, fromNotNode, fromNotBack⟩ := headOnce
  have nodeNotFront : node ∉ front := fun member => parts node member node (by simp) rfl
  have inFront : ∀ cell ∈ front ++ [node], cell ∉ back ++ [headFrom] := by
    intro cell first second
    rcases List.mem_append.mp first with before | atNode <;>
      rcases List.mem_append.mp second with behind | atHead
    · exact parts cell before cell (List.mem_cons_of_mem _ behind) rfl
    · exact fromNotFront (List.mem_singleton.mp atHead ▸ before)
    · exact nodeOnce (List.mem_singleton.mp atNode ▸ behind)
    · exact fromNotNode ((List.mem_singleton.mp atHead).symm.trans (List.mem_singleton.mp atNode))
  have frontNodup : (front ++ [node]).Nodup := by
    rw [List.nodup_append]
    exact ⟨frontDistinct, List.nodup_singleton node, fun cell member other atEnd same =>
      nodeNotFront (List.mem_singleton.mp atEnd ▸ same ▸ member)⟩
  have backNodup : (back ++ [headFrom]).Nodup := by
    rw [List.nodup_append]
    exact ⟨backDistinct, List.nodup_singleton headFrom, fun cell member other atEnd same =>
      fromNotBack (List.mem_singleton.mp atEnd ▸ same ▸ member)⟩
  have firstMember := headD_mem front node
  have nextMember := headD_mem back headFrom
  have toNotFirst : headTo ∉ front ++ [node] := by
    simp [toNotFront, toNotNode]
  have toNotNext : headTo ∉ back ++ [headFrom] := by
    simp [toNotBack, toNotFrom]
  rw [cut, fromNode.next_eq, toNode.next_eq]
  have nextNotTo : back.headD headFrom ≠ headTo := fun same => toNotNext (same ▸ nextMember)
  have nextNotFirst : back.headD headFrom ≠ front.headD node := fun same =>
    inFront _ firstMember (same ▸ nextMember)
  have firstNotTo : headTo ≠ front.headD node := fun same => toNotFirst (same ▸ firstMember)
  have kept :
      Trail
        (connect
          (connect (connect links headFrom (back.headD headFrom)) node headTo) headTo
          (front.headD node))
        back headFrom := by
    refine trail_connect (trail_connect (trail_connect (trail_of_path fromNode) fromNotBack ?_)
      nodeOnce ?_) toNotBack ?_
    · exact fun member => ne_headD_of_mem_tail backNodup member rfl
    · exact fun member => toNotNext (List.mem_of_mem_tail member)
    · exact fun member => inFront _ firstMember (List.mem_of_mem_tail member)
  have moved :
      Trail
        (connect
          (connect (connect links headFrom (back.headD headFrom)) node headTo) headTo
          (front.headD node))
        front node := by
    refine trail_connect (trail_connect (trail_connect (trail_of_path toNode) fromNotFront ?_)
      nodeNotFront ?_) toNotFront ?_
    · exact fun member => inFront _ (List.mem_of_mem_tail member) nextMember
    · exact fun member => toNotFirst (List.mem_of_mem_tail member)
    · exact fun member => ne_headD_of_mem_tail frontNodup member rfl
  refine ⟨⟨path_append.mpr ⟨path_of_trail moved linked_connect, ?_⟩, ?_⟩,
    ⟨path_of_trail kept ?_, ?_⟩⟩
  · exact linked_connect_other linked_connect (Ne.symm toNotNode) firstNotTo
  · exact List.nodup_cons.mpr ⟨toNotFirst, frontNodup⟩
  · exact linked_connect_other
      (linked_connect_other linked_connect fromNotNode nextNotTo)
      (Ne.symm toNotFrom) nextNotFirst
  · exact List.nodup_cons.mpr ⟨fromNotBack, backDistinct⟩

/-! ## One list at a time -/

variable {lists later : RingLists Cell}

omit [DecidableEq Cell] in
/-- A ring stays where its cells keep their links. -/
theorem ring_same
    {head : Cell}
    {entries : List Cell}
    (ring : Ring links head entries)
    (same : ∀ cell ∈ head :: entries, SameAt links changed cell) :
    Ring changed head entries :=
  ring.congr (fun cell member => (same cell member).1) fun cell member => (same cell member).2

omit [DecidableEq Cell] in
/--
One list is changed or dropped, others may be dropped, and those that stay are neither
touched nor met by the changed one.
-/
theorem Family.change
    (family : Family links lists)
    (head : Cell)
    (here : ∀ entries, later head = some entries → Ring changed head entries)
    (others :
      ∀ {other entries},
        other ≠ head →
        later other = some entries →
        lists other = some entries ∧
          (∀ cell ∈ other :: entries, SameAt links changed cell) ∧
            ∀ own, later head = some own → ∀ cell ∈ other :: entries, cell ∉ head :: own) :
    Family changed later where
  ring := by
    intro other entries listed
    by_cases isHead : other = head
    · subst isHead
      exact here entries listed
    · obtain ⟨before, same, _⟩ := others isHead listed
      exact ring_same (family.ring before) same
  apart := by
    intro first second entries behind cell listed alsoListed member alsoMember
    by_cases firstHead : first = head <;> by_cases secondHead : second = head
    · rw [firstHead, secondHead]
    · subst firstHead
      exact absurd member ((others secondHead alsoListed).2.2 _ listed cell alsoMember)
    · subst secondHead
      exact absurd alsoMember ((others firstHead listed).2.2 _ alsoListed cell member)
    · exact family.apart (others firstHead listed).1 (others secondHead alsoListed).1 member
        alsoMember

omit [DecidableEq Cell] in
/-- An entry of the reversed lists is one of the lists. -/
@[simp] theorem isEntry_reversed {cell : Cell} : lists.reversed.IsEntry cell ↔ lists.IsEntry cell := by
  constructor
  · rintro ⟨head, entries, listed, member⟩
    obtain ⟨forwards, before, rfl⟩ := Option.map_eq_some_iff.mp listed
    exact ⟨head, forwards, before, List.mem_reverse.mp member⟩
  · rintro ⟨head, entries, listed, member⟩
    refine ⟨head, entries.reverse, ?_, List.mem_reverse.mpr member⟩
    rw [RingLists.reversed, listed]
    rfl

omit [DecidableEq Cell] in
/-- A cell of no list is in no reversed list. -/
@[simp] theorem unused_reversed {cell : Cell} : lists.reversed.Unused cell ↔ lists.Unused cell := by
  rw [RingLists.Unused, RingLists.Unused, isEntry_reversed, RingLists.reversed, Option.map_eq_none_iff]

omit [DecidableEq Cell] in
/-- Lists reversed twice are themselves. -/
@[simp] theorem reversed_reversed : lists.reversed.reversed = lists := by
  funext head
  cases listed : lists head <;> simp [RingLists.reversed, listed]

omit [DecidableEq Cell] in
/-- Read in the other direction all lists are reversed. -/
theorem Family.flip (family : Family links lists) : Family links.flip lists.reversed where
  ring := by
    intro head entries listed
    obtain ⟨forwards, before, rfl⟩ := Option.map_eq_some_iff.mp listed
    exact (family.ring before).flip
  apart := by
    intro first second entries others cell listed alsoListed member alsoMember
    obtain ⟨forwards, before, rfl⟩ := Option.map_eq_some_iff.mp listed
    obtain ⟨alsoForwards, alsoBefore, rfl⟩ := Option.map_eq_some_iff.mp alsoListed
    exact family.apart before alsoBefore (by simpa using member) (by simpa using alsoMember)

omit [DecidableEq Cell] in
/-- A cell that is no entry lies on no ring but its own. -/
theorem ne_of_outside
    {cell node other : Cell}
    {entries : List Cell}
    (outside : ¬ lists.IsEntry node)
    (notOwn : other ≠ node)
    (listed : lists other = some entries)
    (member : cell ∈ other :: entries) :
    cell ≠ node := by
  rintro rfl
  rcases List.mem_cons.mp member with isHead | inside
  · exact notOwn isHead.symm
  · exact outside ⟨other, entries, listed, inside⟩

omit [DecidableEq Cell] in
/-- A cell of no list lies on no ring. -/
theorem not_mem_of_unused
    {cell head : Cell}
    {entries : List Cell}
    (unused : lists.Unused cell)
    (listed : lists head = some entries) :
    cell ∉ head :: entries := by
  intro member
  rcases List.mem_cons.mp member with rfl | inside
  · rw [unused.1] at listed
    cases listed
  · exact unused.2 ⟨head, entries, listed, inside⟩

omit [DecidableEq Cell] in
/-- The entries of two lists have nothing in common. -/
theorem Family.disjoint
    {cell head other : Cell}
    {entries behind : List Cell}
    (family : Family links lists)
    (notHead : other ≠ head)
    (listed : lists head = some entries)
    (alsoListed : lists other = some behind)
    (member : cell ∈ other :: behind) :
    cell ∉ head :: entries :=
  fun own => notHead (family.apart alsoListed listed member own)

end Sysprog.RingFamilies
