import Mathlib.Data.List.Count
import Mathlib.Data.List.Nodup
import Sysprog.Execution

namespace Sysprog.RoundRobin

open Execution

/-!
# Taking turns

Members take turns one after the other.  Whose turn it is passes it on or leaves, and a
newcomer is seated directly before a fixed member that never leaves.  Between two turns
of a member every other one that stays has had exactly one, and newcomers have their
first turns in the order in which they joined.
-/

/--
The members in the order of their next turns, so that the one whose turn it is comes
last, and all who ever joined.
-/
structure Table (Member : Type) where
  queue : List Member
  joined : List Member

/-- What may happen at the table, with the member who joins or whose turn it becomes. -/
inductive Turn (Member : Type) where
  | idle
  | join (member : Member)
  | pass (member : Member)
  | leave (member : Member)

variable {Member : Type}

/-- Nobody joins twice, and the fixed member does not leave. -/
inductive Step (anchor : Member) : Table Member → Turn Member → Table Member → Prop where
  | idle {table : Table Member} :
      Step anchor table .idle table
  | join
      {front back joined : List Member}
      {member : Member}
      (new : member ∉ anchor :: joined) :
      Step anchor
        { queue := front ++ anchor :: back, joined := joined }
        (.join member)
        { queue := front ++ member :: anchor :: back, joined := joined ++ [member] }
  | pass
      {rest joined : List Member}
      {member : Member} :
      Step anchor
        { queue := member :: rest, joined := joined }
        (.pass member)
        { queue := rest ++ [member], joined := joined }
  | leave
      {rest joined : List Member}
      {member current : Member}
      (notAnchor : current ≠ anchor) :
      Step anchor
        { queue := member :: (rest ++ [current]), joined := joined }
        (.leave member)
        { queue := rest ++ [member], joined := joined }

/-- The member whose turn it becomes. -/
def Turn.served : Turn Member → Option Member
  | .idle => none
  | .join _ => none
  | .pass member => some member
  | .leave member => some member

/-- Whose turn it became, in order. -/
def served (turns : List (Turn Member)) : List Member :=
  turns.filterMap Turn.served

/-- The queue names each member once, all of them joined, and the fixed one is there. -/
structure Seated (anchor : Member) (table : Table Member) : Prop where
  nodup : table.queue.Nodup
  anchor_mem : anchor ∈ table.queue
  known : ∀ member ∈ table.queue, member ∈ anchor :: table.joined
  joined : (anchor :: table.joined).Nodup

section Steps

variable {anchor : Member} {before after start final : Table Member} {turn : Turn Member}
  {turns : List (Turn Member)}

/-- At first the fixed member sits alone. -/
theorem seated_alone : Seated anchor { queue := [anchor], joined := [] } where
  nodup := by simp
  anchor_mem := by simp
  known := by simp
  joined := by simp

/-- Every turn keeps the table in order. -/
theorem Seated.step
    (seated : Seated anchor before)
    (step : Step anchor before turn after) :
    Seated anchor after := by
  obtain ⟨nodup, inside, known, joined⟩ := seated
  cases step with
  | idle =>
      exact ⟨nodup, inside, known, joined⟩
  | @join front back others member new =>
      have absent : member ∉ front ++ anchor :: back := fun seat => new (known member seat)
      refine ⟨?_, by simp, ?_, ?_⟩
      · rw [List.nodup_middle, List.nodup_cons]
        exact ⟨absent, nodup⟩
      · intro other seat
        simp only [List.mem_append, List.mem_cons] at seat known ⊢
        have := known other
        tauto
      · rw [← List.cons_append, List.nodup_append]
        refine ⟨joined, by simp, ?_⟩
        rintro other inOthers fresh isFresh rfl
        rw [List.mem_singleton] at isFresh
        exact new (isFresh ▸ inOthers)
  | @pass rest others member =>
      refine ⟨?_, ?_, ?_, joined⟩
      · exact List.perm_append_singleton member rest |>.nodup_iff.mpr nodup
      · simpa [or_comm] using inside
      · intro other seat
        exact known other (by simpa [or_comm] using seat)
  | @leave rest others member current notAnchor =>
      have shorter : (member :: rest).Nodup := by
        rw [← List.cons_append] at nodup
        exact nodup.of_append_left
      refine ⟨?_, ?_, ?_, joined⟩
      · exact List.perm_append_singleton member rest |>.nodup_iff.mpr shorter
      · simp only [List.mem_cons, List.mem_append, List.not_mem_nil, or_false] at inside ⊢
        have := notAnchor.symm
        tauto
      · intro other seat
        refine known other ?_
        simp only [List.mem_cons, List.mem_append, List.not_mem_nil, or_false] at seat ⊢
        tauto

/-- So does every run. -/
theorem Seated.run
    (seated : Seated anchor start)
    (run : Run (Step anchor) start turns final) :
    Seated anchor final :=
  run.invariant seated fun seated step => seated.step step

/-- Whose turn it becomes moves from the front of the queue to its end, and nobody joins. -/
theorem Step.serves
    {member : Member}
    (step : Step anchor before turn after)
    (isServed : turn.served = some member) :
    (∃ rest, before.queue = member :: rest) ∧
      (∃ rest, after.queue = rest ++ [member]) ∧
      after.joined = before.joined := by
  cases step with
  | idle => simp [Turn.served] at isServed
  | join => simp [Turn.served] at isServed
  | pass =>
      obtain rfl := Option.some.inj isServed
      exact ⟨⟨_, rfl⟩, ⟨_, rfl⟩, rfl⟩
  | leave =>
      obtain rfl := Option.some.inj isServed
      exact ⟨⟨_, rfl⟩, ⟨_, rfl⟩, rfl⟩

/-- Who joined has joined for good. -/
theorem Step.joined_mem
    {member : Member}
    (step : Step anchor before turn after)
    (known : member ∈ anchor :: before.joined) :
    member ∈ anchor :: after.joined := by
  cases step with
  | join =>
      simp only [List.mem_cons, List.mem_append] at known ⊢
      tauto
  | idle => exact known
  | pass => exact known
  | leave => exact known

/-- Who left does not come back. -/
theorem Step.mem_before
    {member : Member}
    (step : Step anchor before turn after)
    (known : member ∈ anchor :: before.joined)
    (seat : member ∈ after.queue) :
    member ∈ before.queue := by
  cases step with
  | idle =>
      exact seat
  | @join front back others fresh new =>
      have different : member ≠ fresh := by
        rintro rfl
        exact new known
      simp only [List.mem_append, List.mem_cons] at seat ⊢
      tauto
  | pass =>
      simpa [or_comm] using seat
  | leave =>
      simp only [List.mem_cons, List.mem_append, List.not_mem_nil, or_false] at seat ⊢
      tauto

/--
Among members that stay, a turn changes the order only by moving whose turn it becomes
from the front to the end.
-/
theorem Step.rotates
    (step : Step anchor before turn after)
    (seated : Seated anchor before)
    (chosen : Member → Bool)
    (there : ∀ member, chosen member = true → member ∈ before.queue ∧ member ∈ after.queue) :
    ∃ rest,
      before.queue.filter chosen = turn.served.toList.filter chosen ++ rest ∧
        after.queue.filter chosen = rest ++ turn.served.toList.filter chosen := by
  cases step with
  | idle =>
      exact ⟨before.queue.filter chosen, by simp [Turn.served], by simp [Turn.served]⟩
  | @join front back others member new =>
      have notChosen : ¬ chosen member = true := fun isChosen =>
        new (seated.known member (there member isChosen).1)
      refine ⟨(front ++ anchor :: back).filter chosen, by simp [Turn.served], ?_⟩
      simp [Turn.served, List.filter_append, List.filter_cons_of_neg notChosen]
  | @pass rest others member =>
      refine ⟨rest.filter chosen, ?_, ?_⟩
      · rw [← List.filter_append]
        rfl
      · exact List.filter_append _ _
  | @leave rest others member current notAnchor =>
      have notChosen : ¬ chosen current = true := by
        intro isChosen
        have distinct := seated.nodup
        rw [← List.cons_append, List.nodup_append] at distinct
        refine distinct.2.2 current ?_ current (by simp) rfl
        simpa [or_comm] using (there current isChosen).2
      refine ⟨rest.filter chosen, ?_, ?_⟩
      · rw [← List.cons_append, List.filter_append, List.filter_cons_of_neg notChosen,
          List.filter_nil, List.append_nil, ← List.filter_append]
        rfl
      · exact List.filter_append _ _

/-- One more turn serves at most one more member. -/
theorem served_concat :
    served (turns ++ [turn]) = served turns ++ turn.served.toList := by
  cases same : turn.served <;> simp [served, same]

end Steps

/-! ## Between two turns of a member -/

section Between

variable [DecidableEq Member] {anchor first second : Member} {start final : Table Member}
  {turns : List (Turn Member)}

/-- One of two members. -/
def either (first second : Member) : Member → Bool :=
  fun member => member = first ∨ member = second

/-- A list that ends with one of its members and has another one names the other one first. -/
theorem filter_either
    {rest : List Member}
    (nodup : (rest ++ [first]).Nodup)
    (different : second ≠ first)
    (member : second ∈ rest ++ [first]) :
    (rest ++ [first]).filter (either first second) = [second, first] := by
  obtain ⟨front, back, rfl⟩ : ∃ front back, rest = front ++ second :: back := by
    refine List.append_of_mem ?_
    simpa [different] using member
  have none (part : List Member) (firstOut : first ∉ part) (secondOut : second ∉ part) :
      part.filter (either first second) = [] := by
    rw [List.filter_eq_nil_iff]
    intro other inside isEither
    rcases of_decide_eq_true isEither with rfl | rfl
    · exact firstOut inside
    · exact secondOut inside
  simp only [List.append_assoc, List.cons_append, List.nodup_append, List.nodup_cons,
    List.mem_append, List.mem_cons, List.not_mem_nil, or_false] at nodup
  obtain ⟨_, ⟨secondOut, _, _, apart⟩, away⟩ := nodup
  rw [List.append_assoc, List.cons_append, List.filter_append, List.filter_cons_of_pos,
    List.filter_append, none front, none back, List.filter_cons_of_pos]
  · rfl
  · simp [either]
  · exact fun inside => apart first inside first rfl rfl
  · exact fun inside => secondOut (Or.inl inside)
  · exact fun inside => away first inside first (Or.inr (Or.inr rfl)) rfl
  · exact fun inside => away second inside second (Or.inl rfl) rfl
  · simp [either]

/--
As long as the first of two members is not served again, the other one either comes
before it and has not been served, or has been served once and comes behind it.
-/
theorem order_between
    {rest : List Member}
    (seated : Seated anchor start)
    (run : Run (Step anchor) start turns final)
    (served_at_start : start.queue = rest ++ [first])
    (different : second ≠ first)
    (there : second ∈ start.queue)
    (unserved : first ∉ served turns)
    (firstStays : first ∈ final.queue)
    (secondStays : second ∈ final.queue) :
    (final.queue.filter (either first second) = [second, first] ∧
        (served turns).count second = 0) ∨
      (final.queue.filter (either first second) = [first, second] ∧
        (served turns).count second = 1) := by
  induction run with
  | stop =>
      rw [served_at_start] at there
      have nodup := seated.nodup
      rw [served_at_start] at nodup ⊢
      exact Or.inl ⟨filter_either nodup different there, rfl⟩
  | @extend turns before after turn earlier last inductionHypothesis =>
      have firstKnown : first ∈ anchor :: before.joined :=
        earlier.invariant (seated.known first (by simp [served_at_start]))
          fun known step => step.joined_mem known
      have secondKnown : second ∈ anchor :: before.joined :=
        earlier.invariant (seated.known second there) fun known step => step.joined_mem known
      have firstBefore := last.mem_before firstKnown firstStays
      have secondBefore := last.mem_before secondKnown secondStays
      rw [served_concat, List.mem_append, not_or] at unserved
      obtain ⟨front, shape, shapeAfter⟩ :=
        last.rotates (seated.run earlier) (either first second) (by
          intro member isEither
          rcases of_decide_eq_true isEither with rfl | rfl
          · exact ⟨firstBefore, firstStays⟩
          · exact ⟨secondBefore, secondStays⟩)
      rw [served_concat, List.count_append]
      cases isServed : turn.served with
      | none =>
          simp only [isServed, Option.toList_none, List.filter_nil, List.nil_append,
            List.append_nil, List.count_nil, Nat.add_zero] at shape shapeAfter ⊢
          rw [shapeAfter, ← shape]
          exact inductionHypothesis unserved.1 firstBefore secondBefore
      | some member =>
          have notFirst : member ≠ first := by
            rintro rfl
            simp [isServed] at unserved
          by_cases isSecond : member = second
          · subst isSecond
            -- The other one is served: it was in front, and now it is behind.
            have chosen : either first member member = true := by simp [either]
            simp only [isServed, Option.toList_some, List.filter_cons_of_pos chosen,
              List.filter_nil] at shape shapeAfter
            rcases inductionHypothesis unserved.1 firstBefore secondBefore with
              ⟨order, count⟩ | ⟨order, _⟩
            · rw [shape] at order
              obtain rfl : front = [first] := by simpa using order
              refine Or.inr ⟨shapeAfter, ?_⟩
              simp [count]
            · rw [shape] at order
              simp [notFirst] at order
          · have noMember : [member].filter (either first second) = [] := by
              simp [either, notFirst, isSecond]
            simp only [isServed, Option.toList_some, noMember, List.nil_append,
              List.append_nil] at shape shapeAfter ⊢
            rw [shapeAfter, ← shape, List.count_singleton]
            simpa [isSecond] using inductionHypothesis unserved.1 firstBefore secondBefore

/-- Between two turns of a member every other one that stays has exactly one. -/
theorem served_once
    {rest behind : List Member}
    (seated : Seated anchor start)
    (run : Run (Step anchor) start turns final)
    (servedBefore : start.queue = rest ++ [first])
    (servedAgain : final.queue = first :: behind)
    (unserved : first ∉ served turns)
    (different : second ≠ first)
    (there : second ∈ start.queue)
    (stays : second ∈ final.queue) :
    (served turns).count second = 1 := by
  have order := order_between seated run servedBefore different there unserved
    (by simp [servedAgain]) stays
  rw [servedAgain, List.filter_cons_of_pos (by simp [either])] at order
  rcases order with ⟨order, _⟩ | ⟨_, count⟩
  · exact absurd (List.cons.inj order).1.symm different
  · exact count

end Between

/-! ## First turns -/

section FirstTurns

variable [DecidableEq Member] {anchor : Member} {before after final : Table Member}
  {turn : Turn Member} {turns : List (Turn Member)} {old new : List Member}

omit [DecidableEq Member] in
/-- Only the last in the queue can leave. -/
theorem Step.mem_after
    {member : Member}
    (step : Step anchor before turn after)
    (seat : member ∈ before.queue)
    (notLast : ∀ front, before.queue ≠ front ++ [member]) :
    member ∈ after.queue := by
  cases step with
  | idle =>
      exact seat
  | join =>
      simp only [List.mem_append, List.mem_cons] at seat ⊢
      tauto
  | pass =>
      simpa [or_comm] using seat
  | @leave rest others next current notAnchor =>
      have different : member ≠ current := by
        rintro rfl
        exact notLast (next :: rest) rfl
      simpa [different, or_comm] using seat

/-- The fixed member, or one that has had no turn yet. -/
def awaited (anchor : Member) (new : List Member) : Member → Bool :=
  fun member => member = anchor ∨ member ∈ new

/--
Those who have had a turn joined before those who have not, and the latter wait in the
order in which they joined, all of them before the fixed member.
-/
structure InOrder
    (anchor : Member)
    (turns : List (Turn Member))
    (table : Table Member)
    (old new : List Member) : Prop where
  joined : table.joined = old ++ new
  hadTurn : ∀ member ∈ old, member ∈ served turns
  hadNone : ∀ member ∈ new, member ∉ served turns
  known : ∀ member ∈ served turns, member ∈ anchor :: table.joined
  queue : table.queue.filter (awaited anchor new) = new ++ [anchor]
  current : ∀ front last, table.queue = front ++ [last] → last ∉ new

/-- Nobody waits when the fixed member is alone. -/
theorem inOrder_alone :
    InOrder anchor [] { queue := [anchor], joined := [] } [] [] where
  joined := rfl
  hadTurn := by simp
  hadNone := by simp
  known := by simp [served]
  queue := by simp [awaited]
  current := by simp

/-- Who is awaited has a place in the queue. -/
theorem InOrder.mem_queue
    {member : Member}
    (inOrder : InOrder anchor turns before old new)
    (isAwaited : awaited anchor new member = true) :
    member ∈ before.queue := by
  have inside : member ∈ before.queue.filter (awaited anchor new) := by
    rw [inOrder.queue]
    simpa [awaited, or_comm] using isAwaited
  exact (List.mem_filter.mp inside).1

/-- A newcomer waits behind the others who wait. -/
theorem InOrder.join
    {front back joined : List Member}
    {member : Member}
    (seated : Seated anchor { queue := front ++ anchor :: back, joined := joined })
    (inOrder : InOrder anchor turns { queue := front ++ anchor :: back, joined := joined } old new)
    (fresh : member ∉ anchor :: joined) :
    InOrder anchor (turns ++ [.join member])
      { queue := front ++ member :: anchor :: back, joined := joined ++ [member] }
      old (new ++ [member]) := by
  have noMore : served (turns ++ [.join member]) = served turns := by
    simp [served, Turn.served]
  have absent : member ∉ front ++ anchor :: back := fun seat => fresh (seated.known member seat)
  -- The fixed member stands behind all who wait, so nobody behind it waits.
  have shape := inOrder.queue
  rw [List.filter_append, List.filter_cons_of_pos (by simp [awaited])] at shape
  obtain ⟨before, behind⟩ :
      front.filter (awaited anchor new) = new ∧ back.filter (awaited anchor new) = [] := by
    rcases List.eq_nil_or_concat' (back.filter (awaited anchor new)) with none | ⟨some, last, more⟩
    · rw [none] at shape
      exact ⟨(List.append_inj' shape rfl).1, none⟩
    · rw [more, ← List.cons_append, ← List.append_assoc] at shape
      obtain rfl : last = anchor := by simpa using (List.append_inj' shape rfl).2
      have inBack : last ∈ back.filter (awaited last new) := by
        rw [more]
        simp
      have distinct := seated.nodup
      simp only [List.nodup_append, List.nodup_cons] at distinct
      exact absurd (List.mem_filter.mp inBack).1 distinct.2.1.1
  have unchanged (part : List Member) (without : member ∉ part) :
      part.filter (awaited anchor (new ++ [member])) = part.filter (awaited anchor new) := by
    refine List.filter_congr fun other inside => ?_
    have different : other ≠ member := by
      rintro rfl
      exact without inside
    simp [awaited, different]
  have joinedEq : joined = old ++ new := inOrder.joined
  refine
    { joined := by rw [joinedEq, List.append_assoc]
      hadTurn := ?_
      hadNone := ?_
      known := ?_
      queue := ?_
      current := ?_ }
  · rw [noMore]
    exact inOrder.hadTurn
  · rw [noMore]
    intro other waits
    rcases List.mem_append.mp waits with inNew | isMember
    · exact inOrder.hadNone other inNew
    · obtain rfl := List.mem_singleton.mp isMember
      exact fun hadTurn => fresh (inOrder.known _ hadTurn)
  · rw [noMore]
    intro other hadTurn
    rw [← List.cons_append]
    exact List.mem_append_left _ (inOrder.known other hadTurn)
  · simp only [List.mem_append, List.mem_cons, not_or] at absent
    rw [List.filter_append, unchanged front absent.1, before,
      List.filter_cons_of_pos (by simp [awaited]), List.filter_cons_of_pos (by simp [awaited]),
      unchanged back absent.2.2, behind, List.append_assoc]
    rfl
  · intro start last ending waits
    have same : last = (anchor :: back).getLast (by simp) := by
      have ends := congrArg List.getLast? ending
      simpa [List.getLast?_cons_cons, List.getLast?_eq_some_getLast] using ends.symm
    rcases List.mem_append.mp waits with inNew | isMember
    · refine inOrder.current (front ++ (anchor :: back).dropLast) last ?_ inNew
      rw [same, List.append_assoc, List.dropLast_append_getLast]
    · obtain rfl := List.mem_singleton.mp isMember
      refine absent (List.mem_append_right _ ?_)
      rw [same]
      exact List.getLast_mem _

/-- Those who wait and the fixed member stay, so a turn only rotates them. -/
theorem InOrder.rotates
    (inOrder : InOrder anchor turns before old new)
    (seated : Seated anchor before)
    (step : Step anchor before turn after) :
    ∃ rest,
      new ++ [anchor] = turn.served.toList.filter (awaited anchor new) ++ rest ∧
        after.queue.filter (awaited anchor new) =
          rest ++ turn.served.toList.filter (awaited anchor new) := by
  rw [← inOrder.queue]
  refine step.rotates seated (awaited anchor new) fun other isAwaited => ?_
  refine ⟨inOrder.mem_queue isAwaited, ?_⟩
  rcases of_decide_eq_true isAwaited with rfl | inNew
  · exact (seated.step step).anchor_mem
  · exact step.mem_after (inOrder.mem_queue isAwaited) fun front ending =>
      inOrder.current front other ending inNew

/-- Only members have had turns, also behind one more. -/
theorem InOrder.known_serve
    {member : Member}
    (inOrder : InOrder anchor turns before old new)
    (seated : Seated anchor before)
    (step : Step anchor before turn after)
    (isServed : turn.served = some member) :
    ∀ other ∈ served turns ++ [member], other ∈ anchor :: after.joined := by
  rw [(step.serves isServed).2.2]
  intro other hadTurn
  rcases List.mem_append.mp hadTurn with earlier | now
  · exact inOrder.known other earlier
  · obtain ⟨rest, first⟩ := (step.serves isServed).1
    obtain rfl := List.mem_singleton.mp now
    exact seated.known other (by simp [first])

omit [DecidableEq Member] in
/-- Whose turn it is does not wait if it is not among those who wait. -/
theorem Step.current_not_mem
    {member : Member}
    (step : Step anchor before turn after)
    (isServed : turn.served = some member)
    (notWaiting : member ∉ new) :
    ∀ front last, after.queue = front ++ [last] → last ∉ new := by
  obtain ⟨behind, atEnd⟩ := (step.serves isServed).2.1
  intro front last ending
  rw [atEnd] at ending
  obtain rfl : member = last := by simpa using (List.append_inj' ending rfl).2
  exact notWaiting

/-- If one who waits is served, it is the first of them. -/
theorem InOrder.serve_waiting
    {member : Member}
    (inOrder : InOrder anchor turns before old new)
    (seated : Seated anchor before)
    (step : Step anchor before turn after)
    (isServed : turn.served = some member)
    (waits : member ∈ new) :
    ∃ new', InOrder anchor (turns ++ [turn]) after (old ++ [member]) new' := by
  have isAwaited : awaited anchor new member = true := by simp [awaited, waits]
  obtain ⟨rest, shape, shapeAfter⟩ := inOrder.rotates seated step
  rw [isServed, Option.toList_some, List.filter_cons_of_pos isAwaited, List.filter_nil]
    at shape shapeAfter
  obtain ⟨new', rfl⟩ : ∃ new', new = member :: new' := by
    cases new with
    | nil => simp at waits
    | cons first others =>
        obtain rfl : first = member := (List.cons.inj shape).1
        exact ⟨others, rfl⟩
  obtain rfl : new' ++ [anchor] = rest := (List.cons.inj shape).2
  have distinct := seated.joined
  rw [inOrder.joined] at distinct
  simp only [List.nodup_cons, List.mem_append, List.mem_cons, not_or, List.nodup_append]
    at distinct
  obtain ⟨⟨_, notAnchor, _⟩, _, ⟨notAgain, _⟩, _⟩ := distinct
  have log : served (turns ++ [turn]) = served turns ++ [member] := by
    rw [served_concat, isServed, Option.toList_some]
  refine ⟨new', ?_⟩
  refine
    { joined := by rw [(step.serves isServed).2.2, inOrder.joined, List.append_assoc]; rfl
      hadTurn := ?_
      hadNone := ?_
      known := log ▸ inOrder.known_serve seated step isServed
      queue := ?_
      current := step.current_not_mem isServed notAgain }
  · rw [log]
    intro other isOld
    rw [List.mem_append] at isOld ⊢
    exact isOld.imp_left (inOrder.hadTurn other)
  · rw [log]
    intro other isNew hadTurn
    rcases List.mem_append.mp hadTurn with earlier | now
    · exact inOrder.hadNone other (List.mem_cons_of_mem _ isNew) earlier
    · exact notAgain (List.mem_singleton.mp now ▸ isNew)
  · have narrower :
        after.queue.filter (awaited anchor new') =
          (after.queue.filter (awaited anchor (member :: new'))).filter (awaited anchor new') := by
      rw [List.filter_filter]
      refine List.filter_congr fun other _ => ?_
      by_cases isAnchor : other = anchor
      · simp [awaited, isAnchor]
      · simp only [awaited, isAnchor, false_or, List.mem_cons]
        by_cases isNew : other ∈ new' <;> simp [isNew]
    have notAwaited : ¬ awaited anchor new' member = true := by
      simp [awaited, notAgain, Ne.symm notAnchor]
    rw [narrower, shapeAfter, List.filter_append, List.filter_cons_of_neg notAwaited,
      List.filter_nil, List.append_nil, List.filter_eq_self]
    intro other inside
    simpa [awaited, or_comm] using inside

/-- If another member is served, the same ones wait. -/
theorem InOrder.serve_other
    {member : Member}
    (inOrder : InOrder anchor turns before old new)
    (seated : Seated anchor before)
    (step : Step anchor before turn after)
    (isServed : turn.served = some member)
    (notWaiting : member ∉ new) :
    InOrder anchor (turns ++ [turn]) after old new := by
  obtain ⟨rest, shape, shapeAfter⟩ := inOrder.rotates seated step
  rw [isServed, Option.toList_some] at shape shapeAfter
  have log : served (turns ++ [turn]) = served turns ++ [member] := by
    rw [served_concat, isServed, Option.toList_some]
  refine
    { joined := by rw [(step.serves isServed).2.2, inOrder.joined]
      hadTurn := ?_
      hadNone := ?_
      known := log ▸ inOrder.known_serve seated step isServed
      queue := ?_
      current := step.current_not_mem isServed notWaiting }
  · rw [log]
    exact fun other isOld => List.mem_append_left _ (inOrder.hadTurn other isOld)
  · rw [log]
    intro other isNew hadTurn
    rcases List.mem_append.mp hadTurn with earlier | now
    · exact inOrder.hadNone other isNew earlier
    · exact notWaiting (List.mem_singleton.mp now ▸ isNew)
  · by_cases isAnchor : member = anchor
    · -- The fixed member is served, so nobody waits.
      subst isAnchor
      rw [List.filter_cons_of_pos (by simp [awaited]), List.filter_nil] at shape shapeAfter
      cases new with
      | nil =>
          obtain rfl : [] = rest := (List.cons.inj shape).2
          exact shapeAfter
      | cons first others =>
          obtain rfl : first = member := (List.cons.inj shape).1
          exact absurd List.mem_cons_self notWaiting
    · have notAwaited : ¬ awaited anchor new member = true := by
        simp [awaited, notWaiting, isAnchor]
      rw [List.filter_cons_of_neg notAwaited, List.filter_nil] at shape shapeAfter
      rw [shapeAfter, List.append_nil, shape, List.nil_append]

/-- Whose turn it becomes is the first of those who wait, or does not wait. -/
theorem InOrder.serve
    {member : Member}
    (inOrder : InOrder anchor turns before old new)
    (seated : Seated anchor before)
    (step : Step anchor before turn after)
    (isServed : turn.served = some member) :
    ∃ old' new', InOrder anchor (turns ++ [turn]) after old' new' := by
  by_cases waits : member ∈ new
  · obtain ⟨new', still⟩ := inOrder.serve_waiting seated step isServed waits
    exact ⟨_, new', still⟩
  · exact ⟨old, new, inOrder.serve_other seated step isServed waits⟩

/-- Every turn keeps the order. -/
theorem InOrder.step
    (inOrder : InOrder anchor turns before old new)
    (seated : Seated anchor before)
    (step : Step anchor before turn after) :
    ∃ old' new', InOrder anchor (turns ++ [turn]) after old' new' := by
  cases step with
  | idle =>
      have noMore : served (turns ++ [.idle]) = served turns := by
        simp [served, Turn.served]
      exact ⟨old, new,
        { joined := inOrder.joined
          hadTurn := noMore ▸ inOrder.hadTurn
          hadNone := noMore ▸ inOrder.hadNone
          known := noMore ▸ inOrder.known
          queue := inOrder.queue
          current := inOrder.current }⟩
  | join fresh => exact ⟨old, _, inOrder.join seated fresh⟩
  | pass => exact inOrder.serve seated .pass rfl
  | leave notAnchor => exact inOrder.serve seated (.leave notAnchor) rfl

/-- So does every run. -/
theorem inOrder_of_run
    (run : Run (Step anchor) { queue := [anchor], joined := [] } turns final) :
    ∃ old new, InOrder anchor turns final old new := by
  have both : Seated anchor final ∧ ∃ old new, InOrder anchor turns final old new := by
    refine @Run.history _ _ _ _ _ _
      (fun turns table => Seated anchor table ∧ ∃ old new, InOrder anchor turns table old new) run
      ⟨seated_alone, [], [], inOrder_alone⟩ ?_
    rintro earlier before turn after ⟨seated, old, new, inOrder⟩ step
    exact ⟨seated.step step, inOrder.step seated step⟩
  exact both.2

/-- Whoever is served comes behind all who joined before, in first turns. -/
theorem first_turns
    {member : Member}
    {front back : List Member}
    (run : Run (Step anchor) { queue := [anchor], joined := [] } turns before)
    (step : Step anchor before turn after)
    (isServed : turn.served = some member)
    (shape : before.joined = front ++ member :: back) :
    ∀ older ∈ front, older ∈ served turns := by
  have seated := seated_alone.run run
  obtain ⟨old, new, inOrder⟩ := inOrder_of_run (run.extend step)
  have log : served (turns ++ [turn]) = served turns ++ [member] := by
    rw [served_concat, isServed, Option.toList_some]
  have distinct := (List.nodup_cons.mp seated.joined).2
  have split := inOrder.joined
  rw [(step.serves isServed).2.2, shape] at split
  have isOld : member ∉ new := fun isNew =>
    inOrder.hadNone member isNew (by simp [log])
  intro older inFront
  have different : older ≠ member := by
    rintro rfl
    rw [shape, List.nodup_append] at distinct
    exact distinct.2.2 older inFront older (by simp) rfl
  have hadTurn : older ∈ old := by
    rcases List.append_eq_append_iff.mp split with ⟨more, rfl, _⟩ | ⟨more, rfl, newEq⟩
    · exact List.mem_append_left _ inFront
    · cases more with
      | nil => simpa using inFront
      | cons first others =>
          exact absurd (by rw [newEq]; simp) isOld
  have inLog := inOrder.hadTurn older hadTurn
  rw [log, List.mem_append, List.mem_singleton] at inLog
  exact inLog.resolve_right different

end FirstTurns

end Sysprog.RoundRobin
