import Sysprog.ProxyConnections

namespace Sysprog.Proxy.Connections

open CircularList Execution

/-!
# When `newconn` fails

Both failures go to `delconn`, which was written for a connection that is linked and
counted.  Behind `pipe2` the connection is neither, so the counter ends up too small.
Behind `epoll_ctl` it is counted but not linked: `list_del` then follows whatever pointers
`malloc` left in `expire_node`.
-/

/-- A failing `newconn` returns null and leaves the list and the counter as they were. -/
def CleansUp
    (forwarder : Forwarder)
    (ids : List Nat)
    (left : Leftover)
    (setup : Setup) : Prop :=
  ∃ after,
    newconn forwarder left setup = some (none, after) ∧
      Ring after.links .head (ids.map .node) ∧
      after.numEvents = forwarder.numEvents

/-- The leftover pointers lead to the new node itself, or to two neighbours in the list. -/
def Harmless (forwarder : Forwarder) (left : Leftover) : Prop :=
  (left.prev = .node forwarder.allocated ∧ left.next = .node forwarder.allocated) ∨
    (forwarder.inMemory left.prev = true ∧
      forwarder.inMemory left.next = true ∧
      Linked forwarder.links left.prev left.next)

instance (forwarder : Forwarder) (left : Leftover) : Decidable (Harmless forwarder left) :=
  inferInstanceAs (Decidable ((_ = _ ∧ _ = _) ∨ (_ = _ ∧ _ = _ ∧ _ = _ ∧ _ = _)))

/-- `pipe2` does not fail, and where `epoll_ctl` does, the leftover pointers are harmless. -/
def Tolerated (before : Forwarder) : Call → Prop
  | .newconn left setup =>
      setup.piped = true ∧ (setup.registered = true ∨ Harmless before left)
  | _ => True

instance (before : Forwarder) : (call : Call) → Decidable (Tolerated before call)
  | .newconn _ _ => inferInstanceAs (Decidable (_ = _ ∧ (_ = _ ∨ Harmless _ _)))
  | .delconn _ => .isTrue trivial
  | .touchConn _ => .isTrue trivial

section Failures

variable {forwarder before after : Forwarder} {ids : List Nat} {left : Leftover} {setup : Setup}

/-- Behind a failing `pipe2` the counter is one too small, if `newconn` returns at all. -/
theorem newconn_unpiped
    {result : Option Nat}
    (piped : setup.piped = false)
    (called : newconn forwarder left setup = some (result, after)) :
    after.numEvents = forwarder.numEvents - 1 := by
  rw [newconn_of_not_piped piped, delconn_eq (Function.update_self _ _ _)] at called
  split at called
  · obtain ⟨_, rfl⟩ := Prod.mk.inj (Option.some.inj called)
    rfl
  · simp at called

/-- Behind a failing `epoll_ctl` the two leftover pointers decide whether `newconn` returns. -/
theorem newconn_unregistered
    (counted : 0 ≤ forwarder.numEvents)
    (piped : setup.piped = true)
    (registered : setup.registered = false) :
    newconn forwarder left setup =
      if (forwarder.constructed left false).inMemory left.next = true ∧
          (forwarder.constructed left false).inMemory left.prev = true then
        some (none, (forwarder.constructed left false).freed forwarder.allocated)
      else
        none := by
  have enough : (forwarder.constructed left false).numEvents - 1 ≥ 0 := by
    rw [constructed_numEvents]
    omega
  rw [newconn_of_piped piped, registered, if_neg (by simp), delconn_eq (by simp),
    constructed_links, malloc_links.1, malloc_links.2]
  by_cases reachable :
      (forwarder.constructed left false).inMemory left.next = true ∧
        (forwarder.constructed left false).inMemory left.prev = true
  · rw [if_pos reachable, if_pos ⟨reachable.1, reachable.2, enough⟩]
    rfl
  · rw [if_neg reachable, if_neg fun all => reachable ⟨all.1, all.2.1⟩]
    rfl

/-- A pointer can be followed if it leads into the list or to the new node. -/
theorem Listed.inMemory_constructed
    {cell : Cell}
    (listed : Listed forwarder ids) :
    (forwarder.constructed left false).inMemory cell = true ↔
      cell ∈ Cell.node forwarder.allocated :: Cell.head :: ids.map Cell.node := by
  rw [List.mem_cons, ← listed.inMemory_iff]
  cases cell with
  | head => simp [Forwarder.inMemory]
  | node id =>
      by_cases same : id = forwarder.allocated
      · simp [Forwarder.inMemory, same]
      · simp [Forwarder.inMemory, same]
  | elsewhere => simp [Forwarder.inMemory]

/-- The leftover pointers are harmless if taking the new node out leaves the list alone. -/
theorem Listed.stray_iff (listed : Listed forwarder ids) :
    Stray (forwarder.malloc left).links .head (ids.map .node) (.node forwarder.allocated) ↔
      Harmless forwarder left := by
  simp only [Stray, Harmless, malloc_links, listed.inMemory_iff]
  refine or_congr_right (and_congr_right fun prev => and_congr_right fun next => ?_)
  have prevOld : left.prev ≠ .node forwarder.allocated := by
    rintro same
    exact listed.fresh (same ▸ prev)
  have nextOld : left.next ≠ .node forwarder.allocated := by
    rintro same
    exact listed.fresh (same ▸ next)
  simp [Linked, Forwarder.malloc, Links.setPrev, Links.setNext, prevOld, nextOld]

/-- When a failing `newconn` undoes what it did. -/
theorem Listed.cleansUp_iff
    (listed : Listed forwarder ids)
    (fails : ¬ (setup.piped = true ∧ setup.registered = true)) :
    CleansUp forwarder ids left setup ↔ setup.piped = true ∧ Harmless forwarder left := by
  cases piped : setup.piped with
  | false =>
      simp only [Bool.false_eq_true, false_and, iff_false]
      rintro ⟨after, called, _, numEvents⟩
      have less := newconn_unpiped piped called
      omega
  | true =>
      have registered : setup.registered = false := by simpa [piped] using fails
      have outside := listed.fresh
      have ring := @Listed.malloc _ _ left listed
      have returned := @newconn_unregistered _ left _ listed.counted piped registered
      obtain ⟨prevLeft, nextLeft⟩ := @malloc_links forwarder left
      simp only [listed.inMemory_constructed, ← prevLeft, ← nextLeft] at returned
      rw [← listed.stray_iff]
      simp only [true_and]
      constructor
      · rintro ⟨after, called, kept, _⟩
        rw [returned] at called
        split at called
        · rename_i reachable
          obtain ⟨_, rfl⟩ := Prod.mk.inj (Option.some.inj called)
          exact (ring.remove_stray_iff outside reachable.2 reachable.1).mp kept
        · simp at called
      · intro stray
        obtain ⟨next, prev⟩ := stray.mem
        rw [if_pos ⟨next, prev⟩] at returned
        exact ⟨_, returned, (ring.remove_stray_iff outside prev next).mpr stray,
          Int.add_sub_cancel _ _⟩

/-! ## Runs -/

/-- A tolerated failure leaves everything as it was, apart from a number that is used up. -/
theorem Watched.unregistered
    (watched : Watched forwarder ids)
    (piped : setup.piped = true)
    (registered : setup.registered = false)
    (harmless : Harmless forwarder left)
    (called : Connections.newconn forwarder left setup = some (none, after)) :
    Watched after ids := by
  obtain ⟨after', called', ring, numEvents⟩ :=
    (watched.toListed.cleansUp_iff (by simp [registered])).mpr ⟨piped, harmless⟩
  obtain ⟨_, rfl⟩ := Prod.mk.inj (Option.some.inj (called.symm.trans called'))
  rw [newconn_unregistered watched.counted piped registered] at called
  split at called
  · obtain ⟨_, rfl⟩ := Prod.mk.inj (Option.some.inj called)
    have new : forwarder.allocated ∉ ids := by simpa using watched.toListed.fresh
    have unwatched : Descriptor.socket forwarder.allocated ∉ forwarder.registered := by
      rw [watched.registered.mem_iff]
      simpa using new
    have closed :
        delbuffer (forwarder.constructed left false) forwarder.allocated =
          forwarder.constructed left false :=
      delbuffer_pipe (by simp) watched.other_notMem
    have still :
        ((forwarder.constructed left false).freed forwarder.allocated).registered =
          forwarder.registered := by
      dsimp only [Forwarder.freed]
      rw [closed, constructed_registered, if_neg (by simp), List.erase_of_not_mem unwatched,
        List.erase_of_not_mem unwatched]
    refine
      { ring := ring
        live := ?_
        older := fun id member => Nat.lt_succ_of_lt (watched.older id member)
        counted := numEvents ▸ watched.counted
        registered := still ▸ watched.registered
        count := by rw [numEvents, still, watched.count]
        pipes := ?_ }
    · intro id
      by_cases same : id = forwarder.allocated
      · simp [Forwarder.freed, same, new]
      · simp [Forwarder.freed, same, watched.live]
    · intro id member
      have old : id ≠ forwarder.allocated := by
        rintro rfl
        exact new member
      simp [Forwarder.freed, old, watched.pipes id member]
  · simp at called

/-- Every tolerated call keeps the counter and what epoll watches together. -/
theorem Watched.step
    {call : Call}
    (watched : Watched before ids)
    (step : Step before call after)
    (tolerated : Tolerated before call) :
    ∃ ids', Watched after ids' := by
  cases call with
  | newconn left setup =>
      obtain ⟨piped, rest⟩ := tolerated
      obtain ⟨⟨result, same⟩, called, rfl⟩ := Option.map_eq_some_iff.mp step
      cases registered : setup.registered with
      | true =>
          obtain ⟨made, built, still, _⟩ := watched.newconn piped registered
          obtain ⟨_, rfl⟩ := Prod.mk.inj (Option.some.inj (built.symm.trans called))
          exact ⟨_, still⟩
      | false =>
          have harmless : Harmless before left := by simpa [registered] using rest
          have null : result = none := by
            rw [newconn_unregistered watched.counted piped registered] at called
            split at called
            · exact (Prod.mk.inj (Option.some.inj called)).1.symm
            · simp at called
          subst null
          exact ⟨ids, watched.unregistered piped registered harmless called⟩
  | delconn id =>
      have isLive : before.live id = true := by
        by_contra dead
        simp [Step, perform, Connections.delconn, dead] at step
      obtain ⟨front, back, rfl⟩ := List.append_of_mem ((watched.live id).mp isLive)
      obtain ⟨freed, still⟩ := watched.delconn
      obtain rfl := Option.some.inj (freed.symm.trans step)
      exact ⟨_, still⟩
  | touchConn id =>
      have isLive : before.live id = true := by
        by_contra dead
        simp [Step, perform, Connections.touchConn, dead] at step
      obtain ⟨front, back, rfl⟩ := List.append_of_mem ((watched.live id).mp isLive)
      obtain ⟨links, touched, still⟩ := watched.touchConn
      obtain rfl := Option.some.inj (touched.symm.trans step)
      exact ⟨_, still⟩

/-- Runs of tolerated calls keep the counter and what epoll watches together. -/
theorem Watched.run
    {calls : List Call}
    (watched : Watched before ids)
    (run : Run Step before calls after)
    (tolerated : StepsSatisfy Step before calls fun state call _ => Tolerated state call) :
    ∃ ids', Watched after ids' :=
  @StepsSatisfy.invariant _ _ _ _ _ _ (fun forwarder => ∃ ids, Watched forwarder ids) _
    tolerated run ⟨ids, watched⟩ fun ⟨_, watched⟩ step allowed => watched.step step allowed

/--
A failing `newconn` undoes what it did only if `pipe2` did not fail and the leftover
pointers are harmless.  Where the counter is the number of descriptors that epoll watches,
as it is at first, it stays so in every run of such calls.
-/
theorem failures_undone_iff
    (listed : Listed forwarder ids) :
    (∀ left setup,
        ¬ (setup.piped = true ∧ setup.registered = true) →
        (CleansUp forwarder ids left setup ↔ setup.piped = true ∧ Harmless forwarder left)) ∧
      (Watched forwarder ids →
        ∀ calls final,
          Run Step forwarder calls final →
          StepsSatisfy Step forwarder calls (fun before call _ => Tolerated before call) →
          final.registered.Nodup ∧ final.numEvents = final.registered.length) := by
  constructor
  · intro left setup fails
    exact listed.cleansUp_iff fails
  · intro watched calls final run tolerated
    obtain ⟨_, still⟩ := watched.run run tolerated
    exact ⟨still.nodup, still.count⟩

end Failures

/-- Memory of a connection that was the only one in the list. -/
private def lone : Leftover :=
  { prev := .head, next := .head, pipe := (.other, .other) }

/-- Answers for a client that is accepted. -/
private def answers (piped registered : Bool) : Setup :=
  { accepted := true, connected := true, piped := piped, registered := registered }

/--
A client comes and goes, and `pipe2` fails for the next one, which gets the same memory:
the counter is 0 although epoll watches the listening socket.  In memory full of zeroes
both failures follow a null pointer.
-/
theorem failed_pipe_loses_count :
    (∃ before after,
        Run Step .initial [.newconn lone (answers true true), .delconn 0] before ∧
          newconn before lone (answers false true) = some (none, after) ∧
          before.numEvents = 1 ∧
          after.numEvents = 0 ∧
          after.registered = [.listening]) ∧
      ∀ setup ∈ [answers false true, answers true false],
        newconn .initial { prev := .elsewhere, next := .elsewhere, pipe := (.other, .other) }
          setup = none := by
  have run : Run Step .initial ([] ++ [.newconn lone (answers true true)] ++ [.delconn 0]) _ :=
    .extend (.extend .stop rfl) rfl
  refine ⟨⟨_, _, run, rfl, rfl, rfl, rfl⟩, ?_⟩
  intro setup member
  simp only [List.mem_cons, List.not_mem_nil, or_false] at member
  rcases member with rfl | rfl
  · rfl
  · rfl

/-- Registering the first client fails in memory used before, and the second one is counted. -/
theorem failures_undone_second_client :
    CleansUp .initial [] lone (answers true false) ∧
      ∃ final,
        Run Step .initial
          [.newconn lone (answers true false), .newconn lone (answers true true)] final ∧
          final.numEvents = final.registered.length ∧
          final.numEvents = 2 := by
  obtain ⟨undone, counted⟩ := failures_undone_iff watched_initial.toListed
  have run :
      Run Step .initial
        ([] ++ [.newconn lone (answers true false)] ++ [.newconn lone (answers true true)]) _ :=
    .extend (.extend .stop rfl) rfl
  refine ⟨(undone _ _ (by decide)).mpr (by decide), _, run, ?_, rfl⟩
  refine (counted watched_initial _ _ run ?_).2
  exact @StepsSatisfy.of_check _ _ _ _ _ _ perform
    (fun before call => decide (Tolerated before call)) (fun step => step)
    (fun checked => of_decide_eq_true checked) rfl

end Sysprog.Proxy.Connections
