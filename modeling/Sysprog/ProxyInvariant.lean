import Sysprog.ProxyBuffers

namespace Sysprog.Proxy

open Execution

/-!
# Invariants of the main loop

Everything the main loop does is made of a few elementary operations.  What each of them
keeps, every event keeps.
-/

/-- A property that the elementary operations keep. -/
structure Kept (memory : Nat → Conn) (property : State → Prop) : Prop where
  touchConn :
    ∀ {before after id now},
      property before →
      touchConn before id now = some after →
      property after
  fill :
    ∀ {before after id results result},
      property before →
      fill before id results = some (result, after) →
      property after
  drain :
    ∀ {before after id target results result},
      property before →
      drain before id target results = some (result, after) →
      property after
  delconn :
    ∀ {before after id},
      property before →
      delconn before id = some after →
      property after
  newconn :
    ∀ {before after setup now new},
      property before →
      newconn memory before setup now = some (new, after) →
      property after
  openconn :
    ∀ {before after setup id now result},
      property before →
      before.peer id = some none →
      openconn memory before setup id now = some (result, after) →
      property after

section Invariants

variable
  {memory : Nat → Conn}
  {property : State → Prop}
  {before after : State}
  {id : Nat}
  {now : Int}
  {ready : Ready}

/-- `closeconn` is made of calls of `delconn`. -/
theorem Kept.closeconn
    (kept : Kept memory property)
    (holds : property before)
    (called : closeconn before id = some after) :
    property after := by
  simp only [Proxy.closeconn, Option.bind_eq_bind, Option.bind_eq_some_iff] at called
  obtain ⟨conn, _, deleted⟩ := called
  cases shape : conn.other with
  | none =>
      rw [shape] at deleted
      exact kept.delconn holds deleted
  | some other =>
      rw [shape] at deleted
      obtain ⟨middle, first, second⟩ := Option.bind_eq_some_iff.mp deleted
      exact kept.delconn (kept.delconn holds first) second

/-- The part of `main` behind `EPOLLIN`. -/
theorem Kept.handleInput
    {result : Option Nat}
    (kept : Kept memory property)
    (holds : property before)
    (called : handleInput memory before now id ready = some (result, after)) :
    property after := by
  obtain ⟨conn, touched, other, paired, live, touch, pairing, forwarded⟩ :=
    handleInput_cases called
  obtain ⟨peer, input, filled, output, drained, _, filling, draining, ended⟩ :=
    forwardInput_cases forwarded
  have holdsTouched := kept.touchConn holds touch
  have holdsPaired : property paired := by
    rcases pairing with ⟨_, _, _, rfl⟩ | ⟨single, opened⟩
    · exact holdsTouched
    · refine kept.openconn holdsTouched ?_ opened
      rw [(touchConn_spec touch).peer]
      simp [State.peer, live, single]
  have holdsDrained := kept.drain (kept.fill holdsPaired filling) draining
  rcases ended with ⟨_, _, _, touchOther⟩ | ⟨_, _, close⟩
  · exact kept.touchConn holdsDrained touchOther
  · exact kept.closeconn holdsDrained close

/-- The part of `main` behind `EPOLLOUT`. -/
theorem Kept.handleOutput
    {other : Nat}
    (kept : Kept memory property)
    (holds : property before)
    (called : handleOutput before now id other ready = some after) :
    property after := by
  obtain ⟨output, drained, middle, draining, wrote, refilled⟩ := handleOutput_cases called
  have holdsDrained := kept.drain holds draining
  have holdsMiddle : property middle := by
    rcases wrote with ⟨_, touch⟩ | ⟨_, deleted⟩
    · exact kept.touchConn holdsDrained touch
    · exact kept.delconn holdsDrained deleted
  obtain ⟨_, ⟨_, rfl⟩ | ⟨input, filled, _, filling, ended⟩⟩ := refill_cases refilled
  · exact holdsMiddle
  · have holdsFilled := kept.fill holdsMiddle filling
    rcases ended with ⟨_, rfl⟩ | ⟨_, close⟩
    · exact holdsFilled
    · exact kept.closeconn holdsFilled close

/-- The body of the loop over `events`. -/
theorem Kept.handleEvent
    (kept : Kept memory property)
    (holds : property before)
    (called : handleEvent memory now before ready = some after) :
    property after := by
  simp only [Proxy.handleEvent] at called
  split at called
  · split at called
    · simp only [newRequest] at called
      split at called
      · obtain ⟨⟨new, made⟩, created, same⟩ := Option.bind_eq_some_iff.mp called
        obtain rfl := Option.some.inj same
        exact kept.newconn holds created
      · obtain rfl := Option.some.inj called
        exact holds
    · obtain rfl := Option.some.inj called
      exact holds
  · obtain ⟨conn, live, ⟨_, close⟩ | ⟨_, other, middle, first, second⟩⟩ :=
      handleConn_cases called
    · exact kept.closeconn holds close
    · have holdsMiddle : property middle := by
        rcases first with ⟨_, input⟩ | ⟨_, _, rfl⟩
        · exact kept.handleInput holds input
        · exact holds
      rcases second with ⟨peer, _, _, output⟩ | ⟨_, rfl⟩
      · exact kept.handleOutput holdsMiddle output
      · exact holdsMiddle

/-- The loop of `expire_connections`. -/
theorem Kept.expireLoop
    {rounds : Nat}
    {current tmp : Option Nat}
    {result : Int}
    (kept : Kept memory property)
    (holds : property before)
    (called : expireLoop now rounds current tmp before = some (result, after)) :
    property after := by
  induction rounds generalizing before current tmp with
  | zero => simp [Proxy.expireLoop] at called
  | succ rounds inductionHypothesis =>
      cases current with
      | none =>
          simp only [Proxy.expireLoop, Option.some.injEq, Prod.mk.injEq] at called
          obtain ⟨_, rfl⟩ := called
          exact holds
      | some id =>
          simp only [Proxy.expireLoop, Option.bind_eq_bind, Option.bind_eq_some_iff] at called
          obtain ⟨conn, live, called⟩ := called
          split at called
          · simp only [Option.pure_def, Option.some.injEq, Prod.mk.injEq] at called
            obtain ⟨_, rfl⟩ := called
            exact holds
          · obtain ⟨closed, close, called⟩ := Option.bind_eq_some_iff.mp called
            obtain ⟨following, _, onward⟩ := Option.bind_eq_some_iff.mp called
            exact inductionHypothesis (kept.closeconn holds close) onward

/-- Every step of the main loop. -/
theorem Kept.step
    {event : Event}
    (kept : Kept memory property)
    (holds : property before)
    (step : Step memory before event after) :
    property after := by
  cases event with
  | ready time entry => exact kept.handleEvent holds step
  | expire time =>
      obtain ⟨⟨result, same⟩, expired, rfl⟩ := Option.map_eq_some_iff.mp step
      simp only [expireConnections, Option.bind_eq_bind, Option.bind_eq_some_iff] at expired
      obtain ⟨_, _, _, _, looped⟩ := expired
      exact kept.expireLoop holds looped

/-- Every run of the main loop. -/
theorem Kept.run
    {start final : State}
    {events : List Event}
    (kept : Kept memory property)
    (run : Run (Step memory) start events final)
    (initially : property start) :
    property final :=
  run.invariant initially fun holds step => kept.step holds step

end Invariants

/-! ## Connections that were made -/

/-- Numbers of new connections are not in use, and no connection is its own peer. -/
structure Numbered (state : State) : Prop where
  fresh : ∀ id, state.allocated ≤ id → state.peer id = none
  notSelf : ∀ id, state.peer id ≠ some (some id)

section Numbers

variable {before after : State} {id : Nat}

/-- What keeps the peers keeps the numbers. -/
theorem Numbered.congr
    (numbered : Numbered before)
    (same : SamePeers before after) :
    Numbered after where
  fresh := by
    rw [same.peer, same.allocated]
    exact numbered.fresh
  notSelf := by
    rw [same.peer]
    exact numbered.notSelf

/-- A live connection is older than the next one. -/
theorem Numbered.older
    {other : Option Nat}
    (numbered : Numbered before)
    (live : before.peer id = some other) :
    id < before.allocated := by
  by_contra new
  simp [numbered.fresh id (by omega)] at live

/-- From zeroed memory, everything the main loop does keeps the numbers. -/
theorem numbered_kept : Kept zeroed Numbered where
  touchConn := fun numbered called => numbered.congr (touchConn_spec called)
  fill := fun numbered called => numbered.congr (fill_same called)
  drain := fun numbered called => numbered.congr (drain_same called)
  delconn := by
    intro before after id numbered called
    obtain ⟨_, peers, allocated⟩ := delconn_spec called
    constructor
    · intro cell new
      rw [allocated] at new
      rw [peers, Function.update_apply, numbered.fresh cell new, ite_self]
    · intro cell
      rw [peers, Function.update_apply]
      split
      · simp
      · exact numbered.notSelf cell
  newconn := by
    intro before after setup now new numbered called
    obtain ⟨rfl, peers, allocated⟩ := newconn_spec called
    constructor
    · intro cell new
      rw [allocated] at new
      rw [peers, Function.update_of_ne (by omega), numbered.fresh cell (by omega)]
    · intro cell
      rw [peers, Function.update_apply]
      split
      · simp [zeroed]
      · exact numbered.notSelf cell
  openconn := by
    intro before after setup id now result numbered single called
    have older := numbered.older single
    rcases openconn_spec (Nat.ne_of_lt older) called with ⟨_, rfl⟩ | ⟨_, peers, allocated⟩
    · exact numbered
    · constructor
      · intro cell new
        rw [allocated] at new
        rw [peers, openPeers, Function.update_of_ne (by omega), Function.update_of_ne (by omega),
          numbered.fresh cell (by omega)]
      · intro cell
        rw [peers, openPeers, Function.update_apply, Function.update_apply]
        split
        · simp only [ne_eq, Option.some.injEq]
          omega
        · split
          · simp only [ne_eq, Option.some.injEq]
            omega
          · exact numbered.notSelf cell

end Numbers

/-- In every run the numbers are in order. -/
theorem numbered_of_run
    {events : List Event}
    {final : State}
    (run : Run (Step zeroed) State.initial events final) :
    Numbered final :=
  numbered_kept.run run
    { fresh := by simp [State.peer, State.initial]
      notSelf := by simp [State.peer, State.initial] }

end Sysprog.Proxy
