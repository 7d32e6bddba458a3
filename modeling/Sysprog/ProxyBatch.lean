import Sysprog.ProxyExpiry
import Sysprog.ProxyInvariant

namespace Sysprog.Proxy

open Execution

/-!
# Events of one batch

The events of a batch carry pointers to connections that were there when `epoll_wait`
returned.  Handling an event may close its connection and others, and what it closes
follows from the entry, the answers of the system calls and the state before it.
-/

/-! ## What an event closes -/

/--
The peer `main` goes on with, and its connection: the one there is, or, behind `EPOLLIN`,
the one `openconn` is going to make.
-/
def partner (memory : Nat → Conn) (state : State) (id : Nat) (opens : Bool) :
    Option (Nat × Conn) :=
  match state.peer id with
  | some (some other) => (state.conns other).map fun conn => (other, conn)
  | some none =>
      if opens then
        some (state.allocated,
          { memory state.allocated with
            other := some id
            buf := freshBuffer memory state.allocated })
      else
        none
  | none => none

/-- Input that ends or fails, or output that fails, behind `EPOLLIN`. -/
def endsPair (state : State) (id : Nat) (ready : Ready) : Bool :=
  match state.bufOf id with
  | some buf =>
      ready.epollin &&
        (endsInput ready.inputs ||
          failsOutput (buf.bytes + amountIn ready.inputs) ready.outputs)
  | none => false

/--
The connections an event for a connection closes.  With `EPOLLERR` or `EPOLLHUP`, and when
the transfer behind `EPOLLIN` ends, it is the pair.  Otherwise, behind `EPOLLOUT`, it is
the one end if writing to it fails, and the other end with its peer if there is pending
input that ends.
-/
def ClosedBy (memory : Nat → Conn) (state : State) (id : Nat) (ready : Ready) (gone : Nat) :
    Prop :=
  if ready.errOrHup || endsPair state id ready then
    gone = id ∨ state.peer id = some (some gone)
  else
    ready.epollout = true ∧
      ∃ other conn,
        partner memory state id ready.epollin = some (other, conn) ∧
          ((failsOutput conn.buf.bytes ready.backOutputs = true ∧ gone = id) ∨
            (0 < ready.pending ∧ endsInput ready.backInputs = true ∧
              (gone = other ∨ conn.other = some gone)))

/-- Exactly these connections are removed, and nothing is added. -/
structure Removes (before after : State) (gone : Nat → Prop) : Prop where
  removed : ∀ x, gone x → after.peer x = none
  kept : ∀ x, ¬ gone x → after.peer x = before.peer x
  allocated : after.allocated = before.allocated

section Removals

variable
  {memory : Nat → Conn}
  {before middle after : State}
  {id other : Nat}
  {now : Int}
  {ready : Ready}
  {gone gone' : Nat → Prop}

/-- Nothing is removed by what keeps the peers. -/
theorem SamePeers.removes (same : SamePeers before after) :
    Removes before after fun _ => False where
  removed := nofun
  kept := fun x _ => congrFun same.peer x
  allocated := same.allocated

/-- Two removals one after the other. -/
theorem Removes.trans
    (first : Removes before middle gone)
    (second : Removes middle after gone') :
    Removes before after fun x => gone x ∨ gone' x where
  removed := by
    intro x either
    by_cases later : gone' x
    · exact second.removed x later
    · rw [second.kept x later]
      exact first.removed x (either.resolve_right later)
  kept := by
    intro x neither
    rw [not_or] at neither
    rw [second.kept x neither.2, first.kept x neither.1]
  allocated := second.allocated.trans first.allocated

/-- The same removal, said in another way. -/
theorem Removes.congr
    (removes : Removes before after gone)
    (same : ∀ x, gone x ↔ gone' x) :
    Removes before after gone' where
  removed := fun x isGone => removes.removed x ((same x).mpr isGone)
  kept := fun x stays => removes.kept x fun isGone => stays ((same x).mp isGone)
  allocated := removes.allocated

/-- `delconn` removes one connection. -/
theorem delconn_removes (called : delconn before id = some after) :
    Removes before after fun x => x = id := by
  obtain ⟨_, peers, allocated⟩ := delconn_spec called
  refine ⟨?_, ?_, allocated⟩
  · rintro x rfl
    simp [peers]
  · intro x apart
    simp [peers, apart]

/-- `closeconn` removes a connection and its peer. -/
theorem closeconn_removes (called : closeconn before id = some after) :
    Removes before after fun x => x = id ∨ before.peer id = some (some x) := by
  obtain ⟨other, own, _, peers, allocated⟩ := closeconn_spec called
  refine ⟨?_, ?_, allocated⟩
  · rintro x isGone
    rw [own] at isGone
    cases other with
    | none =>
        obtain rfl : x = id := by simpa using isGone
        simp [peers, closePeers]
    | some peer =>
        by_cases atId : x = id
        · simp [peers, closePeers, atId]
        · obtain rfl : peer = x := by simpa [atId] using isGone
          simp [peers, closePeers, atId]
  · intro x stays
    rw [own, not_or] at stays
    cases other with
    | none => simp [peers, closePeers, stays.1]
    | some peer =>
        have apart : x ≠ peer := by
          rintro rfl
          exact stays.2 rfl
        simp [peers, closePeers, stays.1, apart]

/-- What the part of `main` behind `EPOLLOUT` removes. -/
theorem handleOutput_removes
    {conn : Conn}
    (live : before.conns other = some conn)
    (apart : other ≠ id)
    (called : handleOutput before now id other ready = some after) :
    Removes before after fun x =>
      (failsOutput conn.buf.bytes ready.backOutputs = true ∧ x = id) ∨
        (0 < ready.pending ∧ endsInput ready.backInputs = true ∧
          (x = other ∨ conn.other = some x)) := by
  obtain ⟨output, drained, middle, draining, wrote, refilled⟩ := handleOutput_cases called
  have drainSame := drain_same draining
  obtain ⟨former, transfer, present, _, moved, rfl, _⟩ := drain_spec draining
  obtain rfl := Option.some.inj (live.symm.trans present)
  have wroteRemoves :
      Removes before middle fun x =>
        failsOutput conn.buf.bytes ready.backOutputs = true ∧ x = id := by
    have result := (moveDataOut_spec moved).1
    rcases wrote with ⟨good, touch⟩ | ⟨bad, deleted⟩
    · rw [good] at result
      refine (drainSame.removes.trans (touchConn_spec touch).removes).congr ?_
      simp_all
    · rw [bad] at result
      refine (drainSame.removes.trans (delconn_removes deleted)).congr ?_
      simp_all
  have ownPeer : middle.peer other = some conn.other := by
    rw [wroteRemoves.kept other (by simp [apart])]
    simp [State.peer, live]
  obtain ⟨_, ⟨nothing, rfl⟩ | ⟨input, filled, pending, filling, ended⟩⟩ :=
    refill_cases refilled
  · exact wroteRemoves.congr (by simp [nothing])
  · have fillSame := fill_same filling
    obtain ⟨_, inward, _, moved', rfl, _⟩ := fill_spec filling
    have result := (moveDataIn_spec moved').1
    rcases ended with ⟨good, rfl⟩ | ⟨bad, close⟩
    · rw [good] at result
      refine (wroteRemoves.trans fillSame.removes).congr ?_
      simp_all
    · rw [bad] at result
      have closes := closeconn_removes close
      rw [fillSame.peer, ownPeer] at closes
      refine ((wroteRemoves.trans fillSame.removes).trans closes).congr ?_
      simp_all

/-- The pair an event goes on with behind `EPOLLIN`. -/
structure PairedWith
    (memory : Nat → Conn)
    (before middle : State)
    (id other : Nat)
    (conn : Conn) : Prop where
  partner : partner memory before id true = some (other, conn)
  apart : other ≠ id
  own : middle.peer id = some (some other)
  ownBuffer : middle.bufOf id = before.bufOf id
  others : middle.peer other = some conn.other
  othersBuffer : middle.bufOf other = some conn.buf
  origin :
    (before.peer id = some (some other) ∧ SamePeers before middle) ∨
      (before.peer id = some none ∧ other = before.allocated ∧
        middle.peer = openPeers before.peer id other ∧
        middle.allocated = before.allocated + 1)

/-- The connection has a peer, or `openconn` makes one. -/
theorem pairedWith_of_pairing
    {conn : Conn}
    {touched : State}
    {setup : Setup}
    (older : id ≠ before.allocated)
    (notSelf : before.peer id ≠ some (some id))
    (live : before.conns id = some conn)
    (touch : touchConn before id now = some touched)
    (pairing :
      (∃ peer, conn.other = some peer ∧ some other = some peer ∧ middle = touched) ∨
        (conn.other = none ∧
          openconn memory touched setup id now = some (some other, middle)))
    (otherLive : (middle.peer other).isSome = true) :
    ∃ conn', PairedWith memory before middle id other conn' := by
  have touchSame := touchConn_spec touch
  have touchBuffers := (touchConn_buffers touch).1
  have own : before.peer id = some conn.other := by
    simp [State.peer, live]
  rcases pairing with ⟨peer, shape, same, rfl⟩ | ⟨single, opened⟩
  · obtain rfl := Option.some.inj same
    rw [shape] at own
    rw [touchSame.peer] at otherLive
    obtain ⟨otherConn, present⟩ : ∃ otherConn, before.conns other = some otherConn := by
      simpa [State.peer, Option.isSome_iff_exists] using otherLive
    refine ⟨otherConn, ?_⟩
    exact
      { partner := by simp [Proxy.partner, own, present]
        apart := by
          rintro rfl
          exact notSelf own
        own := by rw [touchSame.peer, own]
        ownBuffer := by rw [touchBuffers]
        others := by
          rw [touchSame.peer]
          simp [State.peer, present]
        othersBuffer := by
          rw [touchBuffers]
          simp [State.bufOf, present]
        origin := Or.inl ⟨own, touchSame⟩ }
  · rw [single] at own
    obtain ⟨⟨absent, _⟩ | ⟨_, buffers⟩, _⟩ := openconn_buffers opened
    · simp at absent
    rcases openconn_spec (by rwa [touchSame.allocated]) opened with
      ⟨absent, _⟩ | ⟨new, peers, allocated⟩
    · simp at absent
    · rw [touchSame.allocated] at new buffers peers allocated
      rw [touchSame.peer] at peers
      rw [touchBuffers] at buffers
      obtain rfl := Option.some.inj new
      refine
        ⟨{ memory before.allocated with
            other := some id
            buf := freshBuffer memory before.allocated }, ?_⟩
      exact
        { partner := by simp [Proxy.partner, own]
          apart := older.symm
          own := by simp [peers, openPeers]
          ownBuffer := by simp [buffers, older]
          others := by simp [peers, openPeers, older.symm]
          othersBuffer := by simp [buffers]
          origin := Or.inr ⟨own, rfl, peers, allocated⟩ }

/--
Behind `EPOLLIN` a connection is paired, its bytes are moved on, and the pair is closed if
one of the transfers ends.
-/
theorem handleInput_transfer
    {result : Option Nat}
    (older : id ≠ before.allocated)
    (notSelf : before.peer id ≠ some (some id))
    (called : handleInput memory before now id ready = some (result, after)) :
    ∃ middle drained other conn buf inward outward,
      PairedWith memory before middle id other conn ∧
        before.bufOf id = some buf ∧
        moveDataIn buf ready.inputs = some inward ∧
        moveDataOut inward.buf ready.outputs = some outward ∧
        SamePeers middle drained ∧
        drained.bufOf id = some outward.buf ∧
        drained.bufOf other = some conn.buf ∧
        (∀ property, Kept memory property → property before → property drained) ∧
        ((inward.result = true ∧ outward.result = true ∧ result = some other ∧
            touchConn drained other now = some after) ∨
          ((inward.result && outward.result) = false ∧ result = none ∧
            closeconn drained id = some after)) := by
  obtain ⟨conn, touched, made, paired, live, touch, pairing, forwarded⟩ :=
    handleInput_cases called
  obtain ⟨other, input, filled, output, drained, rfl, filling, draining, ended⟩ :=
    forwardInput_cases forwarded
  have keptThere (property : State → Prop) (kept : Kept memory property)
      (holds : property before) : property drained := by
    have holdsTouched := kept.touchConn holds touch
    refine kept.drain (kept.fill ?_ filling) draining
    rcases pairing with ⟨_, _, _, rfl⟩ | ⟨single, opened⟩
    · exact holdsTouched
    · refine kept.openconn holdsTouched ?_ opened
      rw [(touchConn_spec touch).peer]
      simp [State.peer, live, single]
  have fillSame := fill_same filling
  have drainSame := drain_same draining
  obtain ⟨own, inward, ownLive, movedIn, rfl, rfl⟩ := fill_spec filling
  obtain ⟨own', outward, ownLive', otherLive, movedOut, rfl, rfl⟩ := drain_spec draining
  have otherThere : (paired.peer other).isSome = true := by
    rw [← fillSame.peer]
    simpa [State.peer] using otherLive
  obtain ⟨conn', withOther⟩ :=
    pairedWith_of_pairing older notSelf live touch pairing otherThere
  have ownBuf : own.buf = conn.buf := by
    have same := withOther.ownBuffer
    simpa [State.bufOf, ownLive, live] using same
  have ownBuf' : own'.buf = inward.buf := by
    simp only [State.afterIn, State.setConn, Function.update_self, Option.some.injEq] at ownLive'
    rw [← ownLive']
  rw [ownBuf] at movedIn
  rw [ownBuf'] at movedOut
  refine ⟨paired, _, other, conn', conn.buf, inward, outward, withOther, by simp [State.bufOf, live],
    movedIn, movedOut, ⟨drainSame.peer.trans fillSame.peer,
      drainSame.allocated.trans fillSame.allocated⟩, ?_, ?_, keptThere, ended⟩
  · simp [State.bufOf, State.afterOut, State.setConn]
  · rw [← withOther.othersBuffer]
    simp [State.bufOf, State.afterIn, State.afterOut, State.setConn, withOther.apart]

/-- What the part of `main` behind `EPOLLIN` removes. -/
theorem handleInput_removes
    {result : Option Nat}
    (older : id ≠ before.allocated)
    (notSelf : before.peer id ≠ some (some id))
    (called : handleInput memory before now id ready = some (result, after)) :
    ∃ middle other conn buf,
      PairedWith memory before middle id other conn ∧
        before.bufOf id = some buf ∧
        if endsInput ready.inputs ||
            failsOutput (buf.bytes + amountIn ready.inputs) ready.outputs then
          result = none ∧ Removes middle after fun x => x = id ∨ x = other
        else
          result = some other ∧ SamePeers middle after ∧ after.bufOf other = some conn.buf := by
  obtain ⟨middle, drained, other, conn, buf, inward, outward, paired, buffer, movedIn, movedOut,
    movedSame, _, otherBuffer, _, ended⟩ := handleInput_transfer older notSelf called
  obtain ⟨inResult, inAmount, inBuffer⟩ := moveDataIn_spec movedIn
  have ends :
      (inward.result && outward.result) =
        !(endsInput ready.inputs ||
          failsOutput (buf.bytes + amountIn ready.inputs) ready.outputs) := by
    rw [inResult, (moveDataOut_spec movedOut).1, inBuffer, inAmount, Bool.not_or]
  refine ⟨middle, other, conn, buf, paired, buffer, ?_⟩
  rcases ended with ⟨inGood, outGood, rfl, touchOther⟩ | ⟨bad, rfl, close⟩
  · rw [inGood, outGood] at ends
    rw [if_neg (by simpa using ends)]
    have last := touchConn_spec touchOther
    refine ⟨rfl, ⟨last.peer.trans movedSame.peer, last.allocated.trans movedSame.allocated⟩, ?_⟩
    rw [(touchConn_buffers touchOther).1, otherBuffer]
  · rw [bad, eq_comm, Bool.not_eq_false'] at ends
    rw [if_pos ends]
    refine ⟨rfl, (movedSame.removes.trans (closeconn_removes close)).congr ?_⟩
    intro x
    rw [movedSame.peer, paired.own]
    simp only [false_or, Option.some.injEq]
    tauto

/--
What an event does to the connections that were there: these are removed, all others keep
their peer or are given a new connection as their first one.
-/
structure Closes (before after : State) (gone : Nat → Prop) : Prop where
  removed : ∀ x < before.allocated, gone x → after.peer x = none
  kept :
    ∀ x < before.allocated,
      ¬ gone x →
      after.peer x = before.peer x ∨
        (before.peer x = some none ∧ after.peer x = some (some before.allocated))
  allocated : before.allocated ≤ after.allocated
  fresh :
    (∀ x, before.allocated ≤ x → before.peer x = none) →
      ∀ x, after.allocated ≤ x → after.peer x = none

/-- A removal without anything new. -/
theorem Removes.closes (removes : Removes before after gone) : Closes before after gone where
  removed := fun x _ isGone => removes.removed x isGone
  kept := fun x _ stays => Or.inl (removes.kept x stays)
  allocated := Nat.le_of_eq removes.allocated.symm
  fresh := by
    intro unused x new
    by_cases isGone : gone x
    · exact removes.removed x isGone
    · rw [removes.kept x isGone]
      exact unused x (by rwa [removes.allocated] at new)

/-- The same closing, said in another way. -/
theorem Closes.congr
    (closes : Closes before after gone)
    (same : ∀ x < before.allocated, gone x ↔ gone' x) :
    Closes before after gone' where
  removed := fun x older isGone => closes.removed x older ((same x older).mpr isGone)
  kept := fun x older stays => closes.kept x older fun isGone => stays ((same x older).mp isGone)
  allocated := closes.allocated
  fresh := closes.fresh

/-- A removal after the connection was paired. -/
theorem PairedWith.closes
    {conn : Conn}
    (paired : PairedWith memory before middle id other conn)
    (removes : Removes middle after gone) :
    Closes before after gone := by
  rcases paired.origin with ⟨_, same⟩ | ⟨single, rfl, peers, allocated⟩
  · refine Removes.closes ?_
    refine (same.removes.trans removes).congr ?_
    simp
  · refine
      { removed := fun x _ isGone => removes.removed x isGone
        kept := ?_
        allocated := ?_
        fresh := ?_ }
    · intro x older stays
      rw [removes.kept x stays, peers]
      by_cases atId : x = id
      · subst atId
        exact Or.inr ⟨single, by simp [openPeers]⟩
      · left
        simp [openPeers, atId, Nat.ne_of_lt older]
    · rw [removes.allocated, allocated]
      omega
    · intro unused x new
      rw [removes.allocated, allocated] at new
      by_cases isGone : gone x
      · exact removes.removed x isGone
      · have notId : x ≠ id := by
          rintro rfl
          simp [unused x (by omega)] at single
        rw [removes.kept x isGone, peers]
        simp [openPeers, notId, show x ≠ before.allocated by omega, unused x (by omega)]

/-- What is closed behind `EPOLLOUT`. -/
theorem closedBy_partner
    {conn : Conn}
    (good : ready.errOrHup = false)
    (ends : endsPair before id ready = false)
    (isPartner : partner memory before id ready.epollin = some (other, conn))
    (x : Nat) :
    ClosedBy memory before id ready x ↔
      ready.epollout = true ∧
        ((failsOutput conn.buf.bytes ready.backOutputs = true ∧ x = id) ∨
          (0 < ready.pending ∧ endsInput ready.backInputs = true ∧
            (x = other ∨ conn.other = some x))) := by
  simp [ClosedBy, good, ends, isPartner]

/-- What is removed behind `EPOLLIN` and `EPOLLOUT`. -/
theorem closes_with_input
    {result : Option Nat}
    (older : id < before.allocated)
    (notSelf : before.peer id ≠ some (some id))
    (good : ready.errOrHup = false)
    (readable : ready.epollin = true)
    (input : handleInput memory before now id ready = some (result, middle))
    (second :
      (∃ peer, result = some peer ∧ ready.epollout = true ∧
          handleOutput middle now id peer ready = some after) ∨
        ((result = none ∨ ready.epollout = false) ∧ after = middle)) :
    Closes before after (ClosedBy memory before id ready) := by
  obtain ⟨paired, other, conn', buf, withOther, sameBuffer, ended⟩ :=
    handleInput_removes (Nat.ne_of_lt older) notSelf input
  have ends : endsPair before id ready =
      (endsInput ready.inputs ||
        failsOutput (buf.bytes + amountIn ready.inputs) ready.outputs) := by
    simp [endsPair, sameBuffer, readable]
  rw [← ends] at ended
  by_cases closesPair : endsPair before id ready = true
  · rw [if_pos closesPair] at ended
    obtain ⟨rfl, removes⟩ := ended
    obtain ⟨_, absent, _⟩ | ⟨_, rfl⟩ := second
    · simp at absent
    refine (withOther.closes removes).congr ?_
    intro x xOlder
    simp only [ClosedBy, closesPair, Bool.or_true, if_true]
    rcases withOther.origin with ⟨isPeer, _⟩ | ⟨single, rfl, _⟩
    · simp [isPeer, eq_comm]
    · simp [single, Nat.ne_of_lt xOlder]
  · rw [if_neg closesPair] at ended
    rw [Bool.not_eq_true] at closesPair
    obtain ⟨rfl, same, buffer'⟩ := ended
    have isPartner := withOther.partner
    rw [← readable] at isPartner
    have closed := closedBy_partner good closesPair isPartner
    obtain ⟨_, ⟨⟩, writable, output⟩ | ⟨stops, rfl⟩ := second
    · obtain ⟨conn'', there, sameBuf⟩ := Option.map_eq_some_iff.mp buffer'
      have sameOther : conn''.other = conn'.other := by
        have peers := withOther.others
        rw [← same.peer] at peers
        simpa [State.peer, there] using peers
      have removes := handleOutput_removes there withOther.apart output
      rw [sameBuf, sameOther] at removes
      refine (withOther.closes (same.removes.trans removes)).congr ?_
      intro x _
      simp [closed, writable]
    · have silent : ready.epollout = false := stops.resolve_left (by simp)
      refine (withOther.closes same.removes).congr ?_
      intro x _
      simp [closed, silent]

/-- What is removed behind `EPOLLOUT` alone. -/
theorem closes_without_input
    {conn : Conn}
    (notSelf : before.peer id ≠ some (some id))
    (good : ready.errOrHup = false)
    (unreadable : ready.epollin = false)
    (live : before.conns id = some conn)
    (second :
      (∃ peer, conn.other = some peer ∧ ready.epollout = true ∧
          handleOutput before now id peer ready = some after) ∨
        ((conn.other = none ∨ ready.epollout = false) ∧ after = before)) :
    Closes before after (ClosedBy memory before id ready) := by
  have buffer : before.bufOf id = some conn.buf := by
    simp [State.bufOf, live]
  have own : before.peer id = some conn.other := by
    simp [State.peer, live]
  have notEnds : endsPair before id ready = false := by
    simp [endsPair, buffer, unreadable]
  obtain ⟨other, shape, writable, output⟩ | ⟨stops, rfl⟩ := second
  · rw [shape] at own
    obtain ⟨_, _, _, draining, _⟩ := handleOutput_cases output
    obtain ⟨conn', _, there, _⟩ := drain_spec draining
    have apart : other ≠ id := by
      rintro rfl
      exact notSelf own
    have isPartner : partner memory before id ready.epollin = some (other, conn') := by
      simp [partner, own, there]
    refine (handleOutput_removes there apart output).closes.congr ?_
    intro x _
    simp [closedBy_partner good notEnds isPartner, writable]
  · have nothing : Removes after after fun _ => False :=
      SamePeers.removes ⟨rfl, rfl⟩
    refine nothing.closes.congr ?_
    intro x _
    rcases stops with single | silent
    · rw [single] at own
      simp [ClosedBy, good, notEnds, partner, own, unreadable]
    · simp [ClosedBy, good, notEnds, silent]

/-- An event for a connection closes the connections it should, and no others. -/
theorem handleConn_closes
    (older : id < before.allocated)
    (notSelf : before.peer id ≠ some (some id))
    (called : handleConn memory now before id ready = some after) :
    Closes before after (ClosedBy memory before id ready) := by
  obtain ⟨conn, live, ⟨bad, close⟩ | ⟨good, result, middle, first, second⟩⟩ :=
    handleConn_cases called
  · refine ((closeconn_removes close).congr ?_).closes
    intro x
    simp [ClosedBy, bad]
  · rcases first with ⟨readable, input⟩ | ⟨unreadable, rfl, rfl⟩
    · exact closes_with_input older notSelf good readable input second
    · exact closes_without_input notSelf good unreadable live second

/-- An event of the listening socket closes nothing. -/
theorem newRequest_closes
    {setup : Setup}
    (called : newRequest memory before setup now = some after) :
    Closes before after fun _ => False := by
  have nothing : Removes before before fun _ => False :=
    SamePeers.removes ⟨rfl, rfl⟩
  simp only [newRequest] at called
  split at called
  · obtain ⟨⟨new, made⟩, created, same⟩ := Option.bind_eq_some_iff.mp called
    obtain rfl := Option.some.inj same
    obtain ⟨rfl, peers, allocated⟩ := newconn_spec created
    refine
      { removed := fun _ _ gone => gone.elim
        kept := ?_
        allocated := ?_
        fresh := ?_ }
    · intro x older _
      simp [peers, Nat.ne_of_lt older]
    · rw [allocated]
      omega
    · intro unused x newer
      rw [allocated] at newer
      simp [peers, show x ≠ before.allocated by omega, unused x (by omega)]
  · obtain rfl := Option.some.inj called
    exact nothing.closes

end Removals

/-! ## A whole batch -/

/-- The connections below `first` are those the events of a batch may be for. -/
structure Started (first : Nat) (state : State) : Prop where
  allocated : first ≤ state.allocated
  fresh : ∀ x, state.allocated ≤ x → state.peer x = none
  notSelf : ∀ x < first, state.peer x ≠ some (some x)

/-- The connections an event closes, if it is for one. -/
def ClosedByEvent (memory : Nat → Conn) (state : State) (ready : Ready) (gone : Nat) : Prop :=
  ∃ id, ready.conn = some id ∧ ClosedBy memory state id ready gone

section Batches

variable
  {memory : Nat → Conn}
  {before after : State}
  {events : List Ready}
  {first x : Nat}
  {now : Int}

/-- What an event of the batch closes. -/
theorem Started.closes
    {ready : Ready}
    (started : Started first before)
    (older : ∀ id, ready.conn = some id → id < first)
    (called : handleEvent memory now before ready = some after) :
    Closes before after (ClosedByEvent memory before ready) := by
  have allocated := started.allocated
  simp only [handleEvent] at called
  split at called
  · rename_i listening
    have none (x : Nat) : False ↔ ClosedByEvent memory before ready x := by
      simp [ClosedByEvent, listening]
    split at called
    · exact (newRequest_closes called).congr fun x _ => none x
    · obtain rfl := Option.some.inj called
      have nothing : Removes before before fun _ => False :=
        SamePeers.removes ⟨rfl, rfl⟩
      exact nothing.closes.congr fun x _ => none x
  · rename_i id isFor
    have idOlder := older id isFor
    refine (handleConn_closes (by omega) (started.notSelf id idOlder) called).congr ?_
    intro x _
    simp [ClosedByEvent, isFor]

/-- An event of the batch leaves everything ready for the next one. -/
theorem Started.next
    {ready : Ready}
    (started : Started first before)
    (older : ∀ id, ready.conn = some id → id < first)
    (called : handleEvent memory now before ready = some after) :
    Started first after := by
  have closes := started.closes older called
  have allocated := started.allocated
  refine ⟨Nat.le_trans allocated closes.allocated, closes.fresh started.fresh, ?_⟩
  intro x xOlder
  by_cases isGone : ClosedByEvent memory before ready x
  · simp [closes.removed x (by omega) isGone]
  · rcases closes.kept x (by omega) isGone with same | ⟨_, new⟩
    · rw [same]
      exact started.notSelf x xOlder
    · rw [new]
      simp only [ne_eq, Option.some.injEq]
      omega

/-- The events of the batch so far leave everything ready for the next one. -/
theorem Started.nextAll
    (started : Started first before)
    (older : ∀ ready ∈ events, ∀ id, ready.conn = some id → id < first)
    (called : events.foldlM (handleEvent memory now) before = some after) :
    Started first after := by
  induction events generalizing before with
  | nil =>
      obtain rfl := Option.some.inj called
      exact started
  | cons ready rest inductionHypothesis =>
      rw [List.foldlM_cons] at called
      obtain ⟨middle, taken, onward⟩ := Option.bind_eq_some_iff.mp called
      exact inductionHypothesis (started.next (older ready List.mem_cons_self) taken)
        (fun other member => older other (List.mem_cons_of_mem _ member)) onward

/-- A connection that was freed is not there again. -/
theorem Started.stays_gone
    (started : Started first before)
    (older : ∀ ready ∈ events, ∀ id, ready.conn = some id → id < first)
    (xOlder : x < first)
    (gone : before.peer x = none)
    (called : events.foldlM (handleEvent memory now) before = some after) :
    after.peer x = none := by
  induction events generalizing before with
  | nil =>
      obtain rfl := Option.some.inj called
      exact gone
  | cons ready rest inductionHypothesis =>
      rw [List.foldlM_cons] at called
      obtain ⟨middle, taken, onward⟩ := Option.bind_eq_some_iff.mp called
      have olderReady := older ready List.mem_cons_self
      have closes := started.closes olderReady taken
      have stillGone : middle.peer x = none := by
        have allocated := started.allocated
        by_cases isGone : ClosedByEvent memory before ready x
        · exact closes.removed x (by omega) isGone
        · rcases closes.kept x (by omega) isGone with same | ⟨single, _⟩
          · rw [same, gone]
          · simp [gone] at single
      exact inductionHypothesis (started.next olderReady taken)
        (fun other member => older other (List.mem_cons_of_mem _ member)) stillGone onward

/-- A connection that is gone was closed by one of the events. -/
theorem Started.closed_of_gone
    (started : Started first before)
    (older : ∀ ready ∈ events, ∀ id, ready.conn = some id → id < first)
    (xOlder : x < first)
    (live : (before.peer x).isSome = true)
    (called : events.foldlM (handleEvent memory now) before = some after)
    (gone : after.peer x = none) :
    ∃ earlier ready later middle,
      events = earlier ++ ready :: later ∧
        earlier.foldlM (handleEvent memory now) before = some middle ∧
        ClosedByEvent memory middle ready x := by
  induction events generalizing before with
  | nil =>
      obtain rfl := Option.some.inj called
      simp [gone] at live
  | cons ready rest inductionHypothesis =>
      rw [List.foldlM_cons] at called
      obtain ⟨middle, taken, onward⟩ := Option.bind_eq_some_iff.mp called
      have olderReady := older ready List.mem_cons_self
      have closes := started.closes olderReady taken
      by_cases isGone : ClosedByEvent memory before ready x
      · exact ⟨[], ready, rest, before, rfl, rfl, isGone⟩
      · have stillLive : (middle.peer x).isSome = true := by
          have allocated := started.allocated
          rcases closes.kept x (by omega) isGone with same | ⟨_, new⟩
          · rwa [same]
          · simp [new]
        obtain ⟨earlier, closing, later, state, rfl, led, closed⟩ :=
          inductionHypothesis (started.next olderReady taken)
            (fun other member => older other (List.mem_cons_of_mem _ member)) stillLive onward
        refine ⟨ready :: earlier, closing, later, state, rfl, ?_, closed⟩
        rw [List.foldlM_cons]
        exact Option.bind_eq_some_iff.mpr ⟨middle, taken, led⟩

end Batches

/--
What `epoll_wait` returns: events of connections that are there.  No connection is its own
peer, and the numbers of new ones are not in use.
-/
structure BatchReady (state : State) (batch : List Ready) : Prop where
  live : ∀ ready ∈ batch, ∀ id, ready.conn = some id → (state.conns id).isSome = true
  numbered : ∀ id, state.allocated ≤ id → state.conns id = none
  notSelf : ∀ id conn, state.conns id = some conn → conn.other ≠ some id

/-- In every run, events for connections that are there make a batch. -/
theorem batchReady_of_run
    {events : List Event}
    {state : State}
    {batch : List Ready}
    (run : Run (Step zeroed) State.initial events state)
    (live : ∀ ready ∈ batch, ∀ id, ready.conn = some id → (state.conns id).isSome = true) :
    BatchReady state batch where
  live := live
  numbered := by
    intro id new
    simpa [State.peer] using (numbered_of_run run).fresh id new
  notSelf := by
    intro id conn present self
    exact (numbered_of_run run).notSelf id (by simp [State.peer, present, self])

/-- No event of the batch reaches a connection that is not there any more. -/
def NoneFreed (memory : Nat → Conn) (now : Int) (state : State) (batch : List Ready) : Prop :=
  ∀ earlier ready later before id,
    batch = earlier ++ ready :: later →
    earlier.foldlM (handleEvent memory now) state = some before →
    ready.conn = some id →
    (before.conns id).isSome = true

/-- No event that is reached is for a connection an earlier one of the batch closes. -/
def ClosedStayAway (memory : Nat → Conn) (now : Int) (state : State) (batch : List Ready) :
    Prop :=
  ∀ earlier first middle second later before reached id gone,
    batch = earlier ++ first :: (middle ++ second :: later) →
    earlier.foldlM (handleEvent memory now) state = some before →
    (first :: middle).foldlM (handleEvent memory now) before = some reached →
    first.conn = some id →
    ClosedBy memory before id first gone →
    second.conn ≠ some gone

/--
No event of a batch is dispatched to a freed connection exactly if none of the later events
is for a connection that an earlier one closes.
-/
theorem none_freed_iff
    {memory : Nat → Conn}
    {now : Int}
    {state : State}
    {batch : List Ready}
    (start : BatchReady state batch) :
    NoneFreed memory now state batch ↔ ClosedStayAway memory now state batch := by
  have older (ready : Ready) (member : ready ∈ batch) (id : Nat) (isFor : ready.conn = some id) :
      id < state.allocated := by
    by_contra new
    have live := start.live ready member id isFor
    simp [start.numbered id (by omega)] at live
  have started : Started state.allocated state :=
    { allocated := Nat.le_refl _
      fresh := fun x new => by simp [State.peer, start.numbered x new]
      notSelf := by
        intro x _ self
        obtain ⟨conn, live, other⟩ := Option.map_eq_some_iff.mp self
        exact start.notSelf x conn live other }
  constructor
  · rintro noneFreed earlier first middle second later before reached id gone rfl led onward isFor
      closed secondFor
    have goneOlder := older second (by simp) gone secondFor
    rw [List.foldlM_cons] at onward
    obtain ⟨behind, taken, rest⟩ := Option.bind_eq_some_iff.mp onward
    have startedThere := started.nextAll
      (fun ready member => older ready (by simp [member])) led
    have closes := startedThere.closes (older first (by simp)) taken
    have startedBehind := startedThere.next (older first (by simp)) taken
    have removed := closes.removed gone
      (Nat.lt_of_lt_of_le goneOlder startedThere.allocated) ⟨id, isFor, closed⟩
    have stillGone := startedBehind.stays_gone
      (fun ready member => older ready (by simp [member])) goneOlder removed rest
    have live := noneFreed (earlier ++ first :: middle) second later reached gone (by simp)
      (by
        rw [List.foldlM_append]
        exact Option.bind_eq_some_iff.mpr ⟨before, led, onward⟩) secondFor
    simp [State.peer] at stillGone
    simp [stillGone] at live
  · rintro stayAway earlier ready later before id rfl led isFor
    by_contra dead
    have gone : before.peer id = none := by
      simpa [State.peer] using dead
    have idOlder := older ready (by simp) id isFor
    have live : (state.peer id).isSome = true := by
      simpa [State.peer] using start.live ready (by simp) id isFor
    obtain ⟨front, closing, middle, there, rfl, ledThere, other, closingFor, closed⟩ :=
      started.closed_of_gone (fun one member => older one (by simp [member])) idOlder live led
        gone
    rw [List.foldlM_append] at led
    obtain ⟨there', ledThere', onward⟩ := Option.bind_eq_some_iff.mp led
    obtain rfl := Option.some.inj (ledThere.symm.trans ledThere')
    exact stayAway front closing middle ready later there before other id (by simp) ledThere
      onward closingFor closed isFor

/-- A connection hangs up. -/
def sampleHangup (id : Nat) : Ready :=
  { sampleReady (some id) with errOrHup := true }

theorem idlePair_ready
    {batch : List Ready}
    (ends : ∀ ready ∈ batch, ∀ id, ready.conn = some id → id = 0 ∨ id = 1) :
    BatchReady idlePair batch where
  live := by
    intro ready member id isFor
    rcases ends ready member id isFor with rfl | rfl <;> rfl
  numbered := by
    intro id new
    have beyond : id ≠ 0 ∧ id ≠ 1 := by
      constructor <;> rintro rfl <;> simp [idlePair] at new
    simp [idlePair, beyond]
  notSelf := by
    intro id conn live
    by_cases first : id = 0
    · subst first
      obtain rfl := Option.some.inj live
      simp
    · by_cases second : id = 1
      · subst second
        obtain rfl := Option.some.inj live
        simp
      · simp [idlePair] at live

theorem none_freed_hangupAndRequest :
    BatchReady idlePair [sampleHangup 0, sampleReady none] ∧
      NoneFreed zeroed 0 idlePair [sampleHangup 0, sampleReady none] := by
  have start : BatchReady idlePair [sampleHangup 0, sampleReady none] :=
    idlePair_ready (by simp [sampleHangup, sampleReady])
  refine ⟨start, (none_freed_iff start).mpr ?_⟩
  intro earlier first middle second later before reached id gone shape _ _ _ _
  have behind : second = sampleReady none := by
    cases earlier with
    | nil =>
        cases middle with
        | nil => simp_all
        | cons _ _ => simp at shape
    | cons _ earlier => cases earlier <;> simp at shape
  simp [behind, sampleReady]

/-- Both ends of a pair hang up, and the second event is for a connection that was freed. -/
theorem hangups_reach_freed :
    BatchReady idlePair [sampleHangup 0, sampleHangup 1] ∧
      ¬ NoneFreed zeroed 0 idlePair [sampleHangup 0, sampleHangup 1] := by
  refine ⟨idlePair_ready (by simp [sampleHangup, sampleReady]), ?_⟩
  intro noneFreed
  have live := noneFreed [sampleHangup 0] (sampleHangup 1) [] _ 1 rfl rfl rfl
  exact absurd live (by decide)

end Sysprog.Proxy
