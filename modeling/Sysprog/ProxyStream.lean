import Sysprog.ProxyBatch

namespace Sysprog.Proxy

open Execution

/-!
# Every byte or none

What was read from a socket is what was written to its peer followed by what is in the
pipe.  When the pair is closed because the input has ended, the bytes in the pipe are lost.
-/

/-! ## The bytes in the pipes -/

/-- The bytes read from a connection are those written to its peer and those in its pipe. -/
structure Flows (state : State) : Prop where
  stored :
    ∀ id buf,
      state.bufOf id = some buf →
      state.received id = state.delivered id ++ buf.content ∧ buf.bytes = buf.content.length
  unused :
    ∀ id,
      state.allocated ≤ id →
      state.bufOf id = none ∧ state.received id = [] ∧ state.delivered id = []

section Flow

variable {before after : State} {id : Nat}

/-- What moves no byte keeps the flow of the buffers that stay. -/
theorem Flows.congr
    (flows : Flows before)
    (buffers : ∀ cell buf, after.bufOf cell = some buf → before.bufOf cell = some buf)
    (streams : SameStreams before after)
    (allocated : after.allocated = before.allocated) :
    Flows after where
  stored := by
    intro cell buf present
    rw [streams.received, streams.delivered]
    exact flows.stored cell buf (buffers cell buf present)
  unused := by
    intro cell new
    rw [allocated] at new
    obtain ⟨absent, received, delivered⟩ := flows.unused cell new
    refine ⟨?_, by rw [streams.received, received], by rw [streams.delivered, delivered]⟩
    rw [← Option.not_isSome_iff_eq_none]
    intro live
    obtain ⟨buf, present⟩ := Option.isSome_iff_exists.mp live
    simp [buffers cell buf present] at absent

/-- A live connection is older than the next one. -/
theorem Flows.older
    {buf : Buffer}
    (flows : Flows before)
    (present : before.bufOf id = some buf) :
    id < before.allocated := by
  by_contra new
  simp [(flows.unused id (by omega)).1] at present

/-- Reading adds the same bytes to what was received and to the pipe. -/
theorem Flows.afterIn
    {conn : Conn}
    {results : List (Splice (List UInt8))}
    {transfer : Transfer}
    (flows : Flows before)
    (live : before.conns id = some conn)
    (moved : moveDataIn conn.buf results = some transfer) :
    Flows (before.afterIn id conn transfer) := by
  have present : before.bufOf id = some conn.buf := by
    simp [State.bufOf, live]
  obtain ⟨stream, size⟩ := flows.stored id conn.buf present
  obtain ⟨_, _, buffer⟩ := moveDataIn_spec moved
  have buffers : (before.afterIn id conn transfer).bufOf =
      Function.update before.bufOf id (some transfer.buf) :=
    bufOf_setConn _
  constructor
  · intro cell buf there
    rw [buffers] at there
    simp only [State.afterIn, State.setConn]
    by_cases atId : cell = id
    · subst atId
      rw [Function.update_self] at there ⊢
      obtain rfl := Option.some.inj there
      rw [buffer, stream, size]
      simp
    · rw [Function.update_of_ne atId] at there ⊢
      exact flows.stored cell buf there
  · intro cell new
    have notId : cell ≠ id := by
      rintro rfl
      exact Nat.not_lt.mpr new (flows.older present)
    rw [buffers]
    simp only [State.afterIn, State.setConn]
    rw [Function.update_of_ne notId, Function.update_of_ne notId]
    exact flows.unused cell new

/-- Writing moves bytes from the pipe to what was delivered. -/
theorem Flows.afterOut
    {conn : Conn}
    {results : List (Splice Nat)}
    {transfer : Transfer}
    (flows : Flows before)
    (live : before.conns id = some conn)
    (moved : moveDataOut conn.buf results = some transfer) :
    Flows (before.afterOut id conn transfer) := by
  have present : before.bufOf id = some conn.buf := by
    simp [State.bufOf, live]
  obtain ⟨stream, size⟩ := flows.stored id conn.buf present
  obtain ⟨_, content, bytes, _⟩ := moveDataOut_spec moved
  have buffers : (before.afterOut id conn transfer).bufOf =
      Function.update before.bufOf id (some transfer.buf) :=
    bufOf_setConn _
  constructor
  · intro cell buf there
    rw [buffers] at there
    simp only [State.afterOut, State.setConn]
    by_cases atId : cell = id
    · subst atId
      rw [Function.update_self] at there ⊢
      obtain rfl := Option.some.inj there
      rw [stream, List.append_assoc, ← content]
      refine ⟨rfl, ?_⟩
      rw [content, List.length_append] at size
      omega
    · rw [Function.update_of_ne atId] at there ⊢
      exact flows.stored cell buf there
  · intro cell new
    have notId : cell ≠ id := by
      rintro rfl
      exact Nat.not_lt.mpr new (flows.older present)
    rw [buffers]
    simp only [State.afterOut, State.setConn]
    rw [Function.update_of_ne notId, Function.update_of_ne notId]
    exact flows.unused cell new

/-- A new connection with an empty buffer. -/
theorem Flows.added
    (flows : Flows before)
    (buffers :
      after.bufOf =
        Function.update before.bufOf before.allocated
          (some (freshBuffer zeroed before.allocated)))
    (streams : SameStreams before after)
    (allocated : after.allocated = before.allocated + 1) :
    Flows after where
  stored := by
    intro cell buf present
    rw [streams.received, streams.delivered]
    rw [buffers] at present
    by_cases atNew : cell = before.allocated
    · subst atNew
      rw [Function.update_self] at present
      obtain rfl := Option.some.inj present
      obtain ⟨_, received, delivered⟩ := flows.unused _ (Nat.le_refl _)
      simp [received, delivered, freshBuffer, zeroed]
    · rw [Function.update_of_ne atNew] at present
      exact flows.stored cell buf present
  unused := by
    intro cell new
    rw [allocated] at new
    rw [buffers, streams.received, streams.delivered, Function.update_of_ne (by omega)]
    exact flows.unused cell (by omega)

/-- Everything the main loop does keeps the flow. -/
theorem flows_kept : Kept zeroed fun state => Flows state ∧ Numbered state where
  touchConn := by
    rintro before after id now ⟨flows, numbered⟩ called
    obtain ⟨buffers, streams⟩ := touchConn_buffers called
    refine ⟨flows.congr ?_ streams (touchConn_spec called).allocated,
      numbered_kept.touchConn numbered called⟩
    rw [buffers]
    exact fun _ _ present => present
  fill := by
    rintro before after id results result ⟨flows, numbered⟩ called
    refine ⟨?_, numbered_kept.fill numbered called⟩
    obtain ⟨conn, transfer, live, moved, _, rfl⟩ := fill_spec called
    exact flows.afterIn live moved
  drain := by
    rintro before after id target results result ⟨flows, numbered⟩ called
    refine ⟨?_, numbered_kept.drain numbered called⟩
    obtain ⟨conn, transfer, live, _, moved, _, rfl⟩ := drain_spec called
    exact flows.afterOut live moved
  delconn := by
    rintro before after id ⟨flows, numbered⟩ called
    obtain ⟨buffers, streams⟩ := delconn_buffers called
    exact ⟨flows.congr buffers streams (delconn_spec called).2.2,
      numbered_kept.delconn numbered called⟩
  newconn := by
    rintro before after setup now new ⟨flows, numbered⟩ called
    obtain ⟨buffers, streams⟩ := newconn_buffers called
    exact ⟨flows.added buffers streams (newconn_spec called).2.2,
      numbered_kept.newconn numbered called⟩
  openconn := by
    rintro before after setup id now result ⟨flows, numbered⟩ single called
    refine ⟨?_, numbered_kept.openconn numbered single called⟩
    obtain ⟨opened, streams⟩ := openconn_buffers called
    rcases openconn_spec (Nat.ne_of_lt (numbered.older single)) called with
      ⟨_, rfl⟩ | ⟨made, _, allocated⟩
    · exact flows
    · rcases opened with ⟨absent, _⟩ | ⟨_, buffers⟩
      · simp [made] at absent
      · exact flows.added buffers streams allocated

end Flow

/-- In every run the bytes are where they should be. -/
theorem flows_of_run
    {events : List Event}
    {final : State}
    (run : Run (Step zeroed) State.initial events final) :
    Flows final :=
  (flows_kept.run run
    ⟨{ stored := by simp [State.bufOf, State.initial]
       unused := by simp [State.bufOf, State.initial] },
      { fresh := by simp [State.peer, State.initial]
        notSelf := by simp [State.peer, State.initial] }⟩).1

/-! ## Closing at the end of input -/

/-- No socket of the event reports an error. -/
structure Healthy (ready : Ready) : Prop where
  errOrHup : ready.errOrHup = false
  inputs : Splice.failed ∉ ready.inputs
  outputs : Splice.failed ∉ ready.outputs
  backOutputs : Splice.failed ∉ ready.backOutputs
  backInputs : Splice.failed ∉ ready.backInputs

/-- The pair is closed behind `EPOLLIN`, where the input of the side with this buffer ends. -/
structure InputEnds (before : State) (ready : Ready) (side : Nat) (buf : Buffer) : Prop where
  isFor : ready.conn = some side
  buffer : before.bufOf side = some buf
  epollin : ready.epollin = true
  ends : endsInput ready.inputs = true

/-- The pair is closed behind `EPOLLOUT`, where the pending input of the other side ends. -/
structure PendingEnds
    (before : State)
    (ready : Ready)
    (id side : Nat)
    (conn : Conn) : Prop where
  isFor : ready.conn = some id
  epollout : ready.epollout = true
  notBefore : ready.epollin = true → endsInput ready.inputs = false
  isPartner : partner zeroed before id ready.epollin = some (side, conn)
  pending : 0 < ready.pending
  ends : endsInput ready.backInputs = true

/-- What was read from a side has been written to the other one. -/
def Delivered (state : State) (side : Nat) : Prop :=
  state.delivered side = state.received side

section Closing

variable {before after drained : State} {side : Nat}

/-- What is left in the pipe is not delivered. -/
theorem Flows.delivered_iff_drained
    {buf : Buffer}
    (flows : Flows drained)
    (buffer : drained.bufOf side = some buf) :
    Delivered drained side ↔ buf.bytes ≤ 0 := by
  obtain ⟨stream, size⟩ := flows.stored side buf buffer
  have whole : Delivered drained side ↔ buf.content = [] := by
    rw [Delivered, stream]
    simp
  rw [whole, size, ← List.length_eq_zero_iff]
  omega

/-- Closing delivers nothing. -/
theorem delivered_closeconn
    {id : Nat}
    (called : closeconn drained id = some after) :
    after.conns id = none ∧ (Delivered after side ↔ Delivered drained side) := by
  have streams := (closeconn_buffers called).2
  constructor
  · simpa [State.peer] using (closeconn_removes called).removed id (Or.inl rfl)
  · rw [Delivered, Delivered, streams.received, streams.delivered]

/-- The end of input behind `EPOLLIN`. -/
theorem delivered_at_input
    {now : Int}
    {ready : Ready}
    {buf : Buffer}
    (flows : Flows before)
    (numbered : Numbered before)
    (ends : InputEnds before ready side buf)
    (good : ready.errOrHup = false)
    (called : handleConn zeroed now before side ready = some after) :
    after.conns side = none ∧
      (Delivered after side ↔
        buf.content.length + amountIn ready.inputs ≤ amountOut ready.outputs) := by
  obtain ⟨_, size⟩ := flows.stored side buf ends.buffer
  obtain ⟨conn, live, ⟨bad, _⟩ | ⟨_, result, middle, first, second⟩⟩ := handleConn_cases called
  · simp [good] at bad
  obtain ⟨_, input⟩ | ⟨unreadable, _⟩ := first
  · have own : before.peer side = some conn.other := by
      simp [State.peer, live]
    obtain ⟨_, drained, other, _, buf', inward, outward, _, buffer, movedIn, movedOut, _,
      ownBuffer, _, kept, ended⟩ :=
      handleInput_transfer (Nat.ne_of_lt (numbered.older own)) (numbered.notSelf side) input
    obtain rfl := Option.some.inj (ends.buffer.symm.trans buffer)
    obtain ⟨inResult, inAmount, inBuffer⟩ := moveDataIn_spec movedIn
    obtain ⟨_, _, _, emptied⟩ := moveDataOut_spec movedOut
    rw [ends.ends, Bool.not_true] at inResult
    obtain ⟨flowsThere, _⟩ := kept _ flows_kept ⟨flows, numbered⟩
    rcases ended with ⟨inGood, _⟩ | ⟨_, rfl, close⟩
    · simp [inResult] at inGood
    · obtain ⟨_, absent, _⟩ | ⟨_, rfl⟩ := second
      · simp at absent
      obtain ⟨closed, sameDelivered⟩ := @delivered_closeconn _ _ side _ close
      refine ⟨closed, ?_⟩
      rw [sameDelivered, flowsThere.delivered_iff_drained ownBuffer, emptied, inBuffer, inAmount]
      dsimp only
      omega
  · simp [ends.epollin] at unreadable

/-- A healthy entry writes without failure. -/
theorem noFailure
    {bytes : Int}
    {results : List (Splice Nat)}
    (absent : Splice.failed ∉ results) :
    failsOutput bytes results = false := by
  rw [Bool.eq_false_iff]
  exact fun fails => absent (failed_of_failsOutput fails)

/-- Behind `EPOLLIN` the pair is still open, and the buffer of the other side is as it was. -/
theorem open_behind_input
    {id : Nat}
    {now : Int}
    {ready : Ready}
    {conn own : Conn}
    {result : Option Nat}
    {middle : State}
    (flows : Flows before)
    (numbered : Numbered before)
    (ends : PendingEnds before ready id side conn)
    (healthy : Healthy ready)
    (live : before.conns id = some own)
    (first :
      (ready.epollin = true ∧
          handleInput zeroed before now id ready = some (result, middle)) ∨
        (ready.epollin = false ∧ result = own.other ∧ middle = before)) :
    result = some side ∧ (Flows middle ∧ Numbered middle) ∧
      middle.bufOf side = some conn.buf := by
  have ownPeer : before.peer id = some own.other := by
    simp [State.peer, live]
  have isPartner := ends.isPartner
  rcases first with ⟨readable, input⟩ | ⟨unreadable, rfl, rfl⟩
  · have flowsMiddle := flows_kept.handleInput ⟨flows, numbered⟩ input
    obtain ⟨_, other, conn', buf, paired, _, ended⟩ :=
      handleInput_removes (Nat.ne_of_lt (numbered.older ownPeer)) (numbered.notSelf id) input
    rw [readable, paired.partner] at isPartner
    obtain ⟨rfl, rfl⟩ := Prod.mk.inj (Option.some.inj isPartner)
    rw [ends.notBefore readable, noFailure healthy.outputs, Bool.or_self,
      if_neg Bool.false_ne_true] at ended
    exact ⟨ended.1, flowsMiddle, ended.2.2⟩
  · rw [unreadable, partner, ownPeer] at isPartner
    cases shape : own.other with
    | none => simp [shape] at isPartner
    | some other =>
        rw [shape] at isPartner
        obtain ⟨present, there, same⟩ := Option.map_eq_some_iff.mp isPartner
        obtain ⟨rfl, rfl⟩ := Prod.mk.inj same
        exact ⟨rfl, ⟨flows, numbered⟩, by simp [State.bufOf, there]⟩

/-- The end of pending input behind `EPOLLOUT`. -/
theorem delivered_at_pending
    {id : Nat}
    {now : Int}
    {ready : Ready}
    {conn : Conn}
    (flows : Flows before)
    (numbered : Numbered before)
    (ends : PendingEnds before ready id side conn)
    (healthy : Healthy ready)
    (called : handleConn zeroed now before id ready = some after) :
    after.conns side = none ∧
      (Delivered after side ↔
        conn.buf.content.length ≤ amountOut ready.backOutputs ∧
          amountIn ready.backInputs = 0) := by
  obtain ⟨own, live, ⟨bad, _⟩ | ⟨_, result, middle, first, second⟩⟩ := handleConn_cases called
  · simp [healthy.errOrHup] at bad
  obtain ⟨rfl, ⟨flowsThere, numberedThere⟩, buffer⟩ :=
    open_behind_input flows numbered ends healthy live first
  obtain ⟨_, size⟩ := flowsThere.stored side conn.buf buffer
  obtain ⟨_, ⟨⟩, _, output⟩ | ⟨stops, _⟩ := second
  · obtain ⟨_, drained, written, draining, wrote, refilled⟩ := handleOutput_cases output
    have flowsDrained := (flows_kept.drain ⟨flowsThere, numberedThere⟩ draining)
    obtain ⟨former, outward, formerLive, _, movedOut, rfl, rfl⟩ := drain_spec draining
    obtain ⟨outResult, _, _, emptied⟩ := moveDataOut_spec movedOut
    have sameFormer : former.buf = conn.buf := by
      simpa [State.bufOf, formerLive] using buffer
    rw [noFailure healthy.backOutputs] at outResult
    rw [sameFormer] at emptied
    obtain ⟨_, touch⟩ | ⟨bad, _⟩ := wrote
    · have flowsWritten := flows_kept.touchConn flowsDrained touch
      have writtenBuffer : written.bufOf side = some outward.buf := by
        rw [(touchConn_buffers touch).1]
        simp [State.bufOf, State.afterOut, State.setConn]
      obtain ⟨_, ⟨nothing, _⟩ | ⟨input, filled, _, filling, ended⟩⟩ := refill_cases refilled
      · exact absurd ends.pending nothing
      · have flowsFilled := flows_kept.fill flowsWritten filling
        obtain ⟨again, inward, againLive, movedIn, rfl, rfl⟩ := fill_spec filling
        obtain ⟨inResult, inAmount, inBuffer⟩ := moveDataIn_spec movedIn
        have sameAgain : again.buf = outward.buf := by
          simpa [State.bufOf, againLive] using writtenBuffer
        rw [ends.ends, Bool.not_true] at inResult
        have filledBuffer : (written.afterIn side again inward).bufOf side = some inward.buf := by
          simp [State.bufOf, State.afterIn, State.setConn]
        obtain ⟨_, left⟩ := flowsWritten.1.stored side outward.buf writtenBuffer
        rcases ended with ⟨good, _⟩ | ⟨_, close⟩
        · simp [inResult] at good
        · obtain ⟨closed, sameDelivered⟩ := @delivered_closeconn _ _ side _ close
          refine ⟨closed, ?_⟩
          rw [sameDelivered, flowsFilled.1.delivered_iff_drained filledBuffer, inBuffer, inAmount,
            sameAgain]
          dsimp only
          omega
    · simp [outResult] at bad
  · simp [ends.epollout] at stops

end Closing

/--
When a pair is closed because the input of one side has ended, everything read from that
side has been written exactly if, behind `EPOLLIN`, the other side took as many bytes as
were in the pipe and arrived, and if, behind `EPOLLOUT`, it took what was in the pipe and
nothing more arrived before the end.
-/
theorem delivered_iff
    {events : List Event}
    {before after : State}
    {now : Int}
    {ready : Ready}
    {side : Nat}
    (run : Run (Step zeroed) State.initial events before)
    (step : Step zeroed before (.ready now ready) after)
    (healthy : Healthy ready) :
    (∀ buf,
        InputEnds before ready side buf →
        after.conns side = none ∧
          (Delivered after side ↔
            buf.content.length + amountIn ready.inputs ≤ amountOut ready.outputs)) ∧
      ∀ id conn,
        PendingEnds before ready id side conn →
        after.conns side = none ∧
          (Delivered after side ↔
            conn.buf.content.length ≤ amountOut ready.backOutputs ∧
              amountIn ready.backInputs = 0) := by
  have flows := flows_of_run run
  have numbered := numbered_of_run run
  have handled : handleEvent zeroed now before ready = some after := step
  constructor
  · intro buf ends
    simp only [handleEvent, ends.isFor] at handled
    exact delivered_at_input flows numbered ends healthy.errOrHup handled
  · intro id conn ends
    simp only [handleEvent, ends.isFor] at handled
    exact delivered_at_pending flows numbered ends healthy handled

/-- A byte and the end of input arrive at the client's side of a new pair. -/
def sampleEnd (outputs : List (Splice Nat)) : Ready :=
  { sampleReady (some 0) with inputs := [.moved [65], .moved []], outputs := outputs }

theorem sampleEnd_healthy
    {outputs : List (Splice Nat)}
    (good : Splice.failed ∉ outputs) :
    Healthy (sampleEnd outputs) where
  errOrHup := rfl
  inputs := by simp [sampleEnd]
  outputs := good
  backOutputs := by simp [sampleEnd, sampleReady]
  backInputs := by simp [sampleEnd, sampleReady]

theorem delivered_sampleEnd :
    ∃ before after,
      Run (Step zeroed) State.initial samplePair before ∧
        Step zeroed before (.ready 0 (sampleEnd [.moved 1])) after ∧
        after.conns 0 = none ∧
        Delivered after 0 := by
  have run : Run (Step zeroed) State.initial samplePair _ := .of_foldlM id rfl
  obtain ⟨closed, delivered⟩ :=
    (@delivered_iff _ _ _ 0 (sampleEnd [.moved 1]) 0 run rfl (sampleEnd_healthy (by simp))).1 _
      ⟨rfl, rfl, rfl, rfl⟩
  exact ⟨_, _, run, rfl, closed, delivered.mpr (by decide)⟩

/-- The byte cannot be written at once, and is lost when the pair is closed. -/
theorem end_of_input_loses_byte :
    ∃ before after,
      Run (Step zeroed) State.initial samplePair before ∧
        Step zeroed before (.ready 0 (sampleEnd [.again])) after ∧
        after.conns 0 = none ∧
        after.received 0 = [65] ∧
        after.delivered 0 = [] := by
  have run : Run (Step zeroed) State.initial samplePair _ := .of_foldlM id rfl
  exact ⟨_, _, run, rfl, rfl, rfl, rfl⟩

end Sysprog.Proxy
