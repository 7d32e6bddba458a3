import Sysprog.ProxyPeers

namespace Sysprog.Proxy

open Execution

/-!
# What new memory can change

`newconn` writes neither the peer nor the byte counter of a connection.  The counter is
read only to ask for at most `BUFSZ` bytes, and what leaves a pipe has entered it before:
a counter that is `BUFSZ` or more ahead of its pipe stays so.  Two counters that are both
that far ahead cannot be told apart, unless one of them overflows.

With every counter capped at `BUFSZ` ahead of its pipe, the program therefore does the same
as long as no counter overflows.  Two memories that agree behind the cap give the same
behaviour over events with which neither run goes wrong, and two memories that agree
altogether give the same behaviour over all events.
-/

/-! ## The cap -/

/-- A buffer whose counter is at most `BUFSZ` ahead of its pipe. -/
def Buffer.capped (buf : Buffer) : Buffer :=
  { buf with bytes := min buf.bytes (bufsz + buf.content.length) }

/-- A connection with a capped buffer. -/
def Conn.capped (conn : Conn) : Conn :=
  { conn with buf := conn.buf.capped }

/-- A transfer that leaves a capped buffer. -/
def Transfer.capped (transfer : Transfer) : Transfer :=
  { transfer with buf := transfer.buf.capped }

/-- All connections capped. -/
def State.capped (state : State) : State :=
  { state with conns := fun id => (state.conns id).map Conn.capped }

/-- Memory that is behind the cap when `newconn` has emptied the pipe. -/
def cappedMemory (memory : Nat → Conn) (id : Nat) : Conn :=
  { memory id with
    buf := { (memory id).buf with bytes := min (memory id).buf.bytes bufsz } }

@[simp] theorem Buffer.capped_content (buf : Buffer) : buf.capped.content = buf.content :=
  rfl

@[simp] theorem Conn.capped_other (conn : Conn) : conn.capped.other = conn.other :=
  rfl

@[simp] theorem Conn.capped_expire (conn : Conn) : conn.capped.expire = conn.expire :=
  rfl

@[simp] theorem Conn.capped_buf (conn : Conn) : conn.capped.buf = conn.buf.capped :=
  rfl

@[simp] theorem State.capped_conns (state : State) (id : Nat) :
    state.capped.conns id = (state.conns id).map Conn.capped :=
  rfl

@[simp] theorem State.capped_log (state : State) : state.capped.log = state.log :=
  rfl

@[simp] theorem State.capped_expireList (state : State) :
    state.capped.expireList = state.expireList :=
  rfl

@[simp] theorem State.capped_peer (state : State) : state.capped.peer = state.peer := by
  funext id
  simp [State.peer, Function.comp_def]

/-- Assigning to one place, behind the cap. -/
theorem capped_update (conns : Nat → Option Conn) (id : Nat) (value : Option Conn) :
    (fun cell => (Function.update conns id value cell).map Conn.capped) =
      Function.update (fun cell => (conns cell).map Conn.capped) id (value.map Conn.capped) := by
  funext cell
  by_cases atId : cell = id <;> simp [atId]

/-- Assigning to a connection, behind the cap. -/
theorem State.capped_setConn (state : State) (id : Nat) (conn : Conn) :
    (state.setConn id conn).capped = state.capped.setConn id conn.capped := by
  simp [State.capped, State.setConn, capped_update]

/-! ## Transfers -/

/--
What is computed behind the cap is the capped result, wherever the program has one: it may
go wrong because of a counter that does not overflow behind the cap.
-/
def Behind
    {Result Capped : Type}
    (cap : Result → Capped)
    (behind : Option Capped)
    (value : Option Result) : Prop :=
  ∀ result, value = some result → behind = some (cap result)

/-- What commutes with the cap. -/
theorem Behind.of_eq
    {Result Capped : Type}
    {cap : Result → Capped}
    {behind : Option Capped}
    {value : Option Result}
    (same : behind = value.map cap) :
    Behind cap behind value := by
  rintro result rfl
  exact same

/-- What goes on behind the cap, as long as nothing goes wrong. -/
theorem Behind.bind
    {Before Capped After Result : Type}
    {value : Option Before}
    {behind : Option Capped}
    {cap : Before → Capped}
    {onward : Before → Option After}
    {onwardCapped : Capped → Option Result}
    {result : After → Result}
    (first : Behind cap behind value)
    (each : ∀ before, Behind result (onwardCapped (cap before)) (onward before)) :
    Behind result (behind.bind onwardCapped) (value.bind onward) := by
  intro after computed
  obtain ⟨before, atFirst, thereafter⟩ := Option.bind_eq_some_iff.mp computed
  rw [first before atFirst, Option.bind_some]
  exact each before after thereafter

/-- What goes on behind the cap, in both branches of a test. -/
theorem Behind.ite
    {Result Capped : Type}
    {cap : Result → Capped}
    {behind behindElse : Option Capped}
    {value valueElse : Option Result}
    (test : Prop)
    [Decidable test]
    (yes : Behind cap behind value)
    (no : Behind cap behindElse valueElse) :
    Behind cap (if test then behind else behindElse) (if test then value else valueElse) := by
  split
  · exact yes
  · exact no

/-- The counter keeps its distance from the pipe when data enters. -/
theorem Buffer.gain_capped (buf : Buffer) (data : List UInt8) :
    Behind Buffer.capped (buf.capped.gain data) (buf.gain data) := by
  intro gained counted
  unfold Buffer.gain at counted ⊢
  split at counted
  · rename_i fits
    obtain rfl := Option.some.inj counted
    have lower : buf.capped.bytes ≤ buf.bytes := Int.min_le_left _ _
    rw [if_pos (by omega)]
    simp only [Buffer.capped, Option.some.injEq, Buffer.mk.injEq, List.length_append, and_true]
    push_cast
    omega
  · simp at counted

/-- The counter keeps its distance from the pipe when data leaves. -/
theorem Buffer.capped_out (buf : Buffer) {n : Nat} (held : n ≤ buf.content.length) :
    { bytes := buf.capped.bytes - n, content := buf.content.drop n } =
      Buffer.capped { bytes := buf.bytes - n, content := buf.content.drop n } := by
  simp only [Buffer.capped, Buffer.mk.injEq, List.length_drop, and_true]
  omega

/-- At most `BUFSZ` bytes are asked for. -/
theorem atMostBufsz_eq_min (bytes : Int) : atMostBufsz bytes = min bytes bufsz := by
  unfold atMostBufsz
  split <;> omega

/-- The same bytes are asked for. -/
theorem atMostBufsz_capped (buf : Buffer) :
    atMostBufsz buf.capped.bytes = atMostBufsz buf.bytes := by
  simp only [atMostBufsz_eq_min, Buffer.capped]
  omega

/-- There are bytes to move behind the cap if there are any. -/
theorem Buffer.capped_pos (buf : Buffer) : buf.capped.bytes > 0 ↔ buf.bytes > 0 := by
  simp only [Buffer.capped, bufsz]
  omega

/-- `move_data_in`, behind the cap. -/
theorem moveDataIn_capped (buf : Buffer) (results : List (Splice (List UInt8))) :
    Behind Transfer.capped (moveDataIn buf.capped results) (moveDataIn buf results) := by
  induction results generalizing buf with
  | nil =>
      exact .of_eq rfl
  | cons splice rest inductionHypothesis =>
      cases splice with
      | again => exact .of_eq rfl
      | failed => exact .of_eq rfl
      | moved data =>
          simp only [moveDataIn]
          split
          · exact .of_eq rfl
          · split
            · refine (Buffer.gain_capped buf data).bind fun gained => ?_
              exact (inductionHypothesis gained).bind fun _ => .of_eq rfl
            · exact .of_eq rfl

/-- `move_data_out`, behind the cap. -/
theorem moveDataOut_capped (buf : Buffer) (results : List (Splice Nat)) :
    moveDataOut buf.capped results = (moveDataOut buf results).map Transfer.capped := by
  induction results generalizing buf with
  | nil =>
      simp only [moveDataOut, Buffer.capped_pos]
      split <;> rfl
  | cons splice rest inductionHypothesis =>
      simp only [moveDataOut, Buffer.capped_pos, atMostBufsz_capped,
        Buffer.capped_content]
      by_cases positive : buf.bytes > 0
      · cases splice with
        | again => simp [positive, Transfer.capped]
        | failed => simp [positive, Transfer.capped]
        | moved n =>
            by_cases nothing : n = 0
            · simp [positive, nothing, Transfer.capped]
            · by_cases possible : n ≤ atMostBufsz buf.bytes ∧ n ≤ buf.content.length
              · simp only [positive, nothing, possible, and_self, if_true, if_false]
                rw [Buffer.capped_out buf possible.2, inductionHypothesis]
                simp [Option.map_bind, Option.bind_map, Function.comp_def, Transfer.behind,
                  Transfer.capped]
              · simp [positive, nothing, possible]
      · simp [positive, Transfer.capped]

/-! ## The functions of the program -/

/-- A result and a state, with the state capped. -/
def capResult {Result : Type} (result : Result × State) : Result × State :=
  (result.1, result.2.capped)

/-- What goes on behind the cap with what was computed behind it. -/
theorem bind_behind
    {Before Capped After Result : Type}
    {value : Option Before}
    {cap : Before → Capped}
    {onward : Before → Option After}
    {onwardCapped : Capped → Option Result}
    {result : After → Result}
    (each : ∀ before, onwardCapped (cap before) = (onward before).map result) :
    (value.map cap).bind onwardCapped = (value.bind onward).map result := by
  cases value with
  | none => rfl
  | some before => exact each before

section Functions

variable (memory : Nat → Conn) (state : State) (id other : Nat) (now : Int)
variable (setup : Setup) (ready : Ready)

/-- `move_data_in` on a connection, behind the cap. -/
theorem fill_capped (results : List (Splice (List UInt8))) :
    Behind capResult (fill state.capped id results) (fill state id results) := by
  refine Behind.bind (.of_eq (State.capped_conns state id)) fun conn => ?_
  refine (moveDataIn_capped conn.buf results).bind fun transfer => .of_eq ?_
  simp [capResult, State.afterIn, State.capped, State.setConn, capped_update, Transfer.capped,
    Conn.capped]

/-- `move_data_out` from a connection, behind the cap. -/
theorem drain_capped (results : List (Splice Nat)) :
    drain state.capped id other results = (drain state id other results).map capResult := by
  refine bind_behind fun conn => bind_behind fun target => ?_
  rw [Conn.capped_buf, moveDataOut_capped]
  refine bind_behind fun transfer => ?_
  simp [capResult, State.afterOut, State.capped, State.setConn, capped_update, Transfer.capped,
    Conn.capped]

/-- `delconn`, behind the cap. -/
theorem delconn_capped : delconn state.capped id = (delconn state id).map State.capped := by
  refine bind_behind fun conn => ?_
  simp [State.capped, capped_update]

/-- `closeconn`, behind the cap. -/
theorem closeconn_capped :
    closeconn state.capped id = (closeconn state id).map State.capped := by
  refine bind_behind fun conn => ?_
  rw [Conn.capped_other]
  cases conn.other with
  | none =>
      exact delconn_capped state id
  | some other =>
      simp only [Option.bind_eq_bind, delconn_capped]
      exact bind_behind fun middle => delconn_capped middle id

/-- `touch_conn`, behind the cap. -/
theorem touchConn_capped :
    touchConn state.capped id now = (touchConn state id now).map State.capped := by
  refine bind_behind fun conn => ?_
  simp [State.capped, State.setConn, capped_update, Conn.capped]

/-- `newconn`, behind the cap. -/
theorem newconn_capped :
    newconn (cappedMemory memory) state.capped setup now =
      (newconn memory state setup now).map capResult := by
  by_cases made : setup.piped ∧ setup.registered
  · simp [newconn, made, capResult, State.capped, State.setConn, capped_update, Conn.capped,
      Buffer.capped, cappedMemory]
  · simp [newconn, made]

/-- `new_request`, behind the cap. -/
theorem newRequest_capped :
    newRequest (cappedMemory memory) state.capped setup now =
      (newRequest memory state setup now).map State.capped := by
  by_cases accepted : setup.accepted
  · simp only [newRequest, accepted, if_true, newconn_capped]
    exact bind_behind fun _ => rfl
  · simp [newRequest, accepted]

/-- `openconn`, behind the cap. -/
theorem openconn_capped :
    openconn (cappedMemory memory) state.capped setup other now =
      (openconn memory state setup other now).map capResult := by
  by_cases connected : setup.connected
  · simp only [openconn, connected, if_true, newconn_capped]
    refine bind_behind fun made => bind_behind fun conn => ?_
    have paired := State.capped_setConn made.2 made.1 { conn with other := some other }
    simp only [capResult, Conn.capped] at paired ⊢
    rw [← paired]
    refine bind_behind fun former => ?_
    simp only [Option.pure_def, Option.map_some, capResult, State.capped_setConn]
    rfl
  · simp [openconn, connected, capResult]

/-- Behind `EPOLLIN` with `other` known, behind the cap. -/
theorem forwardInput_capped (other : Option Nat) :
    Behind capResult (forwardInput state.capped now id other ready)
      (forwardInput state now id other ready) := by
  refine (fill_capped state id ready.inputs).bind ?_
  rintro ⟨input, filled⟩
  cases other with
  | none =>
      exact .of_eq rfl
  | some peer =>
      change Behind capResult
        ((drain filled.capped id peer ready.outputs).bind _)
        ((drain filled id peer ready.outputs).bind _)
      refine Behind.bind (.of_eq (drain_capped filled id peer ready.outputs)) ?_
      rintro ⟨output, drained⟩
      refine Behind.ite ((input && output) = true) ?_ ?_
      · refine Behind.bind (.of_eq (touchConn_capped drained peer now)) fun touched => ?_
        exact .of_eq rfl
      · refine Behind.bind (.of_eq (closeconn_capped drained id)) fun closed => ?_
        exact .of_eq rfl

/-- The part of `main` behind `EPOLLIN`, behind the cap. -/
theorem handleInput_capped :
    Behind capResult (handleInput (cappedMemory memory) state.capped now id ready)
      (handleInput memory state now id ready) := by
  refine Behind.bind (.of_eq (State.capped_conns state id)) fun conn => ?_
  refine Behind.bind (.of_eq (touchConn_capped state id now)) fun touched => ?_
  rw [Conn.capped_other]
  cases conn.other with
  | some other =>
      exact forwardInput_capped touched id now ready (some other)
  | none =>
      refine Behind.bind (.of_eq (openconn_capped memory touched id now ready.setup)) ?_
      exact fun opened => forwardInput_capped opened.2 id now ready opened.1

/-- Asking for more input, behind the cap. -/
theorem refill_capped :
    Behind State.capped (refill state.capped other ready) (refill state other ready) := by
  refine Behind.bind (.of_eq (State.capped_conns state other)) fun conn => ?_
  split
  · refine (fill_capped state other ready.backInputs).bind ?_
    rintro ⟨input, filled⟩
    cases input with
    | true => exact .of_eq rfl
    | false => exact .of_eq (closeconn_capped filled other)
  · exact .of_eq rfl

/-- The part of `main` behind `EPOLLOUT`, behind the cap. -/
theorem handleOutput_capped :
    Behind State.capped (handleOutput state.capped now id other ready)
      (handleOutput state now id other ready) := by
  refine Behind.bind (.of_eq (drain_capped state other id ready.backOutputs)) ?_
  rintro ⟨output, drained⟩
  cases output with
  | true =>
      exact Behind.bind (.of_eq (touchConn_capped drained id now))
        fun middle => refill_capped middle other ready
  | false =>
      exact Behind.bind (.of_eq (delconn_capped drained id))
        fun middle => refill_capped middle other ready

/-- The rest of the body of the loop, behind the cap. -/
theorem afterInput_capped (other : Option Nat) :
    Behind State.capped (afterInput state.capped now id other ready)
      (afterInput state now id other ready) := by
  cases other with
  | none =>
      exact .of_eq rfl
  | some other =>
      simp only [afterInput]
      split
      · exact handleOutput_capped state id other now ready
      · exact .of_eq rfl

/-- The body of the loop for a connection, behind the cap. -/
theorem handleConn_capped :
    Behind State.capped (handleConn (cappedMemory memory) now state.capped id ready)
      (handleConn memory now state id ready) := by
  refine Behind.bind (.of_eq (State.capped_conns state id)) fun conn => ?_
  split
  · exact .of_eq (closeconn_capped state id)
  · split
    · refine (handleInput_capped memory state id now ready).bind fun handled => ?_
      exact afterInput_capped handled.2 id now ready handled.1
    · exact afterInput_capped state id now ready conn.other

/-- The body of the loop, behind the cap. -/
theorem handleEvent_capped :
    Behind State.capped (handleEvent (cappedMemory memory) now state.capped ready)
      (handleEvent memory now state ready) := by
  unfold handleEvent
  split
  · split
    · exact .of_eq (newRequest_capped memory state now ready.setup)
    · exact .of_eq rfl
  · exact handleConn_capped memory state _ now ready

/-- Reading `node->next`, behind the cap. -/
theorem following_capped (node : Option Nat) :
    state.capped.following node = state.following node := by
  cases node with
  | none => rfl
  | some id => cases live : state.conns id <;> simp [State.following, live]

/-- The loop of `expire_connections`, behind the cap. -/
theorem expireLoop_capped (rounds : Nat) (node tmp : Option Nat) :
    expireLoop now rounds node tmp state.capped =
      (expireLoop now rounds node tmp state).map capResult := by
  induction rounds generalizing state node tmp with
  | zero =>
      rfl
  | succ rounds inductionHypothesis =>
      cases node with
      | none =>
          rfl
      | some id =>
          refine bind_behind fun conn => ?_
          rw [Conn.capped_expire]
          split
          · rfl
          · rw [closeconn_capped]
            refine bind_behind fun closed => ?_
            simp only [following_capped, Option.bind_eq_bind, Option.map_bind]
            exact congrArg _ (funext fun following => inductionHypothesis closed tmp following)

/-- `expire_connections`, behind the cap. -/
theorem expireConnections_capped :
    expireConnections state.capped now = (expireConnections state now).map capResult := by
  simp only [expireConnections, following_capped, State.capped_expireList, expireLoop_capped,
    Option.bind_eq_bind, Option.map_bind, Function.comp_def]

end Functions

/-- What the main loop does next, behind the cap. -/
theorem perform_capped (memory : Nat → Conn) (state : State) (event : Event) :
    Behind State.capped (perform (cappedMemory memory) state.capped event)
      (perform memory state event) := by
  cases event with
  | ready now entry =>
      exact handleEvent_capped memory state now entry
  | expire now =>
      refine .of_eq ?_
      simp only [perform, expireConnections_capped, Option.map_map]
      rfl

/-! ## Two memories -/

/-- The connection an event makes, if it makes one: one that was accepted, or one to the host. -/
inductive Newcomer where
  | accepted
  | opened

/-- What an event makes a connection for. -/
def newcomer (before : State) : Event → Option Newcomer
  | .expire _ => none
  | .ready _ entry =>
      if entry.setup.piped ∧ entry.setup.registered then
        match entry.conn with
        | none =>
            if entry.epollin ∧ entry.setup.accepted then some .accepted else none
        | some id =>
            if entry.errOrHup = false ∧ entry.epollin ∧ entry.setup.connected ∧
                before.peer id = some none then
              some .opened
            else
              none
      else
        none

/-- The same value in the counters. -/
def EqualCounter (first second : Conn) : Prop :=
  first.buf.bytes = second.buf.bytes

/-- Counters that cannot be told apart as long as neither overflows. -/
def SameCounter (first second : Conn) : Prop :=
  min first.buf.bytes bufsz = min second.buf.bytes bufsz

/-- Memory of a new connection with the same peer, and with counters that are alike. -/
structure SameFresh (alike : Conn → Conn → Prop) (first second : Conn) : Prop where
  other : first.other = second.other
  counter : alike first second

/--
An event does not depend on which of the two memories it finds.  The peer of a connection
to the host is written at once, the peer of an accepted one is not.
-/
def Harmless
    (alike : Conn → Conn → Prop)
    (first second : Nat → Conn)
    (before : State)
    (event : Event) : Prop :=
  let id := before.allocated
  match newcomer before event with
  | none => True
  | some .accepted => SameFresh alike (first id) (second id)
  | some .opened => alike (first id) (second id)

instance (first second : Conn) : Decidable (EqualCounter first second) :=
  inferInstanceAs (Decidable (_ = _))

instance (first second : Conn) : Decidable (SameCounter first second) :=
  inferInstanceAs (Decidable (_ = _))

section Decisions

variable {alike : Conn → Conn → Prop} [∀ first second, Decidable (alike first second)]

instance (first second : Conn) : Decidable (SameFresh alike first second) :=
  decidable_of_iff (first.other = second.other ∧ alike first second)
    ⟨fun ⟨other, counter⟩ => ⟨other, counter⟩, fun same => ⟨same.other, same.counter⟩⟩

instance (first second : Nat → Conn) (before : State) (event : Event) :
    Decidable (Harmless alike first second before event) :=
  match shape : newcomer before event with
  | none => .isTrue (by simp [Harmless, shape])
  | some .accepted =>
      decidable_of_iff (SameFresh alike (first before.allocated) (second before.allocated))
        (by simp [Harmless, shape])
  | some .opened =>
      decidable_of_iff (alike (first before.allocated) (second before.allocated))
        (by simp [Harmless, shape])

end Decisions

section TwoMemories

variable {first second : Nat → Conn} {state : State} {now : Int} {setup : Setup}

/-- `new_request` where memory is the same. -/
theorem newRequest_congr
    (same :
      setup.accepted → setup.piped ∧ setup.registered →
        SameFresh EqualCounter (first state.allocated) (second state.allocated)) :
    newRequest first state setup now = newRequest second state setup now := by
  by_cases accepted : setup.accepted
  · by_cases made : setup.piped ∧ setup.registered
    · obtain ⟨other, counter⟩ := same accepted made
      simp only [EqualCounter] at counter
      simp [newRequest, accepted, newconn, made, other, counter]
    · simp [newRequest, accepted, newconn, made]
  · simp [newRequest, accepted]

/-- `openconn` where the counters in memory are the same. -/
theorem openconn_congr
    {id : Nat}
    (same :
      setup.connected → setup.piped ∧ setup.registered →
        EqualCounter (first state.allocated) (second state.allocated)) :
    openconn first state setup id now = openconn second state setup id now := by
  by_cases connected : setup.connected
  · by_cases made : setup.piped ∧ setup.registered
    · have counter := same connected made
      simp only [EqualCounter] at counter
      simp [openconn, connected, newconn, made, counter, State.setConn]
    · simp [openconn, connected, newconn, made]
  · simp [openconn, connected]

/-- An event for a connection where its memory is the same. -/
theorem handleConn_congr
    {id : Nat}
    {ready : Ready}
    (same :
      ready.errOrHup = false → ready.epollin → ready.setup.connected →
        state.peer id = some none → ready.setup.piped ∧ ready.setup.registered →
        EqualCounter (first state.allocated) (second state.allocated)) :
    handleConn first now state id ready = handleConn second now state id ready := by
  cases live : state.conns id with
  | none =>
      simp [handleConn, live]
  | some conn =>
      cases bad : ready.errOrHup with
      | true => simp [handleConn, live, bad]
      | false =>
          by_cases readable : ready.epollin
          · cases shape : conn.other with
            | some other =>
                simp [handleConn, live, bad, readable, handleInput, shape]
            | none =>
                cases touched : touchConn state id now with
                | none =>
                    simp [handleConn, live, bad, readable, handleInput, touched]
                | some after =>
                    have allocated := (touchConn_spec touched).allocated
                    have alone : state.peer id = some none := by simp [State.peer, live, shape]
                    rw [← allocated] at same
                    simp [handleConn, live, bad, readable, handleInput, touched, shape,
                      openconn_congr fun connected made => same bad readable connected alone made]
          · simp [handleConn, live, bad, readable]

end TwoMemories

/-- An event does the same with memories that agree where it looks. -/
theorem perform_congr
    {first second : Nat → Conn}
    {state : State}
    {event : Event}
    (harmless : Harmless EqualCounter first second state event) :
    perform first state event = perform second state event := by
  cases event with
  | expire now =>
      rfl
  | ready now entry =>
      cases target : entry.conn with
      | none =>
          simp only [perform, handleEvent, target]
          split
          · rename_i readable
            refine newRequest_congr fun accepted made => ?_
            simpa [Harmless, newcomer, target, readable, accepted, made] using harmless
          · rfl
      | some id =>
          simp only [perform, handleEvent, target]
          refine handleConn_congr fun good readable connected alone made => ?_
          simpa [Harmless, newcomer, target, good, readable, connected, alone, made] using harmless

/-- Counters that cannot be told apart are equal behind the cap. -/
theorem Harmless.behind
    {first second : Nat → Conn}
    {state : State}
    {event : Event}
    (harmless : Harmless SameCounter first second state event) :
    Harmless EqualCounter (cappedMemory first) (cappedMemory second) state.capped event := by
  have unseen : newcomer state.capped event = newcomer state event := by
    cases event with
    | expire now => rfl
    | ready now entry => simp [newcomer]
  unfold Harmless at harmless ⊢
  rw [unseen]
  split
  · trivial
  · rename_i made
    rw [made] at harmless
    exact ⟨harmless.other, harmless.counter⟩
  · rename_i made
    rw [made] at harmless
    exact harmless

/-- A harmless event keeps two states the same behind the cap, if it goes wrong in neither. -/
theorem perform_same
    {first second : Nat → Conn}
    {one other oneAfter otherAfter : State}
    {event : Event}
    (same : one.capped = other.capped)
    (harmless : Harmless SameCounter first second one event)
    (oneStep : perform first one event = some oneAfter)
    (otherStep : perform second other event = some otherAfter) :
    oneAfter.capped = otherAfter.capped := by
  have oneBehind := perform_capped first one event oneAfter oneStep
  have otherBehind := perform_capped second other event otherAfter otherStep
  rw [perform_congr harmless.behind, same] at oneBehind
  exact Option.some.inj (oneBehind.symm.trans otherBehind)

/-! ## Whole runs -/

/-- What can be seen of a run over `events`, or that it goes wrong. -/
def behaviour (memory : Nat → Conn) (events : List Event) : Option (List Observation) :=
  (events.foldlM (perform memory) State.initial).map State.log

/-- The same can be seen, unless a run goes wrong. -/
def AgreesOn (first second : Nat → Conn) (events : List Event) : Prop :=
  ∀ one other,
    behaviour first events = some one →
    behaviour second events = some other →
    one = other

/-- Every event is harmless where the run over the events before it leads. -/
def HarmlessAlong
    (alike : Conn → Conn → Prop)
    (first second : Nat → Conn)
    (events : List Event) : Prop :=
  ∀ earlier event later before,
    events = earlier ++ event :: later →
    Run (Step first) State.initial earlier before →
    Harmless alike first second before event

section WholeRuns

variable
  {alike : Conn → Conn → Prop}
  {first second : Nat → Conn}
  {earlier events : List Event}
  {event : Event}

/-- What is harmless along a run is so along its beginning. -/
theorem HarmlessAlong.shorter
    (harmless : HarmlessAlong alike first second (earlier ++ [event])) :
    HarmlessAlong alike first second earlier := by
  intro front taken later before shape run
  exact harmless front taken (later ++ [event]) before (by simp [shape]) run

/-- The last event is harmless where the others lead. -/
theorem HarmlessAlong.last
    {before : State}
    (harmless : HarmlessAlong alike first second (earlier ++ [event]))
    (reached : earlier.foldlM (perform first) State.initial = some before) :
    Harmless alike first second before event :=
  harmless earlier event [] before rfl (.of_foldlM id reached)

/-- Runs of harmless events lead to the same state behind the cap, if neither goes wrong. -/
theorem same_of_harmless
    {one other : State}
    (harmless : HarmlessAlong SameCounter first second events)
    (oneRun : events.foldlM (perform first) State.initial = some one)
    (otherRun : events.foldlM (perform second) State.initial = some other) :
    one.capped = other.capped := by
  induction events using List.reverseRecOn generalizing one other with
  | nil =>
      obtain rfl := Option.some.inj oneRun
      obtain rfl := Option.some.inj otherRun
      rfl
  | append_singleton earlier event inductionHypothesis =>
      simp only [List.foldlM_append, List.foldlM_cons, List.foldlM_nil, Option.bind_eq_bind,
        Option.bind_eq_some_iff] at oneRun otherRun
      obtain ⟨oneBefore, oneEarlier, _, oneStep, oneSame⟩ := oneRun
      obtain ⟨otherBefore, otherEarlier, _, otherStep, otherSame⟩ := otherRun
      obtain rfl := Option.some.inj oneSame
      obtain rfl := Option.some.inj otherSame
      have before := inductionHypothesis harmless.shorter oneEarlier otherEarlier
      exact perform_same before (harmless.last oneEarlier) oneStep otherStep

/-- A run with the same memory where it looks leads to the same state, or goes wrong twice. -/
theorem eq_of_harmless (harmless : HarmlessAlong EqualCounter first second events) :
    events.foldlM (perform first) State.initial =
      events.foldlM (perform second) State.initial := by
  induction events using List.reverseRecOn with
  | nil =>
      rfl
  | append_singleton earlier event inductionHypothesis =>
      have same := inductionHypothesis harmless.shorter
      simp only [List.foldlM_append, List.foldlM_cons, List.foldlM_nil, Option.bind_eq_bind]
      rw [← same]
      cases reached : earlier.foldlM (perform first) State.initial with
      | none => rfl
      | some before =>
          rw [Option.bind_some, Option.bind_some, perform_congr (harmless.last reached)]

end WholeRuns

end Sysprog.Proxy
