import Sysprog.ProxyMemory

namespace Sysprog.Proxy

open Execution

/-!
# Which memories can be told apart

Connections are accepted until every number that memory holds names one of them.  A
hang-up on one of them then shows its peer, and a first read shows its counter up to
`BUFSZ`.  Higher counters only differ in how much can be read before they overflow.
-/

/-! ## Accepted connections -/

/-- A client connects. -/
def arrival : Event :=
  .ready 0 (sampleReady none)

/-- An accepted connection, with what memory held. -/
def accepted (memory : Nat → Conn) (id : Nat) : Conn :=
  { memory id with buf := { (memory id).buf with content := [] }, expire := connectionTimeout }

/-- So many connections have been accepted, and nothing was read yet. -/
def crowd (memory : Nat → Conn) (count : Nat) : State where
  conns id := if id < count then some (accepted memory id) else none
  expireList := List.range count
  numEvents := count + 1
  allocated := count
  received := fun _ => []
  delivered := fun _ => []
  log := (List.range count).map .opened

variable {memory : Nat → Conn} {count id : Nat}

/-- One more client. -/
theorem perform_arrival :
    perform memory (crowd memory count) arrival = some (crowd memory (count + 1)) := by
  have conns :
      Function.update (crowd memory count).conns count (some (accepted memory count)) =
        (crowd memory (count + 1)).conns := by
    funext cell
    by_cases atCount : cell = count
    · simp [crowd, atCount]
    · have below : cell < count + 1 ↔ cell < count := by omega
      simp only [crowd, Function.update_of_ne atCount, below]
  have next : perform memory (crowd memory count) arrival =
      some { crowd memory count with
        conns := Function.update (crowd memory count).conns count (some (accepted memory count))
        expireList := List.range count ++ [count]
        numEvents := count + 1 + 1
        allocated := count + 1
        log := (List.range count).map .opened ++ [.opened count] } := by
    simp [perform, arrival, sampleReady, sampleSetup, handleEvent, newRequest, newconn,
      State.setConn, crowd, accepted]
  rw [next, conns]
  simp [crowd, List.range_succ]

/-- All the clients. -/
theorem foldlM_arrivals :
    (List.replicate count arrival).foldlM (perform memory) State.initial =
      some (crowd memory count) := by
  induction count with
  | zero =>
      rfl
  | succ count inductionHypothesis =>
      rw [List.replicate_succ', List.foldlM_append, inductionHypothesis]
      simp [perform_arrival]

/-- A hang-up on one of them. -/
def hangUp (id : Nat) : Event :=
  .ready 0 { sampleReady (some id) with errOrHup := true }

/-- What closing a connection shows, by what its memory held; nothing if it is its own peer. -/
def closings (id : Nat) : Option Nat → Option (List Observation)
  | none => some [.closed id]
  | some peer => if peer = id then none else some [.closed peer, .closed id]

/-- Closing a connection shows its peer. -/
theorem closings_inj
    (id : Nat)
    {one other : Option Nat}
    (same : closings id one = closings id other) :
    one = other := by
  cases one with
  | none =>
      cases other with
      | none => rfl
      | some peer => by_cases own : peer = id <;> simp [closings, own] at same
  | some former =>
      cases other with
      | none => by_cases own : former = id <;> simp [closings, own] at same
      | some peer =>
          by_cases formerOwn : former = id
          · by_cases peerOwn : peer = id
            · rw [formerOwn, peerOwn]
            · simp [closings, formerOwn, peerOwn] at same
          · by_cases peerOwn : peer = id
            · simp [closings, formerOwn, peerOwn] at same
            · simpa [closings, formerOwn, peerOwn] using same

/-- A hang-up closes the connection, and its peer first if memory held one. -/
theorem hangUp_log (here : id < count) (peerHere : ∀ peer ∈ (memory id).other, peer < count) :
    (perform memory (crowd memory count) (hangUp id)).map State.log =
      (closings id (memory id).other).map ((crowd memory count).log ++ ·) := by
  have one : (1 : Int) ≤ count + 1 := by omega
  have two : (1 : Int) ≤ count := by omega
  cases shape : (memory id).other with
  | none =>
      simp [perform, hangUp, handleEvent, handleConn, sampleReady, closeconn, delconn, closings,
        crowd, here, accepted, shape, one]
  | some peer =>
      have there := peerHere peer shape
      by_cases same : peer = id
      · simp [perform, hangUp, handleEvent, handleConn, sampleReady, closeconn, delconn, closings,
          crowd, here, accepted, shape, same]
      · simp [perform, hangUp, handleEvent, handleConn, sampleReady, closeconn, delconn, closings,
          crowd, here, accepted, shape, same, there, Ne.symm same, one, two]

/-- The first bytes come from one of them, and its peer takes nothing. -/
def firstReady (id padding : Nat) : Ready :=
  { sampleReady (some id) with
    inputs := List.replicate padding (.moved [0]) ++ [.again]
    outputs := [.again] }

/-- Bytes that come one by one. -/
theorem moveDataIn_padding
    (buf : Buffer)
    {padding : Nat}
    (counted : padding = 0 ∨ buf.bytes + padding < 2 ^ 31) :
    moveDataIn buf (List.replicate padding (.moved [0]) ++ [.again]) =
      some
        { result := true
          buf :=
            { bytes := buf.bytes + padding
              content := buf.content ++ List.replicate padding 0 }
          data := List.replicate padding 0
          requests := List.replicate (padding + 1) bufsz } := by
  induction padding generalizing buf with
  | zero =>
      simp [moveDataIn]
  | succ padding inductionHypothesis =>
      have fits : 1 ≤ bufsz := by decide
      have total : buf.bytes + 1 + padding = buf.bytes + (padding + 1) := by omega
      have gained : buf.gain [0] =
          some { bytes := buf.bytes + 1, content := buf.content ++ [0] } :=
        if_pos (by simp only [List.length_singleton]; omega)
      have later :=
        inductionHypothesis { bytes := buf.bytes + 1, content := buf.content ++ [0] }
          (by dsimp only; omega)
      simp only [List.replicate_succ, List.cons_append, moveDataIn, gained, later,
        Option.bind_eq_bind, Option.bind_some]
      simp [fits, Transfer.behind, total]

/-- Too many of them. -/
theorem moveDataIn_overflow
    (buf : Buffer)
    {padding : Nat}
    (narrow : buf.bytes < 2 ^ 31)
    (long : 2 ^ 31 ≤ buf.bytes + padding) :
    moveDataIn buf (List.replicate padding (.moved [0]) ++ [.again]) = none := by
  induction padding generalizing buf with
  | zero =>
      omega
  | succ padding inductionHypothesis =>
      have fits : 1 ≤ bufsz := by decide
      simp only [List.replicate_succ, List.cons_append, moveDataIn, Buffer.gain,
        List.length_singleton, fits, if_true, List.cons_ne_nil, if_false]
      split
      · rename_i room
        have later :=
          inductionHypothesis { bytes := buf.bytes + 1, content := buf.content ++ [0] } room
            (by dsimp only; omega)
        simp [later]
      · rfl

/-- The forwarder asks for `BUFSZ` bytes as long as some come, and then for what it has. -/
def firstRequests (bytes : Int) (padding : Nat) : List Observation :=
  (List.replicate (padding + 1) (bufsz : Int)).map .requested ++
    if 0 < bytes + padding then [.requested (atMostBufsz (bytes + padding))] else []

section Requests

variable {before : State} {conn : Conn} {peer padding : Nat}

/-- Assigning to a connection leaves every connection where it is. -/
theorem setConn_isSome (id : Nat) (conn : Conn) (live : (before.conns peer).isSome) :
    ((before.setConn id conn).conns peer).isSome := by
  by_cases atId : peer = id <;> simp [State.setConn, atId, live]

/-- Bytes that come one by one are counted. -/
theorem fill_padding
    (live : before.conns id = some conn)
    (peerLive : (before.conns peer).isSome)
    (counted : padding = 0 ∨ conn.buf.bytes + padding < 2 ^ 31) :
    ∃ after filled,
      fill before id (List.replicate padding (.moved [0]) ++ [.again]) = some (true, after) ∧
        after.conns id = some filled ∧
        filled.buf.bytes = conn.buf.bytes + padding ∧
        (after.conns peer).isSome ∧
        after.log =
          before.log ++ (List.replicate (padding + 1) (bufsz : Int)).map .requested := by
  simp only [fill, live, moveDataIn_padding conn.buf counted, Option.bind_eq_bind,
    Option.bind_some]
  exact ⟨_, _, rfl, Function.update_self _ _ _, rfl, setConn_isSome id _ peerLive, rfl⟩

/-- What cannot be written yet is asked for once, if there is something. -/
theorem drain_again
    (live : before.conns id = some conn)
    (peerLive : (before.conns peer).isSome) :
    ∃ after,
      drain before id peer [.again] = some (true, after) ∧
        (after.conns peer).isSome ∧
        after.log =
          before.log ++
            if 0 < conn.buf.bytes then [.requested (atMostBufsz conn.buf.bytes)] else [] := by
  obtain ⟨target, targetLive⟩ := Option.isSome_iff_exists.mp peerLive
  by_cases positive : 0 < conn.buf.bytes
  · simp only [drain, live, targetLive, moveDataOut, gt_iff_lt, positive, if_true,
      Option.bind_eq_bind, Option.bind_some]
    exact ⟨_, rfl, setConn_isSome id _ peerLive, rfl⟩
  · simp only [drain, live, targetLive, moveDataOut, gt_iff_lt, positive, if_false,
      Option.bind_eq_bind, Option.bind_some]
    exact ⟨_, rfl, setConn_isSome id _ peerLive, rfl⟩

/-- Too many bytes. -/
theorem fill_overflow
    (live : before.conns id = some conn)
    (narrow : conn.buf.bytes < 2 ^ 31)
    (long : 2 ^ 31 ≤ conn.buf.bytes + padding) :
    fill before id (List.replicate padding (.moved [0]) ++ [.again]) = none := by
  simp [fill, live, moveDataIn_overflow conn.buf narrow long]

/-- `touch_conn` cannot be seen. -/
theorem touchConn_unseen (live : before.conns id = some conn) :
    ∃ after touched,
      touchConn before id 0 = some after ∧
        after.conns id = some touched ∧
        touched.buf = conn.buf ∧
        ((before.conns peer).isSome → (after.conns peer).isSome) ∧
        after.allocated = before.allocated ∧
        after.log = before.log := by
  simp only [touchConn, live, Option.bind_eq_bind, Option.bind_some]
  exact ⟨_, _, rfl, Function.update_self _ _ _, rfl, setConn_isSome id _, rfl, rfl⟩

/-- A connection to the host is opened. -/
theorem openconn_paired
    (live : before.conns id = some conn)
    (older : id ≠ before.allocated) :
    ∃ after paired,
      openconn memory before sampleSetup id 0 = some (some before.allocated, after) ∧
        after.conns id = some paired ∧
        paired.buf = conn.buf ∧
        (after.conns before.allocated).isSome ∧
        after.log = before.log ++ [.opened before.allocated] := by
  simp only [openconn, newconn, sampleSetup, State.setConn, and_self, if_true, Option.bind_eq_bind,
    Option.bind_some, Function.update_self, Function.update_of_ne older, live]
  refine ⟨_, _, rfl, Function.update_self _ _ _, rfl, ?_, rfl⟩
  simp [Function.update_of_ne older.symm]

/-- With a peer, the first read only shows requests. -/
theorem forwardInput_firstReady
    (live : before.conns id = some conn)
    (peerLive : (before.conns peer).isSome)
    (counted : padding = 0 ∨ conn.buf.bytes + padding < 2 ^ 31) :
    ∃ after,
      forwardInput before 0 id (some peer) (firstReady id padding) = some (some peer, after) ∧
        after.log = before.log ++ firstRequests conn.buf.bytes padding := by
  obtain ⟨filled, conn', filling, filledLive, total, peerFilled, filledLog⟩ :=
    fill_padding live peerLive counted
  obtain ⟨drained, draining, peerDrained, drainedLog⟩ := drain_again filledLive peerFilled
  obtain ⟨target, targetLive⟩ := Option.isSome_iff_exists.mp peerDrained
  obtain ⟨touched, _, touch, _, _, _, _, touchedLog⟩ := @touchConn_unseen _ _ _ peer targetLive
  refine ⟨touched, ?_, ?_⟩
  · simp [forwardInput, firstReady, filling, draining, touch]
  · simp only [touchedLog, drainedLog, filledLog, total, firstRequests, List.append_assoc]

/-- Too many bytes, whoever the peer is. -/
theorem forwardInput_overflow
    {other : Option Nat}
    (live : before.conns id = some conn)
    (narrow : conn.buf.bytes < 2 ^ 31)
    (long : 2 ^ 31 ≤ conn.buf.bytes + padding) :
    forwardInput before 0 id other (firstReady id padding) = none := by
  have overflows := fill_overflow live narrow long
  simp [forwardInput, firstReady, overflows]

/-- Without one, a connection to the host is opened first. -/
theorem handleInput_firstReady
    (live : before.conns id = some conn)
    (older : id < before.allocated)
    (peerHere : ∀ peer ∈ conn.other, (before.conns peer).isSome)
    (counted : padding = 0 ∨ conn.buf.bytes + padding < 2 ^ 31) :
    ∃ result after,
      handleInput memory before 0 id (firstReady id padding) = some (result, after) ∧
        after.log =
          before.log ++ (if conn.other = none then [.opened before.allocated] else []) ++
            firstRequests conn.buf.bytes padding := by
  cases shape : conn.other with
  | some peer =>
      obtain ⟨touched, former, touch, formerLive, sameBuf, stay, _, touchedLog⟩ :=
        touchConn_unseen live
      have peerLive := stay (peerHere peer shape)
      rw [← sameBuf] at counted ⊢
      obtain ⟨after, forwarded, afterLog⟩ := forwardInput_firstReady formerLive peerLive counted
      refine ⟨some peer, after, ?_, ?_⟩
      · simp [handleInput, live, touch, shape, forwarded]
      · simp [afterLog, touchedLog]
  | none =>
      obtain ⟨touched, conn', touch, touchedLive, sameBuf, _, allocated, touchedLog⟩ :=
        @touchConn_unseen _ _ _ id live
      obtain ⟨paired, former, opened, formerLive, pairedBuf, peerLive, pairedLog⟩ :=
        @openconn_paired memory _ _ _ touchedLive (by omega)
      rw [← sameBuf, ← pairedBuf] at counted ⊢
      obtain ⟨after, forwarded, afterLog⟩ := forwardInput_firstReady formerLive peerLive counted
      refine ⟨some touched.allocated, after, ?_, ?_⟩
      · have setup : (firstReady id padding).setup = sampleSetup := rfl
        simp [handleInput, live, touch, shape, setup, opened, forwarded]
      · simp [afterLog, pairedLog, touchedLog, allocated]

/-- Too many bytes, with or without a peer. -/
theorem handleInput_overflow
    (live : before.conns id = some conn)
    (older : id < before.allocated)
    (narrow : conn.buf.bytes < 2 ^ 31)
    (long : 2 ^ 31 ≤ conn.buf.bytes + padding) :
    handleInput memory before 0 id (firstReady id padding) = none := by
  obtain ⟨touched, former, touch, formerLive, sameBuf, _, allocated, _⟩ :=
    @touchConn_unseen _ _ _ id live
  rw [← sameBuf] at narrow long
  cases shape : conn.other with
  | some peer =>
      simp [handleInput, live, touch, shape, forwardInput_overflow formerLive narrow long]
  | none =>
      obtain ⟨paired, again, opened, againLive, pairedBuf, _, _⟩ :=
        @openconn_paired memory _ _ _ formerLive (by omega)
      rw [← pairedBuf] at narrow long
      have setup : (firstReady id padding).setup = sampleSetup := rfl
      simp [handleInput, live, touch, shape, setup, opened,
        forwardInput_overflow againLive narrow long]

end Requests

/-- An accepted connection is there with what memory held. -/
theorem crowd_conns (here : id < count) :
    (crowd memory count).conns id = some (accepted memory id) := by
  simp [crowd, here]

/-- A first read only goes on behind `EPOLLIN`. -/
theorem perform_firstReady {padding : Nat} (here : id < count) :
    perform memory (crowd memory count) (.ready 0 (firstReady id padding)) =
      (handleInput memory (crowd memory count) 0 id (firstReady id padding)).map Prod.snd := by
  have live := @crowd_conns memory count id here
  have good : (firstReady id padding).errOrHup = false := rfl
  have readable : (firstReady id padding).epollin = true := rfl
  have nothingMore (result : Option Nat) (after : State) :
      afterInput after 0 id result (firstReady id padding) = some after := by
    cases result <;> rfl
  change handleConn memory 0 (crowd memory count) id (firstReady id padding) = _
  simp [handleConn, live, good, readable, nothingMore, Option.map_eq_bind, Function.comp_def]

/-- A first read shows the counter, up to `BUFSZ`. -/
theorem firstReady_log
    {padding : Nat}
    (here : id < count)
    (peerHere : ∀ peer ∈ (memory id).other, peer < count)
    (counted : padding = 0 ∨ (memory id).buf.bytes + padding < 2 ^ 31) :
    (perform memory (crowd memory count) (.ready 0 (firstReady id padding))).map State.log =
      some
        ((crowd memory count).log ++
          (if (memory id).other = none then [.opened count] else []) ++
          firstRequests (memory id).buf.bytes padding) := by
  have peersHere : ∀ peer ∈ (accepted memory id).other,
      ((crowd memory count).conns peer).isSome := by
    intro peer shape
    simp [crowd, peerHere peer shape]
  obtain ⟨result, after, handled, afterLog⟩ :=
    @handleInput_firstReady memory _ _ _ padding (crowd_conns here) here peersHere counted
  rw [perform_firstReady here, handled]
  exact congrArg some afterLog

/-- A first read of too many bytes goes wrong. -/
theorem firstReady_overflow
    {padding : Nat}
    (here : id < count)
    (narrow : (memory id).buf.bytes < 2 ^ 31)
    (long : 2 ^ 31 ≤ (memory id).buf.bytes + padding) :
    perform memory (crowd memory count) (.ready 0 (firstReady id padding)) = none := by
  rw [perform_firstReady here,
    @handleInput_overflow memory _ _ _ padding (crowd_conns here) here narrow long]
  rfl

/-! ## Telling memories apart -/

/-- What an event shows of the accepted connections. -/
theorem behaviour_crowd (event : Event) :
    behaviour memory (List.replicate count arrival ++ [event]) =
      (perform memory (crowd memory count) event).map State.log := by
  simp [behaviour, List.foldlM_append, foldlM_arrivals]

section Telling

variable {first second : Nat → Conn}

/-- A hang-up tells two peers apart. -/
theorem other_of_behaviour
    (same : ∀ events, behaviour first events = behaviour second events) (id : Nat) :
    (first id).other = (second id).other := by
  have enough : ∃ count, id < count ∧ (∀ peer ∈ (first id).other, peer < count) ∧
      ∀ peer ∈ (second id).other, peer < count := by
    refine ⟨id + (first id).other.getD 0 + (second id).other.getD 0 + 1, by omega, ?_, ?_⟩
    · intro peer shape
      rw [Option.mem_def.mp shape, Option.getD_some]
      omega
    · intro peer shape
      rw [Option.mem_def.mp shape, Option.getD_some]
      omega
  obtain ⟨count, here, firstHere, secondHere⟩ := enough
  have shown := same (List.replicate count arrival ++ [hangUp id])
  rw [behaviour_crowd, behaviour_crowd, hangUp_log here firstHere,
    hangUp_log here secondHere] at shown
  have prefixes : Function.Injective ((crowd first count).log ++ ·) :=
    fun _ _ => List.append_cancel_left
  exact closings_inj id (Option.map_injective prefixes shown)

/-- So many connections that a number in memory names one of them. -/
theorem enough_connections (id : Nat) (other : Option Nat) :
    ∃ count, id < count ∧ ∀ peer ∈ other, peer < count := by
  refine ⟨id + other.getD 0 + 1, by omega, ?_⟩
  intro peer shape
  rw [Option.mem_def.mp shape, Option.getD_some]
  omega

/-- A first read tells a counter from a higher one, up to the cap. -/
theorem counter_le_of_agrees
    (agree : ∀ events, AgreesOn first second events)
    {id : Nat}
    (sameOther : (first id).other = (second id).other) :
    min (second id).buf.bytes bufsz ≤ min (first id).buf.bytes bufsz := by
  by_contra higher
  -- So many bytes make the higher counter positive, and none if it already is.
  let padding := (1 - (second id).buf.bytes).toNat
  obtain ⟨count, here, peersHere⟩ := enough_connections id (first id).other
  have requests :=
    agree (List.replicate count arrival ++ [.ready 0 (firstReady id padding)]) _ _
      ((behaviour_crowd _).trans (firstReady_log here peersHere (by omega)))
      ((behaviour_crowd _).trans (firstReady_log here (by rwa [← sameOther]) (by omega)))
  rw [← sameOther, show (crowd first count).log = (crowd second count).log from rfl] at requests
  have last := List.append_cancel_left requests
  have positive : 0 < (second id).buf.bytes + padding := by omega
  have two : (2 : Int) ≤ bufsz := by decide
  simp only [firstRequests, if_pos positive, List.append_cancel_left_eq] at last
  split at last
  · simp only [atMostBufsz_eq_min, List.cons.injEq, Observation.requested.injEq,
      and_true] at last
    omega
  · simp at last

/-- With the same peers, counters that no harmless run can tell apart agree behind the cap. -/
theorem sameCounter_of_agrees
    (agree : ∀ events, AgreesOn first second events)
    {id : Nat}
    (sameOther : (first id).other = (second id).other) :
    SameCounter (first id) (second id) :=
  Int.le_antisymm
    (counter_le_of_agrees (fun events one other oneRun otherRun =>
      (agree events other one otherRun oneRun).symm) sameOther.symm)
    (counter_le_of_agrees agree sameOther)

/-- Memories with the same behaviour agree where neither run goes wrong. -/
theorem agrees_of_behaviour
    (same : ∀ events, behaviour first events = behaviour second events) (events : List Event) :
    AgreesOn first second events := by
  intro one other oneRun otherRun
  rw [same events] at oneRun
  exact Option.some.inj (oneRun.symm.trans otherRun)

/-- A first read tells a high counter from a higher one, by what the latter overflows on. -/
theorem counter_not_lt_of_behaviour
    (same : ∀ events, behaviour first events = behaviour second events)
    {id : Nat}
    (narrow : (second id).buf.bytes < 2 ^ 31) :
    ¬ (first id).buf.bytes < (second id).buf.bytes := by
  intro lower
  let padding := (2 ^ 31 - (second id).buf.bytes).toNat
  obtain ⟨count, here, peersHere⟩ := enough_connections id (first id).other
  have shown := same (List.replicate count arrival ++ [.ready 0 (firstReady id padding)])
  rw [behaviour_crowd, behaviour_crowd, firstReady_log here peersHere (by omega),
    firstReady_overflow here narrow (by omega)] at shown
  simp at shown

/-- Memories that cannot be told apart by any run hold the same. -/
theorem sameFresh_of_behaviour
    (same : ∀ events, behaviour first events = behaviour second events)
    {id : Nat}
    (firstInt : (first id).buf.bytes < 2 ^ 31)
    (secondInt : (second id).buf.bytes < 2 ^ 31) :
    SameFresh EqualCounter (first id) (second id) where
  other := other_of_behaviour same id
  counter :=
    Int.le_antisymm
      (Int.not_lt.mp (counter_not_lt_of_behaviour (fun events => (same events).symm) firstInt))
      (Int.not_lt.mp (counter_not_lt_of_behaviour same secondInt))

/-- Memories that agree for every connection are harmless. -/
theorem Harmless.of_sameFresh
    {alike : Conn → Conn → Prop}
    (same : ∀ id, SameFresh alike (first id) (second id))
    (before : State)
    (event : Event) :
    Harmless alike first second before event := by
  unfold Harmless
  split
  · trivial
  · exact same before.allocated
  · exact (same before.allocated).counter

/-- And so is every run with them. -/
theorem HarmlessAlong.of_sameFresh
    {alike : Conn → Conn → Prop}
    (same : ∀ id, SameFresh alike (first id) (second id))
    (events : List Event) :
    HarmlessAlong alike first second events :=
  fun _ event _ before _ _ => .of_sameFresh same before event

/-- Runs of harmless events look the same, unless one goes wrong. -/
theorem agrees_of_harmless
    {events : List Event}
    (harmless : HarmlessAlong SameCounter first second events) :
    AgreesOn first second events := by
  intro one other oneRun otherRun
  obtain ⟨oneState, oneReached, rfl⟩ := Option.map_eq_some_iff.mp oneRun
  obtain ⟨otherState, otherReached, rfl⟩ := Option.map_eq_some_iff.mp otherRun
  have same := same_of_harmless harmless oneReached otherReached
  rw [← State.capped_log oneState, same, State.capped_log]

end Telling

/-- What `malloc` left in a counter is an `int`. -/
def HoldsInts (memory : Nat → Conn) : Prop :=
  ∀ id, -2 ^ 31 ≤ (memory id).buf.bytes ∧ (memory id).buf.bytes < 2 ^ 31

/-- Memory that held a dangling peer where the connection to the host comes to be. -/
def sampleMemory (id : Nat) : Conn :=
  { other := if id = 1 then some 9 else none
    buf := { bytes := 0, content := [7] }
    expire := 3 }

/-- Memory that held a counter of 5. -/
def leftover (id : Nat) : Conn :=
  { zeroed id with buf := { bytes := 5, content := [] } }

end Sysprog.Proxy
