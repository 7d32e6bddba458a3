import Mathlib.Algebra.Group.Nat.Defs
import Mathlib.Algebra.Ring.Int.Defs
import Mathlib.Logic.Function.Basic
import Sysprog.Execution

namespace Sysprog.Proxy

open Execution

/-!
# The port forwarder of `proxy/proxy.c`

A connection is a socket together with the pipe that holds what was read from it and not
yet written to its peer.  The main loop handles the events `epoll_wait` returns, one
after the other, and then closes the connections that have timed out.  What the system
calls answer comes with the events.

Every `struct conn` has a number of its own, also where `malloc` returns the same memory
again; the number stands for its socket and the two ends of its pipe too.  `none` stands
for an access to memory that is not there (a freed connection, a null pointer, a list
node that was never linked), for a failed assertion, for a byte counter that overflows,
and for a system call whose answer is not given or not possible.
-/

/-- `connection_timeout`, in seconds. -/
def connectionTimeout : Int := 5

/-- `BUFSZ`. -/
def bufsz : Nat := 16384

/-- A `struct buffer`: the counter, an `int`, and what the pipe holds. -/
structure Buffer where
  bytes : Int
  content : List UInt8
deriving DecidableEq

/-- `buf->bytes += n` behind a `splice` that put `data` into the pipe; `none` on overflow. -/
def Buffer.gain (buf : Buffer) (data : List UInt8) : Option Buffer :=
  if buf.bytes + data.length < 2 ^ 31 then
    some { bytes := buf.bytes + data.length, content := buf.content ++ data }
  else
    none

/-- A `struct conn`; `none` is the null pointer. -/
structure Conn where
  other : Option Nat
  buf : Buffer
  expire : Int
deriving DecidableEq

/-- A call of `splice`: it moves something, would block, or fails. -/
inductive Splice (Amount : Type) where
  | moved (amount : Amount)
  | again
  | failed
deriving DecidableEq

/-! ## Moving data -/

/--
What a call of `move_data_in` or `move_data_out` does: its result, the buffer behind it,
the bytes it moved, and how many bytes it asked `splice` for each time.
-/
structure Transfer where
  result : Bool
  buf : Buffer
  data : List UInt8
  requests : List Int

/-- What happens before the rest of a transfer. -/
def Transfer.behind (rest : Transfer) (data : List UInt8) (request : Int) : Transfer :=
  { rest with data := data ++ rest.data, requests := request :: rest.requests }

/-- `move_data_in`, from a socket to the pipe. -/
def moveDataIn (buf : Buffer) : List (Splice (List UInt8)) → Option Transfer
  | [] => none
  | .moved data :: rest =>
      if data = [] then
        some { result := false, buf := buf, data := [], requests := [bufsz] }
      else if data.length ≤ bufsz then do
        let buf ← buf.gain data
        let transfer ← moveDataIn buf rest
        return transfer.behind data bufsz
      else
        none
  | .again :: _ => some { result := true, buf := buf, data := [], requests := [bufsz] }
  | .failed :: _ => some { result := false, buf := buf, data := [], requests := [bufsz] }

/-- How many bytes `move_data_out` asks for. -/
def atMostBufsz (bytes : Int) : Int :=
  if bytes > bufsz then bufsz else bytes

/-- `move_data_out`, from the pipe to a socket, first byte first. -/
def moveDataOut (buf : Buffer) : List (Splice Nat) → Option Transfer
  | [] =>
      if buf.bytes > 0 then
        none
      else
        some { result := true, buf := buf, data := [], requests := [] }
  | splice :: rest =>
      if buf.bytes > 0 then
        let bytes := atMostBufsz buf.bytes
        match splice with
        | .moved n =>
            if n = 0 then
              some { result := true, buf := buf, data := [], requests := [bytes] }
            else if n ≤ bytes ∧ n ≤ buf.content.length then do
              let transfer ←
                moveDataOut { bytes := buf.bytes - n, content := buf.content.drop n } rest
              return transfer.behind (buf.content.take n) bytes
            else
              none
        | .again => some { result := true, buf := buf, data := [], requests := [bytes] }
        | .failed => some { result := false, buf := buf, data := [], requests := [bytes] }
      else
        some { result := true, buf := buf, data := [], requests := [] }

/-! ## Connections -/

/-- What can be seen of the forwarder from outside. -/
inductive Observation where
  | opened (conn : Nat)
  | requested (bytes : Int)
  | closed (conn : Nat)
deriving DecidableEq

/--
The connections in memory and the variables of the program.  The last three fields are
records the program does not keep: what was read from each socket, what of it was written
to its peer, and what could be seen so far.
-/
structure State where
  conns : Nat → Option Conn
  expireList : List Nat
  numEvents : Int
  allocated : Nat
  received : Nat → List UInt8
  delivered : Nat → List UInt8
  log : List Observation

namespace State

/-- Only the listening socket has been added. -/
def initial : State where
  conns := fun _ => none
  expireList := []
  numEvents := 1
  allocated := 0
  received := fun _ => []
  delivered := fun _ => []
  log := []

/-- Assign to a connection. -/
def setConn (state : State) (id : Nat) (conn : Conn) : State :=
  { state with conns := Function.update state.conns id (some conn) }

/-- The state after a transfer from a socket. -/
def afterIn (state : State) (id : Nat) (conn : Conn) (transfer : Transfer) : State :=
  { state.setConn id { conn with buf := transfer.buf } with
    received := Function.update state.received id (state.received id ++ transfer.data)
    log := state.log ++ transfer.requests.map .requested }

/-- The state after a transfer to the peer of a connection. -/
def afterOut (state : State) (id : Nat) (conn : Conn) (transfer : Transfer) : State :=
  { state.setConn id { conn with buf := transfer.buf } with
    delivered := Function.update state.delivered id (state.delivered id ++ transfer.data)
    log := state.log ++ transfer.requests.map .requested }

end State

/-- `move_data_in (conn->fd, &conn->buf)`. -/
def fill (state : State) (id : Nat) (results : List (Splice (List UInt8))) :
    Option (Bool × State) := do
  let conn ← state.conns id
  let transfer ← moveDataIn conn.buf results
  return (transfer.result, state.afterIn id conn transfer)

/-- `move_data_out (&conn->buf, target->fd)`. -/
def drain (state : State) (id target : Nat) (results : List (Splice Nat)) :
    Option (Bool × State) := do
  let conn ← state.conns id
  let _ ← state.conns target
  let transfer ← moveDataOut conn.buf results
  return (transfer.result, state.afterOut id conn transfer)

/-- `delconn`, with the assertion of `epoll_del`. -/
def delconn (state : State) (id : Nat) : Option State := do
  let _ ← state.conns id
  let numEvents := state.numEvents - 1
  if numEvents ≥ 0 then
    return { state with
      conns := Function.update state.conns id none
      expireList := state.expireList.erase id
      numEvents := numEvents
      log := state.log ++ [.closed id] }
  else
    none

/-- `closeconn`. -/
def closeconn (state : State) (id : Nat) : Option State := do
  let conn ← state.conns id
  let state ←
    match conn.other with
    | some other => delconn state other
    | none => some state
  delconn state id

/-- `touch_conn`. -/
def touchConn (state : State) (id : Nat) (now : Int) : Option State := do
  let conn ← state.conns id
  return { state.setConn id { conn with expire := now + connectionTimeout } with
    expireList := state.expireList.erase id ++ [id] }

/-- What the system calls that make a connection answer. -/
structure Setup where
  accepted : Bool
  connected : Bool
  piped : Bool
  registered : Bool

/--
`newconn`, with what `malloc` left in the memory of each connection.  Where `pipe2` or
`epoll_ctl` fails, `delconn` is called on a connection that is in no list, and `list_del`
follows pointers that were never written.  Memory that is zero holds null pointers there.
-/
def newconn (memory : Nat → Conn) (state : State) (setup : Setup) (now : Int) :
    Option (Nat × State) :=
  if setup.piped ∧ setup.registered then
    let id := state.allocated
    let conn := memory id
    some (id,
      { state.setConn id
          { conn with
            buf := { conn.buf with content := [] }
            expire := now + connectionTimeout } with
        expireList := state.expireList ++ [id]
        numEvents := state.numEvents + 1
        allocated := state.allocated + 1
        log := state.log ++ [.opened id] })
  else
    none

/-- `new_request`. -/
def newRequest (memory : Nat → Conn) (state : State) (setup : Setup) (now : Int) :
    Option State :=
  if setup.accepted then do
    let (_, state) ← newconn memory state setup now
    return state
  else
    some state

/-- `openconn`; the result is null if there is no socket or `connect` fails. -/
def openconn (memory : Nat → Conn) (state : State) (setup : Setup) (other : Nat) (now : Int) :
    Option (Option Nat × State) :=
  if setup.connected then do
    let (id, state) ← newconn memory state setup now
    let conn ← state.conns id
    let state := state.setConn id { conn with other := some other }
    let former ← state.conns other
    return (some id, state.setConn other { former with other := some id })
  else
    some (none, state)

/-! ## Events -/

/--
An entry of `events`, with the answers of the system calls its handling makes.  `conn` is
`none` for the listening socket.  `epollout` is what the second look at the entry finds,
which `epoll_add` may have moved by then.
-/
structure Ready where
  conn : Option Nat
  errOrHup : Bool
  epollin : Bool
  epollout : Bool
  setup : Setup
  inputs : List (Splice (List UInt8))
  outputs : List (Splice Nat)
  backOutputs : List (Splice Nat)
  /-- `len`, which stays 0 if `ioctl` fails. -/
  pending : Int
  backInputs : List (Splice (List UInt8))

/-- Behind `EPOLLIN`, with `other` known; no `other` in the result comes with `continue`. -/
def forwardInput (state : State) (now : Int) (id : Nat) (other : Option Nat) (ready : Ready) :
    Option (Option Nat × State) := do
  let (input, state) ← fill state id ready.inputs
  let other ← other
  let (output, state) ← drain state id other ready.outputs
  if input && output then
    let state ← touchConn state other now
    return (some other, state)
  else
    let state ← closeconn state id
    return (none, state)

/-- The part of `main` behind `EPOLLIN`. -/
def handleInput (memory : Nat → Conn) (state : State) (now : Int) (id : Nat) (ready : Ready) :
    Option (Option Nat × State) := do
  let conn ← state.conns id
  let state ← touchConn state id now
  match conn.other with
  | some other => forwardInput state now id (some other) ready
  | none => do
      let (other, state) ← openconn memory state ready.setup id now
      forwardInput state now id other ready

/-- Behind `EPOLLOUT`: ask for input that arrived while the pipe was full. -/
def refill (state : State) (other : Nat) (ready : Ready) : Option State := do
  let _ ← state.conns other
  if ready.pending > 0 then
    let (input, state) ← fill state other ready.backInputs
    if input then some state else closeconn state other
  else
    some state

/-- The part of `main` behind `EPOLLOUT`. -/
def handleOutput (state : State) (now : Int) (id other : Nat) (ready : Ready) :
    Option State := do
  let (output, state) ← drain state other id ready.backOutputs
  let state ← if output then touchConn state id now else delconn state id
  refill state other ready

/-- The rest of the body of the loop, if there is an `other` and no `continue`. -/
def afterInput (state : State) (now : Int) (id : Nat) (other : Option Nat) (ready : Ready) :
    Option State :=
  match other with
  | some other => if ready.epollout then handleOutput state now id other ready else some state
  | none => some state

/-- The body of the loop over `events` in `main`, for an entry with a connection. -/
def handleConn (memory : Nat → Conn) (now : Int) (state : State) (id : Nat) (ready : Ready) :
    Option State := do
  let conn ← state.conns id
  if ready.errOrHup then
    closeconn state id
  else if ready.epollin then
    let (other, state) ← handleInput memory state now id ready
    afterInput state now id other ready
  else
    afterInput state now id conn.other ready

/-- The body of the loop over `events` in `main`. -/
def handleEvent (memory : Nat → Conn) (now : Int) (state : State) (ready : Ready) :
    Option State :=
  match ready.conn with
  | none =>
      if ready.epollin then newRequest memory state ready.setup now else some state
  | some id => handleConn memory now state id ready

/-! ## Expiry -/

/-- Read `node->next` in `expire_list`; `none` is its head. -/
def State.following (state : State) : Option Nat → Option (Option Nat)
  | none => some state.expireList.head?
  | some id => do
      let _ ← state.conns id
      return (state.expireList.dropWhile (· ≠ id)).tail.head?

/-- The value of an expression of type `time_t` when it is returned as an `int`. -/
def toInt (value : Int) : Int :=
  value.bmod (2 ^ 32)

/-- The loop of `expire_connections` over `conn` and `tmp`. -/
def expireLoop (now : Int) : Nat → Option Nat → Option Nat → State → Option (Int × State)
  | 0, _, _, _ => none
  | _ + 1, none, _, state => some (-1, state)
  | rounds + 1, some id, tmp, state => do
      let conn ← state.conns id
      if conn.expire > now then
        return (toInt ((conn.expire - now) * 1000), state)
      else
        let state ← closeconn state id
        let following ← state.following tmp
        expireLoop now rounds tmp following state

/-- `expire_connections`. -/
def expireConnections (state : State) (now : Int) : Option (Int × State) := do
  let first ← state.following none
  let tmp ← state.following first
  expireLoop now (state.expireList.length + 1) first tmp state

/-! ## Runs -/

/-- An event is handled, or the timeouts are looked at behind the events of a batch. -/
inductive Event where
  | ready (now : Int) (entry : Ready)
  | expire (now : Int)

/-- Carry out what the main loop does next. -/
def perform (memory : Nat → Conn) (state : State) : Event → Option State
  | .ready now entry => handleEvent memory now state entry
  | .expire now => (expireConnections state now).map Prod.snd

/-- One event of a run. -/
def Step (memory : Nat → Conn) (before : State) (event : Event) (after : State) : Prop :=
  perform memory before event = some after

/-- Fresh memory that is zero. -/
def zeroed : Nat → Conn :=
  fun _ => { other := none, buf := { bytes := 0, content := [] }, expire := 0 }

end Sysprog.Proxy
