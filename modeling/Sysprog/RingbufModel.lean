import Sysprog.ByteMemory
import Sysprog.Execution
import Sysprog.MachineWord

namespace Sysprog.ChunkRing

open ByteMemory Execution MachineWord

/-!
# The single-producer single-consumer ring of `producer/producer.c`

Chunks are stored in a ring of power-of-two size as an element header followed by the
padded data.  A chunk never wraps: when the end of the ring is too short, a gap
element marks it as unused and the chunk goes to the start.

Producer and consumer run concurrently.  Every load and store of `head` and `tail`,
every store to an element header and every access to a data byte is one step; what
a thread computes between them is part of the step before.
-/

/-- The macro `RINGBUF_PAD`; its mask `~7U` is an `unsigned int`. -/
def ringbufPad (size : Nat) : Nat :=
  add size 7 &&& 0xFFFFFFF8

/-- `ringbuf_t`. -/
structure Ringbuf where
  size : Nat
  mask : Nat
  rsvd : Nat
  gapd : Nat
  head : Nat
  tail : Nat
  buf : Memory

/-- `ringbuf_init`; the other fields keep what memory held. -/
def ringbufInit (ringbuf : Ringbuf) (bodySize : Nat) : Ringbuf :=
  { ringbuf with head := 0, tail := 0, size := bodySize, mask := sub bodySize 1 }

/-- The field `size` of the element at an offset of `buf`. -/
def elementSize (buf : Memory) (element : Nat) : Nat :=
  decode (read buf element 4)

/-- The field `gap` of the element at an offset of `buf`. -/
def elementGap (buf : Memory) (element : Nat) : Nat :=
  decode (read buf (element + 4) 4)

/-! ## Producer -/

/-- Note a reservation. -/
def Ringbuf.reserve (ringbuf : Ringbuf) (rsvd gapd : Nat) : Ringbuf :=
  { ringbuf with rsvd := rsvd, gapd := gapd }

/-- The writable space between the two indices. -/
def writableSpace (ringbuf : Ringbuf) (head tail : Nat) : Nat :=
  if head > tail then
    sub (add (sub tail head) ringbuf.size &&& ringbuf.mask) 1
  else if head < tail then
    sub (sub tail head) 1
  else
    sub ringbuf.size 1

/--
`ringbuf_write_request_max` with the indices it loaded.  The pointer it returns is an
offset into `buf`; `*maximum` is the field `rsvd` of the result.
-/
def ringbufWriteRequestMax (ringbuf : Ringbuf) (head tail minimum : Nat) :
    Ringbuf × Option Nat :=
  let padded := add 16 (ringbufPad minimum)
  let space := writableSpace ringbuf head tail
  let stop := add head space
  if stop > ringbuf.size then
    let len1 := sub ringbuf.size head
    if len1 < padded then
      let len2 := stop &&& ringbuf.mask
      if len2 < padded then
        (ringbuf.reserve 0 0, none)
      else
        (ringbuf.reserve len2 len1, some 8)
    else
      (ringbuf.reserve len1 0, some (head + 8))
  else if space < padded then
    (ringbuf.reserve 0 0, none)
  else
    (ringbuf.reserve space 0, some (head + 8))

/-- The stores to element headers in `ringbuf_write_advance`, in order. -/
def headerStores (ringbuf : Ringbuf) (head written : Nat) : List (Nat × List UInt8) :=
  if ringbuf.gapd > 0 then
    [(head, encode 4 (sub ringbuf.gapd 8)), (head + 4, encode 4 1),
      (0, encode 4 written), (4, encode 4 0)]
  else
    [(head, encode 4 written), (head + 4, encode 4 0)]

/-- The head that `ringbuf_write_advance` publishes. -/
def advancedHead (ringbuf : Ringbuf) (head written : Nat) : Nat :=
  add head (add (add ringbuf.gapd 8) (ringbufPad written)) &&& ringbuf.mask

/-- Where the producer stands. -/
inductive Producer where
  | idle
  | loadedHead (minimum head : Nat)
  | reserved (minimum pointer : Nat)
  | storing (head written : Nat) (chunk : List UInt8) (stores : List (Nat × List UInt8))

/-! ## Consumer -/

/-- The readable space between the two indices. -/
def readableSpace (ringbuf : Ringbuf) (head tail : Nat) : Nat :=
  if head > tail then
    sub head tail
  else
    add (sub head tail) ringbuf.size &&& ringbuf.mask

/--
Where the consumer stands: in `ringbuf_read_request` before it loads the head, reads
the field `gap`, skips the gap or reads the field `size`; holding a chunk with some of
its bytes read; or in `ringbuf_read_advance` before each of its accesses.
-/
inductive Consumer where
  | idle
  | loadedTail (tail : Nat)
  | testing (tail : Nat)
  | skipping (tail : Nat)
  | sizing (element : Nat)
  | holding (pointer toread : Nat) (bytes : List UInt8)
  | advancing
  | measuring (tail : Nat)
  | releasing (tail : Nat)

/-- What the consumer does once it has loaded the head. -/
def afterLoadingHead (ringbuf : Ringbuf) (head tail : Nat) : Consumer :=
  let space := readableSpace ringbuf head tail
  if space > 0 then
    if add tail space > ringbuf.size then
      .testing tail
    else
      .sizing tail
  else
    .idle

/-! ## The two threads -/

/--
The ring with its two threads.  `advanced` are the chunks the producer has published,
`consumed` those the consumer has read, both in order.
-/
structure System where
  ringbuf : Ringbuf
  producer : Producer
  consumer : Consumer
  advanced : List (List UInt8)
  consumed : List (List UInt8)

/-- Both threads idle. -/
def System.initial (ringbuf : Ringbuf) : System where
  ringbuf := ringbuf
  producer := .idle
  consumer := .idle
  advanced := []
  consumed := []

/-- The steps of the producer.  A reservation may be given up by a new request. -/
inductive ProducerStep : System → System → Prop where
  | loadHead
      {system : System}
      {minimum : Nat}
      (free :
        system.producer = .idle ∨
          ∃ former pointer, system.producer = .reserved former pointer)
      (word : minimum + 7 < 2 ^ 32) :
      ProducerStep system
        { system with producer := .loadedHead minimum system.ringbuf.head }
  | loadTail
      {system : System}
      {minimum head : Nat}
      (here : system.producer = .loadedHead minimum head) :
      ProducerStep system
        { system with
          ringbuf :=
            (ringbufWriteRequestMax system.ringbuf head system.ringbuf.tail minimum).1
          producer :=
            match (ringbufWriteRequestMax system.ringbuf head system.ringbuf.tail minimum).2 with
            | none => .idle
            | some pointer => .reserved minimum pointer }
  | fill
      {system : System}
      {minimum pointer index : Nat}
      (here : system.producer = .reserved minimum pointer)
      (inside : index < minimum)
      (byte : UInt8) :
      ProducerStep system
        { system with
          ringbuf :=
            { system.ringbuf with buf := write system.ringbuf.buf (pointer + index) [byte] } }
  | advance
      {system : System}
      {minimum pointer written : Nat}
      (here : system.producer = .reserved minimum pointer)
      (requested : written ≤ minimum)
      (asserted : written ≤ system.ringbuf.rsvd) :
      ProducerStep system
        { system with
          producer :=
            .storing system.ringbuf.head written (read system.ringbuf.buf pointer written)
              (headerStores system.ringbuf system.ringbuf.head written) }
  | store
      {system : System}
      {head written address : Nat}
      {chunk bytes : List UInt8}
      {stores : List (Nat × List UInt8)}
      (here : system.producer = .storing head written chunk ((address, bytes) :: stores)) :
      ProducerStep system
        { system with
          ringbuf := { system.ringbuf with buf := write system.ringbuf.buf address bytes }
          producer := .storing head written chunk stores }
  | publish
      {system : System}
      {head written : Nat}
      {chunk : List UInt8}
      (here : system.producer = .storing head written chunk []) :
      ProducerStep system
        { system with
          ringbuf :=
            { system.ringbuf with head := advancedHead system.ringbuf head written }
          producer := .idle
          advanced := system.advanced ++ [chunk] }

/-- The steps of the consumer. -/
inductive ConsumerStep : System → System → Prop where
  | loadTail
      {system : System}
      (here : system.consumer = .idle) :
      ConsumerStep system { system with consumer := .loadedTail system.ringbuf.tail }
  | loadHead
      {system : System}
      {tail : Nat}
      (here : system.consumer = .loadedTail tail) :
      ConsumerStep system
        { system with
          consumer := afterLoadingHead system.ringbuf system.ringbuf.head tail }
  | testGap
      {system : System}
      {tail : Nat}
      (here : system.consumer = .testing tail) :
      ConsumerStep system
        { system with
          consumer :=
            if elementGap system.ringbuf.buf tail ≠ 0 then .skipping tail else .sizing tail }
  | skipGap
      {system : System}
      {tail : Nat}
      (here : system.consumer = .skipping tail) :
      ConsumerStep system
        { system with
          ringbuf :=
            { system.ringbuf with
              tail := add tail (sub system.ringbuf.size tail) &&& system.ringbuf.mask }
          consumer := .sizing 0 }
  | readSize
      {system : System}
      {element : Nat}
      (here : system.consumer = .sizing element) :
      ConsumerStep system
        { system with
          consumer := .holding (element + 8) (elementSize system.ringbuf.buf element) [] }
  | readByte
      {system : System}
      {pointer toread : Nat}
      {bytes : List UInt8}
      (here : system.consumer = .holding pointer toread bytes)
      (more : bytes.length < toread) :
      ConsumerStep system
        { system with
          consumer :=
            .holding pointer toread
              (bytes ++ [system.ringbuf.buf (pointer + bytes.length)]) }
  | finish
      {system : System}
      {pointer toread : Nat}
      {bytes : List UInt8}
      (here : system.consumer = .holding pointer toread bytes)
      (complete : bytes.length = toread) :
      ConsumerStep system
        { system with
          consumer := .advancing
          consumed := system.consumed ++ [bytes] }
  | reloadTail
      {system : System}
      (here : system.consumer = .advancing) :
      ConsumerStep system { system with consumer := .measuring system.ringbuf.tail }
  | rereadSize
      {system : System}
      {tail : Nat}
      (here : system.consumer = .measuring tail) :
      ConsumerStep system
        { system with
          consumer :=
            .releasing
              (add tail (add 8 (ringbufPad (elementSize system.ringbuf.buf tail))) &&&
                system.ringbuf.mask) }
  | storeTail
      {system : System}
      {tail : Nat}
      (here : system.consumer = .releasing tail) :
      ConsumerStep system
        { system with
          ringbuf := { system.ringbuf with tail := tail }
          consumer := .idle }

/-- Which thread moves. -/
inductive Role where
  | producer
  | consumer
  deriving Repr, DecidableEq

/-- One step of either thread. -/
inductive Step : System → Role → System → Prop where
  | producer
      {before after : System}
      (step : ProducerStep before after) :
      Step before .producer after
  | consumer
      {before after : System}
      (step : ConsumerStep before after) :
      Step before .consumer after

end Sysprog.ChunkRing
