import Sysprog.ReleaseAcquire
import Sysprog.RingbufModel

namespace Sysprog.ChunkRing

open ByteMemory Execution MachineWord ReleaseAcquire

/-!
# The ring under the memory orders of its loads and stores

`ringbuf_init` chooses the orders with which the two threads publish and look up `head` and
`tail`: release and acquire, or relaxed ones.  Here a thread may load an old value of the
index the other one stores, and plain accesses to the ring are checked for data races.  Its
own index a thread loads relaxed, which gives it the value it stored last.
-/

/--
The ring with its two threads.  The fields `head` and `tail` of `ringbuf` are the values
stored last; `heads` and `tails` are all of them.  `written` and `readAt` stamp the bytes of
the ring with the accesses of the producer and of the consumer, and `raced` tells whether
two of them were not ordered.
-/
structure OrderedSystem where
  ringbuf : Ringbuf
  acquire : MemoryOrder
  release : MemoryOrder
  heads : Atomic Nat
  tails : Atomic Nat
  written : Stamps
  readAt : Stamps
  raced : Bool
  producer : Producer
  consumer : Consumer
  advanced : List (List UInt8)
  consumed : List (List UInt8)

/-- Both threads idle after `ringbuf_init`, which also chooses the memory orders. -/
def OrderedSystem.initial (ringbuf : Ringbuf) (releaseAndAcquire : Bool) : OrderedSystem where
  ringbuf := ringbuf
  acquire := if releaseAndAcquire then .acquire else .relaxed
  release := if releaseAndAcquire then .release else .relaxed
  heads := .initial ringbuf.head
  tails := .initial ringbuf.tail
  written := fun _ => none
  readAt := fun _ => none
  raced := false
  producer := .idle
  consumer := .idle
  advanced := []
  consumed := []

namespace OrderedSystem

variable (system : OrderedSystem)

/-- A load of one thread synchronizes with the store of the other one that it returns. -/
def synchronizes : Bool :=
  system.acquire == .acquire && system.release == .release

/-- A plain store of the producer. -/
def write (address : Nat) (bytes : List UInt8) : OrderedSystem :=
  { system with
    ringbuf := { system.ringbuf with buf := ByteMemory.write system.ringbuf.buf address bytes }
    raced := system.raced || system.readAt.conflict address bytes.length system.tails.known
    written := system.written.mark address bytes.length system.heads.epoch }

/-- A plain load of the consumer. -/
def read (address length : Nat) : OrderedSystem :=
  { system with
    raced := system.raced || system.written.conflict address length system.heads.known
    readAt := system.readAt.mark address length system.tails.epoch }

/-- The producer stores `head`. -/
def storeHead (head : Nat) : OrderedSystem :=
  { system with
    ringbuf := { system.ringbuf with head := head }
    heads := system.heads.store head }

/-- The consumer stores `tail`. -/
def storeTail (tail : Nat) : OrderedSystem :=
  { system with
    ringbuf := { system.ringbuf with tail := tail }
    tails := system.tails.store tail }

end OrderedSystem

/-- The steps of the producer.  Its load of `tail` may return an old value. -/
inductive OrderedProducerStep : OrderedSystem → OrderedSystem → Prop where
  | loadHead
      {system : OrderedSystem}
      {minimum : Nat}
      (free :
        system.producer = .idle ∨
          ∃ former pointer, system.producer = .reserved former pointer)
      (word : minimum + 7 < 2 ^ 32) :
      OrderedProducerStep system
        { system with producer := .loadedHead minimum system.ringbuf.head }
  | loadTail
      {system : OrderedSystem}
      {minimum head index tail : Nat}
      (here : system.producer = .loadedHead minimum head)
      (may : system.tails.MayLoad index tail) :
      OrderedProducerStep system
        { system with
          tails := system.tails.load may system.synchronizes
          ringbuf := (ringbufWriteRequestMax system.ringbuf head tail minimum).1
          producer :=
            match (ringbufWriteRequestMax system.ringbuf head tail minimum).2 with
            | none => .idle
            | some pointer => .reserved minimum pointer }
  | fill
      {system : OrderedSystem}
      {minimum pointer index : Nat}
      (here : system.producer = .reserved minimum pointer)
      (inside : index < minimum)
      (byte : UInt8) :
      OrderedProducerStep system (system.write (pointer + index) [byte])
  | advance
      {system : OrderedSystem}
      {minimum pointer written : Nat}
      (here : system.producer = .reserved minimum pointer)
      (requested : written ≤ minimum)
      (asserted : written ≤ system.ringbuf.rsvd) :
      OrderedProducerStep system
        { system with
          producer :=
            .storing system.ringbuf.head written (read system.ringbuf.buf pointer written)
              (headerStores system.ringbuf system.ringbuf.head written) }
  | store
      {system : OrderedSystem}
      {head written address : Nat}
      {chunk bytes : List UInt8}
      {stores : List (Nat × List UInt8)}
      (here : system.producer = .storing head written chunk ((address, bytes) :: stores)) :
      OrderedProducerStep system
        { system.write address bytes with producer := .storing head written chunk stores }
  | publish
      {system : OrderedSystem}
      {head written : Nat}
      {chunk : List UInt8}
      (here : system.producer = .storing head written chunk []) :
      OrderedProducerStep system
        { system.storeHead (advancedHead system.ringbuf head written) with
          producer := .idle
          advanced := system.advanced ++ [chunk] }

/-- The steps of the consumer.  Its load of `head` may return an old value. -/
inductive OrderedConsumerStep : OrderedSystem → OrderedSystem → Prop where
  | loadTail
      {system : OrderedSystem}
      (here : system.consumer = .idle) :
      OrderedConsumerStep system { system with consumer := .loadedTail system.ringbuf.tail }
  | loadHead
      {system : OrderedSystem}
      {index head tail : Nat}
      (here : system.consumer = .loadedTail tail)
      (may : system.heads.MayLoad index head) :
      OrderedConsumerStep system
        { system with
          heads := system.heads.load may system.synchronizes
          consumer := afterLoadingHead system.ringbuf head tail }
  | testGap
      {system : OrderedSystem}
      {tail : Nat}
      (here : system.consumer = .testing tail) :
      OrderedConsumerStep system
        { system.read (tail + 4) 4 with
          consumer :=
            if elementGap system.ringbuf.buf tail ≠ 0 then .skipping tail else .sizing tail }
  | skipGap
      {system : OrderedSystem}
      {tail : Nat}
      (here : system.consumer = .skipping tail) :
      OrderedConsumerStep system
        { system.storeTail
            (add tail (sub system.ringbuf.size tail) &&& system.ringbuf.mask) with
          consumer := .sizing 0 }
  | readSize
      {system : OrderedSystem}
      {element : Nat}
      (here : system.consumer = .sizing element) :
      OrderedConsumerStep system
        { system.read element 4 with
          consumer := .holding (element + 8) (elementSize system.ringbuf.buf element) [] }
  | readByte
      {system : OrderedSystem}
      {pointer toread : Nat}
      {bytes : List UInt8}
      (here : system.consumer = .holding pointer toread bytes)
      (more : bytes.length < toread) :
      OrderedConsumerStep system
        { system.read (pointer + bytes.length) 1 with
          consumer :=
            .holding pointer toread
              (bytes ++ [system.ringbuf.buf (pointer + bytes.length)]) }
  | finish
      {system : OrderedSystem}
      {pointer toread : Nat}
      {bytes : List UInt8}
      (here : system.consumer = .holding pointer toread bytes)
      (complete : bytes.length = toread) :
      OrderedConsumerStep system
        { system with
          consumer := .advancing
          consumed := system.consumed ++ [bytes] }
  | reloadTail
      {system : OrderedSystem}
      (here : system.consumer = .advancing) :
      OrderedConsumerStep system { system with consumer := .measuring system.ringbuf.tail }
  | rereadSize
      {system : OrderedSystem}
      {tail : Nat}
      (here : system.consumer = .measuring tail) :
      OrderedConsumerStep system
        { system.read tail 4 with
          consumer :=
            .releasing
              (add tail (add 8 (ringbufPad (elementSize system.ringbuf.buf tail))) &&&
                system.ringbuf.mask) }
  | storeTail
      {system : OrderedSystem}
      {tail : Nat}
      (here : system.consumer = .releasing tail) :
      OrderedConsumerStep system { system.storeTail tail with consumer := .idle }

/-- One step of either thread. -/
inductive OrderedStep : OrderedSystem → Role → OrderedSystem → Prop where
  | producer
      {before after : OrderedSystem}
      (step : OrderedProducerStep before after) :
      OrderedStep before .producer after
  | consumer
      {before after : OrderedSystem}
      (step : OrderedConsumerStep before after) :
      OrderedStep before .consumer after

end Sysprog.ChunkRing
