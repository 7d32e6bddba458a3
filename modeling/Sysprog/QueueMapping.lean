import Sysprog.AddressSpace
import Sysprog.QueueModel

namespace Sysprog.QueueMapping

open AddressSpace ByteMemory Execution MachineWord MirroredBuffer

/-!
# How `queue_init` and `queue_destroy` map the buffer

`queue_init` reserves pages and maps a fresh file over them twice; `queue_destroy` takes
everything back.  A process may have any number of queues, and pages and descriptors of its
own beside them.  The answers of the kernel are parameters; an error ends the process, so
the calls are partial functions.

The record of a run holds the cells of every queue and what is open and mapped apart from
the queues.
-/

/-- The memory of a process and its descriptors; files are numbered as they are created. -/
structure Process where
  space : Space Nat
  fds : Nat → Option Nat
  files : Nat

/-- The members of `queue_t` that say where the buffer is. -/
structure Mapping where
  fd : Nat
  buffer : Nat
  size : Nat
  deriving DecidableEq

/-- What the calls in `queue_init` return; `true` is success. -/
structure InitAnswers where
  memfdCreate : Option Nat
  ftruncate : Bool
  reserve : Option Nat
  first : Bool
  second : Bool
  mutexInit : Bool
  readableInit : Bool
  writeableInit : Bool

/-- What the calls in `queue_destroy` return. -/
structure DestroyAnswers where
  second : Bool
  first : Bool
  close : Bool
  mutexDestroy : Bool
  readableDestroy : Bool
  writeableDestroy : Bool

/-- The pages of a length. -/
def pageCount (pageSize length : Nat) : Nat :=
  (length + (pageSize - 1)) / pageSize

namespace Process

/-- `memfd_create`: a new, empty file behind a descriptor. -/
def memfdCreate (process : Process) (fd : Nat) : Process where
  space :=
    { process.space with
      contents := Function.update process.space.contents process.files fun _ => 0 }
  fds := Function.update process.fds fd (some process.files)
  files := process.files + 1

/-- `mmap` with `PROT_NONE` and `MAP_ANONYMOUS`. -/
def reserve (pageSize : Nat) (process : Process) (address length : Nat) : Process :=
  { process with
    space :=
      process.space.mapPages (address / pageSize) (pageCount pageSize length) fun _ =>
        some .reserved }

/-- `mmap` with `MAP_SHARED` and `MAP_FIXED`, from the start of the file. -/
def mapShared (pageSize : Nat) (process : Process) (address length fd : Nat) : Process :=
  { process with
    space :=
      process.space.mapPages (address / pageSize) (pageCount pageSize length) fun page =>
        (process.fds fd).map fun file => .file file page }

/-- `munmap`. -/
def munmap (pageSize : Nat) (process : Process) (address length : Nat) : Process :=
  { process with
    space :=
      process.space.mapPages (address / pageSize) (pageCount pageSize length) fun _ => none }

/-- `close`. -/
def close (process : Process) (fd : Nat) : Process :=
  { process with fds := Function.update process.fds fd none }

end Process

/-- `queue_init`; `none` is an error, after which `abort` ends the process. -/
def queueInit (pageSize : Nat) (process : Process) (s : Nat) (answers : InitAnswers) :
    Option (Mapping × Process) :=
  if s % pageSize ≠ 0 then
    none
  else
    match answers.memfdCreate with
    | none => none
    | some fd =>
        let process := process.memfdCreate fd
        if answers.ftruncate = false then
          none
        else
          match answers.reserve with
          | none => none
          | some buffer =>
              let process := process.reserve pageSize buffer (2 * s % words)
              if answers.first = false then
                none
              else
                let process := process.mapShared pageSize buffer s fd
                if answers.second = false then
                  none
                else
                  let process := process.mapShared pageSize (add buffer s) s fd
                  if answers.mutexInit = false then
                    none
                  else if answers.readableInit = false then
                    none
                  else if answers.writeableInit = false then
                    none
                  else
                    some ({ fd := fd, buffer := buffer, size := s }, process)

/-- `queue_destroy`. -/
def queueDestroy (pageSize : Nat) (process : Process) (q : Mapping) (answers : DestroyAnswers) :
    Option Process :=
  if answers.second = false then
    none
  else
    let process := process.munmap pageSize (add q.buffer q.size) q.size
    if answers.first = false then
      none
    else
      let process := process.munmap pageSize q.buffer q.size
      if answers.close = false then
        none
      else
        let process := process.close q.fd
        if answers.mutexDestroy = false then
          none
        else if answers.readableDestroy = false then
          none
        else if answers.writeableDestroy = false then
          none
        else
          some process

/--
What the calls in `queue_init` may return: a descriptor that is not in use, a page address
from which on the pages are free, and success of a mapping only if it ends below the end of
the address space.
-/
structure InitAnswers.Allowed
    (answers : InitAnswers)
    (pageSize : Nat)
    (process : Process)
    (s : Nat) : Prop where
  descriptor : ∀ fd, answers.memfdCreate = some fd → process.fds fd = none
  nonempty : ∀ buffer, answers.reserve = some buffer → 0 < 2 * s % words
  aligned : ∀ buffer, answers.reserve = some buffer → 0 < buffer ∧ pageSize ∣ buffer
  free :
    ∀ buffer,
      answers.reserve = some buffer →
      ∀ page,
        page < pageCount pageSize (2 * s % words) →
        process.space.pages (buffer / pageSize + page) = none
  first : ∀ buffer, answers.reserve = some buffer → answers.first = true → buffer + s < words
  second :
    ∀ buffer,
      answers.reserve = some buffer →
      answers.second = true →
      add buffer s + s < words

/-- The first page of a queue's buffer. -/
def Mapping.first (pageSize : Nat) (q : Mapping) : Nat :=
  q.buffer / pageSize

/-- The pages of one of the two mappings. -/
def Mapping.count (pageSize : Nat) (q : Mapping) : Nat :=
  q.size / pageSize

/-- A page is none of a queue. -/
def Mapping.Apart (pageSize : Nat) (q : Mapping) (page : Nat) : Prop :=
  page < q.first pageSize ∨ q.first pageSize + 2 * q.count pageSize ≤ page

/-! ## Processes with several queues -/

/-- A process, its queues, and the record of the run. -/
structure State (Id : Type) where
  process : Process
  queues : Id → Option Mapping
  cells : Id → Memory
  ownPages : Nat → Option (Backing Nat)
  ownFds : Nat → Option Nat

variable {Id : Type} [DecidableEq Id]

/-- A page belongs to no queue. -/
def State.PageApart (pageSize : Nat) (state : State Id) (page : Nat) : Prop :=
  ∀ id q, state.queues id = some q → q.Apart pageSize page

/-- A descriptor belongs to no queue. -/
def State.FdApart (state : State Id) (fd : Nat) : Prop :=
  ∀ id q, state.queues id = some q → q.fd ≠ fd

/-- A file exists and belongs to no queue. -/
def State.FileApart (state : State Id) (file : Nat) : Prop :=
  file < state.process.files ∧
    ∀ id q, state.queues id = some q → state.process.fds q.fd ≠ some file

/-- A call for one of the queues, or something else that the process does. -/
inductive Label (Id : Type) where
  | queueInit (id : Id) (s : Nat) (answers : InitAnswers)
  | copy (id : Id) (start : Nat) (bytes : List UInt8)
  | queueDestroy (id : Id) (answers : DestroyAnswers)
  | map (page : Nat) (backing : Option (Backing Nat))
  | descriptor (fd : Nat) (file : Option Nat)
  | create
  | write (file cell : Nat) (byte : UInt8)

/-- One call, one copy into a buffer, or a step of the rest of the process. -/
inductive Step (pageSize : Nat) : State Id → Label Id → State Id → Prop where
  | queueInit
      {state : State Id}
      {id : Id}
      {s : Nat}
      {answers : InitAnswers}
      {q : Mapping}
      {process : Process}
      (unused : state.queues id = none)
      (allowed : answers.Allowed pageSize state.process s)
      (returned : queueInit pageSize state.process s answers = some (q, process)) :
      Step pageSize state (.queueInit id s answers)
        { state with
          process := process
          queues := Function.update state.queues id (some q)
          cells := Function.update state.cells id fun _ => 0 }
  | copy
      {state : State Id}
      {id : Id}
      {q : Mapping}
      {start : Nat}
      {bytes : List UInt8}
      {space : Space Nat}
      (live : state.queues id = some q)
      (within : start + bytes.length ≤ 2 * q.size)
      (stored :
        state.process.space.storeAll pageSize (q.buffer + start) bytes = some space) :
      Step pageSize state (.copy id start bytes)
        { state with
          process := { state.process with space := space }
          cells :=
            Function.update state.cells id (copyIn q.size (state.cells id) start bytes) }
  | queueDestroy
      {state : State Id}
      {id : Id}
      {q : Mapping}
      {answers : DestroyAnswers}
      {process : Process}
      (live : state.queues id = some q)
      (returned : queueDestroy pageSize state.process q answers = some process) :
      Step pageSize state (.queueDestroy id answers)
        { state with
          process := process
          queues := Function.update state.queues id none }
  | map
      {state : State Id}
      {page : Nat}
      {backing : Option (Backing Nat)}
      (apart : state.PageApart pageSize page)
      (own : ∀ file index, backing = some (.file file index) → state.FileApart file) :
      Step pageSize state (.map page backing)
        { state with
          process :=
            { state.process with
              space := state.process.space.mapPages page 1 fun _ => backing }
          ownPages := Function.update state.ownPages page backing }
  | descriptor
      {state : State Id}
      {fd : Nat}
      {file : Option Nat}
      (apart : state.FdApart fd)
      (own : ∀ number, file = some number → state.FileApart number) :
      Step pageSize state (.descriptor fd file)
        { state with
          process := { state.process with fds := Function.update state.process.fds fd file }
          ownFds := Function.update state.ownFds fd file }
  | create
      {state : State Id} :
      Step pageSize state .create
        { state with process := { state.process with files := state.process.files + 1 } }
  | write
      {state : State Id}
      {file cell : Nat}
      {byte : UInt8}
      (own : state.FileApart file) :
      Step pageSize state (.write file cell byte)
        { state with
          process :=
            { state.process with
              space :=
                { state.process.space with
                  contents :=
                    Function.update state.process.space.contents file
                      (Function.update (state.process.space.contents file) cell byte) } } }

/-- A process that has no queues yet. -/
def State.initial (process : Process) : State Id where
  process := process
  queues := fun _ => none
  cells := fun _ _ => 0
  ownPages := process.space.pages
  ownFds := process.fds

end Sysprog.QueueMapping
