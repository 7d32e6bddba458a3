import Sysprog.Execution
import Sysprog.LogShow

namespace Sysprog.LogDevice

open ByteMemory CStrings Execution LogShow StringBuffer

/-!
# Writers of the log device of `simple-logfs`

`user.c` maps a page of the device and prints its text there; `mylog_mmap` of `logfs.c`
decides which pages it gets.  Any number of such programs run at once, and every byte that
one of them stores is a step.

What the kernel demands of a mapping before it asks the driver is a parameter.  The state
also records the text that was meant for a page last, and whether two programs have had a
page at the same time.
-/

/-- `LOG_BUF_OUTPUT_BUF_SIZE`. -/
def logBufOutputBufSize : Nat :=
  logLineBufSize <<< 12

/-- The values of an `unsigned long`. -/
def unsignedLong : Nat :=
  2 ^ 64

/-- The physical memory behind `GLOG->buff`. -/
structure LogBuffer where
  phys : Nat
  aligned : phys % pageSize = 0
  inside : phys + logBufOutputBufSize ≤ unsignedLong

/-- `idx << PAGE_SHIFT`, an `int` that is made an `off_t`, by the number of its page. -/
def pageOffset (idx : Int) : Nat :=
  ((Int.bmod (idx * 2 ^ 12) (2 ^ 32)) % 2 ^ 64).toNat >>> 12

/-- The bytes of the pages that `mmap` maps for a length of 32. -/
def mappedSize : Nat :=
  (32 + (pageSize - 1)) / pageSize * pageSize

/-- `mylog_mmap`: the first page frame that is mapped, unless the range is refused. -/
def mylogMmap (buffer : LogBuffer) (pgoff size : Nat) : Option Nat :=
  let pfnStart := ((buffer.phys >>> 12) + pgoff) % unsignedLong
  if logBufOutputBufSize < ((pgoff <<< 12) % unsignedLong + size) % unsignedLong then
    none
  else
    some pfnStart

/-- The address that `user.c` prints to, if the kernel and the driver let it. -/
def mapMemory (admits : Nat → Nat → Bool) (buffer : LogBuffer) (idx : Int) : Option Nat :=
  if admits (pageOffset idx) mappedSize then
    (mylogMmap buffer (pageOffset idx) mappedSize).map fun pfn => (pfn <<< 12) % unsignedLong
  else
    none

/-- The kernel refuses ranges that end behind the last offset of a file. -/
def RefusesOverflow (admits : Nat → Nat → Bool) : Prop :=
  ∀ pgoff size, admits pgoff size = true → pgoff * pageSize + size < unsignedLong

/-- Where a program stands: the next address of its `sprintf`, and the bytes still to store. -/
inductive Phase where
  | ready
  | printing (address : Nat) (bytes : List UInt8)

/-- A program goes on with `sprintf`, or unmaps the page and ends. -/
def Phase.resume (address : Nat) : List UInt8 → Phase
  | [] => .ready
  | byte :: rest => .printing address (byte :: rest)

/-- The memory and the programs, and the record of the run. -/
structure State (Id : Type) where
  memory : Memory
  phases : Id → Phase
  latest : Nat → List UInt8
  clashed : Nat → Prop

variable {Id : Type} [DecidableEq Id]

/-- The page of the buffer that an address belongs to. -/
def LogBuffer.page (buffer : LogBuffer) (address : Nat) : Nat :=
  (address - buffer.phys) / pageSize

/-- A program prints to a page. -/
def Prints (buffer : LogBuffer) (state : State Id) (page : Nat) (program : Id) : Prop :=
  ∃ address bytes,
    state.phases program = .printing address bytes ∧ buffer.page address = page

/-- A program has mapped an address and is about to print a text there. -/
def State.begin
    (buffer : LogBuffer)
    (state : State Id)
    (program : Id)
    (address : Nat)
    (text : List UInt8) : State Id where
  memory := state.memory
  phases := Function.update state.phases program (.printing address (text ++ [0]))
  latest := Function.update state.latest (buffer.page address) text
  clashed :=
    Function.update state.clashed (buffer.page address)
      (state.clashed (buffer.page address) ∨
        ∃ other, Prints buffer state (buffer.page address) other)

/-- A program stores a byte and has others left. -/
def State.store
    (state : State Id)
    (program : Id)
    (address : Nat)
    (byte : UInt8)
    (rest : List UInt8) : State Id :=
  { state with
    memory := Function.update state.memory address byte
    phases := Function.update state.phases program (.resume (address + 1) rest) }

/-- What happens: a program is started with its arguments, or stores its next byte. -/
inductive Label (Id : Type) where
  | start (program : Id) (idx : Int) (context : CString)
  | store (program : Id)

/-- One step of one program. -/
inductive Step (admits : Nat → Nat → Bool) (buffer : LogBuffer) :
    State Id → Label Id → State Id → Prop where
  | refused
      {state : State Id}
      {program : Id}
      {idx : Int}
      {context : CString}
      (ready : state.phases program = .ready)
      (failed : mapMemory admits buffer idx = none) :
      Step admits buffer state (.start program idx context) state
  | mapped
      {state : State Id}
      {program : Id}
      {idx : Int}
      {context : CString}
      {address : Nat}
      (ready : state.phases program = .ready)
      (short : context.bytes.length < pageSize)
      (granted : mapMemory admits buffer idx = some address) :
      Step admits buffer state (.start program idx context)
        (state.begin buffer program address context.bytes)
  | stores
      {state : State Id}
      {program : Id}
      {address : Nat}
      {byte : UInt8}
      {rest : List UInt8}
      (prints : state.phases program = .printing address (byte :: rest)) :
      Step admits buffer state (.store program) (state.store program address byte rest)

/-- The driver is loaded, with its pages zeroed, and no program runs. -/
def State.loaded (memory : Memory) : State Id where
  memory := memory
  phases := fun _ => .ready
  latest := fun _ => []
  clashed := fun _ => False

end Sysprog.LogDevice
