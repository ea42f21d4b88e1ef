import Mpx.Process.Model

/-! The serial driver of `kernel/serial.c`: the request queue of COM1, the two
functions that start a transfer and the output interrupt that drives it. -/

namespace Mpx

open Memory

inductive OpCode
  | exit
  | idle
  | read
  | write
  deriving DecidableEq, Repr

inductive AllocStatus
  | available
  | inUse
  deriving DecidableEq, Repr

def COM1 : U32 := 0x3f8

def THR : U32 := 0
def IER : U32 := 1

def readPortNotOpen : Int := -301
def readInvBufAddr : Int := -302
def readInvCountAddr : Int := -303
def readDevBusy : Int := -304
def writePortNotOpen : Int := -401
def writeInvBufAddr : Int := -402
def writeDevBusy : Int := -404

/-- `struct io_control_block`; nothing reads or writes its `buf_index`. -/
structure Iocb where
  currProc : U32
  device : U32
  currOp : OpCode
  buffer : U32
  bufSize : Int
  next : U32
  deriving DecidableEq, Repr

def iocbSize : U32 := 28

structure Dcb where
  currDev : U32
  status : AllocStatus
  operation : OpCode
  eventFlag : Int
  counter : Int
  count : Int
  ringBuffer : Vector U8 16
  ringHead : U32
  ringTail : U32
  ioHead : U32

def byteOf (v : U32) (i : Nat) : U8 := v.extractLsb' (8 * i) 8

def clearByte (v : U32) (i : Nat) : U32 := v &&& ~~~((0xff : U32) <<< (8 * i))

/-- `ring_buffer[index]`. Beyond the 16 characters of the ring lie the fields behind
it, and beyond these the control block ends. -/
def Dcb.ringGet (p : Dcb) (index : Nat) : Except Fault U8 :=
  if h : index < 16 then .ok p.ringBuffer[index]
  else if index < 20 then .ok (byteOf p.ringHead (index - 16))
  else if index < 24 then .ok (byteOf p.ringTail (index - 20))
  else if index < 28 then .ok (byteOf p.ioHead (index - 24))
  else .error .outOfBounds

def Dcb.ringClear (p : Dcb) (index : Nat) : Except Fault Dcb :=
  if h : index < 16 then .ok { p with ringBuffer := p.ringBuffer.set index 0 }
  else if index < 20 then .ok { p with ringHead := clearByte p.ringHead (index - 16) }
  else if index < 24 then .ok { p with ringTail := clearByte p.ringTail (index - 20) }
  else if index < 28 then .ok { p with ioHead := clearByte p.ioHead (index - 24) }
  else .error .outOfBounds

inductive Effect
  | outb (port : U32) (data : U8)
  | unblockPcb (pcb : U32)
  | freeMem (ptr : U32)
  deriving DecidableEq, Repr

/-- The open port, with the I/O control blocks in memory, the memory that buffers
point into, the interrupt enable register and the effects so far, oldest first. -/
structure Device (σ : Type) where
  port : Dcb
  initialized : Bool
  iocbs : U32 → Iocb
  mem : Mem
  ier : U8
  trace : List Effect
  heap : σ

namespace Device

variable {σ : Type}

def opened (ring : Vector U8 16) (mem : Mem) (heap : σ) : Device σ where
  port := ⟨COM1, .available, .idle, 0, 0, 0, ring, 0, 15, 0⟩
  initialized := true
  iocbs := fun _ => ⟨0, 0, .exit, 0, 0, 0⟩
  mem := mem
  ier := 1
  trace := []
  heap := heap

def outb (d : Device σ) (port : U32) (data : U8) : Device σ :=
  { d with
    trace := d.trace ++ [.outb port data]
    ier := if port = COM1 + IER then data else d.ier }

def modifyIocb (d : Device σ) (p : U32) (f : Iocb → Iocb) : Device σ :=
  { d with iocbs := Function.update d.iocbs p (f (d.iocbs p)) }

def setIoHead (d : Device σ) (p : U32) : Device σ :=
  { d with port := { d.port with ioHead := p } }

end Device

variable {σ : Type}

/-- The loop of `serial_read`. Its `buffer_index` equals `count` throughout. The
answer tells whether a new-line has ended it, and how many characters were copied. -/
def readLoop (buf len : U32) : Nat → Device σ → Nat → Except Fault (Bool × Nat × Device σ)
  | 0, _, _ => .error .diverges
  | fuel + 1, d, count =>
      if count < len.toNat then do
        let currentCharacter ← d.port.ringGet count
        if currentCharacter ≠ 0 then
          let port ← d.port.ringClear count
          if currentCharacter = 10 then
            return (true, count, { d with port := port })
          else
            let mem := store8 d.mem (buf + BitVec.ofNat 32 count) currentCharacter
            readLoop buf len fuel { d with port := port, mem := mem } (count + 1)
        else return (false, count, d)
      else return (false, count, d)

/-- The loop meets a fault at index 28 at the latest. -/
def readFuel : Nat := 29

def serialRead (d : Device σ) (buf len : U32) : Except Fault (Int × Device σ) :=
  if d.port.status = .inUse then .ok (readPortNotOpen, d)
  else if buf = 0 then .ok (readInvBufAddr, d)
  else if len = 0 then .ok (readInvCountAddr, d)
  else if d.port.operation ≠ .idle then .ok (readDevBusy, d)
  else do
    let started := { d with port := { d.port with operation := .read, eventFlag := 0 } }
    let (newline, count, d) ← readLoop buf len readFuel started 0
    if newline ∨ ¬ count < len.toNat then
      return (0, { d with port := { d.port with operation := .idle, eventFlag := 1 } })
    else return (0, d)

/-- `len` is unsigned, so the test for a negative length has no effect. -/
def serialWrite (d : Device σ) (dev buf len : U32) : Int × Device σ :=
  if d.port.status = .inUse then (writeDevBusy, d)
  else if buf = 0 then (writeInvBufAddr, d)
  else if d.initialized = false then (writePortNotOpen, d)
  else if d.port.operation = .idle then
    let port := { d.port with operation := .write, eventFlag := 1, counter := 0, count := len.toInt }
    let d := { d with port := port }
    let mask := d.ier
    let d := d.outb (dev + IER) 0x00
    let d := d.outb (dev + IER) (mask ||| 0x02)
    let d := d.outb dev (d.mem.byte buf)
    (0, { d with port := { d.port with counter := d.port.counter + 1 } })
  else (writeDevBusy, d)

def lastLoop (d : Device σ) : Nat → U32 → Except Fault U32
  | 0, _ => .error .diverges
  | fuel + 1, iter =>
      if (d.iocbs iter).next ≠ 0 then lastLoop d fuel (d.iocbs iter).next else .ok iter

def appendIocb (d : Device σ) (temp : U32) : Except Fault (Device σ) :=
  if d.port.ioHead = 0 then .ok (d.setIoHead temp)
  else do
    let iter ← lastLoop d queueFuel d.port.ioHead
    return (d.modifyIocb iter fun r => { r with next := temp }).modifyIocb temp
      fun r => { r with next := 0 }

/-- The end of `io_scheduler`: an idle device starts with the new request. -/
def startIfIdle (d : Device σ) (dev buf len : U32) (operation : OpCode) :
    Except Fault (Device σ) :=
  if d.port.operation = .idle then
    match operation with
    | .write => .ok (serialWrite d dev buf len).2
    | .read => do
        let (_, d) ← serialRead d buf len
        return d
    | _ => .ok d
  else .ok d

def ioScheduler (F : HeapFunctions σ) (d : Device σ) (globalPcb dev buf len : U32)
    (operation : OpCode) : Except Fault (Device σ) :=
  if dev ≠ COM1 ∨ buf = 0 then .ok d
  else do
    let (temp, heap) ← sysAllocMem F d.heap iocbSize
    -- `temp->buffer = buf` comes before any test of `temp`
    if temp = 0 then .error .nullPointer
    else
      let request := ⟨globalPcb, dev, operation, buf, len.toInt, 0⟩
      let d ← appendIocb ({ d with heap := heap }.modifyIocb temp fun _ => request) temp
      startIfIdle d dev buf len operation

def serialInputInterrupt (d : Device σ) : Device σ :=
  if d.port.operation = .read then d.outb COM1 0x02 else d

def serialOutputInterrupt (F : HeapFunctions σ) (d : Device σ) (s : Procs) :
    Except Fault (Device σ × Procs) :=
  if d.port.operation ≠ .write then .ok (d, s)
  else
    let d := d.outb COM1 0x02
    if d.port.ioHead = 0 then .error .nullPointer
    else if d.port.eventFlag = 1 ∧ d.port.counter < d.port.count then
      let buffer := (d.iocbs d.port.ioHead).buffer
      let d := d.outb (d.port.currDev + THR) (d.mem.byte (buffer + BitVec.ofInt 32 d.port.counter))
      .ok ({ d with port := { d.port with counter := d.port.counter + 1 } }, s)
    else do
      let markHead := d.port.ioHead
      let d := { d with
        port := { d.port with
          status := .available, eventFlag := 0, operation := .idle
          ioHead := (d.iocbs markHead).next } }
      let pcb := (d.iocbs markHead).currProc
      let s ← unblockPcb s pcb
      let (_, heap) ← sysFreeMem F d.heap markHead
      let d := { d with heap := heap, trace := d.trace ++ [Effect.unblockPcb pcb, Effect.freeMem markHead] }
      let mask := d.ier
      let d := d.outb (COM1 + IER) 0x00
      let d := d.outb (COM1 + IER) (mask &&& ~~~0x02)
      return (d, s)

end Mpx
