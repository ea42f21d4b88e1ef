import Mpx.Kernel.Setup

/-! `serial_open` of `kernel/serial.c` on a port that may be open already. -/

namespace Mpx

open Memory Run

variable {σ : Type}

def COM2 : U32 := 0x2f8

def DLL : U32 := 0
def DLM : U32 := 1
def LCR : U32 := 3
def MCR : U32 := 4
def STATUS_REG : U32 := 0x21

def invalidRate : Int := -102
def portInUse : Int := -103

/-- The driver with the pointer to its current control block, the registers of COM1 and the
PIC that it programs, and the handlers in the interrupt descriptor table. -/
structure Driver (σ : Type) where
  serialPort : U32
  dcbs : U32 → Dcb
  initialized : Bool
  iocbs : U32 → Iocb
  mem : Mem
  ier : U8
  lcr : U8
  picMask : U8
  handlers : Nat → U32
  trace : List Effect
  heap : σ

namespace Driver

def device (s : Driver σ) : Device σ :=
  ⟨s.dcbs s.serialPort, s.initialized, s.iocbs, s.mem, s.ier, s.trace, s.heap⟩

/-- `DLM` is the address of `IER` while bit 7 of `LCR` is set. -/
def outb (s : Driver σ) (port : U32) (data : U8) : Driver σ :=
  { s with
    trace := s.trace ++ [.outb port data]
    ier := if port = COM1 + IER ∧ s.lcr &&& 0x80 = 0 then data else s.ier
    lcr := if port = COM1 + LCR then data else s.lcr
    picMask := if port = STATUS_REG then data else s.picMask }

def idtInstall (s : Driver σ) (vector : Nat) (handler : U32) : Driver σ :=
  { s with handlers := Function.update s.handlers vector handler }

def modifyPort (s : Driver σ) (f : Dcb → Dcb) : Driver σ :=
  { s with dcbs := Function.update s.dcbs s.serialPort (f (s.dcbs s.serialPort)) }

end Driver

/-- The fields that `serial_open` sets; the ring buffer and the queue are what the block
held before. -/
def initDcb (dev : U32) (p : Dcb) : Dcb :=
  { p with
    count := 0, eventFlag := 0, counter := 0, operation := .idle, ringHead := 0
    ringTail := 15, status := .available, currDev := dev }

/-- The writes to the registers of COM1 and the PIC; `dev` is COM1 here. -/
def programPort (s : Driver σ) (dev : U32) (speed : Int) : Driver σ :=
  let baudRateDiv := Int.tdiv 115200 speed
  let remainder := Int.tmod 115200 speed
  let s := s.outb (dev + IER) 0x00
  let s := s.outb (COM1 + LCR) 0x80
  let s := s.outb (COM1 + DLM) (BitVec.ofInt 8 remainder)
  let s := s.outb (COM1 + DLL) (BitVec.ofInt 8 baudRateDiv)
  let s := s.outb (COM1 + LCR) 0x03
  let s := s.outb STATUS_REG (s.picMask &&& ~~~0x10)
  let s := s.outb (dev + MCR) 0x0F
  s.outb (dev + IER) 0x01

/-- A speed of 0 is a division by zero, whose handler never returns. -/
def serialOpen (F : HeapFunctions σ) (serialIsr : U32) (s : Driver σ) (dev : U32) (speed : Int) :
    Except Fault (Int × Driver σ) := do
  let (serialPort, heap) ← sysAllocMem F s.heap dcbSize
  if serialPort = 0 then .error .nullPointer
  else
    let s := { s with serialPort := serialPort, heap := heap }
    let s := { s.modifyPort (initDcb dev) with initialized := true }
    if dev ≠ COM1 ∨ speed < 0 then return (invalidRate, s)
    else if s.device.port.status = .inUse then return (portInUse, s)
    else
      let s := s.idtInstall 0x24 serialIsr
      if speed = 0 then .error .diverges
      else return (0, programPort s dev speed)

structure SamePort (s s' : Driver σ) : Prop where
  serialPort : s'.serialPort = s.serialPort
  port : s'.dcbs s.serialPort = s.dcbs s.serialPort
  iocbs : s'.iocbs = s.iocbs

/-- An unsupported device or a negative speed is refused, and so is every call on a port
that is open; nothing else happens. -/
def OpenRefused (s : Driver σ) (dev : U32) (speed : Int)
    (result : Except Fault (Int × Driver σ)) : Prop :=
  ∃ s', result = .ok (if dev ≠ COM1 ∨ speed < 0 then invalidRate else portInUse, s') ∧
    SamePort s s'

section Open

variable {F : HeapFunctions σ} {Owns : σ → List U32 → Prop} {serialIsr dev : U32}
  {s s' : Driver σ} {speed code : Int} {live : List U32}

theorem initDcb_opened (p : Dcb) (hqueue : p.ioHead = 0) (mem : Mem) (heap : σ) :
    initDcb COM1 p = (Device.opened p.ringBuffer mem heap).port := by
  rw [initDcb, hqueue]
  rfl

@[simp] theorem serialPort_outb (s : Driver σ) (port : U32) (data : U8) :
    (s.outb port data).serialPort = s.serialPort := rfl

@[simp] theorem dcbs_outb (s : Driver σ) (port : U32) (data : U8) :
    (s.outb port data).dcbs = s.dcbs := rfl

@[simp] theorem heap_outb (s : Driver σ) (port : U32) (data : U8) :
    (s.outb port data).heap = s.heap := rfl

theorem lcr_outb (s : Driver σ) {port : U32} (data : U8) (hport : port ≠ COM1 + LCR) :
    (s.outb port data).lcr = s.lcr := if_neg hport

theorem lcr_outb_lcr (s : Driver σ) (data : U8) : (s.outb (COM1 + LCR) data).lcr = data := by
  simp [Driver.outb]

theorem ier_outb_ier (s : Driver σ) (data : U8) (hlcr : s.lcr &&& 0x80 = 0) :
    (s.outb (COM1 + IER) data).ier = data := if_pos ⟨rfl, hlcr⟩

/-- The divisor latch is closed again before the last write. -/
theorem ier_programPort (s : Driver σ) (speed : Int) : (programPort s COM1 speed).ier = 1 := by
  apply ier_outb_ier
  rw [lcr_outb _ _ (by decide), lcr_outb _ _ (by decide), lcr_outb_lcr]
  rfl

/-- A call that returns has made a new control block the current one, whatever it returns. -/
theorem serialOpen_returns (hrun : serialOpen F serialIsr s dev speed = .ok (code, s')) :
    ∃ block heap, sysAllocMem F s.heap dcbSize = .ok (block, heap) ∧ block ≠ 0 ∧
      s'.serialPort = block ∧ s'.heap = heap ∧
      s'.dcbs = Function.update s.dcbs block (initDcb dev (s.dcbs block)) ∧
      code = if dev ≠ COM1 ∨ speed < 0 then invalidRate else 0 := by
  rw [serialOpen] at hrun
  rcases of_bind_ok hrun with ⟨⟨block, heap⟩, halloc, hrest⟩
  refine ⟨block, heap, halloc, ?_⟩
  by_cases hblock : block = 0
  · simp only [if_pos hblock] at hrest
    cases hrest
  · simp only [if_neg hblock] at hrest
    have hfree : ((Driver.modifyPort { s with serialPort := block, heap := heap }
        (initDcb dev)).device.port).status ≠ .inUse := by
      simp [Driver.device, Driver.modifyPort, initDcb]
    by_cases hinvalid : dev ≠ COM1 ∨ speed < 0
    · rw [if_pos hinvalid] at hrest ⊢
      cases hrest
      exact ⟨hblock, rfl, rfl, rfl, rfl⟩
    · rw [if_neg hinvalid] at hrest ⊢
      have hopen : ¬ (Driver.device { Driver.modifyPort { s with
          serialPort := block, heap := heap } (initDcb dev) with
            initialized := true }).port.status = .inUse := hfree
      rw [if_neg hopen] at hrest
      by_cases hzero : speed = 0
      · rw [if_pos hzero] at hrest
        cases hrest
      · rw [if_neg hzero] at hrest
        cases hrest
        refine ⟨hblock, ?_, ?_, ?_, rfl⟩
        · simp only [programPort, serialPort_outb]
          rfl
        · simp only [programPort, heap_outb]
          rfl
        · simp only [programPort, dcbs_outb]
          rfl

/-- No call on an open port is refused as it should be: where it returns, the port is an idle
one in a new block, and the queue and the transfer stay behind in the old block. -/
theorem open_never_refused (hlaws : HeapLaws F Owns) (hown : Owns s.heap live)
    (hport : s.serialPort ∈ live) (serialIsr dev : U32) (speed : Int) :
    ¬ OpenRefused s dev speed (serialOpen F serialIsr s dev speed) ∧
    ∀ code s', serialOpen F serialIsr s dev speed = .ok (code, s') →
      code = (if dev ≠ COM1 ∨ speed < 0 then invalidRate else 0) ∧
      s'.serialPort ≠ s.serialPort ∧ s'.device.port.operation = .idle ∧
      s'.dcbs s.serialPort = s.dcbs s.serialPort := by
  have hreturns : ∀ code s', serialOpen F serialIsr s dev speed = .ok (code, s') →
      code = (if dev ≠ COM1 ∨ speed < 0 then invalidRate else 0) ∧
      s'.serialPort ≠ s.serialPort ∧ s'.device.port.operation = .idle ∧
      s'.dcbs s.serialPort = s.dcbs s.serialPort := by
    intro code s' hrun
    rcases serialOpen_returns hrun with
      ⟨block, heap, halloc, hblock, hnew, -, hdcbs, hcode⟩
    have hfresh : block ∉ live := (hlaws.malloc_fresh hown halloc hblock).1
    have hne : s.serialPort ≠ block := ne_of_mem_of_not_mem hport hfresh
    refine ⟨hcode, by rw [hnew]; exact hne.symm, ?_, ?_⟩
    · rw [Driver.device, hnew, hdcbs, Function.update_self]
      rfl
    · rw [hdcbs, Function.update_of_ne hne]
  refine ⟨fun hrefused => ?_, hreturns⟩
  rcases hrefused with ⟨s', hrun, hsame⟩
  exact (hreturns _ s' hrun).2.1 hsame.serialPort

end Open

section Transfer

def openBlock : U32 × Heap :=
  match allocateMemory kernelHeap dcbSize with
  | .ok r => r
  | .error _ => (0, kernelHeap)

def busyPort : Dcb :=
  ⟨COM1, .available, .write, 1, 3, 10, Vector.replicate 16 0, 0, 15, 0x2000⟩

def busyDriver : Driver Heap where
  serialPort := openBlock.1
  dcbs := Function.update
    (fun _ => ⟨0, .available, .exit, 0, 0, 0, Vector.replicate 16 0, 0, 0, 0⟩) openBlock.1 busyPort
  initialized := true
  iocbs := fun _ => ⟨0x3000, COM1, .write, 0x8000, 10, 0⟩
  mem := ⟨fun _ => 65⟩
  ier := 3
  lcr := 3
  picMask := 0xEF
  handlers := fun _ => 0
  trace := []
  heap := openBlock.2

theorem openBlock_owned : OwnsBlocks openBlock.2 [openBlock.1] := by
  have hblock : (allocateMemory kernelHeap dcbSize).map Prod.fst = .ok 0xD000004 := by
    decide +kernel
  rcases of_map_ok hblock with ⟨⟨p, h⟩, hrun, hp⟩
  have hne : p ≠ 0 := by
    rw [show p = 0xD000004 from hp]
    decide
  have hown := allocateMemory_owns kernelHeap_owns hrun
  rw [if_neg hne] at hown
  rw [openBlock, hrun]
  exact hown

theorem open_never_refused_busy : ¬ OpenRefused busyDriver COM1 19200
    (serialOpen studentHeap 0x1000 busyDriver COM1 19200) :=
  (open_never_refused studentHeap_laws openBlock_owned List.mem_cons_self 0x1000 COM1 19200).1

/-- COM2 is not supported, and a call for it loses the transfer. -/
theorem open_refused_busy : busyDriver.device.port.operation = .write ∧
    busyDriver.device.port.ioHead = 0x2000 ∧
    (serialOpen studentHeap 0x1000 busyDriver COM2 9600).map
        (fun r => (r.1, r.2.serialPort, r.2.device.port.operation, r.2.device.port.ioHead)) =
      .ok (invalidRate, 0xD00003C, .idle, 0) ∧
    busyDriver.serialPort = 0xD000004 ∧
    ¬ OpenRefused busyDriver COM2 9600 (serialOpen studentHeap 0x1000 busyDriver COM2 9600) := by
  have hcompute : (serialOpen studentHeap 0x1000 busyDriver COM2 9600).map
      (fun r => (r.1, r.2.serialPort, r.2.device.port.operation, r.2.device.port.ioHead)) =
        .ok (invalidRate, 0xD00003C, .idle, 0) := by
    decide +kernel
  have hport : busyDriver.serialPort = 0xD000004 := by
    decide +kernel
  have hbusy : busyDriver.device.port = busyPort := by
    simp [Driver.device, busyDriver]
  refine ⟨by rw [hbusy]; rfl, by rw [hbusy]; rfl, hcompute, hport, ?_⟩
  intro hrefused
  rcases hrefused with ⟨s', hrun, hsame⟩
  rw [hrun] at hcompute
  have hnew : s'.serialPort = 0xD00003C := congrArg (fun r => r.2.1) (Except.ok.inj hcompute)
  rw [hsame.serialPort, hport] at hnew
  exact absurd hnew (by decide)

end Transfer

end Mpx
