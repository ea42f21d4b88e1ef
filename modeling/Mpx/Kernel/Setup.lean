import Mpx.Kernel.SysCall
import Mpx.Process.Find

/-! The functions of `kernel/pcb.c` that allocate, find and set up PCBs. -/

namespace Mpx

open Memory CString

variable {σ : Type}

/-- What becomes of the system until `sys_req(WRITE, COM1, ..)` returns to its caller. -/
abbrev Console (σ : Type) := String → Kernel σ → Except Fault (Kernel σ)

def silentConsole : Console σ := fun _ K => .ok K

def userProc : Int := 1
def systemProc : Int := 0

def minNameLen : Nat := 2
def maxNameLen : Nat := 50

def pcbSize : U32 := 1100

def stackOffset : U32 := 64

def contextSize : U32 := 64

/-- The contents of the new block stay in the fields that are not set. -/
def pcbAllocate (F : HeapFunctions σ) (C : Console σ) (K : Kernel σ) :
    Except Fault (U32 × Kernel σ) := do
  let (currPcb, heap) ← sysAllocMem F K.device.heap pcbSize
  let K := { K with device := { K.device with heap := heap } }
  if currPcb = 0 then
    let K ← C "PCB allocation failed." K
    return (0, K)
  else
    let procs := K.procs.modify currPcb fun b =>
      { b with procClass := -1, priority := -1, state := -1, nextPcb := 0, prevPcb := 0 }
    return (currPcb, { K with procs := procs })

def pcbFind (C : Console σ) (K : Kernel σ) (foundName : List U8) :
    Except Fault (U32 × Kernel σ) := do
  let currPcb ← pcbSearch K.procs foundName
  if currPcb = 0 ∧ K.procs.suspendedHead ≠ 0 then
    let K ← C "A PCB with the given name cannot be found. Please try again." K
    return (0, K)
  else return (currPcb, K)

def copyName (name old : List U8) : List U8 := text name ++ 0 :: old.drop (strlen name + 1)

def freePcb (F : HeapFunctions σ) (K : Kernel σ) (pcbPtr : U32) :
    Except Fault (U32 × Kernel σ) := do
  let (_, heap) ← pcbFree F K.device.heap K.procs pcbPtr
  return (0, { K with device := { K.device with heap := heap } })

def checkNameInUse (F : HeapFunctions σ) (C : Console σ) (K : Kernel σ) (pcbPtr : U32) :
    Except Fault (U32 × Kernel σ) := do
  let (found, K) ← pcbFind C K (K.procs.pcbs pcbPtr).name
  if found ≠ 0 then
    let K ← C "Name already in use.\n" K
    freePcb F K pcbPtr
  else return (pcbPtr, K)

/-- `none` is the name NULL. A name of 50 characters ends in the padding behind `name`. -/
def pcbSetup (F : HeapFunctions σ) (C : Console σ) (K : Kernel σ) (name : Option (List U8))
    (procClass priority : Int) : Except Fault (U32 × Kernel σ) := do
  let (pcbPtr, K) ← pcbAllocate F C K
  if pcbPtr = 0 then return (0, K)
  else if priority < 0 ∨ priority > 9 then freePcb F K pcbPtr
  else if procClass ≠ userProc ∧ procClass ≠ systemProc then freePcb F K pcbPtr
  else
    match name with
    | none => freePcb F K pcbPtr
    | some name =>
        if strlen name < minNameLen ∨ strlen name > maxNameLen then freePcb F K pcbPtr
        else
          let procs := K.procs.modify pcbPtr fun b =>
            { b with
              name := copyName name b.name, priority := priority, procClass := procClass
              state := readyState, stackTop := pcbPtr + stackOffset + 1024 - contextSize }
          checkNameInUse F C { K with procs := procs } pcbPtr

def clearedContext : Context := ⟨0, 0, 0, 0, 0, 0, 0, 0, 0, 0, 0, 0, 0, 0, 0, 0⟩

def firstContext (old : Context) (pcb stackTop eip : U32) : Context :=
  { old with
    cs := 0x08, ds := 0x10, es := 0x10, fs := 0x10, gs := 0x10, ss := 0x10
    ebp := pcb + stackOffset, esp := stackTop, eip := eip, flags := 0x0202 }

/-- A new process that begins at `eip`, as `kmain` and `load_r3` make it. Its context is
cleared as a whole, or only as many bytes of it as a pointer has. -/
def startProcess (F : HeapFunctions σ) (C : Console σ) (K : Kernel σ) (name : List U8)
    (procClass priority : Int) (cleared : Bool) (eip : U32) : Except Fault (U32 × Kernel σ) := do
  let (newPcb, K) ← pcbSetup F C K (some name) procClass priority
  if newPcb = 0 then .error .nullPointer
  else
    let stackTop := (K.procs.pcbs newPcb).stackTop
    let old := if cleared then clearedContext else { K.contexts stackTop with ds := 0 }
    let context := firstContext old newPcb stackTop eip
    let procs ← pcbInsert K.procs newPcb
    return (newPcb, { K with
      procs := procs, contexts := Function.update K.contexts stackTop context })

theorem startProcess_cases {F : HeapFunctions σ} {C : Console σ} {K K' : Kernel σ}
    {name : List U8} {procClass priority : Int} {cleared : Bool} {eip p : U32}
    (hrun : startProcess F C K name procClass priority cleared eip = .ok (p, K')) :
    p ≠ 0 ∧ ∃ K₁ s, pcbSetup F C K (some name) procClass priority = .ok (p, K₁) ∧
      pcbInsert K₁.procs p = .ok s ∧
      K' = { K₁ with
        procs := s
        contexts := Function.update K₁.contexts (K₁.procs.pcbs p).stackTop
          (firstContext (if cleared then clearedContext
            else { K₁.contexts (K₁.procs.pcbs p).stackTop with ds := 0 }) p
            (K₁.procs.pcbs p).stackTop eip) } := by
  rcases Run.of_bind_ok hrun with ⟨⟨newPcb, K₁⟩, hsetup, hrest⟩
  by_cases hnull : newPcb = 0
  · simp only [if_pos hnull] at hrest
    cases hrest
  · simp only [if_neg hnull] at hrest
    rcases Run.of_bind_ok hrest with ⟨s, hinsert, heq⟩
    cases heq
    exact ⟨hnull, K₁, s, hsetup, hinsert, rfl⟩

def dcbSize : U32 := 52

def commhandName : List U8 := [67, 111, 109, 109, 97, 110, 100, 32, 72, 97, 110, 100, 108, 101, 114]

def idleName : List U8 := [73, 100, 108, 101, 32, 80, 114, 111, 99, 101, 115, 115]

/-- `kmain` from `serial_open` up to its IDLE call, with the addresses of the device
control block and of the two PCBs. There is no queue and no process before. -/
def kmain (F : HeapFunctions σ) (C : Console σ) (K : Kernel σ) (commhand sysIdleProcess : U32) :
    Except Fault (U32 × U32 × U32 × Kernel σ) := do
  let (dcb, heap) ← sysAllocMem F K.device.heap dcbSize
  if dcb = 0 then .error .nullPointer
  else
    let K := { K with
      procs := { K.procs with readyHead := 0, blockedHead := 0, suspendedHead := 0 }
      globalPcb := 0, initialContext := 0
      device := Device.opened K.device.port.ringBuffer K.device.mem heap }
    let (commhandProc, K) ← startProcess F C K commhandName systemProc 1 true commhand
    let (idleProc, K) ← startProcess F C K idleName systemProc 9 true sysIdleProcess
    return (dcb, commhandProc, idleProc, K)

end Mpx
