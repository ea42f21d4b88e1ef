import Mathlib.Logic.Function.Basic
import Mpx.Heap.Functions

/-! Process control blocks and their queues (`kernel/pcb.c`). -/

namespace Mpx

open Memory

def readyState : Int := 1
def blockedState : Int := 0
/-- The state `pcb.c` calls suspended; `mpx/pcb.h` has 2 for it. -/
def suspendedState : Int := -1
def resumeState : Int := 3

def pcbSuccess : Int := 0
def pcbError : Int := 1

structure Pcb where
  name : List U8
  procClass : Int
  priority : Int
  state : Int
  stackTop : U32
  nextPcb : U32
  prevPcb : U32
  deriving DecidableEq, Repr

inductive Queue
  | ready
  | blocked
  | suspended
  deriving DecidableEq, Repr

structure Procs where
  pcbs : U32 → Pcb
  readyHead : U32
  blockedHead : U32
  suspendedHead : U32

namespace Procs

def head (s : Procs) : Queue → U32
  | .ready => s.readyHead
  | .blocked => s.blockedHead
  | .suspended => s.suspendedHead

def setHead (s : Procs) (q : Queue) (p : U32) : Procs :=
  match q with
  | .ready => { s with readyHead := p }
  | .blocked => { s with blockedHead := p }
  | .suspended => { s with suspendedHead := p }

def modify (s : Procs) (p : U32) (f : Pcb → Pcb) : Procs :=
  { s with pcbs := Function.update s.pcbs p (f (s.pcbs p)) }

def next (s : Procs) (p : U32) : U32 := (s.pcbs p).nextPcb

def priority (s : Procs) (p : U32) : Int := (s.pcbs p).priority

def setNext (s : Procs) (p v : U32) : Procs := s.modify p fun b => { b with nextPcb := v }

def setState (s : Procs) (p : U32) (v : Int) : Procs :=
  s.modify p fun b => { b with state := v }

def setStackTop (s : Procs) (p v : U32) : Procs :=
  s.modify p fun b => { b with stackTop := v }

end Procs

def insertQueue (state : Int) : Option Queue :=
  if state = readyState ∨ state = resumeState then some .ready
  else if state = suspendedState then some .suspended
  else if state = blockedState then some .blocked
  else none

/-- As many steps as there are addresses: a list that does not end before loops. -/
def queueFuel : Nat := 2 ^ 32

def insertLoop (s : Procs) (currPcb : U32) : Nat → U32 → Except Fault U32
  | 0, _ => .error .diverges
  | fuel + 1, prevPcb =>
      if s.next prevPcb ≠ 0 ∧ s.priority currPcb ≥ s.priority (s.next prevPcb) then
        insertLoop s currPcb fuel (s.next prevPcb)
      else .ok prevPcb

def pcbInsert (s : Procs) (currPcb : U32) : Except Fault Procs :=
  if currPcb = 0 then .ok s
  else
    match insertQueue (s.pcbs currPcb).state with
    | none => .ok s
    | some q =>
        if s.head q = 0 ∨ s.priority currPcb < s.priority (s.head q) then
          .ok ((s.setNext currPcb (s.head q)).setHead q currPcb)
        else do
          let prevPcb ← insertLoop s currPcb queueFuel (s.head q)
          return (s.setNext currPcb (s.next prevPcb)).setNext prevPcb currPcb

/-- The two branches of `pcb_remove`: the blocked queue has none. -/
def removeQueue (state : Int) : Option Queue :=
  if state = readyState ∨ state = resumeState then some .ready
  else if state = suspendedState then some .suspended
  else none

def removeLoop (s : Procs) (currPcb : U32) : Nat → U32 → Except Fault U32
  | 0, _ => .error .diverges
  | fuel + 1, current =>
      if current ≠ 0 ∧ s.next current ≠ currPcb then
        removeLoop s currPcb fuel (s.next current)
      else .ok current

def pcbRemove (s : Procs) (currPcb : U32) : Except Fault (Int × Procs) :=
  if currPcb = 0 then .ok (pcbError, s)
  else
    match removeQueue (s.pcbs currPcb).state with
    | none => .ok (pcbError, s)
    | some q =>
        if s.head q = currPcb then .ok (pcbSuccess, s.setHead q (s.next currPcb))
        else do
          let current ← removeLoop s currPcb queueFuel (s.head q)
          if current = 0 then return (pcbError, s)
          else return (pcbSuccess, s.setNext current (s.next currPcb))

/-- `name` is the first member of the PCB, so both calls release one address. The
message for a NULL argument is left out: no caller passes one. -/
def pcbFree {σ : Type} (F : HeapFunctions σ) (h : σ) (s : Procs) (oldPcb : U32) :
    Except Fault (Int × σ) :=
  if oldPcb ≠ 0 then do
    let h ← if (s.pcbs oldPcb).name.headD 0 ≠ 0 then do
        let (_, h) ← sysFreeMem F h oldPcb
        pure h
      else pure h
    let (_, h) ← sysFreeMem F h oldPcb
    return (0, h)
  else return (1, h)

/-- `unblock_pcb` of `user/commhand.c`. -/
def unblockPcb (s : Procs) (pcb : U32) : Except Fault Procs :=
  if pcb = 0 then .error .nullPointer
  else pcbInsert (s.setState pcb readyState) pcb

end Mpx
