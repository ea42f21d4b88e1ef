import Mpx.Kernel.Setup

/-! The commands of `user/commhand.c` that act on processes, from the moment at which
`serial_poll` has returned the line that the user entered. -/

namespace Mpx

open Memory Procs CString Run

variable {σ : Type}

def suspendState : Int := 2

def whitespace : List U8 := [10, 13, 9, 32]

/-- The part that the commands share: they take a name from the line and act on the user
process that has it. The answer is the text that the command writes last. -/
def onUserProcess (C : Console σ) (K : Kernel σ) (buf : List U8) (invalid notFound : String)
    (act : Kernel σ → U32 → Except Fault (String × Kernel σ)) :
    Except Fault (String × Kernel σ) :=
  match (strtok buf whitespace).1 with
  | none => .ok (invalid, K)
  | some name =>
      if strlen name < minNameLen ∨ strlen name > maxNameLen then .ok (invalid, K)
      else do
        let (foundPcb, K) ← pcbFind C K name
        if foundPcb = 0 then return (notFound, K)
        else if (K.procs.pcbs foundPcb).procClass = systemProc then
          return ("\nSystem processes cannot be deleted. \n", K)
        else act K foundPcb

def suspendedMsg : String := "Process suspended successfully. \n"
def resumedMsg : String := "Process resumed successfully. \n"

def suspendPcb (C : Console σ) (K : Kernel σ) (buf : List U8) :
    Except Fault (String × Kernel σ) :=
  onUserProcess C K buf "Invalid process name. \n" "Process not found. \n" fun K foundPcb => do
    let procs ← pcbInsert (K.procs.setState foundPcb suspendState) foundPcb
    return (suspendedMsg, { K with procs := procs })

def resumePcb (C : Console σ) (K : Kernel σ) (buf : List U8) :
    Except Fault (String × Kernel σ) :=
  onUserProcess C K buf "Invalid process name. \n" "Process not found. \n" fun K foundPcb => do
    let procs ← pcbInsert (K.procs.setState foundPcb resumeState) foundPcb
    return (resumedMsg, { K with procs := procs })

def deletedMsg : String := "\nPCB deleted successfully. \n"

def deletePcb (C : Console σ) (K : Kernel σ) (buf : List U8) :
    Except Fault (String × Kernel σ) :=
  onUserProcess C K buf "\nInvalid PCB name. \n" "\nPCB not found. \n" fun K foundPcb => do
    let (freeResult, procs) ← pcbRemove K.procs foundPcb
    let K := { K with procs := procs }
    if freeResult ≠ 0 then return ("\nFailed to free PCB memory. \n", K)
    else return (deletedMsg, K)

def ofBytes (bytes : List U8) : String := String.ofList (bytes.map fun c => Char.ofNat c.toNat)

def writeAll (C : Console σ) : List String → Kernel σ → Except Fault (Kernel σ)
  | [], K => .ok K
  | msg :: msgs, K => do
      let K ← C msg K
      writeAll C msgs K

/-- `show_pcb` does not test what `pcb_find` returns. -/
def showPcb (C : Console σ) (K : Kernel σ) (buf : List U8) : Except Fault (Kernel σ) :=
  match (strtok buf whitespace).1 with
  | none => C "\nInvalid PCB name. \n" K
  | some name =>
      if strlen name < minNameLen ∨ strlen name > maxNameLen then C "\nInvalid PCB name. \n" K
      else do
        let (foundPcb, K) ← pcbFind C K name
        if foundPcb = 0 then .error .nullPointer
        else
          let classStr := ofBytes (itoa (K.procs.pcbs foundPcb).procClass 10)
          let stateStr := ofBytes (itoa (K.procs.pcbs foundPcb).state 10)
          let priorityStr := ofBytes (itoa (K.procs.pcbs foundPcb).priority 10)
          let K ← writeAll C ["\n", "Name: "] K
          let K ← C (ofBytes (K.procs.pcbs foundPcb).name) K
          writeAll C ["\n", "Class: ", classStr, "\n", "State: ", stateStr, "\n", "Priority: ",
            priorityStr, "\n"] K

def bcdToBinary (v : U8) : U8 := (v &&& 0x0f) + (v >>> 4) * 10

def timeStr (hours minutes seconds : U8) : List U8 :=
  let digits := fun v : U8 => [48 + v / 10, 48 + v % 10]
  10 :: digits hours ++ 58 :: digits minutes ++ 58 :: digits seconds ++ [10]

/-- `get_time` with the values that the clock has returned. The hours are unsigned, so
four hours less are never below zero. -/
def getTime (F : HeapFunctions σ) (C : Console σ) (K : Kernel σ) (hours minutes seconds : U8) :
    Except Fault (U32 × Kernel σ) := do
  let hours := bcdToBinary hours - 4
  let (ptr, heap) ← sysAllocMem F K.device.heap 12
  let K := { K with device := { K.device with heap := heap } }
  if ptr = 0 then return (0, K)
  else
    let bytes := timeStr hours (bcdToBinary minutes) (bcdToBinary seconds)
    let K ← C (String.ofList (bytes.map fun c => Char.ofNat c.toNat)) K
    return (ptr, K)

/-- `set_pcb_priority` with the lines `buf` and `priorityBuf`. The copy of the name goes
to a new block. -/
def setPcbPriority (F : HeapFunctions σ) (C : Console σ) (K : Kernel σ)
    (buf priorityBuf : List U8) : Except Fault (Kernel σ) := do
  let copied := strtok buf whitespace
  let (ptr, heap) ← sysAllocMem F K.device.heap (BitVec.ofNat 32 (strlen copied.2 + 1))
  let K := { K with device := { K.device with heap := heap } }
  match copied.1 with
  | none => .error .nullPointer
  | some name =>
      if ptr = 0 then .error .nullPointer
      else if strlen name < minNameLen ∨ strlen name > maxNameLen then
        C "\nInvalid PCB name." K
      else do
        let K ← C "Please enter the new priority of the PCB: " K
        let newPriority := atoi priorityBuf
        if newPriority < 0 ∨ newPriority > 9 then
          C "\nInvalid priority, please assign a priority in range 0-9." K
        else do
          let (currPcb, K) ← pcbFind C K name
          if currPcb = 0 then .error .nullPointer
          else
            let procs := K.procs.modify currPcb fun b => { b with priority := newPriority }
            return { K with procs := procs }

def processName (i : Nat) : List U8 :=
  [112, 114, 111, 99, 101, 115, 115, 48 + BitVec.ofNat 8 i]

def loadProcess (F : HeapFunctions σ) (C : Console σ) (proc : Nat → U32) (i : Nat)
    (K : Kernel σ) : Except Fault (U32 × Kernel σ) :=
  startProcess F C K (processName i) userProc i (i = 1) (proc i)

def loadProcesses (F : HeapFunctions σ) (C : Console σ) (proc : Nat → U32) :
    List Nat → Kernel σ → Except Fault (List U32 × Kernel σ)
  | [], K => .ok ([], K)
  | i :: is, K => do
      let (newPcb, K) ← loadProcess F C proc i K
      let (pcbs, K) ← loadProcesses F C proc is K
      return (newPcb :: pcbs, K)

/-- `proc` maps 1 to 5 to the addresses of `proc1` to `proc5`. -/
def loadR3 (F : HeapFunctions σ) (C : Console σ) (proc : Nat → U32) (K : Kernel σ) :
    Except Fault (List U32 × Kernel σ) :=
  loadProcesses F C proc [1, 2, 3, 4, 5] K

/-- What a command that has reported success did: it acted on a user process with the
given name that is on the ready or the suspended queue. -/
theorem onUserProcess_cases {C : Console σ} {K K' : Kernel σ} {buf : List U8}
    {invalid notFound msg : String} {act : Kernel σ → U32 → Except Fault (String × Kernel σ)}
    (hinvalid : msg ≠ invalid) (hnotFound : msg ≠ notFound)
    (hsystem : msg ≠ "\nSystem processes cannot be deleted. \n")
    (hrun : onUserProcess C K buf invalid notFound act = .ok (msg, K')) :
    ∃ name p, (strtok buf whitespace).1 = some name ∧ minNameLen ≤ strlen name ∧
      strlen name ≤ maxNameLen ∧ pcbSearch K.procs name = .ok p ∧ p ≠ 0 ∧
      (K.procs.pcbs p).procClass ≠ systemProc ∧ act K p = .ok (msg, K') := by
  rw [onUserProcess] at hrun
  cases hname : (strtok buf whitespace).1 with
  | none =>
      rw [hname] at hrun
      cases hrun
      exact absurd rfl hinvalid
  | some name =>
      rw [hname] at hrun
      by_cases hlength : strlen name < minNameLen ∨ strlen name > maxNameLen
      · simp only [if_pos hlength] at hrun
        cases hrun
        exact absurd rfl hinvalid
      · simp only [if_neg hlength] at hrun
        rcases of_bind_ok hrun with ⟨⟨p, K₁⟩, hfind, hact⟩
        rcases of_bind_ok hfind with ⟨w, hsearch, hmessage⟩
        by_cases hp : p = 0
        · simp only [if_pos hp] at hact
          cases hact
          exact absurd rfl hnotFound
        · simp only [if_neg hp] at hact
          by_cases hw : w = 0 ∧ K.procs.suspendedHead ≠ 0
          · rw [if_pos hw] at hmessage
            rcases of_bind_ok hmessage with ⟨K₂, -, heq⟩
            cases heq
            exact absurd rfl hp
          · rw [if_neg hw] at hmessage
            cases hmessage
            by_cases hclass : (K.procs.pcbs p).procClass = systemProc
            · rw [if_pos hclass] at hact
              cases hact
              exact absurd rfl hsystem
            · rw [if_neg hclass] at hact
              rcases not_or.mp hlength with ⟨hmin, hmax⟩
              exact ⟨name, p, rfl, not_lt.mp hmin, not_lt.mp hmax, hsearch, hp, hclass, hact⟩

/-! What the messages of a command keep, and what it does to the process that it finds. -/

section Kept

variable {I : Kernel σ → Prop} {C : Console σ} {K K' : Kernel σ} {buf : List U8} {p : U32}

theorem pcbFind_kept {foundName : List U8} (hwrite : ∀ msg K K', I K → C msg K = .ok K' → I K')
    (h : I K) (hrun : pcbFind C K foundName = .ok (p, K')) : I K' := by
  rcases of_bind_ok hrun with ⟨w, -, hmessage⟩
  by_cases hw : w = 0 ∧ K.procs.suspendedHead ≠ 0
  · rw [if_pos hw] at hmessage
    rcases of_bind_ok hmessage with ⟨K₁, hwritten, heq⟩
    cases heq
    exact hwrite _ _ _ h hwritten
  · rw [if_neg hw] at hmessage
    cases hmessage
    exact h

theorem pcbFind_onSome {foundName : List U8} (hrun : pcbFind C K foundName = .ok (p, K'))
    (hp : p ≠ 0) : K' = K ∧ K.procs.OnSome p := by
  rcases of_bind_ok hrun with ⟨w, hsearch, hmessage⟩
  by_cases hw : w = 0 ∧ K.procs.suspendedHead ≠ 0
  · rw [if_pos hw] at hmessage
    rcases of_bind_ok hmessage with ⟨K₁, -, heq⟩
    cases heq
    exact absurd rfl hp
  · rw [if_neg hw] at hmessage
    cases hmessage
    cases (pcbSearch_found hsearch hp).1 with
    | inl hready => exact ⟨rfl, .ready, hready⟩
    | inr hsuspended => exact ⟨rfl, .suspended, hsuspended⟩

theorem onUserProcess_kept {invalid notFound msg : String}
    {act : Kernel σ → U32 → Except Fault (String × Kernel σ)}
    (hwrite : ∀ msg K K', I K → C msg K = .ok K' → I K') (h : I K)
    (hact : ∀ p, K.procs.OnSome p → act K p = .ok (msg, K') → I K')
    (hrun : onUserProcess C K buf invalid notFound act = .ok (msg, K')) : I K' := by
  rw [onUserProcess] at hrun
  cases hname : (strtok buf whitespace).1 with
  | none =>
      rw [hname] at hrun
      cases hrun
      exact h
  | some name =>
      rw [hname] at hrun
      by_cases hlength : strlen name < minNameLen ∨ strlen name > maxNameLen
      · simp only [if_pos hlength] at hrun
        cases hrun
        exact h
      · simp only [if_neg hlength] at hrun
        rcases of_bind_ok hrun with ⟨⟨p, K₁⟩, hfind, hrest⟩
        by_cases hp : p = 0
        · simp only [if_pos hp] at hrest
          cases hrest
          exact pcbFind_kept hwrite h hfind
        · rcases pcbFind_onSome hfind hp with ⟨hsame, hon⟩
          rw [hsame] at hrest
          simp only [if_neg hp] at hrest
          by_cases hclass : (K.procs.pcbs p).procClass = systemProc
          · rw [if_pos hclass] at hrest
            cases hrest
            exact h
          · rw [if_neg hclass] at hrest
            exact hact p hon hrest

theorem writeAll_kept {msgs : List String} (hwrite : ∀ msg K K', I K → C msg K = .ok K' → I K')
    (h : I K) (hrun : writeAll C msgs K = .ok K') : I K' := by
  induction msgs generalizing K with
  | nil =>
      cases hrun
      exact h
  | cons msg msgs ih =>
      rcases of_bind_ok hrun with ⟨K₁, hfirst, hrest⟩
      exact ih (hwrite _ _ _ h hfirst) hrest

theorem showPcb_kept (hwrite : ∀ msg K K', I K → C msg K = .ok K' → I K') (h : I K)
    (hrun : showPcb C K buf = .ok K') : I K' := by
  rw [showPcb] at hrun
  cases hname : (strtok buf whitespace).1 with
  | none =>
      rw [hname] at hrun
      exact hwrite _ _ _ h hrun
  | some name =>
      rw [hname] at hrun
      by_cases hlength : strlen name < minNameLen ∨ strlen name > maxNameLen
      · simp only [if_pos hlength] at hrun
        exact hwrite _ _ _ h hrun
      · simp only [if_neg hlength] at hrun
        rcases of_bind_ok hrun with ⟨⟨p, K₁⟩, hfind, hrest⟩
        by_cases hp : p = 0
        · simp only [if_pos hp] at hrest
          cases hrest
        · simp only [if_neg hp] at hrest
          rcases of_bind_ok hrest with ⟨K₂, htitle, hrest⟩
          rcases of_bind_ok hrest with ⟨K₃, hname, hrest⟩
          have hfound := pcbFind_kept hwrite h hfind
          exact writeAll_kept hwrite (hwrite _ _ _ (writeAll_kept hwrite hfound htitle) hname) hrest

theorem setPcbPriority_kept {F : HeapFunctions σ} {priorityBuf : List U8}
    (hwrite : ∀ msg K K', I K → C msg K = .ok K' → I K')
    (hassign : ∀ K p v, I K →
      I { K with procs := K.procs.modify p fun b => { b with priority := v } })
    (hcopied : ∀ ptr heap, ptr ≠ 0 → sysAllocMem F K.device.heap
      (BitVec.ofNat 32 (strlen (strtok buf whitespace).2 + 1)) = .ok (ptr, heap) →
        I { K with device := { K.device with heap := heap } })
    (hrun : setPcbPriority F C K buf priorityBuf = .ok K') : I K' := by
  rw [setPcbPriority] at hrun
  rcases of_bind_ok hrun with ⟨⟨ptr, heap⟩, halloc, hrest⟩
  cases hname : (strtok buf whitespace).1 with
  | none =>
      simp only [hname] at hrest
      cases hrest
  | some name =>
      simp only [hname] at hrest
      by_cases hnull : ptr = 0
      · rw [if_pos hnull] at hrest
        cases hrest
      · rw [if_neg hnull] at hrest
        have hstart := hcopied ptr heap hnull halloc
        by_cases hlength : strlen name < minNameLen ∨ strlen name > maxNameLen
        · rw [if_pos hlength] at hrest
          exact hwrite _ _ _ hstart hrest
        · rw [if_neg hlength] at hrest
          rcases of_bind_ok hrest with ⟨K₁, hprompt, hrest⟩
          have hprompted := hwrite _ _ _ hstart hprompt
          by_cases hpriority : atoi priorityBuf < 0 ∨ atoi priorityBuf > 9
          · simp only [if_pos hpriority] at hrest
            exact hwrite _ _ _ hprompted hrest
          · simp only [if_neg hpriority] at hrest
            rcases of_bind_ok hrest with ⟨⟨currPcb, K₂⟩, hfind, hrest⟩
            by_cases hmissing : currPcb = 0
            · simp only [if_pos hmissing] at hrest
              cases hrest
            · simp only [if_neg hmissing] at hrest
              cases hrest
              exact hassign _ _ _ (pcbFind_kept hwrite hprompted hfind)

end Kept

end Mpx
