import Mpx.Base.Run
import Mpx.Process.Queue
import Mpx.Serial.Model

/-! The system call handler of `kernel/sys_call.c`. -/

namespace Mpx

open Memory Run

structure Context where
  ds : U32
  es : U32
  fs : U32
  gs : U32
  ss : U32
  eax : U32
  ebx : U32
  ecx : U32
  edx : U32
  esp : U32
  ebp : U32
  esi : U32
  edi : U32
  eip : U32
  cs : U32
  flags : U32
  deriving DecidableEq, Repr

/-- The global variables of the kernel and the contexts saved in memory. -/
structure Kernel (σ : Type) where
  procs : Procs
  globalPcb : U32
  initialContext : U32
  contexts : U32 → Context
  device : Device σ

def syscallNumber (eax : U32) : Option OpCode :=
  if eax = 0 then some .exit
  else if eax = 1 then some .idle
  else if eax = 2 then some .read
  else if eax = 3 then some .write
  else none

variable {σ : Type}

/-- The statements of `case WRITE`, which are also those of `case READ`. -/
def requestCase (F : HeapFunctions σ) (K : Kernel σ) (currentContext : U32)
    (syscall : OpCode) : Except Fault (Kernel σ) :=
  if K.globalPcb = 0 then .error .nullPointer
  else do
    let procs := K.procs.setStackTop K.globalPcb currentContext
    let procs := procs.setState K.globalPcb blockedState
    let context := K.contexts currentContext
    let device ← ioScheduler F K.device K.globalPcb context.ebx context.ecx context.edx syscall
    let procs ← pcbInsert procs K.globalPcb
    return { K with procs := procs, device := device }

def dispatch (K : Kernel σ) (nextPcb : U32) : Except Fault (U32 × Kernel σ) :=
  if nextPcb = 0 then .ok (K.initialContext, K)
  else do
    let (_, procs) ← pcbRemove K.procs nextPcb
    let procs := (procs.setNext nextPcb 0).setState nextPcb readyState
    return ((procs.pcbs nextPcb).stackTop, { K with procs := procs, globalPcb := nextPcb })

def idleCase (K : Kernel σ) (currentContext nextPcb : U32) : Except Fault (U32 × Kernel σ) :=
  let K := if K.initialContext = 0 then { K with initialContext := currentContext } else K
  if nextPcb = 0 then .ok (currentContext, K)
  else if K.globalPcb ≠ 0 then do
    let procs := K.procs.setStackTop K.globalPcb currentContext
    let procs := procs.setState K.globalPcb readyState
    let procs ← pcbInsert procs K.globalPcb
    dispatch { K with procs := procs } nextPcb
  else dispatch K nextPcb

def exitCase (F : HeapFunctions σ) (K : Kernel σ) (nextPcb : U32) :
    Except Fault (U32 × Kernel σ) :=
  if K.globalPcb ≠ 0 then do
    let (_, procs) ← pcbRemove K.procs K.globalPcb
    if nextPcb = 0 then .error .nullPointer
    else
      let procs := procs.setNext nextPcb 0
      let (_, heap) ← pcbFree F K.device.heap procs K.globalPcb
      return (K.initialContext, { K with
        procs := procs, globalPcb := 0, device := { K.device with heap := heap } })
  else dispatch K nextPcb

/-- No `break` ends `case WRITE` or `case READ`: each runs on into the next case. -/
def sysCall (F : HeapFunctions σ) (K : Kernel σ) (currentContext : U32) :
    Except Fault (U32 × Kernel σ) :=
  let nextPcb := K.procs.readyHead
  match syscallNumber (K.contexts currentContext).eax with
  | some .write => do
      let K ← requestCase F K currentContext .write
      let K ← requestCase F K currentContext .write
      idleCase K currentContext nextPcb
  | some .read => do
      let K ← requestCase F K currentContext .read
      idleCase K currentContext nextPcb
  | some .idle => idleCase K currentContext nextPcb
  | some .exit => exitCase F K nextPcb
  | none =>
      let context := { K.contexts currentContext with eax := -1 }
      .ok (currentContext, { K with
        contexts := Function.update K.contexts currentContext context })

section Returns

variable {F : HeapFunctions σ} {K K' : Kernel σ} {ctx n r : U32}

theorem dispatch_cases (hrun : dispatch K n = .ok (r, K')) :
    (n = 0 ∧ r = K.initialContext ∧ K' = K) ∨
    (n ≠ 0 ∧ ∃ result s, pcbRemove K.procs n = .ok (result, s) ∧
      r = (((s.setNext n 0).setState n readyState).pcbs n).stackTop ∧
      K' = { K with procs := (s.setNext n 0).setState n readyState, globalPcb := n }) := by
  by_cases hn : n = 0
  · rw [dispatch, if_pos hn] at hrun
    cases hrun
    exact Or.inl ⟨hn, rfl, rfl⟩
  · rw [dispatch, if_neg hn] at hrun
    rcases of_bind_ok hrun with ⟨⟨result, s⟩, hremove, heq⟩
    cases heq
    exact Or.inr ⟨hn, result, s, hremove, rfl, rfl⟩

/-- The first IDLE call keeps its context, and nothing else changes with that. -/
theorem keepContext_eq (K : Kernel σ) (ctx : U32) :
    ∃ context, (if K.initialContext = 0 then { K with initialContext := ctx } else K) =
      { K with initialContext := context } := by
  by_cases hinit : K.initialContext = 0
  · exact ⟨ctx, if_pos hinit⟩
  · exact ⟨K.initialContext, if_neg hinit⟩

theorem idleCase_cases (hrun : idleCase K ctx n = .ok (r, K')) : ∃ context,
    (n = 0 ∧ r = ctx ∧ K' = { K with initialContext := context }) ∨
    (n ≠ 0 ∧ K.globalPcb = 0 ∧
      dispatch { K with initialContext := context } n = .ok (r, K')) ∨
    (n ≠ 0 ∧ K.globalPcb ≠ 0 ∧ ∃ s,
      pcbInsert ((K.procs.setStackTop K.globalPcb ctx).setState K.globalPcb readyState)
        K.globalPcb = .ok s ∧
      dispatch { K with initialContext := context, procs := s } n = .ok (r, K')) := by
  rcases keepContext_eq K ctx with ⟨context, hcontext⟩
  rw [idleCase, hcontext] at hrun
  refine ⟨context, ?_⟩
  by_cases hn : n = 0
  · simp only [if_pos hn] at hrun
    cases hrun
    exact Or.inl ⟨hn, rfl, rfl⟩
  · simp only [if_neg hn] at hrun
    by_cases hg : K.globalPcb = 0
    · rw [if_neg (not_not.mpr hg)] at hrun
      exact Or.inr (Or.inl ⟨hn, hg, hrun⟩)
    · rw [if_pos hg] at hrun
      rcases of_bind_ok hrun with ⟨s, hinsert, hdispatch⟩
      exact Or.inr (Or.inr ⟨hn, hg, s, hinsert, hdispatch⟩)

theorem dispatch_resumes (hn : n ≠ 0) (hrun : dispatch K n = .ok (r, K')) :
    r = (K'.procs.pcbs n).stackTop ∧ K'.globalPcb = n := by
  cases dispatch_cases hrun with
  | inl hnone => exact absurd hnone.1 hn
  | inr hnext =>
      obtain ⟨-, result, s, -, rfl, rfl⟩ := hnext
      exact ⟨rfl, rfl⟩

theorem idleCase_dispatches (hn : n ≠ 0) (hrun : idleCase K ctx n = .ok (r, K')) :
    r = (K'.procs.pcbs n).stackTop ∧ K'.globalPcb = n := by
  obtain ⟨context, hcases⟩ := idleCase_cases hrun
  cases hcases with
  | inl hnone => exact absurd hnone.1 hn
  | inr hsome =>
      cases hsome with
      | inl hfirst => exact dispatch_resumes hn hfirst.2.2
      | inr hswitch =>
          obtain ⟨-, -, s, -, hdispatch⟩ := hswitch
          exact dispatch_resumes hn hdispatch

theorem exitCase_cases (hrun : exitCase F K n = .ok (r, K')) :
    (K.globalPcb = 0 ∧ dispatch K n = .ok (r, K')) ∨
    (K.globalPcb ≠ 0 ∧ n ≠ 0 ∧ ∃ result s freed heap,
      pcbRemove K.procs K.globalPcb = .ok (result, s) ∧
      pcbFree F K.device.heap (s.setNext n 0) K.globalPcb = .ok (freed, heap) ∧
      r = K.initialContext ∧ K' = { K with
        procs := s.setNext n 0, globalPcb := 0, device := { K.device with heap := heap } }) := by
  rw [exitCase] at hrun
  by_cases hg : K.globalPcb = 0
  · rw [if_neg (not_not.mpr hg)] at hrun
    exact Or.inl ⟨hg, hrun⟩
  · rw [if_pos hg] at hrun
    rcases of_bind_ok hrun with ⟨⟨result, s⟩, hremove, hrest⟩
    by_cases hn : n = 0
    · simp only [if_pos hn] at hrest
      cases hrest
    · simp only [if_neg hn] at hrest
      rcases of_bind_ok hrest with ⟨⟨freed, heap⟩, hfree, heq⟩
      cases heq
      exact Or.inr ⟨hg, hn, result, s, freed, heap, hremove, hfree, rfl, rfl⟩

theorem sysCall_cases (hrun : sysCall F K ctx = .ok (r, K')) :
    K' = { K with
      contexts := Function.update K.contexts ctx { K.contexts ctx with eax := -1 } } ∨
    exitCase F K K.procs.readyHead = .ok (r, K') ∨
    idleCase K ctx K.procs.readyHead = .ok (r, K') ∨
    (∃ K₁, requestCase F K ctx .read = .ok K₁ ∧
      idleCase K₁ ctx K.procs.readyHead = .ok (r, K')) ∨
    ∃ K₁ K₂, requestCase F K ctx .write = .ok K₁ ∧ requestCase F K₁ ctx .write = .ok K₂ ∧
      idleCase K₂ ctx K.procs.readyHead = .ok (r, K') := by
  rw [sysCall] at hrun
  cases hop : syscallNumber (K.contexts ctx).eax with
  | none =>
      rw [hop] at hrun
      cases hrun
      exact Or.inl rfl
  | some op =>
      rw [hop] at hrun
      cases op with
      | exit => exact Or.inr (Or.inl hrun)
      | idle => exact Or.inr (Or.inr (Or.inl hrun))
      | read =>
          rcases of_bind_ok hrun with ⟨K₁, hrequest, hidle⟩
          exact Or.inr (Or.inr (Or.inr (Or.inl ⟨K₁, hrequest, hidle⟩)))
      | write =>
          rcases of_bind_ok hrun with ⟨K₁, hfirst, hrest⟩
          rcases of_bind_ok hrest with ⟨K₂, hsecond, hidle⟩
          exact Or.inr (Or.inr (Or.inr (Or.inr ⟨K₁, K₂, hfirst, hsecond, hidle⟩)))

theorem requestCase_device {op : OpCode} (hrun : requestCase F K ctx op = .ok K') :
    K'.contexts = K.contexts ∧ ∃ proc, ioScheduler F K.device proc (K.contexts ctx).ebx
      (K.contexts ctx).ecx (K.contexts ctx).edx op = .ok K'.device := by
  by_cases hg : K.globalPcb = 0
  · rw [requestCase, if_pos hg] at hrun
    cases hrun
  · rw [requestCase, if_neg hg] at hrun
    obtain ⟨device, hsched, hrest⟩ := of_bind_ok hrun
    obtain ⟨procs, -, heq⟩ := of_bind_ok hrest
    cases heq
    exact ⟨rfl, K.globalPcb, hsched⟩

theorem dispatch_device (hrun : dispatch K n = .ok (r, K')) :
    K'.device = K.device ∧ K'.contexts = K.contexts := by
  cases dispatch_cases hrun with
  | inl hnone => exact ⟨by rw [hnone.2.2], by rw [hnone.2.2]⟩
  | inr hnext =>
      obtain ⟨-, result, s, -, -, rfl⟩ := hnext
      exact ⟨rfl, rfl⟩

/-- The switch to another process leaves the device and the saved contexts alone. -/
theorem idleCase_device (hrun : idleCase K ctx n = .ok (r, K')) :
    K'.device = K.device ∧ K'.contexts = K.contexts := by
  obtain ⟨context, hcases⟩ := idleCase_cases hrun
  cases hcases with
  | inl hnone => exact ⟨by rw [hnone.2.2], by rw [hnone.2.2]⟩
  | inr hsome =>
      cases hsome with
      | inl hfirst =>
          have hsame := dispatch_device hfirst.2.2
          exact hsame
      | inr hswitch =>
          obtain ⟨-, -, s, -, hdispatch⟩ := hswitch
          have hsame := dispatch_device hdispatch
          exact hsame

end Returns

/-- A kernel in memory: its PCBs, the heads of the ready and the blocked queue, the
running PCB and the registers of the system call that this one makes. -/
def kernelWith (pcbs : List (U32 × Pcb)) (readyHead blockedHead globalPcb : U32)
    (call : Context) (device : Device σ) : Kernel σ where
  procs := ⟨fun p => (pcbs.lookup p).getD ⟨[], 0, 0, 0, 0, 0, 0⟩, readyHead, blockedHead, 0⟩
  globalPcb := globalPcb
  initialContext := 0
  contexts := fun _ => call
  device := device

def callContext (eax ebx ecx edx : U32) : Context :=
  ⟨0, 0, 0, 0, 0, eax, ebx, ecx, edx, 0, 0, 0, 0, 0, 0, 0⟩

end Mpx
