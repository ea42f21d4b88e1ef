import Mpx.Kernel.Exit

/-! WRITE and READ system calls: they run on into `case IDLE`, which makes the blocked
caller ready again. -/

namespace Mpx

open Memory PointerList Procs Run

variable {σ : Type} {F : HeapFunctions σ}

theorem dispatch_state {K K' : Kernel σ} {n r x : U32} (hrun : dispatch K n = .ok (r, K'))
    (hx : (K.procs.pcbs x).state = readyState) : (K'.procs.pcbs x).state = readyState := by
  rcases dispatch_cases hrun with ⟨-, -, rfl⟩ | ⟨-, result, s, hremove, -, rfl⟩
  · exact hx
  · by_cases hxn : x = n
    · subst hxn
      rw [setState, pcbs_modify_self]
    · rw [setState, pcbs_modify_ne hxn, (linksOnly_setNext n 0).state,
        (pcbRemove_linksOnly hremove).state, hx]

/-- `case IDLE` makes the running PCB ready, whatever state it is in. -/
theorem idleCase_state {K K' : Kernel σ} {ctx n r : U32} (hn : n ≠ 0) (hg : K.globalPcb ≠ 0)
    (hrun : idleCase K ctx n = .ok (r, K')) :
    (K'.procs.pcbs K.globalPcb).state = readyState := by
  rcases idleCase_cases hrun with ⟨context, ⟨hnull, -⟩ | ⟨-, hnone, -⟩ |
    ⟨-, -, s, hinsert, hdispatch⟩⟩
  · exact absurd hnull hn
  · exact absurd hnone hg
  apply dispatch_state hdispatch
  rw [(pcbInsert_linksOnly hinsert).state, setState, pcbs_modify_self]

theorem requestCase_globalPcb {K K' : Kernel σ} {ctx : U32} {op : OpCode}
    (hrun : requestCase F K ctx op = .ok K') :
    K.globalPcb ≠ 0 ∧ K'.globalPcb = K.globalPcb := by
  by_cases hg : K.globalPcb = 0
  · rw [requestCase, if_pos hg] at hrun
    cases hrun
  · rw [requestCase, if_neg hg] at hrun
    obtain ⟨device, -, hrun⟩ := of_bind_ok hrun
    obtain ⟨procs, -, heq⟩ := of_bind_ok hrun
    cases heq
    exact ⟨hg, rfl⟩

/-- A WRITE or READ that returns leaves its caller ready. -/
theorem sysCall_request_state {K K' : Kernel σ} {ctx r : U32}
    (hop : syscallNumber (K.contexts ctx).eax = some .write ∨
      syscallNumber (K.contexts ctx).eax = some .read)
    (hready : K.procs.readyHead ≠ 0) (hrun : sysCall F K ctx = .ok (r, K')) :
    (K'.procs.pcbs K.globalPcb).state = readyState := by
  rcases hop with hop | hop
  · simp only [sysCall, hop] at hrun
    obtain ⟨K₁, hfirst, hrun⟩ := of_bind_ok hrun
    obtain ⟨K₂, hsecond, hidle⟩ := of_bind_ok hrun
    obtain ⟨hg, hglobal₁⟩ := requestCase_globalPcb hfirst
    have hglobal := (requestCase_globalPcb hsecond).2.trans hglobal₁
    rw [← hglobal] at hg ⊢
    exact idleCase_state hready hg hidle
  · simp only [sysCall, hop] at hrun
    obtain ⟨K₁, hfirst, hidle⟩ := of_bind_ok hrun
    obtain ⟨hg, hglobal⟩ := requestCase_globalPcb hfirst
    rw [← hglobal] at hg ⊢
    exact idleCase_state hready hg hidle

/-- The call returns, the caller has one request more on the device queue and waits once
on the blocked queue, the old head of the ready queue runs, and all others are where
they were. -/
def BlocksOnce (F : HeapFunctions σ) (K : Kernel σ) (ctx : U32) (lists : Queue → List U32)
    (requests : List U32) : Prop :=
  ∃ (r : U32) (K' : Kernel σ) (lists' : Queue → List U32) (ptr : U32),
    sysCall F K ctx = .ok (r, K') ∧
    IsList 0 (fun p => (K'.device.iocbs p).next) K'.device.port.ioHead (requests ++ [ptr]) ∧
    (K'.device.iocbs ptr).currProc = K.globalPcb ∧
    (∀ q, K'.procs.Holds q (lists' q)) ∧
    (lists' .blocked).count K.globalPcb = 1 ∧
    (∀ q, q ≠ .blocked → K.globalPcb ∉ lists' q) ∧
    (K'.procs.pcbs K.globalPcb).state = blockedState ∧
    K'.globalPcb = K.procs.readyHead ∧
    lists' .ready = (lists .ready).tail ∧
    (lists' .blocked).erase K.globalPcb = lists .blocked ∧
    lists' .suspended = lists .suspended

theorem not_blocks_once {K : Kernel σ} {ctx : U32} {lists : Queue → List U32}
    {requests : List U32} (h : WellQueued K lists) (hready : lists .ready ≠ [])
    (hop : syscallNumber (K.contexts ctx).eax = some .write ∨
      syscallNumber (K.contexts ctx).eax = some .read) :
    ¬ BlocksOnce F K ctx lists requests := by
  rintro ⟨r, K', lists', ptr, hrun, -, -, -, -, -, hstate, -⟩
  have hhead : K.procs.readyHead ≠ 0 := by
    intro hnull
    have hlist := h.holds .ready
    rw [Holds, show K.procs.head .ready = 0 from hnull, isList_null] at hlist
    exact hready hlist
  rw [sysCall_request_state hop hhead hrun] at hstate
  exact absurd hstate (by decide)

theorem not_blocks_once_five_bytes :
    ¬ BlocksOnce studentHeap (callingKernel 0x200 (callContext 3 COM1 0x6000 5)) 0x1234
      (onlyReady [0x200, 0x300]) [] :=
  not_blocks_once (callingKernel_two_ready _) (by decide) (Or.inl (by decide))

/-- What a caller with a request of five bytes is left with: its state, the ready queue's
head and the link of that PCB, and the two requests on the device queue. -/
theorem write_readies_its_caller :
    WellQueued (callingKernel 0x200 (callContext 3 COM1 0x6000 5))
      (onlyReady [0x200, 0x300]) ∧
    (sysCall studentHeap (callingKernel 0x200 (callContext 3 COM1 0x6000 5)) 0x1234).map
      (fun r =>
        let first := r.2.device.port.ioHead
        let second := (r.2.device.iocbs first).next
        ((r.2.procs.pcbs 0x100).state, r.2.procs.readyHead, r.2.procs.next 0x300,
          (r.2.device.iocbs first).currProc, (r.2.device.iocbs second).currProc,
          decide (second = 0))) =
      .ok (readyState, 0x300, 0x100, 0x100, 0x100, false) ∧
    ¬ BlocksOnce studentHeap (callingKernel 0x200 (callContext 3 COM1 0x6000 5)) 0x1234
      (onlyReady [0x200, 0x300]) [] := by
  refine ⟨callingKernel_two_ready _, by decide +kernel, ?_⟩
  rintro ⟨r, K', lists', ptr, hrun, -, -, -, -, -, hstate, -⟩
  have hready := sysCall_request_state (Or.inl (by decide)) (by decide) hrun
  rw [show (callingKernel 0x200 (callContext 3 COM1 0x6000 5)).globalPcb = 0x100 from rfl]
    at hstate hready
  rw [hready] at hstate
  exact absurd hstate (by decide)

end Mpx
