import Mpx.Kernel.Yield
import Mpx.Process.Free

/-! EXIT system calls: what becomes of the other processes. -/

namespace Mpx

open Memory PointerList Procs

variable {σ : Type} {F : HeapFunctions σ}

/-- The queues are the acyclic and sorted `lists`, no PCB is on two of them, and the
running PCB is on none. -/
structure WellQueued (K : Kernel σ) (lists : Queue → List U32) : Prop where
  holds : ∀ q, K.procs.Holds q (lists q)
  sorted : ∀ q, K.procs.Sorted (lists q)
  disjoint : ∀ q q', q ≠ q' → ∀ p ∈ lists q, p ∉ lists q'
  running : K.globalPcb ≠ 0
  alone : ∀ q, K.globalPcb ∉ lists q

/-- EXIT returns, the exited PCB neither runs nor waits, and every other PCB is where
it was, unless it has been dispatched. -/
def ExitRemovesOnlyCaller (F : HeapFunctions σ) (K : Kernel σ) (ctx : U32)
    (lists : Queue → List U32) : Prop :=
  ∃ r K', sysCall F K ctx = .ok (r, K') ∧ K'.globalPcb ≠ K.globalPcb ∧
    (∀ q, ¬ K'.procs.OnQueue q K.globalPcb) ∧
    ∀ q, K'.procs.Holds q ((lists q).filter fun p => p ≠ K'.globalPcb)

theorem pcbRemove_running {K : Kernel σ} {lists : Queue → List U32}
    (h : WellQueued K lists) : pcbRemove K.procs K.globalPcb = .ok (pcbError, K.procs) :=
  pcbRemove_not_mem fun q _ => ⟨lists q, h.holds q, h.alone q⟩

theorem pcbFree_congr {s s' : Procs} {p : U32} (hname : (s'.pcbs p).name = (s.pcbs p).name)
    (h : σ) : pcbFree F h s' p = pcbFree F h s p := by
  simp only [pcbFree, hname]

/-- `exit` cuts the ready queue off behind its head. -/
theorem exitCase_spec {K : Kernel σ} {lists : Queue → List U32} {n : U32} {rest : List U32}
    (h : WellQueued K lists) (hready : lists .ready = n :: rest) :
    exitCase F K n = (do
      let (_, heap) ← pcbFree F K.device.heap K.procs K.globalPcb
      return (K.initialContext, { K with
        procs := K.procs.setNext n 0, globalPcb := 0
        device := { K.device with heap := heap } })) := by
  have hlist := h.holds .ready
  rw [hready] at hlist
  have hne : K.globalPcb ≠ n := by
    rintro rfl
    exact h.alone .ready (by rw [hready]; exact List.mem_cons_self)
  have hname : ((K.procs.setNext n 0).pcbs K.globalPcb).name =
      (K.procs.pcbs K.globalPcb).name := by
    rw [setNext, pcbs_modify_ne hne]
  rw [exitCase, if_pos h.running, pcbRemove_running h]
  simp only [bind, Except.bind, if_neg hlist.2.1]
  rw [pcbFree_congr hname]

theorem holds_setNext_other {s : Procs} {q : Queue} {p : U32} {xs : List U32}
    (h : s.Holds q xs) (hp : p ∉ xs) (v : U32) : (s.setNext p v).Holds q xs := by
  rw [Holds, head_setNext, next_setNext]
  exact h.update_other hp v

theorem exitCase_keeps_iff {K : Kernel σ} {lists : Queue → List U32} {n : U32}
    {rest : List U32} (h : WellQueued K lists) (hready : lists .ready = n :: rest) :
    (∀ q, (K.procs.setNext n 0).Holds q (lists q)) ↔ rest = [] := by
  have hlist := h.holds .ready
  rw [hready] at hlist
  constructor
  · intro hall
    have hcut := hall .ready
    rw [hready] at hcut
    have htail := hcut.2.2
    rw [next_setNext, Function.update_self] at htail
    exact isList_null.mp htail
  · rintro rfl q
    by_cases hq : q = .ready
    · rw [hq, hready, Holds, head_setNext, next_setNext]
      exact ⟨hlist.1, hlist.2.1, Function.update_self _ _ _⟩
    · refine holds_setNext_other (h.holds q) (fun hmem => ?_) 0
      refine h.disjoint q .ready hq n hmem ?_
      rw [hready]
      exact List.mem_cons_self

theorem filter_ne_null {lists : Queue → List U32} {K : Kernel σ} (h : WellQueued K lists)
    (q : Queue) : ((lists q).filter fun p => p ≠ 0) = lists q := by
  rw [List.filter_eq_self]
  intro p hp
  simpa using (h.holds q).ne_null hp

/-- The exited process takes nothing else with it exactly where one process is ready
and its own block can be released. -/
theorem exitCase_iff {K : Kernel σ} {lists : Queue → List U32} {ctx : U32}
    (h : WellQueued K lists) (hop : syscallNumber (K.contexts ctx).eax = some .exit) :
    ExitRemovesOnlyCaller F K ctx lists ↔ (lists .ready).length = 1 ∧
      ∃ r, pcbFree F K.device.heap K.procs K.globalPcb = .ok r := by
  have hlist := h.holds .ready
  cases hready : lists .ready with
  | nil =>
      rw [hready] at hlist
      have hhead : K.procs.readyHead = 0 := hlist
      have hfault : sysCall F K ctx = .error .nullPointer := by
        simp only [sysCall, hop, exitCase, if_pos h.running, pcbRemove_running h, hhead]
        rfl
      constructor
      · rintro ⟨r, K', hrun, -⟩
        rw [hfault] at hrun
        cases hrun
      · rintro ⟨hlength, -⟩
        cases hlength
  | cons n rest =>
      rw [hready] at hlist
      have hhead : K.procs.readyHead = n := hlist.1
      have hrun : sysCall F K ctx = exitCase F K n := by
        simp only [sysCall, hop, hhead]
      rw [exitCase_spec h hready] at hrun
      cases hfree : pcbFree F K.device.heap K.procs K.globalPcb with
      | error e =>
          rw [hfree] at hrun
          constructor
          · rintro ⟨r, K', hok, -⟩
            rw [hrun] at hok
            cases hok
          · rintro ⟨-, r, hok⟩
            cases hok
      | ok r =>
          rw [hfree] at hrun
          have hkeeps := exitCase_keeps_iff h hready
          constructor
          · rintro ⟨r', K', hok, -, -, hqueues⟩
            rw [hrun] at hok
            cases hok
            simp only [filter_ne_null h] at hqueues
            rw [hkeeps.mp hqueues]
            exact ⟨rfl, r, rfl⟩
          · rintro ⟨hlength, -⟩
            have hnil : rest = [] := List.length_eq_zero_iff.mp (Nat.succ.inj hlength)
            have hqueues := hkeeps.mpr hnil
            refine ⟨_, _, hrun, h.running.symm, fun q hon => ?_, ?_⟩
            · exact h.alone q ((hqueues q).onQueue_iff.mp hon)
            · simpa only [filter_ne_null h] using hqueues

theorem exit_removes_only_caller_iff {K : Kernel Heap} {lists : Queue → List U32} {ctx : U32}
    (h : WellQueued K lists) (hop : syscallNumber (K.contexts ctx).eax = some .exit) :
    (ExitRemovesOnlyCaller studentHeap K ctx lists ↔ (lists .ready).length = 1 ∧
        ∃ r, pcbFree studentHeap K.device.heap K.procs K.globalPcb = .ok r) ∧
      ∀ live, OwnsBlocks K.device.heap live →
        ((∃ r, pcbFree studentHeap K.device.heap K.procs K.globalPcb = .ok r) ↔
          K.globalPcb ∈ live ∧ (K.procs.pcbs K.globalPcb).name.headD 0 = 0) :=
  ⟨exitCase_iff h hop, fun _ hown => pcbFree_returns_iff hown h.running⟩

/-- The running process makes a call, with two processes in memory besides it, of
which the ready queue starts with `readyHead`. -/
def callingKernel (readyHead : U32) (call : Context) : Kernel Heap :=
  kernelWith
    [(0x100, ⟨[65, 65], 1, 2, readyState, 0x5100, 0, 0⟩),
      (0x200, ⟨[66, 66], 1, 1, readyState, 0x5200, 0x300, 0⟩),
      (0x300, ⟨[67, 67], 1, 2, readyState, 0x5300, 0, 0⟩)]
    readyHead 0 0x100 call
    (Device.opened (Vector.replicate 16 0) ⟨fun _ => 0⟩ kernelHeap)

def onlyReady (ready : List U32) : Queue → List U32
  | .ready => ready
  | _ => []

theorem onlyReady_disjoint (ready : List U32) (q q' : Queue) (hne : q ≠ q') :
    ∀ p ∈ onlyReady ready q, p ∉ onlyReady ready q' := by
  intro p hp
  cases q with
  | ready =>
      cases q' with
      | ready => exact absurd rfl hne
      | blocked => exact List.not_mem_nil
      | suspended => exact List.not_mem_nil
  | blocked => cases hp
  | suspended => cases hp

theorem callingKernel_none_ready (call : Context) :
    WellQueued (callingKernel 0 call) (onlyReady []) := by
  have h : WellQueued (callingKernel 0 (callContext 0 0 0 0)) (onlyReady []) := by
    refine ⟨fun q => ?_, fun q => ?_, onlyReady_disjoint _, by decide, fun q => ?_⟩
    all_goals cases q <;> decide
  exact ⟨h.holds, h.sorted, h.disjoint, h.running, h.alone⟩

theorem callingKernel_two_ready (call : Context) :
    WellQueued (callingKernel 0x200 call) (onlyReady [0x200, 0x300]) := by
  have h : WellQueued (callingKernel 0x200 (callContext 0 0 0 0))
      (onlyReady [0x200, 0x300]) := by
    refine ⟨fun q => ?_, fun q => ?_, onlyReady_disjoint _, by decide, fun q => ?_⟩
    all_goals cases q <;> decide
  exact ⟨h.holds, h.sorted, h.disjoint, h.running, h.alone⟩

/-- With an empty ready queue `exit` writes through NULL, with two ready processes it
drops the second one. -/
theorem exit_loses_processes :
    (WellQueued (callingKernel 0 (callContext 0 0 0 0)) (onlyReady []) ∧
      ¬ ExitRemovesOnlyCaller studentHeap (callingKernel 0 (callContext 0 0 0 0)) 0x1234
        (onlyReady [])) ∧
    WellQueued (callingKernel 0x200 (callContext 0 0 0 0)) (onlyReady [0x200, 0x300]) ∧
      ¬ ExitRemovesOnlyCaller studentHeap (callingKernel 0x200 (callContext 0 0 0 0)) 0x1234
        (onlyReady [0x200, 0x300]) := by
  have hempty := callingKernel_none_ready (callContext 0 0 0 0)
  have htwo := callingKernel_two_ready (callContext 0 0 0 0)
  refine ⟨⟨hempty, ?_⟩, htwo, ?_⟩
  · rw [exitCase_iff hempty (by decide)]
    exact fun h => absurd h.1 (by decide)
  · rw [exitCase_iff htwo (by decide)]
    exact fun h => absurd h.1 (by decide)

/-- A process without a name, in the first block of the heap, calls EXIT while one process is
ready. -/
def unnamedKernel (heap : Heap) : Kernel Heap :=
  kernelWith
    [(0xd000004, ⟨[], 1, 2, readyState, 0x5100, 0, 0⟩),
      (0x200, ⟨[66, 66], 1, 1, readyState, 0x5200, 0, 0⟩)]
    0x200 0 0xd000004 (callContext 0 0 0 0)
    (Device.opened (Vector.replicate 16 0) ⟨fun _ => 0⟩ heap)

theorem unnamedKernel_one_ready (heap : Heap) :
    WellQueued (unnamedKernel heap) (onlyReady [0x200]) := by
  have h : WellQueued (unnamedKernel kernelHeap) (onlyReady [0x200]) := by
    refine ⟨fun q => ?_, fun q => ?_, onlyReady_disjoint _, by decide, fun q => ?_⟩
    all_goals cases q <;> decide
  exact ⟨h.holds, h.sorted, h.disjoint, h.running, h.alone⟩

/-- Neither side holds with two ready processes; both hold with one and a block that can be
released. -/
theorem exit_removes_only_caller_iff_two_ready :
    (ExitRemovesOnlyCaller studentHeap (callingKernel 0x200 (callContext 0 0 0 0)) 0x1234
        (onlyReady [0x200, 0x300]) ↔
      (onlyReady [0x200, 0x300] .ready).length = 1 ∧
        ∃ r, pcbFree studentHeap kernelHeap
          (callingKernel 0x200 (callContext 0 0 0 0)).procs 0x100 = .ok r) ∧
    ∃ heap, allocateMemory kernelHeap 1100 = .ok (0xd000004, heap) ∧
      ExitRemovesOnlyCaller studentHeap (unnamedKernel heap) 0x1234 (onlyReady [0x200]) := by
  refine ⟨(exit_removes_only_caller_iff (callingKernel_two_ready _) (by decide)).1, ?_⟩
  have hcompute : (allocateMemory kernelHeap 1100).map Prod.fst = .ok 0xd000004 := by
    decide +kernel
  obtain ⟨heap, halloc⟩ := Run.of_map_fst_ok hcompute
  have hown : OwnsBlocks heap [0xd000004] := allocateMemory_owns kernelHeap_owns halloc
  have hop : syscallNumber ((unnamedKernel heap).contexts 0x1234).eax = some .exit := rfl
  obtain ⟨honly, hfree⟩ := exit_removes_only_caller_iff (unnamedKernel_one_ready heap) hop
  exact ⟨heap, halloc, honly.mpr ⟨rfl, (hfree _ hown).mpr ⟨List.mem_cons_self, rfl⟩⟩⟩

end Mpx
