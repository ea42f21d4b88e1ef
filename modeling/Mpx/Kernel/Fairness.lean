import Mpx.Base.TurnTaking
import Mpx.Kernel.RoundRobin
import Mpx.Kernel.Switch

/-! Which processes successive IDLE calls dispatch, and which never run again. -/

namespace Mpx

open Memory StableSort TurnTaking Procs Run

variable {σ : Type} {F : HeapFunctions σ}

def Kernel.table (K : Kernel σ) (ready : List U32) : Table U32 := ⟨K.globalPcb, ready⟩

def moreUrgent (K : Kernel σ) (ready : List U32) (p : U32) : List U32 :=
  (K.table ready).before K.procs.priority p

/-- A process runs, and an IDLE call can dispatch those of the ready queue. -/
structure Turning (K : Kernel σ) (ready : List U32) : Prop where
  dispatchable : Dispatchable K.procs K.globalPcb ready
  running : K.globalPcb ≠ 0

theorem Yielded.enqueue_eq {K K' : Kernel σ} {n : U32} {rest ready' : List U32}
    (h : Yielded K K' n rest ready') (hdispatch : Dispatchable K.procs K.globalPcb (n :: rest))
    (hg : K.globalPcb ≠ 0) : ready' = K.procs.enqueue K.globalPcb rest := by
  obtain ⟨front, back, hrest, hready, hfront, hback⟩ := h.requeued hg
  have hnew : K.globalPcb ∉ front ++ back := by
    intro hmem
    apply hdispatch.apart hg
    rw [hrest]
    exact List.mem_cons_of_mem _ hmem
  have hsorted : (front ++ back).Pairwise fun x y => K.procs.priority x ≤ K.procs.priority y := by
    rw [← hrest]
    exact hdispatch.sorted.of_cons
  have hplace := (orderedInsert_place_iff hnew hsorted).mpr ⟨hfront, hback⟩
  rw [hready, hrest]
  exact hplace.symm

theorem idleCall_passes {K : Kernel σ} {contexts : U32 → Context} {ctx : U32} {ready : List U32}
    (h : Turning K ready) (hop : syscallNumber (contexts ctx).eax = some .idle) :
    ∃ r K' ready', sysCall F { K with contexts := contexts } ctx = .ok (r, K') ∧
      Turning K' ready' ∧ K'.procs.priority = K.procs.priority ∧
      K'.table ready' = pass K.procs.priority (K.table ready) := by
  have hline : Dispatchable K.procs K.globalPcb ready := h.dispatchable
  have hcall : IdleCall F { K with contexts := contexts } ctx ready := idleCall_spec hline hop
  cases ready with
  | nil =>
      obtain ⟨K', hrun, hprocs, hglobal⟩ := hcall.empty rfl
      refine ⟨ctx, K', [], hrun, ?_, congrArg Procs.priority hprocs, ?_⟩
      · constructor
        · rw [hprocs, hglobal]
          exact hline
        · rw [hglobal]
          exact h.running
      · rw [Kernel.table, hglobal]
        rfl
  | cons n rest =>
      obtain ⟨K', ready', hrun, hyield⟩ := hcall.switch n rest rfl
      have hn : n ≠ 0 := hline.list.ne_null List.mem_cons_self
      have hnext : Dispatchable K'.procs K'.globalPcb ready' := hyield.dispatchable hline
      refine ⟨_, K', ready', hrun, ⟨hnext, ?_⟩, hyield.priorities, ?_⟩
      · rw [hyield.running]
        exact hn
      · rw [Kernel.table, hyield.running, hyield.enqueue_eq hline h.running]
        rfl

/-- The processes that IDLE calls dispatch, one for each call. -/
theorem idleCalls_turns {K : Kernel σ} {ready : List U32} {calls : List ((U32 → Context) × U32)}
    (h : Turning K ready) (hidle : AllIdle calls) :
    ∃ ran K', idleCalls F K calls = .ok (ran, K') ∧
      ran.map Prod.fst = turns K.procs.priority calls.length (K.table ready) := by
  induction calls generalizing K ready with
  | nil => exact ⟨[], K, rfl, rfl⟩
  | cons call calls ih =>
      have hop := hidle call List.mem_cons_self
      obtain ⟨r, K₁, ready₁, hrun, hnext, hprio, htable⟩ := idleCall_passes (F := F) h hop
      have hrest : AllIdle calls := fun c hc => hidle c (List.mem_cons_of_mem _ hc)
      obtain ⟨ran, K', hcalls, hran⟩ := ih hnext hrest
      refine ⟨(K₁.globalPcb, r) :: ran, K', ?_, ?_⟩
      · rw [idleCalls, hrun]
        simp only [bind, Except.bind, hcalls]
        rfl
      · rw [List.map_cons, hran, List.length_cons, turns, ← htable, hprio]
        rfl

/-- However often the processes yield, one behind two more urgent ones never runs again,
and any other one does after two rounds at the latest. -/
theorem idle_calls_starve_iff (K : Kernel σ) (ready : List U32)
    (calls : List ((U32 → Context) × U32)) (hlist : K.procs.Holds .ready ready)
    (hstates : ∀ p ∈ ready, (K.procs.pcbs p).state = readyState ∨
      (K.procs.pcbs p).state = resumeState)
    (hsorted : K.procs.Sorted ready) (hrunning : K.globalPcb ≠ 0) (hdistinct : K.globalPcb ∉ ready)
    (hidle : AllIdle calls) :
    ∃ ran K', idleCalls F K calls = .ok (ran, K') ∧
      ∀ p ∈ K.globalPcb :: ready,
        (2 ≤ (moreUrgent K ready p).length → p ∉ ran.map Prod.fst) ∧
        (2 * ready.length < calls.length →
          (p ∈ ran.map Prod.fst ↔ (moreUrgent K ready p).length ≤ 1)) := by
  have h : Turning K ready := ⟨⟨hlist, hstates, hsorted, fun _ => hdistinct⟩, hrunning⟩
  have htable : (K.table ready).Sorted K.procs.priority := hsorted
  obtain ⟨ran, K', hcalls, hran⟩ := idleCalls_turns (F := F) h hidle
  refine ⟨ran, K', hcalls, fun p hp => ⟨fun htwo => ?_, fun hlong => ?_⟩⟩
  · rw [hran]
    exact not_mem_turns htable htwo calls.length
  · rw [hran]
    exact mem_turns_iff htable hp hlong

def idleKernel : Kernel Heap :=
  kernelWith
    [(0x100, ⟨[65, 65], 1, 1, readyState, 0x5100, 0, 0⟩),
      (0x200, ⟨[66, 66], 1, 1, readyState, 0x5200, 0x300, 0⟩),
      (0x300, ⟨[67, 67], 0, 9, readyState, 0x5300, 0, 0⟩)]
    0x200 0 0x100 (callContext 1 0 0 0)
    (Device.opened (Vector.replicate 16 0) ⟨fun _ => 0⟩ kernelHeap)

theorem idle_calls_starve_iff_idle_process :
    ∃ ran K', idleCalls studentHeap idleKernel
        (List.replicate 5 (idleKernel.contexts, 0x1234)) = .ok (ran, K') ∧
      0x300 ∉ ran.map Prod.fst ∧ 0x200 ∈ ran.map Prod.fst := by
  have hidle : AllIdle (List.replicate 5 (idleKernel.contexts, 0x1234)) := by
    intro call hcall
    rw [(List.mem_replicate.mp hcall).2]
    decide
  have hstates : ∀ p ∈ [(0x200 : U32), 0x300], (idleKernel.procs.pcbs p).state = readyState ∨
      (idleKernel.procs.pcbs p).state = resumeState := by
    simp only [List.forall_mem_cons]
    exact ⟨by decide, by decide, List.forall_mem_nil _⟩
  obtain ⟨ran, K', hcalls, hruns⟩ := idle_calls_starve_iff (F := studentHeap) idleKernel
    [0x200, 0x300] _ (by decide) hstates (by decide) (by decide) (by decide) hidle
  exact ⟨ran, K', hcalls, (hruns 0x300 (by decide)).1 (by decide),
    ((hruns 0x200 (by decide)).2 (by decide)).mpr (by decide)⟩

end Mpx
