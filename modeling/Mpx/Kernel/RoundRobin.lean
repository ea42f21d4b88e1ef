import Mpx.Kernel.Yield

/-! Successive IDLE calls of processes of one priority: each gets its turn. -/

namespace Mpx

open Memory PointerList Procs Run

variable {σ : Type} {F : HeapFunctions σ}

/-- IDLE calls one after the other. Each entry of `calls` is the memory of contexts at a
call with the context that the call saves: between the calls the processes run. The answer
lists the process that each call dispatches with the context it resumes. -/
def idleCalls (F : HeapFunctions σ) (K : Kernel σ) :
    List ((U32 → Context) × U32) → Except Fault (List (U32 × U32) × Kernel σ)
  | [] => .ok ([], K)
  | call :: calls => do
      let (context, K) ← sysCall F { K with contexts := call.1 } call.2
      let (ran, K') ← idleCalls F K calls
      return ((K.globalPcb, context) :: ran, K')

def AllIdle (calls : List ((U32 → Context) × U32)) : Prop :=
  ∀ call ∈ calls, syscallNumber (call.1 call.2).eax = some .idle

structure OnePriority (K : Kernel σ) (ready : List U32) : Prop where
  dispatchable : Dispatchable K.procs K.globalPcb ready
  running : K.globalPcb ≠ 0
  priority : ∀ p ∈ ready, K.procs.priority p = K.procs.priority K.globalPcb

/-- The head of the queue runs, and the caller goes to the end of the queue. -/
theorem onePriority_step {K : Kernel σ} {contexts : U32 → Context} {ctx n : U32}
    {rest : List U32} (h : OnePriority K (n :: rest))
    (hop : syscallNumber (contexts ctx).eax = some .idle) :
    ∃ K', sysCall F { K with contexts := contexts } ctx =
        .ok ((K.procs.pcbs n).stackTop, K') ∧
      K'.globalPcb = n ∧ OnePriority K' (rest ++ [K.globalPcb]) ∧
      (K'.procs.pcbs K.globalPcb).stackTop = ctx ∧
      ∀ x, x ≠ K.globalPcb → (K'.procs.pcbs x).stackTop = (K.procs.pcbs x).stackTop := by
  have hline : Dispatchable K.procs K.globalPcb (n :: rest) := h.dispatchable
  have hn : n ≠ 0 := hline.list.ne_null List.mem_cons_self
  have hapart := hline.apart h.running
  have hng : n ≠ K.globalPcb := fun heq => hapart (heq ▸ List.mem_cons_self)
  have hcall : IdleCall F { K with contexts := contexts } ctx (n :: rest) :=
    idleCall_spec hline hop
  rcases hcall.switch n rest rfl with ⟨K', ready', hrun, hyield⟩
  rcases hyield.requeued h.running with ⟨front, back, hrest, hready, -, hback⟩
  -- nobody in the queue has a larger priority number than the caller
  have hnil : back = [] := by
    cases back with
    | nil => rfl
    | cons y ys =>
        have hmem : y ∈ n :: rest := by
          rw [hrest]
          simp
        exact absurd (hback y List.mem_cons_self) (not_lt.mpr (h.priority y hmem).le)
  have hready' : ready' = rest ++ [K.globalPcb] := by
    rw [hready, hrest, hnil, List.append_nil]
  rw [hready'] at hyield
  have hgone : n ∉ rest ++ [K.globalPcb] := by
    intro hmem
    rcases List.mem_append.mp hmem with hold | hlast
    · exact (List.nodup_cons.mp hline.list.nodup).1 hold
    · exact hng (List.mem_singleton.mp hlast)
  have hprio : ∀ p ∈ rest ++ [K.globalPcb], K'.procs.priority p = K'.procs.priority n := by
    intro p hp
    rw [hyield.priorities, h.priority n List.mem_cons_self]
    rcases List.mem_append.mp hp with hold | hlast
    · exact h.priority p (List.mem_cons_of_mem _ hold)
    · rw [List.mem_singleton.mp hlast]
  have hnext : OnePriority K' (rest ++ [K.globalPcb]) := by
    constructor
    · exact ⟨hyield.list, hyield.states, hyield.sorted, fun _ => by rwa [hyield.running]⟩
    · rw [hyield.running]
      exact hn
    · intro p hp
      rw [hyield.running]
      exact hprio p hp
  have hhead : K.procs.readyHead = n := hline.list.1
  have hidle : idleCase { K with contexts := contexts } ctx n =
      .ok ((K.procs.pcbs n).stackTop, K') := by
    rw [← hrun]
    simp only [sysCall, hop, hhead]
  rcases @idleCase_stackTop σ { K with contexts := contexts } K' ctx n _ hn h.running hidle
    with ⟨-, hsaved, hothers⟩
  exact ⟨K', hrun, hyield.running, hnext, hsaved, hothers⟩

theorem tops_kept {K K' : Kernel σ} {g : U32} {ps : List U32}
    (htops : ∀ p, p ≠ g → (K'.procs.pcbs p).stackTop = (K.procs.pcbs p).stackTop)
    (hg : g ∉ ps) :
    (ps.map fun p => (p, (K'.procs.pcbs p).stackTop)) =
      ps.map fun p => (p, (K.procs.pcbs p).stackTop) := by
  apply List.map_congr_left
  intro p hp
  rw [htops p (ne_of_mem_of_not_mem hp hg)]

/-- As many calls as `todo` is long dispatch just these processes, and those that have
run before line up behind `done`. -/
theorem idleCalls_front {K : Kernel σ} {todo done : List U32}
    {calls : List ((U32 → Context) × U32)} (h : OnePriority K (todo ++ done))
    (hidle : AllIdle calls) (hlength : calls.length = todo.length) :
    ∃ K', idleCalls F K calls =
        .ok (todo.map fun p => (p, (K.procs.pcbs p).stackTop), K') ∧
      K'.globalPcb = (K.globalPcb :: todo).getLast (List.cons_ne_nil _ _) ∧
      OnePriority K' (done ++ (K.globalPcb :: todo).dropLast) := by
  induction todo generalizing K done calls with
  | nil =>
      have hnil := List.length_eq_zero_iff.mp hlength
      rw [hnil]
      refine ⟨K, rfl, rfl, ?_⟩
      rw [List.dropLast_singleton, List.append_nil]
      exact h
  | cons n todo ih =>
      cases calls with
      | nil => cases hlength
      | cons call calls =>
          rw [List.cons_append] at h
          rcases onePriority_step (F := F) h (hidle call List.mem_cons_self) with
            ⟨K₁, hrun, hglobal, hnext, -, htops⟩
          rw [List.append_assoc] at hnext
          have hidle' : AllIdle calls := fun c hc => hidle c (List.mem_cons_of_mem _ hc)
          rcases ih hnext hidle' (Nat.succ.inj hlength) with ⟨K', hcalls, hlast, hdone⟩
          rw [hglobal] at hlast hdone
          have hapart : K.globalPcb ∉ todo := by
            intro hmem
            apply h.dispatchable.apart h.running
            exact List.mem_cons_of_mem _ (List.mem_append_left _ hmem)
          have hsame := tops_kept htops hapart
          refine ⟨K', ?_, ?_, ?_⟩
          · rw [idleCalls, hrun]
            simp only [bind, Except.bind, hcalls, hglobal, hsame]
            rfl
          · rw [hlast, List.getLast_cons (List.cons_ne_nil n todo)]
          · rw [List.dropLast_cons_of_ne_nil (List.cons_ne_nil n todo)]
            rwa [List.append_assoc] at hdone

/-- After one call for each process everyone has run once, in the order of the queue with
the first caller last, and the queue is as it was. -/
theorem round_robin (K : Kernel σ) (ready : List U32) (contexts : U32 → Context) (ctx : U32)
    (calls : List ((U32 → Context) × U32)) (hlist : K.procs.Holds .ready ready)
    (hdistinct : K.globalPcb ∉ ready) (hrunning : K.globalPcb ≠ 0)
    (hready : ∀ p ∈ ready, (K.procs.pcbs p).state = readyState)
    (hpriority : ∀ p ∈ ready, K.procs.priority p = K.procs.priority K.globalPcb)
    (hidle : AllIdle ((contexts, ctx) :: calls)) (hlength : calls.length = ready.length) :
    ∃ K', idleCalls F K ((contexts, ctx) :: calls) =
        .ok ((ready.map fun p => (p, (K.procs.pcbs p).stackTop)) ++ [(K.globalPcb, ctx)], K') ∧
      K'.globalPcb = K.globalPcb ∧ K'.procs.Holds .ready ready := by
  have hsorted : K.procs.Sorted ready := by
    apply List.pairwise_of_forall_mem_list
    intro x hx y hy
    rw [hpriority x hx, hpriority y hy]
  have hline : Dispatchable K.procs K.globalPcb ready :=
    ⟨hlist, fun p hp => Or.inl (hready p hp), hsorted, fun _ => hdistinct⟩
  have hop := hidle (contexts, ctx) List.mem_cons_self
  cases ready with
  | nil =>
      have hnil := List.length_eq_zero_iff.mp hlength
      have hcall : IdleCall F { K with contexts := contexts } ctx [] := idleCall_spec hline hop
      rcases hcall.empty rfl with ⟨K', hrun, hprocs, hglobal⟩
      have hcalls : idleCalls F K [(contexts, ctx)] = .ok ([(K.globalPcb, ctx)], K') := by
        rw [idleCalls, hrun]
        simp only [bind, Except.bind, idleCalls, hglobal]
        rfl
      rw [hnil]
      refine ⟨K', hcalls, hglobal, ?_⟩
      rw [hprocs]
      exact hlist
  | cons n rest =>
      have h : OnePriority K (n :: rest) := ⟨hline, hrunning, hpriority⟩
      rcases onePriority_step (F := F) h hop with ⟨K₁, hrun, hglobal, hnext, hsaved, htops⟩
      have hidle' : AllIdle calls := fun c hc => hidle c (List.mem_cons_of_mem _ hc)
      have hlength' : calls.length = (rest ++ [K.globalPcb]).length := by
        rw [hlength, List.length_append]
        rfl
      have hnext' : OnePriority K₁ ((rest ++ [K.globalPcb]) ++ []) := by
        rwa [List.append_nil]
      rcases idleCalls_front (F := F) hnext' hidle' hlength' with ⟨K', hcalls, hlast, hdone⟩
      rw [hglobal] at hlast hdone
      have hsame := tops_kept htops (List.not_mem_of_not_mem_cons hdistinct)
      refine ⟨K', ?_, ?_, ?_⟩
      · rw [idleCalls, hrun]
        simp only [bind, Except.bind, hcalls, hglobal, List.map_append, List.map_cons,
          List.map_nil, hsame, hsaved]
        rfl
      · rw [hlast]
        exact List.getLast_append_singleton (n :: rest)
      · have hqueue := hdone.dispatchable.list
        rwa [List.nil_append, ← List.cons_append, List.dropLast_concat] at hqueue

def turnKernel : Kernel Heap :=
  kernelWith
    [(0x100, ⟨[65, 65], 1, 1, readyState, 0x5100, 0, 0⟩),
      (0x200, ⟨[66, 66], 1, 1, readyState, 0x5200, 0x300, 0⟩),
      (0x300, ⟨[67, 67], 1, 1, readyState, 0x5300, 0, 0⟩)]
    0x200 0 0x100 (callContext 1 0 0 0)
    (Device.opened (Vector.replicate 16 0) ⟨fun _ => 0⟩ kernelHeap)

theorem round_robin_three_processes :
    ∃ K', idleCalls studentHeap turnKernel
        [(turnKernel.contexts, 0x1234), (turnKernel.contexts, 0x5678),
          (turnKernel.contexts, 0x9abc)] =
        .ok ([(0x200, 0x5200), (0x300, 0x5300), (0x100, 0x1234)], K') ∧
      K'.globalPcb = 0x100 ∧ K'.procs.Holds .ready [0x200, 0x300] := by
  apply round_robin turnKernel [0x200, 0x300] turnKernel.contexts 0x1234
    [(turnKernel.contexts, 0x5678), (turnKernel.contexts, 0x9abc)] (by decide) (by decide)
    (by decide)
  · simp only [List.forall_mem_cons]
    exact ⟨by decide, by decide, List.forall_mem_nil _⟩
  · simp only [List.forall_mem_cons]
    exact ⟨by decide, by decide, List.forall_mem_nil _⟩
  · simp only [AllIdle, List.forall_mem_cons]
    exact ⟨by decide, by decide, by decide, List.forall_mem_nil _⟩
  · rfl

end Mpx
