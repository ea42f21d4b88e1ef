import Mpx.Base.Run
import Mpx.Kernel.SysCall
import Mpx.Process.Links

/-! IDLE system calls: the running process goes back to the ready queue and the old
head of that queue runs. -/

namespace Mpx

open Memory PointerList Procs Run

variable {σ : Type} {F : HeapFunctions σ}

def withRunning (running : U32) (ready : List U32) : List U32 :=
  if running = 0 then ready else running :: ready

structure Schedulable (s : Procs) (running : U32) (ready : List U32) : Prop where
  list : s.Holds .ready ready
  states : ∀ p ∈ ready, (s.pcbs p).state = readyState ∨ (s.pcbs p).state = resumeState
  sorted : s.Sorted ready
  running : running ≠ 0 → ∀ q, ¬ s.OnQueue q running

/-- No ready PCB is on a second queue. -/
def OneQueue (s : Procs) (ready : List U32) : Prop :=
  ∀ q, q ≠ .ready → ∀ p ∈ ready, ¬ s.OnQueue q p

/-- The part of `Schedulable` that an IDLE call looks at. -/
structure Dispatchable (s : Procs) (running : U32) (ready : List U32) : Prop where
  list : s.Holds .ready ready
  states : ∀ p ∈ ready, (s.pcbs p).state = readyState ∨ (s.pcbs p).state = resumeState
  sorted : s.Sorted ready
  apart : running ≠ 0 → running ∉ ready

theorem Schedulable.dispatchable {s : Procs} {running : U32} {ready : List U32}
    (h : Schedulable s running ready) : Dispatchable s running ready where
  list := h.list
  states := h.states
  sorted := h.sorted
  apart := fun hne hmem => h.running hne .ready (h.list.onQueue_iff.mpr hmem)

theorem removeQueue_ready {v : Int} (h : v = readyState ∨ v = resumeState) :
    removeQueue v = some .ready := if_pos h

theorem insertQueue_ready : insertQueue readyState = some .ready := by decide

theorem dispatch_spec {K : Kernel σ} {n : U32} {ready : List U32}
    (hlist : K.procs.Holds .ready ready) (hmem : n ∈ ready)
    (hstate : (K.procs.pcbs n).state = readyState ∨ (K.procs.pcbs n).state = resumeState) :
    ∃ s', dispatch K n = .ok ((K.procs.pcbs n).stackTop, { K with procs := s', globalPcb := n }) ∧
      s'.Holds .ready (ready.erase n) ∧ Kept K.procs s' .ready ready ∧
      s'.priority = K.procs.priority ∧
      ∀ p, p ≠ n → (s'.pcbs p).state = (K.procs.pcbs p).state := by
  obtain ⟨s₁, hrun, hholds, hlinks⟩ :=
    pcbRemove_mem (removeQueue_ready hstate) hlist hmem
  have hgone : n ∉ ready.erase n := hlist.nodup.not_mem_erase
  refine ⟨(s₁.setNext n 0).setState n readyState, ?_, ?_, ?_, ?_, ?_⟩
  · rw [dispatch, if_neg (hlist.ne_null hmem), hrun]
    have htop : (((s₁.setNext n 0).setState n readyState).pcbs n).stackTop =
        (K.procs.pcbs n).stackTop := by
      rw [setState, pcbs_modify_self, setNext, pcbs_modify_self]
      exact hlinks.stackTop n
    rw [← htop]
    rfl
  · rw [Holds, head_setState, head_setNext, next_setState, next_setNext]
    exact hholds.update_other hgone 0
  · exact (hlinks.toKept.modify hmem _).modify hmem _
  · rw [← hlinks.priority]
    funext p
    by_cases hp : p = n
    · subst hp
      simp [priority, setState, setNext]
    · simp [priority, setState, setNext, pcbs_modify_ne hp]
  · intro p hp
    rw [setState, pcbs_modify_ne hp, setNext, pcbs_modify_ne hp]
    exact hlinks.state p

/-- What an IDLE call on the ready queue `n :: rest` turns the kernel into. -/
structure Yielded (K K' : Kernel σ) (n : U32) (rest ready' : List U32) : Prop where
  running : K'.globalPcb = n
  list : K'.procs.Holds .ready ready'
  alone : K.globalPcb = 0 → ready' = rest
  requeued : K.globalPcb ≠ 0 → ∃ front back, rest = front ++ back ∧
    ready' = front ++ K.globalPcb :: back ∧
    (∀ x ∈ front, K.procs.priority x ≤ K.procs.priority K.globalPcb) ∧
    ∀ y ∈ back, K.procs.priority K.globalPcb < K.procs.priority y
  best : ∀ x ∈ rest, K.procs.priority n ≤ K.procs.priority x
  states : ∀ p ∈ ready',
    (K'.procs.pcbs p).state = readyState ∨ (K'.procs.pcbs p).state = resumeState
  sorted : K'.procs.Sorted ready'
  priorities : K'.procs.priority = K.procs.priority
  kept : Kept K.procs K'.procs .ready (withRunning K.globalPcb (n :: rest))

structure IdleCall (F : HeapFunctions σ) (K : Kernel σ) (currentContext : U32)
    (ready : List U32) : Prop where
  empty : ready = [] → ∃ K', sysCall F K currentContext = .ok (currentContext, K') ∧
    K'.procs = K.procs ∧ K'.globalPcb = K.globalPcb
  switch : ∀ n rest, ready = n :: rest → ∃ K' ready',
    sysCall F K currentContext = .ok ((K.procs.pcbs n).stackTop, K') ∧
      Yielded K K' n rest ready'

theorem requeue_spec {K : Kernel σ} {ctx n : U32} {rest : List U32}
    (h : Dispatchable K.procs K.globalPcb (n :: rest)) (hg : K.globalPcb ≠ 0) :
    ∃ s₂ : Procs, pcbInsert ((K.procs.setStackTop K.globalPcb ctx).setState K.globalPcb
        readyState) K.globalPcb = .ok s₂ ∧
      s₂.Holds .ready (K.procs.enqueue K.globalPcb (n :: rest)) ∧
      Kept K.procs s₂ .ready (K.globalPcb :: n :: rest) ∧
      s₂.priority = K.procs.priority ∧
      (∀ p, p ≠ K.globalPcb → (s₂.pcbs p).state = (K.procs.pcbs p).state) ∧
      (s₂.pcbs K.globalPcb).state = readyState ∧
      ∀ p, p ≠ K.globalPcb → (s₂.pcbs p).stackTop = (K.procs.pcbs p).stackTop := by
  have hnew : K.globalPcb ∉ n :: rest := h.apart hg
  generalize hs₁ : (K.procs.setStackTop K.globalPcb ctx).setState K.globalPcb readyState = s₁
  have hpcb : ∀ p, p ≠ K.globalPcb → s₁.pcbs p = K.procs.pcbs p := by
    intro p hp
    rw [← hs₁, setState, pcbs_modify_ne hp, setStackTop, pcbs_modify_ne hp]
  have hstate : (s₁.pcbs K.globalPcb).state = readyState := by
    rw [← hs₁, state_setState_self]
  have hprio : s₁.priority = K.procs.priority := by
    rw [← hs₁, priority_setState, priority_setStackTop]
  have hlist : s₁.Holds .ready (n :: rest) := by
    rw [← hs₁, Holds, head_setState, head_setStackTop, next_setState, next_setStackTop]
    exact h.list
  have hkept : Kept K.procs s₁ .ready (K.globalPcb :: n :: rest) := by
    rw [← hs₁]
    exact ((Kept.refl _).modify List.mem_cons_self _).modify List.mem_cons_self _
  obtain ⟨s₂, hrun, hholds, hlinks⟩ :=
    pcbInsert_spec hg (by rw [hstate, insertQueue_ready]) hlist hnew
  refine ⟨s₂, hrun, ?_, hkept.trans hlinks.toKept, ?_, ?_, ?_, ?_⟩
  · rwa [enqueue_congr hprio] at hholds
  · rw [hlinks.priority, hprio]
  · intro p hp
    rw [hlinks.state, hpcb p hp]
  · rw [hlinks.state, hstate]
  · intro p hp
    rw [hlinks.stackTop, hpcb p hp]

theorem idleCase_spec {K : Kernel σ} {ctx n : U32} {rest : List U32}
    (h : Dispatchable K.procs K.globalPcb (n :: rest)) :
    ∃ K' ready', idleCase K ctx n = .ok ((K.procs.pcbs n).stackTop, K') ∧
      Yielded K K' n rest ready' := by
  have hn : n ≠ 0 := h.list.ne_null List.mem_cons_self
  have hnstate := h.states n List.mem_cons_self
  obtain ⟨hbest, hrest⟩ := List.pairwise_cons.mp h.sorted
  have hnotin : n ∉ rest := (List.nodup_cons.mp h.list.nodup).1
  obtain ⟨ic, hic⟩ := keepContext_eq K ctx
  simp only [idleCase, hic, if_neg hn]
  by_cases hg : K.globalPcb = 0
  · rw [if_neg (not_not.mpr hg)]
    obtain ⟨s', hrun, hholds, hkept, hprio, hstates⟩ :=
      @dispatch_spec σ { K with initialContext := ic } n _ h.list List.mem_cons_self hnstate
    rw [List.erase_cons_head] at hholds
    refine ⟨_, rest, hrun, rfl, hholds, fun _ => rfl, fun hne => absurd hg hne, hbest, ?_, ?_,
      hprio, ?_⟩
    · intro p hp
      simp only [hstates p (ne_of_mem_of_not_mem hp hnotin)]
      exact h.states p (List.mem_cons_of_mem _ hp)
    · simpa only [Sorted, hprio] using hrest
    · rwa [withRunning, if_pos hg]
  · rw [if_pos hg]
    obtain ⟨s₂, hinsert, hholds₂, hkept₂, hprio₂, hstates₂, hready, htops⟩ :=
      @requeue_spec σ K ctx n rest h hg
    have hgn : K.globalPcb ≠ n := fun heq => h.apart hg (heq ▸ List.mem_cons_self)
    have hmem : n ∈ K.procs.enqueue K.globalPcb (n :: rest) :=
      (enqueue_perm _).mem_iff.mpr (by simp)
    obtain ⟨s', hrun, hholds, hkept, hprio, hstates⟩ :=
      @dispatch_spec σ { K with initialContext := ic, procs := s₂ } n _ hholds₂ hmem
        (by simpa only [hstates₂ n hgn.symm] using hnstate)
    rw [enqueue_erase_head h.sorted hgn] at hholds
    simp only [htops n hgn.symm] at hrun
    have hpriorities := hprio.trans hprio₂
    refine ⟨{ K with initialContext := ic, procs := s', globalPcb := n },
      K.procs.enqueue K.globalPcb rest, ?_, rfl, hholds, fun hz => absurd hz hg,
      fun _ => ?_, hbest, ?_, ?_, hpriorities, ?_⟩
    · rw [hinsert]
      exact hrun
    · exact enqueue_split _ hrest
    · intro p hp
      rcases List.mem_cons.mp ((enqueue_perm _).mem_iff.mp hp) with rfl | hp
      · left
        exact (hstates _ hgn).trans hready
      · have hpn : p ≠ n := ne_of_mem_of_not_mem hp hnotin
        have hpg : p ≠ K.globalPcb := fun heq =>
          h.apart hg (heq ▸ List.mem_cons_of_mem _ hp)
        simp only [hstates p hpn, hstates₂ p hpg]
        exact h.states p (List.mem_cons_of_mem _ hp)
    · simpa only [Sorted, hpriorities] using enqueue_sorted K.globalPcb hrest
    · rw [withRunning, if_neg hg]
      exact hkept₂.trans (hkept.mono (enqueue_perm _).subset)

theorem dispatch_stackTop {K K' : Kernel σ} {n r : U32} (hn : n ≠ 0)
    (hrun : dispatch K n = .ok (r, K')) :
    r = (K.procs.pcbs n).stackTop ∧
      ∀ x, (K'.procs.pcbs x).stackTop = (K.procs.pcbs x).stackTop := by
  rcases dispatch_cases hrun with ⟨hnull, -⟩ | ⟨-, result, s, hremove, hr, hK'⟩
  · exact absurd hnull hn
  have htop : ∀ x, (((s.setNext n 0).setState n readyState).pcbs x).stackTop =
      (K.procs.pcbs x).stackTop := by
    intro x
    rw [← (pcbRemove_linksOnly hremove).stackTop x]
    by_cases hx : x = n
    · rw [hx, setState, pcbs_modify_self, setNext, pcbs_modify_self]
    · rw [setState, pcbs_modify_ne hx, setNext, pcbs_modify_ne hx]
  rw [hr, hK']
  exact ⟨htop n, htop⟩

theorem idleCase_stackTop {K K' : Kernel σ} {ctx n r : U32} (hn : n ≠ 0)
    (hg : K.globalPcb ≠ 0) (hrun : idleCase K ctx n = .ok (r, K')) :
    (n ≠ K.globalPcb → r = (K.procs.pcbs n).stackTop) ∧
      (K'.procs.pcbs K.globalPcb).stackTop = ctx ∧
      ∀ x, x ≠ K.globalPcb → (K'.procs.pcbs x).stackTop = (K.procs.pcbs x).stackTop := by
  rcases idleCase_cases hrun with ⟨context, ⟨hnull, -⟩ | ⟨-, hnone, -⟩ |
    ⟨-, -, s, hinsert, hdispatch⟩⟩
  · exact absurd hnull hn
  · exact absurd hnone hg
  rcases dispatch_stackTop hn hdispatch with ⟨hr, htops⟩
  have hother : ∀ x, x ≠ K.globalPcb → (s.pcbs x).stackTop = (K.procs.pcbs x).stackTop := by
    intro x hx
    rw [(pcbInsert_linksOnly hinsert).stackTop, setState, pcbs_modify_ne hx, setStackTop,
      pcbs_modify_ne hx]
  constructor
  · exact fun hne => hr.trans (hother n hne)
  · constructor
    · rw [htops]
      simp only
      rw [(pcbInsert_linksOnly hinsert).stackTop, setState, pcbs_modify_self, setStackTop,
        pcbs_modify_self]
    · intro x hx
      exact (htops x).trans (hother x hx)

/-- The first IDLE call of all saves no context in a PCB. -/
theorem idleCase_first {K K' : Kernel σ} {ctx n r : U32} (hn : n ≠ 0) (hg : K.globalPcb = 0)
    (hrun : idleCase K ctx n = .ok (r, K')) :
    r = (K.procs.pcbs n).stackTop ∧
      ∀ x, (K'.procs.pcbs x).stackTop = (K.procs.pcbs x).stackTop := by
  rcases idleCase_cases hrun with ⟨context, ⟨hnull, -⟩ | ⟨-, -, hdispatch⟩ | ⟨-, hrunning, -⟩⟩
  · exact absurd hnull hn
  · have hsaved := dispatch_stackTop hn hdispatch
    exact hsaved
  · exact absurd hg hrunning

theorem idleCall_spec {K : Kernel σ} {ctx : U32} {ready : List U32}
    (h : Dispatchable K.procs K.globalPcb ready)
    (hop : syscallNumber (K.contexts ctx).eax = some .idle) : IdleCall F K ctx ready where
  empty := by
    rintro rfl
    have hhead : K.procs.readyHead = 0 := h.list
    simp only [sysCall, hop, idleCase, hhead, if_true]
    obtain ⟨ic, hic⟩ := keepContext_eq K ctx
    exact ⟨_, rfl, by rw [hic], by rw [hic]⟩
  switch := by
    rintro n rest rfl
    have hhead : K.procs.readyHead = n := h.list.1
    simp only [sysCall, hop, hhead]
    exact idleCase_spec h

theorem Yielded.perm {K K' : Kernel σ} {n : U32} {rest ready' : List U32}
    (h : Yielded K K' n rest ready') (hn : n ≠ 0) :
    (withRunning K'.globalPcb ready').Perm (withRunning K.globalPcb (n :: rest)) := by
  rw [h.running, withRunning, if_neg hn, withRunning]
  by_cases hg : K.globalPcb = 0
  · rw [if_pos hg, h.alone hg]
  · obtain ⟨front, back, rfl, hready, -, -⟩ := h.requeued hg
    rw [if_neg hg]
    calc List.Perm (n :: ready') (n :: (front ++ K.globalPcb :: back)) := by rw [hready]
      List.Perm _ (n :: K.globalPcb :: (front ++ back)) := List.Perm.cons n List.perm_middle
      List.Perm _ (K.globalPcb :: n :: (front ++ back)) := List.Perm.swap _ _ _

theorem Schedulable.apart {s : Procs} {g : U32} {ready : List U32}
    (h : Schedulable s g ready) (hone : OneQueue s ready) {q : Queue} (hq : q ≠ .ready) :
    ∀ p, s.OnQueue q p → p ∉ withRunning g ready := by
  intro p hp hmem
  by_cases hg : g = 0
  · rw [withRunning, if_pos hg] at hmem
    exact hone q hq p hmem hp
  · rw [withRunning, if_neg hg] at hmem
    rcases List.mem_cons.mp hmem with rfl | hmem
    · exact h.running hg q hp
    · exact hone q hq p hmem hp

theorem Schedulable.nodup {s : Procs} {g : U32} {ready : List U32}
    (h : Schedulable s g ready) : (withRunning g ready).Nodup := by
  by_cases hg : g = 0
  · rw [withRunning, if_pos hg]
    exact h.list.nodup
  · rw [withRunning, if_neg hg]
    refine List.nodup_cons.mpr ⟨fun hmem => ?_, h.list.nodup⟩
    exact h.running hg .ready (h.list.onQueue_iff.mpr hmem)

theorem Yielded.onQueue {K K' : Kernel σ} {n : U32} {rest ready' : List U32}
    (h : Yielded K K' n rest ready') (hbefore : Schedulable K.procs K.globalPcb (n :: rest))
    (hone : OneQueue K.procs (n :: rest)) {q : Queue} (hq : q ≠ .ready) {p : U32}
    (hp : K'.procs.OnQueue q p) : K.procs.OnQueue q p := by
  rw [OnQueue, h.kept.heads q hq] at hp
  refine hp.congr fun y hy => ?_
  rw [next, h.kept.same y (hbefore.apart hone hq y hy), next]

theorem Yielded.schedulable {K K' : Kernel σ} {n : U32} {rest ready' : List U32}
    (h : Yielded K K' n rest ready') (hbefore : Schedulable K.procs K.globalPcb (n :: rest))
    (hone : OneQueue K.procs (n :: rest)) :
    Schedulable K'.procs K'.globalPcb ready' ∧ OneQueue K'.procs ready' := by
  have hn : n ≠ 0 := hbefore.list.ne_null List.mem_cons_self
  have hperm := h.perm hn
  have hnodup := hperm.nodup_iff.mpr hbefore.nodup
  rw [withRunning, h.running, if_neg hn] at hperm hnodup
  -- every process of the new ready queue, and the new running one, comes from the old ones
  have hsource : ∀ q, q ≠ Queue.ready → ∀ p ∈ n :: ready', ¬ K'.procs.OnQueue q p := by
    intro q hq p hp hon
    exact hbefore.apart hone hq p (h.onQueue hbefore hone hq hon) (hperm.mem_iff.mp hp)
  refine ⟨⟨h.list, h.states, h.sorted, ?_⟩, ?_⟩
  · intro _ q
    rw [h.running]
    by_cases hq : q = .ready
    · rw [hq, h.list.onQueue_iff]
      exact (List.nodup_cons.mp hnodup).1
    · exact hsource q hq n List.mem_cons_self
  · exact fun q hq p hp => hsource q hq p (List.mem_cons_of_mem _ hp)

/-- An IDLE system call. Between the calls the processes run and change the contexts. -/
inductive IdleStep (F : HeapFunctions σ) : Kernel σ → Kernel σ → Prop
  | call (K : Kernel σ) (contexts : U32 → Context) (ctx r : U32) (K' : Kernel σ)
      (hop : syscallNumber (contexts ctx).eax = some .idle)
      (hrun : sysCall F { K with contexts := contexts } ctx = .ok (r, K')) : IdleStep F K K'

/-- The processes and the queues of `K₀`, as a run of IDLE calls leaves them. -/
structure Conserved (K₀ : Kernel σ) (ready₀ : List U32) (K : Kernel σ)
    (ready : List U32) : Prop where
  schedulable : Schedulable K.procs K.globalPcb ready
  oneQueue : OneQueue K.procs ready
  perm : (withRunning K.globalPcb ready).Perm (withRunning K₀.globalPcb ready₀)
  others : ∀ q, q ≠ .ready → ∀ xs, K₀.procs.Holds q xs → K.procs.Holds q xs

theorem conserved_step {K₀ K K' : Kernel σ} {ready₀ ready : List U32}
    (h : Conserved K₀ ready₀ K ready) (hstep : IdleStep F K K') :
    ∃ ready', Conserved K₀ ready₀ K' ready' := by
  cases hstep with
  | call contexts ctx r K' hop hrun =>
      have hcall : IdleCall F { K with contexts := contexts } ctx ready :=
        idleCall_spec h.schedulable.dispatchable hop
      cases ready with
      | nil =>
          obtain ⟨K₁, hrun₁, hprocs, hglobal⟩ := hcall.empty rfl
          rw [hrun₁] at hrun
          cases hrun
          refine ⟨[], ?_, ?_, ?_, ?_⟩
          · simpa only [hprocs, hglobal] using h.schedulable
          · simpa only [hprocs] using h.oneQueue
          · simpa only [hglobal] using h.perm
          · simpa only [hprocs] using h.others
      | cons n rest =>
          obtain ⟨K₁, ready', hrun₁, hyield⟩ := hcall.switch n rest rfl
          rw [hrun₁] at hrun
          cases hrun
          have hn : n ≠ 0 := h.schedulable.list.ne_null List.mem_cons_self
          obtain ⟨hnext, hone⟩ := hyield.schedulable h.schedulable h.oneQueue
          refine ⟨ready', hnext, hone, (hyield.perm hn).trans h.perm, ?_⟩
          intro q hq xs hxs
          have hold := h.others q hq xs hxs
          refine hyield.kept.holds hq hold fun x hx => ?_
          exact h.schedulable.apart h.oneQueue hq x (hold.onQueue_iff.mpr hx)

/-- Yielding conserves the processes and the order of the queues. -/
theorem idle_calls_conserve {K₀ : Kernel σ} {ready₀ : List U32}
    (h : Schedulable K₀.procs K₀.globalPcb ready₀) :
    (∀ ctx, syscallNumber (K₀.contexts ctx).eax = some .idle → IdleCall F K₀ ctx ready₀) ∧
      (OneQueue K₀.procs ready₀ → ∀ K, Relation.ReflTransGen (IdleStep F) K₀ K →
        ∃ ready, Conserved K₀ ready₀ K ready ∧ (withRunning K.globalPcb ready).Nodup ∧
          ∀ contexts ctx, syscallNumber (contexts ctx).eax = some .idle →
            IdleCall F { K with contexts := contexts } ctx ready) := by
  refine ⟨fun ctx hop => idleCall_spec h.dispatchable hop, fun hone K hrun => ?_⟩
  have hinit : Conserved K₀ ready₀ K₀ ready₀ :=
    ⟨h, hone, List.Perm.refl _, fun _ _ _ hxs => hxs⟩
  obtain ⟨ready, hready⟩ :=
    Run.invariant (fun K => ∃ ready, Conserved K₀ ready₀ K ready)
      (fun K K' ⟨ready, hready⟩ hstep => conserved_step hready hstep) hrun ⟨ready₀, hinit⟩
  exact ⟨ready, hready, hready.schedulable.nodup,
    fun contexts ctx hop => idleCall_spec hready.schedulable.dispatchable hop⟩

def yieldingKernel : Kernel Heap :=
  kernelWith
    [(0x100, ⟨[65, 65], 1, 2, readyState, 0x5100, 0, 0⟩),
      (0x200, ⟨[66, 66], 1, 1, readyState, 0x5200, 0x300, 0⟩),
      (0x300, ⟨[67, 67], 1, 2, resumeState, 0x5300, 0, 0⟩),
      (0x400, ⟨[68, 68], 1, 0, blockedState, 0x5400, 0, 0⟩)]
    0x200 0x400 0x100 (callContext 1 0 0 0)
    (Device.opened (Vector.replicate 16 0) ⟨fun _ => 0⟩ kernelHeap)

theorem yieldingKernel_schedulable :
    Schedulable yieldingKernel.procs yieldingKernel.globalPcb [0x200, 0x300] ∧
      OneQueue yieldingKernel.procs [0x200, 0x300] := by
  have hready : yieldingKernel.procs.Holds .ready [0x200, 0x300] := by decide
  have hblocked : yieldingKernel.procs.Holds .blocked [0x400] := by decide
  have hsuspended : yieldingKernel.procs.Holds .suspended [] := by decide
  refine ⟨⟨hready, ?_, by decide, fun _ q => ?_⟩, fun q hq => ?_⟩
  · simp only [List.forall_mem_cons]
    exact ⟨by decide, by decide, List.forall_mem_nil _⟩
  · cases q
    · rw [hready.onQueue_iff]
      decide
    · rw [hblocked.onQueue_iff]
      decide
    · rw [hsuspended.onQueue_iff]
      decide
  · cases q
    · exact absurd rfl hq
    · simp only [hblocked.onQueue_iff, List.forall_mem_cons]
      exact ⟨by decide, by decide, List.forall_mem_nil _⟩
    · simp only [hsuspended.onQueue_iff, List.not_mem_nil, not_false_eq_true, implies_true]

theorem idle_calls_conserve_three_processes :
    IdleCall studentHeap yieldingKernel 0x1234 [0x200, 0x300] ∧
      ∀ K, Relation.ReflTransGen (IdleStep studentHeap) yieldingKernel K →
        ∃ ready, Conserved yieldingKernel [0x200, 0x300] K ready := by
  obtain ⟨hcall, hruns⟩ :=
    @idle_calls_conserve Heap studentHeap yieldingKernel _ yieldingKernel_schedulable.1
  refine ⟨hcall 0x1234 (by decide), fun K hrun => ?_⟩
  obtain ⟨ready, hconserved, -⟩ := hruns yieldingKernel_schedulable.2 K hrun
  exact ⟨ready, hconserved⟩

/-- The PCBs after `unblock_pcb` on the blocked process: it stays at the head of the blocked
queue, which now goes on with the ready one. -/
def splicedProcs : Procs :=
  ((yieldingKernel.procs.setState 0x400 readyState).setNext 0x400 0x200).setHead .ready 0x400

/-- The next IDLE call cuts the blocked queue short, and a process of that queue runs. -/
theorem idle_call_cuts_blocked_queue :
    unblockPcb yieldingKernel.procs 0x400 = .ok splicedProcs ∧
    Schedulable splicedProcs yieldingKernel.globalPcb [0x400, 0x200, 0x300] ∧
    syscallNumber (yieldingKernel.contexts 0x1234).eax = some .idle ∧
    splicedProcs.Holds .blocked [0x400, 0x200, 0x300] ∧
    ∃ r K', sysCall studentHeap { yieldingKernel with procs := splicedProcs } 0x1234 =
        .ok (r, K') ∧ K'.procs.Holds .blocked [0x400] ∧
      ¬ ∃ ready, Schedulable K'.procs K'.globalPcb ready := by
  have hready : splicedProcs.Holds .ready [0x400, 0x200, 0x300] := by decide
  have hblocked : splicedProcs.Holds .blocked [0x400, 0x200, 0x300] := by decide
  have hsuspended : splicedProcs.Holds .suspended [] := by decide
  have hcompute : (sysCall studentHeap { yieldingKernel with procs := splicedProcs } 0x1234).map
      (fun r => (r.2.globalPcb, r.2.procs.blockedHead, r.2.procs.next 0x400)) =
        .ok (0x400, 0x400, 0) := by
    decide +kernel
  rcases of_map_ok hcompute with ⟨⟨r, K'⟩, hrun, hresult⟩
  simp only [Prod.mk.injEq] at hresult
  rcases hresult with ⟨hglobal, hhead, hnext⟩
  refine ⟨rfl, ⟨hready, ?_, by decide, fun _ q => ?_⟩, by decide, hblocked, r, K', hrun, ?_, ?_⟩
  · simp only [List.forall_mem_cons]
    exact ⟨by decide, by decide, by decide, List.forall_mem_nil _⟩
  · cases q
    · rw [hready.onQueue_iff]
      decide
    · rw [hblocked.onQueue_iff]
      decide
    · rw [hsuspended.onQueue_iff]
      decide
  · exact ⟨hhead, by decide, hnext⟩
  · intro hagain
    rcases hagain with ⟨ready, hagain⟩
    apply hagain.running (by rw [hglobal]; decide) .blocked
    rw [OnQueue, show K'.procs.head .blocked = 0x400 from hhead, hglobal]
    exact Reaches.here (by decide)

end Mpx
