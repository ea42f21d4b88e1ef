import Mpx.Kernel.Yield
import Mpx.Serial.Requests
import Mpx.User.Commands

/-! Commands and interrupts that are to move a process to another queue. They insert it
there without taking it off the queue that it is on. -/

namespace Mpx

open Memory PointerList Procs Run CString

variable {σ : Type} {F : HeapFunctions σ}

/-- `p` has come onto the queue `target` from another place, and all other PCBs are where
they were. -/
structure Moved (s' : Procs) (lists lists' : Queue → List U32) (p : U32) (target : Queue) :
    Prop where
  holds : ∀ q, s'.Holds q (lists' q)
  once : (lists' target).count p = 1
  only : ∀ q, q ≠ target → p ∉ lists' q
  others : ∀ q, (lists' q).erase p = (lists q).erase p

section Insert

variable {s s' : Procs} {lists lists' : Queue → List U32} {p x : U32} {q target : Queue}

theorem Moved.not_onQueue (h : Moved s' lists lists' p target) (hq : q ≠ target) :
    ¬ s'.OnQueue q p := by
  rw [(h.holds q).onQueue_iff]
  exact h.only q hq

theorem Moved.mem_of_ne (h : Moved s' lists lists' p target) (hx : x ∈ lists q) (hne : x ≠ p) :
    x ∈ lists' q := by
  have hkept : x ∈ (lists q).erase p := (List.mem_erase_of_ne hne).mpr hx
  rw [← h.others q] at hkept
  exact List.mem_of_mem_erase hkept

theorem pcbInsert_stays (h : Queues s lists) (htarget : insertQueue (s.pcbs p).state = some target)
    (hp : p ∈ lists q) (hq : q ≠ target) (hrun : pcbInsert s p = .ok s') : s'.OnQueue q p := by
  rcases pcbInsert_cases hrun with ⟨heq, -⟩ | ⟨-, t, ht, hlink⟩
  · rw [heq]
    exact (h.holds q).onQueue_iff.mpr hp
  · rw [htarget] at ht
    cases ht
    rcases hlink with heq | ⟨w, hhead, -, hloop, heq⟩
    · rw [heq, OnQueue, head_setHead_ne hq, head_setNext, next_setHead, next_setNext]
      apply IsList.reaches_of_agree (h.holds q) hp
      intro y _ hy
      exact Function.update_of_ne hy _ _
    · have hreach : s.OnQueue target w := insertLoop_reaches hhead hloop
      have hw : w ∈ lists target := (h.holds target).onQueue_iff.mp hreach
      rw [heq, OnQueue, head_setNext, head_setNext, next_setNext, next_setNext]
      apply IsList.reaches_of_agree (h.holds q) hp
      intro y hy hyp
      have hyw : y ≠ w := fun heq => h.disjoint q target hq y hy (heq ▸ hw)
      rw [Function.update_of_ne hyw, Function.update_of_ne hyp]

/-- A queue into which one of its own PCBs is put as the new head: the old predecessor of that
PCB, or the PCB itself, points back to it. -/
theorem next_newHead {xs : List U32} (hlist : s.Holds q xs) (hp : p ∈ xs) :
    ∃ x ∈ xs, ((s.setNext p (s.head q)).setHead q p).next x = p := by
  rcases hlist.first_or_pred hp with hhead | ⟨u, hu, hup, hnext⟩
  · refine ⟨p, hp, ?_⟩
    rw [next_setHead, next_setNext, Function.update_self, hhead]
  · refine ⟨u, hu, ?_⟩
    rw [next_setHead, next_setNext, Function.update_of_ne hup, hnext]

/-- What `pcb_insert` puts on the queue that it is on already gets a second link to it:
that queue loses PCBs or becomes a ring. -/
theorem pcbInsert_again (h : Queues s lists) (hq : insertQueue (s.pcbs p).state = some q)
    (hp : p ∈ lists q) (hrun : pcbInsert s p = .ok s') : ¬ Moved s' lists lists' p q := by
  intro hmoved
  have hlist := h.holds q
  have hlist' := hmoved.holds q
  have hpnull : p ≠ 0 := hlist.ne_null hp
  have hp' : p ∈ lists' q := by
    apply List.count_pos_iff.mp
    rw [hmoved.once]
    exact Nat.one_pos
  have hmem : ∀ x, x ∈ lists q → x ∈ lists' q := by
    intro x hx
    by_cases hxp : x = p
    · rwa [hxp]
    · exact hmoved.mem_of_ne hx hxp
  rcases pcbInsert_cases hrun with ⟨-, hzero | hnone⟩ | ⟨-, t, ht, hlink⟩
  · exact hpnull hzero
  · rw [hq] at hnone
    cases hnone
  · rw [hq] at ht
    cases ht
    rcases hlink with heq | ⟨w, hhead, -, hloop, heq⟩
    · -- a new head that another PCB points to
      rcases next_newHead hlist hp with ⟨x, hx, hnext⟩
      rw [← heq] at hnext
      apply hlist'.next_ne_first (hmem x hx)
      calc s'.next x = p := hnext
        _ = s'.head q := by rw [heq, head_setHead_self]
    · -- a link behind `w`, while the old predecessor keeps its link
      have hw : w ∈ lists q := hlist.onQueue_iff.mp (insertLoop_reaches hhead hloop)
      have hnextw : s.next w ≠ p := by
        intro hback
        apply insertLoop_stops hloop
        rw [hback]
        exact ⟨hpnull, le_refl _⟩
      have hnext' : s'.next w = p := by
        rw [heq, next_setNext, Function.update_self]
      rcases hlist.first_or_pred hp with hfirst | ⟨u, hu, hup, hnext⟩
      · apply hlist'.next_ne_first (hmem w hw)
        rw [hnext', heq, head_setNext, head_setNext, hfirst]
      · have huw : u ≠ w := by
          intro hsame
          rw [hsame] at hnext
          exact hnextw hnext
        have hu' : s'.next u = p := by
          rw [heq, next_setNext, Function.update_of_ne huw, next_setNext,
            Function.update_of_ne hup, hnext]
        exact huw (hlist'.next_injective (hmem u hu) (hmem w hw) (hu'.trans hnext'.symm))

end Insert

section Suspend

variable {C : Console σ} {K K' : Kernel σ} {buf : List U8} {lists : Queue → List U32} {p : U32}

/-- A suspended process is on the suspended queue only and is not dispatched. -/
def TakenOut (F : HeapFunctions σ) (K' : Kernel σ) (lists : Queue → List U32) (p : U32) : Prop :=
  (∃ lists', Moved K'.procs lists lists' p .suspended) ∧
    ∀ K, Relation.ReflTransGen (IdleStep F) K' K → K.globalPcb ≠ p

theorem pcbInsert_ignored {s : Procs} {c : U32} (hstate : insertQueue (s.pcbs c).state = none) :
    pcbInsert s c = .ok s := by
  rw [pcbInsert, hstate]
  split <;> rfl

/-- `pcb_insert` knows no queue for the state that the command sets. -/
theorem suspendPcb_spec (hrun : suspendPcb C K buf = .ok (suspendedMsg, K')) :
    ∃ found, K' = { K with procs := K.procs.setState found suspendState } := by
  rcases onUserProcess_cases (by decide) (by decide) (by decide) hrun with
    ⟨name, found, -, -, -, -, -, -, hact⟩
  have hignored : pcbInsert (K.procs.setState found suspendState) found =
      .ok (K.procs.setState found suspendState) := by
    apply pcbInsert_ignored
    rw [state_setState_self]
    decide
  rw [hignored] at hact
  cases hact
  exact ⟨found, rfl⟩

theorem suspend_not_moved {lists' : Queue → List U32} (h : Queues K.procs lists)
    (hp : p ∈ lists .ready) (hrun : suspendPcb C K buf = .ok (suspendedMsg, K')) :
    ¬ Moved K'.procs lists lists' p .suspended := by
  rcases suspendPcb_spec hrun with ⟨found, hK'⟩
  intro hmoved
  have hready : K'.procs.OnQueue .ready p := by
    rw [hK']
    exact ((h.setState suspendState).holds .ready).onQueue_iff.mpr hp
  exact hmoved.not_onQueue (by decide) hready

/-- IDLE runs the head of the ready queue, whatever state it is in. -/
theorem idle_runs_head {K K' : Kernel σ} {ctx r : U32}
    (hop : syscallNumber (K.contexts ctx).eax = some .idle) (hhead : K.procs.readyHead ≠ 0)
    (hrun : sysCall F K ctx = .ok (r, K')) : K'.globalPcb = K.procs.readyHead := by
  have hdispatch : ∀ K₁ : Kernel σ, dispatch K₁ K.procs.readyHead = .ok (r, K') →
      K'.globalPcb = K.procs.readyHead := by
    intro K₁ hrun₁
    rcases dispatch_cases hrun₁ with ⟨hnull, -⟩ | ⟨-, result, s, -, -, hK'⟩
    · exact absurd hnull hhead
    · rw [hK']
  simp only [sysCall, hop] at hrun
  rcases idleCase_cases hrun with ⟨context, ⟨hnull, -⟩ | ⟨-, -, hrest⟩ | ⟨-, -, s, -, hrest⟩⟩
  · exact absurd hnull hhead
  · exact hdispatch _ hrest
  · exact hdispatch _ hrest

def commandKernel : Kernel Heap :=
  kernelWith
    [(0x1000, ⟨[67, 72, 0], 0, 2, readyState, 0, 0, 0⟩),
      (0x2000, ⟨[66, 66, 0], 1, 1, readyState, 0, 0x3000, 0⟩),
      (0x3000, ⟨[67, 67, 0], 1, 2, readyState, 0, 0, 0⟩),
      (0x4000, ⟨[68, 68, 0], 1, 2, blockedState, 0, 0, 0⟩)]
    0x2000 0x4000 0x1000 (callContext 1 0 0 0)
    (Device.opened (Vector.replicate 16 0) ⟨fun _ => 0⟩ kernelHeap)

def commandLists : Queue → List U32
  | .ready => [0x2000, 0x3000]
  | .blocked => [0x4000]
  | .suspended => []

theorem commandKernel_queues : Queues commandKernel.procs commandLists := by
  constructor
  · intro q
    cases q <;> decide
  · intro q
    cases q <;> decide
  · intro q q' hne p hp hp'
    cases q <;> cases q' <;> grind [commandLists]

/-- No ready process is ever suspended: it stays on the ready queue, and at the head of
this queue it is the next one to run. -/
theorem suspend_leaves_ready (h : Queues K.procs lists) (hp : p ∈ lists .ready)
    (hrun : suspendPcb C K buf = .ok (suspendedMsg, K')) :
    ¬ TakenOut F K' lists p ∧
      (K.procs.readyHead = p → ∀ contexts ctx r K'',
        syscallNumber (contexts ctx).eax = some .idle →
        sysCall F { K' with contexts := contexts } ctx = .ok (r, K'') → K''.globalPcb = p) := by
  constructor
  · intro htaken
    rcases htaken.1 with ⟨lists', hmoved⟩
    exact suspend_not_moved h hp hrun hmoved
  · intro hhead contexts ctx r K'' hop hidle
    rcases suspendPcb_spec hrun with ⟨found, hK'⟩
    have hreadyHead : K'.procs.readyHead = p := by
      rw [hK', ← hhead]
      rfl
    rw [← hreadyHead]
    apply idle_runs_head hop _ hidle
    rw [hreadyHead]
    exact (h.holds .ready).ne_null hp

theorem suspendPcb_commandKernel :
    ∃ K', suspendPcb silentConsole commandKernel [66, 66, 10] = .ok (suspendedMsg, K') :=
  of_map_fst_ok (by decide +kernel)

theorem suspend_leaves_ready_first :
    ∃ K', suspendPcb silentConsole commandKernel [66, 66, 10] = .ok (suspendedMsg, K') ∧
      ¬ TakenOut studentHeap K' commandLists 0x2000 := by
  rcases suspendPcb_commandKernel with ⟨K', hrun⟩
  exact ⟨K', hrun, (suspend_leaves_ready commandKernel_queues (by decide) hrun).1⟩

/-- The process is reported as suspended, and the next IDLE call runs it. -/
theorem suspended_process_runs :
    Queues commandKernel.procs commandLists ∧ (0x2000 : U32) ∈ commandLists .ready ∧
    (∃ K', suspendPcb silentConsole commandKernel [66, 66, 10] = .ok (suspendedMsg, K') ∧
      ¬ TakenOut studentHeap K' commandLists 0x2000) ∧
    (do
      let (msg, K') ← suspendPcb silentConsole commandKernel [66, 66, 10]
      let (_, K'') ← sysCall studentHeap K' 0x1234
      return (msg, K'.procs.readyHead, K'.procs.suspendedHead, K''.globalPcb)) =
      .ok (suspendedMsg, 0x2000, 0, 0x2000) := by
  rcases suspendPcb_commandKernel with ⟨K', hrun⟩
  refine ⟨commandKernel_queues, by decide, ⟨K', hrun, ?_⟩, by decide +kernel⟩
  intro htaken
  rcases htaken.1 with ⟨lists', hmoved⟩
  exact suspend_not_moved commandKernel_queues (by decide) hrun hmoved

end Suspend

section Resume

variable {C : Console σ} {K K' : Kernel σ} {buf name : List U8} {lists : Queue → List U32} {p : U32}

theorem resumePcb_spec (hname : (strtok buf whitespace).1 = some name)
    (hfind : pcbSearch K.procs name = .ok p)
    (hrun : resumePcb C K buf = .ok (resumedMsg, K')) :
    p ≠ 0 ∧ (K.procs.OnQueue .ready p ∨ K.procs.OnQueue .suspended p) ∧
      pcbInsert (K.procs.setState p resumeState) p = .ok K'.procs := by
  rcases onUserProcess_cases (by decide) (by decide) (by decide) hrun with
    ⟨name', found, hname', -, -, hfind', hne, -, hact⟩
  rw [hname] at hname'
  cases hname'
  rw [hfind] at hfind'
  cases hfind'
  rcases of_bind_ok hact with ⟨s, hinsert, heq⟩
  cases heq
  exact ⟨hne, (pcbSearch_found hfind hne).1, hinsert⟩

theorem resume_not_moved {lists' : Queue → List U32} (h : Queues K.procs lists)
    (hname : (strtok buf whitespace).1 = some name) (hfind : pcbSearch K.procs name = .ok p)
    (hrun : resumePcb C K buf = .ok (resumedMsg, K')) :
    ¬ Moved K'.procs lists lists' p .ready := by
  rcases resumePcb_spec hname hfind hrun with ⟨-, hon, hinsert⟩
  have hqueue : insertQueue ((K.procs.setState p resumeState).pcbs p).state = some .ready := by
    rw [state_setState_self]
    decide
  rcases hon with hready | hsuspended
  · exact pcbInsert_again (h.setState resumeState) hqueue
      ((h.holds .ready).onQueue_iff.mp hready) hinsert
  · intro hmoved
    apply hmoved.not_onQueue (q := .suspended) (by decide)
    exact pcbInsert_stays (h.setState resumeState) hqueue
      ((h.holds .suspended).onQueue_iff.mp hsuspended) (by decide) hinsert

/-- A resumed process has a second link to it in every case. -/
theorem resume_breaks_queues (h : Queues K.procs lists)
    (hname : (strtok buf whitespace).1 = some name) (hfind : pcbSearch K.procs name = .ok p)
    (hrun : resumePcb C K buf = .ok (resumedMsg, K')) :
    ¬ ∃ lists', Moved K'.procs lists lists' p .ready := by
  intro hmoved
  rcases hmoved with ⟨lists', hmoved⟩
  exact resume_not_moved h hname hfind hrun hmoved

theorem resumePcb_commandKernel :
    ∃ K', resumePcb silentConsole commandKernel [66, 66, 10] = .ok (resumedMsg, K') :=
  of_map_fst_ok (by decide +kernel)

theorem resume_breaks_queues_first :
    ∃ K', resumePcb silentConsole commandKernel [66, 66, 10] = .ok (resumedMsg, K') ∧
      ¬ ∃ lists', Moved K'.procs commandLists lists' 0x2000 .ready := by
  rcases resumePcb_commandKernel with ⟨K', hrun⟩
  have hname : (strtok [66, 66, 10] whitespace).1 = some [66, 66] := by decide
  have hfind : pcbSearch commandKernel.procs [66, 66] = .ok 0x2000 := by decide +kernel
  exact ⟨K', hrun, resume_breaks_queues commandKernel_queues hname hfind hrun⟩

/-- The head of the ready queue that is resumed points to itself, and the process behind
it is on no queue any more. -/
theorem resumed_process_points_to_itself :
    Queues commandKernel.procs commandLists ∧
    pcbSearch commandKernel.procs [66, 66] = .ok 0x2000 ∧
    (∃ K', resumePcb silentConsole commandKernel [66, 66, 10] = .ok (resumedMsg, K') ∧
      ¬ ∃ lists', Moved K'.procs commandLists lists' 0x2000 .ready) ∧
    (resumePcb silentConsole commandKernel [66, 66, 10]).map (fun r =>
      (r.1, r.2.procs.readyHead, r.2.procs.next 0x2000)) =
      .ok (resumedMsg, 0x2000, 0x2000) := by
  rcases resumePcb_commandKernel with ⟨K', hrun⟩
  have hname : (strtok [66, 66, 10] whitespace).1 = some [66, 66] := by decide
  have hfind : pcbSearch commandKernel.procs [66, 66] = .ok 0x2000 := by decide +kernel
  refine ⟨commandKernel_queues, hfind, ⟨K', hrun, ?_⟩, by decide +kernel⟩
  intro hmoved
  rcases hmoved with ⟨lists', hmoved⟩
  exact resume_not_moved commandKernel_queues hname hfind hrun hmoved

end Resume

section Unblock

variable {d d' : Device σ} {s s' : Procs} {lists : Queue → List U32} {p : U32}

theorem unblock_spec (h : Queues s lists) (hp : p ∈ lists .blocked)
    (hrun : unblockPcb s p = .ok s') :
    s'.Holds .ready (s.enqueue p (lists .ready)) ∧ s'.OnQueue .blocked p := by
  have hnull : p ≠ 0 := (h.holds .blocked).ne_null hp
  have hqueue : insertQueue ((s.setState p readyState).pcbs p).state = some .ready := by
    rw [state_setState_self]
    decide
  rw [unblockPcb, if_neg hnull] at hrun
  constructor
  · rcases pcbInsert_spec hnull hqueue ((h.setState readyState).holds .ready)
      (h.disjoint .blocked .ready (by decide) p hp) with ⟨s₁, hrun₁, hholds, -⟩
    rw [hrun₁] at hrun
    cases hrun
    rwa [enqueue_congr (priority_setState readyState)] at hholds
  · exact pcbInsert_stays (h.setState readyState) hqueue hp (by decide) hrun

theorem interrupt_unblocks (hop : d.port.operation = .write) (hhead : d.port.ioHead ≠ 0)
    (hdone : ¬ d.More) (hrun : serialOutputInterrupt F d s = .ok (d', s')) :
    unblockPcb s (d.iocbs d.port.ioHead).currProc = .ok s' := by
  rw [serialOutputInterrupt_done s hop hhead hdone] at hrun
  rcases of_bind_ok hrun with ⟨s₁, hunblock, hrest⟩
  rcases of_bind_ok hrest with ⟨⟨r, heap⟩, -, heq⟩
  cases heq
  exact hunblock

/-- The process of a completed request comes to its place on the ready queue and stays on
the blocked queue. -/
theorem unblock_leaves_blocked (h : Queues s lists)
    (hp : (d.iocbs d.port.ioHead).currProc ∈ lists .blocked)
    (hop : d.port.operation = .write) (hhead : d.port.ioHead ≠ 0) (hdone : ¬ d.More)
    (hrun : serialOutputInterrupt F d s = .ok (d', s')) :
    s'.Holds .ready (s.enqueue (d.iocbs d.port.ioHead).currProc (lists .ready)) ∧
      ¬ ∃ lists', Moved s' lists lists' (d.iocbs d.port.ioHead).currProc .ready := by
  rcases unblock_spec h hp (interrupt_unblocks hop hhead hdone hrun) with ⟨hready, hblocked⟩
  constructor
  · exact hready
  · intro hmoved
    rcases hmoved with ⟨lists', hmoved⟩
    exact hmoved.not_onQueue (by decide) hblocked

def unblockingInterrupt : Except Fault (Device Heap × Device Heap × Procs) := do
  let d ← ioScheduler studentHeap commandKernel.device 0x4000 COM1 0x6000 1 .write
  let (d', s') ← serialOutputInterrupt studentHeap d commandKernel.procs
  return (d, d', s')

theorem unblockingInterrupt_completes :
    ∃ d d' s', serialOutputInterrupt studentHeap d commandKernel.procs = .ok (d', s') ∧
      d.port.operation = .write ∧ d.port.ioHead ≠ 0 ∧ ¬ d.More ∧
      (d.iocbs d.port.ioHead).currProc = 0x4000 ∧ s'.blockedHead = 0x4000 := by
  have hcompute : unblockingInterrupt.map (fun r =>
      (r.1.port.operation, decide (r.1.port.ioHead ≠ 0), decide r.1.More,
        (r.1.iocbs r.1.port.ioHead).currProc, r.2.2.blockedHead)) =
      .ok (.write, true, false, 0x4000, 0x4000) := by
    decide +kernel
  rcases of_map_ok hcompute with ⟨⟨d, d', s'⟩, hrun, hresult⟩
  rcases of_bind_ok hrun with ⟨d₁, -, hrest⟩
  rcases of_bind_ok hrest with ⟨⟨d₂, s₂⟩, hinterrupt, heq⟩
  cases heq
  simp only [Prod.mk.injEq, decide_eq_true_eq, decide_eq_false_iff_not] at hresult
  exact ⟨d, d', s', hinterrupt, hresult⟩

theorem unblock_leaves_blocked_one_byte :
    ∃ d d' s', serialOutputInterrupt studentHeap d commandKernel.procs = .ok (d', s') ∧
      ¬ ∃ lists', Moved s' commandLists lists' (d.iocbs d.port.ioHead).currProc .ready := by
  rcases unblockingInterrupt_completes with ⟨d, d', s', hrun, hop, hhead, hdone, hproc, -⟩
  have hblocked : (d.iocbs d.port.ioHead).currProc ∈ commandLists .blocked := by
    rw [hproc]
    decide
  exact ⟨d, d', s', hrun,
    (unblock_leaves_blocked commandKernel_queues hblocked hop hhead hdone hrun).2⟩

/-- The process whose byte is written is on two queues. -/
theorem unblocked_process_on_two_queues :
    Queues commandKernel.procs commandLists ∧ (0x4000 : U32) ∈ commandLists .blocked ∧
    ∃ d d' s', serialOutputInterrupt studentHeap d commandKernel.procs = .ok (d', s') ∧
      d.port.operation = .write ∧ ¬ d.More ∧ (d.iocbs d.port.ioHead).currProc = 0x4000 ∧
      s'.blockedHead = 0x4000 ∧ ¬ ∃ lists', Moved s' commandLists lists' 0x4000 .ready := by
  rcases unblockingInterrupt_completes with ⟨d, d', s', hrun, hop, -, hdone, hproc, hstays⟩
  refine ⟨commandKernel_queues, by decide, d, d', s', hrun, hop, hdone, hproc, hstays, ?_⟩
  intro hmoved
  rcases hmoved with ⟨lists', hmoved⟩
  apply hmoved.not_onQueue (q := .blocked) (by decide)
  rw [OnQueue, show s'.head .blocked = 0x4000 from hstays]
  exact Reaches.here (by decide)

end Unblock

end Mpx
