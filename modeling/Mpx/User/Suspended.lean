import Mpx.Kernel.ExitRuns
import Mpx.Kernel.LiveLinks
import Mpx.User.LoadR3
import Mpx.User.UnknownName

/-! The suspended queue is empty in every state that the system reaches: nothing inserts a PCB
in the state that `kernel/pcb.c` calls suspended. -/

namespace Mpx

open Memory PointerList Procs Run CString

section Queues

variable {s s' : Procs} {S : U32 → Prop} {c : U32}

theorem insertQueue_suspended {v : Int} (h : insertQueue v = some .suspended) :
    v = suspendedState := by
  rw [insertQueue] at h
  split at h
  · cases h
  · split at h
    · assumption
    · split at h <;> cases h

theorem pcbInsert_suspendedHead (hstate : (s.pcbs c).state ≠ suspendedState)
    (hrun : pcbInsert s c = .ok s') : s'.suspendedHead = s.suspendedHead := by
  cases pcbInsert_cases hrun with
  | inl hsame => rw [hsame.1]
  | inr hlinked =>
      obtain ⟨-, q, hq, hresult⟩ := hlinked
      have hother : Queue.suspended ≠ q := by
        intro heq
        rw [← heq] at hq
        exact hstate (insertQueue_suspended hq)
      have hhead : s'.head .suspended = s.head .suspended := by
        cases hresult with
        | inl hfront => rw [hfront, head_setHead_ne hother, head_setNext]
        | inr hbehind =>
            obtain ⟨w, -, -, -, rfl⟩ := hbehind
            rw [head_setNext, head_setNext]
      exact hhead

theorem pcbRemove_suspendedHead {r : Int} (hnone : s.suspendedHead = 0)
    (hrun : pcbRemove s c = .ok (r, s')) : s'.suspendedHead = 0 := by
  have hempty : s.head .suspended = 0 := hnone
  have hhead : s'.head .suspended = 0 := by
    rcases pcbRemove_cases hrun with ⟨-, rfl⟩ | ⟨-, q, -, hon, rfl | ⟨w, rfl⟩⟩
    · exact hempty
    · have hother : Queue.suspended ≠ q := by
        intro heq
        rw [← heq, OnQueue, hempty] at hon
        exact not_reaches_null hon
      rw [head_setHead_ne hother, hempty]
    · rw [head_setNext, hempty]
  exact hhead

theorem suspended_kept :
    KeptByCalls (fun _ => True) S (fun s s' => s.suspendedHead = 0 → s'.suspendedHead = 0) where
  refl := fun _ h => h
  trans := fun hfirst hsecond h => hsecond (hfirst h)
  stackTop := fun _ _ _ _ _ h => h
  state := fun _ _ _ h => h
  insert := fun _ hstate hrun h => (pcbInsert_suspendedHead hstate hrun).trans h
  remove := fun hrun h => pcbRemove_suspendedHead h hrun
  unlink := fun _ _ h => h

end Queues

/-- The processes have their blocks and names, and none of them is suspended. -/
structure NoneSuspended (K : Kernel Heap) : Prop where
  populated : ∃ queue others live, Populated K (Live K) queue others live
  suspended : K.procs.suspendedHead = 0

section Kernel

variable {K K' : Kernel Heap} {S : U32 → Prop} {queue others live : List U32} {C : Console Heap}
  {name : Option (List U8)} {procClass priority : Int} {p : U32}

theorem Populated.noneSuspended (h : Populated K S queue others live)
    (hsuspended : K.procs.suspendedHead = 0) : NoneSuspended K :=
  ⟨⟨queue, others, live, h.shrink⟩, hsuspended⟩

theorem NoneSuspended.orderly (h : NoneSuspended K) : ∃ live, Orderly K live := by
  obtain ⟨queue, others, live, hpopulated⟩ := h.populated
  exact ⟨live, hpopulated.orderly h.suspended⟩

theorem Populated.suspended_run (h : Populated K S queue others live)
    (hsuspended : K.procs.suspendedHead = 0)
    (hrun : Relation.ReflTransGen (FrameStep fun _ => True) K K') :
    K'.procs.suspendedHead = 0 :=
  (frameRun_kept suspended_kept h hrun).2 hsuspended

theorem NoneSuspended.run (h : NoneSuspended K)
    (hrun : Relation.ReflTransGen (FrameStep fun _ => True) K K') : NoneSuspended K' := by
  obtain ⟨queue, others, live, hpopulated⟩ := h.populated
  obtain ⟨⟨queue', live', h'⟩, -⟩ := frameRun_kept suspended_kept hpopulated hrun
  exact h'.noneSuspended (hpopulated.suspended_run h.suspended hrun)

theorem NoneSuspended.console (hC : Talks studentHeap C) (msg : String) (K K' : Kernel Heap)
    (h : NoneSuspended K) (hwrite : C msg K = .ok K') : NoneSuspended K' :=
  h.run (hC.talksFrom _ _ _ hwrite)

theorem NoneSuspended.withProcs {s : Procs} (h : NoneSuspended K)
    (hconfined : Confined (Live K) K.procs s) (hsuspended : s.suspendedHead = 0) :
    NoneSuspended { K with procs := s } := by
  obtain ⟨queue, others, live, hpopulated⟩ := h.populated
  exact (hpopulated.withProcs hconfined).noneSuspended hsuspended

theorem pcbSetup_suspended (h : NoneSuspended K) (hC : Talks studentHeap C)
    (hrun : pcbSetup studentHeap C K name procClass priority = .ok (p, K')) :
    K'.procs.suspendedHead = 0 ∧ (p ≠ 0 → (K'.procs.pcbs p).state ≠ suspendedState) := by
  obtain ⟨queue, others, live, hpopulated⟩ := h.populated
  obtain ⟨q, heap, halloc, hpath⟩ := pcbSetup_path hC.talksFrom hrun
  have hown := allocateMemory_owns hpopulated.requests.owns halloc
  cases hpath with
  | full K' hq hwrite =>
      rw [if_pos hq] at hown
      have hstart := hpopulated.withHeap hown hpopulated.blocks hpopulated.housed
      exact ⟨hstart.suspended_run h.suspended hwrite, fun hne => absurd rfl hne⟩
  | refused r heap' hq hfree => exact ⟨h.suspended, fun hne => absurd rfl hne⟩
  | made n K' hq hname hlength hsearch =>
      obtain ⟨live, horderly⟩ := h.orderly
      rw [hname] at hrun
      obtain ⟨heap, -, -, rfl⟩ := pcbSetup_made horderly hrun hq
      have hstate : ((withSetUp K heap p n procClass priority).procs.pcbs p).state =
          readyState := by
        rw [withSetUp, pcbs_withNew_self]
        rfl
      refine ⟨h.suspended, fun _ => ?_⟩
      rw [hstate]
      decide
  | inUse n K' r heap' hq hname hlength hsearch hfree =>
      have hstart := hpopulated.withSetUp halloc hq n procClass priority
      have hlast : K'.procs.suspendedHead = 0 := hstart.suspended_run h.suspended hsearch
      exact ⟨hlast, fun hne => absurd rfl hne⟩

theorem processStep_noneSuspended {Allowed : Kernel Heap → Option (List U8) → Prop}
    (h : NoneSuspended K) (hstep : ProcessStep Allowed K K') : NoneSuspended K' := by
  obtain ⟨queue, others, live, hpopulated⟩ := h.populated
  refine ⟨processStep_populated hpopulated hstep, ?_⟩
  cases hstep with
  | system K' hsystem => exact (h.run (.single hsystem.frameStep)).suspended
  | create C name procClass priority K' hC hallowed hrun =>
      obtain ⟨p, K₁, hsetup, hcases⟩ := createPcb_cases hrun
      obtain ⟨hsuspended, hstate⟩ := pcbSetup_suspended h hC hsetup
      cases hcases with
      | inl hnone =>
          rw [hnone.2]
          exact hsuspended
      | inr hmade =>
          obtain ⟨hp, s, hinsert, rfl⟩ := hmade
          exact (pcbInsert_suspendedHead (hstate hp) hinsert).trans hsuspended

end Kernel

section Commands

variable {K K' : Kernel Heap} {C : Console Heap} {proc : Nat → U32} {buf : List U8} {msg : String}
  {p : U32}

theorem loadProcesses_noneSuspended {is : List Nat} {pcbs : List U32} (h : NoneSuspended K)
    (hC : Talks studentHeap C)
    (hrun : loadProcesses studentHeap C proc is K = .ok (pcbs, K')) : NoneSuspended K' := by
  induction is generalizing K pcbs with
  | nil =>
      cases hrun
      exact h
  | cons i is ih =>
      obtain ⟨⟨p, K₁⟩, hfirst, hrest⟩ := of_bind_ok hrun
      obtain ⟨⟨ps, K₂⟩, hloads, heq⟩ := of_bind_ok hrest
      cases heq
      obtain ⟨queue, others, live, hpopulated⟩ := h.populated
      obtain ⟨live', horderly⟩ := h.orderly
      obtain ⟨queue₁, live₁, h₁⟩ := startProcess_populated hpopulated hC hfirst
      have hhead := (startProcess_started horderly hfirst).suspendedHead horderly
      exact ih (h₁.noneSuspended (hhead.trans h.suspended)) hloads

/-- `suspend_pcb` and `resume_pcb` insert the process in a state of `mpx/pcb.h`. -/
theorem NoneSuspended.requeue {v : Int} {s : Procs} (h : NoneSuspended K) (hp : K.procs.OnSome p)
    (hv : v ≠ suspendedState) (hrun : pcbInsert (K.procs.setState p v) p = .ok s) :
    NoneSuspended { K with procs := s } := by
  apply h.withProcs ((confined_setState v).trans (confined_insert (Or.inl hp) hrun))
  exact (pcbInsert_suspendedHead (setState_ne hv) hrun).trans h.suspended

theorem suspendPcb_noneSuspended (h : NoneSuspended K) (hC : Talks studentHeap C)
    (hrun : suspendPcb C K buf = .ok (msg, K')) : NoneSuspended K' := by
  apply onUserProcess_kept (NoneSuspended.console hC) h _ hrun
  intro p hp hact
  obtain ⟨s, hinsert, heq⟩ := of_bind_ok hact
  cases heq
  exact h.requeue hp (by decide) hinsert

theorem resumePcb_noneSuspended (h : NoneSuspended K) (hC : Talks studentHeap C)
    (hrun : resumePcb C K buf = .ok (msg, K')) : NoneSuspended K' := by
  apply onUserProcess_kept (NoneSuspended.console hC) h _ hrun
  intro p hp hact
  obtain ⟨s, hinsert, heq⟩ := of_bind_ok hact
  cases heq
  exact h.requeue hp (by decide) hinsert

theorem deletePcb_noneSuspended (h : NoneSuspended K) (hC : Talks studentHeap C)
    (hrun : deletePcb C K buf = .ok (msg, K')) : NoneSuspended K' := by
  apply onUserProcess_kept (NoneSuspended.console hC) h _ hrun
  intro p hp hact
  obtain ⟨⟨r, s⟩, hremove, hrest⟩ := of_bind_ok hact
  have hremoved : NoneSuspended { K with procs := s } :=
    h.withProcs (confined_remove hremove) (pcbRemove_suspendedHead h.suspended hremove)
  by_cases hr : r = 0
  · simp only [hr, ne_eq, not_true, if_false] at hrest
    cases hrest
    exact hremoved
  · simp only [if_pos hr] at hrest
    cases hrest
    exact hremoved

theorem setPcbPriority_noneSuspended {priorityBuf : List U8} (h : NoneSuspended K)
    (hC : Talks studentHeap C)
    (hrun : setPcbPriority studentHeap C K buf priorityBuf = .ok K') : NoneSuspended K' := by
  obtain ⟨queue, others, live, hpopulated⟩ := h.populated
  apply setPcbPriority_kept (NoneSuspended.console hC) _ _ hrun
  · exact fun K₁ p v h₁ => h₁.withProcs (confined_modify _ (fun _ => rfl) fun _ => rfl) h₁.suspended
  · intro ptr heap hnull halloc
    have hown := allocateMemory_owns hpopulated.requests.owns halloc
    rw [if_neg hnull] at hown
    exact (hpopulated.allocate hown).noneSuspended h.suspended

theorem getTime_noneSuspended {hours minutes seconds : U8} (h : NoneSuspended K)
    (hC : Talks studentHeap C)
    (hrun : getTime studentHeap C K hours minutes seconds = .ok (p, K')) : NoneSuspended K' := by
  obtain ⟨queue, others, live, hpopulated⟩ := h.populated
  obtain ⟨⟨ptr, heap⟩, halloc, hrest⟩ := of_bind_ok hrun
  have hown := allocateMemory_owns hpopulated.requests.owns halloc
  by_cases hnull : ptr = 0
  · simp only [if_pos hnull] at hrest hown
    cases hrest
    exact (hpopulated.withHeap hown hpopulated.blocks hpopulated.housed).noneSuspended h.suspended
  · simp only [if_neg hnull] at hrest hown
    obtain ⟨K₁, hwrite, heq⟩ := of_bind_ok hrest
    cases heq
    exact ((hpopulated.allocate hown).noneSuspended h.suspended).console hC _ _ _ hwrite

theorem nameCommand_noneSuspended {cmd : NameCommand} (h : NoneSuspended K)
    (hC : Talks studentHeap C) (hrun : cmd.run C K buf = .ok K') : NoneSuspended K' := by
  cases cmd with
  | deletePcb =>
      obtain ⟨⟨msg, K₁⟩, hdelete, hwrite⟩ := of_bind_ok hrun
      exact (deletePcb_noneSuspended h hC hdelete).console hC _ _ _ hwrite
  | suspendPcb =>
      obtain ⟨⟨msg, K₁⟩, hsuspend, hwrite⟩ := of_bind_ok hrun
      exact (suspendPcb_noneSuspended h hC hsuspend).console hC _ _ _ hwrite
  | resumePcb =>
      obtain ⟨⟨msg, K₁⟩, hresume, hwrite⟩ := of_bind_ok hrun
      exact (resumePcb_noneSuspended h hC hresume).console hC _ _ _ hwrite
  | showPcb => exact showPcb_kept (NoneSuspended.console hC) h hrun
  | setPcbPriority priorityBuf => exact setPcbPriority_noneSuspended h hC hrun

end Commands

/-- System calls and interrupts, creations, and the commands that act on processes or that take
a block. -/
inductive KernelStep : Kernel Heap → Kernel Heap → Prop
  | process (K K' : Kernel Heap) (hstep : ProcessStep (fun _ _ => True) K K') : KernelStep K K'
  | load (K : Kernel Heap) (C : Console Heap) (proc : Nat → U32) (pcbs : List U32)
      (K' : Kernel Heap) (hC : Talks studentHeap C)
      (hrun : loadR3 studentHeap C proc K = .ok (pcbs, K')) : KernelStep K K'
  | name (K : Kernel Heap) (C : Console Heap) (cmd : NameCommand) (buf : List U8)
      (K' : Kernel Heap) (hC : Talks studentHeap C) (hrun : cmd.run C K buf = .ok K') :
      KernelStep K K'
  | time (K : Kernel Heap) (C : Console Heap) (hours minutes seconds : U8) (p : U32)
      (K' : Kernel Heap) (hC : Talks studentHeap C)
      (hrun : getTime studentHeap C K hours minutes seconds = .ok (p, K')) : KernelStep K K'

theorem kernelStep_noneSuspended {K K' : Kernel Heap} (h : NoneSuspended K)
    (hstep : KernelStep K K') : NoneSuspended K' := by
  cases hstep with
  | process K' hstep => exact processStep_noneSuspended h hstep
  | load C proc pcbs K' hC hrun => exact loadProcesses_noneSuspended h hC hrun
  | name C cmd buf K' hC hrun => exact nameCommand_noneSuspended h hC hrun
  | time C hours minutes seconds p K' hC hrun => exact getTime_noneSuspended h hC hrun

/-- In every run from a system without processes `pcb_find` writes nothing when it looks for a
new name. -/
theorem kernelRun_orderly {K₀ K : Kernel Heap} (hstart : StartsEmpty K₀)
    (hrun : Relation.ReflTransGen KernelStep K₀ K) : ∃ live, Orderly K live := by
  obtain ⟨others, live, hpopulated⟩ := hstart.populated
  have hinit : NoneSuspended K₀ := hpopulated.noneSuspended (hstart.heads .suspended)
  have hlast : NoneSuspended K :=
    Run.invariant NoneSuspended (fun _ _ h hstep => kernelStep_noneSuspended h hstep) hrun hinit
  exact hlast.orderly

end Mpx
