import Mpx.Kernel.ExitRuns
import Mpx.Kernel.Kept

/-! The frames that system calls return to. -/

namespace Mpx

open Memory PointerList Procs Run

def NewStack (Frames : U32 → Prop) (h : Heap) : Prop :=
  ∀ p h', allocateMemory h pcbSize = .ok (p, h') → p ≠ 0 → Frames (firstStackTop p)

inductive LaterStep (Frames : U32 → Prop) : Kernel Heap → Kernel Heap → Prop
  | system (K K' : Kernel Heap) (hstep : FrameStep Frames K K') : LaterStep Frames K K'
  | create (K : Kernel Heap) (C : Console Heap) (name : Option (List U8))
      (procClass priority : Int) (K' : Kernel Heap) (hC : TalksFrom Frames C)
      (hstack : NewStack Frames K.device.heap)
      (hrun : createPcb studentHeap C K name procClass priority = .ok K') : LaterStep Frames K K'

namespace Procs

def StacksIn (Frames : U32 → Prop) (s s' : Procs) : Prop :=
  ∀ x, (s'.pcbs x).stackTop = (s.pcbs x).stackTop ∨ Frames (s'.pcbs x).stackTop

variable {Frames S : U32 → Prop} {s s' s'' : Procs} {p : U32}

theorem stacksIn_refl : StacksIn Frames s s := fun _ => Or.inl rfl

theorem StacksIn.trans (h : StacksIn Frames s s') (h' : StacksIn Frames s' s'') :
    StacksIn Frames s s'' := by
  intro x
  cases h' x with
  | inl hsame =>
      rw [hsame]
      exact h x
  | inr hframe => exact Or.inr hframe

theorem StacksIn.frame (h : StacksIn Frames s s') (hp : Frames (s.pcbs p).stackTop) :
    Frames (s'.pcbs p).stackTop := by
  cases h p with
  | inl hsame =>
      rw [hsame]
      exact hp
  | inr hframe => exact hframe

theorem LinksOnly.stacksIn (h : LinksOnly s s') : StacksIn Frames s s' :=
  fun x => Or.inl (h.stackTop x)

theorem stacksIn_modify (f : Pcb → Pcb)
    (hf : ∀ b, (f b).stackTop = b.stackTop ∨ Frames (f b).stackTop) :
    StacksIn Frames s (s.modify p f) := by
  intro x
  by_cases hx : x = p
  · rw [hx, pcbs_modify_self]
    exact hf _
  · rw [pcbs_modify_ne hx]
    exact Or.inl rfl

theorem stacksIn_kept : KeptByCalls Frames S (StacksIn Frames) where
  refl := fun _ => stacksIn_refl
  trans := StacksIn.trans
  stackTop := fun _ _ _ _ hframe => stacksIn_modify _ fun _ => Or.inr hframe
  state := fun _ _ _ => stacksIn_modify _ fun _ => Or.inl rfl
  insert := fun _ _ hrun => (pcbInsert_linksOnly hrun).stacksIn
  remove := fun hrun => (pcbRemove_linksOnly hrun).stacksIn
  unlink := fun _ p => (linksOnly_setNext p 0).stacksIn

end Procs

section Calls

variable {σ : Type} {F : HeapFunctions σ} {K K' : Kernel σ} {ctx n r : U32}

def Resumes (K K' : Kernel σ) (ctx n r : U32) : Prop :=
  (r = ctx ∧ K'.globalPcb = K.globalPcb) ∨
    (n ≠ 0 ∧ r = (K'.procs.pcbs n).stackTop ∧ K'.globalPcb = n)

theorem idleCase_resumes (hrun : idleCase K ctx n = .ok (r, K')) : Resumes K K' ctx n r := by
  by_cases hn : n = 0
  · obtain ⟨context, hcases⟩ := idleCase_cases hrun
    cases hcases with
    | inl hnone =>
        rw [hnone.2.2]
        exact Or.inl ⟨hnone.2.1, rfl⟩
    | inr hsome =>
        cases hsome with
        | inl hfirst => exact absurd hn hfirst.1
        | inr hswitch => exact absurd hn hswitch.1
  · exact Or.inr ⟨hn, idleCase_dispatches hn hrun⟩

theorem sysCall_resumes (hrun : sysCall F K ctx = .ok (r, K'))
    (hexit : exitCase F K K.procs.readyHead ≠ .ok (r, K')) :
    Resumes K K' ctx K.procs.readyHead r := by
  have hlast : ∀ K₁ : Kernel σ, K₁.globalPcb = K.globalPcb →
      idleCase K₁ ctx K.procs.readyHead = .ok (r, K') →
        Resumes K K' ctx K.procs.readyHead r := by
    intro K₁ hglobal hidle
    cases idleCase_resumes hidle with
    | inl hback => exact Or.inl ⟨hback.1, hback.2.trans hglobal⟩
    | inr hnext => exact Or.inr hnext
  cases hop : syscallNumber (K.contexts ctx).eax with
  | none =>
      simp only [sysCall, hop] at hrun
      cases hrun
      exact Or.inl ⟨rfl, rfl⟩
  | some op =>
      cases op with
      | exit =>
          simp only [sysCall, hop] at hrun
          exact absurd hrun hexit
      | idle =>
          simp only [sysCall, hop] at hrun
          exact hlast K rfl hrun
      | read =>
          simp only [sysCall, hop] at hrun
          obtain ⟨K₁, hrequest, hidle⟩ := of_bind_ok hrun
          exact hlast K₁ (requestCase_globalPcb hrequest).2 hidle
      | write =>
          simp only [sysCall, hop] at hrun
          obtain ⟨K₁, hfirst, hrest⟩ := of_bind_ok hrun
          obtain ⟨K₂, hsecond, hidle⟩ := of_bind_ok hrest
          exact hlast K₂
            ((requestCase_globalPcb hsecond).2.trans (requestCase_globalPcb hfirst).2) hidle

end Calls

section Steps

variable {Frames : U32 → Prop} {K K' : Kernel Heap} {C : Console Heap}
  {queue others live : List U32} {p ctx r : U32}

theorem LaterStep.processStep (h : LaterStep Frames K K') :
    ProcessStep (fun _ _ => True) K K' := by
  cases h with
  | system K' hstep => exact .system K K' hstep.systemStep
  | create C name procClass priority K' hC hstack hrun =>
      exact .create K C name procClass priority K' hC.talks trivial hrun

/-- A process is running, and every live process has stopped at one of these frames. -/
structure Framed (Frames : U32 → Prop) (K : Kernel Heap) : Prop where
  populated : ∃ queue others live, Populated K (Live K) queue others live
  running : K.globalPcb ≠ 0
  tops : ∀ p, Live K p → Frames (K.procs.pcbs p).stackTop

theorem Framed.congr (h : Framed Frames K) (h' : Populated K' (Live K) queue others live)
    (hrunning : K'.globalPcb ≠ 0) (hstacks : StacksIn Frames K.procs K'.procs) :
    Framed Frames K' where
  populated := ⟨queue, others, live, h'.shrink⟩
  running := hrunning
  tops := fun p hp => hstacks.frame (h.tops p (h'.live_mem hp))

theorem Framed.withMemory (h : Framed Frames K) (contexts : U32 → Context) (mem : Mem) :
    Framed Frames { K with contexts := contexts, device := { K.device with mem := mem } } := by
  obtain ⟨queue, others, live, hpopulated⟩ := h.populated
  exact ⟨⟨queue, others, live, hpopulated.withMemory contexts mem⟩, h.running, h.tops⟩

theorem Framed.resumes (h : Framed Frames K) (hctx : Frames ctx)
    (hrun : sysCall studentHeap K ctx = .ok (r, K')) : Frames r ∧ K'.globalPcb ≠ 0 := by
  obtain ⟨queue, others, live, hpopulated⟩ := h.populated
  have hstacks := sysCall_kept stacksIn_kept hctx hpopulated.running hrun
  have hexit := @exitCase_never K K' queue others live K.procs.readyHead r hpopulated h.running
  cases sysCall_resumes hrun hexit with
  | inl hback =>
      rw [hback.1, hback.2]
      exact ⟨hctx, h.running⟩
  | inr hnext =>
      obtain ⟨hhead, hr, hglobal⟩ := hnext
      have hlive : Live K K.procs.readyHead := Or.inl ⟨.ready, Reaches.here hhead⟩
      rw [hr, hglobal]
      exact ⟨hstacks.frame (h.tops _ hlive), hhead⟩

theorem frameStep_framed (h : Framed Frames K) (hstep : FrameStep Frames K K') :
    Framed Frames K' := by
  obtain ⟨queue, others, live, hpopulated⟩ := h.populated
  have hstacks := frameStep_kept stacksIn_kept hpopulated hstep
  obtain ⟨⟨queue', live', h'⟩, -⟩ := systemStep_populated hpopulated hstep.systemStep
  have hrunning : K'.globalPcb ≠ 0 := by
    cases hstep with
    | call contexts mem ctx r K' hctx hrun => exact ((h.withMemory contexts mem).resumes hctx hrun).2
    | inputInterrupt => exact h.running
    | outputInterrupt device procs hrun => exact h.running
  exact h.congr h' hrunning hstacks

theorem frameRun_framed (h : Framed Frames K)
    (hrun : Relation.ReflTransGen (FrameStep Frames) K K') :
    K'.globalPcb ≠ 0 ∧ StacksIn Frames K.procs K'.procs := by
  obtain ⟨queue, others, live, hpopulated⟩ := h.populated
  have hlast := Run.invariant (Framed Frames) (fun _ _ => frameStep_framed) hrun h
  exact ⟨hlast.running, (frameRun_kept stacksIn_kept hpopulated hrun).2⟩

theorem withSetUp_framed {heap : Heap} {n : List U8} {procClass priority : Int}
    (h : Framed Frames K) (hpopulated : Populated K (Live K) queue others live)
    (halloc : allocateMemory K.device.heap pcbSize = .ok (p, heap)) (hnull : p ≠ 0)
    (hp : Frames (firstStackTop p)) :
    Framed Frames (withSetUp K heap p n procClass priority) ∧
      StacksIn Frames K.procs (K.procs.withNew p n procClass priority) := by
  have hstacks : StacksIn Frames K.procs (K.procs.withNew p n procClass priority) :=
    (stacksIn_modify freshPcb fun _ => Or.inl rfl).trans
      (stacksIn_modify _ fun _ => Or.inr hp)
  have hmade := hpopulated.withSetUp halloc hnull n procClass priority
  exact ⟨h.congr hmade h.running hstacks, hstacks⟩

/-- `pcb_setup` leaves `stack_top` of all other PCBs as it is, and sets that of the new one. -/
theorem pcbSetup_framed {name : Option (List U8)} {procClass priority : Int}
    (h : Framed Frames K) (hC : TalksFrom Frames C) (hstack : NewStack Frames K.device.heap)
    (hrun : pcbSetup studentHeap C K name procClass priority = .ok (p, K')) :
    K'.globalPcb ≠ 0 ∧ StacksIn Frames K.procs K'.procs ∧
      (p ≠ 0 → Frames (K'.procs.pcbs p).stackTop) := by
  obtain ⟨queue, others, live, hpopulated⟩ := h.populated
  obtain ⟨q, heap, halloc, hpath⟩ := pcbSetup_path hC hrun
  have hown := allocateMemory_owns hpopulated.requests.owns halloc
  cases hpath with
  | full K' hq hwrite =>
      rw [if_pos hq] at hown
      have hfull : Framed Frames { K with device := { K.device with heap := heap } } :=
        h.congr (hpopulated.withHeap hown hpopulated.blocks hpopulated.housed) h.running
          stacksIn_refl
      obtain ⟨hrunning, hstacks⟩ := frameRun_framed hfull hwrite
      exact ⟨hrunning, hstacks, fun hp => absurd rfl hp⟩
  | refused r heap' hq hfree =>
      exact ⟨h.running, stacksIn_modify freshPcb fun _ => Or.inl rfl, fun hp => absurd rfl hp⟩
  | made n K' hq hname hlength hsearch =>
      have hframe := hstack p heap halloc hq
      obtain ⟨hframed, hset⟩ := withSetUp_framed h hpopulated halloc hq hframe
      obtain ⟨hrunning, hstacks⟩ := frameRun_framed hframed hsearch
      have htop : Frames ((K.procs.withNew p n procClass priority).pcbs p).stackTop := by
        rw [pcbs_withNew_self]
        exact hframe
      exact ⟨hrunning, hset.trans hstacks, fun _ => hstacks.frame htop⟩
  | inUse n K' r heap' hq hname hlength hsearch hfree =>
      obtain ⟨hframed, hset⟩ :=
        withSetUp_framed h hpopulated halloc hq (hstack q heap halloc hq)
      obtain ⟨hrunning, hstacks⟩ := frameRun_framed hframed hsearch
      exact ⟨hrunning, hset.trans hstacks, fun hp => absurd rfl hp⟩

theorem laterStep_framed (h : Framed Frames K) (hstep : LaterStep Frames K K') :
    Framed Frames K' := by
  have hprocess := hstep.processStep
  cases hstep with
  | system K' hframe => exact frameStep_framed h hframe
  | create C name procClass priority K' hC hstack hrun =>
      obtain ⟨queue, others, live, hpopulated⟩ := h.populated
      obtain ⟨⟨p, K₁⟩, hsetup, hrest⟩ := of_bind_ok hrun
      obtain ⟨s, hinsert, heq⟩ := of_bind_ok hrest
      cases heq
      obtain ⟨hrunning, hstacks, hnew⟩ := pcbSetup_framed h hC hstack hsetup
      have hlinks : StacksIn Frames K₁.procs s := (pcbInsert_linksOnly hinsert).stacksIn
      -- a live PCB was live before or is the new one
      have hlive : ∀ x, Live { K₁ with procs := s } x → Live K x ∨ (p ≠ 0 ∧ x = p) := by
        intro x hx
        cases pcbSetup_populated hpopulated hC.talks hsetup with
        | inl hfailed =>
            obtain ⟨hnull, ⟨queue', live', h'⟩, -⟩ := hfailed
            rw [hnull, pcbInsert, if_pos rfl] at hinsert
            cases hinsert
            exact Or.inl (h'.live_mem hx)
        | inr hmade =>
            obtain ⟨n, -, hset⟩ := hmade
            obtain ⟨queue', live', h'⟩ := hset.insert hinsert
            exact (h'.live_mem hx).imp_right fun heq => ⟨hset.null, heq⟩
      refine ⟨processStep_populated hpopulated hprocess, hrunning, fun x hx => ?_⟩
      cases hlive x hx with
      | inl hold => exact (hstacks.trans hlinks).frame (h.tops x hold)
      | inr hmade =>
          rw [hmade.2]
          exact hlinks.frame (hnew hmade.1)

end Steps

end Mpx
