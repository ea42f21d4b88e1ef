import Mpx.Kernel.Cleanup

/-! What the single operations on PCBs keep is kept by system calls, by interrupts and by the
messages that a process writes. -/

namespace Mpx

open Memory PointerList Procs Run CString

inductive FrameStep (Frames : U32 → Prop) : Kernel Heap → Kernel Heap → Prop
  | call (K : Kernel Heap) (contexts : U32 → Context) (mem : Mem) (ctx r : U32) (K' : Kernel Heap)
      (hctx : Frames ctx)
      (hrun : sysCall studentHeap
        { K with contexts := contexts, device := { K.device with mem := mem } } ctx =
          .ok (r, K')) : FrameStep Frames K K'
  | inputInterrupt (K : Kernel Heap) :
      FrameStep Frames K { K with device := serialInputInterrupt K.device }
  | outputInterrupt (K : Kernel Heap) (device : Device Heap) (procs : Procs)
      (hrun : serialOutputInterrupt studentHeap K.device K.procs = .ok (device, procs)) :
      FrameStep Frames K { K with device := device, procs := procs }

/-- What the operations do to the PCBs of `S`, with frames of `Frames` saved in them. -/
structure KeptByCalls (Frames S : U32 → Prop) (R : Procs → Procs → Prop) : Prop where
  refl : ∀ s, R s s
  trans : ∀ {s s' s''}, R s s' → R s' s'' → R s s''
  stackTop : ∀ s {p v}, S p → Frames v → R s (s.setStackTop p v)
  state : ∀ s p v, R s (s.setState p v)
  insert : ∀ {s c s'}, S c → (s.pcbs c).state ≠ suspendedState → pcbInsert s c = .ok s' → R s s'
  remove : ∀ {s c r s'}, pcbRemove s c = .ok (r, s') → R s s'
  unlink : ∀ s p, R s (s.setNext p 0)

section Calls

variable {σ : Type} {F : HeapFunctions σ} {Frames S : U32 → Prop} {R : Procs → Procs → Prop}
  {K K' : Kernel σ} {ctx n r : U32}

theorem setState_ne {s : Procs} {p : U32} {v w : Int} (hv : v ≠ w) :
    ((s.setState p v).pcbs p).state ≠ w := by
  rw [state_setState_self]
  exact hv

theorem requestCase_kept {op : OpCode} (hR : KeptByCalls Frames S R) (hctx : Frames ctx)
    (hrunning : K.globalPcb ≠ 0 → S K.globalPcb) (hrun : requestCase F K ctx op = .ok K') :
    R K.procs K'.procs := by
  have hg := (requestCase_globalPcb hrun).1
  rw [requestCase, if_neg hg] at hrun
  obtain ⟨device, -, hrest⟩ := of_bind_ok hrun
  obtain ⟨s, hinsert, heq⟩ := of_bind_ok hrest
  cases heq
  exact hR.trans (hR.trans (hR.stackTop _ (hrunning hg) hctx) (hR.state _ _ _))
    (hR.insert (hrunning hg) (setState_ne (by decide)) hinsert)

theorem dispatch_kept (hR : KeptByCalls Frames S R) (hrun : dispatch K n = .ok (r, K')) :
    R K.procs K'.procs := by
  cases dispatch_cases hrun with
  | inl hnone =>
      rw [hnone.2.2]
      exact hR.refl _
  | inr hnext =>
      obtain ⟨-, result, s, hremove, -, rfl⟩ := hnext
      exact hR.trans (hR.trans (hR.remove hremove) (hR.unlink _ _)) (hR.state _ _ _)

/-- A frame is saved only for a process that is running. -/
theorem idleCase_kept (hR : KeptByCalls Frames S R) (hctx : K.globalPcb ≠ 0 → Frames ctx)
    (hrunning : K.globalPcb ≠ 0 → S K.globalPcb) (hrun : idleCase K ctx n = .ok (r, K')) :
    R K.procs K'.procs := by
  obtain ⟨context, hcases⟩ := idleCase_cases hrun
  cases hcases with
  | inl hnone =>
      rw [hnone.2.2]
      exact hR.refl _
  | inr hsome =>
      cases hsome with
      | inl hfirst =>
          have hlast : R { K with initialContext := context }.procs K'.procs :=
            dispatch_kept hR hfirst.2.2
          exact hlast
      | inr hswitch =>
          obtain ⟨-, hg, s, hinsert, hdispatch⟩ := hswitch
          have hlast : R s K'.procs := dispatch_kept hR hdispatch
          have hsaved := hR.trans (hR.stackTop K.procs (hrunning hg) (hctx hg))
            (hR.state _ K.globalPcb readyState)
          have hqueued := hR.insert (hrunning hg) (setState_ne (by decide)) hinsert
          exact hR.trans (hR.trans hsaved hqueued) hlast

theorem exitCase_kept (hR : KeptByCalls Frames S R) (hrun : exitCase F K n = .ok (r, K')) :
    R K.procs K'.procs := by
  cases exitCase_cases hrun with
  | inl hdispatch => exact dispatch_kept hR hdispatch.2
  | inr hfreed =>
      obtain ⟨-, -, result, s, freed, heap, hremove, -, -, rfl⟩ := hfreed
      exact hR.trans (hR.remove hremove) (hR.unlink _ _)

theorem sysCall_kept (hR : KeptByCalls Frames S R) (hctx : Frames ctx)
    (hrunning : K.globalPcb ≠ 0 → S K.globalPcb) (hrun : sysCall F K ctx = .ok (r, K')) :
    R K.procs K'.procs := by
  -- a request leaves the same PCB running
  have hstill : ∀ {K₁ K₂ : Kernel σ} {op : OpCode}, (K₁.globalPcb ≠ 0 → S K₁.globalPcb) →
      requestCase F K₁ ctx op = .ok K₂ → K₂.globalPcb ≠ 0 → S K₂.globalPcb := by
    intro K₁ K₂ op h₁ hrequest
    rw [(requestCase_globalPcb hrequest).2]
    exact h₁
  rcases sysCall_cases hrun with
    hK' | hexit | hidle | ⟨K₁, hrequest, hidle⟩ | ⟨K₁, K₂, hfirst, hsecond, hidle⟩
  · rw [hK']
    exact hR.refl _
  · exact exitCase_kept hR hexit
  · exact idleCase_kept hR (fun _ => hctx) hrunning hidle
  · exact hR.trans (requestCase_kept hR hctx hrunning hrequest)
      (idleCase_kept hR (fun _ => hctx) (hstill hrunning hrequest) hidle)
  · have h₁ := hstill hrunning hfirst
    exact hR.trans
      (hR.trans (requestCase_kept hR hctx hrunning hfirst) (requestCase_kept hR hctx h₁ hsecond))
      (idleCase_kept hR (fun _ => hctx) (hstill h₁ hsecond) hidle)

theorem unblockPcb_kept {s s' : Procs} {p : U32} (hR : KeptByCalls Frames S R) (hp : S p)
    (hrun : unblockPcb s p = .ok s') : R s s' := by
  by_cases hnull : p = 0
  · rw [unblockPcb, if_pos hnull] at hrun
    cases hrun
  · rw [unblockPcb, if_neg hnull] at hrun
    exact hR.trans (hR.state _ _ _) (hR.insert hp (setState_ne (by decide)) hrun)

end Calls

section Steps

variable {Frames S : U32 → Prop} {R : Procs → Procs → Prop} {K K' : Kernel Heap}
  {queue others live : List U32}

theorem Populated.withMemory (h : Populated K S queue others live) (contexts : U32 → Context)
    (mem : Mem) :
    Populated { K with contexts := contexts, device := { K.device with mem := mem } } S queue
      others live := by
  have hrequests := h.requests
  exact ⟨⟨hrequests.openPort.congr rfl rfl rfl rfl, hrequests.queued, hrequests.owns,
    hrequests.held⟩, h.blocks, h.onSome, h.running, h.requesters, h.housed, h.named⟩

theorem FrameStep.systemStep (h : FrameStep Frames K K') : SystemStep studentHeap K K' := by
  cases h with
  | call contexts mem ctx r K' hctx hrun => exact .call K contexts mem ctx r K' hrun
  | inputInterrupt => exact .inputInterrupt K
  | outputInterrupt device procs hrun => exact .outputInterrupt K device procs hrun

theorem frameStep_kept (hR : KeptByCalls Frames S R) (h : Populated K S queue others live)
    (hstep : FrameStep Frames K K') : R K.procs K'.procs := by
  cases hstep with
  | call contexts mem ctx r K' hctx hrun =>
      have hcalled : R { K with
          contexts := contexts, device := { K.device with mem := mem } }.procs K'.procs :=
        sysCall_kept hR hctx h.running hrun
      exact hcalled
  | inputInterrupt => exact hR.refl _
  | outputInterrupt device procs hrun =>
      cases (serialOutputInterrupt_requests studentHeap_laws h.requests hrun).2 with
      | inl hsame =>
          rw [hsame.1]
          exact hR.refl _
      | inr hended =>
          obtain ⟨p, rest, hqueue, -, hunblock⟩ := hended
          have hp : p ∈ queue := by
            rw [hqueue]
            exact List.mem_cons_self
          exact unblockPcb_kept hR (h.requesters p hp) hunblock

theorem frameRun_kept (hR : KeptByCalls Frames S R) (h : Populated K S queue others live)
    (hrun : Relation.ReflTransGen (FrameStep Frames) K K') :
    (∃ queue' live', Populated K' S queue' others live') ∧ R K.procs K'.procs := by
  induction hrun with
  | refl => exact ⟨⟨queue, live, h⟩, hR.refl _⟩
  | tail _ hlast ih =>
      obtain ⟨⟨queue₁, live₁, h₁⟩, hkept⟩ := ih
      exact ⟨(systemStep_populated h₁ hlast.systemStep).1,
        hR.trans hkept (frameStep_kept hR h₁ hlast)⟩

end Steps

def TalksFrom (Frames : U32 → Prop) (C : Console Heap) : Prop :=
  ∀ msg K K', C msg K = .ok K' → Relation.ReflTransGen (FrameStep Frames) K K'

inductive SetupPath (Frames : U32 → Prop) (K : Kernel Heap) (name : Option (List U8))
    (procClass priority : Int) (q : U32) (heap : Heap) : U32 → Kernel Heap → Prop
  | full (K' : Kernel Heap) (hq : q = 0)
      (hrun : Relation.ReflTransGen (FrameStep Frames)
        { K with device := { K.device with heap := heap } } K') :
      SetupPath Frames K name procClass priority q heap 0 K'
  | refused (r : Int) (heap' : Heap) (hq : q ≠ 0)
      (hfree : pcbFree studentHeap heap (withPcb K heap q).procs q = .ok (r, heap')) :
      SetupPath Frames K name procClass priority q heap 0 (withPcb K heap' q)
  | made (n : List U8) (K' : Kernel Heap) (hq : q ≠ 0) (hname : name = some n)
      (hlength : minNameLen ≤ strlen n)
      (hrun : Relation.ReflTransGen (FrameStep Frames)
        (withSetUp K heap q n procClass priority) K') :
      SetupPath Frames K name procClass priority q heap q K'
  | inUse (n : List U8) (K' : Kernel Heap) (r : Int) (heap' : Heap) (hq : q ≠ 0)
      (hname : name = some n) (hlength : minNameLen ≤ strlen n)
      (hrun : Relation.ReflTransGen (FrameStep Frames)
        (withSetUp K heap q n procClass priority) K')
      (hfree : pcbFree studentHeap K'.device.heap K'.procs q = .ok (r, heap')) :
      SetupPath Frames K name procClass priority q heap 0
        { K' with device := { K'.device with heap := heap' } }

section Setup

variable {Frames : U32 → Prop} {C : Console Heap} {K K' : Kernel Heap} {name : Option (List U8)}
  {procClass priority : Int} {p q : U32}

theorem TalksFrom.talks (h : TalksFrom Frames C) : Talks studentHeap C :=
  fun msg K K' hrun => Relation.ReflTransGen.mono (fun _ _ => FrameStep.systemStep) K K'
    (h msg K K' hrun)

theorem pcbFind_path {foundName : List U8} (hC : TalksFrom Frames C)
    (hrun : pcbFind C K foundName = .ok (p, K')) :
    Relation.ReflTransGen (FrameStep Frames) K K' := by
  obtain ⟨w, -, hmessage⟩ := of_bind_ok hrun
  by_cases hw : w = 0 ∧ K.procs.suspendedHead ≠ 0
  · rw [if_pos hw] at hmessage
    obtain ⟨K₁, hwrite, heq⟩ := of_bind_ok hmessage
    cases heq
    exact hC _ _ _ hwrite
  · rw [if_neg hw] at hmessage
    cases hmessage
    exact .refl

theorem checkNameInUse_path {heap : Heap} {n : List U8} (hC : TalksFrom Frames C) (hq : q ≠ 0)
    (hname : name = some n) (hlength : minNameLen ≤ strlen n)
    (hrun : checkNameInUse studentHeap C (withSetUp K heap q n procClass priority) q =
      .ok (p, K')) : SetupPath Frames K name procClass priority q heap p K' := by
  obtain ⟨⟨found, K₁⟩, hfind, hrest⟩ := of_bind_ok hrun
  have hsearch := pcbFind_path hC hfind
  by_cases hfound : found = 0
  · simp only [hfound, ne_eq, not_true, if_false] at hrest
    cases hrest
    exact .made n K' hq hname hlength hsearch
  · simp only [if_pos hfound] at hrest
    obtain ⟨K₂, hwrite, hfree⟩ := of_bind_ok hrest
    obtain ⟨⟨r, heap'⟩, hrelease, heq⟩ := of_bind_ok hfree
    cases heq
    exact .inUse n K₂ r heap' hq hname hlength (hsearch.trans (hC _ _ _ hwrite)) hrelease

theorem createPcb_cases (hrun : createPcb studentHeap C K name procClass priority = .ok K') :
    ∃ p K₁, pcbSetup studentHeap C K name procClass priority = .ok (p, K₁) ∧
      ((p = 0 ∧ K' = K₁) ∨
        (p ≠ 0 ∧ ∃ s, pcbInsert K₁.procs p = .ok s ∧ K' = { K₁ with procs := s })) := by
  obtain ⟨⟨p, K₁⟩, hsetup, hrest⟩ := of_bind_ok hrun
  obtain ⟨s, hinsert, heq⟩ := of_bind_ok hrest
  cases heq
  refine ⟨p, K₁, hsetup, ?_⟩
  by_cases hnull : p = 0
  · rw [hnull, pcbInsert, if_pos rfl] at hinsert
    cases hinsert
    exact Or.inl ⟨hnull, rfl⟩
  · exact Or.inr ⟨hnull, s, hinsert, rfl⟩

theorem pcbSetup_path (hC : TalksFrom Frames C)
    (hrun : pcbSetup studentHeap C K name procClass priority = .ok (p, K')) :
    ∃ q heap, allocateMemory K.device.heap pcbSize = .ok (q, heap) ∧
      SetupPath Frames K name procClass priority q heap p K' := by
  obtain ⟨⟨q, K₁⟩, halloc, hrest⟩ := of_bind_ok hrun
  have hsteps := halloc
  obtain ⟨⟨temp, heap⟩, hcall, hset⟩ := of_bind_ok hsteps
  refine ⟨temp, heap, hcall, ?_⟩
  by_cases htemp : temp = 0
  · simp only [if_pos htemp] at hset
    obtain ⟨K₂, hmessage, heq⟩ := of_bind_ok hset
    cases heq
    cases hrest
    exact .full K' htemp (hC _ _ _ hmessage)
  · simp only [if_neg htemp] at hset
    cases hset
    cases pcbSetup_cases name procClass priority halloc htemp with
    | inl hbad =>
        rw [hbad.2] at hrun
        obtain ⟨⟨r, heap'⟩, hrelease, heq⟩ := of_bind_ok hrun
        cases heq
        exact .refused r heap' htemp hrelease
    | inr hgood =>
        obtain ⟨-, n, hname, hlength, hchecked⟩ := hgood
        rw [hchecked] at hrun
        exact checkNameInUse_path hC htemp hname hlength hrun

end Setup

end Mpx
