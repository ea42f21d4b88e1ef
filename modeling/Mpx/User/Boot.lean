import Mpx.Kernel.Frames
import Mpx.Kernel.LiveLinks
import Mpx.Kernel.NewProcess
import Mpx.Kernel.SecondWrite
import Mpx.User.Leaks

/-! The end of `kmain`, and what becomes of the processes that it starts: no system call comes
back to `kmain`, and the command handler does not get through its menu. -/

namespace Mpx

open Memory PointerList Procs Run

section Start

variable {C : Console Heap} {K K' : Kernel Heap} {live : List U32} {name : List U8}
  {procClass priority : Int} {cleared : Bool} {eip p x : U32}

theorem checkNameInUse_silent {q : U32} (hsuspended : K.procs.suspendedHead = 0)
    (hrun : checkNameInUse studentHeap C K q = .ok (p, K')) (hp : p ≠ 0) : K' = K := by
  obtain ⟨-, hfind⟩ := checkNameInUse_passed hrun hp
  obtain ⟨w, -, hmessage⟩ := of_bind_ok hfind
  have hsilent : ¬ (w = 0 ∧ K.procs.suspendedHead ≠ 0) := fun h => h.2 hsuspended
  rw [if_neg hsilent] at hmessage
  cases hmessage
  rfl

theorem pcbSetup_silent {n : Option (List U8)} (hsuspended : K.procs.suspendedHead = 0)
    (hrun : pcbSetup studentHeap C K n procClass priority = .ok (p, K')) (hp : p ≠ 0) :
    ∃ m heap, K' = withSetUp K heap p m procClass priority := by
  obtain ⟨⟨q, K₁⟩, halloc, hrest⟩ := of_bind_ok hrun
  have hsteps := halloc
  obtain ⟨⟨temp, heap⟩, -, hset⟩ := of_bind_ok hsteps
  by_cases htemp : temp = 0
  · simp only [if_pos htemp] at hset
    obtain ⟨K₂, -, heq⟩ := of_bind_ok hset
    cases heq
    cases hrest
    exact absurd rfl hp
  · simp only [if_neg htemp] at hset
    cases hset
    cases pcbSetup_cases n procClass priority halloc htemp with
    | inl hbad =>
        rw [hbad.2] at hrun
        exact absurd (freePcb_null hrun) hp
    | inr hgood =>
        obtain ⟨-, m, -, -, hchecked⟩ := hgood
        rw [hchecked] at hrun
        have hhead : (withSetUp K heap q m procClass priority).procs.suspendedHead = 0 :=
          (head_withNew .suspended).trans hsuspended
        refine ⟨m, heap, ?_⟩
        rw [(checkNameInUse_passed hrun hp).1]
        exact checkNameInUse_silent hhead hrun hp

theorem startProcess_silent (hsuspended : K.procs.suspendedHead = 0)
    (hrun : startProcess studentHeap C K name procClass priority cleared eip = .ok (p, K')) :
    K'.globalPcb = K.globalPcb ∧ K'.device.port = K.device.port := by
  obtain ⟨hp, K₁, s, hsetup, -, rfl⟩ := startProcess_cases hrun
  obtain ⟨m, heap, rfl⟩ := pcbSetup_silent hsuspended hsetup hp
  exact ⟨rfl, rfl⟩

theorem Started.stackTop_self
    (hstart : Started K K' name procClass priority cleared eip p) :
    (K'.procs.pcbs p).stackTop = firstStackTop p := by
  rw [(pcbInsert_linksOnly hstart.insert).stackTop, pcbs_withNew_self]
  rfl

theorem Started.stackTop_ne (hstart : Started K K' name procClass priority cleared eip p)
    (hx : x ≠ p) : (K'.procs.pcbs x).stackTop = (K.procs.pcbs x).stackTop := by
  rw [(pcbInsert_linksOnly hstart.insert).stackTop, pcbs_withNew_ne hx]

theorem Started.priority_self (hstart : Started K K' name procClass priority cleared eip p)
    (h : Orderly K live) : K'.procs.priority p = priority := by
  obtain ⟨ready, hready⟩ := pcbSearch_ends hstart.search (q := .ready) (by decide)
  exact (hstart.joins h hready).priority_self

theorem Started.priority_ne (hstart : Started K K' name procClass priority cleared eip p)
    (h : Orderly K live) (hx : x ≠ p) : K'.procs.priority x = K.procs.priority x := by
  obtain ⟨ready, hready⟩ := pcbSearch_ends hstart.search (q := .ready) (by decide)
  exact (hstart.joins h hready).priority_ne hx

theorem Started.readyHead (hstart : Started K K' name procClass priority cleared eip p)
    (h : Orderly K live) : K'.procs.readyHead ≠ 0 := by
  obtain ⟨ready, hready⟩ := pcbSearch_ends hstart.search (q := .ready) (by decide)
  have hmem : p ∈ K'.procs.enqueue p ready :=
    (enqueue_perm p).mem_iff.mpr List.mem_cons_self
  have hqueued : K'.procs.OnQueue .ready p :=
    (hstart.joins h hready).holds.onQueue_iff.mpr hmem
  intro hnull
  have hnone : Reaches 0 K'.procs.next K'.procs.readyHead p := hqueued
  rw [hnull] at hnone
  exact not_reaches_null hnone

end Start

section Kmain

variable {C : Console Heap} {K K' : Kernel Heap} {commhand sysIdleProcess dcb commhandProc
  idleProc : U32}

structure NoProcess (K : Kernel Heap) (dcb : U32) : Prop where
  heads : ∀ q, K.procs.head q = 0
  global : K.globalPcb = 0
  ioHead : K.device.port.ioHead = 0
  populated : Populated K (fun _ => False) [] [dcb] [dcb]

theorem NoProcess.orderly (h : NoProcess K dcb) : Orderly K [dcb] where
  owns := h.populated.requests.owns
  queued := fun x hx => (h.populated.onSome x hx).elim
  suspended := h.heads .suspended

theorem NoProcess.tied (h : NoProcess K dcb) : Tied K fun _ => False where
  populated := ⟨[], [dcb], [dcb], h.populated⟩
  closed := ⟨fun q hne => absurd (h.heads q) hne, fun _ hx => hx.elim⟩

theorem kmain_steps (hown : OwnsBlocks K.device.heap [])
    (hrun : kmain studentHeap C K commhand sysIdleProcess =
      .ok (dcb, commhandProc, idleProc, K')) :
    ∃ K₀ K₁, NoProcess K₀ dcb ∧ dcb ≠ 0 ∧
      allocateMemory K.device.heap dcbSize = .ok (dcb, K₀.device.heap) ∧
      startProcess studentHeap C K₀ commhandName systemProc 1 true commhand =
        .ok (commhandProc, K₁) ∧
      startProcess studentHeap C K₁ idleName systemProc 9 true sysIdleProcess =
        .ok (idleProc, K') := by
  obtain ⟨⟨p, heap⟩, halloc, hrest⟩ := of_bind_ok hrun
  have hown' := allocateMemory_owns hown halloc
  by_cases hnull : p = 0
  · simp only [if_pos hnull] at hrest
    cases hrest
  · simp only [if_neg hnull] at hrest hown'
    obtain ⟨⟨q, K₁⟩, hcommand, hrest⟩ := of_bind_ok hrest
    obtain ⟨⟨r, K₂⟩, hidle, heq⟩ := of_bind_ok hrest
    cases heq
    refine ⟨_, K₁, ⟨?_, rfl, rfl, ?_⟩, hnull, ?_, hcommand, hidle⟩
    · intro q'
      cases q' <;> rfl
    · constructor
      · exact ⟨⟨rfl, rfl, rfl, rfl⟩, rfl, hown', List.nil_subset _⟩
      · exact List.Perm.refl _
      · intro x hx
        obtain ⟨queue, hqueue⟩ := hx
        cases queue <;> exact absurd hqueue not_reaches_null
      · exact fun hg => absurd rfl hg
      · exact fun r hr => absurd hr List.not_mem_nil
      · exact fun _ hx => hx.elim
      · exact fun _ hx => hx.elim
    · exact halloc

theorem kmain_tied (hown : OwnsBlocks K.device.heap []) (hC : Talks studentHeap C)
    (hrun : kmain studentHeap C K commhand sysIdleProcess =
      .ok (dcb, commhandProc, idleProc, K')) :
    ∃ S, Tied K' S ∧ S commhandProc ∧ S idleProc ∧
      ∀ x, S x → x = commhandProc ∨ x = idleProc := by
  obtain ⟨K₀, K₁, hnone, -, -, hcommand, hidle⟩ := kmain_steps hown hrun
  obtain ⟨S₁, hfirst, htied₁⟩ := startProcess_tied hnone.tied hC hcommand
  obtain ⟨S₂, hsecond, htied₂⟩ := startProcess_tied htied₁ hC hidle
  refine ⟨S₂, htied₂, hsecond.old _ (hfirst.mem (startProcess_cases hcommand).1),
    hsecond.mem (startProcess_cases hidle).1, fun x hx => ?_⟩
  cases hsecond.new x hx with
  | inl hold => exact Or.inl ((hfirst.new x hold).resolve_left id)
  | inr hnew => exact Or.inr hnew

structure BeforeIdle (K : Kernel Heap) (dcb commhandProc idleProc : U32) : Prop where
  held : Held ⟨K, [idleProc, commhandProc]⟩ dcb
  global : K.globalPcb = 0
  head : K.procs.readyHead ≠ 0
  tops : ∀ x ∈ [idleProc, commhandProc], (K.procs.pcbs x).stackTop = firstStackTop x

theorem kmain_beforeIdle (hown : OwnsBlocks K.device.heap []) (hC : Talks studentHeap C)
    (hrun : kmain studentHeap C K commhand sysIdleProcess =
      .ok (dcb, commhandProc, idleProc, K')) : BeforeIdle K' dcb commhandProc idleProc := by
  obtain ⟨K₀, K₁, hnone, -, -, hcommand, hidle⟩ := kmain_steps hown hrun
  have horderly : Orderly K₀ [dcb] := hnone.orderly
  have hfirst := startProcess_started horderly hcommand
  have hsecond := startProcess_started (hfirst.orderly horderly) hidle
  have hsuspended : K₁.procs.suspendedHead = 0 :=
    (hfirst.suspendedHead horderly).trans (hnone.heads .suspended)
  constructor
  · exact kmain_held hown hC hrun
  · rw [(startProcess_silent hsuspended hidle).1,
      (startProcess_silent (hnone.heads .suspended) hcommand).1, hnone.global]
  · exact hsecond.readyHead (hfirst.orderly horderly)
  · intro x hx
    by_cases hidleProc : x = idleProc
    · rw [hidleProc]
      exact hsecond.stackTop_self
    · cases List.mem_cons.mp hx with
      | inl heq => exact absurd heq hidleProc
      | inr hmem =>
          rw [hsecond.stackTop_ne hidleProc, List.mem_singleton.mp hmem]
          exact hfirst.stackTop_self

theorem kmain_mostUrgent (hown : OwnsBlocks K.device.heap []) (hC : Talks studentHeap C)
    (hrun : kmain studentHeap C K commhand sysIdleProcess =
      .ok (dcb, commhandProc, idleProc, K')) :
    ∃ S, Tied K' S ∧ MostUrgent K'.procs S commhandProc ∧ S idleProc := by
  obtain ⟨S, htied, hmem, hother, hprocs⟩ := kmain_tied hown hC hrun
  obtain ⟨K₀, K₁, hnone, -, -, hcommand, hidle⟩ := kmain_steps hown hrun
  have horderly : Orderly K₀ [dcb] := hnone.orderly
  have hfirst := startProcess_started horderly hcommand
  have horderly₁ := hfirst.orderly horderly
  have hsecond := startProcess_started horderly₁ hidle
  refine ⟨S, htied, ⟨hmem, hfirst.null, fun x hx hne => ?_⟩, hother⟩
  obtain rfl := (hprocs x hx).resolve_left hne
  rw [hsecond.priority_self horderly₁, hsecond.priority_ne horderly₁ (Ne.symm hne),
    hfirst.priority_self horderly]
  decide

/-- The IDLE call of `kmain` saves no frame: no process is running yet. -/
theorem BeforeIdle.framed {Frames : U32 → Prop} {kmainFrame r : U32}
    (h : BeforeIdle K dcb commhandProc idleProc)
    (hcommhand : Frames (firstStackTop commhandProc)) (hidle : Frames (firstStackTop idleProc))
    {contexts : U32 → Context} {mem : Mem}
    (hop : syscallNumber (contexts kmainFrame).eax = some .idle)
    (hrun : sysCall studentHeap
      { K with contexts := contexts, device := { K.device with mem := mem } } kmainFrame =
        .ok (r, K')) : Framed Frames K' ∧ Frames r := by
  obtain ⟨queue, live, hheld⟩ := h.held
  have hstep := SystemStep.call K contexts mem kmainFrame r K' hrun
  obtain ⟨⟨queue', live', h'⟩, -⟩ := systemStep_populated hheld hstep
  simp only [sysCall, hop] at hrun
  have hstacks : StacksIn Frames K.procs K'.procs := by
    have hcalled : StacksIn Frames
        { K with contexts := contexts, device := { K.device with mem := mem } }.procs K'.procs :=
      idleCase_kept stacksIn_kept (fun hg => absurd h.global hg) hheld.running hrun
    exact hcalled
  have htops : ∀ x ∈ [idleProc, commhandProc], Frames (K'.procs.pcbs x).stackTop := by
    intro x hx
    apply hstacks.frame
    rw [h.tops x hx]
    cases List.mem_cons.mp hx with
    | inl heq =>
        rw [heq]
        exact hidle
    | inr hmem =>
        rw [List.mem_singleton.mp hmem]
        exact hcommhand
  obtain ⟨hr, hglobal⟩ := idleCase_dispatches h.head hrun
  have hrunning : K'.globalPcb ≠ 0 := by
    rw [hglobal]
    exact h.head
  have hhead : K.procs.readyHead ∈ [idleProc, commhandProc] := by
    rw [← hglobal]
    exact h'.running hrunning
  constructor
  · exact ⟨⟨queue', _, live', h'.shrink⟩, hrunning, fun x hx => htops x (h'.live_mem hx)⟩
  · rw [hr]
    exact htops _ hhead

end Kmain

/-- `kmain` is never resumed: its IDLE call and every later system call that returns do so to a
frame of a process, and the shutdown behind the IDLE call is not reached. -/
theorem kmain_never_resumed {Frames : U32 → Prop} {C : Console Heap} {K K₁ K₂ : Kernel Heap}
    {commhand sysIdleProcess dcb commhandProc idleProc kmainFrame r : U32}
    (hown : OwnsBlocks K.device.heap []) (hC : Talks studentHeap C)
    (hboot : kmain studentHeap C K commhand sysIdleProcess =
      .ok (dcb, commhandProc, idleProc, K₁))
    (hcommhand : Frames (firstStackTop commhandProc)) (hidle : Frames (firstStackTop idleProc))
    (hkmain : ¬ Frames kmainFrame) (contexts : U32 → Context) (mem : Mem)
    (hop : syscallNumber (contexts kmainFrame).eax = some .idle)
    (hcall : sysCall studentHeap
      { K₁ with contexts := contexts, device := { K₁.device with mem := mem } } kmainFrame =
        .ok (r, K₂)) :
    r ≠ kmainFrame ∧
      ∀ K₃, Relation.ReflTransGen (LaterStep Frames) K₂ K₃ →
        ∀ contexts mem ctx r' K₄, Frames ctx →
          sysCall studentHeap
            { K₃ with contexts := contexts, device := { K₃.device with mem := mem } } ctx =
              .ok (r', K₄) → Frames r' ∧ r' ≠ kmainFrame := by
  obtain ⟨hframed, hr⟩ := (kmain_beforeIdle hown hC hboot).framed hcommhand hidle hop hcall
  have hout : ∀ {x}, Frames x → x ≠ kmainFrame := fun hx heq => hkmain (heq ▸ hx)
  refine ⟨hout hr, ?_⟩
  intro K₃ hrun contexts' mem' ctx r' K₄ hctx hcall'
  have hlater := Run.invariant (Framed Frames) (fun _ _ => laterStep_framed) hrun hframed
  have hresumes := ((hlater.withMemory contexts' mem').resumes hctx hcall').1
  exact ⟨hresumes, hout hresumes⟩

def bootAndYield : Except Fault
    ((U32 × U32 × U32 × Kernel Heap) × (U32 × Kernel Heap) × (U32 × Kernel Heap) ×
      (U32 × Kernel Heap)) := do
  let boot ← kmain studentHeap silentConsole bootKernel 0x100000 0x100100
  let idle ← sysCall studentHeap
    { boot.2.2.2 with contexts := fun _ => callContext 1 0 0 0 } 0x1234
  let first ← sysCall studentHeap idle.2 0x2000
  let second ← sysCall studentHeap first.2 0x3000
  return (boot, idle, first, second)

theorem kmain_never_resumed_two_yields :
    ∃ boot idle first second, bootAndYield = .ok (boot, idle, first, second) ∧
      idle.1 ≠ 0x1234 ∧ second.1 ≠ 0x1234 := by
  have hcompute : bootAndYield.map (fun r => decide (firstStackTop r.1.2.1 ≠ 0x1234 ∧
      firstStackTop r.1.2.2.1 ≠ 0x1234)) = .ok true := by
    decide +kernel
  obtain ⟨⟨boot, idle, first, second⟩, hrun, htops⟩ := of_map_ok hcompute
  obtain ⟨hcommhand, hidle⟩ := of_decide_eq_true htops
  have hsteps := hrun
  obtain ⟨⟨dcb, p, q, K₁⟩, hboot, hrest⟩ := of_bind_ok hsteps
  obtain ⟨⟨r, K₂⟩, hcall, hrest⟩ := of_bind_ok hrest
  obtain ⟨⟨r₁, K₃⟩, hfirst, hrest⟩ := of_bind_ok hrest
  obtain ⟨⟨r₂, K₄⟩, hsecond, heq⟩ := of_bind_ok hrest
  cases heq
  have hnever := @kmain_never_resumed (fun x => x ≠ 0x1234) silentConsole bootKernel K₁ K₂ _ _
    dcb p q 0x1234 r kernelHeap_owns (silentConsole_talks _) hboot hcommhand hidle
    (not_not.mpr rfl) (fun _ => callContext 1 0 0 0) K₁.device.mem (by decide) hcall
  have hstep : LaterStep (fun x => x ≠ 0x1234) K₂ K₃ :=
    .system K₂ K₃ (.call K₂ K₂.contexts K₂.device.mem 0x2000 r₁ K₃ (by decide) hfirst)
  exact ⟨_, _, _, _, hrun, hnever.1, (hnever.2 K₃ (.single hstep) K₃.contexts K₃.device.mem 0x3000
    r₂ K₄ (by decide) hsecond).2⟩

/-- After boot the command handler makes one request at most before a WRITE: whatever the idle
process and the device do meanwhile, a WRITE behind its first request never returns. -/
theorem second_write_never_returns {C : Console Heap} {K K₁ K₂ K₃ K₄ K₅ : Kernel Heap}
    {commhand sysIdleProcess dcb commhandProc idleProc ctx ctx' r r' : U32}
    {contexts contexts' : U32 → Context} {mem mem' : Mem}
    (hown : OwnsBlocks K.device.heap []) (hC : Talks studentHeap C)
    (hboot : kmain studentHeap C K commhand sysIdleProcess =
      .ok (dcb, commhandProc, idleProc, K₁))
    (hrun : Relation.ReflTransGen (SystemStep studentHeap) K₁ K₂)
    (hcommhand : K₂.globalPcb = commhandProc)
    (hop : syscallNumber (contexts ctx).eax = some .read ∨
      syscallNumber (contexts ctx).eax = some .write)
    (hfirst : sysCall studentHeap
      { K₂ with contexts := contexts, device := { K₂.device with mem := mem } } ctx =
        .ok (r, K₃))
    (hrun' : Relation.ReflTransGen (SystemStep studentHeap) K₃ K₄)
    (hcommhand' : K₄.globalPcb = commhandProc)
    (hwrite : syscallNumber (contexts' ctx').eax = some .write) :
    sysCall studentHeap
      { K₄ with contexts := contexts', device := { K₄.device with mem := mem' } } ctx' ≠
        .ok (r', K₅) := by
  obtain ⟨S, hstart, hurgent, -⟩ := kmain_mostUrgent hown hC hboot
  obtain ⟨h, hstays⟩ := systemRun_staysFirst (c := commhandProc) hstart hrun
  exact write_after_request_stuck h (hurgent.congr hstays.priority) hcommhand hop hfirst hrun'
    hcommhand' hwrite

/-- The boot up to the point where the command handler has written the first line of its menu
and the idle process has let it run again. -/
def bootAndWrite : Except Fault
    ((U32 × U32 × U32 × Kernel Heap) × (U32 × Kernel Heap) × (U32 × Kernel Heap) ×
      (U32 × Kernel Heap)) := do
  let boot ← kmain studentHeap silentConsole bootKernel 0x100000 0x100100
  let idle ← sysCall studentHeap
    { boot.2.2.2 with contexts := fun _ => callContext 1 0 0 0 } 0x1234
  let write ← sysCall studentHeap
    { idle.2 with contexts := fun _ => callContext 3 COM1 0x5000 57 } 0x2000
  let yield ← sysCall studentHeap
    { write.2 with contexts := fun _ => callContext 1 0 0 0 } 0x3000
  return (boot, idle, write, yield)

theorem second_write_never_returns_menu :
    ∃ boot idle write yield, bootAndWrite = .ok (boot, idle, write, yield) ∧
      ∀ r K, sysCall studentHeap
        { yield.2 with contexts := fun _ => callContext 3 COM1 0x5040 13 } 0x2000 ≠
          .ok (r, K) := by
  have hcompute : bootAndWrite.map (fun r => decide (r.2.1.2.globalPcb = r.1.2.1 ∧
      r.2.2.2.2.globalPcb = r.1.2.1)) = .ok true := by
    decide +kernel
  obtain ⟨⟨boot, idle, write, yield⟩, hrun, hglobals⟩ := of_map_ok hcompute
  obtain ⟨hcommhand, hcommhand'⟩ := of_decide_eq_true hglobals
  have hsteps := hrun
  obtain ⟨⟨dcb, p, q, K₁⟩, hboot, hrest⟩ := of_bind_ok hsteps
  obtain ⟨⟨r, K₂⟩, hcall, hrest⟩ := of_bind_ok hrest
  obtain ⟨⟨r₁, K₃⟩, hfirst, hrest⟩ := of_bind_ok hrest
  obtain ⟨⟨r₂, K₄⟩, hyield, heq⟩ := of_bind_ok hrest
  cases heq
  have hidle : SystemStep studentHeap K₁ K₂ :=
    .call K₁ (fun _ => callContext 1 0 0 0) K₁.device.mem 0x1234 r K₂ hcall
  have hback : SystemStep studentHeap K₃ K₄ :=
    .call K₃ (fun _ => callContext 1 0 0 0) K₃.device.mem 0x3000 r₂ K₄ hyield
  refine ⟨_, _, _, _, hrun, fun r' K₅ => ?_⟩
  exact @second_write_never_returns silentConsole bootKernel K₁ K₂ K₃ K₄ K₅ _ _ dcb p q 0x2000
    0x2000 r₁ r' (fun _ => callContext 3 COM1 0x5000 57) (fun _ => callContext 3 COM1 0x5040 13)
    K₂.device.mem K₄.device.mem kernelHeap_owns (silentConsole_talks _) hboot (.single hidle)
    hcommhand (Or.inr (by decide)) hfirst (.single hback) hcommhand' (by decide)

end Mpx
