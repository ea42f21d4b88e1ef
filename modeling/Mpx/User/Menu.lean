import Mpx.Kernel.Yield
import Mpx.User.Boot

/-! How far the system gets when the command handler writes its menu and the idle process does
nothing but IDLE. -/

namespace Mpx

open Memory PointerList Procs Run

/-- A system call that returns: the command handler writes its menu, and `kmain` and the idle
process call IDLE. -/
inductive MenuCall (commhandProc : U32) : Kernel Heap → Kernel Heap → Prop
  | call (K : Kernel Heap) (contexts : U32 → Context) (mem : Mem) (ctx r : U32) (K' : Kernel Heap)
      (hop : syscallNumber (contexts ctx).eax =
        some (if K.globalPcb = commhandProc then .write else .idle))
      (hrun : sysCall studentHeap
        { K with contexts := contexts, device := { K.device with mem := mem } } ctx =
          .ok (r, K')) : MenuCall commhandProc K K'

inductive DeviceStep : Kernel Heap → Kernel Heap → Prop
  | input (K : Kernel Heap) : DeviceStep K { K with device := serialInputInterrupt K.device }
  | output (K : Kernel Heap) (device : Device Heap) (procs : Procs)
      (hrun : serialOutputInterrupt studentHeap K.device K.procs = .ok (device, procs)) :
      DeviceStep K { K with device := device, procs := procs }

structure Asks (d : Device Heap) (c : U32) (queue : List U32) : Prop where
  requests : ∃ live, Requests OwnsBlocks d queue live
  asker : ∀ r ∈ queue, (d.iocbs r).currProc = c

section Asks

variable {d d' : Device Heap} {c : U32} {queue : List U32}

theorem Asks.withMem (h : Asks d c queue) (mem : Mem) : Asks { d with mem := mem } c queue := by
  obtain ⟨live, hrequests⟩ := h.requests
  exact ⟨⟨live, hrequests.openPort.congr rfl rfl rfl rfl, hrequests.queued, hrequests.owns,
    hrequests.held⟩, h.asker⟩

theorem Asks.input (h : Asks d c queue) : Asks (serialInputInterrupt d) c queue := by
  obtain ⟨live, hrequests⟩ := h.requests
  refine ⟨⟨live, serialInputInterrupt_requests hrequests⟩, fun r hr => ?_⟩
  rw [iocbs_serialInputInterrupt]
  exact h.asker r hr

theorem Asks.output {s s' : Procs} (h : Asks d c queue)
    (hrun : serialOutputInterrupt studentHeap d s = .ok (d', s')) :
    (s' = s ∧ Asks d' c queue) ∨
      ∃ p rest, queue = p :: rest ∧ unblockPcb s c = .ok s' ∧ Asks d' c rest := by
  obtain ⟨live, hrequests⟩ := h.requests
  obtain ⟨hiocbs, hcases⟩ := serialOutputInterrupt_requests studentHeap_laws hrequests hrun
  cases hcases with
  | inl hsame =>
      refine Or.inl ⟨hsame.1, ⟨live, hsame.2⟩, fun r hr => ?_⟩
      rw [hiocbs]
      exact h.asker r hr
  | inr hended =>
      obtain ⟨p, rest, hqueue, hrest, hunblock⟩ := hended
      have hp : p ∈ queue := by
        rw [hqueue]
        exact List.mem_cons_self
      rw [h.asker p hp] at hunblock
      refine Or.inr ⟨p, rest, hqueue, hunblock, ⟨live.erase p, hrest⟩, fun r hr => ?_⟩
      rw [hiocbs]
      apply h.asker
      rw [hqueue]
      exact List.mem_cons_of_mem p hr

theorem Asks.schedule {dev buf len : U32} {op : OpCode} (h : Asks d c queue)
    (hop : op = .read ∨ op = .write)
    (hrun : ioScheduler studentHeap d c dev buf len op = .ok d') :
    ∃ queue', Asks d' c queue' := by
  obtain ⟨live, hrequests⟩ := h.requests
  obtain ⟨new, hnext, hsame, hnew⟩ := ioScheduler_requests studentHeap_laws hrequests hop hrun
  refine ⟨queue ++ new, ⟨new ++ live, hnext⟩, fun r hr => ?_⟩
  cases List.mem_append.mp hr with
  | inl hold =>
      rw [hsame r hold]
      exact h.asker r hold
  | inr hlast => exact hnew r hlast

theorem requestCase_asks {K K' : Kernel Heap} {ctx : U32} {op : OpCode}
    (h : Asks K.device c queue) (hop : op = .read ∨ op = .write) (hc : K.globalPcb = c)
    (hrun : requestCase studentHeap K ctx op = .ok K') : ∃ queue', Asks K'.device c queue' := by
  have hg := (requestCase_globalPcb hrun).1
  rw [requestCase, if_neg hg, hc] at hrun
  obtain ⟨device, hschedule, hrest⟩ := of_bind_ok hrun
  obtain ⟨s, -, heq⟩ := of_bind_ok hrest
  cases heq
  exact h.schedule hop hschedule

end Asks

def ReadyOrLooped (s : Procs) (c i : U32) : Prop :=
  Dispatchable s i [c] ∨ (s.readyHead = c ∧ s.next c = c)

/-- The state of the system when so many system calls have returned, with the command handler
`c` and the idle process `i`. -/
def Phase (c i : U32) (K : Kernel Heap) : Nat → Prop
  | 0 => K.globalPcb = 0 ∧ Dispatchable K.procs 0 [c, i] ∧ Asks K.device c []
  | 1 => K.globalPcb = c ∧ Dispatchable K.procs c [i] ∧ Asks K.device c []
  | 2 => K.globalPcb = i ∧ K.procs.blockedHead = c ∧ ReadyOrLooped K.procs c i ∧
      ∃ queue, Asks K.device c queue
  | 3 => K.globalPcb = c ∧ K.procs.blockedHead = c
  | _ => False

structure Pair (K : Kernel Heap) (S : U32 → Prop) (c i : U32) : Prop where
  tied : Tied K S
  urgent : MostUrgent K.procs S c
  idle : S i
  null : i ≠ 0
  differ : i ≠ c

section Steps

variable {K K' : Kernel Heap} {S : U32 → Prop} {c i ctx r : U32} {n : Nat}

theorem Pair.step (h : Pair K S c i) (hstep : SystemStep studentHeap K K') :
    Pair K' S c i ∧ StaysFirst S c K.procs K'.procs := by
  obtain ⟨htied, hstays⟩ := systemRun_staysFirst (c := c) h.tied (.single hstep)
  exact ⟨⟨htied, h.urgent.congr hstays.priority, h.idle, h.null, h.differ⟩, hstays⟩

theorem DeviceStep.systemStep (h : DeviceStep K K') : SystemStep studentHeap K K' := by
  cases h with
  | input => exact .inputInterrupt K
  | output device procs hrun => exact .outputInterrupt K device procs hrun

/-- A process that is unblocked while it is ready is linked to itself, and for a second time the
interrupt does not return. -/
theorem unblock_loops {s s' : Procs} (h : MostUrgent s S c) (hclosed : Closed s S)
    (hready : ReadyOrLooped s c i) (hrun : unblockPcb s c = .ok s') :
    s'.readyHead = c ∧ s'.next c = c := by
  rw [unblockPcb, if_neg h.null] at hrun
  have hurgent : MostUrgent (s.setState c readyState) S c := h.congr (priority_setState readyState)
  have hclosed' : Closed (s.setState c readyState) S := closed_kept.state s c readyState hclosed
  have hq : insertQueue ((s.setState c readyState).pcbs c).state = some .ready := by
    rw [state_setState_self]
    exact insertQueue_ready
  obtain ⟨hhead, hself, -⟩ := pcbInsert_mostUrgent hurgent hclosed' hq hrun
  rw [head_setState, next_setState] at hself
  cases hready with
  | inl hlist => exact ⟨hhead, (hself hlist.list.1).2⟩
  | inr hloop => exact absurd hloop.2 (hself hloop.1).1

theorem device_silent (h : Asks K.device c []) (hstep : DeviceStep K K') :
    K'.globalPcb = K.globalPcb ∧ K'.procs = K.procs ∧ Asks K'.device c [] := by
  cases hstep with
  | input => exact ⟨rfl, rfl, h.input⟩
  | output device procs hrun =>
      cases h.output hrun with
      | inl hsame => exact ⟨rfl, hsame⟩
      | inr hended =>
          obtain ⟨p, rest, hqueue, -⟩ := hended
          cases hqueue

theorem device_phase (h : Pair K S c i) (hphase : Phase c i K n) (hstep : DeviceStep K K') :
    Phase c i K' n := by
  have hstays := (h.step hstep.systemStep).2
  match n, hphase with
  | 0, hphase =>
      obtain ⟨hglobal, hready, hasks⟩ := hphase
      obtain ⟨hglobal', hprocs, hasks'⟩ := device_silent hasks hstep
      rw [← hprocs] at hready
      exact ⟨hglobal'.trans hglobal, hready, hasks'⟩
  | 1, hphase =>
      obtain ⟨hglobal, hready, hasks⟩ := hphase
      obtain ⟨hglobal', hprocs, hasks'⟩ := device_silent hasks hstep
      rw [← hprocs] at hready
      exact ⟨hglobal'.trans hglobal, hready, hasks'⟩
  | 2, hphase =>
      obtain ⟨hglobal, hhead, hready, queue, hasks⟩ := hphase
      have hhead' := hstays.head h.urgent hhead
      cases hstep with
      | input => exact ⟨hglobal, hhead, hready, queue, hasks.input⟩
      | output device procs hrun =>
          cases hasks.output hrun with
          | inl hsame =>
              obtain ⟨rfl, hasks'⟩ := hsame
              exact ⟨hglobal, hhead, hready, queue, hasks'⟩
          | inr hended =>
              obtain ⟨p, rest, -, hunblock, hasks'⟩ := hended
              exact ⟨hglobal, hhead', Or.inr (unblock_loops h.urgent h.tied.closed hready hunblock),
                rest, hasks'⟩
  | 3, hphase =>
      have hglobal : K'.globalPcb = K.globalPcb := by
        cases hstep <;> rfl
      exact ⟨hglobal.trans hphase.1, hstays.head h.urgent hphase.2⟩

theorem idle_yields {m : U32} {rest : List U32}
    (h : Dispatchable K.procs K.globalPcb (m :: rest))
    (hop : syscallNumber (K.contexts ctx).eax = some .idle)
    (hrun : sysCall studentHeap K ctx = .ok (r, K')) :
    K'.device = K.device ∧ ∃ ready', Yielded K K' m rest ready' := by
  obtain ⟨K₁, ready', hcall, hyielded⟩ := (idleCall_spec h hop).switch m rest rfl
  rw [hcall] at hrun
  cases hrun
  simp only [sysCall, hop] at hcall
  exact ⟨(idleCase_device hcall).1, ready', hyielded⟩

theorem Yielded.next_dispatchable {σ : Type} {K K' : Kernel σ} {m : U32} {rest ready' : List U32}
    (h : Yielded K K' m rest ready') (hm : m ∉ ready') :
    Dispatchable K'.procs m ready' where
  list := h.list
  states := h.states
  sorted := h.sorted
  apart := fun _ => hm

theorem requestCase_dispatchable {op : OpCode} (h : MostUrgent K.procs S c)
    (hclosed : Closed K.procs S) (hc : K.globalPcb = c) (hdiffer : i ≠ c)
    (hready : Dispatchable K.procs c [i]) (hrun : requestCase studentHeap K ctx op = .ok K') :
    Dispatchable K'.procs c [i] := by
  have hkept := (requestCase_mostUrgent h hclosed hc hrun).2.2
  have hi : ∀ x ∈ [i], x ∉ [c] := by
    intro x hx hmem
    rw [List.mem_singleton.mp hx] at hmem
    exact hdiffer (List.mem_singleton.mp hmem)
  constructor
  · exact hkept.holds (by decide) hready.list hi
  · intro x hx
    rw [hkept.same x (hi x hx)]
    exact hready.states x hx
  · exact List.pairwise_singleton _ _
  · exact hready.apart

theorem phase_kmain (h : Pair K S c i) (hphase : Phase c i K 0)
    (hop : syscallNumber (K.contexts ctx).eax = some .idle)
    (hrun : sysCall studentHeap K ctx = .ok (r, K')) : Phase c i K' 1 := by
  obtain ⟨hglobal, hready, hasks⟩ := hphase
  rw [← hglobal] at hready
  obtain ⟨hdevice, ready', hyielded⟩ := idle_yields hready hop hrun
  have hrest := hyielded.alone hglobal
  have hc : c ∉ ready' := by
    rw [hrest]
    exact fun hmem => h.differ (List.mem_singleton.mp hmem).symm
  have hnext := hyielded.next_dispatchable hc
  rw [hrest] at hnext
  refine ⟨hyielded.running, hnext, ?_⟩
  rw [hdevice]
  exact hasks

theorem phase_write (h : Pair K S c i) (hphase : Phase c i K 1)
    (hop : syscallNumber (K.contexts ctx).eax = some .write)
    (hrun : sysCall studentHeap K ctx = .ok (r, K')) : Phase c i K' 2 := by
  obtain ⟨hc, hready, hasks⟩ := hphase
  have hhead := sysCall_blocks h.urgent h.tied.closed hc (Or.inr hop) hrun
  simp only [sysCall, hop] at hrun
  obtain ⟨K₁, hfirst, hrest⟩ := of_bind_ok hrun
  obtain ⟨K₂, hsecond, hidle⟩ := of_bind_ok hrest
  obtain ⟨h₁, hclosed₁, hc₁⟩ := requestCase_keeps h.urgent h.tied.closed hc hfirst
  have hready₁ := requestCase_dispatchable h.urgent h.tied.closed hc h.differ hready hfirst
  have hready₂ := requestCase_dispatchable h₁ hclosed₁ hc₁ h.differ hready₁ hsecond
  obtain ⟨queue₁, hasks₁⟩ := requestCase_asks hasks (Or.inr rfl) hc hfirst
  obtain ⟨queue₂, hasks₂⟩ := requestCase_asks hasks₁ (Or.inr rfl) hc₁ hsecond
  have hc₂ : K₂.globalPcb = c := (requestCase_globalPcb hsecond).2.trans hc₁
  rw [← hc₂] at hready₂
  obtain ⟨K₃, ready', hcall, hyielded⟩ := @idleCase_spec _ K₂ ctx i [] hready₂
  have hi : K.procs.readyHead = i := hready.list.1
  rw [hi, hcall] at hidle
  cases hidle
  have hg : K₂.globalPcb ≠ 0 := by
    rw [hc₂]
    exact h.urgent.null
  obtain ⟨front, back, hnil, hready', -⟩ := hyielded.requeued hg
  obtain ⟨rfl, rfl⟩ := List.append_eq_nil_iff.mp hnil.symm
  rw [hc₂, List.nil_append] at hready'
  have hnext := hyielded.next_dispatchable (m := i) (by
    rw [hready']
    exact fun hmem => h.differ (List.mem_singleton.mp hmem))
  rw [hready'] at hnext
  refine ⟨hyielded.running, hhead, Or.inl hnext, queue₂, ?_⟩
  rw [(idleCase_device hcall).1]
  exact hasks₂

/-- The idle process lets the command handler run again, or it does not get through the loop
that a completed request has left. -/
theorem phase_idle (h : Pair K S c i) (hphase : Phase c i K 2)
    (hop : syscallNumber (K.contexts ctx).eax = some .idle)
    (hrun : sysCall studentHeap K ctx = .ok (r, K')) : Phase c i K' 3 := by
  obtain ⟨hglobal, hhead, hready, -⟩ := hphase
  have hstays := (h.step (.call K K.contexts K.device.mem ctx r K' hrun)).2
  refine ⟨?_, hstays.head h.urgent hhead⟩
  cases hready with
  | inl hlist =>
      rw [← hglobal] at hlist
      obtain ⟨-, ready', hyielded⟩ := idle_yields hlist hop hrun
      exact hyielded.running
  | inr hloop =>
      obtain ⟨hfirst, hself⟩ := hloop
      simp only [sysCall, hop, hfirst] at hrun
      obtain ⟨context, hcases⟩ := idleCase_cases hrun
      exfalso
      cases hcases with
      | inl hnone => exact h.urgent.null hnone.1
      | inr hsome =>
          cases hsome with
          | inl hnone =>
              rw [hglobal] at hnone
              exact h.null hnone.2.1
          | inr hswitch =>
              obtain ⟨-, -, s, hinsert, -⟩ := hswitch
              rw [hglobal] at hinsert
              have hless := h.urgent.least i h.idle h.differ
              generalize hs : (K.procs.setStackTop i ctx).setState i readyState = s₁ at hinsert
              have hpriority : s₁.priority = K.procs.priority := by
                rw [← hs, priority_setState, priority_setStackTop]
              have hhead₁ : s₁.head .ready = c := by
                rw [← hs]
                exact hfirst
              have hself₁ : s₁.next c = c := by
                rw [← hs, next_setState, next_setStackTop]
                exact hself
              have hq : insertQueue (s₁.pcbs i).state = some .ready := by
                rw [← hs, state_setState_self]
                exact insertQueue_ready
              have hbehind : ¬ (c = 0 ∨ s₁.priority i < s₁.priority c) := by
                rw [hpriority]
                exact not_or.mpr ⟨h.urgent.null, not_lt.mpr hless.le⟩
              have hle : s₁.priority c ≤ s₁.priority i := not_lt.mp (not_or.mp hbehind).2
              simp only [pcbInsert, if_neg h.null, hq, hhead₁, if_neg hbehind,
                insertLoop_selfLink h.urgent.null hself₁ hle] at hinsert
              cases hinsert

theorem phase_stuck (h : Pair K S c i) (hphase : Phase c i K 3)
    (hop : syscallNumber (K.contexts ctx).eax = some .write) :
    sysCall studentHeap K ctx ≠ .ok (r, K') :=
  sysCall_write_stuck h.urgent h.tied.closed hphase.1 hphase.2 hop

theorem Phase.withMemory (hphase : Phase c i K n) (contexts : U32 → Context) (mem : Mem) :
    Phase c i { K with contexts := contexts, device := { K.device with mem := mem } } n := by
  match n, hphase with
  | 0, hphase => exact ⟨hphase.1, hphase.2.1, hphase.2.2.withMem mem⟩
  | 1, hphase => exact ⟨hphase.1, hphase.2.1, hphase.2.2.withMem mem⟩
  | 2, hphase =>
      obtain ⟨hglobal, hhead, hready, queue, hasks⟩ := hphase
      exact ⟨hglobal, hhead, hready, queue, hasks.withMem mem⟩
  | 3, hphase => exact hphase

theorem Pair.withMemory (h : Pair K S c i) (contexts : U32 → Context) (mem : Mem) :
    Pair { K with contexts := contexts, device := { K.device with mem := mem } } S c i :=
  ⟨h.tied.withMemory contexts mem, h.urgent, h.idle, h.null, h.differ⟩

/-- Each system call that returns gets the system one phase further. -/
theorem menu_phase (h : Pair K S c i) (hphase : Phase c i K n) (hstep : MenuCall c K K') :
    Pair K' S c i ∧ Phase c i K' (n + 1) := by
  cases hstep with
  | call contexts mem ctx r K' hop hrun =>
      refine ⟨(h.step (.call K contexts mem ctx r K' hrun)).1, ?_⟩
      have hpair := h.withMemory contexts mem
      have hstart := hphase.withMemory contexts mem
      match n, hphase with
      | 0, hphase =>
          rw [if_neg (by rw [hphase.1]; exact Ne.symm h.urgent.null)] at hop
          exact phase_kmain hpair hstart hop hrun
      | 1, hphase =>
          rw [if_pos hphase.1] at hop
          exact phase_write hpair hstart hop hrun
      | 2, hphase =>
          rw [if_neg (by rw [hphase.1]; exact h.differ)] at hop
          exact phase_idle hpair hstart hop hrun
      | 3, hphase =>
          rw [if_pos hphase.1] at hop
          exact absurd hrun (phase_stuck hpair hstart hop)

end Steps

section Start

variable {C : Console Heap} {K K' : Kernel Heap} {live ready : List U32} {name : List U8}
  {procClass priority : Int} {cleared : Bool} {eip p : U32}

theorem Started.state_self (hstart : Started K K' name procClass priority cleared eip p) :
    (K'.procs.pcbs p).state = readyState := by
  rw [(pcbInsert_linksOnly hstart.insert).state, pcbs_withNew_self]
  rfl

theorem Started.state_ne (hstart : Started K K' name procClass priority cleared eip p) {x : U32}
    (hx : x ≠ p) : (K'.procs.pcbs x).state = (K.procs.pcbs x).state := by
  rw [(pcbInsert_linksOnly hstart.insert).state, pcbs_withNew_ne hx]

theorem kmain_phase {commhand sysIdleProcess dcb c i : U32} (hown : OwnsBlocks K.device.heap [])
    (hC : Talks studentHeap C)
    (hrun : kmain studentHeap C K commhand sysIdleProcess = .ok (dcb, c, i, K')) :
    ∃ S, Pair K' S c i ∧ Phase c i K' 0 := by
  obtain ⟨S, htied, hurgent, hidleProc⟩ := kmain_mostUrgent hown hC hrun
  obtain ⟨K₀, K₁, hnone, -, -, hcommand, hidle⟩ := kmain_steps hown hrun
  have horderly : Orderly K₀ [dcb] := hnone.orderly
  have hfirst := startProcess_started horderly hcommand
  have horderly₁ := hfirst.orderly horderly
  have hsecond := startProcess_started horderly₁ hidle
  have hnil : K₀.procs.Holds .ready [] := isList_nil.mpr (hnone.heads .ready)
  have hholds₁ : K₁.procs.Holds .ready [c] := (hfirst.joins horderly hnil).holds
  have hfresh := (allocateMemory_fresh horderly₁ hsecond.alloc hsecond.null).1
  have hdiffer : i ≠ c := (List.ne_of_not_mem_cons hfresh)
  have hless : K'.procs.priority c < K'.procs.priority i := hurgent.least i hidleProc hdiffer
  have hqueue : K'.procs.enqueue i [c] = [c, i] :=
    List.orderedInsert_of_not_le _ [] (not_lt.mpr hless.le)
  have hholds : K'.procs.Holds .ready [c, i] := by
    rw [← hqueue]
    exact (hsecond.joins horderly₁ hholds₁).holds
  have hstates : ∀ x ∈ [c, i], (K'.procs.pcbs x).state = readyState := by
    intro x hx
    by_cases hxi : x = i
    · rw [hxi]
      exact hsecond.state_self
    · have hxc : x = c := by
        simpa [hxi] using hx
      rw [hsecond.state_ne hxi, hxc]
      exact hfirst.state_self
  have hsuspended : K₁.procs.suspendedHead = 0 :=
    (hfirst.suspendedHead horderly).trans (hnone.heads .suspended)
  obtain ⟨hglobal₁, hport₁⟩ := startProcess_silent (hnone.heads .suspended) hcommand
  obtain ⟨hglobal₂, hport₂⟩ := startProcess_silent hsuspended hidle
  have hglobal : K'.globalPcb = 0 := (hglobal₂.trans hglobal₁).trans hnone.global
  have hioHead : K'.device.port.ioHead = 0 := by
    rw [hport₂, hport₁]
    exact hnone.ioHead
  obtain ⟨queue, others, live, hpopulated⟩ := htied.populated
  have hrequests := hpopulated.requests
  have hqueued := hrequests.queued
  rw [Device.Queued, hioHead, isList_null] at hqueued
  rw [hqueued] at hrequests
  refine ⟨S, ⟨htied, hurgent, hidleProc, hsecond.null, hdiffer⟩, hglobal, ?_, ⟨live, hrequests⟩,
    fun r hr => absurd hr List.not_mem_nil⟩
  constructor
  · exact hholds
  · exact fun x hx => Or.inl (hstates x hx)
  · exact List.pairwise_cons.mpr ⟨by simpa using hless.le, List.pairwise_singleton _ _⟩
  · exact fun hne => absurd rfl hne

end Start

/-- After boot three system calls return at most: the one of `kmain`, the first line of the menu,
and one of the idle process. -/
theorem three_system_calls {C : Console Heap} {K K₁ K₂ : Kernel Heap}
    {commhand sysIdleProcess dcb commhandProc idleProc : U32} {n : Nat}
    (hown : OwnsBlocks K.device.heap []) (hC : Talks studentHeap C)
    (hboot : kmain studentHeap C K commhand sysIdleProcess =
      .ok (dcb, commhandProc, idleProc, K₁))
    (hrun : Counted (MenuCall commhandProc) DeviceStep n K₁ K₂) : n ≤ 3 := by
  obtain ⟨S, hpair, hphase⟩ := kmain_phase hown hC hboot
  have hlast : Pair K₂ S commhandProc idleProc ∧ Phase commhandProc idleProc K₂ n := by
    apply Counted.invariant
      (fun n K => Pair K S commhandProc idleProc ∧ Phase commhandProc idleProc K n) ?_ ?_ hrun
    · exact ⟨hpair, hphase⟩
    · intro m s t h hstep
      exact menu_phase h.1 h.2 hstep
    · intro m s t h hstep
      exact ⟨(h.1.step hstep.systemStep).1, device_phase h.1 h.2 hstep⟩
  match n, hlast.2 with
  | 0, _ => decide
  | 1, _ => decide
  | 2, _ => decide
  | 3, _ => decide

theorem three_system_calls_menu :
    ∃ boot idle write yield, bootAndWrite = .ok (boot, idle, write, yield) ∧
      Counted (MenuCall boot.2.1) DeviceStep 3 boot.2.2.2 yield.2 ∧ 3 ≤ 3 := by
  have hcompute : bootAndWrite.map (fun r => decide (r.1.2.2.2.globalPcb ≠ r.1.2.1 ∧
      r.2.1.2.globalPcb = r.1.2.1 ∧ r.2.2.1.2.globalPcb ≠ r.1.2.1)) = .ok true := by
    decide +kernel
  obtain ⟨⟨boot, idle, write, yield⟩, hrun, hglobals⟩ := of_map_ok hcompute
  obtain ⟨hkmain, hcommhand, hidle⟩ := of_decide_eq_true hglobals
  have hsteps := hrun
  obtain ⟨⟨dcb, p, q, K₁⟩, hboot, hrest⟩ := of_bind_ok hsteps
  obtain ⟨⟨r, K₂⟩, hcall, hrest⟩ := of_bind_ok hrest
  obtain ⟨⟨r₁, K₃⟩, hwrite, hrest⟩ := of_bind_ok hrest
  obtain ⟨⟨r₂, K₄⟩, hyield, heq⟩ := of_bind_ok hrest
  cases heq
  have hfirst : MenuCall p K₁ K₂ := by
    refine .call K₁ (fun _ => callContext 1 0 0 0) K₁.device.mem 0x1234 r K₂ ?_ hcall
    rw [if_neg hkmain]
    decide
  have hsecond : MenuCall p K₂ K₃ := by
    refine .call K₂ (fun _ => callContext 3 COM1 0x5000 57) K₂.device.mem 0x2000 r₁ K₃ ?_ hwrite
    rw [if_pos hcommhand]
    decide
  have hthird : MenuCall p K₃ K₄ := by
    refine .call K₃ (fun _ => callContext 1 0 0 0) K₃.device.mem 0x3000 r₂ K₄ ?_ hyield
    rw [if_neg hidle]
    decide
  have hcounted : Counted (MenuCall p) DeviceStep 3 K₁ K₄ :=
    (((Counted.refl K₁).tick hfirst).tick hsecond).tick hthird
  exact ⟨_, _, _, _, hrun, hcounted,
    three_system_calls kernelHeap_owns (silentConsole_talks _) hboot hcounted⟩

end Mpx
