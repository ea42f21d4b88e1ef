import Mpx.Serial.Interrupt

/-! READ requests on a port with nothing in its ring: no handler puts a character there, and
the port never leaves the read. -/

namespace Mpx

open Memory PointerList Run

variable {σ : Type} {F : HeapFunctions σ} {Owns : σ → List U32 → Prop}

/-- The read loop of `serial_read` stops at the first character of the ring. -/
def Dcb.RingEmpty (p : Dcb) : Prop := p.ringGet 0 = .ok 0

theorem Dcb.RingEmpty.congr {p p' : Dcb} (h : p.RingEmpty) (hring : p'.ringBuffer = p.ringBuffer) :
    p'.RingEmpty := by
  rw [RingEmpty, ringGet, dif_pos (by decide)] at h ⊢
  simp only [hring, h]

structure Unfilled (Owns : σ → List U32 → Prop) (d : Device σ) (queue live : List U32) : Prop
    extends Requests Owns d queue live where
  ring : d.port.RingEmpty

section Requests

variable {d d' : Device σ} {s s' : Procs} {queue live : List U32} {proc dev buf len : U32}
  {op : OpCode}

theorem Requests.congr (h : Requests Owns d queue live) (hopen : OpenPort d')
    (hiocbs : d'.iocbs = d.iocbs) (hhead : d'.port.ioHead = d.port.ioHead)
    (hheap : d'.heap = d.heap) : Requests Owns d' queue live where
  openPort := hopen
  queued := by
    rw [Device.Queued, hiocbs, hhead]
    exact h.queued
  owns := hheap ▸ h.owns
  held := h.held

theorem Requests.outb (h : Requests Owns d queue live) (port : U32) (data : U8) :
    Requests Owns (d.outb port data) queue live :=
  h.congr (h.openPort.congr rfl rfl rfl rfl) rfl rfl rfl

theorem Requests.work (h : Requests Owns d queue live) (mem : Mem) {heap : σ}
    (hheap : KeepsRequests Owns d heap) :
    ∃ live', Requests Owns { d with mem := mem, heap := heap } queue live' := by
  obtain ⟨live', hown, hheld⟩ := hheap queue live h.queued h.owns h.held
  exact ⟨live', h.openPort.congr rfl rfl rfl rfl, h.queued, hown, hheld⟩

theorem serialInterrupt_requests {iir : U8} (hlaws : HeapLaws F Owns)
    (h : Requests Owns d queue live) (hrun : serialInterrupt F iir d s = .ok (d', s')) :
    ∃ queue' live', Requests Owns d' queue' live' := by
  obtain ⟨d₁, rfl, hserved⟩ := serialInterrupt_cases hrun
  cases hserved with
  | inl houtput =>
      cases (serialOutputInterrupt_requests hlaws h houtput).2 with
      | inl hsame => exact ⟨queue, live, hsame.2.outb _ _⟩
      | inr hended =>
          obtain ⟨p, rest, -, hrest, -⟩ := hended
          exact ⟨rest, live.erase p, hrest.outb _ _⟩
  | inr hother =>
      cases hother with
      | inl hinput => exact ⟨queue, live, hinput.1 ▸ (serialInputInterrupt_requests h).outb _ _⟩
      | inr hnone => exact ⟨queue, live, hnone.1 ▸ h.outb _ _⟩

end Requests

section Ring

variable {d d' : Device σ} {s s' : Procs} {queue live : List U32} {buf len : U32} {op : OpCode}

theorem serialRead_nothing (hopen : OpenPort d) (hring : d.port.RingEmpty)
    (hidle : d.port.operation = .idle) (hbuf : buf ≠ 0) (hlen : len ≠ 0) :
    serialRead d buf len =
      .ok (0, { d with port := { d.port with operation := .read, eventFlag := 0 } }) := by
  have hpos : 0 < len.toNat := by
    apply Nat.pos_of_ne_zero
    intro hzero
    exact hlen (BitVec.eq_of_toNat_eq hzero)
  generalize hstarted : ({ d.port with operation := .read, eventFlag := 0 } : Dcb) = port
  have hget : port.ringGet 0 = .ok 0 := by
    rw [← hstarted]
    exact hring
  have hloop : readLoop buf len readFuel { d with port := port } 0 =
      .ok (false, 0, { d with port := port }) := by
    rw [readFuel, readLoop, if_pos hpos, hget]
    rfl
  have hmore : ¬ (false = true ∨ ¬ 0 < len.toNat) := by simp [hpos]
  rw [serialRead, if_neg hopen.available, if_neg hbuf, if_neg hlen, if_neg (not_not.mpr hidle)]
  simp only [hstarted, hloop, bind, Except.bind, if_neg hmore]
  rfl

theorem ringBuffer_startIfIdle (hopen : OpenPort d) (hring : d.port.RingEmpty)
    (hop : op = .read ∨ op = .write) (hbuf : buf ≠ 0)
    (hrun : startIfIdle d COM1 buf len op = .ok d') : d'.port.ringBuffer = d.port.ringBuffer := by
  cases startIfIdle_cases hopen hop hbuf hrun with
  | inl hsame => rw [hsame]
  | inr hstarted =>
      cases hstarted with
      | inl hwrite =>
          rw [hwrite.2.2]
          rfl
      | inr hread =>
          obtain ⟨hidle, rfl, hlen, -⟩ := hread
          rw [startIfIdle, if_pos hidle] at hrun
          simp only [serialRead_nothing hopen hring hidle hbuf hlen] at hrun
          cases hrun
          rfl

theorem ringBuffer_serialInterrupt {iir : U8} (hopen : OpenPort d)
    (hrun : serialInterrupt F iir d s = .ok (d', s')) :
    d'.port.ringBuffer = d.port.ringBuffer := by
  obtain ⟨d₁, rfl, hserved⟩ := serialInterrupt_cases hrun
  rw [port_outb]
  cases hserved with
  | inl houtput =>
      cases outputInterrupt_cases hopen houtput with
      | inl hspurious => rw [hspurious.2]
      | inr hwriting =>
          cases hwriting with
          | inl hmore => rw [hmore.2]; rfl
          | inr hdone =>
              obtain ⟨-, heap, rfl⟩ := hdone
              rfl
  | inr hother =>
      cases hother with
      | inl hinput =>
          rw [hinput.1, serialInputInterrupt]
          split <;> rfl
      | inr hnone => rw [hnone.1]

theorem Unfilled.step (hlaws : HeapLaws F Owns) (h : Unfilled Owns d queue live)
    (hstep : DriverStep F Owns d d') : ∃ queue' live', Unfilled Owns d' queue' live' := by
  cases hstep with
  | request d' globalPcb dev buf len operation hop hrun =>
      obtain ⟨new, hnext, -⟩ := ioScheduler_requests hlaws h.toRequests hop hrun
      refine ⟨queue ++ new, new ++ live, hnext, ?_⟩
      cases ioScheduler_cases hrun with
      | inl hsame => exact hsame ▸ h.ring
      | inr hqueued =>
          obtain ⟨-, hbuf, heap, iocbs, ioHead, hstart⟩ := hqueued
          have hopen := h.openPort.withQueue heap iocbs ioHead
          have hring : (d.withQueue heap iocbs ioHead).port.RingEmpty := h.ring
          exact hring.congr (ringBuffer_startIfIdle hopen hring hop hbuf hstart)
  | interrupt d' iir s s' hrun =>
      obtain ⟨queue', live', hnext⟩ := serialInterrupt_requests hlaws h.toRequests hrun
      refine ⟨queue', live', hnext, ?_⟩
      exact h.ring.congr (ringBuffer_serialInterrupt h.openPort hrun)
  | work mem heap hheap =>
      obtain ⟨live', hnext⟩ := h.toRequests.work mem hheap
      exact ⟨queue, live', hnext, h.ring⟩

end Ring

def InputStep (F : HeapFunctions σ) : Device σ → Device σ → Prop := InterruptStep F 4

def NoInputStep (F : HeapFunctions σ) (Owns : σ → List U32 → Prop) :
    Device σ → Device σ → Prop := QuietStep F Owns 4

section Reading

variable {d₁ d d' : Device σ} {queue₁ queue live : List U32} {n : Nat}

/-- Since `d₁` the port waits for the input of a read, through `n` input interrupts. -/
structure Reading (Owns : σ → List U32 → Prop) (d₁ : Device σ) (queue₁ : List U32) (n : Nat)
    (d : Device σ) (queue live : List U32) : Prop extends Requests Owns d queue live where
  operation : d.port.operation = .read
  calls : d.calls = d₁.calls
  wire : d.wire = d₁.wire ++ List.replicate n 0x02
  waiting : queue₁ <+: queue
  processes : SameProcesses d₁ d queue₁

theorem Reading.outb_eoi (h : Reading Owns d₁ queue₁ n d queue live) :
    Reading Owns d₁ queue₁ n (d.outb 0x20 0x20) queue live where
  toRequests := h.toRequests.outb _ _
  operation := h.operation
  calls := (calls_outb d _ _).trans h.calls
  wire := (wire_outb_eoi d).trans h.wire
  waiting := h.waiting
  processes := h.processes

theorem Reading.input (h : Reading Owns d₁ queue₁ n d queue live) :
    Reading Owns d₁ queue₁ (n + 1) (serialInputInterrupt d) queue live := by
  rw [serialInputInterrupt, if_pos h.operation]
  refine ⟨h.toRequests.outb _ _, h.operation, (calls_outb d _ _).trans h.calls, ?_, h.waiting,
    h.processes⟩
  calc (d.outb COM1 0x02).wire
      = d.wire ++ [0x02] := wire_outb_thr d _
    _ = d₁.wire ++ List.replicate (n + 1) 0x02 := by
        rw [h.wire, List.append_assoc, List.replicate_succ']

theorem Reading.inputStep (h : Reading Owns d₁ queue₁ n d queue live)
    (hstep : InputStep F d d') : Reading Owns d₁ queue₁ (n + 1) d' queue live := by
  cases hstep with
  | interrupt iir s s' hkind hrun =>
      rw [serialInterrupt] at hrun
      simp only [hkind, if_neg (show ¬ (4 : U8) = 2 by decide), if_true] at hrun
      cases hrun
      exact h.input.outb_eoi

/-- The output handler finds no WRITE in progress. -/
theorem Reading.otherInterrupt {iir : U8} {s s' : Procs}
    (h : Reading Owns d₁ queue₁ n d queue live) (hother : iir &&& 7 ≠ 4)
    (hrun : serialInterrupt F iir d s = .ok (d', s')) :
    Reading Owns d₁ queue₁ n d' queue live := by
  have hop : d.port.operation ≠ .write := by
    rw [h.operation]
    decide
  have hdevice : d' = d.outb 0x20 0x20 := by
    rw [serialInterrupt] at hrun
    simp only [if_neg hother, serialOutputInterrupt_spurious s hop, ite_self] at hrun
    cases hrun
    rfl
  rw [hdevice]
  exact h.outb_eoi

theorem Reading.request {proc dev buf len : U32} {op : OpCode} (hlaws : HeapLaws F Owns)
    (h : Reading Owns d₁ queue₁ n d queue live) (hop : op = .read ∨ op = .write)
    (hrun : ioScheduler F d proc dev buf len op = .ok d') :
    ∃ queue' live', Reading Owns d₁ queue₁ n d' queue' live' := by
  obtain ⟨new, hnext, hsame, -⟩ := ioScheduler_requests hlaws h.toRequests hop hrun
  have hprocesses : SameProcesses d₁ d' queue₁ := by
    intro p hp
    rw [hsame p (h.waiting.subset hp), h.processes p hp]
  have hwaiting : queue₁ <+: queue ++ new := h.waiting.trans (List.prefix_append queue new)
  cases ioScheduler_cases hrun with
  | inl hrefused =>
      subst hrefused
      exact ⟨_, _, hnext, h.operation, h.calls, h.wire, hwaiting, hprocesses⟩
  | inr hqueued =>
      obtain ⟨-, -, heap, iocbs, ioHead, hstart⟩ := hqueued
      have hbusy : (d.withQueue heap iocbs ioHead).port.operation ≠ .idle := by
        rw [show (d.withQueue heap iocbs ioHead).port.operation = .read from h.operation]
        decide
      rw [startIfIdle_busy _ _ _ _ hbusy] at hstart
      cases hstart
      exact ⟨_, _, hnext, h.operation, h.calls, h.wire, hwaiting, hprocesses⟩

theorem Reading.noInputStep (hlaws : HeapLaws F Owns)
    (h : Reading Owns d₁ queue₁ n d queue live) (hstep : NoInputStep F Owns d d') :
    ∃ queue' live', Reading Owns d₁ queue₁ n d' queue' live' := by
  cases hstep with
  | request d' globalPcb dev buf len operation hop hrun => exact h.request hlaws hop hrun
  | interrupt d' iir s s' hother hrun => exact ⟨queue, live, h.otherInterrupt hother hrun⟩
  | work mem heap hheap =>
      obtain ⟨live', hnext⟩ := h.toRequests.work mem hheap
      exact ⟨queue, live', hnext, h.operation, h.calls, h.wire, h.waiting, h.processes⟩

theorem Reading.run {d₂ : Device σ} (hlaws : HeapLaws F Owns)
    (h : Reading Owns d₁ queue₁ 0 d₁ queue live)
    (hrun : Counted (InputStep F) (NoInputStep F Owns) n d₁ d₂) :
    ∃ queue' live', Reading Owns d₁ queue₁ n d₂ queue' live' := by
  refine Counted.invariant (fun n d => ∃ queue' live', Reading Owns d₁ queue₁ n d queue' live')
    ?_ ?_ hrun ⟨queue, live, h⟩
  · intro n s t hreading hstep
    obtain ⟨queue', live', hreading⟩ := hreading
    exact ⟨queue', live', hreading.inputStep hstep⟩
  · intro n s t hreading hstep
    obtain ⟨queue', live', hreading⟩ := hreading
    exact hreading.noInputStep hlaws hstep

theorem Unfilled.read {proc buf len : U32} (hlaws : HeapLaws F Owns)
    (h : Unfilled Owns d queue live) (hidle : d.port.operation = .idle) (hbuf : buf ≠ 0)
    (hlen : len ≠ 0) (hrun : ioScheduler F d proc COM1 buf len .read = .ok d₁) :
    ∃ request live', Reading Owns d₁ (queue ++ [request]) 0 d₁ (queue ++ [request]) live' ∧
      (d₁.iocbs request).currProc = proc ∧ d₁.calls = d.calls ∧ d₁.wire = d.wire := by
  obtain ⟨temp, heap, halloc, htemp⟩ := ioScheduler_alloc hbuf hrun
  obtain ⟨hnew, hown⟩ := hlaws.malloc_fresh h.owns halloc htemp
  have hfresh : temp ∉ queue := fun hmem => hnew (h.held hmem)
  obtain ⟨iocbs, ioHead, hqueue, hsame, heq⟩ :=
    @ioScheduler_append σ F _ _ _ proc buf len _ .read h.queued hbuf halloc htemp hfresh
  have hopen := h.openPort.withQueue heap iocbs ioHead
  have hring : (d.withQueue heap iocbs ioHead).port.RingEmpty := h.ring
  have hwaits : (d.withQueue heap iocbs ioHead).port.operation = .idle := hidle
  rw [heq, startIfIdle, if_pos hwaits] at hrun
  simp only [serialRead_nothing hopen hring hwaits hbuf hlen] at hrun
  cases hrun
  refine ⟨temp, temp :: live, ⟨⟨?_, hqueue, hown, ?_⟩, rfl, rfl, (List.append_nil _).symm,
    List.prefix_refl _, fun _ _ => rfl⟩, ?_, rfl, rfl⟩
  · exact hopen.congr rfl rfl rfl rfl
  · intro p hp
    cases List.mem_append.mp hp with
    | inl hold => exact List.mem_cons_of_mem _ (h.held hold)
    | inr hlast => exact (List.mem_singleton.mp hlast) ▸ List.mem_cons_self
  · calc ((d.withQueue heap iocbs ioHead).iocbs temp).currProc
        = (Function.update d.iocbs temp ⟨proc, COM1, .read, buf, len.toInt, 0⟩ temp).currProc :=
          hsame.currProc temp
      _ = proc := by rw [Function.update_self]

end Reading

/-- A READ that an idle port with an empty ring starts is the last thing that the port does:
the requests up to it stay queued, nobody is unblocked again, and the wire carries nothing
but one 0x02 for each input interrupt. -/
theorem read_never_ends {d₀ d d₁ d₂ : Device Heap} {live : List U32} {proc buf len : U32}
    (hfresh : FreshPort d₀) (hown : OwnsBlocks d₀.heap live) (hring : d₀.port.RingEmpty)
    (hbefore : DriverRun studentHeap OwnsBlocks d₀ d) (hidle : d.port.operation = .idle)
    (hbuf : buf ≠ 0) (hlen : len ≠ 0)
    (hread : ioScheduler studentHeap d proc COM1 buf len .read = .ok d₁)
    (hafter : DriverRun studentHeap OwnsBlocks d₁ d₂) :
    d₂.port.operation = .read ∧ d₂.calls = d.calls ∧
      (∃ n, Counted (InputStep studentHeap) (NoInputStep studentHeap OwnsBlocks) n d₁ d₂) ∧
      (∀ n, Counted (InputStep studentHeap) (NoInputStep studentHeap OwnsBlocks) n d₁ d₂ →
        d₂.wire = d.wire ++ List.replicate n 0x02) ∧
      ∃ queue request later, d.Queued queue ∧ d₂.Queued (queue ++ request :: later) ∧
        (d₂.iocbs request).currProc = proc := by
  have hstart : Unfilled OwnsBlocks d₀ [] live :=
    ⟨⟨hfresh.openPort, hfresh.empty, hown, List.nil_subset _⟩, hring⟩
  obtain ⟨queue, live', hunfilled⟩ :=
    Run.invariant (fun d => ∃ queue live, Unfilled OwnsBlocks d queue live)
      (fun _ _ ⟨_, _, h⟩ hstep => h.step studentHeap_laws hstep) hbefore ⟨[], live, hstart⟩
  obtain ⟨request, live₁, hreading, hproc, hcalls, hwire⟩ :=
    hunfilled.read studentHeap_laws hidle hbuf hlen hread
  obtain ⟨n, hcounted⟩ := hafter.counted 4
  obtain ⟨queue₂, live₂, hend⟩ := hreading.run studentHeap_laws hcounted
  obtain ⟨later, hlater⟩ := hend.waiting
  refine ⟨hend.operation, hend.calls.trans hcalls, ⟨n, hcounted⟩, ?_, queue, request, later,
    hunfilled.queued, ?_, ?_⟩
  · intro m hm
    obtain ⟨queue₃, live₃, hend'⟩ := hreading.run studentHeap_laws hm
    rw [hend'.wire, hwire]
  · rw [List.append_cons, hlater]
    exact hend.queued
  · rw [hend.processes request (by simp), hproc]

theorem read_never_ends_one_character :
    ∃ d₁ d₂, ioScheduler studentHeap bootedPort 0x100 COM1 0x6000 1 .read = .ok d₁ ∧
      (serialInterrupt studentHeap 4 d₁ noQueues).map Prod.fst = .ok d₂ ∧
      d₂.port.operation = .read ∧ d₂.calls = [] ∧ d₂.wire = [0x02] := by
  have hcompute : (ioScheduler studentHeap bootedPort 0x100 COM1 0x6000 1 .read).map
      (fun d => d.port.operation) = .ok .read := by decide +kernel
  obtain ⟨d₁, hread, -⟩ := of_map_ok hcompute
  have hinput : serialInterrupt studentHeap 4 d₁ noQueues =
      .ok ((serialInputInterrupt d₁).outb 0x20 0x20, noQueues) := rfl
  have hafter : DriverRun studentHeap OwnsBlocks d₁ ((serialInputInterrupt d₁).outb 0x20 0x20) :=
    Relation.ReflTransGen.single (.interrupt _ _ 4 noQueues noQueues hinput)
  have hone : Counted (InputStep studentHeap) (NoInputStep studentHeap OwnsBlocks) 1 d₁
      ((serialInputInterrupt d₁).outb 0x20 0x20) :=
    .tick (.refl d₁) (.interrupt _ _ 4 noQueues noQueues (by decide) hinput)
  obtain ⟨hoperation, hcalls, -, hwire, -⟩ := read_never_ends bootedPort_fresh kernelHeap_owns rfl
    Relation.ReflTransGen.refl rfl (by decide) (by decide) hread hafter
  exact ⟨d₁, _, hread, by rw [hinput]; rfl, hoperation, hcalls, hwire 1 hone⟩

end Mpx
