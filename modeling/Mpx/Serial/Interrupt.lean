import Mpx.Serial.Owned
import Mpx.Serial.ReadRequest

/-! `serial_interrupt` of `kernel/serial.c`, and runs of the driver in which it serves any
interrupt. -/

namespace Mpx

open Memory PointerList Run

variable {σ : Type} {F : HeapFunctions σ} {Owns : σ → List U32 → Prop}

/-- `iir` is the byte in the interrupt identification register. For 0 and 6 the handler
only reads from a port. -/
def serialInterrupt (F : HeapFunctions σ) (iir : U8) (d : Device σ) (s : Procs) :
    Except Fault (Device σ × Procs) :=
  let interruptID := iir &&& 7
  let handled :=
    if interruptID = 2 then serialOutputInterrupt F d s
    else if interruptID = 4 then .ok (serialInputInterrupt d, s)
    else .ok (d, s)
  -- the end of the interrupt, for the PIC
  do
    let (d, s) ← handled
    return (d.outb 0x20 0x20, s)

def KeepsRequests (Owns : σ → List U32 → Prop) (d : Device σ) (heap : σ) : Prop :=
  ∀ queue live, d.Queued queue → Owns d.heap live → queue ⊆ live →
    ∃ live', Owns heap live' ∧ queue ⊆ live'

/-- A request of any process, an interrupt, or the processes' own work in memory and on the
heap. -/
inductive DriverStep (F : HeapFunctions σ) (Owns : σ → List U32 → Prop) :
    Device σ → Device σ → Prop
  | request (d d' : Device σ) (globalPcb dev buf len : U32) (operation : OpCode)
      (hop : operation = .read ∨ operation = .write)
      (hrun : ioScheduler F d globalPcb dev buf len operation = .ok d') : DriverStep F Owns d d'
  | interrupt (d d' : Device σ) (iir : U8) (s s' : Procs)
      (hrun : serialInterrupt F iir d s = .ok (d', s')) : DriverStep F Owns d d'
  | work (d : Device σ) (mem : Mem) (heap : σ) (hheap : KeepsRequests Owns d heap) :
      DriverStep F Owns d { d with mem := mem, heap := heap }

def DriverRun (F : HeapFunctions σ) (Owns : σ → List U32 → Prop) : Device σ → Device σ → Prop :=
  Relation.ReflTransGen (DriverStep F Owns)

/-- An interrupt whose identification has the low bits `kind`. -/
inductive InterruptStep (F : HeapFunctions σ) (kind : U8) : Device σ → Device σ → Prop
  | interrupt (d d' : Device σ) (iir : U8) (s s' : Procs) (hkind : iir &&& 7 = kind)
      (hrun : serialInterrupt F iir d s = .ok (d', s')) : InterruptStep F kind d d'

inductive QuietStep (F : HeapFunctions σ) (Owns : σ → List U32 → Prop) (kind : U8) :
    Device σ → Device σ → Prop
  | request (d d' : Device σ) (globalPcb dev buf len : U32) (operation : OpCode)
      (hop : operation = .read ∨ operation = .write)
      (hrun : ioScheduler F d globalPcb dev buf len operation = .ok d') :
      QuietStep F Owns kind d d'
  | interrupt (d d' : Device σ) (iir : U8) (s s' : Procs) (hother : iir &&& 7 ≠ kind)
      (hrun : serialInterrupt F iir d s = .ok (d', s')) : QuietStep F Owns kind d d'
  | work (d : Device σ) (mem : Mem) (heap : σ) (hheap : KeepsRequests Owns d heap) :
      QuietStep F Owns kind d { d with mem := mem, heap := heap }

section Kinds

variable {d d' : Device σ} {kind : U8}

theorem InterruptStep.driverStep (h : InterruptStep F kind d d') : DriverStep F Owns d d' := by
  cases h with
  | interrupt iir s s' hkind hrun => exact .interrupt d d' iir s s' hrun

theorem QuietStep.driverStep (h : QuietStep F Owns kind d d') : DriverStep F Owns d d' := by
  cases h with
  | request d' globalPcb dev buf len operation hop hrun =>
      exact .request d d' globalPcb dev buf len operation hop hrun
  | interrupt d' iir s s' hother hrun => exact .interrupt d d' iir s s' hrun
  | work mem heap hheap => exact .work d mem heap hheap

theorem DriverStep.kinds (kind : U8) (h : DriverStep F Owns d d') :
    InterruptStep F kind d d' ∨ QuietStep F Owns kind d d' := by
  cases h with
  | request d' globalPcb dev buf len operation hop hrun =>
      exact Or.inr (.request d d' globalPcb dev buf len operation hop hrun)
  | interrupt d' iir s s' hrun =>
      by_cases hkind : iir &&& 7 = kind
      · exact Or.inl (.interrupt d d' iir s s' hkind hrun)
      · exact Or.inr (.interrupt d d' iir s s' hkind hrun)
  | work mem heap hheap => exact Or.inr (.work d mem heap hheap)

theorem DriverRun.counted (kind : U8) (hrun : DriverRun F Owns d d') :
    ∃ n, Counted (InterruptStep F kind) (QuietStep F Owns kind) n d d' := by
  refine Run.invariant (fun d' => ∃ n, Counted _ _ n d d') ?_ hrun ⟨0, .refl d⟩
  intro d₁ d₂ hcounted hstep
  obtain ⟨n, hcounted⟩ := hcounted
  cases hstep.kinds kind with
  | inl hkind => exact ⟨n + 1, hcounted.tick hkind⟩
  | inr hquiet => exact ⟨n, hcounted.quiet hquiet⟩

end Kinds

section Cases

variable {d d' : Device σ} {s s' : Procs} {proc dev buf len : U32} {op : OpCode}

theorem serialInterrupt_cases {iir : U8} (hrun : serialInterrupt F iir d s = .ok (d', s')) :
    ∃ d₁, d' = d₁.outb 0x20 0x20 ∧ (serialOutputInterrupt F d s = .ok (d₁, s') ∨
      d₁ = serialInputInterrupt d ∧ s' = s ∨ d₁ = d ∧ s' = s) := by
  obtain ⟨⟨d₁, s₁⟩, hserved, heq⟩ := of_bind_ok hrun
  cases heq
  refine ⟨d₁, rfl, ?_⟩
  by_cases houtput : iir &&& 7 = 2
  · rw [if_pos houtput] at hserved
    exact Or.inl hserved
  · rw [if_neg houtput] at hserved
    by_cases hinput : iir &&& 7 = 4
    · rw [if_pos hinput] at hserved
      cases hserved
      exact Or.inr (Or.inl ⟨rfl, rfl⟩)
    · rw [if_neg hinput] at hserved
      cases hserved
      exact Or.inr (Or.inr ⟨rfl, rfl⟩)

theorem outputInterrupt_cases (hopen : OpenPort d)
    (hrun : serialOutputInterrupt F d s = .ok (d', s')) :
    (d.port.operation ≠ .write ∧ d' = d) ∨
    (d.port.operation = .write ∧ d' = d.sendNext) ∨
    (d.port.operation = .write ∧ ∃ heap, d' = d.completed heap) := by
  by_cases hop : d.port.operation = .write
  · by_cases hhead : d.port.ioHead = 0
    · rw [serialOutputInterrupt, if_neg (not_not.mpr hop)] at hrun
      simp only [Device.outb, if_pos hhead] at hrun
      cases hrun
    · by_cases hmore : d.More
      · rw [serialOutputInterrupt_more s hopen.currDev hop hhead hmore] at hrun
        cases hrun
        exact Or.inr (Or.inl ⟨hop, rfl⟩)
      · rw [serialOutputInterrupt_done s hop hhead hmore] at hrun
        obtain ⟨s₁, -, hrest⟩ := of_bind_ok hrun
        obtain ⟨⟨r, heap⟩, -, heq⟩ := of_bind_ok hrest
        cases heq
        exact Or.inr (Or.inr ⟨hop, heap, rfl⟩)
  · rw [serialOutputInterrupt_spurious s hop] at hrun
    cases hrun
    exact Or.inl ⟨hop, rfl⟩

theorem appendIocb_withQueue {temp : U32} (hrun : appendIocb d temp = .ok d') :
    ∃ iocbs ioHead, d' = d.withQueue d.heap iocbs ioHead := by
  by_cases hhead : d.port.ioHead = 0
  · rw [appendIocb, if_pos hhead] at hrun
    cases hrun
    exact ⟨d.iocbs, temp, rfl⟩
  · rw [appendIocb, if_neg hhead] at hrun
    obtain ⟨iter, -, heq⟩ := of_bind_ok hrun
    cases heq
    exact ⟨_, d.port.ioHead, rfl⟩

theorem ioScheduler_cases (hrun : ioScheduler F d proc dev buf len op = .ok d') :
    d' = d ∨ (dev = COM1 ∧ buf ≠ 0 ∧ ∃ heap iocbs ioHead,
      startIfIdle (d.withQueue heap iocbs ioHead) COM1 buf len op = .ok d') := by
  by_cases hrefused : dev ≠ COM1 ∨ buf = 0
  · rw [ioScheduler_refused proc len op hrefused] at hrun
    cases hrun
    exact Or.inl rfl
  · obtain ⟨hdev, hbuf⟩ := not_or.mp hrefused
    obtain rfl := not_not.mp hdev
    rw [ioScheduler, if_neg hrefused] at hrun
    obtain ⟨⟨temp, heap⟩, -, hrest⟩ := of_bind_ok hrun
    by_cases hnull : temp = 0
    · simp only [if_pos hnull] at hrest
      cases hrest
    · simp only [if_neg hnull] at hrest
      obtain ⟨d₁, happend, hstart⟩ := of_bind_ok hrest
      obtain ⟨iocbs, ioHead, rfl⟩ := appendIocb_withQueue happend
      exact Or.inr ⟨rfl, hbuf, heap, iocbs, ioHead, hstart⟩

theorem startIfIdle_cases (hopen : OpenPort d) (hop : op = .read ∨ op = .write) (hbuf : buf ≠ 0)
    (hrun : startIfIdle d COM1 buf len op = .ok d') :
    d' = d ∨
    (d.port.operation = .idle ∧ op = .write ∧ d' = d.writing buf len) ∨
    (d.port.operation = .idle ∧ op = .read ∧ len ≠ 0 ∧
      ∃ (ring : Vector U8 16) (mem : Mem), d' = { d with
        port := { d.port with
          ringBuffer := ring
          operation := if ReadSatisfied d.port.ringBuffer len then .idle else .read
          eventFlag := if ReadSatisfied d.port.ringBuffer len then 1 else 0 }
        mem := mem }) := by
  by_cases hidle : d.port.operation = .idle
  · cases hop with
    | inl hread =>
        subst hread
        by_cases hlen : len = 0
        · subst hlen
          rw [startIfIdle_read_nothing hopen hidle hbuf] at hrun
          cases hrun
          exact Or.inl rfl
        · obtain ⟨ring, mem, hstart⟩ := startIfIdle_read hopen hidle hbuf hlen
          rw [hstart] at hrun
          cases hrun
          exact Or.inr (Or.inr ⟨hidle, rfl, hlen, ring, mem, rfl⟩)
    | inr hwrite =>
        subst hwrite
        rw [startIfIdle_write len hopen hidle hbuf] at hrun
        cases hrun
        exact Or.inr (Or.inl ⟨hidle, rfl, rfl⟩)
  · rw [startIfIdle_busy _ _ _ _ hidle] at hrun
    cases hrun
    exact Or.inl rfl

@[simp] theorem port_outb (d : Device σ) (port : U32) (data : U8) :
    (d.outb port data).port = d.port := rfl

@[simp] theorem iocbs_outb (d : Device σ) (port : U32) (data : U8) :
    (d.outb port data).iocbs = d.iocbs := rfl

theorem calls_outb (d : Device σ) (port : U32) (data : U8) :
    (d.outb port data).calls = d.calls := by
  simp [Device.calls, Device.outb, Effect.isCall]

theorem wire_outb_eoi (d : Device σ) : (d.outb 0x20 0x20).wire = d.wire := by
  simp only [Device.wire, Device.outb, List.filterMap_append]
  exact List.append_nil _

theorem wire_outb_thr (d : Device σ) (data : U8) : (d.outb COM1 data).wire = d.wire ++ [data] := by
  simp only [Device.wire, Device.outb, List.filterMap_append]
  rfl

theorem ier_outb_of_ne {port : U32} (d : Device σ) (data : U8) (hport : port ≠ COM1 + IER) :
    (d.outb port data).ier = d.ier := if_neg hport

end Cases

section Enabled

variable {d d' : Device σ}

/-- Input interrupts are enabled, and output interrupts just while a WRITE is in progress. -/
structure Enabled (d : Device σ) : Prop where
  openPort : OpenPort d
  ier : d.ier = if d.port.operation = .write then 3 else 1

theorem Enabled.congr (h : Enabled d) (hopen : OpenPort d') (hier : d'.ier = d.ier)
    (hoperation : d'.port.operation = d.port.operation) : Enabled d' where
  openPort := hopen
  ier := by rw [hier, hoperation, h.ier]

theorem Enabled.eoi (h : Enabled d) : Enabled (d.outb 0x20 0x20) :=
  h.congr (h.openPort.congr rfl rfl rfl rfl) (ier_outb_of_ne d _ (by decide)) rfl

theorem Enabled.input (h : Enabled d) : Enabled (serialInputInterrupt d) := by
  rw [serialInputInterrupt]
  split
  · exact h.congr (h.openPort.congr rfl rfl rfl rfl) (ier_outb_of_ne d _ (by decide)) rfl
  · exact h

theorem Enabled.writing (h : Enabled d) (hidle : d.port.operation = .idle) (buf len : U32) :
    Enabled (d.writing buf len) where
  openPort := h.openPort.congr rfl rfl rfl rfl
  ier := by
    have hier : d.ier = 1 := by
      rw [h.ier, hidle]
      rfl
    calc (d.writing buf len).ier = d.ier ||| 0x02 := rfl
      _ = 3 := by rw [hier]; rfl

theorem Enabled.completed (h : Enabled d) (hwrite : d.port.operation = .write) (heap : σ) :
    Enabled (d.completed heap) where
  openPort := ⟨rfl, h.openPort.initialized, h.openPort.currDev, h.openPort.ringHead⟩
  ier := by
    have hier : d.ier = 3 := by rw [h.ier, if_pos hwrite]
    calc (d.completed heap).ier = d.ier &&& ~~~0x02 := rfl
      _ = 1 := by rw [hier]; rfl

theorem Enabled.output {s s' : Procs} (h : Enabled d)
    (hrun : serialOutputInterrupt F d s = .ok (d', s')) : Enabled d' := by
  cases outputInterrupt_cases h.openPort hrun with
  | inl hspurious =>
      rw [hspurious.2]
      exact h
  | inr hserved =>
      cases hserved with
      | inl hmore =>
          rw [hmore.2]
          exact h.congr (h.openPort.congr rfl rfl rfl rfl) rfl rfl
      | inr hdone =>
          obtain ⟨hwrite, heap, rfl⟩ := hdone
          exact h.completed hwrite heap

theorem Enabled.start {buf len : U32} {op : OpCode} (h : Enabled d)
    (hop : op = .read ∨ op = .write) (hbuf : buf ≠ 0)
    (hrun : startIfIdle d COM1 buf len op = .ok d') : Enabled d' := by
  cases startIfIdle_cases h.openPort hop hbuf hrun with
  | inl hsame => exact hsame ▸ h
  | inr hstarted =>
      cases hstarted with
      | inl hwrite =>
          obtain ⟨hidle, -, rfl⟩ := hwrite
          exact h.writing hidle buf len
      | inr hread =>
          obtain ⟨hidle, -, -, ring, mem, rfl⟩ := hread
          refine ⟨h.openPort.congr rfl rfl rfl rfl, ?_⟩
          have hier : d.ier = 1 := by
            rw [h.ier, hidle]
            rfl
          simp only [hier]
          split <;> rfl

theorem Enabled.step (h : Enabled d) (hstep : DriverStep F Owns d d') : Enabled d' := by
  cases hstep with
  | request d' globalPcb dev buf len operation hop hrun =>
      cases ioScheduler_cases hrun with
      | inl hsame => exact hsame ▸ h
      | inr hqueued =>
          obtain ⟨-, hbuf, heap, iocbs, ioHead, hstart⟩ := hqueued
          have hqueue : Enabled (d.withQueue heap iocbs ioHead) :=
            h.congr (h.openPort.withQueue heap iocbs ioHead) rfl rfl
          exact hqueue.start hop hbuf hstart
  | interrupt d' iir s s' hrun =>
      obtain ⟨d₁, rfl, hserved⟩ := serialInterrupt_cases hrun
      apply Enabled.eoi
      cases hserved with
      | inl houtput => exact h.output houtput
      | inr hother =>
          cases hother with
          | inl hinput => exact hinput.1 ▸ h.input
          | inr hnone => exact hnone.1 ▸ h
  | work mem heap => exact h.congr (h.openPort.congr rfl rfl rfl rfl) rfl rfl

end Enabled

/-- Whatever requests and interrupts come, the UART can always signal input, and it signals
an empty transmitter just while a WRITE is in progress. -/
theorem output_enabled_while_writing {ring : Vector U8 16} {mem : Mem} {heap : σ} {d : Device σ}
    (hrun : DriverRun F Owns (Device.opened ring mem heap) d) :
    d.ier = if d.port.operation = .write then 3 else 1 :=
  (Run.invariant Enabled (fun _ _ h hstep => h.step hstep) hrun ⟨⟨rfl, rfl, rfl, rfl⟩, rfl⟩).ier

theorem output_enabled_while_writing_one_request :
    ∃ d, DriverRun studentHeap OwnsBlocks bootedPort d ∧ d.port.operation = .write ∧ d.ier = 3 := by
  have hcompute : (ioScheduler studentHeap bootedPort 0x100 COM1 0x6000 2 .write).map
      (fun d => d.port.operation) = .ok .write := by decide +kernel
  obtain ⟨d, hrun, hwrite⟩ := of_map_ok hcompute
  have hstep : DriverRun studentHeap OwnsBlocks bootedPort d :=
    Relation.ReflTransGen.single (.request _ _ 0x100 COM1 0x6000 2 .write (Or.inr rfl) hrun)
  have hier := output_enabled_while_writing hstep
  rw [if_pos hwrite] at hier
  exact ⟨d, hstep, hwrite, hier⟩

end Mpx
