import Mpx.Serial.Unanswered

/-! How many output interrupts a WRITE takes, whatever else the driver is asked to do in
between. -/

namespace Mpx

open Memory PointerList Run

variable {σ : Type} {F : HeapFunctions σ} {Owns : σ → List U32 → Prop}

def OutputStep (F : HeapFunctions σ) : Device σ → Device σ → Prop := InterruptStep F 2

def OtherStep (F : HeapFunctions σ) (Owns : σ → List U32 → Prop) :
    Device σ → Device σ → Prop := QuietStep F Owns 2

/-- The first byte is sent at once, each interrupt sends one more, and the one behind the last
byte ends the transfer. The length is an `int` in the control block. -/
def interruptsOf (len : U32) : Nat := max 1 len.toInt.toNat

section Steps

variable {d d' : Device σ} {s s' : Procs} {queue live : List U32} {buf len : U32} {op : OpCode}

theorem Requests.step (hlaws : HeapLaws F Owns) (h : Requests Owns d queue live)
    (hstep : DriverStep F Owns d d') : ∃ queue' live', Requests Owns d' queue' live' := by
  cases hstep with
  | request d' globalPcb dev buf len operation hop hrun =>
      obtain ⟨new, hnext, -⟩ := ioScheduler_requests hlaws h hop hrun
      exact ⟨queue ++ new, new ++ live, hnext⟩
  | interrupt d' iir s s' hrun => exact serialInterrupt_requests hlaws h hrun
  | work mem heap hheap =>
      obtain ⟨live', hnext⟩ := h.work mem hheap
      exact ⟨queue, live', hnext⟩

theorem FreshPort.requests {d₀ : Device σ} (hlaws : HeapLaws F Owns) (hfresh : FreshPort d₀)
    (hown : Owns d₀.heap live) (hrun : DriverRun F Owns d₀ d) :
    ∃ queue live', Requests Owns d queue live' := by
  have hkeep : ∀ d d' : Device σ, (∃ queue live, Requests Owns d queue live) →
      DriverStep F Owns d d' → ∃ queue live, Requests Owns d' queue live := by
    intro d d' hrequests hstep
    obtain ⟨queue, live, h⟩ := hrequests
    exact h.step hlaws hstep
  exact Run.invariant (fun d => ∃ queue live, Requests Owns d queue live) hkeep hrun
    ⟨[], live, hfresh.openPort, hfresh.empty, hown, List.nil_subset _⟩

theorem calls_startIfIdle (hopen : OpenPort d) (hop : op = .read ∨ op = .write) (hbuf : buf ≠ 0)
    (hrun : startIfIdle d COM1 buf len op = .ok d') : d'.calls = d.calls := by
  cases startIfIdle_cases hopen hop hbuf hrun with
  | inl hsame => rw [hsame]
  | inr hstarted =>
      cases hstarted with
      | inl hwrite => rw [hwrite.2.2, calls_writing]
      | inr hread =>
          obtain ⟨-, -, -, ring, mem, rfl⟩ := hread
          rfl

theorem calls_ioScheduler {proc dev : U32} (hopen : OpenPort d) (hop : op = .read ∨ op = .write)
    (hrun : ioScheduler F d proc dev buf len op = .ok d') : d'.calls = d.calls := by
  cases ioScheduler_cases hrun with
  | inl hsame => rw [hsame]
  | inr hqueued =>
      obtain ⟨-, hbuf, heap, iocbs, ioHead, hstart⟩ := hqueued
      have hcalls := calls_startIfIdle (hopen.withQueue heap iocbs ioHead) hop hbuf hstart
      exact hcalls

theorem calls_step (hopen : OpenPort d) (hstep : DriverStep F Owns d d') :
    d.calls <+: d'.calls := by
  cases hstep with
  | request d' globalPcb dev buf len operation hop hrun =>
      rw [calls_ioScheduler hopen hop hrun]
  | interrupt d' iir s s' hrun =>
      obtain ⟨d₁, rfl, hserved⟩ := serialInterrupt_cases hrun
      rw [calls_outb]
      cases hserved with
      | inl houtput =>
          cases outputInterrupt_cases hopen houtput with
          | inl hspurious => rw [hspurious.2]
          | inr hwriting =>
              cases hwriting with
              | inl hmore => rw [hmore.2, calls_sendNext]
              | inr hdone =>
                  obtain ⟨-, heap, rfl⟩ := hdone
                  rw [calls_completed]
                  exact List.prefix_append _ _
      | inr hother =>
          cases hother with
          | inl hinput =>
              rw [hinput.1, serialInputInterrupt]
              split
              · rw [calls_outb]
              · exact List.prefix_refl _
          | inr hnone => rw [hnone.1]
  | work mem heap hheap => exact List.prefix_refl _

end Steps

section Transmission

variable {d₁ d d' : Device σ} {s s' : Procs} {head len : U32} {k : Nat} {queue live : List U32}

/-- The transfer of the request at `head` after `k` interrupts. -/
structure Transmission (Owns : σ → List U32 → Prop) (d₁ : Device σ) (head len : U32) (k : Nat)
    (d : Device σ) (queue live : List U32) : Prop extends Requests Owns d queue live where
  operation : d.port.operation = .write
  eventFlag : d.port.eventFlag = 1
  counter : d.port.counter = k + 1
  count : d.port.count = len.toInt
  calls : d.calls = d₁.calls
  atHead : d.port.ioHead = head
  process : (d.iocbs head).currProc = (d₁.iocbs head).currProc
  nonnull : head ≠ 0

theorem Transmission.more_iff (h : Transmission Owns d₁ head len k d queue live) :
    d.More ↔ k + 1 < interruptsOf len := by
  rw [Device.More, h.counter, h.count, interruptsOf]
  have hflag := h.eventFlag
  omega

theorem Transmission.congr (h : Transmission Owns d₁ head len k d queue live)
    {queue' live' : List U32} (hrequests : Requests Owns d' queue' live')
    (hport : d'.port = d.port) (hprocess : (d'.iocbs head).currProc = (d.iocbs head).currProc)
    (hcalls : d'.calls = d.calls) : Transmission Owns d₁ head len k d' queue' live' where
  toRequests := hrequests
  operation := hport ▸ h.operation
  eventFlag := hport ▸ h.eventFlag
  counter := hport ▸ h.counter
  count := hport ▸ h.count
  calls := hcalls.trans h.calls
  atHead := hport ▸ h.atHead
  process := hprocess.trans h.process
  nonnull := h.nonnull

theorem Transmission.mem_head (h : Transmission Owns d₁ head len k d queue live) :
    head ∈ queue := by
  have hqueued : IsList 0 (nextIocb d.iocbs) d.port.ioHead queue := h.queued
  rw [h.atHead] at hqueued
  cases queue with
  | nil => exact absurd hqueued h.nonnull
  | cons p rest =>
      obtain ⟨rfl, -⟩ := hqueued
      exact List.mem_cons_self

theorem Transmission.output (h : Transmission Owns d₁ head len k d queue live)
    (hk : k < interruptsOf len) (hrun : serialOutputInterrupt F d s = .ok (d', s')) :
    (k + 1 < interruptsOf len ∧ Transmission Owns d₁ head len (k + 1) d' queue live) ∨
    (k + 1 = interruptsOf len ∧
      d'.calls = d₁.calls ++ [.unblockPcb (d₁.iocbs head).currProc, .freeMem head]) := by
  have hhead : d.port.ioHead ≠ 0 := by
    rw [h.atHead]
    exact h.nonnull
  by_cases hmore : d.More
  · rw [serialOutputInterrupt_more s h.openPort.currDev h.operation hhead hmore] at hrun
    cases hrun
    have hrequests : Requests Owns d.sendNext queue live :=
      h.toRequests.congr (h.openPort.congr rfl rfl rfl rfl) rfl rfl rfl
    have hcounter : d.port.counter + 1 = ((k + 1 : Nat) : Int) + 1 := by
      rw [h.counter]
      rfl
    exact Or.inl ⟨h.more_iff.mp hmore, hrequests, h.operation, h.eventFlag, hcounter, h.count,
      (calls_sendNext d).trans h.calls, h.atHead, h.process, h.nonnull⟩
  · rw [serialOutputInterrupt_done s h.operation hhead hmore] at hrun
    obtain ⟨s₁, -, hrest⟩ := of_bind_ok hrun
    obtain ⟨⟨r, heap⟩, -, heq⟩ := of_bind_ok hrest
    cases heq
    have hlast := mt h.more_iff.mpr hmore
    refine Or.inr ⟨by omega, ?_⟩
    rw [calls_completed, h.calls, h.atHead, h.process]

theorem Transmission.request {proc dev buf size : U32} {op : OpCode} (hlaws : HeapLaws F Owns)
    (h : Transmission Owns d₁ head len k d queue live) (hop : op = .read ∨ op = .write)
    (hrun : ioScheduler F d proc dev buf size op = .ok d') :
    ∃ queue' live', Transmission Owns d₁ head len k d' queue' live' := by
  obtain ⟨new, hnext, hsame, -⟩ := ioScheduler_requests hlaws h.toRequests hop hrun
  have hprocess := hsame head h.mem_head
  have hcalls := calls_ioScheduler h.openPort hop hrun
  cases ioScheduler_cases hrun with
  | inl hrefused => exact ⟨_, _, h.congr hnext (by rw [hrefused]) hprocess hcalls⟩
  | inr hqueued =>
      obtain ⟨-, -, heap, iocbs, ioHead, hstart⟩ := hqueued
      have hbusy : (d.withQueue heap iocbs ioHead).port.operation ≠ .idle := by
        rw [show (d.withQueue heap iocbs ioHead).port.operation = .write from h.operation]
        decide
      rw [startIfIdle_busy _ _ _ _ hbusy] at hstart
      cases hstart
      have hstays : (d.withQueue heap iocbs ioHead).port.ioHead = head := by
        have hbefore : IsList 0 (nextIocb d.iocbs) d.port.ioHead queue := h.queued
        have hafter : IsList 0 (nextIocb iocbs) ioHead (queue ++ new) := hnext.queued
        rw [h.atHead] at hbefore
        cases queue with
        | nil => exact absurd hbefore h.nonnull
        | cons p rest =>
            obtain ⟨rfl, -⟩ := hbefore
            exact hafter.1
      exact ⟨_, _, hnext, h.operation, h.eventFlag, h.counter, h.count, hcalls.trans h.calls,
        hstays, hprocess.trans h.process, h.nonnull⟩

theorem Transmission.otherInterrupt {iir : U8} (h : Transmission Owns d₁ head len k d queue live)
    (hother : iir &&& 7 ≠ 2) (hrun : serialInterrupt F iir d s = .ok (d', s')) :
    Transmission Owns d₁ head len k d' queue live := by
  have hinput : serialInputInterrupt d = d := by
    have hop : d.port.operation ≠ .read := by
      rw [h.operation]
      decide
    rw [serialInputInterrupt, if_neg hop]
  have hdevice : d' = d.outb 0x20 0x20 := by
    rw [serialInterrupt] at hrun
    simp only [if_neg hother, hinput, ite_self] at hrun
    cases hrun
    rfl
  rw [hdevice]
  exact h.congr (h.toRequests.outb _ _) rfl rfl (calls_outb d _ _)

theorem Transmission.other (hlaws : HeapLaws F Owns)
    (h : Transmission Owns d₁ head len k d queue live) (hstep : OtherStep F Owns d d') :
    ∃ queue' live', Transmission Owns d₁ head len k d' queue' live' := by
  cases hstep with
  | request d' globalPcb dev buf len operation hop hrun => exact h.request hlaws hop hrun
  | interrupt d' iir s s' hother hrun => exact ⟨queue, live, h.otherInterrupt hother hrun⟩
  | work mem heap hheap =>
      obtain ⟨live', hnext⟩ := h.toRequests.work mem hheap
      exact ⟨queue, live', h.congr hnext rfl rfl rfl⟩

end Transmission

section Start

variable {d d₁ : Device σ} {queue live : List U32} {proc buf len : U32}

theorem Requests.startWrite (hlaws : HeapLaws F Owns) (h : Requests Owns d queue live)
    (hidle : d.port.operation = .idle) (hbuf : buf ≠ 0)
    (hrun : ioScheduler F d proc COM1 buf len .write = .ok d₁) :
    (∃ queue' live', Transmission Owns d₁ d₁.port.ioHead len 0 d₁ queue' live') ∧
      d₁.calls = d.calls := by
  obtain ⟨new, hnext, -, -⟩ := ioScheduler_requests hlaws h (Or.inr rfl) hrun
  have hcalls := calls_ioScheduler h.openPort (Or.inr rfl) hrun
  obtain ⟨temp, heap, halloc, htemp⟩ := ioScheduler_alloc hbuf hrun
  obtain ⟨hnew, -⟩ := hlaws.malloc_fresh h.owns halloc htemp
  have hfresh : temp ∉ queue := fun hmem => hnew (h.held hmem)
  obtain ⟨iocbs, ioHead, hqueue, -, heq⟩ :=
    @ioScheduler_append σ F _ _ _ proc buf len _ .write h.queued hbuf halloc htemp hfresh
  have hwaits : (d.withQueue heap iocbs ioHead).port.operation = .idle := hidle
  rw [heq, startIfIdle_write len (h.openPort.withQueue heap iocbs ioHead) hwaits hbuf] at hrun
  cases hrun
  have hhead : ioHead ≠ 0 := by
    intro hnull
    have hlist : IsList 0 (nextIocb iocbs) ioHead (queue ++ [temp]) := hqueue
    rw [hnull] at hlist
    exact List.append_ne_nil_of_right_ne_nil queue (List.cons_ne_nil _ _) (isList_null.mp hlist)
  exact ⟨⟨_, _, hnext, rfl, rfl, rfl, rfl, rfl, rfl, rfl, hhead⟩, hcalls⟩

end Start

section WriteProgress

variable {d₁ d d' : Device σ} {head len : U32} {n : Nat}

/-- After `n` output interrupts the transfer goes on, or it is over and its process has been
unblocked. -/
def WriteProgress (Owns : σ → List U32 → Prop) (d₁ : Device σ) (head len : U32) (n : Nat)
    (d : Device σ) : Prop :=
  ∃ queue live,
    (n < interruptsOf len ∧ Transmission Owns d₁ head len n d queue live) ∨
    (interruptsOf len ≤ n ∧ Requests Owns d queue live ∧
      d₁.calls ++ [.unblockPcb (d₁.iocbs head).currProc, .freeMem head] <+: d.calls)

theorem WriteProgress.output (hlaws : HeapLaws F Owns) (h : WriteProgress Owns d₁ head len n d)
    (hstep : OutputStep F d d') : WriteProgress Owns d₁ head len (n + 1) d' := by
  obtain ⟨queue, live, hcases⟩ := h
  cases hcases with
  | inl hsending =>
      obtain ⟨hn, h⟩ := hsending
      obtain ⟨queue', live', hnext⟩ := h.toRequests.step hlaws hstep.driverStep
      cases hstep with
      | interrupt iir s s' houtput hrun =>
          obtain ⟨⟨d₂, s₂⟩, hserved, heq⟩ := of_bind_ok hrun
          rw [if_pos houtput] at hserved
          cases heq
          cases h.output hn hserved with
          | inl hmore =>
              exact ⟨queue, live, Or.inl ⟨hmore.1,
                hmore.2.congr (hmore.2.toRequests.outb _ _) rfl rfl (calls_outb d₂ _ _)⟩⟩
          | inr hlast =>
              refine ⟨queue', live', Or.inr ⟨hlast.1.ge, hnext, ?_⟩⟩
              rw [calls_outb, hlast.2]
  | inr hended =>
      obtain ⟨hn, h, hcalls⟩ := hended
      obtain ⟨queue', live', hnext⟩ := h.step hlaws hstep.driverStep
      exact ⟨queue', live', Or.inr ⟨by omega, hnext,
        hcalls.trans (calls_step h.openPort (@InterruptStep.driverStep σ F Owns _ _ _ hstep))⟩⟩

theorem WriteProgress.other (hlaws : HeapLaws F Owns) (h : WriteProgress Owns d₁ head len n d)
    (hstep : OtherStep F Owns d d') : WriteProgress Owns d₁ head len n d' := by
  obtain ⟨queue, live, hcases⟩ := h
  cases hcases with
  | inl hsending =>
      obtain ⟨queue', live', hnext⟩ := hsending.2.other hlaws hstep
      exact ⟨queue', live', Or.inl ⟨hsending.1, hnext⟩⟩
  | inr hended =>
      obtain ⟨hn, h, hcalls⟩ := hended
      obtain ⟨queue', live', hnext⟩ := h.step hlaws hstep.driverStep
      exact ⟨queue', live',
        Or.inr ⟨hn, hnext, hcalls.trans (calls_step h.openPort hstep.driverStep)⟩⟩

end WriteProgress

/-- A WRITE that an idle port starts takes as many output interrupts as it has bytes, and one if
it has none. Whatever is requested and whatever other interrupts come meanwhile, the port is
writing and unblocks nobody until then; then it unblocks the process of the oldest request. -/
theorem write_completes {d₀ d d₁ d₂ : Device Heap} {live : List U32} {proc buf len : U32} {n : Nat}
    (hfresh : FreshPort d₀) (hown : OwnsBlocks d₀.heap live)
    (hbefore : DriverRun studentHeap OwnsBlocks d₀ d) (hidle : d.port.operation = .idle)
    (hbuf : buf ≠ 0) (hwrite : ioScheduler studentHeap d proc COM1 buf len .write = .ok d₁)
    (hafter : Counted (OutputStep studentHeap) (OtherStep studentHeap OwnsBlocks) n d₁ d₂) :
    (n < interruptsOf len → d₂.port.operation = .write ∧ d₂.calls = d.calls) ∧
    (interruptsOf len ≤ n →
      d.calls ++ [.unblockPcb (d₁.iocbs d₁.port.ioHead).currProc, .freeMem d₁.port.ioHead] <+:
        d₂.calls) := by
  obtain ⟨queue, live', h⟩ := hfresh.requests studentHeap_laws hown hbefore
  obtain ⟨hsending, hcalls⟩ := h.startWrite studentHeap_laws hidle hbuf hwrite
  have hpos : 0 < interruptsOf len := Nat.lt_of_lt_of_le Nat.one_pos (Nat.le_max_left _ _)
  obtain ⟨queue₁, live₁, hstart⟩ := hsending
  obtain ⟨queue₂, live₂, hend⟩ :=
    Counted.invariant (WriteProgress OwnsBlocks d₁ d₁.port.ioHead len)
      (fun _ _ _ h hstep => h.output studentHeap_laws hstep)
      (fun _ _ _ h hstep => h.other studentHeap_laws hstep) hafter
      ⟨queue₁, live₁, Or.inl ⟨hpos, hstart⟩⟩
  rw [← hcalls]
  cases hend with
  | inl hgoing =>
      obtain ⟨hn, hsending⟩ := hgoing
      exact ⟨fun _ => ⟨hsending.operation, hsending.calls⟩, fun hle => absurd hn (by omega)⟩
  | inr hended =>
      obtain ⟨hn, -, hprefix⟩ := hended
      exact ⟨fun hlt => absurd hn (by omega), fun _ => hprefix⟩

def sendTwo : Except Fault (Device Heap × Device Heap × Device Heap) := do
  let d₁ ← ioScheduler studentHeap bootedPort 0x100 COM1 0x6000 2 .write
  let (d₂, s) ← serialInterrupt studentHeap 2 d₁ noQueues
  let (d₃, _) ← serialInterrupt studentHeap 2 d₂ s
  return (d₁, d₂, d₃)

theorem write_completes_two_bytes :
    ∃ d₁ d₂ d₃, ioScheduler studentHeap bootedPort 0x100 COM1 0x6000 2 .write = .ok d₁ ∧
      Counted (OutputStep studentHeap) (OtherStep studentHeap OwnsBlocks) 1 d₁ d₂ ∧
      d₂.port.operation = .write ∧
      Counted (OutputStep studentHeap) (OtherStep studentHeap OwnsBlocks) 2 d₁ d₃ ∧
      [.unblockPcb 0x100, .freeMem 0xd000004] <+: d₃.calls := by
  have hcompute : sendTwo.map (fun x => (x.1.port.ioHead, (x.1.iocbs x.1.port.ioHead).currProc)) =
      .ok (0xd000004, 0x100) := by decide +kernel
  obtain ⟨⟨d₁, d₂, d₃⟩, hsend, hvalues⟩ := of_map_ok hcompute
  obtain ⟨d₁', hwrite, hrest⟩ := of_bind_ok hsend
  obtain ⟨⟨d₂', s⟩, hfirst, hrest⟩ := of_bind_ok hrest
  obtain ⟨⟨d₃', s'⟩, hsecond, heq⟩ := of_bind_ok hrest
  cases heq
  have hone : Counted (OutputStep studentHeap) (OtherStep studentHeap OwnsBlocks) 1 d₁ d₂ :=
    .tick (.refl d₁) (.interrupt d₁ d₂ 2 noQueues s (by decide) hfirst)
  have htwo : Counted (OutputStep studentHeap) (OtherStep studentHeap OwnsBlocks) 2 d₁ d₃ :=
    .tick hone (.interrupt d₂ d₃ 2 s s' (by decide) hsecond)
  have hgoing := (write_completes bootedPort_fresh kernelHeap_owns Relation.ReflTransGen.refl rfl
    (by decide) hwrite hone).1 (by decide)
  have hended := (write_completes bootedPort_fresh kernelHeap_owns Relation.ReflTransGen.refl rfl
    (by decide) hwrite htwo).2 (by decide)
  have hhead : d₁.port.ioHead = 0xd000004 := congrArg Prod.fst hvalues
  have hproc : (d₁.iocbs d₁.port.ioHead).currProc = 0x100 := congrArg Prod.snd hvalues
  rw [hproc, hhead] at hended
  exact ⟨d₁, d₂, d₃, hwrite, hone, hgoing.1, htwo, hended⟩

end Mpx
