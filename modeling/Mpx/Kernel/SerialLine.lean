import Mpx.Kernel.Vectors
import Mpx.Serial.Interrupt

/-! The interrupt line of COM1 while the driver runs: every interrupt is ended, and no other line
is ever served. -/

namespace Mpx

open Memory Run Pic

variable {σ : Type}

section Driver

variable {F : HeapFunctions σ} {Owns : σ → List U32 → Prop} {d d' : Device σ} {s s' : Procs}
  {proc dev buf len : U32} {op : OpCode}

/-- The call has done something to the ports, and nothing to the controllers. -/
def Emits (d d' : Device σ) : Prop :=
  ∃ writes, d'.trace = d.trace ++ writes ∧ ∀ e ∈ writes, e.OffPics

theorem Emits.of_trace (htrace : d'.trace = d.trace) : Emits d d' := by
  refine ⟨[], ?_, fun e he => absurd he List.not_mem_nil⟩
  rw [htrace, List.append_nil]

theorem emits_writing (d : Device σ) (buf len : U32) : Emits d (d.writing buf len) := by
  refine ⟨_, rfl, fun e he => ?_⟩
  simp only [List.mem_cons, List.not_mem_nil, or_false] at he
  obtain rfl | rfl | rfl := he <;> exact offPics_outb _ (by decide)

theorem emits_sendNext (hopen : OpenPort d) : Emits d d.sendNext := by
  refine ⟨_, rfl, fun e he => ?_⟩
  rw [hopen.currDev] at he
  simp only [List.mem_cons, List.not_mem_nil, or_false] at he
  obtain rfl | rfl := he <;> exact offPics_outb _ (by decide)

theorem emits_completed (d : Device σ) (heap : σ) : Emits d (d.completed heap) := by
  refine ⟨_, rfl, fun e he => ?_⟩
  simp only [List.mem_cons, List.not_mem_nil, or_false] at he
  obtain rfl | rfl | rfl | rfl | rfl := he
  · exact offPics_outb _ (by decide)
  · exact fun port data h => nomatch h
  · exact fun port data h => nomatch h
  · exact offPics_outb _ (by decide)
  · exact offPics_outb _ (by decide)

theorem emits_input (d : Device σ) : Emits d (serialInputInterrupt d) := by
  rw [serialInputInterrupt]
  split
  · refine ⟨_, rfl, fun e he => ?_⟩
    obtain rfl := List.mem_singleton.mp he
    exact offPics_outb _ (by decide)
  · exact Emits.of_trace rfl

theorem emits_output (hopen : OpenPort d) (hrun : serialOutputInterrupt F d s = .ok (d', s')) :
    Emits d d' := by
  cases outputInterrupt_cases hopen hrun with
  | inl hspurious =>
      rw [hspurious.2]
      exact Emits.of_trace rfl
  | inr hserved =>
      cases hserved with
      | inl hmore =>
          rw [hmore.2]
          exact emits_sendNext hopen
      | inr hdone =>
          obtain ⟨-, heap, rfl⟩ := hdone
          exact emits_completed d heap

theorem emits_ioScheduler (hopen : OpenPort d) (hop : op = .read ∨ op = .write)
    (hrun : ioScheduler F d proc dev buf len op = .ok d') : Emits d d' := by
  cases ioScheduler_cases hrun with
  | inl hsame =>
      rw [hsame]
      exact Emits.of_trace rfl
  | inr hqueued =>
      obtain ⟨-, hbuf, heap, iocbs, ioHead, hstart⟩ := hqueued
      cases startIfIdle_cases (hopen.withQueue heap iocbs ioHead) hop hbuf hstart with
      | inl hbusy =>
          rw [hbusy]
          exact Emits.of_trace rfl
      | inr hstarted =>
          cases hstarted with
          | inl hwrite =>
              rw [hwrite.2.2]
              exact emits_writing (d.withQueue heap iocbs ioHead) buf len
          | inr hread =>
              obtain ⟨-, -, -, ring, mem, rfl⟩ := hread
              exact Emits.of_trace rfl

theorem trace_serialInterrupt {iir : U8} (hopen : OpenPort d)
    (hrun : serialInterrupt F iir d s = .ok (d', s')) :
    ∃ writes, d'.trace = d.trace ++ (writes ++ [.outb 0x20 0x20]) ∧
      ∀ e ∈ writes, e.OffPics := by
  obtain ⟨d₁, rfl, hserved⟩ := serialInterrupt_cases hrun
  have hemits : Emits d d₁ := by
    cases hserved with
    | inl houtput => exact emits_output hopen houtput
    | inr hother =>
        cases hother with
        | inl hinput => exact hinput.1 ▸ emits_input d
        | inr hnone => exact hnone.1 ▸ Emits.of_trace rfl
  obtain ⟨writes, htrace, hoff⟩ := hemits
  refine ⟨writes, ?_, hoff⟩
  rw [Device.outb, htrace, List.append_assoc]

end Driver

section Opened

variable {F : HeapFunctions σ} {s s' : Driver σ} {serialIsr : U32} {speed : Int}

theorem serialOpen_ok (hrun : serialOpen F serialIsr s COM1 speed = .ok (0, s')) :
    ∃ block heap,
      s' = programPort ((opening s block heap).idtInstall 0x24 serialIsr) COM1 speed := by
  obtain ⟨block, heap, halloc, hblock, -, -, -, hcode⟩ := serialOpen_returns hrun
  have hspeed : 0 ≤ speed := by
    by_contra hnegative
    rw [if_pos (Or.inr (not_le.mp hnegative))] at hcode
    exact absurd hcode (by decide)
  rw [serialOpen_accepted serialIsr halloc hblock hspeed] at hrun
  by_cases hzero : speed = 0
  · rw [if_pos hzero] at hrun
    cases hrun
  · rw [if_neg hzero] at hrun
    cases hrun
    exact ⟨block, heap, rfl⟩

theorem trace_serialOpen (hrun : serialOpen F serialIsr s COM1 speed = .ok (0, s')) :
    s'.trace = s.trace ++ openWrites (s.picMask &&& ~~~0x10) speed := by
  obtain ⟨block, heap, rfl⟩ := serialOpen_ok hrun
  simp only [programPort, Driver.outb, List.append_assoc, List.cons_append, List.nil_append]
  rfl

theorem enabled_serialOpen (hrun : serialOpen F serialIsr s COM1 speed = .ok (0, s')) :
    Enabled s'.device := by
  obtain ⟨block, heap, rfl⟩ := serialOpen_ok hrun
  have hport : (programPort ((opening s block heap).idtInstall 0x24 serialIsr) COM1
      speed).device.port = initDcb COM1 (s.dcbs block) := by
    simp only [Driver.device, programPort, serialPort_outb, dcbs_outb]
    exact Function.update_self _ _ _
  refine ⟨⟨?_, rfl, ?_, ?_⟩, ?_⟩
  · rw [hport]
    rfl
  · rw [hport]
    rfl
  · rw [hport]
    rfl
  · rw [hport]
    exact ier_programPort _ speed

end Opened

/-- The driver at work, with what the controllers see of it. An interrupt gets to
`serial_interrupt` through a gate that leads to `serial_isr`. -/
inductive LineStep (F : HeapFunctions σ) (Owns : σ → List U32 → Prop) (serialIsr : U32) :
    Device σ × Board → Device σ × Board → Prop
  | request (d d' : Device σ) (b : Board) (globalPcb dev buf len : U32) (operation : OpCode)
      (writes : List Effect) (hop : operation = .read ∨ operation = .write)
      (hrun : ioScheduler F d globalPcb dev buf len operation = .ok d')
      (htrace : d'.trace = d.trace ++ writes) :
      LineStep F Owns serialIsr (d, b) (d', runAll (writes.map Board.effect) b)
  | interrupt (d d' : Device σ) (b : Board) (irq : Nat) (iir : U8) (s s' : Procs)
      (writes : List Effect) (hirq : irq < 16) (henabled : b.enabled = true)
      (hpass : b.pics.Passes irq) (hgate : (b.idtEntries (b.pics.vector irq)).Serves serialIsr)
      (hrun : serialInterrupt F iir d s = .ok (d', s'))
      (htrace : d'.trace = d.trace ++ writes) :
      LineStep F Owns serialIsr (d, b)
        (d', runAll (writes.map Board.effect) { b with pics := b.pics.acknowledge irq })
  | work (d : Device σ) (b : Board) (mem : Mem) (heap : σ) (hheap : KeepsRequests Owns d heap) :
      LineStep F Owns serialIsr (d, b) ({ d with mem := mem, heap := heap }, b)

section Lines

variable {F : HeapFunctions σ} {Owns : σ → List U32 → Prop} {serialIsr : U32}
  {addr : Handler → U32} {x y : Device σ × Board}

theorem LineStep.driverStep (h : LineStep F Owns serialIsr x y) : DriverStep F Owns x.1 y.1 := by
  cases h with
  | request d d' b globalPcb dev buf len operation writes hop hrun htrace =>
      exact .request d d' globalPcb dev buf len operation hop hrun
  | interrupt d d' b irq iir s s' writes hirq henabled hpass hgate hrun htrace =>
      exact .interrupt d d' iir s s' hrun
  | work d b mem heap hheap => exact .work d mem heap hheap

/-- Every step gives the controllers back as they were: what is acknowledged is ended. -/
theorem Board.Served.step (h : x.2.Served addr) (hopen : OpenPort x.1)
    (hstep : LineStep F Owns (addr .serialIsr) x y) : y.2.Served addr := by
  cases hstep with
  | request d d' b globalPcb dev buf len operation writes hop hrun htrace =>
      obtain ⟨writes', htrace', hoff⟩ := emits_ioScheduler hopen hop hrun
      rw [htrace] at htrace'
      obtain rfl := List.append_cancel_left htrace'
      rw [runAll_effects hoff]
      exact h
  | interrupt d d' b irq iir s s' writes hirq henabled hpass hgate hrun htrace =>
      obtain ⟨writes', htrace', hoff⟩ := trace_serialInterrupt hopen hrun
      rw [htrace] at htrace'
      obtain rfl := List.append_cancel_left htrace'
      have hpics : b.pics = serialPics := h.pics
      rw [hpics] at hpass
      obtain rfl := (passes_serialPics irq hirq).mp hpass
      rw [List.map_append, runAll_append, runAll_effects hoff, hpics]
      exact ⟨⟨h.loaded, h.gates⟩, serialPics_serve, h.enabled, h.gate⟩
  | work d b mem heap hheap => exact h

end Lines

/-- Whatever the controllers and the table hold when `kmain` starts, no interrupt is taken that
does not lead from COM1 to `serial_isr`, neither at any statement up to the end of `serial_open`
nor later; and later the line of COM1 always goes through. -/
theorem only_serial_line {F : HeapFunctions σ} {Owns : σ → List U32 → Prop}
    {addr : Handler → U32} {b₀ : Board} {s s' : Driver σ} {speed : Int} {writes : List Effect}
    (hstart : b₀.enabled = false)
    (hmask : s.picMask = (runAll (bootStart addr) b₀).pics.master.mask)
    (hopen : serialOpen F (addr .serialIsr) s COM1 speed = .ok (0, s'))
    (htrace : s'.trace = s.trace ++ writes) :
    Always (Board.Safe addr) (bootStart addr ++ opens (addr .serialIsr) writes) b₀ ∧
    ∀ d b, Relation.ReflTransGen (LineStep F Owns (addr .serialIsr))
        (s'.device, runAll (bootStart addr ++ opens (addr .serialIsr) writes) b₀) (d, b) →
      b.Safe addr ∧ b.enabled = true ∧ b.pics.Passes 4 := by
  have hmasked : (runAll (bootStart addr) b₀).Masked addr := masked_bootStart b₀
  have hwrites : writes = openWrites 0xEF speed := by
    rw [trace_serialOpen hopen, hmask, hmasked.pics] at htrace
    exact (List.append_cancel_left htrace).symm
  obtain ⟨hopening, hserved⟩ := opens_served hmasked speed
  rw [← runAll_append] at hserved
  rw [hwrites]
  generalize runAll (bootStart addr ++ opens (addr .serialIsr) (openWrites 0xEF speed)) b₀ = b₁
    at hserved ⊢
  refine ⟨(safe_bootStart hstart).append hopening, fun d b hrun => ?_⟩
  have hkeep : ∀ x y : Device σ × Board, (Enabled x.1 ∧ x.2.Served addr) →
      LineStep F Owns (addr .serialIsr) x y → Enabled y.1 ∧ y.2.Served addr := by
    intro x y hx hstep
    exact ⟨hx.1.step hstep.driverStep, hx.2.step hx.1.openPort hstep⟩
  have hend := Run.invariant
    (fun x : Device σ × Board => Enabled x.1 ∧ x.2.Served addr) hkeep hrun
    ⟨enabled_serialOpen hopen, hserved⟩
  refine ⟨hend.2.safe, hend.2.enabled, ?_⟩
  rw [hend.2.pics]
  exact (passes_serialPics 4 (by decide)).mpr rfl

def handlerAddr (h : Handler) : U32 := 0x100000 + BitVec.ofNat 32 (16 * h.ctorIdx)

def startBoard : Board where
  idtEntries := fun _ => ⟨0xFFFF, 0xFFFF, 0xFF, 0xFF, 0xFFFF⟩
  idtLoaded := false
  pics := ⟨⟨.icw3, false, true, true, 0x08, 0, 0x10⟩, ⟨.ready, true, false, true, 0x70, 0, 0⟩⟩
  enabled := false
  initialized := fun _ => false

def openAndWrite : Except Fault (Int × Driver Heap × Device Heap × Device Heap) := do
  let (code, s') ←
    serialOpen studentHeap (handlerAddr .serialIsr) (bootDriver clearedDcb) COM1 19200
  let d₁ ← ioScheduler studentHeap s'.device 0x100 COM1 0x6000 2 .write
  let (d₂, _) ← serialInterrupt studentHeap 2 d₁ noQueues
  return (code, s', d₁, d₂)

theorem only_serial_line_one_write :
    ∃ (s' : Driver Heap) (writes : List Effect) (d₁ d₂ : Device Heap) (b : Board),
      openAndWrite = .ok (0, s', d₁, d₂) ∧ d₂.port.counter = 2 ∧
      Always (Board.Safe handlerAddr)
        (bootStart handlerAddr ++ opens (handlerAddr .serialIsr) writes) startBoard ∧
      Relation.ReflTransGen (LineStep studentHeap OwnsBlocks (handlerAddr .serialIsr))
        (s'.device,
          runAll (bootStart handlerAddr ++ opens (handlerAddr .serialIsr) writes) startBoard)
        (d₂, b) ∧
      b.Safe handlerAddr ∧ b.pics.Passes 4 := by
  have hcompute : openAndWrite.map (fun x => (x.1, x.2.2.2.port.counter)) = .ok (0, 2) := by
    decide +kernel
  obtain ⟨⟨code, s', d₁, d₂⟩, hrun, hvalues⟩ := of_map_ok hcompute
  obtain rfl : code = 0 := congrArg Prod.fst hvalues
  have hcounter : d₂.port.counter = 2 := congrArg Prod.snd hvalues
  obtain ⟨⟨code', s₁⟩, hopen, hrest⟩ := of_bind_ok hrun
  obtain ⟨d₁', hwrite, hrest⟩ := of_bind_ok hrest
  obtain ⟨⟨d₂', t⟩, hinterrupt, heq⟩ := of_bind_ok hrest
  cases heq
  have hmask : (bootDriver clearedDcb).picMask =
      (runAll (bootStart handlerAddr) startBoard).pics.master.mask := by
    have hmasked : (runAll (bootStart handlerAddr) startBoard).Masked handlerAddr :=
      masked_bootStart startBoard
    rw [hmasked.pics]
    rfl
  have hopened := enabled_serialOpen hopen
  have htrace := trace_serialOpen hopen
  obtain ⟨hboot, hlater⟩ := @only_serial_line Heap studentHeap OwnsBlocks handlerAddr startBoard _ _
    19200 _ rfl hmask hopen htrace
  generalize hwrites : openWrites ((bootDriver clearedDcb).picMask &&& ~~~0x10) 19200 = writes
    at hboot hlater
  generalize hb₀ : runAll (bootStart handlerAddr ++ opens (handlerAddr .serialIsr) writes)
    startBoard = b₀ at hlater
  obtain ⟨sent, hsent, -⟩ := emits_ioScheduler hopened.openPort (Or.inr rfl) hwrite
  have hfirst : LineStep studentHeap OwnsBlocks (handlerAddr .serialIsr) (s'.device, b₀)
      (d₁, runAll (sent.map Board.effect) b₀) :=
    .request s'.device d₁ b₀ 0x100 COM1 0x6000 2 .write sent (Or.inr rfl) hwrite hsent
  obtain ⟨hsafe, henabled, hpass⟩ := hlater _ _ (Relation.ReflTransGen.single hfirst)
  have hgate := (hsafe.line henabled 4 (by decide) hpass).2
  obtain ⟨served, hserved, -⟩ := trace_serialInterrupt
    (hopened.step hfirst.driverStep).openPort hinterrupt
  obtain ⟨b, hreached⟩ : ∃ b, Relation.ReflTransGen
      (LineStep studentHeap OwnsBlocks (handlerAddr .serialIsr)) (s'.device, b₀) (d₂, b) := by
    exact ⟨_, (Relation.ReflTransGen.single hfirst).tail (.interrupt d₁ d₂ _ 4 2 noQueues t _
      (by decide) henabled hpass hgate hinterrupt hserved)⟩
  obtain ⟨hsafe', -, hpass'⟩ := hlater d₂ b hreached
  subst hb₀
  exact ⟨s', writes, d₁, d₂, b, hrun, hcounter, hboot, hreached, hsafe', hpass'⟩

end Mpx
