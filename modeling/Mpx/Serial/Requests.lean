import Mpx.Process.Queue
import Mpx.Serial.Read

/-! What `io_scheduler` and the output interrupt do to the request queue. -/

namespace Mpx

open Memory PointerList Run

variable {σ : Type} {F : HeapFunctions σ}

def nextIocb (iocbs : U32 → Iocb) (p : U32) : U32 := (iocbs p).next

namespace Device

/-- The requests that wait or are in progress, oldest first. -/
def Queued (d : Device σ) (xs : List U32) : Prop := IsList 0 (nextIocb d.iocbs) d.port.ioHead xs

instance (d : Device σ) (xs : List U32) : Decidable (d.Queued xs) :=
  inferInstanceAs (Decidable (IsList _ _ _ _))

def withQueue (d : Device σ) (heap : σ) (iocbs : U32 → Iocb) (ioHead : U32) : Device σ :=
  { d with heap := heap, iocbs := iocbs, port := { d.port with ioHead := ioHead } }

end Device

theorem OpenPort.withQueue {d : Device σ} (h : OpenPort d) (heap : σ) (iocbs : U32 → Iocb)
    (ioHead : U32) : OpenPort (d.withQueue heap iocbs ioHead) :=
  h.congr rfl rfl rfl rfl

def SameRequests (iocbs iocbs' : U32 → Iocb) : Prop :=
  ∀ p, iocbs' p = { iocbs p with next := nextIocb iocbs' p }

theorem nextIocb_update (iocbs : U32 → Iocb) (p v : U32) :
    nextIocb (Function.update iocbs p { iocbs p with next := v }) =
      Function.update (nextIocb iocbs) p v := by
  funext x
  by_cases hx : x = p
  · subst hx
    simp [nextIocb]
  · simp [nextIocb, Function.update_of_ne hx]

theorem SameRequests.update {iocbs iocbs' : U32 → Iocb} (h : SameRequests iocbs iocbs')
    (p v : U32) : SameRequests iocbs (Function.update iocbs' p { iocbs' p with next := v }) := by
  intro x
  rw [nextIocb_update]
  by_cases hx : x = p
  · subst hx
    rw [Function.update_self, Function.update_self, h x]
  · rw [Function.update_of_ne hx, Function.update_of_ne hx]
    exact h x

theorem lastLoop_spec {d : Device σ} {z : U32} {ys : List U32}
    (hlist : IsList 0 (nextIocb d.iocbs) z (z :: ys)) {fuel : Nat} (hfuel : ys.length < fuel) :
    lastLoop d fuel z = .ok ((z :: ys).getLast (List.cons_ne_nil z ys)) := by
  induction ys generalizing z fuel with
  | nil =>
      obtain ⟨fuel, rfl⟩ := Nat.exists_eq_succ_of_ne_zero (Nat.ne_of_gt hfuel)
      have hnext : (d.iocbs z).next = 0 := next_of_isList_singleton hlist
      rw [lastLoop, hnext, if_neg (not_not.mpr rfl)]
      rfl
  | cons y ys ih =>
      obtain ⟨fuel, rfl⟩ := Nat.exists_eq_succ_of_ne_zero (Nat.ne_zero_of_lt hfuel)
      obtain ⟨hnext, hy, htail⟩ := next_of_isList_cons hlist
      have hnext' : (d.iocbs z).next = y := hnext
      rw [lastLoop, hnext', if_pos hy, ih htail (Nat.lt_of_succ_lt_succ hfuel),
        List.getLast_cons (List.cons_ne_nil y ys)]

theorem appendIocb_spec {d : Device σ} {xs : List U32} {temp : U32} (hlist : d.Queued xs)
    (htemp : temp ≠ 0) (hnew : temp ∉ xs) (hnext : nextIocb d.iocbs temp = 0) :
    ∃ iocbs ioHead, appendIocb d temp = .ok (d.withQueue d.heap iocbs ioHead) ∧
      (d.withQueue d.heap iocbs ioHead).Queued (xs ++ [temp]) ∧
      SameRequests d.iocbs iocbs := by
  cases xs with
  | nil =>
      refine ⟨d.iocbs, temp, if_pos hlist, ⟨rfl, htemp, hnext⟩, fun _ => rfl⟩
  | cons z ys =>
      obtain ⟨hz, hne, htail⟩ := hlist
      have hself : IsList 0 (nextIocb d.iocbs) z (z :: ys) := ⟨rfl, hne, htail⟩
      have hrun := lastLoop_spec hself (isList_length_lt htail)
      generalize hlast : (z :: ys).getLast (List.cons_ne_nil z ys) = last at hrun
      have happend := hself.append (List.cons_ne_nil z ys) htemp hnew hnext
      rw [hlast] at happend
      have hlt : temp ≠ last := by
        rintro rfl
        exact hnew (hlast ▸ List.getLast_mem _)
      generalize hiocbs : Function.update d.iocbs last { d.iocbs last with next := temp } = iocbs₁
      have hnext₁ : nextIocb iocbs₁ = Function.update (nextIocb d.iocbs) last temp := by
        rw [← hiocbs, nextIocb_update]
      refine ⟨Function.update iocbs₁ temp { iocbs₁ temp with next := 0 }, z, ?_, ?_, ?_⟩
      · have hhead : ¬ d.port.ioHead = 0 := by rwa [hz]
        rw [appendIocb, if_neg hhead, hz, queueFuel, hrun, ← hiocbs, Device.withQueue, ← hz]
        rfl
      · rw [Device.Queued, Device.withQueue]
        simp only
        rw [nextIocb_update, hnext₁, List.cons_append]
        apply happend.congr
        intro x hx
        by_cases hxt : x = temp
        · rw [hxt, Function.update_self, Function.update_of_ne hlt, hnext]
        · rw [Function.update_of_ne hxt]
      · apply SameRequests.update
        rw [← hiocbs]
        exact SameRequests.update (fun _ => rfl) last temp

theorem ioScheduler_append {d : Device σ} {xs : List U32} {temp proc buf len : U32}
    {heap : σ} (op : OpCode) (hlist : d.Queued xs) (hbuf : buf ≠ 0)
    (halloc : sysAllocMem F d.heap iocbSize = .ok (temp, heap)) (htemp : temp ≠ 0)
    (hnew : temp ∉ xs) :
    ∃ iocbs ioHead, (d.withQueue heap iocbs ioHead).Queued (xs ++ [temp]) ∧
      SameRequests (Function.update d.iocbs temp ⟨proc, COM1, op, buf, len.toInt, 0⟩) iocbs ∧
      ioScheduler F d proc COM1 buf len op =
        startIfIdle (d.withQueue heap iocbs ioHead) COM1 buf len op := by
  let d₁ : Device σ :=
    ({ d with heap := heap }).modifyIocb temp fun _ => ⟨proc, COM1, op, buf, len.toInt, 0⟩
  have hlist₁ : d₁.Queued xs := by
    apply hlist.congr
    intro x hx
    have hne : x ≠ temp := ne_of_mem_of_not_mem hx hnew
    simp only [nextIocb, d₁, Device.modifyIocb, Function.update_of_ne hne]
  have hnext₁ : nextIocb d₁.iocbs temp = 0 := by
    simp only [nextIocb, d₁, Device.modifyIocb, Function.update_self]
  obtain ⟨iocbs, ioHead, hrun, hlist', hsame⟩ := appendIocb_spec hlist₁ htemp hnew hnext₁
  refine ⟨iocbs, ioHead, hlist', hsame, ?_⟩
  have hcond : ¬ (COM1 ≠ COM1 ∨ buf = 0) := not_or.mpr ⟨not_not.mpr rfl, hbuf⟩
  rw [ioScheduler, if_neg hcond, halloc]
  simp only [bind, Except.bind, if_neg htemp]
  rw [show ({ d with heap := heap } : Device σ).modifyIocb temp
    (fun _ => ⟨proc, COM1, op, buf, len.toInt, 0⟩) = d₁ from rfl, hrun]
  rfl

theorem ioScheduler_refused {d : Device σ} {dev buf : U32} (proc len : U32) (op : OpCode)
    (h : dev ≠ COM1 ∨ buf = 0) : ioScheduler F d proc dev buf len op = .ok d := if_pos h

theorem ioScheduler_alloc {d d' : Device σ} {proc buf len : U32} {op : OpCode}
    (hbuf : buf ≠ 0) (hrun : ioScheduler F d proc COM1 buf len op = .ok d') :
    ∃ temp heap, sysAllocMem F d.heap iocbSize = .ok (temp, heap) ∧ temp ≠ 0 := by
  have hcond : ¬ (COM1 ≠ COM1 ∨ buf = 0) := not_or.mpr ⟨not_not.mpr rfl, hbuf⟩
  rw [ioScheduler, if_neg hcond] at hrun
  obtain ⟨⟨temp, heap⟩, halloc, hrest⟩ := of_bind_ok hrun
  refine ⟨temp, heap, halloc, ?_⟩
  rintro rfl
  simp only [if_true] at hrest
  cases hrest

theorem startIfIdle_busy {d : Device σ} (dev buf len : U32) (op : OpCode)
    (hbusy : d.port.operation ≠ .idle) : startIfIdle d dev buf len op = .ok d := if_neg hbusy

def Device.writing (d : Device σ) (buf len : U32) : Device σ :=
  { d with
    port := { d.port with operation := .write, eventFlag := 1, counter := 1, count := len.toInt }
    ier := d.ier ||| 0x02
    trace := d.trace ++ [.outb (COM1 + IER) 0, .outb (COM1 + IER) (d.ier ||| 0x02),
      .outb COM1 (d.mem.byte buf)] }

theorem startIfIdle_write {d : Device σ} {buf : U32} (len : U32) (hopen : OpenPort d)
    (hidle : d.port.operation = .idle) (hbuf : buf ≠ 0) :
    startIfIdle d COM1 buf len .write = .ok (d.writing buf len) := by
  have hinitialized : ¬ d.initialized = false := by
    rw [hopen.initialized]
    decide
  have hier : COM1 ≠ COM1 + IER := by decide
  rw [startIfIdle, if_pos hidle]
  simp only [serialWrite, if_neg hopen.available, if_neg hbuf, if_neg hinitialized, if_pos hidle,
    Device.outb, Device.writing, if_true, if_neg hier, List.append_assoc, List.cons_append,
    List.nil_append, Int.zero_add]

theorem startIfIdle_read {d : Device σ} {buf len : U32} (hopen : OpenPort d)
    (hidle : d.port.operation = .idle) (hbuf : buf ≠ 0) (hlen : len ≠ 0) :
    ∃ (ring : Vector U8 16) (mem : Mem), startIfIdle d COM1 buf len .read = .ok { d with
      port := { d.port with
        ringBuffer := ring
        operation := if ReadSatisfied d.port.ringBuffer len then .idle else .read
        eventFlag := if ReadSatisfied d.port.ringBuffer len then 1 else 0 }
      mem := mem } := by
  obtain ⟨ring, mem, hrun⟩ := serialRead_spec hopen hidle hbuf hlen
  refine ⟨ring, mem, ?_⟩
  rw [startIfIdle, if_pos hidle]
  simp only [hrun, bind, Except.bind, pure, Except.pure]

theorem startIfIdle_read_nothing {d : Device σ} {buf : U32} (hopen : OpenPort d)
    (hidle : d.port.operation = .idle) (hbuf : buf ≠ 0) :
    startIfIdle d COM1 buf 0 .read = .ok d := by
  rw [startIfIdle, if_pos hidle]
  simp only [serialRead, if_neg hopen.available, if_neg hbuf, if_true, bind, Except.bind, pure,
    Except.pure]

/-- The next byte of the transfer, behind the 0x02 that each interrupt writes first. -/
def Device.sendNext (d : Device σ) : Device σ :=
  { d with
    port := { d.port with counter := d.port.counter + 1 }
    trace := d.trace ++ [.outb COM1 0x02, .outb (d.port.currDev + THR)
      (d.mem.byte ((d.iocbs d.port.ioHead).buffer + BitVec.ofInt 32 d.port.counter))] }

/-- The end of the transfer: the head leaves the queue, and no other request starts. -/
def Device.completed (d : Device σ) (heap : σ) : Device σ :=
  { d with
    port := { d.port with
      status := .available, eventFlag := 0, operation := .idle
      ioHead := nextIocb d.iocbs d.port.ioHead }
    heap := heap
    ier := d.ier &&& ~~~0x02
    trace := d.trace ++ [.outb COM1 0x02, .unblockPcb (d.iocbs d.port.ioHead).currProc,
      .freeMem d.port.ioHead, .outb (COM1 + IER) 0, .outb (COM1 + IER) (d.ier &&& ~~~0x02)] }

def Device.More (d : Device σ) : Prop := d.port.eventFlag = 1 ∧ d.port.counter < d.port.count

instance (d : Device σ) : Decidable d.More := inferInstanceAs (Decidable (_ ∧ _))

theorem serialOutputInterrupt_spurious {d : Device σ} (s : Procs)
    (hop : d.port.operation ≠ .write) : serialOutputInterrupt F d s = .ok (d, s) := if_pos hop

theorem serialOutputInterrupt_more {d : Device σ} (s : Procs) (hdev : d.port.currDev = COM1)
    (hop : d.port.operation = .write) (hhead : d.port.ioHead ≠ 0) (hmore : d.More) :
    serialOutputInterrupt F d s = .ok (d.sendNext, s) := by
  have hier : COM1 ≠ COM1 + IER := by decide
  have hthr : COM1 + THR ≠ COM1 + IER := by decide
  have hmore' : d.port.eventFlag = 1 ∧ d.port.counter < d.port.count := hmore
  rw [serialOutputInterrupt, if_neg (not_not.mpr hop)]
  simp only [Device.outb, if_neg hhead, if_pos hmore', Device.sendNext, hdev, if_neg hier,
    if_neg hthr, List.append_assoc, List.cons_append, List.nil_append]

theorem serialOutputInterrupt_done {d : Device σ} (s : Procs)
    (hop : d.port.operation = .write) (hhead : d.port.ioHead ≠ 0) (hdone : ¬ d.More) :
    serialOutputInterrupt F d s = (do
      let s' ← unblockPcb s (d.iocbs d.port.ioHead).currProc
      let (_, heap) ← sysFreeMem F d.heap d.port.ioHead
      return (d.completed heap, s')) := by
  have hier : COM1 ≠ COM1 + IER := by decide
  have hdone' : ¬ (d.port.eventFlag = 1 ∧ d.port.counter < d.port.count) := hdone
  rw [serialOutputInterrupt, if_neg (not_not.mpr hop)]
  simp only [Device.outb, if_neg hhead, if_neg hdone', Device.completed, if_neg hier, if_true,
    List.append_assoc, List.cons_append, List.nil_append]
  rfl

end Mpx
