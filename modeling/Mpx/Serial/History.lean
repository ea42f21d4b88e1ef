import Mpx.Base.Run
import Mpx.Serial.Requests

/-! Runs of the port: requests of any processes and output interrupts in any order, with
the requests that were accepted and the bytes sent for the transfer in progress. -/

namespace Mpx

open Memory PointerList Run

variable {σ : Type} {F : HeapFunctions σ} {Owns : σ → List U32 → Prop}

def Effect.wire? : Effect → Option U8
  | .outb port data => if port = COM1 + THR then some data else none
  | _ => none

def Effect.isCall : Effect → Bool
  | .outb _ _ => false
  | _ => true

def Device.wire (d : Device σ) : List U8 := d.trace.filterMap Effect.wire?

def Device.calls (d : Device σ) : List Effect := d.trace.filter Effect.isCall

/-- What `serial_open` leaves behind, with an empty request queue. -/
structure FreshPort (d : Device σ) : Prop where
  openPort : OpenPort d
  idle : d.port.operation = .idle
  empty : d.port.ioHead = 0
  trace : d.trace = []

structure PortState (σ : Type) where
  device : Device σ
  /-- The requests that `io_scheduler` has queued, with their blocks, oldest first. -/
  accepted : List (U32 × Iocb)
  /-- The bytes of the buffer that the transfer in progress has sent. -/
  sent : List U8

def PortState.start (d : Device σ) : PortState σ := ⟨d, [], []⟩

inductive PortEvent
  | submit (globalPcb dev buf len : U32) (operation : OpCode)
  | outputInterrupt (s : Procs)

def acceptedBy (F : HeapFunctions σ) (d : Device σ) (request : Iocb) : List (U32 × Iocb) :=
  if request.device ≠ COM1 ∨ request.buffer = 0 then []
  else
    match sysAllocMem F d.heap iocbSize with
    | .ok (temp, _) => [(temp, request)]
    | .error _ => []

/-- A byte belongs to the transfer when it is the last that a call has put on the wire
and the call has not ended the transfer. -/
def PortState.step (F : HeapFunctions σ) (st : PortState σ) :
    PortEvent → Except Fault (PortState σ)
  | .submit globalPcb dev buf len operation => do
      let d ← ioScheduler F st.device globalPcb dev buf len operation
      let accepted := acceptedBy F st.device ⟨globalPcb, dev, operation, buf, len.toInt, 0⟩
      let sent := if st.device.port.operation = .idle ∧ d.port.operation = .write
        then d.wire.getLast?.toList else st.sent
      return ⟨d, st.accepted ++ accepted, sent⟩
  | .outputInterrupt s => do
      let (d, _) ← serialOutputInterrupt F st.device s
      let sent := if d.port.operation = .write
        then st.sent ++ d.wire.getLast?.toList else st.sent
      return ⟨d, st.accepted, sent⟩

def PortStep (F : HeapFunctions σ) (Allowed : PortState σ → PortEvent → Prop)
    (st st' : PortState σ) : Prop :=
  ∃ e, Allowed st e ∧ st.step F e = .ok st'

def PortRun (F : HeapFunctions σ) (Allowed : PortState σ → PortEvent → Prop) :
    PortState σ → PortState σ → Prop :=
  Relation.ReflTransGen (PortStep F Allowed)

def AnyRequest (_ : PortState σ) : PortEvent → Prop
  | .submit _ _ _ _ operation => operation = .read ∨ operation = .write
  | .outputInterrupt _ => True

theorem wire_writing (d : Device σ) (buf len : U32) :
    (d.writing buf len).wire = d.wire ++ [d.mem.byte buf] := by
  simp only [Device.wire, Device.writing, List.filterMap_append]
  rfl

theorem wire_sendNext {d : Device σ} (hdev : d.port.currDev = COM1) :
    d.sendNext.wire = d.wire ++ [0x02,
      d.mem.byte ((d.iocbs d.port.ioHead).buffer + BitVec.ofInt 32 d.port.counter)] := by
  simp only [Device.wire, Device.sendNext, hdev, List.filterMap_append]
  rfl

theorem wire_completed (d : Device σ) (heap : σ) :
    (d.completed heap).wire = d.wire ++ [0x02] := by
  simp only [Device.wire, Device.completed, List.filterMap_append]
  rfl

theorem calls_writing (d : Device σ) (buf len : U32) : (d.writing buf len).calls = d.calls := by
  simp only [Device.calls, Device.writing, List.filter_append]
  exact List.append_nil _

theorem calls_sendNext (d : Device σ) : d.sendNext.calls = d.calls := by
  simp only [Device.calls, Device.sendNext, List.filter_append]
  exact List.append_nil _

theorem calls_completed (d : Device σ) (heap : σ) :
    (d.completed heap).calls = d.calls ++
      [.unblockPcb (d.iocbs d.port.ioHead).currProc, .freeMem d.port.ioHead] := by
  simp only [Device.calls, Device.completed, List.filter_append]
  rfl

structure SameQueue (d d' : Device σ) : Prop where
  iocbs : d'.iocbs = d.iocbs
  heap : d'.heap = d.heap
  ioHead : d'.port.ioHead = d.port.ioHead
  calls : d'.calls = d.calls
  openPort : OpenPort d'

theorem startIfIdle_sameQueue {d : Device σ} {buf len : U32} {op : OpCode} (hopen : OpenPort d)
    (hop : op = .read ∨ op = .write) (hbuf : buf ≠ 0) :
    ∃ d', startIfIdle d COM1 buf len op = .ok d' ∧ SameQueue d d' := by
  by_cases hidle : d.port.operation = .idle
  · rcases hop with rfl | rfl
    · by_cases hlen : len = 0
      · subst hlen
        exact ⟨d, startIfIdle_read_nothing hopen hidle hbuf, rfl, rfl, rfl, rfl, hopen⟩
      · obtain ⟨ring, mem, hrun⟩ := startIfIdle_read hopen hidle hbuf hlen
        exact ⟨_, hrun, rfl, rfl, rfl, rfl, hopen.congr rfl rfl rfl rfl⟩
    · exact ⟨_, startIfIdle_write len hopen hidle hbuf, rfl, rfl, rfl, calls_writing _ _ _,
        hopen.congr rfl rfl rfl rfl⟩
  · exact ⟨d, startIfIdle_busy _ _ _ _ hidle, rfl, rfl, rfl, rfl, hopen⟩

/-- The queue is what is left of the accepted requests once `k` have been completed. -/
structure PortInv (Owns : σ → List U32 → Prop) (st : PortState σ) (k : Nat)
    (live : List U32) : Prop where
  openPort : OpenPort st.device
  bound : k ≤ st.accepted.length
  queued : st.device.Queued ((st.accepted.drop k).map Prod.fst)
  contents : ∀ p r, (p, r) ∈ st.accepted.drop k → ∃ v, st.device.iocbs p = { r with next := v }
  calls : st.device.calls = (st.accepted.take k).flatMap fun x =>
    [.unblockPcb x.2.currProc, .freeMem x.1]
  busy : st.device.port.operation ≠ .idle → k < st.accepted.length
  owns : Owns st.device.heap live
  live : ∀ p ∈ (st.accepted.drop k).map Prod.fst, p ∈ live

theorem portInv_start {d : Device σ} {live : List U32} (hfresh : FreshPort d)
    (hown : Owns d.heap live) : PortInv Owns (PortState.start d) 0 live where
  openPort := hfresh.openPort
  bound := Nat.le_refl 0
  queued := hfresh.empty
  contents := by simp [PortState.start]
  calls := by simp [PortState.start, Device.calls, hfresh.trace]
  busy := fun hbusy => absurd hfresh.idle hbusy
  owns := hown
  live := by simp [PortState.start]

inductive Outcome (Owns : σ → List U32 → Prop) (st : PortState σ) (xs live : List U32) :
    PortEvent → PortState σ → Prop
  | refused (proc dev buf len : U32) (op : OpCode) (h : dev ≠ COM1 ∨ buf = 0) :
      Outcome Owns st xs live (.submit proc dev buf len op) st
  | accepted (proc buf len : U32) (op : OpCode) (temp ioHead : U32) (heap : σ)
      (iocbs : U32 → Iocb) (d' : Device σ) (hbuf : buf ≠ 0) (hnew : temp ∉ live)
      (hown : Owns heap (temp :: live))
      (hqueue : (st.device.withQueue heap iocbs ioHead).Queued (xs ++ [temp]))
      (hsame : SameRequests
        (Function.update st.device.iocbs temp ⟨proc, COM1, op, buf, len.toInt, 0⟩) iocbs)
      (hstart : startIfIdle (st.device.withQueue heap iocbs ioHead) COM1 buf len op = .ok d') :
      Outcome Owns st xs live (.submit proc COM1 buf len op)
        ⟨d', st.accepted ++ [(temp, ⟨proc, COM1, op, buf, len.toInt, 0⟩)],
          if st.device.port.operation = .idle ∧ d'.port.operation = .write
          then d'.wire.getLast?.toList else st.sent⟩
  | spurious (s : Procs) (hop : st.device.port.operation ≠ .write) :
      Outcome Owns st xs live (.outputInterrupt s) st
  | more (s : Procs) (hop : st.device.port.operation = .write) (hmore : st.device.More) :
      Outcome Owns st xs live (.outputInterrupt s)
        ⟨st.device.sendNext, st.accepted, st.sent ++ st.device.sendNext.wire.getLast?.toList⟩
  | done (s : Procs) (hop : st.device.port.operation = .write) (hdone : ¬ st.device.More)
      (heap : σ) (hown : Owns heap (live.erase st.device.port.ioHead)) :
      Outcome Owns st xs live (.outputInterrupt s)
        ⟨st.device.completed heap, st.accepted, st.sent⟩

/-- While the port is busy the queue has a head, the oldest request not completed. -/
theorem PortInv.head {st : PortState σ} {k : Nat} {live : List U32}
    (h : PortInv Owns st k live) (hbusy : st.device.port.operation ≠ .idle) :
    ∃ r rest, st.accepted.drop k = (st.device.port.ioHead, r) :: rest ∧
      st.device.port.ioHead ≠ 0 ∧ ∃ v, st.device.iocbs st.device.port.ioHead = { r with next := v } := by
  have hqueue := h.queued
  cases hdrop : st.accepted.drop k with
  | nil =>
      have hle := List.drop_eq_nil_iff.mp hdrop
      exact absurd (h.busy hbusy) (not_lt.mpr hle)
  | cons x rest =>
      obtain ⟨p, r⟩ := x
      rw [hdrop] at hqueue
      obtain ⟨hp, hne, -⟩ := hqueue
      rw [hp]
      exact ⟨r, rest, rfl, hne, h.contents p r (by rw [hdrop]; exact List.mem_cons_self)⟩

theorem PortInv.head_live {st : PortState σ} {k : Nat} {live : List U32}
    (h : PortInv Owns st k live) (hbusy : st.device.port.operation ≠ .idle) :
    st.device.port.ioHead ∈ live := by
  obtain ⟨r, rest, hdrop, -⟩ := h.head hbusy
  apply h.live
  rw [hdrop]
  exact List.mem_cons_self

theorem submit_outcome {st st' : PortState σ} {k : Nat} {live : List U32} {proc dev buf len : U32}
    {op : OpCode} (hlaws : HeapLaws F Owns) (h : PortInv Owns st k live)
    (hrun : st.step F (.submit proc dev buf len op) = .ok st') :
    Outcome Owns st ((st.accepted.drop k).map Prod.fst) live (.submit proc dev buf len op) st' := by
  by_cases hrefused : dev ≠ COM1 ∨ buf = 0
  · have haccepted : acceptedBy F st.device ⟨proc, dev, op, buf, len.toInt, 0⟩ = [] :=
      if_pos hrefused
    have hsent : ¬ (st.device.port.operation = .idle ∧ st.device.port.operation = .write) := by
      rintro ⟨hidle, hwrite⟩
      rw [hidle] at hwrite
      cases hwrite
    rw [PortState.step, ioScheduler_refused proc len op hrefused, haccepted] at hrun
    simp only [bind, Except.bind, pure, Except.pure, List.append_nil, if_neg hsent] at hrun
    cases hrun
    exact .refused proc dev buf len op hrefused
  · obtain ⟨hdev, hbuf⟩ := not_or.mp hrefused
    obtain rfl := not_not.mp hdev
    rw [PortState.step] at hrun
    obtain ⟨d', hsched, hst⟩ := of_bind_ok hrun
    obtain ⟨temp, heap, halloc, htemp⟩ := ioScheduler_alloc hbuf hsched
    obtain ⟨hnew, hown⟩ := hlaws.malloc_fresh h.owns halloc htemp
    obtain ⟨iocbs, ioHead, hqueue, hsame, heq⟩ :=
      @ioScheduler_append σ F _ _ _ proc buf len _ op h.queued hbuf halloc htemp
        (fun hmem => hnew (h.live temp hmem))
    have haccepted : acceptedBy F st.device ⟨proc, COM1, op, buf, len.toInt, 0⟩ =
        [(temp, ⟨proc, COM1, op, buf, len.toInt, 0⟩)] := by
      rw [acceptedBy, if_neg hrefused, halloc]
    simp only [haccepted] at hst
    cases hst
    exact .accepted proc buf len op temp ioHead heap iocbs d' hbuf hnew hown hqueue hsame
      (heq.symm.trans hsched)

theorem outputInterrupt_outcome {st st' : PortState σ} {k : Nat} {live : List U32} {s : Procs}
    (hlaws : HeapLaws F Owns) (h : PortInv Owns st k live)
    (hrun : st.step F (.outputInterrupt s) = .ok st') :
    Outcome Owns st ((st.accepted.drop k).map Prod.fst) live (.outputInterrupt s) st' := by
  rw [PortState.step] at hrun
  obtain ⟨⟨d', s'⟩, hint, hst⟩ := of_bind_ok hrun
  by_cases hop : st.device.port.operation = .write
  · have hbusy : st.device.port.operation ≠ .idle := by
      rw [hop]
      decide
    obtain ⟨-, -, -, hhead, -⟩ := h.head hbusy
    by_cases hmore : st.device.More
    · rw [serialOutputInterrupt_more s h.openPort.currDev hop hhead hmore] at hint
      cases hint
      have hwrite : st.device.sendNext.port.operation = .write := hop
      simp only [if_pos hwrite] at hst
      cases hst
      exact .more s hop hmore
    · rw [serialOutputInterrupt_done s hop hhead hmore] at hint
      obtain ⟨s₁, -, hint⟩ := of_bind_ok hint
      obtain ⟨⟨r', heap⟩, hfree, hint⟩ := of_bind_ok hint
      cases hint
      obtain ⟨r₁, heap₁, hfree₁, hown⟩ := hlaws.free_live h.owns (h.head_live hbusy)
      rw [sysFreeMem, hfree₁] at hfree
      cases hfree
      cases hst
      exact .done s hop hmore heap hown
  · rw [serialOutputInterrupt_spurious s hop] at hint
    cases hint
    simp only [if_neg hop] at hst
    cases hst
    exact .spurious s hop

theorem step_outcome {st st' : PortState σ} {e : PortEvent} {k : Nat} {live : List U32}
    (hlaws : HeapLaws F Owns) (h : PortInv Owns st k live) (hrun : st.step F e = .ok st') :
    Outcome Owns st ((st.accepted.drop k).map Prod.fst) live e st' := by
  cases e with
  | submit proc dev buf len op => exact submit_outcome hlaws h hrun
  | outputInterrupt s => exact outputInterrupt_outcome hlaws h hrun

theorem portInv_accepted {st : PortState σ} {k : Nat} {live : List U32} {temp ioHead : U32}
    {r : Iocb} {heap : σ} {iocbs : U32 → Iocb} {d' : Device σ} (sent : List U8)
    (h : PortInv Owns st k live) (hnew : temp ∉ live) (hown : Owns heap (temp :: live))
    (hqueue : (st.device.withQueue heap iocbs ioHead).Queued
      ((st.accepted.drop k).map Prod.fst ++ [temp]))
    (hsame : SameRequests (Function.update st.device.iocbs temp r) iocbs)
    (hstart : SameQueue (st.device.withQueue heap iocbs ioHead) d') :
    PortInv Owns ⟨d', st.accepted ++ [(temp, r)], sent⟩ k (temp :: live) := by
  have hdrop : (st.accepted ++ [(temp, r)]).drop k = st.accepted.drop k ++ [(temp, r)] :=
    List.drop_append_of_le_length h.bound
  have hbound := h.bound
  refine ⟨hstart.openPort, ?_, ?_, ?_, ?_, ?_, ?_, ?_⟩
  · simp only [List.length_append]
    omega
  · rw [Device.Queued, hstart.iocbs, hstart.ioHead]
    simp only [hdrop, List.map_append, List.map_cons, List.map_nil]
    exact hqueue
  · intro p q hmem
    simp only [hdrop, List.mem_append, List.mem_singleton, Prod.mk.injEq] at hmem
    rw [hstart.iocbs]
    rcases hmem with hold | ⟨rfl, rfl⟩
    · have hne : p ≠ temp := by
        rintro rfl
        exact hnew (h.live p (List.mem_map.mpr ⟨(p, q), hold, rfl⟩))
      obtain ⟨v, hv⟩ := h.contents p q hold
      refine ⟨nextIocb iocbs p, (hsame p).trans ?_⟩
      rw [Function.update_of_ne hne, hv]
    · refine ⟨nextIocb iocbs p, (hsame p).trans ?_⟩
      rw [Function.update_self]
  · rw [hstart.calls]
    simp only [List.take_append_of_le_length h.bound]
    exact h.calls
  · intro _
    simp only [List.length_append, List.length_singleton]
    omega
  · rw [hstart.heap]
    exact hown
  · intro p hmem
    simp only [hdrop, List.map_append, List.mem_append, List.map_cons, List.map_nil,
      List.mem_singleton] at hmem
    rcases hmem with hold | rfl
    · exact List.mem_cons_of_mem _ (h.live p hold)
    · exact List.mem_cons_self

theorem portInv_more {st : PortState σ} {k : Nat} {live : List U32} (sent : List U8)
    (h : PortInv Owns st k live) (hop : st.device.port.operation = .write) :
    PortInv Owns ⟨st.device.sendNext, st.accepted, sent⟩ k live where
  openPort := h.openPort.congr rfl rfl rfl rfl
  bound := h.bound
  queued := h.queued
  contents := h.contents
  calls := (calls_sendNext _).trans h.calls
  busy := fun _ => h.busy (by rw [hop]; decide)
  owns := h.owns
  live := h.live

theorem portInv_done {st : PortState σ} {k : Nat} {live : List U32} {heap : σ}
    (h : PortInv Owns st k live) (hop : st.device.port.operation = .write)
    (hown : Owns heap (live.erase st.device.port.ioHead)) :
    PortInv Owns ⟨st.device.completed heap, st.accepted, st.sent⟩ (k + 1)
      (live.erase st.device.port.ioHead) := by
  have hbusy : st.device.port.operation ≠ .idle := by
    rw [hop]
    decide
  obtain ⟨r, rest, hdrop, hne, v, hcontents⟩ := h.head hbusy
  have hrest : st.accepted.drop (k + 1) = rest := by
    rw [← List.drop_drop, hdrop]
    rfl
  have hqueue := h.queued
  rw [hdrop] at hqueue
  have hnodup := hqueue.nodup
  refine ⟨⟨rfl, h.openPort.initialized, h.openPort.currDev, h.openPort.ringHead⟩,
    h.busy hbusy, ?_, ?_, ?_, fun hidle => absurd rfl hidle, hown, ?_⟩
  · rw [hrest]
    exact hqueue.2.2
  · intro p q hmem
    rw [hrest] at hmem
    exact h.contents p q (by rw [hdrop]; exact List.mem_cons_of_mem _ hmem)
  · have htake : st.accepted.take (k + 1) = st.accepted.take k ++ [(st.device.port.ioHead, r)] := by
      rw [List.take_succ_eq_append_getElem (h.busy hbusy)]
      rw [List.drop_eq_getElem_cons (h.busy hbusy)] at hdrop
      rw [(List.cons.inj hdrop).1]
    calc (st.device.completed heap).calls
        = st.device.calls ++ [.unblockPcb r.currProc, .freeMem st.device.port.ioHead] := by
          rw [calls_completed, hcontents]
      _ = (st.accepted.take k ++ [(st.device.port.ioHead, r)]).flatMap
            (fun x => [.unblockPcb x.2.currProc, .freeMem x.1]) := by
          rw [h.calls, List.flatMap_append]
          rfl
      _ = (st.accepted.take (k + 1)).flatMap
            (fun x => [.unblockPcb x.2.currProc, .freeMem x.1]) := by rw [htake]
  · intro p hmem
    rw [hrest] at hmem
    refine (List.mem_erase_of_ne ?_).mpr (h.live p ?_)
    · rintro rfl
      exact (List.nodup_cons.mp hnodup).1 hmem
    · rw [hdrop]
      exact List.mem_cons_of_mem _ hmem

theorem portInv_step {st st' : PortState σ} {e : PortEvent} {k : Nat} {live : List U32}
    (hlaws : HeapLaws F Owns) (h : PortInv Owns st k live) (he : AnyRequest st e)
    (hrun : st.step F e = .ok st') : ∃ k' live', PortInv Owns st' k' live' := by
  cases step_outcome hlaws h hrun with
  | refused => exact ⟨k, live, h⟩
  | accepted proc buf len op temp ioHead heap iocbs d' hbuf hnew hown hqueue hsame hstart =>
      obtain ⟨d₁, hstart₁, hkeeps⟩ :=
        @startIfIdle_sameQueue σ _ buf len op (h.openPort.withQueue heap iocbs ioHead) he hbuf
      rw [hstart₁] at hstart
      cases hstart
      exact ⟨k, temp :: live, portInv_accepted _ h hnew hown hqueue hsame hkeeps⟩
  | spurious => exact ⟨k, live, h⟩
  | more s hop => exact ⟨k, live, portInv_more _ h hop⟩
  | done s hop hdone heap hown => exact ⟨k + 1, _, portInv_done h hop hown⟩

theorem portInv_run {d : Device σ} {st : PortState σ} {live : List U32}
    {Allowed : PortState σ → PortEvent → Prop} (hlaws : HeapLaws F Owns) (hfresh : FreshPort d)
    (hown : Owns d.heap live) (hallowed : ∀ st e, Allowed st e → AnyRequest st e)
    (hrun : PortRun F Allowed (PortState.start d) st) : ∃ k live', PortInv Owns st k live' := by
  refine Run.invariant (fun st => ∃ k live', PortInv Owns st k live') ?_ hrun
    ⟨0, live, portInv_start hfresh hown⟩
  rintro st st' ⟨k, live', h⟩ ⟨e, he, hstep⟩
  exact portInv_step hlaws h (hallowed st e he) hstep

/-- The handler stops only where `unblock_pcb` does. -/
theorem serialOutputInterrupt_error {st : PortState σ} {k : Nat} {live : List U32} {s : Procs}
    {e : Fault} (hlaws : HeapLaws F Owns) (h : PortInv Owns st k live)
    (hrun : serialOutputInterrupt F st.device s = .error e) :
    unblockPcb s (st.device.iocbs st.device.port.ioHead).currProc = .error e := by
  by_cases hop : st.device.port.operation = .write
  · have hbusy : st.device.port.operation ≠ .idle := by
      rw [hop]
      decide
    obtain ⟨-, -, -, hhead, -⟩ := h.head hbusy
    by_cases hmore : st.device.More
    · rw [serialOutputInterrupt_more s h.openPort.currDev hop hhead hmore] at hrun
      cases hrun
    · rw [serialOutputInterrupt_done s hop hhead hmore] at hrun
      rcases of_bind_error hrun with hunblock | ⟨s', -, hrun⟩
      · exact hunblock
      · obtain ⟨r₁, heap₁, hfree, -⟩ := hlaws.free_live h.owns (h.head_live hbusy)
        rw [sysFreeMem, hfree] at hrun
        cases hrun
  · rw [serialOutputInterrupt_spurious s hop] at hrun
    cases hrun

/-- The requests are served in the order of their arrival, and the handler always finds
one to serve. -/
theorem request_queue_fifo {d : Device Heap} {live : List U32} {st : PortState Heap}
    (hfresh : FreshPort d) (hown : OwnsBlocks d.heap live)
    (hrun : PortRun studentHeap AnyRequest (PortState.start d) st) :
    ∃ k, st.device.Queued ((st.accepted.drop k).map Prod.fst) ∧
      (∀ p r, (p, r) ∈ st.accepted.drop k → ∃ v, st.device.iocbs p = { r with next := v }) ∧
      st.device.calls = (st.accepted.take k).flatMap (fun x =>
        [.unblockPcb x.2.currProc, .freeMem x.1]) ∧
      (st.device.port.operation ≠ .idle → st.accepted.drop k ≠ [] ∧ st.device.port.ioHead ≠ 0) ∧
      ∀ s e, serialOutputInterrupt studentHeap st.device s = .error e →
        unblockPcb s (st.device.iocbs st.device.port.ioHead).currProc = .error e := by
  obtain ⟨k, live', h⟩ := portInv_run studentHeap_laws hfresh hown (fun _ _ he => he) hrun
  refine ⟨k, h.queued, h.contents, h.calls, fun hbusy => ?_, fun s e he => ?_⟩
  · obtain ⟨r, rest, hdrop, hhead, -⟩ := h.head hbusy
    rw [hdrop]
    exact ⟨List.cons_ne_nil _ _, hhead⟩
  · exact serialOutputInterrupt_error studentHeap_laws h he

def PortState.runAll (F : HeapFunctions σ) (st : PortState σ) :
    List PortEvent → Except Fault (PortState σ)
  | [] => .ok st
  | e :: es => do
      let st ← st.step F e
      st.runAll F es

theorem portRun_runAll {Allowed : PortState σ → PortEvent → Prop} {es : List PortEvent}
    {st st' : PortState σ} (hallowed : ∀ st, ∀ e ∈ es, Allowed st e)
    (hrun : st.runAll F es = .ok st') : PortRun F Allowed st st' := by
  induction es generalizing st with
  | nil =>
      cases hrun
      exact Relation.ReflTransGen.refl
  | cons e es ih =>
      obtain ⟨st₁, hstep, hrest⟩ := of_bind_ok hrun
      have hfirst : PortStep F Allowed st st₁ := ⟨e, hallowed st e List.mem_cons_self, hstep⟩
      exact Relation.ReflTransGen.head hfirst
        (ih (fun st e he => hallowed st e (List.mem_cons_of_mem _ he)) hrest)

theorem runAll_snoc {st st₁ : PortState σ} {es : List PortEvent} {e : PortEvent}
    (hrun : st.runAll F es = .ok st₁) : st.runAll F (es ++ [e]) = st₁.step F e := by
  induction es generalizing st with
  | nil =>
      cases hrun
      rw [List.nil_append, PortState.runAll]
      cases st₁.step F e <;> rfl
  | cons e' es ih =>
      obtain ⟨st₂, hstep, hrest⟩ := of_bind_ok hrun
      rw [List.cons_append, PortState.runAll, hstep]
      exact ih hrest

def bootedPort : Device Heap :=
  Device.opened (Vector.replicate 16 0) ⟨fun x => x.setWidth 8⟩ kernelHeap

theorem bootedPort_fresh : FreshPort bootedPort :=
  ⟨⟨rfl, rfl, rfl, rfl⟩, rfl, rfl, rfl⟩

def noQueues : Procs := ⟨fun _ => ⟨[], 0, 0, 0, 0, 0, 0⟩, 0, 0, 0⟩

theorem request_queue_fifo_two_requests :
    ∃ st, PortRun studentHeap AnyRequest (PortState.start bootedPort) st ∧
      st.accepted.length = 2 ∧ ∃ k, st.device.Queued ((st.accepted.drop k).map Prod.fst) ∧
        st.device.calls = (st.accepted.take k).flatMap fun x =>
          [.unblockPcb x.2.currProc, .freeMem x.1] := by
  have hcompute : ((PortState.start bootedPort).runAll studentHeap
      [.submit 0x100 COM1 0x6000 2 .write, .submit 0x200 COM1 0x7000 5 .read,
        .outputInterrupt noQueues, .outputInterrupt noQueues]).map
      (fun st => st.accepted.length) = .ok 2 := by decide +kernel
  obtain ⟨st, hrun, hlength⟩ := of_map_ok hcompute
  have hport : PortRun studentHeap AnyRequest (PortState.start bootedPort) st := by
    refine portRun_runAll (fun _ => ?_) hrun
    simp [AnyRequest]
  obtain ⟨k, hqueued, -, hcalls, -⟩ := request_queue_fifo bootedPort_fresh kernelHeap_owns hport
  exact ⟨st, hport, hlength, k, hqueued, hcalls⟩

end Mpx
