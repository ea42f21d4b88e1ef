import Mpx.Serial.History

/-! Runs of WRITE requests: which of them the device works on, and which it leaves
behind. -/

namespace Mpx

open Memory PointerList Run

variable {σ : Type} {F : HeapFunctions σ} {Owns : σ → List U32 → Prop}

def WriteRequest (_ : PortState σ) : PortEvent → Prop
  | .submit _ _ _ _ operation => operation = .write
  | .outputInterrupt _ => True

structure WriteInv (Owns : σ → List U32 → Prop) (st : PortState σ) (k : Nat)
    (live : List U32) : Prop extends PortInv Owns st k live where
  mode : st.device.port.operation = .idle ∨ st.device.port.operation = .write

theorem writeInv_start {d : Device σ} {live : List U32} (hfresh : FreshPort d)
    (hown : Owns d.heap live) : WriteInv Owns (PortState.start d) 0 live :=
  ⟨portInv_start hfresh hown, Or.inl hfresh.idle⟩

theorem WriteInv.started {st : PortState σ} {k : Nat} {live : List U32}
    (h : WriteInv Owns st k live) {heap : σ} {iocbs : U32 → Iocb} {ioHead buf len : U32}
    {d' : Device σ} (hbuf : buf ≠ 0)
    (hstart : startIfIdle (st.device.withQueue heap iocbs ioHead) COM1 buf len .write = .ok d') :
    SameQueue (st.device.withQueue heap iocbs ioHead) d' ∧ d'.port.operation = .write ∧
      (st.device.port.operation = .idle ∧
          d' = (st.device.withQueue heap iocbs ioHead).writing buf len ∨
        st.device.port.operation = .write ∧ d' = st.device.withQueue heap iocbs ioHead) := by
  have hopen := h.openPort.withQueue heap iocbs ioHead
  obtain ⟨d₁, hstart₁, hkeeps⟩ :=
    @startIfIdle_sameQueue σ _ buf len .write hopen (Or.inr rfl) hbuf
  rw [hstart₁] at hstart
  cases hstart
  rcases h.mode with hidle | hwrite
  · rw [startIfIdle_write len hopen hidle hbuf] at hstart₁
    cases hstart₁
    exact ⟨hkeeps, rfl, Or.inl ⟨hidle, rfl⟩⟩
  · have hbusy : (st.device.withQueue heap iocbs ioHead).port.operation ≠ .idle := by
      rw [show (st.device.withQueue heap iocbs ioHead).port.operation = .write from hwrite]
      decide
    rw [startIfIdle_busy _ _ _ _ hbusy] at hstart₁
    cases hstart₁
    exact ⟨hkeeps, hwrite, Or.inr ⟨hwrite, rfl⟩⟩

section Stranded

/-- WRITE requests, and output interrupts that complete a request only when no other
one is behind it. -/
def LastOfQueue (st : PortState σ) : PortEvent → Prop
  | .submit _ _ _ _ operation => operation = .write
  | .outputInterrupt _ => st.device.port.operation = .write → ¬ st.device.More →
      nextIocb st.device.iocbs st.device.port.ioHead = 0

def NoneStranded (Owns : σ → List U32 → Prop) (st : PortState σ) : Prop :=
  ∃ k live, WriteInv Owns st k live ∧
    (st.device.port.operation = .idle → k = st.accepted.length)

theorem noneStranded_step {st st' : PortState σ} (hlaws : HeapLaws F Owns)
    (h : NoneStranded Owns st) (hstep : PortStep F LastOfQueue st st') :
    NoneStranded Owns st' := by
  obtain ⟨k, live, hinv, hidle⟩ := h
  obtain ⟨e, he, hrun⟩ := hstep
  cases step_outcome hlaws hinv.toPortInv hrun with
  | refused => exact ⟨k, live, hinv, hidle⟩
  | accepted proc buf len op temp ioHead heap iocbs d' hbuf hnew hown hqueue hsame hstart =>
      obtain rfl : op = .write := he
      obtain ⟨hkeeps, hwrite, -⟩ := hinv.started hbuf hstart
      have hnext := portInv_accepted
        (if st.device.port.operation = .idle ∧ d'.port.operation = .write
          then d'.wire.getLast?.toList else st.sent)
        hinv.toPortInv hnew hown hqueue hsame hkeeps
      refine ⟨k, temp :: live, ⟨hnext, Or.inr hwrite⟩, fun hcontra => ?_⟩
      rw [show d'.port.operation = .idle from hcontra] at hwrite
      cases hwrite
  | spurious => exact ⟨k, live, hinv, hidle⟩
  | more s hop =>
      refine ⟨k, live, ⟨portInv_more _ hinv.toPortInv hop, Or.inr hop⟩, fun hcontra => ?_⟩
      rw [show st.device.port.operation = .idle from hcontra] at hop
      cases hop
  | done s hop hdone heap hown =>
      obtain ⟨r, rest, hdrop, -⟩ := hinv.head (by rw [hop]; decide)
      have hqueue := hinv.queued
      rw [hdrop] at hqueue
      have htail := hqueue.2.2
      rw [he hop hdone, isList_null, List.map_eq_nil_iff] at htail
      have hlength := congrArg List.length hdrop
      rw [htail, List.length_drop, List.length_singleton] at hlength
      refine ⟨k + 1, _, ⟨portInv_done hinv.toPortInv hop hown, Or.inl rfl⟩, fun _ => ?_⟩
      simp only
      omega

/-- As long as no request stands behind one that completes, none is stranded. -/
theorem no_request_stranded {d : Device Heap} {live : List U32} {st : PortState Heap}
    (hfresh : FreshPort d) (hown : OwnsBlocks d.heap live)
    (hrun : PortRun studentHeap LastOfQueue (PortState.start d) st) :
    st.device.port.operation = .idle → st.device.Queued [] := by
  intro hidle
  obtain ⟨k, live', hinv, hk⟩ := Run.invariant (NoneStranded OwnsBlocks)
    (fun _ _ h hstep => noneStranded_step studentHeap_laws h hstep) hrun
    ⟨0, live, writeInv_start hfresh hown, fun _ => rfl⟩
  have hqueue := hinv.queued
  rwa [hk hidle, List.drop_length] at hqueue

theorem no_request_stranded_alone :
    ∃ st, PortRun studentHeap LastOfQueue (PortState.start bootedPort) st ∧
      st.accepted.length = 1 ∧ st.device.Queued [] := by
  have hfirst : ((PortState.start bootedPort).runAll studentHeap
      [.submit 0x100 COM1 0x6000 1 .write]).map
      (fun st => nextIocb st.device.iocbs st.device.port.ioHead) = .ok 0 := by decide +kernel
  have hsecond : ((PortState.start bootedPort).runAll studentHeap
      ([.submit 0x100 COM1 0x6000 1 .write] ++ [.outputInterrupt noQueues])).map
      (fun st => (st.device.port.operation, st.accepted.length)) = .ok (.idle, 1) := by
    decide +kernel
  obtain ⟨st₁, hrun₁, hnext⟩ := of_map_ok hfirst
  obtain ⟨st₂, hrun₂, hidle⟩ := of_map_ok hsecond
  rw [runAll_snoc hrun₁] at hrun₂
  have hport₁ : PortRun studentHeap LastOfQueue (PortState.start bootedPort) st₁ := by
    refine portRun_runAll (fun _ => ?_) hrun₁
    simp [LastOfQueue]
  have hport₂ : PortRun studentHeap LastOfQueue (PortState.start bootedPort) st₂ :=
    hport₁.tail ⟨.outputInterrupt noQueues, fun _ _ => hnext, hrun₂⟩
  exact ⟨st₂, hport₂, congrArg Prod.snd hidle,
    no_request_stranded bootedPort_fresh kernelHeap_owns hport₂ (congrArg Prod.fst hidle)⟩

/-- Two requests of one byte and one interrupt: the second request stays behind. -/
theorem second_request_stranded :
    ∃ st, PortRun studentHeap WriteRequest (PortState.start bootedPort) st ∧
      st.device.port.operation = .idle ∧ ¬ st.device.Queued [] := by
  have hcompute : ((PortState.start bootedPort).runAll studentHeap
      [.submit 0x100 COM1 0x6000 1 .write, .submit 0x200 COM1 0x7000 1 .write,
        .outputInterrupt noQueues]).map
      (fun st => (st.device.port.operation, decide (st.device.Queued []))) =
      .ok (.idle, false) := by decide +kernel
  obtain ⟨st, hrun, hresult⟩ := of_map_ok hcompute
  refine ⟨st, portRun_runAll (fun _ => ?_) hrun, congrArg Prod.fst hresult, ?_⟩
  · simp [WriteRequest]
  · exact of_decide_eq_false (congrArg Prod.snd hresult)

end Stranded

section AtHead

def bufferBytes (m : Mem) (buf : U32) (n : Nat) : List U8 :=
  (List.range n).map fun i => m.byte (buf + BitVec.ofNat 32 i)

theorem bufferBytes_one (m : Mem) (buf : U32) : bufferBytes m buf 1 = [m.byte buf] := by
  simp [bufferBytes]

theorem bufferBytes_succ (m : Mem) (buf : U32) (n : Nat) :
    bufferBytes m buf (n + 1) = bufferBytes m buf n ++ [m.byte (buf + BitVec.ofNat 32 n)] := by
  simp [bufferBytes, List.range_succ]

/-- The transfer in progress is the one at the head of the request queue. -/
structure TransferAtHead (st : PortState σ) : Prop where
  count : st.device.port.count = (st.device.iocbs st.device.port.ioHead).bufSize
  sent : st.sent = bufferBytes st.device.mem (st.device.iocbs st.device.port.ioHead).buffer
    st.device.port.counter.toNat
  index : st.device.More → 0 ≤ st.device.port.counter ∧
    st.device.port.counter < (st.device.iocbs st.device.port.ioHead).bufSize

/-- WRITE requests. One that an idle port starts finds either no request in the queue or
a head with its own length and its own first byte. -/
def HeadStarts (st : PortState σ) : PortEvent → Prop
  | .submit _ dev buf len operation => operation = .write ∧
      (dev = COM1 → buf ≠ 0 → st.device.port.operation = .idle → st.device.port.ioHead ≠ 0 →
        (st.device.iocbs st.device.port.ioHead).bufSize = len.toInt ∧
          st.device.mem.byte (st.device.iocbs st.device.port.ioHead).buffer =
            st.device.mem.byte buf)
  | .outputInterrupt _ => True

def AtHead (Owns : σ → List U32 → Prop) (st : PortState σ) : Prop :=
  ∃ k live, WriteInv Owns st k live ∧ (st.device.port.operation = .write →
    TransferAtHead st ∧ 1 ≤ st.device.port.counter)

theorem head_of_append {d : Device σ} {heap : σ} {iocbs : U32 → Iocb} {temp ioHead : U32}
    {r : Iocb} {xs : List U32} (hlist : d.Queued xs) (hnew : temp ∉ xs)
    (hqueue : (d.withQueue heap iocbs ioHead).Queued (xs ++ [temp]))
    (hsame : SameRequests (Function.update d.iocbs temp r) iocbs) :
    (d.port.ioHead = 0 ∧ ∃ v, iocbs ioHead = { r with next := v }) ∨
      d.port.ioHead ≠ 0 ∧ ∃ v, iocbs ioHead = { d.iocbs d.port.ioHead with next := v } := by
  cases xs with
  | nil =>
      have hhead : ioHead = temp := hqueue.1
      refine Or.inl ⟨hlist, nextIocb iocbs ioHead, (hsame ioHead).trans ?_⟩
      rw [hhead, Function.update_self]
  | cons x xs =>
      obtain ⟨hx, hne, -⟩ := hlist
      have hhead : ioHead = x := hqueue.1
      have hxt : x ≠ temp := by
        rintro rfl
        exact hnew List.mem_cons_self
      refine Or.inr ⟨hx ▸ hne, nextIocb iocbs ioHead, (hsame ioHead).trans ?_⟩
      rw [hhead, hx, Function.update_of_ne hxt]

theorem transferAtHead_more {st : PortState σ} (hdev : st.device.port.currDev = COM1)
    (h : TransferAtHead st) (hone : 1 ≤ st.device.port.counter)
    (accepted : List (U32 × Iocb)) :
    TransferAtHead ⟨st.device.sendNext, accepted,
      st.sent ++ st.device.sendNext.wire.getLast?.toList⟩ := by
  have hcounter : (st.device.port.counter + 1).toNat = st.device.port.counter.toNat + 1 := by
    omega
  have hindex : BitVec.ofInt 32 st.device.port.counter =
      BitVec.ofNat 32 st.device.port.counter.toNat := by
    rw [← BitVec.ofInt_natCast, Int.toNat_of_nonneg (by omega)]
  refine ⟨h.count, ?_, fun hmore => ?_⟩
  · calc st.sent ++ st.device.sendNext.wire.getLast?.toList
        = st.sent ++ [st.device.mem.byte ((st.device.iocbs st.device.port.ioHead).buffer +
            BitVec.ofNat 32 st.device.port.counter.toNat)] := by
          rw [wire_sendNext hdev, hindex]
          simp
      _ = bufferBytes st.device.mem (st.device.iocbs st.device.port.ioHead).buffer
            (st.device.port.counter + 1).toNat := by
          rw [h.sent, hcounter, bufferBytes_succ]
  · have hlt := hmore.2
    rw [show st.device.sendNext.port.count = _ from h.count] at hlt
    refine ⟨?_, hlt⟩
    simp only [Device.sendNext]
    omega

theorem transferAtHead_writing {d : Device σ} {buf len : U32} (accepted : List (U32 × Iocb))
    (hsize : (d.iocbs d.port.ioHead).bufSize = len.toInt)
    (hbyte : d.mem.byte (d.iocbs d.port.ioHead).buffer = d.mem.byte buf) :
    TransferAtHead ⟨d.writing buf len, accepted, (d.writing buf len).wire.getLast?.toList⟩ := by
  refine ⟨hsize.symm, ?_, fun hmore => ⟨zero_le_one, hmore.2.trans_eq hsize.symm⟩⟩
  rw [wire_writing]
  simp only [Device.writing, Int.toNat_one, bufferBytes_one, hbyte]
  simp

theorem TransferAtHead.wait {st : PortState σ} {heap : σ} {iocbs : U32 → Iocb} {ioHead v : U32}
    (h : TransferAtHead st)
    (hhead : iocbs ioHead = { st.device.iocbs st.device.port.ioHead with next := v })
    (accepted : List (U32 × Iocb)) :
    TransferAtHead ⟨st.device.withQueue heap iocbs ioHead, accepted, st.sent⟩ := by
  refine ⟨?_, ?_, fun hmore => ?_⟩
  · simp only [Device.withQueue, hhead]
    exact h.count
  · simp only [Device.withQueue, hhead]
    exact h.sent
  · simp only [Device.withQueue, hhead]
    exact h.index hmore

theorem atHead_step {st st' : PortState σ} (hlaws : HeapLaws F Owns)
    (h : AtHead Owns st) (hstep : PortStep F HeadStarts st st') : AtHead Owns st' := by
  obtain ⟨k, live, hinv, htransfer⟩ := h
  obtain ⟨e, he, hrun⟩ := hstep
  cases step_outcome hlaws hinv.toPortInv hrun with
  | refused => exact ⟨k, live, hinv, htransfer⟩
  | accepted proc buf len op temp ioHead heap iocbs d' hbuf hnew hown hqueue hsame hstart =>
      obtain ⟨hop, hmatch⟩ : op = .write ∧ _ := he
      subst hop
      obtain ⟨hkeeps, hwrite, hcases⟩ := hinv.started hbuf hstart
      have hnext := portInv_accepted
        (if st.device.port.operation = .idle ∧ d'.port.operation = .write
          then d'.wire.getLast?.toList else st.sent)
        hinv.toPortInv hnew hown hqueue hsame hkeeps
      refine ⟨k, temp :: live, ⟨hnext, Or.inr hwrite⟩, fun _ => ?_⟩
      have hhead := head_of_append hinv.queued (fun hmem => hnew (hinv.live temp hmem))
        hqueue hsame
      rcases hcases with ⟨hidle, rfl⟩ | ⟨hbusy, rfl⟩
      · rw [if_pos ⟨hidle, hwrite⟩]
        refine ⟨transferAtHead_writing _ ?_ ?_, le_refl 1⟩
        · rcases hhead with ⟨-, v, hv⟩ | ⟨hne, v, hv⟩
          · simp only [Device.withQueue, hv]
          · simp only [Device.withQueue, hv]
            exact (hmatch rfl hbuf hidle hne).1
        · rcases hhead with ⟨-, v, hv⟩ | ⟨hne, v, hv⟩
          · simp only [Device.withQueue, hv]
          · simp only [Device.withQueue, hv]
            exact (hmatch rfl hbuf hidle hne).2
      · obtain ⟨hold, hone⟩ := htransfer hbusy
        have hsent : ¬ (st.device.port.operation = .idle ∧
            (st.device.withQueue heap iocbs ioHead).port.operation = .write) := by
          rw [hbusy]
          exact fun h => absurd h.1 (by decide)
        rw [if_neg hsent]
        obtain ⟨r, rest, -, hne, -⟩ := hinv.head (by rw [hbusy]; decide)
        rcases hhead with ⟨hnull, -⟩ | ⟨-, v, hv⟩
        · exact absurd hnull hne
        · exact ⟨hold.wait hv _, hone⟩
  | spurious => exact ⟨k, live, hinv, htransfer⟩
  | more s hop hmore =>
      obtain ⟨hhead, hone⟩ := htransfer hop
      refine ⟨k, live, ⟨portInv_more _ hinv.toPortInv hop, Or.inr hop⟩, fun _ => ?_⟩
      refine ⟨transferAtHead_more hinv.openPort.currDev hhead hone _, ?_⟩
      simp only [Device.sendNext]
      omega
  | done s hop hdone heap hown =>
      refine ⟨k + 1, _, ⟨portInv_done hinv.toPortInv hop hown, Or.inl rfl⟩, fun hcontra => ?_⟩
      exact absurd (show OpCode.idle = .write from hcontra) (by decide)

/-- As long as the device starts with the request at the head of the queue, its transfer
is that request's. -/
theorem transfer_at_head {d : Device Heap} {live : List U32} {st : PortState Heap}
    (hfresh : FreshPort d) (hown : OwnsBlocks d.heap live)
    (hrun : PortRun studentHeap HeadStarts (PortState.start d) st) :
    st.device.port.operation = .write → TransferAtHead st := by
  intro hwrite
  have hidle : d.port.operation = .write → False := by
    rw [hfresh.idle]
    exact fun hcontra => absurd hcontra (by decide)
  obtain ⟨k, live', -, htransfer⟩ := Run.invariant (AtHead OwnsBlocks)
    (fun _ _ h hstep => atHead_step studentHeap_laws h hstep) hrun
    ⟨0, live, writeInv_start hfresh hown, fun hcontra => (hidle hcontra).elim⟩
  exact (htransfer hwrite).1

theorem transfer_at_head_three_bytes :
    ∃ st, PortRun studentHeap HeadStarts (PortState.start bootedPort) st ∧
      st.sent.length = 2 ∧ TransferAtHead st := by
  have hfirst : ((PortState.start bootedPort).runAll studentHeap
      ([] ++ [.submit 0x100 COM1 0x6000 3 .write])).map (fun st => st.sent.length) = .ok 1 := by
    decide +kernel
  have hsecond : ((PortState.start bootedPort).runAll studentHeap
      ([.submit 0x100 COM1 0x6000 3 .write] ++ [.outputInterrupt noQueues])).map
      (fun st => (st.device.port.operation, st.sent.length)) = .ok (.write, 2) := by
    decide +kernel
  obtain ⟨st₁, hrun₁, -⟩ := of_map_ok hfirst
  obtain ⟨st₂, hrun₂, hresult⟩ := of_map_ok hsecond
  rw [List.nil_append] at hrun₁
  rw [runAll_snoc hrun₁] at hrun₂
  have hstep₁ := hrun₁
  rw [← List.nil_append [PortEvent.submit _ _ _ _ _], runAll_snoc rfl] at hstep₁
  have hport₁ : PortRun studentHeap HeadStarts (PortState.start bootedPort) st₁ :=
    Relation.ReflTransGen.single ⟨.submit 0x100 COM1 0x6000 3 .write,
      ⟨rfl, fun _ _ _ hhead => absurd rfl hhead⟩, hstep₁⟩
  have hport₂ : PortRun studentHeap HeadStarts (PortState.start bootedPort) st₂ :=
    hport₁.tail ⟨.outputInterrupt noQueues, trivial, hrun₂⟩
  exact ⟨st₂, hport₂, congrArg Prod.snd hresult,
    transfer_at_head bootedPort_fresh kernelHeap_owns hport₂ (congrArg Prod.fst hresult)⟩

/-- A third request starts while the second one is stranded at the head of the queue. -/
theorem stranded_request_mismatched :
    ∃ st, PortRun studentHeap WriteRequest (PortState.start bootedPort) st ∧
      st.device.port.operation = .write ∧ ¬ TransferAtHead st := by
  have hcompute : ((PortState.start bootedPort).runAll studentHeap
      [.submit 0x100 COM1 0x6000 1 .write, .submit 0x200 COM1 0x7000 1 .write,
        .outputInterrupt noQueues, .submit 0x300 COM1 0x8000 5 .write]).map
      (fun st => (st.device.port.operation, st.device.port.count,
        (st.device.iocbs st.device.port.ioHead).bufSize)) = .ok (.write, 5, 1) := by
    decide +kernel
  obtain ⟨st, hrun, hresult⟩ := of_map_ok hcompute
  simp only [Prod.mk.injEq] at hresult
  refine ⟨st, portRun_runAll (fun _ => ?_) hrun, hresult.1, fun h => ?_⟩
  · simp [WriteRequest]
  · have hcount := h.count
    rw [hresult.2.1, hresult.2.2] at hcount
    exact absurd hcount (by decide)

end AtHead

end Mpx
