import Mpx.Serial.Transfer

/-! The transmit holding register from the submission of a WRITE request to an idle port
until the request is completed. -/

namespace Mpx

open Memory PointerList Run

variable {σ : Type} {F : HeapFunctions σ}

def Interrupted (F : HeapFunctions σ) (d d' : Device σ) : Prop :=
  ∃ s s', serialOutputInterrupt F d s = .ok (d', s')

/-- Some run up to the completion of the request has put exactly its buffer on the wire. -/
def CarriesBuffer (F : HeapFunctions σ) (d : Device σ) (proc buf len : U32) : Prop :=
  ∃ d₁ d₂, ioScheduler F d proc COM1 buf len .write = .ok d₁ ∧
    Relation.ReflTransGen (Interrupted F) d₁ d₂ ∧ d₂.port.operation = .idle ∧
    d₂.wire = bufferBytes d.mem buf len.toNat

/-- Each byte of the buffer but the first has a 0x02 in front of it. -/
def wireBytes (m : Mem) (buf : U32) (n : Nat) : List U8 :=
  m.byte buf :: (List.range n).flatMap fun i => [0x02, m.byte (buf + BitVec.ofNat 32 (i + 1))]

theorem wireBytes_succ (m : Mem) (buf : U32) (n : Nat) :
    wireBytes m buf (n + 1) =
      wireBytes m buf n ++ [0x02, m.byte (buf + BitVec.ofNat 32 (n + 1))] := by
  simp [wireBytes, List.range_succ]

theorem wireBytes_length (m : Mem) (buf : U32) (n : Nat) :
    (wireBytes m buf n).length = 2 * n + 1 := by
  induction n with
  | zero => rfl
  | succ n ih =>
      calc (wireBytes m buf (n + 1)).length = (wireBytes m buf n).length + 2 := by
            rw [wireBytes_succ, List.length_append]
            rfl
        _ = 2 * n + 1 + 2 := by rw [ih]
        _ = 2 * (n + 1) + 1 := by omega

structure Sending (m : Mem) (buf len : U32) (d : Device σ) (n : Nat) : Prop where
  currDev : d.port.currDev = COM1
  operation : d.port.operation = .write
  eventFlag : d.port.eventFlag = 1
  counter : d.port.counter = n + 1
  count : d.port.count = len.toInt
  head : d.port.ioHead ≠ 0
  buffer : (d.iocbs d.port.ioHead).buffer = buf
  mem : d.mem = m
  wire : d.wire = wireBytes m buf n
  bound : n = 0 ∨ (n : Int) < len.toInt

/-- The bytes that follow the first one: none where the length, as an `int`, is not
positive. -/
def following (len : U32) : Nat := (len.toInt - 1).toNat

inductive Progress (m : Mem) (buf len : U32) (d : Device σ) : Prop
  | sending (n : Nat) (h : Sending m buf len d n)
  | completed (hidle : d.port.operation = .idle)
      (hwire : d.wire = wireBytes m buf (following len) ++ [0x02])

theorem progress_start {d d₁ : Device σ} {proc buf len : U32} (hfresh : FreshPort d)
    (hbuf : buf ≠ 0) (hrun : ioScheduler F d proc COM1 buf len .write = .ok d₁) :
    Progress d.mem buf len d₁ := by
  obtain ⟨temp, heap, halloc, htemp⟩ := ioScheduler_alloc hbuf hrun
  have hempty : d.Queued [] := hfresh.empty
  obtain ⟨iocbs, ioHead, hqueue, hsame, heq⟩ :=
    @ioScheduler_append σ F d [] temp proc buf len heap .write hempty hbuf halloc htemp
      List.not_mem_nil
  have hopen := hfresh.openPort.withQueue heap iocbs ioHead
  rw [heq, startIfIdle_write len hopen hfresh.idle hbuf] at hrun
  cases hrun
  have hhead : ioHead = temp := hqueue.1
  refine .sending 0 ⟨hfresh.openPort.currDev, rfl, rfl, rfl, rfl, ?_, ?_, rfl, ?_, Or.inl rfl⟩
  · exact hhead ▸ htemp
  · simp only [Device.writing, Device.withQueue]
    rw [hsame ioHead, hhead, Function.update_self]
  · rw [wire_writing, Device.wire]
    simp only [Device.withQueue, hfresh.trace]
    rfl

theorem progress_interrupt {m : Mem} {buf len : U32} {d d' : Device σ}
    (h : Progress m buf len d) (hstep : Interrupted F d d') : Progress m buf len d' := by
  obtain ⟨s, s', hrun⟩ := hstep
  cases h with
  | completed hidle hwire =>
      have hop : d.port.operation ≠ .write := by
        rw [hidle]
        decide
      rw [serialOutputInterrupt_spurious s hop] at hrun
      cases hrun
      exact .completed hidle hwire
  | sending n h =>
      by_cases hmore : d.More
      · rw [serialOutputInterrupt_more s h.currDev h.operation h.head hmore] at hrun
        cases hrun
        have hlt := hmore.2
        rw [h.counter, h.count] at hlt
        refine .sending (n + 1) ⟨h.currDev, h.operation, h.eventFlag, ?_, h.count, h.head,
          h.buffer, h.mem, ?_, Or.inr (by exact_mod_cast hlt)⟩
        · simp only [Device.sendNext, h.counter]
          rfl
        · have hindex : BitVec.ofInt 32 d.port.counter = BitVec.ofNat 32 (n + 1) := by
            rw [h.counter]
            exact BitVec.ofInt_natCast 32 (n + 1)
          rw [wire_sendNext h.currDev, h.wire, h.buffer, h.mem, hindex, wireBytes_succ]
      · rw [serialOutputInterrupt_done s h.operation h.head hmore] at hrun
        obtain ⟨s₁, -, hrun⟩ := of_bind_ok hrun
        obtain ⟨⟨r, heap⟩, -, hrun⟩ := of_bind_ok hrun
        cases hrun
        have hdone : ¬ ((n : Int) + 1 < len.toInt) := by
          rw [← h.counter, ← h.count]
          exact fun hlt => hmore ⟨h.eventFlag, hlt⟩
        have hn : n = following len := by
          have := h.bound
          rw [following]
          omega
        refine .completed rfl ?_
        rw [wire_completed, h.wire, hn]

theorem wire_of_completed {d d₁ d₂ : Device σ} {proc buf len : U32} (hfresh : FreshPort d)
    (hbuf : buf ≠ 0) (hsubmit : ioScheduler F d proc COM1 buf len .write = .ok d₁)
    (hrun : Relation.ReflTransGen (Interrupted F) d₁ d₂) (hidle : d₂.port.operation = .idle) :
    d₂.wire = wireBytes d.mem buf (following len) ++ [0x02] := by
  have hprogress : Progress d.mem buf len d₂ :=
    Run.invariant (Progress d.mem buf len) (fun _ _ h hstep => progress_interrupt h hstep) hrun
      (progress_start hfresh hbuf hsubmit)
  cases hprogress with
  | sending n h =>
      rw [h.operation] at hidle
      cases hidle
  | completed _ hwire => exact hwire

theorem wireBytes_ne_bufferBytes (m : Mem) (buf len : U32) :
    wireBytes m buf (following len) ++ [0x02] ≠ bufferBytes m buf len.toNat := by
  intro heq
  have hlength := congrArg List.length heq
  simp only [List.length_append, wireBytes_length, List.length_singleton, bufferBytes,
    List.length_map, List.length_range, following] at hlength
  -- a length of `2 ^ 31` or more is a negative `int`
  have hint : len.toInt = len.toNat ∨
      len.toInt = (len.toNat : Int) - 2 ^ 32 ∧ 2 ^ 31 ≤ len.toNat := by
    rw [BitVec.toInt_eq_toNat_cond]
    split
    · exact Or.inl rfl
    · exact Or.inr ⟨by norm_num, by omega⟩
  have hsmall : len.toNat < 2 ^ 32 := len.isLt
  omega

/-- Twice as many bytes as are sent reach the wire, and at least two. -/
theorem wire_never_carries_buffer {d : Device σ} {proc buf len : U32} (hfresh : FreshPort d)
    (hbuf : buf ≠ 0) :
    (∀ d₁ d₂, ioScheduler F d proc COM1 buf len .write = .ok d₁ →
        Relation.ReflTransGen (Interrupted F) d₁ d₂ → d₂.port.operation = .idle →
        d₂.wire = wireBytes d.mem buf (following len) ++ [0x02]) ∧
      ¬ CarriesBuffer F d proc buf len := by
  refine ⟨fun d₁ d₂ => wire_of_completed hfresh hbuf, ?_⟩
  rintro ⟨d₁, d₂, hsubmit, hrun, hidle, hwire⟩
  rw [wire_of_completed hfresh hbuf hsubmit hrun hidle] at hwire
  exact wireBytes_ne_bufferBytes d.mem buf len hwire

theorem wire_never_carries_buffer_two_bytes :
    ¬ CarriesBuffer studentHeap bootedPort 0x100 0x6041 2 :=
  (wire_never_carries_buffer bootedPort_fresh (by decide)).2

/-- The text "AB" on the wire. -/
theorem two_bytes_on_the_wire :
    ∃ st, PortRun studentHeap WriteRequest (PortState.start bootedPort) st ∧
      st.device.port.operation = .idle ∧ st.device.wire = [65, 2, 66, 2] ∧
      bufferBytes bootedPort.mem 0x6041 2 = [65, 66] := by
  have hcompute : ((PortState.start bootedPort).runAll studentHeap
      [.submit 0x100 COM1 0x6041 2 .write, .outputInterrupt noQueues,
        .outputInterrupt noQueues]).map
      (fun st => (st.device.port.operation, st.device.wire)) =
      .ok (.idle, [65, 2, 66, 2]) := by decide +kernel
  obtain ⟨st, hrun, hresult⟩ := of_map_ok hcompute
  refine ⟨st, portRun_runAll (fun _ => ?_) hrun, congrArg Prod.fst hresult,
    congrArg Prod.snd hresult, by decide⟩
  simp [WriteRequest]

end Mpx
