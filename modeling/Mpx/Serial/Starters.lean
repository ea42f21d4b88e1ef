import Mpx.Serial.Wire

/-! The transfers of any number of WRITE requests: a transfer has the length and the first
byte of the request that has started it, and the other bytes of the request at the head of the
queue. -/

namespace Mpx

open Memory PointerList Run

variable {σ : Type} {F : HeapFunctions σ} {Owns : σ → List U32 → Prop}

/-- A run of the port, with the requests that have started a transfer, oldest first. -/
structure Transfers (σ : Type) where
  state : PortState σ
  starters : List Iocb

/-- A request starts a transfer when it finds the port idle and leaves it writing. -/
def Transfers.step (F : HeapFunctions σ) (t : Transfers σ) (e : PortEvent) :
    Except Fault (Transfers σ) := do
  let st ← t.state.step F e
  let started := if t.state.device.port.operation = .idle ∧ st.device.port.operation = .write
    then (st.accepted.drop t.state.accepted.length).map Prod.snd else []
  return ⟨st, t.starters ++ started⟩

def TransferStep (F : HeapFunctions σ) (t t' : Transfers σ) : Prop :=
  ∃ e, WriteRequest t.state e ∧ t.step F e = .ok t'

def TransferRun (F : HeapFunctions σ) : Transfers σ → Transfers σ → Prop :=
  Relation.ReflTransGen (TransferStep F)

def PortState.requests (st : PortState σ) : List Iocb := st.accepted.map Prod.snd

def Iocb.rest (r : Iocb) : Nat := (r.bufSize - 1).toNat

def transferWire (m : Mem) (starter head : Iocb) (n : Nat) : List U8 :=
  m.byte starter.buffer ::
    (List.range n).flatMap fun i => [0x02, m.byte (head.buffer + BitVec.ofNat 32 (i + 1))]

def endedWire (m : Mem) (x : Iocb × Iocb) : List U8 := transferWire m x.1 x.2 x.1.rest ++ [0x02]

/-- The transfers that have ended, each with its starter and the head at that time. -/
def endedWires (m : Mem) (starters requests : List Iocb) : List U8 :=
  (starters.zip requests).flatMap (endedWire m)

theorem transferWire_succ (m : Mem) (starter head : Iocb) (n : Nat) :
    transferWire m starter head (n + 1) = transferWire m starter head n ++
      [0x02, m.byte (head.buffer + BitVec.ofNat 32 (n + 1))] := by
  simp [transferWire, List.range_succ]

section Pairs

variable {α β : Type*} {xs : List α} {ys zs : List β} {x : α} {y : β}

theorem zip_snoc (hy : ys[xs.length]? = some y) : (xs ++ [x]).zip ys = xs.zip ys ++ [(x, y)] := by
  induction xs generalizing ys with
  | nil =>
      cases ys with
      | nil => cases hy
      | cons z ys =>
          cases hy
          rfl
  | cons w xs ih =>
      cases ys with
      | nil => cases hy
      | cons z ys =>
          have htail : ys[xs.length]? = some y := hy
          exact congrArg (List.cons (w, z)) (ih htail)

theorem zip_append_right (hlength : xs.length ≤ ys.length) : xs.zip (ys ++ zs) = xs.zip ys := by
  induction xs generalizing ys with
  | nil => rfl
  | cons w xs ih =>
      cases ys with
      | nil => exact absurd hlength (by simp)
      | cons z ys => exact congrArg (List.cons (w, z)) (ih (Nat.le_of_succ_le_succ hlength))

end Pairs

structure InTransfer (m : Mem) (t : Transfers σ) (k : Nat) (ended : List Iocb)
    (starter head : Iocb) (n : Nat) : Prop where
  starters : t.starters = ended ++ [starter]
  length : ended.length = k
  served : t.state.requests[k]? = some head
  counter : t.state.device.port.counter = n + 1
  count : t.state.device.port.count = starter.bufSize
  eventFlag : t.state.device.port.eventFlag = 1
  bound : n = 0 ∨ (n : Int) < starter.bufSize
  wire : t.state.device.wire = endedWires m ended t.state.requests ++ transferWire m starter head n

/-- Where the port and its wire are, after `k` requests have been completed. -/
structure WireInv (Owns : σ → List U32 → Prop) (m : Mem) (t : Transfers σ) (k : Nat)
    (live : List U32) : Prop extends WriteInv Owns t.state k live where
  mem : t.state.device.mem = m
  sublist : t.starters.Sublist t.state.requests
  resting : t.state.device.port.operation = .idle →
    t.starters.length = k ∧ t.state.device.wire = endedWires m t.starters t.state.requests
  transferring : t.state.device.port.operation = .write →
    ∃ ended starter head n, InTransfer m t k ended starter head n

section Steps

variable {m : Mem} {t t' : Transfers σ} {k : Nat} {live : List U32}

theorem wireInv_start {d : Device σ} (hfresh : FreshPort d) (hown : Owns d.heap live) :
    WireInv Owns d.mem ⟨PortState.start d, []⟩ 0 live where
  toWriteInv := writeInv_start hfresh hown
  mem := rfl
  sublist := List.Sublist.refl _
  resting := by
    intro _
    refine ⟨rfl, ?_⟩
    rw [PortState.start, Device.wire, hfresh.trace]
    rfl
  transferring := by
    intro hwrite
    rw [PortState.start, hfresh.idle] at hwrite
    cases hwrite

theorem requests_length (st : PortState σ) : st.requests.length = st.accepted.length :=
  List.length_map _

theorem transfers_step_same {e : PortEvent} {st : PortState σ} (hstep : t.state.step F e = .ok st)
    (hsame : ¬ (t.state.device.port.operation = .idle ∧ st.device.port.operation = .write))
    (hrun : t.step F e = .ok t') : t' = ⟨st, t.starters⟩ := by
  rw [Transfers.step, hstep] at hrun
  simp only [bind, Except.bind, if_neg hsame, List.append_nil] at hrun
  cases hrun
  rfl

theorem transfers_step_started {e : PortEvent} {st : PortState σ} {x : U32 × Iocb}
    (hstep : t.state.step F e = .ok st) (haccepted : st.accepted = t.state.accepted ++ [x])
    (hstarted : t.state.device.port.operation = .idle ∧ st.device.port.operation = .write)
    (hrun : t.step F e = .ok t') : t' = ⟨st, t.starters ++ [x.2]⟩ := by
  rw [Transfers.step, hstep] at hrun
  simp only [bind, Except.bind, if_pos hstarted, haccepted, List.drop_left, List.map_cons,
    List.map_nil] at hrun
  cases hrun
  rfl

/-- A request on an idle port starts the transfer of the request at the head. -/
theorem WireInv.starts {temp ioHead proc buf len : U32} {heap : σ} {iocbs : U32 → Iocb}
    {sent : List U8} (h : WireInv Owns m t k live)
    (hidle : t.state.device.port.operation = .idle)
    (hnext : WriteInv Owns ⟨(t.state.device.withQueue heap iocbs ioHead).writing buf len,
      t.state.accepted ++ [(temp, ⟨proc, COM1, .write, buf, len.toInt, 0⟩)], sent⟩ k
      (temp :: live)) :
    WireInv Owns m ⟨⟨(t.state.device.withQueue heap iocbs ioHead).writing buf len,
      t.state.accepted ++ [(temp, ⟨proc, COM1, .write, buf, len.toInt, 0⟩)], sent⟩,
      t.starters ++ [⟨proc, COM1, .write, buf, len.toInt, 0⟩]⟩ k (temp :: live) := by
  obtain ⟨hlength, hwire⟩ := h.resting hidle
  generalize hr : (⟨proc, COM1, .write, buf, len.toInt, 0⟩ : Iocb) = r at hnext ⊢
  generalize hst : (⟨(t.state.device.withQueue heap iocbs ioHead).writing buf len,
    t.state.accepted ++ [(temp, r)], sent⟩ : PortState σ) = st at hnext ⊢
  have hrequests : st.requests = t.state.requests ++ [r] := by
    rw [← hst]
    simp [PortState.requests]
  have hk : k < st.requests.length := by
    have hbound := h.bound
    rw [hrequests, List.length_append, requests_length]
    exact Nat.lt_succ_of_le hbound
  obtain ⟨head, hhead⟩ : ∃ head, st.requests[k]? = some head := ⟨_, List.getElem?_eq_getElem hk⟩
  refine ⟨hnext, ?_, ?_, ?_, ?_⟩
  · rw [← hst]
    exact h.mem
  · simp only [hrequests]
    exact h.sublist.append (List.Sublist.refl [r])
  · intro hcontra
    rw [← hst] at hcontra
    cases hcontra
  · intro _
    refine ⟨t.starters, r, head, 0, rfl, hlength, hhead, ?_, ?_, ?_, Or.inl rfl, ?_⟩
    · rw [← hst]
      rfl
    · rw [← hst, ← hr]
      rfl
    · rw [← hst]
      rfl
    · have hbuffer : r.buffer = buf := by rw [← hr]
      have hle : t.starters.length ≤ t.state.requests.length := h.sublist.length_le
      calc st.device.wire
          = t.state.device.wire ++ [t.state.device.mem.byte buf] := by
            rw [← hst]
            exact wire_writing _ _ _
        _ = endedWires m t.starters st.requests ++ transferWire m r head 0 := by
            rw [hwire, h.mem, endedWires, endedWires, hrequests, zip_append_right hle, transferWire,
              hbuffer]
            rfl

theorem WireInv.waits {temp ioHead : U32} {heap : σ} {iocbs : U32 → Iocb} {r : Iocb}
    {sent : List U8} (h : WireInv Owns m t k live)
    (hwrite : t.state.device.port.operation = .write)
    (hnext : WriteInv Owns ⟨t.state.device.withQueue heap iocbs ioHead,
      t.state.accepted ++ [(temp, r)], sent⟩ k (temp :: live)) :
    WireInv Owns m ⟨⟨t.state.device.withQueue heap iocbs ioHead,
      t.state.accepted ++ [(temp, r)], sent⟩, t.starters⟩ k (temp :: live) := by
  obtain ⟨ended, starter, head, n, hin⟩ := h.transferring hwrite
  have hrequests : PortState.requests ⟨t.state.device.withQueue heap iocbs ioHead,
      t.state.accepted ++ [(temp, r)], sent⟩ = t.state.requests ++ [r] := by
    simp [PortState.requests]
  have hk : k < t.state.requests.length := (List.getElem?_eq_some_iff.mp hin.served).1
  refine ⟨hnext, h.mem, ?_, ?_, ?_⟩
  · simp only [hrequests]
    exact h.sublist.trans (List.sublist_append_left _ _)
  · intro hcontra
    rw [show t.state.device.port.operation = .idle from hcontra] at hwrite
    cases hwrite
  · intro _
    refine ⟨ended, starter, head, n, hin.starters, hin.length, ?_, hin.counter, hin.count,
      hin.eventFlag, hin.bound, ?_⟩
    · rw [hrequests, List.getElem?_append_left hk]
      exact hin.served
    · have hle : ended.length ≤ t.state.requests.length := by
        rw [hin.length]
        exact hk.le
      rw [hrequests, endedWires, zip_append_right hle]
      exact hin.wire

theorem WireInv.head_buffer {head : Iocb} (h : WireInv Owns m t k live)
    (hbusy : t.state.device.port.operation ≠ .idle) (hhead : t.state.requests[k]? = some head) :
    (t.state.device.iocbs t.state.device.port.ioHead).buffer = head.buffer := by
  obtain ⟨r, rest, hdrop, -, v, hv⟩ := h.head hbusy
  have hr : t.state.requests[k]? = some r := by
    have hget : (t.state.accepted.drop k)[0]? = some (t.state.device.port.ioHead, r) := by
      rw [hdrop]
      rfl
    rw [List.getElem?_drop, Nat.add_zero] at hget
    rw [PortState.requests, List.getElem?_map, hget]
    rfl
  rw [hhead] at hr
  cases hr
  rw [hv]

theorem WireInv.more {sent : List U8} (h : WireInv Owns m t k live)
    (hwrite : t.state.device.port.operation = .write) (hmore : t.state.device.More) :
    WireInv Owns m ⟨⟨t.state.device.sendNext, t.state.accepted, sent⟩, t.starters⟩ k live := by
  obtain ⟨ended, starter, head, n, hin⟩ := h.transferring hwrite
  have hbusy : t.state.device.port.operation ≠ .idle := by
    rw [hwrite]
    decide
  have hlt := hmore.2
  rw [hin.counter, hin.count] at hlt
  refine ⟨⟨portInv_more _ h.toPortInv hwrite, Or.inr hwrite⟩, h.mem, h.sublist, ?_, ?_⟩
  · intro hcontra
    exact absurd hcontra hbusy
  · intro _
    refine ⟨ended, starter, head, n + 1, hin.starters, hin.length, hin.served, ?_, hin.count,
      hin.eventFlag, Or.inr (by exact_mod_cast hlt), ?_⟩
    · simp only [Device.sendNext, hin.counter]
      rfl
    · have hindex : BitVec.ofInt 32 t.state.device.port.counter = BitVec.ofNat 32 (n + 1) := by
        rw [hin.counter]
        exact BitVec.ofInt_natCast 32 (n + 1)
      calc t.state.device.sendNext.wire
          = t.state.device.wire ++
              [0x02, m.byte (head.buffer + BitVec.ofNat 32 (n + 1))] := by
            rw [wire_sendNext h.openPort.currDev, h.head_buffer hbusy hin.served, hindex, h.mem]
        _ = endedWires m ended t.state.requests ++ transferWire m starter head (n + 1) := by
            rw [hin.wire, transferWire_succ, List.append_assoc]

theorem WireInv.done {heap : σ} (h : WireInv Owns m t k live)
    (hwrite : t.state.device.port.operation = .write) (hdone : ¬ t.state.device.More)
    (hown : Owns heap (live.erase t.state.device.port.ioHead)) :
    WireInv Owns m ⟨⟨t.state.device.completed heap, t.state.accepted, t.state.sent⟩, t.starters⟩
      (k + 1) (live.erase t.state.device.port.ioHead) := by
  obtain ⟨ended, starter, head, n, hin⟩ := h.transferring hwrite
  have hlast : ¬ ((n : Int) + 1 < starter.bufSize) := by
    rw [← hin.counter, ← hin.count]
    exact fun hlt => hdone ⟨hin.eventFlag, hlt⟩
  have hn : n = starter.rest := by
    have hbound := hin.bound
    rw [Iocb.rest]
    omega
  refine ⟨⟨portInv_done h.toPortInv hwrite hown, Or.inl rfl⟩, h.mem, h.sublist, ?_, ?_⟩
  · intro _
    refine ⟨?_, ?_⟩
    · rw [hin.starters, List.length_append, hin.length]
      rfl
    · have hpairs : t.starters.zip t.state.requests =
          ended.zip t.state.requests ++ [(starter, head)] := by
        rw [hin.starters]
        exact zip_snoc (by rw [hin.length]; exact hin.served)
      calc (t.state.device.completed heap).wire
          = endedWires m ended t.state.requests ++ (transferWire m starter head n ++ [0x02]) := by
            rw [wire_completed, hin.wire, List.append_assoc]
        _ = endedWires m t.starters t.state.requests := by
            rw [endedWires, endedWires, hpairs, List.flatMap_append, List.flatMap_singleton,
              endedWire, hn]
  · intro hcontra
    cases hcontra

theorem WireInv.step (hlaws : HeapLaws F Owns) (h : WireInv Owns m t k live)
    (hstep : TransferStep F t t') : ∃ k' live', WireInv Owns m t' k' live' := by
  obtain ⟨e, he, hrun⟩ := hstep
  obtain ⟨st, hport, -⟩ := of_bind_ok hrun
  -- a port that writes, or that stays idle, starts nothing
  have hbusy : t.state.device.port.operation = .write →
      ¬ (t.state.device.port.operation = .idle ∧ st.device.port.operation = .write) := by
    intro hwrite hboth
    rw [hwrite] at hboth
    cases hboth.1
  have hstill : st = t.state →
      ¬ (t.state.device.port.operation = .idle ∧ st.device.port.operation = .write) := by
    intro hsame hboth
    rw [hsame, hboth.1] at hboth
    cases hboth.2
  cases step_outcome hlaws h.toPortInv hport with
  | refused =>
      rw [transfers_step_same hport (hstill rfl) hrun]
      exact ⟨k, live, h⟩
  | accepted proc buf len op temp ioHead heap iocbs d' hbuf hnew hown hqueue hsame hstart =>
      obtain rfl : op = .write := he
      obtain ⟨hkeeps, hwrite, hcases⟩ := h.started hbuf hstart
      have hnext := portInv_accepted
        (if t.state.device.port.operation = .idle ∧ d'.port.operation = .write
          then d'.wire.getLast?.toList else t.state.sent)
        h.toPortInv hnew hown hqueue hsame hkeeps
      refine ⟨k, temp :: live, ?_⟩
      cases hcases with
      | inl hstarts =>
          obtain ⟨hidle, rfl⟩ := hstarts
          rw [transfers_step_started hport rfl ⟨hidle, rfl⟩ hrun]
          exact h.starts hidle ⟨hnext, Or.inr rfl⟩
      | inr hwaits =>
          obtain ⟨hwriting, rfl⟩ := hwaits
          rw [transfers_step_same hport (hbusy hwriting) hrun]
          exact h.waits hwriting ⟨hnext, Or.inr hwrite⟩
  | spurious =>
      rw [transfers_step_same hport (hstill rfl) hrun]
      exact ⟨k, live, h⟩
  | more s hop hmore =>
      rw [transfers_step_same hport (hbusy hop) hrun]
      exact ⟨k, live, h.more hop hmore⟩
  | done s hop hdone heap hown =>
      rw [transfers_step_same hport (hbusy hop) hrun]
      exact ⟨k + 1, _, h.done hop hdone hown⟩

end Steps

/-- In every run of WRITE requests the wire carries one transfer after the other, the `k`-th
with the length and the first byte of the `k`-th request that has found the port idle and the
other bytes of the `k`-th request of all. -/
theorem wire_of_transfers {d : Device Heap} {live : List U32} {t : Transfers Heap}
    (hfresh : FreshPort d) (hown : OwnsBlocks d.heap live)
    (hrun : TransferRun studentHeap ⟨PortState.start d, []⟩ t) :
    t.starters.Sublist t.state.requests ∧
    ∃ k, t.state.device.Queued ((t.state.accepted.drop k).map Prod.fst) ∧
      (t.state.device.port.operation = .idle ∧ t.starters.length = k ∧
          t.state.device.wire = endedWires d.mem t.starters t.state.requests ∨
        t.state.device.port.operation = .write ∧ ∃ ended starter head n,
          t.starters = ended ++ [starter] ∧ ended.length = k ∧
          t.state.requests[k]? = some head ∧ n ≤ starter.rest ∧
          t.state.device.wire =
            endedWires d.mem ended t.state.requests ++ transferWire d.mem starter head n) := by
  obtain ⟨k, live', h⟩ := Run.invariant
    (fun t => ∃ k live', WireInv OwnsBlocks d.mem t k live')
    (fun _ _ ⟨_, _, h⟩ hstep => h.step studentHeap_laws hstep) hrun
    ⟨0, live, wireInv_start hfresh hown⟩
  refine ⟨h.sublist, k, h.queued, ?_⟩
  cases h.mode with
  | inl hidle =>
      obtain ⟨hlength, hwire⟩ := h.resting hidle
      exact Or.inl ⟨hidle, hlength, hwire⟩
  | inr hwrite =>
      obtain ⟨ended, starter, head, n, hin⟩ := h.transferring hwrite
      have hn : n ≤ starter.rest := by
        have hbound := hin.bound
        rw [Iocb.rest]
        omega
      exact Or.inr ⟨hwrite, ended, starter, head, n, hin.starters, hin.length, hin.served, hn,
        hin.wire⟩

def Transfers.runAll (F : HeapFunctions σ) (t : Transfers σ) :
    List PortEvent → Except Fault (Transfers σ)
  | [] => .ok t
  | e :: es => do
      let t ← t.step F e
      t.runAll F es

theorem transferRun_runAll {es : List PortEvent} {t t' : Transfers σ}
    (hallowed : ∀ st : PortState σ, ∀ e ∈ es, WriteRequest st e)
    (hrun : t.runAll F es = .ok t') : TransferRun F t t' := by
  induction es generalizing t with
  | nil =>
      cases hrun
      exact Relation.ReflTransGen.refl
  | cons e es ih =>
      obtain ⟨t₁, hstep, hrest⟩ := of_bind_ok hrun
      have hfirst : TransferStep F t t₁ := ⟨e, hallowed t.state e List.mem_cons_self, hstep⟩
      have hothers : ∀ st : PortState σ, ∀ e ∈ es, WriteRequest st e :=
        fun st e he => hallowed st e (List.mem_cons_of_mem _ he)
      exact Relation.ReflTransGen.head hfirst (ih hothers hrest)

/-- The second request waits, and the third one starts a transfer of its length with the
bytes of the second. -/
theorem wire_of_transfers_three_requests :
    ∃ t, TransferRun studentHeap ⟨PortState.start bootedPort, []⟩ t ∧
      t.starters.map (fun r => r.bufSize) = [1, 2] ∧
      t.state.device.wire = [0x41, 0x02, 0x61, 0x02, 0x51, 0x02] ∧
      t.state.device.wire = endedWires bootedPort.mem t.starters t.state.requests := by
  have hcompute : (Transfers.runAll studentHeap ⟨PortState.start bootedPort, []⟩
      [.submit 0x100 COM1 0x6041 1 .write, .submit 0x200 COM1 0x6050 1 .write,
        .outputInterrupt noQueues, .submit 0x300 COM1 0x6061 2 .write,
        .outputInterrupt noQueues, .outputInterrupt noQueues]).map
      (fun t => (t.starters.map (fun r => r.bufSize), t.state.device.wire,
        t.state.device.port.operation)) =
      .ok ([1, 2], [0x41, 0x02, 0x61, 0x02, 0x51, 0x02], .idle) := by decide +kernel
  obtain ⟨t, hrun, hresult⟩ := of_map_ok hcompute
  simp only [Prod.mk.injEq] at hresult
  obtain ⟨hstarters, hwire, hidle⟩ := hresult
  have hport : TransferRun studentHeap ⟨PortState.start bootedPort, []⟩ t := by
    apply transferRun_runAll (fun _ => ?_) hrun
    simp [WriteRequest]
  obtain ⟨-, k, -, hpairs⟩ := wire_of_transfers bootedPort_fresh kernelHeap_owns hport
  refine ⟨t, hport, hstarters, hwire, ?_⟩
  cases hpairs with
  | inl hresting => exact hresting.2.2
  | inr hbusy =>
      rw [hidle] at hbusy
      cases hbusy.1

end Mpx
