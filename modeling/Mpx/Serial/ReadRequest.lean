import Mpx.Serial.Transfer

/-! READ requests that the ring buffer satisfies at once. -/

namespace Mpx

open Memory PointerList Run

variable {σ : Type} {F : HeapFunctions σ}

/-- If `serial_read` has completed the request in the block `temp`, then the request is
off the queue, its process has been unblocked once, and a later WRITE is the head of the
queue. A length of 0 starts no transfer. -/
def ReadConsistent (F : HeapFunctions σ) (d : Device σ) (proc buf len temp : U32) : Prop :=
  ∀ d', ioScheduler F d proc COM1 buf len .read = .ok d' → len ≠ 0 →
    d'.port.operation = .idle → d'.port.eventFlag = 1 →
    (∀ xs, d'.Queued xs → temp ∉ xs) ∧ d'.calls.count (.unblockPcb proc) = 1 ∧
      ∀ proc' buf' len' d'', buf' ≠ 0 →
        ioScheduler F d' proc' COM1 buf' len' .write = .ok d'' →
        (d''.iocbs d''.port.ioHead).buffer = buf' ∧
          (d''.iocbs d''.port.ioHead).currProc = proc'

theorem ioScheduler_read {d : Device σ} {proc buf len temp : U32} {heap : σ}
    (hfresh : FreshPort d) (hbuf : buf ≠ 0) (hlen : len ≠ 0)
    (halloc : sysAllocMem F d.heap iocbSize = .ok (temp, heap)) (htemp : temp ≠ 0) :
    ∃ d', ioScheduler F d proc COM1 buf len .read = .ok d' ∧ d'.Queued [temp] ∧
      d'.port.operation =
        (if ReadSatisfied d.port.ringBuffer len then OpCode.idle else OpCode.read) ∧
      d'.port.eventFlag = if ReadSatisfied d.port.ringBuffer len then 1 else 0 := by
  have hempty : d.Queued [] := hfresh.empty
  obtain ⟨iocbs, ioHead, hqueue, -, heq⟩ :=
    @ioScheduler_append σ F d [] temp proc buf len heap .read hempty hbuf halloc htemp
      List.not_mem_nil
  have hopen := hfresh.openPort.withQueue heap iocbs ioHead
  obtain ⟨ring, mem, hstart⟩ := startIfIdle_read hopen hfresh.idle hbuf hlen
  exact ⟨_, heq.trans hstart, hqueue, rfl, rfl⟩

theorem not_readConsistent {d : Device σ} {proc buf len temp : U32} {heap : σ}
    (hfresh : FreshPort d) (hbuf : buf ≠ 0)
    (halloc : sysAllocMem F d.heap iocbSize = .ok (temp, heap)) (htemp : temp ≠ 0)
    (hsat : ReadSatisfied d.port.ringBuffer len) : ¬ ReadConsistent F d proc buf len temp := by
  intro hconsistent
  have hlen : len ≠ 0 := by
    rintro rfl
    exact absurd hsat.1 (by decide)
  obtain ⟨d', hrun, hqueue, hoperation, hevent⟩ :=
    @ioScheduler_read σ F d proc buf len temp heap hfresh hbuf hlen halloc htemp
  rw [if_pos hsat] at hoperation hevent
  obtain ⟨hgone, -⟩ := hconsistent d' hrun hlen hoperation hevent
  exact hgone [temp] hqueue List.mem_cons_self

/-- A READ leaves the queue consistent exactly where the ring cannot satisfy it. -/
theorem read_consistent_iff {d : Device σ} {proc buf len temp : U32} {heap : σ}
    (hfresh : FreshPort d) (hbuf : buf ≠ 0)
    (halloc : sysAllocMem F d.heap iocbSize = .ok (temp, heap)) (htemp : temp ≠ 0) :
    ReadConsistent F d proc buf len temp ↔ ¬ ReadSatisfied d.port.ringBuffer len := by
  constructor
  · intro hconsistent hsat
    exact not_readConsistent hfresh hbuf halloc htemp hsat hconsistent
  · intro hnot d₁ hrun₁ hlen hidle
    obtain ⟨d', hrun, -, hoperation, -⟩ :=
      @ioScheduler_read σ F d proc buf len temp heap hfresh hbuf hlen halloc htemp
    rw [hrun] at hrun₁
    cases hrun₁
    rw [hoperation, if_neg hnot] at hidle
    cases hidle

def typedPort : Device Heap :=
  Device.opened ((((Vector.replicate 16 0).set 0 72).set 1 73).set 2 10)
    ⟨fun x => x.setWidth 8⟩ kernelHeap

theorem typedPort_fresh : FreshPort typedPort :=
  ⟨⟨rfl, rfl, rfl, rfl⟩, rfl, rfl, rfl⟩

theorem typedPort_alloc :
    ∃ heap, sysAllocMem studentHeap typedPort.heap iocbSize = .ok (0xD000004, heap) := by
  have hcompute : (sysAllocMem studentHeap typedPort.heap iocbSize).map Prod.fst =
      .ok 0xD000004 := by decide +kernel
  obtain ⟨⟨temp, heap⟩, halloc, rfl⟩ := of_map_ok hcompute
  exact ⟨heap, halloc⟩

theorem read_consistent_iff_typed :
    ReadConsistent studentHeap typedPort 0x100 0x6000 5 0xD000004 ↔
      ¬ ReadSatisfied typedPort.port.ringBuffer 5 := by
  obtain ⟨heap, halloc⟩ := typedPort_alloc
  exact read_consistent_iff typedPort_fresh (by decide) halloc (by decide)

/-- The READ of the line "HI" completes and stays at the head of the queue, so that the
WRITE behind it ends with the release of the READ and wakes the reader. -/
theorem completed_read_stays_queued :
    ((PortState.start typedPort).runAll studentHeap
      [.submit 0x100 COM1 0x6000 5 .read]).map
      (fun st => (st.device.port.operation, st.device.port.eventFlag, st.device.port.ioHead)) =
      .ok (.idle, 1, 0xD000004) ∧
    ((PortState.start typedPort).runAll studentHeap
      [.submit 0x100 COM1 0x6000 5 .read, .submit 0x200 COM1 0x7000 1 .write,
        .outputInterrupt noQueues]).map (fun st => st.device.calls) =
      .ok [.unblockPcb 0x100, .freeMem 0xD000004] ∧
    ¬ ReadConsistent studentHeap typedPort 0x100 0x6000 5 0xD000004 := by
  obtain ⟨heap, halloc⟩ := typedPort_alloc
  refine ⟨by decide +kernel, by decide +kernel, ?_⟩
  exact not_readConsistent typedPort_fresh (by decide) halloc (by decide) (by decide +kernel)

end Mpx
