import Mpx.Base.Run
import Mpx.Serial.Model

/-! `io_scheduler` on a heap that has no room for a request. -/

namespace Mpx

open Memory Run

/-- The call returns, and the queue and the transfer are as before. -/
def LeavesQueue (d : Device Heap) (result : Except Fault (Device Heap)) : Prop :=
  ∃ d', result = .ok d' ∧ d'.port = d.port ∧ d'.iocbs = d.iocbs ∧ d'.trace = d.trace

section Exhausted

variable {d : Device Heap} {live : List U32}

/-- Without room the request would be written through NULL. -/
theorem ioScheduler_exhausted (hown : OwnsBlocks d.heap live)
    (hfull : NoRoom d.heap (roundup iocbSize).toNat) (globalPcb buf len : U32)
    (operation : OpCode) : ioScheduler studentHeap d globalPcb COM1 buf len operation =
      if buf = 0 then .ok d else .error .nullPointer := by
  by_cases hbuf : buf = 0
  · rw [ioScheduler, if_pos (Or.inr hbuf), if_pos hbuf]
  · have hvalid : ¬ (COM1 ≠ COM1 ∨ buf = 0) := by
      rw [not_or]
      exact ⟨fun h => h rfl, hbuf⟩
    rcases allocateMemory_total hown iocbSize with ⟨p, h', hrun⟩
    have hnull : p = 0 := (allocateMemory_null_iff hown (by decide) hrun).mpr hfull
    have hcall : sysAllocMem studentHeap d.heap iocbSize = .ok (p, h') := hrun
    rw [ioScheduler, if_neg hvalid, if_neg hbuf, hcall]
    exact if_pos hnull

/-- Only a call with a NULL buffer, which comes to its end before the allocation, leaves the
queue alone. -/
theorem exhausted_leaves_queue_iff (hown : OwnsBlocks d.heap live)
    (hfull : NoRoom d.heap (roundup iocbSize).toNat) (globalPcb buf len : U32)
    (operation : OpCode) :
    LeavesQueue d (ioScheduler studentHeap d globalPcb COM1 buf len operation) ↔ buf = 0 := by
  rw [ioScheduler_exhausted hown hfull]
  by_cases hbuf : buf = 0
  · rw [if_pos hbuf]
    exact iff_of_true ⟨d, rfl, rfl, rfl, rfl⟩ hbuf
  · rw [if_neg hbuf]
    apply iff_of_false _ hbuf
    intro hleaves
    rcases hleaves with ⟨d', hrun, -⟩
    cases hrun

def fullHeap : Heap :=
  match allocateMemory kernelHeap 50000 with
  | .ok r => r.2
  | .error _ => kernelHeap

theorem fullHeap_owns : OwnsBlocks fullHeap [0xD000004] := by
  have hblock : (allocateMemory kernelHeap 50000).map Prod.fst = .ok 0xD000004 := by
    decide +kernel
  rcases of_map_ok hblock with ⟨⟨p, h⟩, hrun, hp⟩
  have hp' : p = 0xD000004 := hp
  have hown := allocateMemory_owns kernelHeap_owns hrun
  rw [hp', if_neg (by decide)] at hown
  rw [fullHeap, hrun]
  exact hown

theorem fullHeap_chain : fullHeap.chain = .ok [⟨0xD000000, 50000, false, true⟩] := by
  decide +kernel

theorem fullHeap_noRoom : NoRoom fullHeap (roundup iocbSize).toNat := by
  intro bs hchain b hb hfree
  rw [fullHeap_chain] at hchain
  cases hchain
  rw [List.mem_singleton.mp hb] at hfree
  cases hfree

def fullDevice : Device Heap := Device.opened (Vector.replicate 16 0) ⟨fun _ => 0⟩ fullHeap

theorem exhausted_leaves_queue_null :
    LeavesQueue fullDevice (ioScheduler studentHeap fullDevice 0x2000 COM1 0 5 .write) :=
  (exhausted_leaves_queue_iff fullHeap_owns fullHeap_noRoom 0x2000 0 5 .write).mpr rfl

/-- A write of five characters. -/
theorem exhausted_null_store :
    NoRoom fullDevice.heap (roundup iocbSize).toNat ∧
    ioScheduler studentHeap fullDevice 0x2000 COM1 0x8000 5 .write = .error .nullPointer ∧
    ¬ LeavesQueue fullDevice (ioScheduler studentHeap fullDevice 0x2000 COM1 0x8000 5 .write) := by
  have hrun := ioScheduler_exhausted (d := fullDevice) fullHeap_owns fullHeap_noRoom 0x2000 0x8000 5
    .write
  rw [if_neg (by decide)] at hrun
  refine ⟨fullHeap_noRoom, hrun, ?_⟩
  intro hleaves
  rcases hleaves with ⟨d', hreturn, -⟩
  rw [hrun] at hreturn
  cases hreturn

end Exhausted

end Mpx
