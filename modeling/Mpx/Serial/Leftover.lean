import Mpx.Serial.BaudRate
import Mpx.Serial.Read
import Mpx.Heap.FirstFit

/-! What `serial_open` takes over from the memory that its control block is carved from. -/

namespace Mpx

open Memory Run

/-- Two calls that succeed leave the same control block, with no request and no input. -/
def DefinedOpen (serialIsr : U32) (speed : Int) (s₁ s₂ : Driver Heap) : Prop :=
  ∀ s₁' s₂', serialOpen studentHeap serialIsr s₁ COM1 speed = .ok (0, s₁') →
    serialOpen studentHeap serialIsr s₂ COM1 speed = .ok (0, s₂') →
    s₁'.device.port = s₂'.device.port ∧ s₁'.device.port.ioHead = 0 ∧
      ringText s₁'.device.port.ringBuffer.toList = []

section Leftover

variable {s s' s₁ s₂ : Driver Heap} {heap : Heap} {live live₁ live₂ : List U32}
  {block serialIsr : U32} {speed : Int}

theorem port_serialOpen (halloc : allocateMemory s.heap dcbSize = .ok (block, heap))
    (hrun : serialOpen studentHeap serialIsr s COM1 speed = .ok (0, s')) :
    s'.device.port = initDcb COM1 (s.dcbs block) := by
  rcases serialOpen_returns hrun with ⟨block', heap', halloc', -, hnew, -, hdcbs, -⟩
  have heq : allocateMemory s.heap dcbSize = .ok (block', heap') := halloc'
  rw [halloc] at heq
  cases heq
  rw [Driver.device, hnew, hdcbs, Function.update_self]

theorem initDcb_eq_iff (p₁ p₂ : Dcb) : initDcb COM1 p₁ = initDcb COM1 p₂ ↔
    p₁.ioHead = p₂.ioHead ∧ p₁.ringBuffer = p₂.ringBuffer := by
  simp only [initDcb, Dcb.mk.injEq, true_and]
  exact and_comm

theorem allocates_same (hown₁ : OwnsBlocks s₁.heap live₁) (hown₂ : OwnsBlocks s₂.heap live₂)
    (hchain : s₁.heap.chain = s₂.heap.chain)
    (halloc : allocateMemory s₁.heap dcbSize = .ok (block, heap)) :
    ∃ heap', allocateMemory s₂.heap dcbSize = .ok (block, heap') := by
  rcases allocateMemory_total hown₂ dcbSize with ⟨block', heap', halloc'⟩
  rcases hown₁ with ⟨a₁, total₁, bs₁, hinv₁⟩
  rcases hown₂ with ⟨a₂, total₂, bs₂, hinv₂⟩
  have hsame := allocateMemory_congr hinv₁.represents hinv₂.represents hchain halloc halloc'
  rw [hsame.1]
  exact ⟨heap', halloc'⟩

/-- The outcome is defined exactly when the leftover memory has NULL in the place of the
queue, a NUL at the start of the ring, and the same ring in both cases. -/
theorem open_defined_iff (serialIsr : U32) (hown₁ : OwnsBlocks s₁.heap live₁)
    (hown₂ : OwnsBlocks s₂.heap live₂) (hchain : s₁.heap.chain = s₂.heap.chain)
    (halloc : allocateMemory s₁.heap dcbSize = .ok (block, heap)) (hblock : block ≠ 0)
    (hspeed : 0 < speed) : DefinedOpen serialIsr speed s₁ s₂ ↔
      (s₁.dcbs block).ioHead = 0 ∧ (s₂.dcbs block).ioHead = 0 ∧
      (s₁.dcbs block).ringBuffer = (s₂.dcbs block).ringBuffer ∧
      ringText (s₁.dcbs block).ringBuffer.toList = [] := by
  rcases allocates_same hown₁ hown₂ hchain halloc with ⟨heap', halloc'⟩
  have hport : DefinedOpen serialIsr speed s₁ s₂ ↔
      initDcb COM1 (s₁.dcbs block) = initDcb COM1 (s₂.dcbs block) ∧
      (s₁.dcbs block).ioHead = 0 ∧ ringText (s₁.dcbs block).ringBuffer.toList = [] := by
    constructor
    · intro hdefined
      have hcall₁ : sysAllocMem studentHeap s₁.heap dcbSize = .ok (block, heap) := halloc
      have hcall₂ : sysAllocMem studentHeap s₂.heap dcbSize = .ok (block, heap') := halloc'
      have hrun₁ := serialOpen_accepted serialIsr hcall₁ hblock hspeed.le
      have hrun₂ := serialOpen_accepted serialIsr hcall₂ hblock hspeed.le
      rw [if_neg hspeed.ne'] at hrun₁ hrun₂
      have h := hdefined _ _ hrun₁ hrun₂
      rw [port_serialOpen halloc hrun₁, port_serialOpen halloc' hrun₂] at h
      exact h
    · intro h s₁' s₂' hrun₁ hrun₂
      rw [port_serialOpen halloc hrun₁, port_serialOpen halloc' hrun₂]
      exact h
  rw [hport, initDcb_eq_iff]
  constructor
  · intro h
    rcases h with ⟨⟨hqueue, hring⟩, hempty, htext⟩
    exact ⟨hempty, hqueue ▸ hempty, hring, htext⟩
  · intro h
    rcases h with ⟨hempty₁, hempty₂, hring, htext⟩
    exact ⟨⟨by rw [hempty₁, hempty₂], hring⟩, hempty₁, htext⟩

/-- Memory that was in use before, with NULL in the place of the queue and NUL before the letters
in the ring. -/
def harmlessDcb (operation : OpCode) (count : Int) : Dcb :=
  { clearedDcb with
    operation := operation, count := count
    ringBuffer := Vector.ofFn fun i => if i = 0 then 0 else 65 }

theorem open_defined_iff_cleared : 0 < (9600 : Int) ∧
    DefinedOpen 0x1000 9600 (bootDriver (harmlessDcb .write 57))
      (bootDriver (harmlessDcb .idle 0)) :=
  ⟨by decide, (@open_defined_iff (bootDriver (harmlessDcb .write 57))
    (bootDriver (harmlessDcb .idle 0)) _ _ _ _ 9600 0x1000 kernelHeap_owns kernelHeap_owns rfl
    allocate_openBlock.1 openBlock_ne_zero (by decide)).mpr ⟨rfl, rfl, rfl, by decide⟩⟩

def staleDcb : Dcb := { clearedDcb with ringBuffer := Vector.replicate 16 65, ioHead := 0x2000 }

/-- With stale memory the queue of the new port begins with a pointer that no request is at,
and its ring holds letters that were never typed. -/
theorem open_undefined_stale :
    (∃ s₁' s₂', serialOpen studentHeap 0x1000 (bootDriver clearedDcb) COM1 9600 = .ok (0, s₁') ∧
      serialOpen studentHeap 0x1000 (bootDriver staleDcb) COM1 9600 = .ok (0, s₂') ∧
      s₁'.device.port.ioHead = 0 ∧ s₂'.device.port.ioHead = 0x2000 ∧
      ringText s₂'.device.port.ringBuffer.toList = List.replicate 16 65) ∧
    ¬ DefinedOpen 0x1000 9600 (bootDriver clearedDcb) (bootDriver staleDcb) := by
  have hspeed : (0 : Int) ≤ 9600 := by decide
  have hrun₁ := serialOpen_accepted 0x1000 (bootDriver_allocates clearedDcb) openBlock_ne_zero hspeed
  have hrun₂ := serialOpen_accepted 0x1000 (bootDriver_allocates staleDcb) openBlock_ne_zero hspeed
  rw [if_neg (by decide)] at hrun₁ hrun₂
  have hport₁ : _ = initDcb COM1 clearedDcb :=
    port_serialOpen (bootDriver_allocates clearedDcb) hrun₁
  have hport₂ : _ = initDcb COM1 staleDcb := port_serialOpen (bootDriver_allocates staleDcb) hrun₂
  have hhead : (initDcb COM1 staleDcb).ioHead = 0x2000 := rfl
  constructor
  · exact ⟨_, _, hrun₁, hrun₂, by rw [hport₁]; rfl, by rw [hport₂]; exact hhead,
      by rw [hport₂]; decide⟩
  · intro hdefined
    have h := hdefined _ _ hrun₁ hrun₂
    have hempty := h.2.1
    rw [h.1, hport₂, hhead] at hempty
    exact absurd hempty (by decide)

end Leftover

end Mpx
