import Mpx.Serial.Open

/-! The divisor latch of COM1 after `serial_open`. -/

namespace Mpx

open Memory Run

variable {σ : Type}

structure Latch where
  lcr : U8
  dll : U8
  dlm : U8

namespace Latch

/-- Bit 7 of the line control register gives access to the latch. -/
def write (l : Latch) : Effect → Latch
  | .outb port data =>
      if port = COM1 + LCR then { l with lcr := data }
      else if l.lcr &&& 0x80 = 0 then l
      else if port = COM1 + DLL then { l with dll := data }
      else if port = COM1 + DLM then { l with dlm := data }
      else l
  | _ => l

section Write

variable {port : U32}

theorem write_lcr (l : Latch) (data : U8) :
    l.write (.outb (COM1 + LCR) data) = ⟨data, l.dll, l.dlm⟩ := by
  simp only [write, if_true]

theorem write_closed (dll dlm data : U8) (hport : port ≠ COM1 + LCR) :
    (Latch.mk 0x03 dll dlm).write (.outb port data) = ⟨0x03, dll, dlm⟩ := by
  have hclosed : (0x03 : U8) &&& 0x80 = 0 := by decide
  simp only [write, if_neg hport, if_pos hclosed]

theorem write_dll (dll dlm data : U8) :
    (Latch.mk 0x80 dll dlm).write (.outb (COM1 + DLL) data) = ⟨0x80, data, dlm⟩ := by
  have hport : COM1 + DLL ≠ COM1 + LCR := by decide
  have hopen : (0x80 : U8) &&& 0x80 ≠ 0 := by decide
  simp only [write, if_neg hport, if_neg hopen, if_true]

theorem write_dlm (dll dlm data : U8) :
    (Latch.mk 0x80 dll dlm).write (.outb (COM1 + DLM) data) = ⟨0x80, dll, data⟩ := by
  have hport : COM1 + DLM ≠ COM1 + LCR := by decide
  have hport' : COM1 + DLM ≠ COM1 + DLL := by decide
  have hopen : (0x80 : U8) &&& 0x80 ≠ 0 := by decide
  simp only [write, if_neg hport, if_neg hport', if_neg hopen, if_true]

end Write

def divisor (l : Latch) : Nat := 256 * l.dlm.toNat + l.dll.toNat

end Latch

/-- The call returns 0, without a division by zero, and its writes leave the divisor for
`speed` in the latch. -/
def DivisorSet (F : HeapFunctions σ) (l : Latch) (serialIsr : U32) (s : Driver σ) (speed : Int) :
    Prop :=
  ∃ s' writes, serialOpen F serialIsr s COM1 speed = .ok (0, s') ∧
    s'.trace = s.trace ++ writes ∧ ((writes.foldl Latch.write l).divisor : Int) = 115200 / speed

/-- The speeds for which the remainder, in the place of the high byte, does no harm. -/
def ExactRate (speed : Int) : Prop :=
  speed ∈ ([56, 73, 129, 141] : List Int) ∨ (450 < speed ∧ speed ≤ 115200 ∧
    115200 % speed % 256 = 0) ∨ 115200 < speed

instance (speed : Int) : Decidable (ExactRate speed) := inferInstanceAs (Decidable (_ ∨ _))

section Divisor

variable {F : HeapFunctions σ} {serialIsr block : U32} {s : Driver σ} {speed : Int} {heap : σ}

def openWrites (mask : U8) (speed : Int) : List Effect :=
  [.outb (COM1 + IER) 0x00, .outb (COM1 + LCR) 0x80,
    .outb (COM1 + DLM) (BitVec.ofInt 8 (Int.tmod 115200 speed)),
    .outb (COM1 + DLL) (BitVec.ofInt 8 (Int.tdiv 115200 speed)), .outb (COM1 + LCR) 0x03,
    .outb STATUS_REG mask, .outb (COM1 + MCR) 0x0F, .outb (COM1 + IER) 0x01]

theorem trace_programPort (s : Driver σ) (speed : Int) :
    ∃ mask, (programPort s COM1 speed).trace = s.trace ++ openWrites mask speed := by
  refine ⟨s.picMask &&& ~~~0x10, ?_⟩
  simp only [programPort, Driver.outb, List.append_assoc, List.cons_append, List.nil_append]
  rfl

/-- The remainder is the high byte of the divisor. -/
theorem divisor_openWrites (l : Latch) (mask : U8) (speed : Int) :
    ((openWrites mask speed).foldl Latch.write l).divisor =
      256 * (BitVec.ofInt 8 (Int.tmod 115200 speed)).toNat +
        (BitVec.ofInt 8 (Int.tdiv 115200 speed)).toNat := by
  -- the first write may reach the latch too
  rw [openWrites, List.foldl_cons]
  generalize l.write _ = opened
  have hpic : STATUS_REG ≠ COM1 + LCR := by decide
  have hmcr : COM1 + MCR ≠ COM1 + LCR := by decide
  have hier : COM1 + IER ≠ COM1 + LCR := by decide
  simp only [List.foldl_cons, List.foldl_nil, Latch.write_lcr, Latch.write_dlm, Latch.write_dll,
    Latch.write_closed _ _ _ hpic, Latch.write_closed _ _ _ hmcr, Latch.write_closed _ _ _ hier,
    Latch.divisor]

def opening (s : Driver σ) (block : U32) (heap : σ) : Driver σ :=
  { Driver.modifyPort { s with serialPort := block, heap := heap } (initDcb COM1) with
    initialized := true }

theorem serialOpen_accepted (serialIsr : U32) (halloc : sysAllocMem F s.heap dcbSize = .ok (block, heap))
    (hblock : block ≠ 0) (hspeed : 0 ≤ speed) : serialOpen F serialIsr s COM1 speed =
      if speed = 0 then .error .diverges
      else .ok (0, programPort ((opening s block heap).idtInstall 0x24 serialIsr) COM1 speed) := by
  have hvalid : ¬ (COM1 ≠ COM1 ∨ speed < 0) := by
    rw [not_or]
    exact ⟨fun h => h rfl, by omega⟩
  have hfree : ¬ (opening s block heap).device.port.status = .inUse := by
    simp [opening, Driver.device, Driver.modifyPort, initDcb]
  rw [serialOpen, halloc]
  exact (if_neg hblock).trans ((if_neg hvalid).trans (if_neg hfree))

theorem bytes_eq_iff (rem quot : Nat) :
    256 * (rem % 256) + quot % 256 = quot ↔ rem % 256 = quot / 256 := by
  omega

theorem quotient_le {n : Nat} (hlow : 450 < n) : 115200 / n ≤ 255 := by
  calc
    115200 / n ≤ 115200 / 451 := Nat.div_le_div_left hlow (by decide)
    _ = 255 := by decide

/-- Speeds whose quotient has a high byte that is not zero. -/
theorem slow_rate (n : Nat) (hlow : 0 < n) (hhigh : n ≤ 450) :
    115200 % n % 256 = 115200 / n / 256 ↔ n ∈ [56, 73, 129, 141] := by
  have hall : ∀ n < 451, 0 < n →
      (115200 % n % 256 = 115200 / n / 256 ↔ n ∈ [56, 73, 129, 141]) := by
    decide +kernel
  exact hall n (by omega) hlow

theorem divisor_eq_iff (l : Latch) (mask : U8) (n : Nat) :
    (((openWrites mask n).foldl Latch.write l).divisor : Int) = 115200 / (n : Int) ↔
      115200 % n % 256 = 115200 / n / 256 := by
  have hbyte : ∀ m : Nat, (BitVec.ofInt 8 (m : Int)).toNat = m % 256 := by
    intro m
    rw [BitVec.ofInt_natCast, BitVec.toNat_ofNat]
  have hrem : Int.tmod 115200 n = ((115200 % n : Nat) : Int) := rfl
  have hquot : Int.tdiv 115200 n = ((115200 / n : Nat) : Int) := rfl
  have hfloor : (115200 : Int) / (n : Int) = ((115200 / n : Nat) : Int) := rfl
  rw [divisor_openWrites, hrem, hquot, hbyte, hbyte, hfloor, Int.natCast_inj, bytes_eq_iff]

theorem exactRate_iff {n : Nat} (hn : n ≠ 0) :
    115200 % n % 256 = 115200 / n / 256 ↔ ExactRate n := by
  by_cases hslow : n ≤ 450
  · rw [slow_rate n (Nat.pos_of_ne_zero hn) hslow, ExactRate]
    simp only [List.mem_cons, List.not_mem_nil, or_false]
    omega
  · have hquot : 115200 / n / 256 = 0 :=
      Nat.div_eq_of_lt (Nat.lt_succ_of_le (quotient_le (not_le.mp hslow)))
    rw [hquot, ExactRate]
    have hrem : (115200 : Int) % (n : Int) % 256 = ((115200 % n % 256 : Nat) : Int) := rfl
    rw [hrem]
    simp only [List.mem_cons, List.not_mem_nil, or_false]
    by_cases hfast : n ≤ 115200
    · omega
    · rw [Nat.mod_eq_of_lt (not_le.mp hfast)]
      omega

/-- Which of the speeds that pass the tests leave their divisor in the latch. -/
theorem divisor_set_iff (l : Latch) (serialIsr : U32)
    (halloc : sysAllocMem F s.heap dcbSize = .ok (block, heap)) (hblock : block ≠ 0)
    (hspeed : 0 ≤ speed) : DivisorSet F l serialIsr s speed ↔ ExactRate speed := by
  have haccepted := serialOpen_accepted serialIsr halloc hblock hspeed
  lift speed to Nat using hspeed with n
  by_cases hn : n = 0
  · rw [hn] at haccepted ⊢
    constructor
    · intro hset
      rcases hset with ⟨s', writes, hrun, -⟩
      rw [haccepted] at hrun
      cases hrun
    · intro hrate
      exact absurd hrate (by decide)
  · rw [if_neg (by omega)] at haccepted
    rcases trace_programPort ((opening s block heap).idtInstall 0x24 serialIsr) n with
      ⟨mask, htrace⟩
    rw [← exactRate_iff hn, ← divisor_eq_iff l mask]
    constructor
    · intro hset
      rcases hset with ⟨s', writes, hrun, hwrites, hdivisor⟩
      rw [haccepted] at hrun
      cases hrun
      rw [htrace] at hwrites
      rw [List.append_cancel_left hwrites]
      exact hdivisor
    · intro hdivisor
      exact ⟨_, _, haccepted, htrace, hdivisor⟩

end Divisor

section Boot

def bootDriver (leftover : Dcb) : Driver Heap where
  serialPort := 0
  dcbs := fun _ => leftover
  initialized := false
  iocbs := fun _ => ⟨0, 0, .exit, 0, 0, 0⟩
  mem := ⟨fun _ => 0⟩
  ier := 0
  lcr := 3
  picMask := 0xFF
  handlers := fun _ => 0
  trace := []
  heap := kernelHeap

def clearedDcb : Dcb := ⟨0, .available, .exit, 0, 0, 0, Vector.replicate 16 0, 0, 0, 0⟩

theorem allocate_openBlock : allocateMemory kernelHeap dcbSize = .ok openBlock ∧
    openBlock.1 = 0xD000004 := by
  have hblock : (allocateMemory kernelHeap dcbSize).map Prod.fst = .ok 0xD000004 := by
    decide +kernel
  rcases of_map_ok hblock with ⟨r, hrun, hr⟩
  rw [openBlock, hrun]
  exact ⟨rfl, hr⟩

theorem openBlock_ne_zero : openBlock.1 ≠ 0 := by
  rw [allocate_openBlock.2]
  decide

theorem bootDriver_allocates (leftover : Dcb) :
    sysAllocMem studentHeap (bootDriver leftover).heap dcbSize = .ok (openBlock.1, openBlock.2) :=
  allocate_openBlock.1

theorem divisor_set_iff_9600 : 0 ≤ (9600 : Int) ∧
    DivisorSet studentHeap ⟨0x03, 0, 0⟩ 0x1000 (bootDriver clearedDcb) 9600 :=
  ⟨by decide, (divisor_set_iff ⟨0x03, 0, 0⟩ 0x1000 (bootDriver_allocates clearedDcb)
    openBlock_ne_zero (by decide)).mpr (by decide)⟩

/-- At 110 baud the latch gets 256 * 30 + 23 in place of 1047, and a speed of 0 is divided by. -/
theorem divisor_wrong_110 :
    (∃ s' writes, serialOpen studentHeap 0x1000 (bootDriver clearedDcb) COM1 110 = .ok (0, s') ∧
      s'.trace = writes ∧ (writes.foldl Latch.write ⟨0x03, 0, 0⟩).divisor = 7703) ∧
    (115200 : Int) / 110 = 1047 ∧
    ¬ DivisorSet studentHeap ⟨0x03, 0, 0⟩ 0x1000 (bootDriver clearedDcb) 110 ∧
    serialOpen studentHeap 0x1000 (bootDriver clearedDcb) COM1 0 = .error .diverges ∧
    ¬ DivisorSet studentHeap ⟨0x03, 0, 0⟩ 0x1000 (bootDriver clearedDcb) 0 := by
  have haccepted := serialOpen_accepted 0x1000 (bootDriver_allocates clearedDcb) openBlock_ne_zero
    (by decide : (0 : Int) ≤ 110)
  have hzero := serialOpen_accepted 0x1000 (bootDriver_allocates clearedDcb) openBlock_ne_zero
    (by decide : (0 : Int) ≤ 0)
  rw [if_neg (by decide)] at haccepted
  rw [if_pos rfl] at hzero
  rcases trace_programPort ((opening (bootDriver clearedDcb) openBlock.1 openBlock.2).idtInstall
    0x24 0x1000) 110 with ⟨mask, htrace⟩
  have hdivisor : ((openWrites mask 110).foldl Latch.write ⟨0x03, 0, 0⟩).divisor = 7703 := by
    rw [divisor_openWrites]
    decide
  refine ⟨⟨_, _, haccepted, htrace, hdivisor⟩, by decide, ?_, hzero, ?_⟩
  · intro hset
    rcases hset with ⟨s', writes, hrun, hwrites, hvalue⟩
    rw [haccepted] at hrun
    cases hrun
    rw [htrace] at hwrites
    rw [← List.append_cancel_left hwrites, hdivisor] at hvalue
    exact absurd hvalue (by decide)
  · intro hset
    rcases hset with ⟨s', writes, hrun, -⟩
    rw [hzero] at hrun
    cases hrun

end Boot

end Mpx
