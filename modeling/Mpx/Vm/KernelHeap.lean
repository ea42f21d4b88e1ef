import Mpx.Vm.Identity

/-! The blocks that `kmalloc` returns from the kernel heap. `alloc` ignores the alignment, and
its sum wraps around before it is compared with the end of the heap. -/

namespace Mpx

open Memory Loop Run

structure KernelBlock where
  addr : U32
  size : U32
  align : Bool
  deriving DecidableEq

/-- Calls `kmalloc(size, align, NULL)`, up to the first `kpanic`. -/
def kmallocRun (vm : Vm) : List (U32 × Bool) → List KernelBlock
  | [] => []
  | (size, align) :: calls =>
      match kmalloc vm size align false with
      | .ok (addr, _, vm) => ⟨addr, size, align⟩ :: kmallocRun vm calls
      | .error _ => []

def KernelBlock.stop (b : KernelBlock) : Nat := b.addr.toNat + b.size.toNat

/-- What `mpx/vm.h` and the limit in `alloc` promise. An empty block may lie at the very end. -/
structure KmallocContract (blocks : List KernelBlock) : Prop where
  disjoint : blocks.Pairwise fun a b => a.stop ≤ b.addr.toNat ∨ b.stop ≤ a.addr.toNat
  inside : ∀ b ∈ blocks,
    KHEAP_BASE.toNat ≤ b.addr.toNat ∧ b.stop ≤ KHEAP_BASE.toNat + KHEAP_SIZE.toNat
  aligned : ∀ b ∈ blocks, b.align = true → PAGE_SIZE.toNat ∣ b.addr.toNat

def totalSize (calls : List (U32 × Bool)) : Nat := (calls.map fun c => c.1.toNat).sum

/-- A call behind calls that have taken `used` bytes: the sum does not wrap around, and a block
that fits is aligned or need not be. -/
def HarmlessCall (used : Nat) (size : U32) (align : Bool) : Prop :=
  KHEAP_BASE.toNat + used + size.toNat < 2 ^ 32 ∧
    (align = true → used + size.toNat ≤ KHEAP_SIZE.toNat → PAGE_SIZE.toNat ∣ used)

instance (used : Nat) (size : U32) (align : Bool) : Decidable (HarmlessCall used size align) :=
  inferInstanceAs (Decidable (_ ∧ _))

/-- Every call is harmless whose predecessors leave the heap no more than full. -/
def HarmlessCalls (calls : List (U32 × Bool)) : Prop :=
  ∀ before size align after, calls = before ++ (size, align) :: after →
    totalSize before ≤ KHEAP_SIZE.toNat → HarmlessCall (totalSize before) size align

section Initialised

variable {vm vm' : Vm} {addr phys size page i : U32} {align physAddr : Bool}

structure EarlyHeap (vm : Vm) : Prop where
  heapAddr : vm.heapAddr = KHEAP_BASE
  early : vm.heapIsInitialized = false

theorem EarlyHeap.kmalloc (h : EarlyHeap vm)
    (hrun : kmalloc vm size align physAddr = .ok (addr, phys, vm')) : EarlyHeap vm' := by
  rw [Mpx.kmalloc, h.early, if_neg Bool.false_ne_true] at hrun
  cases hrun
  exact ⟨h.heapAddr, rfl⟩

theorem EarlyHeap.getPage {dir : U32} (h : EarlyHeap vm)
    (hrun : getPage vm addr dir true = .ok (page, vm')) : EarlyHeap vm' := by
  rw [Mpx.getPage] at hrun
  by_cases htable : load32 vm.mem (tablesSlot dir (pageIndex addr)) ≠ 0
  · simp only [if_pos htable] at hrun
    cases hrun
    exact h
  · simp only [if_neg htable, if_true] at hrun
    rcases of_bind_ok hrun with ⟨⟨table, phys, vm₁⟩, hkmalloc, hret⟩
    have hearly := h.kmalloc hkmalloc
    cases hret
    exact ⟨hearly.heapAddr, hearly.early⟩

theorem EarlyHeap.newFrame (h : EarlyHeap vm) (hrun : newFrame vm page = .ok vm') :
    EarlyHeap vm' := by
  rw [Mpx.newFrame] at hrun
  by_cases hmapped : frameaddr (load32 vm.mem page) ≠ 0
  · rw [if_pos hmapped] at hrun
    cases hrun
    exact h
  · rw [if_neg hmapped] at hrun
    by_cases hfull : findFree vm.frames = -1
    · simp only [if_pos hfull] at hrun
      cases hrun
    · simp only [if_neg hfull] at hrun
      cases hrun
      exact ⟨h.heapAddr, h.early⟩

theorem EarlyHeap.makeTable (h : EarlyHeap vm) (hrun : makeTable i vm = .ok vm') :
    EarlyHeap vm' := by
  rcases of_bind_ok hrun with ⟨⟨page, vm₁⟩, hpage, hret⟩
  cases hret
  exact h.getPage hpage

theorem EarlyHeap.mapPage (h : EarlyHeap vm) (hrun : mapPage i vm = .ok vm') : EarlyHeap vm' := by
  rcases of_bind_ok hrun with ⟨⟨page, vm₁⟩, hpage, hframe⟩
  exact (h.getPage hpage).newFrame hframe

structure HeapAt (vm : Vm) (used : Nat) : Prop where
  initialized : vm.heapIsInitialized = true
  heapAddr : vm.heapAddr = BitVec.ofNat 32 (0xd000000 + used)
  room : used ≤ 0x10000

theorem heapAt_vmInit {mem : Mem} {physEnd : U32} (hrun : vmInit (bootVm mem physEnd) = .ok vm) :
    HeapAt vm 0 := by
  have hboot : EarlyHeap (bootVm mem physEnd) := ⟨rfl, rfl⟩
  rcases of_bind_ok hrun with ⟨⟨kdir, phys, vm₀⟩, hkdir, hrun⟩
  have hdir := hboot.kmalloc hkdir
  have hstart : EarlyHeap { vm₀ with kdir := kdir, mem := clear vm₀.mem kdir 0x2000 } :=
    ⟨hdir.heapAddr, hdir.early⟩
  rcases of_bind_ok hrun with ⟨vm₁, hloop₁, hrun⟩
  have h₁ := forLoop_invariant EarlyHeap (fun i s s' h hs => h.makeTable hs) hstart hloop₁
  rcases of_bind_ok hrun with ⟨vm₂, hloop₂, hrun⟩
  have h₂ := forLoop_invariant EarlyHeap (fun i s s' h hs => h.mapPage hs) h₁ hloop₂
  rcases of_bind_ok hrun with ⟨vm₃, hloop₃, hret⟩
  have h₃ := forLoop_invariant EarlyHeap (fun i s s' h hs => h.mapPage hs) h₂ hloop₃
  cases hret
  exact ⟨rfl, h₃.heapAddr, Nat.zero_le _⟩

end Initialised

section Calls

variable {vm : Vm} {used : Nat} {size : U32} {align : Bool} {calls : List (U32 × Bool)}

theorem kmalloc_initialized (h : vm.heapIsInitialized = true) (size : U32) (align : Bool) :
    kmalloc vm size align false =
      if vm.heapAddr + size > KHEAP_BASE + KHEAP_SIZE then .error .diverges
      else .ok (vm.heapAddr, 0, { vm with heapAddr := vm.heapAddr + size }) := by
  rw [kmalloc, if_pos h, alloc]
  split <;> rfl

/-- The first call returns the bump pointer, whatever its alignment. -/
theorem kmallocRun_cons (h : vm.heapIsInitialized = true)
    (hsum : ¬ vm.heapAddr + size > KHEAP_BASE + KHEAP_SIZE) (align : Bool)
    (calls : List (U32 × Bool)) :
    kmallocRun vm ((size, align) :: calls) =
      ⟨vm.heapAddr, size, align⟩ :: kmallocRun { vm with heapAddr := vm.heapAddr + size } calls := by
  rw [kmallocRun, kmalloc_initialized h, if_neg hsum]

theorem HeapAt.sum_toNat (h : HeapAt vm used) (size : U32) :
    (vm.heapAddr + size).toNat = (0xd000000 + used + size.toNat) % 2 ^ 32 := by
  have hroom := h.room
  rw [h.heapAddr, BitVec.toNat_add, toNat_ofNat_of_lt (by omega)]

def nextBlock (used : Nat) (size : U32) (align : Bool) : KernelBlock :=
  ⟨BitVec.ofNat 32 (0xd000000 + used), size, align⟩

theorem HeapAt.nextBlock_addr (h : HeapAt vm used) (size : U32) (align : Bool) :
    (nextBlock used size align).addr.toNat = 0xd000000 + used := by
  have hroom := h.room
  exact toNat_ofNat_of_lt (by omega)

theorem HeapAt.nextBlock_stop (h : HeapAt vm used) (size : U32) (align : Bool) :
    (nextBlock used size align).stop = 0xd000000 + used + size.toNat := by
  rw [KernelBlock.stop, h.nextBlock_addr]
  rfl

theorem HeapAt.above_limit_iff (h : HeapAt vm used) (size : U32) :
    vm.heapAddr + size > KHEAP_BASE + KHEAP_SIZE ↔
      0xd010000 < (0xd000000 + used + size.toNat) % 2 ^ 32 := by
  have hend : (KHEAP_BASE + KHEAP_SIZE).toNat = 0xd010000 := by decide
  rw [gt_iff_lt, BitVec.lt_def, hend, h.sum_toNat]

theorem HeapAt.run_cons (h : HeapAt vm used) (hsum : ¬ vm.heapAddr + size > KHEAP_BASE + KHEAP_SIZE)
    (align : Bool) (calls : List (U32 × Bool)) :
    kmallocRun vm ((size, align) :: calls) = nextBlock used size align ::
      kmallocRun { vm with heapAddr := vm.heapAddr + size } calls := by
  rw [kmallocRun_cons h.initialized hsum, nextBlock, h.heapAddr]

theorem HeapAt.run_fits (h : HeapAt vm used) (hfits : used + size.toNat ≤ 0x10000) (align : Bool)
    (calls : List (U32 × Bool)) :
    ∃ vm', kmallocRun vm ((size, align) :: calls) =
      nextBlock used size align :: kmallocRun vm' calls ∧ HeapAt vm' (used + size.toNat) := by
  have hsum : ¬ vm.heapAddr + size > KHEAP_BASE + KHEAP_SIZE := by
    rw [h.above_limit_iff]
    omega
  refine ⟨_, h.run_cons hsum align calls, h.initialized, ?_, hfits⟩
  apply BitVec.eq_of_toNat_eq
  calc (vm.heapAddr + size).toNat = (0xd000000 + used + size.toNat) % 2 ^ 32 := h.sum_toNat size
    _ = 0xd000000 + (used + size.toNat) := by omega
    _ = (BitVec.ofNat 32 (0xd000000 + (used + size.toNat))).toNat := by
      rw [toNat_ofNat_of_lt (by omega)]

theorem HeapAt.run_full (h : HeapAt vm used) (hfull : 0x10000 < used + size.toNat)
    (hsmall : 0xd000000 + used + size.toNat < 2 ^ 32) (align : Bool) (calls : List (U32 × Bool)) :
    kmallocRun vm ((size, align) :: calls) = [] := by
  have hsum : vm.heapAddr + size > KHEAP_BASE + KHEAP_SIZE := by
    rw [h.above_limit_iff]
    omega
  rw [kmallocRun, kmalloc_initialized h.initialized, if_pos hsum]

/-- The sum wraps around to an address below the end of the heap. -/
theorem HeapAt.run_wraps (h : HeapAt vm used) (hlarge : 2 ^ 32 ≤ 0xd000000 + used + size.toNat)
    (align : Bool) (calls : List (U32 × Bool)) :
    ∃ vm', kmallocRun vm ((size, align) :: calls) =
      nextBlock used size align :: kmallocRun vm' calls := by
  have hroom := h.room
  have hsize := size.isLt
  have hsum : ¬ vm.heapAddr + size > KHEAP_BASE + KHEAP_SIZE := by
    rw [h.above_limit_iff]
    omega
  exact ⟨_, h.run_cons hsum align calls⟩

end Calls

def HarmlessFrom (used : Nat) (calls : List (U32 × Bool)) : Prop :=
  ∀ before size align after, calls = before ++ (size, align) :: after →
    used + totalSize before ≤ KHEAP_SIZE.toNat → HarmlessCall (used + totalSize before) size align

section Contract

variable {vm : Vm} {used : Nat} {size : U32} {align : Bool} {calls : List (U32 × Bool)}
  {b : KernelBlock} {blocks : List KernelBlock}

theorem totalSize_cons (size : U32) (align : Bool) (calls : List (U32 × Bool)) :
    totalSize ((size, align) :: calls) = size.toNat + totalSize calls := rfl

theorem harmlessFrom_zero : HarmlessFrom 0 calls ↔ HarmlessCalls calls := by
  simp only [HarmlessFrom, HarmlessCalls, Nat.zero_add]

theorem harmlessFrom_nil (used : Nat) : HarmlessFrom used [] := by
  intro before size align after hcalls
  exact absurd hcalls.symm (List.append_ne_nil_of_right_ne_nil before (List.cons_ne_nil _ _))

theorem harmlessFrom_full (hfull : 0x10000 < used) : HarmlessFrom used calls := by
  intro before size align after _ hroom
  have hsize : KHEAP_SIZE.toNat = 0x10000 := rfl
  omega

theorem harmlessFrom_cons (hroom : used ≤ 0x10000) :
    HarmlessFrom used ((size, align) :: calls) ↔
      HarmlessCall used size align ∧ HarmlessFrom (used + size.toNat) calls := by
  constructor
  · intro h
    refine ⟨h [] size align calls rfl hroom, ?_⟩
    intro before size' align' after hcalls hbefore
    have hsplit := h ((size, align) :: before) size' align' after (by rw [hcalls]; rfl)
    rw [totalSize_cons, ← Nat.add_assoc] at hsplit
    exact hsplit hbefore
  · rintro ⟨hcall, hrest⟩ before size' align' after hcalls hbefore
    cases before with
    | nil =>
        cases hcalls
        exact hcall
    | cons c before =>
        cases hcalls
        rw [totalSize_cons, ← Nat.add_assoc] at hbefore ⊢
        exact hrest before size' align' after rfl hbefore

theorem KmallocContract.nil : KmallocContract [] where
  disjoint := List.Pairwise.nil
  inside := fun _ hb => absurd hb List.not_mem_nil
  aligned := fun _ hb => absurd hb List.not_mem_nil

theorem KmallocContract.cons (habove : ∀ c ∈ blocks, b.stop ≤ c.addr.toNat)
    (hinside : 0xd000000 ≤ b.addr.toNat ∧ b.stop ≤ 0xd010000)
    (haligned : b.align = true → 4096 ∣ b.addr.toNat) (h : KmallocContract blocks) :
    KmallocContract (b :: blocks) where
  disjoint := List.pairwise_cons.mpr ⟨fun c hc => Or.inl (habove c hc), h.disjoint⟩
  inside := List.forall_mem_cons.mpr ⟨hinside, h.inside⟩
  aligned := List.forall_mem_cons.mpr ⟨haligned, h.aligned⟩

theorem KmallocContract.tail (h : KmallocContract (b :: blocks)) : KmallocContract blocks where
  disjoint := (List.pairwise_cons.mp h.disjoint).2
  inside := (List.forall_mem_cons.mp h.inside).2
  aligned := (List.forall_mem_cons.mp h.aligned).2

theorem HeapAt.contract (h : HeapAt vm used) (hcalls : HarmlessFrom used calls) :
    KmallocContract (kmallocRun vm calls) ∧
      ∀ b ∈ kmallocRun vm calls, 0xd000000 + used ≤ b.addr.toNat := by
  induction calls generalizing vm used with
  | nil => exact ⟨KmallocContract.nil, fun _ hb => absurd hb List.not_mem_nil⟩
  | cons c calls ih =>
      rcases c with ⟨size, align⟩
      have hroom := h.room
      have haddr := h.nextBlock_addr size align
      have hstop := h.nextBlock_stop size align
      rcases (harmlessFrom_cons hroom).mp hcalls with ⟨⟨hsmall, haligned⟩, hrest⟩
      by_cases hfits : used + size.toNat ≤ 0x10000
      · rcases h.run_fits hfits align calls with ⟨vm', hrun, hnext⟩
        rcases ih hnext hrest with ⟨hcontract, habove⟩
        rw [hrun]
        refine ⟨KmallocContract.cons ?_ ?_ ?_ hcontract, List.forall_mem_cons.mpr ⟨haddr.ge, ?_⟩⟩
        · intro b hb
          calc (nextBlock used size align).stop = 0xd000000 + (used + size.toNat) := by
                rw [hstop, Nat.add_assoc]
            _ ≤ b.addr.toNat := habove b hb
        · rw [haddr, hstop]
          omega
        · intro halign
          rw [haddr]
          exact (Nat.dvd_add_iff_right (by decide)).mp (haligned halign hfits)
        · intro b hb
          exact le_trans (by omega) (habove b hb)
      · rw [h.run_full (Nat.lt_of_not_le hfits) hsmall align calls]
        exact ⟨KmallocContract.nil, fun _ hb => absurd hb List.not_mem_nil⟩

theorem HeapAt.harmless (h : HeapAt vm used) (hcontract : KmallocContract (kmallocRun vm calls)) :
    HarmlessFrom used calls := by
  induction calls generalizing vm used with
  | nil => exact harmlessFrom_nil used
  | cons c calls ih =>
      rcases c with ⟨size, align⟩
      have hroom := h.room
      have haddr := h.nextBlock_addr size align
      have hstop := h.nextBlock_stop size align
      rw [harmlessFrom_cons hroom]
      by_cases hsmall : 0xd000000 + used + size.toNat < 2 ^ 32
      · by_cases hfits : used + size.toNat ≤ 0x10000
        · rcases h.run_fits hfits align calls with ⟨vm', hrun, hnext⟩
          rw [hrun] at hcontract
          refine ⟨⟨hsmall, ?_⟩, ih hnext hcontract.tail⟩
          intro halign _
          have hpage := hcontract.aligned (nextBlock used size align) List.mem_cons_self halign
          rw [haddr] at hpage
          exact (Nat.dvd_add_iff_right (by decide)).mpr hpage
        · exact ⟨⟨hsmall, fun _ hfits' => absurd hfits' hfits⟩, harmlessFrom_full (by omega)⟩
      · -- the block reaches beyond all addresses
        rcases h.run_wraps (Nat.le_of_not_lt hsmall) align calls with ⟨vm', hrun⟩
        rw [hrun] at hcontract
        have hinside := (hcontract.inside (nextBlock used size align) List.mem_cons_self).2
        have hend : KHEAP_BASE.toNat + KHEAP_SIZE.toNat = 0xd010000 := by decide
        omega

end Contract

/-- After `vm_init` the blocks keep the contract exactly when all calls are harmless. -/
theorem kmalloc_contract_iff (mem : Mem) (physEnd : U32) (vm : Vm) (calls : List (U32 × Bool))
    (hinit : vmInit (bootVm mem physEnd) = .ok vm) :
    KmallocContract (kmallocRun vm calls) ↔ HarmlessCalls calls := by
  have hheap := heapAt_vmInit hinit
  rw [← harmlessFrom_zero]
  exact ⟨hheap.harmless, fun hcalls => (hheap.contract hcalls).1⟩

theorem vmInit_small : ∃ vm, vmInit (bootVm ⟨fun _ => 0⟩ 0x123456) = .ok vm := by
  have hroom : endOfTables 0x124000 (tableCount 0x124000) + 0x20000 ≤ 0x4000000 := by decide
  have hD : 0x124000 = ((0x123456 : U32).toNat / 0x1000 + 1) * 0x1000 := by decide
  rcases @vmInit_mapping ⟨fun _ => 0⟩ 0x124000 0x123456 (by decide) hD hroom (fun _ _ _ => rfl) with
    ⟨vm, n, hrun, -⟩
  exact ⟨pagingVm vm, hrun⟩

theorem kmalloc_contract_page_first :
    ∃ vm, vmInit (bootVm ⟨fun _ => 0⟩ 0x123456) = .ok vm ∧
      (KmallocContract (kmallocRun vm [(0x1000, true), (100, false)]) ↔
        HarmlessCalls [(0x1000, true), (100, false)]) ∧
      KmallocContract (kmallocRun vm [(0x1000, true), (100, false)]) := by
  rcases vmInit_small with ⟨vm, hinit⟩
  have hiff := kmalloc_contract_iff ⟨fun _ => 0⟩ 0x123456 vm [(0x1000, true), (100, false)] hinit
  refine ⟨vm, hinit, hiff, hiff.mpr ?_⟩
  rw [← harmlessFrom_zero, harmlessFrom_cons (by decide), harmlessFrom_cons (by decide)]
  exact ⟨by decide, by decide, harmlessFrom_nil _⟩

/-- The second block is to be aligned and is not; and a block of almost all addresses, with
which the sum wraps around, after which the next block lies in front of the heap. -/
theorem kmalloc_breaks_contract :
    ∃ vm, vmInit (bootVm ⟨fun _ => 0⟩ 0x123456) = .ok vm ∧
      kmallocRun vm [(100, false), (10, true)] =
        [⟨0xd000000, 100, false⟩, ⟨0xd000064, 10, true⟩] ∧
      ¬ KmallocContract (kmallocRun vm [(100, false), (10, true)]) ∧
      kmallocRun vm [(0xffffffff, false), (10, false)] =
        [⟨0xd000000, 0xffffffff, false⟩, ⟨0xcffffff, 10, false⟩] ∧
      ¬ KmallocContract (kmallocRun vm [(0xffffffff, false), (10, false)]) := by
  rcases vmInit_small with ⟨vm, hinit⟩
  have hheap := heapAt_vmInit hinit
  have hunaligned : kmallocRun vm [(100, false), (10, true)] =
      [⟨0xd000000, 100, false⟩, ⟨0xd000064, 10, true⟩] := by
    have hfits : 0 + (100 : U32).toNat ≤ 0x10000 := by decide
    have hfits₂ : 0 + (100 : U32).toNat + (10 : U32).toNat ≤ 0x10000 := by decide
    rcases hheap.run_fits hfits false [(10, true)] with ⟨vm₁, hrun, hnext⟩
    rcases hnext.run_fits hfits₂ true [] with ⟨vm₂, hrun₂, -⟩
    rw [hrun, hrun₂]
    rfl
  have hwrapped : kmallocRun vm [(0xffffffff, false), (10, false)] =
      [⟨0xd000000, 0xffffffff, false⟩, ⟨0xcffffff, 10, false⟩] := by
    have haddr : vm.heapAddr = 0xd000000 := hheap.heapAddr
    have hsum : ¬ vm.heapAddr + 0xffffffff > KHEAP_BASE + KHEAP_SIZE := by
      rw [haddr]
      decide
    have hsum₂ : ¬ vm.heapAddr + 0xffffffff + 10 > KHEAP_BASE + KHEAP_SIZE := by
      rw [haddr]
      decide
    have hsecond : kmallocRun { vm with heapAddr := vm.heapAddr + 0xffffffff } [(10, false)] =
        [⟨vm.heapAddr + 0xffffffff, 10, false⟩] :=
      @kmallocRun_cons { vm with heapAddr := vm.heapAddr + 0xffffffff } 10 hheap.initialized hsum₂
        false []
    rw [kmallocRun_cons hheap.initialized hsum, hsecond, haddr]
    rfl
  refine ⟨vm, hinit, hunaligned, ?_, hwrapped, ?_⟩
  · rw [hunaligned]
    intro hcontract
    have hpage := hcontract.aligned ⟨0xd000064, 10, true⟩ (by decide) rfl
    exact absurd hpage (by decide)
  · rw [hwrapped]
    intro hcontract
    have hinside := hcontract.inside ⟨0xcffffff, 10, false⟩ (by decide)
    exact absurd hinside (by decide)

end Mpx
