import Mpx.Vm.KernelHeap

/-! Where the processor finds an address after `vm_init`, and the physical addresses that
`kmalloc` reports. -/

namespace Mpx

open Memory Loop Run

/-- The physical address of `addr`; without one the processor raises a page fault. -/
def Vm.translate (vm : Vm) (addr : U32) : Option U32 :=
  match vm.pageEntry (addr.toNat / 4096) with
  | none => none
  | some entry =>
      if entry &&& 1 = 0 then none else some ((entry &&& 0xfffff000) + (addr &&& 0xfff))

/-- Below `top` an address is found where it is, and the kernel heap behind `top`. -/
def mappedAddr (top : Nat) (addr : U32) : Option U32 :=
  if 0x1000 ≤ addr.toNat ∧ addr.toNat < top then some addr
  else if KHEAP_BASE ≤ addr ∧ addr < KHEAP_BASE + KHEAP_SIZE then
    some (BitVec.ofNat 32 top + (addr - KHEAP_BASE))
  else none

section Translate

variable {vm : Vm} {addr entry : U32} {frame : Nat}

theorem and_offset_toNat (addr : U32) : (addr &&& 0xfff).toNat = addr.toNat % 4096 := by
  rw [BitVec.toNat_and]
  exact Nat.and_two_pow_sub_one_eq_mod addr.toNat 12

theorem frameaddr_toNat (entry : U32) : (frameaddr entry).toNat = entry.toNat / 4096 := by
  rw [frameaddr, BitVec.toNat_ushiftRight, Nat.shiftRight_eq_div_pow]

/-- The address of the frame, as `kmalloc` and as the processor compute it. -/
theorem frameaddr_mul_page (entry : U32) : frameaddr entry * 0x1000 = entry &&& 0xfffff000 := by
  apply BitVec.eq_of_toNat_eq
  have hsize : (0x1000 : U32).toNat = 4096 := rfl
  have hentry := entry.isLt
  rw [BitVec.toNat_mul, frameaddr_toNat, hsize, and_page_toNat, Nat.mod_eq_of_lt (by omega)]

theorem translate_none (hpage : vm.pageEntry (addr.toNat / 4096) = none) :
    vm.translate addr = none := by
  simp only [Vm.translate, hpage]

theorem translate_blank (hpage : vm.pageEntry (addr.toNat / 4096) = some 0) :
    vm.translate addr = none := by
  simp only [Vm.translate, hpage]
  rfl

theorem translate_frame (hframe : frame < 2 ^ 20)
    (hpage : vm.pageEntry (addr.toNat / 4096) = some (entryWord frame)) :
    vm.translate addr = some (BitVec.ofNat 32 (4096 * frame + addr.toNat % 4096)) := by
  have hpresent : ¬ entryWord frame &&& 1 = 0 := by
    rw [entryWord_present]
    decide
  simp only [Vm.translate, hpage, if_neg hpresent, Option.some.injEq]
  apply BitVec.eq_of_toNat_eq
  have hpageAddr : (entryWord frame &&& 0xfffff000).toNat = frame * 4096 := by
    rw [and_page_toNat, ← frameaddr_toNat, entryWord_frameaddr hframe]
  rw [BitVec.toNat_add, hpageAddr, and_offset_toNat, toNat_ofNat_of_lt (by omega)]
  omega

end Translate

section Paging

variable {vm : Vm} {D T n : Nat}

theorem pagingVm_noTable (hm : Mapping vm D T n 16) (hl : Layout D T) (hT : 0 < T) {page : Nat}
    (hpage : page / 1024 < 1024) (htable : tableAt D T (page / 1024) = 0) :
    (pagingVm vm).pageEntry page = none := by
  have haligned := hl.aligned
  have hfits := hl.fits
  have hend := endOfTables_eq D T
  have haddr := entryAddr_zero D
  have hcr3 : (pagingVm vm).cr3 + BitVec.ofNat 32 (4 * (page / 1024)) =
      BitVec.ofNat 32 (D + 0x1000 + 4 * (page / 1024)) := by
    have hslot := tablesPhysSlot_index D 0
    rw [Nat.mul_zero, Nat.add_zero] at hslot
    rw [BitVec.ofNat_add, ← hslot, pagingVm, hm.kdir]
    rfl
  have hphys : load32 (pagingVm vm).mem (BitVec.ofNat 32 (D + 0x1000 + 4 * (page / 1024))) = 0 := by
    have hword := @pagingVm_words vm D T n hm hl hT (D + 0x1000 + 4 * (page / 1024)) (by omega)
      (by omega)
    rw [if_neg (by omega), hm.tablesPhys _ hpage, if_pos htable] at hword
    exact hword
  rw [Vm.pageEntry, hcr3, hphys]
  rfl

theorem pagingVm_heapEntry (hm : Mapping vm D T n 16) (hl : Layout D T) (hT : 0 < T) {j : Nat}
    (hj : j < 1024) :
    (pagingVm vm).pageEntry (0xd000 + j) = some (if j < 16 then entryWord (n + j) else 0) := by
  have hcount := hl.count
  have hend := endOfTables_ge D T
  have hfits := hl.fits
  have htable := @tableAt_heap D T (by omega)
  have hne : tableAt D T 52 ≠ 0 := by
    rw [htable, heapTable]
    omega
  have haddr := heapEntryAddr_bounds hl.aligned hj
  have hnull := entryAddr_zero D
  have hword : wordAt (pagingVm vm).mem (heapEntryAddr D j) =
      if j < 16 then entryWord (n + j) else 0 := by
    rw [pagingVm_words hm hl hT haddr.1 (by omega), if_neg (by omega), hm.heapEntries j hj]
  have hentry := @pagingVm_pageEntry vm D T n hm hl hT 52 j (by omega) hne hj
  rw [htable] at hentry
  rw [← hword]
  exact hentry

theorem mappedAddr_identity {top : Nat} {addr : U32} (hlow : 0x1000 ≤ addr.toNat)
    (hhigh : addr.toNat < top) : mappedAddr top addr = some addr := by
  rw [mappedAddr, if_pos ⟨hlow, hhigh⟩]

theorem inKernelHeap_iff (addr : U32) : (KHEAP_BASE ≤ addr ∧ addr < KHEAP_BASE + KHEAP_SIZE) ↔
    0xd000000 ≤ addr.toNat ∧ addr.toNat < 0xd010000 := by
  rw [BitVec.le_def, BitVec.lt_def]
  exact Iff.rfl

theorem mappedAddr_heap {top : Nat} {addr : U32} (htop : top ≤ 0x4000000)
    (hlow : 0xd000000 ≤ addr.toNat) (hhigh : addr.toNat < 0xd010000) :
    mappedAddr top addr = some (BitVec.ofNat 32 (top + (addr.toNat - 0xd000000))) := by
  rw [mappedAddr, if_neg (by omega), if_pos ((inKernelHeap_iff addr).mpr ⟨hlow, hhigh⟩)]
  have hbase : KHEAP_BASE.toNat = 0xd000000 := rfl
  apply congrArg
  apply BitVec.eq_of_toNat_eq
  rw [BitVec.toNat_add, BitVec.toNat_sub, hbase, toNat_ofNat_of_lt (by omega),
    toNat_ofNat_of_lt (by omega)]
  omega

theorem mappedAddr_outside {top : Nat} {addr : U32}
    (hidentity : ¬ (0x1000 ≤ addr.toNat ∧ addr.toNat < top))
    (hheap : ¬ (0xd000000 ≤ addr.toNat ∧ addr.toNat < 0xd010000)) :
    mappedAddr top addr = none := by
  rw [mappedAddr, if_neg hidentity, if_neg (mt (inKernelHeap_iff addr).mp hheap)]

theorem pagingVm_translate (hm : Mapping vm D T n 16) (hl : Layout D T) (hT : 0 < T)
    (hcovered : n ≤ 1024 * T) (hn : n + 16 ≤ 16384) (addr : U32) :
    (pagingVm vm).translate addr = mappedAddr (4096 * n) addr := by
  have haddr := addr.isLt
  have hcount := hl.count
  cases Nat.lt_or_ge (addr.toNat / 4096) (1024 * T) with
  | inl hidentity =>
      have hentry := pagingVm_identityEntry hm hl hT hidentity
      have hheap : ¬ (0xd000000 ≤ addr.toNat ∧ addr.toNat < 0xd010000) := by omega
      by_cases hnull : addr.toNat / 4096 = 0
      · rw [if_pos hnull] at hentry
        rw [translate_blank hentry, mappedAddr_outside (by omega) hheap]
      · rw [if_neg hnull] at hentry
        by_cases hmapped : addr.toNat / 4096 < n
        · rw [if_pos hmapped] at hentry
          rw [translate_frame (by omega) hentry, mappedAddr_identity (by omega) (by omega),
            Nat.div_add_mod, BitVec.ofNat_toNat, BitVec.setWidth_eq]
        · rw [if_neg hmapped] at hentry
          rw [translate_blank hentry, mappedAddr_outside (by omega) hheap]
  | inr hbeyond =>
      have hidentity : ¬ (0x1000 ≤ addr.toNat ∧ addr.toNat < 4096 * n) := by omega
      by_cases htable : addr.toNat / 4096 / 1024 = 52
      · have hpage : 0xd000 + (addr.toNat / 4096 - 0xd000) = addr.toNat / 4096 := by omega
        have hentry := @pagingVm_heapEntry vm D T n hm hl hT (addr.toNat / 4096 - 0xd000) (by omega)
        rw [hpage] at hentry
        by_cases hmapped : addr.toNat / 4096 - 0xd000 < 16
        · rw [if_pos hmapped] at hentry
          rw [translate_frame (by omega) hentry, mappedAddr_heap (by omega) (by omega) (by omega)]
          apply congrArg
          apply congrArg
          omega
        · rw [if_neg hmapped] at hentry
          rw [translate_blank hentry, mappedAddr_outside hidentity (by omega)]
      · have hnone : tableAt D T (addr.toNat / 4096 / 1024) = 0 := by
          rw [tableAt, if_neg (by omega), if_neg htable]
        rw [translate_none (pagingVm_noTable hm hl hT (by omega) hnone),
          mappedAddr_outside hidentity (by omega)]

theorem pagingVm_entry (hm : Mapping vm D T n 16) (hl : Layout D T) (hT : 0 < T) {page : Nat}
    {entry : U32} (hpage : page < 1024 * 1024)
    (hentry : (pagingVm vm).pageEntry page = some entry) :
    entry = 0 ∨ ∃ frame, entry = entryWord frame := by
  have hcount := hl.count
  cases Nat.lt_or_ge page (1024 * T) with
  | inl hidentity =>
      rw [pagingVm_identityEntry hm hl hT hidentity] at hentry
      split at hentry
      · exact Or.inl (Option.some.inj hentry).symm
      · split at hentry
        · exact Or.inr ⟨page, (Option.some.inj hentry).symm⟩
        · exact Or.inl (Option.some.inj hentry).symm
  | inr hbeyond =>
      by_cases htable : page / 1024 = 52
      · have hsum : page = 0xd000 + (page - 0xd000) := by omega
        rw [hsum, pagingVm_heapEntry hm hl hT (by omega)] at hentry
        split at hentry
        · exact Or.inr ⟨_, (Option.some.inj hentry).symm⟩
        · exact Or.inl (Option.some.inj hentry).symm
      · have hnone : tableAt D T (page / 1024) = 0 := by
          rw [tableAt, if_neg (by omega), if_neg htable]
        rw [pagingVm_noTable hm hl hT (by omega) hnone] at hentry
        cases hentry

/-- `get_page` and the processor come to the same entry. -/
theorem findPage_walk (hm : Mapping vm D T n 16) (hl : Layout D T) (hT : 0 < T) (addr : U32) :
    (findPage (pagingVm vm) addr (pagingVm vm).kdir = 0 ∧
        (pagingVm vm).pageEntry (addr.toNat / 4096) = none) ∨
      (findPage (pagingVm vm) addr (pagingVm vm).kdir ≠ 0 ∧
        (pagingVm vm).pageEntry (addr.toNat / 4096) =
          some (load32 (pagingVm vm).mem (findPage (pagingVm vm) addr (pagingVm vm).kdir))) := by
  have haddr := addr.isLt
  have haligned := hl.aligned
  have hlow := hl.low
  have hfits := hl.fits
  have hofNat : addr = BitVec.ofNat 32 addr.toNat := by
    rw [BitVec.ofNat_toNat, BitVec.setWidth_eq]
  have hindex : pageIndex addr = BitVec.ofNat 32 (addr.toNat / 4096 / 1024) := by
    rw [hofNat, pageIndex_ofNat (by omega), ← hofNat]
  have hoffset : pageOffset addr = BitVec.ofNat 32 (addr.toNat / 4096 % 1024) := by
    rw [hofNat, pageOffset_ofNat (by omega), ← hofNat]
  have hload := @pagingVm_tables vm D T n hm hl hT (addr.toNat / 4096 / 1024) (by omega)
  rw [← hindex] at hload
  cases @tableAt_bounds D T haligned (addr.toNat / 4096 / 1024) with
  | inl hnone =>
      refine Or.inl ⟨?_, pagingVm_noTable hm hl hT (by omega) hnone⟩
      rw [findPage, hload, hnone]
      rfl
  | inr hbounds =>
      have hne : BitVec.ofNat 32 (tableAt D T (addr.toNat / 4096 / 1024)) ≠ 0 := by
        intro heq
        have hval := congrArg BitVec.toNat heq
        rw [toNat_ofNat_of_lt (by omega)] at hval
        have hzero : (0 : U32).toNat = 0 := rfl
        omega
      have hpage : findPage (pagingVm vm) addr (pagingVm vm).kdir =
          BitVec.ofNat 32 (tableAt D T (addr.toNat / 4096 / 1024) +
            4 * (addr.toNat / 4096 % 1024)) := by
        rw [findPage, hload, if_pos hne, hoffset, four_mul_ofNat, BitVec.ofNat_add]
      have hentry := @pagingVm_pageEntry vm D T n hm hl hT (addr.toNat / 4096 / 1024)
        (addr.toNat / 4096 % 1024) (by omega) (by omega) (by omega)
      rw [Nat.div_add_mod] at hentry
      refine Or.inr ⟨?_, ?_⟩
      · intro heq
        have hval := congrArg BitVec.toNat (hpage.symm.trans heq)
        rw [toNat_ofNat_of_lt (by omega)] at hval
        have hzero : (0 : U32).toNat = 0 := rfl
        omega
      · rw [hentry, hpage]
        rfl

end Paging

section Calls

variable {vm₀ vm vm' : Vm} {size addr phys : U32}

inductive KmallocStep : Vm → Vm → Prop
  | call (vm vm' : Vm) (size addr phys : U32) (align physAddr : Bool)
      (hrun : kmalloc vm size align physAddr = .ok (addr, phys, vm')) : KmallocStep vm vm'

def KmallocCalls : Vm → Vm → Prop := Relation.ReflTransGen KmallocStep

/-- Calls move the bump pointer and leave the tables alone. -/
structure SameTables (vm vm' : Vm) : Prop where
  mem : vm'.mem = vm.mem
  kdir : vm'.kdir = vm.kdir
  cr3 : vm'.cr3 = vm.cr3
  initialized : vm'.heapIsInitialized = true

theorem SameTables.pageEntry (h : SameTables vm vm') (page : Nat) :
    vm'.pageEntry page = vm.pageEntry page := by
  rw [Vm.pageEntry, Vm.pageEntry, h.mem, h.cr3]

theorem SameTables.translate (h : SameTables vm vm') (addr : U32) :
    vm'.translate addr = vm.translate addr := by
  rw [Vm.translate, Vm.translate, h.pageEntry]

theorem SameTables.findPage (h : SameTables vm vm') (addr dir : U32) :
    findPage vm' addr dir = findPage vm addr dir := by
  rw [Mpx.findPage, Mpx.findPage, h.mem]

/-- A call that returns: its block is the bump pointer's, and the physical address comes
from the entry that `get_page` finds. -/
theorem kmalloc_returns {align physAddr : Bool} (hinit : vm.heapIsInitialized = true)
    (hrun : kmalloc vm size align physAddr = .ok (addr, phys, vm')) :
    vm' = { vm with heapAddr := vm.heapAddr + size } ∧ addr = vm.heapAddr ∧
      (physAddr = true → findPage vm addr vm.kdir ≠ 0 ∧
        phys = frameaddr (load32 vm.mem (findPage vm addr vm.kdir)) * 0x1000 + (addr &&& 0xfff)) := by
  rw [kmalloc, if_pos hinit, alloc] at hrun
  by_cases hfull : vm.heapAddr + size > KHEAP_BASE + KHEAP_SIZE
  · simp only [if_pos hfull] at hrun
    cases hrun
  · simp only [if_neg hfull, ok_bind] at hrun
    cases physAddr with
    | false =>
        cases hrun
        exact ⟨rfl, rfl, fun h => Bool.noConfusion h⟩
    | true =>
        simp only [if_true] at hrun
        by_cases hpage : findPage { vm with heapAddr := vm.heapAddr + size } vm.heapAddr vm.kdir = 0
        · rw [if_pos hpage] at hrun
          cases hrun
        · rw [if_neg hpage] at hrun
          cases hrun
          exact ⟨rfl, rfl, fun _ => ⟨hpage, rfl⟩⟩

theorem kmalloc_fits {align : Bool} (hinit : vm.heapIsInitialized = true)
    (hsum : ¬ vm.heapAddr + size > KHEAP_BASE + KHEAP_SIZE)
    (hpage : findPage vm vm.heapAddr vm.kdir ≠ 0) :
    ∃ phys vm', kmalloc vm size align true = .ok (vm.heapAddr, phys, vm') := by
  have hpage' : findPage { vm with heapAddr := vm.heapAddr + size } vm.heapAddr vm.kdir ≠ 0 := hpage
  rw [kmalloc, if_pos hinit, alloc]
  simp only [if_neg hsum, ok_bind, if_true, if_neg hpage']
  exact ⟨_, _, rfl⟩

theorem SameTables.step (h : SameTables vm₀ vm) (hstep : KmallocStep vm vm') :
    SameTables vm₀ vm' := by
  cases hstep with
  | call size addr phys align physAddr hrun =>
      obtain ⟨heq, -, -⟩ := kmalloc_returns h.initialized hrun
      rw [heq]
      exact ⟨h.mem, h.kdir, h.cr3, h.initialized⟩

end Calls

section Booted

variable {mem : Mem} {physEnd : U32}

def identityTop (physEnd : U32) : Nat := finalAddr physEnd.toNat + 0x10000

theorem vmInit_paging (hpage : 0x1000 ≤ physEnd.toNat)
    (hfits : identityTop physEnd + 16 * 0x1000 ≤ MEM_SIZE.toNat)
    (hzero : ∀ a, physEnd ≤ a → a < MEM_SIZE → mem.byte a = 0) :
    ∃ vm D T n, vmInit (bootVm mem physEnd) = .ok (pagingVm vm) ∧ Mapping vm D T n 16 ∧
      Layout D T ∧ 0 < T ∧ n ≤ 1024 * T ∧ n + 16 ≤ 16384 ∧ 4096 * n = identityTop physEnd := by
  have hsize : MEM_SIZE.toNat = 0x4000000 := rfl
  generalize hD : (physEnd.toNat / 0x1000 + 1) * 0x1000 = D
  have htop : identityTop physEnd = endOfTables D (tableCount D) + 0x10000 := by
    rw [← hD]
    rfl
  have hend := endOfTables_eq D (tableCount D)
  have henough := tableCount_enough.mp (Nat.le_refl (tableCount D))
  obtain ⟨vm, n, hrun, hm, hl, hn⟩ := vmInit_mapping hpage hD.symm (by omega) hzero
  exact ⟨vm, D, tableCount D, n, hrun, hm, hl, by omega, by omega, by omega, by omega⟩

theorem pagingVm_initialized {vm : Vm} : SameTables (pagingVm vm) (pagingVm vm) :=
  ⟨rfl, rfl, rfl, rfl⟩

/-- `vm_init` as one statement about the processor: the image, the tables and 64 KB are where
they were, the kernel heap follows, and nothing else can be reached. -/
theorem vm_init_translation (mem : Mem) (physEnd : U32) (hpage : 0x1000 ≤ physEnd.toNat)
    (hfits : identityTop physEnd + 16 * 0x1000 ≤ MEM_SIZE.toNat)
    (hzero : ∀ a, physEnd ≤ a → a < MEM_SIZE → mem.byte a = 0) :
    ∃ vm, vmInit (bootVm mem physEnd) = .ok vm ∧
      ∀ addr, vm.translate addr = mappedAddr (identityTop physEnd) addr := by
  obtain ⟨vm, D, T, n, hrun, hm, hl, hT, hcovered, hn, htop⟩ := vmInit_paging hpage hfits hzero
  refine ⟨pagingVm vm, hrun, fun addr => ?_⟩
  rw [pagingVm_translate hm hl hT hcovered hn, htop]

theorem vm_init_translation_small_image :
    ∃ vm, vmInit (bootVm ⟨fun _ => 0⟩ 0x123456) = .ok vm ∧
      vm.translate 0x123456 = some 0x123456 ∧ vm.translate 0xd001234 = some 0x13b234 ∧
      vm.translate 0xd010000 = none := by
  obtain ⟨vm, hrun, htranslate⟩ := vm_init_translation ⟨fun _ => 0⟩ 0x123456 (by decide)
    (by decide) (fun _ _ _ => rfl)
  refine ⟨vm, hrun, ?_, ?_, ?_⟩
  all_goals
    rw [htranslate]
    decide

/-- After any calls of `kmalloc` the physical address that the next call reports is the one
at which the processor finds the block. A block that reaches out of the mapped pages, as the
sum in `alloc` wraps around or an empty block lies at the very end, is reported in frame 0. -/
theorem kmalloc_reports_translation (mem : Mem) (physEnd : U32) (hpage : 0x1000 ≤ physEnd.toNat)
    (hfits : identityTop physEnd + 16 * 0x1000 ≤ MEM_SIZE.toNat)
    (hzero : ∀ a, physEnd ≤ a → a < MEM_SIZE → mem.byte a = 0) (vm₀ vm vm' : Vm)
    (hinit : vmInit (bootVm mem physEnd) = .ok vm₀) (hcalls : KmallocCalls vm₀ vm)
    (size addr phys : U32) (align : Bool)
    (hcall : kmalloc vm size align true = .ok (addr, phys, vm')) :
    vm'.translate addr = mappedAddr (identityTop physEnd) addr ∧
      (vm'.translate addr = some phys ∨ vm'.translate addr = none ∧ phys = addr &&& 0xfff) := by
  obtain ⟨paged, D, T, n, hrun, hm, hl, hT, hcovered, hn, htop⟩ := vmInit_paging hpage hfits hzero
  rw [hrun] at hinit
  cases hinit
  have hsame : SameTables (pagingVm paged) vm :=
    Run.invariant (SameTables (pagingVm paged)) (fun _ _ h hstep => h.step hstep) hcalls
      pagingVm_initialized
  have hafter : SameTables (pagingVm paged) vm' := hsame.step (.call _ _ _ _ _ _ _ hcall)
  obtain ⟨-, -, hreport⟩ := kmalloc_returns hsame.initialized hcall
  obtain ⟨hfound, hphys⟩ := hreport rfl
  rw [hsame.findPage, hsame.kdir] at hfound hphys
  rw [hsame.mem] at hphys
  have hwalk : (pagingVm paged).pageEntry (addr.toNat / 4096) =
      some (load32 (pagingVm paged).mem (findPage (pagingVm paged) addr (pagingVm paged).kdir)) := by
    cases findPage_walk hm hl hT addr with
    | inl hnone => exact absurd hnone.1 hfound
    | inr hpage => exact hpage.2
  have haddr := addr.isLt
  rw [hafter.translate, ← htop]
  refine ⟨pagingVm_translate hm hl hT hcovered hn addr, ?_⟩
  cases pagingVm_entry hm hl hT (by omega) hwalk with
  | inl hblank =>
      rw [hblank] at hwalk hphys
      refine Or.inr ⟨translate_blank hwalk, ?_⟩
      rw [hphys]
      exact BitVec.zero_add _
  | inr hwritten =>
      obtain ⟨frame, hframe⟩ := hwritten
      have hpresent : ¬ entryWord frame &&& 1 = 0 := by
        rw [entryWord_present]
        decide
      rw [hframe] at hwalk hphys
      left
      rw [hphys, frameaddr_mul_page]
      simp only [Vm.translate, hwalk, if_neg hpresent]

theorem kmalloc_reports_translation_second_block :
    ∃ vm₀ vm vm' phys, vmInit (bootVm ⟨fun _ => 0⟩ 0x123456) = .ok vm₀ ∧ KmallocCalls vm₀ vm ∧
      kmalloc vm 0x1000 true true = .ok (0xd001234, phys, vm') ∧
      vm'.translate 0xd001234 = some 0x13b234 ∧ phys = 0x13b234 := by
  obtain ⟨paged, D, T, n, hrun, hm, hl, hT, hcovered, hn, htop⟩ :=
    @vmInit_paging ⟨fun _ => 0⟩ 0x123456 (by decide) (by decide) (fun _ _ _ => rfl)
  have hheap : (pagingVm paged).heapAddr = KHEAP_BASE := (heapAt_vmInit hrun).heapAddr
  generalize hvm : ({ pagingVm paged with heapAddr := 0xd001234 } : Vm) = vm
  have hfirst : kmalloc (pagingVm paged) 0x1234 false false = .ok (KHEAP_BASE, 0, vm) := by
    have hsum : ¬ KHEAP_BASE + 0x1234 > KHEAP_BASE + KHEAP_SIZE := by decide
    rw [kmalloc_initialized rfl, hheap, if_neg hsum, ← hvm]
    rfl
  have hcalls : KmallocCalls (pagingVm paged) vm :=
    Relation.ReflTransGen.single (.call _ _ _ _ _ _ _ hfirst)
  have hfound : findPage (pagingVm paged) 0xd001234 (pagingVm paged).kdir ≠ 0 := by
    intro hnull
    cases findPage_walk hm hl hT 0xd001234 with
    | inr hpage => exact hpage.1 hnull
    | inl hnone =>
        have htranslate := pagingVm_translate hm hl hT hcovered hn 0xd001234
        rw [translate_none hnone.2, htop] at htranslate
        exact absurd htranslate (by decide)
  have haddr : vm.heapAddr = 0xd001234 := by rw [← hvm]
  have hsum : ¬ vm.heapAddr + 0x1000 > KHEAP_BASE + KHEAP_SIZE := by
    rw [haddr]
    decide
  have hinit : vm.heapIsInitialized = true := by
    rw [← hvm]
    rfl
  have hpage : findPage vm vm.heapAddr vm.kdir ≠ 0 := by
    rw [← hvm]
    exact hfound
  obtain ⟨phys, vm', hcall⟩ := @kmalloc_fits vm 0x1000 true hinit hsum hpage
  rw [haddr] at hcall
  obtain ⟨hmapped, hreported⟩ := kmalloc_reports_translation ⟨fun _ => 0⟩ 0x123456 (by decide)
    (by decide) (fun _ _ _ => rfl) _ vm vm' hrun hcalls 0x1000 0xd001234 phys true hcall
  have hvalue : vm'.translate 0xd001234 = some 0x13b234 := hmapped.trans (by decide)
  refine ⟨_, vm, vm', phys, hrun, hcalls, hcall, hvalue, ?_⟩
  rw [hvalue] at hreported
  cases hreported with
  | inl hphys => exact (Option.some.inj hphys).symm
  | inr hnone => exact absurd hnone.1 (by decide)

end Booted

end Mpx
