import Mpx.Vm.Mapping

/-! `vm_init` maps the pages that the kernel uses to the frames of the same numbers. -/

namespace Mpx

open Memory Loop Run

/-- The least number of identity tables with which the image, all tables and 64 KB behind
them can be mapped. -/
def tableCount (D : Nat) : Nat := (D + 0x14000 + 0x3fdfff) / 0x3fe000

def finalAddr (physEnd : Nat) : Nat :=
  let D := (physEnd / 0x1000 + 1) * 0x1000
  endOfTables D (tableCount D)

/-- The mapping that the comments in `vm_init` announce. -/
structure IdentityMapped (vm : Vm) : Prop where
  pages : ∀ k, 0 < k → 0x1000 * k < vm.physAllocAddr.toNat + 0x10000 → vm.MappedTo k k
  null : ¬ vm.Present 0
  directory : 0x1000 ≤ vm.kdir.toNat ∧ vm.kdir.toNat + 0x2000 ≤ vm.physAllocAddr.toNat + 0x10000
  tables : ∀ index < 1024, ∀ table,
    load32 vm.mem (tablesSlot vm.kdir (BitVec.ofNat 32 index)) = table → table ≠ 0 →
    0x1000 ≤ table.toNat ∧ table.toNat + 0x1000 ≤ vm.physAllocAddr.toNat + 0x10000
  heap : ∃ frame : Nat → Nat, (∀ j < 16, vm.MappedTo (0xd000 + j) (frame j)) ∧
    (∀ i < 16, ∀ j < 16, frame i = frame j → i = j) ∧
    ∀ j < 16, ∀ k, 0x1000 * k < vm.physAllocAddr.toNat + 0x10000 → frame j ≠ k

section Pages

variable {vm : Vm} {D T n h k x : Nat}

theorem Layout.mono {T' : Nat} (hl : Layout D T) (hT : T' ≤ T) : Layout D T' where
  aligned := hl.aligned
  low := hl.low
  count := Nat.le_trans hT hl.count
  fits := by
    have hfits := hl.fits
    simp only [endOfTables] at hfits ⊢
    omega

theorem Mapping.getPage_identity (hm : Mapping vm D T n h) (hl : Layout D T) (hk : k < 1024 * T) :
    getPage vm (BitVec.ofNat 32 (4096 * k)) vm.kdir true =
      .ok (BitVec.ofNat 32 (entryAddr D k), vm) := by
  have hcount := hl.count
  have hfits := hl.fits
  rw [endOfTables] at hfits
  have hindex : 4096 * k / 4096 / 1024 = k / 1024 := by omega
  have hoffset : 4096 * k / 4096 % 1024 = k % 1024 := by omega
  have htable := @tableAt_identity D T (k / 1024) (by omega)
  have hslot := hm.tables (k / 1024) (by omega)
  rw [htable, ← hindex] at hslot
  rw [hm.kdir, getPage_existing (by omega) hslot (by rw [identityTable]; omega)
    (by rw [identityTable]; omega), hindex, hoffset]
  rfl

theorem Mapping.getPage_heap (hm : Mapping vm D T n h) (hl : Layout D T) (hx : x < 0x10000) :
    getPage vm (BitVec.ofNat 32 (0xd000000 + x)) vm.kdir true =
      .ok (BitVec.ofNat 32 (heapEntryAddr D (x / 4096)), vm) := by
  have hcount := hl.count
  have hfits := hl.fits
  rw [endOfTables] at hfits
  have hindex : (0xd000000 + x) / 4096 / 1024 = 52 := by omega
  have hoffset : (0xd000000 + x) / 4096 % 1024 = x / 4096 := by omega
  have htable := @tableAt_heap D T (by omega)
  have hslot := hm.tables 52 (by omega)
  rw [htable, ← hindex] at hslot
  rw [hm.kdir, getPage_existing (by omega) hslot (by rw [heapTable]; omega)
    (by rw [heapTable]; omega), hoffset]
  rfl

theorem Mapping.newFrame_identity (hm : Mapping vm D T n 0) (hl : Layout D T) (hn : n < 1024 * T)
    (hframe : n < 16384) :
    ∃ vm', newFrame vm (BitVec.ofNat 32 (entryAddr D n)) = .ok vm' ∧
      Mapping vm' D T (n + 1) 0 := by
  have hfits := hl.fits
  have haddr := entryAddr_bounds hl.aligned hn
  have hblank : wordAt vm.mem (entryAddr D n) = 0 := by
    rw [hm.entries n hn, if_neg (Nat.lt_irrefl n)]
  rcases newFrame_spec haddr.1 (by omega) hblank hm.frames hframe with
    ⟨mem, frames, hrun, hframes, hset⟩
  exact ⟨_, hrun, hm.mapIdentity hl hn hframes hset⟩

theorem Mapping.mapPage_heap (hm : Mapping vm D T n h) (hl : Layout D T) (hh : h < 16)
    (hframe : n + h < 16384) :
    ∃ vm', mapPage (BitVec.ofNat 32 (0xd000000 + 4096 * h)) vm = .ok vm' ∧
      Mapping vm' D T n (h + 1) := by
  have hfits := hl.fits
  have hend := endOfTables_ge D T
  have hj : h < 1024 := by omega
  have haddr := heapEntryAddr_bounds hl.aligned hj
  have hblank : wordAt vm.mem (heapEntryAddr D h) = 0 := by
    rw [hm.heapEntries h hj, if_neg (Nat.lt_irrefl h)]
  have hpage := @Mapping.getPage_heap vm D T n h (4096 * h) hm hl (by omega)
  have hoffset : 4096 * h / 4096 = h := by omega
  rw [hoffset] at hpage
  rcases newFrame_spec haddr.1 (by omega) hblank hm.frames hframe with
    ⟨mem, frames, hrun, hframes, hset⟩
  refine ⟨_, ?_, hm.mapHeap hl hj hframes hset⟩
  rw [mapPage, hpage]
  exact hrun

theorem Mapping.getPage_next (hm : Mapping vm D T (1024 * T) 0) (hl : Layout D (T + 1)) :
    ∃ vm', getPage vm (BitVec.ofNat 32 (4096 * (1024 * T))) vm.kdir true =
        .ok (BitVec.ofNat 32 (entryAddr D (1024 * T)), vm') ∧
      Mapping vm' D (T + 1) (1024 * T) 0 := by
  have haligned := hl.aligned
  have hlow := hl.low
  have hcount := hl.count
  have hfits := hl.fits
  rw [endOfTables] at hfits
  have hindex : 4096 * (1024 * T) / 4096 / 1024 = T := by omega
  have hoffset : 4096 * (1024 * T) / 4096 % 1024 = 0 := by omega
  have hnone : tableAt D T T = 0 := by
    rw [tableAt, if_neg (Nat.lt_irrefl T), if_neg (by omega)]
  have hslot : wordAt vm.mem (D + 4 * (4096 * (1024 * T) / 4096 / 1024)) = 0 := by
    rw [hindex, hm.tables T (by omega), hnone]
    rfl
  have hA := endOfTables_eq D T
  have hi : 4096 * (1024 * T) < 2 ^ 32 := by omega
  have hpage : endOfTables D T % 4096 = 0 := by omega
  have hroom : endOfTables D T + 0x2000 < 2 ^ 32 := by omega
  have hstart : 4096 ≤ endOfTables D T := by
    calc 4096 ≤ D := hlow
      _ ≤ D + 0x4000 := Nat.le_add_right D 0x4000
      _ ≤ endOfTables D T := endOfTables_ge D T
  rcases getPage_new hi haligned (by omega) hslot hm.early hm.physAllocAddr hpage hstart
    hroom with ⟨mem, hrun, m, htables, htablesPhys⟩
  have htable : endOfTables D T + 0x1000 = identityTable D T := by
    rw [endOfTables, identityTable]
    omega
  have hentry : identityTable D T = entryAddr D (1024 * T) := by
    simp only [entryAddr, identityTable]
    omega
  have hend : endOfTables D T + 0x2000 = endOfTables D (T + 1) := by
    rw [endOfTables, endOfTables]
    omega
  rw [hindex, htable] at htables htablesPhys
  rw [hoffset, htable, hentry, hend, ← hm.kdir] at hrun
  exact ⟨_, hrun, hm.newTable hl htables htablesPhys⟩

end Pages

section Loops

variable {vm : Vm} {D T n h : Nat}

theorem tableCount_enough {T : Nat} :
    tableCount D ≤ T ↔ D + 0x14000 + 0x2000 * T ≤ 0x400000 * T := by
  rw [tableCount]
  omega

theorem belowHeapEnd_iff (hn : n < 2 ^ 31) :
    belowHeapEnd (BitVec.ofNat 32 (0xd000000 + n)) vm = true ↔ n < 0x10000 := by
  have hend : (KHEAP_BASE + KHEAP_SIZE).toNat = 0xd010000 := by decide
  rw [belowHeapEnd, decide_eq_true_eq, BitVec.lt_def, hend, toNat_ofNat_of_lt (by omega)]
  omega

theorem ofNat_succ_mul (start step n : Nat) :
    BitVec.ofNat 32 (start + step * n) + BitVec.ofNat 32 step =
      BitVec.ofNat 32 (start + step * (n + 1)) := by
  rw [← BitVec.ofNat_add, Nat.mul_succ, Nat.add_assoc]

theorem Cleared.getPage_heap (hc : Cleared vm D) (hl : Layout D 0) :
    ∃ page vm', getPage vm (BitVec.ofNat 32 0xd000000) vm.kdir true = .ok (page, vm') ∧
      Mapping vm' D 0 0 0 := by
  have haligned := hl.aligned
  have hlow := hl.low
  have hfits := hl.fits
  rw [endOfTables] at hfits
  have hindex : 0xd000000 / 4096 / 1024 = 52 := by decide
  have hslot : wordAt vm.mem (D + 4 * (0xd000000 / 4096 / 1024)) = 0 := by
    rw [hindex]
    exact hc.blank _ (by omega) (by omega) (by omega)
  have hpage : (D + 0x2000) % 4096 = 0 := by omega
  have hstart : 4096 ≤ D + 0x2000 := by omega
  rcases getPage_new (by omega) haligned (by omega) hslot hc.early hc.physAllocAddr hpage hstart
    (by omega) with ⟨mem, hrun, m, htables, htablesPhys⟩
  have htable : D + 0x2000 + 0x1000 = heapTable D := by
    unfold heapTable
    omega
  have hend : D + 0x2000 + 0x2000 = endOfTables D 0 := by
    unfold endOfTables
    omega
  rw [hindex, htable] at htables htablesPhys
  rw [hend, ← hc.kdir] at hrun
  exact ⟨_, _, hrun, hc.newTable hl htables htablesPhys⟩

/-- The first loop makes one table, in its first round. -/
theorem heapTable_loop (hc : Cleared vm D) (hl : Layout D 0) :
    ∃ vm', forLoop .diverges belowHeapEnd (fun i => i + 1) makeTable loopFuel KHEAP_BASE vm =
        .ok vm' ∧ Mapping vm' D 0 0 0 := by
  have hloop := @forLoop_rule _ _ _ Fault.diverges belowHeapEnd (fun i => i + 1) makeTable
    (fun n => BitVec.ofNat 32 (0xd000000 + 1 * n))
    (fun n s => n ≤ 0x10000 ∧ ((n = 0 ∧ Cleared s D) ∨ (0 < n ∧ Mapping s D 0 0 0))) 0x10000
    (fun n => ofNat_succ_mul 0xd000000 1 n) ?_ 0 loopFuel vm
    ⟨Nat.zero_le _, Or.inl ⟨rfl, hc⟩⟩ (Nat.zero_le _) (by rw [loopFuel]; omega)
  · rcases hloop with ⟨n, vm', hrun, ⟨-, hend⟩, hcond⟩
    refine ⟨vm', hrun, ?_⟩
    rcases hend with ⟨hzero, -⟩ | ⟨-, hm⟩
    · rw [hzero] at hcond
      cases hcond
    · exact hm
  · rintro n s ⟨hbound, hinv⟩ hcond
    rw [Nat.one_mul, belowHeapEnd_iff (by omega)] at hcond
    refine ⟨hcond, ?_⟩
    rw [Nat.one_mul]
    rcases hinv with ⟨hzero, hc⟩ | ⟨hpos, hm⟩
    · rw [hzero]
      rcases hc.getPage_heap hl with ⟨page, vm', hrun, hm⟩
      refine ⟨vm', ?_, Nat.one_le_iff_ne_zero.mpr (by decide), Or.inr ⟨Nat.one_pos, hm⟩⟩
      simp only [makeTable, Nat.add_zero, hrun, bind, Except.bind, pure, Except.pure]
    · refine ⟨s, ?_, hcond, Or.inr ⟨Nat.succ_pos n, hm⟩⟩
      simp only [makeTable, hm.getPage_heap hl hcond, bind, Except.bind, pure, Except.pure]

/-- One round of the loop of the identity mapping: all pages below `n` are mapped, and no
table has been made too early. -/
structure Identity (vm : Vm) (D n : Nat) (T : Nat) : Prop where
  mapping : Mapping vm D T n 0
  count : T ≤ tableCount D
  covered : n ≤ 1024 * T
  needed : 1024 * T < n + 1024
  last : n = 0 ∨ 4096 * (n - 1) < endOfTables D T + 0x10000

theorem Identity.step {T : Nat} (hi : Identity vm D n T) (hl : Layout D (tableCount D))
    (hroom : endOfTables D (tableCount D) + 0x20000 ≤ 0x4000000)
    (hn : 4096 * n < endOfTables D T + 0x10000) :
    ∃ vm' T', mapPage (BitVec.ofNat 32 (4096 * n)) vm = .ok vm' ∧ Identity vm' D (n + 1) T' := by
  have hcovered := hi.covered
  have hneeded := hi.needed
  have hcount := hi.count
  have hend := endOfTables_eq D T
  have hend' := endOfTables_eq D (tableCount D)
  have hframe : n < 16384 := by omega
  by_cases htable : n < 1024 * T
  · have hl' := hl.mono hcount
    rcases hi.mapping.newFrame_identity hl' htable hframe with ⟨vm', hrun, hm⟩
    refine ⟨vm', T, ?_, hm, hcount, htable, by omega, Or.inr hn⟩
    rw [mapPage, hi.mapping.getPage_identity hl' htable]
    exact hrun
  · have hnT : n = 1024 * T := by omega
    have hmore : T + 1 ≤ tableCount D := by
      by_contra hless
      have henough := tableCount_enough.mp (Nat.le_of_not_lt hless)
      omega
    have hl' := hl.mono hmore
    have hmapping := hi.mapping
    rw [hnT] at hmapping hn hframe ⊢
    rcases hmapping.getPage_next hl' with ⟨vm₁, hpage, hm₁⟩
    rcases hm₁.newFrame_identity hl' (by omega) hframe with ⟨vm', hrun, hm⟩
    have hend'' := endOfTables_eq D (T + 1)
    refine ⟨vm', T + 1, ?_, hm, hmore, by omega, by omega, Or.inr ?_⟩
    · rw [mapPage, hpage]
      exact hrun
    · rw [Nat.add_sub_cancel]
      omega

theorem Identity.cond_iff {T : Nat} (hi : Identity vm D n T) (hl : Layout D (tableCount D))
    (hn : n ≤ 16384) :
    belowTables (BitVec.ofNat 32 (4096 * n)) vm = true ↔
      4096 * n < endOfTables D T + 0x10000 := by
  have hfits := (hl.mono hi.count).fits
  have hbound : (vm.physAllocAddr + 0x10000).toNat = endOfTables D T + 0x10000 := by
    have hslack : (0x10000 : U32).toNat = 0x10000 := rfl
    rw [hi.mapping.physAllocAddr, BitVec.toNat_add, hslack, toNat_ofNat_of_lt (by omega)]
    omega
  rw [belowTables, decide_eq_true_eq, BitVec.lt_def, hbound, toNat_ofNat_of_lt (by omega)]

/-- The loop of the identity mapping ends, although its bound grows with the tables. -/
theorem identity_loop (hm : Mapping vm D 0 0 0) (hl : Layout D (tableCount D))
    (hroom : endOfTables D (tableCount D) + 0x20000 ≤ 0x4000000) :
    ∃ vm' n, forLoop .diverges belowTables (fun i => i + PAGE_SIZE) mapPage loopFuel 0 vm =
        .ok vm' ∧
      Mapping vm' D (tableCount D) n 0 ∧
      4096 * n = endOfTables D (tableCount D) + 0x10000 := by
  have haligned := hl.aligned
  have hend := endOfTables_eq D
  have hstart : Identity vm D 0 0 :=
    ⟨hm, Nat.zero_le _, Nat.zero_le _, by omega, Or.inl rfl⟩
  have hloop := @forLoop_rule _ _ _ Fault.diverges belowTables (fun i => i + PAGE_SIZE) mapPage
    (fun n => BitVec.ofNat 32 (0 + 4096 * n))
    (fun n s => n ≤ 16384 ∧ ∃ T, Identity s D n T) 16384
    (fun n => ofNat_succ_mul 0 4096 n) ?_ 0 loopFuel vm
    ⟨Nat.zero_le _, 0, hstart⟩ (Nat.zero_le _) (by rw [loopFuel]; omega)
  · rcases hloop with ⟨n, vm', hrun, ⟨hbound, T, hi⟩, hcond⟩
    rw [Nat.zero_add] at hcond
    have hdone : ¬ 4096 * n < endOfTables D T + 0x10000 := by
      rw [← hi.cond_iff hl hbound, hcond]
      exact Bool.noConfusion
    have hcovered := hi.covered
    have hcount : T = tableCount D := by
      apply Nat.le_antisymm hi.count
      apply tableCount_enough.mpr
      have := hend T
      omega
    have hmapping := hi.mapping
    have hlast := hi.last
    rw [hcount] at hmapping hlast hdone
    refine ⟨vm', n, hrun, hmapping, ?_⟩
    have := hend (tableCount D)
    omega
  · rintro n s ⟨hbound, T, hi⟩ hcond
    rw [Nat.zero_add, hi.cond_iff hl hbound] at hcond
    rw [Nat.zero_add]
    have hfits := (hl.mono hi.count).fits
    have htables := hend T
    have htables' := hend (tableCount D)
    have hcount := hi.count
    have hlt : n < 16384 := by omega
    rcases hi.step hl hroom hcond with ⟨vm', T', hrun, hi'⟩
    exact ⟨hlt, vm', hrun, hlt, T', hi'⟩

theorem heapFrames_loop (hm : Mapping vm D T n 0) (hl : Layout D T) (hn : n + 16 ≤ 16384) :
    ∃ vm', forLoop .diverges belowHeapEnd (fun i => i + PAGE_SIZE) mapPage loopFuel KHEAP_BASE vm =
        .ok vm' ∧ Mapping vm' D T n 16 := by
  have hloop := @forLoop_rule _ _ _ Fault.diverges belowHeapEnd (fun i => i + PAGE_SIZE) mapPage
    (fun h => BitVec.ofNat 32 (0xd000000 + 4096 * h))
    (fun h s => h ≤ 16 ∧ Mapping s D T n h) 16
    (fun h => ofNat_succ_mul 0xd000000 4096 h) ?_ 0 loopFuel vm
    ⟨Nat.zero_le _, hm⟩ (Nat.zero_le _) (by rw [loopFuel]; omega)
  · rcases hloop with ⟨h, vm', hrun, ⟨hbound, hm'⟩, hcond⟩
    have hdone : ¬ 4096 * h < 0x10000 := by
      rw [← belowHeapEnd_iff (by omega), hcond]
      exact Bool.noConfusion
    have hall : h = 16 := by omega
    rw [hall] at hm'
    exact ⟨vm', hrun, hm'⟩
  · rintro h s ⟨hbound, hm⟩ hcond
    rw [belowHeapEnd_iff (by omega)] at hcond
    have hlt : h < 16 := by omega
    rcases hm.mapPage_heap hl hlt (by omega) with ⟨vm', hrun, hm'⟩
    exact ⟨hlt, vm', hrun, hlt, hm'⟩

end Loops

section Ends

variable {vm : Vm} {m : Mem} {D T n : Nat}

theorem boot_cleared {physEnd : U32} (hpage : 0x1000 ≤ physEnd.toNat)
    (hD : D = (physEnd.toNat / 0x1000 + 1) * 0x1000) (hfits : D + 0x4000 ≤ 0x4000000)
    (hzero : ∀ a, physEnd ≤ a → a < MEM_SIZE → m.byte a = 0) :
    ∃ vm, kmalloc (bootVm m physEnd) 0x2000 true false = .ok (BitVec.ofNat 32 D, 0, vm) ∧
      Cleared { vm with kdir := BitVec.ofNat 32 D, mem := clear vm.mem (BitVec.ofNat 32 D) 0x2000 }
        D := by
  have hA : (bootVm m physEnd).physAllocAddr = BitVec.ofNat 32 physEnd.toNat := by
    rw [BitVec.ofNat_toNat, BitVec.setWidth_eq]
    rfl
  have hrun := @kmalloc_aligned (bootVm m physEnd) physEnd.toNat 0x2000 false rfl hA hpage
    (by omega)
  rw [← hD] at hrun
  refine ⟨_, hrun, rfl, ?_, rfl, ?_, ?_⟩
  · rw [BitVec.ofNat_add]
    rfl
  · intro k hk
    have hbit : FrameUsed (fun _ => 0) k := hk
    rw [FrameUsed] at hbit
    simp at hbit
  · intro a ha hlow hhigh
    have hmem : wordAt m a = 0 := by
      apply wordAt_zero (by omega)
      intro x hx hx'
      apply hzero
      · rw [BitVec.le_def]
        omega
      · have hsize : MEM_SIZE.toNat = 0x4000000 := rfl
        rw [BitVec.lt_def, hsize]
        omega
    have hcleared := @wordAt_clear m a D 0x2000 (by omega) (by omega) ha (by omega) (by omega)
    rw [hmem] at hcleared
    have hword : wordAt (clear m (BitVec.ofNat 32 D) (BitVec.ofNat 32 0x2000)) a = 0 := by
      rw [hcleared]
      split <;> rfl
    exact hword

def pagingVm (vm : Vm) : Vm :=
  { vm with
    mem := clear vm.mem (load32 vm.mem (tablesSlot vm.kdir 0)) 4
    cr3 := tablesPhysSlot vm.kdir 0, paging := true, heapIsInitialized := true }

theorem pagingVm_words (hm : Mapping vm D T n 16) (hl : Layout D T) (hT : 0 < T) {b : Nat}
    (hb : b % 4 = 0) (hbfit : b < 0x4000000) :
    wordAt (pagingVm vm).mem b = if b = entryAddr D 0 then 0 else wordAt vm.mem b := by
  have haligned := hl.aligned
  have hfits := hl.fits
  have hend := endOfTables_eq D T
  have haddr := entryAddr_zero D
  have htable : load32 vm.mem (tablesSlot vm.kdir 0) = BitVec.ofNat 32 (D + 0x5000) := by
    have hslot := hm.tables 0 (by omega)
    rw [tableAt, if_pos hT, wordAt, ← tablesSlot_index, ← hm.kdir] at hslot
    exact hslot
  have hclear := @wordAt_clear vm.mem b (D + 0x5000) 4 (by omega) (by omega) hb (by omega)
    (by omega)
  have hword : wordAt (pagingVm vm).mem b =
      wordAt (clear vm.mem (BitVec.ofNat 32 (D + 0x5000)) (BitVec.ofNat 32 4)) b := by
    rw [pagingVm, htable]
    rfl
  have hsame : (D + 0x5000 ≤ b ∧ b < D + 0x5000 + 4) ↔ b = entryAddr D 0 := by omega
  rw [hword, hclear]
  simp only [hsame]

theorem pagingVm_pageEntry (hm : Mapping vm D T n 16) (hl : Layout D T) (hT : 0 < T)
    {index offset : Nat} (hindex : index < 1024) (htable : tableAt D T index ≠ 0)
    (hoffset : offset < 1024) :
    (pagingVm vm).pageEntry (1024 * index + offset) =
      some (wordAt (pagingVm vm).mem (tableAt D T index + 4 * offset)) := by
  have haligned := hl.aligned
  have hfits := hl.fits
  have hend := endOfTables_eq D T
  have haddr := entryAddr_zero D
  have hdiv : (1024 * index + offset) / 1024 = index := by omega
  have hmod : (1024 * index + offset) % 1024 = offset := by omega
  have hcr3 : (pagingVm vm).cr3 + BitVec.ofNat 32 (4 * index) =
      BitVec.ofNat 32 (D + 0x1000 + 4 * index) := by
    have hslot := tablesPhysSlot_index D 0
    rw [Nat.mul_zero, Nat.add_zero] at hslot
    rw [BitVec.ofNat_add, ← hslot, pagingVm, hm.kdir]
    rfl
  have hphys : load32 (pagingVm vm).mem (BitVec.ofNat 32 (D + 0x1000 + 4 * index)) =
      BitVec.ofNat 32 (tableAt D T index) ||| 0x7 := by
    have hword := @pagingVm_words vm D T n hm hl hT (D + 0x1000 + 4 * index) (by omega) (by omega)
    rw [if_neg (by omega), hm.tablesPhys index hindex, if_neg htable] at hword
    exact hword
  have hbase := @tableAt_bounds D T haligned index
  have hpage : BitVec.ofNat 32 (tableAt D T index) &&& 0xfffff000 =
      BitVec.ofNat 32 (tableAt D T index) := by
    apply BitVec.eq_of_toNat_eq
    rw [and_page_toNat, toNat_ofNat_of_lt (by omega)]
    omega
  rw [Vm.pageEntry, hdiv, hmod, hcr3, hphys]
  simp only [or_seven_and_one, or_seven_and_page, hpage, ← BitVec.ofNat_add]
  rfl

theorem mappedTo_entryWord {vm : Vm} {page frame : Nat} (hframe : frame < 2 ^ 20)
    (hentry : vm.pageEntry page = some (entryWord frame)) : vm.MappedTo page frame := by
  refine ⟨entryWord frame, hentry, ?_, entryWord_frameaddr hframe⟩
  rw [entryWord_present]
  decide

theorem pagingVm_identityEntry (hm : Mapping vm D T n 16) (hl : Layout D T) (hT : 0 < T) {k : Nat}
    (hk : k < 1024 * T) : (pagingVm vm).pageEntry k =
      some (if k = 0 then 0 else if k < n then entryWord k else 0) := by
  have haligned := hl.aligned
  have hcount := hl.count
  have hfits := hl.fits
  have htable := @tableAt_identity D T (k / 1024) (by omega)
  have hne : tableAt D T (k / 1024) ≠ 0 := by
    rw [htable, identityTable]
    omega
  have hentry := @pagingVm_pageEntry vm D T n hm hl hT (k / 1024) (k % 1024) (by omega) hne
    (by omega)
  have haddr := entryAddr_bounds haligned hk
  have hzero : entryAddr D k = entryAddr D 0 ↔ k = 0 := by
    constructor
    · exact entryAddr_injective
    · exact fun heq => by rw [heq]
  have hword : wordAt (pagingVm vm).mem (entryAddr D k) =
      if k = 0 then 0 else if k < n then entryWord k else 0 := by
    rw [pagingVm_words hm hl hT haddr.1 (by omega), hm.entries k hk]
    simp only [hzero]
  rw [htable, Nat.div_add_mod] at hentry
  rw [hentry, ← hword]
  rfl

theorem pagingVm_heapMapped (hm : Mapping vm D T n 16) (hl : Layout D T) (hT : 0 < T)
    (hn : n + 16 ≤ 16384) {j : Nat} (hj : j < 16) :
    (pagingVm vm).MappedTo (0xd000 + j) (n + j) := by
  have hcount := hl.count
  have hend := endOfTables_ge D T
  have hfits := hl.fits
  have htable := @tableAt_heap D T (by omega)
  have hne : tableAt D T 52 ≠ 0 := by
    rw [htable, heapTable]
    omega
  have haddr := @heapEntryAddr_bounds D j hl.aligned (by omega)
  have hnull := entryAddr_zero D
  have hentry := @pagingVm_pageEntry vm D T n hm hl hT 52 j (by omega) hne (by omega)
  have hword : wordAt (pagingVm vm).mem (heapEntryAddr D j) = entryWord (n + j) := by
    rw [pagingVm_words hm hl hT haddr.1 (by omega), if_neg (by omega),
      hm.heapEntries j (by omega), if_pos hj]
  rw [htable] at hentry
  apply mappedTo_entryWord (by omega)
  rw [← hword]
  exact hentry

theorem pagingVm_tables (hm : Mapping vm D T n 16) (hl : Layout D T) (hT : 0 < T) {index : Nat}
    (hindex : index < 1024) :
    load32 (pagingVm vm).mem (tablesSlot (pagingVm vm).kdir (BitVec.ofNat 32 index)) =
      BitVec.ofNat 32 (tableAt D T index) := by
  have haligned := hl.aligned
  have hend := endOfTables_ge D T
  have hfits := hl.fits
  have hnull := entryAddr_zero D
  have hword := @pagingVm_words vm D T n hm hl hT (D + 4 * index) (by omega) (by omega)
  rw [if_neg (by omega), hm.tables index hindex, wordAt, ← tablesSlot_index, ← hm.kdir] at hword
  exact hword

theorem pagingVm_identityMapped (hm : Mapping vm D T n 16) (hl : Layout D T) (hT : 0 < T)
    (hroom : endOfTables D T + 0x20000 ≤ 0x4000000) (hcovered : n ≤ 1024 * T)
    (hn : 4096 * n = endOfTables D T + 0x10000) : IdentityMapped (pagingVm vm) := by
  have haligned := hl.aligned
  have hlow := hl.low
  have hend := endOfTables_eq D T
  have hphys : (pagingVm vm).physAllocAddr.toNat = endOfTables D T := by
    rw [pagingVm, hm.physAllocAddr, toNat_ofNat_of_lt (by omega)]
  have hkdir : (pagingVm vm).kdir.toNat = D := by
    rw [pagingVm, hm.kdir, toNat_ofNat_of_lt (by omega)]
  constructor
  · intro k hpos hk
    rw [hphys] at hk
    have hlt : k < n := by omega
    apply mappedTo_entryWord (by omega)
    rw [pagingVm_identityEntry hm hl hT (by omega), if_neg (by omega), if_pos hlt]
  · intro hpresent
    rcases hpresent with ⟨entry, hentry, hbit⟩
    rw [pagingVm_identityEntry hm hl hT (by omega), if_pos rfl] at hentry
    cases hentry
    exact hbit rfl
  · rw [hkdir, hphys]
    omega
  · intro index hindex table hload hne
    rw [pagingVm_tables hm hl hT hindex] at hload
    rw [hphys]
    rcases @tableAt_bounds D T haligned index with hnull | hbounds
    · rw [hnull] at hload
      exact absurd hload.symm hne
    · rw [← hload, toNat_ofNat_of_lt (by omega)]
      omega
  · refine ⟨fun j => n + j, ?_, ?_, ?_⟩
    · exact fun j hj => pagingVm_heapMapped hm hl hT (by omega) hj
    · intro i _ j _ heq
      exact Nat.add_left_cancel heq
    · intro j _ k hk
      rw [hphys] at hk
      show n + j ≠ k
      omega

/-- The run of `vm_init` when the image, all tables, the space behind them and 16 frames fit. -/
theorem vmInit_mapping {physEnd : U32} (hpage : 0x1000 ≤ physEnd.toNat)
    (hD : D = (physEnd.toNat / 0x1000 + 1) * 0x1000)
    (hroom : endOfTables D (tableCount D) + 0x20000 ≤ 0x4000000)
    (hzero : ∀ a, physEnd ≤ a → a < MEM_SIZE → m.byte a = 0) :
    ∃ vm n, vmInit (bootVm m physEnd) = .ok (pagingVm vm) ∧ Mapping vm D (tableCount D) n 16 ∧
      Layout D (tableCount D) ∧ 4096 * n = endOfTables D (tableCount D) + 0x10000 := by
  have hend := endOfTables_eq D (tableCount D)
  have hcount : tableCount D ≤ 16 := by
    by_contra hlarge
    have hnotEnough := mt (@tableCount_enough D 16).mpr hlarge
    omega
  have hl : Layout D (tableCount D) := ⟨by omega, by omega, hcount, by omega⟩
  rcases boot_cleared hpage hD (by omega) hzero with ⟨vm₀, hkmalloc, hcleared⟩
  rcases heapTable_loop hcleared (hl.mono (Nat.zero_le _)) with ⟨vm₁, hrun₁, hm₁⟩
  rcases identity_loop hm₁ hl hroom with ⟨vm₂, n, hrun₂, hm₂, hn⟩
  rcases heapFrames_loop hm₂ hl (by omega) with ⟨vm₃, hrun₃, hm₃⟩
  refine ⟨vm₃, n, ?_, hm₃, hl, hn⟩
  rw [vmInit, hkmalloc, ok_bind]
  simp only
  rw [hrun₁, ok_bind, hrun₂, ok_bind, hrun₃, ok_bind]
  rfl

end Ends

/-- The kernel finds its image, its tables and 64 KB behind them where they are, if all
this and 16 frames for its heap fit in the memory. -/
theorem vm_init_identity (mem : Mem) (physEnd : U32) (hpage : 0x1000 ≤ physEnd.toNat)
    (hfits : finalAddr physEnd.toNat + 0x10000 + 16 * 0x1000 ≤ MEM_SIZE.toNat)
    (hzero : ∀ a, physEnd ≤ a → a < MEM_SIZE → mem.byte a = 0) :
    ∃ vm, vmInit (bootVm mem physEnd) = .ok vm ∧
      vm.physAllocAddr.toNat = finalAddr physEnd.toNat ∧ IdentityMapped vm := by
  have hsize : MEM_SIZE.toNat = 0x4000000 := rfl
  generalize hD : (physEnd.toNat / 0x1000 + 1) * 0x1000 = D
  have hfinal : finalAddr physEnd.toNat = endOfTables D (tableCount D) := by
    rw [← hD]
    rfl
  rw [hfinal, hsize] at hfits
  have hroom : endOfTables D (tableCount D) + 0x20000 ≤ 0x4000000 := by
    calc endOfTables D (tableCount D) + 0x20000
        = endOfTables D (tableCount D) + 0x10000 + 16 * 0x1000 := by omega
      _ ≤ 0x4000000 := hfits
  have hmore : 0 < tableCount D := by
    by_contra hnone
    have henough := (@tableCount_enough D 0).mp (by omega)
    omega
  have hend := endOfTables_eq D (tableCount D)
  rcases vmInit_mapping hpage hD.symm hroom hzero with ⟨vm, n, hrun, hm, hl, hn⟩
  refine ⟨pagingVm vm, hrun, ?_, ?_⟩
  · rw [hfinal, pagingVm, hm.physAllocAddr, toNat_ofNat_of_lt (by omega)]
  · have henough := tableCount_enough.mp (Nat.le_refl (tableCount D))
    exact pagingVm_identityMapped hm hl hmore hroom (by omega) hn

theorem vm_init_identity_small_image :
    ∃ vm, vmInit (bootVm ⟨fun _ => 0⟩ 0x123456) = .ok vm ∧ vm.physAllocAddr.toNat = 0x12a000 ∧
      IdentityMapped vm := by
  have hpage : 0x1000 ≤ (0x123456 : U32).toNat := by decide
  have hfits : finalAddr (0x123456 : U32).toNat + 0x10000 + 16 * 0x1000 ≤ MEM_SIZE.toNat := by
    decide
  have hzero : ∀ a : U32, 0x123456 ≤ a → a < MEM_SIZE → (⟨fun _ => 0⟩ : Mem).byte a = 0 :=
    fun _ _ _ => rfl
  rcases vm_init_identity ⟨fun _ => 0⟩ 0x123456 hpage hfits hzero with ⟨vm, hrun, hphys, hmapped⟩
  refine ⟨vm, hrun, ?_, hmapped⟩
  rw [hphys]
  decide

end Mpx
