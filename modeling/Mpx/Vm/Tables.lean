import Mpx.Vm.Frames

/-! What `new_frame` and `get_page` do to the words of memory. -/

namespace Mpx

open Memory

def entryWord (n : Nat) : U32 :=
  ((((0 ||| 1) &&& 0xfff) ||| (BitVec.ofNat 32 n <<< 12)) ||| 2) &&& ~~~4

section Entry

variable {n : Nat}

theorem entryWord_present (n : Nat) : entryWord n &&& 1 = 1 := by
  generalize hframe : BitVec.ofNat 32 n = frame
  rw [entryWord, hframe]
  change ((((0#32 ||| 1#32) &&& 0xfff#32) ||| (frame <<< 12)) ||| 2#32) &&& ~~~4#32 &&& 1#32 = 1#32
  ext i hi
  interval_cases i <;> simp

/-- Whatever the entry held, its `frameaddr` is the one that `new_frame` stores. -/
theorem frameaddr_stored (w : U32) (hn : n < 2 ^ 20) :
    (frameaddr (((((w ||| 1) &&& 0xfff) ||| (BitVec.ofNat 32 n <<< 12)) ||| 2) &&& ~~~4)).toNat =
      n := by
  have hshift : frameaddr (((((w ||| 1) &&& 0xfff) ||| (BitVec.ofNat 32 n <<< 12)) ||| 2) &&& ~~~4) =
      (BitVec.ofNat 32 n <<< 12) >>> 12 := by
    generalize hframe : BitVec.ofNat 32 n = frame
    rw [frameaddr]
    change (((((w ||| 1#32) &&& 0xfff#32) ||| (frame <<< 12)) ||| 2#32) &&& ~~~4#32) >>> 12 =
      (frame <<< 12) >>> 12
    ext i hi
    interval_cases i <;> simp
  rw [hshift]
  calc ((BitVec.ofNat 32 n <<< 12) >>> 12).toNat = n * 2 ^ 12 % 2 ^ 32 / 2 ^ 12 := by
        rw [BitVec.toNat_ushiftRight, BitVec.toNat_shiftLeft, toNat_ofNat_of_lt (by omega),
          Nat.shiftLeft_eq, Nat.shiftRight_eq_div_pow]
    _ = n * 2 ^ 12 / 2 ^ 12 := by rw [Nat.mod_eq_of_lt (by omega)]
    _ = n := Nat.mul_div_cancel n (by decide)

theorem entryWord_frameaddr (hn : n < 2 ^ 20) : (frameaddr (entryWord n)).toNat = n :=
  frameaddr_stored 0 hn

end Entry

/-- The four fields of an entry, one after another, as `new_frame` stores them. -/
def storeEntry (m : Mem) (page : U32) (n : Nat) : Mem :=
  let m := modifyWord m page fun entry => entry ||| 1
  let m := modifyWord m page fun entry => (entry &&& 0xfff) ||| (BitVec.ofNat 32 n <<< 12)
  let m := modifyWord m page fun entry => entry ||| 2
  modifyWord m page fun entry => entry &&& ~~~4

section NewFrame

variable {vm : Vm} {m : Mem} {page : U32} {a n : Nat}

theorem newFrame_least (hunmapped : frameaddr (load32 vm.mem page) = 0)
    (hleast : LeastFree vm.frames n) :
    newFrame vm page = .ok { vm with
      mem := storeEntry vm.mem page n,
      frames := setBit vm.frames (BitVec.ofNat 32 n * PAGE_SIZE) } := by
  rw [newFrame, if_neg (not_not.mpr hunmapped)]
  simp only [hleast.findFree_eq, if_neg (ofNat_ne_minus_one hleast.1)]
  rfl

theorem newFrame_full (hunmapped : frameaddr (load32 vm.mem page) = 0)
    (hused : ∀ k < 16384, FrameUsed vm.frames k) : newFrame vm page = .error .diverges := by
  rw [newFrame, if_neg (not_not.mpr hunmapped)]
  simp only [findFree_full hused, if_true]

theorem load32_modifyWord (m : Mem) (a : U32) (f : U32 → U32) :
    load32 (modifyWord m a f) a = f (load32 m a) := load32_store32_same m a _

theorem storeEntry_frameaddr (m : Mem) (page : U32) (hn : n < 2 ^ 20) :
    (frameaddr (load32 (storeEntry m page n) page)).toNat = n := by
  simp only [storeEntry, load32_modifyWord]
  exact frameaddr_stored _ hn

theorem storeEntry_blank (ha : a % 4 = 0) (hafit : a < 2 ^ 32) (hblank : wordAt m a = 0) :
    WordSet m (storeEntry m (BitVec.ofNat 32 a) n) a (entryWord n) := by
  have hpresent := wordSet_modifyWord (m := m) (fun entry => entry ||| 1) ha hafit
  have haddr := hpresent.trans (wordSet_modifyWord
    (fun entry => (entry &&& 0xfff) ||| (BitVec.ofNat 32 n <<< 12)) ha hafit)
  have hwriteable := haddr.trans (wordSet_modifyWord (fun entry => entry ||| 2) ha hafit)
  have husermode := hwriteable.trans (wordSet_modifyWord (fun entry => entry &&& ~~~4) ha hafit)
  rwa [hwriteable.self, haddr.self, hpresent.self, hblank] at husermode

theorem newFrame_spec (ha : a % 4 = 0) (hafit : a < 2 ^ 32) (hblank : wordAt vm.mem a = 0)
    (hframes : ∀ k, FrameUsed vm.frames k ↔ k < n) (hn : n < 16384) :
    ∃ mem frames, newFrame vm (BitVec.ofNat 32 a) = .ok { vm with mem := mem, frames := frames } ∧
      (∀ k, FrameUsed frames k ↔ k < n + 1) ∧ WordSet vm.mem mem a (entryWord n) := by
  have hunmapped : frameaddr (load32 vm.mem (BitVec.ofNat 32 a)) = 0 := by
    rw [show load32 vm.mem (BitVec.ofNat 32 a) = 0 from hblank]
    rfl
  have hleast : LeastFree vm.frames n := by
    refine ⟨hn, ?_, fun k hk => (hframes k).mpr hk⟩
    rw [hframes]
    exact Nat.lt_irrefl n
  refine ⟨_, _, newFrame_least hunmapped hleast, ?_, storeEntry_blank ha hafit hblank⟩
  intro k
  rw [setBit_spec hn, hframes]
  omega

end NewFrame

section GetPage

variable {vm : Vm} {D i table : Nat}

theorem pageIndex_ofNat (hi : i < 2 ^ 32) :
    pageIndex (BitVec.ofNat 32 i) = BitVec.ofNat 32 (i / 4096 / 1024) := by
  apply BitVec.eq_of_toNat_eq
  have hsize : PAGE_SIZE.toNat = 4096 := rfl
  have hcount : (1024 : U32).toNat = 1024 := rfl
  rw [pageIndex, BitVec.toNat_udiv, BitVec.toNat_udiv, hsize, hcount, toNat_ofNat_of_lt hi,
    toNat_ofNat_of_lt (by omega)]

theorem pageOffset_ofNat (hi : i < 2 ^ 32) :
    pageOffset (BitVec.ofNat 32 i) = BitVec.ofNat 32 (i / 4096 % 1024) := by
  apply BitVec.eq_of_toNat_eq
  have hsize : PAGE_SIZE.toNat = 4096 := rfl
  have hcount : (1024 : U32).toNat = 1024 := rfl
  rw [pageOffset, BitVec.toNat_umod, BitVec.toNat_udiv, hsize, hcount, toNat_ofNat_of_lt hi,
    toNat_ofNat_of_lt (by omega)]

theorem four_mul_ofNat (k : Nat) : (4 : U32) * BitVec.ofNat 32 k = BitVec.ofNat 32 (4 * k) := by
  rw [BitVec.ofNat_mul]
  rfl

theorem tablesSlot_index (D index : Nat) :
    tablesSlot (BitVec.ofNat 32 D) (BitVec.ofNat 32 index) = BitVec.ofNat 32 (D + 4 * index) := by
  rw [tablesSlot, four_mul_ofNat, BitVec.ofNat_add]

theorem tablesPhysSlot_index (D index : Nat) :
    tablesPhysSlot (BitVec.ofNat 32 D) (BitVec.ofNat 32 index) =
      BitVec.ofNat 32 (D + 0x1000 + 4 * index) := by
  rw [tablesPhysSlot, four_mul_ofNat, BitVec.ofNat_add, BitVec.ofNat_add]
  rfl

theorem tablesSlot_ofNat (D : Nat) (hi : i < 2 ^ 32) :
    tablesSlot (BitVec.ofNat 32 D) (pageIndex (BitVec.ofNat 32 i)) =
      BitVec.ofNat 32 (D + 4 * (i / 4096 / 1024)) := by
  rw [pageIndex_ofNat hi, tablesSlot_index]

theorem tablesPhysSlot_ofNat (D : Nat) (hi : i < 2 ^ 32) :
    tablesPhysSlot (BitVec.ofNat 32 D) (pageIndex (BitVec.ofNat 32 i)) =
      BitVec.ofNat 32 (D + 0x1000 + 4 * (i / 4096 / 1024)) := by
  rw [pageIndex_ofNat hi, tablesPhysSlot_index]

theorem getPage_existing (hi : i < 2 ^ 32)
    (hslot : wordAt vm.mem (D + 4 * (i / 4096 / 1024)) = BitVec.ofNat 32 table)
    (htable : table ≠ 0) (hfit : table < 2 ^ 32) (makeTable : Bool) :
    getPage vm (BitVec.ofNat 32 i) (BitVec.ofNat 32 D) makeTable =
      .ok (BitVec.ofNat 32 (table + 4 * (i / 4096 % 1024)), vm) := by
  have hne : BitVec.ofNat 32 table ≠ 0 := by
    intro heq
    have hval := congrArg BitVec.toNat heq
    rw [toNat_ofNat_of_lt hfit] at hval
    exact htable hval
  have hload : load32 vm.mem (tablesSlot (BitVec.ofNat 32 D) (pageIndex (BitVec.ofNat 32 i))) =
      BitVec.ofNat 32 table := by
    rw [tablesSlot_ofNat D hi]
    exact hslot
  rw [getPage, hload, if_pos hne, pageOffset_ofNat hi, four_mul_ofNat, BitVec.ofNat_add]

/-- Before the kernel heap is there, an aligned block skips a page. -/
theorem kmalloc_aligned {A : Nat} {size : U32} {physAddr : Bool}
    (hearly : vm.heapIsInitialized = false) (hA : vm.physAllocAddr = BitVec.ofNat 32 A)
    (hlow : 4096 ≤ A) (hfit : A + 4096 < 2 ^ 32) :
    kmalloc vm size true physAddr =
      .ok (BitVec.ofNat 32 ((A / 4096 + 1) * 4096),
        if physAddr then BitVec.ofNat 32 ((A / 4096 + 1) * 4096) else 0,
        { vm with physAllocAddr := BitVec.ofNat 32 ((A / 4096 + 1) * 4096) + size }) := by
  have hmask : (BitVec.ofNat 32 A &&& 0xfffff000).toNat = A / 4096 * 4096 := by
    rw [and_page_toNat, toNat_ofNat_of_lt (by omega)]
  have hpage : BitVec.ofNat 32 A &&& 0xfffff000 ≠ 0 := by
    intro heq
    have hval := congrArg BitVec.toNat heq
    rw [hmask] at hval
    have hzero : (0 : U32).toNat = 0 := rfl
    omega
  have hstart : (BitVec.ofNat 32 A &&& 0xfffff000) + 0x1000 =
      BitVec.ofNat 32 ((A / 4096 + 1) * 4096) := by
    apply BitVec.eq_of_toNat_eq
    have hsize : (0x1000 : U32).toNat = 4096 := rfl
    calc ((BitVec.ofNat 32 A &&& 0xfffff000) + 0x1000).toNat
        = (A / 4096 * 4096 + 4096) % 2 ^ 32 := by rw [BitVec.toNat_add, hmask, hsize]
      _ = (A / 4096 + 1) * 4096 := by omega
      _ = (BitVec.ofNat 32 ((A / 4096 + 1) * 4096)).toNat := by
        rw [toNat_ofNat_of_lt (by omega)]
  rw [kmalloc, hearly, hA]
  simp only [hpage, hstart, Bool.false_eq_true, if_false, ne_eq, not_false_eq_true, and_self,
    if_true]

theorem getPage_new {A : Nat} (hi : i < 2 ^ 32) (hD : D % 4096 = 0) (hDfit : D + 0x2000 < 2 ^ 32)
    (hslot : wordAt vm.mem (D + 4 * (i / 4096 / 1024)) = 0)
    (hearly : vm.heapIsInitialized = false) (hA : vm.physAllocAddr = BitVec.ofNat 32 A)
    (hpage : A % 4096 = 0) (hlow : 4096 ≤ A) (hfit : A + 0x2000 < 2 ^ 32) :
    ∃ mem, getPage vm (BitVec.ofNat 32 i) (BitVec.ofNat 32 D) true =
        .ok (BitVec.ofNat 32 (A + 0x1000 + 4 * (i / 4096 % 1024)),
          { vm with mem := mem, physAllocAddr := BitVec.ofNat 32 (A + 0x2000) }) ∧
      ∃ m, WordSet vm.mem m (D + 4 * (i / 4096 / 1024)) (BitVec.ofNat 32 (A + 0x1000)) ∧
        WordSet m mem (D + 0x1000 + 4 * (i / 4096 / 1024))
          (BitVec.ofNat 32 (A + 0x1000) ||| 0x7) := by
  have hload : load32 vm.mem (tablesSlot (BitVec.ofNat 32 D) (pageIndex (BitVec.ofNat 32 i))) =
      0 := by
    rw [tablesSlot_ofNat D hi]
    exact hslot
  have hstart : (A / 4096 + 1) * 4096 = A + 0x1000 := by omega
  have hend : BitVec.ofNat 32 (A + 0x1000) + 0x1000 = BitVec.ofNat 32 (A + 0x2000) := by
    rw [show (0x1000 : U32) = BitVec.ofNat 32 0x1000 from rfl, ← BitVec.ofNat_add]
  have htables := @wordSet_store32 vm.mem (D + 4 * (i / 4096 / 1024))
    (BitVec.ofNat 32 (A + 0x1000)) (by omega) (by omega)
  generalize hm : store32 vm.mem (BitVec.ofNat 32 (D + 4 * (i / 4096 / 1024)))
    (BitVec.ofNat 32 (A + 0x1000)) = m at htables
  have htablesPhys := @wordSet_store32 m (D + 0x1000 + 4 * (i / 4096 / 1024))
    (BitVec.ofNat 32 (A + 0x1000) ||| 0x7) (by omega) (by omega)
  refine ⟨_, ?_, m, htables, htablesPhys⟩
  have hback := htablesPhys.other (D + 4 * (i / 4096 / 1024)) (by omega) (by omega) (by omega)
  rw [htables.self, wordAt] at hback
  rw [getPage, hload]
  simp only [ne_eq, not_true, if_false, if_true, kmalloc_aligned hearly hA hlow (by omega), hstart,
    hend, tablesSlot_ofNat D hi, tablesPhysSlot_ofNat D hi, bind, Except.bind, pure, Except.pure,
    hm, hback, pageOffset_ofNat hi, four_mul_ofNat, ← BitVec.ofNat_add]

end GetPage

end Mpx
