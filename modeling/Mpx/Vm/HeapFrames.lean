import Mpx.Heap.Room
import Mpx.Vm.Translation

/-! The heap manager on the mapped pages of the kernel heap: every byte of an allocated block
has a frame of its own. -/

namespace Mpx

open Memory Loop Run BlockList

/-- `kmalloc(size, 0, NULL)`, as `initialize_heap` calls it. -/
def Vm.region (vm : Vm) (size : U32) : U32 :=
  match kmalloc vm size false false with
  | .ok (addr, _, _) => addr
  | .error _ => 0

def InBlock (h : Heap) (p x : U32) : Prop :=
  p.toNat ≤ x.toNat + 4 ∧ x.toNat < p.toNat + payloadSize h p

section Translate

variable {top : Nat} {a b x : U32}

theorem mappedAddr_injective (htop : top ≤ 0x4000000) (ha : mappedAddr top a = some x)
    (hb : mappedAddr top b = some x) : a = b := by
  have hplace : ∀ c, mappedAddr top c = some x →
      (c = x ∧ x.toNat < top) ∨ (top ≤ x.toNat ∧ c.toNat + top = 0xd000000 + x.toNat) := by
    intro c hc
    by_cases hlow : 0x1000 ≤ c.toNat ∧ c.toNat < top
    · rw [mappedAddr_identity hlow.1 hlow.2] at hc
      have heq := Option.some.inj hc
      exact Or.inl ⟨heq, heq ▸ hlow.2⟩
    · by_cases hheap : 0xd000000 ≤ c.toNat ∧ c.toNat < 0xd010000
      · rw [mappedAddr_heap htop hheap.1 hheap.2] at hc
        have heq := congrArg BitVec.toNat (Option.some.inj hc)
        rw [toNat_ofNat_of_lt (by omega)] at heq
        omega
      · rw [mappedAddr_outside hlow hheap] at hc
        cases hc
  cases hplace a ha with
  | inl hidentity =>
      cases hplace b hb with
      | inl hidentity' => rw [hidentity.1, hidentity'.1]
      | inr hheap' => omega
  | inr hheap =>
      cases hplace b hb with
      | inl hidentity' => omega
      | inr hheap' => exact BitVec.eq_of_toNat_eq (by omega)

theorem mappedAddr_behind (htop : top ≤ 0x4000000) (hlow : 0xd000000 ≤ a.toNat)
    (hhigh : a.toNat < 0xd010000) : ∃ x, mappedAddr top a = some x ∧ top ≤ x.toNat := by
  refine ⟨_, mappedAddr_heap htop hlow hhigh, ?_⟩
  rw [toNat_ofNat_of_lt (by omega)]
  omega

end Translate

section Blocks

variable {r total : Nat} {s : HeapState} {bs : List Block} {p q x : U32}

theorem inBlock_bounds (hinv : HeapInv r total s bs) (hp : p ∈ s.live) (hx : InBlock s.heap p x) :
    r ≤ x.toNat ∧ x.toNat < r + total := by
  have hbounds := held_bounds (live_held hinv hp)
  rw [hinv.total] at hbounds
  have hlow := hx.1
  have hhigh := hx.2
  omega

theorem inBlock_unique (hinv : HeapInv r total s bs) (hp : p ∈ s.live) (hq : q ∈ s.live)
    (hx : InBlock s.heap p x) (hx' : InBlock s.heap q x) : q = p := by
  by_contra hne
  have hpair : (q.toNat, payloadSize s.heap q) ≠ (p.toNat, payloadSize s.heap p) :=
    fun heq => hne (BitVec.eq_of_toNat_eq (congrArg Prod.fst heq))
  have hapart := held_apart (live_held hinv hq) (live_held hinv hp) hpair
  have hlow := hx.1
  have hhigh := hx.2
  have hlow' := hx'.1
  have hhigh' := hx'.2
  omega

end Blocks

theorem region_eq {vm : Vm} {size : U32} (hheap : HeapAt vm 0)
    (hsize : size.toNat ≤ 0x10000) : vm.region size = KHEAP_BASE := by
  have hsum : ¬ vm.heapAddr + size > KHEAP_BASE + KHEAP_SIZE := by
    rw [hheap.above_limit_iff]
    omega
  rw [Vm.region, kmalloc_initialized hheap.initialized, if_neg hsum]
  exact hheap.heapAddr

/-- The heap that `initialize_heap` lays out after `vm_init` never faults: whatever was allocated
and freed, each byte of a live block is mapped, to a frame behind the page tables, that frame
is mapped nowhere else, and the byte belongs to no other block. -/
theorem live_blocks_own_frames (mem : Mem) (physEnd : U32) (hpage : 0x1000 ≤ physEnd.toNat)
    (hfits : identityTop physEnd + 16 * 0x1000 ≤ MEM_SIZE.toNat)
    (hzero : ∀ a, physEnd ≤ a → a < MEM_SIZE → mem.byte a = 0) (vm : Vm)
    (hinit : vmInit (bootVm mem physEnd) = .ok vm) (m : Mem) (sz : U32)
    (hsize : (roundup sz).toNat + 4 ≤ KHEAP_SIZE.toNat) (s : HeapState)
    (hrun : HeapRun ⟨initializeHeap vm.region m sz, []⟩ s) (p x : U32) (hp : p ∈ s.live)
    (hx : InBlock s.heap p x) :
    ∃ y, vm.translate x = some y ∧ identityTop physEnd ≤ y.toNat ∧
      (∀ a, vm.translate a = some y → a = x) ∧ ∀ q ∈ s.live, InBlock s.heap q x → q = p := by
  obtain ⟨paged, D, T, n, hpaged, hm, hl, hT, hcovered, hn, htop⟩ :=
    vmInit_paging hpage hfits hzero
  have htranslate : ∀ a, vm.translate a = mappedAddr (identityTop physEnd) a := by
    intro a
    rw [hpaged] at hinit
    cases hinit
    rw [pagingVm_translate hm hl hT hcovered hn, htop]
  have htotal : (roundup sz + 4).toNat = (roundup sz).toNat + 4 := by
    have hlimit : KHEAP_SIZE.toNat = 0x10000 := rfl
    have hword : (4 : U32).toNat = 4 := rfl
    rw [BitVec.toNat_add, hword]
    omega
  have hregion : vm.region (roundup sz + 4) = KHEAP_BASE :=
    region_eq (heapAt_vmInit hinit) (htotal ▸ hsize)
  have hbase : (vm.region (roundup sz + 4)).toNat = 0xd000000 := by
    rw [hregion]
    rfl
  have hsize' : (roundup sz).toNat + 4 ≤ 0x10000 := hsize
  have hheap : HeapRegion vm.region sz := ⟨by rw [hregion]; decide, by omega⟩
  obtain ⟨bs, hinv⟩ := heapInv_run hheap hrun
  have hbounds := inBlock_bounds hinv hp hx
  obtain ⟨y, hy, hbehind⟩ := @mappedAddr_behind (identityTop physEnd) x (by omega) (by omega)
    (by omega)
  refine ⟨y, (htranslate x).trans hy, hbehind, ?_, fun q hq hx' => inBlock_unique hinv hp hq hx hx'⟩
  intro a ha
  rw [htranslate] at ha
  exact mappedAddr_injective (by omega) ha hy

theorem live_blocks_own_frames_first_block :
    ∃ vm s y, vmInit (bootVm ⟨fun _ => 0⟩ 0x123456) = .ok vm ∧
      HeapRun ⟨initializeHeap vm.region ⟨fun _ => 0⟩ 50000, []⟩ s ∧ s.live = [0xd000004] ∧
      vm.translate 0xd000004 = some y ∧ ∀ a, vm.translate a = some y → a = 0xd000004 := by
  obtain ⟨vm, hinit⟩ := vmInit_small
  have hregion : vm.region (roundup 50000 + 4) = KHEAP_BASE :=
    region_eq (heapAt_vmInit hinit) (by decide)
  have hinitial : initializeHeap vm.region ⟨fun _ => 0⟩ 50000 = kernelHeap := by
    rw [initializeHeap, hregion]
    rfl
  have hcompute : (allocateMemory kernelHeap 10).map
      (fun x => (x.1, payloadSize x.2 0xd000004)) = .ok (0xd000004, 12) := by decide +kernel
  obtain ⟨⟨p, h⟩, halloc, hblock⟩ := of_map_ok hcompute
  cases congrArg Prod.fst hblock
  have hsize : payloadSize h 0xd000004 = 12 := congrArg Prod.snd hblock
  have hrun : HeapRun ⟨initializeHeap vm.region ⟨fun _ => 0⟩ 50000, []⟩ ⟨h, [0xd000004]⟩ := by
    rw [hinitial]
    exact Relation.ReflTransGen.single (.allocate ⟨kernelHeap, []⟩ 10 0xd000004 h halloc)
  have hx : InBlock h 0xd000004 0xd000004 := by
    rw [InBlock, hsize]
    decide
  obtain ⟨y, hy, -, hown, -⟩ := live_blocks_own_frames ⟨fun _ => 0⟩ 0x123456 (by decide)
    (by decide) (fun _ _ _ => rfl) vm hinit ⟨fun _ => 0⟩ 50000 (by decide) _ hrun 0xd000004
    0xd000004 List.mem_cons_self hx
  exact ⟨vm, _, y, hinit, hrun, rfl, hy, hown⟩

end Mpx
