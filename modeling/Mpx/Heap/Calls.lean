import Mpx.Heap.FirstFit
import Mpx.Heap.Functions

/-! Runs in which `free_memory` is called on any pointer at all. -/

namespace Mpx

open Memory BlockList

inductive HeapCall : Heap → Heap → Prop
  | allocate (h : Heap) (sz p : U32) (h' : Heap) (hrun : allocateMemory h sz = .ok (p, h')) :
      HeapCall h h'
  | free (h : Heap) (ptr : U32) (r : Int) (h' : Heap)
      (hrun : freeMemory h ptr = .ok (r, h')) : HeapCall h h'

def HeapCalls : Heap → Heap → Prop := Relation.ReflTransGen HeapCall

theorem heapCall_represents {a : Nat} {h h' : Heap} {bs : List Block}
    (hrep : h.Represents a bs) (hcall : HeapCall h h') : ∃ rest, h'.Represents a rest := by
  cases hcall with
  | allocate sz p _ hrun =>
      rcases allocateMemory_cases hrep hrun with ⟨-, -, hh⟩ | ⟨q, rest, -, -, hrep', -⟩
      · rw [hh]
        exact ⟨bs, hrep⟩
      · exact ⟨rest, hrep'⟩
  | free ptr r _ hrun =>
      cases hrel : release 4 (payloadAt ptr) a bs with
      | none =>
          rw [freeMemory_missing hrep hrel] at hrun
          cases hrun
      | some rest =>
          rcases freeMemory_release hrep hrel with ⟨h₁, hrun₁, hrep₁, -⟩
          rw [hrun₁] at hrun
          cases hrun
          exact ⟨rest, hrep₁⟩

theorem heapCalls_represents {kmalloc : U32 → U32} {sz : U32} {m : Mem} {h : Heap}
    (hregion : HeapRegion kmalloc sz) (hrun : HeapCalls (initializeHeap kmalloc m sz) h) :
    ∃ bs, h.Represents (kmalloc (roundup sz + 4)).toNat bs := by
  apply Run.invariant (fun h => ∃ bs, h.Represents (kmalloc (roundup sz + 4)).toNat bs) _ hrun
  · exact ⟨_, initializeHeap_spec kmalloc m sz hregion.nonnull hregion.fits⟩
  · intro h₁ h₂ hrep hcall
    rcases hrep with ⟨bs, hrep⟩
    exact heapCall_represents hrep hcall

/-! Pointers that are not live. -/

def PayloadStart (h : Heap) (ptr : U32) : Prop :=
  ∃ bs, h.chain = .ok bs ∧ ∃ b ∈ bs, b.isFree = false ∧ mcbStart b.addr = ptr

/-- `free_memory` reports that it has not found `ptr`, and no header changes. -/
def RefusedSafely (h : Heap) (ptr : U32) : Prop :=
  ∃ h', freeMemory h ptr = .ok (-1, h') ∧ h'.chain = h.chain

theorem payloadStart_iff {h : Heap} {a : Nat} {bs : List Block} {ptr : U32}
    (hrep : h.Represents a bs) :
    PayloadStart h ptr ↔ ∃ n, (payloadAt ptr, n) ∈ held 4 a bs := by
  rw [← view_held_iff hrep, PayloadStart, chain_spec hrep]
  simp

/-- A pointer that is not live makes `free_memory` read the header behind NULL, in every
heap that calls can lead to. -/
theorem free_not_live_faults (kmalloc : U32 → U32) (m : Mem) (sz : U32) (h : Heap)
    (hregion : HeapRegion kmalloc sz) (hrun : HeapCalls (initializeHeap kmalloc m sz) h)
    (ptr : U32) (hdead : ¬ PayloadStart h ptr) :
    freeMemory h ptr = .error .nullPointer ∧ ¬ RefusedSafely h ptr := by
  rcases heapCalls_represents hregion hrun with ⟨bs, hrep⟩
  have hrel : release 4 (payloadAt ptr) (kmalloc (roundup sz + 4)).toNat bs = none := by
    apply release_eq_none_iff.mpr
    intro n hheld
    exact hdead ((payloadStart_iff hrep).mpr ⟨n, hheld⟩)
  have hfault := freeMemory_missing hrep hrel
  constructor
  · exact hfault
  · intro hsafe
    rcases hsafe with ⟨h', hret, -⟩
    rw [hfault] at hret
    cases hret

theorem kernelHeap_chain : kernelHeap.chain = .ok [⟨0xD000000, 50000, true, true⟩] :=
  chain_spec (initializeHeap_spec (fun _ => 0xD000000) ⟨fun _ => 0⟩ 50000 (by decide) (by decide))

theorem kernelHeap_all_free (ptr : U32) : ¬ PayloadStart kernelHeap ptr := by
  intro hptr
  rcases hptr with ⟨bs, hchain, b, hb, hfree, -⟩
  rw [kernelHeap_chain] at hchain
  cases hchain
  rw [List.mem_singleton.mp hb] at hfree
  cases hfree

theorem free_not_live_faults_null :
    freeMemory kernelHeap 0 = .error .nullPointer ∧ ¬ RefusedSafely kernelHeap 0 :=
  free_not_live_faults (fun _ => 0xD000000) ⟨fun _ => 0⟩ 50000 kernelHeap
    ⟨by decide, by decide⟩ .refl 0 (kernelHeap_all_free 0)

/-- The pointer NULL is not refused safely by the heap that `kmain` initializes. -/
theorem free_null_not_refused : HeapCalls kernelHeap kernelHeap ∧
    ¬ PayloadStart kernelHeap 0 ∧ ¬ RefusedSafely kernelHeap 0 := by
  constructor
  · exact .refl
  constructor
  · exact kernelHeap_all_free 0
  · intro hsafe
    rcases hsafe with ⟨h', hret, -⟩
    have hfault : (freeMemory kernelHeap 0).map Prod.fst = .error .nullPointer := by
      decide +kernel
    rw [hret] at hfault
    cases hfault

/-! Requests close to 2^32 bytes. -/

def AtLeastRequested (h : Heap) (sz : U32) : Prop :=
  ∀ p h', allocateMemory h sz = .ok (p, h') → p ≠ 0 → sz.toNat ≤ payloadSize h' p

theorem allocateMemory_size {h h' : Heap} {a : Nat} {bs : List Block} {sz p : U32}
    (hrep : h.Represents a bs) (hcall : allocateMemory h sz = .ok (p, h')) (hp : p ≠ 0) :
    ∃ rest, firstFit 4 (roundup sz).toNat a bs = some (p.toNat, rest) ∧
      (roundup sz).toNat ≤ payloadSize h' p ∧ payloadSize h' p < 2 ^ 32 - 4 := by
  rcases allocateMemory_block hrep hcall hp with ⟨q, rest, hfit, hq, hrep₁⟩
  rw [hq] at hp ⊢
  rcases held_firstFit hfit with ⟨n, hn, hperm⟩
  have hheld := hperm.mem_iff.mpr List.mem_cons_self
  have hbounds := held_bounds hheld
  have hend := encodes_span hrep₁.encodes hrep₁.nonempty
  rcases held_mem_layout hheld with ⟨d, hd, hlay⟩
  rcases encodes_header hrep₁.encodes hlay with ⟨last, hheader⟩
  have hpos := hheader.pos
  have haddr : (addr q).toNat = q := addr_toNat_of_ne (by omega) (by omega) hp
  have hsize : payloadSize h' (addr q) = n := by
    apply payloadSize_eq hrep₁
    rw [haddr]
    exact hheld
  rw [hsize, haddr]
  exact ⟨rest, hfit, hn, by omega⟩

theorem atLeastRequested_small {h : Heap} {a : Nat} {bs : List Block} {sz : U32}
    (hrep : h.Represents a bs) (hsz : sz.toNat ≤ 2 ^ 32 - 4) : AtLeastRequested h sz := by
  intro p h' hcall hp
  rcases allocateMemory_size hrep hcall hp with ⟨rest, -, hlarge, -⟩
  rw [roundup_small hsz] at hlarge
  unfold roundedSize at hlarge
  omega

/-- Any FREE block whose pointer is not NULL makes the call return one that is too small. -/
theorem not_atLeastRequested_large {h : Heap} {a : Nat} {bs : List Block} {sz : U32} {b : Mcb}
    (hrep : h.Represents a bs) (hsz : 2 ^ 32 - 4 < sz.toNat) (hb : b ∈ view a bs)
    (hfree : b.isFree = true) (hne : mcbStart b.addr ≠ 0) : ¬ AtLeastRequested h sz := by
  have hzero : (roundup sz).toNat = 0 := roundup_large hsz
  rcases mem_view hb with ⟨d, c, hlay, haddr, -, hkind⟩
  rcases encodes_header hrep.encodes hlay with ⟨last, hheader⟩
  have hfits := hheader.fits
  cases hfit : firstFit 4 (roundup sz).toNat a bs with
  | none =>
      rw [hzero, firstFit_eq_none_iff] at hfit
      exact absurd ((view_sizes hrep.encodes).mpr hfit b hb hfree) (Nat.not_lt_zero _)
  | some found =>
      rcases found with ⟨q, rest⟩
      rcases allocateMemory_some hrep hfit with ⟨h', hcall, -, -⟩
      -- the block that is returned lies no higher than `b`, so its pointer is not NULL either
      have hlow := firstFit_lowest hfit hlay (by omega) (hkind ▸ hfree)
      rcases firstFit_split hfit with ⟨front, -, back, -, -, hstart, -, -⟩
      have hend : payloadAt 0 = 2 ^ 32 := rfl
      have hq : addr q ≠ 0 := by
        rw [haddr, mcbStart_addr, ne_eq, addr_eq_iff (by omega) (by omega)] at hne
        rw [ne_eq, addr_eq_iff (by omega) (by omega)]
        omega
      rcases allocateMemory_size hrep hcall hq with ⟨-, -, -, hsmall⟩
      intro hall
      have hlarge := hall (addr q) h' hcall hq
      omega

theorem atLeastRequested_none {h : Heap} {a : Nat} {bs : List Block} {sz : U32}
    (hrep : h.Represents a bs)
    (hall : ∀ b ∈ view a bs, b.isFree = true → mcbStart b.addr = 0) : AtLeastRequested h sz := by
  intro p h' hcall hp
  rcases allocateMemory_size hrep hcall hp with ⟨rest, hfit, -, -⟩
  rcases takesLowest_view hrep.nonempty hrep.encodes hfit with ⟨b, hb⟩
  rcases hb.chain with ⟨front, back, hbs, -⟩
  have hmem : b ∈ view a bs := by
    rw [hbs]
    simp
  have hnull := hall b hmem hb.fits.1
  rw [← hb.start] at hnull
  simp only [addr, BitVec.ofNat_toNat, BitVec.setWidth_eq] at hnull
  exact absurd hnull hp

/-- Blocks are large enough for every request but the last three below 2^32, which are
rounded up to nothing and get any FREE block. -/
theorem at_least_requested_iff (kmalloc : U32 → U32) (m : Mem) (total : U32) (h : Heap)
    (hregion : HeapRegion kmalloc total) (hrun : HeapCalls (initializeHeap kmalloc m total) h)
    (sz : U32) :
    AtLeastRequested h sz ↔ sz.toNat ≤ 2 ^ 32 - 4 ∨
      ∀ bs, h.chain = .ok bs → ∀ b ∈ bs, b.isFree = true → mcbStart b.addr = 0 := by
  rcases heapCalls_represents hregion hrun with ⟨bs, hrep⟩
  simp only [chain_spec hrep, Except.ok.injEq, forall_eq']
  by_cases hsz : sz.toNat ≤ 2 ^ 32 - 4
  · exact iff_of_true (atLeastRequested_small hrep hsz) (Or.inl hsz)
  · simp only [hsz, false_or]
    constructor
    · intro hlarge b hb hfree
      by_contra hne
      exact not_atLeastRequested_large hrep (not_le.mp hsz) hb hfree hne hlarge
    · exact fun hall => atLeastRequested_none hrep hall

theorem at_least_requested_iff_kernel_heap : ¬ AtLeastRequested kernelHeap 0xFFFFFFFF := by
  have hcond := at_least_requested_iff (fun _ => 0xD000000) ⟨fun _ => 0⟩ 50000 kernelHeap
    ⟨by decide, by decide⟩ .refl 0xFFFFFFFF
  rw [hcond, kernelHeap_chain]
  simp only [Except.ok.injEq, forall_eq', List.mem_singleton, forall_eq]
  decide

/-- A request of 2^32 - 1 bytes gets a block of none. -/
theorem request_rounded_to_zero : HeapCalls kernelHeap kernelHeap ∧
    ¬ AtLeastRequested kernelHeap 0xFFFFFFFF := by
  constructor
  · exact .refl
  · intro hlarge
    have hcompute : (allocateMemory kernelHeap 0xFFFFFFFF).map
        (fun r => (r.1, payloadSize r.2 r.1)) = .ok (0xD000004, 0) := by decide +kernel
    rcases Run.of_map_ok hcompute with ⟨⟨p, h'⟩, hcall, heq⟩
    rcases Prod.mk.inj heq with ⟨hp, hsize⟩
    have hne : p ≠ 0 := by
      rw [show p = 0xD000004 from hp]
      decide
    have hbad := hlarge p h' hcall hne
    rw [show payloadSize h' p = 0 from hsize] at hbad
    exact absurd hbad (by decide)

end Mpx
