import Mpx.Heap.FreeOrder

/-! What one call of `allocate_memory` does to the chain, and that `free_memory` undoes it. -/

namespace Mpx

open Memory BlockList

theorem roundup_small {sz : U32} (hsz : sz.toNat ≤ 2 ^ 32 - 4) :
    (roundup sz).toNat = roundedSize sz := by
  rw [roundup_toNat, Nat.mod_eq_of_lt]
  unfold roundedSize
  omega

/-- The three largest requests are rounded up to nothing. -/
theorem roundup_large {sz : U32} (hsz : 2 ^ 32 - 4 < sz.toNat) : (roundup sz).toNat = 0 := by
  have hlt := sz.isLt
  rw [roundup_toNat]
  unfold roundedSize
  omega

/-! The chain with the block that first fit takes singled out. -/

def Mcb.Fits (r : Nat) (b : Mcb) : Prop := b.isFree = true ∧ r ≤ b.size.toNat

def taken (r : Nat) (b : Mcb) : List Mcb :=
  if r + 4 < b.size.toNat then
    [⟨b.addr, BitVec.ofNat 32 r, false, false⟩,
      ⟨mcbStart b.addr + BitVec.ofNat 32 r, BitVec.ofNat 32 (b.size.toNat - r - 4), true, b.isEnd⟩]
  else [⟨b.addr, b.size, false, b.isEnd⟩]

/-- `p` is the payload start of the lowest block of the chain `bs` that fits, and `bs'` is the
chain once that block is taken. -/
structure TakesLowest (r : Nat) (bs : List Mcb) (p : U32) (bs' : List Mcb) (b : Mcb) : Prop where
  fits : b.Fits r
  lowest : ∀ c ∈ bs, c.Fits r → b.addr.toNat ≤ c.addr.toNat
  start : p = mcbStart b.addr
  chain : ∃ front back, bs = front ++ b :: back ∧ bs' = front ++ (taken r b ++ back)

def viewFront (a : Nat) (front : List Block) : List Mcb :=
  (layout 4 a front).map fun x => ⟨addr x.1, BitVec.ofNat 32 x.2.size, x.2.free, false⟩

theorem view_append {a : Nat} {front rest : List Block} (hne : rest ≠ []) :
    view a (front ++ rest) = viewFront a front ++ view (a + span 4 front) rest := by
  induction front generalizing a with
  | nil => rfl
  | cons b front ih =>
      have hmore : (front ++ rest).isEmpty = false := by
        rw [List.isEmpty_eq_false_iff]
        exact List.append_ne_nil_of_right_ne_nil front hne
      have hspan : a + 4 + b.size + span 4 front = a + span 4 (b :: front) := by
        simp only [span]
        omega
      rw [List.cons_append, view, ih, hmore, hspan]
      rfl

theorem view_carve {a n : Nat} {b : Block} (back : List Block) (hsize : b.size < 2 ^ 32) :
    view a (carve 4 n b ++ back) =
      taken n ⟨addr a, BitVec.ofNat 32 b.size, true, back.isEmpty⟩ ++
        view (a + 4 + b.size) back := by
  have hval : (BitVec.ofNat 32 b.size).toNat = b.size := addr_toNat hsize
  unfold carve taken
  simp only [hval]
  split
  · next hroom =>
    have hend : a + 4 + n + 4 + (b.size - n - 4) = a + 4 + b.size := by omega
    have hnew : addr (a + 4 + n) = mcbStart (addr a) + BitVec.ofNat 32 n := by
      rw [mcbStart_addr]
      exact BitVec.ofNat_add (a + 4) n
    simp [view, hend, hnew]
  · simp [view]

theorem takesLowest_view {m : Mem} {a n p : Nat} {bs rest : List Block} (hne : bs ≠ [])
    (henc : Encodes m a bs) (hfit : firstFit 4 n a bs = some (p, rest)) :
    ∃ b, TakesLowest n (view a bs) (addr p) (view a rest) b := by
  rcases firstFit_split hfit with ⟨front, c, back, rfl, rfl, hp, hc⟩
  have hend := encodes_span henc hne
  simp only [span_append, span] at hend
  have hval : (BitVec.ofNat 32 c.size).toNat = c.size := addr_toNat (by omega)
  have hhead : (addr (a + span 4 front)).toNat = a + span 4 front := addr_toNat (by omega)
  have hbefore : view a (front ++ c :: back) = viewFront a front ++
      ⟨addr (a + span 4 front), BitVec.ofNat 32 c.size, true, back.isEmpty⟩ ::
        view (a + span 4 front + 4 + c.size) back := by
    rw [view_append (List.cons_ne_nil c back), view, hc.2]
  have hafter : view a (front ++ (carve 4 n c ++ back)) = viewFront a front ++
      (taken n ⟨addr (a + span 4 front), BitVec.ofNat 32 c.size, true, back.isEmpty⟩ ++
        view (a + span 4 front + 4 + c.size) back) := by
    have hcarve : carve 4 n c ++ back ≠ [] := by
      unfold carve
      split <;> simp
    rw [view_append hcarve, view_carve back (by omega)]
  refine ⟨⟨addr (a + span 4 front), BitVec.ofNat 32 c.size, true, back.isEmpty⟩, ?_, ?_, ?_, ?_⟩
  · constructor
    · rfl
    · rw [hval]
      exact hc.1
  · intro d hd hdfit
    rcases mem_view hd with ⟨x, e, hlay, haddr, hsize, hfree⟩
    rcases encodes_header henc hlay with ⟨last, hheader⟩
    have hxfits := hheader.fits
    have hesize : e.size = d.size.toNat := by
      rw [hsize]
      exact (addr_toNat (by omega)).symm
    have hlow := firstFit_lowest hfit hlay (hesize ▸ hdfit.2) (hfree ▸ hdfit.1)
    rw [haddr, hheader.addr_toNat, hhead]
    omega
  · rw [hp, mcbStart_addr]
  · exact ⟨_, _, hbefore, hafter⟩

theorem view_increasing {m : Mem} {a : Nat} {bs : List Block} (henc : Encodes m a bs) :
    (view a bs).Pairwise fun b c => b.addr.toNat < c.addr.toNat := by
  induction bs generalizing a with
  | nil => exact List.Pairwise.nil
  | cons b bs ih =>
      rw [view, List.pairwise_cons]
      constructor
      · intro c hc
        rcases mem_view hc with ⟨d, e, hlay, haddr, -, -⟩
        rcases encodes_header henc.2 hlay with ⟨last, hheader⟩
        have hlow := (layout_bounds hlay).1
        rw [haddr, hheader.addr_toNat, henc.1.addr_toNat]
        omega
      · exact ih henc.2

/-- A call of `allocate_memory` takes the lowest block that fits and changes no other block.
It returns NULL when no block fits, and then it changes nothing. -/
theorem allocate_first_fit (kmalloc : U32 → U32) (m : Mem) (total : U32) (s : HeapState)
    (hregion : HeapRegion kmalloc total)
    (hend : (kmalloc (roundup total + 4)).toNat + ((roundup total).toNat + 4) < 2 ^ 32)
    (hrun : HeapRun ⟨initializeHeap kmalloc m total, []⟩ s) (sz : U32)
    (hsz : sz.toNat ≤ 2 ^ 32 - 4) :
    ∃ bs p h bs', s.heap.chain = .ok bs ∧
      bs.Pairwise (fun b c => b.addr.toNat < c.addr.toNat) ∧
      allocateMemory s.heap sz = .ok (p, h) ∧ h.chain = .ok bs' ∧
      (p = 0 ↔ ∀ b ∈ bs, ¬ b.Fits (roundedSize sz)) ∧
      (p = 0 → h = s.heap) ∧
      (p ≠ 0 → ∃ b, TakesLowest (roundedSize sz) bs p bs' b) := by
  rcases heapInv_run hregion hrun with ⟨bs, hinv⟩
  have hrep := hinv.represents
  have hround := roundup_small hsz
  have hchain := chain_spec hrep
  have hincr := view_increasing hrep.encodes
  have hnone : firstFit 4 (roundedSize sz) (kmalloc (roundup total + 4)).toNat bs = none ↔
      ∀ b ∈ view (kmalloc (roundup total + 4)).toNat bs, ¬ b.Fits (roundedSize sz) := by
    rw [firstFit_eq_none_iff, ← view_sizes hrep.encodes]
    simp only [Mcb.Fits, not_and, Nat.not_le]
  cases hfit : firstFit 4 (roundedSize sz) (kmalloc (roundup total + 4)).toNat bs with
  | none =>
      have hcall := allocateMemory_none hrep (hround ▸ hfit)
      refine ⟨_, 0, s.heap, _, hchain, hincr, hcall, hchain, ?_, fun _ => rfl, ?_⟩
      · exact iff_of_true rfl (hnone.mp hfit)
      · exact fun hne => absurd rfl hne
  | some found =>
      rcases found with ⟨q, rest⟩
      rcases allocateMemory_some hrep (hround ▸ hfit) with ⟨h, hcall, hrep', -⟩
      have htaken := takesLowest_view hrep.nonempty hrep.encodes hfit
      have hp : addr q ≠ 0 := heapInv_firstFit_ne_null hinv hend hfit
      refine ⟨_, addr q, h, _, hchain, hincr, hcall, chain_spec hrep', ?_, ?_, fun _ => htaken⟩
      · apply iff_of_false hp
        intro hall
        rw [hnone.mpr hall] at hfit
        cases hfit
      · exact fun hzero => absurd hzero hp

theorem allocate_first_fit_kernel_heap :
    ∃ bs p h bs' b, allocateMemory (initializeHeap (fun _ => 0xD000000) ⟨fun _ => 0⟩ 50000) 10 =
        .ok (p, h) ∧ p = 0xD000004 ∧ h.chain = .ok bs' ∧ TakesLowest 12 bs p bs' b := by
  have hcompute : (allocateMemory (initializeHeap (fun _ => 0xD000000) ⟨fun _ => 0⟩ 50000)
      10).map Prod.fst = .ok 0xD000004 := by decide +kernel
  rcases allocate_first_fit (fun _ => 0xD000000) ⟨fun _ => 0⟩ 50000 _ ⟨by decide, by decide⟩
    (by decide) .refl 10 (by decide) with
    ⟨bs, p, h, bs', -, -, hcall, hchain, -, -, htaken⟩
  have hp : p = 0xD000004 := by
    rw [hcall] at hcompute
    exact Except.ok.inj hcompute
  have hne : p ≠ 0 := by
    rw [hp]
    decide
  rcases htaken hne with ⟨b, hb⟩
  exact ⟨bs, p, h, bs', b, hcall, hp, hchain, hb⟩

def Heap.firstRoom (h : Heap) (r : Nat) : Option Mcb :=
  match h.chain with
  | .ok bs => bs.find? fun b => b.isFree && decide (r ≤ b.size.toNat)
  | .error _ => none

theorem firstFit_find {m : Mem} {a n : Nat} {bs : List Block} (henc : Encodes m a bs) :
    (firstFit 4 n a bs).map (fun r => addr r.1) =
      ((view a bs).find? fun b => b.isFree && decide (n ≤ b.size.toNat)).map
        fun b => mcbStart b.addr := by
  induction bs generalizing a with
  | nil => rfl
  | cons b bs ih =>
      have hfits := henc.1.fits
      have hsize : (BitVec.ofNat 32 b.size).toNat = b.size := addr_toNat (by omega)
      rw [firstFit, view]
      by_cases hfit : n ≤ b.size ∧ b.free = true
      · rw [if_pos hfit, List.find?_cons_of_pos (by simp [hsize, hfit])]
        simp only [Option.map_some, mcbStart_addr]
      · have hskip : (b.free && decide (n ≤ b.size)) = false := by
          rw [and_comm] at hfit
          simpa using hfit
        rw [if_neg hfit, List.find?_cons_of_neg (by simp [hsize, hskip]), ← ih henc.2,
          Option.map_map]
        rfl

theorem firstRoom_eq {h : Heap} {a n : Nat} {bs : List Block} (hrep : h.Represents a bs) :
    (h.firstRoom n).map (fun b => mcbStart b.addr) =
      (firstFit 4 n a bs).map fun r => addr r.1 := by
  rw [firstFit_find hrep.encodes, Heap.firstRoom, chain_spec hrep]

theorem firstRoom_none_iff {h : Heap} {a n : Nat} {bs : List Block} (hrep : h.Represents a bs) :
    h.firstRoom n = none ↔ firstFit 4 n a bs = none := by
  have hfind := @firstRoom_eq h a n bs hrep
  constructor
  · intro hnone
    rw [hnone, Option.map_none, eq_comm, Option.map_eq_none_iff] at hfind
    exact hfind
  · intro hnone
    rw [hnone, Option.map_none, Option.map_eq_none_iff] at hfind
    exact hfind

theorem allocateMemory_full {h : Heap} {a : Nat} {bs : List Block} {sz : U32}
    (hrep : h.Represents a bs) (hfull : h.firstRoom (roundup sz).toNat = none) :
    allocateMemory h sz = .ok (0, h) :=
  allocateMemory_none hrep ((firstRoom_none_iff hrep).mp hfull)

theorem allocateMemory_room {h : Heap} {a : Nat} {bs : List Block} {sz : U32} {b : Mcb}
    (hrep : h.Represents a bs) (hpos : 0 < (roundup sz).toNat)
    (hroom : h.firstRoom (roundup sz).toNat = some b) :
    ∃ h', allocateMemory h sz = .ok (mcbStart b.addr, h') ∧ mcbStart b.addr ≠ 0 := by
  have hfind := @firstRoom_eq h a (roundup sz).toNat bs hrep
  rw [hroom, Option.map_some, eq_comm, Option.map_eq_some_iff] at hfind
  rcases hfind with ⟨⟨q, rest⟩, hfit, hstart⟩
  rcases allocateMemory_some hrep hfit with ⟨h', hcall, hrep', -⟩
  rcases held_firstFit hfit with ⟨n, hn, hperm⟩
  have hbounds := held_bounds (hperm.mem_iff.mpr List.mem_cons_self)
  have hend := encodes_span hrep'.encodes hrep'.nonempty
  have hstart' : addr q = mcbStart b.addr := hstart
  rw [← hstart']
  have hlast : payloadAt 0 = 2 ^ 32 := rfl
  have hne : addr q ≠ 0 := by
    rw [ne_eq, addr_eq_iff (by omega) (by omega)]
    omega
  exact ⟨h', hcall, hne⟩

/-- How many blocks of `n` bytes the heap can hand out one after the other. -/
def Heap.slots (h : Heap) (n : Nat) : Nat :=
  match h.chain with
  | .ok bs => (bs.map fun b => if b.isFree then (b.size.toNat + 4) / (n + 4) else 0).sum
  | .error _ => 0

theorem view_slots {m : Mem} {a n : Nat} {bs : List Block} (henc : Encodes m a bs) :
    ((view a bs).map fun b => if b.isFree then (b.size.toNat + 4) / (n + 4) else 0).sum =
      slots 4 n bs := by
  induction bs generalizing a with
  | nil => rfl
  | cons b bs ih =>
      have hfits := henc.1.fits
      have hsize : (BitVec.ofNat 32 b.size).toNat = b.size := addr_toNat (by omega)
      rw [view, List.map_cons, List.sum_cons, ih henc.2, slots_cons, hsize]

theorem Heap.Represents.slots_eq {h : Heap} {a n : Nat} {bs : List Block}
    (hrep : h.Represents a bs) : h.slots n = BlockList.slots 4 n bs := by
  rw [Heap.slots, chain_spec hrep]
  exact view_slots hrep.encodes

theorem firstRoom_eq_none_iff {h : Heap} {a n : Nat} {bs : List Block}
    (hrep : h.Represents a bs) (hpos : 0 < n) : h.firstRoom n = none ↔ h.slots n = 0 := by
  rw [firstRoom_none_iff hrep, hrep.slots_eq, slots_eq_zero_iff hpos]

theorem allocateMemory_slots {h h' : Heap} {a : Nat} {bs : List Block} {sz p : U32}
    (hrep : h.Represents a bs) (hpos : 0 < (roundup sz).toNat)
    (hcall : allocateMemory h sz = .ok (p, h')) (hp : p ≠ 0) :
    h.slots (roundup sz).toNat = h'.slots (roundup sz).toNat + 1 := by
  rcases allocateMemory_block hrep hcall hp with ⟨q, rest, hfit, -, hrep'⟩
  calc h.slots (roundup sz).toNat = BlockList.slots 4 (roundup sz).toNat bs := hrep.slots_eq
    _ = BlockList.slots 4 (roundup sz).toNat rest + 1 := slots_firstFit hpos hfit
    _ = h'.slots (roundup sz).toNat + 1 := by rw [hrep'.slots_eq]

theorem view_injective {m m' : Mem} {a a' : Nat} {bs bs' : List Block} (henc : Encodes m a bs)
    (henc' : Encodes m' a' bs') (hview : view a bs = view a' bs') : bs = bs' := by
  induction bs generalizing a a' bs' with
  | nil =>
      cases bs' with
      | nil => rfl
      | cons c cs => cases hview
  | cons b bs ih =>
      cases bs' with
      | nil => cases hview
      | cons c cs =>
          simp only [view, List.cons.injEq, Mcb.mk.injEq] at hview
          rcases hview with ⟨⟨-, hsize, hfree, -⟩, htail⟩
          have hb := henc.1.fits
          have hc := henc'.1.fits
          have hsame : b.size = c.size := by
            have hval := congrArg BitVec.toNat hsize
            rwa [addr_toNat (by omega), addr_toNat (by omega)] at hval
          have hblock : b = c := by
            cases b
            cases c
            simp only [Block.mk.injEq]
            exact ⟨hsame, hfree⟩
          rw [hblock, ih henc.2 henc'.2 htail]

theorem Heap.Represents.of_chain_eq {h h' : Heap} {a a' : Nat} {bs bs' : List Block}
    (hrep : h.Represents a bs) (hrep' : h'.Represents a' bs') (hchain : h.chain = h'.chain) :
    a = a' ∧ bs = bs' := by
  rw [chain_spec hrep, chain_spec hrep'] at hchain
  have hview := Except.ok.inj hchain
  have hsame := view_injective hrep.encodes hrep'.encodes hview
  refine ⟨?_, hsame⟩
  rcases List.exists_cons_of_ne_nil hrep.nonempty with ⟨b, rest, hbs⟩
  have hb : Encodes h.mem a (b :: rest) := hbs ▸ hrep.encodes
  have hb' : Encodes h'.mem a' (b :: rest) := hbs ▸ hsame ▸ hrep'.encodes
  have hfits := hb.1.fits
  have hfits' := hb'.1.fits
  rw [← hsame, hbs] at hview
  simp only [view, List.cons.injEq, Mcb.mk.injEq] at hview
  have hval := congrArg BitVec.toNat hview.1.1
  rwa [addr_toNat (by omega), addr_toNat (by omega)] at hval

/-- What a call returns, and the chain after it, depend on the chain only. -/
theorem allocateMemory_congr {h h' h₁ h₁' : Heap} {a a' : Nat} {bs bs' : List Block}
    {sz p p' : U32} (hrep : h.Represents a bs) (hrep' : h'.Represents a' bs')
    (hchain : h.chain = h'.chain) (hcall : allocateMemory h sz = .ok (p, h₁))
    (hcall' : allocateMemory h' sz = .ok (p', h₁')) : p = p' ∧ h₁.chain = h₁'.chain := by
  rcases hrep.of_chain_eq hrep' hchain with ⟨ha, hbs⟩
  rw [← ha, ← hbs] at hrep'
  cases hfit : firstFit 4 (roundup sz).toNat a bs with
  | none =>
      rw [allocateMemory_none hrep hfit] at hcall
      rw [allocateMemory_none hrep' hfit] at hcall'
      cases hcall
      cases hcall'
      exact ⟨rfl, hchain⟩
  | some found =>
      rcases allocateMemory_some hrep hfit with ⟨k, hrun, hnext, -⟩
      rcases allocateMemory_some hrep' hfit with ⟨k', hrun', hnext', -⟩
      rw [hrun] at hcall
      rw [hrun'] at hcall'
      cases hcall
      cases hcall'
      exact ⟨rfl, by rw [chain_spec hnext, chain_spec hnext']⟩

/-- To free the block that was allocated last restores the blocks of the chain. -/
theorem heapInv_undo {a total : Nat} {h h₁ : Heap} {live : List U32} {bs : List Block}
    {sz p : U32} (hinv : HeapInv a total ⟨h, live⟩ bs)
    (hcall : allocateMemory h sz = .ok (p, h₁)) (hp : p ≠ 0) :
    ∃ h₂, freeMemory h₁ p = .ok (0, h₂) ∧ h₂.Represents a bs := by
  rcases allocateMemory_block hinv.represents hcall hp with ⟨q, rest, hfit, hq, hrep₁⟩
  rw [hq] at hp ⊢
  have hinv₁ := heapInv_allocate hinv hfit hrep₁
  rw [if_neg hp] at hinv₁
  rcases (hinv₁.live_iff (addr q)).mp List.mem_cons_self with ⟨-, n, hheld⟩
  rcases release_isSome hheld with ⟨rest', hrel⟩
  rcases freeMemory_some hrep₁ hp hrel with ⟨h₂, hfree, hrep₂, -⟩
  have hinv₂ := heapInv_free hinv₁ hrel hrep₂
  have hback : rest' = bs := by
    apply heapInv_ext hinv₂ hinv
    intro x
    rcases held_firstFit hfit with ⟨k, -, hperm⟩
    have hstarts := (hperm.map Prod.fst).nodup_iff.mp (held_starts_nodup a rest (by decide))
    have hnew := (List.nodup_cons.mp hstarts).1
    have haddr : (addr q).toNat = q := by
      have hbounds := held_bounds (hperm.mem_iff.mpr List.mem_cons_self)
      have hend := encodes_span hrep₁.encodes hrep₁.nonempty
      exact addr_toNat_of_ne (by omega) (by omega) hp
    rw [mem_held_release (by decide) hrel, haddr, hperm.mem_iff, List.mem_cons]
    constructor
    · intro hx
      rcases hx with ⟨rfl | hold, hne⟩
      · exact absurd rfl hne
      · exact hold
    · intro hold
      constructor
      · exact Or.inr hold
      · intro heq
        exact hnew (List.mem_map.mpr ⟨x, hold, heq⟩)
  rw [hback] at hrep₂
  exact ⟨h₂, hfree, hrep₂⟩

theorem free_undoes_allocate (kmalloc : U32 → U32) (m : Mem) (total : U32) (s : HeapState)
    (hregion : HeapRegion kmalloc total)
    (hrun : HeapRun ⟨initializeHeap kmalloc m total, []⟩ s) (sz p : U32) (h : Heap)
    (hcall : allocateMemory s.heap sz = .ok (p, h)) (hp : p ≠ 0) :
    ∃ h' bs, freeMemory h p = .ok (0, h') ∧ s.heap.chain = .ok bs ∧ h'.chain = .ok bs := by
  rcases heapInv_run hregion hrun with ⟨bs, hinv⟩
  rcases heapInv_undo hinv hcall hp with ⟨h', hfree, hrep⟩
  exact ⟨h', _, hfree, chain_spec hinv.represents, chain_spec hrep⟩

theorem free_undoes_allocate_kernel_heap :
    ∃ h h' bs, allocateMemory (initializeHeap (fun _ => 0xD000000) ⟨fun _ => 0⟩ 50000) 10 =
        .ok (0xD000004, h) ∧ freeMemory h 0xD000004 = .ok (0, h') ∧
      (initializeHeap (fun _ => 0xD000000) ⟨fun _ => 0⟩ 50000).chain = .ok bs ∧
      h'.chain = .ok bs := by
  have hcompute : (allocateMemory (initializeHeap (fun _ => 0xD000000) ⟨fun _ => 0⟩ 50000)
      10).map Prod.fst = .ok 0xD000004 := by decide +kernel
  rcases Run.of_map_fst_ok hcompute with ⟨h, hcall⟩
  rcases free_undoes_allocate (fun _ => 0xD000000) ⟨fun _ => 0⟩ 50000 _ ⟨by decide, by decide⟩
    .refl 10 0xD000004 h hcall (by decide) with ⟨h', bs, hfree, hbefore, hafter⟩
  exact ⟨h, h', bs, hcall, hfree, hbefore, hafter⟩

end Mpx
