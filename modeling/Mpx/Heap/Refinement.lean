import Mpx.Heap.Release

/-! The functions of the heap manager refine first fit and release on the list of
blocks that the headers represent. -/

namespace Mpx

open Memory BlockList

/-- The headers of `h` describe the blocks `bs`, the first one at address `a`. -/
structure Heap.Represents (h : Heap) (a : Nat) (bs : List Block) : Prop where
  memlist : h.memlist = addr a
  nonempty : bs ≠ []
  encodes : Encodes h.mem a bs
  separated : Separated bs

def roundedSize (sz : U32) : Nat := (sz.toNat + 3) / 4 * 4

theorem roundup_toNat (sz : U32) : (roundup sz).toNat = roundedSize sz % 2 ^ 32 := by
  have hmask : END ||| FREE = (3 : U32) := rfl
  have hfour : (4 : U32).toNat = 4 := rfl
  have hlow : (sz &&& 3).toNat = sz.toNat % 4 := by
    rw [BitVec.toNat_and]
    exact Nat.and_two_pow_sub_one_eq_mod sz.toNat 2
  unfold roundup roundedSize
  rw [hmask]
  split
  · next hmid =>
    have hne : sz.toNat % 4 ≠ 0 := by
      intro hzero
      apply hmid
      apply BitVec.eq_of_toNat_eq
      rw [hlow, hzero]
      rfl
    rw [BitVec.toNat_add, and_not_three_toNat, hfour]
    omega
  · next hwhole =>
    have heq : sz.toNat % 4 = 0 := by
      have hzero : sz &&& 3 = 0 := by simpa using hwhole
      rw [← hlow, hzero]
      rfl
    have hlt := sz.isLt
    omega

theorem roundup_aligned (s : U32) : (roundup s).toNat % 4 = 0 := by
  rw [roundup_toNat]
  unfold roundedSize
  omega

theorem Heap.Represents.cursor_eq {h : Heap} {a : Nat} {bs : List Block}
    (hrep : h.Represents a bs) : h.memlist = cursor a bs := by
  cases bs with
  | nil => exact absurd rfl hrep.nonempty
  | cons b bs => exact hrep.memlist

theorem allocateMemory_none {h : Heap} {a : Nat} {bs : List Block} {sz : U32}
    (hrep : h.Represents a bs) (hnone : firstFit 4 (roundup sz).toNat a bs = none) :
    allocateMemory h sz = .ok (0, h) := by
  have hlen := encodes_length hrep.encodes
  simp only [allocateMemory, hrep.cursor_eq, allocateLoop_none hrep.encodes hlen hnone,
    bind, Except.bind, pure, Except.pure]
  rw [← hrep.cursor_eq]

theorem allocateMemory_some {h : Heap} {a p : Nat} {bs rest : List Block} {sz : U32}
    (hrep : h.Represents a bs)
    (hsome : firstFit 4 (roundup sz).toNat a bs = some (p, rest)) :
    ∃ h', allocateMemory h sz = .ok (addr p, h') ∧ h'.Represents a rest ∧
      SameOutside h.mem h'.mem (headers a rest) := by
  have hlen := encodes_length hrep.encodes
  obtain ⟨m', hrun, henc, hsame⟩ :=
    allocateLoop_some hrep.encodes hlen (roundup_aligned sz) hsome
  refine ⟨{ h with mem := m' }, ?_, ⟨hrep.memlist, ?_, henc, ?_⟩, hsame⟩
  · rw [allocateMemory, hrep.cursor_eq, hrun]
    rfl
  · have hempty := firstFit_isEmpty hsome
    intro hnil
    rw [hnil] at hempty
    exact hrep.nonempty (List.isEmpty_iff.mp hempty.symm)
  · exact separated_firstFit hrep.separated hsome

theorem allocateMemory_cases {h h' : Heap} {a : Nat} {bs : List Block} {sz p : U32}
    (hrep : h.Represents a bs) (hrun : allocateMemory h sz = .ok (p, h')) :
    (firstFit 4 (roundup sz).toNat a bs = none ∧ p = 0 ∧ h' = h) ∨
    ∃ q rest, firstFit 4 (roundup sz).toNat a bs = some (q, rest) ∧ p = addr q ∧
      h'.Represents a rest ∧ SameOutside h.mem h'.mem (headers a rest) := by
  cases hfit : firstFit 4 (roundup sz).toNat a bs with
  | none =>
      rw [allocateMemory_none hrep hfit] at hrun
      cases hrun
      exact Or.inl ⟨rfl, rfl, rfl⟩
  | some found =>
      rcases found with ⟨q, rest⟩
      rcases allocateMemory_some hrep hfit with ⟨h₁, hrun₁, hrep₁, hsame⟩
      rw [hrun₁] at hrun
      cases hrun
      exact Or.inr ⟨q, rest, rfl, rfl, hrep₁, hsame⟩

theorem allocateMemory_block {h h' : Heap} {a : Nat} {bs : List Block} {sz p : U32}
    (hrep : h.Represents a bs) (hrun : allocateMemory h sz = .ok (p, h')) (hp : p ≠ 0) :
    ∃ q rest, firstFit 4 (roundup sz).toNat a bs = some (q, rest) ∧ p = addr q ∧
      h'.Represents a rest := by
  rcases allocateMemory_cases hrep hrun with ⟨-, hnull, -⟩ | ⟨q, rest, hfit, hq, hrep', -⟩
  · exact absurd hnull hp
  · exact ⟨q, rest, hfit, hq, hrep'⟩

theorem freeMemory_release {h : Heap} {a : Nat} {bs rest : List Block} {ptr : U32}
    (hrep : h.Represents a bs) (hrel : release 4 (payloadAt ptr) a bs = some rest) :
    ∃ h', freeMemory h ptr = .ok (0, h') ∧ h'.Represents a rest ∧
      SameOutside h.mem h'.mem (headers a bs) := by
  have hlen := encodes_length hrep.encodes
  obtain ⟨b, bs, rfl⟩ := List.exists_cons_of_ne_nil hrep.nonempty
  obtain ⟨m', hrun, henc, hsame⟩ :=
    freeLoop_first hrep.encodes hrep.separated hlen hrel
  refine ⟨{ h with mem := m' }, ?_, ⟨hrep.memlist, (release_ne_nil hrel).2, henc,
    separated_release hrep.separated hrel⟩, hsame⟩
  simp only [freeMemory, hrep.memlist, encodes_next hrep.encodes, hrun,
    bind, Except.bind, pure, Except.pure]

/-- A pointer that no allocated block has leads the search past the end of the chain. -/
theorem freeMemory_missing {h : Heap} {a : Nat} {bs : List Block} {ptr : U32}
    (hrep : h.Represents a bs) (hrel : release 4 (payloadAt ptr) a bs = none) :
    freeMemory h ptr = .error .nullPointer := by
  have hlen := encodes_length hrep.encodes
  obtain ⟨b, bs, rfl⟩ := List.exists_cons_of_ne_nil hrep.nonempty
  have hrun := @freeLoop_missing h.mem a walkFuel b bs ptr 0 hrep.encodes
    (Nat.lt_of_succ_lt hlen) hrel
  simp only [freeMemory, hrep.memlist, encodes_next hrep.encodes, hrun, bind, Except.bind]

theorem freeMemory_some {h : Heap} {a : Nat} {bs rest : List Block} {ptr : U32}
    (hrep : h.Represents a bs) (hptr : ptr ≠ 0)
    (hrel : release 4 ptr.toNat a bs = some rest) :
    ∃ h', freeMemory h ptr = .ok (0, h') ∧ h'.Represents a rest ∧
      SameOutside h.mem h'.mem (headers a bs) := by
  rw [← payloadAt_of_ne hptr] at hrel
  exact freeMemory_release hrep hrel

theorem freeMemory_none {h : Heap} {a : Nat} {bs : List Block} {ptr : U32}
    (hrep : h.Represents a bs) (hptr : ptr ≠ 0)
    (hrel : release 4 ptr.toNat a bs = none) : freeMemory h ptr = .error .nullPointer := by
  rw [← payloadAt_of_ne hptr] at hrel
  exact freeMemory_missing hrep hrel

def view : Nat → List Block → List Mcb
  | _, [] => []
  | a, b :: bs =>
      ⟨addr a, BitVec.ofNat 32 b.size, b.free, bs.isEmpty⟩ :: view (a + 4 + b.size) bs

theorem walk_spec {m : Mem} {a fuel : Nat} {bs : List Block} (henc : Encodes m a bs)
    (hfuel : bs.length < fuel) : walk m fuel (cursor a bs) = .ok (view a bs) := by
  induction bs generalizing a fuel with
  | nil =>
      obtain ⟨fuel, rfl⟩ := Nat.exists_eq_add_one_of_ne_zero (by omega : fuel ≠ 0)
      rfl
  | cons b bs ih =>
      obtain ⟨fuel, rfl⟩ := Nat.exists_eq_add_one_of_ne_zero (by omega : fuel ≠ 0)
      have hb := henc.1
      have hsize : mcbSize m (addr a) = BitVec.ofNat 32 b.size := by
        rw [← hb.size, BitVec.ofNat_toNat, BitVec.setWidth_eq]
      rw [cursor, walk, if_neg hb.addr_ne_zero, encodes_next henc]
      simp only [bind, Except.bind, ih henc.2 (Nat.lt_of_succ_lt_succ hfuel), hb.isfree,
        hb.isend, hsize]
      rfl

theorem mem_view {a : Nat} {bs : List Block} {c : Mcb} (hmem : c ∈ view a bs) :
    ∃ h b, (h, b) ∈ layout 4 a bs ∧ c.addr = addr h ∧ c.size = BitVec.ofNat 32 b.size ∧
      c.isFree = b.free := by
  induction bs generalizing a with
  | nil => simp [view] at hmem
  | cons b bs ih =>
      rcases List.mem_cons.mp hmem with rfl | htail
      · exact ⟨a, b, List.mem_cons_self, rfl, rfl, rfl⟩
      · obtain ⟨h, d, hlay, heq⟩ := ih htail
        exact ⟨h, d, List.mem_cons_of_mem _ hlay, heq⟩

theorem layout_view {a h : Nat} {b : Block} {bs : List Block}
    (hmem : (h, b) ∈ layout 4 a bs) :
    ∃ c ∈ view a bs, c.addr = addr h ∧ c.isFree = b.free := by
  induction bs generalizing a with
  | nil => simp [layout] at hmem
  | cons d bs ih =>
      rcases List.mem_cons.mp hmem with heq | htail
      · cases heq
        exact ⟨_, List.mem_cons_self, rfl, rfl⟩
      · obtain ⟨c, hc, heq⟩ := ih htail
        exact ⟨c, List.mem_cons_of_mem _ hc, heq⟩

theorem view_sizes {m : Mem} {a n : Nat} {bs : List Block} (henc : Encodes m a bs) :
    (∀ c ∈ view a bs, c.isFree = true → c.size.toNat < n) ↔
      ∀ b ∈ bs, b.free = true → b.size < n := by
  induction bs generalizing a with
  | nil => simp [view]
  | cons b bs ih =>
      have hfits := henc.1.fits
      have hsize : (BitVec.ofNat 32 b.size).toNat = b.size := by
        rw [BitVec.toNat_ofNat, Nat.mod_eq_of_lt (by omega)]
      rw [view, List.forall_mem_cons, List.forall_mem_cons, ih henc.2]
      simp only [hsize]

theorem chain_spec {h : Heap} {a : Nat} {bs : List Block} (hrep : h.Represents a bs) :
    h.chain = .ok (view a bs) := by
  rw [Heap.chain, hrep.cursor_eq]
  exact walk_spec hrep.encodes (encodes_length hrep.encodes)

theorem initializeHeap_spec (kmalloc : U32 → U32) (m : Mem) (sz : U32)
    (hne : kmalloc (roundup sz + 4) ≠ 0)
    (hfit : (kmalloc (roundup sz + 4)).toNat + ((roundup sz).toNat + 4) ≤ 2 ^ 32) :
    (initializeHeap kmalloc m sz).Represents (kmalloc (roundup sz + 4)).toNat
      [⟨(roundup sz).toNat, true⟩] := by
  have haddr : addr (kmalloc (roundup sz + 4)).toNat = kmalloc (roundup sz + 4) := by
    simp [addr]
  have hword : (roundup sz ||| FREE ||| END).toNat =
      headerWord ⟨(roundup sz).toNat, true⟩ true := by
    have hplain : (roundup sz).toNat = headerWord ⟨(roundup sz).toNat, false⟩ false := by
      simp [headerWord]
    have hfree := setfree_word (roundup_aligned sz) hplain
    exact copyend_word (roundup_aligned sz) hfree true
  have hpos : 0 < (kmalloc (roundup sz + 4)).toNat :=
    Nat.pos_of_ne_zero fun hzero => hne (BitVec.eq_of_toNat_eq hzero)
  have hheader : Header (initializeHeap kmalloc m sz).mem (kmalloc (roundup sz + 4)).toNat
      ⟨(roundup sz).toNat, true⟩ true := by
    simp only [initializeHeap]
    nth_rewrite 1 [← haddr]
    exact Header.store hpos (by simp only; omega) (roundup_aligned sz) hword
  exact ⟨haddr.symm, by simp, ⟨hheader, trivial⟩, List.isChain_singleton _⟩

end Mpx
