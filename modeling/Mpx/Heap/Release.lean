import Mpx.Heap.Allocate

/-! `free_memory` releases a block and joins it with its free neighbours. -/

namespace Mpx

open Memory BlockList

/-- A block that absorbs its successor keeps its own `FREE` flag and takes over
the `END` flag of the successor. -/
theorem absorb_spec {m : Mem} {a : Nat} {b c : Block} {last : Bool}
    (hb : Header m a b false) (hc : Header m (a + 4 + b.size) c last) :
    Header (absorb m (addr a) (addr (a + 4 + b.size))) a
        { b with size := b.size + 4 + c.size } last ∧
      SameOutside m (absorb m (addr a) (addr (a + 4 + b.size))) [a] := by
  have hpos := hb.pos
  have hfits := hc.fits
  have hgrow : (mcbSize m (addr (a + 4 + b.size)) + 4).toNat = c.size + 4 := by
    have hfour : (4 : U32).toNat = 4 := rfl
    rw [BitVec.toNat_add, hc.size, hfour]
    omega
  have hword : (load32 m (addr a) + (mcbSize m (addr (a + 4 + b.size)) + 4)).toNat =
      headerWord { b with size := b.size + 4 + c.size } false := by
    have hsmall : headerWord b false ≤ b.size + 1 := by
      unfold headerWord
      cases b.free <;> simp
    rw [grow_word hb.word (by rw [hgrow]; omega), hgrow]
    simp only [headerWord]
    omega
  let m' := store32 m (addr a) (load32 m (addr a) + (mcbSize m (addr (a + 4 + b.size)) + 4))
  have hsize : (b.size + 4 + c.size) % 4 = 0 := by
    have := hb.aligned
    have := hc.aligned
    omega
  have hb' : Header m' a { b with size := b.size + 4 + c.size } false :=
    Header.store hpos (by simp only; omega) hsize hword
  have hc' : Header m' (a + 4 + b.size) c last := hc.apart _ (by omega) (by omega)
  have hfit : a + 4 ≤ 2 ^ 32 := by omega
  refine ⟨?_, (sameOutside_store m a _ hfit).trans (sameOutside_store m' a _ hfit)⟩
  have hend := hb'.copyend hc'
  rw [Bool.false_or] at hend
  exact hend

/-- Both merges of `free_memory`: the test comes down to the two blocks being
free, and the effect is `glue`. -/
theorem join_spec {m : Mem} {a : Nat} {b c : Block} {cs : List Block} {neighbour : U32}
    (henc : Encodes m a (b :: c :: cs))
    (htest : (neighbour ≠ 0 ∧ mcbIsfree m neighbour = true) ↔
      b.free = true ∧ c.free = true) :
    Encodes (joinIfFree m neighbour (addr a) (addr (a + 4 + b.size))) a
        (glue 4 b (c :: cs)) ∧
      SameOutside m (joinIfFree m neighbour (addr a) (addr (a + 4 + b.size))) [a] := by
  by_cases hfree : b.free = true ∧ c.free = true
  · obtain ⟨hmerged, hsame⟩ := absorb_spec henc.1 henc.2.1
    simp only [glue, joinIfFree, if_pos hfree, if_pos (htest.mpr hfree)]
    rw [hfree.1] at hmerged
    have hend : a + 4 + (b.size + 4 + c.size) = a + 4 + b.size + 4 + c.size := by omega
    refine ⟨⟨hmerged, ?_⟩, hsame⟩
    simp only [hend]
    refine encodes_same henc.2.2 hsame fun h hmem => ?_
    rw [List.mem_singleton.mp hmem]
    omega
  · simp only [glue, joinIfFree, if_neg hfree, if_neg (mt htest.mp hfree)]
    exact ⟨henc, fun x _ => rfl⟩

theorem freeLoop_found {m : Mem} {ptr prev mcb next : U32} (fuel : Nat)
    (hne : mcb ≠ 0) (hfound : mcbStart mcb = ptr ∧ ¬ mcbIsfree m mcb = true) :
    freeLoop ptr (fuel + 1) m prev mcb next =
      .ok (0, joinIfFree (joinIfFree (mcbSetfree m mcb) next mcb next) prev prev mcb) := by
  rw [freeLoop, if_neg hne, if_pos hfound]

theorem freeLoop_skip {m : Mem} {ptr prev mcb next after : U32} (fuel : Nat)
    (hne : mcb ≠ 0) (hother : ¬ (mcbStart mcb = ptr ∧ ¬ mcbIsfree m mcb = true))
    (hafter : mcbNext m next = .ok after) :
    freeLoop ptr (fuel + 1) m prev mcb next = freeLoop ptr fuel m mcb next after := by
  rw [freeLoop, if_neg hne, if_neg hother, hafter]
  rfl

/-- Where the payload begins that `ptr` points to. A payload that begins at the end
of the address space has the pointer NULL. -/
def payloadAt (ptr : U32) : Nat :=
  if ptr = 0 then 2 ^ 32 else ptr.toNat

theorem payloadAt_of_ne {ptr : U32} (hptr : ptr ≠ 0) : payloadAt ptr = ptr.toNat :=
  if_neg hptr

theorem addr_eq_iff {p : Nat} {ptr : U32} (hpos : 0 < p) (hle : p ≤ 2 ^ 32) :
    addr p = ptr ↔ p = payloadAt ptr := by
  by_cases hptr : ptr = 0
  · have hval : payloadAt ptr = 2 ^ 32 := if_pos hptr
    rw [hval, hptr]
    constructor
    · intro heq
      have hmod := congrArg BitVec.toNat heq
      rw [BitVec.toNat_ofNat] at hmod
      have hzero : (0 : U32).toNat = 0 := rfl
      omega
    · rintro rfl
      rfl
  · rw [payloadAt_of_ne hptr]
    constructor
    · rintro rfl
      have hne : p ≠ 2 ^ 32 := by
        rintro rfl
        exact hptr rfl
      exact (addr_toNat (by omega)).symm
    · rintro rfl
      simp [addr]

theorem addr_toNat_of_ne {p : Nat} (hpos : 0 < p) (hle : p ≤ 2 ^ 32) (hne : addr p ≠ 0) :
    (addr p).toNat = p := by
  have hp := (addr_eq_iff hpos hle).mp rfl
  rw [payloadAt_of_ne hne] at hp
  exact hp.symm

theorem Header.found_iff {m : Mem} {a : Nat} {b : Block} {last : Bool} {ptr : U32}
    (h : Header m a b last) :
    (mcbStart (addr a) = ptr ∧ ¬ mcbIsfree m (addr a) = true) ↔
      (a + 4 = payloadAt ptr ∧ b.free = false) := by
  have hfits := h.fits
  rw [mcbStart_addr, h.isfree, addr_eq_iff (by omega) (by omega)]
  cases b.free <;> simp

theorem release_here {m : Mem} {a : Nat} {b : Block} {bs : List Block}
    (henc : Encodes m a (b :: bs)) :
    let next := cursor (a + 4 + b.size) bs
    let m' := joinIfFree (mcbSetfree m (addr a)) next (addr a) next
    Encodes m' a (glue 4 ⟨b.size, true⟩ bs) ∧ SameOutside m m' [a] := by
  have hfits := henc.1.fits
  have hsame : SameOutside m (mcbSetfree m (addr a)) [a] :=
    sameOutside_store m a _ (by omega)
  have henc' : Encodes (mcbSetfree m (addr a)) a (⟨b.size, true⟩ :: bs) :=
    ⟨henc.1.setfree, encodes_same henc.2 hsame (by simp)⟩
  cases bs with
  | nil =>
      have hnone : joinIfFree (mcbSetfree m (addr a)) 0 (addr a) 0 =
          mcbSetfree m (addr a) := if_neg (by simp)
      simp only [cursor, glue, hnone]
      exact ⟨henc', hsame⟩
  | cons c cs =>
      have hc := henc'.2.1
      have htest : (addr (a + 4 + b.size) ≠ 0 ∧
          mcbIsfree (mcbSetfree m (addr a)) (addr (a + 4 + b.size)) = true) ↔
          (⟨b.size, true⟩ : Block).free = true ∧ c.free = true :=
        ⟨fun h => ⟨rfl, hc.isfree.symm.trans h.2⟩,
          fun h => ⟨hc.addr_ne_zero, hc.isfree.trans h.2⟩⟩
      obtain ⟨hjoin, hsame'⟩ := join_spec henc' htest
      exact ⟨hjoin, hsame.trans hsame'⟩

theorem release_behind {m : Mem} {a : Nat} {p b : Block} {bs : List Block}
    (henc : Encodes m a (p :: b :: bs)) :
    let mcb := addr (a + 4 + p.size)
    let next := cursor (a + 4 + p.size + 4 + b.size) bs
    let m' := joinIfFree (joinIfFree (mcbSetfree m mcb) next mcb next) (addr a) (addr a) mcb
    Encodes m' a (glue 4 p (glue 4 ⟨b.size, true⟩ bs)) ∧
      SameOutside m m' (headers a (p :: b :: bs)) := by
  have hp := henc.1
  have hpfits := hp.fits
  obtain ⟨hglue, hsame⟩ := release_here henc.2
  simp only
  generalize joinIfFree (mcbSetfree m _) _ _ _ = m2 at hglue hsame ⊢
  obtain ⟨c, cs, hcons⟩ := List.exists_cons_of_ne_nil (@glue_ne_nil 4 ⟨b.size, true⟩ bs)
  have hcfree : c.free = true := @glue_head_free 4 ⟨b.size, true⟩ bs c (by rw [hcons]; rfl)
  rw [hcons] at hglue ⊢
  have hp2 : Header m2 a p false := hp.same hsame (by simp)
  have htest : (addr a ≠ 0 ∧ mcbIsfree m2 (addr a) = true) ↔ p.free = true ∧ c.free = true :=
    ⟨fun h => ⟨hp2.isfree.symm.trans h.2, hcfree⟩,
      fun h => ⟨hp2.addr_ne_zero, hp2.isfree.trans h.1⟩⟩
  obtain ⟨hjoin, hsame'⟩ := join_spec ⟨hp2, hglue⟩ htest
  refine ⟨hjoin, ?_⟩
  exact (hsame.mono (by simp [headers_cons])).trans (hsame'.mono (by simp [headers_cons]))

theorem freeLoop_spec {m : Mem} {a fuel : Nat} {p : Block} {bs rest : List Block}
    {ptr next : U32} (henc : Encodes m a (p :: bs)) (hsep : Separated (p :: bs))
    (hfuel : bs.length < fuel) (hnext : mcbNext m (cursor (a + 4 + p.size) bs) = .ok next)
    (hrel : release 4 (payloadAt ptr) (a + 4 + p.size) bs = some rest) :
    ∃ m', freeLoop ptr fuel m (addr a) (cursor (a + 4 + p.size) bs) next = .ok (0, m') ∧
      Encodes m' a (glue 4 p rest) ∧ SameOutside m m' (headers a (p :: bs)) := by
  induction bs generalizing a p fuel next rest with
  | nil => simp [release] at hrel
  | cons b bs ih =>
      obtain ⟨fuel, rfl⟩ := Nat.exists_eq_add_one_of_ne_zero (by omega : fuel ≠ 0)
      have hp := henc.1
      have hb := henc.2.1
      have hpfits := hp.fits
      rw [cursor] at hnext ⊢
      rw [encodes_next henc.2] at hnext
      cases hnext
      rcases release_cons_some hrel with ⟨hfound, hrest⟩ | ⟨hother, tail, htail, hrest⟩
      · obtain ⟨hglue, hsame⟩ := release_behind henc
        rw [hrest, freeLoop_found fuel hb.addr_ne_zero (hb.found_iff.mpr hfound)]
        exact ⟨_, rfl, hglue, hsame⟩
      · rw [hrest]
        obtain ⟨c, cs, rfl⟩ := List.exists_cons_of_ne_nil (release_ne_nil htail).1
        have hsep' := separated_cons.mp hsep
        have hafter := encodes_next henc.2.2
        obtain ⟨m', hrun, henc', hsame⟩ :=
          ih henc.2 hsep'.2 (Nat.lt_of_succ_lt_succ hfuel) hafter htail
        refine ⟨m', ?_, ?_, hsame.mono (by simp [headers_cons])⟩
        · have hskip := mt hb.found_iff.mp hother
          rw [cursor, freeLoop_skip fuel hb.addr_ne_zero hskip hafter]
          exact hrun
        · have hapart : ∀ d ∈ (glue 4 b tail).head?, ¬ (p.free = true ∧ d.free = true) := by
            intro d hd
            rw [glue_head_free b tail d hd]
            exact hsep'.1 b rfl
          rw [glue_of_separated hapart]
          have hnonempty : (glue 4 b tail).isEmpty = (b :: c :: cs).isEmpty :=
            List.isEmpty_eq_false_iff.mpr (glue_ne_nil b tail)
          refine ⟨?_, henc'⟩
          rw [hnonempty]
          refine hp.same hsame fun h hmem => ?_
          have := le_of_mem_headers hmem
          omega

theorem freeLoop_first {m : Mem} {a fuel : Nat} {b : Block} {bs rest : List Block}
    {ptr : U32} (henc : Encodes m a (b :: bs)) (hsep : Separated (b :: bs))
    (hfuel : (b :: bs).length < fuel)
    (hrel : release 4 (payloadAt ptr) a (b :: bs) = some rest) :
    ∃ m', freeLoop ptr fuel m 0 (addr a) (cursor (a + 4 + b.size) bs) = .ok (0, m') ∧
      Encodes m' a rest ∧ SameOutside m m' (headers a (b :: bs)) := by
  obtain ⟨fuel, rfl⟩ := Nat.exists_eq_add_one_of_ne_zero (by omega : fuel ≠ 0)
  have hb := henc.1
  rcases release_cons_some hrel with ⟨hfound, hrest⟩ | ⟨hother, tail, htail, hrest⟩
  · rw [hrest]
    obtain ⟨hglue, hsame⟩ := release_here henc
    have hnoprev (m : Mem) (mcb : U32) : joinIfFree m 0 0 mcb = m := if_neg (by simp)
    refine ⟨_, ?_, hglue, hsame.mono (by simp [headers_cons])⟩
    rw [freeLoop_found fuel hb.addr_ne_zero (hb.found_iff.mpr hfound), hnoprev]
  · rw [hrest]
    obtain ⟨c, cs, rfl⟩ := List.exists_cons_of_ne_nil (release_ne_nil htail).1
    have hafter := encodes_next henc.2
    obtain ⟨m', hrun, henc', hsame⟩ :=
      freeLoop_spec henc hsep (Nat.lt_of_succ_lt_succ hfuel) hafter htail
    refine ⟨m', ?_, henc', hsame⟩
    rw [cursor, freeLoop_skip fuel hb.addr_ne_zero (mt hb.found_iff.mp hother) hafter]
    exact hrun

/-- A search that finds nothing asks for the block after NULL. -/
theorem freeLoop_missing {m : Mem} {a fuel : Nat} {b : Block} {bs : List Block}
    {ptr prev : U32} (henc : Encodes m a (b :: bs)) (hfuel : bs.length < fuel)
    (hrel : release 4 (payloadAt ptr) a (b :: bs) = none) :
    freeLoop ptr fuel m prev (addr a) (cursor (a + 4 + b.size) bs) = .error .nullPointer := by
  induction bs generalizing a b fuel prev with
  | nil =>
      obtain ⟨fuel, rfl⟩ := Nat.exists_eq_succ_of_ne_zero (Nat.ne_of_gt hfuel)
      have hother := (release_cons_none hrel).1
      rw [freeLoop, if_neg henc.1.addr_ne_zero, if_neg (mt henc.1.found_iff.mp hother)]
      rfl
  | cons c cs ih =>
      obtain ⟨fuel, rfl⟩ := Nat.exists_eq_succ_of_ne_zero (Nat.ne_zero_of_lt hfuel)
      rcases release_cons_none hrel with ⟨hother, htail⟩
      have hafter := encodes_next henc.2
      rw [cursor, freeLoop_skip fuel henc.1.addr_ne_zero (mt henc.1.found_iff.mp hother) hafter]
      exact ih henc.2 (Nat.lt_of_succ_lt_succ hfuel) htail

end Mpx
