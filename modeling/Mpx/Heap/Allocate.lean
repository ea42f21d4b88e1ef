import Mpx.Heap.Chain

/-! `allocate_memory` is first fit on the list of blocks. -/

namespace Mpx

open Memory BlockList

theorem sameOutside_store (m : Mem) (a : Nat) (v : U32) (hfit : a + 4 ≤ 2 ^ 32) :
    SameOutside m (store32 m (addr a) v) [a] := by
  intro x hout
  have haddr : (addr a).toNat = a := addr_toNat (by omega)
  apply store32_outside m (addr a) v x (by omega)
  have := hout a (by simp)
  unfold Outside
  omega

theorem SameOutside.trans {m m' m'' : Mem} {hs : List Nat} (first : SameOutside m m' hs)
    (second : SameOutside m' m'' hs) : SameOutside m m'' hs := by
  intro x hout
  rw [second x hout, first x hout]

theorem SameOutside.mono {m m' : Mem} {hs hs' : List Nat} (same : SameOutside m m' hs)
    (hsub : hs ⊆ hs') : SameOutside m m' hs' := by
  intro x hout
  exact same x fun h hmem => hout h (hsub hmem)

theorem SameOutside.andStore {m m' : Mem} {hs : List Nat} {a : Nat} (same : SameOutside m m' hs)
    (v : U32) (ha : a ∈ hs) (hfit : a + 4 ≤ 2 ^ 32) : SameOutside m (store32 m' (addr a) v) hs :=
  same.trans ((sameOutside_store m' a v hfit).mono (by simpa using ha))

namespace Header

variable {m : Mem} {a : Nat} {b : Block} {last : Bool}

theorem store {v : U32} (hpos : 0 < a) (hfits : a + 4 + b.size ≤ 2 ^ 32)
    (haligned : b.size % 4 = 0) (hword : v.toNat = headerWord b last) :
    Header (store32 m (addr a) v) a b last :=
  ⟨hpos, hfits, haligned, by rw [load32_store32_same, hword]⟩

theorem apart {c : Nat} (h : Header m a b last) (v : U32) (hfit : c + 4 ≤ 2 ^ 32)
    (hapart : a + 4 ≤ c ∨ c + 4 ≤ a) : Header (store32 m (addr c) v) a b last :=
  h.same (sameOutside_store m c v hfit) (by simpa using hapart)

theorem setfree (h : Header m a b last) :
    Header (mcbSetfree m (addr a)) a { b with free := true } last :=
  store h.pos h.fits h.aligned (setfree_word h.aligned h.word)

theorem clrfree (h : Header m a b last) :
    Header (mcbClrfree m (addr a)) a { b with free := false } last :=
  store h.pos h.fits h.aligned (clrfree_word h.aligned h.word)

theorem copyend {c : Nat} {d : Block} {e : Bool} (h : Header m a b last)
    (source : Header m c d e) :
    Header (mcbCopyend m (addr a) (addr c)) a b (last || e) := by
  refine store h.pos h.fits h.aligned ?_
  rw [source.isend]
  exact copyend_word h.aligned h.word e

end Header

theorem Header.splits_iff {m : Mem} {a : Nat} {b : Block} {last : Bool} {sz : U32}
    (hb : Header m a b last) (hfit : sz.toNat ≤ b.size) :
    mcbSize m (addr a) > sz + 4 ↔ sz.toNat + 4 < b.size := by
  have hpos := hb.pos
  have hfits := hb.fits
  have hfour : (4 : U32).toNat = 4 := rfl
  rw [gt_iff_lt, BitVec.lt_def, hb.size, BitVec.toNat_add, hfour]
  omega

theorem splitBlock_spec {m : Mem} {a : Nat} {b : Block} {last : Bool} {sz : U32}
    (hb : Header m a b last) (hfit : sz.toNat ≤ b.size) (hsz : sz.toNat % 4 = 0)
    (hroom : sz.toNat + 4 < b.size) :
    Header (mcbClrfree (splitBlock m (addr a) sz) (addr a)) a ⟨sz.toNat, false⟩ false ∧
      Header (mcbClrfree (splitBlock m (addr a) sz) (addr a)) (a + 4 + sz.toNat)
        ⟨b.size - sz.toNat - 4, true⟩ last ∧
      SameOutside m (mcbClrfree (splitBlock m (addr a) sz) (addr a)) [a, a + 4 + sz.toNat] := by
  have hpos := hb.pos
  have hfits := hb.fits
  have haligned := hb.aligned
  have hsize := hb.size
  have haddr := hb.addr_toNat
  have hfour : (4 : U32).toNat = 4 := rfl
  have hnewfree : mcbStart (addr a) + sz = addr (a + 4 + sz.toNat) := by
    apply BitVec.eq_of_toNat_eq
    simp only [mcbStart, BitVec.toNat_add, haddr, hfour, addr, BitVec.toNat_ofNat]
    omega
  have hleft : (mcbSize m (addr a) - sz - 4).toNat = b.size - sz.toNat - 4 := by
    rw [BitVec.toNat_sub, BitVec.toNat_sub, hsize, hfour]
    omega
  let newfree := a + 4 + sz.toNat
  let m1 := store32 m (addr newfree) (mcbSize m (addr a) - sz - 4)
  let m2 := mcbSetfree m1 (addr newfree)
  let m3 := mcbCopyend m2 (addr newfree) (addr a)
  let m4 := store32 m3 (addr a) sz
  let m5 := mcbClrfree m4 (addr a)
  have hm5 : mcbClrfree (splitBlock m (addr a) sz) (addr a) = m5 := by
    simp only [splitBlock, if_pos ((hb.splits_iff hfit).mpr hroom), hnewfree, m5, m4, m3, m2, m1,
      newfree]
  have hnew1 : Header m1 newfree ⟨b.size - sz.toNat - 4, false⟩ false :=
    Header.store (by omega) (by simp only [newfree]; omega) (by simp only; omega)
      (by simp only [headerWord, hleft]; rfl)
  have hb1 : Header m1 a b last := hb.apart _ (by omega) (by omega)
  have hnew2 : Header m2 newfree ⟨b.size - sz.toNat - 4, true⟩ false := hnew1.setfree
  have hb2 : Header m2 a b last := hb1.apart _ (by omega) (by omega)
  have hnew3 : Header m3 newfree ⟨b.size - sz.toNat - 4, true⟩ last := by
    simpa using hnew2.copyend hb2
  have hnew4 : Header m4 newfree ⟨b.size - sz.toNat - 4, true⟩ last :=
    hnew3.apart _ (by omega) (by omega)
  have hb4 : Header m4 a ⟨sz.toNat, false⟩ false :=
    Header.store hpos (by simp only; omega) hsz (by simp [headerWord])
  have hnew5 : Header m5 newfree ⟨b.size - sz.toNat - 4, true⟩ last :=
    hnew4.apart _ (by omega) (by omega)
  have hmem : a ∈ [a, newfree] := List.mem_cons_self
  have hmem' : newfree ∈ [a, newfree] := List.mem_cons_of_mem a List.mem_cons_self
  have hsame1 : SameOutside m m1 [a, newfree] :=
    (sameOutside_store m newfree _ (by omega)).mono (by simp)
  have hsame3 : SameOutside m m3 [a, newfree] :=
    (hsame1.andStore _ hmem' (by omega)).andStore _ hmem' (by omega)
  rw [hm5]
  exact ⟨hb4.clrfree, hnew5, (hsame3.andStore _ hmem (by omega)).andStore _ hmem (by omega)⟩

theorem carve_room_spec {m : Mem} {a : Nat} {b : Block} {bs : List Block} {sz : U32}
    (henc : Encodes m a (b :: bs)) (hfit : sz.toNat ≤ b.size) (hsz : sz.toNat % 4 = 0)
    (hroom : sz.toNat + 4 < b.size) :
    Encodes (mcbClrfree (splitBlock m (addr a) sz) (addr a)) a
        (carve 4 sz.toNat b ++ bs) ∧
      SameOutside m (mcbClrfree (splitBlock m (addr a) sz) (addr a))
        (headers a (carve 4 sz.toNat b ++ bs)) := by
  obtain ⟨hb, htail⟩ := henc
  rcases splitBlock_spec hb hfit hsz hroom with ⟨hfirst, hrest, hsame⟩
  generalize mcbClrfree (splitBlock m (addr a) sz) (addr a) = m' at hfirst hrest hsame ⊢
  have hcarve : carve 4 sz.toNat b ++ bs =
      ⟨sz.toNat, false⟩ :: ⟨b.size - sz.toNat - 4, true⟩ :: bs := by
    simp [carve, hroom]
  have hheaders : [a, a + 4 + sz.toNat] ⊆ headers a (carve 4 sz.toNat b ++ bs) := by
    rw [hcarve, headers_cons, headers_cons]
    simp
  refine ⟨?_, hsame.mono hheaders⟩
  rw [hcarve]
  refine ⟨hfirst, hrest, ?_⟩
  have hend : a + 4 + sz.toNat + 4 + (b.size - sz.toNat - 4) = a + 4 + b.size := by omega
  simp only [hend]
  apply encodes_same htail hsame
  simp only [List.forall_mem_cons, List.not_mem_nil, false_implies, implies_true, and_true]
  omega

theorem carve_whole_spec {m : Mem} {a : Nat} {b : Block} {bs : List Block} {sz : U32}
    (henc : Encodes m a (b :: bs)) (hfit : sz.toNat ≤ b.size)
    (hroom : ¬ sz.toNat + 4 < b.size) :
    Encodes (mcbClrfree (splitBlock m (addr a) sz) (addr a)) a
        (carve 4 sz.toNat b ++ bs) ∧
      SameOutside m (mcbClrfree (splitBlock m (addr a) sz) (addr a))
        (headers a (carve 4 sz.toNat b ++ bs)) := by
  obtain ⟨hb, htail⟩ := henc
  have hfits := hb.fits
  have hm : mcbClrfree (splitBlock m (addr a) sz) (addr a) = mcbClrfree m (addr a) := by
    simp only [splitBlock, if_neg (mt (hb.splits_iff hfit).mp hroom)]
  have hcarve : carve 4 sz.toNat b ++ bs = ⟨b.size, false⟩ :: bs := by
    simp [carve, hroom]
  have hsame : SameOutside m (mcbClrfree m (addr a)) [a] :=
    sameOutside_store m a _ (by omega)
  rw [hm, hcarve]
  refine ⟨⟨hb.clrfree, ?_⟩, hsame.mono (by simp [headers_cons])⟩
  exact encodes_same htail hsame (by simp)

/-- What the branch that allocates `mcb` leaves in memory: the carved block,
with the `END` flag of `b` on its last part. -/
theorem carve_spec {m : Mem} {a : Nat} {b : Block} {bs : List Block} {sz : U32}
    (henc : Encodes m a (b :: bs)) (hfit : sz.toNat ≤ b.size) (hsz : sz.toNat % 4 = 0) :
    Encodes (mcbClrfree (splitBlock m (addr a) sz) (addr a)) a
        (carve 4 sz.toNat b ++ bs) ∧
      SameOutside m (mcbClrfree (splitBlock m (addr a) sz) (addr a))
        (headers a (carve 4 sz.toNat b ++ bs)) := by
  by_cases hroom : sz.toNat + 4 < b.size
  · exact carve_room_spec henc hfit hsz hroom
  · exact carve_whole_spec henc hfit hroom

theorem allocateLoop_take {m : Mem} {mcb sz : U32} (fuel : Nat) (hne : mcb ≠ 0)
    (hfit : mcbSize m mcb ≥ sz ∧ mcbIsfree m mcb = true) :
    allocateLoop sz (fuel + 1) m mcb =
      .ok (mcbStart mcb, mcbClrfree (splitBlock m mcb sz) mcb) := by
  rw [allocateLoop, if_neg hne, if_pos hfit]

theorem allocateLoop_skip {m : Mem} {mcb sz next : U32} (fuel : Nat) (hne : mcb ≠ 0)
    (hfit : ¬ (mcbSize m mcb ≥ sz ∧ mcbIsfree m mcb = true))
    (hnext : mcbNext m mcb = .ok next) :
    allocateLoop sz (fuel + 1) m mcb = allocateLoop sz fuel m next := by
  rw [allocateLoop, if_neg hne, if_neg hfit, hnext]
  rfl

theorem Header.fits_iff {m : Mem} {a : Nat} {b : Block} {last : Bool}
    (h : Header m a b last) (sz : U32) :
    mcbSize m (addr a) ≥ sz ∧ mcbIsfree m (addr a) = true ↔
      sz.toNat ≤ b.size ∧ b.free = true := by
  rw [h.isfree, ge_iff_le, BitVec.le_def, h.size]

theorem allocateLoop_none {m : Mem} {a fuel : Nat} {bs : List Block} {sz : U32}
    (henc : Encodes m a bs) (hfuel : bs.length < fuel)
    (hnone : firstFit 4 sz.toNat a bs = none) :
    allocateLoop sz fuel m (cursor a bs) = .ok (0, m) := by
  induction bs generalizing a fuel with
  | nil =>
      obtain ⟨fuel, rfl⟩ := Nat.exists_eq_add_one_of_ne_zero (by omega : fuel ≠ 0)
      rfl
  | cons b bs ih =>
      obtain ⟨fuel, rfl⟩ := Nat.exists_eq_add_one_of_ne_zero (by omega : fuel ≠ 0)
      rcases firstFit_cons_none hnone with ⟨hfit, htail⟩
      have hskip := mt (henc.1.fits_iff sz).mp hfit
      rw [cursor, allocateLoop_skip fuel henc.1.addr_ne_zero hskip (encodes_next henc)]
      exact ih henc.2 (Nat.lt_of_succ_lt_succ hfuel) htail

theorem allocateLoop_some {m : Mem} {a fuel p : Nat} {bs rest : List Block} {sz : U32}
    (henc : Encodes m a bs) (hfuel : bs.length < fuel) (hsz : sz.toNat % 4 = 0)
    (hsome : firstFit 4 sz.toNat a bs = some (p, rest)) :
    ∃ m', allocateLoop sz fuel m (cursor a bs) = .ok (addr p, m') ∧
      Encodes m' a rest ∧ SameOutside m m' (headers a rest) := by
  induction bs generalizing a fuel rest with
  | nil => simp [firstFit] at hsome
  | cons b bs ih =>
      obtain ⟨fuel, rfl⟩ := Nat.exists_eq_add_one_of_ne_zero (by omega : fuel ≠ 0)
      have hb := henc.1
      rcases firstFit_cons_some hsome with ⟨hfit, hp, hrest⟩ | ⟨hfit, tail, htail, hrest⟩
      · obtain ⟨hcarve, hsame⟩ := carve_spec henc hfit.1 hsz
        rw [hp, hrest]
        refine ⟨_, ?_, hcarve, hsame⟩
        rw [cursor, allocateLoop_take fuel hb.addr_ne_zero ((hb.fits_iff sz).mpr hfit),
          mcbStart_addr]
      · have hskip := mt (hb.fits_iff sz).mp hfit
        obtain ⟨m', hrun, henc', hsame⟩ := ih henc.2 (Nat.lt_of_succ_lt_succ hfuel) htail
        rw [hrest]
        refine ⟨m', ?_, ⟨?_, henc'⟩, hsame.mono (by simp [headers_cons])⟩
        · rw [cursor, allocateLoop_skip fuel hb.addr_ne_zero hskip (encodes_next henc)]
          exact hrun
        · rw [firstFit_isEmpty htail]
          refine hb.same hsame fun h hmem => ?_
          have := le_of_mem_headers hmem
          omega

end Mpx
