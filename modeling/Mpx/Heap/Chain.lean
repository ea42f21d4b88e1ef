import Mpx.Base.BlockList
import Mpx.Heap.Model

/-! How the headers in memory represent a list of blocks. -/

namespace Mpx

open Memory BlockList

abbrev addr (a : Nat) : U32 := BitVec.ofNat 32 a

def headerWord (b : Block) (last : Bool) : Nat :=
  b.size + b.free.toNat + 2 * last.toNat

structure Header (m : Mem) (a : Nat) (b : Block) (last : Bool) : Prop where
  pos : 0 < a
  fits : a + 4 + b.size ≤ 2 ^ 32
  aligned : b.size % 4 = 0
  word : (load32 m (addr a)).toNat = headerWord b last

/-- The blocks `bs` lie in memory from address `a` on, and `END` marks the last. -/
def Encodes (m : Mem) : Nat → List Block → Prop
  | _, [] => True
  | a, b :: bs => Header m a b bs.isEmpty ∧ Encodes m (a + 4 + b.size) bs

def cursor (a : Nat) : List Block → U32
  | [] => 0
  | _ :: _ => addr a

def headers (a : Nat) (bs : List Block) : List Nat := (layout 4 a bs).map Prod.fst

/-- `m'` differs from `m` in the words at the addresses `hs` only. -/
def SameOutside (m m' : Mem) (hs : List Nat) : Prop :=
  ∀ x : U32, (∀ h ∈ hs, x.toNat < h ∨ h + 4 ≤ x.toNat) → m'.byte x = m.byte x

theorem addr_toNat {a : Nat} (hlt : a < 2 ^ 32) : (addr a).toNat = a := by
  simpa [addr] using hlt

theorem addr_ne_null {a : Nat} (hpos : 0 < a) (hlt : a < 2 ^ 32) : addr a ≠ 0 := by
  intro hnull
  have hval := addr_toNat hlt
  rw [hnull] at hval
  exact hpos.ne hval

theorem mcbStart_addr (a : Nat) : mcbStart (addr a) = addr (a + 4) := by
  simp only [mcbStart, addr, BitVec.ofNat_add]
  rfl

theorem headers_cons (a : Nat) (b : Block) (bs : List Block) :
    headers a (b :: bs) = a :: headers (a + 4 + b.size) bs := rfl

theorem le_of_mem_headers {a h : Nat} {bs : List Block} (hmem : h ∈ headers a bs) : a ≤ h := by
  obtain ⟨⟨h', b⟩, hlay, rfl⟩ := List.mem_map.mp hmem
  exact (layout_bounds hlay).1

/-! Reading and writing a header word. -/

section Word

variable {w : U32} {b : Block} {last : Bool}

theorem size_of_word (haligned : b.size % 4 = 0)
    (hword : w.toNat = headerWord b last) :
    (w &&& ~~~(END ||| FREE)).toNat = b.size := by
  change (w &&& ~~~3).toNat = b.size
  rw [and_not_three_toNat, hword]
  unfold headerWord
  cases b.free <;> cases last <;> simp only [Bool.toNat_true, Bool.toNat_false] <;> omega

theorem free_of_word (haligned : b.size % 4 = 0)
    (hword : w.toNat = headerWord b last) : decide (w &&& FREE ≠ 0) = b.free := by
  have hbit : (w &&& FREE).toNat = b.free.toNat := by
    change (w &&& 1).toNat = _
    rw [and_one_toNat, hword]
    unfold headerWord
    cases b.free <;> cases last <;> simp only [Bool.toNat_true, Bool.toNat_false] <;> omega
  cases hfree : b.free
  · have hzero : w &&& FREE = 0 := BitVec.eq_of_toNat_eq (by rw [hbit, hfree]; rfl)
    exact decide_eq_false (not_not_intro hzero)
  · refine decide_eq_true ?_
    intro hzero
    rw [hzero, hfree] at hbit
    simp at hbit

theorem end_of_word (haligned : b.size % 4 = 0)
    (hword : w.toNat = headerWord b last) : decide (w &&& END ≠ 0) = last := by
  have hbit : (w &&& END).toNat = last.toNat * 2 := by
    change (w &&& 2).toNat = _
    rw [and_two_toNat, hword]
    unfold headerWord
    cases b.free <;> cases last <;> simp only [Bool.toNat_true, Bool.toNat_false] <;> omega
  cases last
  · have hzero : w &&& END = 0 := BitVec.eq_of_toNat_eq (by rw [hbit]; rfl)
    exact decide_eq_false (not_not_intro hzero)
  · refine decide_eq_true ?_
    intro hzero
    rw [hzero] at hbit
    simp at hbit

theorem setfree_word (haligned : b.size % 4 = 0)
    (hword : w.toNat = headerWord b last) :
    (w ||| FREE).toNat = headerWord { b with free := true } last := by
  change (w ||| 1).toNat = _
  rw [or_one_toNat, hword]
  unfold headerWord
  cases b.free <;> cases last <;> simp only [Bool.toNat_true, Bool.toNat_false] <;> omega

theorem clrfree_word (haligned : b.size % 4 = 0)
    (hword : w.toNat = headerWord b last) :
    (w &&& ~~~FREE).toNat = headerWord { b with free := false } last := by
  change (w &&& ~~~1).toNat = _
  rw [and_not_one_toNat, hword]
  unfold headerWord
  cases b.free <;> cases last <;> simp only [Bool.toNat_true, Bool.toNat_false] <;> omega

theorem copyend_word (haligned : b.size % 4 = 0)
    (hword : w.toNat = headerWord b last) (other : Bool) :
    (w ||| if other then END else 0).toNat = headerWord b (last || other) := by
  cases other
  · simpa using hword
  · change (w ||| 2).toNat = _
    rw [or_two_toNat, hword]
    unfold headerWord
    cases b.free <;> cases last <;>
      simp only [Bool.toNat_true, Bool.toNat_false, Bool.or_true] <;> omega

theorem grow_word {n : U32} (hword : w.toNat = headerWord b last)
    (hroom : headerWord b last + n.toNat < 2 ^ 32) :
    (w + n).toNat = headerWord { b with size := b.size + n.toNat } last := by
  rw [BitVec.toNat_add, hword, Nat.mod_eq_of_lt hroom]
  simp only [headerWord]
  omega

end Word

namespace Header

variable {m : Mem} {a : Nat} {b : Block} {last : Bool}

theorem addr_toNat (h : Header m a b last) : (addr a).toNat = a := by
  have := h.fits
  exact Mpx.addr_toNat (by omega)

theorem addr_ne_zero (h : Header m a b last) : addr a ≠ 0 := by
  have := h.fits
  exact addr_ne_null h.pos (by omega)

theorem size (h : Header m a b last) : (mcbSize m (addr a)).toNat = b.size :=
  size_of_word h.aligned h.word

theorem isfree (h : Header m a b last) : mcbIsfree m (addr a) = b.free :=
  free_of_word h.aligned h.word

theorem isend (h : Header m a b last) : mcbIsend m (addr a) = last :=
  end_of_word h.aligned h.word

theorem next_addr (h : Header m a b last) :
    mcbStart (addr a) + mcbSize m (addr a) = addr (a + 4 + b.size) := by
  apply BitVec.eq_of_toNat_eq
  have hsize := h.size
  have haddr := h.addr_toNat
  have hfour : (4 : U32).toNat = 4 := rfl
  simp only [mcbStart, BitVec.toNat_add, hsize, haddr, hfour, addr, BitVec.toNat_ofNat]
  omega

theorem frame {m' : Mem} (h : Header m a b last)
    (hagree : ∀ x : U32, a ≤ x.toNat → x.toNat < a + 4 → m'.byte x = m.byte x) :
    Header m' a b last := by
  refine ⟨h.pos, h.fits, h.aligned, ?_⟩
  have hfits := h.fits
  have haddr := h.addr_toNat
  rw [load32_congr m m' (addr a) (by omega), h.word]
  intro x hlow hhigh
  exact hagree x (by omega) (by omega)

theorem same {m' : Mem} {hs : List Nat} (h : Header m a b last) (hsame : SameOutside m m' hs)
    (hapart : ∀ c ∈ hs, a + 4 ≤ c ∨ c + 4 ≤ a) : Header m' a b last := by
  apply h.frame
  intro x hlow hhigh
  apply hsame x
  intro c hc
  have := hapart c hc
  omega

end Header

theorem encodes_same {m m' : Mem} {a : Nat} {bs : List Block} {hs : List Nat}
    (henc : Encodes m a bs) (hsame : SameOutside m m' hs) (hfront : ∀ h ∈ hs, h + 4 ≤ a) :
    Encodes m' a bs := by
  induction bs generalizing a with
  | nil => trivial
  | cons b bs ih =>
      refine ⟨henc.1.same hsame fun h hmem => Or.inr (hfront h hmem), ih henc.2 ?_⟩
      intro h hmem
      have := hfront h hmem
      omega

theorem encodes_next {m : Mem} {a : Nat} {b : Block} {bs : List Block}
    (henc : Encodes m a (b :: bs)) :
    mcbNext m (addr a) = .ok (cursor (a + 4 + b.size) bs) := by
  simp only [mcbNext, if_neg henc.1.addr_ne_zero, henc.1.isend, henc.1.next_addr]
  cases bs <;> rfl

theorem encodes_header {m : Mem} {a h : Nat} {b : Block} {bs : List Block}
    (henc : Encodes m a bs) (hmem : (h, b) ∈ layout 4 a bs) : ∃ last, Header m h b last := by
  induction bs generalizing a with
  | nil => simp [layout] at hmem
  | cons c bs ih =>
      rcases List.mem_cons.mp hmem with heq | htail
      · cases heq
        exact ⟨_, henc.1⟩
      · exact ih henc.2 htail

theorem encodes_span {m : Mem} {a : Nat} {bs : List Block} (henc : Encodes m a bs)
    (hne : bs ≠ []) : a + span 4 bs ≤ 2 ^ 32 := by
  induction bs generalizing a with
  | nil => exact absurd rfl hne
  | cons b bs ih =>
      simp only [span]
      cases bs with
      | nil =>
          have := henc.1.fits
          simp only [span]
          omega
      | cons c cs =>
          have := ih henc.2 (by simp)
          omega

theorem encodes_length {m : Mem} {a : Nat} {bs : List Block} (henc : Encodes m a bs) :
    bs.length < walkFuel := by
  have hspan : 4 * bs.length ≤ span 4 bs := by
    clear henc
    induction bs with
    | nil => simp
    | cons b bs ih =>
        simp only [List.length_cons, span]
        omega
  cases bs with
  | nil => simp [walkFuel]
  | cons b bs =>
      have hend := encodes_span henc (by simp)
      have hpos := henc.1.pos
      unfold walkFuel
      omega

end Mpx
