import Mpx.Base.Memory

/-! Aligned words of memory, and blocks of memory that are cleared. -/

namespace Mpx.Memory

def wordAt (m : Mem) (a : Nat) : U32 := load32 m (BitVec.ofNat 32 a)

def clear (m : Mem) (s n : U32) : Mem where
  byte x := if x - s < n then 0 else m.byte x

def modifyWord (m : Mem) (a : U32) (f : U32 → U32) : Mem := store32 m a (f (load32 m a))

section Words

variable {m : Mem} {a b : Nat} {v : U32}

theorem toNat_ofNat_of_lt (ha : a < 2 ^ 32) : (BitVec.ofNat 32 a).toNat = a := by
  rw [BitVec.toNat_ofNat, Nat.mod_eq_of_lt ha]

theorem toInt_ofNat_of_lt (ha : a < 2 ^ 31) : (BitVec.ofNat 32 a).toInt = (a : Int) := by
  rw [← BitVec.ofInt_natCast, BitVec.toInt_ofInt, Int.bmod_eq_of_le (by omega) (by omega)]

structure WordSet (m m' : Mem) (a : Nat) (v : U32) : Prop where
  self : wordAt m' a = v
  other : ∀ b, b % 4 = 0 → b < 2 ^ 32 → b ≠ a → wordAt m' b = wordAt m b

theorem wordAt_store32 (ha : a % 4 = 0) (hb : b % 4 = 0) (hafit : a < 2 ^ 32)
    (hbfit : b < 2 ^ 32) :
    wordAt (store32 m (BitVec.ofNat 32 a) v) b = if b = a then v else wordAt m b := by
  have haddr := toNat_ofNat_of_lt hafit
  have hbddr := toNat_ofNat_of_lt hbfit
  split
  · next heq =>
    rw [wordAt, heq]
    exact load32_store32_same m _ v
  · next hne =>
    apply load32_congr
    · omega
    · intro x hlow hhigh
      apply store32_outside
      · omega
      · unfold Outside
        omega

theorem wordSet_store32 (ha : a % 4 = 0) (hafit : a < 2 ^ 32) :
    WordSet m (store32 m (BitVec.ofNat 32 a) v) a v where
  self := by
    rw [wordAt_store32 ha ha hafit hafit, if_pos rfl]
  other := by
    intro b hb hbfit hne
    rw [wordAt_store32 ha hb hafit hbfit, if_neg hne]

theorem wordSet_modifyWord (f : U32 → U32) (ha : a % 4 = 0) (hafit : a < 2 ^ 32) :
    WordSet m (modifyWord m (BitVec.ofNat 32 a) f) a (f (wordAt m a)) :=
  wordSet_store32 ha hafit

theorem WordSet.trans {m' m'' : Mem} {v' : U32} (h : WordSet m m' a v)
    (h' : WordSet m' m'' a v') : WordSet m m'' a v' where
  self := h'.self
  other := by
    intro b hb hbfit hne
    rw [h'.other b hb hbfit hne, h.other b hb hbfit hne]

theorem wordAt_congr {m' : Mem} (hfit : a + 4 ≤ 2 ^ 32)
    (hagree : ∀ x : U32, a ≤ x.toNat → x.toNat < a + 4 → m'.byte x = m.byte x) :
    wordAt m' a = wordAt m a := by
  have haddr : (BitVec.ofNat 32 a).toNat = a := toNat_ofNat_of_lt (by omega)
  apply load32_congr
  · omega
  · intro x hlow hhigh
    exact hagree x (by omega) (by omega)

theorem wordAt_zero (hfit : a + 4 ≤ 2 ^ 32)
    (hzero : ∀ x : U32, a ≤ x.toNat → x.toNat < a + 4 → m.byte x = 0) : wordAt m a = 0 := by
  have haddr : (BitVec.ofNat 32 a).toNat = a := toNat_ofNat_of_lt (by omega)
  have hbyte : ∀ i : U32, i.toNat < 4 → m.byte (BitVec.ofNat 32 a + i) = 0 := by
    intro i hi
    have hsum : (BitVec.ofNat 32 a + i).toNat = a + i.toNat := by
      rw [BitVec.toNat_add, haddr]
      omega
    apply hzero <;> omega
  have h0 := hzero (BitVec.ofNat 32 a) (by omega) (by omega)
  rw [wordAt, load32, hbyte 3 (by decide), hbyte 2 (by decide), hbyte 1 (by decide), h0]
  rfl

theorem wordAt_clear {s n : Nat} (hs : s % 4 = 0) (hn : n % 4 = 0) (hb : b % 4 = 0)
    (hfit : s + n ≤ 2 ^ 31) (hbfit : b + 4 ≤ 2 ^ 32) :
    wordAt (clear m (BitVec.ofNat 32 s) (BitVec.ofNat 32 n)) b =
      if s ≤ b ∧ b < s + n then 0 else wordAt m b := by
  have hstart : (BitVec.ofNat 32 s).toNat = s := toNat_ofNat_of_lt (by omega)
  have hlength : (BitVec.ofNat 32 n).toNat = n := toNat_ofNat_of_lt (by omega)
  have hcleared : ∀ x : U32, x - BitVec.ofNat 32 s < BitVec.ofNat 32 n ↔
      s ≤ x.toNat ∧ x.toNat < s + n := by
    intro x
    have hx := x.isLt
    rw [BitVec.lt_def, BitVec.toNat_sub, hstart, hlength]
    omega
  split
  · next hin =>
    apply wordAt_zero hbfit
    intro x hlow hhigh
    rw [clear]
    exact if_pos ((hcleared x).mpr (by omega))
  · next hout =>
    apply wordAt_congr hbfit
    intro x hlow hhigh
    rw [clear]
    exact if_neg fun hin => by
      have := (hcleared x).mp hin
      omega

end Words

/-! Addresses of pages: the low twelve bits are zero. -/

theorem and_page_toNat (w : U32) : (w &&& 0xfffff000).toNat = w.toNat / 4096 * 4096 := by
  have hshift : w &&& 0xfffff000#32 = (w >>> 12) <<< 12 := by
    ext i hi
    interval_cases i <;> simp
  change (w &&& 0xfffff000#32).toNat = _
  rw [hshift, BitVec.toNat_shiftLeft, BitVec.toNat_ushiftRight,
    Nat.shiftRight_eq_div_pow, Nat.shiftLeft_eq]
  omega

theorem or_seven_and_page (w : U32) : (w ||| 0x7) &&& 0xfffff000 = w &&& 0xfffff000 := by
  change (w ||| 7#32) &&& 0xfffff000#32 = w &&& 0xfffff000#32
  ext i hi
  interval_cases i <;> simp

theorem or_seven_and_one (w : U32) : (w ||| 0x7) &&& 1 = 1 := by
  change (w ||| 7#32) &&& 1#32 = 1#32
  ext i hi
  interval_cases i <;> simp

end Mpx.Memory
