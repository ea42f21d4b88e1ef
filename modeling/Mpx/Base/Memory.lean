import Mathlib.Tactic

/-! Byte-addressed memory of a 32-bit little-endian machine.

Addresses are compared through `toNat`: a word at `a` occupies the bytes
`a`, ..., `a + 3`, and all facts below are for words that do not wrap. -/

namespace Mpx.Memory

abbrev U8 := BitVec 8
abbrev U32 := BitVec 32

structure Mem where
  byte : U32 → U8

inductive Fault
  | nullPointer
  | outOfBounds
  | diverges
  deriving DecidableEq, Repr

def load32 (m : Mem) (a : U32) : U32 :=
  m.byte (a + 3) ++ m.byte (a + 2) ++ m.byte (a + 1) ++ m.byte a

def store32 (m : Mem) (a v : U32) : Mem where
  byte x :=
    if x = a then v.extractLsb' 0 8
    else if x = a + 1 then v.extractLsb' 8 8
    else if x = a + 2 then v.extractLsb' 16 8
    else if x = a + 3 then v.extractLsb' 24 8
    else m.byte x

def store8 (m : Mem) (a : U32) (v : U8) : Mem where
  byte x := if x = a then v else m.byte x

def Outside (a x : U32) : Prop :=
  x.toNat < a.toNat ∨ a.toNat + 4 ≤ x.toNat

theorem extract_bytes (v : U32) :
    v.extractLsb' 24 8 ++ v.extractLsb' 16 8 ++ v.extractLsb' 8 8 ++
      v.extractLsb' 0 8 = v := by
  ext i hi
  simp only [BitVec.getElem_append, BitVec.getElem_extractLsb']
  split
  · simp [BitVec.getLsbD_eq_getElem hi]
  · split
    · rw [show 8 + (i - 8) = i by omega, BitVec.getLsbD_eq_getElem hi]
    · split
      · rw [show 16 + (i - 8 - 8) = i by omega, BitVec.getLsbD_eq_getElem hi]
      · rw [show 24 + (i - 8 - 8 - 8) = i by omega, BitVec.getLsbD_eq_getElem hi]

theorem load32_store32_same (m : Mem) (a v : U32) :
    load32 (store32 m a v) a = v := by
  have h1 : a + 1 ≠ a := by bv_omega
  have h2 : a + 2 ≠ a := by bv_omega
  have h3 : a + 3 ≠ a := by bv_omega
  have h21 : a + 2 ≠ a + 1 := by bv_omega
  have h31 : a + 3 ≠ a + 1 := by bv_omega
  have h32 : a + 3 ≠ a + 2 := by bv_omega
  simp only [load32, store32, h1, h2, h3, h21, h31, h32, if_true, if_false]
  exact extract_bytes v

theorem store32_outside (m : Mem) (a v x : U32)
    (hfit : a.toNat + 4 ≤ 2 ^ 32) (hout : Outside a x) :
    (store32 m a v).byte x = m.byte x := by
  unfold Outside at hout
  have h0 : x ≠ a := by bv_omega
  have h1 : x ≠ a + 1 := by bv_omega
  have h2 : x ≠ a + 2 := by bv_omega
  have h3 : x ≠ a + 3 := by bv_omega
  simp only [store32, h0, h1, h2, h3, if_false]

theorem extract_append (b₃ b₂ b₁ b₀ : U8) :
    (b₃ ++ b₂ ++ b₁ ++ b₀).extractLsb' 0 8 = b₀ ∧
      (b₃ ++ b₂ ++ b₁ ++ b₀).extractLsb' 8 8 = b₁ ∧
      (b₃ ++ b₂ ++ b₁ ++ b₀).extractLsb' 16 8 = b₂ ∧
      (b₃ ++ b₂ ++ b₁ ++ b₀).extractLsb' 24 8 = b₃ := by
  refine ⟨?_, ?_, ?_, ?_⟩
  all_goals
    ext i hi
    grind

theorem store32_load32 (m : Mem) (a : U32) : store32 m a (load32 m a) = m := by
  rcases extract_append (m.byte (a + 3)) (m.byte (a + 2)) (m.byte (a + 1)) (m.byte a) with
    ⟨h0, h1, h2, h3⟩
  cases m with
  | mk byte =>
      apply congrArg Mem.mk
      funext x
      simp only [load32, h0, h1, h2, h3]
      split
      · next hx => rw [hx]
      · split
        · next hx => rw [hx]
        · split
          · next hx => rw [hx]
          · split
            · next hx => rw [hx]
            · rfl

theorem load32_congr (m m' : Mem) (a : U32) (hfit : a.toNat + 4 ≤ 2 ^ 32)
    (hagree : ∀ x : U32, a.toNat ≤ x.toNat → x.toNat < a.toNat + 4 →
      m'.byte x = m.byte x) :
    load32 m' a = load32 m a := by
  have h0 := hagree a (by omega) (by omega)
  have h1 := hagree (a + 1) (by bv_omega) (by bv_omega)
  have h2 := hagree (a + 2) (by bv_omega) (by bv_omega)
  have h3 := hagree (a + 3) (by bv_omega) (by bv_omega)
  simp only [load32, h0, h1, h2, h3]

/-! The two low bits of a word, read and written as flags. -/

theorem and_one_toNat (w : U32) : (w &&& 1).toNat = w.toNat % 2 := by
  rw [BitVec.toNat_and]
  exact Nat.and_one_is_mod w.toNat

theorem and_two_toNat (w : U32) : (w &&& 2).toNat = w.toNat / 2 % 2 * 2 := by
  have hdiv : (w.toNat &&& 2) / 2 = w.toNat / 2 &&& 1 := Nat.and_div_two
  have hmod : (w.toNat &&& 2) % 2 = w.toNat % 2 &&& 2 % 2 :=
    Nat.and_mod_two_pow (n := 1)
  rw [Nat.and_one_is_mod] at hdiv
  rw [Nat.mod_self, Nat.and_zero] at hmod
  rw [BitVec.toNat_and]
  change w.toNat &&& 2 = _
  omega

theorem or_one_toNat (w : U32) : (w ||| 1).toNat = w.toNat / 2 * 2 + 1 := by
  have hdiv : (w.toNat ||| 1) / 2 = w.toNat / 2 ||| 0 := Nat.or_div_two
  have hmod : (w.toNat ||| 1) % 2 = 1 := Nat.or_mod_two_eq_one.mpr (Or.inr rfl)
  rw [Nat.or_zero] at hdiv
  rw [BitVec.toNat_or]
  change w.toNat ||| 1 = _
  omega

theorem or_two_toNat (w : U32) :
    (w ||| 2).toNat = w.toNat + 2 - w.toNat / 2 % 2 * 2 := by
  have hdiv : (w.toNat ||| 2) / 2 = w.toNat / 2 ||| 1 := Nat.or_div_two
  have hmod : (w.toNat ||| 2) % 2 = w.toNat % 2 ||| 2 % 2 :=
    Nat.or_mod_two_pow (n := 1)
  have hdiv' : (w.toNat / 2 ||| 1) / 2 = w.toNat / 2 / 2 ||| 0 := Nat.or_div_two
  have hmod' : (w.toNat / 2 ||| 1) % 2 = 1 := Nat.or_mod_two_eq_one.mpr (Or.inr rfl)
  rw [Nat.mod_self, Nat.or_zero] at hmod
  rw [Nat.or_zero] at hdiv'
  rw [BitVec.toNat_or]
  change w.toNat ||| 2 = _
  omega

theorem and_not_one_toNat (w : U32) : (w &&& ~~~1).toNat = w.toNat / 2 * 2 := by
  have hshift : w &&& ~~~1#32 = (w >>> 1) <<< 1 := by
    ext i hi
    interval_cases i <;> simp
  change (w &&& ~~~1#32).toNat = _
  rw [hshift, BitVec.toNat_shiftLeft, BitVec.toNat_ushiftRight,
    Nat.shiftRight_eq_div_pow, Nat.shiftLeft_eq]
  omega

theorem and_not_three_toNat (w : U32) : (w &&& ~~~3).toNat = w.toNat / 4 * 4 := by
  have hshift : w &&& ~~~3#32 = (w >>> 2) <<< 2 := by
    ext i hi
    interval_cases i <;> simp
  change (w &&& ~~~3#32).toNat = _
  rw [hshift, BitVec.toNat_shiftLeft, BitVec.toNat_ushiftRight,
    Nat.shiftRight_eq_div_pow, Nat.shiftLeft_eq]
  omega

end Mpx.Memory
