import Mathlib.Data.Nat.Digits.Lemmas
import Mathlib.Tactic

/-! Numerals in ASCII: the digits of a number as characters, the most significant one first. -/

namespace Mpx.Numeral

def digitChar (d : Nat) : BitVec 8 := BitVec.ofNat 8 (if d < 10 then 48 + d else 87 + d)

def IsFigure (c : BitVec 8) : Prop := 48 ≤ c ∧ c ≤ 57

instance (c : BitVec 8) : Decidable (IsFigure c) := inferInstanceAs (Decidable (_ ∧ _))

def horner (base r : Nat) (ds : List Nat) : Nat := ds.foldl (fun v d => v * base + d) r

def numeral (base n : Nat) : List (BitVec 8) := (Nat.digits base n).reverse.map digitChar

def twoDigits (n : Nat) : List (BitVec 8) := [digitChar (n / 10), digitChar (n % 10)]

def SignedDecimal (s : List (BitVec 8)) : Prop :=
  ∃ figures, figures ≠ [] ∧ (∀ c ∈ figures, IsFigure c) ∧ (s = figures ∨ s = 45 :: figures)

section Digits

variable {base n d r : Nat} {c : BitVec 8}

theorem digitChar_toNat (hd : d < 36) :
    (digitChar d).toNat = if d < 10 then 48 + d else 87 + d := by
  rw [digitChar, BitVec.toNat_ofNat]
  split <;> omega

theorem isFigure_iff : IsFigure c ↔ 48 ≤ c.toNat ∧ c.toNat ≤ 57 := by
  rw [IsFigure, BitVec.le_def, BitVec.le_def]
  rfl

theorem isFigure_digitChar (hd : d < 10) : IsFigure (digitChar d) := by
  rw [isFigure_iff, digitChar_toNat (by omega), if_pos hd]
  omega

theorem IsFigure.eq_digitChar (h : IsFigure c) : c = digitChar (c.toNat - 48) := by
  rw [isFigure_iff] at h
  apply BitVec.eq_of_toNat_eq
  rw [digitChar_toNat (by omega), if_pos (by omega)]
  omega

theorem digitChar_inj {a b : Nat} (ha : a < 10) (hb : b < 10) :
    digitChar a = digitChar b ↔ a = b := by
  constructor
  · intro h
    have hnat := congrArg BitVec.toNat h
    rw [digitChar_toNat (by omega), digitChar_toNat (by omega), if_pos ha, if_pos hb] at hnat
    omega
  · exact congrArg digitChar

theorem twoDigits_eq_iff {a b : Nat} (hn : n < 100) (ha : a < 10) (hb : b < 10) :
    twoDigits n = [digitChar a, digitChar b] ↔ n = 10 * a + b := by
  rw [twoDigits, List.cons.injEq, List.cons.injEq, digitChar_inj (by omega) ha,
    digitChar_inj (by omega) hb]
  simp only [and_true]
  omega

theorem horner_cons (base r d : Nat) (ds : List Nat) :
    horner base r (d :: ds) = horner base (r * base + d) ds := rfl

theorem horner_reverse (base : Nat) (ds : List Nat) :
    horner base 0 ds.reverse = Nat.ofDigits base ds := by
  rw [horner, List.foldl_reverse, Nat.ofDigits_eq_foldr]
  apply congrArg (fun f => List.foldr f 0 ds)
  funext d v
  simp only [Nat.cast_id]
  ring

theorem horner_digits (base n : Nat) : horner base 0 (Nat.digits base n).reverse = n := by
  rw [horner_reverse, Nat.ofDigits_digits]

end Digits

end Mpx.Numeral
