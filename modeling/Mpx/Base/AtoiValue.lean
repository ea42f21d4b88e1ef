import Mpx.Base.Atoi

/-! `atoi` of `lib/stdlib.c` on the numbers that an `int` can hold: no operation overflows, and
the result is the decimal value. -/

namespace Mpx.CString

open Memory Numeral

def signed32 (n : Int) : Option Int := if -2 ^ 31 ≤ n ∧ n < 2 ^ 31 then some n else none

/-- The loop over the digits in exact arithmetic; it fails at the first overflow. -/
def atoiDigitsChecked (res : Int) : List U8 → Option Int
  | [] => some res
  | c :: s =>
      if 48 ≤ c ∧ c ≤ 57 then do
        let shifted ← signed32 (res * 10)
        let digit ← signed32 (c.toInt - 48)
        let sum ← signed32 (shifted + digit)
        atoiDigitsChecked sum s
      else some res

def atoiChecked (s : List U8) : Option Int :=
  let s := s.dropWhile isspace
  let sign := s.headD 0
  do
    let res ← atoiDigitsChecked 0 (if sign = 45 ∨ sign = 43 then s.tail else s)
    if sign = 45 then signed32 (res * -1) else some res

inductive Sign where
  | none
  | plus
  | minus
  deriving DecidableEq

def Sign.chars : Sign → List U8
  | .none => []
  | .plus => [43]
  | .minus => [45]

/-- A string and its parts: blanks, a sign or none, figures and the rest, which the zero at the
end belongs to. The blanks and the sign are not left to the rest. -/
structure NumberText where
  blanks : List U8
  sign : Sign
  figures : List Nat
  rest : List U8
  blanks_isspace : ∀ c ∈ blanks, isspace c = true
  figures_lt : ∀ d ∈ figures, d < 10
  rest_head : ∀ c ∈ rest.head?, ¬ IsFigure c
  complete : sign = .none → figures = [] →
    ∀ c ∈ rest.head?, isspace c = false ∧ ¬ (c = 45 ∨ c = 43)

namespace NumberText

def unsigned (n : NumberText) : List U8 := n.figures.map digitChar ++ n.rest

def chars (n : NumberText) : List U8 := n.blanks ++ (n.sign.chars ++ n.unsigned)

def magnitude (n : NumberText) : Nat := Nat.ofDigits 10 n.figures.reverse

def value (n : NumberText) : Int := if n.sign = .minus then -n.magnitude else n.magnitude

end NumberText

section Wrapped

variable {r v : Int} {c : U8} {s : List U8}

theorem signed32_eq_some {n m : Int} :
    signed32 n = some m ↔ m = n ∧ -2 ^ 31 ≤ n ∧ n < 2 ^ 31 := by
  rw [signed32]
  by_cases hrange : -2 ^ 31 ≤ n ∧ n < 2 ^ 31
  · rw [if_pos hrange, Option.some.injEq, and_iff_left hrange, eq_comm]
  · rw [if_neg hrange]
    exact ⟨nofun, fun h => absurd h.2 hrange⟩

theorem toInt_figure (hc : IsFigure c) : c.toInt = c.toNat := by
  rw [isFigure_iff] at hc
  rw [BitVec.toInt_eq_toNat_of_lt]
  omega

theorem zeroExtend_figure (hc : IsFigure c) :
    c.zeroExtend 32 - 48 = BitVec.ofInt 32 (c.toInt - 48) := by
  have hzero : (48 : U32).toNat = 48 := rfl
  have hvalue := toInt_figure hc
  rw [isFigure_iff] at hc
  apply BitVec.eq_of_toNat_eq
  calc (c.zeroExtend 32 - 48).toNat = c.toNat - 48 := by
        rw [BitVec.toNat_sub, BitVec.zeroExtend, BitVec.toNat_setWidth, hzero]
        omega
    _ = (BitVec.ofInt 32 (c.toInt - 48)).toNat := by
      rw [hvalue, BitVec.toNat_ofInt]
      omega

theorem atoiDigitsChecked_cons (hc : IsFigure c) (r : Int) (s : List U8) :
    atoiDigitsChecked r (c :: s) = (signed32 (r * 10)).bind fun shifted =>
      (signed32 (c.toInt - 48)).bind fun digit =>
        (signed32 (shifted + digit)).bind fun sum => atoiDigitsChecked sum s := if_pos hc

theorem atoiDigitsChecked_stop (hc : ¬ IsFigure c) (r : Int) (s : List U8) :
    atoiDigitsChecked r (c :: s) = some r := if_neg hc

theorem atoiDigitsChecked_round (hc : IsFigure c) (h : atoiDigitsChecked r (c :: s) = some v) :
    (-2 ^ 31 ≤ r * 10 + (c.toInt - 48) ∧ r * 10 + (c.toInt - 48) < 2 ^ 31) ∧
      atoiDigitsChecked (r * 10 + (c.toInt - 48)) s = some v := by
  rw [atoiDigitsChecked_cons hc] at h
  rcases Option.bind_eq_some_iff.mp h with ⟨shifted, hshifted, h⟩
  rcases Option.bind_eq_some_iff.mp h with ⟨digit, hdigit, h⟩
  rcases Option.bind_eq_some_iff.mp h with ⟨sum, hsum, h⟩
  rw [(signed32_eq_some.mp hshifted).1, (signed32_eq_some.mp hdigit).1, signed32_eq_some] at hsum
  rw [hsum.1] at h
  exact ⟨hsum.2, h⟩

theorem atoiDigits_of_checked (h : atoiDigitsChecked r s = some v) :
    atoiDigits (BitVec.ofInt 32 r) s = BitVec.ofInt 32 v := by
  induction s generalizing r with
  | nil =>
      cases h
      rfl
  | cons c s ih =>
      by_cases hc : IsFigure c
      · have hstep : BitVec.ofInt 32 r * 10 + (c.zeroExtend 32 - 48) =
            BitVec.ofInt 32 (r * 10 + (c.toInt - 48)) := by
          rw [BitVec.ofInt_add, BitVec.ofInt_mul, zeroExtend_figure hc]
          rfl
        rw [atoiDigits_cons hc, hstep]
        exact ih (atoiDigitsChecked_round hc h).2
      · rw [atoiDigitsChecked_stop hc] at h
        cases h
        exact if_neg hc

theorem atoiDigitsChecked_range (hr : -2 ^ 31 ≤ r ∧ r < 2 ^ 31)
    (h : atoiDigitsChecked r s = some v) : -2 ^ 31 ≤ v ∧ v < 2 ^ 31 := by
  induction s generalizing r with
  | nil =>
      cases h
      exact hr
  | cons c s ih =>
      by_cases hc : IsFigure c
      · rcases atoiDigitsChecked_round hc h with ⟨hrange, hrest⟩
        exact ih hrange hrest
      · rw [atoiDigitsChecked_stop hc] at h
        cases h
        exact hr

theorem toInt_ofInt_of_range (hv : -2 ^ 31 ≤ v ∧ v < 2 ^ 31) : (BitVec.ofInt 32 v).toInt = v := by
  rw [BitVec.toInt_ofInt, Int.bmod_eq_of_le] <;> omega

theorem atoi_of_checked (h : atoiChecked s = some v) : atoi s = v := by
  rw [atoiChecked] at h
  rcases Option.bind_eq_some_iff.mp h with ⟨res, hres, h⟩
  have hword := atoiDigits_of_checked hres
  have hrange := atoiDigitsChecked_range (by decide) hres
  rw [show BitVec.ofInt 32 0 = (0 : U32) from rfl] at hword
  rw [atoi, hword]
  by_cases hsign : (s.dropWhile isspace).headD 0 = 45
  · rw [if_pos hsign] at h ⊢
    rcases signed32_eq_some.mp h with ⟨hv, hlow, hhigh⟩
    rw [hv, ← BitVec.ofInt_neg, ← toInt_ofInt_of_range ⟨hlow, hhigh⟩, mul_neg_one]
  · rw [if_neg hsign] at h ⊢
    cases h
    exact toInt_ofInt_of_range hrange

end Wrapped

section Value

variable {ds : List Nat} {rest : List U8} {r : Nat}

theorem le_horner (r : Nat) (ds : List Nat) : r ≤ horner 10 r ds := by
  induction ds generalizing r with
  | nil => exact le_rfl
  | cons d ds ih =>
      calc r ≤ r * 10 + d := by omega
        _ ≤ horner 10 (r * 10 + d) ds := ih (r * 10 + d)
        _ = horner 10 r (d :: ds) := (horner_cons 10 r d ds).symm

theorem atoiDigitsChecked_figures (hds : ∀ d ∈ ds, d < 10)
    (hrest : ∀ c ∈ rest.head?, ¬ IsFigure c) (hfits : horner 10 r ds < 2 ^ 31) :
    atoiDigitsChecked r (ds.map digitChar ++ rest) = some ((horner 10 r ds : Nat) : Int) := by
  induction ds generalizing r with
  | nil =>
      cases rest with
      | nil => rfl
      | cons c rest => exact atoiDigitsChecked_stop (hrest c rfl) r rest
  | cons d ds ih =>
      have hd : d < 10 := hds d List.mem_cons_self
      rw [horner_cons] at hfits ⊢
      have hprefix : r * 10 + d < 2 ^ 31 := lt_of_le_of_lt (le_horner (r * 10 + d) ds) hfits
      have hfigure : IsFigure (digitChar d) := isFigure_digitChar hd
      have hdigit : (digitChar d).toInt - 48 = d := by
        rw [toInt_figure hfigure, digitChar_toNat (by omega), if_pos hd]
        omega
      have hshifted : signed32 ((r : Int) * 10) = some ((r * 10 : Nat) : Int) :=
        signed32_eq_some.mpr ⟨by omega, by omega, by omega⟩
      have hone : signed32 (d : Int) = some (d : Int) :=
        signed32_eq_some.mpr ⟨rfl, by omega, by omega⟩
      have hsum : signed32 (((r * 10 : Nat) : Int) + d) = some ((r * 10 + d : Nat) : Int) :=
        signed32_eq_some.mpr ⟨by omega, by omega, by omega⟩
      rw [List.map_cons, List.cons_append, atoiDigitsChecked_cons hfigure, hdigit]
      rw [hshifted, Option.bind_some, hone, Option.bind_some, hsum, Option.bind_some]
      exact ih (fun e he => hds e (List.mem_cons_of_mem d he)) hfits

end Value

namespace NumberText

variable (n : NumberText)

theorem unsigned_cases (hsign : n.sign = .none) :
    n.unsigned = [] ∨ ∃ c s, n.unsigned = c :: s ∧ isspace c = false ∧ ¬ (c = 45 ∨ c = 43) := by
  rw [unsigned]
  cases hfigures : n.figures with
  | nil =>
      have hcomplete := n.complete hsign hfigures
      cases hrest : n.rest with
      | nil => exact Or.inl rfl
      | cons c s =>
          rw [hrest] at hcomplete
          exact Or.inr ⟨c, s, rfl, hcomplete c rfl⟩
  | cons d ds =>
      have hfigure : IsFigure (digitChar d) :=
        isFigure_digitChar (n.figures_lt d (hfigures ▸ List.mem_cons_self))
      exact Or.inr ⟨_, _, rfl, isspace_figure hfigure, figure_no_sign hfigure⟩

theorem chars_dropWhile : n.chars.dropWhile isspace = n.sign.chars ++ n.unsigned := by
  rw [chars, List.dropWhile_append_of_pos n.blanks_isspace]
  cases hsign : n.sign with
  | none =>
      rcases n.unsigned_cases hsign with heq | ⟨c, s, heq, hspace, -⟩
      · rw [heq]
        rfl
      · rw [heq]
        exact List.dropWhile_cons_of_neg (by rw [hspace]; simp)
  | plus => rfl
  | minus => rfl

theorem headD_eq_minus : (n.sign.chars ++ n.unsigned).headD 0 = 45 ↔ n.sign = .minus := by
  cases hsign : n.sign with
  | none =>
      rcases n.unsigned_cases hsign with heq | ⟨c, s, heq, -, hnone⟩
      · rw [heq]
        decide
      · rw [heq]
        exact iff_of_false (fun h => hnone (Or.inl h)) Sign.noConfusion
  | plus => exact iff_of_false (by simp [Sign.chars]) Sign.noConfusion
  | minus => exact iff_of_true rfl rfl

theorem behind_sign :
    (if (n.sign.chars ++ n.unsigned).headD 0 = 45 ∨ (n.sign.chars ++ n.unsigned).headD 0 = 43 then
      (n.sign.chars ++ n.unsigned).tail else n.sign.chars ++ n.unsigned) = n.unsigned := by
  cases hsign : n.sign with
  | none =>
      rcases n.unsigned_cases hsign with heq | ⟨c, s, heq, -, hnone⟩
      · rw [heq]
        rfl
      · rw [heq]
        exact if_neg hnone
  | plus => rfl
  | minus => rfl

theorem magnitude_eq : n.magnitude = n.value.natAbs := by
  rw [value]
  split <;> omega

theorem atoiDigitsChecked_unsigned (hfits : n.value.natAbs ≤ 2 ^ 31 - 1) :
    atoiDigitsChecked 0 n.unsigned = some (n.magnitude : Int) := by
  rw [← magnitude_eq] at hfits
  have hvalue : horner 10 0 n.figures = n.magnitude := by
    rw [magnitude, ← horner_reverse, List.reverse_reverse]
  have hbound : horner 10 0 n.figures < 2 ^ 31 := by
    rw [hvalue]
    omega
  calc atoiDigitsChecked 0 n.unsigned = some ((horner 10 0 n.figures : Nat) : Int) :=
        atoiDigitsChecked_figures n.figures_lt n.rest_head hbound
    _ = some (n.magnitude : Int) := by rw [hvalue]

theorem exists_chars (s : List U8) : ∃ n : NumberText, n.chars = s := by
  rcases leadingNumber_total s with ⟨v, blanks, sign, ds, rest, hs, hblanks, hds, hrest, hsign⟩
  rcases hsign with ⟨hsign, hhead, -⟩ | ⟨hsign, -⟩ | ⟨hsign, -⟩
  · refine ⟨⟨blanks, .none, ds, rest, hblanks, hds, hrest, ?_⟩, by rw [hs, hsign]; rfl⟩
    intro _ hnone
    rw [hnone] at hhead
    exact hhead
  · exact ⟨⟨blanks, .plus, ds, rest, hblanks, hds, hrest, nofun⟩, by rw [hs, hsign]; rfl⟩
  · exact ⟨⟨blanks, .minus, ds, rest, hblanks, hds, hrest, nofun⟩, by rw [hs, hsign]; rfl⟩

end NumberText

/-- `atoi` returns the decimal value, and no operation overflows. -/
theorem atoi_decimal_value (n : NumberText) (hfits : n.value.natAbs ≤ 2 ^ 31 - 1) :
    atoiChecked n.chars = some n.value ∧ atoi n.chars = n.value := by
  have hchecked : atoiChecked n.chars = some n.value := by
    simp only [atoiChecked, n.chars_dropWhile]
    rw [n.behind_sign, n.atoiDigitsChecked_unsigned hfits, Option.bind_eq_bind, Option.bind_some]
    rw [← n.magnitude_eq] at hfits
    simp only [n.headD_eq_minus, NumberText.value]
    by_cases hsign : n.sign = .minus
    · rw [if_pos hsign, if_pos hsign, mul_neg_one]
      exact signed32_eq_some.mpr ⟨rfl, by omega, by omega⟩
    · rw [if_neg hsign, if_neg hsign]
  exact ⟨hchecked, atoi_of_checked hchecked⟩

theorem atoi_decimal_value_minus_123 :
    atoiChecked [32, 9, 45, 48, 49, 50, 51, 120, 0] = some (-123) ∧
      atoi [32, 9, 45, 48, 49, 50, 51, 120, 0] = -123 :=
  atoi_decimal_value
    ⟨[32, 9], .minus, [0, 1, 2, 3], [120, 0], by decide, by decide, by decide, nofun⟩ (by decide)

end Mpx.CString
