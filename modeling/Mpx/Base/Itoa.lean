import Mpx.Base.Atoi

/-! `itoa` of `lib/stdlib.c` on the array that it writes, and `atoi` on what it has written. -/

namespace Mpx.Itoa

open Memory CString Numeral

/-- `idiv` raises an exception, whose handler never returns. -/
def IdivFaults (num base : Int) : Prop := base = 0 ∨ (num = -2 ^ 31 ∧ base = -1)

instance (num base : Int) : Decidable (IdivFaults num base) :=
  inferInstanceAs (Decidable (_ ∨ _))

def put (str : List U8) (i : Nat) (c : U8) : Except Fault (List U8) :=
  if i < str.length then .ok (str.set i c) else .error .outOfBounds

def digit (rem : Int) : U8 :=
  if rem > 9 then BitVec.ofInt 8 (rem - 10 + 97) else BitVec.ofInt 8 (rem + 48)

def digitLoop (base num : Int) (i : Nat) (str : List U8) : Except Fault (Nat × List U8) :=
  if num = 0 then .ok (i, str)
  else if IdivFaults num base then .error .diverges
  else if i < str.length then
    digitLoop base (Int.tdiv num base) (i + 1) (str.set i (digit (Int.tmod num base)))
  else .error .outOfBounds
termination_by str.length - i
decreasing_by
  rw [List.length_set]
  omega

def reverseLoop (start stop : Nat) (str : List U8) : List U8 :=
  if start < stop then
    let temp := deref str start
    reverseLoop (start + 1) (stop - 1) ((str.set start (deref str stop)).set stop temp)
  else str
termination_by stop - start

/-- The number that the digit loop starts with. The negation wraps around. -/
def absolute (num base : Int) : Int :=
  if num < 0 ∧ base = 10 then (-BitVec.ofInt 32 num).toInt else num

def writeSign (num base : Int) (i : Nat) (str : List U8) : Except Fault (Nat × List U8) :=
  if num < 0 ∧ base = 10 then do
    let str ← put str i 45
    return (i + 1, str)
  else .ok (i, str)

def itoa (num : Int) (str : List U8) (base : Int) : Except Fault (List U8) :=
  if num = 0 then do
    let str ← put str 0 48
    put str 1 0
  else do
    let (i, str) ← digitLoop base (absolute num base) 0 str
    let (i, str) ← writeSign num base i str
    let str ← put str i 0
    return reverseLoop 0 (i - 1) str

section Loops

variable {base num : Int} {str : List U8} {fuel i k start stop : Nat} {c : U8}

theorem itoaDigits_succ (base : Int) (fuel : Nat) (hnum : num ≠ 0) :
    itoaDigits base (fuel + 1) num =
      digit (Int.tmod num base) :: itoaDigits base fuel (Int.tdiv num base) := by
  rw [itoaDigits, if_neg hnum]
  rfl

theorem not_idivFaults (hbase : 2 ≤ base) (num : Int) : ¬ IdivFaults num base := by
  rw [IdivFaults]
  omega

theorem natAbs_tdiv_lt (hnum : num.natAbs < base.natAbs ^ (fuel + 1)) :
    (Int.tdiv num base).natAbs < base.natAbs ^ fuel := by
  rw [Int.natAbs_tdiv]
  apply Nat.div_lt_of_lt_mul
  rw [pow_succ] at hnum
  rw [mul_comm]
  exact hnum

theorem itoaDigits_length_le (fuel : Nat) (hnum : num.natAbs < base.natAbs ^ k) :
    (itoaDigits base fuel num).length ≤ k := by
  induction fuel generalizing num k with
  | zero => exact Nat.zero_le k
  | succ fuel ih =>
      by_cases hzero : num = 0
      · rw [itoaDigits, if_pos hzero]
        exact Nat.zero_le k
      · rw [itoaDigits_succ base fuel hzero, List.length_cons]
        cases k with
        | zero =>
            rw [pow_zero] at hnum
            omega
        | succ k => exact Nat.succ_le_succ (ih (natAbs_tdiv_lt hnum))

/-- The digit loop appends the digits of `itoaDigits` and leaves what is in front of them. -/
theorem digitLoop_spec (hbase : 2 ≤ base) (hnum : num.natAbs < base.natAbs ^ fuel)
    (hroom : i + (itoaDigits base fuel num).length ≤ str.length) :
    ∃ str', digitLoop base num i str = .ok (i + (itoaDigits base fuel num).length, str') ∧
      str'.length = str.length ∧ (∀ k, k < i → deref str' k = deref str k) ∧
      ∀ k (hk : k < (itoaDigits base fuel num).length),
        deref str' (i + k) = (itoaDigits base fuel num)[k] := by
  induction fuel generalizing num i str with
  | zero =>
      have hzero : num = 0 := by
        rw [pow_zero] at hnum
        omega
      rw [digitLoop, if_pos hzero]
      exact ⟨str, rfl, rfl, fun _ _ => rfl, fun k hk => absurd hk (Nat.not_lt_zero k)⟩
  | succ fuel ih =>
      by_cases hzero : num = 0
      · rw [digitLoop, if_pos hzero, itoaDigits, if_pos hzero]
        exact ⟨str, rfl, rfl, fun _ _ => rfl, fun k hk => absurd hk (Nat.not_lt_zero k)⟩
      · rw [itoaDigits_succ base fuel hzero] at hroom ⊢
        have hi : i < str.length := by
          rw [List.length_cons] at hroom
          omega
        have hrest : i + 1 + (itoaDigits base fuel (Int.tdiv num base)).length ≤
            (str.set i (digit (Int.tmod num base))).length := by
          rw [List.length_cons] at hroom
          rw [List.length_set]
          omega
        rcases ih (natAbs_tdiv_lt hnum) hrest with ⟨str', hrun, hlength, hfront, hdigits⟩
        rw [List.length_set] at hlength
        rw [digitLoop, if_neg hzero, if_neg (not_idivFaults hbase num), if_pos hi, hrun]
        refine ⟨str', ?_, hlength, ?_, ?_⟩
        · rw [List.length_cons, Nat.add_right_comm, Nat.add_assoc]
        · intro k hk
          rw [hfront k (by omega), deref_set hi, if_neg (by omega)]
        · intro k hk
          cases k with
          | zero =>
              rw [Nat.add_zero, hfront i (Nat.lt_succ_self i), deref_set hi, if_pos rfl]
              rfl
          | succ k =>
              rw [List.getElem_cons_succ, ← hdigits k (Nat.lt_of_succ_lt_succ hk)]
              congr 1
              omega

theorem reverseLoop_spec (start : Nat) (hstop : stop < str.length) :
    (reverseLoop start stop str).length = str.length ∧ ∀ k, deref (reverseLoop start stop str) k =
      if start ≤ k ∧ k ≤ stop then deref str (start + stop - k) else deref str k := by
  fun_induction reverseLoop start stop str with
  | case1 start stop str hlt temp ih =>
      have hstart : start < str.length := by omega
      have hswap : ∀ k, deref ((str.set start (deref str stop)).set stop temp) k =
          if k = stop then deref str start else if k = start then deref str stop
          else deref str k := by
        intro k
        rw [deref_set (by rw [List.length_set]; exact hstop), deref_set hstart]
      rcases ih (by rw [List.length_set, List.length_set]; omega) with ⟨hlength, hderef⟩
      rw [List.length_set, List.length_set] at hlength
      refine ⟨hlength, ?_⟩
      intro k
      rw [hderef, hswap, hswap]
      have hsum : start + 1 + (stop - 1) = start + stop := by omega
      rw [hsum]
      by_cases hin : start ≤ k ∧ k ≤ stop
      · rw [if_pos hin]
        by_cases hk : k = stop
        · rw [if_neg (by omega), if_pos hk, hk, Nat.add_sub_cancel]
        · by_cases hk' : k = start
          · rw [if_neg (by omega), if_neg hk, if_pos hk', hk', Nat.add_sub_cancel_left]
          · rw [if_pos (by omega), if_neg (by omega), if_neg (by omega)]
      · rw [if_neg hin, if_neg (by omega), if_neg (by omega), if_neg (by omega)]
  | case2 start stop str hge =>
      refine ⟨rfl, ?_⟩
      intro k
      split
      · have hk : start + stop - k = k := by omega
        rw [hk]
      · rfl

end Loops

section Text

variable {base num : Int} {str whole : List U8} {i : Nat} {c : U8}

theorem put_ok (hi : i < str.length) (c : U8) : put str i c = .ok (str.set i c) := if_pos hi

def reversed (num base : Int) : List U8 :=
  itoaDigits base 32 (absolute num base) ++ if num < 0 ∧ base = 10 then [45] else []

theorem itoa_eq_reverse (hnum : num ≠ 0) :
    CString.itoa num base = (reversed num base).reverse := if_neg hnum

def Holds (str whole : List U8) : Prop :=
  ∀ k (hk : k < whole.length), deref str k = whole[k]

theorem writeSign_spec (hchars : Holds str (itoaDigits base 32 (absolute num base)))
    (hroom : (reversed num base).length < str.length) :
    ∃ str', writeSign num base (itoaDigits base 32 (absolute num base)).length str =
        .ok ((reversed num base).length, str') ∧
      str'.length = str.length ∧ Holds str' (reversed num base) := by
  rw [writeSign, reversed] at *
  by_cases hneg : num < 0 ∧ base = 10
  · rw [if_pos hneg, List.length_append, List.length_singleton] at hroom
    rw [if_pos hneg, if_pos hneg, List.length_append, put_ok (by omega)]
    refine ⟨_, rfl, List.length_set, ?_⟩
    intro k hk
    rw [List.length_append, List.length_singleton] at hk
    rw [deref_set (by omega), List.getElem_append]
    by_cases hlast : k = (itoaDigits base 32 (absolute num base)).length
    · rw [if_pos hlast, dif_neg (by omega)]
      simp [hlast]
    · rw [if_neg hlast, dif_pos (by omega), hchars k (by omega)]
  · rw [if_neg hneg, if_neg hneg, List.append_nil]
    exact ⟨str, rfl, rfl, hchars⟩

theorem finish_spec (hchars : Holds str whole) (hroom : whole.length < str.length)
    (hzero : (0 : U8) ∉ whole) :
    ∃ str', (do
        let str ← put str whole.length 0
        return reverseLoop 0 (whole.length - 1) str) = .ok str' ∧
      str'.length = str.length ∧ text str' = whole.reverse := by
  rw [put_ok hroom]
  have hstop : whole.length - 1 < (str.set whole.length 0).length := by
    rw [List.length_set]
    omega
  have hset := deref_set hroom 0
  rcases reverseLoop_spec 0 hstop with ⟨hlength, hderef⟩
  rw [List.length_set] at hlength
  refine ⟨_, rfl, hlength, ?_⟩
  generalize reverseLoop 0 (whole.length - 1) (str.set whole.length 0) = str' at hderef
  rw [← List.drop_zero (l := str')]
  apply text_drop
  · intro k hk
    rw [List.length_reverse] at hk
    rw [Nat.zero_add, hderef, if_pos (by omega), hset, if_neg (by omega), Nat.zero_add,
      hchars _ (by omega), List.getElem_reverse]
  · rw [Nat.zero_add, List.length_reverse, hderef]
    split
    · rw [hset, if_pos (by omega)]
    · rw [hset, if_pos rfl]
  · rw [List.mem_reverse]
    exact hzero

theorem absolute_natAbs_lt (hbase : 2 ≤ base) (hlow : -2 ^ 31 ≤ num) (hhigh : num < 2 ^ 31) :
    (absolute num base).natAbs < base.natAbs ^ 32 := by
  have hword := (-BitVec.ofInt 32 num).toInt_lt
  have hword' := (-BitVec.ofInt 32 num).le_toInt
  have hpow : 2 ^ 32 ≤ base.natAbs ^ 32 := Nat.pow_le_pow_left (by omega) 32
  rw [absolute]
  split <;> omega

theorem itoa_spec (hbase : 2 ≤ base) (hlow : -2 ^ 31 ≤ num) (hhigh : num < 2 ^ 31)
    (hroom : (CString.itoa num base).length < str.length)
    (hzero : (0 : U8) ∉ CString.itoa num base) :
    ∃ str', itoa num str base = .ok str' ∧ str'.length = str.length ∧
      text str' = CString.itoa num base := by
  by_cases hnum : num = 0
  · rw [CString.itoa, if_pos hnum, List.length_singleton] at hroom
    have hroom' : 1 < (str.set 0 48).length := by
      rw [List.length_set]
      exact hroom
    rw [itoa, if_pos hnum, put_ok (by omega), CString.itoa, if_pos hnum]
    refine ⟨_, put_ok hroom' 0, by rw [List.length_set, List.length_set], ?_⟩
    cases str with
    | nil => exact absurd hroom (Nat.not_lt_zero _)
    | cons a str =>
        cases str with
        | nil => exact absurd hroom (lt_irrefl _)
        | cons b str => rfl
  · rw [itoa_eq_reverse hnum, List.length_reverse] at hroom
    rw [itoa_eq_reverse hnum, List.mem_reverse] at hzero
    have hdigits : 0 + (itoaDigits base 32 (absolute num base)).length ≤ str.length := by
      rw [reversed, List.length_append] at hroom
      omega
    rcases digitLoop_spec hbase (absolute_natAbs_lt hbase hlow hhigh) hdigits with
      ⟨str₁, hloop, hlength₁, -, hchars⟩
    simp only [Nat.zero_add] at hloop hchars
    rcases writeSign_spec hchars (by rw [hlength₁]; exact hroom) with
      ⟨str₂, hsign, hlength₂, hchars₂⟩
    rw [← hlength₁, ← hlength₂] at hroom
    rcases finish_spec hchars₂ hroom hzero with ⟨str₃, hfinish, hlength₃, htext⟩
    rw [itoa, if_neg hnum, itoa_eq_reverse hnum, hloop]
    refine ⟨str₃, ?_, by rw [hlength₃, hlength₂, hlength₁], htext⟩
    simp only [bind, Except.bind, hsign]
    exact hfinish

end Text

def ReadsBack (num : Int) (str : List U8) : Prop :=
  ∃ str', itoa num str 10 = .ok str' ∧ SignedDecimal (text str') ∧ atoi str' = num

section RoundTrip

variable {base num : Int} {b n fuel : Nat} {str : List U8}

theorem digit_natCast (hn : n < 36) : digit n = digitChar n := by
  apply BitVec.eq_of_toNat_eq
  rw [digitChar_toNat hn, digit]
  by_cases hten : n < 10
  · rw [if_neg (by omega), if_pos hten, BitVec.toNat_ofInt]
    omega
  · rw [if_pos (by omega), if_neg hten, BitVec.toNat_ofInt]
    omega

theorem itoaDigits_natCast (hb : 1 < b) (hb' : b ≤ 36) (hn : n < b ^ fuel) :
    itoaDigits b fuel n = (Nat.digits b n).map digitChar := by
  induction fuel generalizing n with
  | zero =>
      have hzero : n = 0 := by
        rw [pow_zero] at hn
        omega
      rw [hzero, Nat.digits_zero]
      rfl
  | succ fuel ih =>
      by_cases hzero : n = 0
      · rw [hzero, Nat.digits_zero]
        rfl
      · have hdiv : n / b < b ^ fuel := by
          apply Nat.div_lt_of_lt_mul
          rw [← pow_succ']
          exact hn
        have hmod : n % b < 36 := lt_of_lt_of_le (Nat.mod_lt n (by omega)) hb'
        rw [itoaDigits_succ _ _ (by omega), Nat.digits_def' hb (Nat.pos_of_ne_zero hzero),
          List.map_cons, ← ih hdiv, ← digit_natCast hmod]
        rfl

/-- The negation of the smallest number is the number itself. -/
theorem absolute_ten (hlow : -2 ^ 31 < num) (hhigh : num < 2 ^ 31) :
    absolute num 10 = num.natAbs := by
  rw [absolute]
  by_cases hneg : num < 0
  · rw [if_pos ⟨hneg, rfl⟩, ← BitVec.ofInt_neg, BitVec.toInt_ofInt]
    rw [Int.bmod_eq_of_le] <;> omega
  · rw [if_neg fun h => hneg h.1]
    omega

theorem itoa_ten (hlow : -2 ^ 31 < num) (hhigh : num < 2 ^ 31) (hnum : num ≠ 0) :
    CString.itoa num 10 = (if num < 0 then [45] else []) ++ numeral 10 num.natAbs := by
  have hdigits : itoaDigits 10 32 (absolute num 10) =
      (Nat.digits 10 num.natAbs).map digitChar := by
    have hfuel : num.natAbs < 10 ^ 32 :=
      lt_of_lt_of_le (by omega : num.natAbs < 2 ^ 32) (Nat.pow_le_pow_left (by decide) 32)
    rw [absolute_ten hlow hhigh]
    exact itoaDigits_natCast (by decide) (by decide) hfuel
  rw [itoa_eq_reverse hnum, reversed, hdigits, List.reverse_append, numeral, List.map_reverse]
  by_cases hneg : num < 0
  · rw [if_pos ⟨hneg, rfl⟩, if_pos hneg]
    rfl
  · rw [if_neg fun h => hneg h.1, if_neg hneg]
    rfl

theorem itoa_length_le (hlow : -2 ^ 31 ≤ num) (hhigh : num < 2 ^ 31) :
    (CString.itoa num 10).length ≤ 11 := by
  by_cases hnum : num = 0
  · rw [hnum]
    decide
  · have hword := (-BitVec.ofInt 32 num).toInt_lt
    have hword' := (-BitVec.ofInt 32 num).le_toInt
    have hten : (absolute num 10).natAbs < (10 : Int).natAbs ^ 10 := by
      change (absolute num 10).natAbs < 10000000000
      rw [absolute]
      split <;> omega
    have hdigits := itoaDigits_length_le 32 hten
    rw [itoa_eq_reverse hnum, List.length_reverse, reversed, List.length_append]
    split
    · rw [List.length_singleton]
      omega
    · rw [List.length_nil]
      omega

theorem numeral_figures (n : Nat) : ∀ c ∈ numeral 10 n, IsFigure c := by
  intro c hc
  rcases List.mem_map.mp hc with ⟨d, hd, heq⟩
  rw [← heq]
  exact isFigure_digitChar (Nat.digits_lt_base (by decide) (List.mem_reverse.mp hd))

theorem numeral_ne_nil (hn : n ≠ 0) : numeral 10 n ≠ [] := by
  rw [numeral, ne_eq, List.map_eq_nil_iff, List.reverse_eq_nil_iff]
  exact Nat.digits_ne_nil_iff_ne_zero.mpr hn

theorem itoa_decimal (hlow : -2 ^ 31 < num) (hhigh : num < 2 ^ 31) :
    SignedDecimal (CString.itoa num 10) ∧ atoi (CString.itoa num 10) = num := by
  by_cases hnum : num = 0
  · rw [hnum]
    exact ⟨⟨[48], by decide, by decide, Or.inl rfl⟩, by decide⟩
  · have hnat : num.natAbs ≠ 0 := by omega
    have hlt : ∀ d ∈ (Nat.digits 10 num.natAbs).reverse, d < 10 := by
      intro d hd
      exact Nat.digits_lt_base (by decide) (List.mem_reverse.mp hd)
    have hnone : ∀ c ∈ ([] : List U8).head?, ¬ IsFigure c := fun c hc => by cases hc
    have hvalue := horner_digits 10 num.natAbs
    have hfigures := numeral_figures num.natAbs
    have hne := numeral_ne_nil hnat
    rw [itoa_ten hlow hhigh hnum]
    by_cases hneg : num < 0
    · rw [if_pos hneg, List.singleton_append]
      refine ⟨⟨_, hne, hfigures, Or.inr rfl⟩, ?_⟩
      have hminus := atoi_minus hlt hnone
      rw [List.append_nil, hvalue] at hminus
      rw [numeral, hminus, ← BitVec.ofInt_natCast, ← BitVec.ofInt_neg, BitVec.toInt_ofInt,
        Int.bmod_eq_of_le] <;> omega
    · rw [if_neg hneg, List.nil_append]
      refine ⟨⟨_, hne, hfigures, Or.inl rfl⟩, ?_⟩
      have hds : (Nat.digits 10 num.natAbs).reverse ≠ [] := by
        rw [ne_eq, List.reverse_eq_nil_iff]
        exact Nat.digits_ne_nil_iff_ne_zero.mpr hnat
      have hplus := atoi_figures hds hlt hnone
      rw [List.append_nil, hvalue] at hplus
      rw [numeral, hplus, toInt_ofNat_of_lt (by omega)]
      omega

theorem signedDecimal_nonzero {s : List U8} (h : SignedDecimal s) : (0 : U8) ∉ s := by
  rcases h with ⟨figures, -, hfigures, heq | heq⟩
  · rw [heq]
    exact fun hmem => figure_ne_zero (hfigures 0 hmem) rfl
  · rw [heq, List.mem_cons, not_or]
    exact ⟨by decide, fun hmem => figure_ne_zero (hfigures 0 hmem) rfl⟩

def smallestText : List U8 := [45, 46, 47, 44, 41, 44, 40, 45, 42, 44, 40]

theorem itoa_smallest : CString.itoa (-2 ^ 31) 10 = smallestText := by decide

/-- An array of twelve characters has room for every number. Exactly the smallest number does
not come back. -/
theorem reads_back_iff (num : Int) (str : List U8) (hlow : -2 ^ 31 ≤ num) (hhigh : num < 2 ^ 31)
    (hroom : 12 ≤ str.length) : ReadsBack num str ↔ num ≠ -2 ^ 31 := by
  have hfits : (CString.itoa num 10).length < str.length :=
    lt_of_le_of_lt (itoa_length_le hlow hhigh) hroom
  constructor
  · intro hback hsmallest
    rcases hback with ⟨str', hrun, hdecimal, -⟩
    have hzero : (0 : U8) ∉ CString.itoa num 10 := by
      rw [hsmallest, itoa_smallest]
      decide
    rcases itoa_spec (by decide) hlow hhigh hfits hzero with ⟨str₁, hrun₁, -, htext⟩
    rw [hrun] at hrun₁
    cases hrun₁
    rw [htext, hsmallest, itoa_smallest] at hdecimal
    rcases hdecimal with ⟨figures, -, hfigures, heq | heq⟩
    · exact absurd (hfigures 46 (heq ▸ by decide)) (by decide)
    · rw [smallestText, List.cons.injEq] at heq
      exact absurd (hfigures 46 (heq.2 ▸ by decide)) (by decide)
  · intro hne
    rcases itoa_decimal (lt_of_le_of_ne hlow hne.symm) hhigh with ⟨hdecimal, hvalue⟩
    rcases itoa_spec (by decide) hlow hhigh hfits (signedDecimal_nonzero hdecimal) with
      ⟨str', hrun, -, htext⟩
    refine ⟨str', hrun, by rw [htext]; exact hdecimal, ?_⟩
    rw [← atoi_text, htext, hvalue]

theorem reads_back_iff_minus_120 : ReadsBack (-120) (List.replicate 12 0) :=
  (reads_back_iff (-120) (List.replicate 12 0) (by decide) (by decide) (by decide)).mpr (by decide)

/-- For the smallest number the string has no figures, and `atoi` reads 0 from it. -/
theorem smallest_not_read_back :
    (∃ str', itoa (-2 ^ 31) (List.replicate 12 0) 10 = .ok str' ∧ text str' = smallestText ∧
      atoi str' = 0) ∧
    ¬ ReadsBack (-2 ^ 31) (List.replicate 12 0) := by
  have hzero : (0 : U8) ∉ CString.itoa (-2 ^ 31) 10 := by
    rw [itoa_smallest]
    decide
  have hfits : (CString.itoa (-2 ^ 31) 10).length < (List.replicate 12 (0 : U8)).length := by
    rw [itoa_smallest]
    decide
  rcases itoa_spec (by decide) (by decide) (by decide) hfits hzero with ⟨str', hrun, -, htext⟩
  rw [itoa_smallest] at htext
  have hvalue : atoi str' = 0 := by
    rw [← atoi_text, htext]
    decide
  refine ⟨⟨str', hrun, htext, hvalue⟩, ?_⟩
  intro hback
  rcases hback with ⟨str₁, hrun₁, -, hvalue₁⟩
  rw [hrun] at hrun₁
  cases hrun₁
  rw [hvalue] at hvalue₁
  exact absurd hvalue₁ (by decide)

end RoundTrip

end Mpx.Itoa
