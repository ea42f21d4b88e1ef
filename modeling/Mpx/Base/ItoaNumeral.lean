import Mpx.Base.Itoa
import Mpx.Base.Run

/-! For a number that is not negative, `itoa` of `lib/stdlib.c` writes the numeral of the number
in the base and nothing behind it. -/

namespace Mpx.Itoa

open Memory CString Numeral

structure CanonicalDigits (base n : Nat) (ds : List Nat) : Prop where
  nonempty : ds ≠ []
  lt_base : ∀ d ∈ ds, d < base
  leading : ds.head? = some 0 → ds = [0]
  value : Nat.ofDigits base ds.reverse = n

def CanonicalNumeral (base n : Nat) (s : List U8) : Prop :=
  ∃ ds, CanonicalDigits base n ds ∧ s = ds.map digitChar

section Digits

variable {b n k : Nat}

theorem canonicalDigits_zero (hb : 2 ≤ b) : CanonicalDigits b 0 [0] where
  nonempty := List.cons_ne_nil 0 []
  lt_base := by
    intro d hd
    rw [List.mem_singleton] at hd
    omega
  leading := fun _ => rfl
  value := rfl

theorem canonicalDigits_digits (hb : 2 ≤ b) (hn : n ≠ 0) :
    CanonicalDigits b n (Nat.digits b n).reverse where
  nonempty := by
    rw [ne_eq, List.reverse_eq_nil_iff]
    exact Nat.digits_ne_nil_iff_ne_zero.mpr hn
  lt_base := fun d hd => Nat.digits_lt_base hb (List.mem_reverse.mp hd)
  leading := by
    intro hhead
    rw [List.head?_reverse, List.getLast?_eq_some_getLast (Nat.digits_ne_nil_iff_ne_zero.mpr hn),
      Option.some.injEq] at hhead
    exact absurd hhead (Nat.getLast_digit_ne_zero b hn)
  value := by rw [List.reverse_reverse, Nat.ofDigits_digits]

theorem digitChar_ne_zero {d : Nat} (hd : d < 36) : digitChar d ≠ 0 := by
  intro hzero
  have hval := congrArg BitVec.toNat hzero
  rw [digitChar_toNat hd] at hval
  split at hval <;> exact absurd hval (by simp)

theorem CanonicalNumeral.nonzero {s : List U8} (h : CanonicalNumeral b n s) (hb : b ≤ 36) :
    (0 : U8) ∉ s := by
  rcases h with ⟨ds, hds, hs⟩
  intro hmem
  rw [hs] at hmem
  rcases List.mem_map.mp hmem with ⟨d, hd, hzero⟩
  exact digitChar_ne_zero (lt_of_lt_of_le (hds.lt_base d hd) hb) hzero

theorem absolute_natCast (n : Nat) (base : Int) : absolute n base = n :=
  if_neg fun h => absurd h.1 (by omega)

theorem itoa_natCast (hn : n ≠ 0) (base : Int) :
    CString.itoa n base = (itoaDigits base 32 n).reverse := by
  rw [itoa_eq_reverse (by omega), reversed, if_neg (fun h => absurd h.1 (by omega)),
    List.append_nil, absolute_natCast]

theorem lt_base_pow (hb : 2 ≤ b) (hn : n < 2 ^ 31) (hk : 31 ≤ k) : n < b ^ k :=
  calc n < 2 ^ 31 := hn
    _ ≤ 2 ^ k := Nat.pow_le_pow_right (by decide) hk
    _ ≤ b ^ k := Nat.pow_le_pow_left hb k

theorem canonical_itoa (hb : 2 ≤ b) (hb' : b ≤ 36) (hn : n < 2 ^ 31) :
    CanonicalNumeral b n (CString.itoa n b) := by
  by_cases hzero : n = 0
  · rw [hzero]
    exact ⟨[0], canonicalDigits_zero hb, rfl⟩
  · refine ⟨_, canonicalDigits_digits hb hzero, ?_⟩
    rw [itoa_natCast hzero, itoaDigits_natCast hb hb' (lt_base_pow hb hn (by decide)),
      List.map_reverse]

theorem itoa_natCast_length_le (hb : 2 ≤ b) (hn : n < 2 ^ 31) :
    (CString.itoa n b).length ≤ 31 := by
  by_cases hzero : n = 0
  · rw [hzero]
    exact (by decide : 1 ≤ 31)
  · rw [itoa_natCast hzero, List.length_reverse]
    exact itoaDigits_length_le 32 (lt_base_pow hb hn le_rfl)

end Digits

section Behind

variable {base num : Int} {str str' : List U8} {c : U8} {b n i j k : Nat}

theorem put_behind (h : put str i c = .ok str') (hk : i < k) : deref str' k = deref str k := by
  rw [put] at h
  by_cases hi : i < str.length
  · rw [if_pos hi] at h
    cases h
    rw [deref_set hi, if_neg (by omega)]
  · rw [if_neg hi] at h
    cases h

theorem digitLoop_behind (h : digitLoop base num i str = .ok (j, str')) :
    i ≤ j ∧ ∀ k, j ≤ k → deref str' k = deref str k := by
  fun_induction digitLoop base num i str with
  | case1 =>
      cases h
      exact ⟨le_rfl, fun _ _ => rfl⟩
  | case2 => cases h
  | case3 num i str hnum hfault hi ih =>
      rcases ih h with ⟨hle, hbehind⟩
      refine ⟨by omega, ?_⟩
      intro k hk
      rw [hbehind k hk, deref_set hi, if_neg (by omega)]
  | case4 => cases h

theorem itoa_behind (hb : 2 ≤ b) (hn : n < 2 ^ 31)
    (hroom : (CString.itoa n b).length < str.length) (hrun : itoa n str b = .ok str')
    (hk : (CString.itoa n b).length < k) : deref str' k = deref str k := by
  by_cases hzero : n = 0
  · rw [hzero] at hk hrun
    rcases Run.of_bind_ok hrun with ⟨str₁, hput, hput'⟩
    rw [put_behind hput' hk, put_behind hput (lt_trans Nat.zero_lt_one hk)]
  · have hnum : (n : Int) ≠ 0 := by omega
    have hfuel : (n : Int).natAbs < (b : Int).natAbs ^ 32 := lt_base_pow hb hn (by decide)
    rw [itoa_natCast hzero, List.length_reverse] at hroom hk
    have hfits : 0 + (itoaDigits b 32 n).length ≤ str.length := by omega
    rcases digitLoop_spec (by omega) hfuel hfits with ⟨str₁, hloop, hlength, -, -⟩
    rw [Nat.zero_add] at hloop
    have hsign : ∀ i (s : List U8), writeSign n b i s = .ok (i, s) :=
      fun i s => if_neg fun h => absurd h.1 (by omega)
    rw [itoa, if_neg hnum, absolute_natCast, hloop] at hrun
    simp only [Run.ok_bind, hsign] at hrun
    rcases Run.of_bind_ok hrun with ⟨str₂, hput, hfinish⟩
    cases hfinish
    have hstop : (itoaDigits b 32 n).length - 1 < str₂.length := by
      rw [put_ok (by omega)] at hput
      cases hput
      rw [List.length_set]
      omega
    calc deref (reverseLoop 0 ((itoaDigits b 32 n).length - 1) str₂) k = deref str₂ k := by
          rw [(reverseLoop_spec 0 hstop).2, if_neg (by omega)]
      _ = deref str₁ k := put_behind hput hk
      _ = deref str k := (digitLoop_behind hloop).2 k (by omega)

end Behind

/-- For every number of an `int` that is not negative and every base the string is the
canonical numeral, and 33 bytes are enough. -/
theorem itoa_canonical_numeral (num : Int) (str : List U8) (base : Int) (hlow : 0 ≤ num)
    (hhigh : num < 2 ^ 31) (hbase : 2 ≤ base) (hbase' : base ≤ 36) (hroom : 33 ≤ str.length) :
    ∃ str', itoa num str base = .ok str' ∧
      CanonicalNumeral base.toNat num.toNat (text str') ∧
      deref str' (text str').length = 0 ∧ (text str').length + 1 ≤ 33 ∧
      str'.length = str.length ∧ ∀ k, (text str').length < k → deref str' k = deref str k := by
  rcases Int.eq_ofNat_of_zero_le hlow with ⟨n, hn⟩
  rcases Int.eq_ofNat_of_zero_le (le_trans (by decide) hbase) with ⟨b, hb⟩
  rw [hn] at hlow hhigh ⊢
  rw [hb] at hbase hbase' ⊢
  have hb₂ : 2 ≤ b := by omega
  have hb₃₆ : b ≤ 36 := by omega
  have hnumeral := canonical_itoa hb₂ hb₃₆ (n := n) (by omega)
  have hlength := itoa_natCast_length_le hb₂ (n := n) (by omega)
  have hfits : (CString.itoa n b).length < str.length := by omega
  rcases itoa_spec hbase (by omega) hhigh hfits (hnumeral.nonzero hb₃₆) with
    ⟨str', hrun, hlength', htext⟩
  refine ⟨str', hrun, ?_, (spells_text str').stop, ?_, hlength', ?_⟩
  · rw [htext]
    exact hnumeral
  · rw [htext]
    omega
  · intro k hk
    rw [htext] at hk
    exact itoa_behind hb₂ (by omega) hfits hrun hk

theorem itoa_canonical_numeral_largest :
    ∃ str', itoa (2 ^ 31 - 1) (List.replicate 33 0) 2 = .ok str' ∧
      CanonicalNumeral 2 (2 ^ 31 - 1) (text str') ∧ deref str' (text str').length = 0 ∧
      (text str').length + 1 ≤ 33 ∧ str'.length = 33 ∧
      ∀ k, (text str').length < k → deref str' k = deref (List.replicate 33 0) k :=
  itoa_canonical_numeral (2 ^ 31 - 1) (List.replicate 33 0) 2 (by decide) (by decide) (by decide)
    (by decide) (by decide)

end Mpx.Itoa
