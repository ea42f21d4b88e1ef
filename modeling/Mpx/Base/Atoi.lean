import Mpx.Base.Numeral
import Mpx.Base.Offset
import Mpx.Base.Words

/-! What `atoi` of `lib/stdlib.c` reads from a numeral. -/

namespace Mpx.CString

open Memory Numeral

section Atoi

variable {c : U8} {s rest : List U8} {ds : List Nat} {r : Nat} {res : U32}

theorem figure_ne_zero (h : IsFigure c) : c ≠ 0 := by
  intro hzero
  rw [hzero] at h
  exact absurd h (by decide)

theorem ne_zero_of_isspace (h : isspace c = true) : c ≠ 0 := by
  intro hzero
  rw [hzero] at h
  exact absurd h (by decide)

theorem isspace_figure (h : IsFigure c) : isspace c = false := by
  rw [isFigure_iff] at h
  rw [← Bool.not_eq_true]
  intro hspace
  have hmem : c ∈ ([32, 10, 13, 12, 9, 11] : List U8) := of_decide_eq_true hspace
  simp only [List.mem_cons, List.not_mem_nil, or_false] at hmem
  rcases hmem with heq | heq | heq | heq | heq | heq <;> rw [heq] at h <;> exact absurd h (by decide)

theorem figure_no_sign (h : IsFigure c) : ¬ (c = 45 ∨ c = 43) := by
  intro hsign
  rcases hsign with heq | heq <;> rw [heq] at h <;> exact absurd h (by decide)

theorem dropWhile_text (s : List U8) : (text s).dropWhile isspace = text (s.dropWhile isspace) := by
  induction s with
  | nil => rfl
  | cons c s ih =>
      by_cases hspace : isspace c = true
      · rw [text_cons (ne_zero_of_isspace hspace), List.dropWhile_cons_of_pos hspace, ih,
          List.dropWhile_cons_of_pos hspace]
      · rw [List.dropWhile_cons_of_neg hspace]
        by_cases hc : c = 0
        · rw [hc, text_zero]
          rfl
        · rw [text_cons hc, List.dropWhile_cons_of_neg hspace]

theorem headD_text (s : List U8) : (text s).headD 0 = s.headD 0 := by
  cases s with
  | nil => rfl
  | cons c s =>
      by_cases hc : c = 0
      · rw [hc, text_zero]
        rfl
      · rw [text_cons hc]
        rfl

theorem atoiDigits_text (res : U32) (s : List U8) : atoiDigits res (text s) = atoiDigits res s := by
  induction s generalizing res with
  | nil => rfl
  | cons c s ih =>
      by_cases hc : c = 0
      · rw [hc, text_zero]
        rfl
      · rw [text_cons hc, atoiDigits, atoiDigits, ih]

theorem atoi_text (s : List U8) : atoi (text s) = atoi s := by
  rw [atoi, atoi, dropWhile_text, headD_text]
  generalize s.dropWhile isspace = s
  cases s with
  | nil => rfl
  | cons c s =>
      by_cases hc : c = 0
      · rw [hc, text_zero]
        rfl
      · have htail := atoiDigits_text 0 s
        have hall := atoiDigits_text 0 (c :: s)
        rw [text_cons hc] at hall
        rw [text_cons hc, List.tail_cons, List.tail_cons]
        congr 1
        split <;> split <;> simp only [htail, hall]

theorem atoiDigits_cons (hc : IsFigure c) (res : U32) (s : List U8) :
    atoiDigits res (c :: s) = atoiDigits (res * 10 + (c.zeroExtend 32 - 48)) s := if_pos hc

theorem atoiDigits_spec (hds : ∀ d ∈ ds, d < 10) (hrest : ∀ c ∈ rest.head?, ¬ IsFigure c) :
    atoiDigits (BitVec.ofNat 32 r) (ds.map digitChar ++ rest) =
      BitVec.ofNat 32 (horner 10 r ds) := by
  induction ds generalizing r with
  | nil =>
      cases rest with
      | nil => rfl
      | cons c rest => exact if_neg (hrest c rfl)
  | cons d ds ih =>
      have hd : d < 10 := hds d List.mem_cons_self
      have hvalue : BitVec.ofNat 32 r * 10 + ((digitChar d).zeroExtend 32 - 48) =
          BitVec.ofNat 32 (r * 10 + d) := by
        have hchar : (digitChar d).zeroExtend 32 = BitVec.ofNat 32 (48 + d) := by
          apply BitVec.eq_of_toNat_eq
          rw [BitVec.zeroExtend, BitVec.toNat_setWidth, digitChar_toNat (by omega), if_pos hd,
            BitVec.toNat_ofNat]
        rw [hchar]
        apply BitVec.eq_of_toNat_eq
        have hten : (10 : U32).toNat = 10 := rfl
        have hzero : (48 : U32).toNat = 48 := rfl
        simp only [BitVec.toNat_add, BitVec.toNat_sub, BitVec.toNat_mul, BitVec.toNat_ofNat, hten,
          hzero]
        omega
      rw [List.map_cons, List.cons_append, atoiDigits_cons (isFigure_digitChar hd), hvalue,
        ih fun e he => hds e (List.mem_cons_of_mem d he), horner_cons]

theorem atoi_unsigned (hhead : ∀ c ∈ s.head?, isspace c = false ∧ ¬ (c = 45 ∨ c = 43)) :
    atoi s = (atoiDigits 0 s).toInt := by
  cases s with
  | nil => rfl
  | cons c s =>
      rcases hhead c rfl with ⟨hspace, hsign⟩
      rw [atoi, List.dropWhile_cons_of_neg (by rw [hspace]; simp), List.headD_cons, if_neg hsign,
        if_neg fun h => hsign (Or.inl h)]

theorem atoi_plus (s : List U8) : atoi (43 :: s) = (atoiDigits 0 s).toInt := by
  rw [atoi, List.dropWhile_cons_of_neg (by decide)]
  rfl

theorem atoi_negative (s : List U8) : atoi (45 :: s) = (-atoiDigits 0 s).toInt := by
  rw [atoi, List.dropWhile_cons_of_neg (by decide)]
  rfl

theorem atoi_figures (hne : ds ≠ []) (hds : ∀ d ∈ ds, d < 10)
    (hrest : ∀ c ∈ rest.head?, ¬ IsFigure c) :
    atoi (ds.map digitChar ++ rest) = (BitVec.ofNat 32 (horner 10 0 ds)).toInt := by
  have hhead : ∀ c ∈ (ds.map digitChar ++ rest).head?, isspace c = false ∧ ¬ (c = 45 ∨ c = 43) := by
    cases ds with
    | nil => exact absurd rfl hne
    | cons d ds =>
        intro c hc
        cases hc
        have hd : IsFigure (digitChar d) := isFigure_digitChar (hds d List.mem_cons_self)
        exact ⟨isspace_figure hd, figure_no_sign hd⟩
  calc atoi (ds.map digitChar ++ rest) = (atoiDigits 0 (ds.map digitChar ++ rest)).toInt :=
        atoi_unsigned hhead
    _ = (BitVec.ofNat 32 (horner 10 0 ds)).toInt :=
        congrArg BitVec.toInt (atoiDigits_spec hds hrest)

theorem atoi_minus (hds : ∀ d ∈ ds, d < 10) (hrest : ∀ c ∈ rest.head?, ¬ IsFigure c) :
    atoi (45 :: (ds.map digitChar ++ rest)) =
      (-BitVec.ofNat 32 (horner 10 0 ds)).toInt :=
  calc atoi (45 :: (ds.map digitChar ++ rest)) =
        (-atoiDigits 0 (ds.map digitChar ++ rest)).toInt := atoi_negative _
    _ = (-BitVec.ofNat 32 (horner 10 0 ds)).toInt :=
        congrArg (fun res : U32 => (-res).toInt) (atoiDigits_spec hds hrest)

theorem atoi_two {a b : Nat} (ha : a < 10) (hb : b < 10) :
    atoi [digitChar a, digitChar b, 0] = (10 * a + b : Nat) := by
  have hds : ∀ d ∈ [a, b], d < 10 := by
    intro d hd
    rw [List.mem_cons, List.mem_singleton] at hd
    omega
  have hrest : ∀ c ∈ ([0] : List U8).head?, ¬ IsFigure c := by
    intro c hc
    cases hc
    decide
  have hvalue := atoi_figures (List.cons_ne_nil a [b]) hds hrest
  have hhorner : horner 10 0 [a, b] = 10 * a + b := by
    simp only [horner, List.foldl_cons, List.foldl_nil]
    omega
  rw [hhorner, toInt_ofNat_of_lt (by omega)] at hvalue
  exact hvalue

def spelled (d : Nat) (s : List U8) : Nat :=
  horner 10 0 (d :: (s.takeWhile fun c => IsFigure c).map fun c => c.toNat - 48) % 2 ^ 32

theorem takeWhile_figures (s : List U8) :
    s.takeWhile (fun c => IsFigure c) =
      ((s.takeWhile fun c => IsFigure c).map fun c => c.toNat - 48).map digitChar := by
  rw [List.map_map]
  conv_lhs => rw [← List.map_id (s.takeWhile fun c => IsFigure c)]
  apply List.map_congr_left
  intro c hc
  have hfigure := List.mem_takeWhile_imp hc
  exact (of_decide_eq_true hfigure : IsFigure c).eq_digitChar

theorem figureValues_lt (s : List U8) :
    ∀ d ∈ (s.takeWhile fun c => IsFigure c).map (fun c => c.toNat - 48), d < 10 := by
  intro d hd
  rcases List.mem_map.mp hd with ⟨c, hc, heq⟩
  have hmem := List.mem_takeWhile_imp hc
  have hfigure := isFigure_iff.mp (of_decide_eq_true hmem)
  omega

theorem head_behind_figures (s : List U8) :
    ∀ c ∈ (s.dropWhile fun c => IsFigure c).head?, ¬ IsFigure c := by
  intro c hc
  have hhead := List.head?_dropWhile_not (fun c => decide (IsFigure c)) s
  rw [Option.mem_def.mp hc] at hhead
  simpa using hhead

theorem atoi_spelled {d : Nat} (hd : d < 10) (s : List U8) :
    atoi (digitChar d :: s) = (BitVec.ofNat 32 (spelled d s)).toInt := by
  have hsplit := List.takeWhile_append_dropWhile (p := fun c => decide (IsFigure c)) (l := s)
  have hds : ∀ e ∈ d :: (s.takeWhile fun c => IsFigure c).map (fun c => c.toNat - 48),
      e < 10 := List.forall_mem_cons.mpr ⟨hd, figureValues_lt s⟩
  have hrest := head_behind_figures s
  have hvalue := atoi_figures (List.cons_ne_nil _ _) hds hrest
  rw [List.map_cons, ← takeWhile_figures, List.cons_append, hsplit] at hvalue
  have hword : ∀ n, BitVec.ofNat 32 n = BitVec.ofNat 32 (n % 2 ^ 32) := by
    intro n
    apply BitVec.eq_of_toNat_eq
    rw [BitVec.toNat_ofNat, BitVec.toNat_ofNat, Nat.mod_mod]
  rw [hvalue, spelled, ← hword]

end Atoi

/-- `s` begins with the number `v`, in 32 bits: blanks, a sign or none, and all figures up to
the first other character, which may be none. -/
def LeadingNumber (s : List U8) (v : U32) : Prop :=
  ∃ (blanks sign : List U8) (ds : List Nat) (rest : List U8), s = blanks ++ (sign ++ (ds.map digitChar ++ rest)) ∧
    (∀ c ∈ blanks, isspace c = true) ∧ (∀ d ∈ ds, d < 10) ∧ (∀ c ∈ rest.head?, ¬ IsFigure c) ∧
    ((sign = [] ∧ (∀ c ∈ (ds.map digitChar ++ rest).head?, isspace c = false ∧ ¬ (c = 45 ∨ c = 43)) ∧
        v = BitVec.ofNat 32 (horner 10 0 ds)) ∨
      (sign = [43] ∧ v = BitVec.ofNat 32 (horner 10 0 ds)) ∨
      (sign = [45] ∧ v = -BitVec.ofNat 32 (horner 10 0 ds)))

section Leading

variable {s : List U8} {v : U32}

theorem atoi_blanks {blanks : List U8} (hblanks : ∀ c ∈ blanks, isspace c = true) (s : List U8) :
    atoi (blanks ++ s) = atoi s := by
  rw [atoi, atoi, List.dropWhile_append_of_pos hblanks]

theorem LeadingNumber.atoi_eq (h : LeadingNumber s v) : atoi s = v.toInt := by
  rcases h with ⟨blanks, sign, ds, rest, hs, hblanks, hds, hrest, hsign⟩
  have hdigits : atoiDigits 0 (ds.map digitChar ++ rest) = BitVec.ofNat 32 (horner 10 0 ds) :=
    atoiDigits_spec hds hrest
  rw [hs, atoi_blanks hblanks]
  rcases hsign with ⟨hsign, hhead, hv⟩ | ⟨hsign, hv⟩ | ⟨hsign, hv⟩
  · rw [hsign, List.nil_append, atoi_unsigned hhead, hdigits, hv]
  · rw [hsign, List.singleton_append, atoi_plus, hdigits, hv]
  · rw [hsign, List.singleton_append, atoi_negative, hdigits, hv]

theorem figures_split (s : List U8) :
    ∃ (ds : List Nat) (rest : List U8), s = ds.map digitChar ++ rest ∧ (∀ d ∈ ds, d < 10) ∧
      ∀ c ∈ rest.head?, ¬ IsFigure c := by
  have hsplit := List.takeWhile_append_dropWhile (p := fun c => decide (IsFigure c)) (l := s)
  rw [takeWhile_figures] at hsplit
  exact ⟨_, _, hsplit.symm, figureValues_lt s, head_behind_figures s⟩

theorem leadingNumber_total (s : List U8) : ∃ v, LeadingNumber s v := by
  have hsplit := List.takeWhile_append_dropWhile (p := isspace) (l := s)
  have hblanks : ∀ c ∈ s.takeWhile isspace, isspace c = true := fun c hc => List.mem_takeWhile_imp hc
  have hstart := List.head?_dropWhile_not isspace s
  generalize s.takeWhile isspace = blanks at hsplit hblanks
  generalize s.dropWhile isspace = t at hsplit hstart
  by_cases hsigned : ∃ c u, t = c :: u ∧ (c = 45 ∨ c = 43)
  · rcases hsigned with ⟨c, u, ht, hc⟩
    rcases figures_split u with ⟨ds, rest, hu, hds, hrest⟩
    rw [ht, hu] at hsplit
    rcases hc with hc | hc
    · rw [hc] at hsplit
      exact ⟨_, blanks, [45], ds, rest, hsplit.symm, hblanks, hds, hrest, Or.inr (Or.inr ⟨rfl, rfl⟩)⟩
    · rw [hc] at hsplit
      exact ⟨_, blanks, [43], ds, rest, hsplit.symm, hblanks, hds, hrest, Or.inr (Or.inl ⟨rfl, rfl⟩)⟩
  · rcases figures_split t with ⟨ds, rest, ht, hds, hrest⟩
    have hhead : ∀ c ∈ t.head?, isspace c = false ∧ ¬ (c = 45 ∨ c = 43) := by
      intro c hc
      rw [Option.mem_def.mp hc] at hstart
      rcases List.head?_eq_some_iff.mp hc with ⟨u, hu⟩
      exact ⟨by simpa using hstart, fun hsign => hsigned ⟨c, u, hu, hsign⟩⟩
    rw [ht] at hsplit hhead
    exact ⟨_, blanks, [], ds, rest, hsplit.symm, hblanks, hds, hrest, Or.inl ⟨rfl, hhead, rfl⟩⟩

/-- `atoi` returns the number with which the string begins. -/
theorem atoi_eq_iff : atoi s = v.toInt ↔ LeadingNumber s v := by
  constructor
  · intro h
    rcases leadingNumber_total s with ⟨w, hw⟩
    rw [hw.atoi_eq] at h
    rwa [← BitVec.eq_of_toInt_eq h]
  · exact LeadingNumber.atoi_eq

end Leading

end Mpx.CString
