import Mpx.User.Clock

/-! `set_date` and `get_date` of `user/commhand.c`. -/

namespace Mpx

open Memory CString Numeral Run

def dateSetMsg : String := "\nDate set successfully. \n"

def toBcd (v : Int) : U8 := BitVec.ofInt 8 (Int.tdiv v 10) <<< 4 ||| BitVec.ofInt 8 (Int.tmod v 10)

def inputDate (trimmed : List U8) : Int × Int × Int :=
  let dayStr := [deref trimmed 0, deref trimmed 1, 0]
  let monthStr := [deref trimmed 3, deref trimmed 4, 0]
  let yearStr := [deref trimmed 6, deref trimmed 7, 0]
  (atoi dayStr, atoi monthStr, atoi yearStr)

def ValidDate (date : Int × Int × Int) : Prop :=
  ¬ (date.1 < 1 ∨ date.1 > 31 ∨ date.2.1 < 1 ∨ date.2.1 > 12 ∨ date.2.2 < 0 ∨ date.2.2 > 99)

instance (date : Int × Int × Int) : Decidable (ValidDate date) :=
  inferInstanceAs (Decidable (¬ _))

/-- `set_date` when `serial_poll` has returned `nread`; the text that is written last. Interrupts
are off until one of the exits. -/
def setDate (nread : Int) (buf : List U8) (c : Clock) : Except Fault (String × Clock) :=
  let c := c.cli
  if nread = bufferOverflow then .ok ("\nInput buffer overflow. \n", c.sti)
  else
    match (strtok (buf.set nread.toNat 0) whitespace).1 with
    | none => .error .nullPointer
    | some trimmed =>
        if strlen trimmed ≠ 8 ∨ deref trimmed 2 ≠ 47 ∨ deref trimmed 5 ≠ 47 then
          .ok ("\nInvalid date format. Please use DD/MM/YY. \n", c.sti)
        else
          let date := inputDate trimmed
          if ¬ ValidDate date then .ok ("\nInvalid date. Please check the values. \n", c.sti)
          else
            let c := (c.select DAY).store (toBcd date.1)
            let c := (c.select MONTH).store (toBcd date.2.1)
            let c := (c.select YEAR).store (toBcd date.2.2)
            .ok (dateSetMsg, c.sti)

def dateStr (day month year : U8) : List U8 :=
  let digits := fun v : U8 => [((v >>> 4) &&& 0x0F) + 48, (v &&& 0x0F) + 48]
  10 :: digits day ++ 47 :: digits month ++ 47 :: digits year ++ [10]

def getDate (c : Clock) : List U8 :=
  let c := c.select DAY
  let day := c.data
  let c := c.select MONTH
  let month := c.data
  let c := c.select YEAR
  let year := c.data
  dateStr day month year

/-- The call returns, and a call that stores no date leaves the registers alone and interrupts
enabled. -/
def RejectsSafely (nread : Int) (buf : List U8) (c : Clock) : Prop :=
  ∃ msg c', setDate nread buf c = .ok (msg, c') ∧
    (msg ≠ dateSetMsg → c'.regs = c.regs ∧ c'.interrupts = true)

section Reject

variable {nread : Int} {buf s d t : List U8} {c : Clock}

theorem strtok_none_iff : (strtok s d).1 = none ↔ ∀ c ∈ text s, c ∈ d := by
  have htake : (((text s).dropWhile fun c => c ∈ d).takeWhile fun c => c ∉ d) = [] ↔
      ∀ c ∈ text s, c ∈ d := by
    induction text s with
    | nil => simp
    | cons c s ih =>
        by_cases hc : c ∈ d
        · simpa [hc] using ih
        · simp [hc]
  rw [strtok]
  split
  · next hnil => exact iff_of_true rfl (htake.mp hnil)
  · next hnil => exact iff_of_false (by simp) fun hall => hnil (htake.mpr hall)

theorem strtok_clean (h : (strtok s d).1 = some t) : ∀ c ∈ t, c ≠ 0 ∧ c ∉ d := by
  rw [strtok] at h
  split at h
  · cases h
  · cases h
    intro c hc
    have hclean := List.mem_takeWhile_imp hc
    have htext : c ∈ text s := (List.dropWhile_sublist _).subset ((List.takeWhile_sublist _).subset hc)
    exact ⟨fun hzero => (spells_text s).nonzero (hzero ▸ htext), of_decide_eq_true hclean⟩

/-- A blank line has no token, and `strlen` is called on NULL. Every other line is handled
safely. -/
theorem rejects_safely_iff (nread : Int) (buf : List U8) (c : Clock) :
    RejectsSafely nread buf c ↔
      nread = bufferOverflow ∨ ∃ a ∈ text (buf.set nread.toNat 0), a ∉ whitespace := by
  rw [RejectsSafely, setDate]
  by_cases hoverflow : nread = bufferOverflow
  · rw [if_pos hoverflow]
    exact iff_of_true ⟨_, _, rfl, fun _ => ⟨rfl, rfl⟩⟩ (Or.inl hoverflow)
  · rw [if_neg hoverflow, or_iff_right hoverflow]
    cases htoken : (strtok (buf.set nread.toNat 0) whitespace).1 with
    | none =>
        apply iff_of_false
        · intro hsafe
          rcases hsafe with ⟨msg, c', hrun, -⟩
          cases hrun
        · intro hline
          rcases hline with ⟨a, ha, hblank⟩
          exact hblank (strtok_none_iff.mp htoken a ha)
    | some trimmed =>
        have hline : ∃ a ∈ text (buf.set nread.toNat 0), a ∉ whitespace := by
          by_contra hall
          have hnone := strtok_none_iff.mpr fun a ha => by_contra fun hblank => hall ⟨a, ha, hblank⟩
          rw [hnone] at htoken
          cases htoken
        refine iff_of_true ?_ hline
        by_cases hformat : strlen trimmed ≠ 8 ∨ deref trimmed 2 ≠ 47 ∨ deref trimmed 5 ≠ 47
        · simp only [if_pos hformat]
          exact ⟨_, _, rfl, fun _ => ⟨rfl, rfl⟩⟩
        · simp only [if_neg hformat]
          by_cases hvalid : ValidDate (inputDate trimmed)
          · simp only [not_not.mpr hvalid, if_false]
            exact ⟨_, _, rfl, fun hmsg => absurd rfl hmsg⟩
          · simp only [hvalid, not_false_iff, if_true]
            exact ⟨_, _, rfl, fun _ => ⟨rfl, rfl⟩⟩

/-- An empty line, as `serial_poll` returns it when only the enter key is hit. -/
theorem blank_line_faults :
    (serialPoll 0x8000 12 [13] (Poll.start ⟨fun _ => 0⟩)).1.value = some 1 ∧
    setDate 1 [13, 0] stoppedClock = .error .nullPointer ∧
    ¬ RejectsSafely 1 [13, 0] stoppedClock := by
  have hrun : setDate 1 [13, 0] stoppedClock = .error .nullPointer := rfl
  refine ⟨by decide, hrun, ?_⟩
  intro hsafe
  rcases hsafe with ⟨msg, c', hreturn, -⟩
  rw [hrun] at hreturn
  cases hreturn

end Reject

def WellFormedDate (t : List U8) : Prop :=
  ∃ d₁ d₂ m₁ m₂ y₁ y₂ : Fin 10,
    t = [digitChar d₁, digitChar d₂, 47, digitChar m₁, digitChar m₂, 47, digitChar y₁,
      digitChar y₂] ∧
    (1 ≤ 10 * d₁.val + d₂ ∧ 10 * d₁.val + d₂ ≤ 31) ∧
    (1 ≤ 10 * m₁.val + m₂ ∧ 10 * m₁.val + m₂ ≤ 12)

/-- What is stored is a well-formed date, and it is read back; and every well-formed date is
stored. -/
def KeepsGrammar (nread : Int) (buf : List U8) (c : Clock) : Prop :=
  (∀ c', setDate nread buf c = .ok (dateSetMsg, c') →
    ∃ t, (strtok (buf.set nread.toNat 0) whitespace).1 = some t ∧ WellFormedDate t ∧
      getDate c' = 10 :: t ++ [10]) ∧
  ((∃ t, (strtok (buf.set nread.toNat 0) whitespace).1 = some t ∧ WellFormedDate t) →
    ∃ c', setDate nread buf c = .ok (dateSetMsg, c'))

/-- Two characters that are no number of two digits but are read as a number from 1 to 9:
a digit and no digit behind it, or a digit behind a plus sign, a vertical tab or a form feed. -/
def Sloppy (x y : U8) : Prop :=
  (IsFigure x ∧ x ≠ 48 ∧ ¬ IsFigure y) ∨ (x ∈ ([43, 11, 12] : List U8) ∧ IsFigure y ∧ y ≠ 48)

def InRange (high : Nat) (x y : U8) : Prop :=
  IsFigure x ∧ IsFigure y ∧ 1 ≤ 10 * (x.toNat - 48) + (y.toNat - 48) ∧
    10 * (x.toNat - 48) + (y.toNat - 48) ≤ high

/-- A token with the two slashes that is accepted although not all of the others are digits. -/
def LenientDate (t : List U8) : Prop :=
  ∃ d₁ d₂ m₁ m₂ y₁ y₂, t = [d₁, d₂, 47, m₁, m₂, 47, y₁, y₂] ∧
    (InRange 31 d₁ d₂ ∨ Sloppy d₁ d₂) ∧ (InRange 12 m₁ m₂ ∨ Sloppy m₁ m₂) ∧
    ¬ (y₁ = 45 ∧ IsFigure y₂ ∧ y₂ ≠ 48) ∧
    ¬ (∀ a ∈ [d₁, d₂, m₁, m₂, y₁, y₂], IsFigure a)

section Piece

variable {x y : U8} {high : Nat}

theorem figure_digit (hx : IsFigure x) : x = digitChar (x.toNat - 48) ∧ x.toNat - 48 < 10 := by
  refine ⟨hx.eq_digitChar, ?_⟩
  rw [isFigure_iff] at hx
  omega

theorem atoi_figure_figure (hx : IsFigure x) (hy : IsFigure y) :
    atoi [x, y, 0] = (10 * (x.toNat - 48) + (y.toNat - 48) : Nat) := by
  rcases figure_digit hx with ⟨hx', hx''⟩
  rcases figure_digit hy with ⟨hy', hy''⟩
  have hvalue := atoi_two hx'' hy''
  rw [← hx', ← hy'] at hvalue
  exact hvalue

theorem atoi_figure_other (hx : IsFigure x) (hy : ¬ IsFigure y) :
    atoi [x, y, 0] = (x.toNat - 48 : Nat) := by
  rcases figure_digit hx with ⟨hx', hx''⟩
  have hds : ∀ d ∈ [x.toNat - 48], d < 10 := by
    intro d hd
    rw [List.mem_singleton.mp hd]
    exact hx''
  have hrest : ∀ c ∈ ([y, 0] : List U8).head?, ¬ IsFigure c := by
    intro c hc
    cases hc
    exact hy
  have hvalue := atoi_figures (List.cons_ne_nil _ []) hds hrest
  rw [List.map_singleton, ← hx'] at hvalue
  have hhorner : horner 10 0 [x.toNat - 48] = x.toNat - 48 := by
    simp [horner]
  rw [hhorner, toInt_ofNat_of_lt (by omega)] at hvalue
  exact hvalue

theorem figure_no_lead (hx : IsFigure x) : x ∉ ([43, 11, 12] : List U8) ∧ x ≠ 45 := by
  have hnone : ∀ c ∈ ([43, 11, 12, 45] : List U8), ¬ IsFigure c := by decide
  constructor
  · exact fun hlead => hnone x (List.mem_append_left [45] hlead) hx
  · exact fun hminus => hnone 45 (by decide) (hminus ▸ hx)

theorem atoi_lead (y : U8) :
    atoi [43, y, 0] = (if IsFigure y then ((y.toNat - 48 : Nat) : Int) else 0) ∧
    atoi [11, y, 0] = (if IsFigure y then ((y.toNat - 48 : Nat) : Int) else 0) ∧
    atoi [12, y, 0] = (if IsFigure y then ((y.toNat - 48 : Nat) : Int) else 0) ∧
    atoi [45, y, 0] = (if IsFigure y then -((y.toNat - 48 : Nat) : Int) else 0) := by
  have hall : ∀ n < 256,
      atoi [43, BitVec.ofNat 8 n, 0] =
        (if IsFigure (BitVec.ofNat 8 n) then (((BitVec.ofNat 8 n).toNat - 48 : Nat) : Int) else 0) ∧
      atoi [11, BitVec.ofNat 8 n, 0] =
        (if IsFigure (BitVec.ofNat 8 n) then (((BitVec.ofNat 8 n).toNat - 48 : Nat) : Int) else 0) ∧
      atoi [12, BitVec.ofNat 8 n, 0] =
        (if IsFigure (BitVec.ofNat 8 n) then (((BitVec.ofNat 8 n).toNat - 48 : Nat) : Int) else 0) ∧
      atoi [45, BitVec.ofNat 8 n, 0] =
        (if IsFigure (BitVec.ofNat 8 n) then -(((BitVec.ofNat 8 n).toNat - 48 : Nat) : Int)
          else 0) := by
    decide +kernel
  have hy := hall y.toNat y.isLt
  rw [BitVec.ofNat_toNat, BitVec.setWidth_eq] at hy
  exact hy

theorem atoi_other (hx : ¬ IsFigure x) (hlead : x ∉ ([43, 11, 12, 45] : List U8))
    (hblank : x ∉ whitespace) : atoi [x, y, 0] = 0 := by
  simp only [whitespace, List.mem_cons, List.not_mem_nil, or_false, not_or] at hlead hblank
  have hspace : isspace x = false := by
    rw [isspace, decide_eq_false_iff_not]
    simp only [List.mem_cons, List.not_mem_nil, or_false, not_or]
    exact ⟨hblank.2.2.2, hblank.1, hblank.2.1, hlead.2.2.1, hblank.2.2.1, hlead.2.1⟩
  have hhead : ∀ c ∈ [x, y, 0].head?, isspace c = false ∧ ¬ (c = 45 ∨ c = 43) := by
    intro c hc
    cases hc
    exact ⟨hspace, not_or.mpr ⟨hlead.2.2.2, hlead.1⟩⟩
  calc atoi [x, y, 0] = (atoiDigits 0 [x, y, 0]).toInt := atoi_unsigned hhead
    _ = (0 : U32).toInt := congrArg BitVec.toInt (if_neg hx)

theorem piece_cases (hblank : x ∉ whitespace) :
    (IsFigure x ∧ IsFigure y ∧
      atoi [x, y, 0] = (10 * (x.toNat - 48) + (y.toNat - 48) : Nat)) ∨
    (IsFigure x ∧ ¬ IsFigure y ∧ atoi [x, y, 0] = (x.toNat - 48 : Nat)) ∨
    (¬ IsFigure x ∧ x ∈ ([43, 11, 12] : List U8) ∧
      atoi [x, y, 0] = if IsFigure y then ((y.toNat - 48 : Nat) : Int) else 0) ∨
    (¬ IsFigure x ∧ x ∉ ([43, 11, 12] : List U8) ∧
      atoi [x, y, 0] = if x = 45 ∧ IsFigure y then -((y.toNat - 48 : Nat) : Int) else 0) := by
  have hplus : ¬ IsFigure 43 ∧ ¬ IsFigure 11 ∧ ¬ IsFigure 12 ∧ ¬ IsFigure 45 := by decide
  rcases atoi_lead y with ⟨h43, h11, h12, h45⟩
  by_cases hx : IsFigure x
  · by_cases hy : IsFigure y
    · exact Or.inl ⟨hx, hy, atoi_figure_figure hx hy⟩
    · exact Or.inr (Or.inl ⟨hx, hy, atoi_figure_other hx hy⟩)
  · by_cases hlead : x ∈ ([43, 11, 12] : List U8)
    · refine Or.inr (Or.inr (Or.inl ⟨hx, hlead, ?_⟩))
      simp only [List.mem_cons, List.not_mem_nil, or_false] at hlead
      rcases hlead with heq | heq | heq
      · rw [heq, h43]
      · rw [heq, h11]
      · rw [heq, h12]
    · refine Or.inr (Or.inr (Or.inr ⟨hx, hlead, ?_⟩))
      by_cases hminus : x = 45
      · simp only [hminus, true_and]
        exact h45
      · rw [if_neg fun h => hminus h.1]
        apply atoi_other hx _ hblank
        simp only [List.mem_cons, List.not_mem_nil, or_false, not_or] at hlead ⊢
        exact ⟨hlead.1, hlead.2.1, hlead.2.2, hminus⟩

theorem figure_pos_iff (hx : IsFigure x) : 1 ≤ x.toNat - 48 ↔ x ≠ 48 := by
  have hzero : (48 : U8).toNat = 48 := rfl
  rw [isFigure_iff] at hx
  rw [ne_eq, ← BitVec.toNat_inj, hzero]
  omega

theorem accepted_piece_iff (hblank : x ∉ whitespace) (hhigh : 9 ≤ high) :
    (1 ≤ atoi [x, y, 0] ∧ atoi [x, y, 0] ≤ high) ↔ InRange high x y ∨ Sloppy x y := by
  rw [InRange, Sloppy]
  rcases piece_cases (y := y) hblank with
    ⟨hx, hy, hvalue⟩ | ⟨hx, hy, hvalue⟩ | ⟨hx, hlead, hvalue⟩ | ⟨hx, hlead, hvalue⟩
  · have hlead := (figure_no_lead hx).1
    simp only [hvalue, hx, hy, hlead, true_and, not_true_eq_false, and_false, false_and, or_false]
    omega
  · have hlead := (figure_no_lead hx).1
    have hnine := isFigure_iff.mp hx
    simp only [hvalue, hx, hy, hlead, true_and, false_and, and_false, false_or, or_false,
      not_false_eq_true, and_true, ← figure_pos_iff hx]
    omega
  · by_cases hy : IsFigure y
    · have hnine : y.toNat - 48 < 10 := (figure_digit hy).2
      rw [if_pos hy] at hvalue
      simp only [hvalue, hx, hy, hlead, true_and, false_and, false_or, ← figure_pos_iff hy]
      omega
    · rw [if_neg hy] at hvalue
      simp only [hvalue, hx, hy, false_and, and_false, or_false, iff_false]
      omega
  · simp only [hvalue, hx, hlead, false_and, or_false, iff_false]
    split <;> omega

theorem accepted_year_iff (hblank : x ∉ whitespace) :
    (0 ≤ atoi [x, y, 0] ∧ atoi [x, y, 0] ≤ 99) ↔ ¬ (x = 45 ∧ IsFigure y ∧ y ≠ 48) := by
  rcases piece_cases (y := y) hblank with
    ⟨hx, hy, hvalue⟩ | ⟨hx, hy, hvalue⟩ | ⟨hx, hlead, hvalue⟩ | ⟨hx, hlead, hvalue⟩
  · have hminus := (figure_no_lead hx).2
    have hnine := isFigure_iff.mp hx
    have hnine' := isFigure_iff.mp hy
    simp only [hvalue, hminus, false_and, not_false_eq_true, iff_true]
    omega
  · have hnine := isFigure_iff.mp hx
    simp only [hvalue, hy, false_and, and_false, not_false_eq_true, iff_true]
    omega
  · have hminus : x ≠ 45 := by
      intro heq
      rw [heq] at hlead
      exact absurd hlead (by decide)
    simp only [hvalue, hminus, false_and, not_false_eq_true, iff_true]
    split
    · next hy =>
        have hnine := isFigure_iff.mp hy
        omega
    · omega
  · by_cases hminus : x = 45 ∧ IsFigure y
    · rw [hvalue, if_pos hminus, ← figure_pos_iff hminus.2]
      simp only [hminus.1, hminus.2, true_and]
      omega
    · rw [hvalue, if_neg hminus]
      refine iff_of_true (by omega) fun h => hminus ⟨h.1, h.2.1⟩

end Piece

def AcceptedToken (t : List U8) : Prop :=
  ¬ (strlen t ≠ 8 ∨ deref t 2 ≠ 47 ∨ deref t 5 ≠ 47) ∧ ValidDate (inputDate t)

def storedDate (c : Clock) (date : Int × Int × Int) : Clock :=
  let c := (c.cli.select DAY).store (toBcd date.1)
  let c := (c.select MONTH).store (toBcd date.2.1)
  let c := (c.select YEAR).store (toBcd date.2.2)
  c.sti

section Grammar

variable {nread : Int} {buf t : List U8} {c c' : Clock} {a b d₁ d₂ m₁ m₂ y₁ y₂ : U8}

theorem setDate_stored_iff (hread : nread ≠ bufferOverflow) :
    setDate nread buf c = .ok (dateSetMsg, c') ↔
      ∃ t, (strtok (buf.set nread.toNat 0) whitespace).1 = some t ∧ AcceptedToken t ∧
        c' = storedDate c (inputDate t) := by
  have hformatMsg : "\nInvalid date format. Please use DD/MM/YY. \n" ≠ dateSetMsg := by decide
  have hdateMsg : "\nInvalid date. Please check the values. \n" ≠ dateSetMsg := by decide
  rw [setDate, if_neg hread]
  cases (strtok (buf.set nread.toNat 0) whitespace).1 with
  | none => simp
  | some t =>
      simp only [Option.some.injEq, exists_eq_left', AcceptedToken]
      by_cases hformat : strlen t ≠ 8 ∨ deref t 2 ≠ 47 ∨ deref t 5 ≠ 47
      · rw [if_pos hformat]
        apply iff_of_false
        · intro h
          exact hformatMsg (congrArg Prod.fst (Except.ok.inj h))
        · exact fun h => h.1.1 hformat
      · rw [if_neg hformat]
        by_cases hvalid : ValidDate (inputDate t)
        · rw [if_neg (not_not.mpr hvalid)]
          constructor
          · intro h
            exact ⟨⟨hformat, hvalid⟩, (congrArg Prod.snd (Except.ok.inj h)).symm⟩
          · intro h
            rw [h.2]
            rfl
        · rw [if_pos hvalid]
          apply iff_of_false
          · intro h
            exact hdateMsg (congrArg Prod.fst (Except.ok.inj h))
          · exact fun h => hvalid h.1.2

theorem strlen_clean (hclean : ∀ c ∈ t, c ≠ 0 ∧ c ∉ whitespace) : strlen t = t.length := by
  rw [strlen_eq_length, text_eq_self fun hzero => (hclean 0 hzero).1 rfl]

theorem eight_chars (h : t.length = 8) :
    ∃ d₁ d₂ a m₁ m₂ b y₁ y₂, t = [d₁, d₂, a, m₁, m₂, b, y₁, y₂] := by
  match t, h with
  | [d₁, d₂, a, m₁, m₂, b, y₁, y₂], _ => exact ⟨d₁, d₂, a, m₁, m₂, b, y₁, y₂, rfl⟩

theorem validDate_iff (date : Int × Int × Int) : ValidDate date ↔
    (1 ≤ date.1 ∧ date.1 ≤ 31) ∧ (1 ≤ date.2.1 ∧ date.2.1 ≤ 12) ∧
      (0 ≤ date.2.2 ∧ date.2.2 ≤ 99) := by
  rw [ValidDate]
  omega

theorem acceptedToken_iff (hclean : ∀ c ∈ t, c ≠ 0 ∧ c ∉ whitespace) :
    AcceptedToken t ↔ ∃ d₁ d₂ m₁ m₂ y₁ y₂, t = [d₁, d₂, 47, m₁, m₂, 47, y₁, y₂] ∧
      (InRange 31 d₁ d₂ ∨ Sloppy d₁ d₂) ∧ (InRange 12 m₁ m₂ ∨ Sloppy m₁ m₂) ∧
      ¬ (y₁ = 45 ∧ IsFigure y₂ ∧ y₂ ≠ 48) := by
  have hpieces : ∀ d₁ d₂ m₁ m₂ y₁ y₂, t = [d₁, d₂, 47, m₁, m₂, 47, y₁, y₂] →
      (ValidDate (inputDate t) ↔ (InRange 31 d₁ d₂ ∨ Sloppy d₁ d₂) ∧
        (InRange 12 m₁ m₂ ∨ Sloppy m₁ m₂) ∧ ¬ (y₁ = 45 ∧ IsFigure y₂ ∧ y₂ ≠ 48)) := by
    intro d₁ d₂ m₁ m₂ y₁ y₂ heq
    rw [heq] at hclean
    have hinput : inputDate t = (atoi [d₁, d₂, 0], atoi [m₁, m₂, 0], atoi [y₁, y₂, 0]) := by
      rw [heq]
      rfl
    rw [validDate_iff, hinput, ← accepted_piece_iff (hclean d₁ (by simp)).2 (by decide),
      ← accepted_piece_iff (hclean m₁ (by simp)).2 (by decide),
      ← accepted_year_iff (hclean y₁ (by simp)).2]
    rfl
  constructor
  · intro h
    rcases h with ⟨hformat, hvalid⟩
    simp only [not_or, not_not] at hformat
    rcases hformat with ⟨hlength, hslash, hslash'⟩
    rw [strlen_clean hclean] at hlength
    rcases eight_chars hlength with ⟨d₁, d₂, a, m₁, m₂, b, y₁, y₂, heq⟩
    rw [heq] at hslash hslash'
    have ha : a = 47 := hslash
    have hb : b = 47 := hslash'
    rw [ha, hb] at heq
    exact ⟨d₁, d₂, m₁, m₂, y₁, y₂, heq, (hpieces _ _ _ _ _ _ heq).mp hvalid⟩
  · intro h
    rcases h with ⟨d₁, d₂, m₁, m₂, y₁, y₂, heq, hpiece⟩
    refine ⟨?_, (hpieces _ _ _ _ _ _ heq).mpr hpiece⟩
    rw [strlen_clean hclean, heq]
    simp [deref]

theorem bcd_digits {a b : Nat} (ha : a < 10) (hb : b < 10) :
    [((toBcd (10 * a + b : Nat) >>> 4) &&& 0x0F) + 48, (toBcd (10 * a + b : Nat) &&& 0x0F) + 48] =
      [digitChar a, digitChar b] := by
  have hall : ∀ a < 10, ∀ b < 10,
      [((toBcd (10 * a + b : Nat) >>> 4) &&& 0x0F) + 48,
        (toBcd (10 * a + b : Nat) &&& 0x0F) + 48] = [digitChar a, digitChar b] := by
    decide +kernel
  exact hall a ha b hb

theorem getDate_stored (c : Clock) (date : Int × Int × Int) :
    getDate (storedDate c date) = dateStr (toBcd date.1) (toBcd date.2.1) (toBcd date.2.2) := rfl

theorem getDate_digits (c : Clock) (d₁ d₂ m₁ m₂ y₁ y₂ : Fin 10) :
    getDate (storedDate c (inputDate [digitChar d₁, digitChar d₂, 47, digitChar m₁, digitChar m₂,
      47, digitChar y₁, digitChar y₂])) =
      10 :: [digitChar d₁, digitChar d₂, 47, digitChar m₁, digitChar m₂, 47, digitChar y₁,
        digitChar y₂] ++ [10] := by
  have hinput : inputDate [digitChar d₁, digitChar d₂, 47, digitChar m₁, digitChar m₂, 47,
      digitChar y₁, digitChar y₂] = (atoi [digitChar d₁, digitChar d₂, 0],
        atoi [digitChar m₁, digitChar m₂, 0], atoi [digitChar y₁, digitChar y₂, 0]) := rfl
  rw [hinput, atoi_two d₁.isLt d₂.isLt, atoi_two m₁.isLt m₂.isLt, atoi_two y₁.isLt y₂.isLt]
  calc getDate (storedDate c ((10 * d₁.val + d₂.val : Nat), (10 * m₁.val + m₂.val : Nat),
        (10 * y₁.val + y₂.val : Nat))) =
      dateStr (toBcd (10 * d₁.val + d₂.val : Nat)) (toBcd (10 * m₁.val + m₂.val : Nat))
        (toBcd (10 * y₁.val + y₂.val : Nat)) := getDate_stored c _
    _ = 10 :: [digitChar d₁, digitChar d₂] ++ 47 :: [digitChar m₁, digitChar m₂] ++
        47 :: [digitChar y₁, digitChar y₂] ++ [10] := by
      simp only [dateStr, bcd_digits d₁.isLt d₂.isLt, bcd_digits m₁.isLt m₂.isLt,
        bcd_digits y₁.isLt y₂.isLt]

theorem inRange_digits {high : Nat} (a b : Fin 10) :
    InRange high (digitChar a) (digitChar b) ↔ 1 ≤ 10 * a.val + b ∧ 10 * a.val + b ≤ high := by
  have ha := a.isLt
  have hb := b.isLt
  rw [InRange, digitChar_toNat (by omega), digitChar_toNat (by omega), if_pos ha, if_pos hb,
    Nat.add_sub_cancel_left, Nat.add_sub_cancel_left]
  simp only [isFigure_digitChar ha, isFigure_digitChar hb, true_and]

theorem not_sloppy {x y : U8} (hx : IsFigure x) (hy : IsFigure y) : ¬ Sloppy x y := by
  intro hsloppy
  rcases hsloppy with ⟨-, -, hother⟩ | ⟨hlead, -, -⟩
  · exact hother hy
  · exact (figure_no_lead hx).1 hlead

theorem figure_fin {x : U8} (hx : IsFigure x) : ∃ a : Fin 10, x = digitChar a := by
  rcases figure_digit hx with ⟨heq, hlt⟩
  exact ⟨⟨_, hlt⟩, heq⟩

theorem WellFormedDate.accepted (hclean : ∀ c ∈ t, c ≠ 0 ∧ c ∉ whitespace)
    (h : WellFormedDate t) : AcceptedToken t := by
  rcases h with ⟨d₁, d₂, m₁, m₂, y₁, y₂, heq, hday, hmonth⟩
  rw [acceptedToken_iff hclean]
  exact ⟨_, _, _, _, _, _, heq, Or.inl ((inRange_digits d₁ d₂).mpr hday),
    Or.inl ((inRange_digits m₁ m₂).mpr hmonth),
    fun hminus => (figure_no_lead (isFigure_digitChar y₁.isLt)).2 hminus.1⟩

/-- An accepted token is a well-formed date, or one of the lenient ones. -/
theorem accepted_cases (hclean : ∀ c ∈ t, c ≠ 0 ∧ c ∉ whitespace) (h : AcceptedToken t) :
    WellFormedDate t ∨ LenientDate t := by
  rcases (acceptedToken_iff hclean).mp h with ⟨d₁, d₂, m₁, m₂, y₁, y₂, heq, hday, hmonth, hyear⟩
  by_cases hall : ∀ a ∈ [d₁, d₂, m₁, m₂, y₁, y₂], IsFigure a
  · left
    rcases figure_fin (hall d₁ (by simp)) with ⟨a₁, ha₁⟩
    rcases figure_fin (hall d₂ (by simp)) with ⟨a₂, ha₂⟩
    rcases figure_fin (hall m₁ (by simp)) with ⟨b₁, hb₁⟩
    rcases figure_fin (hall m₂ (by simp)) with ⟨b₂, hb₂⟩
    rcases figure_fin (hall y₁ (by simp)) with ⟨e₁, he₁⟩
    rcases figure_fin (hall y₂ (by simp)) with ⟨e₂, he₂⟩
    have hday' := hday.resolve_right (not_sloppy (hall d₁ (by simp)) (hall d₂ (by simp)))
    have hmonth' := hmonth.resolve_right (not_sloppy (hall m₁ (by simp)) (hall m₂ (by simp)))
    rw [ha₁, ha₂, inRange_digits] at hday'
    rw [hb₁, hb₂, inRange_digits] at hmonth'
    exact ⟨a₁, a₂, b₁, b₂, e₁, e₂, by rw [heq, ha₁, ha₂, hb₁, hb₂, he₁, he₂], hday', hmonth'⟩
  · exact Or.inr ⟨d₁, d₂, m₁, m₂, y₁, y₂, heq, hday, hmonth, hyear, hall⟩

theorem LenientDate.accepted (hclean : ∀ c ∈ t, c ≠ 0 ∧ c ∉ whitespace) (h : LenientDate t) :
    AcceptedToken t := by
  rcases h with ⟨d₁, d₂, m₁, m₂, y₁, y₂, heq, hday, hmonth, hyear, -⟩
  exact (acceptedToken_iff hclean).mpr ⟨d₁, d₂, m₁, m₂, y₁, y₂, heq, hday, hmonth, hyear⟩

theorem WellFormedDate.figures (h : WellFormedDate [d₁, d₂, a, m₁, m₂, b, y₁, y₂]) :
    ∀ c ∈ [d₁, d₂, m₁, m₂, y₁, y₂], IsFigure c := by
  rcases h with ⟨a₁, a₂, b₁, b₂, e₁, e₂, heq, -, -⟩
  simp only [List.cons.injEq, and_true] at heq
  rcases heq with ⟨hd₁, hd₂, -, hm₁, hm₂, -, hy₁, hy₂⟩
  simp only [List.mem_cons, List.not_mem_nil, or_false, forall_eq_or_imp, forall_eq, hd₁, hd₂, hm₁,
    hm₂, hy₁, hy₂]
  exact ⟨isFigure_digitChar a₁.isLt, isFigure_digitChar a₂.isLt, isFigure_digitChar b₁.isLt,
    isFigure_digitChar b₂.isLt, isFigure_digitChar e₁.isLt, isFigure_digitChar e₂.isLt⟩

theorem LenientDate.not_wellFormed (h : LenientDate t) : ¬ WellFormedDate t := by
  rcases h with ⟨d₁, d₂, m₁, m₂, y₁, y₂, heq, -, -, -, hother⟩
  intro hdate
  rw [heq] at hdate
  exact hother hdate.figures

/-- The commands keep to the grammar on every line but those that begin with a lenient date. -/
theorem keeps_grammar_iff (buf : List U8) (c : Clock) (hread : nread ≠ bufferOverflow) :
    KeepsGrammar nread buf c ↔
      ∀ t, (strtok (buf.set nread.toNat 0) whitespace).1 = some t → ¬ LenientDate t := by
  constructor
  · intro hkeeps t htoken hlenient
    have hclean := strtok_clean htoken
    have hstored := (setDate_stored_iff hread).mpr
      ⟨t, htoken, hlenient.accepted hclean, (rfl : storedDate c (inputDate t) = _)⟩
    rcases hkeeps.1 _ hstored with ⟨t', htoken', hdate, -⟩
    rw [htoken] at htoken'
    cases htoken'
    exact hlenient.not_wellFormed hdate
  · intro hstrict
    constructor
    · intro c' hstored
      rcases (setDate_stored_iff hread).mp hstored with ⟨t, htoken, haccepted, hc'⟩
      have hdate := (accepted_cases (strtok_clean htoken) haccepted).resolve_right
        (hstrict t htoken)
      refine ⟨t, htoken, hdate, ?_⟩
      rcases hdate with ⟨d₁, d₂, m₁, m₂, y₁, y₂, heq, -, -⟩
      rw [hc', heq]
      exact getDate_digits c d₁ d₂ m₁ m₂ y₁ y₂
    · intro hline
      rcases hline with ⟨t, htoken, hdate⟩
      exact ⟨_, (setDate_stored_iff hread).mpr
        ⟨t, htoken, hdate.accepted (strtok_clean htoken), rfl⟩⟩

theorem keeps_grammar_iff_leap_day :
    KeepsGrammar 9 [50, 57, 47, 48, 50, 47, 50, 52, 10, 0] stoppedClock := by
  have htoken : (strtok (([50, 57, 47, 48, 50, 47, 50, 52, 10, 0] : List U8).set (9 : Int).toNat 0)
      whitespace).1 = some [50, 57, 47, 48, 50, 47, 50, 52] := by decide
  refine (keeps_grammar_iff _ stoppedClock (by decide)).mpr ?_
  intro t ht
  rw [htoken] at ht
  cases ht
  intro hlenient
  rcases hlenient with ⟨d₁, d₂, m₁, m₂, y₁, y₂, heq, -, -, -, hother⟩
  apply hother
  simp only [List.cons.injEq, and_true] at heq
  rcases heq with ⟨hd₁, hd₂, -, hm₁, hm₂, -, hy₁, hy₂⟩
  simp only [List.mem_cons, List.not_mem_nil, or_false, forall_eq_or_imp, forall_eq, ← hd₁, ← hd₂,
    ← hm₁, ← hm₂, ← hy₁, ← hy₂]
  decide

/-- The line 1x/+2/ab is stored as the date 01/02/00. -/
theorem lenient_date_stored :
    (∃ c', setDate 9 [49, 120, 47, 43, 50, 47, 97, 98, 10, 0] stoppedClock =
      .ok (dateSetMsg, c') ∧ getDate c' = [10, 48, 49, 47, 48, 50, 47, 48, 48, 10]) ∧
    ¬ KeepsGrammar 9 [49, 120, 47, 43, 50, 47, 97, 98, 10, 0] stoppedClock := by
  have htoken : (strtok (([49, 120, 47, 43, 50, 47, 97, 98, 10, 0] : List U8).set (9 : Int).toNat 0)
      whitespace).1 = some [49, 120, 47, 43, 50, 47, 97, 98] := by decide
  have haccepted : AcceptedToken [49, 120, 47, 43, 50, 47, 97, 98] :=
    ⟨by decide, by decide⟩
  have hstored := (setDate_stored_iff (c := stoppedClock) (by decide)).mpr
    ⟨_, htoken, haccepted, rfl⟩
  refine ⟨⟨_, hstored, by decide⟩, ?_⟩
  intro hkeeps
  rcases hkeeps.1 _ hstored with ⟨t, htoken', hdate, -⟩
  rw [htoken] at htoken'
  cases htoken'
  exact absurd (hdate.figures 120 (by decide)) (by decide)

end Grammar

end Mpx
