import Mpx.Base.Memory

/-! Null-terminated strings, as the bytes that lie in memory from their address on. -/

namespace Mpx.CString

open Memory

def literal (s : String) : List U8 := s.toList.map fun c => BitVec.ofNat 8 c.toNat

def text (s : List U8) : List U8 := s.takeWhile fun c => c ≠ 0

def strlen : List U8 → Nat
  | [] => 0
  | c :: s => if c = 0 then 0 else strlen s + 1

def strcmp : List U8 → List U8 → Int
  | [], t => 0 - (t.headD 0).toNat
  | c :: s, t =>
      if c ≠ 0 ∧ c = t.headD 0 then strcmp s t.tail else (c.toNat : Int) - (t.headD 0).toNat

/-- The first call of `strtok` on a string: the token, if there is one, and what the
string is afterwards. -/
def strtok (s delims : List U8) : Option (List U8) × List U8 :=
  let token := ((text s).dropWhile fun c => c ∈ delims).takeWhile fun c => c ∉ delims
  if token = [] then (none, text s)
  else (some token, ((text s).takeWhile fun c => c ∈ delims) ++ token)

def isspace (c : U8) : Bool := c ∈ ([32, 10, 13, 12, 9, 11] : List U8)

def atoiDigits (res : U32) : List U8 → U32
  | [] => res
  | c :: s =>
      if 48 ≤ c ∧ c ≤ 57 then atoiDigits (res * 10 + (c.zeroExtend 32 - 48)) s else res

/-- `atoi` of `lib/stdlib.c`. A number that does not fit wraps around. -/
def atoi (s : List U8) : Int :=
  let s := s.dropWhile isspace
  let sign := s.headD 0
  let res := atoiDigits 0 (if sign = 45 ∨ sign = 43 then s.tail else s)
  (if sign = 45 then -res else res).toInt

/-- The digits of `itoa`, the last one first. A 32-bit number has no more than the fuel. -/
def itoaDigits (base : Int) : Nat → Int → List U8
  | 0, _ => []
  | fuel + 1, num =>
      if num = 0 then []
      else
        let rem := Int.tmod num base
        let digit := if rem > 9 then BitVec.ofInt 8 (rem - 10 + 97) else BitVec.ofInt 8 (rem + 48)
        digit :: itoaDigits base fuel (Int.tdiv num base)

def itoa (num base : Int) : List U8 :=
  if num = 0 then [48]
  else
    let isNegative := num < 0 ∧ base = 10
    let digits := itoaDigits base 32 (if isNegative then (-BitVec.ofInt 32 num).toInt else num)
    (digits ++ if isNegative then [45] else []).reverse

example : itoa (-120) 10 = [45, 49, 50, 48] := by decide

section Text

variable {c : U8} {s t : List U8}

@[simp] theorem text_nil : text [] = [] := rfl

@[simp] theorem text_zero (s : List U8) : text (0 :: s) = [] := rfl

theorem text_cons (hc : c ≠ 0) : text (c :: s) = c :: text s :=
  List.takeWhile_cons_of_pos (decide_eq_true hc)

theorem toNat_ne_zero (hc : c ≠ 0) : c.toNat ≠ 0 := fun h => hc (BitVec.eq_of_toNat_eq h)

theorem strlen_eq_length (s : List U8) : strlen s = (text s).length := by
  induction s with
  | nil => rfl
  | cons c s ih =>
      by_cases hc : c = 0
      · rw [hc]
        rfl
      · rw [strlen, if_neg hc, text_cons hc, List.length_cons, ih]

theorem strlen_le_length (s : List U8) : strlen s ≤ s.length := by
  rw [strlen_eq_length]
  exact (List.takeWhile_sublist _).length_le

theorem strtok_length_le (s delims : List U8) : (strtok s delims).2.length ≤ s.length := by
  have htext : (text s).length ≤ s.length := (List.takeWhile_sublist _).length_le
  rw [strtok]
  split
  · exact htext
  · have hsplit := congrArg List.length
      (List.takeWhile_append_dropWhile (p := fun c => c ∈ delims) (l := text s))
    have htoken := (List.takeWhile_sublist (l := (text s).dropWhile fun c => c ∈ delims)
      (fun c => c ∉ delims)).length_le
    simp only [List.length_append] at hsplit ⊢
    omega

theorem text_append_zero (s t : List U8) : text (text s ++ 0 :: t) = text s := by
  induction s with
  | nil => rfl
  | cons c s ih =>
      by_cases hc : c = 0
      · rw [hc]
        rfl
      · rw [text_cons hc, List.cons_append, text_cons hc, ih]

theorem text_ne_nil (h : text s ≠ []) : s.headD 0 ≠ 0 := by
  cases s with
  | nil => exact absurd rfl h
  | cons c s =>
      intro hc
      rw [List.headD_cons] at hc
      rw [hc] at h
      exact h rfl

theorem strcmp_eq_zero_iff (s t : List U8) : strcmp s t = 0 ↔ text s = text t := by
  induction s generalizing t with
  | nil =>
      cases t with
      | nil => simp [strcmp]
      | cons d t =>
          by_cases hd : d = 0
          · rw [hd, text_zero, text_nil]
            simp [strcmp]
          · rw [text_cons hd, text_nil]
            simp [strcmp, toNat_ne_zero hd]
  | cons c s ih =>
      by_cases hc : c = 0
      · rw [hc, text_zero, strcmp, if_neg fun h => h.1 rfl]
        cases t with
        | nil => simp
        | cons d t =>
            by_cases hd : d = 0
            · rw [hd, text_zero]
              simp
            · rw [text_cons hd]
              simp [toNat_ne_zero hd]
      · rw [text_cons hc]
        cases t with
        | nil => simp [strcmp, toNat_ne_zero hc]
        | cons d t =>
            rw [strcmp, List.headD_cons, List.tail_cons]
            by_cases hcd : c = d
            · rw [if_pos ⟨hc, hcd⟩, ih, ← hcd, text_cons hc, List.cons.injEq]
              simp
            · rw [if_neg fun h => hcd h.2]
              have hne : (c.toNat : Int) - d.toNat ≠ 0 := by
                intro h
                exact hcd (BitVec.eq_of_toNat_eq (by omega))
              simp only [hne, false_iff]
              by_cases hd : d = 0
              · rw [hd, text_zero]
                exact List.cons_ne_nil c _
              · rw [text_cons hd, List.cons.injEq]
                exact fun h => hcd h.1

end Text

end Mpx.CString
