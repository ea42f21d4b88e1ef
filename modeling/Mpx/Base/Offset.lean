import Mathlib.Data.List.GetD
import Mathlib.Data.List.TakeWhile
import Mpx.Base.CString

/-! Pointers into an array of characters, as offsets. -/

namespace Mpx.CString

open Memory

/-- `*p`. Behind its last byte a string reads as zero. -/
def deref (s : List U8) (p : Nat) : U8 := s.getD p 0

theorem lt_length_of_deref {s : List U8} {p : Nat} (h : deref s p ≠ 0) : p < s.length := by
  by_contra hge
  exact h (List.getD_eq_default _ _ (by omega))

structure Spells (b u : List U8) (o : Nat) : Prop where
  char : ∀ i (hi : i < u.length), o ≤ i → deref b i = u[i]
  stop : deref b u.length = 0
  nonzero : (0 : U8) ∉ u

section Spells

variable {b u s : List U8} {i o a : Nat}

theorem spells_text (s : List U8) : Spells s (text s) 0 := by
  induction s with
  | nil => exact ⟨fun i hi => absurd hi (Nat.not_lt_zero i), rfl, List.not_mem_nil⟩
  | cons c s ih =>
      by_cases hc : c = 0
      · rw [hc, text_zero]
        exact ⟨fun i hi => absurd hi (Nat.not_lt_zero i), rfl, List.not_mem_nil⟩
      · rw [text_cons hc]
        refine ⟨?_, ih.stop, ?_⟩
        · intro i hi ho
          cases i with
          | zero => rfl
          | succ i => exact ih.char i (Nat.lt_of_succ_lt_succ hi) (Nat.zero_le i)
        · rw [List.mem_cons, not_or]
          exact ⟨fun hzero => hc hzero.symm, ih.nonzero⟩

theorem Spells.mono (h : Spells b u o) (ha : o ≤ a) : Spells b u a :=
  ⟨fun i hi hle => h.char i hi (ha.trans hle), h.stop, h.nonzero⟩

theorem Spells.ne_zero (h : Spells b u o) (ho : o ≤ i) (hi : i < u.length) :
    deref b i ≠ 0 := by
  rw [h.char i hi ho]
  intro hzero
  exact h.nonzero (hzero ▸ List.getElem_mem hi)

theorem Spells.lt_of_ne_zero (h : Spells b u o) (hi : i ≤ u.length) (hne : deref b i ≠ 0) :
    i < u.length := by
  apply lt_of_le_of_ne hi
  intro heq
  rw [heq] at hne
  exact hne h.stop

theorem deref_set (hi : i < b.length) (c : U8) (a : Nat) :
    deref (b.set i c) a = if a = i then c else deref b a := by
  by_cases ha : a = i
  · rw [if_pos ha, ha, deref, List.getD_eq_getElem?_getD, List.getElem?_set_self hi]
    rfl
  · rw [if_neg ha, deref, deref, List.getD_eq_getElem?_getD, List.getD_eq_getElem?_getD,
      List.getElem?_set_ne (Ne.symm ha)]

theorem Spells.set (h : Spells b u o) (ho : o ≤ i) (hi : i < u.length) :
    Spells (b.set i 0) u (i + 1) := by
  have hlt : i < b.length := lt_length_of_deref (h.ne_zero ho hi)
  refine ⟨?_, ?_, h.nonzero⟩
  · intro a ha hle
    rw [deref_set hlt, if_neg (by omega)]
    exact h.char a ha (by omega)
  · rw [deref_set hlt, if_neg (by omega)]
    exact h.stop

theorem text_drop {t : List U8} (hchar : ∀ i (hi : i < t.length), deref b (o + i) = t[i])
    (hstop : deref b (o + t.length) = 0) (hzero : (0 : U8) ∉ t) : text (b.drop o) = t := by
  induction t generalizing o with
  | nil =>
      cases hb : b.drop o with
      | nil => rfl
      | cons c rest =>
          have hc : c = 0 := by
            have hat : (b.drop o)[0]? = some c := by rw [hb]; rfl
            rw [List.getElem?_drop] at hat
            rw [← hstop, deref, List.getD_eq_getElem?_getD, List.length_nil, hat]
            rfl
          rw [hc, text_zero]
  | cons c t ih =>
      rw [List.mem_cons, not_or] at hzero
      have hhead : deref b o = c := hchar 0 (Nat.zero_lt_succ _)
      have hlt : o < b.length := by
        apply lt_length_of_deref
        rw [hhead]
        exact fun hc => hzero.1 hc.symm
      have hget : b[o] = c := by
        rw [← hhead, deref, List.getD_eq_getElem _ _ hlt]
      rw [List.drop_eq_getElem_cons hlt, hget, text_cons fun hc => hzero.1 hc.symm]
      congr 1
      apply ih
      · intro i hi
        have hat := hchar (i + 1) (Nat.succ_lt_succ hi)
        rw [List.getElem_cons_succ] at hat
        rw [← hat]
        congr 1
        omega
      · rw [← hstop, List.length_cons]
        congr 1
        omega
      · exact hzero.2

theorem text_eq_self (hs : (0 : U8) ∉ s) : text s = s := by
  apply List.takeWhile_eq_self_iff.mpr
  intro c hc
  exact decide_eq_true fun hzero => hs (hzero ▸ hc)

end Spells

end Mpx.CString
