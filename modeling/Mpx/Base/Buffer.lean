import Mathlib.Data.List.Basic

/-! Copies into a buffer of fixed length, one element at a time. -/

namespace Mpx.Buffer

variable {ε α : Type*}

def copyInto (fault : ε) : List α → Nat → List α → Except ε (List α)
  | out, _, [] => .ok out
  | out, off, c :: src =>
      if off < out.length then copyInto fault (out.set off c) (off + 1) src else .error fault

section Copy

variable {fault : ε} {out src : List α} {off : Nat}

theorem take_set_succ (c : α) (hoff : off < out.length) :
    (out.set off c).take (off + 1) = out.take off ++ [c] := by
  have hlength : (out.take off).length = off := List.length_take_of_le (Nat.le_of_lt hoff)
  rw [List.take_set, List.take_add_one, List.getElem?_eq_getElem hoff, Option.toList_some,
    List.set_append_right _ _ (Nat.le_of_eq hlength), hlength, Nat.sub_self]
  rfl

theorem copyInto_fits (hfit : off + src.length ≤ out.length) :
    copyInto fault out off src = .ok (out.take off ++ src ++ out.drop (off + src.length)) := by
  induction src generalizing out off with
  | nil => rw [copyInto, List.append_nil, List.length_nil, Nat.add_zero, List.take_append_drop]
  | cons c src ih =>
      rw [List.length_cons] at hfit
      have hoff : off < out.length := by omega
      rw [copyInto, if_pos hoff, ih (by rw [List.length_set]; omega), take_set_succ c hoff,
        List.drop_set_of_lt (by omega), List.length_cons]
      have hend : off + 1 + src.length = off + (src.length + 1) := by omega
      rw [hend, List.append_assoc _ [c], List.singleton_append]

theorem copyInto_overruns (hoff : off ≤ out.length) (hlong : out.length < off + src.length) :
    copyInto fault out off src = .error fault := by
  induction src generalizing out off with
  | nil => exact absurd hlong (by rw [List.length_nil]; omega)
  | cons c src ih =>
      rw [copyInto]
      split
      · next hroom =>
        rw [List.length_cons] at hlong
        exact ih (by rw [List.length_set]; omega) (by rw [List.length_set]; omega)
      · rfl

end Copy

end Mpx.Buffer
