import Mpx.Kernel.Cleanup

/-! The name that `pcb_setup` copies, and the array into which it copies it. -/

namespace Mpx

open Memory PointerList Procs Run CString

/-- The indices that the copy loop of `pcb_setup` writes: the final zero is copied too. -/
def copiedIndices (name : List U8) : List Nat := List.range (strlen name + 1)

/-- The name lies in the array `name` of the PCB: the loop writes nothing behind the array, and
in the array stands the whole name with its final zero. -/
structure NameFits (name stored : List U8) : Prop where
  inside : ∀ i ∈ copiedIndices name, i < maxNameLen
  whole : text name ++ [0] <+: stored.take maxNameLen
  length : strlen (stored.take maxNameLen) = strlen name
  equal : strcmp (stored.take maxNameLen) name = 0

section Field

variable {σ : Type} {F : HeapFunctions σ} {C : Console σ} {K K' : Kernel σ} {p : U32}
  {procClass priority : Int} {n old : List U8}

theorem copyName_eq (n old : List U8) :
    copyName n old = (text n ++ [0]) ++ old.drop (strlen n + 1) := by
  rw [copyName, List.append_assoc]
  rfl

theorem copied_length (n : List U8) : (text n ++ [0]).length = strlen n + 1 := by
  rw [List.length_append, strlen_eq_length]
  rfl

theorem copyName_getElem (n old : List U8) (i : Nat) :
    (copyName n old)[i]? =
      if i ∈ copiedIndices n then (text n ++ [0])[i]? else old[i]? := by
  rw [copyName_eq, List.getElem?_append, copied_length]
  by_cases hi : i < strlen n + 1
  · have hmem : i ∈ copiedIndices n := List.mem_range.mpr hi
    rw [if_pos hi, if_pos hmem]
  · have hmem : i ∉ copiedIndices n := fun h => hi (List.mem_range.mp h)
    rw [if_neg hi, if_neg hmem, List.getElem?_drop]
    congr 1
    omega

theorem nameFits_of_short (hlength : strlen n < maxNameLen) (old : List U8) :
    NameFits n (copyName n old) := by
  have htake : (copyName n old).take maxNameLen =
      text n ++ 0 :: (old.drop (strlen n + 1)).take (maxNameLen - (strlen n + 1)) := by
    rw [copyName_eq, List.take_append, copied_length, List.take_of_length_le]
    · rw [List.append_assoc]
      rfl
    · rw [copied_length]
      omega
  have htext : text ((copyName n old).take maxNameLen) = text n := by
    rw [htake]
    exact text_append_zero n _
  constructor
  · intro i hi
    rw [copiedIndices, List.mem_range] at hi
    omega
  · rw [htake]
    exact ⟨_, List.append_assoc _ _ _⟩
  · rw [strlen_eq_length, strlen_eq_length, htext]
  · rw [strcmp_eq_zero_iff]
    exact htext

/-- The names that fit their array are those shorter than it: the check lets one more pass. -/
theorem stored_name_fits_iff (hC : Talks F C)
    (hrun : pcbSetup F C K (some n) procClass priority = .ok (p, K')) (hp : p ≠ 0) :
    NameFits n (K'.procs.pcbs p).name ↔ strlen n < maxNameLen := by
  constructor
  · intro hfits
    apply hfits.inside
    rw [copiedIndices, List.mem_range]
    exact Nat.lt_succ_self _
  · intro hlength
    rcases pcbSetup_name hC hrun hp with ⟨m, old, hm, -, -, hstored⟩
    cases hm
    rw [hstored]
    exact nameFits_of_short hlength old

theorem stored_name_fits_iff_two_letters : ∃ p K', p ≠ 0 ∧
    pcbSetup studentHeap silentConsole bootKernel (some [65, 65]) userProc 1 = .ok (p, K') ∧
    NameFits [65, 65] (K'.procs.pcbs p).name := by
  rcases bootKernel_setUp with ⟨p, K', hp, hsetup, -⟩
  exact ⟨p, K', hp, hsetup,
    (stored_name_fits_iff (silentConsole_talks _) hsetup hp).mpr (by decide)⟩

/-- A name of 50 letters is accepted, and its final zero is written behind the array. -/
theorem longest_name_overflows : ∃ p K', p ≠ 0 ∧
    pcbSetup studentHeap silentConsole bootKernel (some (List.replicate 50 65)) userProc 1 =
      .ok (p, K') ∧ ¬ NameFits (List.replicate 50 65) (K'.procs.pcbs p).name := by
  have hcompute : (pcbSetup studentHeap silentConsole bootKernel (some (List.replicate 50 65))
      userProc 1).map (fun r => decide (r.1 ≠ 0)) = .ok true := by
    decide +kernel
  rcases of_map_ok hcompute with ⟨⟨p, K'⟩, hsetup, hp⟩
  refine ⟨p, K', of_decide_eq_true hp, hsetup, ?_⟩
  intro hfits
  have hlast := hfits.inside 50 (by decide)
  exact absurd hlast (by decide)

end Field

end Mpx
