import Mathlib.Data.List.Sort
import Mathlib.Tactic

/-! Stable sorting by a key, and that inserting one element after the other does it. -/

namespace Mpx.StableSort

variable {α ι : Type*} [LinearOrder ι] {key : α → ι}

def stableSort (key : α → ι) (xs : List α) : List α :=
  xs.mergeSort fun x y => key x ≤ key y

def withKey (key : α → ι) (k : ι) (xs : List α) : List α := xs.filter fun x => key x = k

theorem mem_withKey {k : ι} {x : α} {xs : List α} : x ∈ withKey key k xs ↔ x ∈ xs ∧ key x = k := by
  simp [withKey]

theorem withKey_append (k : ι) (xs ys : List α) :
    withKey key k (xs ++ ys) = withKey key k xs ++ withKey key k ys :=
  List.filter_append xs ys

theorem withKey_withKey (k : ι) (xs : List α) :
    withKey key k (withKey key k xs) = withKey key k xs := by
  simp [withKey]

theorem withKey_pairwise (k : ι) (xs : List α) :
    (withKey key k xs).Pairwise fun x y => decide (key x ≤ key y) = true := by
  apply List.pairwise_of_forall_mem_list
  intro x hx y hy
  rw [mem_withKey] at hx hy
  rw [hx.2, hy.2]
  exact decide_eq_true le_rfl

theorem le_trans_key (x y z : α) (hxy : decide (key x ≤ key y) = true)
    (hyz : decide (key y ≤ key z) = true) : decide (key x ≤ key z) = true := by
  rw [decide_eq_true_iff] at hxy hyz ⊢
  exact hxy.trans hyz

theorem le_total_key (x y : α) : (decide (key x ≤ key y) || decide (key y ≤ key x)) = true := by
  simpa using le_total (key x) (key y)

theorem stableSort_perm (xs : List α) : (stableSort key xs).Perm xs :=
  List.mergeSort_perm xs _

theorem stableSort_sorted (xs : List α) :
    (stableSort key xs).Pairwise fun x y => key x ≤ key y := by
  have h := List.pairwise_mergeSort (@le_trans_key α ι _ key) le_total_key xs
  exact h.imp fun hxy => of_decide_eq_true hxy

theorem stableSort_withKey (k : ι) (xs : List α) :
    withKey key k (stableSort key xs) = withKey key k xs := by
  have hsub : (withKey key k xs).Sublist (stableSort key xs) :=
    List.sublist_mergeSort le_trans_key le_total_key (withKey_pairwise k xs) List.filter_sublist
  have hfilter : (withKey key k xs).Sublist (withKey key k (stableSort key xs)) := by
    rw [← withKey_withKey]
    exact hsub.filter _
  have hlength : (withKey key k (stableSort key xs)).length = (withKey key k xs).length :=
    ((stableSort_perm xs).filter _).length_eq
  exact (hfilter.eq_of_length hlength.symm).symm

/-- A sorted list is known by the elements that it has for each key. -/
theorem sorted_ext {xs ys : List α} (hxs : xs.Pairwise fun x y => key x ≤ key y)
    (hys : ys.Pairwise fun x y => key x ≤ key y)
    (hsame : ∀ k, withKey key k xs = withKey key k ys) : xs = ys := by
  have hmem : ∀ x, x ∈ xs ↔ x ∈ ys := by
    intro x
    have h := congrArg (x ∈ ·) (hsame (key x))
    simpa [mem_withKey] using h
  induction xs generalizing ys with
  | nil =>
      cases ys with
      | nil => rfl
      | cons y ys => exact absurd ((hmem y).mpr List.mem_cons_self) List.not_mem_nil
  | cons x xs ih =>
      cases ys with
      | nil => exact absurd ((hmem x).mp List.mem_cons_self) List.not_mem_nil
      | cons y ys =>
          rcases List.pairwise_cons.mp hxs with ⟨hx, hxs⟩
          rcases List.pairwise_cons.mp hys with ⟨hy, hys⟩
          have hkey : key x = key y := by
            apply le_antisymm
            · rcases List.mem_cons.mp ((hmem y).mpr List.mem_cons_self) with heq | hin
              · rw [heq]
              · exact hx y hin
            · rcases List.mem_cons.mp ((hmem x).mp List.mem_cons_self) with heq | hin
              · rw [heq]
              · exact hy x hin
          have hfirst := hsame (key x)
          simp only [withKey, List.filter_cons, hkey, decide_true, if_true,
            List.cons.injEq] at hfirst
          have hrest : ∀ k, withKey key k xs = withKey key k ys := by
            intro k
            by_cases hk : key y = k
            · rw [← hk]
              exact hfirst.2
            · have h := hsame k
              simpa [withKey, List.filter_cons, hkey, hk] using h
          have htail : ∀ z, z ∈ xs ↔ z ∈ ys := by
            intro z
            have h := congrArg (z ∈ ·) (hrest (key z))
            simpa [mem_withKey] using h
          rw [hfirst.1, ih hxs hys hrest htail]

theorem orderedInsert_split {xs : List α} (c : α) (h : xs.Pairwise fun x y => key x ≤ key y) :
    ∃ front back, xs = front ++ back ∧
      xs.orderedInsert (fun x y => key x < key y) c = front ++ c :: back ∧
      (∀ x ∈ front, key x ≤ key c) ∧ ∀ y ∈ back, key c < key y := by
  induction xs with
  | nil => exact ⟨[], [], rfl, rfl, by simp, by simp⟩
  | cons x xs ih =>
      rcases List.pairwise_cons.mp h with ⟨hx, hxs⟩
      by_cases hlt : key c < key x
      · refine ⟨[], x :: xs, rfl, List.orderedInsert_cons_of_le _ _ hlt, by simp, ?_⟩
        intro y hy
        rcases List.mem_cons.mp hy with rfl | hy
        · exact hlt
        · exact lt_of_lt_of_le hlt (hx y hy)
      · rcases ih hxs with ⟨front, back, hsplit, hinsert, hfront, hback⟩
        refine ⟨x :: front, back, by rw [hsplit, List.cons_append], ?_, ?_, hback⟩
        · rw [List.cons_append, ← hinsert]
          exact List.orderedInsert_of_not_le _ _ hlt
        · intro y hy
          rcases List.mem_cons.mp hy with rfl | hy
          · exact not_lt.mp hlt
          · exact hfront y hy

theorem orderedInsert_sorted {xs : List α} (c : α) (h : xs.Pairwise fun x y => key x ≤ key y) :
    (xs.orderedInsert (fun x y => key x < key y) c).Pairwise fun x y => key x ≤ key y := by
  rcases orderedInsert_split c h with ⟨front, back, rfl, hinsert, hfront, hback⟩
  rw [List.pairwise_append] at h
  rw [hinsert, List.pairwise_append, List.pairwise_cons]
  refine ⟨h.1, ⟨fun y hy => (hback y hy).le, h.2.1⟩, ?_⟩
  intro x hx y hy
  rcases List.mem_cons.mp hy with rfl | hy
  · exact hfront x hx
  · exact h.2.2 x hx y hy

theorem orderedInsert_place_iff {front back : List α} {c : α} (hc : c ∉ front ++ back)
    (h : (front ++ back).Pairwise fun x y => key x ≤ key y) :
    (front ++ back).orderedInsert (fun x y => key x < key y) c = front ++ c :: back ↔
      (∀ x ∈ front, key x ≤ key c) ∧ ∀ y ∈ back, key c < key y := by
  constructor
  · intro hplace
    rcases orderedInsert_split c h with ⟨front', back', hsplit, hinsert, hfront, hback⟩
    have hnew : c ∉ front' ++ back' := hsplit ▸ hc
    rw [List.mem_append, not_or] at hnew
    rw [hinsert, List.append_cons_inj_of_notMem hnew.1 hnew.2] at hplace
    rw [← hplace.1, ← hplace.2.2]
    exact ⟨hfront, hback⟩
  · rintro ⟨hfront, hback⟩
    clear hc h
    induction front with
    | nil =>
        cases back with
        | nil => rfl
        | cons y back => exact List.orderedInsert_cons_of_le _ _ (hback y List.mem_cons_self)
    | cons x front ih =>
        have hx : ¬ key c < key x := not_lt.mpr (hfront x List.mem_cons_self)
        have hrest := ih fun y hy => hfront y (List.mem_cons_of_mem _ hy)
        calc (x :: (front ++ back)).orderedInsert (fun x y => key x < key y) c
            = x :: (front ++ back).orderedInsert (fun x y => key x < key y) c :=
              List.orderedInsert_of_not_le _ _ hx
          _ = x :: (front ++ c :: back) := congrArg (List.cons x) hrest

theorem orderedInsert_withKey {xs : List α} (c : α) (k : ι)
    (h : xs.Pairwise fun x y => key x ≤ key y) :
    withKey key k (xs.orderedInsert (fun x y => key x < key y) c) =
      withKey key k xs ++ withKey key k [c] := by
  rcases orderedInsert_split c h with ⟨front, back, rfl, hinsert, -, hback⟩
  rw [hinsert, List.append_cons, withKey_append, withKey_append, withKey_append, List.append_assoc,
    List.append_assoc]
  congr 1
  by_cases hk : key c = k
  · have hempty : withKey key k back = [] := by
      apply List.filter_eq_nil_iff.mpr
      intro y hy
      have hlt := hback y hy
      simp only [decide_eq_true_eq]
      intro heq
      rw [hk, heq] at hlt
      exact absurd hlt (lt_irrefl k)
    rw [hempty, List.append_nil, List.nil_append]
  · have hempty : withKey key k [c] = [] := by simp [withKey, hk]
    rw [hempty, List.append_nil, List.nil_append]

theorem stableSort_concat (xs : List α) (c : α) :
    stableSort key (xs ++ [c]) =
      (stableSort key xs).orderedInsert (fun x y => key x < key y) c := by
  apply sorted_ext (stableSort_sorted _) (orderedInsert_sorted c (stableSort_sorted xs))
  intro k
  rw [stableSort_withKey, orderedInsert_withKey c k (stableSort_sorted xs), stableSort_withKey,
    withKey_append]

theorem stableSort_append (xs ys : List α) :
    stableSort key (stableSort key xs ++ ys) = stableSort key (xs ++ ys) := by
  apply sorted_ext (stableSort_sorted _) (stableSort_sorted _)
  intro k
  rw [stableSort_withKey, stableSort_withKey, withKey_append, withKey_append, stableSort_withKey]

theorem stableSort_of_sorted {xs : List α} (h : xs.Pairwise fun x y => key x ≤ key y) :
    stableSort key xs = xs :=
  sorted_ext (stableSort_sorted xs) h fun k => stableSort_withKey k xs

end Mpx.StableSort
