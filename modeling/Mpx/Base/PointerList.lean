import Mathlib.Data.List.Nodup
import Mathlib.Data.List.Sort
import Mathlib.Logic.Function.Basic
import Mathlib.Tactic

/-! Null-terminated lists that are threaded through a `next` pointer. -/

namespace Mpx.PointerList

variable {P : Type*} {null : P}

/-- Following `next` from `p` visits exactly the cells of the list, then `null`. -/
def IsList (null : P) (next : P → P) : P → List P → Prop
  | p, [] => p = null
  | p, x :: xs => p = x ∧ x ≠ null ∧ IsList null next (next x) xs

instance IsList.decidable [DecidableEq P] (null : P) (next : P → P) :
    ∀ (p : P) (xs : List P), Decidable (IsList null next p xs)
  | p, [] => inferInstanceAs (Decidable (p = null))
  | p, x :: xs =>
      have := IsList.decidable null next (next x) xs
      inferInstanceAs (Decidable (p = x ∧ x ≠ null ∧ IsList null next (next x) xs))

/-- The cells on the way from `p` to `null`, also where the way does not end. -/
inductive Reaches (null : P) (next : P → P) : P → P → Prop
  | here {p : P} (hne : p ≠ null) : Reaches null next p p
  | step {p x : P} (hne : p ≠ null) (hrest : Reaches null next (next p) x) :
      Reaches null next p x

section Shape

variable {next next' : P → P} {p : P} {xs ys : List P}

theorem isList_nil : IsList null next p [] ↔ p = null := Iff.rfl

theorem isList_cons {x : P} :
    IsList null next p (x :: xs) ↔ p = x ∧ x ≠ null ∧ IsList null next (next x) xs :=
  Iff.rfl

theorem isList_null : IsList null next null xs ↔ xs = [] := by
  cases xs with
  | nil => simp [isList_nil]
  | cons x xs =>
      simp only [isList_cons, reduceCtorEq, iff_false]
      rintro ⟨heq, hne, -⟩
      exact hne heq.symm

theorem IsList.unique (hxs : IsList null next p xs) (hys : IsList null next p ys) :
    xs = ys := by
  induction xs generalizing p ys with
  | nil =>
      rw [isList_nil] at hxs
      rw [hxs] at hys
      exact (isList_null.mp hys).symm
  | cons x xs ih =>
      obtain ⟨rfl, hne, hxs⟩ := hxs
      cases ys with
      | nil => exact absurd hys hne
      | cons y ys =>
          obtain ⟨rfl, -, hys⟩ := hys
          rw [ih hxs hys]

theorem IsList.suffix {x : P} (h : IsList null next p (xs ++ x :: ys)) :
    IsList null next x (x :: ys) := by
  induction xs generalizing p with
  | nil => exact ⟨rfl, h.2.1, h.2.2⟩
  | cons y xs ih => exact ih h.2.2

theorem IsList.next_suffix {x : P} (h : IsList null next p (xs ++ x :: ys)) :
    IsList null next (next x) ys := h.suffix.2.2

theorem IsList.nodup (h : IsList null next p xs) : xs.Nodup := by
  induction xs generalizing p with
  | nil => exact List.nodup_nil
  | cons x xs ih =>
      refine List.nodup_cons.mpr ⟨?_, ih h.2.2⟩
      intro hmem
      obtain ⟨as, bs, rfl⟩ := List.append_of_mem hmem
      have hself : IsList null next x (x :: (as ++ x :: bs)) := ⟨rfl, h.2.1, h.2.2⟩
      have heq := congrArg List.length (hself.unique h.2.2.suffix)
      simp only [List.length_cons, List.length_append] at heq
      omega

theorem IsList.ne_null {x : P} (h : IsList null next p xs) (hmem : x ∈ xs) : x ≠ null := by
  obtain ⟨as, bs, rfl⟩ := List.append_of_mem hmem
  exact h.suffix.2.1

theorem not_reaches_null : ¬ Reaches null next null p := by
  intro h
  cases h with
  | here hne => exact hne rfl
  | step hne _ => exact hne rfl

theorem Reaches.trans {x y : P} (h : Reaches null next p x) (h' : Reaches null next x y) :
    Reaches null next p y := by
  induction h with
  | here _ => exact h'
  | step hne _ ih => exact Reaches.step hne (ih h')

theorem IsList.reaches_iff {x : P} (h : IsList null next p xs) :
    Reaches null next p x ↔ x ∈ xs := by
  constructor
  · intro hreach
    induction hreach generalizing xs with
    | here hne =>
        cases xs with
        | nil => exact absurd h hne
        | cons y ys => exact h.1 ▸ List.mem_cons_self
    | step hne hrest ih =>
        cases xs with
        | nil => exact absurd h hne
        | cons y ys =>
            obtain ⟨rfl, -, htail⟩ := h
            exact List.mem_cons_of_mem _ (ih htail)
  · intro hmem
    induction xs generalizing p with
    | nil => exact absurd hmem List.not_mem_nil
    | cons y ys ih =>
        obtain ⟨rfl, hne, htail⟩ := h
        rcases List.mem_cons.mp hmem with rfl | hrest
        · exact Reaches.here hne
        · exact Reaches.step hne (ih htail hrest)

/-- A change of cells that are not on the way from `p` brings no new ones onto it. -/
theorem Reaches.congr {x : P} (h : Reaches null next' p x)
    (hagree : ∀ y, Reaches null next p y → next' y = next y) : Reaches null next p x := by
  induction h with
  | here hne => exact Reaches.here hne
  | step hne hrest ih =>
      rw [hagree _ (Reaches.here hne)] at ih
      exact Reaches.step hne (ih fun y hy => hagree y (Reaches.step hne hy))

theorem Reaches.of_agree {x : P} (h : Reaches null next p x)
    (hagree : ∀ y, Reaches null next p y → next' y = next y) : Reaches null next' p x := by
  induction h with
  | here hne => exact Reaches.here hne
  | step hne hrest ih =>
      apply Reaches.step hne
      rw [hagree _ (Reaches.here hne)]
      exact ih fun y hy => hagree y (Reaches.step hne hy)

theorem IsList.congr (h : IsList null next p xs) (hagree : ∀ x ∈ xs, next' x = next x) :
    IsList null next' p xs := by
  induction xs generalizing p with
  | nil => exact h
  | cons x xs ih =>
      refine ⟨h.1, h.2.1, ?_⟩
      rw [hagree x List.mem_cons_self]
      exact ih h.2.2 fun y hy => hagree y (List.mem_cons_of_mem _ hy)

theorem IsList.next_injective {x y : P} (h : IsList null next p xs) (hx : x ∈ xs) (hy : y ∈ xs)
    (heq : next x = next y) : x = y := by
  have hnodup := h.nodup
  rcases List.append_of_mem hx with ⟨as, bs, hsplit⟩
  rcases List.append_of_mem hy with ⟨cs, ds, hsplit'⟩
  rw [hsplit] at h
  have hbs := h.next_suffix
  rw [← hsplit, hsplit'] at h
  have hds := h.next_suffix
  rw [heq] at hbs
  have hsame := hbs.unique hds
  rw [hsplit, hsame] at hsplit'
  have hfront := List.append_inj_right' hsplit' rfl
  exact (List.cons.inj hfront).1

theorem IsList.next_ne_first {x : P} (h : IsList null next p xs) (hx : x ∈ xs) : next x ≠ p := by
  intro heq
  rcases List.append_of_mem hx with ⟨as, bs, hsplit⟩
  have hwhole := h
  rw [hsplit] at h
  have hbs := h.next_suffix
  rw [heq] at hbs
  have hlength := congrArg List.length (hwhole.unique hbs)
  rw [hsplit, List.length_append, List.length_cons] at hlength
  omega

theorem IsList.first_or_pred {x : P} (h : IsList null next p xs) (hx : x ∈ xs) :
    p = x ∨ ∃ u ∈ xs, u ≠ x ∧ next u = x := by
  induction xs generalizing p with
  | nil => exact absurd hx List.not_mem_nil
  | cons y ys ih =>
      rcases h with ⟨hp, hne, htail⟩
      by_cases hyx : y = x
      · exact Or.inl (hp.trans hyx)
      · have hmem : x ∈ ys := (List.mem_cons.mp hx).resolve_left fun heq => hyx heq.symm
        right
        rcases ih htail hmem with hnext | ⟨u, hu, hux, hnext⟩
        · exact ⟨y, List.mem_cons_self, hyx, hnext⟩
        · exact ⟨u, List.mem_cons_of_mem _ hu, hux, hnext⟩

theorem IsList.reaches_of_agree {x : P} (h : IsList null next p xs) (hx : x ∈ xs)
    (hagree : ∀ y ∈ xs, y ≠ x → next' y = next y) : Reaches null next' p x := by
  induction xs generalizing p with
  | nil => exact absurd hx List.not_mem_nil
  | cons y ys ih =>
      rcases h with ⟨hp, hne, htail⟩
      rw [hp]
      by_cases hyx : y = x
      · rw [← hyx]
        exact Reaches.here hne
      · have hmem : x ∈ ys := (List.mem_cons.mp hx).resolve_left fun heq => hyx heq.symm
        apply Reaches.step hne
        rw [hagree y List.mem_cons_self hyx]
        exact ih htail hmem fun z hz => hagree z (List.mem_cons_of_mem _ hz)

theorem IsList.relink {z : P} {zs : List P} (h : IsList null next p (xs ++ z :: ys))
    (hfront : ∀ x ∈ xs, next' x = next x)
    (htail : IsList null next' (next' z) zs) : IsList null next' p (xs ++ z :: zs) := by
  induction xs generalizing p with
  | nil => exact ⟨h.1, h.2.1, htail⟩
  | cons x xs ih =>
      refine ⟨h.1, h.2.1, ?_⟩
      rw [hfront x List.mem_cons_self]
      exact ih h.2.2 fun y hy => hfront y (List.mem_cons_of_mem _ hy)

end Shape

section Update

variable [DecidableEq P] {next : P → P} {p c z : P} {xs ys : List P}

theorem IsList.update_other (h : IsList null next p xs) (hc : c ∉ xs) (v : P) :
    IsList null (Function.update next c v) p xs := by
  apply h.congr
  intro x hx
  exact Function.update_of_ne (ne_of_mem_of_not_mem hx hc) v next

theorem IsList.push (h : IsList null next p xs) (hnull : c ≠ null) (hc : c ∉ xs) :
    IsList null (Function.update next c p) c (c :: xs) := by
  refine ⟨rfl, hnull, ?_⟩
  rw [Function.update_self]
  exact h.update_other hc p

theorem IsList.insert_after (h : IsList null next p (xs ++ z :: ys)) (hnull : c ≠ null)
    (hc : c ∉ xs ++ z :: ys) :
    IsList null (Function.update (Function.update next c (next z)) z c) p
      (xs ++ z :: c :: ys) := by
  have hnodup := h.nodup
  simp only [List.mem_append, List.mem_cons, not_or] at hc
  have hz : z ∉ xs ∧ z ∉ ys := by
    rw [List.nodup_append] at hnodup
    refine ⟨fun hmem => hnodup.2.2 z hmem z List.mem_cons_self rfl, ?_⟩
    exact (List.nodup_cons.mp hnodup.2.1).1
  apply h.relink
  · intro x hx
    rw [Function.update_of_ne (ne_of_mem_of_not_mem hx hz.1),
      Function.update_of_ne (ne_of_mem_of_not_mem hx hc.1)]
  · rw [Function.update_self]
    refine ⟨rfl, hnull, ?_⟩
    rw [Function.update_of_ne hc.2.1, Function.update_self]
    exact (h.next_suffix.update_other hc.2.2 _).update_other hz.2 _

theorem IsList.unlink_after (h : IsList null next p (xs ++ z :: c :: ys)) :
    IsList null (Function.update next z (next c)) p (xs ++ z :: ys) := by
  have hnodup := h.nodup
  have hz : z ∉ xs ∧ z ∉ ys := by
    rw [List.nodup_append] at hnodup
    refine ⟨fun hmem => hnodup.2.2 z hmem z List.mem_cons_self rfl, ?_⟩
    intro hmem
    exact (List.nodup_cons.mp hnodup.2.1).1 (List.mem_cons_of_mem _ hmem)
  apply h.relink
  · intro x hx
    exact Function.update_of_ne (ne_of_mem_of_not_mem hx hz.1) _ _
  · rw [Function.update_self]
    exact h.next_suffix.2.2.update_other hz.2 _

theorem IsList.append (h : IsList null next p xs) (hne : xs ≠ []) (hnull : c ≠ null)
    (hc : c ∉ xs) (hlast : next c = null) :
    IsList null (Function.update next (xs.getLast hne) c) p (xs ++ [c]) := by
  obtain ⟨as, z, rfl⟩ := (List.eq_nil_or_concat xs).resolve_left hne
  simp only [List.concat_eq_append] at *
  have hz : z ∉ as := by
    have hnodup := h.nodup
    rw [List.nodup_append] at hnodup
    exact fun hmem => hnodup.2.2 z hmem z List.mem_cons_self rfl
  have hcz : c ≠ z := fun heq => hc (by simp [heq])
  rw [List.append_assoc]
  simp only [List.getLast_append_singleton, List.cons_append, List.nil_append]
  apply h.relink
  · intro x hx
    exact Function.update_of_ne (ne_of_mem_of_not_mem hx hz) _ _
  · rw [Function.update_self]
    refine ⟨rfl, hnull, ?_⟩
    rw [Function.update_of_ne hcz]
    exact hlast

end Update

end Mpx.PointerList
