import Mpx.Base.StableSort

/-! One has the turn and the others wait in a line that is sorted by a key. Who passes the
turn on goes back into the line, behind everyone whose key is not larger. -/

namespace Mpx.TurnTaking

open StableSort

variable {α ι : Type*} [LinearOrder ι]

structure Table (α : Type*) where
  current : α
  line : List α

namespace Table

def all (t : Table α) : List α := t.current :: t.line

def Sorted (key : α → ι) (t : Table α) : Prop := t.line.Pairwise fun x y => key x ≤ key y

def before (key : α → ι) (t : Table α) (x : α) : List α := t.all.filter fun y => key y < key x

end Table

def pass (key : α → ι) (t : Table α) : Table α :=
  match t.line with
  | [] => t
  | n :: rest => ⟨n, rest.orderedInsert (fun x y => key x < key y) t.current⟩

def turns (key : α → ι) : Nat → Table α → List α
  | 0, _ => []
  | n + 1, t => (pass key t).current :: turns key n (pass key t)

variable {key : α → ι} {t : Table α} {x : α}

theorem pass_cons (c n : α) (rest : List α) : pass key ⟨c, n :: rest⟩ =
    ⟨n, rest.orderedInsert (fun x y => key x < key y) c⟩ := rfl

theorem pass_perm (key : α → ι) (t : Table α) : (pass key t).all.Perm t.all := by
  cases t with
  | mk c line =>
      cases line with
      | nil => exact List.Perm.refl _
      | cons n rest =>
          have hline := List.perm_orderedInsert (fun x y => key x < key y) c rest
          calc List.Perm (n :: rest.orderedInsert _ c) (n :: c :: rest) := hline.cons n
            List.Perm _ (c :: n :: rest) := List.Perm.swap c n rest

theorem pass_sorted (h : t.Sorted key) : (pass key t).Sorted key := by
  cases t with
  | mk c line =>
      cases line with
      | nil => exact h
      | cons n rest => exact orderedInsert_sorted c h.of_cons

theorem before_pass (t : Table α) (x : α) :
    ((pass key t).before key x).length = (t.before key x).length :=
  ((pass_perm key t).filter _).length_eq

theorem head_before (h : t.Sorted key) (htwo : 2 ≤ (t.before key x).length) :
    key (pass key t).current < key x := by
  cases t with
  | mk c line =>
      have hline : line.filter (fun y => key y < key x) ≠ [] := by
        intro hnil
        have hle : ((c :: line).filter fun y => key y < key x).length ≤ 1 := by
          rw [List.filter_cons, hnil]
          split <;> simp
        exact absurd (htwo.trans hle) (by omega)
      obtain ⟨y, hy⟩ := List.exists_mem_of_ne_nil _ hline
      have hmem : y ∈ line := List.mem_of_mem_filter hy
      have hlt : key y < key x := by simpa using (List.mem_filter.mp hy).2
      cases line with
      | nil => exact absurd hmem List.not_mem_nil
      | cons n rest =>
          have hhead : key n ≤ key y := by
            cases List.mem_cons.mp hmem with
            | inl heq => exact (congrArg key heq).ge
            | inr hrest => exact List.rel_of_pairwise_cons h hrest
          exact lt_of_le_of_lt hhead hlt

theorem not_mem_turns (h : t.Sorted key) (htwo : 2 ≤ (t.before key x).length) (n : Nat) :
    x ∉ turns key n t := by
  induction n generalizing t with
  | zero => exact List.not_mem_nil
  | succ n ih =>
      have hlt := head_before h htwo
      have hrest := ih (pass_sorted h) (htwo.trans_eq (before_pass t x).symm)
      intro hmem
      cases List.mem_cons.mp hmem with
      | inl heq => exact absurd hlt (heq ▸ lt_irrefl _)
      | inr htail => exact hrest htail

/-- The passes that those in front of `x` take: one that is before `x` comes back between
two of the others. -/
def weight (key : α → ι) (x : α) (front : List α) : Nat :=
  (front.map fun y => if key y < key x then 1 else 2).sum

theorem weight_le (key : α → ι) (x : α) (front : List α) :
    weight key x front ≤ 2 * front.length := by
  induction front with
  | nil => exact le_rfl
  | cons y front ih =>
      simp only [weight, List.map_cons, List.sum_cons, List.length_cons] at ih ⊢
      split <;> omega

theorem insert_behind {c : α} {front back : List α} (hsorted : (front ++ x :: back).Pairwise
    fun y z => key y ≤ key z) (hc : ¬ key c < key x) :
    ∃ back', (front ++ x :: back).orderedInsert (fun y z => key y < key z) c =
      front ++ x :: back' := by
  obtain ⟨hfront, hback, hbetween⟩ := List.pairwise_append.mp hsorted
  have hle : ∀ y ∈ front ++ [x], ¬ key c < key y := by
    intro y hy
    cases List.mem_append.mp hy with
    | inl hy => exact not_lt.mpr ((hbetween y hy x List.mem_cons_self).trans (not_lt.mp hc))
    | inr hy => exact (List.mem_singleton.mp hy) ▸ hc
  clear hsorted hfront hback hbetween
  induction front with
  | nil =>
      exact ⟨back.orderedInsert _ c, List.orderedInsert_of_not_le _ _ hc⟩
  | cons y front ih =>
      obtain ⟨back', hback'⟩ := ih fun z hz => hle z (List.mem_cons_of_mem _ hz)
      refine ⟨back', ?_⟩
      calc (y :: (front ++ x :: back)).orderedInsert (fun y z => key y < key z) c
          = y :: (front ++ x :: back).orderedInsert (fun y z => key y < key z) c :=
            List.orderedInsert_of_not_le _ _ (hle y List.mem_cons_self)
        _ = y :: (front ++ x :: back') := congrArg (List.cons y) hback'

theorem insert_first {c : α} {line : List α} (h : ∀ y ∈ line, key c < key y) :
    line.orderedInsert (fun y z => key y < key z) c = c :: line := by
  cases line with
  | nil => rfl
  | cons y line => exact List.orderedInsert_cons_of_le _ _ (h y List.mem_cons_self)

theorem pass_forward {c n : α} {front back : List α}
    (hsorted : (Table.mk c (n :: (front ++ x :: back))).Sorted key)
    (hone : ((Table.mk c (n :: (front ++ x :: back))).before key x).length ≤ 1) :
    ∃ front' back', pass key ⟨c, n :: (front ++ x :: back)⟩ = ⟨n, front' ++ x :: back'⟩ ∧
      weight key x front' < weight key x (n :: front) := by
  obtain ⟨hhead, hrest⟩ := List.pairwise_cons.mp hsorted
  by_cases hc : key c < key x
  · -- `c` is the only one before `x`
    have hn : ¬ key n < key x := by
      intro hn
      simp only [Table.before, Table.all, List.filter_cons, hc, hn, decide_true, if_true,
        List.length_cons] at hone
      omega
    have hfirst : ∀ y ∈ front ++ x :: back, key c < key y := by
      intro y hy
      exact (lt_of_lt_of_le hc (not_lt.mp hn)).trans_le (hhead y hy)
    refine ⟨c :: front, back, ?_, ?_⟩
    · rw [pass_cons, insert_first hfirst]
      rfl
    · simp only [weight, List.map_cons, List.sum_cons, if_pos hc, if_neg hn]
      omega
  · obtain ⟨back', hback'⟩ := insert_behind hrest hc
    refine ⟨front, back', ?_, ?_⟩
    · rw [pass_cons, hback']
    · simp only [weight, List.map_cons, List.sum_cons]
      split <;> omega

theorem mem_turns {c : α} {front back : List α} {n : Nat}
    (hsorted : (Table.mk c (front ++ x :: back)).Sorted key)
    (hone : ((Table.mk c (front ++ x :: back)).before key x).length ≤ 1)
    (hn : weight key x front < n) : x ∈ turns key n ⟨c, front ++ x :: back⟩ := by
  induction n generalizing c front back with
  | zero => omega
  | succ n ih =>
      cases front with
      | nil => exact List.mem_cons_self
      | cons y front =>
          obtain ⟨front', back', hpass, hlt⟩ := pass_forward hsorted hone
          have hsorted' := pass_sorted hsorted
          have hone' := (before_pass _ x).trans_le hone
          rw [List.cons_append, hpass] at hsorted' hone'
          have hrest := ih hsorted' hone' (by omega)
          rw [turns, List.cons_append, hpass]
          exact List.mem_cons_of_mem _ hrest

/-- Who has at most one other before it gets the turn within twice as many passes as there
are others in the line. -/
theorem mem_turns_of_waiting (h : t.Sorted key) (hx : x ∈ t.line)
    (hone : (t.before key x).length ≤ 1) {n : Nat} (hn : 2 * t.line.length ≤ n) :
    x ∈ turns key n t := by
  obtain ⟨front, back, hline⟩ := List.append_of_mem hx
  cases t with
  | mk c line =>
      simp only at hline
      subst hline
      have hweight := weight_le key x front
      have hlength : (front ++ x :: back).length = front.length + (back.length + 1) := by
        rw [List.length_append, List.length_cons]
      simp only [hlength] at hn
      exact mem_turns h hone (by omega)

theorem pass_line_length (key : α → ι) (t : Table α) :
    (pass key t).line.length = t.line.length := by
  have hlength := (pass_perm key t).length_eq
  simpa [Table.all] using hlength

theorem current_waits (key : α → ι) (t : Table α) :
    t.current = (pass key t).current ∨ t.current ∈ (pass key t).line := by
  cases t with
  | mk c line =>
      cases line with
      | nil => exact Or.inl rfl
      | cons n rest =>
          right
          exact (List.perm_orderedInsert _ c rest).mem_iff.mpr List.mem_cons_self

/-- The turn comes back to exactly those that have at most one other before them. -/
theorem mem_turns_iff (h : t.Sorted key) (hx : x ∈ t.all) {n : Nat}
    (hn : 2 * t.line.length < n) :
    x ∈ turns key n t ↔ (t.before key x).length ≤ 1 := by
  constructor
  · intro hmem
    by_contra htwo
    exact not_mem_turns h (by omega) n hmem
  · intro hone
    cases List.mem_cons.mp hx with
    | inr hline => exact mem_turns_of_waiting h hline hone hn.le
    | inl hcurrent =>
        obtain ⟨m, rfl⟩ := Nat.exists_eq_succ_of_ne_zero (Nat.ne_zero_of_lt hn)
        rw [turns, hcurrent, List.mem_cons]
        rw [hcurrent, ← before_pass] at hone
        cases current_waits key t with
        | inl hagain => exact Or.inl hagain
        | inr hwaits =>
            right
            refine mem_turns_of_waiting (pass_sorted h) hwaits hone ?_
            rw [pass_line_length]
            omega

end Mpx.TurnTaking
