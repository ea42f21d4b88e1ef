import Mpx.Base.PointerList
import Mpx.Base.Run
import Mpx.Base.StableSort
import Mpx.Process.Model

/-! The queue operations of `kernel/pcb.c`, read on the lists that the links form. -/

namespace Mpx

open Memory PointerList StableSort

namespace Procs

variable {s : Procs} {q : Queue} {p : U32} {xs : List U32}

@[simp] theorem next_modify (f : Pcb → Pcb) :
    (s.modify p f).next = Function.update s.next p (f (s.pcbs p)).nextPcb := by
  funext x
  by_cases hx : x = p
  · subst hx
    simp [next, modify]
  · simp [next, modify, Function.update_of_ne hx]

@[simp] theorem next_setNext (v : U32) : (s.setNext p v).next = Function.update s.next p v := by
  simp [setNext]

@[simp] theorem next_setState (v : Int) : (s.setState p v).next = s.next := by
  simp [setState, next, Function.update_eq_self_iff]

@[simp] theorem next_setStackTop (v : U32) : (s.setStackTop p v).next = s.next := by
  simp [setStackTop, next, Function.update_eq_self_iff]

@[simp] theorem head_modify (f : Pcb → Pcb) : (s.modify p f).head q = s.head q := by
  cases q <;> rfl

@[simp] theorem head_setNext (v : U32) : (s.setNext p v).head q = s.head q :=
  head_modify _

@[simp] theorem head_setState (v : Int) : (s.setState p v).head q = s.head q :=
  head_modify _

@[simp] theorem head_setStackTop (v : U32) : (s.setStackTop p v).head q = s.head q :=
  head_modify _

@[simp] theorem next_setHead (v : U32) : (s.setHead q v).next = s.next := by
  cases q <;> rfl

@[simp] theorem pcbs_setHead (v : U32) : (s.setHead q v).pcbs = s.pcbs := by
  cases q <;> rfl

@[simp] theorem head_setHead_self (v : U32) : (s.setHead q v).head q = v := by
  cases q <;> rfl

theorem head_setHead_ne {q' : Queue} (hne : q' ≠ q) (v : U32) :
    (s.setHead q v).head q' = s.head q' := by
  cases q <;> cases q' <;> first | rfl | exact absurd rfl hne

theorem pcbs_modify_ne {x : U32} (hx : x ≠ p) (f : Pcb → Pcb) :
    (s.modify p f).pcbs x = s.pcbs x :=
  Function.update_of_ne hx _ _

@[simp] theorem pcbs_modify_self (f : Pcb → Pcb) : (s.modify p f).pcbs p = f (s.pcbs p) :=
  Function.update_self _ _ _

theorem priority_modify {f : Pcb → Pcb} (hf : ∀ b, (f b).priority = b.priority) :
    (s.modify p f).priority = s.priority := by
  funext x
  by_cases hx : x = p
  · subst hx
    rw [priority, pcbs_modify_self, hf, priority]
  · rw [priority, pcbs_modify_ne hx, priority]

@[simp] theorem priority_setState (v : Int) : (s.setState p v).priority = s.priority :=
  priority_modify fun _ => rfl

@[simp] theorem priority_setStackTop (v : U32) : (s.setStackTop p v).priority = s.priority :=
  priority_modify fun _ => rfl

@[simp] theorem state_setState_self (v : Int) : ((s.setState p v).pcbs p).state = v := by
  rw [setState, pcbs_modify_self]

def Holds (s : Procs) (q : Queue) (xs : List U32) : Prop := IsList 0 s.next (s.head q) xs

instance (s : Procs) (q : Queue) (xs : List U32) : Decidable (s.Holds q xs) :=
  inferInstanceAs (Decidable (IsList _ _ _ _))

/-- The place of `curr_pcb` in a queue: in front of the first larger priority number. -/
def enqueue (s : Procs) (currPcb : U32) (xs : List U32) : List U32 :=
  xs.orderedInsert (fun x y => s.priority x < s.priority y) currPcb

def Sorted (s : Procs) (xs : List U32) : Prop :=
  xs.Pairwise fun x y => s.priority x ≤ s.priority y

instance (s : Procs) (xs : List U32) : Decidable (s.Sorted xs) :=
  inferInstanceAs (Decidable (List.Pairwise _ _))

def OnQueue (s : Procs) (q : Queue) (p : U32) : Prop := Reaches 0 s.next (s.head q) p

theorem Holds.onQueue_iff (h : s.Holds q xs) : s.OnQueue q p ↔ p ∈ xs :=
  IsList.reaches_iff h

theorem enqueue_perm (c : U32) : (s.enqueue c xs).Perm (c :: xs) :=
  List.perm_orderedInsert _ _ _

theorem enqueue_congr {s' : Procs} (h : s'.priority = s.priority) (c : U32) :
    s'.enqueue c xs = s.enqueue c xs := by
  simp only [enqueue, h]

theorem enqueue_split (c : U32) (h : s.Sorted xs) :
    ∃ front back, xs = front ++ back ∧ s.enqueue c xs = front ++ c :: back ∧
      (∀ x ∈ front, s.priority x ≤ s.priority c) ∧
      ∀ y ∈ back, s.priority c < s.priority y :=
  orderedInsert_split c h

theorem enqueue_sorted (c : U32) (h : s.Sorted xs) : s.Sorted (s.enqueue c xs) :=
  orderedInsert_sorted c h

theorem enqueue_congr_mem {s' : Procs} {c : U32}
    (h : ∀ x ∈ c :: xs, s'.priority x = s.priority x) : s'.enqueue c xs = s.enqueue c xs := by
  rcases List.forall_mem_cons.mp h with ⟨hc, hxs⟩
  induction xs with
  | nil => rfl
  | cons y ys ih =>
      rcases List.forall_mem_cons.mp hxs with ⟨hy, hys⟩
      have hrest : s'.enqueue c ys = s.enqueue c ys :=
        ih (List.forall_mem_cons.mpr ⟨hc, hys⟩) hys
      unfold enqueue at hrest ⊢
      rw [List.orderedInsert_cons, List.orderedInsert_cons, hrest, hc, hy]

def ahead (s : Procs) (v : Int) (xs : List U32) : List U32 :=
  xs.takeWhile fun x => s.priority x ≤ v

theorem ahead_cons_le {v : Int} (hp : s.priority p ≤ v) :
    s.ahead v (p :: xs) = p :: s.ahead v xs :=
  List.takeWhile_cons_of_pos (decide_eq_true hp)

theorem ahead_cons_gt {v : Int} (hp : ¬ s.priority p ≤ v) : s.ahead v (p :: xs) = [] :=
  List.takeWhile_cons_of_neg (by simpa using hp)

theorem ahead_congr {s' : Procs} {v : Int} (h : ∀ x ∈ xs, s'.priority x = s.priority x) :
    s'.ahead v xs = s.ahead v xs := by
  induction xs with
  | nil => rfl
  | cons y ys ih =>
      rcases List.forall_mem_cons.mp h with ⟨hy, hys⟩
      by_cases hv : s.priority y ≤ v
      · rw [ahead_cons_le hv, ahead_cons_le (hy.symm ▸ hv), ih hys]
      · rw [ahead_cons_gt hv, ahead_cons_gt (hy.symm ▸ hv)]

theorem ahead_mono {v w : Int} (hvw : v ≤ w) : s.ahead v xs ⊆ s.ahead w xs := by
  induction xs with
  | nil => exact List.Subset.refl _
  | cons y ys ih =>
      by_cases hv : s.priority y ≤ v
      · rw [ahead_cons_le hv, ahead_cons_le (hv.trans hvw)]
        exact List.cons_subset_cons y ih
      · rw [ahead_cons_gt hv]
        exact List.nil_subset _

theorem mem_ahead_enqueue {v : Int} {c x : U32} (hc : s.priority c ≤ v) :
    x ∈ s.ahead v (s.enqueue c xs) ↔ x = c ∨ x ∈ s.ahead v xs := by
  induction xs with
  | nil =>
      have hsingle : s.enqueue c [] = [c] := rfl
      rw [hsingle, ahead_cons_le hc, List.mem_cons]
  | cons y ys ih =>
      by_cases hfront : s.priority c < s.priority y
      · have hplace : s.enqueue c (y :: ys) = c :: y :: ys :=
          List.orderedInsert_cons_of_le _ _ hfront
        rw [hplace, ahead_cons_le hc, List.mem_cons]
      · have hplace : s.enqueue c (y :: ys) = y :: s.enqueue c ys :=
          List.orderedInsert_of_not_le _ _ hfront
        have hy : s.priority y ≤ v := (not_lt.mp hfront).trans hc
        rw [hplace, ahead_cons_le hy, ahead_cons_le hy, List.mem_cons, List.mem_cons, ih]
        exact or_left_comm

theorem enqueue_behind {c x : U32} (hx : x ∈ s.ahead (s.priority c) xs) :
    ∃ front back, s.enqueue c xs = front ++ x :: back ∧ c ∈ back := by
  induction xs with
  | nil => exact absurd hx List.not_mem_nil
  | cons y ys ih =>
      by_cases hy : s.priority y ≤ s.priority c
      · have hplace : s.enqueue c (y :: ys) = y :: s.enqueue c ys :=
          List.orderedInsert_of_not_le _ _ (not_lt.mpr hy)
        rw [ahead_cons_le hy, List.mem_cons] at hx
        rw [hplace]
        by_cases hxy : x = y
        · refine ⟨[], s.enqueue c ys, by rw [hxy, List.nil_append], ?_⟩
          exact (enqueue_perm c).mem_iff.mpr List.mem_cons_self
        · rcases ih (hx.resolve_left hxy) with ⟨front, back, hsplit, hback⟩
          exact ⟨y :: front, back, by rw [hsplit, List.cons_append], hback⟩
      · rw [ahead_cons_gt hy] at hx
        exact absurd hx List.not_mem_nil

/-- The old head leaves the same queue behind whether or not `curr_pcb` is put in
front of it first. -/
theorem enqueue_erase_head {c n : U32} (h : s.Sorted (n :: xs)) (hne : c ≠ n) :
    (s.enqueue c (n :: xs)).erase n = s.enqueue c xs := by
  by_cases hprio : s.priority c < s.priority n
  · have hfront : s.enqueue c (n :: xs) = c :: n :: xs :=
      List.orderedInsert_cons_of_le _ _ hprio
    have hplace : s.enqueue c xs = c :: xs := by
      cases xs with
      | nil => rfl
      | cons x xs =>
          have hnx := (List.pairwise_cons.mp h).1 x List.mem_cons_self
          exact List.orderedInsert_cons_of_le _ _ (lt_of_lt_of_le hprio hnx)
    calc (s.enqueue c (n :: xs)).erase n = (c :: n :: xs).erase n := by rw [hfront]
      _ = c :: (n :: xs).erase n := List.erase_cons_tail (by simpa using hne)
      _ = s.enqueue c xs := by rw [List.erase_cons_head, hplace]
  · have hbehind : s.enqueue c (n :: xs) = n :: s.enqueue c xs :=
      List.orderedInsert_of_not_le _ _ hprio
    rw [hbehind, List.erase_cons_head]

/-- At most the PCBs in `touched` and the head of `q` differ. -/
structure Kept (s s' : Procs) (q : Queue) (touched : List U32) : Prop where
  heads : ∀ q', q' ≠ q → s'.head q' = s.head q'
  same : ∀ p, p ∉ touched → s'.pcbs p = s.pcbs p

/-- Of these PCBs at most the links differ. -/
structure Relinked (s s' : Procs) (q : Queue) (touched : List U32) : Prop extends
    Kept s s' q touched where
  fields : ∀ p, ∃ v, s'.pcbs p = { s.pcbs p with nextPcb := v }

theorem Kept.refl (touched : List U32) : Kept s s q touched :=
  ⟨fun _ _ => rfl, fun _ _ => rfl⟩

theorem Kept.trans {s' s'' : Procs} {touched : List U32} (h : Kept s s' q touched)
    (h' : Kept s' s'' q touched) : Kept s s'' q touched :=
  ⟨fun q' hq => (h'.heads q' hq).trans (h.heads q' hq),
    fun p hp => (h'.same p hp).trans (h.same p hp)⟩

theorem Kept.mono {s' : Procs} {touched more : List U32} (h : Kept s s' q touched)
    (hsub : touched ⊆ more) : Kept s s' q more :=
  ⟨h.heads, fun p hp => h.same p fun hmem => hp (hsub hmem)⟩

theorem Kept.modify {s' : Procs} {touched : List U32} (h : Kept s s' q touched)
    (hp : p ∈ touched) (f : Pcb → Pcb) : Kept s (s'.modify p f) q touched := by
  refine ⟨fun q' hq => ?_, fun x hx => ?_⟩
  · rw [head_modify, h.heads q' hq]
  · rw [pcbs_modify_ne (ne_of_mem_of_not_mem hp hx).symm, h.same x hx]

theorem Kept.holds {s' : Procs} {touched : List U32} {q' : Queue}
    (h : Kept s s' q touched) (hq : q' ≠ q) (hxs : s.Holds q' xs)
    (hapart : ∀ x ∈ xs, x ∉ touched) : s'.Holds q' xs := by
  rw [Holds, h.heads q' hq]
  apply IsList.congr hxs
  intro x hx
  rw [next, h.same x (hapart x hx), next]

theorem Relinked.refl (touched : List U32) : Relinked s s q touched :=
  ⟨Kept.refl touched, fun p => ⟨s.next p, rfl⟩⟩

theorem Relinked.setNext {s' : Procs} {touched : List U32} (h : Relinked s s' q touched)
    (hp : p ∈ touched) (v : U32) : Relinked s (s'.setNext p v) q touched := by
  refine ⟨h.toKept.modify hp _, fun x => ?_⟩
  obtain ⟨w, hw⟩ := h.fields x
  by_cases hx : x = p
  · subst hx
    exact ⟨v, by rw [Procs.setNext, pcbs_modify_self, hw]⟩
  · exact ⟨w, by rw [Procs.setNext, pcbs_modify_ne hx, hw]⟩

theorem Relinked.setHead {s' : Procs} {touched : List U32} (h : Relinked s s' q touched)
    (v : U32) : Relinked s (s'.setHead q v) q touched := by
  refine ⟨⟨fun q' hq => ?_, fun x hx => ?_⟩, fun x => ?_⟩
  · rw [head_setHead_ne hq, h.heads q' hq]
  · rw [pcbs_setHead, h.same x hx]
  · rw [pcbs_setHead]
    exact h.fields x

theorem Relinked.priority {s' : Procs} {touched : List U32} (h : Relinked s s' q touched) :
    s'.priority = s.priority := by
  funext x
  obtain ⟨v, hv⟩ := h.fields x
  simp only [Procs.priority, hv]

theorem Relinked.state {s' : Procs} {touched : List U32} (h : Relinked s s' q touched)
    (x : U32) : (s'.pcbs x).state = (s.pcbs x).state := by
  obtain ⟨v, hv⟩ := h.fields x
  rw [hv]

theorem Relinked.stackTop {s' : Procs} {touched : List U32} (h : Relinked s s' q touched)
    (x : U32) : (s'.pcbs x).stackTop = (s.pcbs x).stackTop := by
  obtain ⟨v, hv⟩ := h.fields x
  rw [hv]

end Procs

section Lists

variable {s : Procs} {q : Queue} {c z : U32} {xs ys : List U32}

open Procs

theorem isList_length_lt {next : U32 → U32} {p : U32} (h : IsList 0 next p xs) :
    xs.length < 2 ^ 32 := by
  have hnodup : ((0 : U32) :: xs).Nodup :=
    List.nodup_cons.mpr ⟨fun hmem => h.ne_null hmem rfl, h.nodup⟩
  have hinj : Function.Injective (BitVec.toNat : U32 → Nat) :=
    fun _ _ heq => BitVec.eq_of_toNat_eq heq
  have hsub : ((0 : U32) :: xs).map BitVec.toNat ⊆ List.range (2 ^ 32) := by
    intro n hn
    obtain ⟨x, -, rfl⟩ := List.mem_map.mp hn
    exact List.mem_range.mpr x.isLt
  calc xs.length < (((0 : U32) :: xs).map BitVec.toNat).length := by simp
    _ ≤ (List.range (2 ^ 32)).length := ((hnodup.map hinj).subperm hsub).length_le
    _ = 2 ^ 32 := List.length_range

theorem next_of_isList_singleton {next : U32 → U32} (h : IsList 0 next z [z]) :
    next z = 0 := h.2.2

theorem next_of_isList_cons {next : U32 → U32} {y : U32}
    (h : IsList 0 next z (z :: y :: ys)) : next z = y ∧ y ≠ 0 ∧ IsList 0 next y (y :: ys) :=
  ⟨h.2.2.1, h.2.2.2.1, rfl, h.2.2.2⟩

/-- The loop of `pcb_insert` stops at the PCB after which `curr_pcb` belongs. -/
theorem insertLoop_spec (hlist : IsList 0 s.next z (z :: ys)) {fuel : Nat}
    (hfuel : ys.length < fuel) :
    ∃ as w bs, z :: ys = as ++ w :: bs ∧ insertLoop s c fuel z = .ok w ∧
      z :: s.enqueue c ys = as ++ w :: c :: bs := by
  induction ys generalizing z fuel with
  | nil =>
      obtain ⟨fuel, rfl⟩ := Nat.exists_eq_succ_of_ne_zero (Nat.ne_of_gt hfuel)
      refine ⟨[], z, [], rfl, ?_, rfl⟩
      rw [insertLoop, if_neg]
      exact fun hcond => hcond.1 (next_of_isList_singleton hlist)
  | cons y ys ih =>
      obtain ⟨fuel, rfl⟩ := Nat.exists_eq_succ_of_ne_zero (Nat.ne_zero_of_lt hfuel)
      obtain ⟨hnext, hy, htail⟩ := next_of_isList_cons hlist
      rw [insertLoop, hnext]
      by_cases hprio : s.priority c < s.priority y
      · refine ⟨[], z, y :: ys, rfl, if_neg fun hcond => ?_, ?_⟩
        · exact absurd hcond.2 (not_le.mpr hprio)
        · rw [enqueue, List.orderedInsert_cons, if_pos hprio]
          rfl
      · obtain ⟨as, w, bs, hsplit, hrun, hinsert⟩ := ih htail (Nat.lt_of_succ_lt_succ hfuel)
        refine ⟨z :: as, w, bs, by rw [hsplit, List.cons_append], ?_, ?_⟩
        · rw [if_pos ⟨hy, not_lt.mp hprio⟩, hrun]
        · rw [enqueue, List.orderedInsert_cons, if_neg hprio, List.cons_append, ← hinsert]
          rfl

/-- `pcb_insert` puts the PCB into the queue of its state, after every PCB whose
priority number is at most its own. -/
theorem pcbInsert_spec (hc : c ≠ 0) (hq : insertQueue (s.pcbs c).state = some q)
    (hlist : s.Holds q xs) (hnew : c ∉ xs) :
    ∃ s', pcbInsert s c = .ok s' ∧ s'.Holds q (s.enqueue c xs) ∧
      s.Relinked s' q (c :: xs) := by
  rw [pcbInsert, if_neg hc, hq]
  simp only
  have hc' : c ∈ c :: xs := List.mem_cons_self
  by_cases hfront : s.head q = 0 ∨ s.priority c < s.priority (s.head q)
  · have hinsert : s.enqueue c xs = c :: xs := by
      cases xs with
      | nil => rfl
      | cons x xs =>
          obtain ⟨hx, hne, -⟩ := hlist
          rw [hx] at hfront
          rw [enqueue, List.orderedInsert_cons, if_pos (hfront.resolve_left hne)]
    refine ⟨_, if_pos hfront, ?_, ((Relinked.refl _).setNext hc' _).setHead _⟩
    rw [Holds, head_setHead_self, next_setHead, next_setNext, hinsert]
    exact hlist.push hc hnew
  · rw [if_neg hfront]
    cases xs with
    | nil => exact absurd (Or.inl hlist) hfront
    | cons x xs =>
        obtain ⟨hx, hne, htail⟩ := hlist
        have hself : IsList 0 s.next x (x :: xs) := ⟨rfl, hne, htail⟩
        rw [hx] at hfront
        obtain ⟨as, w, bs, hsplit, hrun, hinsert⟩ :=
          insertLoop_spec (c := c) hself (isList_length_lt htail)
        have hplace : s.enqueue c (x :: xs) = as ++ w :: c :: bs := by
          rw [← hinsert, enqueue, List.orderedInsert_cons, if_neg (not_or.mp hfront).2]
          rfl
        have hw : w ∈ c :: x :: xs := by
          rw [hsplit]
          simp
        rw [hx]
        refine ⟨_, by rw [queueFuel, hrun]; rfl, ?_, ((Relinked.refl _).setNext hc' _).setNext hw _⟩
        rw [Holds, head_setNext, head_setNext, next_setNext, next_setNext, hx, hplace]
        rw [hsplit] at hself hnew
        exact hself.insert_after hc hnew

theorem insertLoop_cases {fuel : Nat} {w : U32} (hrun : insertLoop s c (fuel + 1) z = .ok w) :
    ((s.next z ≠ 0 ∧ s.priority c ≥ s.priority (s.next z)) ∧
        insertLoop s c fuel (s.next z) = .ok w) ∨
      (¬ (s.next z ≠ 0 ∧ s.priority c ≥ s.priority (s.next z)) ∧ w = z) := by
  rw [insertLoop] at hrun
  by_cases hmore : s.next z ≠ 0 ∧ s.priority c ≥ s.priority (s.next z)
  · rw [if_pos hmore] at hrun
    exact Or.inl ⟨hmore, hrun⟩
  · rw [if_neg hmore] at hrun
    cases hrun
    exact Or.inr ⟨hmore, rfl⟩

theorem insertLoop_ahead (hlist : IsList 0 s.next z (z :: ys))
    (hz : s.priority z ≤ s.priority c) {fuel : Nat} {w : U32}
    (hrun : insertLoop s c fuel z = .ok w) : w ∈ s.ahead (s.priority c) (z :: ys) := by
  induction fuel generalizing z ys with
  | zero => cases hrun
  | succ fuel ih =>
      rw [ahead_cons_le hz]
      rcases insertLoop_cases hrun with ⟨hmore, hrest⟩ | ⟨-, heq⟩
      · cases ys with
        | nil => exact absurd (next_of_isList_singleton hlist) hmore.1
        | cons y ys =>
            rcases next_of_isList_cons hlist with ⟨hnext, -, htail⟩
            rw [hnext] at hrest hmore
            exact List.mem_cons_of_mem _ (ih htail hmore.2 hrest)
      · rw [heq]
        exact List.mem_cons_self

/-- Everything that `pcb_insert` can do: nothing, or a new head, or a link behind a PCB
to which the loop has come. -/
theorem pcbInsert_cases {s' : Procs} (hrun : pcbInsert s c = .ok s') :
    (s' = s ∧ (c = 0 ∨ insertQueue (s.pcbs c).state = none)) ∨
    c ≠ 0 ∧ ∃ q, insertQueue (s.pcbs c).state = some q ∧
      (s' = (s.setNext c (s.head q)).setHead q c ∨
        ∃ w, s.head q ≠ 0 ∧ s.priority (s.head q) ≤ s.priority c ∧
          insertLoop s c queueFuel (s.head q) = .ok w ∧
          s' = (s.setNext c (s.next w)).setNext w c) := by
  rw [pcbInsert] at hrun
  by_cases hc : c = 0
  · rw [if_pos hc] at hrun
    cases hrun
    exact Or.inl ⟨rfl, Or.inl hc⟩
  · rw [if_neg hc] at hrun
    cases hq : insertQueue (s.pcbs c).state with
    | none =>
        rw [hq] at hrun
        cases hrun
        exact Or.inl ⟨rfl, Or.inr rfl⟩
    | some q =>
        rw [hq] at hrun
        by_cases hfront : s.head q = 0 ∨ s.priority c < s.priority (s.head q)
        · simp only [if_pos hfront] at hrun
          cases hrun
          exact Or.inr ⟨hc, q, rfl, Or.inl rfl⟩
        · simp only [if_neg hfront] at hrun
          rcases Run.of_bind_ok hrun with ⟨w, hloop, heq⟩
          cases heq
          rcases not_or.mp hfront with ⟨hhead, hbehind⟩
          exact Or.inr ⟨hc, q, rfl, Or.inr ⟨w, hhead, not_lt.mp hbehind, hloop, rfl⟩⟩

theorem pcbInsert_links {s' : Procs} (hq : insertQueue (s.pcbs c).state = some q)
    (hlist : s.Holds q xs) (hrun : pcbInsert s c = .ok s') {x : U32} (hx : x ≠ c)
    (hfar : x ∉ s.ahead (s.priority c) xs) : s'.next x = s.next x := by
  rcases pcbInsert_cases hrun with ⟨heq, -⟩ | ⟨-, t, ht, hlink⟩
  · rw [heq]
  · rw [hq] at ht
    cases ht
    rcases hlink with heq | ⟨w, hhead, hle, hloop, heq⟩
    · rw [heq, next_setHead, next_setNext, Function.update_of_ne hx]
    · cases xs with
      | nil => exact absurd hlist hhead
      | cons y ys =>
          have hself : IsList 0 s.next y (y :: ys) := ⟨rfl, hlist.2⟩
          rw [hlist.1] at hle hloop
          have hw := insertLoop_ahead hself hle hloop
          have hxw : x ≠ w := fun heq => hfar (heq ▸ hw)
          rw [heq, next_setNext, Function.update_of_ne hxw, next_setNext,
            Function.update_of_ne hx]

theorem removeLoop_mem {as bs : List U32} {w : U32}
    (hlist : IsList 0 s.next z (as ++ w :: c :: bs)) {fuel : Nat} (hfuel : as.length < fuel) :
    removeLoop s c fuel z = .ok w := by
  induction as generalizing z fuel with
  | nil =>
      obtain ⟨fuel, rfl⟩ := Nat.exists_eq_succ_of_ne_zero (Nat.ne_of_gt hfuel)
      obtain ⟨rfl, -, hnext, -⟩ := hlist
      rw [removeLoop, if_neg]
      exact fun hcond => hcond.2 hnext
  | cons a as ih =>
      obtain ⟨fuel, rfl⟩ := Nat.exists_eq_succ_of_ne_zero (Nat.ne_zero_of_lt hfuel)
      have htail : IsList 0 s.next (s.next a) (as ++ w :: c :: bs) := hlist.2.2
      obtain ⟨rfl, hne, -⟩ := hlist
      have hnext : s.next z ≠ c := by
        intro heq
        have hshort : IsList 0 s.next c (c :: bs) :=
          @IsList.suffix _ _ _ _ (as ++ [w]) bs c (by simpa using htail)
        rw [heq] at htail
        have hlength := congrArg List.length (htail.unique hshort)
        simp only [List.length_cons, List.length_append] at hlength
        omega
      rw [removeLoop, if_pos ⟨hne, hnext⟩]
      exact ih htail (Nat.lt_of_succ_lt_succ hfuel)

theorem removeLoop_not_mem (hlist : IsList 0 s.next z xs) (hc : c ≠ 0) (hnot : c ∉ xs.tail)
    {fuel : Nat} (hfuel : xs.length < fuel) : removeLoop s c fuel z = .ok 0 := by
  induction xs generalizing z fuel with
  | nil =>
      obtain ⟨fuel, rfl⟩ := Nat.exists_eq_succ_of_ne_zero (Nat.ne_of_gt hfuel)
      rw [removeLoop, isList_nil.mp hlist, if_neg fun hcond => hcond.1 rfl]
  | cons x xs ih =>
      obtain ⟨fuel, rfl⟩ := Nat.exists_eq_succ_of_ne_zero (Nat.ne_zero_of_lt hfuel)
      obtain ⟨rfl, hne, htail⟩ := hlist
      have hnext : s.next z ≠ c := by
        intro heq
        cases xs with
        | nil => exact hc (heq.symm.trans htail)
        | cons y ys => exact hnot (by rw [← heq, htail.1]; exact List.mem_cons_self)
      rw [removeLoop, if_pos ⟨hne, hnext⟩]
      exact ih htail (fun hmem => hnot (List.mem_of_mem_tail hmem)) (Nat.lt_of_succ_lt_succ hfuel)

theorem pcbRemove_mem (hq : removeQueue (s.pcbs c).state = some q) (hlist : s.Holds q xs)
    (hmem : c ∈ xs) :
    ∃ s', pcbRemove s c = .ok (pcbSuccess, s') ∧ s'.Holds q (xs.erase c) ∧
      s.Relinked s' q xs := by
  have hc : c ≠ 0 := hlist.ne_null hmem
  rw [pcbRemove, if_neg hc, hq]
  simp only
  by_cases hfront : s.head q = c
  · obtain ⟨xs, rfl⟩ : ∃ ys, xs = c :: ys := by
      cases xs with
      | nil => exact absurd hmem List.not_mem_nil
      | cons x xs => exact ⟨xs, by rw [← hfront, hlist.1]⟩
    refine ⟨_, if_pos hfront, ?_, (Relinked.refl _).setHead _⟩
    rw [Holds, head_setHead_self, next_setHead, List.erase_cons_head]
    exact hlist.2.2
  · rw [if_neg hfront]
    obtain ⟨as, w, bs, rfl⟩ : ∃ as w bs, xs = as ++ w :: c :: bs := by
      obtain ⟨as, bs, rfl⟩ := List.append_of_mem hmem
      rcases List.eq_nil_or_concat as with rfl | ⟨as, w, rfl⟩
      · exact absurd hlist.1 hfront
      · exact ⟨as, w, bs, by simp⟩
    have hw : w ≠ 0 := hlist.ne_null (by simp)
    have hshort : as.length < queueFuel := by
      have := isList_length_lt hlist
      simp only [List.length_append, queueFuel] at *
      omega
    have herase : (as ++ w :: c :: bs).erase c = as ++ w :: bs := by
      have hnodup := hlist.nodup
      have hsplit : as ++ w :: c :: bs = (as ++ [w]) ++ c :: bs := by simp
      have hnot : c ∉ as ++ [w] := by
        rw [hsplit, List.nodup_append] at hnodup
        exact fun hin => hnodup.2.2 c hin c List.mem_cons_self rfl
      calc (as ++ w :: c :: bs).erase c = (as ++ [w] ++ c :: bs).erase c := by rw [hsplit]
        _ = as ++ [w] ++ (c :: bs).erase c := List.erase_append_right _ hnot
        _ = as ++ w :: bs := by simp
    refine ⟨_, by rw [removeLoop_mem hlist hshort]; exact if_neg hw, ?_, ?_⟩
    · rw [Holds, head_setNext, next_setNext, herase]
      exact hlist.unlink_after
    · exact (Relinked.refl _).setNext (by simp) _

theorem pcbRemove_not_mem
    (hlist : ∀ q, removeQueue (s.pcbs c).state = some q → ∃ xs, s.Holds q xs ∧ c ∉ xs) :
    pcbRemove s c = .ok (pcbError, s) := by
  rw [pcbRemove]
  by_cases hc : c = 0
  · rw [if_pos hc]
  · rw [if_neg hc]
    cases hq : removeQueue (s.pcbs c).state with
    | none => rfl
    | some q =>
        obtain ⟨xs, hxs, hnot⟩ := hlist q hq
        have hfront : s.head q ≠ c := by
          intro heq
          cases xs with
          | nil => exact hc (heq.symm.trans hxs)
          | cons x xs => exact hnot (by rw [← heq, hxs.1]; exact List.mem_cons_self)
        have hrun := removeLoop_not_mem (s := s) hxs hc
          (fun hmem => hnot (List.mem_of_mem_tail hmem)) (isList_length_lt hxs)
        simp only [if_neg hfront, queueFuel, hrun]
        rfl

end Lists

/-- The queues are the acyclic and sorted `lists`, and no PCB is on two of them. -/
structure Queues (s : Procs) (lists : Queue → List U32) : Prop where
  holds : ∀ q, s.Holds q (lists q)
  sorted : ∀ q, s.Sorted (lists q)
  disjoint : ∀ q q', q ≠ q' → ∀ p ∈ lists q, p ∉ lists q'

theorem Queues.setState {s : Procs} {lists : Queue → List U32} {p : U32} (h : Queues s lists)
    (v : Int) : Queues (s.setState p v) lists where
  holds := by
    intro q
    rw [Procs.Holds, Procs.head_setState, Procs.next_setState]
    exact h.holds q
  sorted := by
    intro q
    rw [Procs.Sorted, Procs.priority_setState]
    exact h.sorted q
  disjoint := h.disjoint

end Mpx
