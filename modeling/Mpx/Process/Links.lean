import Mpx.Base.Run
import Mpx.Process.Queue

/-! The queue operations on any links, also where they form no lists: which fields they
leave alone, and which PCBs can be on a queue afterwards. -/

namespace Mpx

open Memory PointerList Procs Run

namespace Procs

variable {s s' : Procs} {q : Queue} {c n p x : U32} {S : U32 → Prop}

def LinksOnly (s s' : Procs) : Prop := ∀ x, ∃ v, s'.pcbs x = { s.pcbs x with nextPcb := v }

theorem linksOnly_refl : LinksOnly s s := fun x => ⟨s.next x, rfl⟩

theorem linksOnly_setNext (p v : U32) : LinksOnly s (s.setNext p v) := by
  intro x
  by_cases hx : x = p
  · subst hx
    exact ⟨v, pcbs_modify_self _⟩
  · exact ⟨s.next x, pcbs_modify_ne hx _⟩

theorem LinksOnly.setNext (h : LinksOnly s s') (p v : U32) : LinksOnly s (s'.setNext p v) := by
  intro x
  rcases h x with ⟨w, hw⟩
  rcases linksOnly_setNext (s := s') p v x with ⟨u, hu⟩
  exact ⟨u, by rw [hu, hw]⟩

theorem LinksOnly.setHead (h : LinksOnly s s') (v : U32) : LinksOnly s (s'.setHead q v) := by
  intro x
  rw [pcbs_setHead]
  exact h x

theorem LinksOnly.name (h : LinksOnly s s') (x : U32) :
    (s'.pcbs x).name = (s.pcbs x).name := by
  rcases h x with ⟨v, hv⟩
  rw [hv]

theorem LinksOnly.state (h : LinksOnly s s') (x : U32) :
    (s'.pcbs x).state = (s.pcbs x).state := by
  rcases h x with ⟨v, hv⟩
  rw [hv]

theorem LinksOnly.stackTop (h : LinksOnly s s') (x : U32) :
    (s'.pcbs x).stackTop = (s.pcbs x).stackTop := by
  rcases h x with ⟨v, hv⟩
  rw [hv]

theorem name_modify (f : Pcb → Pcb) (hf : ∀ b, (f b).name = b.name) (x : U32) :
    ((s.modify p f).pcbs x).name = (s.pcbs x).name := by
  by_cases hx : x = p
  · subst hx
    rw [pcbs_modify_self, hf]
  · rw [pcbs_modify_ne hx]

/-- The heads of the queues and the links of these PCBs lead to such PCBs only. -/
structure Closed (s : Procs) (S : U32 → Prop) : Prop where
  head : ∀ q, s.head q ≠ 0 → S (s.head q)
  next : ∀ p, S p → s.next p ≠ 0 → S (s.next p)

/-- On some queue, also where its links do not end. -/
def OnSome (s : Procs) (p : U32) : Prop := ∃ q, s.OnQueue q p

theorem onQueue_next (h : s.OnQueue q p) (hnext : s.next p ≠ 0) : s.OnQueue q (s.next p) := by
  have hstep : ∀ a b, Reaches 0 s.next a b → s.next b ≠ 0 → Reaches 0 s.next a (s.next b) := by
    intro a b hab
    induction hab with
    | here hne => exact fun hnext => Reaches.step hne (Reaches.here hnext)
    | step hne _ ih => exact fun hnext => Reaches.step hne (ih hnext)
  exact hstep _ _ h hnext

theorem closed_onSome : Closed s (OnSome s) where
  head := fun q hne => ⟨q, Reaches.here hne⟩
  next := by
    intro p hp hne
    rcases hp with ⟨q, hq⟩
    exact ⟨q, onQueue_next hq hne⟩

theorem onQueue_modify (hp : ¬ s.OnSome p) (f : Pcb → Pcb) (h : s.OnQueue q x) :
    (s.modify p f).OnQueue q x := by
  rw [OnQueue, head_modify]
  apply Reaches.of_agree h
  intro y hy
  have hyp : y ≠ p := by
    intro heq
    rw [heq] at hy
    exact hp ⟨q, hy⟩
  rw [next, pcbs_modify_ne hyp, next]

theorem Closed.of_reaches (h : Closed s S) {a b : U32} (hreach : Reaches 0 s.next a b)
    (ha : a ≠ 0 → S a) : S b := by
  induction hreach with
  | here hne => exact ha hne
  | step hne _ ih => exact ih fun hnext => h.next _ (ha hne) hnext

theorem Closed.onSome (h : Closed s S) (hp : s.OnSome p) : S p := by
  rcases hp with ⟨q, hq⟩
  exact h.of_reaches hq (h.head q)

theorem onSome_modify (hp : ¬ s.OnSome p) (f : Pcb → Pcb) (h : (s.modify p f).OnSome x) :
    s.OnSome x := by
  have hclosed : Closed (s.modify p f) s.OnSome := by
    constructor
    · intro q hne
      rw [head_modify] at hne ⊢
      exact ⟨q, Reaches.here hne⟩
    · intro y hy hne
      have hyp : y ≠ p := fun heq => hp (heq ▸ hy)
      rw [next, pcbs_modify_ne hyp] at hne ⊢
      exact closed_onSome.next y hy hne
  exact hclosed.onSome h

theorem Closed.congr (h : Closed s S) (hnext : s'.next = s.next)
    (hhead : ∀ q, s'.head q = s.head q) : Closed s' S where
  head := by
    intro q hne
    rw [hhead q] at hne ⊢
    exact h.head q hne
  next := by
    intro p hp hne
    rw [hnext] at hne ⊢
    exact h.next p hp hne

theorem Closed.setNext (h : Closed s S) {v : U32} (hv : v ≠ 0 → S v) :
    Closed (s.setNext p v) S where
  head := by
    intro q hne
    rw [head_setNext] at hne ⊢
    exact h.head q hne
  next := by
    intro x hx hne
    rw [next_setNext] at hne ⊢
    by_cases hxp : x = p
    · rw [hxp, Function.update_self] at hne ⊢
      exact hv hne
    · rw [Function.update_of_ne hxp] at hne ⊢
      exact h.next x hx hne

theorem Closed.setHead (h : Closed s S) {v : U32} (hv : v ≠ 0 → S v) :
    Closed (s.setHead q v) S where
  head := by
    intro q' hne
    by_cases hq : q' = q
    · rw [hq, head_setHead_self] at hne ⊢
      exact hv hne
    · rw [head_setHead_ne hq] at hne ⊢
      exact h.head q' hne
  next := by
    intro x hx hne
    rw [next_setHead] at hne ⊢
    exact h.next x hx hne

end Procs

section Loops

variable {s s' : Procs} {q : Queue} {c p : U32} {S : U32 → Prop}

theorem insertLoop_reaches {fuel : Nat} {prev w : U32} (hprev : prev ≠ 0)
    (hrun : insertLoop s c fuel prev = .ok w) : Reaches 0 s.next prev w := by
  induction fuel generalizing prev with
  | zero => cases hrun
  | succ fuel ih =>
      rcases insertLoop_cases hrun with ⟨hmore, hrest⟩ | ⟨-, heq⟩
      · exact Reaches.step hprev (ih hmore.1 hrest)
      · rw [heq]
        exact Reaches.here hprev

theorem insertLoop_stops {fuel : Nat} {prev w : U32} (hrun : insertLoop s c fuel prev = .ok w) :
    ¬ (s.next w ≠ 0 ∧ s.priority c ≥ s.priority (s.next w)) := by
  induction fuel generalizing prev with
  | zero => cases hrun
  | succ fuel ih =>
      rcases insertLoop_cases hrun with ⟨-, hrest⟩ | ⟨hstop, heq⟩
      · exact ih hrest
      · rw [heq]
        exact hstop

theorem pcbInsert_linksOnly (hrun : pcbInsert s c = .ok s') : LinksOnly s s' := by
  rcases pcbInsert_cases hrun with ⟨heq, -⟩ | ⟨-, q, -, heq | ⟨w, -, -, -, heq⟩⟩
  · rw [heq]
    exact linksOnly_refl
  · rw [heq]
    exact (linksOnly_setNext _ _).setHead _
  · rw [heq]
    exact (linksOnly_setNext _ _).setNext _ _

/-- The inserted PCB needs no sound link: it gets a new one. -/
theorem pcbInsert_closed (h : Closed s S) (hrun : pcbInsert s c = .ok s') :
    s' = s ∨ Closed s' fun x => S x ∨ x = c := by
  rcases pcbInsert_cases hrun with ⟨heq, -⟩ | ⟨-, q, -, heq | ⟨w, hhead, -, hloop, heq⟩⟩
  · exact Or.inl heq
  · right
    have hnext : ∀ x, S x ∨ x = c → (s.setNext c (s.head q)).next x ≠ 0 →
        S ((s.setNext c (s.head q)).next x) := by
      intro x hx hne
      rw [next_setNext] at hne ⊢
      by_cases hxc : x = c
      · rw [hxc, Function.update_self] at hne ⊢
        exact h.head q hne
      · rw [Function.update_of_ne hxc] at hne ⊢
        exact h.next x (hx.resolve_right hxc) hne
    have hclosed : Closed (s.setNext c (s.head q)) fun x => S x ∨ x = c := by
      constructor
      · intro q' hne
        rw [head_setNext] at hne ⊢
        exact Or.inl (h.head q' hne)
      · intro x hx hne
        exact Or.inl (hnext x hx hne)
    rw [heq]
    exact hclosed.setHead fun _ => Or.inr rfl
  · right
    have hw : S w := h.of_reaches (insertLoop_reaches hhead hloop) (h.head q)
    have hclosed : Closed (s.setNext c (s.next w)) fun x => S x ∨ x = c := by
      constructor
      · intro q' hne
        rw [head_setNext] at hne ⊢
        exact Or.inl (h.head q' hne)
      · intro x hx hne
        rw [next_setNext] at hne ⊢
        by_cases hxc : x = c
        · rw [hxc, Function.update_self] at hne ⊢
          exact Or.inl (h.next w hw hne)
        · rw [Function.update_of_ne hxc] at hne ⊢
          exact Or.inl (h.next x (hx.resolve_right hxc) hne)
    rw [heq]
    exact hclosed.setNext fun _ => Or.inr rfl

theorem pcbInsert_onSome (hrun : pcbInsert s c = .ok s') (hp : s'.OnSome p) :
    s.OnSome p ∨ p = c := by
  rcases pcbInsert_closed closed_onSome hrun with heq | hclosed
  · rw [heq] at hp
    exact Or.inl hp
  · exact hclosed.onSome hp

theorem removeLoop_reaches {fuel : Nat} {current w : U32}
    (hrun : removeLoop s c fuel current = .ok w) (hw : w ≠ 0) :
    s.next w = c ∧ Reaches 0 s.next current w := by
  induction fuel generalizing current with
  | zero => cases hrun
  | succ fuel ih =>
      rw [removeLoop] at hrun
      by_cases hcond : current ≠ 0 ∧ s.next current ≠ c
      · rw [if_pos hcond] at hrun
        have hrest := ih hrun
        exact ⟨hrest.1, Reaches.step hcond.1 hrest.2⟩
      · rw [if_neg hcond] at hrun
        cases hrun
        constructor
        · by_contra hne
          exact hcond ⟨hw, hne⟩
        · exact Reaches.here hw

/-- Everything that `pcb_remove` can do: nothing, or it unlinks a PCB that is on the
queue of its state. -/
theorem pcbRemove_cases {r : Int} (hrun : pcbRemove s c = .ok (r, s')) :
    (r = pcbError ∧ s' = s) ∨
      r = pcbSuccess ∧ ∃ q, removeQueue (s.pcbs c).state = some q ∧ s.OnQueue q c ∧
        (s' = s.setHead q (s.next c) ∨ ∃ w, s' = s.setNext w (s.next c)) := by
  rw [pcbRemove] at hrun
  by_cases hc : c = 0
  · rw [if_pos hc] at hrun
    cases hrun
    exact Or.inl ⟨rfl, rfl⟩
  · rw [if_neg hc] at hrun
    cases hq : removeQueue (s.pcbs c).state with
    | none =>
        rw [hq] at hrun
        cases hrun
        exact Or.inl ⟨rfl, rfl⟩
    | some q =>
        rw [hq] at hrun
        by_cases hfront : s.head q = c
        · simp only [if_pos hfront] at hrun
          cases hrun
          have hon : s.OnQueue q c := by
            rw [OnQueue, hfront]
            exact Reaches.here hc
          exact Or.inr ⟨rfl, q, rfl, hon, Or.inl rfl⟩
        · simp only [if_neg hfront] at hrun
          rcases of_bind_ok hrun with ⟨w, hloop, heq⟩
          by_cases hw : w = 0
          · rw [if_pos hw] at heq
            cases heq
            exact Or.inl ⟨rfl, rfl⟩
          · rw [if_neg hw] at heq
            cases heq
            rcases removeLoop_reaches hloop hw with ⟨hnext, hreach⟩
            have hon : s.OnQueue q c := by
              have hstep := onQueue_next hreach (by rwa [hnext])
              rwa [hnext] at hstep
            exact Or.inr ⟨rfl, q, rfl, hon, Or.inr ⟨w, rfl⟩⟩

theorem removeLoop_null {fuel : Nat} {current : U32}
    (hrun : removeLoop s c fuel current = .ok 0) (hreach : Reaches 0 s.next current c) :
    current = c := by
  induction fuel generalizing current with
  | zero => cases hrun
  | succ fuel ih =>
      rw [removeLoop] at hrun
      cases hreach with
      | here _ => rfl
      | step hne hrest =>
          by_cases hnext : s.next current = c
          · rw [if_neg fun hcond => hcond.2 hnext] at hrun
            cases hrun
            exact absurd rfl hne
          · rw [if_pos ⟨hne, hnext⟩] at hrun
            exact absurd (ih hrun hrest) hnext

/-- What is on the queue of its state is removed, if the search ends. -/
theorem pcbRemove_onQueue {r : Int} (hq : removeQueue (s.pcbs c).state = some q)
    (hon : s.OnQueue q c) (hne : c ≠ 0) (hrun : pcbRemove s c = .ok (r, s')) :
    r = pcbSuccess := by
  rw [pcbRemove, if_neg hne, hq] at hrun
  by_cases hfront : s.head q = c
  · simp only [if_pos hfront] at hrun
    cases hrun
    rfl
  · simp only [if_neg hfront] at hrun
    rcases of_bind_ok hrun with ⟨w, hloop, heq⟩
    by_cases hw : w = 0
    · rw [hw] at hloop
      exact absurd (removeLoop_null hloop hon) hfront
    · rw [if_neg hw] at heq
      cases heq
      rfl

theorem pcbRemove_linksOnly {r : Int} (hrun : pcbRemove s c = .ok (r, s')) :
    LinksOnly s s' := by
  rcases pcbRemove_cases hrun with ⟨-, heq⟩ | ⟨-, q, -, -, heq | ⟨w, heq⟩⟩
  · rw [heq]
    exact linksOnly_refl
  · rw [heq]
    exact linksOnly_refl.setHead _
  · rw [heq]
    exact linksOnly_setNext _ _

theorem pcbRemove_closed {r : Int} (h : Closed s S) (hrun : pcbRemove s c = .ok (r, s')) :
    Closed s' S := by
  have hnext : s.OnSome c → s.next c ≠ 0 → S (s.next c) := by
    intro hon hne
    exact h.next c (h.onSome hon) hne
  rcases pcbRemove_cases hrun with ⟨-, heq⟩ | ⟨-, q, -, hon, heq | ⟨w, heq⟩⟩
  · rwa [heq]
  · rw [heq]
    exact h.setHead (hnext ⟨q, hon⟩)
  · rw [heq]
    exact h.setNext (hnext ⟨q, hon⟩)

end Loops

end Mpx
