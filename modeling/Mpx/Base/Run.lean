import Mathlib.Logic.Relation

/-! Invariants of the runs of a step relation, and what a run that returns went through. -/

namespace Mpx.Run

section Invariant

variable {State : Type*} {step : State → State → Prop}

/-- What holds initially and is kept by every step holds after every run. -/
theorem invariant (Inv : State → Prop) (hstep : ∀ s t, Inv s → step s t → Inv t)
    {s t : State} (hrun : Relation.ReflTransGen step s t) (hinit : Inv s) : Inv t := by
  induction hrun with
  | refl => exact hinit
  | tail _ hlast ih => exact hstep _ _ ih hlast

end Invariant

section Counted

variable {State : Type*} {tick quiet : State → State → Prop}

/-- A run of steps of two kinds, with the number of those of the first kind. -/
inductive Counted (tick quiet : State → State → Prop) : Nat → State → State → Prop
  | refl (s : State) : Counted tick quiet 0 s s
  | tick {n : Nat} {s t u : State} (hrun : Counted tick quiet n s t) (hstep : tick t u) :
      Counted tick quiet (n + 1) s u
  | quiet {n : Nat} {s t u : State} (hrun : Counted tick quiet n s t) (hstep : quiet t u) :
      Counted tick quiet n s u

theorem Counted.invariant (Inv : Nat → State → Prop)
    (htick : ∀ n s t, Inv n s → tick s t → Inv (n + 1) t)
    (hquiet : ∀ n s t, Inv n s → quiet s t → Inv n t) {n : Nat} {s t : State}
    (hrun : Counted tick quiet n s t) (hinit : Inv 0 s) : Inv n t := by
  induction hrun with
  | refl => exact hinit
  | tick _ hlast ih => exact htick _ _ _ (ih hinit) hlast
  | quiet _ hlast ih => exact hquiet _ _ _ (ih hinit) hlast

end Counted

section Program

variable {State : Type*} {P I : State → Prop} {xs ys : List (State → State)} {s : State}

def runAll (program : List (State → State)) (s : State) : State :=
  program.foldl (fun s f => f s) s

def Always (P : State → Prop) (program : List (State → State)) (s : State) : Prop :=
  ∀ n, P (runAll (program.take n) s)

def Keeps (I : State → Prop) (program : List (State → State)) : Prop :=
  ∀ f ∈ program, ∀ s, I s → I (f s)

theorem runAll_append : runAll (xs ++ ys) s = runAll ys (runAll xs s) := List.foldl_append

theorem keeps_append (hxs : Keeps I xs) (hys : Keeps I ys) : Keeps I (xs ++ ys) := by
  intro f hf
  cases List.mem_append.mp hf with
  | inl hmem => exact hxs f hmem
  | inr hmem => exact hys f hmem

theorem Keeps.runAll (h : Keeps I xs) (hs : I s) : I (runAll xs s) := by
  induction xs generalizing s with
  | nil => exact hs
  | cons f xs ih =>
      exact ih (fun g hg => h g (List.mem_cons_of_mem f hg)) (h f List.mem_cons_self s hs)

theorem Keeps.always (h : Keeps I xs) (hs : I s) (himp : ∀ s, I s → P s) : Always P xs s := by
  intro n
  have htake : Keeps I (xs.take n) := fun f hf => h f (List.mem_of_mem_take hf)
  exact himp _ (htake.runAll hs)

theorem Always.cons {f : State → State} (hs : P s) (hxs : Always P xs (f s)) :
    Always P (f :: xs) s := by
  intro n
  cases n with
  | zero => exact hs
  | succ n => exact hxs n

theorem Always.append (hxs : Always P xs s) (hys : Always P ys (Run.runAll xs s)) :
    Always P (xs ++ ys) s := by
  intro n
  rw [List.take_append]
  cases Nat.le_total n xs.length with
  | inl hle =>
      rw [Nat.sub_eq_zero_of_le hle, List.take_zero, List.append_nil]
      exact hxs n
  | inr hle =>
      rw [List.take_of_length_le hle, runAll_append]
      exact hys _

end Program

section Return

variable {ε α β : Type} {x : Except ε α} {f : α → Except ε β} {b : β}

theorem ok_bind (a : α) (f : α → Except ε β) : (Except.ok a >>= f) = f a := rfl

theorem of_bind_ok (h : (x >>= f) = .ok b) : ∃ a, x = .ok a ∧ f a = .ok b := by
  cases x with
  | error e => cases h
  | ok a => exact ⟨a, rfl, h⟩

theorem of_map_ok {f : α → β} (h : x.map f = .ok b) : ∃ a, x = .ok a ∧ f a = b := by
  cases x with
  | error e => cases h
  | ok a => exact ⟨a, rfl, Except.ok.inj h⟩

theorem of_map_fst_ok {x : Except ε (α × β)} {a : α} (h : x.map Prod.fst = .ok a) :
    ∃ b, x = .ok (a, b) := by
  rcases of_map_ok h with ⟨⟨a', b⟩, hx, heq⟩
  cases heq
  exact ⟨b, hx⟩

theorem of_bind_error {e : ε} (h : (x >>= f) = .error e) :
    x = .error e ∨ ∃ a, x = .ok a ∧ f a = .error e := by
  cases x with
  | error e' => exact Or.inl (by cases h; rfl)
  | ok a => exact Or.inr ⟨a, rfl, h⟩

end Return

end Mpx.Run
