import Mathlib.Logic.Basic
import Mpx.Base.Run

/-! Counting loops that run until their condition fails. -/

namespace Mpx.Loop

variable {ι σ ε : Type}

def forLoop (diverges : ε) (cond : ι → σ → Bool) (next : ι → ι) (body : ι → σ → Except ε σ) :
    Nat → ι → σ → Except ε σ
  | 0, _, _ => .error diverges
  | fuel + 1, i, s =>
      if cond i s then do
        let s ← body i s
        forLoop diverges cond next body fuel (next i) s
      else .ok s

section Rule

variable {diverges : ε} {cond : ι → σ → Bool} {next : ι → ι} {body : ι → σ → Except ε σ}

/-- A loop with the counter `index 0`, `index 1`, .. ends when every round keeps the
invariant and there are at most `bound` rounds. -/
theorem forLoop_rule (index : Nat → ι) (Inv : Nat → σ → Prop) (bound : Nat)
    (hindex : ∀ n, next (index n) = index (n + 1))
    (hbody : ∀ n s, Inv n s → cond (index n) s = true →
      n < bound ∧ ∃ s', body (index n) s = .ok s' ∧ Inv (n + 1) s')
    {n fuel : Nat} {s : σ} (h : Inv n s) (hn : n ≤ bound) (hfuel : bound < n + fuel) :
    ∃ n' s', forLoop diverges cond next body fuel (index n) s = .ok s' ∧ Inv n' s' ∧
      cond (index n') s' = false := by
  induction fuel generalizing n s with
  | zero => omega
  | succ fuel ih =>
      rw [forLoop]
      cases hcond : cond (index n) s with
      | false => exact ⟨n, s, rfl, h, hcond⟩
      | true =>
          rcases hbody n s h hcond with ⟨hlt, s₁, hrun, h₁⟩
          rcases ih h₁ hlt (by omega) with ⟨n', s', hrest, h', hend⟩
          refine ⟨n', s', ?_, h', hend⟩
          simp only [if_true, hrun, hindex, bind, Except.bind]
          exact hrest

/-- What every round keeps that returns holds when the loop has returned. -/
theorem forLoop_invariant (Inv : σ → Prop)
    (hbody : ∀ i s s', Inv s → body i s = .ok s' → Inv s') {fuel : Nat} {i : ι} {s s' : σ}
    (h : Inv s) (hrun : forLoop diverges cond next body fuel i s = .ok s') : Inv s' := by
  induction fuel generalizing i s with
  | zero => cases hrun
  | succ fuel ih =>
      rw [forLoop] at hrun
      cases hcond : cond i s with
      | false =>
          rw [hcond] at hrun
          cases hrun
          exact h
      | true =>
          rw [hcond, if_pos rfl] at hrun
          rcases Run.of_bind_ok hrun with ⟨s₁, hround, hrest⟩
          exact ih (hbody i s s₁ h hround) hrest

end Rule

end Mpx.Loop
