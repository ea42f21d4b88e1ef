import Mpx.Process.Order

/-! What `pcb_remove` takes off a queue, and whether it undoes `pcb_insert`. -/

namespace Mpx

open Memory PointerList Procs

section Remove

variable {s s' : Procs} {lists : Queue → List U32} {p : U32} {q : Queue}

theorem removeQueue_iff {state : Int} :
    removeQueue state = some q ↔ Designates state q ∧ q ≠ .blocked := by
  unfold removeQueue
  cases q <;> simp only [Designates, readyState, resumeState, blockedState, suspendedState] <;>
    grind

/-- `s'` has the queue `q` without `p`, and the other queues as they were. The blocked queue
may be anything: its head stays, and so does all of it where it has no PCB of `q`. -/
structure Unlinked (s s' : Procs) (lists : Queue → List U32) (q : Queue) (p : U32) : Prop where
  holds : s'.Holds q ((lists q).erase p)
  untouched : ∀ x, x ∉ lists q → s'.pcbs x = s.pcbs x
  other : ∀ q', q' ≠ q → q' ≠ .blocked → s'.Holds q' (lists q')
  blockedHead : s'.blockedHead = s.blockedHead
  blocked : ∀ ys, s.Holds .blocked ys → (∀ y ∈ ys, y ∉ lists q) → s'.Holds .blocked ys

theorem unlinked_of_relinked (hlists : ∀ q, q ≠ .blocked → s.Holds q (lists q))
    (hdisjoint : ∀ x ∈ lists .ready, x ∉ lists .suspended) (hq : q ≠ .blocked)
    (hholds : s'.Holds q ((lists q).erase p)) (hlink : s.Relinked s' q (lists q)) :
    Unlinked s s' lists q p where
  holds := hholds
  untouched := hlink.same
  other := by
    intro q' hne hblocked
    apply hlink.toKept.holds hne (hlists q' hblocked)
    intro x hx hx'
    cases q <;> cases q'
    case ready.suspended => exact hdisjoint x hx' hx
    case suspended.ready => exact hdisjoint x hx hx'
    all_goals contradiction
  blockedHead := hlink.heads .blocked hq.symm
  blocked := fun ys hys hapart => hlink.toKept.holds hq.symm hys hapart

/-- `pcb_remove` takes its argument off the queue of its state, or changes nothing when the
argument is not there. -/
theorem pcb_remove_exact (s : Procs) (lists : Queue → List U32)
    (hlists : ∀ q, q ≠ .blocked → s.Holds q (lists q))
    (hdisjoint : ∀ x ∈ lists .ready, x ∉ lists .suspended) (p : U32) (q : Queue)
    (hq : q ≠ .blocked) (hp : Designates (s.pcbs p).state q) :
    ∃ r s', pcbRemove s p = .ok (r, s') ∧ (r = pcbSuccess ↔ p ∈ lists q) ∧
      (r = pcbSuccess → Unlinked s s' lists q p) ∧
      (r ≠ pcbSuccess → r = pcbError ∧ s' = s) := by
  have hqueue : removeQueue (s.pcbs p).state = some q := removeQueue_iff.mpr ⟨hp, hq⟩
  by_cases hmem : p ∈ lists q
  · rcases pcbRemove_mem hqueue (hlists q hq) hmem with ⟨s', hrun, hholds, hlink⟩
    refine ⟨pcbSuccess, s', hrun, iff_of_true rfl hmem, fun _ => ?_, fun hne => absurd rfl hne⟩
    exact unlinked_of_relinked hlists hdisjoint hq hholds hlink
  · have hrun : pcbRemove s p = .ok (pcbError, s) := by
      apply pcbRemove_not_mem
      intro q' hq'
      rw [hqueue] at hq'
      cases hq'
      exact ⟨lists q, hlists q hq, hmem⟩
    have hfail : pcbError ≠ pcbSuccess := by decide
    exact ⟨pcbError, s, hrun, iff_of_false hfail hmem, fun heq => absurd heq hfail,
      fun _ => ⟨rfl, rfl⟩⟩

def twoReady : Procs :=
  ⟨fun p => ⟨[65, 0], 1, 3, readyState, 0, if p = 0x1000 then 0x2000 else 0, 0⟩, 0x1000, 0, 0⟩

def twoReadyLists : Queue → List U32
  | .ready => [0x1000, 0x2000]
  | .blocked => []
  | .suspended => []

theorem pcb_remove_exact_last : ∃ s', pcbRemove twoReady 0x2000 = .ok (pcbSuccess, s') ∧
    Unlinked twoReady s' twoReadyLists .ready 0x2000 := by
  have hlists : ∀ q, q ≠ .blocked → twoReady.Holds q (twoReadyLists q) := by
    intro q _
    cases q <;> decide
  rcases pcb_remove_exact twoReady twoReadyLists hlists (by simp [twoReadyLists]) 0x2000 .ready
    (by decide) (by decide) with ⟨r, s', hrun, hsuccess, hunlinked, -⟩
  have hr : r = pcbSuccess := hsuccess.mpr (by decide)
  rw [hr] at hrun
  exact ⟨s', hrun, hunlinked hr⟩

end Remove

section RoundTrip

variable {s : Procs} {lists : Queue → List U32} {c : U32} {q : Queue}

/-- `pcb_insert` and `pcb_remove` of the PCB succeed and leave the queues as they were. -/
def Dequeued (s : Procs) (lists : Queue → List U32) (c : U32) : Prop :=
  ∃ s₁ s₂, pcbInsert s c = .ok s₁ ∧ pcbRemove s₁ c = .ok (pcbSuccess, s₂) ∧
    ∀ q, s₂.Holds q (lists q)

theorem enqueue_erase {xs : List U32} (hnew : c ∉ xs) : (s.enqueue c xs).erase c = xs :=
  List.erase_orderedInsert_of_notMem hnew

theorem dequeued_of_ne (h : Queues s lists) (hc : c ≠ 0) (hnew : ∀ q, c ∉ lists q)
    (hq : Designates (s.pcbs c).state q) (hne : q ≠ .blocked) : Dequeued s lists c := by
  rcases h.insert hc hnew hq with ⟨s₁, hinsert, h₁, hlink⟩
  have hqueue : removeQueue (s₁.pcbs c).state = some q := by
    rw [hlink.state]
    exact removeQueue_iff.mpr ⟨hq, hne⟩
  have hholds := h₁.holds q
  rw [Function.update_self] at hholds
  have hmem : c ∈ s.enqueue c (lists q) := (enqueue_perm c).mem_iff.mpr List.mem_cons_self
  rcases pcbRemove_mem hqueue hholds hmem with ⟨s₂, hremove, hholds₂, hlink₂⟩
  refine ⟨s₁, s₂, hinsert, hremove, ?_⟩
  intro q'
  by_cases hqq : q' = q
  · rw [hqq]
    rwa [enqueue_erase (hnew q)] at hholds₂
  · have hother := h₁.holds q'
    rw [Function.update_of_ne hqq] at hother
    apply hlink₂.toKept.holds hqq hother
    intro x hx hx'
    rcases List.mem_cons.mp ((enqueue_perm c).mem_iff.mp hx') with heq | hin
    · exact hnew q' (heq ▸ hx)
    · exact h.disjoint q' q hqq x hx hin

theorem not_dequeued_blocked (h : Queues s lists) (hc : c ≠ 0) (hnew : ∀ q, c ∉ lists q)
    (hq : Designates (s.pcbs c).state .blocked) : ¬ Dequeued s lists c := by
  intro hback
  rcases hback with ⟨s₁, s₂, hinsert, hremove, -⟩
  rcases h.insert hc hnew hq with ⟨s₁', hinsert', -, hlink⟩
  rw [hinsert'] at hinsert
  cases hinsert
  have hfail : pcbRemove s₁ c = .ok (pcbError, s₁) := by
    apply pcbRemove_not_mem
    intro q hq'
    rw [hlink.state, removeQueue_iff, designates_iff] at hq'
    rw [designates_iff, hq'.1] at hq
    exact absurd (Option.some.inj hq) hq'.2
  rw [hfail] at hremove
  cases hremove

/-- What `pcb_insert` has put on a queue can be removed, except from the blocked queue. -/
theorem insert_remove_iff (s : Procs) (lists : Queue → List U32) (h : Queues s lists) (c : U32)
    (hc : c ≠ 0) (hnew : ∀ q, c ∉ lists q) (hq : ∃ q, insertQueue (s.pcbs c).state = some q) :
    Dequeued s lists c ↔ (s.pcbs c).state ≠ blockedState := by
  rcases hq with ⟨q, hq⟩
  have hdes := designates_iff.mpr hq
  by_cases hblocked : q = .blocked
  · rw [hblocked] at hdes
    have hstate : (s.pcbs c).state = blockedState := hdes
    apply iff_of_false (not_dequeued_blocked h hc hnew hdes)
    exact not_not_intro hstate
  · apply iff_of_true (dequeued_of_ne h hc hnew hdes hblocked)
    intro hstate
    have hdes' : Designates (s.pcbs c).state .blocked := hstate
    rw [designates_iff, hq] at hdes'
    exact hblocked (Option.some.inj hdes')

theorem insert_remove_iff_ready : Dequeued looseProcs (fun _ => []) 0x1000 := by
  apply (insert_remove_iff looseProcs (fun _ => []) looseProcs_queues 0x1000 (by decide) (by simp)
    ⟨.ready, by decide⟩).mpr
  decide

/-- A blocked PCB is inserted into the empty blocked queue and is not found there. -/
theorem blocked_not_removed :
    insertQueue (looseProcs.pcbs 0x3000).state = some .blocked ∧
    Queues looseProcs (fun _ => []) ∧ ¬ Dequeued looseProcs (fun _ => []) 0x3000 ∧
    (do
      let s ← pcbInsert looseProcs 0x3000
      let (r, s) ← pcbRemove s 0x3000
      return (r, s.blockedHead)) = .ok (pcbError, 0x3000) := by
  refine ⟨by decide, looseProcs_queues, ?_, by decide +kernel⟩
  exact not_dequeued_blocked looseProcs_queues (by decide) (by simp) (by decide)

end RoundTrip

end Mpx
