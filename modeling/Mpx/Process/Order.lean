import Mpx.Process.Queue

/-! Any number of insertions sort each queue by priority, stably. -/

namespace Mpx

open Memory PointerList Procs StableSort

def Designates (state : Int) : Queue → Prop
  | .ready => state = readyState ∨ state = resumeState
  | .blocked => state = blockedState
  | .suspended => state = suspendedState

instance (state : Int) : (q : Queue) → Decidable (Designates state q)
  | .ready => inferInstanceAs (Decidable (state = readyState ∨ state = resumeState))
  | .blocked => inferInstanceAs (Decidable (state = blockedState))
  | .suspended => inferInstanceAs (Decidable (state = suspendedState))

theorem designates_iff {state : Int} {q : Queue} :
    Designates state q ↔ insertQueue state = some q := by
  unfold insertQueue
  cases q <;> simp only [Designates, readyState, resumeState, blockedState, suspendedState] <;>
    grind

theorem enqueue_eq_stableSort {s : Procs} {c : U32} {xs : List U32} (h : s.Sorted xs) :
    s.enqueue c xs = stableSort s.priority (xs ++ [c]) := by
  rw [stableSort_concat, stableSort_of_sorted h]
  rfl

def enqueueAll (s : Procs) (new xs : List U32) : List U32 :=
  new.foldl (fun xs c => s.enqueue c xs) xs

theorem mem_ahead_enqueueAll {s : Procs} {new xs : List U32} {v : Int} {x : U32}
    (hnew : ∀ c ∈ new, s.priority c ≤ v) :
    x ∈ s.ahead v (enqueueAll s new xs) ↔ x ∈ new ∨ x ∈ s.ahead v xs := by
  induction new generalizing xs with
  | nil => simp [enqueueAll]
  | cons c new ih =>
      rcases List.forall_mem_cons.mp hnew with ⟨hc, hrest⟩
      have hsplit : enqueueAll s (c :: new) xs = enqueueAll s new (s.enqueue c xs) := rfl
      rw [hsplit, ih hrest, mem_ahead_enqueue hc, List.mem_cons, or_assoc, or_left_comm]

def insertAll (s : Procs) : List U32 → Except Fault Procs
  | [] => .ok s
  | c :: cs => do
      let s ← pcbInsert s c
      insertAll s cs

def arrivals (s : Procs) (q : Queue) (new : List U32) : List U32 :=
  new.filter fun c => Designates (s.pcbs c).state q

section Insert

variable {s s' : Procs} {lists : Queue → List U32} {c : U32} {q : Queue}

theorem Queues.insert (h : Queues s lists) (hc : c ≠ 0) (hnew : ∀ q, c ∉ lists q)
    (hq : Designates (s.pcbs c).state q) :
    ∃ s', pcbInsert s c = .ok s' ∧
      Queues s' (Function.update lists q (s.enqueue c (lists q))) ∧
      s.Relinked s' q (c :: lists q) := by
  rcases pcbInsert_spec hc (designates_iff.mp hq) (h.holds q) (hnew q) with
    ⟨s', hrun, hholds, hlink⟩
  have hapart : ∀ q', q' ≠ q → ∀ x ∈ lists q', x ∉ c :: lists q := by
    intro q' hne x hx hmem
    rcases List.mem_cons.mp hmem with heq | hin
    · exact hnew q' (heq ▸ hx)
    · exact h.disjoint q' q hne x hx hin
  have hmem : ∀ x, x ∈ s.enqueue c (lists q) ↔ x ∈ c :: lists q := by
    intro x
    exact (enqueue_perm c).mem_iff
  refine ⟨s', hrun, ⟨?_, ?_, ?_⟩, hlink⟩
  · intro q'
    by_cases hqq : q' = q
    · rw [hqq, Function.update_self]
      exact hholds
    · rw [Function.update_of_ne hqq]
      exact hlink.toKept.holds hqq (h.holds q') (hapart q' hqq)
  · intro q'
    rw [Sorted, hlink.priority]
    by_cases hqq : q' = q
    · rw [hqq, Function.update_self]
      exact enqueue_sorted c (h.sorted q)
    · rw [Function.update_of_ne hqq]
      exact h.sorted q'
  · intro q₁ q₂ hne x hx
    by_cases h₁ : q₁ = q
    · rw [h₁, Function.update_self, hmem] at hx
      rw [Function.update_of_ne fun heq => hne (h₁.trans heq.symm)]
      intro hx'
      exact hapart q₂ (fun heq => hne (h₁.trans heq.symm)) x hx' hx
    · rw [Function.update_of_ne h₁] at hx
      by_cases h₂ : q₂ = q
      · rw [h₂, Function.update_self, hmem]
        exact hapart q₁ h₁ x hx
      · rw [Function.update_of_ne h₂]
        exact h.disjoint q₁ q₂ hne x hx

theorem arrivals_cons_self {new : List U32} (hq : Designates (s.pcbs c).state q) :
    arrivals s q (c :: new) = c :: arrivals s q new :=
  List.filter_cons_of_pos (decide_eq_true hq)

theorem arrivals_cons_ne {new : List U32} {q' : Queue} (hq : Designates (s.pcbs c).state q)
    (hne : q' ≠ q) : arrivals s q' (c :: new) = arrivals s q' new := by
  apply List.filter_cons_of_neg
  rw [decide_eq_true_iff]
  intro hq'
  rw [designates_iff] at hq hq'
  rw [hq] at hq'
  exact hne (Option.some.inj hq').symm

theorem arrivals_relinked {new touched : List U32} {q' : Queue} (h : s.Relinked s' q touched) :
    arrivals s' q' new = arrivals s q' new := by
  unfold arrivals
  simp only [h.state]

/-- By induction on the arrivals: what is sorted already takes the next PCB in. -/
theorem insertAll_spec {new : List U32} (h : Queues s lists) (hnull : ∀ c ∈ new, c ≠ 0)
    (hnodup : new.Nodup) (hnew : ∀ c ∈ new, ∀ q, c ∉ lists q)
    (hstate : ∀ c ∈ new, ∃ q, Designates (s.pcbs c).state q) :
    ∃ s', insertAll s new = .ok s' ∧
      Queues s' (fun q => stableSort s.priority (lists q ++ arrivals s q new)) := by
  induction new generalizing s lists with
  | nil =>
      have hsorted : (fun q => stableSort s.priority (lists q ++ arrivals s q [])) = lists := by
        funext q
        rw [arrivals, List.filter_nil, List.append_nil]
        exact stableSort_of_sorted (h.sorted q)
      rw [hsorted]
      exact ⟨s, rfl, h⟩
  | cons c new ih =>
      rcases List.nodup_cons.mp hnodup with ⟨hcnew, hrest⟩
      rcases hstate c List.mem_cons_self with ⟨q, hq⟩
      rcases h.insert (hnull c List.mem_cons_self) (hnew c List.mem_cons_self) hq with
        ⟨s₁, hrun₁, h₁, hlink⟩
      have hnew₁ : ∀ d ∈ new, ∀ q', d ∉ Function.update lists q (s.enqueue c (lists q)) q' := by
        intro d hd q'
        have hold := hnew d (List.mem_cons_of_mem _ hd)
        by_cases hqq : q' = q
        · rw [hqq, Function.update_self, (enqueue_perm c).mem_iff, List.mem_cons, not_or]
          exact ⟨ne_of_mem_of_not_mem hd hcnew, hold q⟩
        · rw [Function.update_of_ne hqq]
          exact hold q'
      have hstate₁ : ∀ d ∈ new, ∃ q', Designates (s₁.pcbs d).state q' := by
        intro d hd
        rw [hlink.state]
        exact hstate d (List.mem_cons_of_mem _ hd)
      rcases ih h₁ (fun d hd => hnull d (List.mem_cons_of_mem _ hd)) hrest hnew₁ hstate₁ with
        ⟨s', hrun, h'⟩
      have hsorted : (fun q' => stableSort s₁.priority
          (Function.update lists q (s.enqueue c (lists q)) q' ++ arrivals s₁ q' new)) =
          fun q' => stableSort s.priority (lists q' ++ arrivals s q' (c :: new)) := by
        funext q'
        rw [hlink.priority, arrivals_relinked hlink]
        by_cases hqq : q' = q
        · rw [hqq, Function.update_self, arrivals_cons_self hq, List.append_cons,
            enqueue_eq_stableSort (h.sorted q), stableSort_append]
        · rw [Function.update_of_ne hqq, arrivals_cons_ne hq hqq]
      rw [hsorted] at h'
      refine ⟨s', ?_, h'⟩
      rw [insertAll, hrun₁]
      exact hrun

/-- The former contents of a queue followed by its new PCBs: each queue ends with these in
the order of their priorities, and equal priorities stay in the order of arrival. -/
theorem pcb_insert_stable_sort (s : Procs) (lists : Queue → List U32) (h : Queues s lists)
    (new : List U32) (hnull : ∀ c ∈ new, c ≠ 0) (hnodup : new.Nodup)
    (hnew : ∀ c ∈ new, ∀ q, c ∉ lists q)
    (hstate : ∀ c ∈ new, ∃ q, Designates (s.pcbs c).state q) :
    ∃ s' lists', insertAll s new = .ok s' ∧ Queues s' lists' ∧
      ∀ q, lists' q = stableSort s.priority (lists q ++ arrivals s q new) ∧
        (lists' q).Perm (lists q ++ arrivals s q new) ∧
        ∀ k, withKey s.priority k (lists' q) =
          withKey s.priority k (lists q ++ arrivals s q new) := by
  rcases insertAll_spec h hnull hnodup hnew hstate with ⟨s', hrun, h'⟩
  refine ⟨s', _, hrun, h', fun q => ⟨rfl, ?_, ?_⟩⟩
  · exact stableSort_perm _
  · exact fun k => stableSort_withKey k _

def looseProcs : Procs :=
  ⟨fun p => ⟨[65, 0], 1, 3, if p = 0x3000 then blockedState else readyState, 0, 7, 0⟩, 0, 0, 0⟩

theorem looseProcs_queues : Queues looseProcs fun _ => [] where
  holds := by
    intro q
    cases q <;> rfl
  sorted := fun _ => List.Pairwise.nil
  disjoint := by simp

theorem pcb_insert_stable_sort_three :
    ∃ s', insertAll looseProcs [0x2000, 0x3000, 0x1000] = .ok s' ∧
      s'.Holds .ready [0x2000, 0x1000] ∧ s'.Holds .blocked [0x3000] := by
  have hstate : ∀ c ∈ ([0x2000, 0x3000, 0x1000] : List U32),
      ∃ q, Designates (looseProcs.pcbs c).state q := by
    simp only [List.forall_mem_cons, List.not_mem_nil, false_implies, implies_true, and_true]
    exact ⟨⟨.ready, by decide⟩, ⟨.blocked, by decide⟩, ⟨.ready, by decide⟩⟩
  rcases pcb_insert_stable_sort looseProcs (fun _ => []) looseProcs_queues
    [0x2000, 0x3000, 0x1000] (by simp) (by decide) (by simp) hstate with
    ⟨s', lists', hrun, hqueues, hlists⟩
  have hready : lists' .ready = [0x2000, 0x1000] := by
    rw [(hlists .ready).1]
    exact stableSort_of_sorted (by decide)
  have hblocked : lists' .blocked = [0x3000] := by
    rw [(hlists .blocked).1]
    exact stableSort_of_sorted (by decide)
  exact ⟨s', hrun, hready ▸ hqueues.holds .ready, hblocked ▸ hqueues.holds .blocked⟩

end Insert

end Mpx
