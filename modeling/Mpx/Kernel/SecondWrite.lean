import Mpx.Kernel.LiveLinks

/-! The second WRITE of the most urgent process: nobody takes it off the blocked queue, and
`pcb_insert` does not end on a PCB that is linked to itself. -/

namespace Mpx

open Memory PointerList Procs Run

namespace Procs

variable {S : U32 → Prop} {s s' s'' : Procs} {c d w : U32} {q : Queue} {fuel : Nat}

structure MostUrgent (s : Procs) (S : U32 → Prop) (c : U32) : Prop where
  mem : S c
  null : c ≠ 0
  least : ∀ x, S x → x ≠ c → s.priority c < s.priority x

theorem MostUrgent.congr (h : MostUrgent s S c) (hpriority : s'.priority = s.priority) :
    MostUrgent s' S c where
  mem := h.mem
  null := h.null
  least := by
    rw [hpriority]
    exact h.least

theorem LinksOnly.priority (h : LinksOnly s s') : s'.priority = s.priority := by
  funext x
  obtain ⟨v, hv⟩ := h x
  rw [Procs.priority, hv, Procs.priority]

/-- By induction on the fuel: the loop stays where it is. -/
theorem insertLoop_selfLink (hc : c ≠ 0) (hnext : s.next c = c)
    (hle : s.priority c ≤ s.priority d) (fuel : Nat) :
    insertLoop s d fuel c = .error .diverges := by
  induction fuel with
  | zero => rfl
  | succ fuel ih =>
      have hmore : s.next c ≠ 0 ∧ s.priority d ≥ s.priority (s.next c) := by
        rw [hnext]
        exact ⟨hc, hle⟩
      rw [insertLoop, if_pos hmore, hnext]
      exact ih

theorem insertLoop_mostUrgent (h : MostUrgent s S c) (hclosed : Closed s S)
    (hrun : insertLoop s c fuel c = .ok w) : s.next c ≠ c ∧ w = c := by
  cases fuel with
  | zero => cases hrun
  | succ fuel =>
      by_cases hnext : s.next c = c
      · rw [insertLoop_selfLink h.null hnext (le_refl _)] at hrun
        cases hrun
      · cases insertLoop_cases hrun with
        | inl hmore =>
            obtain ⟨⟨hne, hle⟩, -⟩ := hmore
            have hless := h.least _ (hclosed.next c h.mem hne) hnext
            exact absurd hle (not_le.mpr hless)
        | inr hstop => exact ⟨hnext, hstop.2⟩

/-- The most urgent process comes to the front, and behind itself when it is there already. -/
theorem pcbInsert_mostUrgent (h : MostUrgent s S c) (hclosed : Closed s S)
    (hq : insertQueue (s.pcbs c).state = some q) (hrun : pcbInsert s c = .ok s') :
    s'.head q = c ∧ (s.head q = c → s.next c ≠ c ∧ s'.next c = c) ∧ s.Kept s' q [c] := by
  have hself : c ∈ [c] := List.mem_singleton_self c
  rw [pcbInsert, if_neg h.null, hq] at hrun
  by_cases hfront : s.head q = 0 ∨ s.priority c < s.priority (s.head q)
  · simp only [if_pos hfront] at hrun
    cases hrun
    refine ⟨head_setHead_self c, ?_, (((Relinked.refl _).setNext hself _).setHead _).toKept⟩
    intro hhead
    rw [hhead] at hfront
    cases hfront with
    | inl hnull => exact absurd hnull h.null
    | inr hless => exact absurd hless (lt_irrefl _)
  · simp only [if_neg hfront] at hrun
    obtain ⟨v, hloop, heq⟩ := of_bind_ok hrun
    cases heq
    obtain ⟨hhead, hle⟩ := not_or.mp hfront
    have hfirst : s.head q = c := by
      by_contra hne
      exact hle (h.least _ (hclosed.head q hhead) hne)
    rw [hfirst] at hloop
    obtain ⟨hnext, rfl⟩ := insertLoop_mostUrgent h hclosed hloop
    refine ⟨?_, fun _ => ⟨hnext, ?_⟩,
      (((Relinked.refl _).setNext hself _).setNext hself _).toKept⟩
    · rw [head_setNext, head_setNext, hfirst]
    · rw [next_setNext, Function.update_self]

structure StaysFirst (S : U32 → Prop) (c : U32) (s s' : Procs) : Prop where
  priority : s'.priority = s.priority
  head : MostUrgent s S c → s.blockedHead = c → s'.blockedHead = c

theorem StaysFirst.trans (h : StaysFirst S c s s') (h' : StaysFirst S c s' s'') :
    StaysFirst S c s s'' where
  priority := h'.priority.trans h.priority
  head := fun hurgent hhead => h'.head (hurgent.congr h.priority) (h.head hurgent hhead)

theorem staysFirst_insert (hd : S d) (hrun : pcbInsert s d = .ok s') : StaysFirst S c s s' where
  priority := (pcbInsert_linksOnly hrun).priority
  head := by
    intro hurgent hhead
    rw [pcbInsert] at hrun
    by_cases hnull : d = 0
    · rw [if_pos hnull] at hrun
      cases hrun
      exact hhead
    · rw [if_neg hnull] at hrun
      cases hq : insertQueue (s.pcbs d).state with
      | none =>
          rw [hq] at hrun
          cases hrun
          exact hhead
      | some q =>
          rw [hq] at hrun
          by_cases hfront : s.head q = 0 ∨ s.priority d < s.priority (s.head q)
          · simp only [if_pos hfront] at hrun
            cases hrun
            cases q with
            | ready => exact hhead
            | suspended => exact hhead
            | blocked =>
                have hhead' : s.head .blocked = c := hhead
                rw [hhead'] at hfront
                have hless := hfront.resolve_left hurgent.null
                have hdc : d = c := by
                  by_contra hne
                  exact absurd (hurgent.least d hd hne) (not_lt.mpr hless.le)
                rw [hdc] at hless
                exact absurd hless (lt_irrefl _)
          · simp only [if_neg hfront] at hrun
            obtain ⟨v, -, heq⟩ := of_bind_ok hrun
            cases heq
            exact hhead

theorem staysFirst_remove {r : Int} (hrun : pcbRemove s d = .ok (r, s')) :
    StaysFirst S c s s' where
  priority := (pcbRemove_linksOnly hrun).priority
  head := by
    intro _ hhead
    cases pcbRemove_cases hrun with
    | inl hsame =>
        rw [hsame.2]
        exact hhead
    | inr hremoved =>
        obtain ⟨-, q, hq, -, hcases⟩ := hremoved
        cases hcases with
        | inl hfront =>
            rw [hfront]
            cases q with
            | ready => exact hhead
            | suspended => exact hhead
            | blocked =>
                rw [removeQueue] at hq
                split at hq
                · cases hq
                · split at hq <;> cases hq
        | inr hbehind =>
            obtain ⟨v, hv⟩ := hbehind
            rw [hv]
            exact hhead

theorem staysFirst_kept : KeptByCalls (fun _ => True) S (StaysFirst S c) where
  refl := fun _ => ⟨rfl, fun _ hhead => hhead⟩
  trans := StaysFirst.trans
  stackTop := fun _ _ v _ _ => ⟨priority_setStackTop v, fun _ hhead => hhead⟩
  state := fun _ _ v => ⟨priority_setState v, fun _ hhead => hhead⟩
  insert := fun hd _ hrun => staysFirst_insert hd hrun
  remove := staysFirst_remove
  unlink := fun _ p => ⟨(linksOnly_setNext p 0).priority, fun _ hhead => hhead⟩

end Procs

section Requests

variable {σ : Type} {F : HeapFunctions σ} {K K' : Kernel σ} {S : U32 → Prop} {c ctx r : U32}

theorem requestCase_mostUrgent {op : OpCode} (h : MostUrgent K.procs S c)
    (hclosed : Closed K.procs S) (hc : K.globalPcb = c)
    (hrun : requestCase F K ctx op = .ok K') :
    K'.procs.blockedHead = c ∧
      (K.procs.blockedHead = c → K.procs.next c ≠ c ∧ K'.procs.next c = c) ∧
      K.procs.Kept K'.procs .blocked [c] := by
  have hg := (requestCase_globalPcb hrun).1
  rw [requestCase, if_neg hg, hc] at hrun
  obtain ⟨device, -, hrest⟩ := of_bind_ok hrun
  obtain ⟨s, hinsert, heq⟩ := of_bind_ok hrest
  cases heq
  have hurgent : MostUrgent ((K.procs.setStackTop c ctx).setState c blockedState) S c :=
    h.congr ((priority_setState blockedState).trans (priority_setStackTop ctx))
  have hclosed' : Closed ((K.procs.setStackTop c ctx).setState c blockedState) S :=
    closed_kept.state _ c blockedState (closed_kept.stackTop K.procs h.mem trivial hclosed)
  have hq : insertQueue
      (((K.procs.setStackTop c ctx).setState c blockedState).pcbs c).state = some .blocked := by
    rw [state_setState_self]
    rfl
  have hkept : K.procs.Kept ((K.procs.setStackTop c ctx).setState c blockedState) .blocked [c] :=
    ((Kept.refl _).modify (List.mem_singleton_self c) _).modify (List.mem_singleton_self c) _
  obtain ⟨hhead, hself, hkept'⟩ := pcbInsert_mostUrgent hurgent hclosed' hq hinsert
  rw [head_setState, head_setStackTop, next_setState, next_setStackTop] at hself
  exact ⟨hhead, hself, hkept.trans hkept'⟩

theorem requestCase_keeps {op : OpCode} (h : MostUrgent K.procs S c) (hclosed : Closed K.procs S)
    (hc : K.globalPcb = c) (hrun : requestCase F K ctx op = .ok K') :
    MostUrgent K'.procs S c ∧ Closed K'.procs S ∧ K'.globalPcb = c := by
  have hrunning : K.globalPcb ≠ 0 → S K.globalPcb := by
    intro _
    rw [hc]
    exact h.mem
  have hstays : StaysFirst S c K.procs K'.procs :=
    requestCase_kept staysFirst_kept trivial hrunning hrun
  exact ⟨h.congr hstays.priority, requestCase_kept closed_kept trivial hrunning hrun hclosed,
    (requestCase_globalPcb hrun).2.trans hc⟩

theorem sysCall_blocks (h : MostUrgent K.procs S c) (hclosed : Closed K.procs S)
    (hc : K.globalPcb = c)
    (hop : syscallNumber (K.contexts ctx).eax = some .read ∨
      syscallNumber (K.contexts ctx).eax = some .write)
    (hrun : sysCall F K ctx = .ok (r, K')) : K'.procs.blockedHead = c := by
  have hlast : ∀ {K₁ : Kernel σ}, MostUrgent K₁.procs S c → K₁.globalPcb = c →
      K₁.procs.blockedHead = c → idleCase K₁ ctx K.procs.readyHead = .ok (r, K') →
        K'.procs.blockedHead = c := by
    intro K₁ h₁ hc₁ hhead hidle
    have hrunning : K₁.globalPcb ≠ 0 → S K₁.globalPcb := by
      intro _
      rw [hc₁]
      exact h₁.mem
    have hstays : StaysFirst S c K₁.procs K'.procs :=
      idleCase_kept staysFirst_kept (fun _ => trivial) hrunning hidle
    exact hstays.head h₁ hhead
  cases hop with
  | inl hread =>
      simp only [sysCall, hread] at hrun
      obtain ⟨K₁, hrequest, hidle⟩ := of_bind_ok hrun
      obtain ⟨h₁, -, hc₁⟩ := requestCase_keeps h hclosed hc hrequest
      exact hlast h₁ hc₁ (requestCase_mostUrgent h hclosed hc hrequest).1 hidle
  | inr hwrite =>
      simp only [sysCall, hwrite] at hrun
      obtain ⟨K₁, hfirst, hrest⟩ := of_bind_ok hrun
      obtain ⟨K₂, hsecond, hidle⟩ := of_bind_ok hrest
      obtain ⟨h₁, hclosed₁, hc₁⟩ := requestCase_keeps h hclosed hc hfirst
      obtain ⟨h₂, -, hc₂⟩ := requestCase_keeps h₁ hclosed₁ hc₁ hsecond
      exact hlast h₂ hc₂ (requestCase_mostUrgent h₁ hclosed₁ hc₁ hsecond).1 hidle

/-- The first of the two insertions links the PCB to itself, and the second one does not end. -/
theorem sysCall_write_stuck (h : MostUrgent K.procs S c) (hclosed : Closed K.procs S)
    (hc : K.globalPcb = c) (hhead : K.procs.blockedHead = c)
    (hop : syscallNumber (K.contexts ctx).eax = some .write) :
    sysCall F K ctx ≠ .ok (r, K') := by
  intro hrun
  simp only [sysCall, hop] at hrun
  obtain ⟨K₁, hfirst, hrest⟩ := of_bind_ok hrun
  obtain ⟨K₂, hsecond, -⟩ := of_bind_ok hrest
  obtain ⟨hhead₁, hlink⟩ := requestCase_mostUrgent h hclosed hc hfirst
  obtain ⟨h₁, hclosed₁, hc₁⟩ := requestCase_keeps h hclosed hc hfirst
  exact ((requestCase_mostUrgent h₁ hclosed₁ hc₁ hsecond).2.1 hhead₁).1 (hlink.1 hhead).2

end Requests

section Runs

variable {K K' : Kernel Heap} {S : U32 → Prop} {c : U32}

theorem systemRun_staysFirst (h : Tied K S)
    (hrun : Relation.ReflTransGen (SystemStep studentHeap) K K') :
    Tied K' S ∧ StaysFirst S c K.procs K'.procs := by
  have hsteps : Relation.ReflTransGen (FrameStep fun _ => True) K K' :=
    Relation.ReflTransGen.mono (fun _ _ => SystemStep.frameStep) K K' hrun
  obtain ⟨queue, others, live, hpopulated⟩ := h.populated
  exact ⟨h.run hsteps, (frameRun_kept staysFirst_kept hpopulated hsteps).2⟩

/-- Whatever happens in between, the WRITE behind the first request of the process is stuck. -/
theorem write_after_request_stuck {K₁ K₂ K₃ : Kernel Heap} {contexts contexts' : U32 → Context}
    {mem mem' : Mem} {ctx ctx' r r' : U32} (h : Tied K S) (hurgent : MostUrgent K.procs S c)
    (hc : K.globalPcb = c)
    (hop : syscallNumber (contexts ctx).eax = some .read ∨
      syscallNumber (contexts ctx).eax = some .write)
    (hfirst : sysCall studentHeap
      { K with contexts := contexts, device := { K.device with mem := mem } } ctx = .ok (r, K₁))
    (hrun : Relation.ReflTransGen (SystemStep studentHeap) K₁ K₂) (hc₂ : K₂.globalPcb = c)
    (hwrite : syscallNumber (contexts' ctx').eax = some .write) :
    sysCall studentHeap
      { K₂ with contexts := contexts', device := { K₂.device with mem := mem' } } ctx' ≠
        .ok (r', K₃) := by
  have hhead : K₁.procs.blockedHead = c :=
    @sysCall_blocks _ studentHeap
      { K with contexts := contexts, device := { K.device with mem := mem } } K₁ S c ctx r hurgent
      h.closed hc hop hfirst
  have hstep : SystemStep studentHeap K K₁ := .call K contexts mem ctx r K₁ hfirst
  obtain ⟨h₁, hstays₁⟩ := systemRun_staysFirst (c := c) h (.single hstep)
  obtain ⟨h₂, hstays₂⟩ := systemRun_staysFirst (c := c) h₁ hrun
  have hurgent₁ := hurgent.congr hstays₁.priority
  have hurgent₂ := hurgent₁.congr hstays₂.priority
  have hhead₂ := hstays₂.head hurgent₁ hhead
  exact sysCall_write_stuck hurgent₂ h₂.closed hc₂ hhead₂ hwrite

end Runs

end Mpx
