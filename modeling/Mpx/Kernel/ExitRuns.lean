import Mpx.Kernel.Names

/-! EXIT calls in the states that creations, system calls and interrupts lead to. -/

namespace Mpx

open Memory PointerList Procs Run

section Populated

variable {K K' : Kernel Heap} {queue others live : List U32}
  {Allowed : Kernel Heap → Option (List U8) → Prop}

theorem processStep_populated (h : Populated K (Live K) queue others live)
    (hstep : ProcessStep Allowed K K') :
    ∃ queue' others' live', Populated K' (Live K') queue' others' live' := by
  cases hstep with
  | system K' hstep =>
      obtain ⟨⟨queue', live', h'⟩, -⟩ := systemStep_populated h hstep
      exact ⟨queue', others, live', h'.shrink⟩
  | create C name procClass priority K' hC hallowed hrun =>
      obtain ⟨⟨p, K₁⟩, hsetup, hrest⟩ := of_bind_ok hrun
      obtain ⟨s, hinsert, heq⟩ := of_bind_ok hrest
      cases heq
      cases pcbSetup_populated h hC hsetup with
      | inl hfailed =>
          obtain ⟨hnull, ⟨queue', live', h'⟩, -⟩ := hfailed
          have hsame : s = K₁.procs := by
            rw [hnull, pcbInsert, if_pos rfl] at hinsert
            cases hinsert
            rfl
          rw [hsame]
          exact ⟨queue', others, live', h'.shrink⟩
      | inr hmade =>
          obtain ⟨n, -, hset⟩ := hmade
          obtain ⟨queue', live', h'⟩ := hset.insert hinsert
          exact ⟨queue', p :: others, live', h'.shrink⟩

theorem exitCase_never {n r : U32} (h : Populated K (Live K) queue others live)
    (hrunning : K.globalPcb ≠ 0) : exitCase studentHeap K n ≠ .ok (r, K') := by
  intro hrun
  cases exitCase_cases hrun with
  | inl hnone => exact hrunning hnone.1
  | inr hfreed =>
      obtain ⟨hg, -, result, s, freed, heap, hremove, hfree, -, -⟩ := hfreed
      have hname : ((s.setNext n 0).pcbs K.globalPcb).name.headD 0 = 0 :=
        ((pcbFree_returns_iff h.requests.owns hg).mp ⟨_, hfree⟩).2
      rw [(linksOnly_setNext n 0).name, (pcbRemove_linksOnly hremove).name] at hname
      exact h.named K.globalPcb (h.running hg) hname

end Populated

/-- In no state that the system reaches does the EXIT of a running process return: the name is
the start of the block, and `pcb_free` releases it first. -/
theorem exit_never_returns {K₀ K : Kernel Heap}
    {Allowed : Kernel Heap → Option (List U8) → Prop} (hstart : StartsEmpty K₀)
    (hrun : Relation.ReflTransGen (ProcessStep Allowed) K₀ K) (hrunning : K.globalPcb ≠ 0)
    (contexts : U32 → Context) (ctx : U32)
    (hop : syscallNumber (contexts ctx).eax = some .exit) (r : U32) (K' : Kernel Heap) :
    sysCall studentHeap { K with contexts := contexts } ctx ≠ .ok (r, K') := by
  obtain ⟨others, live, hpopulated⟩ := hstart.populated
  obtain ⟨queue, others', live', h⟩ := Run.invariant
    (fun K => ∃ queue others live, Populated K (Live K) queue others live)
    (fun _ _ ⟨_, _, _, h⟩ hstep => processStep_populated h hstep) hrun
    ⟨[], others, live, hpopulated⟩
  have h' : Populated { K with contexts := contexts } (Live { K with contexts := contexts }) queue
      others' live' :=
    ⟨h.requests, h.blocks, h.onSome, h.running, h.requesters, h.housed, h.named⟩
  intro hcall
  simp only [sysCall, hop] at hcall
  exact exitCase_never h' hrunning hcall

theorem exit_never_returns_two_processes :
    ∃ K, Relation.ReflTransGen (ProcessStep fun _ _ => True) bootKernel K ∧ K.globalPcb ≠ 0 ∧
      sysCall studentHeap { K with contexts := fun _ => callContext 0 0 0 0 } 0x1234 ≠
        .ok (0x1234, K) := by
  have hcompute : (createIdleCreate [66, 66]).map (fun r => decide (r.2.2.globalPcb ≠ 0)) =
      .ok true := by
    decide +kernel
  obtain ⟨⟨K₁, K₂, K₃⟩, hrun, hglobal⟩ := of_map_ok hcompute
  have hrunning : K₃.globalPcb ≠ 0 := of_decide_eq_true hglobal
  have hsteps : Relation.ReflTransGen (ProcessStep fun _ _ => True) bootKernel K₃ :=
    createIdleCreate_run hrun trivial trivial
  exact ⟨K₃, hsteps, hrunning, exit_never_returns bootKernel_startsEmpty hsteps hrunning
    (fun _ => callContext 0 0 0 0) 0x1234 (by decide) 0x1234 K₃⟩

end Mpx
