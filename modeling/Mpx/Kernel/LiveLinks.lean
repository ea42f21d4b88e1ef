import Mpx.Kernel.Kept
import Mpx.Process.Links

/-! The links of the processes lead to processes, whatever has happened to the queues. -/

namespace Mpx

open Memory PointerList Procs Run CString

namespace Procs

variable {S : U32 → Prop} {s s' : Procs} {c p : U32} {n : List U8} {procClass priority : Int}

theorem Closed.insert (h : Closed s S) (hc : S c) (hrun : pcbInsert s c = .ok s') :
    Closed s' S := by
  cases pcbInsert_closed h hrun with
  | inl hsame =>
      rw [hsame]
      exact h
  | inr hclosed =>
      have hback : ∀ x, S x ∨ x = c → S x := by
        intro x hx
        cases hx with
        | inl hold => exact hold
        | inr hnew =>
            rw [hnew]
            exact hc
      constructor
      · exact fun q hne => hback _ (hclosed.head q hne)
      · exact fun x hx hne => hback _ (hclosed.next x (Or.inl hx) hne)

theorem Closed.modify (h : Closed s S) (f : Pcb → Pcb) (hf : ∀ b, (f b).nextPcb = b.nextPcb) :
    Closed (s.modify p f) S := by
  have hsame : (s.modify p f).next = s.next := by
    simp [Procs.next, Function.update_eq_self_iff, hf]
  exact h.congr hsame fun _ => head_modify f

theorem closed_kept : KeptByCalls (fun _ => True) S (fun s s' => Closed s S → Closed s' S) where
  refl := fun _ h => h
  trans := fun hfirst hsecond h => hsecond (hfirst h)
  stackTop := fun _ _ _ _ _ h => h.modify _ fun _ => rfl
  state := fun _ _ _ h => h.modify _ fun _ => rfl
  insert := fun hc _ hrun h => h.insert hc hrun
  remove := fun hrun h => pcbRemove_closed h hrun
  unlink := fun _ _ h => h.setNext fun hne => absurd rfl hne

/-- A PCB that is in the system for nobody may be changed as a whole. -/
theorem Closed.modify_fresh (h : Closed s S) (hp : ¬ S p) (f : Pcb → Pcb) :
    Closed (s.modify p f) S where
  head := by
    intro q hne
    rw [head_modify] at hne ⊢
    exact h.head q hne
  next := by
    intro x hx hne
    have hxp : x ≠ p := fun heq => hp (heq ▸ hx)
    rw [Procs.next, pcbs_modify_ne hxp] at hne ⊢
    exact h.next x hx hne

theorem Closed.withNew (h : Closed s S) :
    Closed (s.withNew p n procClass priority) fun x => S x ∨ x = p where
  head := by
    intro q hne
    rw [head_withNew] at hne ⊢
    exact Or.inl (h.head q hne)
  next := by
    intro x hx hne
    by_cases hxp : x = p
    · rw [hxp, Procs.next, pcbs_withNew_self] at hne
      exact absurd rfl hne
    · rw [Procs.next, pcbs_withNew_ne hxp] at hne ⊢
      exact Or.inl (h.next x (hx.resolve_right hxp) hne)

end Procs

theorem SystemStep.frameStep {K K' : Kernel Heap} (h : SystemStep studentHeap K K') :
    FrameStep (fun _ => True) K K' := by
  cases h with
  | call contexts mem ctx r K' hrun => exact .call K contexts mem ctx r K' trivial hrun
  | inputInterrupt => exact .inputInterrupt K
  | outputInterrupt device procs hrun => exact .outputInterrupt K device procs hrun

theorem Talks.talksFrom {C : Console Heap} (h : Talks studentHeap C) :
    TalksFrom (fun _ => True) C :=
  fun msg K K' hrun => Relation.ReflTransGen.mono (fun _ _ => SystemStep.frameStep) K K'
    (h msg K K' hrun)

/-- The processes of the system, and the links between them. -/
structure Tied (K : Kernel Heap) (S : U32 → Prop) : Prop where
  populated : ∃ queue others live, Populated K S queue others live
  closed : Closed K.procs S

section Tied

variable {K K' : Kernel Heap} {S : U32 → Prop} {queue others live : List U32}
  {C : Console Heap} {p q : U32}

theorem Tied.run (h : Tied K S)
    (hrun : Relation.ReflTransGen (FrameStep fun _ => True) K K') : Tied K' S := by
  obtain ⟨queue, others, live, hpopulated⟩ := h.populated
  obtain ⟨⟨queue', live', h'⟩, hclosed⟩ := frameRun_kept closed_kept hpopulated hrun
  exact ⟨⟨queue', others, live', h'⟩, hclosed h.closed⟩

theorem Tied.withMemory (h : Tied K S) (contexts : U32 → Context) (mem : Mem) :
    Tied { K with contexts := contexts, device := { K.device with mem := mem } } S := by
  obtain ⟨⟨queue, others, live, hpopulated⟩, hclosed⟩ := h
  exact ⟨⟨queue, others, live, hpopulated.withMemory contexts mem⟩, hclosed⟩

theorem Tied.insert {s : Procs} (h : Tied K S) (hp : S p) (hrun : pcbInsert K.procs p = .ok s) :
    Tied { K with procs := s } S := by
  obtain ⟨queue, others, live, hpopulated⟩ := h.populated
  exact ⟨⟨queue, others, live, hpopulated.withProcs (confined_insert hp hrun)⟩,
    h.closed.insert hp hrun⟩

theorem withSetUp_tied {heap : Heap} {n : List U8} {procClass priority : Int}
    (h : Tied K S) (hpopulated : Populated K S queue others live)
    (halloc : allocateMemory K.device.heap pcbSize = .ok (p, heap)) (hnull : p ≠ 0)
    (hlength : minNameLen ≤ strlen n) :
    Tied (withSetUp K heap p n procClass priority) fun x => S x ∨ x = p := by
  have hmade := hpopulated.withSetUp halloc hnull n procClass priority
  refine ⟨⟨queue, p :: others, p :: live, hmade.requests, hmade.blocks,
    fun x hx => Or.inl (hmade.onSome x hx), fun hg => Or.inl (hmade.running hg),
    fun r hr => Or.inl (hmade.requesters r hr), ?_, ?_⟩, h.closed.withNew⟩
  · intro x hx
    cases hx with
    | inl hold => exact hmade.housed x hold
    | inr hnew =>
        rw [hnew]
        exact List.mem_cons_self
  · intro x hx
    cases hx with
    | inl hold => exact hmade.named x hold
    | inr hnew =>
        have hname : ((K.procs.withNew p n procClass priority).pcbs p).name.headD 0 ≠ 0 := by
          rw [name_withNew]
          exact headD_ne_zero hlength _
        rw [hnew]
        exact hname

structure Joined (S S' : U32 → Prop) (p : U32) : Prop where
  old : ∀ x, S x → S' x
  new : ∀ x, S' x → S x ∨ x = p
  mem : p ≠ 0 → S' p

theorem joined_null : Joined S S 0 :=
  ⟨fun _ hx => hx, fun _ hx => Or.inl hx, fun hne => absurd rfl hne⟩

theorem pcbSetup_tied {name : Option (List U8)} {procClass priority : Int} (h : Tied K S)
    (hC : Talks studentHeap C)
    (hrun : pcbSetup studentHeap C K name procClass priority = .ok (p, K')) :
    ∃ S', Joined S S' p ∧ Tied K' S' := by
  obtain ⟨queue, others, live, hpopulated⟩ := h.populated
  have hfailed : p = 0 → ∃ queue' live', Populated K' S queue' others live' := by
    intro hnull
    cases pcbSetup_populated hpopulated hC hrun with
    | inl hfail => exact hfail.2.1
    | inr hmade =>
        obtain ⟨n, -, hset⟩ := hmade
        exact absurd hnull hset.null
  obtain ⟨q, heap, halloc, hpath⟩ := pcbSetup_path hC.talksFrom hrun
  have hown := allocateMemory_owns hpopulated.requests.owns halloc
  cases hpath with
  | full K' hq hwrite =>
      rw [if_pos hq] at hown
      have hstart : Tied { K with device := { K.device with heap := heap } } S :=
        ⟨⟨queue, others, live, hpopulated.withHeap hown hpopulated.blocks hpopulated.housed⟩,
          h.closed⟩
      exact ⟨S, joined_null, hstart.run hwrite⟩
  | refused r heap' hq hfree =>
      rw [if_neg hq] at hown
      have hfresh := hpopulated.fresh (List.nodup_cons.mp (ownsBlocks_nodup hown)).1
      obtain ⟨queue', live', h'⟩ := hfailed rfl
      exact ⟨S, joined_null, ⟨queue', others, live', h'⟩,
        h.closed.modify_fresh hfresh freshPcb⟩
  | made n K' hq hname hlength hsearch =>
      have hmade := (withSetUp_tied h hpopulated halloc hq hlength).run hsearch
      exact ⟨_, ⟨fun _ hx => Or.inl hx, fun _ hx => hx, fun _ => Or.inr rfl⟩, hmade⟩
  | inUse n K' r heap' hq hname hlength hsearch hfree =>
      rw [if_neg hq] at hown
      have hfresh := hpopulated.fresh (List.nodup_cons.mp (ownsBlocks_nodup hown)).1
      have hstart : Tied (withSetUp K heap q n procClass priority) S :=
        ⟨⟨queue, q :: others, q :: live, hpopulated.withSetUp halloc hq n procClass priority⟩,
          (h.closed.modify_fresh hfresh _).modify_fresh hfresh _⟩
      have hlast := hstart.run hsearch
      obtain ⟨queue', live', h'⟩ := hfailed rfl
      exact ⟨S, joined_null, ⟨queue', others, live', h'⟩, hlast.closed⟩

theorem processStep_tied {Allowed : Kernel Heap → Option (List U8) → Prop} (h : Tied K S)
    (hstep : ProcessStep Allowed K K') : ∃ S', Tied K' S' := by
  cases hstep with
  | system K' hsystem => exact ⟨S, h.run (.single hsystem.frameStep)⟩
  | create C name procClass priority K' hC hallowed hrun =>
      obtain ⟨p, K₁, hsetup, hcases⟩ := createPcb_cases hrun
      obtain ⟨S', hjoined, htied⟩ := pcbSetup_tied h hC hsetup
      cases hcases with
      | inl hnone =>
          rw [hnone.2]
          exact ⟨S', htied⟩
      | inr hmade =>
          obtain ⟨hp, s, hinsert, rfl⟩ := hmade
          exact ⟨S', htied.insert (hjoined.mem hp) hinsert⟩

theorem startProcess_tied {name : List U8} {procClass priority : Int} {cleared : Bool} {eip : U32}
    (h : Tied K S) (hC : Talks studentHeap C)
    (hrun : startProcess studentHeap C K name procClass priority cleared eip = .ok (p, K')) :
    ∃ S', Joined S S' p ∧ Tied K' S' := by
  obtain ⟨hp, K₁, s, hsetup, hinsert, rfl⟩ := startProcess_cases hrun
  obtain ⟨S', hjoined, htied⟩ := pcbSetup_tied h hC hsetup
  exact ⟨S', hjoined, (htied.insert (hjoined.mem hp) hinsert).withMemory _ _⟩

end Tied

end Mpx
