import Mpx.Kernel.Block
import Mpx.Serial.Owned

/-! Runs of system calls and interrupts: no process appears or gets another name, and the
heap holds the queued requests besides what it held before. -/

namespace Mpx

open Memory PointerList Procs Run

/-- A system call or an interrupt of the device. Between the calls the processes run and
change contexts and buffers. -/
inductive SystemStep {σ : Type} (F : HeapFunctions σ) : Kernel σ → Kernel σ → Prop
  | call (K : Kernel σ) (contexts : U32 → Context) (mem : Mem) (ctx r : U32) (K' : Kernel σ)
      (hrun : sysCall F { K with contexts := contexts, device := { K.device with mem := mem } }
        ctx = .ok (r, K')) : SystemStep F K K'
  | inputInterrupt (K : Kernel σ) :
      SystemStep F K { K with device := serialInputInterrupt K.device }
  | outputInterrupt (K : Kernel σ) (device : Device σ) (procs : Procs)
      (hrun : serialOutputInterrupt F K.device K.procs = .ok (device, procs)) :
      SystemStep F K { K with device := device, procs := procs }

namespace Procs

/-- On the queues of `s'` are PCBs of `S` only if that is so for `s`, and the names are
the same. -/
structure Confined (S : U32 → Prop) (s s' : Procs) : Prop where
  within : (∀ p, s.OnSome p → S p) → ∀ p, s'.OnSome p → S p
  names : ∀ p, (s'.pcbs p).name = (s.pcbs p).name

variable {S : U32 → Prop} {s s' s'' : Procs} {c p : U32}

theorem confined_refl : Confined S s s := ⟨fun h => h, fun _ => rfl⟩

theorem Confined.trans (h : Confined S s s') (h' : Confined S s' s'') : Confined S s s'' :=
  ⟨fun hs => h'.within (h.within hs), fun p => (h'.names p).trans (h.names p)⟩

theorem confined_insert (hc : S c) (hrun : pcbInsert s c = .ok s') : Confined S s s' where
  within := by
    intro hs p hp
    rcases pcbInsert_onSome hrun hp with hold | hnew
    · exact hs p hold
    · rw [hnew]
      exact hc
  names := (pcbInsert_linksOnly hrun).name

theorem confined_remove {r : Int} (hrun : pcbRemove s c = .ok (r, s')) : Confined S s s' where
  within := fun hs p hp => hs p ((pcbRemove_closed closed_onSome hrun).onSome hp)
  names := (pcbRemove_linksOnly hrun).name

theorem confined_setNext_null : Confined S s (s.setNext p 0) where
  within := by
    intro hs x hx
    have hclosed : Closed (s.setNext p 0) s.OnSome := closed_onSome.setNext fun h => absurd rfl h
    exact hs x (hclosed.onSome hx)
  names := (linksOnly_setNext p 0).name

theorem confined_modify (f : Pcb → Pcb) (hnext : ∀ b, (f b).nextPcb = b.nextPcb)
    (hname : ∀ b, (f b).name = b.name) : Confined S s (s.modify p f) where
  within := by
    intro hs x hx
    have hsame : (s.modify p f).next = s.next := by
      simp [next, Function.update_eq_self_iff, hnext]
    have hclosed : Closed (s.modify p f) s.OnSome :=
      closed_onSome.congr hsame fun _ => head_modify f
    exact hs x (hclosed.onSome hx)
  names := name_modify f hname

theorem confined_setState (v : Int) : Confined S s (s.setState p v) :=
  confined_modify _ (fun _ => rfl) fun _ => rfl

theorem confined_setStackTop (v : U32) : Confined S s (s.setStackTop p v) :=
  confined_modify _ (fun _ => rfl) fun _ => rfl

end Procs

section Confined

variable {σ : Type} {F : HeapFunctions σ} {K K' : Kernel σ} {S : U32 → Prop} {ctx n r : U32}

theorem requestCase_confined {op : OpCode} (hrunning : K.globalPcb ≠ 0 → S K.globalPcb)
    (hrun : requestCase F K ctx op = .ok K') : Confined S K.procs K'.procs := by
  have hg := (requestCase_globalPcb hrun).1
  rw [requestCase, if_neg hg] at hrun
  rcases of_bind_ok hrun with ⟨d', -, hrest⟩
  rcases of_bind_ok hrest with ⟨s', hinsert, heq⟩
  cases heq
  exact ((confined_setStackTop ctx).trans (confined_setState blockedState)).trans
    (confined_insert (hrunning hg) hinsert)

theorem dispatch_confined (hrun : dispatch K n = .ok (r, K')) : Confined S K.procs K'.procs := by
  rcases dispatch_cases hrun with ⟨-, -, hK'⟩ | ⟨-, result, s, hremove, -, hK'⟩
  · rw [hK']
    exact confined_refl
  · rw [hK']
    exact ((confined_remove hremove).trans confined_setNext_null).trans (confined_setState readyState)

theorem idleCase_confined (hrunning : K.globalPcb ≠ 0 → S K.globalPcb)
    (hrun : idleCase K ctx n = .ok (r, K')) : Confined S K.procs K'.procs := by
  rcases idleCase_cases hrun with
    ⟨context, ⟨-, -, hK'⟩ | ⟨-, -, hdispatch⟩ | ⟨-, hg, s, hinsert, hdispatch⟩⟩
  · rw [hK']
    exact confined_refl
  · have h := dispatch_confined (S := S) hdispatch
    exact h
  · have h : Confined S s K'.procs := dispatch_confined hdispatch
    exact (((confined_setStackTop ctx).trans (confined_setState readyState)).trans
      (confined_insert (hrunning hg) hinsert)).trans h

theorem exitCase_confined (hrun : exitCase F K n = .ok (r, K')) : Confined S K.procs K'.procs := by
  rcases exitCase_cases hrun with
    ⟨-, hdispatch⟩ | ⟨-, -, result, s, freed, heap, hremove, -, -, hK'⟩
  · exact dispatch_confined hdispatch
  · rw [hK']
    exact (confined_remove hremove).trans confined_setNext_null

theorem sysCall_confined (hrunning : K.globalPcb ≠ 0 → S K.globalPcb)
    (hrun : sysCall F K ctx = .ok (r, K')) : Confined S K.procs K'.procs := by
  -- a request leaves the same PCB running
  have hkept : ∀ {K₁ K₂ : Kernel σ} {op : OpCode}, (K₁.globalPcb ≠ 0 → S K₁.globalPcb) →
      requestCase F K₁ ctx op = .ok K₂ → K₂.globalPcb ≠ 0 → S K₂.globalPcb := by
    intro K₁ K₂ op h₁ hrequest
    rw [(requestCase_globalPcb hrequest).2]
    exact h₁
  rcases sysCall_cases hrun with
    hK' | hexit | hidle | ⟨K₁, hrequest, hidle⟩ | ⟨K₁, K₂, hfirst, hsecond, hidle⟩
  · rw [hK']
    exact confined_refl
  · exact exitCase_confined hexit
  · exact idleCase_confined hrunning hidle
  · have h₁ := hkept hrunning hrequest
    exact (requestCase_confined hrunning hrequest).trans (idleCase_confined h₁ hidle)
  · have h₁ := hkept hrunning hfirst
    have h₂ := hkept h₁ hsecond
    exact ((requestCase_confined hrunning hfirst).trans (requestCase_confined h₁ hsecond)).trans
      (idleCase_confined h₂ hidle)

theorem unblockPcb_confined {s s' : Procs} {p : U32} (hp : S p) (hrun : unblockPcb s p = .ok s') :
    Confined S s s' := by
  by_cases hnull : p = 0
  · rw [unblockPcb, if_pos hnull] at hrun
    cases hrun
  · rw [unblockPcb, if_neg hnull] at hrun
    exact (confined_setState readyState).trans (confined_insert hp hrun)

end Confined

/-- The PCBs that are on a queue, run or wait for the device are all in `S`. They have
names, and their blocks are among the blocks `others`, which hold no requests. -/
structure Populated (K : Kernel Heap) (S : U32 → Prop) (queue others live : List U32) :
    Prop where
  requests : Requests OwnsBlocks K.device queue live
  blocks : live.Perm (queue ++ others)
  onSome : ∀ p, K.procs.OnSome p → S p
  running : K.globalPcb ≠ 0 → S K.globalPcb
  requesters : ∀ r ∈ queue, S (K.device.iocbs r).currProc
  housed : ∀ p, S p → p ∈ others
  named : ∀ p, S p → (K.procs.pcbs p).name.headD 0 ≠ 0

section Steps

variable {K K' : Kernel Heap} {S : U32 → Prop} {queue others live : List U32} {ctx n r : U32}

theorem Populated.withProcs {s' : Procs} (h : Populated K S queue others live)
    (hconfined : Confined S K.procs s') :
    Populated { K with procs := s' } S queue others live where
  requests := h.requests
  blocks := h.blocks
  onSome := hconfined.within h.onSome
  running := h.running
  requesters := h.requesters
  housed := h.housed
  named := by
    intro p hp
    simp only [hconfined.names]
    exact h.named p hp

theorem Populated.congr {S' : U32 → Prop} {others' : List U32}
    (h : Populated K S queue others live) (hS : ∀ p, S' p ↔ S p) (hothers : others'.Perm others) :
    Populated K S' queue others' live where
  requests := h.requests
  blocks := h.blocks.trans (hothers.symm.append_left queue)
  onSome := fun p hp => (hS p).mpr (h.onSome p hp)
  running := fun hg => (hS _).mpr (h.running hg)
  requesters := fun r hr => (hS _).mpr (h.requesters r hr)
  housed := fun p hp => hothers.mem_iff.mpr (h.housed p ((hS p).mp hp))
  named := fun p hp => h.named p ((hS p).mp hp)

theorem Populated.withHeap {heap : Heap} {others' live' : List U32}
    (h : Populated K S queue others live) (hown : OwnsBlocks heap live')
    (hblocks : live'.Perm (queue ++ others')) (hhoused : ∀ p, S p → p ∈ others') :
    Populated { K with device := { K.device with heap := heap } } S queue others' live' where
  requests := by
    refine ⟨h.requests.openPort.congr rfl rfl rfl rfl, h.requests.queued, hown, ?_⟩
    intro p hp
    exact hblocks.mem_iff.mpr (List.mem_append_left others' hp)
  blocks := hblocks
  onSome := h.onSome
  running := h.running
  requesters := h.requesters
  housed := hhoused
  named := h.named

theorem requestCase_populated {op : OpCode} (h : Populated K S queue others live)
    (hop : op = .read ∨ op = .write) (hrun : requestCase studentHeap K ctx op = .ok K') :
    ∃ queue' live', Populated K' S queue' others live' := by
  have hconfined := requestCase_confined h.running hrun
  have hg := (requestCase_globalPcb hrun).1
  rw [requestCase, if_neg hg] at hrun
  rcases of_bind_ok hrun with ⟨d', hsched, hrest⟩
  rcases of_bind_ok hrest with ⟨s', hinsert, heq⟩
  cases heq
  have hnames : ∀ p, (s'.pcbs p).name = (K.procs.pcbs p).name := hconfined.names
  rcases ioScheduler_requests studentHeap_laws h.requests hop hsched with
    ⟨new, hrequests, hsame, hnew⟩
  refine ⟨queue ++ new, new ++ live, hrequests, ?_, hconfined.within h.onSome, h.running, ?_,
    h.housed, ?_⟩
  · calc List.Perm (new ++ live) (new ++ (queue ++ others)) := h.blocks.append_left new
      List.Perm _ ((new ++ queue) ++ others) := by rw [List.append_assoc]
      List.Perm _ ((queue ++ new) ++ others) := List.perm_append_comm.append_right others
  · intro p hp
    rcases List.mem_append.mp hp with hold | hlast
    · simp only [hsame p hold]
      exact h.requesters p hold
    · simp only [hnew p hlast]
      exact h.running hg
  · intro p hp
    simp only [hnames]
    exact h.named p hp

theorem dispatch_populated (h : Populated K S queue others live) (hn : n ≠ 0 → S n)
    (hrun : dispatch K n = .ok (r, K')) : Populated K' S queue others live := by
  have hconfined : Confined S K.procs K'.procs := dispatch_confined hrun
  rcases dispatch_cases hrun with ⟨-, -, rfl⟩ | ⟨hnull, result, s, -, -, rfl⟩
  · exact h
  · have hnext := h.withProcs hconfined
    exact ⟨hnext.requests, hnext.blocks, hnext.onSome, fun _ => hn hnull, hnext.requesters,
      hnext.housed, hnext.named⟩

theorem idleCase_populated (h : Populated K S queue others live) (hn : n ≠ 0 → S n)
    (hrun : idleCase K ctx n = .ok (r, K')) : Populated K' S queue others live := by
  rcases idleCase_cases hrun with ⟨context, hcases⟩
  have h₁ : Populated { K with initialContext := context } S queue others live :=
    ⟨h.requests, h.blocks, h.onSome, h.running, h.requesters, h.housed, h.named⟩
  rcases hcases with ⟨-, -, rfl⟩ | ⟨-, -, hdispatch⟩ | ⟨-, hg, s, hinsert, hdispatch⟩
  · exact h₁
  · exact dispatch_populated h₁ hn hdispatch
  · have hconfined : Confined S K.procs s :=
      ((confined_setStackTop ctx).trans (confined_setState readyState)).trans
        (confined_insert (h.running hg) hinsert)
    exact dispatch_populated (h₁.withProcs hconfined) hn hdispatch

/-- The EXIT of a process with a name does not return. -/
theorem exitCase_populated (h : Populated K S queue others live) (hn : n ≠ 0 → S n)
    (hrun : exitCase studentHeap K n = .ok (r, K')) : Populated K' S queue others live := by
  rcases exitCase_cases hrun with
    ⟨-, hdispatch⟩ | ⟨hg, -, result, s, freed, heap, hremove, hfree, -, -⟩
  · exact dispatch_populated h hn hdispatch
  · have hname := ((pcbFree_returns_iff h.requests.owns hg).mp ⟨_, hfree⟩).2
    have hsame : ((s.setNext n 0).pcbs K.globalPcb).name = (K.procs.pcbs K.globalPcb).name := by
      calc ((s.setNext n 0).pcbs K.globalPcb).name
          = (s.pcbs K.globalPcb).name := (linksOnly_setNext n 0).name _
        _ = (K.procs.pcbs K.globalPcb).name := (pcbRemove_linksOnly hremove).name _
    rw [hsame] at hname
    exact absurd hname (h.named _ (h.running hg))

theorem sysCall_populated (h : Populated K S queue others live)
    (hrun : sysCall studentHeap K ctx = .ok (r, K')) :
    ∃ queue' live', Populated K' S queue' others live' := by
  have hhead : K.procs.readyHead ≠ 0 → S K.procs.readyHead := by
    intro hne
    exact h.onSome _ ⟨.ready, Reaches.here hne⟩
  rcases sysCall_cases hrun with
    hK' | hexit | hidle | ⟨K₁, hrequest, hidle⟩ | ⟨K₁, K₂, hfirst, hsecond, hidle⟩
  · rw [hK']
    exact ⟨queue, live, h.requests, h.blocks, h.onSome, h.running, h.requesters, h.housed,
      h.named⟩
  · exact ⟨queue, live, exitCase_populated h hhead hexit⟩
  · exact ⟨queue, live, idleCase_populated h hhead hidle⟩
  · rcases requestCase_populated h (Or.inl rfl) hrequest with ⟨queue₁, live₁, h₁⟩
    exact ⟨queue₁, live₁, idleCase_populated h₁ hhead hidle⟩
  · rcases requestCase_populated h (Or.inr rfl) hfirst with ⟨queue₁, live₁, h₁⟩
    rcases requestCase_populated h₁ (Or.inr rfl) hsecond with ⟨queue₂, live₂, h₂⟩
    exact ⟨queue₂, live₂, idleCase_populated h₂ hhead hidle⟩

theorem systemStep_populated (h : Populated K S queue others live)
    (hstep : SystemStep studentHeap K K') :
    (∃ queue' live', Populated K' S queue' others live') ∧ Confined S K.procs K'.procs := by
  cases hstep with
  | call contexts mem ctx r K' hrun =>
      have h₁ : Populated { K with contexts := contexts, device := { K.device with mem := mem } } S
          queue others live := by
        have hrequests := h.requests
        exact ⟨⟨hrequests.openPort.congr rfl rfl rfl rfl, hrequests.queued, hrequests.owns,
          hrequests.held⟩, h.blocks, h.onSome, h.running, h.requesters, h.housed, h.named⟩
      have hconfined := sysCall_confined h₁.running hrun
      exact ⟨sysCall_populated h₁ hrun, hconfined⟩
  | inputInterrupt =>
      refine ⟨⟨queue, live, serialInputInterrupt_requests h.requests, h.blocks, h.onSome,
        h.running, ?_, h.housed, h.named⟩, confined_refl⟩
      intro p hp
      simp only [iocbs_serialInputInterrupt]
      exact h.requesters p hp
  | outputInterrupt device procs hrun =>
      rcases serialOutputInterrupt_requests studentHeap_laws h.requests hrun with
        ⟨hiocbs, ⟨hprocs, hrequests⟩ | ⟨p, rest, hqueue, hrequests, hunblock⟩⟩
      · refine ⟨⟨queue, live, hrequests, h.blocks, ?_, h.running, ?_, h.housed, ?_⟩, ?_⟩
        · rw [hprocs]
          exact h.onSome
        · intro p hp
          simp only [hiocbs]
          exact h.requesters p hp
        · rw [hprocs]
          exact h.named
        · rw [hprocs]
          exact confined_refl
      · have hp : S (K.device.iocbs p).currProc := by
          apply h.requesters
          rw [hqueue]
          exact List.mem_cons_self
        have hconfined := unblockPcb_confined hp hunblock
        refine ⟨⟨rest, live.erase p, hrequests, ?_, hconfined.within h.onSome, h.running, ?_,
          h.housed, ?_⟩, hconfined⟩
        · have hblocks := h.blocks
          rw [hqueue, List.cons_append] at hblocks
          have herase := hblocks.erase p
          rwa [List.erase_cons_head] at herase
        · intro x hx
          simp only [hiocbs]
          apply h.requesters
          rw [hqueue]
          exact List.mem_cons_of_mem _ hx
        · intro x hx
          simp only [hconfined.names]
          exact h.named x hx

theorem systemRun_populated (h : Populated K S queue others live)
    (hrun : Relation.ReflTransGen (SystemStep studentHeap) K K') :
    (∃ queue' live', Populated K' S queue' others live') ∧ Confined S K.procs K'.procs := by
  induction hrun with
  | refl => exact ⟨⟨queue, live, h⟩, confined_refl⟩
  | tail _ hlast ih =>
      rcases ih with ⟨⟨queue₁, live₁, h₁⟩, hconfined₁⟩
      rcases systemStep_populated h₁ hlast with ⟨hnext, hconfined⟩
      exact ⟨hnext, hconfined₁.trans hconfined⟩

end Steps

end Mpx
