import Mpx.Kernel.Creation

/-! The names of the processes: `pcb_setup` looks for a name on two of the queues only. -/

namespace Mpx

open Memory PointerList Procs Run CString

/-- `pcb_setup`, and `pcb_insert` with the PCB that it returns. -/
def createPcb {σ : Type} (F : HeapFunctions σ) (C : Console σ) (K : Kernel σ)
    (name : Option (List U8)) (procClass priority : Int) : Except Fault (Kernel σ) := do
  let (pcb, K) ← pcbSetup F C K name procClass priority
  let procs ← pcbInsert K.procs pcb
  return { K with procs := procs }

inductive ProcessStep (Allowed : Kernel Heap → Option (List U8) → Prop) :
    Kernel Heap → Kernel Heap → Prop
  | system (K K' : Kernel Heap) (hstep : SystemStep studentHeap K K') : ProcessStep Allowed K K'
  | create (K : Kernel Heap) (C : Console Heap) (name : Option (List U8))
      (procClass priority : Int) (K' : Kernel Heap) (hC : Talks studentHeap C)
      (hallowed : Allowed K name)
      (hrun : createPcb studentHeap C K name procClass priority = .ok K') :
      ProcessStep Allowed K K'

def Running (K : Kernel Heap) (p : U32) : Prop := p ≠ 0 ∧ p = K.globalPcb

def Requester (K : Kernel Heap) (p : U32) : Prop :=
  ∃ r, Reaches 0 (nextIocb K.device.iocbs) K.device.port.ioHead r ∧
    (K.device.iocbs r).currProc = p

def Live (K : Kernel Heap) (p : U32) : Prop := K.procs.OnSome p ∨ Running K p ∨ Requester K p

def UniqueNames (K : Kernel Heap) : Prop :=
  ∀ p q, Live K p → Live K q → K.procs.nameText p = K.procs.nameText q → p = q

/-- None of the PCBs among which `pcb_find` does not look has this name. -/
def Unused (K : Kernel Heap) (name : Option (List U8)) : Prop :=
  ∀ n, name = some n → ∀ p, Running K p ∨ K.procs.OnQueue .blocked p ∨ Requester K p →
    K.procs.nameText p ≠ text n

/-- The queues are empty. A running process has a name and a block. -/
structure StartsEmpty (K : Kernel Heap) : Prop where
  heads : ∀ q, K.procs.head q = 0
  openPort : OpenPort K.device
  ioHead : K.device.port.ioHead = 0
  owns : ∃ live, OwnsBlocks K.device.heap live ∧ (K.globalPcb ≠ 0 → K.globalPcb ∈ live ∧
    (K.procs.pcbs K.globalPcb).name.headD 0 ≠ 0)

section Live

variable {K K' : Kernel Heap} {S : U32 → Prop} {queue others live : List U32} {p : U32}

theorem Populated.requester (h : Populated K S queue others live) :
    Requester K p ↔ ∃ r ∈ queue, (K.device.iocbs r).currProc = p := by
  have hqueued : IsList 0 (nextIocb K.device.iocbs) K.device.port.ioHead queue := h.requests.queued
  simp only [Requester, hqueued.reaches_iff]

theorem Populated.live_mem (h : Populated K S queue others live) (hp : Live K p) : S p := by
  rcases hp with hon | ⟨hne, hrunning⟩ | hrequester
  · exact h.onSome p hon
  · rw [hrunning] at hne ⊢
    exact h.running hne
  · rcases h.requester.mp hrequester with ⟨r, hr, hproc⟩
    rw [← hproc]
    exact h.requesters r hr

/-- The live PCBs are the smallest population. -/
theorem Populated.shrink (h : Populated K S queue others live) :
    Populated K (Live K) queue others live where
  requests := h.requests
  blocks := h.blocks
  onSome := fun _ hp => Or.inl hp
  running := fun hg => Or.inr (Or.inl ⟨hg, rfl⟩)
  requesters := fun r hr => Or.inr (Or.inr (h.requester.mpr ⟨r, hr, rfl⟩))
  housed := fun p hp => h.housed p (h.live_mem hp)
  named := fun p hp => h.named p (h.live_mem hp)

theorem StartsEmpty.not_onSome (h : StartsEmpty K) : ¬ K.procs.OnSome p := by
  intro hp
  rcases hp with ⟨q, hq⟩
  rw [OnQueue, h.heads q] at hq
  exact not_reaches_null hq

theorem StartsEmpty.running (h : StartsEmpty K) (hp : Live K p) : Running K p := by
  rcases hp with hon | hrunning | ⟨r, hreach, -⟩
  · exact absurd hon h.not_onSome
  · exact hrunning
  · rw [h.ioHead] at hreach
    exact absurd hreach not_reaches_null

theorem StartsEmpty.populated (h : StartsEmpty K) :
    ∃ others live, Populated K (Live K) [] others live := by
  rcases h.owns with ⟨live, hown, hrunning⟩
  refine ⟨live, live, ⟨h.openPort, h.ioHead, hown, List.nil_subset _⟩, List.Perm.refl _,
    fun _ hp => Or.inl hp, fun hg => Or.inr (Or.inl ⟨hg, rfl⟩),
    fun r hr => absurd hr List.not_mem_nil, ?_, ?_⟩
  · intro p hp
    rcases h.running hp with ⟨hne, heq⟩
    rw [heq] at hne ⊢
    exact (hrunning hne).1
  · intro p hp
    rcases h.running hp with ⟨hne, heq⟩
    rw [heq] at hne ⊢
    exact (hrunning hne).2

theorem StartsEmpty.uniqueNames (h : StartsEmpty K) : UniqueNames K := by
  intro p q hp hq _
  rw [(h.running hp).2, (h.running hq).2]

theorem UniqueNames.of_kept (h : UniqueNames K) (hlive : ∀ p, Live K' p → Live K p)
    (hkept : NamesKept (Live K) K.procs K'.procs) : UniqueNames K' := by
  intro p q hp hq hname
  rw [nameText, nameText, hkept p (hlive p hp), hkept q (hlive q hq)] at hname
  exact h p q (hlive p hp) (hlive q hq) hname

theorem SetUp.name_ne {n : List U8} {x : U32} (h : SetUp K K' (Live K) others n p)
    (hunused : Unused K (some n)) (hx : Live K x) : K'.procs.nameText x ≠ K'.procs.nameText p := by
  rw [h.name, nameText, h.kept x hx]
  rcases hx with ⟨q, hq⟩ | hrunning | hrequester
  · cases q with
    | ready => exact h.unused x (Or.inl hq)
    | blocked => exact hunused n rfl x (Or.inr (Or.inl hq))
    | suspended => exact h.unused x (Or.inr hq)
  · exact hunused n rfl x (Or.inl hrunning)
  · exact hunused n rfl x (Or.inr (Or.inr hrequester))

theorem uniqueNames_step (h : Populated K (Live K) queue others live) (hunique : UniqueNames K)
    (hstep : ProcessStep Unused K K') :
    UniqueNames K' ∧ ∃ queue' others' live', Populated K' (Live K') queue' others' live' := by
  cases hstep with
  | system K' hstep =>
      rcases systemStep_populated h hstep with ⟨⟨queue', live', h'⟩, hconfined⟩
      refine ⟨hunique.of_kept (fun p hp => h'.live_mem hp) fun p _ => hconfined.names p, ?_⟩
      exact ⟨queue', others, live', h'.shrink⟩
  | create C name procClass priority K' hC hallowed hrun =>
      rcases of_bind_ok hrun with ⟨⟨p, K₁⟩, hsetup, hrest⟩
      rcases of_bind_ok hrest with ⟨s, hinsert, heq⟩
      cases heq
      rcases pcbSetup_populated h hC hsetup with ⟨hnull, ⟨queue', live', h'⟩, hkept⟩ | ⟨n, hn, hset⟩
      · have hsame : s = K₁.procs := by
          rw [hnull, pcbInsert, if_pos rfl] at hinsert
          cases hinsert
          rfl
        rw [hsame]
        refine ⟨hunique.of_kept (fun p hp => h'.live_mem hp) hkept, ?_⟩
        exact ⟨queue', others, live', h'.shrink⟩
      · rcases hset.insert hinsert with ⟨queue', live', h'⟩
        refine ⟨?_, queue', p :: others, live', h'.shrink⟩
        have hname : ∀ x, (s.pcbs x).name = (K₁.procs.pcbs x).name :=
          (pcbInsert_linksOnly hinsert).name
        have hold : ∀ x, Live K x → s.nameText x ≠ s.nameText p := by
          intro x hx
          rw [nameText, nameText, hname, hname]
          rw [hn] at hallowed
          exact hset.name_ne hallowed hx
        intro x y hx hy hxy
        rcases h'.live_mem hx with hxold | hxnew
        · rcases h'.live_mem hy with hyold | hynew
          · apply hunique x y hxold hyold
            simp only [nameText, hname, hset.kept x hxold, hset.kept y hyold] at hxy
            exact hxy
          · rw [hynew] at hxy
            exact absurd hxy (hold x hxold)
        · rcases h'.live_mem hy with hyold | hynew
          · rw [hxnew] at hxy
            exact absurd hxy.symm (hold y hyold)
          · rw [hxnew, hynew]

end Live

/-- Names stay unique as long as no process is created with the name of the running
process, a blocked one or one that waits for the device. -/
theorem names_unique {K₀ K : Kernel Heap} (hstart : StartsEmpty K₀)
    (hrun : Relation.ReflTransGen (ProcessStep Unused) K₀ K) : UniqueNames K := by
  rcases hstart.populated with ⟨others, live, hpopulated⟩
  have hinv := Run.invariant (fun K => UniqueNames K ∧ ∃ queue others live,
      Populated K (Live K) queue others live)
    (fun _ _ h hstep => by
      rcases h with ⟨hunique, queue, others, live, h⟩
      exact uniqueNames_step h hunique hstep)
    hrun ⟨hstart.uniqueNames, [], others, live, hpopulated⟩
  exact hinv.1

def bootKernel : Kernel Heap :=
  kernelWith [] 0 0 0 (callContext 1 0 0 0) bootedPort

theorem bootKernel_startsEmpty : StartsEmpty bootKernel := by
  constructor
  · intro q
    cases q <;> rfl
  · exact bootedPort_fresh.openPort
  · rfl
  · exact ⟨[], kernelHeap_owns, fun h => absurd rfl h⟩

def createIdleCreate (name : List U8) : Except Fault (Kernel Heap × Kernel Heap × Kernel Heap) := do
  let K₁ ← createPcb studentHeap silentConsole bootKernel (some [65, 65]) userProc 1
  let (_, K₂) ← sysCall studentHeap K₁ 0x1234
  let K₃ ← createPcb studentHeap silentConsole K₂ (some name) userProc 1
  return (K₁, K₂, K₃)

theorem createIdleCreate_run {Allowed : Kernel Heap → Option (List U8) → Prop} {name : List U8}
    {K₁ K₂ K₃ : Kernel Heap} (hrun : createIdleCreate name = .ok (K₁, K₂, K₃))
    (hfirst : Allowed bootKernel (some [65, 65])) (hsecond : Allowed K₂ (some name)) :
    Relation.ReflTransGen (ProcessStep Allowed) bootKernel K₃ := by
  rcases of_bind_ok hrun with ⟨K, hcreate, hrest⟩
  rcases of_bind_ok hrest with ⟨⟨r, K'⟩, hidle, hrest'⟩
  rcases of_bind_ok hrest' with ⟨K'', hcreate', heq⟩
  cases heq
  have hstep₁ : ProcessStep Allowed bootKernel K₁ :=
    ProcessStep.create _ _ _ _ _ _ (silentConsole_talks _) hfirst hcreate
  have hstep₂ : ProcessStep Allowed K₁ K₂ :=
    ProcessStep.system _ _ (SystemStep.call K₁ K₁.contexts K₁.device.mem 0x1234 r K₂ hidle)
  have hstep₃ : ProcessStep Allowed K₂ K₃ :=
    ProcessStep.create _ _ _ _ _ _ (silentConsole_talks _) hsecond hcreate'
  exact ((Relation.ReflTransGen.single hstep₁).tail hstep₂).tail hstep₃

theorem unused_of_idle {K : Kernel Heap} {n : List U8} (hblocked : K.procs.blockedHead = 0)
    (hioHead : K.device.port.ioHead = 0)
    (hrunning : K.globalPcb ≠ 0 → K.procs.nameText K.globalPcb ≠ text n) :
    Unused K (some n) := by
  intro n' hn p hp
  cases hn
  rcases hp with ⟨hne, hglobal⟩ | hon | ⟨r, hreach, -⟩
  · rw [hglobal] at hne ⊢
    exact hrunning hne
  · have hnull : K.procs.head .blocked = 0 := hblocked
    rw [OnQueue, hnull] at hon
    exact absurd hon not_reaches_null
  · rw [hioHead] at hreach
    exact absurd hreach not_reaches_null

theorem names_unique_two_processes :
    ∃ K, Relation.ReflTransGen (ProcessStep Unused) bootKernel K ∧
      K.procs.readyHead ≠ 0 ∧ K.globalPcb ≠ 0 ∧ UniqueNames K := by
  have hcompute : (createIdleCreate [66, 66]).map (fun r =>
      (r.2.1.procs.nameText r.2.1.globalPcb, r.2.1.procs.blockedHead, r.2.1.device.port.ioHead,
        decide (r.2.2.procs.readyHead ≠ 0), decide (r.2.2.globalPcb ≠ 0))) =
      .ok ([65, 65], 0, 0, true, true) := by
    decide +kernel
  rcases of_map_ok hcompute with ⟨⟨K₁, K₂, K₃⟩, hrun, hresult⟩
  simp only [Prod.mk.injEq, decide_eq_true_eq] at hresult
  rcases hresult with ⟨hname, hblocked, hioHead, hready, hglobal⟩
  have hfirst : Unused bootKernel (some [65, 65]) :=
    unused_of_idle rfl rfl fun h => absurd rfl h
  have hsecond : Unused K₂ (some [66, 66]) := by
    apply unused_of_idle hblocked hioHead
    intro _
    rw [hname]
    decide
  have hsteps := createIdleCreate_run hrun hfirst hsecond
  exact ⟨K₃, hsteps, hready, hglobal, names_unique bootKernel_startsEmpty hsteps⟩

/-- The search does not see a running process: `AA` is created once more. -/
theorem running_name_created_again :
    StartsEmpty bootKernel ∧
      ∃ K, Relation.ReflTransGen (ProcessStep fun _ _ => True) bootKernel K ∧ ¬ UniqueNames K := by
  have hcompute : (createIdleCreate [65, 65]).map (fun r =>
      (r.2.2.procs.nameText r.2.2.globalPcb, r.2.2.procs.nameText r.2.2.procs.readyHead,
        decide (r.2.2.procs.readyHead ≠ 0), decide (r.2.2.globalPcb ≠ 0),
        decide (r.2.2.procs.readyHead ≠ r.2.2.globalPcb))) =
      .ok ([65, 65], [65, 65], true, true, true) := by
    decide +kernel
  rcases of_map_ok hcompute with ⟨⟨K₁, K₂, K₃⟩, hrun, hresult⟩
  simp only [Prod.mk.injEq, decide_eq_true_eq] at hresult
  rcases hresult with ⟨hname, hname', hready, hglobal, hne⟩
  refine ⟨bootKernel_startsEmpty, K₃, createIdleCreate_run hrun trivial trivial, ?_⟩
  intro hunique
  apply hne
  apply hunique
  · exact Or.inl ⟨.ready, Reaches.here hready⟩
  · exact Or.inr (Or.inl ⟨hglobal, rfl⟩)
  · exact hname'.trans hname.symm

end Mpx
