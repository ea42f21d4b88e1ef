import Mpx.Kernel.Population
import Mpx.Kernel.Setup

/-! What `pcb_setup` does to a system of processes: it takes a block that no process has,
and gives it back when it returns NULL. -/

namespace Mpx

open Memory PointerList Procs Run CString

/-- While a message is written, the system makes system calls and takes interrupts. -/
def Talks {σ : Type} (F : HeapFunctions σ) (C : Console σ) : Prop :=
  ∀ msg K K', C msg K = .ok K' → Relation.ReflTransGen (SystemStep F) K K'

theorem silentConsole_talks {σ : Type} (F : HeapFunctions σ) : Talks F silentConsole := by
  intro msg K K' hrun
  cases hrun
  exact Relation.ReflTransGen.refl

def NamesKept (S : U32 → Prop) (s s' : Procs) : Prop :=
  ∀ p, S p → (s'.pcbs p).name = (s.pcbs p).name

section Setup

variable {K K' : Kernel Heap} {S : U32 → Prop} {queue others live : List U32} {p : U32}
  {C : Console Heap}

theorem Populated.modify (h : Populated K S queue others live) (hp : ¬ S p) (f : Pcb → Pcb) :
    Populated { K with procs := K.procs.modify p f } S queue others live where
  requests := h.requests
  blocks := h.blocks
  onSome := by
    intro x hx
    exact h.onSome x (onSome_modify (fun hon => hp (h.onSome p hon)) f hx)
  running := h.running
  requesters := h.requesters
  housed := h.housed
  named := by
    intro x hx
    have hxp : x ≠ p := fun heq => hp (heq ▸ hx)
    simp only [pcbs_modify_ne hxp]
    exact h.named x hx

theorem names_modify (hp : ¬ S p) (s : Procs) (f : Pcb → Pcb) : NamesKept S s (s.modify p f) := by
  intro x hx
  have hxp : x ≠ p := fun heq => hp (heq ▸ hx)
  rw [pcbs_modify_ne hxp]

theorem Populated.allocate {heap : Heap} (h : Populated K S queue others live)
    (hown : OwnsBlocks heap (p :: live)) :
    Populated { K with device := { K.device with heap := heap } } S queue (p :: others)
      (p :: live) := by
  apply h.withHeap hown
  · exact (h.blocks.cons p).trans List.perm_middle.symm
  · exact fun x hx => List.mem_cons_of_mem _ (h.housed x hx)

theorem Populated.fresh (h : Populated K S queue others live) (hnew : p ∉ live) : ¬ S p :=
  fun hp => hnew (h.blocks.mem_iff.mpr (List.mem_append_right _ (h.housed p hp)))

theorem Populated.release {heap : Heap} (h : Populated K S queue (p :: others) live)
    (hp : ¬ S p) (hown : OwnsBlocks heap (live.erase p)) :
    Populated { K with device := { K.device with heap := heap } } S queue others
      (live.erase p) := by
  apply h.withHeap hown
  · have hmiddle : live.Perm (p :: (queue ++ others)) := h.blocks.trans List.perm_middle
    have herase := hmiddle.erase p
    rwa [List.erase_cons_head] at herase
  · intro x hx
    have hxp : x ≠ p := fun heq => hp (heq ▸ hx)
    exact (List.mem_cons.mp (h.housed x hx)).resolve_left hxp

/-- `pcb_free` gives a block back just when the name in it is empty. -/
theorem pcbFree_release {s : Procs} {heap heap' : Heap} {r : Int} (hown : OwnsBlocks heap live)
    (hp : p ≠ 0) (hrun : pcbFree studentHeap heap s p = .ok (r, heap')) :
    (s.pcbs p).name.headD 0 = 0 ∧ OwnsBlocks heap' (live.erase p) := by
  rcases (pcbFree_returns_iff hown hp).mp ⟨_, hrun⟩ with ⟨hlive, hname⟩
  refine ⟨hname, ?_⟩
  rcases studentHeap_laws.free_live hown hlive with ⟨r', heap₁, hfree, hown'⟩
  rw [pcbFree_unnamed studentHeap_releases hown hp hlive hname hfree] at hrun
  cases hrun
  exact hown'

theorem freePcb_populated {q : U32} (h : Populated K S queue (p :: others) live) (hp : ¬ S p)
    (hnull : p ≠ 0) (hrun : freePcb studentHeap K p = .ok (q, K')) :
    q = 0 ∧ (K.procs.pcbs p).name.headD 0 = 0 ∧ K'.procs = K.procs ∧
      ∃ queue' live', Populated K' S queue' others live' := by
  rcases of_bind_ok hrun with ⟨⟨r, heap⟩, hfree, heq⟩
  cases heq
  rcases pcbFree_release h.requests.owns hnull hfree with ⟨hname, hown⟩
  exact ⟨rfl, hname, rfl, queue, live.erase p, h.release hp hown⟩

theorem pcbAllocate_populated (h : Populated K S queue others live)
    (hC : Talks studentHeap C) (hrun : pcbAllocate studentHeap C K = .ok (p, K')) :
    (p = 0 ∧ (∃ queue' live', Populated K' S queue' others live') ∧
      NamesKept S K.procs K'.procs) ∨
    (p ≠ 0 ∧ ¬ S p ∧ Populated K' S queue (p :: others) (p :: live) ∧
      ∃ f, K'.procs = K.procs.modify p f) := by
  rcases of_bind_ok hrun with ⟨⟨temp, heap⟩, halloc, hrest⟩
  have hown := allocateMemory_owns h.requests.owns halloc
  by_cases hnull : temp = 0
  · simp only [if_pos hnull] at hrest hown
    rcases of_bind_ok hrest with ⟨K₂, hmessage, heq⟩
    cases heq
    rcases systemRun_populated (h.withHeap hown h.blocks h.housed) (hC _ _ _ hmessage) with ⟨hnext, hconfined⟩
    exact Or.inl ⟨rfl, hnext, fun x _ => hconfined.names x⟩
  · simp only [if_neg hnull] at hrest hown
    cases hrest
    have hnew : p ∉ live := (List.nodup_cons.mp (ownsBlocks_nodup hown)).1
    have hfresh := h.fresh hnew
    right
    exact ⟨hnull, hfresh, (h.allocate hown).modify hfresh _,
      fun b => { b with procClass := -1, priority := -1, state := -1, nextPcb := 0, prevPcb := 0 },
      rfl⟩

theorem pcbFind_populated {foundName : List U8} (h : Populated K S queue others live)
    (hC : Talks studentHeap C) (hrun : pcbFind C K foundName = .ok (p, K')) :
    (∃ queue' live', Populated K' S queue' others live') ∧ Confined S K.procs K'.procs ∧
      pcbSearch K.procs foundName = .ok p := by
  rcases of_bind_ok hrun with ⟨w, hsearch, hrest⟩
  by_cases hmessage : w = 0 ∧ K.procs.suspendedHead ≠ 0
  · rw [if_pos hmessage] at hrest
    rcases of_bind_ok hrest with ⟨K₁, hwrite, heq⟩
    cases heq
    rw [hmessage.1] at hsearch
    rcases systemRun_populated h (hC _ _ _ hwrite) with ⟨hnext, hconfined⟩
    exact ⟨hnext, hconfined, hsearch⟩
  · rw [if_neg hmessage] at hrest
    cases hrest
    exact ⟨⟨queue, live, h⟩, confined_refl, hsearch⟩

/-- A name in use makes `pcb_setup` fault: it frees its PCB twice. -/
theorem checkNameInUse_populated {q : U32} (h : Populated K S queue (p :: others) live)
    (hC : Talks studentHeap C) (hp : ¬ S p) (hnull : p ≠ 0)
    (hname : (K.procs.pcbs p).name.headD 0 ≠ 0)
    (hrun : checkNameInUse studentHeap C K p = .ok (q, K')) :
    q = p ∧ (∃ queue' live', Populated K' S queue' (p :: others) live') ∧
      Confined S K.procs K'.procs ∧ pcbSearch K.procs (K.procs.pcbs p).name = .ok 0 := by
  rcases of_bind_ok hrun with ⟨⟨found, K₁⟩, hfind, hrest⟩
  rcases pcbFind_populated h hC hfind with ⟨⟨queue₁, live₁, h₁⟩, hconfined₁, hsearch⟩
  by_cases hfound : found = 0
  · simp only [hfound, ne_eq, not_true, if_false] at hrest
    cases hrest
    rw [hfound] at hsearch
    exact ⟨rfl, ⟨queue₁, live₁, h₁⟩, hconfined₁, hsearch⟩
  · simp only [if_pos hfound] at hrest
    rcases of_bind_ok hrest with ⟨K₂, hwrite, hfree⟩
    rcases systemRun_populated h₁ (hC _ _ _ hwrite) with ⟨⟨queue₂, live₂, h₂⟩, hconfined₂⟩
    rcases freePcb_populated h₂ hp hnull hfree with ⟨-, hempty, -⟩
    rw [(hconfined₁.trans hconfined₂).names] at hempty
    exact absurd hempty hname

structure SetUp (K K' : Kernel Heap) (S : U32 → Prop) (others : List U32) (n : List U8)
    (p : U32) : Prop where
  null : p ≠ 0
  fresh : ¬ S p
  populated : ∃ queue' live', Populated K' S queue' (p :: others) live'
  kept : NamesKept S K.procs K'.procs
  name : K'.procs.nameText p = text n
  length : minNameLen ≤ strlen n
  unused : ∀ x, K.procs.OnQueue .ready x ∨ K.procs.OnQueue .suspended x →
    K.procs.nameText x ≠ text n

theorem text_copyName (name old : List U8) : text (copyName name old) = text name :=
  text_append_zero name _

theorem headD_ne_zero {n : List U8} (hlength : minNameLen ≤ strlen n) (old : List U8) :
    (copyName n old).headD 0 ≠ 0 := by
  apply text_ne_nil
  rw [text_copyName]
  intro hnil
  rw [strlen_eq_length, hnil] at hlength
  exact absurd hlength (by decide)

theorem onQueue_changed {s : Procs} {f : Pcb → Pcb} (hp : ¬ s.OnSome p) (g : Pcb → Pcb)
    {q : Queue} {x : U32} (hx : s.OnQueue q x) :
    ((s.modify p f).modify p g).OnQueue q x :=
  onQueue_modify (fun hon => hp (onSome_modify hp f hon)) g (onQueue_modify hp f hx)

theorem setName_setUp {K₁ : Kernel Heap} {n : List U8} {f : Pcb → Pcb} {p₁ : U32}
    {procClass priority : Int} (h : Populated K S queue others live)
    (h₁ : Populated K₁ S queue (p₁ :: others) (p₁ :: live)) (hC : Talks studentHeap C)
    (hp : ¬ S p₁) (hnull : p₁ ≠ 0) (hprocs : K₁.procs = K.procs.modify p₁ f)
    (hlength : ¬ (strlen n < minNameLen ∨ strlen n > maxNameLen))
    (hrun : checkNameInUse studentHeap C { K₁ with procs := K₁.procs.modify p₁ fun b =>
      { b with
        name := copyName n b.name, priority := priority, procClass := procClass
        state := readyState, stackTop := p₁ + stackOffset + 1024 - contextSize } } p₁ =
      .ok (p, K')) : SetUp K K' S others n p := by
  have hmin : minNameLen ≤ strlen n := not_lt.mp (not_or.mp hlength).1
  generalize hg : (fun b : Pcb => { b with
    name := copyName n b.name, priority := priority, procClass := procClass
    state := readyState, stackTop := p₁ + stackOffset + 1024 - contextSize }) = g at hrun
  have hname : ((K₁.procs.modify p₁ g).pcbs p₁).name = copyName n (K₁.procs.pcbs p₁).name := by
    rw [pcbs_modify_self, ← hg]
  have hhead : ((K₁.procs.modify p₁ g).pcbs p₁).name.headD 0 ≠ 0 := by
    rw [hname]
    exact headD_ne_zero hmin _
  rcases checkNameInUse_populated (h₁.modify hp g) hC hp hnull hhead hrun with
    ⟨hpp, hnext, hconfined, hsearch⟩
  have hkept : NamesKept S K.procs (K₁.procs.modify p₁ g) := by
    intro x hx
    rw [names_modify hp K₁.procs g x hx, hprocs, names_modify hp K.procs f x hx]
  rw [hpp]
  constructor
  · exact hnull
  · exact hp
  · exact hnext
  · intro x hx
    rw [hconfined.names]
    exact hkept x hx
  · rw [nameText, hconfined.names]
    simp only [hname]
    exact text_copyName n _
  · exact hmin
  · intro x hx
    have hon : K.procs.OnSome x := by
      rcases hx with hready | hsuspended
      · exact ⟨.ready, hready⟩
      · exact ⟨.suspended, hsuspended⟩
    have hout : ¬ K.procs.OnSome p₁ := fun hmem => hp (h.onSome p₁ hmem)
    have hx' : (K₁.procs.modify p₁ g).OnQueue .ready x ∨
        (K₁.procs.modify p₁ g).OnQueue .suspended x := by
      rw [hprocs]
      rcases hx with hready | hsuspended
      · exact Or.inl (onQueue_changed hout g hready)
      · exact Or.inr (onQueue_changed hout g hsuspended)
    have hdiffers := pcbSearch_none hsearch hx'
    simp only [nameText, hname, text_copyName, hkept x (h.onSome x hon)] at hdiffers
    exact hdiffers

theorem pcbSetup_populated {name : Option (List U8)} {procClass priority : Int}
    (h : Populated K S queue others live) (hC : Talks studentHeap C)
    (hrun : pcbSetup studentHeap C K name procClass priority = .ok (p, K')) :
    (p = 0 ∧ (∃ queue' live', Populated K' S queue' others live') ∧
      NamesKept S K.procs K'.procs) ∨
    ∃ n, name = some n ∧ SetUp K K' S others n p := by
  rcases of_bind_ok hrun with ⟨⟨p₁, K₁⟩, halloc, hrest⟩
  rcases pcbAllocate_populated h hC halloc with ⟨hnull, hnext, hkept⟩ | ⟨hnull, hp, h₁, f, hprocs⟩
  · simp only [if_pos hnull] at hrest
    cases hrest
    exact Or.inl ⟨rfl, hnext, hkept⟩
  · have hkept₁ : NamesKept S K.procs K₁.procs := by
      rw [hprocs]
      exact names_modify hp K.procs f
    have hfreed : freePcb studentHeap K₁ p₁ = .ok (p, K') →
        p = 0 ∧ (∃ queue' live', Populated K' S queue' others live') ∧
          NamesKept S K.procs K'.procs := by
      intro hfree
      rcases freePcb_populated h₁ hp hnull hfree with ⟨hzero, -, hsame, hnext⟩
      refine ⟨hzero, hnext, ?_⟩
      rw [hsame]
      exact hkept₁
    simp only [if_neg hnull] at hrest
    by_cases hpriority : priority < 0 ∨ priority > 9
    · rw [if_pos hpriority] at hrest
      exact Or.inl (hfreed hrest)
    · rw [if_neg hpriority] at hrest
      by_cases hclass : procClass ≠ userProc ∧ procClass ≠ systemProc
      · rw [if_pos hclass] at hrest
        exact Or.inl (hfreed hrest)
      · rw [if_neg hclass] at hrest
        cases name with
        | none => exact Or.inl (hfreed hrest)
        | some n =>
            by_cases hlength : strlen n < minNameLen ∨ strlen n > maxNameLen
            · simp only [if_pos hlength] at hrest
              exact Or.inl (hfreed hrest)
            · simp only [if_neg hlength] at hrest
              exact Or.inr ⟨n, rfl, setName_setUp h h₁ hC hp hnull hprocs hlength hrest⟩

theorem SetUp.joins {n : List U8} (h : SetUp K K' S others n p) :
    ∃ queue' live', Populated K' (fun x => S x ∨ x = p) queue' (p :: others) live' := by
  rcases h.populated with ⟨queue', live', h'⟩
  refine ⟨queue', live', h'.requests, h'.blocks, fun x hx => Or.inl (h'.onSome x hx),
    fun hg => Or.inl (h'.running hg), fun r hr => Or.inl (h'.requesters r hr), ?_, ?_⟩
  · intro x hx
    rcases hx with hold | hnew
    · exact h'.housed x hold
    · rw [hnew]
      exact List.mem_cons_self
  · intro x hx
    rcases hx with hold | hnew
    · exact h'.named x hold
    · rw [hnew]
      apply text_ne_nil
      intro hnil
      have htext : text n = [] := h.name.symm.trans hnil
      have hlength := h.length
      rw [strlen_eq_length, htext] at hlength
      exact absurd hlength (by decide)

theorem SetUp.insert {n : List U8} {s : Procs} (h : SetUp K K' S others n p)
    (hrun : pcbInsert K'.procs p = .ok s) :
    ∃ queue' live', Populated { K' with procs := s } (fun x => S x ∨ x = p) queue' (p :: others)
      live' := by
  rcases h.joins with ⟨queue', live', h'⟩
  exact ⟨queue', live', h'.withProcs (confined_insert (Or.inr rfl) hrun)⟩

theorem startProcess_populated {name : List U8} {procClass priority : Int} {cleared : Bool}
    {eip : U32} (h : Populated K S queue others live) (hC : Talks studentHeap C)
    (hrun : startProcess studentHeap C K name procClass priority cleared eip = .ok (p, K')) :
    ∃ queue' live', Populated K' (fun x => S x ∨ x = p) queue' (p :: others) live' := by
  rcases startProcess_cases hrun with ⟨hnull, K₁, s, hsetup, hinsert, hK'⟩
  rcases pcbSetup_populated h hC hsetup with ⟨hzero, -⟩ | ⟨n, -, hset⟩
  · exact absurd hzero hnull
  · rcases hset.insert hinsert with ⟨queue', live', h'⟩
    rw [hK']
    exact ⟨queue', live', h'.requests, h'.blocks, h'.onSome, h'.running, h'.requesters,
      h'.housed, h'.named⟩

end Setup

end Mpx
