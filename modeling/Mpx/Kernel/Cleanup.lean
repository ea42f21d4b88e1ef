import Mpx.Heap.FirstFit
import Mpx.Kernel.Names

/-! `pcb_free` and the exits of `pcb_setup` that clean up with it. -/

namespace Mpx

open Memory PointerList Procs Run CString

/-! No system call and no interrupt writes the name of a PCB. -/

section Names

variable {σ : Type} {F : HeapFunctions σ} {K K' : Kernel σ}

abbrev SameNames (s s' : Procs) : Prop := Confined (fun _ => True) s s'

theorem serialOutputInterrupt_names {d d' : Device σ} {s s' : Procs}
    (hrun : serialOutputInterrupt F d s = .ok (d', s')) : SameNames s s' := by
  rw [serialOutputInterrupt] at hrun
  by_cases hop : d.port.operation = .write
  · rw [if_neg (not_not.mpr hop)] at hrun
    simp only at hrun
    split at hrun
    · cases hrun
    · split at hrun
      · cases hrun
        exact confined_refl
      · rcases of_bind_ok hrun with ⟨s₁, hunblock, hrest⟩
        rcases of_bind_ok hrest with ⟨⟨r, heap⟩, -, heq⟩
        cases heq
        exact unblockPcb_confined trivial hunblock
  · rw [if_pos hop] at hrun
    cases hrun
    exact confined_refl

theorem systemStep_names (hstep : SystemStep F K K') : SameNames K.procs K'.procs := by
  cases hstep with
  | call contexts mem ctx r K' hrun =>
      have h := sysCall_confined (S := fun _ => True) (fun _ => trivial) hrun
      exact h
  | inputInterrupt => exact confined_refl
  | outputInterrupt device procs hrun => exact serialOutputInterrupt_names hrun

theorem systemRun_names (hrun : Relation.ReflTransGen (SystemStep F) K K') :
    SameNames K.procs K'.procs := by
  induction hrun with
  | refl => exact confined_refl
  | tail _ hlast ih => exact ih.trans (systemStep_names hlast)

variable {C : Console σ} {p q : U32}

theorem freePcb_null (hrun : freePcb F K q = .ok (p, K')) : p = 0 := by
  rcases of_bind_ok hrun with ⟨⟨r, heap⟩, -, heq⟩
  cases heq
  rfl

theorem pcbFind_search {foundName : List U8} (hrun : pcbFind C K foundName = .ok (p, K')) :
    pcbSearch K.procs foundName = .ok p := by
  rcases of_bind_ok hrun with ⟨w, hsearch, hmessage⟩
  by_cases hw : w = 0 ∧ K.procs.suspendedHead ≠ 0
  · rw [if_pos hw] at hmessage
    rcases of_bind_ok hmessage with ⟨K₁, -, heq⟩
    cases heq
    rwa [hw.1] at hsearch
  · rw [if_neg hw] at hmessage
    cases hmessage
    exact hsearch

theorem checkNameInUse_passed (hrun : checkNameInUse F C K q = .ok (p, K')) (hp : p ≠ 0) :
    p = q ∧ pcbFind C K (K.procs.pcbs q).name = .ok (0, K') := by
  rcases of_bind_ok hrun with ⟨⟨found, K₁⟩, hfind, hrest⟩
  by_cases hfound : found = 0
  · simp only [hfound, ne_eq, not_true, if_false] at hrest
    cases hrest
    rw [hfound] at hfind
    exact ⟨rfl, hfind⟩
  · simp only [if_pos hfound] at hrest
    rcases of_bind_ok hrest with ⟨K₂, -, hfree⟩
    exact absurd (freePcb_null hfree) hp

theorem checkNameInUse_names (hC : Talks F C) (hrun : checkNameInUse F C K q = .ok (p, K'))
    (hp : p ≠ 0) : p = q ∧ SameNames K.procs K'.procs := by
  rcases checkNameInUse_passed hrun hp with ⟨hpq, hfind⟩
  refine ⟨hpq, ?_⟩
  rcases of_bind_ok hfind with ⟨w, -, hmessage⟩
  by_cases hw : w = 0 ∧ K.procs.suspendedHead ≠ 0
  · rw [if_pos hw] at hmessage
    rcases of_bind_ok hmessage with ⟨K₁, hwrite, heq⟩
    cases heq
    exact systemRun_names (hC _ _ _ hwrite)
  · rw [if_neg hw] at hmessage
    cases hmessage
    exact confined_refl

theorem pcbSetup_name {name : Option (List U8)} {procClass priority : Int} (hC : Talks F C)
    (hrun : pcbSetup F C K name procClass priority = .ok (p, K')) (hp : p ≠ 0) :
    ∃ n old, name = some n ∧ minNameLen ≤ strlen n ∧ strlen n ≤ maxNameLen ∧
      (K'.procs.pcbs p).name = copyName n old := by
  rcases of_bind_ok hrun with ⟨⟨q, K₁⟩, -, hrest⟩
  have hgiven : freePcb F K₁ q ≠ .ok (p, K') := fun hfree => hp (freePcb_null hfree)
  by_cases hq : q = 0
  · simp only [if_pos hq] at hrest
    cases hrest
    exact absurd rfl hp
  · simp only [if_neg hq] at hrest
    split at hrest
    · exact absurd hrest hgiven
    · split at hrest
      · exact absurd hrest hgiven
      · cases name with
        | none => exact absurd hrest hgiven
        | some n =>
            by_cases hlength : strlen n < minNameLen ∨ strlen n > maxNameLen
            · simp only [if_pos hlength] at hrest
              exact absurd hrest hgiven
            · simp only [if_neg hlength] at hrest
              rcases not_or.mp hlength with ⟨hmin, hmax⟩
              rcases checkNameInUse_names hC hrest hp with ⟨rfl, hsame⟩
              refine ⟨n, (K₁.procs.pcbs p).name, rfl, not_lt.mp hmin, not_lt.mp hmax, ?_⟩
              rw [hsame.names]
              simp only [pcbs_modify_self]

end Names

section Once

variable {C : Console Heap} {K K' : Kernel Heap} {name : Option (List U8)}
  {procClass priority : Int} {p : U32}

/-- Every PCB that `pcb_setup` returns has a name, so `pcb_free` releases it twice and
does not return. -/
theorem pcb_free_never_once (hC : Talks studentHeap C)
    (hsetup : pcbSetup studentHeap C K name procClass priority = .ok (p, K')) (hp : p ≠ 0)
    {h : Heap} {live : List U32} (hown : OwnsBlocks h live) {s : Procs}
    (hname : (s.pcbs p).name = (K'.procs.pcbs p).name) :
    pcbFree studentHeap h s p = .error .nullPointer ∧ ¬ FreedOnce h s p := by
  rcases pcbSetup_name hC hsetup hp with ⟨n, old, -, hmin, -, hstored⟩
  have hhead : (s.pcbs p).name.headD 0 ≠ 0 := by
    rw [hname, hstored]
    exact headD_ne_zero hmin old
  have hfault := pcbFree_named studentHeap_releases hown hp hhead
  constructor
  · exact hfault
  · intro honce
    rcases honce with ⟨h', hret, -⟩
    rw [hfault] at hret
    cases hret

theorem bootKernel_setUp : ∃ p K', p ≠ 0 ∧
    pcbSetup studentHeap silentConsole bootKernel (some [65, 65]) userProc 1 = .ok (p, K') ∧
    (∃ live, OwnsBlocks K'.device.heap live ∧ p ∈ live) ∧
    (pcbFree studentHeap K'.device.heap K'.procs p).map Prod.fst = .error .nullPointer := by
  have hcompute : (pcbSetup studentHeap silentConsole bootKernel (some [65, 65]) userProc 1).map
      (fun r => (decide (r.1 ≠ 0), (pcbFree studentHeap r.2.device.heap r.2.procs r.1).map
        Prod.fst)) = .ok (true, .error .nullPointer) := by
    decide +kernel
  rcases of_map_ok hcompute with ⟨⟨p, K'⟩, hsetup, heq⟩
  rcases Prod.mk.inj heq with ⟨hne, hfault⟩
  have hp : p ≠ 0 := of_decide_eq_true hne
  rcases bootKernel_startsEmpty.populated with ⟨others, live, hpopulated⟩
  rcases pcbSetup_populated hpopulated (silentConsole_talks _) hsetup with ⟨hzero, -⟩ | ⟨n, -, hset⟩
  · exact absurd hzero hp
  · rcases hset.joins with ⟨queue', live', h'⟩
    refine ⟨p, K', hp, hsetup, ⟨live', h'.requests.owns, ?_⟩, hfault⟩
    exact h'.blocks.mem_iff.mpr (List.mem_append_right _ List.mem_cons_self)

theorem pcb_free_never_once_first : ∃ p K', p ≠ 0 ∧
    pcbSetup studentHeap silentConsole bootKernel (some [65, 65]) userProc 1 = .ok (p, K') ∧
    pcbFree studentHeap K'.device.heap K'.procs p = .error .nullPointer ∧
    ¬ FreedOnce K'.device.heap K'.procs p := by
  rcases bootKernel_setUp with ⟨p, K', hp, hsetup, ⟨live, hown, -⟩, -⟩
  have h := pcb_free_never_once (silentConsole_talks _) hsetup hp hown rfl
  exact ⟨p, K', hp, hsetup, h.1, h.2⟩

/-- To free the PCB of the process `AA` again faults at the second release. -/
theorem first_process_freed_twice : ∃ p K', p ≠ 0 ∧
    pcbSetup studentHeap silentConsole bootKernel (some [65, 65]) userProc 1 = .ok (p, K') ∧
    (∃ live, OwnsBlocks K'.device.heap live ∧ p ∈ live) ∧
    ¬ FreedOnce K'.device.heap K'.procs p := by
  rcases bootKernel_setUp with ⟨p, K', hp, hsetup, hlive, hfault⟩
  refine ⟨p, K', hp, hsetup, hlive, ?_⟩
  intro honce
  rcases honce with ⟨h', hret, -⟩
  rw [hret] at hfault
  cases hfault

end Once

section Trace

variable {F : HeapFunctions Heap} {e : Fault} {C : Console Heap} {K : Kernel Heap}
  {live : List U32} {name : Option (List U8)} {procClass priority : Int} {b : Mcb} {p : U32}

def BadArguments (name : Option (List U8)) (procClass priority : Int) : Prop :=
  (priority < 0 ∨ priority > 9) ∨ (procClass ≠ userProc ∧ procClass ≠ systemProc) ∨
    ∀ n, name = some n → strlen n < minNameLen ∨ strlen n > maxNameLen

/-- The blocks of the heap and the queues of `K'` are those of `K`. -/
structure Restored (K K' : Kernel Heap) : Prop where
  chain : K'.device.heap.chain = K.device.heap.chain
  heads : ∀ q, K'.procs.head q = K.procs.head q
  queued : ∀ x, K.procs.OnSome x → K'.procs.pcbs x = K.procs.pcbs x

def allocationFailedMsg : String := "PCB allocation failed."

/-- `pcb_setup` releases allocated blocks only, and nothing has changed when it returns NULL,
or just its message has been written, which takes blocks itself and lets others run. -/
structure NoTrace (C : Console Heap) (K : Kernel Heap) (name : Option (List U8))
    (procClass priority : Int) : Prop where
  released : pcbSetup checkedHeap C K name procClass priority ≠ .error .outOfBounds
  restored : ∀ K', pcbSetup studentHeap C K name procClass priority = .ok (0, K') →
    Restored K K' ∨ C allocationFailedMsg K = .ok K'

/-- With the new PCB at `p`: either the arguments are bad and no name is left over in the
block, or they are good and the name is not in use. -/
def CleanExit (K : Kernel Heap) (name : Option (List U8)) (procClass priority : Int) (p : U32) :
    Prop :=
  (BadArguments name procClass priority → (K.procs.pcbs p).name.headD 0 = 0) ∧
    (¬ BadArguments name procClass priority →
      ∀ n x, name = some n → pcbSearch K.procs n = .ok x → x = 0)

def freshPcb (b : Pcb) : Pcb :=
  { b with procClass := -1, priority := -1, state := -1, nextPcb := 0, prevPcb := 0 }

def withPcb (K : Kernel Heap) (heap : Heap) (p : U32) : Kernel Heap :=
  { K with procs := K.procs.modify p freshPcb, device := { K.device with heap := heap } }

def firstStackTop (p : U32) : U32 := p + stackOffset + 1024 - contextSize

def setUpPcb (p : U32) (name : List U8) (procClass priority : Int) (b : Pcb) : Pcb :=
  { b with
    name := copyName name b.name, priority := priority, procClass := procClass
    state := readyState, stackTop := firstStackTop p }

def Procs.withNew (s : Procs) (p : U32) (name : List U8) (procClass priority : Int) : Procs :=
  (s.modify p freshPcb).modify p (setUpPcb p name procClass priority)

section WithNew

variable {s : Procs} {n : List U8} {x : U32}

@[simp] theorem head_withNew (q : Queue) : (s.withNew p n procClass priority).head q = s.head q := by
  rw [withNew, head_modify, head_modify]

theorem pcbs_withNew_ne (hx : x ≠ p) : (s.withNew p n procClass priority).pcbs x = s.pcbs x := by
  rw [withNew, pcbs_modify_ne hx, pcbs_modify_ne hx]

theorem pcbs_withNew_self :
    (s.withNew p n procClass priority).pcbs p =
      setUpPcb p n procClass priority (freshPcb (s.pcbs p)) := by
  rw [withNew, pcbs_modify_self, pcbs_modify_self]

theorem name_withNew :
    ((s.withNew p n procClass priority).pcbs p).name = copyName n (s.pcbs p).name := by
  rw [pcbs_withNew_self]
  rfl

theorem pcbSearch_withNew (hp : ¬ s.OnSome p) :
    pcbSearch (s.withNew p n procClass priority)
      ((s.withNew p n procClass priority).pcbs p).name = pcbSearch s n := by
  apply pcbSearch_congr
  · exact head_withNew
  · intro x hx
    exact pcbs_withNew_ne fun heq => hp (heq ▸ hx)
  · rw [name_withNew]
    exact text_copyName n _

end WithNew

def withSetUp (K : Kernel Heap) (heap : Heap) (p : U32) (name : List U8)
    (procClass priority : Int) : Kernel Heap :=
  { withPcb K heap p with procs := K.procs.withNew p name procClass priority }

/-- The kernels in which `pcb_setup` writes its messages: the one it is called in, when there is
no block for a PCB, and else the one with the new PCB. -/
inductive WritesIn (K : Kernel Heap) : Kernel Heap → Prop
  | full (hfull : K.device.heap.firstRoom 1100 = none) : WritesIn K K
  | setUp (p : U32) (heap : Heap) (n : List U8) (procClass priority : Int) (hnull : p ≠ 0)
      (halloc : allocateMemory K.device.heap pcbSize = .ok (p, heap))
      (hmin : minNameLen ≤ strlen n) : WritesIn K (withSetUp K heap p n procClass priority)

/-- The messages of `pcb_setup` return, and with a heap that is well formed. -/
def SetupAnswers (C : Console Heap) (K : Kernel Heap) : Prop :=
  ∀ msg K₁, WritesIn K K₁ → ∃ K' live, C msg K₁ = .ok K' ∧ OwnsBlocks K'.device.heap live

theorem Populated.withSetUp {S : U32 → Prop} {queue others : List U32} {heap : Heap}
    (h : Populated K S queue others live)
    (halloc : allocateMemory K.device.heap pcbSize = .ok (p, heap)) (hnull : p ≠ 0)
    (n : List U8) (procClass priority : Int) :
    Populated (Mpx.withSetUp K heap p n procClass priority) S queue (p :: others)
      (p :: live) := by
  have hown := allocateMemory_owns h.requests.owns halloc
  rw [if_neg hnull] at hown
  have hfresh := h.fresh (List.nodup_cons.mp (ownsBlocks_nodup hown)).1
  exact ((h.allocate hown).modify hfresh freshPcb).modify hfresh
    (setUpPcb p n procClass priority)

/-- System calls and interrupts leave a well-formed heap, in every state that they reach. -/
theorem Populated.setupAnswers {S : U32 → Prop} {queue others : List U32}
    (h : Populated K S queue others live) (hC : Talks studentHeap C)
    (hreturns : ∀ msg K₁, WritesIn K K₁ → ∃ K', C msg K₁ = .ok K') : SetupAnswers C K := by
  intro msg K₁ hwrites
  rcases hreturns msg K₁ hwrites with ⟨K', hwrite⟩
  have hpopulated : ∃ others₁ live₁, Populated K₁ S queue others₁ live₁ := by
    cases hwrites with
    | full _ => exact ⟨others, live, h⟩
    | setUp p heap n procClass priority hnull halloc _ =>
        exact ⟨p :: others, p :: live, h.withSetUp halloc hnull n procClass priority⟩
  rcases hpopulated with ⟨others₁, live₁, h₁⟩
  rcases (systemRun_populated h₁ (hC _ _ _ hwrite)).1 with ⟨queue', live', h'⟩
  exact ⟨K', live', hwrite, h'.requests.owns⟩

theorem pcbSetup_full {K' : Kernel Heap} (hF : Releases F e) (hown : OwnsBlocks K.device.heap live)
    (hfull : K.device.heap.firstRoom 1100 = none) (hwrite : C allocationFailedMsg K = .ok K') :
    pcbSetup F C K name procClass priority = .ok (0, K') := by
  rcases hown with ⟨a, total, bs, hinv⟩
  have hcall : F.mallocFunction K.device.heap pcbSize = .ok (0, K.device.heap) := by
    rw [hF.malloc]
    exact allocateMemory_full hinv.represents hfull
  rw [allocationFailedMsg] at hwrite
  simp only [pcbSetup, pcbAllocate, sysAllocMem, hcall, hwrite, bind, Except.bind, pure,
    Except.pure, if_true]

theorem pcbAllocate_room (C : Console Heap) (hown : OwnsBlocks K.device.heap live)
    (hroom : K.device.heap.firstRoom 1100 = some b) :
    ∃ heap, allocateMemory K.device.heap pcbSize = .ok (mcbStart b.addr, heap) ∧
      mcbStart b.addr ≠ 0 ∧ mcbStart b.addr ∉ live ∧ OwnsBlocks heap (mcbStart b.addr :: live) ∧
      ∀ {F e}, Releases F e →
        pcbAllocate F C K = .ok (mcbStart b.addr, withPcb K heap (mcbStart b.addr)) := by
  have hrep := hown
  rcases hrep with ⟨a, total, bs, hinv⟩
  have hroom' : K.device.heap.firstRoom (roundup pcbSize).toNat = some b := hroom
  rcases allocateMemory_room hinv.represents (by decide) hroom' with ⟨heap, hcall, hnull⟩
  have hown' := allocateMemory_owns hown hcall
  rw [if_neg hnull] at hown'
  have hnew := (List.nodup_cons.mp (ownsBlocks_nodup hown')).1
  refine ⟨heap, hcall, hnull, hnew, hown', ?_⟩
  intro F e hF
  have hcall' : F.mallocFunction K.device.heap pcbSize = .ok (mcbStart b.addr, heap) := by
    rw [hF.malloc, hcall]
  simp only [pcbAllocate, sysAllocMem, hcall', bind, Except.bind, pure, Except.pure, if_neg hnull]
  rfl

theorem pcbSetup_cases (name : Option (List U8)) (procClass priority : Int) {heap : Heap}
    (halloc : pcbAllocate F C K = .ok (p, withPcb K heap p)) (hnull : p ≠ 0) :
    (BadArguments name procClass priority ∧
      pcbSetup F C K name procClass priority = freePcb F (withPcb K heap p) p) ∨
    (¬ BadArguments name procClass priority ∧ ∃ n, name = some n ∧ minNameLen ≤ strlen n ∧
      pcbSetup F C K name procClass priority =
        checkNameInUse F C (withSetUp K heap p n procClass priority) p) := by
  simp only [pcbSetup, halloc, bind, Except.bind, if_neg hnull]
  by_cases hpriority : priority < 0 ∨ priority > 9
  · exact Or.inl ⟨Or.inl hpriority, if_pos hpriority⟩
  · by_cases hclass : procClass ≠ userProc ∧ procClass ≠ systemProc
    · left
      rw [if_neg hpriority, if_pos hclass]
      exact ⟨Or.inr (Or.inl hclass), rfl⟩
    · rw [if_neg hpriority, if_neg hclass]
      cases name with
      | none =>
          left
          exact ⟨Or.inr (Or.inr fun n hn => by cases hn), rfl⟩
      | some n =>
          by_cases hlength : strlen n < minNameLen ∨ strlen n > maxNameLen
          · left
            refine ⟨Or.inr (Or.inr fun m hm => ?_), if_pos hlength⟩
            cases hm
            exact hlength
          · right
            refine ⟨?_, n, rfl, not_lt.mp (not_or.mp hlength).1, if_neg hlength⟩
            intro hbad
            rcases hbad with h | h | h
            · exact hpriority h
            · exact hclass h
            · exact hlength (h n rfl)

/-- With a leftover name the new PCB is released twice. -/
theorem freePcb_leftover {heap : Heap} (hF : Releases F e) (hown : OwnsBlocks heap (p :: live))
    (hnull : p ≠ 0) (hname : (K.procs.pcbs p).name.headD 0 ≠ 0) :
    freePcb F (withPcb K heap p) p = .error e := by
  have hname' : ((withPcb K heap p).procs.pcbs p).name.headD 0 ≠ 0 := by
    simp only [withPcb, pcbs_modify_self]
    exact hname
  have hfree : pcbFree F (withPcb K heap p).device.heap (withPcb K heap p).procs p = .error e :=
    pcbFree_named hF hown hnull hname'
  simp only [freePcb, hfree, bind, Except.bind]

/-- With an empty one it is released once, and the heap is as before the allocation. -/
theorem freePcb_empty {heap : Heap} (hF : Releases F e) (hown : OwnsBlocks K.device.heap live)
    (hcall : allocateMemory K.device.heap pcbSize = .ok (p, heap))
    (hown' : OwnsBlocks heap (p :: live)) (hnull : p ≠ 0)
    (hname : (K.procs.pcbs p).name.headD 0 = 0) :
    ∃ K', freePcb F (withPcb K heap p) p = .ok (0, K') ∧
      K'.device.heap.chain = K.device.heap.chain ∧ K'.procs = K.procs.modify p freshPcb := by
  rcases hown with ⟨a, total, bs, hinv⟩
  rcases heapInv_undo hinv hcall hnull with ⟨heap', hfree, hrep⟩
  have hname' : ((withPcb K heap p).procs.pcbs p).name.headD 0 = 0 := by
    simp only [withPcb, pcbs_modify_self]
    exact hname
  have hfree' : pcbFree F (withPcb K heap p).device.heap (withPcb K heap p).procs p =
      .ok (0, heap') := pcbFree_unnamed hF hown' hnull List.mem_cons_self hname' hfree
  refine ⟨{ withPcb K heap p with device := { K.device with heap := heap' } }, ?_, ?_, rfl⟩
  · simp only [freePcb, hfree', bind, Except.bind]
    rfl
  · rw [chain_spec hrep, ← chain_spec hinv.represents]

theorem pcbFind_found {foundName : List U8} {x : U32} (C : Console Heap)
    (hsearch : pcbSearch K.procs foundName = .ok x) (hx : x ≠ 0) :
    pcbFind C K foundName = .ok (x, K) := by
  rw [pcbFind, hsearch]
  exact if_neg fun h => hx h.1

theorem pcbFind_silent {foundName : List U8} (C : Console Heap)
    (hsuspended : K.procs.suspendedHead = 0) (hsearch : pcbSearch K.procs foundName = .ok 0) :
    pcbFind C K foundName = .ok (0, K) := by
  rw [pcbFind, hsearch]
  exact if_neg fun h => h.2 hsuspended

theorem pcbFind_none {foundName : List U8} (hC : ∀ msg, ∃ K', C msg K = .ok K')
    (hsearch : pcbSearch K.procs foundName = .ok 0) :
    ∃ K', pcbFind C K foundName = .ok (0, K') := by
  by_cases hsuspended : K.procs.suspendedHead = 0
  · exact ⟨K, pcbFind_silent C hsuspended hsearch⟩
  · rcases hC "A PCB with the given name cannot be found. Please try again." with ⟨K', hwrite⟩
    rw [pcbFind, hsearch, ok_bind, if_pos ⟨rfl, hsuspended⟩, hwrite]
    exact ⟨K', rfl⟩

/-- The check of the name in use releases nothing, or the new PCB, whose name is set. -/
theorem checkNameInUse_cases (hF : Releases F e) (hC : Talks studentHeap C)
    (hanswers : ∀ msg, ∃ K' live, C msg K = .ok K' ∧ OwnsBlocks K'.device.heap live)
    (hnull : p ≠ 0) (hname : (K.procs.pcbs p).name.headD 0 ≠ 0) :
    (pcbSearch K.procs (K.procs.pcbs p).name = .error .diverges ∧
      checkNameInUse F C K p = .error .diverges) ∨
    (pcbSearch K.procs (K.procs.pcbs p).name = .ok 0 ∧
      ∃ K', checkNameInUse F C K p = .ok (p, K')) ∨
    ∃ x, x ≠ 0 ∧ pcbSearch K.procs (K.procs.pcbs p).name = .ok x ∧
      checkNameInUse F C K p = .error e := by
  cases hsearch : pcbSearch K.procs (K.procs.pcbs p).name with
  | error e' =>
      left
      have he := pcbSearch_error hsearch
      rw [he] at hsearch ⊢
      refine ⟨rfl, ?_⟩
      simp only [checkNameInUse, pcbFind, hsearch, bind, Except.bind]
  | ok x =>
      right
      by_cases hx : x = 0
      · left
        rw [hx] at hsearch ⊢
        have hreturns : ∀ msg, ∃ K', C msg K = .ok K' := by
          intro msg
          rcases hanswers msg with ⟨K', live, hwrite, -⟩
          exact ⟨K', hwrite⟩
        rcases pcbFind_none hreturns hsearch with ⟨K', hfind⟩
        refine ⟨rfl, K', ?_⟩
        simp only [checkNameInUse, hfind, bind, Except.bind, pure, Except.pure, ne_eq, not_true,
          if_false]
      · right
        rcases hanswers "Name already in use.\n" with ⟨K', live, hwrite, hown⟩
        -- the others have run meanwhile, but the new PCB still has its name
        have hname' : (K'.procs.pcbs p).name.headD 0 ≠ 0 := by
          rw [(systemRun_names (hC _ _ _ hwrite)).names]
          exact hname
        have hfree : pcbFree F K'.device.heap K'.procs p = .error e :=
          pcbFree_named hF hown hnull hname'
        refine ⟨x, hx, rfl, ?_⟩
        simp only [checkNameInUse, pcbFind_found C hsearch hx, bind, Except.bind, ne_eq, hx,
          not_false_eq_true, if_true, hwrite, freePcb, hfree]

theorem cleanExit_iff {n : List U8} (hgood : ¬ BadArguments name procClass priority)
    (hn : name = some n) :
    CleanExit K name procClass priority p ↔ ∀ x, pcbSearch K.procs n = .ok x → x = 0 := by
  constructor
  · intro h x hx
    exact h.2 hgood n x hn hx
  · intro h
    constructor
    · exact fun hbad => absurd hbad hgood
    · intro _ m x hm hx
      rw [hn] at hm
      cases hm
      exact h x hx

theorem freePcb_outcome {heap : Heap} (hF : Releases F e) (hown : OwnsBlocks K.device.heap live)
    (hcall : allocateMemory K.device.heap pcbSize = .ok (p, heap))
    (hown' : OwnsBlocks heap (p :: live)) (hnull : p ≠ 0) (hfresh : ¬ K.procs.OnSome p) :
    ((K.procs.pcbs p).name.headD 0 = 0 ∧
      ∃ K', freePcb F (withPcb K heap p) p = .ok (0, K') ∧ Restored K K') ∨
    ((K.procs.pcbs p).name.headD 0 ≠ 0 ∧ freePcb F (withPcb K heap p) p = .error e) := by
  by_cases hname : (K.procs.pcbs p).name.headD 0 = 0
  · left
    rcases freePcb_empty hF hown hcall hown' hnull hname with ⟨K', hfree, hchain, hprocs⟩
    refine ⟨hname, K', hfree, hchain, ?_, ?_⟩
    · intro q
      rw [hprocs, head_modify]
    · intro x hx
      have hapart : x ≠ p := fun heq => hfresh (heq ▸ hx)
      rw [hprocs, pcbs_modify_ne hapart]
  · exact Or.inr ⟨hname, freePcb_leftover hF hown' hnull hname⟩

theorem checkNameInUse_withSetUp {heap : Heap} {n : List U8} (hF : Releases F e)
    (hC : Talks studentHeap C) (hanswers : SetupAnswers C K)
    (halloc : allocateMemory K.device.heap pcbSize = .ok (p, heap)) (hnull : p ≠ 0)
    (hfresh : ¬ K.procs.OnSome p) (hmin : minNameLen ≤ strlen n) :
    (pcbSearch K.procs n = .error .diverges ∧
      checkNameInUse F C (withSetUp K heap p n procClass priority) p = .error .diverges) ∨
    (pcbSearch K.procs n = .ok 0 ∧
      ∃ K', checkNameInUse F C (withSetUp K heap p n procClass priority) p = .ok (p, K')) ∨
    ∃ x, x ≠ 0 ∧ pcbSearch K.procs n = .ok x ∧
      checkNameInUse F C (withSetUp K heap p n procClass priority) p = .error e := by
  have hname : ((withSetUp K heap p n procClass priority).procs.pcbs p).name.headD 0 ≠ 0 := by
    rw [withSetUp, name_withNew]
    exact headD_ne_zero hmin _
  have hsearch : pcbSearch (withSetUp K heap p n procClass priority).procs
      ((withSetUp K heap p n procClass priority).procs.pcbs p).name = pcbSearch K.procs n :=
    pcbSearch_withNew hfresh
  have hcases := checkNameInUse_cases (K := withSetUp K heap p n procClass priority) hF hC
    (fun msg => hanswers msg _ (.setUp p heap n procClass priority hnull halloc hmin)) hnull hname
  rwa [hsearch] at hcases

/-- Everything that `pcb_setup` can come to once it has a PCB. -/
theorem pcbSetup_outcome (hF : Releases F e) (hC : Talks studentHeap C)
    (hanswers : SetupAnswers C K) (hown : OwnsBlocks K.device.heap live)
    (hqueues : ∀ x, K.procs.OnSome x → x ∈ live)
    (hroom : K.device.heap.firstRoom 1100 = some b) :
    (CleanExit K name procClass priority (mcbStart b.addr) ∧
      ((∃ K', pcbSetup F C K name procClass priority = .ok (0, K') ∧ Restored K K') ∨
        (∃ K' p, p ≠ 0 ∧ pcbSetup F C K name procClass priority = .ok (p, K')) ∨
        pcbSetup F C K name procClass priority = .error .diverges)) ∨
    (¬ CleanExit K name procClass priority (mcbStart b.addr) ∧
      pcbSetup F C K name procClass priority = .error e) := by
  rcases pcbAllocate_room C hown hroom with ⟨heap, hcall, hnull, hnew, hown', halloc⟩
  generalize mcbStart b.addr = p at *
  have hfresh : ¬ K.procs.OnSome p := fun hon => hnew (hqueues p hon)
  rcases pcbSetup_cases name procClass priority (halloc hF) hnull with
    ⟨hbad, hsetup⟩ | ⟨hgood, n, hn, hmin, hsetup⟩
  · rw [hsetup]
    rcases freePcb_outcome hF hown hcall hown' hnull hfresh with
      ⟨hname, K', hfree, hrestored⟩ | ⟨hname, hfree⟩
    · exact Or.inl ⟨⟨fun _ => hname, fun h => absurd hbad h⟩, Or.inl ⟨K', hfree, hrestored⟩⟩
    · exact Or.inr ⟨fun h => hname (h.1 hbad), hfree⟩
  · rw [hsetup, cleanExit_iff hgood hn]
    rcases checkNameInUse_withSetUp hF hC hanswers hcall hnull hfresh hmin with
      ⟨hfound, hrun⟩ | ⟨hfound, K', hrun⟩ | ⟨x, hx, hfound, hrun⟩
    · left
      refine ⟨fun x hx => ?_, Or.inr (Or.inr hrun)⟩
      rw [hfound] at hx
      cases hx
    · left
      refine ⟨fun x hx => ?_, Or.inr (Or.inl ⟨K', p, hnull, hrun⟩)⟩
      rw [hfound] at hx
      exact (Except.ok.inj hx).symm
    · exact Or.inr ⟨fun h => hx (h x hfound), hrun⟩

theorem noTrace_full (hanswers : SetupAnswers C K) (hown : OwnsBlocks K.device.heap live)
    (hfull : K.device.heap.firstRoom 1100 = none) : NoTrace C K name procClass priority := by
  rcases hanswers allocationFailedMsg K (.full hfull) with ⟨K', -, hwrite, -⟩
  constructor
  · intro hbad
    rw [pcbSetup_full checkedHeap_releases hown hfull hwrite] at hbad
    cases hbad
  · intro K₁ hrun
    rw [pcbSetup_full studentHeap_releases hown hfull hwrite] at hrun
    cases hrun
    exact Or.inr hwrite

theorem noTrace_clean (hC : Talks studentHeap C) (hanswers : SetupAnswers C K)
    (hown : OwnsBlocks K.device.heap live) (hqueues : ∀ x, K.procs.OnSome x → x ∈ live)
    (hroom : K.device.heap.firstRoom 1100 = some b)
    (hclean : CleanExit K name procClass priority (mcbStart b.addr)) :
    NoTrace C K name procClass priority where
  released := by
    intro hbad
    rcases pcbSetup_outcome checkedHeap_releases hC hanswers hown hqueues hroom with
      ⟨-, ⟨K', hrun, -⟩ | ⟨K', p, -, hrun⟩ | hrun⟩ | ⟨hdirty, -⟩
    · rw [hrun] at hbad
      cases hbad
    · rw [hrun] at hbad
      cases hbad
    · rw [hrun] at hbad
      cases hbad
    · exact hdirty hclean
  restored := by
    intro K₁ hrun₁
    rcases pcbSetup_outcome studentHeap_releases hC hanswers hown hqueues hroom with
      ⟨-, ⟨K', hrun, hrestored⟩ | ⟨K', p, hp, hrun⟩ | hrun⟩ | ⟨hdirty, -⟩
    · rw [hrun] at hrun₁
      cases hrun₁
      exact Or.inl hrestored
    · rw [hrun] at hrun₁
      cases hrun₁
      exact absurd rfl hp
    · rw [hrun] at hrun₁
      cases hrun₁
    · exact absurd hclean hdirty

/-- `pcb_setup` leaves no trace of a failure exactly when it gets no block, or cleans up after
it without a name in the block and without a name in use. -/
theorem failed_setup_iff (hC : Talks studentHeap C) (hanswers : SetupAnswers C K)
    (hown : OwnsBlocks K.device.heap live) (hqueues : ∀ x, K.procs.OnSome x → x ∈ live) :
    NoTrace C K name procClass priority ↔
      ∀ b, K.device.heap.firstRoom 1100 = some b →
        CleanExit K name procClass priority (mcbStart b.addr) := by
  cases hroom : K.device.heap.firstRoom 1100 with
  | none =>
      apply iff_of_true (noTrace_full hanswers hown hroom)
      intro b hb
      cases hb
  | some b =>
      simp only [Option.some.injEq, forall_eq']
      constructor
      · intro htrace
        rcases pcbSetup_outcome checkedHeap_releases hC hanswers hown hqueues hroom with
          ⟨hclean, -⟩ | ⟨-, hbad⟩
        · exact hclean
        · exact absurd hbad htrace.released
      · intro hclean
        exact noTrace_clean hC hanswers hown hqueues hroom hclean

theorem bootKernel_onSome {x : U32} (hx : bootKernel.procs.OnSome x) : x ∈ ([] : List U32) :=
  absurd hx bootKernel_startsEmpty.not_onSome

theorem failed_setup_iff_empty_block :
    NoTrace silentConsole bootKernel (some [65, 65]) userProc 10 := by
  have htalks : Talks studentHeap (silentConsole (σ := Heap)) := silentConsole_talks _
  have hanswers : SetupAnswers silentConsole bootKernel := by
    rcases bootKernel_startsEmpty.populated with ⟨others, live, hpopulated⟩
    exact hpopulated.setupAnswers htalks fun _ K₁ _ => ⟨K₁, rfl⟩
  apply (failed_setup_iff htalks hanswers kernelHeap_owns fun _ => bootKernel_onSome).mpr
  intro b _
  constructor
  · intro _
    rfl
  · intro hgood
    exact absurd (Or.inl (Or.inr (by decide))) hgood

def leftoverKernel : Kernel Heap :=
  kernelWith [(0xD000004, ⟨[88, 0], 0, 0, 0, 0, 0, 0⟩)] 0 0 0 (callContext 1 0 0 0) bootedPort

/-- A priority out of range makes `pcb_setup` release the new PCB twice. -/
theorem bad_priority_released_twice :
    OwnsBlocks leftoverKernel.device.heap [] ∧ (∀ x, ¬ leftoverKernel.procs.OnSome x) ∧
    ¬ NoTrace silentConsole leftoverKernel (some [65, 65]) userProc 10 := by
  refine ⟨kernelHeap_owns, fun x hx => ?_, ?_⟩
  · rcases hx with ⟨q, hq⟩
    have hhead : leftoverKernel.procs.head q = 0 := by
      cases q <;> rfl
    rw [OnQueue, hhead] at hq
    exact not_reaches_null hq
  · intro htrace
    apply htrace.released
    have hcompute : (pcbSetup checkedHeap silentConsole leftoverKernel (some [65, 65]) userProc
        10).map Prod.fst = .error .outOfBounds := by
      decide +kernel
    cases hrun : pcbSetup checkedHeap silentConsole leftoverKernel (some [65, 65]) userProc 10 with
    | error e =>
        rw [hrun] at hcompute
        cases hcompute
        rfl
    | ok r =>
        rw [hrun] at hcompute
        cases hcompute

end Trace

end Mpx
