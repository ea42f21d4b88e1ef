import Mpx.Kernel.Cleanup
import Mpx.Process.Order

/-! The start of a process, from `pcb_allocate` to its place on the ready queue. -/

namespace Mpx

open Memory PointerList Procs Run CString

variable {C : Console Heap} {K K' : Kernel Heap} {live ready : List U32} {name : List U8}
  {procClass priority : Int} {cleared : Bool} {eip p x : U32} {b : Mcb}

/-- The PCBs on the queues are among the allocated blocks `live`. The suspended queue is empty,
so `pcb_find` has no message for a name that it does not find. -/
structure Orderly (K : Kernel Heap) (live : List U32) : Prop where
  owns : OwnsBlocks K.device.heap live
  queued : ∀ x, K.procs.OnSome x → x ∈ live
  suspended : K.procs.suspendedHead = 0

def builtContext (cleared : Bool) (eip p : U32) (old : Context) : Context :=
  firstContext (if cleared then clearedContext else { old with ds := 0 }) p (firstStackTop p) eip

structure Started (K K' : Kernel Heap) (name : List U8) (procClass priority : Int)
    (cleared : Bool) (eip p : U32) : Prop where
  null : p ≠ 0
  alloc : allocateMemory K.device.heap pcbSize = .ok (p, K'.device.heap)
  search : pcbSearch K.procs name = .ok 0
  insert : pcbInsert (K.procs.withNew p name procClass priority) p = .ok K'.procs
  contexts : K'.contexts = Function.update K.contexts (firstStackTop p)
    (builtContext cleared eip p (K.contexts (firstStackTop p)))

section Setup

variable {heap : Heap}

theorem allocateMemory_fresh (h : Orderly K live)
    (halloc : allocateMemory K.device.heap pcbSize = .ok (p, heap)) (hp : p ≠ 0) :
    p ∉ live ∧ ¬ K.procs.OnSome p ∧ OwnsBlocks heap (p :: live) := by
  have hown := allocateMemory_owns h.owns halloc
  rw [if_neg hp] at hown
  have hnew := (List.nodup_cons.mp (ownsBlocks_nodup hown)).1
  exact ⟨hnew, fun hon => hnew (h.queued p hon), hown⟩

theorem checkNameInUse_unused (C : Console Heap) (heap : Heap) (procClass priority : Int)
    (h : Orderly K live) (hfresh : ¬ K.procs.OnSome p) (hsearch : pcbSearch K.procs name = .ok 0) :
    checkNameInUse studentHeap C (withSetUp K heap p name procClass priority) p =
      .ok (p, withSetUp K heap p name procClass priority) := by
  have hsearch' : pcbSearch (withSetUp K heap p name procClass priority).procs
      ((withSetUp K heap p name procClass priority).procs.pcbs p).name = .ok 0 :=
    (pcbSearch_withNew hfresh).trans hsearch
  have hsuspended : (withSetUp K heap p name procClass priority).procs.suspendedHead = 0 :=
    h.suspended
  rw [checkNameInUse, pcbFind_silent C hsuspended hsearch', ok_bind]
  exact if_neg (not_not.mpr rfl)

theorem pcbSetup_made (h : Orderly K live)
    (hrun : pcbSetup studentHeap C K (some name) procClass priority = .ok (p, K'))
    (hp : p ≠ 0) :
    ∃ heap, allocateMemory K.device.heap pcbSize = .ok (p, heap) ∧
      pcbSearch K.procs name = .ok 0 ∧ K' = withSetUp K heap p name procClass priority := by
  have hsteps := hrun
  rcases of_bind_ok hsteps with ⟨⟨q, K₁⟩, halloc, hrest⟩
  by_cases hq : q = 0
  · simp only [if_pos hq] at hrest
    cases hrest
    exact absurd rfl hp
  · rcases of_bind_ok halloc with ⟨⟨r, heap⟩, hcall, hset⟩
    by_cases hr : r = 0
    · simp only [if_pos hr] at hset
      rcases of_bind_ok hset with ⟨K₂, -, heq⟩
      cases heq
      exact absurd rfl hq
    · simp only [if_neg hr] at hset
      cases hset
      have hcall' : allocateMemory K.device.heap pcbSize = .ok (q, heap) := hcall
      have hfresh := (allocateMemory_fresh h hcall' hq).2.1
      rcases pcbSetup_cases (some name) procClass priority halloc hq with
        ⟨-, hsetup⟩ | ⟨-, n, hn, -, hsetup⟩
      · rw [hsetup] at hrun
        exact absurd (freePcb_null hrun) hp
      · cases hn
        rw [hsetup] at hrun
        rcases checkNameInUse_passed hrun hp with ⟨hpq, hfind⟩
        have hsearch : pcbSearch K.procs name = .ok 0 :=
          (pcbSearch_withNew hfresh).symm.trans (pcbFind_search hfind)
        have hchecked := checkNameInUse_unused C heap procClass priority h hfresh hsearch
        rw [hchecked] at hrun
        cases hrun
        exact ⟨heap, hcall', hsearch, rfl⟩

theorem pcbSetup_makes (C : Console Heap) (h : Orderly K live)
    (hroom : 0 < K.device.heap.slots 1100)
    (hgood : ¬ BadArguments (some name) procClass priority)
    (hsearch : pcbSearch K.procs name = .ok 0) :
    ∃ p K', p ≠ 0 ∧
      pcbSetup studentHeap C K (some name) procClass priority = .ok (p, K') := by
  rcases h.owns with ⟨a, total, bs, hinv⟩
  cases hfirst : K.device.heap.firstRoom 1100 with
  | none =>
      rw [firstRoom_eq_none_iff hinv.represents (by decide)] at hfirst
      exact absurd hfirst (Nat.ne_of_gt hroom)
  | some b =>
      rcases pcbAllocate_room C h.owns hfirst with ⟨heap, hcall, hnull, -, -, halloc⟩
      have hfresh := (allocateMemory_fresh h hcall hnull).2.1
      rcases pcbSetup_cases (some name) procClass priority
        (halloc studentHeap_releases) hnull with ⟨hbad, -⟩ | ⟨-, n, hn, -, hsetup⟩
      · exact absurd hbad hgood
      · cases hn
        have hchecked := checkNameInUse_unused C heap procClass priority h hfresh hsearch
        exact ⟨_, _, hnull, hsetup.trans hchecked⟩

end Setup

section Insert

theorem holds_withNew {s : Procs} {q : Queue} {xs : List U32} (hxs : s.Holds q xs)
    (hp : p ∉ xs) : (s.withNew p name procClass priority).Holds q xs := by
  rw [Holds, head_withNew]
  apply IsList.congr hxs
  intro x hx
  rw [next, pcbs_withNew_ne (ne_of_mem_of_not_mem hx hp), next]

theorem insertQueue_withNew {s : Procs} :
    insertQueue ((s.withNew p name procClass priority).pcbs p).state = some .ready := by
  rw [pcbs_withNew_self]
  rfl

/-- `p` is a new PCB with these fields, in its place on the ready queue. Of the other PCBs at
most the links differ, and these in front of that place only. -/
structure Joins (s s' : Procs) (ready : List U32) (p : U32) (name : List U8)
    (procClass priority : Int) : Prop where
  holds : s'.Holds .ready (s'.enqueue p ready)
  heads : ∀ q, q ≠ .ready → s'.head q = s.head q
  new : ∃ v, s'.pcbs p =
    { setUpPcb p name procClass priority (freshPcb (s.pcbs p)) with nextPcb := v }
  kept : ∀ x, x ≠ p → ∃ v, s'.pcbs x = { s.pcbs x with nextPcb := v }
  links : ∀ x, x ≠ p → x ∉ s.ahead priority ready → s'.next x = s.next x

theorem pcbInsert_joins {s s' : Procs} (hp : p ≠ 0) (hready : s.Holds .ready ready)
    (hnew : p ∉ ready) (hrun : pcbInsert (s.withNew p name procClass priority) p = .ok s') :
    Joins s s' ready p name procClass priority := by
  have hready' : (s.withNew p name procClass priority).Holds .ready ready :=
    holds_withNew hready hnew
  rcases pcbInsert_spec hp insertQueue_withNew hready' hnew with ⟨t, hinsert, hholds, hlink⟩
  rw [hinsert] at hrun
  cases hrun
  have hpriority : ∀ x ∈ ready, (s.withNew p name procClass priority).priority x =
      s.priority x := by
    intro x hx
    rw [Procs.priority, pcbs_withNew_ne (ne_of_mem_of_not_mem hx hnew), Procs.priority]
  have hself : (s.withNew p name procClass priority).priority p = priority := by
    rw [Procs.priority, pcbs_withNew_self]
    rfl
  constructor
  · rwa [enqueue_congr hlink.priority]
  · intro q hq
    rw [hlink.heads q hq, head_withNew]
  · rcases hlink.fields p with ⟨v, hv⟩
    exact ⟨v, by rw [hv, pcbs_withNew_self]⟩
  · intro x hx
    rcases hlink.fields x with ⟨v, hv⟩
    exact ⟨v, by rw [hv, pcbs_withNew_ne hx]⟩
  · intro x hx hfar
    have hfar' : x ∉ (s.withNew p name procClass priority).ahead
        ((s.withNew p name procClass priority).priority p) ready := by
      rwa [hself, ahead_congr hpriority]
    rw [pcbInsert_links insertQueue_withNew hready' hinsert hx hfar', next, pcbs_withNew_ne hx,
      next]

end Insert

section Joins

variable {s s' : Procs}

theorem Joins.priority_self (h : Joins s s' ready p name procClass priority) :
    s'.priority p = priority := by
  rcases h.new with ⟨v, hv⟩
  rw [Procs.priority, hv]
  rfl

theorem Joins.priority_ne (h : Joins s s' ready p name procClass priority) (hx : x ≠ p) :
    s'.priority x = s.priority x := by
  rcases h.kept x hx with ⟨v, hv⟩
  rw [Procs.priority, hv, Procs.priority]

theorem Joins.nameText_ne (h : Joins s s' ready p name procClass priority) (hx : x ≠ p) :
    s'.nameText x = s.nameText x := by
  rcases h.kept x hx with ⟨v, hv⟩
  rw [nameText, hv, nameText]

end Joins

section Start

theorem startProcess_started (h : Orderly K live)
    (hrun : startProcess studentHeap C K name procClass priority cleared eip = .ok (p, K')) :
    Started K K' name procClass priority cleared eip p := by
  rcases startProcess_cases hrun with ⟨hnull, K₁, s, hsetup, hinsert, hK'⟩
  rcases pcbSetup_made h hsetup hnull with ⟨heap, halloc, hsearch, rfl⟩
  have htop : ((withSetUp K heap p name procClass priority).procs.pcbs p).stackTop =
      firstStackTop p := by
    rw [withSetUp, pcbs_withNew_self]
    rfl
  rw [hK']
  refine ⟨hnull, halloc, hsearch, hinsert, ?_⟩
  simp only [htop]
  rfl

theorem startProcess_starts (C : Console Heap) (h : Orderly K live)
    (hroom : 0 < K.device.heap.slots 1100)
    (hgood : ¬ BadArguments (some name) procClass priority)
    (hsearch : pcbSearch K.procs name = .ok 0) :
    ∃ p K', startProcess studentHeap C K name procClass priority cleared eip = .ok (p, K') := by
  rcases pcbSetup_makes C h hroom hgood hsearch with ⟨p, K₁, hnull, hsetup⟩
  rcases pcbSetup_made h hsetup hnull with ⟨heap, halloc, -, rfl⟩
  have hfresh := (allocateMemory_fresh h halloc hnull).2.1
  rcases pcbSearch_ends hsearch (q := .ready) (by decide) with ⟨ready, hready⟩
  have hnew : p ∉ ready := fun hmem => hfresh ⟨.ready, hready.onQueue_iff.mpr hmem⟩
  rcases pcbInsert_spec hnull insertQueue_withNew (holds_withNew hready hnew) hnew with
    ⟨s, hinsert, -⟩
  have hinsert' : pcbInsert (withSetUp K heap p name procClass priority).procs p = .ok s := hinsert
  simp only [startProcess, hsetup, ok_bind, if_neg hnull, hinsert']
  exact ⟨p, _, rfl⟩

theorem Started.joins (hstart : Started K K' name procClass priority cleared eip p)
    (h : Orderly K live) (hready : K.procs.Holds .ready ready) :
    Joins K.procs K'.procs ready p name procClass priority := by
  have hfresh := (allocateMemory_fresh h hstart.alloc hstart.null).2.1
  have hnew : p ∉ ready := fun hmem => hfresh ⟨.ready, hready.onQueue_iff.mpr hmem⟩
  exact pcbInsert_joins hstart.null hready hnew hstart.insert

theorem Started.suspendedHead (hstart : Started K K' name procClass priority cleared eip p)
    (h : Orderly K live) : K'.procs.suspendedHead = K.procs.suspendedHead := by
  rcases pcbSearch_ends hstart.search (q := .ready) (by decide) with ⟨ready, hready⟩
  exact (hstart.joins h hready).heads .suspended (by decide)

theorem Started.orderly (hstart : Started K K' name procClass priority cleared eip p)
    (h : Orderly K live) : Orderly K' (p :: live) := by
  rcases allocateMemory_fresh h hstart.alloc hstart.null with ⟨-, hfresh, hown⟩
  refine ⟨hown, ?_, (hstart.suspendedHead h).trans h.suspended⟩
  · intro x hx
    rcases pcbInsert_onSome hstart.insert hx with hold | hnew
    · have hout : ¬ (K.procs.modify p freshPcb).OnSome p :=
        fun hon => hfresh (onSome_modify hfresh _ hon)
      have hon := onSome_modify hfresh _ (onSome_modify hout _ hold)
      exact List.mem_cons_of_mem _ (h.queued x hon)
    · rw [hnew]
      exact List.mem_cons_self

theorem Started.slots (hstart : Started K K' name procClass priority cleared eip p)
    (h : Orderly K live) :
    K.device.heap.slots 1100 = K'.device.heap.slots 1100 + 1 := by
  rcases h.owns with ⟨a, total, bs, hinv⟩
  have hslots := allocateMemory_slots hinv.represents (by decide) hstart.alloc hstart.null
  exact hslots

end Start

end Mpx
