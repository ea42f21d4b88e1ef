import Mpx.Heap.Calls
import Mpx.Kernel.NewProcess
import Mpx.User.Leaks

/-! `load_r3` creates all of its five processes, or it uses a PCB that is not there. -/

namespace Mpx

open Memory PointerList Procs Run CString

def NameInUse (s : Procs) (name : List U8) : Prop := ∃ x, s.OnSome x ∧ s.nameText x = name

structure IsLoaded (s : Procs) (i : Nat) (p : U32) : Prop where
  name : s.nameText p = processName i
  procClass : (s.pcbs p).procClass = userProc
  priority : s.priority p = i
  state : (s.pcbs p).state = readyState

/-- The processes `is` have come to the queue `ready` one after the other, in new blocks. Of
the other PCBs at most the links differ, and these only in front of a larger number than 5. -/
structure Loaded (live : List U32) (s s' : Procs) (ready : List U32) (is : List Nat)
    (pcbs : List U32) : Prop where
  created : List.Forall₂ (IsLoaded s') is pcbs
  fresh : ∀ p ∈ pcbs, p ∉ live
  holds : s'.Holds .ready (enqueueAll s' pcbs ready)
  heads : ∀ q, q ≠ .ready → s'.head q = s.head q
  kept : ∀ x, x ∉ pcbs → ∃ v, s'.pcbs x = { s.pcbs x with nextPcb := v }
  links : ∀ x, x ∉ pcbs → x ∉ s.ahead 5 ready → s'.next x = s.next x

section Names

variable {i j : Nat}

theorem text_processName (hi : i ∈ [1, 2, 3, 4, 5]) : text (processName i) = processName i := by
  have hall : ∀ i ∈ [1, 2, 3, 4, 5], text (processName i) = processName i := by decide
  exact hall i hi

theorem processName_inj (hi : i ∈ [1, 2, 3, 4, 5]) (hj : j ∈ [1, 2, 3, 4, 5])
    (heq : processName i = processName j) : i = j := by
  have hall : ∀ i ∈ [1, 2, 3, 4, 5], ∀ j ∈ [1, 2, 3, 4, 5],
      processName i = processName j → i = j := by decide
  exact hall i hi j hj heq

theorem loadRound_le (hi : i ∈ [1, 2, 3, 4, 5]) : (i : Int) ≤ 5 := by
  have hall : ∀ i ∈ [1, 2, 3, 4, 5], i ≤ 5 := by decide
  exact Int.ofNat_le.mpr (hall i hi)

theorem processName_good (hi : i ∈ [1, 2, 3, 4, 5]) :
    ¬ BadArguments (some (processName i)) userProc i := by
  have hlength : ∀ i ∈ [1, 2, 3, 4, 5],
      ¬ (strlen (processName i) < minNameLen ∨ strlen (processName i) > maxNameLen) := by decide
  have hle := loadRound_le hi
  intro hbad
  rcases hbad with hpriority | hclass | hname
  · omega
  · exact hclass.1 rfl
  · exact hlength i hi (hname _ rfl)

end Names

section Rounds

variable {C : Console Heap} {proc : Nat → U32} {K K₁ K' : Kernel Heap} {s s₁ s' : Procs}
  {live ready ys : List U32} {is : List Nat} {pcbs : List U32} {i : Nat} {p x : U32}

theorem IsLoaded.relink {v : U32} (h : IsLoaded s i p)
    (hv : s'.pcbs p = { s.pcbs p with nextPcb := v }) : IsLoaded s' i p := by
  constructor
  · rw [nameText, hv]
    exact h.name
  · rw [hv]
    exact h.procClass
  · rw [Procs.priority, hv]
    exact h.priority
  · rw [hv]
    exact h.state

theorem Joins.isLoaded (h : Joins s s₁ ready p (processName i) userProc i)
    (hi : i ∈ [1, 2, 3, 4, 5]) : IsLoaded s₁ i p := by
  rcases h.new with ⟨v, hv⟩
  refine ⟨?_, ?_, h.priority_self, ?_⟩
  · rw [nameText, hv]
    exact (text_copyName _ _).trans (text_processName hi)
  · rw [hv]
    rfl
  · rw [hv]
    rfl

theorem Joins.mem_ahead (h : Joins s s₁ ready p (processName i) userProc i)
    (hi : i ∈ [1, 2, 3, 4, 5]) (hnew : p ∉ ready) :
    x ∈ s₁.ahead 5 (s₁.enqueue p ready) ↔ x = p ∨ x ∈ s.ahead 5 ready := by
  have hle : s₁.priority p ≤ 5 := by
    rw [h.priority_self]
    exact loadRound_le hi
  have hsame : s₁.ahead 5 ready = s.ahead 5 ready :=
    ahead_congr fun y hy => h.priority_ne (ne_of_mem_of_not_mem hy hnew)
  rw [mem_ahead_enqueue hle, hsame]

theorem Loaded.cons (hjoin : Joins s s₁ ready p (processName i) userProc i)
    (hi : i ∈ [1, 2, 3, 4, 5]) (hlive : ready ⊆ live) (hp : p ∉ live)
    (h : Loaded (p :: live) s₁ s' (s₁.enqueue p ready) is pcbs) :
    Loaded live s s' ready (i :: is) (p :: pcbs) := by
  have hout : p ∉ pcbs := fun hmem => h.fresh p hmem List.mem_cons_self
  have hready : ∀ x ∈ ready, x ∉ pcbs :=
    fun x hx hmem => h.fresh x hmem (List.mem_cons_of_mem _ (hlive hx))
  have hpriority : ∀ x, x ∉ pcbs → s'.priority x = s₁.priority x := by
    intro x hx
    rcases h.kept x hx with ⟨v, hv⟩
    rw [Procs.priority, hv, Procs.priority]
  constructor
  · rcases h.kept p hout with ⟨v, hv⟩
    exact List.Forall₂.cons ((hjoin.isLoaded hi).relink hv) h.created
  · intro x hx
    rcases List.mem_cons.mp hx with heq | hmem
    · rw [heq]
      exact hp
    · exact fun hin => h.fresh x hmem (List.mem_cons_of_mem _ hin)
  · have hplace : s'.enqueue p ready = s₁.enqueue p ready := by
      apply enqueue_congr_mem
      exact List.forall_mem_cons.mpr
        ⟨hpriority p hout, fun x hx => hpriority x (hready x hx)⟩
    have hall : enqueueAll s' (p :: pcbs) ready = enqueueAll s' pcbs (s₁.enqueue p ready) :=
      congrArg (enqueueAll s' pcbs) hplace
    rw [hall]
    exact h.holds
  · intro q hq
    calc s'.head q = s₁.head q := h.heads q hq
      _ = s.head q := hjoin.heads q hq
  · intro x hx
    rcases not_or.mp (mt List.mem_cons.mpr hx) with ⟨hxp, hxs⟩
    rcases h.kept x hxs with ⟨v, hv⟩
    rcases hjoin.kept x hxp with ⟨w, hw⟩
    exact ⟨v, by rw [hv, hw]⟩
  · intro x hx hfar
    rcases not_or.mp (mt List.mem_cons.mpr hx) with ⟨hxp, hxs⟩
    have hfar₁ : x ∉ s₁.ahead 5 (s₁.enqueue p ready) := by
      rw [hjoin.mem_ahead hi fun hmem => hp (hlive hmem)]
      exact not_or.mpr ⟨hxp, hfar⟩
    have hnear : x ∉ s.ahead i ready := fun hmem => hfar (ahead_mono (loadRound_le hi) hmem)
    calc s'.next x = s₁.next x := h.links x hxs hfar₁
      _ = s.next x := hjoin.links x hxp hnear

/-- What the rounds `is` need: the queues `ready` and `ys` end, no process on them has one of
the names, no new PCB comes between two of `ys`, and the heap has room. -/
structure CanLoad (K : Kernel Heap) (ready ys : List U32) (is : List Nat) : Prop where
  holdsReady : K.procs.Holds .ready ready
  holdsSuspended : K.procs.Holds .suspended ys
  unused : ∀ i ∈ is, ∀ x, x ∈ ready ∨ x ∈ ys → K.procs.nameText x ≠ processName i
  apart : ∀ x ∈ K.procs.ahead 5 ready, x ∉ ys
  room : is.length ≤ K.device.heap.slots 1100

theorem CanLoad.unused_next (h : CanLoad K ready ys (i :: is))
    (his : List.Sublist (i :: is) [1, 2, 3, 4, 5])
    (hjoin : Joins K.procs s₁ ready p (processName i) userProc i) (hready : p ∉ ready)
    (hys : p ∉ ys) : ∀ j ∈ is, ∀ x, x ∈ s₁.enqueue p ready ∨ x ∈ ys →
      s₁.nameText x ≠ processName j := by
  intro j hj x hx
  have hi : i ∈ [1, 2, 3, 4, 5] := his.subset List.mem_cons_self
  have hother : x = p ∨ x ∈ ready ∨ x ∈ ys := by
    rwa [(enqueue_perm p).mem_iff, List.mem_cons, or_assoc] at hx
  rcases hother with heq | hold
  · rw [heq, (hjoin.isLoaded hi).name]
    intro hsame
    have hji := processName_inj hi (his.subset (List.mem_cons_of_mem _ hj)) hsame
    have hnodup : (i :: is).Nodup := his.nodup (by decide)
    exact (List.nodup_cons.mp hnodup).1 (hji ▸ hj)
  · have hxp : x ≠ p := by
      cases hold with
      | inl hmem => exact ne_of_mem_of_not_mem hmem hready
      | inr hmem => exact ne_of_mem_of_not_mem hmem hys
    rw [hjoin.nameText_ne hxp]
    exact h.unused j (List.mem_cons_of_mem _ hj) x hold

theorem CanLoad.next (h : CanLoad K ready ys (i :: is))
    (his : List.Sublist (i :: is) [1, 2, 3, 4, 5])
    (hjoin : Joins K.procs K₁.procs ready p (processName i) userProc i) (hready : p ∉ ready)
    (hys : p ∉ ys)
    (hslots : K.device.heap.slots 1100 = K₁.device.heap.slots 1100 + 1) :
    CanLoad K₁ (K₁.procs.enqueue p ready) ys is := by
  have hi : i ∈ [1, 2, 3, 4, 5] := his.subset List.mem_cons_self
  refine ⟨hjoin.holds, ?_, h.unused_next his hjoin hready hys, ?_, ?_⟩
  · rw [Holds, hjoin.heads .suspended (by decide)]
    apply IsList.congr h.holdsSuspended
    intro x hx
    apply hjoin.links x (ne_of_mem_of_not_mem hx hys)
    exact fun hahead => h.apart x (ahead_mono (loadRound_le hi) hahead) hx
  · intro x hx
    rcases (hjoin.mem_ahead hi hready).mp hx with heq | hold
    · rw [heq]
      exact hys
    · exact h.apart x hold
  · apply Nat.le_of_succ_le_succ
    calc is.length + 1 = (i :: is).length := List.length_cons.symm
      _ ≤ K.device.heap.slots 1100 := h.room
      _ = K₁.device.heap.slots 1100 + 1 := hslots

theorem loadProcess_step (proc : Nat → U32) (horderly : Orderly K live)
    (h : CanLoad K ready ys (i :: is)) (his : List.Sublist (i :: is) [1, 2, 3, 4, 5]) :
    ∃ p K₁, loadProcess studentHeap C proc i K = .ok (p, K₁) ∧
      Started K K₁ (processName i) userProc i (i = 1) (proc i) p ∧
      CanLoad K₁ (K₁.procs.enqueue p ready) ys is := by
  have hi : i ∈ [1, 2, 3, 4, 5] := his.subset List.mem_cons_self
  have hsearch : pcbSearch K.procs (processName i) = .ok 0 := by
    apply pcbSearch_unused h.holdsReady h.holdsSuspended
    rw [text_processName hi]
    exact h.unused i List.mem_cons_self
  have hroom : 0 < K.device.heap.slots 1100 :=
    lt_of_lt_of_le (Nat.succ_pos is.length) h.room
  have hstarts : ∃ p K₁, startProcess studentHeap C K (processName i) userProc i (i = 1) (proc i) =
      .ok (p, K₁) :=
    startProcess_starts C horderly hroom (processName_good hi) hsearch
  rcases hstarts with ⟨p, K₁, hrun⟩
  have hstart := startProcess_started horderly hrun
  have hfresh := (allocateMemory_fresh horderly hstart.alloc hstart.null).2.1
  have hready : p ∉ ready := fun hmem => hfresh ⟨.ready, h.holdsReady.onQueue_iff.mpr hmem⟩
  have hys : p ∉ ys := fun hmem => hfresh ⟨.suspended, h.holdsSuspended.onQueue_iff.mpr hmem⟩
  exact ⟨p, K₁, hrun, hstart,
    h.next his (hstart.joins horderly h.holdsReady) hready hys (hstart.slots horderly)⟩

/-- By induction on the rounds that are left. -/
theorem loadProcesses_loaded (proc : Nat → U32) (horderly : Orderly K live)
    (h : CanLoad K ready ys is) (his : List.Sublist is [1, 2, 3, 4, 5]) :
    ∃ pcbs K', loadProcesses studentHeap C proc is K = .ok (pcbs, K') ∧
      Loaded live K.procs K'.procs ready is pcbs := by
  induction is generalizing K live ready with
  | nil =>
      exact ⟨[], K, rfl, List.Forall₂.nil, fun p hp => absurd hp List.not_mem_nil, h.holdsReady,
        fun _ _ => rfl, fun x _ => ⟨K.procs.next x, rfl⟩, fun _ _ _ => rfl⟩
  | cons i is ih =>
      rcases loadProcess_step proc horderly h his with ⟨p, K₁, hrun, hstart, hnext⟩
      rcases ih (hstart.orderly horderly) hnext (List.sublist_of_cons_sublist his) with
        ⟨pcbs, K', hrest, hloaded⟩
      have hlive : ready ⊆ live :=
        fun x hx => horderly.queued x ⟨.ready, h.holdsReady.onQueue_iff.mpr hx⟩
      refine ⟨p :: pcbs, K', ?_, ?_⟩
      · rw [loadProcesses, hrun, ok_bind]
        simp only [hrest, ok_bind]
        rfl
      · exact Loaded.cons (hstart.joins horderly h.holdsReady) (his.subset List.mem_cons_self) hlive
          (allocateMemory_fresh horderly hstart.alloc hstart.null).1 hloaded

theorem loadProcesses_length {F : HeapFunctions Heap}
    (hrun : loadProcesses F C proc is K = .ok (pcbs, K')) : pcbs.length = is.length := by
  induction is generalizing K pcbs with
  | nil =>
      cases hrun
      rfl
  | cons i is ih =>
      rcases of_bind_ok hrun with ⟨⟨p, K₁⟩, -, hrest⟩
      rcases of_bind_ok hrest with ⟨⟨ps, K₂⟩, hloads, heq⟩
      cases heq
      rw [List.length_cons, List.length_cons, ih hloads]

end Rounds

def QueueKept (s s' : Procs) (q : Queue) : Prop :=
  s'.head q = s.head q ∧ ∀ x, s.OnQueue q x → s'.next x = s.next x

/-- The processes `created` have the PCBs `pcbs` and their places on the ready queue, each of
them once. They are those whose name is not in use, as long as the heap has a PCB for them; and
all other processes keep their queues. -/
structure LoadedSafely (K K' : Kernel Heap) (ready : List U32) (created : List Nat)
    (pcbs : List U32) : Prop where
  rounds : List.Sublist created [1, 2, 3, 4, 5]
  chosen : ∀ i ∈ [1, 2, 3, 4, 5], i ∈ created ↔ ¬ NameInUse K.procs (processName i) ∧
    (created.filter (· < i)).length < K.device.heap.slots 1100
  loaded : List.Forall₂ (IsLoaded K'.procs) created pcbs
  new : ∀ p ∈ pcbs, ¬ K.procs.OnSome p
  before : K.procs.Holds .ready ready
  after : K'.procs.Holds .ready (enqueueAll K'.procs pcbs ready)
  others : ∀ q, q ≠ .ready → QueueKept K.procs K'.procs q
  kept : ∀ x, K.procs.OnSome x → ∃ v, K'.procs.pcbs x = { K.procs.pcbs x with nextPcb := v }

def LoadsSafely (C : Console Heap) (proc : Nat → U32) (K : Kernel Heap) : Prop :=
  ∃ pcbs K' ready created, loadR3 studentHeap C proc K = .ok (pcbs, K') ∧
    LoadedSafely K K' ready created pcbs

/-- The search for a name ends, all five names are new, the heap has five PCBs, and nobody in
front of a place on the ready queue is on another queue as well. -/
structure ReadyToLoad (K : Kernel Heap) : Prop where
  ends : ∀ q, q ≠ .blocked → ∃ xs, K.procs.Holds q xs
  unused : ∀ i ∈ [1, 2, 3, 4, 5], ¬ NameInUse K.procs (processName i)
  room : 5 ≤ K.device.heap.slots 1100
  apart : ∀ ready, K.procs.Holds .ready ready → ∀ x ∈ K.procs.ahead 5 ready,
    ∀ q, q ≠ .ready → ¬ K.procs.OnQueue q x

section Safe

variable {C : Console Heap} {proc : Nat → U32} {K K' : Kernel Heap} {live ready : List U32}
  {pcbs : List U32} {created : List Nat} {q : Queue} {x y : U32}

theorem rounds_before {i : Nat} (hi : i ∈ [1, 2, 3, 4, 5]) :
    ([1, 2, 3, 4, 5].filter (· < i)).length < 5 := by
  have hall : ∀ i ∈ [1, 2, 3, 4, 5], ([1, 2, 3, 4, 5].filter (· < i)).length < 5 := by decide
  exact hall i hi

theorem QueueKept.onQueue_iff {s s' : Procs} (h : QueueKept s s' q) :
    s'.OnQueue q x ↔ s.OnQueue q x := by
  rw [OnQueue, OnQueue, h.1]
  constructor
  · exact fun hx => hx.congr h.2
  · exact fun hx => hx.of_agree h.2

theorem loadsSafely_of_ready (horderly : Orderly K live) (h : ReadyToLoad K) :
    LoadsSafely C proc K := by
  rcases h.ends .ready (by decide) with ⟨ready, hready⟩
  rcases h.ends .suspended (by decide) with ⟨ys, hsuspended⟩
  have hload : CanLoad K ready ys [1, 2, 3, 4, 5] := by
    refine ⟨hready, hsuspended, ?_, ?_, h.room⟩
    · intro i hi x hx hname
      apply h.unused i hi
      rcases hx with hmem | hmem
      · exact ⟨x, ⟨.ready, hready.onQueue_iff.mpr hmem⟩, hname⟩
      · exact ⟨x, ⟨.suspended, hsuspended.onQueue_iff.mpr hmem⟩, hname⟩
    · intro x hx hmem
      exact h.apart ready hready x hx .suspended (by decide) (hsuspended.onQueue_iff.mpr hmem)
  rcases loadProcesses_loaded proc horderly hload (List.Sublist.refl _) with
    ⟨pcbs, K', hrun, hloaded⟩
  have hold : ∀ x, K.procs.OnSome x → x ∉ pcbs :=
    fun x hx hmem => hloaded.fresh x hmem (horderly.queued x hx)
  refine ⟨pcbs, K', ready, [1, 2, 3, 4, 5], hrun, List.Sublist.refl _, ?_, hloaded.created, ?_,
    hready, hloaded.holds, ?_, fun x hx => hloaded.kept x (hold x hx)⟩
  · intro i hi
    exact iff_of_true hi ⟨h.unused i hi, lt_of_lt_of_le (rounds_before hi) h.room⟩
  · exact fun p hp hon => hold p hon hp
  · intro q hq
    refine ⟨hloaded.heads q hq, fun x hx => ?_⟩
    apply hloaded.links x (hold x ⟨q, hx⟩)
    exact fun hahead => h.apart ready hready x hahead q hq hx

theorem loaded_priority_le {s : Procs} {is : List Nat} (h : List.Forall₂ (IsLoaded s) is pcbs)
    (his : ∀ i ∈ is, i ≤ 5) : ∀ p ∈ pcbs, s.priority p ≤ 5 := by
  induction h with
  | nil => exact fun p hp => absurd hp List.not_mem_nil
  | cons hfirst _ ih =>
      rcases List.forall_mem_cons.mp his with ⟨hi, hrest⟩
      rw [List.forall_mem_cons]
      refine ⟨?_, ih hrest⟩
      rw [hfirst.priority]
      omega

theorem LoadedSafely.reaches_last (h : LoadedSafely K K' ready [1, 2, 3, 4, 5] pcbs)
    (hx : x ∈ K.procs.ahead 5 ready) :
    ∃ p ∈ pcbs, Reaches 0 K'.procs.next x p := by
  have hfront : ∀ p ∈ pcbs.take 4, K'.procs.priority p ≤ 5 :=
    loaded_priority_le (List.forall₂_take 4 h.loaded) (by decide)
  have hlast : List.Forall₂ (IsLoaded K'.procs) [5] (pcbs.drop 4) := List.forall₂_drop 4 h.loaded
  rcases (List.forall₂_cons_left_iff).mp hlast with ⟨p, rest, hp, hnone, hdrop⟩
  rw [List.forall₂_nil_left_iff.mp hnone] at hdrop
  have hsplit : pcbs = pcbs.take 4 ++ [p] := by
    rw [← hdrop, List.take_append_drop]
  have hsame : K'.procs.ahead 5 ready = K.procs.ahead 5 ready := by
    apply ahead_congr
    intro y hy
    rcases h.kept y ⟨.ready, h.before.onQueue_iff.mpr hy⟩ with ⟨v, hv⟩
    rw [Procs.priority, hv, Procs.priority]
  have hfive : K'.procs.priority p = 5 := hp.priority
  have hahead : x ∈ K'.procs.ahead (K'.procs.priority p)
      (enqueueAll K'.procs (pcbs.take 4) ready) := by
    rw [hfive, mem_ahead_enqueueAll hfront, hsame]
    exact Or.inr hx
  have hall : enqueueAll K'.procs pcbs ready =
      K'.procs.enqueue p (enqueueAll K'.procs (pcbs.take 4) ready) := by
    conv_lhs => rw [hsplit]
    exact List.foldl_append
  rcases enqueue_behind hahead with ⟨front, back, hplace, hback⟩
  have hafter := h.after
  rw [hall, hplace] at hafter
  refine ⟨p, ?_, ?_⟩
  · rw [hsplit]
    exact List.mem_append_right _ List.mem_cons_self
  · exact (IsList.reaches_iff hafter.suffix).mpr (List.mem_cons_of_mem _ hback)

theorem ready_of_loadsSafely (horderly : Orderly K live) (h : LoadsSafely C proc K) :
    ReadyToLoad K := by
  rcases h with ⟨pcbs, K', ready, created, hrun, hsafe⟩
  have hlength : created.length = [1, 2, 3, 4, 5].length := by
    rw [hsafe.loaded.length_eq]
    exact loadProcesses_length hrun
  have hcreated : created = [1, 2, 3, 4, 5] := hsafe.rounds.eq_of_length hlength
  rw [hcreated] at hsafe
  have hchosen : ∀ i ∈ [1, 2, 3, 4, 5], ¬ NameInUse K.procs (processName i) ∧
      ([1, 2, 3, 4, 5].filter (· < i)).length < K.device.heap.slots 1100 :=
    fun i hi => (hsafe.chosen i hi).mp hi
  constructor
  · intro q hq
    rcases of_bind_ok hrun with ⟨⟨p, K₁⟩, hfirst, -⟩
    exact pcbSearch_ends (startProcess_started horderly hfirst).search hq
  · exact fun i hi => (hchosen i hi).1
  · exact (hchosen 5 (by decide)).2
  · intro ready' hready' x hx q hq hon
    have hsame : ready' = ready := IsList.unique hready' hsafe.before
    rw [hsame] at hx
    rcases hsafe.reaches_last hx with ⟨p, hp, hreach⟩
    apply hsafe.new p hp
    have hon' := (hsafe.others q hq).onQueue_iff.mpr hon
    exact ⟨q, (hsafe.others q hq).onQueue_iff.mp (hon'.trans hreach)⟩

/-- `load_r3` is safe exactly when all five processes can be created. -/
theorem load_r3_safe_iff (horderly : Orderly K live) : LoadsSafely C proc K ↔ ReadyToLoad K :=
  ⟨ready_of_loadsSafely horderly, loadsSafely_of_ready horderly⟩

def procEntry (i : Nat) : U32 := BitVec.ofNat 32 (0x100000 + 0x1000 * i)

theorem bootKernel_readyToLoad : ReadyToLoad bootKernel := by
  have hnobody : ∀ q x, ¬ bootKernel.procs.OnQueue q x :=
    fun q x hx => bootKernel_startsEmpty.not_onSome ⟨q, hx⟩
  constructor
  · exact fun q _ => ⟨[], bootKernel_startsEmpty.heads q⟩
  · intro i _ hused
    rcases hused with ⟨x, hx, -⟩
    exact bootKernel_startsEmpty.not_onSome hx
  · have hslots : bootKernel.device.heap.slots 1100 = 45 := by
      have hchain : bootKernel.device.heap.chain = .ok [⟨0xD000000, 50000, true, true⟩] :=
        kernelHeap_chain
      rw [Heap.slots, hchain]
      rfl
    omega
  · exact fun _ _ x _ q _ => hnobody q x

theorem load_r3_safe_iff_boot : LoadsSafely silentConsole procEntry bootKernel :=
  (load_r3_safe_iff ⟨kernelHeap_owns, fun _ => bootKernel_onSome, rfl⟩).mpr
    bootKernel_readyToLoad

theorem Populated.orderly {S : U32 → Prop} {queue others : List U32}
    (h : Populated K S queue others live) (hsuspended : K.procs.suspendedHead = 0) :
    Orderly K live where
  owns := h.requests.owns
  queued := by
    intro x hx
    apply h.blocks.mem_iff.mpr
    exact List.mem_append_right _ (h.housed x (h.onSome x hx))
  suspended := hsuspended

/-- When the user enters `loadR3` a second time, `load_r3` frees its first PCB twice. -/
theorem load_r3_unsafe_twice :
    ∃ dcb st₀ st, Held st₀ dcb ∧ Relation.ReflTransGen (SessionStep Balanced) st₀ st ∧
      (∃ live, Orderly st.kernel live) ∧
      ¬ LoadsSafely silentConsole procEntry st.kernel := by
  have hcompute : (bootAndRun .loadR3).map (fun r => (r.2.2.2.kernel.procs.suspendedHead,
      (loadR3 studentHeap silentConsole procEntry r.2.2.2.kernel).map Prod.fst)) =
      .ok (0, .error .nullPointer) := by
    decide +kernel
  rcases of_map_ok hcompute with ⟨⟨dcb, st₀, st, st'⟩, hrun, hresult⟩
  rcases Prod.mk.inj hresult with ⟨hsuspended, hagain⟩
  have hsteps : Relation.ReflTransGen (SessionStep Balanced) st₀ st' :=
    bootAndRun_steps hrun trivial
  have hheld := Run.invariant (fun st => Held st dcb)
    (fun _ _ h hstep => sessionStep_held h hstep) hsteps (bootAndRun_spec hrun).1
  refine ⟨dcb, st₀, st', (bootAndRun_spec hrun).1, hsteps, ?_, ?_⟩
  · rcases hheld with ⟨queue, live, hpopulated⟩
    exact ⟨live, hpopulated.orderly hsuspended⟩
  · intro hsafe
    rcases hsafe with ⟨pcbs, K', -, -, hload, -⟩
    have hagain' : (loadR3 studentHeap silentConsole procEntry st'.kernel).map Prod.fst =
        .error .nullPointer := hagain
    rw [hload] at hagain'
    cases hagain'

end Safe

end Mpx
