import Mpx.Heap.Calls
import Mpx.Kernel.Cleanup
import Mpx.User.Moves

/-! `set_pcb_priority` changes the priority of a process where it stands in its queue. -/

namespace Mpx

open Memory PointerList Procs StableSort Run CString

namespace Procs

variable {s s' : Procs} {lists : Queue → List U32} {p x : U32} {q : Queue} {v : Int}
  {xs : List U32}

def setPriority (s : Procs) (p : U32) (v : Int) : Procs :=
  s.modify p fun b => { b with priority := v }

@[simp] theorem next_setPriority : (s.setPriority p v).next = s.next := by
  simp [setPriority, next, Function.update_eq_self_iff]

@[simp] theorem head_setPriority : (s.setPriority p v).head q = s.head q := head_modify _

theorem priority_setPriority :
    (s.setPriority p v).priority = Function.update s.priority p v := by
  funext x
  by_cases hx : x = p
  · rw [hx, Function.update_self, setPriority, priority, pcbs_modify_self]
  · rw [Function.update_of_ne hx, setPriority, priority, pcbs_modify_ne hx, priority]

theorem holds_setPriority : (s.setPriority p v).Holds q xs ↔ s.Holds q xs := by
  rw [Holds, Holds, head_setPriority, next_setPriority]

end Procs

/-- `p` has the priority `v` and is where `pcb_insert` puts it when it has been taken off its
queue; the queues are sorted. -/
structure Requeued (s s' : Procs) (lists : Queue → List U32) (p : U32) (v : Int) : Prop where
  priority : s'.priority = Function.update s.priority p v
  holds : ∀ q, s'.Holds q (if p ∈ lists q then s'.enqueue p ((lists q).erase p) else lists q)
  sorted : ∀ q xs, s'.Holds q xs → s'.Sorted xs

def InPlace (s : Procs) (lists : Queue → List U32) (p : U32) (v : Int) : Prop :=
  ∀ q front back, lists q = front ++ p :: back →
    (∀ x ∈ front, s.priority x ≤ v) ∧ ∀ y ∈ back, v < s.priority y

section Place

variable {s : Procs} {lists : Queue → List U32} {p : U32} {q : Queue} {v : Int}
  {xs front back : List U32}

theorem priority_setPriority_ne {x : U32} (hx : x ≠ p) :
    (s.setPriority p v).priority x = s.priority x := by
  rw [priority_setPriority, Function.update_of_ne hx]

theorem priority_setPriority_self : (s.setPriority p v).priority p = v := by
  rw [priority_setPriority, Function.update_self]

theorem sorted_setPriority (h : s.Sorted xs) (hp : p ∉ xs) : (s.setPriority p v).Sorted xs := by
  apply List.Pairwise.imp_of_mem _ h
  intro x y hx hy hxy
  rwa [priority_setPriority_ne (ne_of_mem_of_not_mem hx hp),
    priority_setPriority_ne (ne_of_mem_of_not_mem hy hp)]

theorem erase_split (hnodup : (front ++ p :: back).Nodup) :
    p ∉ front ++ back ∧ (front ++ p :: back).erase p = front ++ back := by
  have hnew : p ∉ front ++ back := (List.nodup_cons.mp (List.nodup_middle.mp hnodup)).1
  refine ⟨hnew, ?_⟩
  rw [List.erase_append_right _ fun hmem => hnew (List.mem_append_left _ hmem),
    List.erase_cons_head]

/-- The place of `p` is that of an insertion with the priority `v` exactly when its neighbours
fit. -/
theorem enqueue_place_iff (hsorted : s.Sorted (front ++ p :: back))
    (hnodup : (front ++ p :: back).Nodup) :
    (s.setPriority p v).enqueue p ((front ++ p :: back).erase p) = front ++ p :: back ↔
      (∀ x ∈ front, s.priority x ≤ v) ∧ ∀ y ∈ back, v < s.priority y := by
  rcases erase_split hnodup with ⟨hnew, herase⟩
  have hrest : s.Sorted (front ++ back) := by
    apply List.Pairwise.sublist _ hsorted
    exact (List.sublist_cons_self p back).append_left front
  have hne : ∀ x ∈ front ++ back, x ≠ p := fun x hx => ne_of_mem_of_not_mem hx hnew
  rw [herase, enqueue, orderedInsert_place_iff hnew (sorted_setPriority hrest hnew),
    priority_setPriority_self]
  constructor
  · rintro ⟨hfront, hback⟩
    refine ⟨fun x hx => ?_, fun y hy => ?_⟩
    · have h := hfront x hx
      rwa [priority_setPriority_ne (hne x (List.mem_append_left _ hx))] at h
    · have h := hback y hy
      rwa [priority_setPriority_ne (hne y (List.mem_append_right _ hy))] at h
  · rintro ⟨hfront, hback⟩
    refine ⟨fun x hx => ?_, fun y hy => ?_⟩
    · rw [priority_setPriority_ne (hne x (List.mem_append_left _ hx))]
      exact hfront x hx
    · rw [priority_setPriority_ne (hne y (List.mem_append_right _ hy))]
      exact hback y hy

theorem sorted_moved (h : Queues s lists) (q : Queue) :
    (s.setPriority p v).Sorted (if p ∈ lists q then
      (s.setPriority p v).enqueue p ((lists q).erase p) else lists q) := by
  by_cases hp : p ∈ lists q
  · rw [if_pos hp]
    apply enqueue_sorted
    exact sorted_setPriority ((h.sorted q).sublist List.erase_sublist)
      (IsList.nodup (h.holds q)).not_mem_erase
  · rw [if_neg hp]
    exact sorted_setPriority (h.sorted q) hp

/-- The assignment alone is the move of `p` exactly when `p` can stay where it is. -/
theorem requeued_setPriority_iff (h : Queues s lists) :
    Requeued s (s.setPriority p v) lists p v ↔ InPlace s lists p v := by
  have hplace : ∀ q front back, lists q = front ++ p :: back →
      ((s.setPriority p v).enqueue p ((lists q).erase p) = lists q ↔
        (∀ x ∈ front, s.priority x ≤ v) ∧ ∀ y ∈ back, v < s.priority y) := by
    intro q front back hsplit
    have hsorted := h.sorted q
    have hnodup := IsList.nodup (h.holds q)
    rw [hsplit] at hsorted hnodup ⊢
    exact enqueue_place_iff hsorted hnodup
  constructor
  · intro hmoved q front back hsplit
    have hp : p ∈ lists q := by
      rw [hsplit]
      exact List.mem_append_right _ List.mem_cons_self
    have hholds := hmoved.holds q
    rw [if_pos hp, holds_setPriority] at hholds
    exact (hplace q front back hsplit).mp (IsList.unique hholds (h.holds q))
  · intro hstays
    have hsame : ∀ q, (if p ∈ lists q then
        (s.setPriority p v).enqueue p ((lists q).erase p) else lists q) = lists q := by
      intro q
      by_cases hp : p ∈ lists q
      · rcases List.append_of_mem hp with ⟨front, back, hsplit⟩
        rw [if_pos hp]
        exact (hplace q front back hsplit).mpr (hstays q front back hsplit)
      · rw [if_neg hp]
    constructor
    · exact priority_setPriority
    · intro q
      rw [hsame q, holds_setPriority]
      exact h.holds q
    · intro q xs hxs
      rw [holds_setPriority] at hxs
      rw [IsList.unique hxs (h.holds q), ← hsame q]
      exact sorted_moved h q

theorem inPlace_iff (h : Queues s lists) (hsplit : lists q = front ++ p :: back) :
    InPlace s lists p v ↔ (∀ x ∈ front, s.priority x ≤ v) ∧ ∀ y ∈ back, v < s.priority y := by
  have hp : p ∈ lists q := by
    rw [hsplit]
    exact List.mem_append_right _ List.mem_cons_self
  constructor
  · exact fun hstays => hstays q front back hsplit
  · intro hfits q' front' back' hsplit'
    have hq : q' = q := by
      by_contra hne
      apply h.disjoint q q' (Ne.symm hne) p hp
      rw [hsplit']
      exact List.mem_append_right _ List.mem_cons_self
    have hnodup := IsList.nodup (h.holds q)
    rw [hsplit] at hnodup
    have hnew := (erase_split hnodup).1
    rw [List.mem_append, not_or] at hnew
    rw [hq, hsplit, List.append_cons_inj_of_notMem] at hsplit'
    · rw [← hsplit'.1, ← hsplit'.2.2]
      exact hfits
    · exact hnew.1
    · exact hnew.2

end Place

/-- What `set_pcb_priority` asks for to copy the name in its line. -/
def copySize (buf : List U8) : U32 := BitVec.ofNat 32 (strlen (strtok buf whitespace).2 + 1)

def priorityPrompt : String := "Please enter the new priority of the PCB: "

section Command

variable {C : Console Heap} {K K₁ : Kernel Heap} {heap : Heap} {live : List U32}
  {lists : Queue → List U32} {buf priorityBuf name : List U8} {ptr p : U32}

theorem copySize_pos (hbuf : buf.length ≤ 20) : 0 < (roundup (copySize buf)).toNat := by
  have hlength := (strlen_le_length _).trans (strtok_length_le buf whitespace)
  have hsize : (copySize buf).toNat = strlen (strtok buf whitespace).2 + 1 := by
    rw [copySize, BitVec.toNat_ofNat]
    omega
  rw [roundup_small (by omega), roundedSize]
  omega

theorem setPcbPriority_found (hname : (strtok buf whitespace).1 = some name)
    (hmin : minNameLen ≤ strlen name) (hmax : strlen name ≤ maxNameLen)
    (halloc : allocateMemory K.device.heap (copySize buf) = .ok (ptr, heap))
    (hprompt : C priorityPrompt { K with device := { K.device with heap := heap } } = .ok K₁)
    (hfind : pcbSearch K₁.procs name = .ok p) (hp : p ≠ 0) (hlow : 0 ≤ atoi priorityBuf)
    (hhigh : atoi priorityBuf ≤ 9) :
    setPcbPriority studentHeap C K buf priorityBuf =
      if ptr = 0 then .error .nullPointer
      else .ok { K₁ with procs := K₁.procs.setPriority p (atoi priorityBuf) } := by
  have hcall : sysAllocMem studentHeap K.device.heap
      (BitVec.ofNat 32 (strlen (strtok buf whitespace).2 + 1)) = .ok (ptr, heap) := halloc
  have hlength : ¬ (strlen name < minNameLen ∨ strlen name > maxNameLen) := by omega
  have hrange : ¬ (atoi priorityBuf < 0 ∨ atoi priorityBuf > 9) := by omega
  rw [setPcbPriority]
  simp only [hcall, hname, ok_bind]
  by_cases hptr : ptr = 0
  · rw [if_pos hptr, if_pos hptr]
  · rw [if_neg hptr, if_neg hptr, if_neg hlength]
    rw [priorityPrompt] at hprompt
    simp only [hprompt, ok_bind, if_neg hrange, pcbFind_found C hfind hp, if_neg hp]
    rfl

/-- A process gets its place for its new priority exactly when there is room for the copy of
its name and it is in that place already. -/
theorem priority_requeued_iff (hown : OwnsBlocks K.device.heap live) (hbuf : buf.length ≤ 20)
    (hname : (strtok buf whitespace).1 = some name) (hmin : minNameLen ≤ strlen name)
    (hmax : strlen name ≤ maxNameLen)
    (halloc : allocateMemory K.device.heap (copySize buf) = .ok (ptr, heap))
    (hprompt : C priorityPrompt { K with device := { K.device with heap := heap } } = .ok K₁)
    (hqueues : Queues K₁.procs lists) (hfind : pcbSearch K₁.procs name = .ok p) (hp : p ≠ 0)
    (hlow : 0 ≤ atoi priorityBuf) (hhigh : atoi priorityBuf ≤ 9) :
    (∃ K', setPcbPriority studentHeap C K buf priorityBuf = .ok K' ∧
      Requeued K₁.procs K'.procs lists p (atoi priorityBuf)) ↔
    ¬ NoRoom K.device.heap (roundup (copySize buf)).toNat ∧
      InPlace K₁.procs lists p (atoi priorityBuf) := by
  have hroom := allocateMemory_null_iff hown (copySize_pos hbuf) halloc
  rw [setPcbPriority_found hname hmin hmax halloc hprompt hfind hp hlow hhigh, ← hroom,
    ← requeued_setPriority_iff hqueues]
  by_cases hptr : ptr = 0
  · rw [if_pos hptr]
    refine iff_of_false ?_ fun h => h.1 hptr
    rintro ⟨K', hrun, -⟩
    cases hrun
  · rw [if_neg hptr]
    constructor
    · rintro ⟨K', hrun, hmoved⟩
      cases hrun
      exact ⟨hptr, hmoved⟩
    · exact fun h => ⟨_, rfl, h.2⟩

theorem kernelHeap_room : ¬ NoRoom kernelHeap 4 := by
  intro hfull
  have h := hfull _ kernelHeap_chain _ List.mem_cons_self rfl
  exact absurd h (by decide)

theorem commandKernel_copy :
    ∃ ptr heap, allocateMemory commandKernel.device.heap (copySize [66, 66, 10]) =
      .ok (ptr, heap) := by
  have hcompute : (allocateMemory commandKernel.device.heap (copySize [66, 66, 10])).map
      (fun _ => ()) = .ok () := by
    decide +kernel
  rcases of_map_ok hcompute with ⟨⟨ptr, heap⟩, hrun, -⟩
  exact ⟨ptr, heap, hrun⟩

theorem commandKernel_found : pcbSearch commandKernel.procs [66, 66] = .ok 0x2000 := by
  decide +kernel

/-- The first process on the ready queue stays there with priority 0. -/
theorem priority_requeued_iff_first :
    ∃ K', setPcbPriority studentHeap silentConsole commandKernel [66, 66, 10] [48, 10] = .ok K' ∧
      Requeued commandKernel.procs K'.procs commandLists 0x2000 0 := by
  rcases commandKernel_copy with ⟨ptr, heap, halloc⟩
  have hfind : pcbSearch commandKernel.procs [66, 66] = .ok 0x2000 := commandKernel_found
  have hzero : atoi [48, 10] = 0 := by decide
  have hprompt : silentConsole priorityPrompt
      { commandKernel with device := { commandKernel.device with heap := heap } } =
      .ok { commandKernel with device := { commandKernel.device with heap := heap } } := rfl
  have hlow : 0 ≤ atoi [48, 10] := by decide
  have h := (priority_requeued_iff kernelHeap_owns (by decide) (by decide) (by decide) (by decide)
    halloc hprompt commandKernel_queues hfind (by decide) hlow (by decide)).mpr
  rw [hzero] at h
  apply h
  have hsplit : commandLists .ready = [] ++ 0x2000 :: [0x3000] := rfl
  refine ⟨kernelHeap_room, (inPlace_iff commandKernel_queues hsplit).mpr
    ⟨fun x hx => absurd hx List.not_mem_nil, ?_⟩⟩
  intro y hy
  have hbehind : 0 < commandKernel.procs.priority 0x3000 := by decide +kernel
  rw [List.mem_singleton.mp hy]
  exact hbehind

/-- With priority 5 it stays in front of a process with priority 2. -/
theorem priority_out_of_place :
    Queues commandKernel.procs commandLists ∧
    pcbSearch commandKernel.procs [66, 66] = .ok 0x2000 ∧
    ∃ K', setPcbPriority studentHeap silentConsole commandKernel [66, 66, 10] [53, 10] = .ok K' ∧
      K'.procs.Holds .ready [0x2000, 0x3000] ∧ ¬ K'.procs.Sorted [0x2000, 0x3000] ∧
      ¬ Requeued commandKernel.procs K'.procs commandLists 0x2000 5 := by
  have hcompute : (setPcbPriority studentHeap silentConsole commandKernel [66, 66, 10]
      [53, 10]).map (fun K' => (decide (K'.procs.Holds .ready [0x2000, 0x3000]),
        decide (K'.procs.Sorted [0x2000, 0x3000]))) = .ok (true, false) := by
    decide +kernel
  rcases of_map_ok hcompute with ⟨K', hrun, hresult⟩
  simp only [Prod.mk.injEq, decide_eq_true_eq, decide_eq_false_iff_not] at hresult
  refine ⟨commandKernel_queues, commandKernel_found, K', hrun, hresult.1, hresult.2, ?_⟩
  exact fun hmoved => hresult.2 (hmoved.sorted .ready _ hresult.1)

end Command

end Mpx
