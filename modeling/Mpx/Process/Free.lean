import Mpx.Process.Model

/-! `pcb_free`: it releases a PCB with a name twice, and any other one once. -/

namespace Mpx

open Memory

variable {F : HeapFunctions Heap} {e : Fault} {h : Heap} {live : List U32} {s : Procs} {p : U32}

def isAllocated (h : Heap) (p : U32) : Bool :=
  match h.chain with
  | .ok bs => p ≠ 0 && bs.any fun b => !b.isFree && mcbStart b.addr == p
  | .error _ => false

/-- The heap of `lib/mem.c` with a check that only allocated blocks are released. -/
def checkedHeap : HeapFunctions Heap where
  mallocFunction := allocateMemory
  freeFunction h p := if isAllocated h p then freeMemory h p else .error .outOfBounds

/-- `pcb_free` returns 0 and releases the block of the PCB and nothing else, and what it
releases is allocated at that moment. -/
def FreedOnce (h : Heap) (s : Procs) (p : U32) : Prop :=
  ∃ h', pcbFree studentHeap h s p = .ok (0, h') ∧ pcbFree checkedHeap h s p = .ok (0, h') ∧
    ∀ x, Allocated h' x ↔ Allocated h x ∧ x ≠ p

theorem isAllocated_iff : isAllocated h p = true ↔ Allocated h p := by
  unfold isAllocated Allocated
  cases h.chain with
  | ok bs => simp
  | error e => simp

/-- A heap that releases allocated blocks as `lib/mem.c` does, and answers any other
release with the fault `e`. -/
structure Releases (F : HeapFunctions Heap) (e : Fault) : Prop where
  malloc : F.mallocFunction = allocateMemory
  free_live : ∀ {h live p}, OwnsBlocks h live → p ∈ live → F.freeFunction h p = freeMemory h p
  free_dead : ∀ {h live p}, OwnsBlocks h live → p ≠ 0 → p ∉ live → F.freeFunction h p = .error e

theorem studentHeap_releases : Releases studentHeap .nullPointer where
  malloc := rfl
  free_live := fun _ _ => rfl
  free_dead := fun hown hp hdead => freeMemory_not_live hown hp hdead

theorem checkedHeap_releases : Releases checkedHeap .outOfBounds where
  malloc := rfl
  free_live := by
    intro h live p hown hlive
    exact if_pos (isAllocated_iff.mpr ((allocated_iff hown).mpr hlive))
  free_dead := by
    intro h live p hown _ hdead
    apply if_neg
    rw [isAllocated_iff, allocated_iff hown]
    exact hdead

theorem pcbFree_dead (hF : Releases F e) (hown : OwnsBlocks h live) (hp : p ≠ 0)
    (hdead : p ∉ live) : pcbFree F h s p = .error e := by
  have hfirst : F.freeFunction h p = .error e := hF.free_dead hown hp hdead
  rw [pcbFree, if_pos hp]
  by_cases hname : (s.pcbs p).name.headD 0 = 0
  · simp only [hname, ne_eq, not_true, if_false, sysFreeMem, hfirst, bind, Except.bind, pure,
      Except.pure]
  · simp only [ne_eq, hname, not_false_eq_true, if_true, sysFreeMem, hfirst, bind, Except.bind]

/-- The two releases of a PCB with a name are of one block. -/
theorem pcbFree_named (hF : Releases F e) (hown : OwnsBlocks h live) (hp : p ≠ 0)
    (hname : (s.pcbs p).name.headD 0 ≠ 0) : pcbFree F h s p = .error e := by
  by_cases hlive : p ∈ live
  · rcases studentHeap_laws.free_live hown hlive with ⟨r, h', hfree, hown'⟩
    have hgone : p ∉ live.erase p := (ownsBlocks_nodup hown).not_mem_erase
    have hfirst : F.freeFunction h p = .ok (r, h') := (hF.free_live hown hlive).trans hfree
    have hsecond : F.freeFunction h' p = .error e := hF.free_dead hown' hp hgone
    rw [pcbFree, if_pos hp, if_pos hname]
    simp only [sysFreeMem, hfirst, hsecond, bind, Except.bind, pure, Except.pure]
  · exact pcbFree_dead hF hown hp hlive

theorem pcbFree_unnamed {h' : Heap} {r : Int} (hF : Releases F e) (hown : OwnsBlocks h live)
    (hp : p ≠ 0) (hlive : p ∈ live) (hname : (s.pcbs p).name.headD 0 = 0)
    (hfree : freeMemory h p = .ok (r, h')) : pcbFree F h s p = .ok (0, h') := by
  have hrelease : F.freeFunction h p = .ok (r, h') := (hF.free_live hown hlive).trans hfree
  simp only [pcbFree, if_pos hp, hname, ne_eq, not_true, if_false, sysFreeMem, hrelease, bind,
    Except.bind, pure, Except.pure]

theorem pcbFree_returns_iff (hown : OwnsBlocks h live) (hp : p ≠ 0) :
    (∃ r, pcbFree studentHeap h s p = .ok r) ↔ p ∈ live ∧ (s.pcbs p).name.headD 0 = 0 := by
  constructor
  · intro hreturns
    rcases hreturns with ⟨r, hret⟩
    constructor
    · by_contra hdead
      rw [pcbFree_dead studentHeap_releases hown hp hdead] at hret
      cases hret
    · by_contra hname
      rw [pcbFree_named studentHeap_releases hown hp hname] at hret
      cases hret
  · intro hsound
    rcases studentHeap_laws.free_live hown hsound.1 with ⟨r, h', hfree, -⟩
    exact ⟨(0, h'), pcbFree_unnamed studentHeap_releases hown hp hsound.1 hsound.2 hfree⟩

end Mpx
