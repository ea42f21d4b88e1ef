import Mpx.Heap.Runs

/-! The two heap functions that `sys_set_heap_functions` installs (`lib/core.c`). -/

namespace Mpx

open Memory BlockList

/-- `malloc_function` and `free_function`, acting on a heap of type `σ`. -/
structure HeapFunctions (σ : Type) where
  mallocFunction : σ → U32 → Except Fault (U32 × σ)
  freeFunction : σ → U32 → Except Fault (Int × σ)

variable {σ : Type}

def sysAllocMem (F : HeapFunctions σ) (h : σ) (size : U32) : Except Fault (U32 × σ) :=
  F.mallocFunction h size

def sysFreeMem (F : HeapFunctions σ) (h : σ) (ptr : U32) : Except Fault (Int × σ) :=
  F.freeFunction h ptr

def studentHeap : HeapFunctions Heap where
  mallocFunction := allocateMemory
  freeFunction := freeMemory

/-- What the drivers rely on: `Owns h live` says that `live` are the blocks the
heap `h` has handed out. A new block is none of these, and a release of one of
them returns and takes just that one back. -/
structure HeapLaws (F : HeapFunctions σ) (Owns : σ → List U32 → Prop) : Prop where
  malloc_fresh : ∀ {h live size p h'}, Owns h live →
    F.mallocFunction h size = .ok (p, h') → p ≠ 0 → p ∉ live ∧ Owns h' (p :: live)
  free_live : ∀ {h live p}, Owns h live → p ∈ live →
    ∃ r h', F.freeFunction h p = .ok (r, h') ∧ Owns h' (live.erase p)

/-- The heap of `lib/mem.c` in a state that a run reaches. -/
def OwnsBlocks (h : Heap) (live : List U32) : Prop :=
  ∃ a total bs, HeapInv a total ⟨h, live⟩ bs

theorem allocateMemory_owns {h h' : Heap} {live : List U32} {size p : U32}
    (hown : OwnsBlocks h live) (hrun : allocateMemory h size = .ok (p, h')) :
    OwnsBlocks h' (if p = 0 then live else p :: live) := by
  rcases hown with ⟨a, total, bs, hinv⟩
  rcases heapStep_spec hinv (.allocate ⟨h, live⟩ size p h' hrun) with ⟨rest, hinv', -, -⟩
  exact ⟨a, total, rest, hinv'⟩

theorem allocateMemory_total {h : Heap} {live : List U32} (hown : OwnsBlocks h live)
    (size : U32) : ∃ p h', allocateMemory h size = .ok (p, h') := by
  rcases hown with ⟨a, total, bs, hinv⟩
  exact (heapInv_returns hinv).1 size

theorem ownsBlocks_nodup {h : Heap} {live : List U32} (hown : OwnsBlocks h live) :
    live.Nodup := by
  rcases hown with ⟨a, total, bs, hinv⟩
  exact hinv.nodup

theorem studentHeap_laws : HeapLaws studentHeap OwnsBlocks where
  malloc_fresh := by
    intro h live size p h' hown hrun hp
    have hown' := allocateMemory_owns hown hrun
    rw [if_neg hp] at hown'
    exact ⟨(List.nodup_cons.mp (ownsBlocks_nodup hown')).1, hown'⟩
  free_live := by
    rintro h live p ⟨a, total, bs, hinv⟩ hlive
    obtain ⟨h', hrun⟩ := (heapInv_returns hinv).2 p hlive
    obtain ⟨rest, hinv', -, -⟩ := heapStep_spec hinv (.free ⟨h, live⟩ p 0 h' hlive hrun)
    exact ⟨0, h', hrun, a, total, rest, hinv'⟩

theorem ownsBlocks_init {kmalloc : U32 → U32} {sz : U32} (m : Mem)
    (hregion : HeapRegion kmalloc sz) : OwnsBlocks (initializeHeap kmalloc m sz) [] :=
  ⟨_, _, _, heapInv_init m hregion⟩

def Allocated (h : Heap) (p : U32) : Prop :=
  p ≠ 0 ∧ ∃ bs, h.chain = .ok bs ∧ ∃ b ∈ bs, b.isFree = false ∧ mcbStart b.addr = p

theorem allocated_iff {h : Heap} {live : List U32} {p : U32} (hown : OwnsBlocks h live) :
    Allocated h p ↔ p ∈ live := by
  rcases hown with ⟨a, total, bs, hinv⟩
  have hchain : h.chain = .ok (view a bs) := chain_spec hinv.represents
  have hlive : p ∈ live ↔ p ≠ 0 ∧ ∃ b ∈ view a bs, b.isFree = false ∧ mcbStart b.addr = p :=
    (payloads_isolated hinv).allocated p
  rw [hlive, Allocated, hchain]
  simp

def NoRoom (h : Heap) (n : Nat) : Prop :=
  ∀ bs, h.chain = .ok bs → ∀ b ∈ bs, b.isFree = true → b.size.toNat < n

theorem allocateMemory_null_iff {h h' : Heap} {live : List U32} {size p : U32}
    (hown : OwnsBlocks h live) (hsize : 0 < (roundup size).toNat)
    (hrun : allocateMemory h size = .ok (p, h')) :
    p = 0 ↔ NoRoom h (roundup size).toNat := by
  rcases hown with ⟨a, total, bs, hinv⟩
  have hrep := hinv.represents
  have hroom : NoRoom h (roundup size).toNat ↔ firstFit 4 (roundup size).toNat a bs = none := by
    rw [firstFit_eq_none_iff, ← view_sizes hrep.encodes, NoRoom, chain_spec hrep]
    simp
  rw [hroom]
  rcases allocateMemory_cases hrep hrun with
    ⟨hnone, hp, -⟩ | ⟨q, rest, hfit, hp, hrep₁, -⟩
  · exact iff_of_true hp hnone
  · rcases held_firstFit hfit with ⟨s, hs, hperm⟩
    have hbounds := held_bounds (hperm.mem_iff.mpr List.mem_cons_self)
    have hend := encodes_span hrep₁.encodes hrep₁.nonempty
    rw [hfit, hp]
    exact iff_of_false (addr_ne_null (by omega) (by omega)) (Option.some_ne_none _)

theorem freeMemory_not_live {h : Heap} {live : List U32} {p : U32} (hown : OwnsBlocks h live)
    (hp : p ≠ 0) (hdead : p ∉ live) : freeMemory h p = .error .nullPointer := by
  rcases hown with ⟨a, total, bs, hinv⟩
  apply freeMemory_none hinv.represents hp
  apply release_eq_none_iff.mpr
  intro size hheld
  exact hdead ((hinv.live_iff p).mpr ⟨hp, size, hheld⟩)

def kernelHeap : Heap := initializeHeap (fun _ => 0xD000000) ⟨fun _ => 0⟩ 50000

theorem kernelHeap_owns : OwnsBlocks kernelHeap [] :=
  ownsBlocks_init _ ⟨by decide, by decide⟩

end Mpx
