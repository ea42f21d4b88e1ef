import Mpx.Base.BlockRoom
import Mpx.Heap.Calls

/-! How many blocks the region of the heap has room for, and which requests it cannot refuse. -/

namespace Mpx

open Memory BlockList

section Live

variable {a total n : Nat} {s : HeapState} {bs : List Block}

theorem room_of_blocks {ps : List U32} (hinv : HeapInv a total s bs) (hnodup : ps.Nodup)
    (hlive : ps ⊆ s.live) (hsize : ∀ p ∈ ps, n ≤ payloadSize s.heap p) :
    ps.length * (4 + n) ≤ total := by
  have hheld : (ps.map fun p => (p.toNat, payloadSize s.heap p)) ⊆ held 4 a bs := by
    intro x hx
    obtain ⟨p, hp, rfl⟩ := List.mem_map.mp hx
    exact live_held hinv (hlive hp)
  have hdistinct : (ps.map fun p => (p.toNat, payloadSize s.heap p)).Nodup := by
    apply hnodup.map
    intro p q heq
    exact BitVec.eq_of_toNat_eq (congrArg Prod.fst heq)
  have hlarge : ∀ x ∈ ps.map fun p => (p.toNat, payloadSize s.heap p), n ≤ x.2 := by
    intro x hx
    obtain ⟨p, hp, rfl⟩ := List.mem_map.mp hx
    exact hsize p hp
  have hspan := length_mul_le_span hdistinct hheld hlarge
  rwa [List.length_map, hinv.total] at hspan

theorem heapStep_sizes {t : HeapState} (hinv : HeapInv a total s bs) (hstep : HeapStep s t) :
    ∃ rest, HeapInv a total t rest ∧
      ∀ q ∈ s.live, q ∈ t.live → payloadSize t.heap q = payloadSize s.heap q := by
  obtain ⟨rest, hinv', -, hkeep⟩ := heapStep_spec hinv hstep
  refine ⟨rest, hinv', fun q hq hq' => ?_⟩
  exact payloadSize_eq hinv'.represents (hkeep q _ (live_held hinv hq) hq')

def liveBytes (s : HeapState) : Nat := (s.live.map fun p => 4 + payloadSize s.heap p).sum

theorem held_perm_live (hinv : HeapInv a total s bs) (hend : a + total < 2 ^ 32) :
    (held 4 a bs).Perm (s.live.map fun p => (p.toNat, payloadSize s.heap p)) := by
  have hheld : (held 4 a bs).Nodup := (held_starts_nodup a bs (by decide)).of_map
  have hlive : (s.live.map fun p => (p.toNat, payloadSize s.heap p)).Nodup := by
    apply hinv.nodup.map
    intro p q heq
    exact BitVec.eq_of_toNat_eq (congrArg Prod.fst heq)
  apply (List.perm_ext_iff_of_nodup hheld hlive).mpr
  intro x
  constructor
  · intro hx
    obtain ⟨p, hp, heq⟩ := held_live hinv hend hx
    have hx' : (p.toNat, x.2) ∈ held 4 a bs := heq ▸ hx
    refine List.mem_map.mpr ⟨p, hp, ?_⟩
    rw [payloadSize_eq hinv.represents hx', ← heq]
  · intro hx
    obtain ⟨p, hp, rfl⟩ := List.mem_map.mp hx
    exact live_held hinv hp

theorem heldBytes_live (hinv : HeapInv a total s bs) (hend : a + total < 2 ^ 32) :
    heldBytes 4 a bs = liveBytes s := by
  have hsum := ((held_perm_live hinv hend).map fun x => 4 + x.2).sum_eq
  rwa [List.map_map] at hsum

theorem encodes_aligned {m : Mem} {b : Block} (henc : Encodes m a bs) (hb : b ∈ bs) :
    b.size % 4 = 0 := by
  induction bs generalizing a with
  | nil => cases hb
  | cons c bs ih =>
      cases List.mem_cons.mp hb with
      | inl heq => exact heq ▸ henc.1.aligned
      | inr hrest => exact ih henc.2 hrest

/-- A heap that refuses a request is nearly full: free blocks too small for it lie between
live ones only. -/
theorem full_of_noRoom (hinv : HeapInv a total s bs) (hend : a + total < 2 ^ 32)
    (hn : n % 4 = 0) (hnone : firstFit 4 n a bs = none) :
    total ≤ liveBytes s + (s.live.length + 1) * n := by
  have hsmall : ∀ b ∈ bs, b.free = true → 4 + b.size ≤ n := by
    intro b hb hfree
    have hlt := firstFit_eq_none_iff.mp hnone b hb hfree
    have haligned := encodes_aligned hinv.represents.encodes hb
    omega
  have hspan := (span_le_of_separated (a := a) hinv.represents.separated hsmall).1
  have hlength := (held_perm_live hinv hend).length_eq
  rw [List.length_map] at hlength
  rwa [hinv.total, heldBytes_live hinv hend, hlength] at hspan

end Live

/-- Whatever was allocated and released before, a request is served while the live blocks and
one request's worth of space for each of them leave room for it. -/
theorem allocation_guaranteed (kmalloc : U32 → U32) (m : Mem) (sz : U32) (s : HeapState)
    (hregion : HeapRegion kmalloc sz)
    (hend : (kmalloc (roundup sz + 4)).toNat + ((roundup sz).toNat + 4) < 2 ^ 32)
    (hrun : HeapRun ⟨initializeHeap kmalloc m sz, []⟩ s) (size : U32)
    (hroom : liveBytes s + (s.live.length + 1) * (roundup size).toNat < (roundup sz).toNat + 4) :
    ∃ p h', allocateMemory s.heap size = .ok (p, h') ∧ p ≠ 0 := by
  obtain ⟨bs, hinv⟩ := heapInv_run hregion hrun
  obtain ⟨p, h', hcall⟩ := (heapInv_returns hinv).1 size
  refine ⟨p, h', hcall, ?_⟩
  cases allocateMemory_cases hinv.represents hcall with
  | inl hfull =>
      have hnoRoom := full_of_noRoom hinv hend (roundup_aligned size) hfull.1
      omega
  | inr hserved =>
      obtain ⟨q, rest, hfit, rfl, -⟩ := hserved
      exact heapInv_firstFit_ne_null hinv hend hfit

/-- Two live blocks and a hole between them leave room for a request of 16000 bytes. -/
theorem allocation_guaranteed_kernel_heap :
    ∃ s, HeapRun ⟨initializeHeap (fun _ => 0xD000000) ⟨fun _ => 0⟩ 50000, []⟩ s ∧
      s.live.length = 2 ∧
      liveBytes s + (s.live.length + 1) * (roundup 16000).toNat < (roundup 50000).toNat + 4 ∧
      ∃ p h', allocateMemory s.heap 16000 = .ok (p, h') ∧ p ≠ 0 := by
  obtain ⟨h, hrun, -, hlow, hhigh⟩ := fragmented_run
  have hfirst : payloadSize h 0xD000004 = 12 := congrArg BitVec.toNat hlow
  have hthird : payloadSize h 0xD00002C = 32 := congrArg BitVec.toNat hhigh
  have hroom : liveBytes ⟨h, [0xD00002C, 0xD000004]⟩ + 3 * (roundup 16000).toNat <
      (roundup 50000).toNat + 4 := by
    simp only [liveBytes, List.map_cons, List.map_nil, List.sum_cons, List.sum_nil, hfirst,
      hthird]
    decide
  exact ⟨_, hrun, rfl, hroom, allocation_guaranteed (fun _ => 0xD000000) ⟨fun _ => 0⟩ 50000 _
    ⟨by decide, by decide⟩ (by decide) hrun 16000 hroom⟩

end Mpx
