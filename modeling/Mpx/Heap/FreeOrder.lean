import Mpx.Heap.Runs

/-! Releasing many blocks: the order does not matter, and releasing all of them leaves
the one block that `initialize_heap` has built. -/

namespace Mpx

open Memory BlockList Run

def freeAll (h : Heap) : List U32 → Except Fault (List Int × Heap)
  | [] => .ok ([], h)
  | p :: ps => do
      let (r, h) ← freeMemory h p
      let (rs, h) ← freeAll h ps
      return (r :: rs, h)

theorem freeAll_spec {a total : Nat} {h : Heap} {live ps : List U32} {bs : List Block}
    (hinv : HeapInv a total ⟨h, live⟩ bs) (hnodup : ps.Nodup) (hlive : ∀ p ∈ ps, p ∈ live) :
    ∃ h' live' rest, freeAll h ps = .ok (List.replicate ps.length 0, h') ∧
      HeapInv a total ⟨h', live'⟩ rest ∧
      ∀ x, x ∈ held 4 a rest ↔ x ∈ held 4 a bs ∧ ∀ p ∈ ps, x.1 ≠ p.toNat := by
  induction ps generalizing h live bs with
  | nil => exact ⟨h, live, bs, rfl, hinv, by simp⟩
  | cons p ps ih =>
      rcases List.nodup_cons.mp hnodup with ⟨hnew, hrest⟩
      rcases (hinv.live_iff p).mp (hlive p List.mem_cons_self) with ⟨hp, n, hheld⟩
      rcases release_isSome hheld with ⟨bs₁, hrel⟩
      rcases freeMemory_some hinv.represents hp hrel with ⟨h₁, hrun₁, hrep₁, -⟩
      have hinv₁ := heapInv_free hinv hrel hrep₁
      have hlive₁ : ∀ q ∈ ps, q ∈ live.erase p := by
        intro q hq
        apply hinv.nodup.mem_erase_iff.mpr
        exact ⟨ne_of_mem_of_not_mem hq hnew, hlive q (List.mem_cons_of_mem _ hq)⟩
      rcases ih hinv₁ hrest hlive₁ with ⟨h', live', rest, hrun, hinv', hheld'⟩
      have hboth : freeAll h (p :: ps) = .ok (List.replicate (p :: ps).length 0, h') := by
        rw [freeAll, hrun₁]
        simp only [bind, Except.bind, hrun]
        rfl
      have hmem : ∀ x, x ∈ held 4 a rest ↔
          x ∈ held 4 a bs ∧ ∀ q ∈ p :: ps, x.1 ≠ q.toNat := by
        intro x
        calc x ∈ held 4 a rest
            ↔ x ∈ held 4 a bs₁ ∧ ∀ q ∈ ps, x.1 ≠ q.toNat := hheld' x
          _ ↔ (x ∈ held 4 a bs ∧ x.1 ≠ p.toNat) ∧ ∀ q ∈ ps, x.1 ≠ q.toNat := by
            rw [mem_held_release (by decide) hrel]
          _ ↔ x ∈ held 4 a bs ∧ ∀ q ∈ p :: ps, x.1 ≠ q.toNat := by
            rw [List.forall_mem_cons, and_assoc]
      exact ⟨h', live', rest, hboth, hinv', hmem⟩

theorem heapInv_ext {a total : Nat} {s t : HeapState} {bs cs : List Block}
    (hs : HeapInv a total s bs) (ht : HeapInv a total t cs)
    (hmem : ∀ x, x ∈ held 4 a bs ↔ x ∈ held 4 a cs) : bs = cs := by
  have hspan : span 4 bs = span 4 cs := hs.total.trans ht.total.symm
  apply separated_ext (by decide) hs.represents.separated ht.represents.separated hspan
  exact held_ext (by decide) hmem

theorem held_live {a total : Nat} {s : HeapState} {bs : List Block} {x : Nat × Nat}
    (hinv : HeapInv a total s bs) (hend : a + total < 2 ^ 32) (hheld : x ∈ held 4 a bs) :
    ∃ p ∈ s.live, x.1 = p.toNat := by
  have hbounds := held_bounds hheld
  have htotal := hinv.total
  have hsmall : (addr x.1).toNat = x.1 := addr_toNat (by omega)
  have hne : addr x.1 ≠ 0 := addr_ne_null (by omega) (by omega)
  have hmem : ((addr x.1).toNat, x.2) ∈ held 4 a bs := by
    rw [hsmall]
    exact hheld
  exact ⟨addr x.1, (hinv.live_iff _).mpr ⟨hne, x.2, hmem⟩, hsmall.symm⟩

/-- Distinct live blocks can be released in any order. Every call succeeds and the chain
afterwards is the same; when no block is left it is the chain of the new heap. -/
theorem free_order_irrelevant (kmalloc : U32 → U32) (m : Mem) (sz : U32) (s : HeapState)
    (hregion : HeapRegion kmalloc sz)
    (hend : (kmalloc (roundup sz + 4)).toNat + ((roundup sz).toNat + 4) < 2 ^ 32)
    (hrun : HeapRun ⟨initializeHeap kmalloc m sz, []⟩ s) (ps qs : List U32)
    (hnodup : ps.Nodup) (hlive : ∀ p ∈ ps, p ∈ s.live) (hperm : ps.Perm qs) :
    ∃ h h' bs, freeAll s.heap ps = .ok (List.replicate ps.length 0, h) ∧
      freeAll s.heap qs = .ok (List.replicate qs.length 0, h') ∧
      h.chain = .ok bs ∧ h'.chain = .ok bs ∧
      ((∀ p ∈ s.live, p ∈ ps) →
        bs = [⟨kmalloc (roundup sz + 4), roundup sz, true, true⟩] ∧
        (initializeHeap kmalloc m sz).chain = .ok bs) := by
  rcases heapInv_run hregion hrun with ⟨bs, hinv⟩
  have hinit := heapInv_init m hregion
  have hlive' : ∀ q ∈ qs, q ∈ s.live := fun q hq => hlive q (hperm.mem_iff.mpr hq)
  rcases freeAll_spec hinv hnodup hlive with ⟨h, live, rest, hrun₁, hinv₁, hheld₁⟩
  rcases freeAll_spec hinv (hperm.nodup_iff.mp hnodup) hlive' with
    ⟨h', live', rest', hrun₂, hinv₂, hheld₂⟩
  have hsame : rest' = rest := by
    apply heapInv_ext hinv₂ hinv₁
    intro x
    simp only [hheld₁ x, hheld₂ x, hperm.mem_iff]
  refine ⟨h, h', _, hrun₁, hrun₂, chain_spec hinv₁.represents, ?_, ?_⟩
  · rw [← hsame]
    exact chain_spec hinv₂.represents
  · intro hall
    have hone : rest = [⟨(roundup sz).toNat, true⟩] := by
      apply heapInv_ext hinv₁ hinit
      intro x
      rw [hheld₁ x]
      constructor
      · intro hx
        rcases held_live hinv hend hx.1 with ⟨p, hp, heq⟩
        exact absurd heq (hx.2 p (hall p hp))
      · intro hx
        simp [held] at hx
    have hview : view (kmalloc (roundup sz + 4)).toNat rest =
        [⟨kmalloc (roundup sz + 4), roundup sz, true, true⟩] := by
      rw [hone]
      simp [view, addr]
    constructor
    · exact hview
    · rw [hone]
      exact chain_spec hinit.represents

theorem free_order_irrelevant_two_blocks :
    ∃ s h h' bs, HeapRun ⟨initializeHeap (fun _ => 0xD000000) ⟨fun _ => 0⟩ 50000, []⟩ s ∧
      s.live = [0xD000014, 0xD000004] ∧
      freeAll s.heap [0xD000014, 0xD000004] = .ok ([0, 0], h) ∧
      freeAll s.heap [0xD000004, 0xD000014] = .ok ([0, 0], h') ∧
      h.chain = .ok bs ∧ h'.chain = .ok bs ∧ bs = [⟨0xD000000, 50000, true, true⟩] := by
  let start := initializeHeap (fun _ => 0xD000000) ⟨fun _ => 0⟩ 50000
  have hcompute : (do
      let (p, h) ← allocateMemory start 10
      let (q, h) ← allocateMemory h 20
      return ((p, q), h)).map Prod.fst = .ok (0xD000004, 0xD000014) := by decide +kernel
  rcases of_map_ok hcompute with ⟨⟨⟨p, q⟩, h₂⟩, hboth, heq⟩
  cases heq
  rcases of_bind_ok hboth with ⟨⟨p, h₁⟩, hfirst, hrest⟩
  rcases of_bind_ok hrest with ⟨⟨q, h₂⟩, hsecond, heq⟩
  cases heq
  have hrun : HeapRun ⟨start, []⟩ ⟨h₂, [0xD000014, 0xD000004]⟩ :=
    (Relation.ReflTransGen.single (HeapStep.allocate ⟨start, []⟩ 10 _ h₁ hfirst)).tail
      (HeapStep.allocate ⟨h₁, [0xD000004]⟩ 20 _ h₂ hsecond)
  rcases free_order_irrelevant (fun _ => 0xD000000) ⟨fun _ => 0⟩ 50000 _
    ⟨by decide, by decide⟩ (by decide) hrun [0xD000014, 0xD000004] [0xD000004, 0xD000014]
    (by decide) (fun p hp => hp) (List.Perm.swap _ _ _) with
    ⟨h, h', bs, hps, hqs, hchain, hchain', hall⟩
  exact ⟨_, h, h', bs, hrun, rfl, hps, hqs, hchain, hchain', (hall fun p hp => hp).1⟩

end Mpx
