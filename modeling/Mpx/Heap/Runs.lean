import Mpx.Base.Run
import Mpx.Heap.Refinement

/-! Runs of the heap: from `initialize_heap`, any calls of `allocate_memory` and
any calls of `free_memory` on pointers that are allocated at that moment. -/

namespace Mpx

open Memory BlockList

/-- A heap with the pointers that `allocate_memory` has returned and that have
not been freed since. -/
structure HeapState where
  heap : Heap
  live : List U32

inductive HeapStep : HeapState → HeapState → Prop
  | allocate (s : HeapState) (sz p : U32) (h : Heap)
      (hrun : allocateMemory s.heap sz = .ok (p, h)) :
      HeapStep s ⟨h, if p = 0 then s.live else p :: s.live⟩
  | free (s : HeapState) (p : U32) (r : Int) (h : Heap) (hlive : p ∈ s.live)
      (hrun : freeMemory s.heap p = .ok (r, h)) :
      HeapStep s ⟨h, s.live.erase p⟩

def HeapRun : HeapState → HeapState → Prop := Relation.ReflTransGen HeapStep

structure HeapRegion (kmalloc : U32 → U32) (sz : U32) : Prop where
  nonnull : kmalloc (roundup sz + 4) ≠ 0
  fits : (kmalloc (roundup sz + 4)).toNat + ((roundup sz).toNat + 4) ≤ 2 ^ 32

structure HeapInv (a total : Nat) (s : HeapState) (bs : List Block) : Prop where
  represents : s.heap.Represents a bs
  total : span 4 bs = total
  nodup : s.live.Nodup
  live_iff : ∀ p : U32, p ∈ s.live ↔ p ≠ 0 ∧ ∃ n, (p.toNat, n) ∈ held 4 a bs

theorem heapInv_init {kmalloc : U32 → U32} {sz : U32} (m : Mem)
    (hregion : HeapRegion kmalloc sz) :
    HeapInv (kmalloc (roundup sz + 4)).toNat ((roundup sz).toNat + 4)
      ⟨initializeHeap kmalloc m sz, []⟩ [⟨(roundup sz).toNat, true⟩] where
  represents := initializeHeap_spec kmalloc m sz hregion.nonnull hregion.fits
  total := by simp [span, Nat.add_comm]
  nodup := List.nodup_nil
  live_iff := by simp [held]

theorem heapInv_allocate {a total p : Nat} {s : HeapState} {bs rest : List Block}
    {h : Heap} {n : Nat} (hinv : HeapInv a total s bs)
    (hfit : firstFit 4 n a bs = some (p, rest)) (hrep : h.Represents a rest) :
    HeapInv a total ⟨h, if addr p = 0 then s.live else addr p :: s.live⟩ rest := by
  obtain ⟨size, -, hperm⟩ := held_firstFit hfit
  have hspan := span_firstFit hfit
  have hend := encodes_span hrep.encodes hrep.nonempty
  have hbounds := held_bounds (hperm.mem_iff.mpr List.mem_cons_self)
  have hsmall (hp : addr p ≠ 0) : (addr p).toNat = p :=
    addr_toNat_of_ne (by omega) (by omega) hp
  refine ⟨hrep, hspan.trans hinv.total, ?_, ?_⟩
  · by_cases hp : addr p = 0
    · simpa only [if_pos hp] using hinv.nodup
    · simp only [if_neg hp]
      refine List.nodup_cons.mpr ⟨?_, hinv.nodup⟩
      intro hmem
      obtain ⟨-, k, hk⟩ := (hinv.live_iff (addr p)).mp hmem
      rw [hsmall hp] at hk
      have hnodup := (hperm.map Prod.fst).nodup_iff.mp (held_starts_nodup a rest (by decide))
      exact (List.nodup_cons.mp hnodup).1 (List.mem_map.mpr ⟨(p, k), hk, rfl⟩)
  · intro q
    have hnew : (q ≠ 0 ∧ ∃ k, (q.toNat, k) ∈ held 4 a rest) ↔
        (q ≠ 0 ∧ q.toNat = p) ∨ (q ≠ 0 ∧ ∃ k, (q.toNat, k) ∈ held 4 a bs) := by
      simp only [hperm.mem_iff, List.mem_cons, Prod.mk.injEq]
      constructor
      · rintro ⟨hq, k, ⟨heq, -⟩ | hold⟩
        · exact Or.inl ⟨hq, heq⟩
        · exact Or.inr ⟨hq, k, hold⟩
      · rintro (⟨hq, heq⟩ | ⟨hq, k, hold⟩)
        · exact ⟨hq, size, Or.inl ⟨heq, rfl⟩⟩
        · exact ⟨hq, k, Or.inr hold⟩
    have hptr : (q ≠ 0 ∧ q.toNat = p) ↔ (addr p ≠ 0 ∧ q = addr p) := by
      constructor
      · rintro ⟨hq, rfl⟩
        have heq : q = addr q.toNat := by simp [addr]
        exact ⟨heq ▸ hq, heq⟩
      · rintro ⟨hp, rfl⟩
        exact ⟨hp, hsmall hp⟩
    rw [hnew, hptr, ← hinv.live_iff q]
    by_cases hp : addr p = 0
    · simp only [hp, if_true, ne_eq, not_true_eq_false, false_and, false_or]
    · simp only [hp, if_false, List.mem_cons, ne_eq, not_false_eq_true, true_and]

/-- Below the end of the address space the pointer of a new block is not NULL. -/
theorem heapInv_firstFit_ne_null {a total p n : Nat} {s : HeapState} {bs rest : List Block}
    (hinv : HeapInv a total s bs) (hend : a + total < 2 ^ 32)
    (hfit : firstFit 4 n a bs = some (p, rest)) : addr p ≠ 0 := by
  obtain ⟨size, -, hperm⟩ := held_firstFit hfit
  have hbounds := held_bounds (hperm.mem_iff.mpr List.mem_cons_self)
  rw [span_firstFit hfit, hinv.total] at hbounds
  exact addr_ne_null (by omega) (by omega)

theorem heapInv_free {a total : Nat} {s : HeapState} {bs rest : List Block} {h : Heap}
    {ptr : U32} (hinv : HeapInv a total s bs)
    (hrel : release 4 ptr.toNat a bs = some rest) (hrep : h.Represents a rest) :
    HeapInv a total ⟨h, s.live.erase ptr⟩ rest := by
  obtain ⟨size, hperm⟩ := held_release hrel
  refine ⟨hrep, (span_release hrel).trans hinv.total, hinv.nodup.erase ptr, ?_⟩
  intro q
  have hnodup := (hperm.map Prod.fst).nodup_iff.mp (held_starts_nodup a bs (by decide))
  have hgone := (List.nodup_cons.mp hnodup).1
  rw [hinv.nodup.mem_erase_iff, hinv.live_iff q]
  simp only [hperm.mem_iff, List.mem_cons, Prod.mk.injEq]
  constructor
  · rintro ⟨hne, hq, k, ⟨heq, -⟩ | hold⟩
    · exact absurd (BitVec.eq_of_toNat_eq heq) hne
    · exact ⟨hq, k, hold⟩
  · rintro ⟨hq, k, hold⟩
    refine ⟨?_, hq, k, Or.inr hold⟩
    rintro rfl
    exact hgone (List.mem_map.mpr ⟨(q.toNat, k), hold, rfl⟩)

/-- One step: the invariant for the new blocks, the words that may have changed,
and the blocks that stay as they were. -/
theorem heapStep_spec {a total : Nat} {s t : HeapState} {bs : List Block}
    (hinv : HeapInv a total s bs) (hstep : HeapStep s t) :
    ∃ rest, HeapInv a total t rest ∧
      SameOutside s.heap.mem t.heap.mem (headers a bs ++ headers a rest) ∧
      ∀ (p : U32) (n : Nat), (p.toNat, n) ∈ held 4 a bs → p ∈ t.live →
        (p.toNat, n) ∈ held 4 a rest := by
  cases hstep with
  | allocate sz p h hrun =>
      rcases allocateMemory_cases hinv.represents hrun with
        ⟨-, hp, hh⟩ | ⟨q, rest, hfit, hp, hrep, hsame⟩
      · rw [hp, hh]
        exact ⟨bs, by simpa using hinv, fun x _ => rfl, fun p n hheld _ => hheld⟩
      · rw [hp]
        obtain ⟨size, -, hperm⟩ := held_firstFit hfit
        refine ⟨rest, heapInv_allocate hinv hfit hrep, hsame.mono (by simp), ?_⟩
        intro q n hheld _
        exact hperm.mem_iff.mpr (List.mem_cons_of_mem _ hheld)
  | free p r h hlive hrun =>
      obtain ⟨hp, n, hheld⟩ := (hinv.live_iff p).mp hlive
      obtain ⟨rest, hrel⟩ := release_isSome hheld
      obtain ⟨h', hrun', hrep, hsame⟩ := freeMemory_some hinv.represents hp hrel
      rw [hrun'] at hrun
      cases hrun
      obtain ⟨size, hperm⟩ := held_release hrel
      refine ⟨rest, heapInv_free hinv hrel hrep, hsame.mono (by simp), ?_⟩
      intro q k hold hq
      rcases List.mem_cons.mp (hperm.mem_iff.mp hold) with heq | hrest
      · have hqp : q = p := BitVec.eq_of_toNat_eq (congrArg Prod.fst heq)
        exact absurd hqp (hinv.nodup.mem_erase_iff.mp hq).1
      · exact hrest

theorem heapInv_run {kmalloc : U32 → U32} {sz : U32} {m : Mem} {s : HeapState}
    (hregion : HeapRegion kmalloc sz)
    (hrun : HeapRun ⟨initializeHeap kmalloc m sz, []⟩ s) :
    ∃ bs, HeapInv (kmalloc (roundup sz + 4)).toNat ((roundup sz).toNat + 4) s bs := by
  refine Run.invariant (fun t => ∃ bs, HeapInv _ _ t bs) ?_ hrun ⟨_, heapInv_init m hregion⟩
  rintro s t ⟨bs, hinv⟩ hstep
  obtain ⟨rest, hinv', -⟩ := heapStep_spec hinv hstep
  exact ⟨rest, hinv'⟩

/-- In a state that a run reaches, every further call returns. -/
theorem heapInv_returns {a total : Nat} {s : HeapState} {bs : List Block}
    (hinv : HeapInv a total s bs) :
    (∀ sz, ∃ p h, allocateMemory s.heap sz = .ok (p, h)) ∧
      ∀ p ∈ s.live, ∃ h, freeMemory s.heap p = .ok (0, h) := by
  constructor
  · intro sz
    cases hfit : firstFit 4 (roundup sz).toNat a bs with
    | none => exact ⟨0, s.heap, allocateMemory_none hinv.represents hfit⟩
    | some r =>
        obtain ⟨h, hrun, -, -⟩ := allocateMemory_some hinv.represents hfit
        exact ⟨addr r.1, h, hrun⟩
  · intro p hlive
    obtain ⟨hp, n, hheld⟩ := (hinv.live_iff p).mp hlive
    obtain ⟨rest, hrel⟩ := release_isSome hheld
    obtain ⟨h, hrun, -, -⟩ := freeMemory_some hinv.represents hp hrel
    exact ⟨h, hrun⟩

structure TilesRegion (region total : Nat) (bs : List Mcb) : Prop where
  first : bs.head?.map (fun b => b.addr.toNat) = some region
  contiguous : bs.IsChain fun b c => c.addr.toNat = b.addr.toNat + 4 + b.size.toNat
  total : (bs.map fun b => 4 + b.size.toNat).sum = total
  aligned : ∀ b ∈ bs, b.size.toNat % 4 = 0
  lastEnd : ∀ b ∈ bs.getLast?, b.isEnd = true
  onlyLastEnd : ∀ b ∈ bs.dropLast, b.isEnd = false
  separated : bs.IsChain fun b c => ¬ (b.isFree = true ∧ c.isFree = true)

theorem view_tiles {m : Mem} {a : Nat} {bs : List Block} (hne : bs ≠ [])
    (henc : Encodes m a bs) (hsep : Separated bs) :
    TilesRegion a (span 4 bs) (view a bs) := by
  induction bs generalizing a with
  | nil => exact absurd rfl hne
  | cons b bs ih =>
      have hb := henc.1
      have hfits := hb.fits
      have hsize : (BitVec.ofNat 32 b.size).toNat = b.size := addr_toNat (by omega)
      have hhead := hb.addr_toNat
      cases bs with
      | nil =>
          have hal := hb.aligned
          constructor <;> simp_all [view, span]
      | cons c cs =>
          have hc := henc.2.1
          have hsep' := separated_cons.mp hsep
          have htail := ih (by simp) henc.2 hsep'.2
          have hnext := hc.addr_toNat
          refine ⟨by simp [view, hhead], ?_, ?_, ?_, ?_, ?_, ?_⟩
          · refine List.isChain_cons.mpr ⟨?_, htail.contiguous⟩
            intro d hd
            cases hd
            simp only [hhead, hsize, hnext]
          · have := htail.total
            simp only [view, List.map_cons, List.sum_cons, span, hsize] at this ⊢
            omega
          · intro d hd
            rcases List.mem_cons.mp hd with rfl | hd
            · simp only [hsize]
              exact hb.aligned
            · exact htail.aligned d hd
          · intro d hd
            exact htail.lastEnd d (by simpa [view] using hd)
          · intro d hd
            have hd' : d = ⟨addr a, BitVec.ofNat 32 b.size, b.free, false⟩ ∨
                d ∈ (view (a + 4 + b.size) (c :: cs)).dropLast := by
              simpa [view] using hd
            rcases hd' with rfl | hd'
            · rfl
            · exact htail.onlyLastEnd d hd'
          · refine List.isChain_cons.mpr ⟨?_, htail.separated⟩
            intro d hd
            cases hd
            exact hsep'.1 c rfl

theorem HeapInv.tiles {a total : Nat} {s : HeapState} {bs : List Block}
    (hinv : HeapInv a total s bs) : TilesRegion a total (view a bs) := by
  rw [← hinv.total]
  exact view_tiles hinv.represents.nonempty hinv.represents.encodes
    hinv.represents.separated

/-- The chain of every reachable heap is finite and tiles its region. -/
theorem heap_chain_tiles (kmalloc : U32 → U32) (m : Mem) (sz : U32) (s : HeapState)
    (hregion : HeapRegion kmalloc sz)
    (hrun : HeapRun ⟨initializeHeap kmalloc m sz, []⟩ s) :
    ∃ bs, s.heap.chain = .ok bs ∧
      TilesRegion (kmalloc (roundup sz + 4)).toNat ((roundup sz).toNat + 4) bs := by
  obtain ⟨bs, hinv⟩ := heapInv_run hregion hrun
  exact ⟨_, chain_spec hinv.represents, hinv.tiles⟩

theorem fragmented_run :
    ∃ h, HeapRun ⟨initializeHeap (fun _ => 0xD000000) ⟨fun _ => 0⟩ 50000, []⟩
        ⟨h, [0xD00002C, 0xD000004]⟩ ∧
      h.chain = .ok [⟨0xD000000, 12, false, false⟩, ⟨0xD000010, 20, true, false⟩,
        ⟨0xD000028, 32, false, false⟩, ⟨0xD00004C, 49924, true, true⟩] ∧
      mcbSize h.mem 0xD000000 = 12 ∧ mcbSize h.mem 0xD000028 = 32 := by
  let start := initializeHeap (fun _ => 0xD000000) ⟨fun _ => 0⟩ 50000
  have hcompute : (do
      let (p, h) ← allocateMemory start 10
      let (q, h) ← allocateMemory h 20
      let (r, h) ← allocateMemory h 30
      let (_, h) ← freeMemory h q
      let bs ← h.chain
      return (([p, q, r], [mcbSize h.mem 0xD000000, mcbSize h.mem 0xD000028], bs), h)).map
        Prod.fst = .ok ([0xD000004, 0xD000014, 0xD00002C], [12, 32],
          [⟨0xD000000, 12, false, false⟩, ⟨0xD000010, 20, true, false⟩,
            ⟨0xD000028, 32, false, false⟩, ⟨0xD00004C, 49924, true, true⟩]) := by
    decide +kernel
  obtain ⟨⟨found, h₄⟩, hall, heq⟩ := Run.of_map_ok hcompute
  obtain ⟨⟨p, h₁⟩, hfirst, hall⟩ := Run.of_bind_ok hall
  obtain ⟨⟨q, h₂⟩, hsecond, hall⟩ := Run.of_bind_ok hall
  obtain ⟨⟨r, h₃⟩, hthird, hall⟩ := Run.of_bind_ok hall
  obtain ⟨⟨result, h₄⟩, hfree, hall⟩ := Run.of_bind_ok hall
  obtain ⟨bs, hchain, hsame⟩ := Run.of_bind_ok hall
  cases hsame
  simp only [Prod.mk.injEq, List.cons.injEq, and_true] at heq
  obtain ⟨⟨rfl, rfl, rfl⟩, ⟨hlow, hhigh⟩, rfl⟩ := heq
  refine ⟨h₄, ?_, hchain, hlow, hhigh⟩
  have hallocated : HeapRun ⟨start, []⟩ ⟨h₃, [0xD00002C, 0xD000014, 0xD000004]⟩ :=
    ((Relation.ReflTransGen.single (HeapStep.allocate ⟨start, []⟩ 10 _ h₁ hfirst)).tail
      (HeapStep.allocate ⟨h₁, [0xD000004]⟩ 20 _ h₂ hsecond)).tail
      (HeapStep.allocate ⟨h₂, [0xD000014, 0xD000004]⟩ 30 _ h₃ hthird)
  exact hallocated.tail (HeapStep.free _ 0xD000014 result h₄
    (List.mem_cons_of_mem _ List.mem_cons_self) hfree)

theorem heap_chain_tiles_kernel_heap :
    ∃ s, HeapRun ⟨initializeHeap (fun _ => 0xD000000) ⟨fun _ => 0⟩ 50000, []⟩ s ∧
      s.live = [0xD00002C, 0xD000004] ∧
      TilesRegion 0xD000000 50004 [⟨0xD000000, 12, false, false⟩, ⟨0xD000010, 20, true, false⟩,
        ⟨0xD000028, 32, false, false⟩, ⟨0xD00004C, 49924, true, true⟩] := by
  obtain ⟨h, hrun, hchain, -⟩ := fragmented_run
  obtain ⟨bs, hchain', htiles⟩ := heap_chain_tiles (fun _ => 0xD000000) ⟨fun _ => 0⟩ 50000 _
    ⟨by decide, by decide⟩ hrun
  have heq := Except.ok.inj (hchain.symm.trans hchain')
  exact ⟨_, hrun, rfl, heq ▸ htiles⟩

def payloadSize (h : Heap) (p : U32) : Nat := (mcbSize h.mem (p - 4)).toNat

structure PayloadsIsolated (region total : Nat) (s : HeapState) (bs : List Mcb) : Prop where
  distinct : s.live.Nodup
  allocated : ∀ p, p ∈ s.live ↔ p ≠ 0 ∧ ∃ b ∈ bs, b.isFree = false ∧ mcbStart b.addr = p
  disjoint : ∀ p ∈ s.live, ∀ q ∈ s.live, p ≠ q →
    p.toNat + payloadSize s.heap p ≤ q.toNat ∨ q.toNat + payloadSize s.heap q ≤ p.toNat
  inside : ∀ p ∈ s.live,
    region + 4 ≤ p.toNat ∧ p.toNat + payloadSize s.heap p ≤ region + total
  headerless : ∀ p ∈ s.live, ∀ b ∈ bs,
    b.addr.toNat + 4 ≤ p.toNat ∨ p.toNat + payloadSize s.heap p ≤ b.addr.toNat

theorem payloadSize_eq {h : Heap} {a n : Nat} {bs : List Block} {p : U32}
    (hrep : h.Represents a bs) (hheld : (p.toNat, n) ∈ held 4 a bs) : payloadSize h p = n := by
  obtain ⟨h, heq, hlay⟩ := held_mem_layout hheld
  obtain ⟨last, hheader⟩ := encodes_header hrep.encodes hlay
  have haddr := hheader.addr_toNat
  have hp : p - 4 = addr h := by
    apply BitVec.eq_of_toNat_eq
    have hfour : (4 : U32).toNat = 4 := rfl
    rw [BitVec.toNat_sub, heq, hfour, haddr]
    omega
  rw [payloadSize, hp, hheader.size]

theorem live_held {a total : Nat} {s : HeapState} {bs : List Block} {p : U32}
    (hinv : HeapInv a total s bs) (hlive : p ∈ s.live) :
    (p.toNat, payloadSize s.heap p) ∈ held 4 a bs := by
  obtain ⟨-, n, hheld⟩ := (hinv.live_iff p).mp hlive
  rwa [payloadSize_eq hinv.represents hheld]

theorem view_held_iff {h : Heap} {a : Nat} {bs : List Block} {ptr : U32}
    (hrep : h.Represents a bs) :
    (∃ c ∈ view a bs, c.isFree = false ∧ mcbStart c.addr = ptr) ↔
      ∃ n, (payloadAt ptr, n) ∈ held 4 a bs := by
  have hstart : ∀ {d : Nat} {b : Block}, (d, b) ∈ layout 4 a bs →
      (mcbStart (addr d) = ptr ↔ d + 4 = payloadAt ptr) := by
    intro d b hlay
    rcases encodes_header hrep.encodes hlay with ⟨last, hheader⟩
    have hfits := hheader.fits
    rw [mcbStart_addr]
    exact addr_eq_iff (by omega) (by omega)
  constructor
  · intro hptr
    rcases hptr with ⟨c, hc, hfree, hc'⟩
    rcases mem_view hc with ⟨d, b, hlay, haddr, -, hkind⟩
    rw [haddr, hstart hlay] at hc'
    have hheld := layout_mem_held hlay (hkind ▸ hfree)
    rw [hc'] at hheld
    exact ⟨b.size, hheld⟩
  · intro hheld
    rcases hheld with ⟨n, hheld⟩
    rcases held_mem_layout hheld with ⟨d, hd, hlay⟩
    rcases layout_view hlay with ⟨c, hc, haddr, hfree⟩
    have hc' : mcbStart c.addr = ptr := by
      rw [haddr]
      exact (hstart hlay).mpr hd.symm
    exact ⟨c, hc, hfree, hc'⟩

theorem payloads_isolated {a total : Nat} {s : HeapState} {bs : List Block}
    (hinv : HeapInv a total s bs) : PayloadsIsolated a total s (view a bs) := by
  have henc := hinv.represents.encodes
  refine ⟨hinv.nodup, ?_, ?_, ?_, ?_⟩
  · intro p
    rw [hinv.live_iff p]
    apply and_congr_right
    intro hp
    rw [view_held_iff hinv.represents, payloadAt_of_ne hp]
  · intro p hp q hq hne
    have hpair : (p.toNat, payloadSize s.heap p) ≠ (q.toNat, payloadSize s.heap q) :=
      fun heq => hne (BitVec.eq_of_toNat_eq (congrArg Prod.fst heq))
    have := held_apart (live_held hinv hp) (live_held hinv hq) hpair
    simp only at this
    omega
  · intro p hp
    have hbounds := held_bounds (live_held hinv hp)
    rwa [hinv.total] at hbounds
  · intro p hp b hb
    obtain ⟨h, c, hlay, haddr, -, -⟩ := mem_view hb
    obtain ⟨last, hheader⟩ := encodes_header henc hlay
    rw [haddr, hheader.addr_toNat]
    exact held_avoids_headers (live_held hinv hp) hlay

theorem payload_avoids_headers {a p n h : Nat} {bs : List Block} (hheld : (p, n) ∈ held 4 a bs)
    (hmem : h ∈ headers a bs) : h + 4 ≤ p ∨ p + n ≤ h := by
  obtain ⟨⟨h', b⟩, hlay, rfl⟩ := List.mem_map.mp hmem
  exact held_avoids_headers hheld hlay

theorem heapStep_payload {a total : Nat} {s t : HeapState} {bs : List Block} {p x : U32}
    (hinv : HeapInv a total s bs) (hstep : HeapStep s t) (hbefore : p ∈ s.live)
    (hafter : p ∈ t.live) (hlow : p.toNat ≤ x.toNat)
    (hhigh : x.toNat < p.toNat + payloadSize s.heap p) :
    t.heap.mem.byte x = s.heap.mem.byte x := by
  obtain ⟨rest, hinv', hsame, hkeep⟩ := heapStep_spec hinv hstep
  have hheld := live_held hinv hbefore
  have hheld' := hkeep p _ hheld hafter
  apply hsame x
  intro h hmem
  have havoid : h + 4 ≤ p.toNat ∨ p.toNat + payloadSize s.heap p ≤ h := by
    rcases List.mem_append.mp hmem with hold | hnew
    · exact payload_avoids_headers hheld hold
    · exact payload_avoids_headers hheld' hnew
  omega

/-- Live payloads are apart from each other and from every header, and no call
writes into one that stays live. -/
theorem live_blocks_isolated (kmalloc : U32 → U32) (m : Mem) (sz : U32) (s : HeapState)
    (hregion : HeapRegion kmalloc sz)
    (hrun : HeapRun ⟨initializeHeap kmalloc m sz, []⟩ s) :
    ∃ bs, s.heap.chain = .ok bs ∧
      PayloadsIsolated (kmalloc (roundup sz + 4)).toNat ((roundup sz).toNat + 4) s bs ∧
      ∀ t, HeapStep s t → ∀ p ∈ s.live, p ∈ t.live → ∀ x : U32, p.toNat ≤ x.toNat →
        x.toNat < p.toNat + payloadSize s.heap p →
        t.heap.mem.byte x = s.heap.mem.byte x := by
  obtain ⟨bs, hinv⟩ := heapInv_run hregion hrun
  refine ⟨_, chain_spec hinv.represents, payloads_isolated hinv, ?_⟩
  intro t hstep p hbefore hafter x hlow hhigh
  exact heapStep_payload hinv hstep hbefore hafter hlow hhigh

theorem live_blocks_isolated_kernel_heap :
    ∃ s bs, HeapRun ⟨initializeHeap (fun _ => 0xD000000) ⟨fun _ => 0⟩ 50000, []⟩ s ∧
      s.live = [0xD00002C, 0xD000004] ∧ s.heap.chain = .ok bs ∧
      PayloadsIsolated 0xD000000 50004 s bs ∧
      ∀ t, HeapStep s t → ∀ p ∈ s.live, p ∈ t.live → ∀ x : U32, p.toNat ≤ x.toNat →
        x.toNat < p.toNat + payloadSize s.heap p →
        t.heap.mem.byte x = s.heap.mem.byte x := by
  obtain ⟨h, hrun, -⟩ := fragmented_run
  obtain ⟨bs, hchain, hisolated, hkept⟩ := live_blocks_isolated (fun _ => 0xD000000)
    ⟨fun _ => 0⟩ 50000 _ ⟨by decide, by decide⟩ hrun
  exact ⟨_, bs, hrun, rfl, hchain, hisolated, hkept⟩

end Mpx
