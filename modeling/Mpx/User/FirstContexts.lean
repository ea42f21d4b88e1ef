import Mpx.User.LoadR3

/-! The contexts with which the processes of `load_r3` begin, and the words in them that an
earlier use of the memory has left. -/

namespace Mpx

open Memory PointerList Procs Run CString

def pcbBlocks : Nat → Heap → List U32
  | 0, _ => []
  | n + 1, h =>
      match allocateMemory h pcbSize with
      | .ok (p, h) => p :: pcbBlocks n h
      | .error _ => []

def cleanContext (eip p : U32) : Context := firstContext clearedContext p (firstStackTop p) eip

structure RegistersZero (c : Context) : Prop where
  eax : c.eax = 0
  ebx : c.ebx = 0
  ecx : c.ecx = 0
  edx : c.edx = 0
  esi : c.esi = 0
  edi : c.edi = 0

section Built

variable {eip p q : U32} {old : Context}

theorem builtContext_cleared : builtContext true eip p old = cleanContext eip p := rfl

/-- The call of `memset` for four bytes leaves the general registers as they were. -/
theorem builtContext_clean_iff :
    builtContext false eip p old = cleanContext eip p ↔ RegistersZero old := by
  constructor
  · intro hclean
    simp only [builtContext, cleanContext, firstContext, clearedContext, Context.mk.injEq,
      Bool.false_eq_true, if_false, true_and, and_true] at hclean
    rcases hclean with ⟨heax, hebx, hecx, hedx, hesi, hedi⟩
    exact ⟨heax, hebx, hecx, hedx, hesi, hedi⟩
  · intro hzero
    simp only [builtContext, cleanContext, firstContext, clearedContext, Bool.false_eq_true,
      if_false, hzero.eax, hzero.ebx, hzero.ecx, hzero.edx, hzero.esi, hzero.edi]

theorem firstStackTop_ne (hpq : p ≠ q) : firstStackTop p ≠ firstStackTop q := by
  intro heq
  apply hpq
  unfold firstStackTop at heq
  bv_omega

end Built

theorem forall₂_of_mem {α β : Type} {R S : α → β → Prop} {xs : List α} {ys : List β}
    (h : List.Forall₂ R xs ys) (hS : ∀ x, ∀ y ∈ ys, R x y → S x y) : List.Forall₂ S xs ys := by
  induction h with
  | nil => exact List.Forall₂.nil
  | cons hxy _ ih =>
      apply List.Forall₂.cons
      · exact hS _ _ List.mem_cons_self hxy
      · exact ih fun x y hy => hS x y (List.mem_cons_of_mem _ hy)

section Blocks

variable {h h' : Heap} {live live' : List U32} {n : Nat}

theorem pcbBlocks_congr (hown : OwnsBlocks h live) (hown' : OwnsBlocks h' live')
    (hchain : h.chain = h'.chain) : pcbBlocks n h = pcbBlocks n h' := by
  induction n generalizing h h' live live' with
  | zero => rfl
  | succ n ih =>
      rcases allocateMemory_total hown pcbSize with ⟨p, k, hcall⟩
      rcases allocateMemory_total hown' pcbSize with ⟨p', k', hcall'⟩
      have hcongr : p = p' ∧ k.chain = k'.chain := by
        rcases hown with ⟨a, total, bs, hinv⟩
        rcases hown' with ⟨a', total', bs', hinv'⟩
        exact allocateMemory_congr hinv.represents hinv'.represents hchain hcall hcall'
      rcases hcongr with ⟨hp, hnext⟩
      have hrest := ih (allocateMemory_owns hown hcall) (allocateMemory_owns hown' hcall') hnext
      rw [pcbBlocks, pcbBlocks, hcall, hcall']
      simp only
      rw [hp, hrest]

end Blocks

section Rounds

variable {C : Console Heap} {proc : Nat → U32} {K K₁ K' : Kernel Heap} {live : List U32}
  {is : List Nat} {pcbs : List U32} {i : Nat} {p : U32}

/-- What the rounds `is` leave: the PCBs are the next blocks, and at their stack tops are the
contexts that the rounds have built. -/
structure Built (proc : Nat → U32) (K K' : Kernel Heap) (live : List U32) (is : List Nat)
    (pcbs : List U32) : Prop where
  blocks : pcbs = pcbBlocks is.length K.device.heap
  fresh : ∀ p ∈ pcbs, p ∉ live
  contexts : List.Forall₂ (fun i p => K'.contexts (firstStackTop p) =
    builtContext (i = 1) (proc i) p (K.contexts (firstStackTop p))) is pcbs
  others : ∀ q, q ∉ pcbs → K'.contexts (firstStackTop q) = K.contexts (firstStackTop q)

/-- By induction on the rounds: a later one builds its context at another stack top. -/
theorem loadProcesses_built (h : Orderly K live)
    (hrun : loadProcesses studentHeap C proc is K = .ok (pcbs, K')) :
    Built proc K K' live is pcbs := by
  induction is generalizing K live pcbs with
  | nil =>
      cases hrun
      exact ⟨rfl, fun p hp => absurd hp List.not_mem_nil, List.Forall₂.nil, fun _ _ => rfl⟩
  | cons i is ih =>
      rcases of_bind_ok hrun with ⟨⟨p, K₁⟩, hfirst, hrest⟩
      rcases of_bind_ok hrest with ⟨⟨ps, K₂⟩, hloads, heq⟩
      cases heq
      have hstart := startProcess_started h hfirst
      have hbuilt := ih (hstart.orderly h) hloads
      have hcontexts := hstart.contexts
      have hp : p ∉ ps := fun hmem => hbuilt.fresh p hmem List.mem_cons_self
      have hself : K'.contexts (firstStackTop p) =
          builtContext (i = 1) (proc i) p (K.contexts (firstStackTop p)) := by
        calc K'.contexts (firstStackTop p) = K₁.contexts (firstStackTop p) := hbuilt.others p hp
          _ = builtContext (i = 1) (proc i) p (K.contexts (firstStackTop p)) := by
              rw [hcontexts, Function.update_self]
      have hother : ∀ q, q ≠ p → K₁.contexts (firstStackTop q) = K.contexts (firstStackTop q) := by
        intro q hq
        rw [hcontexts, Function.update_of_ne (firstStackTop_ne hq)]
      constructor
      · rw [List.length_cons, pcbBlocks, hstart.alloc, hbuilt.blocks]
      · intro q hq
        rcases List.mem_cons.mp hq with heq | hmem
        · rw [heq]
          exact (allocateMemory_fresh h hstart.alloc hstart.null).1
        · exact fun hin => hbuilt.fresh q hmem (List.mem_cons_of_mem _ hin)
      · rw [List.forall₂_cons]
        refine ⟨hself, ?_⟩
        apply forall₂_of_mem hbuilt.contexts
        intro j q hq hbuiltq
        rw [hbuiltq, hother q (ne_of_mem_of_not_mem hq hp)]
      · intro q hq
        rcases not_or.mp (mt List.mem_cons.mpr hq) with ⟨hqp, hqs⟩
        calc K'.contexts (firstStackTop q) = K₁.contexts (firstStackTop q) := hbuilt.others q hqs
          _ = K.contexts (firstStackTop q) := hother q hqp

end Rounds

/-- Both runs of `load_r3` have the PCBs `pcbs`, and give their processes the same contexts,
with zero in the general registers. -/
structure SameStart (proc : Nat → U32) (K₁ K₂ : Kernel Heap) (pcbs₁ pcbs₂ : List U32) : Prop where
  pcbs : pcbs₁ = pcbs₂
  contexts : List.Forall₂ (fun i p => K₁.contexts (firstStackTop p) =
    K₂.contexts (firstStackTop p) ∧ K₁.contexts (firstStackTop p) = cleanContext (proc i) p)
    [1, 2, 3, 4, 5] pcbs₁

def LeftoverZero (K : Kernel Heap) : Prop :=
  ∀ p ∈ (pcbBlocks 5 K.device.heap).tail, RegistersZero (K.contexts (firstStackTop p))

section Runs

variable {C : Console Heap} {proc : Nat → U32} {K₁ K₂ K₁' K₂' : Kernel Heap}
  {live₁ live₂ pcbs pcbs₁ pcbs₂ : List U32} {is : List Nat}

theorem contexts_clean_iff (his : 1 ∉ is)
    (h₁ : List.Forall₂ (fun i p => K₁'.contexts (firstStackTop p) =
      builtContext (i = 1) (proc i) p (K₁.contexts (firstStackTop p))) is pcbs)
    (h₂ : List.Forall₂ (fun i p => K₂'.contexts (firstStackTop p) =
      builtContext (i = 1) (proc i) p (K₂.contexts (firstStackTop p))) is pcbs) :
    List.Forall₂ (fun i p => K₁'.contexts (firstStackTop p) = K₂'.contexts (firstStackTop p) ∧
        K₁'.contexts (firstStackTop p) = cleanContext (proc i) p) is pcbs ↔
      ∀ p ∈ pcbs, RegistersZero (K₁.contexts (firstStackTop p)) ∧
        RegistersZero (K₂.contexts (firstStackTop p)) := by
  induction h₁ with
  | nil => simp
  | @cons i p is ps hfirst _ ih =>
      rcases List.forall₂_cons.mp h₂ with ⟨hsecond, hrest⟩
      have hi : i ≠ 1 := fun heq => his (heq ▸ List.mem_cons_self)
      have htail := ih (fun hmem => his (List.mem_cons_of_mem _ hmem)) hrest
      rw [decide_eq_false hi] at hfirst hsecond
      rw [List.forall₂_cons, List.forall_mem_cons, htail]
      apply and_congr_left
      intro _
      rw [← @builtContext_clean_iff (proc i) p, ← hfirst,
        ← @builtContext_clean_iff (proc i) p, ← hsecond]
      constructor
      · exact fun h => ⟨h.2, h.1 ▸ h.2⟩
      · exact fun h => ⟨h.1.trans h.2.symm, h.1⟩

theorem leftoverZero_iff {rest : List U32}
    (hblocks : pcbBlocks 5 K₁.device.heap = pcbBlocks 5 K₂.device.heap)
    (htail : (pcbBlocks 5 K₁.device.heap).tail = rest) :
    LeftoverZero K₁ ∧ LeftoverZero K₂ ↔
      ∀ p ∈ rest, RegistersZero (K₁.contexts (firstStackTop p)) ∧
        RegistersZero (K₂.contexts (firstStackTop p)) := by
  rw [LeftoverZero, LeftoverZero, ← hblocks, htail]
  exact forall₂_and.symm

/-- Two runs on heaps with the same chain start the processes alike and clean exactly when
the memory is zero where nothing clears it. -/
theorem first_contexts_clean_iff (h₁ : Orderly K₁ live₁) (h₂ : Orderly K₂ live₂)
    (hchain : K₁.device.heap.chain = K₂.device.heap.chain)
    (hrun₁ : loadR3 studentHeap C proc K₁ = .ok (pcbs₁, K₁'))
    (hrun₂ : loadR3 studentHeap C proc K₂ = .ok (pcbs₂, K₂')) :
    SameStart proc K₁' K₂' pcbs₁ pcbs₂ ↔ LeftoverZero K₁ ∧ LeftoverZero K₂ := by
  have hbuilt₁ := loadProcesses_built h₁ hrun₁
  have hbuilt₂ := loadProcesses_built h₂ hrun₂
  have hblocks : pcbBlocks 5 K₁.device.heap = pcbBlocks 5 K₂.device.heap :=
    pcbBlocks_congr h₁.owns h₂.owns hchain
  have hpcbs : pcbs₁ = pcbs₂ := by
    calc pcbs₁ = pcbBlocks 5 K₁.device.heap := hbuilt₁.blocks
      _ = pcbBlocks 5 K₂.device.heap := hblocks
      _ = pcbs₂ := hbuilt₂.blocks.symm
  have hall₁ := hbuilt₁.contexts
  have hall₂ := hbuilt₂.contexts
  rw [← hpcbs] at hall₂
  rcases List.forall₂_cons_left_iff.mp hall₁ with ⟨p, rest, hfirst, hrest₁, hsplit⟩
  rw [hsplit, List.forall₂_cons] at hall₂
  have htail : (pcbBlocks 5 K₁.device.heap).tail = rest := by
    calc (pcbBlocks 5 K₁.device.heap).tail = pcbs₁.tail := congrArg List.tail hbuilt₁.blocks.symm
      _ = (p :: rest).tail := by rw [hsplit]
      _ = rest := List.tail_cons
  rw [leftoverZero_iff hblocks htail, ← contexts_clean_iff (by decide) hrest₁ hall₂.2]
  constructor
  · intro h
    have hcontexts := h.contexts
    rw [hsplit, List.forall₂_cons] at hcontexts
    exact hcontexts.2
  · intro hclean
    refine ⟨hpcbs, ?_⟩
    rw [hsplit, List.forall₂_cons]
    have hfirst₁ := hfirst.trans builtContext_cleared
    have hfirst₂ := hall₂.1.trans builtContext_cleared
    exact ⟨⟨hfirst₁.trans hfirst₂.symm, hfirst₁⟩, hclean⟩

def bootWith (old : Context) : Kernel Heap := { bootKernel with contexts := fun _ => old }

theorem bootWith_orderly (old : Context) : Orderly (bootWith old) [] :=
  ⟨kernelHeap_owns, fun _ hx => bootKernel_onSome hx, rfl⟩

theorem bootWith_heap (old : Context) : (bootWith old).device.heap = kernelHeap := rfl

theorem bootWith_loads (old : Context) :
    ∃ pcbs K', loadR3 studentHeap silentConsole procEntry (bootWith old) = .ok (pcbs, K') := by
  have hready : ReadyToLoad (bootWith old) :=
    ⟨bootKernel_readyToLoad.ends, bootKernel_readyToLoad.unused, bootKernel_readyToLoad.room,
      bootKernel_readyToLoad.apart⟩
  have hsafe : LoadsSafely silentConsole procEntry (bootWith old) :=
    loadsSafely_of_ready (bootWith_orderly old) hready
  rcases hsafe with ⟨pcbs, K', ready, created, hrun, -⟩
  exact ⟨pcbs, K', hrun⟩

theorem bootWith_leftoverZero {old : Context} (hzero : RegistersZero old) :
    LeftoverZero (bootWith old) := by
  intro p _
  exact hzero

theorem first_contexts_clean_iff_boot : ∃ pcbs₁ pcbs₂ K₁' K₂',
    loadR3 studentHeap silentConsole procEntry (bootWith clearedContext) = .ok (pcbs₁, K₁') ∧
    loadR3 studentHeap silentConsole procEntry (bootWith { clearedContext with eip := 0xFF }) =
      .ok (pcbs₂, K₂') ∧ SameStart procEntry K₁' K₂' pcbs₁ pcbs₂ := by
  rcases bootWith_loads clearedContext with ⟨pcbs₁, K₁', hrun₁⟩
  rcases bootWith_loads { clearedContext with eip := 0xFF } with ⟨pcbs₂, K₂', hrun₂⟩
  have hchain : (bootWith clearedContext).device.heap.chain =
      (bootWith { clearedContext with eip := 0xFF }).device.heap.chain := by
    rw [bootWith_heap, bootWith_heap]
  refine ⟨pcbs₁, pcbs₂, K₁', K₂', hrun₁, hrun₂, ?_⟩
  rw [first_contexts_clean_iff (bootWith_orderly _) (bootWith_orderly _) hchain hrun₁ hrun₂]
  constructor
  · exact bootWith_leftoverZero ⟨rfl, rfl, rfl, rfl, rfl, rfl⟩
  · exact bootWith_leftoverZero ⟨rfl, rfl, rfl, rfl, rfl, rfl⟩

/-- A leftover word where `eax` will be is the `eax` with which `process2` begins. -/
theorem leftover_register_kept : ∃ pcbs₁ pcbs₂ K₁' K₂',
    (bootWith clearedContext).device.heap.chain =
      (bootWith { clearedContext with eax := 7 }).device.heap.chain ∧
    loadR3 studentHeap silentConsole procEntry (bootWith clearedContext) = .ok (pcbs₁, K₁') ∧
    loadR3 studentHeap silentConsole procEntry (bootWith { clearedContext with eax := 7 }) =
      .ok (pcbs₂, K₂') ∧
    K₂'.procs.nameText 0xD000454 = processName 2 ∧
    ¬ SameStart procEntry K₁' K₂' pcbs₁ pcbs₂ := by
  have hcompute₁ : (loadR3 studentHeap silentConsole procEntry (bootWith clearedContext)).map
      (fun r => (r.1[1]?, (r.2.contexts (firstStackTop 0xD000454)).eax)) =
      .ok (some 0xD000454, 0) := by
    decide +kernel
  have hcompute₂ : (loadR3 studentHeap silentConsole procEntry
      (bootWith { clearedContext with eax := 7 })).map
      (fun r => (r.2.procs.nameText 0xD000454,
        (r.2.contexts (firstStackTop 0xD000454)).eax)) = .ok (processName 2, 7) := by
    decide +kernel
  rcases of_map_ok hcompute₁ with ⟨⟨pcbs₁, K₁'⟩, hrun₁, heq₁⟩
  rcases of_map_ok hcompute₂ with ⟨⟨pcbs₂, K₂'⟩, hrun₂, heq₂⟩
  rcases Prod.mk.inj heq₁ with ⟨hsecond, hzero⟩
  rcases Prod.mk.inj heq₂ with ⟨hname, hseven⟩
  refine ⟨pcbs₁, pcbs₂, K₁', K₂', ?_, hrun₁, hrun₂, hname, ?_⟩
  · rw [bootWith_heap, bootWith_heap]
  · intro hsame
    rcases List.forall₂_cons_left_iff.mp hsame.contexts with ⟨p, rest, -, hrest, hsplit⟩
    rcases List.forall₂_cons_left_iff.mp hrest with ⟨q, rest', hq, -, hsplit'⟩
    have hqaddr : q = 0xD000454 := by
      have hget : pcbs₁[1]? = some 0xD000454 := hsecond
      rw [hsplit, hsplit'] at hget
      exact Option.some.inj hget
    have heax := congrArg Context.eax hq.1
    rw [hqaddr, show (K₁'.contexts (firstStackTop 0xD000454)).eax = 0 from hzero,
      show (K₂'.contexts (firstStackTop 0xD000454)).eax = 7 from hseven] at heax
    exact absurd heax (by decide)

end Runs

end Mpx
