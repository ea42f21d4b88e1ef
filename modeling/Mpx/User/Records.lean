import Mpx.Kernel.Housing
import Mpx.User.Boot

/-! Where the PCBs, the requests and the device control block lie in the heap, in every state that
the system reaches from `kmain`. -/

namespace Mpx

open Memory PointerList Procs Run

inductive Record (K : Kernel Heap) (dcb : U32) : U32 → Nat → Prop
  | pcb (p : U32) (hp : Live K p) : Record K dcb p pcbSize.toNat
  | iocb (r : U32) (hr : Reaches 0 (nextIocb K.device.iocbs) K.device.port.ioHead r) :
      Record K dcb r iocbSize.toNat
  | dcb : Record K dcb dcb dcbSize.toNat

/-- No record shares a byte with another one or with a header of the heap, whose blocks are `bs`
in the region of `total` bytes at `a`. -/
structure RecordsApart (a total : Nat) (K : Kernel Heap) (dcb : U32) (bs : List Mcb) : Prop where
  tiles : TilesRegion a total bs
  inside : ∀ p n, Record K dcb p n → a + 4 ≤ p.toNat ∧ p.toNat + n ≤ a + total
  headerless : ∀ p n, Record K dcb p n → ∀ b ∈ bs,
    b.addr.toNat + 4 ≤ p.toNat ∨ p.toNat + n ≤ b.addr.toNat
  apart : ∀ p n q m, Record K dcb p n → Record K dcb q m →
    (p = q ∧ n = m) ∨ p.toNat + n ≤ q.toNat ∨ q.toNat + m ≤ p.toNat

def Places (S : U32 → Prop) (dcb : U32) : U32 → Nat → Prop :=
  fun x n => (x = dcb ∧ n = dcbSize.toNat) ∨ (S x ∧ n = pcbSize.toNat)

/-- The processes and the device control block have blocks of their own. -/
structure Laid (a total : Nat) (K : Kernel Heap) (S : U32 → Prop) (dcb : U32) : Prop where
  tied : Tied K S
  housed : ∃ queue live, Housed a total (Places S dcb) K.device queue live

section Laid

variable {a total : Nat} {C : Console Heap} {K K' : Kernel Heap} {S S' : U32 → Prop}
  {dcb p : U32}

theorem Tied.ne_null (h : Tied K S) (hp : S p) : p ≠ 0 := by
  obtain ⟨queue, others, live, hpopulated⟩ := h.populated
  obtain ⟨a, total, hin⟩ := hpopulated.requests.owns
  have hregion : InRegion a total K.device.heap live := hin
  apply hregion.ne_null
  exact hpopulated.blocks.mem_iff.mpr (List.mem_append_right _ (hpopulated.housed p hp))

theorem pcbSetup_laid {name : Option (List U8)} {procClass priority : Int}
    (h : Laid a total K S dcb) (hC : Talks studentHeap C)
    (hrun : pcbSetup studentHeap C K name procClass priority = .ok (p, K')) :
    ∃ S', Joined S S' p ∧ Laid a total K' S' dcb := by
  obtain ⟨queue, live, hhoused⟩ := h.housed
  obtain ⟨queue', live', h'⟩ := pcbSetup_housed h.tied hhoused hC hrun
  obtain ⟨S', hjoined, htied⟩ := pcbSetup_tied h.tied hC hrun
  refine ⟨S', hjoined, htied, queue', live', h'.mono fun x n hx => ?_⟩
  cases hx with
  | inl hdcb => exact Or.inl (Or.inl hdcb)
  | inr hprocess =>
      cases hjoined.new x hprocess.1 with
      | inl hold => exact Or.inl (Or.inr ⟨hold, hprocess.2⟩)
      | inr hnew =>
          rw [hnew] at hprocess ⊢
          exact Or.inr ⟨htied.ne_null hprocess.1, rfl, hprocess.2⟩

theorem Laid.insert {s : Procs} (h : Laid a total K S dcb) (hp : S p)
    (hrun : pcbInsert K.procs p = .ok s) : Laid a total { K with procs := s } S dcb :=
  ⟨h.tied.insert hp hrun, h.housed⟩

theorem startProcess_laid {name : List U8} {procClass priority : Int} {cleared : Bool} {eip : U32}
    (h : Laid a total K S dcb) (hC : Talks studentHeap C)
    (hrun : startProcess studentHeap C K name procClass priority cleared eip = .ok (p, K')) :
    ∃ S', Laid a total K' S' dcb := by
  obtain ⟨hp, K₁, s, hsetup, hinsert, rfl⟩ := startProcess_cases hrun
  obtain ⟨S', hjoined, hlaid⟩ := pcbSetup_laid h hC hsetup
  have hlast := hlaid.insert (hjoined.mem hp) hinsert
  exact ⟨S', hlast.tied.withMemory _ _, hlast.housed⟩

theorem processStep_laid {Allowed : Kernel Heap → Option (List U8) → Prop}
    (h : Laid a total K S dcb) (hstep : ProcessStep Allowed K K') :
    ∃ S', Laid a total K' S' dcb := by
  cases hstep with
  | system K' hsystem =>
      obtain ⟨queue, live, hhoused⟩ := h.housed
      exact ⟨S, h.tied.run (.single hsystem.frameStep), systemStep_housed h.tied hhoused hsystem⟩
  | create C name procClass priority K' hC hallowed hrun =>
      obtain ⟨p, K₁, hsetup, hcases⟩ := createPcb_cases hrun
      obtain ⟨S', hjoined, hlaid⟩ := pcbSetup_laid h hC hsetup
      cases hcases with
      | inl hnone =>
          rw [hnone.2]
          exact ⟨S', hlaid⟩
      | inr hmade =>
          obtain ⟨hp, s, hinsert, rfl⟩ := hmade
          exact ⟨S', hlaid.insert (hjoined.mem hp) hinsert⟩

theorem processRun_laid {Allowed : Kernel Heap → Option (List U8) → Prop}
    (h : ∃ S, Laid a total K S dcb) (hrun : Relation.ReflTransGen (ProcessStep Allowed) K K') :
    ∃ S, Laid a total K' S dcb := by
  induction hrun with
  | refl => exact h
  | tail _ hlast ih =>
      obtain ⟨S, hlaid⟩ := ih
      exact processStep_laid hlaid hlast

theorem kmain_laid {commhand sysIdleProcess commhandProc idleProc : U32}
    (hin : InRegion a total K.device.heap []) (hC : Talks studentHeap C)
    (hrun : kmain studentHeap C K commhand sysIdleProcess =
      .ok (dcb, commhandProc, idleProc, K')) : ∃ S, Laid a total K' S dcb := by
  obtain ⟨K₀, K₁, hnone, hdcb, halloc, hcommand, hidle⟩ := kmain_steps hin.owns hrun
  have hroom : dcbSize.toNat ≤ payloadSize K₀.device.heap dcb := hin.new_size halloc hdcb
  have hin' := (hin.allocate halloc).1
  rw [if_neg hdcb] at hin'
  have hrequests := hnone.populated.requests
  have hstart : Laid a total K₀ (fun _ => False) dcb := by
    refine ⟨hnone.tied, [], [dcb], ⟨⟨hrequests.openPort, hrequests.queued, hin',
      List.nil_subset _⟩, fun r hr => absurd hr List.not_mem_nil⟩, fun x n hx => ?_,
      fun x n m hx hx' => ?_⟩
    · obtain ⟨rfl, rfl⟩ := hx.resolve_right fun hprocess => hprocess.1
      exact ⟨List.mem_cons_self, List.not_mem_nil, hroom⟩
    · have hn := hx.resolve_right fun hprocess => hprocess.1
      have hm := hx'.resolve_right fun hprocess => hprocess.1
      exact hn.2.trans hm.2.symm
  obtain ⟨S₁, hlaid₁⟩ := startProcess_laid hstart hC hcommand
  exact startProcess_laid hlaid₁ hC hidle

theorem Laid.recordsApart (h : Laid a total K S dcb) :
    ∃ bs, K.device.heap.chain = .ok bs ∧ RecordsApart a total K dcb bs := by
  obtain ⟨queue₀, others, live₀, hpopulated⟩ := h.tied.populated
  obtain ⟨queue, live, hhoused⟩ := h.housed
  have hqueued : IsList 0 (nextIocb K.device.iocbs) K.device.port.ioHead queue := hhoused.queued
  obtain ⟨bs, hinv⟩ := hhoused.owns
  have hisolated := payloads_isolated hinv
  have hblock : ∀ p n, Record K dcb p n →
      p ∈ live ∧ n ≤ payloadSize K.device.heap p ∧
        ((p ∈ queue ∧ n = iocbSize.toNat) ∨ (p ∉ queue ∧ Places S dcb p n)) := by
    intro p n hp
    have hplace : Places S dcb p n → p ∈ live ∧ n ≤ payloadSize K.device.heap p ∧
        ((p ∈ queue ∧ n = iocbSize.toNat) ∨ (p ∉ queue ∧ Places S dcb p n)) := by
      intro hplace
      obtain ⟨hlive, hout, hroom⟩ := hhoused.inside p n hplace
      exact ⟨hlive, hroom, Or.inr ⟨hout, hplace⟩⟩
    cases hp with
    | pcb p hlive => exact hplace (Or.inr ⟨hpopulated.live_mem hlive, rfl⟩)
    | iocb p hr =>
        have hmem := hqueued.reaches_iff.mp hr
        exact ⟨hhoused.held hmem, hhoused.sized p hmem, Or.inl ⟨hmem, rfl⟩⟩
    | dcb => exact hplace (Or.inl ⟨rfl, rfl⟩)
  refine ⟨_, chain_spec hinv.represents, ⟨hinv.tiles, fun p n hp => ?_, fun p n hp b hb => ?_,
    fun p n q m hp hq => ?_⟩⟩
  · obtain ⟨hlive, hroom, -⟩ := hblock p n hp
    have hbounds : a + 4 ≤ p.toNat ∧ p.toNat + payloadSize K.device.heap p ≤ a + total :=
      hisolated.inside p hlive
    omega
  · obtain ⟨hlive, hroom, -⟩ := hblock p n hp
    have haway : b.addr.toNat + 4 ≤ p.toNat ∨
        p.toNat + payloadSize K.device.heap p ≤ b.addr.toNat := hisolated.headerless p hlive b hb
    omega
  · obtain ⟨hlive, hroom, hkind⟩ := hblock p n hp
    obtain ⟨hlive', hroom', hkind'⟩ := hblock q m hq
    by_cases hpq : p = q
    · left
      rw [← hpq] at hkind'
      refine ⟨hpq, ?_⟩
      cases hkind with
      | inl hiocb =>
          cases hkind' with
          | inl hiocb' => exact hiocb.2.trans hiocb'.2.symm
          | inr hplace' => exact absurd hiocb.1 hplace'.1
      | inr hplace =>
          cases hkind' with
          | inl hiocb' => exact absurd hiocb'.1 hplace.1
          | inr hplace' => exact hhoused.single p n m hplace.2 hplace'.2
    · have hdisjoint : p.toNat + payloadSize K.device.heap p ≤ q.toNat ∨
          q.toNat + payloadSize K.device.heap q ≤ p.toNat := hisolated.disjoint p hlive q hlive' hpq
      omega

end Laid

/-- In every state after `kmain`, whatever processes are created, whatever they call and whenever
the device interrupts, the records of the kernel lie in the heap side by side, and none of them
on a header. -/
theorem records_apart {kmalloc : U32 → U32} {sz : U32} {m : Mem} {C : Console Heap}
    {K K₁ K₂ : Kernel Heap} {commhand sysIdleProcess dcb commhandProc idleProc : U32}
    {Allowed : Kernel Heap → Option (List U8) → Prop}
    (hregion : HeapRegion kmalloc sz) (hheap : K.device.heap = initializeHeap kmalloc m sz)
    (hC : Talks studentHeap C)
    (hboot : kmain studentHeap C K commhand sysIdleProcess =
      .ok (dcb, commhandProc, idleProc, K₁))
    (hrun : Relation.ReflTransGen (ProcessStep Allowed) K₁ K₂) :
    ∃ bs, K₂.device.heap.chain = .ok bs ∧
      RecordsApart (kmalloc (roundup sz + 4)).toNat ((roundup sz).toNat + 4) K₂ dcb bs := by
  have hin : InRegion (kmalloc (roundup sz + 4)).toNat ((roundup sz).toNat + 4)
      K.device.heap [] := by
    rw [hheap]
    exact ⟨_, heapInv_init m hregion⟩
  obtain ⟨S, hlaid⟩ := processRun_laid (kmain_laid hin hC hboot) hrun
  exact hlaid.recordsApart

theorem records_apart_first_line :
    ∃ boot idle write yield, bootAndWrite = .ok (boot, idle, write, yield) ∧
      ∃ bs, yield.2.device.heap.chain = .ok bs ∧
        RecordsApart 0xD000000 50004 yield.2 boot.1 bs := by
  have hcompute : bootAndWrite.map (fun _ => true) = .ok true := by decide +kernel
  obtain ⟨⟨boot, idle, write, yield⟩, hrun, -⟩ := of_map_ok hcompute
  have hsteps := hrun
  obtain ⟨⟨dcb, p, q, K₁⟩, hboot, hrest⟩ := of_bind_ok hsteps
  obtain ⟨⟨r, K₂⟩, hcall, hrest⟩ := of_bind_ok hrest
  obtain ⟨⟨r₁, K₃⟩, hwrite, hrest⟩ := of_bind_ok hrest
  obtain ⟨⟨r₂, K₄⟩, hyield, heq⟩ := of_bind_ok hrest
  cases heq
  have hfirst : ProcessStep (fun _ _ => True) K₁ K₂ :=
    .system K₁ K₂ (.call K₁ (fun _ => callContext 1 0 0 0) K₁.device.mem 0x1234 r K₂ hcall)
  have hsecond : ProcessStep (fun _ _ => True) K₂ K₃ :=
    .system K₂ K₃
      (.call K₂ (fun _ => callContext 3 COM1 0x5000 57) K₂.device.mem 0x2000 r₁ K₃ hwrite)
  have hthird : ProcessStep (fun _ _ => True) K₃ K₄ :=
    .system K₃ K₄ (.call K₃ (fun _ => callContext 1 0 0 0) K₃.device.mem 0x3000 r₂ K₄ hyield)
  have hregion : HeapRegion (fun _ => 0xD000000) 50000 := ⟨by decide, by decide⟩
  have hheap : bootKernel.device.heap =
      initializeHeap (fun _ => 0xD000000) ⟨fun _ => 0⟩ 50000 := rfl
  refine ⟨_, _, _, _, hrun, ?_⟩
  exact records_apart hregion hheap (silentConsole_talks _) hboot
    (((Relation.ReflTransGen.single hfirst).tail hsecond).tail hthird)

end Mpx
