import Mpx.Kernel.ExitRuns
import Mpx.Kernel.Lifetime
import Mpx.Kernel.LiveLinks

/-! The records of the kernel lie in blocks of the heap that are large enough for them: PCBs, queued
requests and the device control block. -/

namespace Mpx

open Memory BlockList PointerList Procs Run

/-- `R p n` is a record of `n` bytes at `p`. These records lie in blocks that hold no requests. -/
structure Housed (a total : Nat) (R : U32 → Nat → Prop) (d : Device Heap) (queue live : List U32) :
    Prop extends Served a total d queue live where
  inside : ∀ p n, R p n → p ∈ live ∧ p ∉ queue ∧ n ≤ payloadSize d.heap p
  single : ∀ p n m, R p n → R p m → n = m

def WithRecord (R : U32 → Nat → Prop) (p : U32) (n : Nat) : U32 → Nat → Prop :=
  fun x m => R x m ∨ (p ≠ 0 ∧ x = p ∧ m = n)

section Blocks

variable {a total n : Nat} {h h' : Heap} {live : List U32} {size p : U32} {s : Procs} {r : Int}

theorem InRegion.ne_null (hin : InRegion a total h live) (hp : p ∈ live) : p ≠ 0 := by
  obtain ⟨bs, hinv⟩ := hin
  exact ((hinv.live_iff p).mp hp).1

theorem InRegion.pcbFree (hin : InRegion a total h live) (hp : p ≠ 0)
    (hrun : pcbFree studentHeap h s p = .ok (r, h')) :
    InRegion a total h' (live.erase p) ∧ ∀ q ∈ live.erase p, payloadSize h' q = payloadSize h q := by
  obtain ⟨hlive, hname⟩ := (pcbFree_returns_iff hin.owns hp).mp ⟨_, hrun⟩
  obtain ⟨r', heap, hfree, -⟩ := studentHeap_laws.free_live hin.owns hlive
  rw [pcbFree_unnamed studentHeap_releases hin.owns hp hlive hname hfree] at hrun
  cases hrun
  exact hin.free hlive hfree

end Blocks

section Device

variable {a total n : Nat} {R R' : U32 → Nat → Prop} {d d' : Device Heap} {queue live : List U32}
  {size p : U32}

theorem Housed.mono (h : Housed a total R d queue live) (hR : ∀ x m, R' x m → R x m) :
    Housed a total R' d queue live :=
  ⟨h.toServed, fun x m hx => h.inside x m (hR x m hx),
    fun x m k hx hx' => h.single x m k (hR x m hx) (hR x k hx')⟩

theorem Housed.withMem (h : Housed a total R d queue live) (mem : Mem) :
    Housed a total R { d with mem := mem } queue live :=
  ⟨⟨⟨h.openPort.congr rfl rfl rfl rfl, h.queued, h.owns, h.held⟩, h.sized⟩, h.inside, h.single⟩

theorem Housed.withHeap {heap : Heap} {live' : List U32} (h : Housed a total R d queue live)
    (hin : InRegion a total heap live') (hold : ∀ q ∈ live, q ∈ queue ∨ (∃ m, R q m) → q ∈ live')
    (hsizes : ∀ q ∈ live, q ∈ live' → payloadSize heap q = payloadSize d.heap q) :
    Housed a total R { d with heap := heap } queue live' := by
  have hheld : ∀ q ∈ queue, q ∈ live' := fun q hq => hold q (h.held hq) (Or.inl hq)
  refine ⟨⟨⟨h.openPort.congr rfl rfl rfl rfl, h.queued, hin, hheld⟩, fun q hq => ?_⟩,
    fun q m hq => ?_, h.single⟩
  · simp only [hsizes q (h.held hq) (hheld q hq)]
    exact h.sized q hq
  · obtain ⟨hlive, hout, hroom⟩ := h.inside q m hq
    have hlive' := hold q hlive (Or.inr ⟨m, hq⟩)
    refine ⟨hlive', hout, ?_⟩
    simp only [hsizes q hlive hlive']
    exact hroom

theorem Housed.allocate {heap : Heap} (h : Housed a total R d queue live)
    (hrun : allocateMemory d.heap size = .ok (p, heap)) :
    Housed a total R { d with heap := heap } queue (if p = 0 then live else p :: live) := by
  obtain ⟨hin, hsizes⟩ := h.owns.allocate hrun
  refine h.withHeap hin (fun q hq _ => ?_) fun q hq _ => hsizes q hq
  by_cases hp : p = 0
  · simpa only [if_pos hp] using hq
  · simpa only [if_neg hp] using List.mem_cons_of_mem p hq

theorem Housed.record {heap : Heap} (h : Housed a total R d queue live)
    (hrun : allocateMemory d.heap size = .ok (p, heap)) (hp : p ≠ 0)
    (hn : n ≤ (roundup size).toNat) :
    Housed a total (WithRecord R p n) { d with heap := heap } queue (p :: live) := by
  have hroom := h.owns.new_size hrun hp
  have hnew := (region_laws.malloc_fresh h.owns hrun hp).1
  have hnext := h.allocate hrun
  rw [if_neg hp] at hnext
  have hnone : ∀ m, ¬ R p m := fun m hm => hnew (h.inside p m hm).1
  refine ⟨hnext.toServed, fun x m hx => ?_, fun x m k hx hx' => ?_⟩
  · cases hx with
    | inl hold => exact hnext.inside x m hold
    | inr hlast =>
        obtain ⟨-, rfl, rfl⟩ := hlast
        exact ⟨List.mem_cons_self, fun hmem => hnew (h.held hmem), hn.trans hroom⟩
  · cases hx with
    | inl hold =>
        cases hx' with
        | inl hold' => exact h.single x m k hold hold'
        | inr hlast => exact absurd (hlast.2.1 ▸ hold) (hnone m)
    | inr hlast =>
        cases hx' with
        | inl hold' => exact absurd (hlast.2.1 ▸ hold') (hnone k)
        | inr hlast' => exact hlast.2.2.trans hlast'.2.2.symm

theorem ioScheduler_heap {proc dev buf len : U32} {op : OpCode} (h : Housed a total R d queue live)
    (hop : op = .read ∨ op = .write)
    (hrun : ioScheduler studentHeap d proc dev buf len op = .ok d') :
    d'.heap = d.heap ∨ ∃ temp, allocateMemory d.heap iocbSize = .ok (temp, d'.heap) := by
  by_cases hrefused : dev ≠ COM1 ∨ buf = 0
  · rw [ioScheduler_refused proc len op hrefused] at hrun
    cases hrun
    exact Or.inl rfl
  · obtain ⟨hdev, hbuf⟩ := not_or.mp hrefused
    obtain rfl := not_not.mp hdev
    obtain ⟨temp, heap, halloc, htemp⟩ := ioScheduler_alloc hbuf hrun
    have hnew := (region_laws.malloc_fresh h.owns halloc htemp).1
    obtain ⟨iocbs, ioHead, -, -, heq⟩ := @ioScheduler_append _ _ _ _ _ proc buf len _ op h.queued
      hbuf halloc htemp fun hmem => hnew (h.held hmem)
    have hopen := h.openPort.withQueue heap iocbs ioHead
    obtain ⟨d₁, hstart, hkeeps⟩ := @startIfIdle_sameQueue _ _ buf len op hopen hop hbuf
    rw [heq, hstart] at hrun
    cases hrun
    have hheap : d'.heap = heap := hkeeps.heap
    rw [hheap]
    exact Or.inr ⟨temp, halloc⟩

theorem Housed.request {proc dev buf len : U32} {op : OpCode} (h : Housed a total R d queue live)
    (hop : op = .read ∨ op = .write)
    (hrun : ioScheduler studentHeap d proc dev buf len op = .ok d') :
    ∃ queue' live', Housed a total R d' queue' live' := by
  have hsizes : ∀ q ∈ live, payloadSize d'.heap q = payloadSize d.heap q := by
    cases ioScheduler_heap h hop hrun with
    | inl hsame =>
        intro q _
        rw [hsame]
    | inr hallocated =>
        obtain ⟨temp, halloc⟩ := hallocated
        exact (h.owns.allocate halloc).2
  cases h.toServed.request hop hrun with
  | inl hrefused =>
      rw [hrefused.2]
      exact ⟨queue, live, h⟩
  | inr haccepted =>
      obtain ⟨-, -, -, temp, hserved⟩ := haccepted
      have hnew := (List.nodup_cons.mp (ownsBlocks_nodup hserved.owns.owns)).1
      refine ⟨_, _, hserved, fun p m hp => ?_, h.single⟩
      obtain ⟨hlive, hout, hroom⟩ := h.inside p m hp
      refine ⟨List.mem_cons_of_mem temp hlive, fun hmem => ?_, ?_⟩
      · cases List.mem_append.mp hmem with
        | inl hold => exact hout hold
        | inr hlast => exact hnew (List.mem_singleton.mp hlast ▸ hlive)
      · rw [hsizes p hlive]
        exact hroom

theorem Housed.output {s s' : Procs} (h : Housed a total R d queue live)
    (hrun : serialOutputInterrupt studentHeap d s = .ok (d', s')) :
    ∃ queue' live', Housed a total R d' queue' live' := by
  by_cases hop : d.port.operation = .write
  · by_cases hhead : d.port.ioHead = 0
    · rw [serialOutputInterrupt, if_neg (not_not.mpr hop)] at hrun
      simp only [Device.outb, if_pos hhead] at hrun
      cases hrun
    · by_cases hmore : d.More
      · rw [serialOutputInterrupt_more s h.openPort.currDev hop hhead hmore] at hrun
        cases hrun
        have hnext : Requests (InRegion a total) d.sendNext queue live :=
          h.toRequests.congr (h.openPort.congr rfl rfl rfl rfl) rfl rfl rfl
        exact ⟨queue, live, ⟨hnext, h.sized⟩, h.inside, h.single⟩
      · obtain ⟨p, rest, rfl, hserved, -⟩ := h.toServed.completed hop hhead hmore hrun
        rw [serialOutputInterrupt_done s hop hhead hmore] at hrun
        obtain ⟨s₁, -, hrest⟩ := of_bind_ok hrun
        obtain ⟨⟨r, heap⟩, hfree, heq⟩ := of_bind_ok hrest
        cases heq
        have hp : d.port.ioHead = p := h.queued.1
        rw [hp] at hfree
        have hsizes := (h.owns.free (h.held List.mem_cons_self) hfree).2
        refine ⟨_, _, hserved, fun x m hx => ?_, h.single⟩
        obtain ⟨hlive, hout, hroom⟩ := h.inside x m hx
        have hlive' : x ∈ live.erase p :=
          (List.mem_erase_of_ne (List.ne_of_not_mem_cons hout)).mpr hlive
        refine ⟨hlive', List.not_mem_of_not_mem_cons hout, ?_⟩
        simp only [Device.completed, hsizes x hlive']
        exact hroom
  · rw [serialOutputInterrupt_spurious s hop] at hrun
    cases hrun
    exact ⟨queue, live, h⟩

theorem Housed.input (h : Housed a total R d queue live) :
    Housed a total R (serialInputInterrupt d) queue live := by
  rw [serialInputInterrupt]
  split
  · exact ⟨h.toServed.outb _ _, h.inside, h.single⟩
  · exact h

end Device

section Kernel

variable {a total : Nat} {R : U32 → Nat → Prop} {K K' : Kernel Heap} {S : U32 → Prop}
  {queue others live queue₀ live₀ : List U32} {C : Console Heap} {ctx r p : U32}

theorem sysCall_housed (hpopulated : Populated K S queue₀ others live₀)
    (h : Housed a total R K.device queue live)
    (hrun : sysCall studentHeap K ctx = .ok (r, K')) :
    ∃ queue' live', Housed a total R K'.device queue' live' := by
  rcases sysCall_cases hrun with
    hK' | hexit | hidle | ⟨K₁, hrequest, hidle⟩ | ⟨K₁, K₂, hfirst, hsecond, hidle⟩
  · rw [hK']
    exact ⟨queue, live, h⟩
  · cases exitCase_cases hexit with
    | inl hdispatch =>
        rw [(dispatch_device hdispatch.2).1]
        exact ⟨queue, live, h⟩
    | inr hfreed => exact absurd hexit (exitCase_never hpopulated.shrink hfreed.1)
  · rw [(idleCase_device hidle).1]
    exact ⟨queue, live, h⟩
  · rw [(idleCase_device hidle).1]
    obtain ⟨-, proc, hsched⟩ := requestCase_device hrequest
    exact h.request (Or.inl rfl) hsched
  · rw [(idleCase_device hidle).1]
    obtain ⟨-, proc₁, hsched₁⟩ := requestCase_device hfirst
    obtain ⟨-, proc₂, hsched₂⟩ := requestCase_device hsecond
    obtain ⟨queue₁, live₁, h₁⟩ := h.request (Or.inr rfl) hsched₁
    exact h₁.request (Or.inr rfl) hsched₂

theorem systemStep_housed (htied : Tied K S) (h : Housed a total R K.device queue live)
    (hstep : SystemStep studentHeap K K') :
    ∃ queue' live', Housed a total R K'.device queue' live' := by
  cases hstep with
  | call contexts mem ctx r K' hrun =>
      obtain ⟨queue₀, others, live₀, hpopulated⟩ := (htied.withMemory contexts mem).populated
      exact sysCall_housed hpopulated (h.withMem mem) hrun
  | inputInterrupt => exact ⟨queue, live, h.input⟩
  | outputInterrupt device procs hrun => exact h.output hrun

theorem systemRun_housed (htied : Tied K S) (h : Housed a total R K.device queue live)
    (hrun : Relation.ReflTransGen (FrameStep fun _ => True) K K') :
    ∃ queue' live', Housed a total R K'.device queue' live' := by
  induction hrun with
  | refl => exact ⟨queue, live, h⟩
  | tail hprevious hlast ih =>
      obtain ⟨queue₁, live₁, h₁⟩ := ih
      exact systemStep_housed (htied.run hprevious) h₁ hlast.systemStep

theorem pcbSetup_housed {name : Option (List U8)} {procClass priority : Int} (htied : Tied K S)
    (h : Housed a total R K.device queue live) (hC : Talks studentHeap C)
    (hrun : pcbSetup studentHeap C K name procClass priority = .ok (p, K')) :
    ∃ queue' live', Housed a total (WithRecord R p pcbSize.toNat) K'.device queue' live' := by
  obtain ⟨queue₀, others, live₀, hpopulated⟩ := htied.populated
  obtain ⟨q, heap, halloc, hpath⟩ := pcbSetup_path hC.talksFrom hrun
  have hown := allocateMemory_owns hpopulated.requests.owns halloc
  have hnone : ∀ x m, WithRecord R 0 pcbSize.toNat x m → R x m :=
    fun _ _ hx => hx.resolve_right fun hnew => hnew.1 rfl
  cases hpath with
  | full K' hq hwrite =>
      rw [if_pos hq] at hown
      have hstart : Tied { K with device := { K.device with heap := heap } } S :=
        ⟨⟨queue₀, others, live₀, hpopulated.withHeap hown hpopulated.blocks hpopulated.housed⟩,
          htied.closed⟩
      obtain ⟨queue', live', h'⟩ := systemRun_housed hstart (h.allocate halloc) hwrite
      exact ⟨queue', live', h'.mono hnone⟩
  | refused r heap' hq hfree =>
      have hallocated := h.allocate halloc
      rw [if_neg hq] at hallocated
      have hnew := (region_laws.malloc_fresh h.owns halloc hq).1
      obtain ⟨hin, hsizes⟩ := hallocated.owns.pcbFree hq hfree
      rw [List.erase_cons_head] at hin hsizes
      have hreleased := hallocated.withHeap hin (fun x hx hkept => ?_) fun x _ hx => hsizes x hx
      · exact ⟨queue, live, hreleased.mono hnone⟩
      · cases hkept with
        | inl hqueue => exact h.held hqueue
        | inr hrecord =>
            obtain ⟨m, hm⟩ := hrecord
            exact (h.inside x m hm).1
  | made n K' hq hname hlength hsearch =>
      have hstart : Tied (withSetUp K heap p n procClass priority) fun x => S x ∨ x = p :=
        withSetUp_tied htied hpopulated halloc hq hlength
      exact systemRun_housed hstart (h.record halloc hq (by decide)) hsearch
  | inUse n K' r heap' hq hname hlength hsearch hfree =>
      -- the PCB has a name, and is not released with it
      obtain ⟨queue', others', live', h'⟩ :=
        ((withSetUp_tied htied hpopulated halloc hq hlength).run hsearch).populated
      have hempty := (pcbFree_release h'.requests.owns hq hfree).1
      exact absurd hempty (h'.named q (Or.inr rfl))

end Kernel

end Mpx
