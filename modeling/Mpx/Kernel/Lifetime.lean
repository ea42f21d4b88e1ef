import Mpx.Heap.Room
import Mpx.Kernel.Population
import Mpx.Serial.Unanswered

/-! How many requests the system completes before its heap is full of those that it leaves
behind. -/

namespace Mpx

open Memory BlockList PointerList Procs Run

/-- `live` are the blocks that the heap of `total` bytes at `a` has handed out. -/
def InRegion (a total : Nat) (h : Heap) (live : List U32) : Prop :=
  ∃ bs, HeapInv a total ⟨h, live⟩ bs

section Region

variable {a total : Nat} {h h' : Heap} {live : List U32} {size p : U32}

theorem InRegion.owns (hin : InRegion a total h live) : OwnsBlocks h live := ⟨a, total, hin⟩

theorem InRegion.step {live' : List U32} (hin : InRegion a total h live)
    (hstep : HeapStep ⟨h, live⟩ ⟨h', live'⟩) : InRegion a total h' live' ∧
      ∀ q ∈ live, q ∈ live' → payloadSize h' q = payloadSize h q := by
  obtain ⟨bs, hinv⟩ := hin
  obtain ⟨rest, hinv', hsizes⟩ := heapStep_sizes hinv hstep
  simp only at hsizes
  exact ⟨⟨rest, hinv'⟩, hsizes⟩

theorem InRegion.allocate (hin : InRegion a total h live)
    (hrun : allocateMemory h size = .ok (p, h')) :
    InRegion a total h' (if p = 0 then live else p :: live) ∧
      ∀ q ∈ live, payloadSize h' q = payloadSize h q := by
  obtain ⟨hin', hsizes⟩ := hin.step (.allocate ⟨h, live⟩ size p h' hrun)
  refine ⟨hin', fun q hq => hsizes q hq ?_⟩
  by_cases hp : p = 0
  · simpa only [if_pos hp] using hq
  · simpa only [if_neg hp] using List.mem_cons_of_mem p hq

theorem InRegion.free {r : Int} (hin : InRegion a total h live) (hp : p ∈ live)
    (hrun : freeMemory h p = .ok (r, h')) : InRegion a total h' (live.erase p) ∧
      ∀ q ∈ live.erase p, payloadSize h' q = payloadSize h q := by
  obtain ⟨hin', hsizes⟩ := hin.step (.free ⟨h, live⟩ p r h' hp hrun)
  exact ⟨hin', fun q hq => hsizes q (List.mem_of_mem_erase hq) hq⟩

theorem region_laws : HeapLaws studentHeap (InRegion a total) where
  malloc_fresh := by
    intro h live size p h' hin hrun hp
    obtain ⟨hin', -⟩ := hin.allocate hrun
    rw [if_neg hp] at hin'
    exact ⟨(List.nodup_cons.mp (ownsBlocks_nodup hin'.owns)).1, hin'⟩
  free_live := by
    intro h live p hin hp
    obtain ⟨r, h', hrun, -⟩ := studentHeap_laws.free_live hin.owns hp
    exact ⟨r, h', hrun, (hin.free hp hrun).1⟩

theorem InRegion.new_size (hin : InRegion a total h live)
    (hrun : allocateMemory h size = .ok (p, h')) (hp : p ≠ 0) :
    (roundup size).toNat ≤ payloadSize h' p := by
  obtain ⟨bs, hinv⟩ := hin
  obtain ⟨-, -, hsize, -⟩ := allocateMemory_size hinv.represents hrun hp
  exact hsize

end Region

def Effect.isFree : Effect → Bool
  | .freeMem _ => true
  | _ => false

def Device.completions {σ : Type} (d : Device σ) : Nat := d.calls.countP Effect.isFree

def Device.writes {σ : Type} (d : Device σ) : Nat := if d.port.operation = .write then 1 else 0

def Foreign (d : Device Heap) (p : U32) : Prop := p ≠ 0 ∧ ∀ queue, d.Queued queue → p ∉ queue

inductive HeapUse (d : Device Heap) : Heap → Prop
  | none : HeapUse d d.heap
  | allocate (size p : U32) (heap : Heap) (hrun : allocateMemory d.heap size = .ok (p, heap)) :
      HeapUse d heap
  | release (ptr : U32) (r : Int) (heap : Heap) (hptr : Foreign d ptr)
      (hrun : freeMemory d.heap ptr = .ok (r, heap)) : HeapUse d heap

/-- A system call, an interrupt, or anything that a process does by itself: it may change
memory and the PCBs in any way, and use the heap. -/
inductive LifeStep : Kernel Heap → Kernel Heap → Prop
  | call (K : Kernel Heap) (ctx r : U32) (K' : Kernel Heap)
      (hpcb : ∀ queue, K.device.Queued queue → K.globalPcb ∉ queue)
      (hrun : sysCall studentHeap K ctx = .ok (r, K')) : LifeStep K K'
  | interrupt (K : Kernel Heap) (iir : U8) (device : Device Heap) (procs : Procs)
      (hrun : serialInterrupt studentHeap iir K.device K.procs = .ok (device, procs)) :
      LifeStep K { K with device := device, procs := procs }
  | work (K : Kernel Heap) (procs : Procs) (contexts : U32 → Context) (mem : Mem) (heap : Heap)
      (huse : HeapUse K.device heap) :
      LifeStep K { K with
        procs := procs, contexts := contexts
        device := { K.device with mem := mem, heap := heap } }

structure Served (a total : Nat) (d : Device Heap) (queue live : List U32) : Prop
    extends Requests (InRegion a total) d queue live where
  sized : ∀ p ∈ queue, iocbSize.toNat ≤ payloadSize d.heap p

section Served

variable {a total : Nat} {d d' : Device Heap} {queue live : List U32}

/-- The requests in the queue take at least 32 bytes each. -/
theorem Served.room (h : Served a total d queue live) : queue.length * 32 ≤ total := by
  obtain ⟨bs, hinv⟩ := h.owns
  have hqueued : IsList 0 (nextIocb d.iocbs) d.port.ioHead queue := h.queued
  exact room_of_blocks hinv hqueued.nodup h.held h.sized

theorem Served.work (h : Served a total d queue live) (mem : Mem) {heap : Heap}
    (huse : HeapUse d heap) :
    ∃ live', Served a total { d with mem := mem, heap := heap } queue live' := by
  have hopen : OpenPort { d with mem := mem, heap := heap } := h.openPort.congr rfl rfl rfl rfl
  cases huse with
  | none => exact ⟨live, ⟨hopen, h.queued, h.owns, h.held⟩, h.sized⟩
  | allocate size p heap hrun =>
      obtain ⟨hin, hsizes⟩ := h.owns.allocate hrun
      refine ⟨_, ⟨hopen, h.queued, hin, ?_⟩, fun q hq => ?_⟩
      · intro q hq
        by_cases hp : p = 0
        · simpa only [if_pos hp] using h.held hq
        · simpa only [if_neg hp] using List.mem_cons_of_mem p (h.held hq)
      · simp only [hsizes q (h.held hq)]
        exact h.sized q hq
  | release ptr r heap hptr hrun =>
      have hlive : ptr ∈ live := by
        by_contra hdead
        rw [freeMemory_not_live h.owns.owns hptr.1 hdead] at hrun
        cases hrun
      obtain ⟨hin, hsizes⟩ := h.owns.free hlive hrun
      have hstays : ∀ q ∈ queue, q ∈ live.erase ptr := by
        intro q hq
        exact (List.mem_erase_of_ne (ne_of_mem_of_not_mem hq (hptr.2 queue h.queued))).mpr
          (h.held hq)
      refine ⟨_, ⟨hopen, h.queued, hin, hstays⟩, fun q hq => ?_⟩
      simp only [hsizes q (hstays q hq)]
      exact h.sized q hq

theorem Served.request {proc dev buf len : U32} {op : OpCode} (h : Served a total d queue live)
    (hop : op = .read ∨ op = .write)
    (hrun : ioScheduler studentHeap d proc dev buf len op = .ok d') :
    ((dev ≠ COM1 ∨ buf = 0) ∧ d' = d) ∨
    (¬ (dev ≠ COM1 ∨ buf = 0) ∧ d'.completions = d.completions ∧
      (d'.port.operation = .write → d.port.operation = .write ∨ op = .write) ∧
      ∃ temp, Served a total d' (queue ++ [temp]) (temp :: live)) := by
  by_cases hrefused : dev ≠ COM1 ∨ buf = 0
  · rw [ioScheduler_refused proc len op hrefused] at hrun
    cases hrun
    exact Or.inl ⟨hrefused, rfl⟩
  · obtain ⟨hdev, hbuf⟩ := not_or.mp hrefused
    obtain rfl := not_not.mp hdev
    obtain ⟨temp, heap, halloc, htemp⟩ := ioScheduler_alloc hbuf hrun
    have hcall : allocateMemory d.heap iocbSize = .ok (temp, heap) := halloc
    obtain ⟨hnew, hin⟩ := region_laws.malloc_fresh h.owns halloc htemp
    have hfresh : temp ∉ queue := fun hmem => hnew (h.held hmem)
    obtain ⟨iocbs, ioHead, hqueue, -, heq⟩ :=
      @ioScheduler_append _ _ _ _ _ proc buf len _ op h.queued hbuf halloc htemp hfresh
    have hopen := h.openPort.withQueue heap iocbs ioHead
    rw [heq] at hrun
    obtain ⟨d₁, hstart, hkeeps⟩ := @startIfIdle_sameQueue _ _ buf len op hopen hop hbuf
    rw [hstart] at hrun
    cases hrun
    refine Or.inr ⟨hrefused, congrArg (List.countP Effect.isFree) hkeeps.calls, ?_, temp, ?_⟩
    · intro hwrite
      cases startIfIdle_cases hopen hop hbuf hstart with
      | inl hsame =>
          rw [hsame] at hwrite
          exact Or.inl hwrite
      | inr hstarted =>
          cases hstarted with
          | inl hwriting => exact Or.inr hwriting.2.1
          | inr hreading =>
              obtain ⟨-, -, -, ring, mem, rfl⟩ := hreading
              simp only at hwrite
              split at hwrite <;> cases hwrite
    · refine ⟨⟨hkeeps.openPort, ?_, ?_, ?_⟩, ?_⟩
      · rw [Device.Queued, hkeeps.iocbs, hkeeps.ioHead]
        exact hqueue
      · rw [hkeeps.heap]
        exact hin
      · intro p hp
        cases List.mem_append.mp hp with
        | inl hold => exact List.mem_cons_of_mem _ (h.held hold)
        | inr hlast => exact (List.mem_singleton.mp hlast) ▸ List.mem_cons_self
      · intro p hp
        have hheap : d'.heap = heap := hkeeps.heap
        rw [hheap]
        cases List.mem_append.mp hp with
        | inl hold =>
            rw [(h.owns.allocate hcall).2 p (h.held hold)]
            exact h.sized p hold
        | inr hlast =>
            obtain rfl := List.mem_singleton.mp hlast
            exact h.owns.new_size hcall htemp

theorem completions_outb (d : Device Heap) (port : U32) (data : U8) :
    (d.outb port data).completions = d.completions :=
  congrArg (List.countP Effect.isFree) (calls_outb d port data)

theorem completions_sendNext (d : Device Heap) : d.sendNext.completions = d.completions :=
  congrArg (List.countP Effect.isFree) (calls_sendNext d)

theorem completions_completed (d : Device Heap) (heap : Heap) :
    (d.completed heap).completions = d.completions + 1 := by
  rw [Device.completions, calls_completed, List.countP_append]
  rfl

theorem Served.outb (h : Served a total d queue live) (port : U32) (data : U8) :
    Served a total (d.outb port data) queue live :=
  ⟨h.toRequests.outb port data, h.sized⟩

theorem Served.completed {s s' : Procs} (h : Served a total d queue live)
    (hop : d.port.operation = .write) (hhead : d.port.ioHead ≠ 0) (hdone : ¬ d.More)
    (hrun : serialOutputInterrupt studentHeap d s = .ok (d', s')) :
    ∃ p rest, queue = p :: rest ∧ Served a total d' rest (live.erase p) ∧
      d'.completions = d.completions + 1 ∧ d'.port.operation = .idle := by
  rw [serialOutputInterrupt_done s hop hhead hdone] at hrun
  obtain ⟨s₁, -, hrest⟩ := of_bind_ok hrun
  obtain ⟨⟨r, heap⟩, hfree, heq⟩ := of_bind_ok hrest
  cases heq
  have hqueued := h.queued
  cases queue with
  | nil => exact absurd hqueued hhead
  | cons p rest =>
      obtain ⟨hp, hne, htail⟩ := hqueued
      rw [hp] at hfree
      have hlist : IsList 0 (nextIocb d.iocbs) p (p :: rest) := ⟨rfl, hne, htail⟩
      have hgone : p ∉ rest := (List.nodup_cons.mp hlist.nodup).1
      obtain ⟨hin, hsizes⟩ := h.owns.free (h.held List.mem_cons_self) hfree
      have hstays : ∀ q ∈ rest, q ∈ live.erase p := by
        intro q hq
        exact (List.mem_erase_of_ne (ne_of_mem_of_not_mem hq hgone)).mpr
          (h.held (List.mem_cons_of_mem p hq))
      refine ⟨p, rest, rfl, ⟨⟨?_, ?_, hin, hstays⟩, fun q hq => ?_⟩, completions_completed d heap,
        rfl⟩
      · exact ⟨rfl, h.openPort.initialized, h.openPort.currDev, h.openPort.ringHead⟩
      · simp only [Device.Queued, Device.completed, hp]
        exact htail
      · simp only [Device.completed, hsizes q (hstays q hq)]
        exact h.sized q (List.mem_cons_of_mem p hq)

theorem Served.output {s s' : Procs} (h : Served a total d queue live)
    (hrun : serialOutputInterrupt studentHeap d s = .ok (d', s')) :
    (Served a total d' queue live ∧ d'.completions = d.completions ∧
      d'.port.operation = d.port.operation) ∨
    (d.port.operation = .write ∧ ∃ p rest, queue = p :: rest ∧
      Served a total d' rest (live.erase p) ∧ d'.completions = d.completions + 1 ∧
      d'.port.operation = .idle) := by
  by_cases hop : d.port.operation = .write
  · by_cases hhead : d.port.ioHead = 0
    · rw [serialOutputInterrupt, if_neg (not_not.mpr hop)] at hrun
      simp only [Device.outb, if_pos hhead] at hrun
      cases hrun
    · by_cases hmore : d.More
      · rw [serialOutputInterrupt_more s h.openPort.currDev hop hhead hmore] at hrun
        cases hrun
        have hnext : Requests (InRegion a total) d.sendNext queue live :=
          h.toRequests.congr (h.openPort.congr rfl rfl rfl rfl) rfl rfl rfl
        exact Or.inl ⟨⟨hnext, h.sized⟩, completions_sendNext d, rfl⟩
      · exact Or.inr ⟨hop, h.completed hop hhead hmore hrun⟩
  · rw [serialOutputInterrupt_spurious s hop] at hrun
    cases hrun
    exact Or.inl ⟨h, rfl, rfl⟩

/-- An interrupt goes on with a transfer or completes the oldest request. -/
theorem Served.interrupt {iir : U8} {s s' : Procs} (h : Served a total d queue live)
    (hrun : serialInterrupt studentHeap iir d s = .ok (d', s')) :
    (Served a total d' queue live ∧ d'.completions = d.completions ∧
      d'.port.operation = d.port.operation) ∨
    (d.port.operation = .write ∧ ∃ p rest, queue = p :: rest ∧
      Served a total d' rest (live.erase p) ∧ d'.completions = d.completions + 1 ∧
      d'.port.operation = .idle) := by
  obtain ⟨d₁, rfl, hserved⟩ := serialInterrupt_cases hrun
  rw [completions_outb, port_outb]
  cases hserved with
  | inl houtput =>
      cases h.output houtput with
      | inl hsame => exact Or.inl ⟨hsame.1.outb _ _, hsame.2⟩
      | inr hended =>
          obtain ⟨hop, p, rest, hqueue, hrest, hdone⟩ := hended
          exact Or.inr ⟨hop, p, rest, hqueue, hrest.outb _ _, hdone⟩
  | inr hother =>
      left
      cases hother with
      | inl hinput =>
          rw [hinput.1, serialInputInterrupt]
          split
          · exact ⟨(h.outb _ _).outb _ _, completions_outb _ _ _, rfl⟩
          · exact ⟨h.outb _ _, rfl, rfl⟩
      | inr hnone =>
          rw [hnone.1]
          exact ⟨h.outb _ _, rfl, rfl⟩

end Served

theorem exitCase_device {K K' : Kernel Heap} {live : List U32} {n r : U32}
    (hown : OwnsBlocks K.device.heap live)
    (hpcb : ∀ queue, K.device.Queued queue → K.globalPcb ∉ queue)
    (hrun : exitCase studentHeap K n = .ok (r, K')) :
    ∃ heap, HeapUse K.device heap ∧ K'.device = { K.device with heap := heap } := by
  cases exitCase_cases hrun with
  | inl hdispatch => exact ⟨_, .none, (dispatch_device hdispatch.2).1⟩
  | inr hfreed =>
      obtain ⟨hg, -, result, s, freed, heap, -, hfree, -, rfl⟩ := hfreed
      obtain ⟨hlive, hname⟩ := (pcbFree_returns_iff hown hg).mp ⟨_, hfree⟩
      obtain ⟨r', heap', hrelease, -⟩ := studentHeap_laws.free_live hown hlive
      rw [pcbFree_unnamed studentHeap_releases hown hg hlive hname hrelease] at hfree
      cases hfree
      exact ⟨heap, .release K.globalPcb r' heap ⟨hg, hpcb⟩ hrelease, rfl⟩

/-- Twice as many requests are left behind as there are transfers in progress, and one more
for each that has been completed. -/
structure Backlog (a total : Nat) (d : Device Heap) (queue live : List U32) : Prop
    extends Served a total d queue live where
  enough : d.completions + 2 * d.writes ≤ queue.length

section Backlog

variable {a total : Nat} {d d' : Device Heap} {queue live : List U32}

theorem Backlog.congr (h : Backlog a total d queue live) {queue' live' : List U32}
    (hserved : Served a total d' queue' live') (hcompletions : d'.completions = d.completions)
    (hwrites : d'.writes ≤ d.writes) (hqueue : queue.length ≤ queue'.length) :
    Backlog a total d' queue' live' := by
  refine ⟨hserved, ?_⟩
  have henough := h.enough
  omega

theorem Backlog.interrupt {iir : U8} {s s' : Procs} (h : Backlog a total d queue live)
    (hrun : serialInterrupt studentHeap iir d s = .ok (d', s')) :
    ∃ queue' live', Backlog a total d' queue' live' := by
  have henough := h.enough
  cases h.toServed.interrupt hrun with
  | inl hsame =>
      obtain ⟨hserved, hcompletions, hoperation⟩ := hsame
      have hwrites : d'.writes = d.writes := by rw [Device.writes, Device.writes, hoperation]
      exact ⟨queue, live, h.congr hserved hcompletions hwrites.le le_rfl⟩
  | inr hended =>
      obtain ⟨hop, p, rest, rfl, hserved, hcompletions, hidle⟩ := hended
      have hbefore : d.writes = 1 := by rw [Device.writes, if_pos hop]
      have hafter : d'.writes = 0 := by
        rw [Device.writes, hidle]
        rfl
      rw [List.length_cons] at henough
      exact ⟨rest, live.erase p, hserved, by omega⟩

theorem Backlog.read {proc dev buf len : U32} (h : Backlog a total d queue live)
    (hrun : ioScheduler studentHeap d proc dev buf len .read = .ok d') :
    ∃ queue' live', Backlog a total d' queue' live' := by
  cases h.toServed.request (Or.inl rfl) hrun with
  | inl hrefused => exact ⟨queue, live, hrefused.2 ▸ h⟩
  | inr haccepted =>
      obtain ⟨-, hcompletions, hstarts, temp, hserved⟩ := haccepted
      have hwrites : d'.writes ≤ d.writes := by
        rw [Device.writes, Device.writes]
        by_cases hwrite : d'.port.operation = .write
        · have hbefore : d.port.operation = .write := (hstarts hwrite).resolve_right (by decide)
          rw [if_pos hwrite, if_pos hbefore]
        · rw [if_neg hwrite]
          exact Nat.zero_le _
      exact ⟨_, _, h.congr hserved hcompletions hwrites (by simp)⟩

theorem writes_le_one (d : Device Heap) : d.writes ≤ 1 := by
  rw [Device.writes]
  split <;> omega

/-- A WRITE call makes two requests, and starts one transfer at most. -/
theorem Backlog.write {d₁ : Device Heap} {proc₁ proc₂ dev buf len : U32}
    (h : Backlog a total d queue live)
    (hfirst : ioScheduler studentHeap d proc₁ dev buf len .write = .ok d₁)
    (hsecond : ioScheduler studentHeap d₁ proc₂ dev buf len .write = .ok d') :
    ∃ queue' live', Backlog a total d' queue' live' := by
  cases h.toServed.request (Or.inr rfl) hfirst with
  | inl hrefused =>
      rw [hrefused.2, ioScheduler_refused proc₂ len .write hrefused.1] at hsecond
      cases hsecond
      exact ⟨queue, live, h⟩
  | inr haccepted =>
      obtain ⟨hvalid, hcompletions₁, -, temp₁, hserved₁⟩ := haccepted
      cases hserved₁.request (Or.inr rfl) hsecond with
      | inl hrefused => exact absurd hrefused.1 hvalid
      | inr haccepted =>
          obtain ⟨-, hcompletions₂, -, temp₂, hserved₂⟩ := haccepted
          refine ⟨_, _, hserved₂, ?_⟩
          have henough := h.enough
          have hwrites := writes_le_one d'
          simp only [List.length_append, List.length_singleton]
          omega

end Backlog

section Life

variable {a total : Nat} {K K' : Kernel Heap} {queue live : List U32}

theorem sysCall_backlog {ctx r : U32} (h : Backlog a total K.device queue live)
    (hpcb : ∀ queue, K.device.Queued queue → K.globalPcb ∉ queue)
    (hrun : sysCall studentHeap K ctx = .ok (r, K')) :
    ∃ queue' live', Backlog a total K'.device queue' live' := by
  rcases sysCall_cases hrun with
    hK' | hexit | hidle | ⟨K₁, hrequest, hidle⟩ | ⟨K₁, K₂, hfirst, hsecond, hidle⟩
  · rw [hK']
    exact ⟨queue, live, h⟩
  · obtain ⟨heap, huse, hdevice⟩ := exitCase_device h.owns.owns hpcb hexit
    obtain ⟨live', hserved⟩ := h.toServed.work K.device.mem huse
    rw [hdevice]
    exact ⟨queue, live', h.congr hserved rfl le_rfl le_rfl⟩
  · rw [(idleCase_device hidle).1]
    exact ⟨queue, live, h⟩
  · rw [(idleCase_device hidle).1]
    obtain ⟨-, proc, hsched⟩ := requestCase_device hrequest
    exact h.read hsched
  · rw [(idleCase_device hidle).1]
    obtain ⟨hcontexts, proc₁, hsched₁⟩ := requestCase_device hfirst
    obtain ⟨-, proc₂, hsched₂⟩ := requestCase_device hsecond
    rw [hcontexts] at hsched₂
    exact h.write hsched₁ hsched₂

theorem lifeStep_backlog (h : Backlog a total K.device queue live) (hstep : LifeStep K K') :
    ∃ queue' live', Backlog a total K'.device queue' live' := by
  cases hstep with
  | call ctx r K' hpcb hrun => exact sysCall_backlog h hpcb hrun
  | interrupt iir device procs hrun => exact h.interrupt hrun
  | work procs contexts mem heap huse =>
      obtain ⟨live', hserved⟩ := h.toServed.work mem huse
      exact ⟨queue, live', h.congr hserved rfl le_rfl le_rfl⟩

end Life

/-- Each request that is completed leaves one behind, in a block of 32 bytes: in all its life
the system completes no more requests than its heap has room for. -/
theorem requests_completed_bounded {a total : Nat} {K₀ K : Kernel Heap} {live : List U32}
    (hfresh : FreshPort K₀.device) (hin : InRegion a total K₀.device.heap live)
    (hrun : Relation.ReflTransGen LifeStep K₀ K) :
    K.device.completions * 32 ≤ total ∧ ∃ queue, K.device.Queued queue ∧
      K.device.completions + 2 * K.device.writes ≤ queue.length := by
  have hstart : Backlog a total K₀.device [] live := by
    refine ⟨⟨⟨hfresh.openPort, hfresh.empty, hin, List.nil_subset _⟩, ?_⟩, ?_⟩
    · exact fun p hp => absurd hp List.not_mem_nil
    · rw [Device.completions, Device.calls, hfresh.trace, Device.writes, hfresh.idle]
      exact Nat.le_refl 0
  have hkeep : ∀ K K' : Kernel Heap, (∃ queue live, Backlog a total K.device queue live) →
      LifeStep K K' → ∃ queue live, Backlog a total K'.device queue live := by
    intro K K' hbacklog hstep
    obtain ⟨queue, live, h⟩ := hbacklog
    exact lifeStep_backlog h hstep
  obtain ⟨queue, live', h⟩ :=
    Run.invariant (fun K => ∃ queue live, Backlog a total K.device queue live) hkeep hrun
      ⟨[], live, hstart⟩
  have hroom := h.room
  have henough := h.enough
  exact ⟨by omega, queue, h.queued, henough⟩

def writeOnce : Except Fault (Kernel Heap × Device Heap) := do
  let (_, K) ← sysCall studentHeap (callingKernel 0x200 (callContext 3 COM1 0x6000 1)) 0x1234
  let (device, _) ← serialInterrupt studentHeap 2 K.device noQueues
  return (K, device)

theorem requests_completed_bounded_one_write :
    ∃ K, Relation.ReflTransGen LifeStep (callingKernel 0x200 (callContext 3 COM1 0x6000 1)) K ∧
      K.device.completions = 1 ∧ ∃ queue, K.device.Queued queue ∧ 1 ≤ queue.length := by
  have hcompute : writeOnce.map (fun x => x.2.completions) = .ok 1 := by decide +kernel
  obtain ⟨⟨K, device⟩, hwrite, hone⟩ := of_map_ok hcompute
  obtain ⟨⟨r, K'⟩, hcall, hrest⟩ := of_bind_ok hwrite
  obtain ⟨⟨device', procs⟩, hinterrupt, heq⟩ := of_bind_ok hrest
  cases heq
  have hpcb : ∀ queue, (callingKernel 0x200 (callContext 3 COM1 0x6000 1)).device.Queued queue →
      (callingKernel 0x200 (callContext 3 COM1 0x6000 1)).globalPcb ∉ queue := by
    intro queue hqueue
    rw [isList_null.mp hqueue]
    exact List.not_mem_nil
  have hwork : LifeStep K { K with procs := noQueues } :=
    .work K noQueues K.contexts K.device.mem K.device.heap .none
  have hend : LifeStep { K with procs := noQueues } { K with device := device, procs := procs } :=
    .interrupt { K with procs := noQueues } 2 device procs hinterrupt
  have hrun : Relation.ReflTransGen LifeStep (callingKernel 0x200 (callContext 3 COM1 0x6000 1))
      { K with device := device, procs := procs } :=
    ((Relation.ReflTransGen.single (.call _ _ _ _ hpcb hcall)).tail hwork).tail hend
  have hregion : HeapRegion (fun _ => 0xD000000) 50000 := ⟨by decide, by decide⟩
  have hin : InRegion 0xD000000 50004 kernelHeap [] := ⟨_, heapInv_init ⟨fun _ => 0⟩ hregion⟩
  obtain ⟨-, queue, hqueue, henough⟩ := requests_completed_bounded
    ⟨⟨rfl, rfl, rfl, rfl⟩, rfl, rfl, rfl⟩ hin hrun
  refine ⟨_, hrun, hone, queue, hqueue, ?_⟩
  have hcompleted : device.completions = 1 := hone
  simp only [hcompleted] at henough
  omega

end Mpx
