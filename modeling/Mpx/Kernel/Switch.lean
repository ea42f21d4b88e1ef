import Mpx.Kernel.Isr
import Mpx.Kernel.Population
import Mpx.Kernel.Yield

/-! Switches between processes on the machine: what a process has in its registers lies
on its stack until it is dispatched again. -/

namespace Mpx

open Memory PointerList X86 Procs Run

variable {σ : Type} {F : HeapFunctions σ}

def InStack (p x : U32) : Prop := p.toNat + 64 ≤ x.toNat ∧ x.toNat < p.toNat + 1088

/-- PCBs in memory: `sizeof(struct pcb)` bytes each. -/
structure SeparateBlocks (pcbs : List U32) : Prop where
  fits : ∀ p ∈ pcbs, p.toNat + 1100 ≤ 2 ^ 32
  apart : ∀ p ∈ pcbs, ∀ q ∈ pcbs, p ≠ q →
    p.toNat + 1100 ≤ q.toNat ∨ q.toNat + 1100 ≤ p.toNat

/-- The stack of the running code reaches down to `low`: room for a context, a pointer to
it and the frame of `sys_call`. Before the first process the kernel has a stack of its
own. -/
structure StackRoom (pcbs : List U32) (running esp : U32) (low : Nat) : Prop where
  room : low + 68 ≤ esp.toNat
  process : running ≠ 0 → running.toNat + 64 ≤ low ∧ esp.toNat ≤ running.toNat + 1088
  kernel : running = 0 → ∀ p ∈ pcbs, ∀ x : U32, InStack p x →
    x.toNat < low ∨ esp.toNat ≤ x.toNat

/-- `sys_call` uses the stack below the context and above `low`. -/
def Leftover.Within (left : Leftover) (esp : U32) (low : Nat) : Prop :=
  ∀ m (x : U32), x.toNat < low ∨ esp.toNat - 64 ≤ x.toNat →
    (left.mem m).byte x = m.byte x

/-- Between system calls the running code computes in its registers and in memory, except
the stacks of the processes that do not run. -/
inductive MachineStep (F : HeapFunctions σ) (pcbs : List U32) :
    Cpu (Kernel σ) → Cpu (Kernel σ) → Prop
  | compute (c : Cpu (Kernel σ)) (regs : Regs) (mem : Mem)
      (hmem : ∀ p ∈ pcbs, p ≠ c.world.globalPcb → ∀ x, InStack p x →
        mem.byte x = c.mem.byte x) : MachineStep F pcbs c { c with regs := regs, mem := mem }
  | idle (c : Cpu (Kernel σ)) (left : Leftover) (handler : U32) (low : Nat)
      (c' : Cpu (Kernel σ)) (heax : c.reg .eax = 1)
      (hroom : StackRoom pcbs c.world.globalPcb (c.reg .esp) low)
      (hleft : left.Within (c.reg .esp) low)
      (hrun : int60 F left handler c = .ok c') : MachineStep F pcbs c c'

theorem Yielded.dispatchable {K K' : Kernel σ} {n : U32} {rest ready' : List U32}
    (h : Yielded K K' n rest ready') (hbefore : Dispatchable K.procs K.globalPcb (n :: rest)) :
    Dispatchable K'.procs K'.globalPcb ready' := by
  have hgone : n ∉ rest := (List.nodup_cons.mp hbefore.list.nodup).1
  constructor
  · exact h.list
  · exact h.states
  · exact h.sorted
  · intro _ hmem
    rw [h.running] at hmem
    by_cases hg : K.globalPcb = 0
    · rw [h.alone hg] at hmem
      exact hgone hmem
    · rcases h.requeued hg with ⟨front, back, hrest, hready, -, -⟩
      rw [hready] at hmem
      have hcases : n = K.globalPcb ∨ n ∈ front ++ back :=
        List.mem_cons.mp (List.perm_middle.mem_iff.mp hmem)
      rcases hcases with hcaller | hold
      · apply hbefore.apart hg
        rw [← hcaller]
        exact List.mem_cons_self
      · rw [← hrest] at hold
        exact hgone hold

/-- An IDLE call seen from the machine: who runs next, and where its context is. The queues
may be in any order and the PCBs in any state. -/
structure Switched (K K' : Kernel σ) (ctx r : U32) : Prop where
  contexts : K'.contexts = K.contexts
  running : K'.globalPcb ≠ K.globalPcb → K'.globalPcb = K.procs.readyHead
  resumed : K'.globalPcb ≠ K.globalPcb → r = (K.procs.pcbs K'.globalPcb).stackTop
  saved : K'.globalPcb ≠ K.globalPcb → K.globalPcb ≠ 0 →
    (K'.procs.pcbs K.globalPcb).stackTop = ctx
  others : ∀ x, x ≠ K.globalPcb → (K'.procs.pcbs x).stackTop = (K.procs.pcbs x).stackTop

theorem idleCase_switched {K K' : Kernel σ} {ctx r : U32}
    (hrun : idleCase K ctx K.procs.readyHead = .ok (r, K')) : Switched K K' ctx r := by
  have hcontexts := (idleCase_device hrun).2
  by_cases hn : K.procs.readyHead = 0
  · obtain ⟨context, hcases⟩ := idleCase_cases hrun
    have hsame : K' = { K with initialContext := context } := by
      rcases hcases with ⟨-, -, hK'⟩ | ⟨hsome, -⟩ | ⟨hsome, -⟩
      · exact hK'
      · exact absurd hn hsome
      · exact absurd hn hsome
    have hglobal : K'.globalPcb = K.globalPcb := by
      rw [hsame]
    refine ⟨hcontexts, fun hne => absurd hglobal hne, fun hne => absurd hglobal hne,
      fun hne => absurd hglobal hne, ?_⟩
    intro x _
    rw [hsame]
  · have hglobal := (idleCase_dispatches hn hrun).2
    by_cases hg : K.globalPcb = 0
    · obtain ⟨hr, htops⟩ := idleCase_first hn hg hrun
      refine ⟨hcontexts, fun _ => hglobal, fun _ => ?_, fun _ hne => absurd hg hne,
        fun x _ => htops x⟩
      rw [hglobal]
      exact hr
    · obtain ⟨hr, hsaved, hothers⟩ := idleCase_stackTop hn hg hrun
      refine ⟨hcontexts, fun _ => hglobal, ?_, fun _ _ => hsaved, hothers⟩
      rw [hglobal]
      exact hr

/-- With an ordered ready queue an IDLE call returns, and the next one finds such a queue
again. -/
theorem idleCase_turn {K : Kernel σ} {ctx : U32} {ready : List U32}
    (h : Dispatchable K.procs K.globalPcb ready) :
    ∃ r K' ready', idleCase K ctx K.procs.readyHead = .ok (r, K') ∧
      Dispatchable K'.procs K'.globalPcb ready' := by
  cases ready with
  | nil =>
      have hhead : K.procs.readyHead = 0 := h.list
      obtain ⟨context, hcontext⟩ := keepContext_eq K ctx
      rw [idleCase, hcontext, if_pos hhead]
      exact ⟨ctx, _, [], rfl, h⟩
  | cons n rest =>
      have hhead : K.procs.readyHead = n := h.list.1
      obtain ⟨K', ready', hrun, hyield⟩ := @idleCase_spec σ K ctx n rest h
      rw [hhead]
      exact ⟨_, K', ready', hrun, hyield.dispatchable h⟩

theorem sysCall_idle {K : Kernel σ} {ctx : U32}
    (hop : syscallNumber (K.contexts ctx).eax = some .idle) :
    sysCall F K ctx = idleCase K ctx K.procs.readyHead := by
  simp only [sysCall, hop]

theorem idle_number {m : Mem} {p esp : U32} {regs : Regs}
    (hstack : Stacked m p (contextWords regs esp)) (heax : regs.gpr .eax = 1) :
    syscallNumber (readContext m p).eax = some .idle := by
  have hword : load32 m (p + 20) = 1 := by
    rw [← heax]
    simp only [Stacked, contextWords, BitVec.add_assoc, BitVec.reduceAdd] at hstack
    exact hstack.2.2.2.2.2.1
  simp only [readContext, hword]
  decide

/-- An ordered ready queue, on which the running process is not. -/
def InTurn (K : Kernel σ) : Prop := ∃ ready, Dispatchable K.procs K.globalPcb ready

theorem int60_returns {c : Cpu (Kernel σ)} (h : InTurn c.world) (heax : c.reg .eax = 1)
    (hroom : 68 ≤ (c.reg .esp).toNat) (left : Leftover) (handler : U32) :
    ∃ c', int60 F left handler c = .ok c' := by
  rcases h with ⟨ready, hready⟩
  rcases int60_spec F left handler c hroom with ⟨m, esp, hstack, -, hcall⟩
  have hidle : sysCall F { c.world with contexts := readContext m } (c.reg .esp - 64) =
      idleCase { c.world with contexts := readContext m } (c.reg .esp - 64)
        c.world.procs.readyHead := sysCall_idle (idle_number hstack heax)
  rcases @idleCase_turn σ { c.world with contexts := readContext m } (c.reg .esp - 64) ready
    hready with ⟨r, K', ready', hrun, -⟩
  rw [hidle, hrun] at hcall
  exact ⟨_, hcall⟩

/-- `int 0x60` with IDLE writes the context of the caller and nothing else outside the
stack frame of `sys_call`. -/
theorem int60_idle {c c' : Cpu (Kernel σ)} {left : Leftover} {handler : U32} {low : Nat}
    (heax : c.reg .eax = 1) (hroom : low + 68 ≤ (c.reg .esp).toNat)
    (hleft : left.Within (c.reg .esp) low) (hrun : int60 F left handler c = .ok c') :
    ∃ esp r contexts, c'.regs = contextRegs c'.mem r ∧
      Stacked c'.mem (c.reg .esp - 64) (contextWords c.regs esp) ∧
      (∀ x : U32, x.toNat < low ∨ (c.reg .esp).toNat ≤ x.toNat →
        c'.mem.byte x = c.mem.byte x) ∧
      idleCase { c.world with contexts := contexts } (c.reg .esp - 64)
        c.world.procs.readyHead = .ok (r, c'.world) := by
  rcases int60_spec F left handler c (by omega) with ⟨m, esp, hstack, hout, hcall⟩
  have hidle : sysCall F { c.world with contexts := readContext m } (c.reg .esp - 64) =
      idleCase { c.world with contexts := readContext m } (c.reg .esp - 64)
        c.world.procs.readyHead := sysCall_idle (idle_number hstack heax)
  rw [hcall, hidle] at hrun
  rcases of_bind_ok hrun with ⟨⟨r, K'⟩, hsys, heq⟩
  cases heq
  have hctx : (c.reg .esp - 64).toNat = (c.reg .esp).toNat - 64 := by
    bv_omega
  -- the word that `sys_call` stores is the one that lies there
  have hkept : load32 m (c.reg .esp - 64 + 20) = load32 (left.mem m) (c.reg .esp - 64 + 20) := by
    symm
    apply load32_congr m (left.mem m) _ (by bv_omega)
    intro x hlow _
    apply hleft
    right
    bv_omega
  have hmem : store32 (left.mem m) (c.reg .esp - 64 + 20) (K'.contexts (c.reg .esp - 64)).eax =
      left.mem m := by
    rw [(idleCase_device hsys).2]
    simp only [readContext]
    rw [hkept, store32_load32]
  refine ⟨esp, r, readContext m, rfl, ?_, ?_, hsys⟩
  · simp only [hmem]
    apply hstack.congr
    · simp only [contextWords, List.length_cons, List.length_nil]
      omega
    · intro x hx _
      apply hleft
      right
      omega
  · intro x hx
    simp only [hmem]
    rw [hleft m x (by omega), hout x (by omega)]

theorem int60_switched {c c' : Cpu (Kernel σ)} {left : Leftover} {handler : U32} {low : Nat}
    (heax : c.reg .eax = 1) (hroom : low + 68 ≤ (c.reg .esp).toNat)
    (hleft : left.Within (c.reg .esp) low) (hrun : int60 F left handler c = .ok c') :
    ∃ esp r contexts, c'.regs = contextRegs c'.mem r ∧
      Stacked c'.mem (c.reg .esp - 64) (contextWords c.regs esp) ∧
      (∀ x : U32, x.toNat < low ∨ (c.reg .esp).toNat ≤ x.toNat →
        c'.mem.byte x = c.mem.byte x) ∧
      Switched { c.world with contexts := contexts } c'.world (c.reg .esp - 64) r := by
  rcases int60_idle heax hroom hleft hrun with ⟨esp, r, contexts, hregs, hstack, hout, hidle⟩
  exact ⟨esp, r, contexts, hregs, hstack, hout, idleCase_switched hidle⟩

theorem inTurn_step {pcbs : List U32} {c c' : Cpu (Kernel σ)} (h : InTurn c.world)
    (hstep : MachineStep F pcbs c c') : InTurn c'.world := by
  cases hstep with
  | compute regs mem _ => exact h
  | idle left handler low c' heax hroom hleft hrun =>
      rcases h with ⟨ready, hready⟩
      rcases int60_idle heax hroom.room hleft hrun with ⟨-, r, contexts, -, -, -, hidle⟩
      rcases @idleCase_turn σ { c.world with contexts := contexts } (c.reg .esp - 64) ready
        hready with ⟨r', K', ready', hrun', hready'⟩
      have hsame : idleCase { c.world with contexts := contexts } (c.reg .esp - 64)
          c.world.procs.readyHead = .ok (r', K') := hrun'
      rw [hidle] at hsame
      cases hsame
      exact ⟨ready', hready'⟩

structure Among (pcbs : List U32) (K : Kernel σ) : Prop where
  queued : ∀ p, K.procs.OnSome p → p ∈ pcbs
  running : K.globalPcb ≠ 0 → K.globalPcb ∈ pcbs

theorem among_step {pcbs : List U32} {c c' : Cpu (Kernel σ)} (h : Among pcbs c.world)
    (hstep : MachineStep F pcbs c c') : Among pcbs c'.world := by
  cases hstep with
  | compute regs mem _ => exact h
  | idle left handler low c' heax hroom hleft hrun =>
      rcases int60_idle heax hroom.room hleft hrun with ⟨-, r, contexts, -, -, -, hidle⟩
      have hconfined : Confined (fun p => p ∈ pcbs) c.world.procs c'.world.procs :=
        idleCase_confined (S := fun p => p ∈ pcbs)
          (K := { c.world with contexts := contexts }) h.running hidle
      have hswitch : Switched { c.world with contexts := contexts } c'.world
          (c.reg .esp - 64) r := idleCase_switched hidle
      refine ⟨hconfined.within h.queued, fun hne => ?_⟩
      by_cases hsame : c'.world.globalPcb = c.world.globalPcb
      · rw [hsame] at hne ⊢
        exact h.running hne
      · have hhead : c'.world.globalPcb = c.world.procs.readyHead := hswitch.running hsame
        rw [hhead] at hne ⊢
        exact h.queued _ ⟨.ready, Reaches.here hne⟩

/-- A process that does not run, with the registers that it had before its last IDLE
call: they are in the context at its `stack_top`. -/
structure Away (p : U32) (regs : Regs) (c : Cpu (Kernel σ)) : Prop where
  waiting : c.world.globalPcb ≠ p
  context : ∃ esp, Stacked c.mem (c.world.procs.pcbs p).stackTop (contextWords regs esp)
  esp : regs.gpr .esp = (c.world.procs.pcbs p).stackTop + 64
  low : p.toNat + 64 ≤ (c.world.procs.pcbs p).stackTop.toNat
  high : (c.world.procs.pcbs p).stackTop.toNat + 64 ≤ p.toNat + 1088

theorem StackRoom.outside {pcbs : List U32} {p g esp : U32} {low : Nat}
    (h : StackRoom pcbs g esp low) (hblocks : SeparateBlocks pcbs) (hp : p ∈ pcbs)
    (hg : g ≠ 0 → g ∈ pcbs) (hne : g ≠ p) {x : U32} (hx : InStack p x) :
    x.toNat < low ∨ esp.toNat ≤ x.toNat := by
  by_cases hzero : g = 0
  · exact h.kernel hzero p hp x hx
  · rcases h.process hzero with ⟨hlow, hhigh⟩
    rcases hx with ⟨hxlow, hxhigh⟩
    rcases hblocks.apart g (hg hzero) p hp hne with hleft | hright
    · right
      omega
    · left
      omega

theorem stack_kept {pcbs : List U32} {c c' : Cpu (Kernel σ)} {p : U32}
    (hblocks : SeparateBlocks pcbs) (hamong : Among pcbs c.world) (hp : p ∈ pcbs)
    (hne : c.world.globalPcb ≠ p) (hstep : MachineStep F pcbs c c') :
    ∀ x, InStack p x → c'.mem.byte x = c.mem.byte x := by
  intro x hx
  cases hstep with
  | compute regs mem hmem => exact hmem p hp hne.symm x hx
  | idle left handler low c' heax hroom hleft hrun =>
      rcases int60_switched heax hroom.room hleft hrun with
        ⟨-, -, -, -, -, hout, -⟩
      exact hout x (hroom.outside hblocks hp hamong.running hne hx)

theorem Away.stacked {pcbs : List U32} {c c' : Cpu (Kernel σ)} {p : U32} {regs : Regs}
    (h : Away p regs c) (hblocks : SeparateBlocks pcbs) (hp : p ∈ pcbs)
    (hkept : ∀ x, InStack p x → c'.mem.byte x = c.mem.byte x) :
    ∃ esp, Stacked c'.mem (c.world.procs.pcbs p).stackTop (contextWords regs esp) := by
  rcases h.context with ⟨esp, hstack⟩
  have hlow := h.low
  have hhigh := h.high
  have hlength : (contextWords regs esp).length = 16 := rfl
  refine ⟨esp, hstack.congr ?_ ?_⟩
  · have hfits := hblocks.fits p hp
    omega
  · intro x hxlow hxhigh
    apply hkept
    constructor
    · omega
    · omega

/-- A process that waits keeps its registers, whatever the others do. -/
theorem away_step {pcbs : List U32} {c c' : Cpu (Kernel σ)} {p : U32} {regs : Regs}
    (h : Away p regs c) (hblocks : SeparateBlocks pcbs) (hamong : Among pcbs c.world)
    (hp : p ∈ pcbs) (hstep : MachineStep F pcbs c c') (hwait : c'.world.globalPcb ≠ p) :
    Away p regs c' := by
  have hstack := h.stacked hblocks hp (stack_kept hblocks hamong hp h.waiting hstep)
  have htop : (c'.world.procs.pcbs p).stackTop = (c.world.procs.pcbs p).stackTop := by
    cases hstep with
    | compute regs mem _ => rfl
    | idle left handler low c' heax hroom hleft hrun =>
        rcases int60_switched heax hroom.room hleft hrun with
          ⟨-, r, contexts, -, -, -, hswitch⟩
        exact hswitch.others p h.waiting.symm
  constructor
  · exact hwait
  · rw [htop]
    exact hstack
  · rw [htop]
    exact h.esp
  · rw [htop]
    exact h.low
  · rw [htop]
    exact h.high

theorem away_back {pcbs : List U32} {c c' : Cpu (Kernel σ)} {p : U32} {regs : Regs}
    (h : Away p regs c) (hblocks : SeparateBlocks pcbs) (hamong : Among pcbs c.world)
    (hp : p ∈ pcbs) (hstep : MachineStep F pcbs c c') (hback : c'.world.globalPcb = p) :
    c'.regs = regs := by
  rcases h.stacked hblocks hp (stack_kept hblocks hamong hp h.waiting hstep) with ⟨esp, hstack⟩
  cases hstep with
  | compute regs mem _ => exact absurd hback h.waiting
  | idle left handler low c' heax hroom hleft hrun =>
      rcases int60_switched heax hroom.room hleft hrun with
        ⟨-, r, contexts, hregs, -, -, hswitch⟩
      have hr : r = (c.world.procs.pcbs p).stackTop := by
        have hresumed := hswitch.resumed
        rw [hback] at hresumed
        exact hresumed h.waiting.symm
      rw [hregs, hr]
      exact contextRegs_eq hstack h.esp

theorem switch_out {pcbs : List U32} {c c' : Cpu (Kernel σ)} {p : U32}
    (hrunning : c.world.globalPcb = p) (hp : p ≠ 0) (hstep : MachineStep F pcbs c c')
    (hout : c'.world.globalPcb ≠ p) : Away p c.regs c' := by
  cases hstep with
  | compute regs mem _ => exact absurd hrunning hout
  | idle left handler low c' heax hroom hleft hrun =>
      rcases int60_switched heax hroom.room hleft hrun with
        ⟨esp, r, contexts, -, hstack, -, hswitch⟩
      have hsaved : (c'.world.procs.pcbs p).stackTop = c.reg .esp - 64 := by
        rw [← hrunning]
        rw [← hrunning] at hp hout
        exact hswitch.saved hout hp
      have hbounds := hroom.process (by rwa [hrunning])
      rw [hrunning] at hbounds
      have hlow := hroom.room
      have hctx : (c.reg .esp - 64).toNat = (c.reg .esp).toNat - 64 := by
        bv_omega
      constructor
      · exact hout
      · rw [hsaved]
        exact ⟨esp, hstack⟩
      · rw [hsaved, BitVec.sub_add_cancel]
        rfl
      · rw [hsaved, hctx]
        omega
      · rw [hsaved, hctx]
        omega

def Elsewhere (F : HeapFunctions σ) (pcbs : List U32) (p : U32) (c c' : Cpu (Kernel σ)) : Prop :=
  MachineStep F pcbs c c' ∧ c'.world.globalPcb ≠ p

/-- A process that an IDLE call switches out goes on with its own registers when it is
dispatched again. The calls return at least where the ready queue is in order. -/
theorem resumes_own_registers {pcbs : List U32} {c₀ : Cpu (Kernel σ)}
    (hblocks : SeparateBlocks pcbs) (hamong : Among pcbs c₀.world) (c₁ : Cpu (Kernel σ))
    (hrun : Relation.ReflTransGen (MachineStep F pcbs) c₀ c₁) :
    (InTurn c₀.world → ∀ left handler, c₁.reg .eax = 1 → 68 ≤ (c₁.reg .esp).toNat →
      ∃ c', int60 F left handler c₁ = .ok c') ∧
    ∀ p c₂ c₃ c₄, p ≠ 0 → c₁.world.globalPcb = p →
      MachineStep F pcbs c₁ c₂ → c₂.world.globalPcb ≠ p →
      Relation.ReflTransGen (Elsewhere F pcbs p) c₂ c₃ →
      MachineStep F pcbs c₃ c₄ → c₄.world.globalPcb = p → c₄.regs = c₁.regs := by
  have hamong₁ : Among pcbs c₁.world :=
    Run.invariant (fun c => Among pcbs c.world) (fun _ _ h hstep => among_step h hstep) hrun
      hamong
  constructor
  · intro hturn left handler heax hroom
    have hturn₁ : InTurn c₁.world :=
      Run.invariant (fun c => InTurn c.world) (fun _ _ h hstep => inTurn_step h hstep) hrun hturn
    exact int60_returns hturn₁ heax hroom left handler
  · intro p c₂ c₃ c₄ hp hrunning hout hwait haway hin hback
    have hmem : p ∈ pcbs := by
      rw [← hrunning]
      rw [← hrunning] at hp
      exact hamong₁.running hp
    have hinit : Among pcbs c₂.world ∧ Away p c₁.regs c₂ :=
      ⟨among_step hamong₁ hout, switch_out hrunning hp hout hwait⟩
    have hlast : Among pcbs c₃.world ∧ Away p c₁.regs c₃ := by
      apply Run.invariant (fun c => Among pcbs c.world ∧ Away p c₁.regs c) _ haway hinit
      intro c c' h hstep
      exact ⟨among_step h.1 hstep.1, away_step h.2 hblocks h.1 hmem hstep.1 hstep.2⟩
    exact away_back hlast.2 hblocks hlast.1 hmem hin hback

def idleRegs (ebx esp eip : U32) : Regs where
  gpr
    | .eax => 1
    | .ebx => ebx
    | .esp => esp
    | _ => 7
  seg := fun _ => 0x10
  eip := eip
  cs := 8
  flags := 0x202

/-- The process at 0x1000 runs. The ready queue is not in order: the priority of the process
at 0x2000 has been raised behind the back of the queue. -/
def switchingCpu : Cpu (Kernel Heap) where
  regs := idleRegs 5 0x1400 0x10040
  mem := ⟨fun _ => 0⟩
  world := kernelWith
    [(0x1000, ⟨[65, 65], 1, 1, readyState, 0, 0, 0⟩),
      (0x2000, ⟨[66, 66], 1, 5, readyState, 0x2400, 0x3000, 0⟩),
      (0x3000, ⟨[67, 67], 1, 2, readyState, 0x3400, 0, 0⟩)]
    0x2000 0 0x1000 (callContext 1 0 0 0)
    (Device.opened (Vector.replicate 16 0) ⟨fun _ => 0⟩ kernelHeap)

def noLeftover : Leftover := ⟨0, 0, 0, id⟩

def otherRegs : Regs := idleRegs 6 0x2400 0x20050

def switchTwice : Except Fault (Cpu (Kernel Heap) × Cpu (Kernel Heap)) := do
  let c₂ ← int60 studentHeap noLeftover 0x9000 switchingCpu
  let c₄ ← int60 studentHeap noLeftover 0x9000 { c₂ with regs := otherRegs }
  return (c₂, c₄)

theorem switchingCpu_among : Among [0x1000, 0x2000, 0x3000] switchingCpu.world := by
  have hready : switchingCpu.world.procs.Holds .ready [0x2000, 0x3000] := by decide
  constructor
  · intro p hp
    rcases hp with ⟨q, hq⟩
    cases q with
    | ready =>
        rw [hready.onQueue_iff] at hq
        exact List.mem_cons_of_mem _ hq
    | blocked => exact absurd hq not_reaches_null
    | suspended => exact absurd hq not_reaches_null
  · exact fun _ => List.mem_cons_self

theorem resumes_own_registers_unordered :
    ∃ c₂ c₄, MachineStep studentHeap [0x1000, 0x2000, 0x3000] switchingCpu c₂ ∧
      MachineStep studentHeap [0x1000, 0x2000, 0x3000] { c₂ with regs := otherRegs } c₄ ∧
      c₂.world.globalPcb = 0x2000 ∧ c₄.world.globalPcb = 0x1000 ∧
      c₄.regs = idleRegs 5 0x1400 0x10040 := by
  have hblocks : SeparateBlocks [0x1000, 0x2000, 0x3000] := by
    constructor
    · simp only [List.forall_mem_cons]
      exact ⟨by decide, by decide, by decide, List.forall_mem_nil _⟩
    · simp only [List.forall_mem_cons]
      exact ⟨⟨by decide, by decide, by decide, List.forall_mem_nil _⟩,
        ⟨by decide, by decide, by decide, List.forall_mem_nil _⟩,
        ⟨by decide, by decide, by decide, List.forall_mem_nil _⟩, List.forall_mem_nil _⟩
  have hcompute : switchTwice.map (fun r => (r.1.world.globalPcb, r.2.world.globalPcb)) =
      .ok (0x2000, 0x1000) := by
    decide +kernel
  rcases of_map_ok hcompute with ⟨⟨c₂, c₄⟩, hrun, hresult⟩
  simp only [Prod.mk.injEq] at hresult
  rcases hresult with ⟨hglobal₂, hglobal₄⟩
  rcases of_bind_ok hrun with ⟨c₂', hrun₁, hrest⟩
  rcases of_bind_ok hrest with ⟨c₄', hrun₃, heq⟩
  cases heq
  have hnothing : ∀ esp low, noLeftover.Within esp low := fun _ _ _ _ _ => rfl
  have hroom₁ : StackRoom [0x1000, 0x2000, 0x3000] switchingCpu.world.globalPcb
      (switchingCpu.reg .esp) 0x1040 := ⟨by decide, by decide, fun h => absurd h (by decide)⟩
  have hout := MachineStep.idle switchingCpu _ 0x9000 _ c₂ rfl hroom₁ (hnothing _ _) hrun₁
  -- the other process computes and gives the processor back
  have hcompute₂ : MachineStep studentHeap [0x1000, 0x2000, 0x3000] c₂
      { c₂ with regs := otherRegs } := MachineStep.compute c₂ _ c₂.mem fun _ _ _ _ _ => rfl
  have hroom₃ : StackRoom [0x1000, 0x2000, 0x3000] c₂.world.globalPcb (otherRegs.gpr .esp)
      0x2040 := by
    rw [hglobal₂]
    exact ⟨by decide, by decide, fun h => absurd h (by decide)⟩
  have hin := MachineStep.idle { c₂ with regs := otherRegs } _ 0x9000 _ c₄ rfl hroom₃
    (hnothing _ _) hrun₃
  have haway : Relation.ReflTransGen (Elsewhere studentHeap [0x1000, 0x2000, 0x3000] 0x1000) c₂
      { c₂ with regs := otherRegs } :=
    Relation.ReflTransGen.single ⟨hcompute₂, by rw [hglobal₂]; decide⟩
  refine ⟨c₂, c₄, hout, hin, hglobal₂, hglobal₄, ?_⟩
  exact (resumes_own_registers hblocks switchingCpu_among switchingCpu
    Relation.ReflTransGen.refl).2 0x1000 c₂ _ c₄ (by decide) rfl hout
    (by rw [hglobal₂]; decide) haway hin hglobal₄

end Mpx
