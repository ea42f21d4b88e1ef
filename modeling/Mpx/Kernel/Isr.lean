import Mpx.Base.X86
import Mpx.Kernel.SysCall

/-! The interrupt handlers of `kernel/sys_call_isr.s` and `kernel/serial_isr.s`. -/

namespace Mpx

open Memory X86

inductive CFunction
  | sysCall
  | serialInterrupt
  deriving DecidableEq, Repr

def saveRegisters : List (Instr CFunction) :=
  [.push .edi, .push .esi, .push .ebp, .push .esp, .push .edx, .push .ecx, .push .ebx,
    .push .eax, .pushSeg .ss, .pushSeg .gs, .pushSeg .fs, .pushSeg .es, .pushSeg .ds]

def restoreRegisters : List (Instr CFunction) :=
  [.popSeg .ds, .popSeg .es, .popSeg .fs, .popSeg .gs, .popSeg .ss, .pop .eax, .pop .ebx,
    .pop .ecx, .pop .edx, .add .esp 4, .pop .ebp, .pop .esi, .pop .edi, .iret]

def sysCallIsr : List (Instr CFunction) :=
  saveRegisters ++ [.push .esp, .call .sysCall, .mov .esp .eax] ++ restoreRegisters

def serialIsr : List (Instr CFunction) := [.call .serialInterrupt, .iret]

def gateSelector : U16 := 0x08

def readContext (m : Mem) (p : U32) : Context where
  ds := load32 m p
  es := load32 m (p + 4)
  fs := load32 m (p + 8)
  gs := load32 m (p + 12)
  ss := load32 m (p + 16)
  eax := load32 m (p + 20)
  ebx := load32 m (p + 24)
  ecx := load32 m (p + 28)
  edx := load32 m (p + 32)
  esp := load32 m (p + 36)
  ebp := load32 m (p + 40)
  esi := load32 m (p + 44)
  edi := load32 m (p + 48)
  eip := load32 m (p + 52)
  cs := load32 m (p + 56)
  flags := load32 m (p + 60)

/-- What the compiled `sys_call` leaves in the registers that are its own, and what its
stack frame makes of the memory. -/
structure Leftover where
  ecx : U32
  edx : U32
  flags : U32
  mem : Mem → Mem

variable {σ : Type}

/-- The call of `sys_call` with the word on top of the stack as its argument. All that it
writes through this pointer is `current_context->eax`. -/
def callSysCall (F : HeapFunctions σ) (left : Leftover) (c : Cpu (Kernel σ)) :
    Except Fault (Cpu (Kernel σ)) := do
  let currentContext := c.top
  let (context, K) ← sysCall F { c.world with contexts := readContext c.mem } currentContext
  let c' := ((c.setReg .eax context).setReg .ecx left.ecx).setReg .edx left.edx
  return {
    regs := { c'.regs with flags := left.flags }
    mem := store32 (left.mem c.mem) (currentContext + 20) (K.contexts currentContext).eax
    world := K }

def int60 (F : HeapFunctions σ) (left : Leftover) (handler : U32) (c : Cpu (Kernel σ)) :
    Except Fault (Cpu (Kernel σ)) :=
  execAll (fun _ => callSysCall F left) sysCallIsr (c.interrupt gateSelector handler)

def contextRegs (m : Mem) (p : U32) : Regs where
  gpr
    | .eax => load32 m (p + 20)
    | .ebx => load32 m (p + 24)
    | .ecx => load32 m (p + 28)
    | .edx => load32 m (p + 32)
    | .esp => p + 64
    | .ebp => load32 m (p + 40)
    | .esi => load32 m (p + 44)
    | .edi => load32 m (p + 48)
  seg
    | .ds => (load32 m p).setWidth 16
    | .es => (load32 m (p + 4)).setWidth 16
    | .fs => (load32 m (p + 8)).setWidth 16
    | .gs => (load32 m (p + 12)).setWidth 16
    | .ss => (load32 m (p + 16)).setWidth 16
  eip := load32 m (p + 52)
  cs := (load32 m (p + 56)).setWidth 16
  flags := load32 m (p + 60)

/-- The words of the context that the handler builds. The `esp` among them is the one
inside the handler. -/
def contextWords (r : Regs) (esp : U32) : List U32 :=
  [(r.seg .ds).setWidth 32, (r.seg .es).setWidth 32, (r.seg .fs).setWidth 32,
    (r.seg .gs).setWidth 32, (r.seg .ss).setWidth 32, r.gpr .eax, r.gpr .ebx, r.gpr .ecx,
    r.gpr .edx, esp, r.gpr .ebp, r.gpr .esi, r.gpr .edi, r.eip, r.cs.setWidth 32, r.flags]

section Exec

variable {ω : Type} {callee : CFunction → Cpu ω → Except Fault (Cpu ω)}

theorem exec_restoreRegisters (c : Cpu ω) :
    execAll callee restoreRegisters c =
      .ok { c with regs := contextRegs c.mem (c.reg .esp) } := by
  simp only [restoreRegisters, execAll, Instr.exec, Cpu.iret, Cpu.top, Cpu.drop, Cpu.setReg,
    Cpu.setSeg, Cpu.reg, bind, Except.bind]
  apply congrArg Except.ok
  apply Cpu.ext
  · apply Regs.ext
    · funext r
      cases r <;> simp [contextRegs, BitVec.add_assoc]
    · funext s
      cases s <;> simp [contextRegs, BitVec.add_assoc]
    all_goals simp [contextRegs, BitVec.add_assoc]
  · rfl
  · rfl

theorem exec_saveRegisters (c : Cpu ω) :
    ∃ esp, execAll callee saveRegisters c = .ok (c.pushAll
      [c.reg .edi, c.reg .esi, c.reg .ebp, esp, c.reg .edx, c.reg .ecx, c.reg .ebx, c.reg .eax,
        (c.regs.seg .ss).setWidth 32, (c.regs.seg .gs).setWidth 32,
        (c.regs.seg .fs).setWidth 32, (c.regs.seg .es).setWidth 32,
        (c.regs.seg .ds).setWidth 32]) :=
  ⟨c.reg .esp - 4 - 4 - 4, rfl⟩

theorem interrupt_spec (handler : U32) (c : Cpu ω) (hroom : 12 ≤ (c.reg .esp).toNat) :
    ((c.interrupt gateSelector handler).reg .esp).toNat = (c.reg .esp).toNat - 12 ∧
      Stacked (c.interrupt gateSelector handler).mem
        ((c.interrupt gateSelector handler).reg .esp)
        [c.regs.eip, c.regs.cs.setWidth 32, c.regs.flags] ∧
      ∀ x : U32, x.toNat < (c.reg .esp).toNat - 12 ∨ (c.reg .esp).toNat ≤ x.toNat →
        (c.interrupt gateSelector handler).mem.byte x = c.mem.byte x := by
  have hnone : Stacked c.mem (c.reg .esp) [] := trivial
  have hpush := c.pushAll_spec [c.regs.flags, c.regs.cs.setWidth 32, c.regs.eip] hnone
    (by simp only [List.length_cons, List.length_nil]; omega)
    (by simp only [List.length_nil]; omega)
  exact hpush

theorem interrupt_reg {r : Reg} (h : r ≠ .esp) (handler : U32) (c : Cpu ω) :
    (c.interrupt gateSelector handler).reg r = c.reg r :=
  Cpu.reg_pushAll h c [c.regs.flags, c.regs.cs.setWidth 32, c.regs.eip]

/-- The stack that `sys_call_isr` hands to `sys_call`: the context of the interrupted code
with a pointer to it below. -/
theorem entry_spec (handler : U32) (c : Cpu ω) (hroom : 68 ≤ (c.reg .esp).toNat) :
    ∃ c' esp, execAll callee (saveRegisters ++ [.push .esp]) (c.interrupt gateSelector handler) =
        .ok c' ∧
      c'.top = c.reg .esp - 64 ∧ c'.world = c.world ∧
      Stacked c'.mem (c.reg .esp - 64) (contextWords c.regs esp) ∧
      ∀ x : U32, x.toNat < (c.reg .esp).toNat - 68 ∨ (c.reg .esp).toNat ≤ x.toNat →
        c'.mem.byte x = c.mem.byte x := by
  rcases interrupt_spec handler c (by omega) with ⟨hsp₁, hstack₁, hout₁⟩
  have hreg₁ : ∀ r, r ≠ .esp → (c.interrupt gateSelector handler).reg r = c.reg r :=
    fun r hr => interrupt_reg hr handler c
  have hseg₁ : (c.interrupt gateSelector handler).regs.seg = c.regs.seg := rfl
  have hworld₁ : (c.interrupt gateSelector handler).world = c.world := rfl
  generalize c.interrupt gateSelector handler = c₁ at *
  rcases @exec_saveRegisters ω callee c₁ with ⟨esp, hexec⟩
  generalize hws : [c₁.reg .edi, c₁.reg .esi, c₁.reg .ebp, esp, c₁.reg .edx, c₁.reg .ecx,
    c₁.reg .ebx, c₁.reg .eax, (c₁.regs.seg .ss).setWidth 32, (c₁.regs.seg .gs).setWidth 32,
    (c₁.regs.seg .fs).setWidth 32, (c₁.regs.seg .es).setWidth 32,
    (c₁.regs.seg .ds).setWidth 32] = ws at hexec
  have hlength : ws.length = 13 := by
    rw [← hws]
    rfl
  have hwords : ws.reverse ++ [c.regs.eip, c.regs.cs.setWidth 32, c.regs.flags] =
      contextWords c.regs esp := by
    rw [← hws]
    simp only [hreg₁, hseg₁, ne_eq, reduceCtorEq, not_false_eq_true]
    rfl
  rcases c₁.pushAll_spec ws hstack₁ (by omega)
    (by simp only [List.length_cons, List.length_nil]; omega) with ⟨hsp₂, hstack₂, hout₂⟩
  generalize hc₂ : c₁.pushAll ws = c₂ at hexec hsp₂ hstack₂ hout₂
  have hcontext : Stacked c₂.mem (c₂.reg .esp) (contextWords c.regs esp) := by
    rw [← hwords]
    exact hstack₂
  have hctx : c₂.reg .esp = c.reg .esp - 64 := by
    apply BitVec.eq_of_toNat_eq
    bv_omega
  rcases c₂.pushAll_spec [c₂.reg .esp] hcontext
    (by simp only [List.length_cons, List.length_nil]; omega)
    (by rw [contextWords]; simp only [List.length_cons, List.length_nil]; omega)
    with ⟨hsp₃, hstack₃, hout₃⟩
  simp only [List.length_cons, List.length_nil] at hsp₃ hout₃
  generalize hc₃ : c₂.pushAll [c₂.reg .esp] = c₃ at hsp₃ hstack₃ hout₃
  refine ⟨c₃, esp, ?_, ?_, ?_, ?_, ?_⟩
  · rw [execAll_append_ok hexec, ← hc₃]
    rfl
  · rw [← hctx]
    exact hstack₃.1
  · rw [← hc₃, ← hc₂, Cpu.world_pushAll, Cpu.world_pushAll, hworld₁]
  · have hup : c₃.reg .esp + 4 = c₂.reg .esp := by
      apply BitVec.eq_of_toNat_eq
      bv_omega
    rw [← hctx, ← hup]
    exact hstack₃.2
  · intro x hx
    rw [hout₃ x (by omega), hout₂ x (by omega), hout₁ x (by omega)]

theorem exec_switch (c : Cpu ω) :
    execAll callee (.mov .esp .eax :: restoreRegisters) c =
      .ok { c with regs := contextRegs c.mem (c.reg .eax) } := by
  rw [execAll_mov, exec_restoreRegisters, Cpu.reg_setReg_self]
  rfl

end Exec

theorem exec_sysCall (F : HeapFunctions σ) (left : Leftover) (c : Cpu (Kernel σ)) :
    execAll (fun _ => callSysCall F left)
        (.call .sysCall :: .mov .esp .eax :: restoreRegisters) c = (do
      let (context, K) ← sysCall F { c.world with contexts := readContext c.mem } c.top
      let mem := store32 (left.mem c.mem) (c.top + 20) (K.contexts c.top).eax
      return ⟨contextRegs mem context, mem, K⟩) := by
  rw [execAll_call, callSysCall]
  simp only [bind, Except.bind]
  generalize sysCall F { c.world with contexts := readContext c.mem } c.top = r
  cases r with
  | error e => rfl
  | ok r =>
      simp only [pure, Except.pure]
      rw [exec_switch]
      simp [Cpu.reg, Cpu.setReg]

theorem int60_spec (F : HeapFunctions σ) (left : Leftover) (handler : U32)
    (c : Cpu (Kernel σ)) (hroom : 68 ≤ (c.reg .esp).toNat) :
    ∃ m esp, Stacked m (c.reg .esp - 64) (contextWords c.regs esp) ∧
      (∀ x : U32, x.toNat < (c.reg .esp).toNat - 68 ∨ (c.reg .esp).toNat ≤ x.toNat →
        m.byte x = c.mem.byte x) ∧
      int60 F left handler c = (do
        let (context, K) ← sysCall F { c.world with contexts := readContext m }
          (c.reg .esp - 64)
        let mem := store32 (left.mem m) (c.reg .esp - 64 + 20)
          (K.contexts (c.reg .esp - 64)).eax
        return ⟨contextRegs mem context, mem, K⟩) := by
  rcases @entry_spec _ (fun _ => callSysCall F left) handler c hroom with
    ⟨c', esp, hentry, htop, hworld, hstack, hout⟩
  refine ⟨c'.mem, esp, hstack, hout, ?_⟩
  have hsplit : sysCallIsr = (saveRegisters ++ [.push .esp]) ++
      (.call .sysCall :: .mov .esp .eax :: restoreRegisters) := by
    simp only [sysCallIsr, List.append_assoc, List.cons_append, List.nil_append]
  have hcall := exec_sysCall F left c'
  rw [htop, hworld] at hcall
  rw [int60, hsplit, execAll_append_ok hentry, hcall]

/-- A context in memory gives the registers back that it was built from. -/
theorem contextRegs_eq {m : Mem} {p esp : U32} {r : Regs}
    (hstack : Stacked m p (contextWords r esp)) (hesp : r.gpr .esp = p + 64) :
    contextRegs m p = r := by
  simp only [Stacked, contextWords, BitVec.add_assoc, BitVec.reduceAdd] at hstack
  rcases hstack with ⟨hds, hes, hfs, hgs, hss, heax, hebx, hecx, hedx, -, hebp, hesi, hedi,
    heip, hcs, hflags, -⟩
  apply Regs.ext
  · funext x
    cases x <;> simp_all [contextRegs]
  · funext x
    cases x <;> simp_all [contextRegs]
  · exact heip
  · simp_all [contextRegs]
  · exact hflags

/-! `serial_isr` saves no registers. -/

section Serial

variable {ω : Type} {callee : CFunction → Cpu ω → Except Fault (Cpu ω)}

theorem exec_serialIsr {c c₁ : Cpu ω} (hcall : callee .serialInterrupt c = .ok c₁) :
    execAll callee serialIsr c = .ok c₁.iret := by
  rw [serialIsr, execAll_call, hcall]
  rfl

theorem interrupt_esp (handler : U32) (c : Cpu ω) :
    (c.interrupt gateSelector handler).reg .esp = c.reg .esp - 4 - 4 - 4 := rfl

theorem iret_esp (c : Cpu ω) : c.iret.reg .esp = c.reg .esp + 4 + 4 + 4 := by
  simp [Cpu.iret, Cpu.drop, Cpu.reg, Cpu.setReg]

theorem iret_reg {r : Reg} (h : r ≠ .esp) (c : Cpu ω) : c.iret.reg r = c.reg r := by
  simp [Cpu.iret, Cpu.drop, Cpu.reg, Cpu.setReg, Function.update_of_ne h]

theorem iret_spec {c : Cpu ω} {eip cs flags : U32}
    (hstack : Stacked c.mem (c.reg .esp) [eip, cs, flags]) :
    c.iret.regs.eip = eip ∧ c.iret.regs.cs = cs.setWidth 16 ∧ c.iret.regs.flags = flags := by
  simp only [Stacked] at hstack
  rcases hstack with ⟨heip, hcs, hflags, -⟩
  refine ⟨?_, ?_, ?_⟩
  · exact heip
  · rw [← hcs]
    simp [Cpu.iret, Cpu.drop, Cpu.top, Cpu.reg, Cpu.setReg]
  · rw [← hflags]
    simp [Cpu.iret, Cpu.drop, Cpu.top, Cpu.reg, Cpu.setReg]

/-- The interrupted code finds its general registers as they were just when
`serial_interrupt` happens to return the three that it may change. -/
theorem serialIsr_transparent_iff {c c₁ : Cpu ω} {handler : U32}
    (hroom : 12 ≤ (c.reg .esp).toNat)
    (hcall : callee .serialInterrupt (c.interrupt gateSelector handler) = .ok c₁)
    (hcdecl : CdeclCall 12 (c.interrupt gateSelector handler) c₁) :
    ∃ c', execAll callee serialIsr (c.interrupt gateSelector handler) = .ok c' ∧
      c'.regs.eip = c.regs.eip ∧ c'.regs.cs = c.regs.cs ∧ c'.regs.flags = c.regs.flags ∧
      ((∀ r, c'.reg r = c.reg r) ↔
        c₁.reg .eax = c.reg .eax ∧ c₁.reg .ecx = c.reg .ecx ∧ c₁.reg .edx = c.reg .edx) := by
  rcases interrupt_spec handler c hroom with ⟨hsp, hstack, -⟩
  have hesp : c₁.reg .esp = (c.interrupt gateSelector handler).reg .esp :=
    hcdecl.saved .esp (by decide) (by decide) (by decide)
  have hstack₁ : Stacked c₁.mem (c₁.reg .esp)
      [c.regs.eip, c.regs.cs.setWidth 32, c.regs.flags] := by
    rw [hesp]
    apply hstack.congr
    · simp only [List.length_cons, List.length_nil]
      omega
    · simpa only [List.length_cons, List.length_nil] using hcdecl.stack
  rcases iret_spec hstack₁ with ⟨heip, hcs, hflags⟩
  refine ⟨c₁.iret, exec_serialIsr hcall, heip, ?_, hflags, ?_⟩
  · rw [hcs]
    simp
  · constructor
    · intro h
      rw [← h .eax, ← h .ecx, ← h .edx, iret_reg (by decide), iret_reg (by decide),
        iret_reg (by decide)]
      exact ⟨rfl, rfl, rfl⟩
    · rintro ⟨heax, hecx, hedx⟩ r
      by_cases hr : r = .esp
      · rw [hr, iret_esp, hesp, interrupt_esp, BitVec.sub_add_cancel, BitVec.sub_add_cancel,
          BitVec.sub_add_cancel]
      · rw [iret_reg hr]
        by_cases hown : r = .eax ∨ r = .ecx ∨ r = .edx
        · rcases hown with rfl | rfl | rfl
          · exact heax
          · exact hecx
          · exact hedx
        · simp only [not_or] at hown
          rw [hcdecl.saved r hown.1 hown.2.1 hown.2.2, interrupt_reg hr]

def interruptedCpu : Cpu Unit where
  regs := ⟨fun r => if r = .esp then 0x5000 else 1, fun _ => 0x10, 0x10040, 8, 0x202⟩
  mem := ⟨fun _ => 0⟩
  world := ()

/-- `outb` to the interrupt controller, the last thing that `serial_interrupt` does, takes
the data in `eax`. -/
def endOfInterrupt (_ : CFunction) (c : Cpu Unit) : Except Fault (Cpu Unit) :=
  .ok (c.setReg .eax 0x20)

theorem endOfInterrupt_cdecl (frame : Nat) (c : Cpu Unit) :
    CdeclCall frame c (c.setReg .eax 0x20) :=
  ⟨fun _ h _ _ => Cpu.reg_setReg_ne h c _, fun _ _ _ => rfl⟩

theorem serialIsr_transparent_iff_unchanged_registers :
    ∃ c', execAll (fun _ c => .ok c) serialIsr (interruptedCpu.interrupt gateSelector 0x9000) =
        .ok c' ∧ ∀ r, c'.reg r = interruptedCpu.reg r := by
  rcases @serialIsr_transparent_iff Unit (fun _ c => .ok c) interruptedCpu
    (interruptedCpu.interrupt gateSelector 0x9000) 0x9000 (by decide) rfl
    ⟨fun _ _ _ _ => rfl, fun _ _ _ => rfl⟩ with ⟨c', hrun, -, -, -, hiff⟩
  exact ⟨c', hrun, hiff.mpr ⟨rfl, rfl, rfl⟩⟩

/-- The interrupted code finds 0x20 in `eax`. -/
theorem serial_interrupt_changes_eax :
    ∃ c₁ c', endOfInterrupt .serialInterrupt (interruptedCpu.interrupt gateSelector 0x9000) =
        .ok c₁ ∧
      CdeclCall 12 (interruptedCpu.interrupt gateSelector 0x9000) c₁ ∧
      execAll endOfInterrupt serialIsr (interruptedCpu.interrupt gateSelector 0x9000) = .ok c' ∧
      interruptedCpu.reg .eax = 1 ∧ c'.reg .eax = 0x20 :=
  ⟨_, _, rfl, endOfInterrupt_cdecl 12 _, exec_serialIsr rfl, rfl, rfl⟩

end Serial

end Mpx
