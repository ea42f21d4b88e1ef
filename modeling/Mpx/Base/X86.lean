import Mpx.Base.Memory

/-! Straight-line code of a 32-bit x86 processor in protected mode: the stack, interrupts
through an interrupt gate and the return from them, and calls of compiled functions.

The instructions between an interrupt and its `iret` are not fetched from memory, so the
`eip` of a state is the address at which the interrupted code goes on. -/

namespace Mpx.X86

open Memory

abbrev U16 := BitVec 16

inductive Reg
  | eax
  | ebx
  | ecx
  | edx
  | esp
  | ebp
  | esi
  | edi
  deriving DecidableEq, Repr

inductive Seg
  | ds
  | es
  | fs
  | gs
  | ss
  deriving DecidableEq, Repr

@[ext]
structure Regs where
  gpr : Reg → U32
  seg : Seg → U16
  eip : U32
  cs : U16
  flags : U32

@[ext]
structure Cpu (ω : Type) where
  regs : Regs
  mem : Mem
  world : ω

inductive Instr (F : Type)
  | push (r : Reg)
  | pushSeg (s : Seg)
  | pop (r : Reg)
  | popSeg (s : Seg)
  | mov (dst src : Reg)
  | add (dst : Reg) (v : U32)
  | call (f : F)
  | iret

def withBit (flags : U32) (i : Nat) (b : Bool) : U32 :=
  if b then flags ||| ((1 : U32) <<< i) else flags &&& ~~~((1 : U32) <<< i)

def addFlags (flags a b : U32) : U32 :=
  let sum := a + b
  let parity := ((List.range 8).countP fun i => sum.getLsbD i) % 2 = 0
  let flags := withBit flags 0 (decide (2 ^ 32 ≤ a.toNat + b.toNat))
  let flags := withBit flags 2 (decide parity)
  let flags := withBit flags 4 (decide (16 ≤ a.toNat % 16 + b.toNat % 16))
  let flags := withBit flags 6 (decide (sum = 0))
  let flags := withBit flags 7 sum.msb
  withBit flags 11 (a.msb == b.msb && sum.msb != a.msb)

/-- What the flags VM, RF, NT, IF and TF become at the entry of an interrupt gate. -/
def gateFlags (flags : U32) : U32 :=
  withBit (withBit (withBit (withBit (withBit flags 17 false) 16 false) 14 false) 9 false) 8 false

namespace Cpu

variable {ω : Type}

def reg (c : Cpu ω) (r : Reg) : U32 := c.regs.gpr r

def setReg (c : Cpu ω) (r : Reg) (v : U32) : Cpu ω :=
  { c with regs := { c.regs with gpr := Function.update c.regs.gpr r v } }

def setSeg (c : Cpu ω) (s : Seg) (v : U16) : Cpu ω :=
  { c with regs := { c.regs with seg := Function.update c.regs.seg s v } }

def pushWord (c : Cpu ω) (v : U32) : Cpu ω :=
  { c.setReg .esp (c.reg .esp - 4) with mem := store32 c.mem (c.reg .esp - 4) v }

def top (c : Cpu ω) : U32 := load32 c.mem (c.reg .esp)

def drop (c : Cpu ω) : Cpu ω := c.setReg .esp (c.reg .esp + 4)

/-- An interrupt or an `int` instruction, without a change of the privilege level. The
gate leads to the code at `handler` of the segment `selector`. -/
def interrupt (c : Cpu ω) (selector : U16) (handler : U32) : Cpu ω :=
  let c' := c.pushWord c.regs.flags
  let c' := c'.pushWord (c.regs.cs.setWidth 32)
  let c' := c'.pushWord c.regs.eip
  { c' with regs := { c'.regs with
      eip := handler, cs := selector, flags := gateFlags c.regs.flags } }

def iret (c : Cpu ω) : Cpu ω :=
  let eip := c.top
  let c := c.drop
  let cs := c.top
  let c := c.drop
  let flags := c.top
  let c := c.drop
  { c with regs := { c.regs with eip := eip, cs := cs.setWidth 16, flags := flags } }

end Cpu

section Exec

variable {F ω : Type}

def Instr.exec (callee : F → Cpu ω → Except Fault (Cpu ω)) (i : Instr F) (c : Cpu ω) :
    Except Fault (Cpu ω) :=
  match i with
  | .push r => .ok (c.pushWord (c.reg r))
  | .pushSeg s => .ok (c.pushWord ((c.regs.seg s).setWidth 32))
  | .pop r => .ok (c.drop.setReg r c.top)
  | .popSeg s => .ok (c.drop.setSeg s (c.top.setWidth 16))
  | .mov dst src => .ok (c.setReg dst (c.reg src))
  | .add dst v =>
      let c' := c.setReg dst (c.reg dst + v)
      .ok { c' with regs := { c'.regs with flags := addFlags c.regs.flags (c.reg dst) v } }
  | .call f => callee f c
  | .iret => .ok c.iret

def execAll (callee : F → Cpu ω → Except Fault (Cpu ω)) :
    List (Instr F) → Cpu ω → Except Fault (Cpu ω)
  | [], c => .ok c
  | i :: is, c => do
      let c ← i.exec callee c
      execAll callee is c

theorem execAll_call (callee : F → Cpu ω → Except Fault (Cpu ω)) (f : F) (is : List (Instr F))
    (c : Cpu ω) :
    execAll callee (.call f :: is) c = (callee f c >>= execAll callee is) := rfl

theorem execAll_mov (callee : F → Cpu ω → Except Fault (Cpu ω)) (dst src : Reg)
    (is : List (Instr F)) (c : Cpu ω) :
    execAll callee (.mov dst src :: is) c = execAll callee is (c.setReg dst (c.reg src)) := rfl

theorem execAll_append (callee : F → Cpu ω → Except Fault (Cpu ω)) (is js : List (Instr F))
    (c : Cpu ω) :
    execAll callee (is ++ js) c = (execAll callee is c >>= execAll callee js) := by
  induction is generalizing c with
  | nil => rfl
  | cons i is ih =>
      rw [List.cons_append, execAll, execAll]
      cases i.exec callee c with
      | error e => rfl
      | ok c' => exact ih c'

theorem execAll_append_ok {callee : F → Cpu ω → Except Fault (Cpu ω)} {is : List (Instr F)}
    {c c' : Cpu ω} (h : execAll callee is c = .ok c') (js : List (Instr F)) :
    execAll callee (is ++ js) c = execAll callee js c' := by
  rw [execAll_append, h]
  rfl

/-- What a call of a compiled function may do: `eax`, `ecx`, `edx` and the flags are its
own, the other registers and the `frame` bytes on top of the caller's stack are not. -/
structure CdeclCall (frame : Nat) (c c' : Cpu ω) : Prop where
  saved : ∀ r, r ≠ .eax → r ≠ .ecx → r ≠ .edx → c'.reg r = c.reg r
  stack : ∀ x : U32, (c.reg .esp).toNat ≤ x.toNat → x.toNat < (c.reg .esp).toNat + frame →
    c'.mem.byte x = c.mem.byte x

end Exec

/-! The stack as a list of words. -/

def Stacked (m : Mem) : U32 → List U32 → Prop
  | _, [] => True
  | sp, w :: ws => load32 m sp = w ∧ Stacked m (sp + 4) ws

section Stack

variable {m m' : Mem} {sp : U32} {ws : List U32}

theorem toNat_add_four (h : sp.toNat + 4 < 2 ^ 32) : (sp + 4).toNat = sp.toNat + 4 := by
  bv_omega

theorem toNat_sub_four (h : 4 ≤ sp.toNat) : (sp - 4).toNat = sp.toNat - 4 := by
  bv_omega

theorem Stacked.congr (h : Stacked m sp ws) (hfit : sp.toNat + 4 * ws.length ≤ 2 ^ 32)
    (hagree : ∀ x : U32, sp.toNat ≤ x.toNat → x.toNat < sp.toNat + 4 * ws.length →
      m'.byte x = m.byte x) : Stacked m' sp ws := by
  induction ws generalizing sp with
  | nil => trivial
  | cons w ws ih =>
      simp only [List.length_cons] at hfit hagree
      constructor
      · rw [load32_congr m m' sp (by omega), h.1]
        intro x hlow hhigh
        exact hagree x hlow (by omega)
      · cases ws with
        | nil => trivial
        | cons v vs =>
            simp only [List.length_cons] at hfit hagree ih
            have hnext : (sp + 4).toNat = sp.toNat + 4 := toNat_add_four (by omega)
            apply ih h.2 (by omega)
            intro x hlow hhigh
            exact hagree x (by omega) (by omega)

theorem Stacked.push (h : Stacked m sp ws) (hroom : 4 ≤ sp.toNat)
    (hfit : sp.toNat + 4 * ws.length ≤ 2 ^ 32) (v : U32) :
    Stacked (store32 m (sp - 4) v) (sp - 4) (v :: ws) := by
  have hsub := toNat_sub_four hroom
  constructor
  · exact load32_store32_same m (sp - 4) v
  · rw [BitVec.sub_add_cancel]
    apply h.congr hfit
    intro x hlow _
    apply store32_outside m (sp - 4) v x (by omega)
    right
    omega

end Stack

namespace Cpu

variable {ω : Type}

@[simp] theorem reg_setReg_self (c : Cpu ω) (r : Reg) (v : U32) : (c.setReg r v).reg r = v := by
  simp only [reg, setReg, Function.update_self]

theorem reg_setReg_ne {r r' : Reg} (h : r' ≠ r) (c : Cpu ω) (v : U32) :
    (c.setReg r v).reg r' = c.reg r' := by
  simp only [reg, setReg, Function.update_of_ne h]

@[simp] theorem reg_pushWord_esp (c : Cpu ω) (v : U32) :
    (c.pushWord v).reg .esp = c.reg .esp - 4 := reg_setReg_self c .esp _

theorem reg_pushWord {r : Reg} (h : r ≠ .esp) (c : Cpu ω) (v : U32) :
    (c.pushWord v).reg r = c.reg r := reg_setReg_ne h c _

def pushAll (c : Cpu ω) (ws : List U32) : Cpu ω := ws.foldl pushWord c

@[simp] theorem world_pushAll (c : Cpu ω) (ws : List U32) : (c.pushAll ws).world = c.world := by
  induction ws generalizing c with
  | nil => rfl
  | cons w ws ih => exact ih (c.pushWord w)

theorem reg_pushAll {r : Reg} (h : r ≠ .esp) (c : Cpu ω) (ws : List U32) :
    (c.pushAll ws).reg r = c.reg r := by
  induction ws generalizing c with
  | nil => rfl
  | cons w ws ih => exact (ih (c.pushWord w)).trans (reg_pushWord h c w)

theorem pushAll_spec (c : Cpu ω) (ws : List U32) {old : List U32}
    (hold : Stacked c.mem (c.reg .esp) old) (hroom : 4 * ws.length ≤ (c.reg .esp).toNat)
    (hfit : (c.reg .esp).toNat + 4 * old.length ≤ 2 ^ 32) :
    ((c.pushAll ws).reg .esp).toNat = (c.reg .esp).toNat - 4 * ws.length ∧
      Stacked (c.pushAll ws).mem ((c.pushAll ws).reg .esp) (ws.reverse ++ old) ∧
      ∀ x : U32, x.toNat < (c.reg .esp).toNat - 4 * ws.length ∨ (c.reg .esp).toNat ≤ x.toNat →
        (c.pushAll ws).mem.byte x = c.mem.byte x := by
  induction ws generalizing c old with
  | nil => exact ⟨rfl, hold, fun _ _ => rfl⟩
  | cons w ws ih =>
      simp only [List.length_cons] at hroom
      have hsub : (c.reg .esp - 4).toNat = (c.reg .esp).toNat - 4 := toNat_sub_four (by omega)
      have hesp : (c.pushWord w).reg .esp = c.reg .esp - 4 := reg_pushWord_esp c w
      have hpush : Stacked (c.pushWord w).mem ((c.pushWord w).reg .esp) (w :: old) := by
        rw [hesp]
        exact hold.push (by omega) hfit w
      rcases ih (c.pushWord w) hpush (by rw [hesp]; omega)
        (by rw [hesp, List.length_cons]; omega) with ⟨hsp, hstack, hout⟩
      rw [hesp] at hsp hout
      simp only [List.length_cons, List.reverse_cons, List.append_assoc, List.singleton_append]
      constructor
      · exact hsp.trans (by omega)
      · constructor
        · exact hstack
        · intro x hx
          have hlower : (c.pushAll (w :: ws)).mem.byte x = (c.pushWord w).mem.byte x :=
            hout x (by omega)
          rw [hlower]
          apply store32_outside c.mem (c.reg .esp - 4) w x (by omega)
          unfold Outside
          omega

end Cpu

end Mpx.X86
