import Mathlib.Tactic.IntervalCases

/-! The two 8259A interrupt controllers of a PC, with fixed priorities. -/

namespace Mpx.Pic

inductive Stage
  | ready
  | icw2
  | icw3
  | icw4
  deriving DecidableEq, Repr

structure Chip where
  stage : Stage
  single : Bool
  needsIcw4 : Bool
  autoEoi : Bool
  offset : BitVec 8
  mask : BitVec 8
  inService : BitVec 8
  deriving DecidableEq, Repr

namespace Chip

/-- The first port takes ICW1 and the end of an interrupt. The rotations of the priorities and
the modes of OCW3 are left out. -/
def command (c : Chip) (data : BitVec 8) : Chip :=
  if data.getLsbD 4 then
    { c with
      stage := .icw2, single := data.getLsbD 1, needsIcw4 := data.getLsbD 0, autoEoi := false
      mask := 0, inService := 0 }
  else if data.getLsbD 3 then c
  else if data.getLsbD 5 then
    if data.getLsbD 6 then
      { c with inService := c.inService &&& ~~~((1 : BitVec 8) <<< (data &&& 7)) }
    -- the line with the highest priority is the lowest bit
    else { c with inService := c.inService &&& (c.inService - 1) }
  else c

def data (c : Chip) (data : BitVec 8) : Chip :=
  let afterIcw3 := if c.needsIcw4 then Stage.icw4 else .ready
  match c.stage with
  | .icw2 => { c with offset := data &&& 0xF8, stage := if c.single then afterIcw3 else .icw3 }
  | .icw3 => { c with stage := afterIcw3 }
  | .icw4 => { c with autoEoi := data.getLsbD 1, stage := .ready }
  | .ready => { c with mask := data }

/-- A signal on the line goes through: it is not masked, and no line of the same or a higher
priority is in service. A signal that ends before it is acknowledged, which the controller
answers with its line 7 (a spurious interrupt), is left out. -/
def Passes (c : Chip) (line : Nat) : Prop :=
  c.mask.getLsbD line = false ∧ ∀ k ≤ line, c.inService.getLsbD k = false

instance (c : Chip) (line : Nat) : Decidable (c.Passes line) := inferInstanceAs (Decidable (_ ∧ _))

def acknowledge (c : Chip) (line : Nat) : Chip :=
  if c.autoEoi then c else { c with inService := c.inService ||| ((1 : BitVec 8) <<< line) }

def vector (c : Chip) (line : Nat) : Nat := c.offset.toNat + line

def initialized (offset mask : BitVec 8) : Chip := ⟨.ready, false, true, false, offset, mask, 0⟩

section Initialized

variable {offset mask : BitVec 8}

theorem initWords (c : Chip) (offset cascade mask : BitVec 8) :
    (((((c.command 0x11).data offset).data cascade).data 0x01).data mask) =
      initialized (offset &&& 0xF8) mask := rfl

theorem passes_initialized (line : Nat) :
    (initialized offset mask).Passes line ↔ mask.getLsbD line = false := by
  simp [Passes, initialized]

theorem not_passes_masked {line : Nat} (hline : line < 8) :
    ¬ (initialized offset 0xFF).Passes line := by
  rw [passes_initialized]
  interval_cases line <;> decide

theorem command_acknowledge {line : Nat} (hline : line < 8) :
    ((initialized offset mask).acknowledge line).command 0x20 = initialized offset mask := by
  have hcleared : ∀ line < 8,
      ((0 : BitVec 8) ||| (1 : BitVec 8) <<< line) &&&
        (((0 : BitVec 8) ||| (1 : BitVec 8) <<< line) - 1) = 0 := by decide
  exact congrArg (Chip.mk .ready false true false offset mask) (hcleared line hline)

end Initialized

end Chip

/-- The second controller signals on line 2 of the first one. -/
structure Pair where
  master : Chip
  slave : Chip
  deriving DecidableEq, Repr

namespace Pair

def outb (p : Pair) (port : BitVec 32) (data : BitVec 8) : Pair :=
  if port = 0x20 then { p with master := p.master.command data }
  else if port = 0x21 then { p with master := p.master.data data }
  else if port = 0xA0 then { p with slave := p.slave.command data }
  else if port = 0xA1 then { p with slave := p.slave.data data }
  else p

def Passes (p : Pair) (irq : Nat) : Prop :=
  if irq < 8 then irq ≠ 2 ∧ p.master.Passes irq
  else p.master.Passes 2 ∧ p.slave.Passes (irq - 8)

instance (p : Pair) (irq : Nat) : Decidable (p.Passes irq) :=
  if h : irq < 8 then
    decidable_of_iff (irq ≠ 2 ∧ p.master.Passes irq) (by rw [Passes, if_pos h])
  else
    decidable_of_iff (p.master.Passes 2 ∧ p.slave.Passes (irq - 8)) (by rw [Passes, if_neg h])

def acknowledge (p : Pair) (irq : Nat) : Pair :=
  if irq < 8 then { p with master := p.master.acknowledge irq }
  else ⟨p.master.acknowledge 2, p.slave.acknowledge (irq - 8)⟩

def vector (p : Pair) (irq : Nat) : Nat :=
  if irq < 8 then p.master.vector irq else p.slave.vector (irq - 8)

def IsPort (port : BitVec 32) : Prop := port = 0x20 ∨ port = 0x21 ∨ port = 0xA0 ∨ port = 0xA1

instance (port : BitVec 32) : Decidable (IsPort port) := inferInstanceAs (Decidable (_ ∨ _))

theorem outb_other {p : Pair} {port : BitVec 32} (data : BitVec 8) (hport : ¬ IsPort port) :
    p.outb port data = p := by
  simp only [IsPort, not_or] at hport
  rw [outb, if_neg hport.1, if_neg hport.2.1, if_neg hport.2.2.1, if_neg hport.2.2.2]

end Pair

end Mpx.Pic
