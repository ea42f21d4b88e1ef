import Mpx.Base.CString
import Mpx.Base.Pic
import Mpx.Base.Run
import Mpx.Kernel.Isr
import Mpx.Serial.BaudRate

/-! The interrupt descriptor table and the interrupt controllers, statement by statement from
the start of `kmain` to the end of `serial_open`. -/

namespace Mpx

open Memory X86 CString Run Pic

inductive Handler
  | divideError | debug | nmi | breakpoint | overflow | bounds | invalidOp | deviceNotAvailable
  | doubleFault | coprocessorSegment | invalidTss | segmentNotPresent | stackSegment
  | generalProtection | pageFault | reserved | coprocessor | rtcIsr | sysCallIsr | serialIsr
  deriving DecidableEq, Repr

structure IdtEntry where
  baseLow : U16
  sselect : U16
  zero : U8
  flags : U8
  baseHigh : U16
  deriving DecidableEq, Repr

def IdtEntry.base (e : IdtEntry) : U32 := e.baseHigh ++ e.baseLow

/-- A present gate of the kernel that clears the interrupt flag. -/
def interruptGate : U8 := 0x8e

structure IdtEntry.Serves (e : IdtEntry) (fn : U32) : Prop where
  base : e.base = fn
  sselect : e.sselect = gateSelector
  flags : e.flags = interruptGate

/-- What decides which interrupt reaches which routine, and the ports that `serial_init` has
initialized. -/
structure Board where
  idtEntries : Nat → IdtEntry
  idtLoaded : Bool
  pics : Pair
  enabled : Bool
  initialized : Fin 4 → Bool

namespace Board

def outb (port : U32) (data : U8) (b : Board) : Board := { b with pics := b.pics.outb port data }

def store (idx : Nat) (f : IdtEntry → IdtEntry) (b : Board) : Board :=
  { b with idtEntries := Function.update b.idtEntries idx (f (b.idtEntries idx)) }

def lidt (b : Board) : Board := { b with idtLoaded := true }

def cli (b : Board) : Board := { b with enabled := false }

def sti (b : Board) : Board := { b with enabled := true }

def effect (e : Effect) (b : Board) : Board :=
  match e with
  | .outb port data => b.outb port data
  | _ => b

end Board

section Serial

def COM3 : U32 := 0x3e8
def COM4 : U32 := 0x2e8
def FCR : U32 := 2

def serialDevno (dev : U32) : Option (Fin 4) :=
  if dev = COM1 then some 0
  else if dev = COM2 then some 1
  else if dev = COM3 then some 2
  else if dev = COM4 then some 3
  else none

def serialInit (dev : U32) : List (Board → Board) :=
  match serialDevno dev with
  | none => []
  | some dno =>
      [Board.outb (dev + IER) 0x00, Board.outb (dev + LCR) 0x80,
        Board.outb (dev + DLL) (BitVec.ofNat 8 (115200 / 9600)), Board.outb (dev + DLM) 0x00,
        Board.outb (dev + LCR) 0x03, Board.outb (dev + FCR) 0xC7, Board.outb (dev + MCR) 0x0B,
        fun b => { b with initialized := Function.update b.initialized dno true }]

/-- Nothing is written before `serial_init`; the test comes once, before the loop. -/
def serialOut (dev : U32) (buffer : List U8) : List (Board → Board) :=
  match serialDevno dev with
  | none => []
  | some dno => buffer.map fun c b => if b.initialized dno then b.outb dev c else b

def klogv (dev : U32) (msg : String) : List (Board → Board) :=
  serialOut dev (literal "klogv: ") ++ serialOut dev (literal msg) ++
    serialOut dev (literal "\r\n")

end Serial

section Tables

def idtSetGate (idx : Nat) (fn : U32) (sel : U16) (flags : U8) : List (Board → Board) :=
  [Board.store idx fun e => { e with baseLow := (fn &&& 0xFFFF).setWidth 16 },
    Board.store idx fun e => { e with baseHigh := ((fn >>> 16) &&& 0xFFFF).setWidth 16 },
    Board.store idx fun e => { e with sselect := sel },
    Board.store idx fun e => { e with zero := 0 },
    Board.store idx fun e => { e with flags := flags }]

def idtInstall (vector : Nat) (handler : U32) : List (Board → Board) :=
  idtSetGate vector handler 0x08 0x8e

def requiredInterrupts : Nat := 32

def isrs : List Handler :=
  [.divideError, .debug, .nmi, .breakpoint, .overflow, .bounds, .invalidOp, .deviceNotAvailable,
    .doubleFault, .coprocessorSegment, .invalidTss, .segmentNotPresent, .stackSegment,
    .generalProtection, .pageFault, .reserved, .coprocessor]

def irqInit (addr : Handler → U32) : List (Board → Board) :=
  (isrs.zipIdx.flatMap fun isr => idtSetGate isr.2 (addr isr.1) 0x08 0x8e) ++
  ((List.range' isrs.length (requiredInterrupts - isrs.length)).flatMap fun i =>
    idtSetGate i (addr .reserved) 0x08 0x8e) ++
  -- this one replaces the gate of the double fault
  idtSetGate 0x08 (addr .rtcIsr) 0x08 0x8e ++ idtSetGate 0x60 (addr .sysCallIsr) 0x08 0x8e

def irqGates : List (Nat × Handler) :=
  isrs.zipIdx.map Prod.swap ++
  (List.range' isrs.length (requiredInterrupts - isrs.length)).map (fun i => (i, .reserved)) ++
  [(0x08, .rtcIsr), (0x60, .sysCallIsr)]

/-- The routine that the last of these leaves at a vector. -/
def lastGate (gates : List (Nat × Handler)) (v : Nat) : Option Handler :=
  (gates.reverse.find? fun g => g.1 = v).map Prod.snd

/-- A double fault ends up in the routine for the clock. -/
example : lastGate irqGates 0x08 = some .rtcIsr ∧ lastGate irqGates 0x24 = none := by decide

/-- The wait is a write to a port that nothing listens to. -/
def outbwait (port : U32) (data : U8) : List (Board → Board) :=
  [Board.outb port data, Board.outb 0x80 data]

def picInit : List (Board → Board) :=
  outbwait 0x20 0x11 ++ outbwait 0xA0 0x11 ++ outbwait 0x21 0x20 ++ outbwait 0xA1 0x28 ++
  outbwait 0x21 4 ++ outbwait 0xA1 2 ++ outbwait 0x21 0x01 ++ outbwait 0xA1 0x01 ++
  outbwait 0x21 0xFF ++ outbwait 0xA1 0xFF

end Tables

section Boot

/-- `kmain` up to `serial_open`, in three parts. The descriptor table of segments, the page
tables and the heap are set up without a port or a gate. -/
def beforeLidt : List (Board → Board) :=
  klogv COM1 "Initialized serial I/O on COM1 device..." ++ serialInit COM1 ++
  klogv COM1 "Initializing Global Descriptor Table..." ++
  klogv COM1 "Initializing Interrupt Descriptor Table..."

def beforeSti (addr : Handler → U32) : List (Board → Board) :=
  klogv COM1 "Disabling interrupts..." ++ [Board.cli] ++
  klogv COM1 "Initializing Interrupt Request routines..." ++ irqInit addr ++
  klogv COM1 "Initializing Programmable Interrupt Controller..." ++ picInit ++
  klogv COM1 "Enabling Interrupts..."

def beforeOpen : List (Board → Board) :=
  klogv COM1 "Initializing Virtual Memory..." ++ klogv COM1 "Initializing MPX modules..."

def opens (serialIsr : U32) (writes : List Effect) : List (Board → Board) :=
  idtInstall 0x24 serialIsr ++ writes.map Board.effect

def bootStart (addr : Handler → U32) : List (Board → Board) :=
  beforeLidt ++ [Board.lidt] ++ beforeSti addr ++ [Board.sti] ++ beforeOpen

end Boot

structure Board.Wired (addr : Handler → U32) (b : Board) : Prop where
  loaded : b.idtLoaded = true
  gates : ∀ v h, lastGate irqGates v = some h → (b.idtEntries v).Serves (addr h)

/-- An interrupt that the processor takes is the one of COM1, and leads to its routine. -/
structure Board.Safe (addr : Handler → U32) (b : Board) : Prop where
  wired : b.enabled = true → b.Wired addr
  line : b.enabled = true → ∀ irq < 16, b.pics.Passes irq →
    irq = 4 ∧ (b.idtEntries (b.pics.vector irq)).Serves (addr .serialIsr)

section Statements

variable {I : Board → Prop} {b : Board} {addr : Handler → U32} {f : Board → Board} {dev port : U32}
  {buffer : List U8} {msg : String}

inductive Plain : (Board → Board) → Prop
  | neutral (f : Board → Board) (hneutral : ∀ b, f b = b) : Plain f
  | mark (dno : Fin 4) :
      Plain fun b => { b with initialized := Function.update b.initialized dno true }
  | store (idx : Nat) (g : IdtEntry → IdtEntry) : Plain (Board.store idx g)
  | outb (port : U32) (data : U8) : Plain (Board.outb port data)
  | cli : Plain Board.cli

theorem Plain.disabled (h : Plain f) (hb : b.enabled = false) : (f b).enabled = false := by
  cases h with
  | neutral _ hneutral => rw [hneutral, hb]
  | mark dno => exact hb
  | store idx g => exact hb
  | outb port data => exact hb
  | cli => rfl

theorem Plain.loaded (h : Plain f) (hb : b.idtLoaded = true) : (f b).idtLoaded = true := by
  cases h with
  | neutral _ hneutral => rw [hneutral, hb]
  | mark dno => exact hb
  | store idx g => exact hb
  | outb port data => exact hb
  | cli => exact hb

theorem outb_other (data : U8) (hport : ¬ Pair.IsPort port) : b.outb port data = b := by
  rw [Board.outb, Pair.outb_other data hport]

theorem neutral_serialOut (hdev : ¬ Pair.IsPort dev) (hf : f ∈ serialOut dev buffer) :
    f b = b := by
  rw [serialOut] at hf
  cases hdno : serialDevno dev with
  | none =>
      simp only [hdno] at hf
      cases hf
  | some dno =>
      simp only [hdno] at hf
      obtain ⟨c, -, rfl⟩ := List.mem_map.mp hf
      simp only [outb_other c hdev, ite_self]

theorem neutral_klogv (hf : f ∈ klogv COM1 msg) : f b = b := by
  have hdev : ¬ Pair.IsPort COM1 := by decide
  simp only [klogv, List.mem_append, or_assoc] at hf
  cases hf with
  | inl hprefix => exact neutral_serialOut hdev hprefix
  | inr hrest =>
      cases hrest with
      | inl hmsg => exact neutral_serialOut hdev hmsg
      | inr hend => exact neutral_serialOut hdev hend

theorem keeps_klogv (I : Board → Prop) (msg : String) : Keeps I (klogv COM1 msg) := by
  intro f hf b hb
  rw [neutral_klogv hf]
  exact hb

theorem runAll_klogv (msg : String) (b : Board) : runAll (klogv COM1 msg) b = b :=
  (keeps_klogv (fun b' => b' = b) msg).runAll rfl

theorem plain_klogv (hf : f ∈ klogv COM1 msg) : Plain f :=
  .neutral f fun _ => neutral_klogv hf

theorem mem_idtSetGate {idx : Nat} {fn : U32} {sel : U16} {flags : U8}
    (hf : f ∈ idtSetGate idx fn sel flags) : ∃ g, f = Board.store idx g := by
  simp only [idtSetGate, List.mem_cons, List.not_mem_nil, or_false] at hf
  obtain rfl | rfl | rfl | rfl | rfl := hf <;> exact ⟨_, rfl⟩

theorem plain_idtSetGate {idx : Nat} {fn : U32} {sel : U16} {flags : U8}
    (hf : f ∈ idtSetGate idx fn sel flags) : Plain f := by
  obtain ⟨g, rfl⟩ := mem_idtSetGate hf
  exact .store idx g

theorem plain_irqInit (hf : f ∈ irqInit addr) : Plain f := by
  simp only [irqInit, List.mem_append, List.mem_flatMap, or_assoc] at hf
  obtain ⟨isr, -, hf⟩ | ⟨i, -, hf⟩ | hf | hf := hf <;> exact plain_idtSetGate hf

theorem mem_picInit (hf : f ∈ picInit) : ∃ port data, f = Board.outb port data := by
  have hwait : ∀ {port : U32} {data : U8}, f ∈ outbwait port data →
      ∃ port data, f = Board.outb port data := by
    intro port data hf
    simp only [outbwait, List.mem_cons, List.not_mem_nil, or_false] at hf
    obtain rfl | rfl := hf <;> exact ⟨_, data, rfl⟩
  simp only [picInit, List.mem_append, or_assoc] at hf
  obtain h | h | h | h | h | h | h | h | h | h := hf <;> exact hwait h

theorem plain_picInit (hf : f ∈ picInit) : Plain f := by
  obtain ⟨port, data, rfl⟩ := mem_picInit hf
  exact .outb port data

theorem plain_serialInit (hf : f ∈ serialInit COM1) : Plain f := by
  have hdevno : serialDevno COM1 = some 0 := rfl
  simp only [serialInit, hdevno, List.mem_cons, List.not_mem_nil, or_false] at hf
  obtain rfl | rfl | rfl | rfl | rfl | rfl | rfl | rfl := hf
  all_goals first | exact .mark 0 | exact .outb _ _

theorem plain_beforeLidt (hf : f ∈ beforeLidt) : Plain f := by
  simp only [beforeLidt, List.mem_append, or_assoc] at hf
  obtain hf | hf | hf | hf := hf
  · exact plain_klogv hf
  · exact plain_serialInit hf
  · exact plain_klogv hf
  · exact plain_klogv hf

theorem plain_beforeSti (hf : f ∈ beforeSti addr) : Plain f := by
  simp only [beforeSti, List.mem_append, or_assoc, List.mem_singleton] at hf
  obtain hf | rfl | hf | hf | hf | hf | hf := hf
  · exact plain_klogv hf
  · exact .cli
  · exact plain_klogv hf
  · exact plain_irqInit hf
  · exact plain_klogv hf
  · exact plain_picInit hf
  · exact plain_klogv hf

end Statements

section Controllers

def quietPics : Pair := ⟨.initialized 0x20 0xFF, .initialized 0x28 0xFF⟩

def serialPics : Pair := ⟨.initialized 0x20 0xEF, .initialized 0x28 0xFF⟩

theorem pics_picInit (b : Board) : (runAll picInit b).pics = quietPics := by
  have hmaster := Chip.initWords b.pics.master 0x20 4 0xFF
  have hslave := Chip.initWords b.pics.slave 0x28 2 0xFF
  exact congrArg₂ Pair.mk hmaster hslave

theorem not_passes_quietPics (irq : Nat) : ¬ quietPics.Passes irq := by
  rw [Pair.Passes]
  split
  · exact fun h => Chip.not_passes_masked (by omega) h.2
  · exact fun h => Chip.not_passes_masked (by decide) h.1

theorem passes_serialPics : ∀ irq < 16, (serialPics.Passes irq ↔ irq = 4) := by decide

theorem serialPics_serve : (serialPics.acknowledge 4).outb 0x20 0x20 = serialPics := by
  have hmaster : ((Chip.initialized 0x20 0xEF).acknowledge 4).command 0x20 = _ :=
    Chip.command_acknowledge (by decide)
  exact congrArg (Pair.mk · (.initialized 0x28 0xFF)) hmaster

end Controllers

section Gates

variable {b : Board} {addr : Handler → U32} {idx v : Nat} {fn : U32}

theorem halves_append (fn : U32) :
    ((fn >>> 16) &&& 0xFFFF).setWidth 16 ++ (fn &&& 0xFFFF).setWidth 16 = fn := by
  have hlow : ∀ x : U32, (x &&& 0xFFFF).setWidth 16 = x.setWidth 16 := by
    intro x
    rw [BitVec.setWidth_and]
    exact BitVec.and_allOnes
  rw [hlow, hlow]
  apply BitVec.eq_of_getLsbD_eq
  intro i hi
  rw [BitVec.getLsbD_append]
  split
  · next hi16 => simp [hi16]
  · next hi16 =>
    have hindex : 16 + (i - 16) = i := by omega
    have hbound : i - 16 < 16 := by omega
    simp [BitVec.getLsbD_ushiftRight, hindex, hbound]

theorem idtSetGate_serves (idx : Nat) (fn : U32) (b : Board) :
    ((runAll (idtSetGate idx fn 0x08 0x8e) b).idtEntries idx).Serves fn := by
  have hentry : (runAll (idtSetGate idx fn 0x08 0x8e) b).idtEntries idx =
      ⟨(fn &&& 0xFFFF).setWidth 16, 0x08, 0, 0x8e, ((fn >>> 16) &&& 0xFFFF).setWidth 16⟩ := by
    simp [idtSetGate, runAll, Board.store]
  rw [hentry]
  exact ⟨halves_append fn, rfl, rfl⟩

theorem keeps_gate {sel : U16} {flags : U8} (hne : v ≠ idx) (P : IdtEntry → Prop) :
    Keeps (fun b => P (b.idtEntries v)) (idtSetGate idx fn sel flags) := by
  intro f hf b hb
  have hstore : ∀ g, P ((b.store idx g).idtEntries v) := by
    intro g
    have hsame : (b.store idx g).idtEntries v = b.idtEntries v := Function.update_of_ne hne _ _
    rw [hsame]
    exact hb
  obtain ⟨g, rfl⟩ := mem_idtSetGate hf
  exact hstore g

theorem gates_serve (gates : List (Nat × Handler)) (b : Board) {h : Handler}
    (hlast : lastGate gates v = some h) :
    ((runAll (gates.flatMap fun g => idtSetGate g.1 (addr g.2) 0x08 0x8e) b).idtEntries v).Serves
      (addr h) := by
  induction gates using List.reverseRecOn with
  | nil => cases hlast
  | append_singleton gates g ih =>
      rw [List.flatMap_append, runAll_append, List.flatMap_singleton]
      simp only [lastGate, List.reverse_append, List.reverse_singleton, List.singleton_append,
        List.find?_cons] at hlast
      by_cases hv : g.1 = v
      · simp only [hv, decide_true, Option.map_some, Option.some.injEq] at hlast
        rw [← hlast, ← hv]
        exact idtSetGate_serves g.1 (addr g.2) _
      · simp only [hv, decide_false] at hlast
        exact (keeps_gate (Ne.symm hv) (IdtEntry.Serves · (addr h))).runAll (ih hlast)

theorem gates_irqInit (b : Board) {h : Handler} (hlast : lastGate irqGates v = some h) :
    ((runAll (irqInit addr) b).idtEntries v).Serves (addr h) := by
  have heq : irqInit addr = irqGates.flatMap fun g => idtSetGate g.1 (addr g.2) 0x08 0x8e := by
    simp [irqInit, irqGates, List.flatMap_map]
  rw [heq]
  exact gates_serve irqGates b hlast

end Gates

section Phases

variable {b : Board} {addr : Handler → U32} {writes : List Effect}

theorem safe_of_disabled (hb : b.enabled = false) : b.Safe addr := by
  have hnot : b.enabled ≠ true := by
    rw [hb]
    decide
  exact ⟨fun h => absurd h hnot, fun h => absurd h hnot⟩

/-- Between `sti` and the write to the mask register. -/
structure Board.Masked (addr : Handler → U32) (b : Board) : Prop extends b.Wired addr where
  pics : b.pics = quietPics
  enabled : b.enabled = true

theorem Board.masked_of_sti (hwired : b.Wired addr) (hpics : b.pics = quietPics) :
    b.sti.Masked addr := ⟨⟨hwired.loaded, hwired.gates⟩, hpics, rfl⟩

theorem Board.Masked.safe (h : b.Masked addr) : b.Safe addr where
  wired _ := h.toWired
  line _ irq _ hpass := by
    rw [h.pics] at hpass
    exact absurd hpass (not_passes_quietPics irq)

structure Board.Served (addr : Handler → U32) (b : Board) : Prop extends b.Wired addr where
  pics : b.pics = serialPics
  enabled : b.enabled = true
  gate : (b.idtEntries 0x24).Serves (addr .serialIsr)

theorem Board.Served.safe (h : b.Served addr) : b.Safe addr where
  wired _ := h.toWired
  line _ irq hirq hpass := by
    rw [h.pics] at hpass ⊢
    obtain rfl := (passes_serialPics irq hirq).mp hpass
    exact ⟨rfl, h.gate⟩

def Effect.OffPics (e : Effect) : Prop := ∀ port data, e = .outb port data → ¬ Pair.IsPort port

theorem effect_offPics {e : Effect} (he : e.OffPics) (b : Board) : b.effect e = b := by
  cases e with
  | outb port data => exact outb_other data (he port data rfl)
  | unblockPcb pcb => rfl
  | freeMem ptr => rfl

theorem keeps_effects (hwrites : ∀ e ∈ writes, e.OffPics) (I : Board → Prop) :
    Keeps I (writes.map Board.effect) := by
  intro f hf b hb
  obtain ⟨e, he, rfl⟩ := List.mem_map.mp hf
  have hsame := effect_offPics (hwrites e he) b
  exact hsame.symm ▸ hb

theorem runAll_effects (hwrites : ∀ e ∈ writes, e.OffPics) (b : Board) :
    runAll (writes.map Board.effect) b = b :=
  (keeps_effects hwrites fun b' => b' = b).runAll rfl

theorem keeps_disabled :
    Keeps (fun b => b.enabled = false) (beforeLidt ++ [Board.lidt] ++ beforeSti addr) := by
  refine keeps_append (keeps_append ?_ ?_) ?_
  · exact fun f hf b => (plain_beforeLidt hf).disabled
  · intro f hf b hb
    obtain rfl := List.mem_singleton.mp hf
    exact hb
  · exact fun f hf b => (plain_beforeSti hf).disabled

theorem pics_beforeSti (b : Board) : (runAll (beforeSti addr) b).pics = quietPics := by
  rw [beforeSti, runAll_append, runAll_klogv, runAll_append]
  exact pics_picInit _

theorem wired_beforeSti (hb : b.idtLoaded = true) : (runAll (beforeSti addr) b).Wired addr where
  loaded := by
    have hkeep : Keeps (fun b => b.idtLoaded = true) (beforeSti addr) :=
      fun f hf b => (plain_beforeSti hf).loaded
    exact hkeep.runAll hb
  gates v h hlast := by
    rw [beforeSti, runAll_append, runAll_klogv, runAll_append]
    have hkeep : Keeps (fun b => (b.idtEntries v).Serves (addr h)) picInit := by
      intro f hf b hb
      obtain ⟨port, data, rfl⟩ := mem_picInit hf
      exact hb
    apply hkeep.runAll
    rw [runAll_append, runAll_klogv, runAll_append]
    exact gates_irqInit _ hlast

theorem masked_sti (b : Board) :
    (runAll (beforeLidt ++ [Board.lidt] ++ beforeSti addr) b).sti.Masked addr := by
  rw [runAll_append, runAll_append]
  generalize hlidt : runAll [Board.lidt] (runAll beforeLidt b) = b₁
  have hloaded : b₁.idtLoaded = true := by
    rw [← hlidt]
    rfl
  exact Board.masked_of_sti (wired_beforeSti hloaded) (pics_beforeSti b₁)

theorem masked_beforeOpen : Keeps (Board.Masked addr) beforeOpen :=
  keeps_append (keeps_klogv _ _) (keeps_klogv _ _)

theorem masked_bootStart (b : Board) : (runAll (bootStart addr) b).Masked addr := by
  rw [bootStart, runAll_append, runAll_append]
  exact masked_beforeOpen.runAll (masked_sti b)

theorem safe_bootStart (hb : b.enabled = false) :
    Always (Board.Safe addr) (bootStart addr) b := by
  have hearly : Keeps (fun b => b.enabled = false)
      (beforeLidt ++ [Board.lidt] ++ beforeSti addr) := keeps_disabled
  rw [bootStart, List.append_assoc]
  apply Always.append (hearly.always hb fun _ => safe_of_disabled)
  apply Always.cons (safe_of_disabled (hearly.runAll hb))
  exact masked_beforeOpen.always (masked_sti b) fun _ h => h.safe

end Phases

section Open

variable {b : Board} {addr : Handler → U32} {speed : Int}

def openFirst (speed : Int) : List Effect :=
  [.outb (COM1 + IER) 0x00, .outb (COM1 + LCR) 0x80,
    .outb (COM1 + DLM) (BitVec.ofInt 8 (Int.tmod 115200 speed)),
    .outb (COM1 + DLL) (BitVec.ofInt 8 (Int.tdiv 115200 speed)), .outb (COM1 + LCR) 0x03]

def openLast : List Effect := [.outb (COM1 + MCR) 0x0F, .outb (COM1 + IER) 0x01]

theorem openWrites_split (mask : U8) (speed : Int) : openWrites mask speed =
    openFirst speed ++ .outb STATUS_REG mask :: openLast := rfl

theorem offPics_outb {port : U32} (data : U8) (hport : ¬ Pair.IsPort port) :
    (Effect.outb port data).OffPics := by
  intro port' data' heq
  cases heq
  exact hport

theorem offPics_openFirst : ∀ e ∈ openFirst speed, e.OffPics := by
  intro e he
  simp only [openFirst, List.mem_cons, List.not_mem_nil, or_false] at he
  obtain rfl | rfl | rfl | rfl | rfl := he <;> exact offPics_outb _ (by decide)

theorem offPics_openLast : ∀ e ∈ openLast, e.OffPics := by
  intro e he
  simp only [openLast, List.mem_cons, List.not_mem_nil, or_false] at he
  obtain rfl | rfl := he <;> exact offPics_outb _ (by decide)

/-- `irq_init` has set no gate at the vector of COM1. -/
theorem masked_idtInstall (fn : U32) : Keeps (Board.Masked addr) (idtInstall 0x24 fn) := by
  have hkeep : Keeps (fun b => ∀ v h, lastGate irqGates v = some h →
      (b.idtEntries v).Serves (addr h)) (idtInstall 0x24 fn) := by
    intro f hf b hb v h hlast
    have hne : v ≠ 0x24 := by
      rintro rfl
      cases hlast
    exact keeps_gate hne (IdtEntry.Serves · (addr h)) f hf b (hb v h hlast)
  intro f hf b hb
  have hgates := hkeep f hf b hb.gates
  obtain ⟨g, rfl⟩ := mem_idtSetGate hf
  exact ⟨⟨hb.loaded, hgates⟩, hb.pics, hb.enabled⟩

/-- The gate is complete before its line is unmasked. -/
theorem opens_served (h : b.Masked addr) (speed : Int) :
    Always (Board.Safe addr) (opens (addr .serialIsr) (openWrites 0xEF speed)) b ∧
    (runAll (opens (addr .serialIsr) (openWrites 0xEF speed)) b).Served addr := by
  have hinstall : Keeps (Board.Masked addr) (idtInstall 0x24 (addr .serialIsr)) :=
    masked_idtInstall _
  have hgate := idtSetGate_serves 0x24 (addr .serialIsr) b
  have hmasked := hinstall.runAll h
  generalize hb : runAll (idtInstall 0x24 (addr .serialIsr)) b = b₁ at hmasked
  have hgate₁ : (b₁.idtEntries 0x24).Serves (addr .serialIsr) := hb ▸ hgate
  have hfirst := keeps_effects (@offPics_openFirst speed) (Board.Masked addr)
  have hlast := keeps_effects offPics_openLast (Board.Served addr)
  have hserved : (b₁.effect (.outb STATUS_REG 0xEF)).Served addr := by
    refine ⟨⟨hmasked.loaded, hmasked.gates⟩, ?_, hmasked.enabled, hgate₁⟩
    calc (b₁.effect (.outb STATUS_REG 0xEF)).pics = b₁.pics.outb 0x21 0xEF := rfl
      _ = quietPics.outb 0x21 0xEF := by rw [hmasked.pics]
      _ = serialPics := rfl
  rw [opens, openWrites_split, List.map_append, List.map_cons]
  constructor
  · apply Always.append (hinstall.always h fun _ h => h.safe)
    rw [hb]
    apply Always.append (hfirst.always hmasked fun _ h => h.safe)
    rw [runAll_effects offPics_openFirst]
    exact Always.cons hmasked.safe (hlast.always hserved fun _ h => h.safe)
  · rw [runAll_append, hb, runAll_append, runAll_effects offPics_openFirst]
    exact hlast.runAll hserved

end Open

end Mpx
