import Mpx.Base.Memory

/-! The heap manager of `lib/mem.c`.

A memory control block is a header word followed by its payload. The word holds
the payload size with the two flags `FREE` and `END` in its low bits. An access
through a NULL block pointer faults: `vm_init` leaves page 0 unmapped. -/

namespace Mpx

open Memory

def FREE : U32 := 1
def END : U32 := 2

def roundup (s : U32) : U32 :=
  if s &&& (END ||| FREE) ≠ 0 then (s &&& ~~~(END ||| FREE)) + 4 else s

structure Heap where
  mem : Mem
  memlist : U32

def mcbStart (mcb : U32) : U32 := mcb + 4

def mcbSize (m : Mem) (mcb : U32) : U32 := load32 m mcb &&& ~~~(END ||| FREE)

def mcbIsfree (m : Mem) (mcb : U32) : Bool := load32 m mcb &&& FREE ≠ 0

def mcbIsend (m : Mem) (mcb : U32) : Bool := load32 m mcb &&& END ≠ 0

def mcbSetfree (m : Mem) (mcb : U32) : Mem := store32 m mcb (load32 m mcb ||| FREE)

def mcbClrfree (m : Mem) (mcb : U32) : Mem := store32 m mcb (load32 m mcb &&& ~~~FREE)

def mcbCopyend (m : Mem) (into source : U32) : Mem :=
  store32 m into (load32 m into ||| if mcbIsend m source then END else 0)

def mcbNext (m : Mem) (mcb : U32) : Except Fault U32 :=
  if mcb = 0 then .error .nullPointer
  else .ok (if mcbIsend m mcb then 0 else mcbStart mcb + mcbSize m mcb)

/-- `kmalloc` maps a size to the address of the region it hands out. -/
def initializeHeap (kmalloc : U32 → U32) (m : Mem) (sz : U32) : Heap :=
  let sz := roundup sz
  let memlist := kmalloc (sz + 4)
  { mem := store32 m memlist (sz ||| FREE ||| END), memlist := memlist }

/-- A chain that is still going after as many steps as there are addresses
repeats a block, so running out of this fuel means looping for ever. -/
def walkFuel : Nat := 2 ^ 32

def splitBlock (m : Mem) (mcb sz : U32) : Mem :=
  if mcbSize m mcb > sz + 4 then
    let newfree := mcbStart mcb + sz
    let m := store32 m newfree (mcbSize m mcb - sz - 4)
    let m := mcbSetfree m newfree
    let m := mcbCopyend m newfree mcb
    store32 m mcb sz
  else m

def allocateLoop (sz : U32) : Nat → Mem → U32 → Except Fault (U32 × Mem)
  | 0, _, _ => .error .diverges
  | fuel + 1, m, mcb =>
      if mcb = 0 then .ok (0, m)
      else if mcbSize m mcb ≥ sz ∧ mcbIsfree m mcb then
        .ok (mcbStart mcb, mcbClrfree (splitBlock m mcb sz) mcb)
      else do
        let next ← mcbNext m mcb
        allocateLoop sz fuel m next

def allocateMemory (h : Heap) (sz : U32) : Except Fault (U32 × Heap) := do
  let (p, m) ← allocateLoop (roundup sz) walkFuel h.mem h.memlist
  return (p, { h with mem := m })

/-- `into->size += mcb_size(from) + sizeof(*mcb)` and the `mcb_copyend` after it. -/
def absorb (m : Mem) (into source : U32) : Mem :=
  let m := store32 m into (load32 m into + (mcbSize m source + 4))
  mcbCopyend m into source

def joinIfFree (m : Mem) (neighbour into source : U32) : Mem :=
  if neighbour ≠ 0 ∧ mcbIsfree m neighbour then absorb m into source else m

def freeLoop (ptr : U32) : Nat → Mem → U32 → U32 → U32 → Except Fault (Int × Mem)
  | 0, _, _, _, _ => .error .diverges
  | fuel + 1, m, prev, mcb, next =>
      if mcb = 0 then .ok (-1, m)
      else if mcbStart mcb = ptr ∧ ¬ mcbIsfree m mcb then
        let m := mcbSetfree m mcb
        let m := joinIfFree m next mcb next
        let m := joinIfFree m prev prev mcb
        .ok (0, m)
      else do
        -- the last round of a search that fails asks for the block after NULL
        let after ← mcbNext m next
        freeLoop ptr fuel m mcb next after

def freeMemory (h : Heap) (ptr : U32) : Except Fault (Int × Heap) := do
  let next ← mcbNext h.mem h.memlist
  let (r, m) ← freeLoop ptr walkFuel h.mem 0 h.memlist next
  return (r, { h with mem := m })

structure Mcb where
  addr : U32
  size : U32
  isFree : Bool
  isEnd : Bool
  deriving DecidableEq, Repr

def walk (m : Mem) : Nat → U32 → Except Fault (List Mcb)
  | 0, _ => .error .diverges
  | fuel + 1, mcb =>
      if mcb = 0 then .ok []
      else do
        let next ← mcbNext m mcb
        let rest ← walk m fuel next
        return ⟨mcb, mcbSize m mcb, mcbIsfree m mcb, mcbIsend m mcb⟩ :: rest

def Heap.chain (h : Heap) : Except Fault (List Mcb) := walk h.mem walkFuel h.memlist

end Mpx
