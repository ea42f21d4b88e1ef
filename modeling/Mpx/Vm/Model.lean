import Mpx.Base.Loop
import Mpx.Base.Run
import Mpx.Base.Words

/-! Physical memory, page tables and the primitive kernel heap (`kernel/core-c.c`). -/

namespace Mpx

open Memory Loop

def KHEAP_BASE : U32 := 0xD000000
def KHEAP_SIZE : U32 := 0x10000
def PAGE_SIZE : U32 := 0x1000
def MEM_SIZE : U32 := 0x4000000
def FRAME_WORDS : Nat := 512
def FRAME_BIT : Nat := 32

/-- The memory, the variables of `core-c.c` and the registers that turn paging on. A
`page_dir` holds its 1024 `tables` and behind them its 1024 `tables_phys`. -/
structure Vm where
  mem : Mem
  frames : Nat → U32
  kdir : U32
  physAllocAddr : U32
  heapAddr : U32
  heapIsInitialized : Bool
  cr3 : U32
  paging : Bool

def tablesSlot (dir index : U32) : U32 := dir + 4 * index
def tablesPhysSlot (dir index : U32) : U32 := dir + 0x1000 + 4 * index

def pageIndex (addr : U32) : U32 := addr / PAGE_SIZE / 1024
def pageOffset (addr : U32) : U32 := addr / PAGE_SIZE % 1024

/-- `get_page` with `make_table` 0. -/
def findPage (vm : Vm) (addr dir : U32) : U32 :=
  let table := load32 vm.mem (tablesSlot dir (pageIndex addr))
  if table ≠ 0 then table + 4 * pageOffset addr else 0

def frameaddr (entry : U32) : U32 := entry >>> 12

def alloc (vm : Vm) (size : U32) : Except Fault (U32 × Vm) :=
  let base := vm.heapAddr
  let vm := { vm with heapAddr := base + size }
  -- `kpanic` does not return
  if vm.heapAddr > KHEAP_BASE + KHEAP_SIZE then .error .diverges else .ok (base, vm)

/-- The second result is the value of `*phys_addr` if the caller has passed a pointer. -/
def kmalloc (vm : Vm) (size : U32) (pageAlign physAddr : Bool) :
    Except Fault (U32 × U32 × Vm) :=
  if vm.heapIsInitialized then do
    let (addr, vm) ← alloc vm size
    if physAddr then
      let page := findPage vm addr vm.kdir
      if page = 0 then .error .nullPointer
      else
        let phys := frameaddr (load32 vm.mem page) * 0x1000 + (addr &&& 0xfff)
        return (addr, phys, vm)
    else return (addr, 0, vm)
  else
    let start :=
      if pageAlign ∧ vm.physAllocAddr &&& 0xfffff000 ≠ 0 then
        (vm.physAllocAddr &&& 0xfffff000) + 0x1000
      else vm.physAllocAddr
    .ok (start, if physAddr then start else 0, { vm with physAllocAddr := start + size })

def getPage (vm : Vm) (addr dir : U32) (makeTable : Bool) : Except Fault (U32 × Vm) :=
  let table := load32 vm.mem (tablesSlot dir (pageIndex addr))
  if table ≠ 0 then .ok (table + 4 * pageOffset addr, vm)
  else if makeTable then do
    let (table, phys, vm) ← kmalloc vm 0x1000 true true
    let mem := store32 vm.mem (tablesSlot dir (pageIndex addr)) table
    let mem := store32 mem (tablesPhysSlot dir (pageIndex addr)) (phys ||| 0x7)
    let table := load32 mem (tablesSlot dir (pageIndex addr))
    return (table + 4 * pageOffset addr, { vm with mem := mem })
  else .ok (0, vm)

def findBitLoop (word : U32) : Nat → Nat → Option Nat
  | 0, _ => none
  | rest + 1, j => if word &&& ((1 : U32) <<< j) = 0 then some j else findBitLoop word rest (j + 1)

def findFreeLoop (frames : Nat → U32) : Nat → Nat → U32
  | 0, _ => -1
  | rest + 1, i =>
      if frames i ≠ 0xffffffff then
        match findBitLoop (frames i) FRAME_BIT 0 with
        | some j => BitVec.ofNat 32 (i * FRAME_BIT + j)
        | none => findFreeLoop frames rest (i + 1)
      else findFreeLoop frames rest (i + 1)

def findFree (frames : Nat → U32) : U32 := findFreeLoop frames FRAME_WORDS 0

def setBit (frames : Nat → U32) (addr : U32) : Nat → U32 :=
  let frame := (addr / PAGE_SIZE).toNat
  let index := frame / FRAME_BIT
  let offset := frame % FRAME_BIT
  Function.update frames index (frames index ||| ((1 : U32) <<< offset))

def newFrame (vm : Vm) (page : U32) : Except Fault Vm :=
  if frameaddr (load32 vm.mem page) ≠ 0 then .ok vm
  else
    let index := findFree vm.frames
    if index = -1 then .error .diverges
    else
      let frames := setBit vm.frames (index * PAGE_SIZE)
      let mem := modifyWord vm.mem page fun entry => entry ||| 1
      let mem := modifyWord mem page fun entry => (entry &&& 0xfff) ||| (index <<< 12)
      let mem := modifyWord mem page fun entry => entry ||| 2
      let mem := modifyWord mem page fun entry => entry &&& ~~~4
      .ok { vm with mem := mem, frames := frames }

/-- More rounds than a counter of 32 bits has values. -/
def loopFuel : Nat := 2 ^ 32 + 1

def belowHeapEnd (i : U32) (_ : Vm) : Bool := i < KHEAP_BASE + KHEAP_SIZE

/-- The bound grows when a round allocates a table. -/
def belowTables (i : U32) (vm : Vm) : Bool := i < vm.physAllocAddr + 0x10000

def makeTable (i : U32) (vm : Vm) : Except Fault Vm := do
  let (_, vm) ← getPage vm i vm.kdir true
  return vm

def mapPage (i : U32) (vm : Vm) : Except Fault Vm := do
  let (page, vm) ← getPage vm i vm.kdir true
  newFrame vm page

def vmInit (vm : Vm) : Except Fault Vm := do
  let (kdir, _, vm) ← kmalloc vm 0x2000 true false
  let vm := { vm with kdir := kdir, mem := clear vm.mem kdir 0x2000 }
  let vm ← forLoop .diverges belowHeapEnd (fun i => i + 1) makeTable loopFuel KHEAP_BASE vm
  let vm ← forLoop .diverges belowTables (fun i => i + PAGE_SIZE) mapPage loopFuel 0 vm
  let vm ← forLoop .diverges belowHeapEnd (fun i => i + PAGE_SIZE) mapPage loopFuel KHEAP_BASE vm
  -- `kdir->tables[0]->pages[0]`
  let vm := { vm with mem := clear vm.mem (load32 vm.mem (tablesSlot vm.kdir 0)) 4 }
  return { vm with
    cr3 := tablesPhysSlot vm.kdir 0, paging := true, heapIsInitialized := true }

def bootVm (mem : Mem) (physEnd : U32) : Vm where
  mem := mem
  frames := fun _ => 0
  kdir := 0
  physAllocAddr := physEnd
  heapAddr := KHEAP_BASE
  heapIsInitialized := false
  cr3 := 0
  paging := false

/-- The entry to which the processor comes for a page, through the page directory. -/
def Vm.pageEntry (vm : Vm) (page : Nat) : Option U32 :=
  let directoryEntry := load32 vm.mem (vm.cr3 + BitVec.ofNat 32 (4 * (page / 1024)))
  if directoryEntry &&& 1 = 0 then none
  else some (load32 vm.mem
    ((directoryEntry &&& 0xfffff000) + BitVec.ofNat 32 (4 * (page % 1024))))

def Vm.Present (vm : Vm) (page : Nat) : Prop :=
  ∃ entry, vm.pageEntry page = some entry ∧ entry &&& 1 ≠ 0

def Vm.MappedTo (vm : Vm) (page frame : Nat) : Prop :=
  ∃ entry, vm.pageEntry page = some entry ∧ entry &&& 1 ≠ 0 ∧ (frameaddr entry).toNat = frame

theorem getPage_find (vm : Vm) (addr dir : U32) :
    getPage vm addr dir false = .ok (findPage vm addr dir, vm) := by
  simp only [getPage, findPage]
  split <;> rfl

end Mpx
