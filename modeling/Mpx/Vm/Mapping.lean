import Mpx.Vm.Tables

/-! The page tables while `vm_init` builds them. The directory `D` is followed by the table
of the kernel heap and then by the identity tables, each behind a page that the alignment
of `kmalloc` skips. -/

namespace Mpx

open Memory

def heapTable (D : Nat) : Nat := D + 0x3000

def identityTable (D t : Nat) : Nat := D + 0x5000 + 0x2000 * t

def endOfTables (D T : Nat) : Nat := D + 0x4000 + 0x2000 * T

def entryAddr (D page : Nat) : Nat := identityTable D (page / 1024) + 4 * (page % 1024)

def heapEntryAddr (D j : Nat) : Nat := heapTable D + 4 * j

/-- `tables[index]` in the directory; the kernel heap has the table 52. -/
def tableAt (D T index : Nat) : Nat :=
  if index < T then identityTable D index else if index = 52 then heapTable D else 0

/-- The first `n` pages are mapped to themselves, and the first `h` pages of the kernel
heap to the frames behind. -/
structure Mapping (vm : Vm) (D T n h : Nat) : Prop where
  kdir : vm.kdir = BitVec.ofNat 32 D
  physAllocAddr : vm.physAllocAddr = BitVec.ofNat 32 (endOfTables D T)
  early : vm.heapIsInitialized = false
  frames : ∀ k, FrameUsed vm.frames k ↔ k < n + h
  tables : ∀ index < 1024, wordAt vm.mem (D + 4 * index) = BitVec.ofNat 32 (tableAt D T index)
  tablesPhys : ∀ index < 1024, wordAt vm.mem (D + 0x1000 + 4 * index) =
    if tableAt D T index = 0 then 0 else BitVec.ofNat 32 (tableAt D T index) ||| 0x7
  entries : ∀ k < 1024 * T, wordAt vm.mem (entryAddr D k) = if k < n then entryWord k else 0
  heapEntries : ∀ j < 1024, wordAt vm.mem (heapEntryAddr D j) =
    if j < h then entryWord (n + j) else 0
  blank : ∀ a, a % 4 = 0 → endOfTables D T ≤ a → a < 0x4000000 → wordAt vm.mem a = 0

structure Layout (D T : Nat) : Prop where
  aligned : D % 4096 = 0
  low : 4096 ≤ D
  count : T ≤ 16
  fits : endOfTables D T ≤ 0x4000000

section Addresses

variable {D T k n j : Nat}

theorem entryAddr_bounds (hD : D % 4096 = 0) (hk : k < 1024 * T) :
    entryAddr D k % 4 = 0 ∧ D + 0x5000 ≤ entryAddr D k ∧ entryAddr D k < endOfTables D T := by
  simp only [entryAddr, identityTable, endOfTables]
  omega

theorem entryAddr_injective (h : entryAddr D k = entryAddr D n) : k = n := by
  simp only [entryAddr, identityTable] at h
  omega

theorem heapEntryAddr_bounds (hD : D % 4096 = 0) (hj : j < 1024) :
    heapEntryAddr D j % 4 = 0 ∧ D + 0x3000 ≤ heapEntryAddr D j ∧
      heapEntryAddr D j < D + 0x4000 := by
  simp only [heapEntryAddr, heapTable]
  omega

theorem heapEntryAddr_injective (h : heapEntryAddr D j = heapEntryAddr D k) : j = k := by
  simp only [heapEntryAddr] at h
  omega

theorem endOfTables_eq (D T : Nat) : endOfTables D T = D + 0x4000 + 0x2000 * T := rfl

theorem endOfTables_ge (D T : Nat) : D + 0x4000 ≤ endOfTables D T := by
  rw [endOfTables]
  omega

theorem entryAddr_zero (D : Nat) : entryAddr D 0 = D + 0x5000 := rfl

theorem tableAt_identity {index : Nat} (hindex : index < T) :
    tableAt D T index = identityTable D index := by
  rw [tableAt, if_pos hindex]

theorem tableAt_heap (hT : T ≤ 52) : tableAt D T 52 = heapTable D := by
  rw [tableAt, if_neg (Nat.not_lt.mpr hT), if_pos rfl]

theorem tableAt_bounds (hD : D % 4096 = 0) (index : Nat) : tableAt D T index = 0 ∨
    tableAt D T index % 4096 = 0 ∧ D + 0x3000 ≤ tableAt D T index ∧
      tableAt D T index + 0x1000 ≤ endOfTables D T := by
  unfold tableAt identityTable heapTable endOfTables
  split
  · omega
  · split <;> omega

end Addresses

section Entries

variable {vm : Vm} {mem : Mem} {frames : Nat → U32} {word : U32} {D T n h n' h' a : Nat}

/-- A word that lies in one of the tables changes neither the directory nor the free memory. -/
theorem Mapping.setEntry (hm : Mapping vm D T n h) (hl : Layout D T) (hlow : D + 0x3000 ≤ a)
    (hhigh : a < endOfTables D T) (hset : WordSet vm.mem mem a word)
    (hframes : ∀ k, FrameUsed frames k ↔ k < n' + h')
    (hentries : ∀ k < 1024 * T,
      wordAt mem (entryAddr D k) = if k < n' then entryWord k else 0)
    (hheap : ∀ j < 1024,
      wordAt mem (heapEntryAddr D j) = if j < h' then entryWord (n' + j) else 0) :
    Mapping { vm with mem := mem, frames := frames } D T n' h' := by
  have haligned := hl.aligned
  have hfits := hl.fits
  have hend := endOfTables_ge D T
  constructor
  · exact hm.kdir
  · exact hm.physAllocAddr
  · exact hm.early
  · exact hframes
  · intro index hindex
    rw [hset.other _ (by omega) (by omega) (by omega)]
    exact hm.tables index hindex
  · intro index hindex
    rw [hset.other _ (by omega) (by omega) (by omega)]
    exact hm.tablesPhys index hindex
  · exact hentries
  · exact hheap
  · intro b hb hblow hbhigh
    rw [hset.other b hb (by omega) (by omega)]
    exact hm.blank b hb hblow hbhigh

theorem Mapping.mapIdentity (hm : Mapping vm D T n 0) (hl : Layout D T) (hn : n < 1024 * T)
    (hframes : ∀ k, FrameUsed frames k ↔ k < n + 1)
    (hset : WordSet vm.mem mem (entryAddr D n) (entryWord n)) :
    Mapping { vm with mem := mem, frames := frames } D T (n + 1) 0 := by
  have haligned := hl.aligned
  have hfits := hl.fits
  have haddr := entryAddr_bounds haligned hn
  apply hm.setEntry hl (by omega) haddr.2.2 hset
  · exact hframes
  · intro k hk
    by_cases hkn : k = n
    · rw [hkn, if_pos (Nat.lt_succ_self n)]
      exact hset.self
    · have haddr' := entryAddr_bounds haligned hk
      have hlt : k < n + 1 ↔ k < n := by omega
      rw [hset.other _ (by omega) (by omega) fun heq => hkn (entryAddr_injective heq),
        hm.entries k hk]
      simp only [hlt]
  · intro j hj
    have haddr' := heapEntryAddr_bounds haligned hj
    rw [hset.other _ (by omega) (by omega) (by omega), hm.heapEntries j hj]
    simp

theorem Mapping.mapHeap (hm : Mapping vm D T n h) (hl : Layout D T) (hh : h < 1024)
    (hframes : ∀ k, FrameUsed frames k ↔ k < n + h + 1)
    (hset : WordSet vm.mem mem (heapEntryAddr D h) (entryWord (n + h))) :
    Mapping { vm with mem := mem, frames := frames } D T n (h + 1) := by
  have haligned := hl.aligned
  have hfits := hl.fits
  have hend := endOfTables_ge D T
  have haddr := heapEntryAddr_bounds haligned hh
  apply hm.setEntry hl haddr.2.1 (by omega) hset
  · exact hframes
  · intro k hk
    have haddr' := entryAddr_bounds haligned hk
    rw [hset.other _ (by omega) (by omega) (by omega)]
    exact hm.entries k hk
  · intro j hj
    by_cases hjh : j = h
    · rw [hjh, if_pos (Nat.lt_succ_self h)]
      exact hset.self
    · have haddr' := heapEntryAddr_bounds haligned hj
      have hlt : j < h + 1 ↔ j < h := by omega
      rw [hset.other _ (by omega) (by omega) fun heq => hjh (heapEntryAddr_injective heq),
        hm.heapEntries j hj]
      simp only [hlt]

end Entries

section NewTables

variable {vm : Vm} {m mem : Mem} {D T : Nat}

theorem Mapping.newTable (hm : Mapping vm D T (1024 * T) 0) (hl : Layout D (T + 1))
    (htables : WordSet vm.mem m (D + 4 * T) (BitVec.ofNat 32 (identityTable D T)))
    (htablesPhys : WordSet m mem (D + 0x1000 + 4 * T)
      (BitVec.ofNat 32 (identityTable D T) ||| 0x7)) :
    Mapping { vm with mem := mem, physAllocAddr := BitVec.ofNat 32 (endOfTables D (T + 1)) } D
      (T + 1) (1024 * T) 0 := by
  have haligned := hl.aligned
  have hcount := hl.count
  have hfits := hl.fits
  have hend := endOfTables_ge D (T + 1)
  have hother : ∀ b, b % 4 = 0 → b < 2 ^ 32 → b ≠ D + 4 * T → b ≠ D + 0x1000 + 4 * T →
      wordAt mem b = wordAt vm.mem b := by
    intro b hb hbfit hne hne'
    rw [htablesPhys.other b hb hbfit hne', htables.other b hb hbfit hne]
  have hsame : ∀ index, index ≠ T → tableAt D (T + 1) index = tableAt D T index := by
    intro index hne
    have hlt : index < T + 1 ↔ index < T := by omega
    simp only [tableAt, hlt]
  have hnew : tableAt D (T + 1) T = identityTable D T := by
    rw [tableAt, if_pos (Nat.lt_succ_self T)]
  have hnull : identityTable D T ≠ 0 := by
    rw [identityTable]
    omega
  constructor
  · exact hm.kdir
  · rfl
  · exact hm.early
  · exact hm.frames
  · intro index hindex
    by_cases heq : index = T
    · rw [heq, hnew, htablesPhys.other _ (by omega) (by omega) (by omega)]
      exact htables.self
    · rw [hother _ (by omega) (by omega) (by omega) (by omega), hsame index heq]
      exact hm.tables index hindex
  · intro index hindex
    by_cases heq : index = T
    · rw [heq, hnew, if_neg hnull]
      exact htablesPhys.self
    · rw [hother _ (by omega) (by omega) (by omega) (by omega), hsame index heq]
      exact hm.tablesPhys index hindex
  · intro k hk
    have haddr := entryAddr_bounds haligned hk
    rw [hother _ (by omega) (by omega) (by omega) (by omega)]
    by_cases hold : k < 1024 * T
    · exact hm.entries k hold
    · rw [if_neg hold]
      apply hm.blank _ (by omega) _ (by omega)
      simp only [entryAddr, identityTable, endOfTables]
      omega
  · intro j hj
    have haddr := heapEntryAddr_bounds haligned hj
    rw [hother _ (by omega) (by omega) (by omega) (by omega)]
    exact hm.heapEntries j hj
  · intro a ha hlow hhigh
    rw [hother a ha (by omega) (by omega) (by omega)]
    apply hm.blank a ha _ hhigh
    simp only [endOfTables] at hlow ⊢
    omega

structure Cleared (vm : Vm) (D : Nat) : Prop where
  kdir : vm.kdir = BitVec.ofNat 32 D
  physAllocAddr : vm.physAllocAddr = BitVec.ofNat 32 (D + 0x2000)
  early : vm.heapIsInitialized = false
  frames : ∀ k, ¬ FrameUsed vm.frames k
  blank : ∀ a, a % 4 = 0 → D ≤ a → a < 0x4000000 → wordAt vm.mem a = 0

theorem Cleared.newTable (hc : Cleared vm D) (hl : Layout D 0)
    (htables : WordSet vm.mem m (D + 4 * 52) (BitVec.ofNat 32 (heapTable D)))
    (htablesPhys : WordSet m mem (D + 0x1000 + 4 * 52) (BitVec.ofNat 32 (heapTable D) ||| 0x7)) :
    Mapping { vm with mem := mem, physAllocAddr := BitVec.ofNat 32 (endOfTables D 0) } D 0 0 0 := by
  have haligned := hl.aligned
  have hfits := hl.fits
  have hend := endOfTables_ge D 0
  have hblank : ∀ b, b % 4 = 0 → D ≤ b → b < 0x4000000 → b ≠ D + 4 * 52 →
      b ≠ D + 0x1000 + 4 * 52 → wordAt mem b = 0 := by
    intro b hb hlow hhigh hne hne'
    rw [htablesPhys.other b hb (by omega) hne', htables.other b hb (by omega) hne]
    exact hc.blank b hb hlow hhigh
  have hnone : ∀ index, index ≠ 52 → tableAt D 0 index = 0 := by
    intro index hne
    rw [tableAt, if_neg (Nat.not_lt_zero _), if_neg hne]
  have hheap : tableAt D 0 52 = heapTable D := rfl
  have hnull : heapTable D ≠ 0 := by
    rw [heapTable]
    omega
  constructor
  · exact hc.kdir
  · rfl
  · exact hc.early
  · intro k
    simp [hc.frames k]
  · intro index hindex
    by_cases heq : index = 52
    · rw [heq, hheap, htablesPhys.other _ (by omega) (by omega) (by omega)]
      exact htables.self
    · rw [hnone index heq]
      exact hblank _ (by omega) (by omega) (by omega) (by omega) (by omega)
  · intro index hindex
    by_cases heq : index = 52
    · rw [heq, hheap, if_neg hnull]
      exact htablesPhys.self
    · rw [if_pos (hnone index heq)]
      exact hblank _ (by omega) (by omega) (by omega) (by omega) (by omega)
  · intro k hk
    omega
  · intro j hj
    have haddr := heapEntryAddr_bounds haligned hj
    rw [if_neg (Nat.not_lt_zero j)]
    exact hblank _ (by omega) (by omega) (by omega) (by omega) (by omega)
  · intro a ha hlow hhigh
    exact hblank a ha (by omega) hhigh (by omega) (by omega)

end NewTables

end Mpx
