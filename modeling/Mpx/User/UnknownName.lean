import Mpx.User.Priority

/-! The commands that take the name of a process, on a line without such a name. -/

namespace Mpx

open Memory Procs Run CString

/-- The commands that look for a process; `set_pcb_priority` has read a second line. -/
inductive NameCommand
  | deletePcb
  | suspendPcb
  | resumePcb
  | showPcb
  | setPcbPriority (priorityBuf : List U8)

def NameCommand.run (C : Console Heap) (K : Kernel Heap) (buf : List U8) :
    NameCommand → Except Fault (Kernel Heap)
  | .deletePcb => do
      let (msg, K) ← Mpx.deletePcb C K buf
      C msg K
  | .suspendPcb => do
      let (msg, K) ← Mpx.suspendPcb C K buf
      C msg K
  | .resumePcb => do
      let (msg, K) ← Mpx.resumePcb C K buf
      C msg K
  | .showPcb => Mpx.showPcb C K buf
  | .setPcbPriority priorityBuf => Mpx.setPcbPriority studentHeap C K buf priorityBuf

def BadLength (buf : List U8) : Prop :=
  ∃ name, (strtok buf whitespace).1 = some name ∧
    (strlen name < minNameLen ∨ strlen name > maxNameLen)

def NamesNone (s : Procs) (buf : List U8) : Prop :=
  ∀ name, (strtok buf whitespace).1 = some name →
    (strlen name < minNameLen ∨ strlen name > maxNameLen) ∨ pcbSearch s name = .ok 0

/-- Every message is written at last. -/
def Answers (C : Console Heap) : Prop := ∀ msg K, ∃ K', C msg K = .ok K'

inductive WritesOnly (C : Console Heap) : Kernel Heap → Kernel Heap → Prop
  | done (K : Kernel Heap) : WritesOnly C K K
  | message {K K₁ K' : Kernel Heap} (msg : String) (hwrite : C msg K = .ok K₁)
      (hrest : WritesOnly C K₁ K') : WritesOnly C K K'
  | block {K K' : Kernel Heap} (heap : Heap)
      (hrest : WritesOnly C { K with device := { K.device with heap := heap } } K') :
      WritesOnly C K K'

/-- The command returns, and all that it has done is to write messages. -/
def Harmless (C : Console Heap) (K : Kernel Heap) (result : Except Fault (Kernel Heap)) : Prop :=
  ∃ K', result = .ok K' ∧ WritesOnly C K K'

/-- The kernel in which the command looks for the name: `set_pcb_priority` has copied the name
and written its prompt before. -/
def NameCommand.Searches (C : Console Heap) (K : Kernel Heap) (buf : List U8)
    (K₁ : Kernel Heap) : NameCommand → Prop
  | .setPcbPriority _ => ∃ ptr heap, allocateMemory K.device.heap (copySize buf) = .ok (ptr, heap) ∧
      C priorityPrompt { K with device := { K.device with heap := heap } } = .ok K₁
  | _ => K₁ = K

def NameCommand.Tests (K : Kernel Heap) (buf : List U8) : NameCommand → Prop
  | .deletePcb => True
  | .suspendPcb => True
  | .resumePcb => True
  | .showPcb => (strtok buf whitespace).1 = none ∨ BadLength buf
  | .setPcbPriority _ => BadLength buf ∧ ¬ NoRoom K.device.heap (roundup (copySize buf)).toNat

section Unknown

variable {C : Console Heap} {K K' : Kernel Heap} {live : List U32}
  {buf priorityBuf name : List U8}

theorem WritesOnly.trans {K₁ : Kernel Heap} (h : WritesOnly C K K₁) (h' : WritesOnly C K₁ K') :
    WritesOnly C K K' := by
  induction h with
  | done K => exact h'
  | message msg hwrite _ ih => exact WritesOnly.message msg hwrite (ih h')
  | block heap _ ih => exact WritesOnly.block heap (ih h')

theorem WritesOnly.procs (h : WritesOnly silentConsole K K') : K'.procs = K.procs := by
  induction h with
  | done K => rfl
  | message msg hwrite _ ih =>
      cases hwrite
      exact ih
  | block heap _ ih => exact ih

theorem harmless_write (hC : Answers C) {K₁ : Kernel Heap} (h : WritesOnly C K K₁)
    (msg : String) : Harmless C K (C msg K₁) := by
  rcases hC msg K₁ with ⟨K', hwrite⟩
  exact ⟨K', hwrite, h.trans (WritesOnly.message msg hwrite (WritesOnly.done K'))⟩

theorem not_harmless_error {e : Fault} : ¬ Harmless C K (.error e) := by
  intro h
  rcases h with ⟨K', hrun, -⟩
  cases hrun

theorem badLength_iff (hname : (strtok buf whitespace).1 = some name) :
    BadLength buf ↔ strlen name < minNameLen ∨ strlen name > maxNameLen := by
  constructor
  · intro hbad
    rcases hbad with ⟨name', hname', hlength⟩
    rw [hname] at hname'
    cases hname'
    exact hlength
  · exact fun hlength => ⟨name, hname, hlength⟩

theorem pcbFind_writes (hC : Answers C) (hsearch : pcbSearch K.procs name = .ok 0) :
    ∃ K', pcbFind C K name = .ok (0, K') ∧ WritesOnly C K K' := by
  rw [pcbFind, hsearch, ok_bind]
  by_cases hmessage : (0 : U32) = 0 ∧ K.procs.suspendedHead ≠ 0
  · rcases hC "A PCB with the given name cannot be found. Please try again." K with ⟨K', hwrite⟩
    rw [if_pos hmessage, hwrite]
    exact ⟨K', rfl, WritesOnly.message _ hwrite (WritesOnly.done K')⟩
  · rw [if_neg hmessage]
    exact ⟨K, rfl, WritesOnly.done K⟩

/-- The three commands that share their tests have all of them. -/
theorem onUserProcess_harmless (hC : Answers C) (hline : NamesNone K.procs buf)
    (invalid notFound : String) (act : Kernel Heap → U32 → Except Fault (String × Kernel Heap)) :
    Harmless C K (onUserProcess C K buf invalid notFound act >>= fun r => C r.1 r.2) := by
  rw [onUserProcess]
  cases hname : (strtok buf whitespace).1 with
  | none => exact harmless_write hC (WritesOnly.done K) invalid
  | some name =>
      by_cases hlength : strlen name < minNameLen ∨ strlen name > maxNameLen
      · simp only [if_pos hlength]
        exact harmless_write hC (WritesOnly.done K) invalid
      · rcases pcbFind_writes hC ((hline name hname).resolve_left hlength) with ⟨K₁, hfind, hwrites⟩
        simp only [if_neg hlength, hfind, ok_bind]
        exact harmless_write hC hwrites notFound

theorem showPcb_harmless_iff (hC : Answers C) (hline : NamesNone K.procs buf) :
    Harmless C K (showPcb C K buf) ↔ (strtok buf whitespace).1 = none ∨ BadLength buf := by
  rw [showPcb]
  cases hname : (strtok buf whitespace).1 with
  | none => exact iff_of_true (harmless_write hC (WritesOnly.done K) _) (Or.inl rfl)
  | some name =>
      by_cases hlength : strlen name < minNameLen ∨ strlen name > maxNameLen
      · simp only [if_pos hlength]
        exact iff_of_true (harmless_write hC (WritesOnly.done K) _)
          (Or.inr ((badLength_iff hname).mpr hlength))
      · rcases pcbFind_writes hC ((hline name hname).resolve_left hlength) with ⟨K₁, hfind, -⟩
        simp only [if_neg hlength, hfind, ok_bind, if_true]
        apply iff_of_false not_harmless_error
        intro htests
        cases htests with
        | inl hnone => cases hnone
        | inr hbad => exact hlength ((badLength_iff hname).mp hbad)

theorem setPcbPriority_harmless_iff (hC : Answers C) (hown : OwnsBlocks K.device.heap live)
    (hbuf : buf.length ≤ 20)
    (hline : ∀ K₁, (NameCommand.setPcbPriority priorityBuf).Searches C K buf K₁ →
      NamesNone K₁.procs buf)
    (hlow : 0 ≤ atoi priorityBuf) (hhigh : atoi priorityBuf ≤ 9) :
    Harmless C K (setPcbPriority studentHeap C K buf priorityBuf) ↔
      BadLength buf ∧ ¬ NoRoom K.device.heap (roundup (copySize buf)).toNat := by
  rcases allocateMemory_total hown (copySize buf) with ⟨ptr, heap, halloc⟩
  have hroom := allocateMemory_null_iff hown (copySize_pos hbuf) halloc
  have hcall : sysAllocMem studentHeap K.device.heap
      (BitVec.ofNat 32 (strlen (strtok buf whitespace).2 + 1)) = .ok (ptr, heap) := halloc
  have hcopied := WritesOnly.block (C := C) (K := K) heap (WritesOnly.done _)
  rw [setPcbPriority, ← hroom]
  simp only [hcall, ok_bind]
  cases hname : (strtok buf whitespace).1 with
  | none =>
      apply iff_of_false not_harmless_error
      intro htests
      rcases htests.1 with ⟨name, hname', -⟩
      rw [hname] at hname'
      cases hname'
  | some name =>
      by_cases hptr : ptr = 0
      · simp only [if_pos hptr]
        exact iff_of_false not_harmless_error fun h => h.2 hptr
      · by_cases hlength : strlen name < minNameLen ∨ strlen name > maxNameLen
        · simp only [if_neg hptr, if_pos hlength]
          exact iff_of_true (harmless_write hC hcopied _) ⟨(badLength_iff hname).mpr hlength, hptr⟩
        · have hrange : ¬ (atoi priorityBuf < 0 ∨ atoi priorityBuf > 9) := by omega
          rcases hC priorityPrompt { K with device := { K.device with heap := heap } } with
            ⟨K₁, hprompt⟩
          have hsearch := (hline K₁ ⟨ptr, heap, halloc, hprompt⟩ name hname).resolve_left hlength
          rcases pcbFind_writes hC hsearch with ⟨K₂, hfind, -⟩
          rw [priorityPrompt] at hprompt
          simp only [if_neg hptr, if_neg hlength, hprompt, ok_bind, if_neg hrange, hfind, if_true]
          exact iff_of_false not_harmless_error fun h => hlength ((badLength_iff hname).mp h.1)

/-- A line without a process is harmless exactly for the commands and lines for which there is
a test; the others dereference NULL. -/
theorem unknown_name_iff (hC : Answers C) (hown : OwnsBlocks K.device.heap live)
    (hbuf : buf.length ≤ 20) (cmd : NameCommand)
    (hline : ∀ K₁, cmd.Searches C K buf K₁ → NamesNone K₁.procs buf)
    (hsecond : ∀ priorityBuf, cmd = .setPcbPriority priorityBuf →
      0 ≤ atoi priorityBuf ∧ atoi priorityBuf ≤ 9) :
    Harmless C K (cmd.run C K buf) ↔ cmd.Tests K buf := by
  cases cmd with
  | deletePcb => exact iff_of_true (onUserProcess_harmless hC (hline K rfl) _ _ _) trivial
  | suspendPcb => exact iff_of_true (onUserProcess_harmless hC (hline K rfl) _ _ _) trivial
  | resumePcb => exact iff_of_true (onUserProcess_harmless hC (hline K rfl) _ _ _) trivial
  | showPcb => exact showPcb_harmless_iff hC (hline K rfl)
  | setPcbPriority priorityBuf =>
      have hvalid := hsecond priorityBuf rfl
      exact setPcbPriority_harmless_iff hC hown hbuf hline hvalid.1 hvalid.2

theorem silentConsole_answers : Answers silentConsole := fun _ K => ⟨K, rfl⟩

theorem unknown_name_iff_short :
    ∃ K', NameCommand.showPcb.run silentConsole commandKernel [65, 10] = .ok K' ∧
      K'.procs = commandKernel.procs := by
  have hline : ∀ K₁, NameCommand.showPcb.Searches silentConsole commandKernel [65, 10] K₁ →
      NamesNone K₁.procs [65, 10] := by
    intro K₁ _ name hname
    have htoken : (strtok [65, 10] whitespace).1 = some [65] := by decide
    rw [htoken] at hname
    cases hname
    exact Or.inl (Or.inl (by decide))
  have hbad : BadLength [65, 10] := ⟨[65], by decide, Or.inl (by decide)⟩
  rcases (unknown_name_iff silentConsole_answers kernelHeap_owns (by decide) .showPcb hline
    (fun _ h => by cases h)).mpr (Or.inr hbad) with ⟨K', hrun, hwrites⟩
  exact ⟨K', hrun, hwrites.procs⟩

theorem not_harmless_of_map {result : Except Fault (Kernel Heap)} {e : Fault}
    (hrun : result.map (fun _ => ()) = .error e) : ¬ Harmless C K result := by
  intro h
  rcases h with ⟨K', hok, -⟩
  rw [hok] at hrun
  cases hrun

/-- No process is called `ZZ`, and the line with the return key alone names none. -/
theorem unknown_name_dereferenced :
    NamesNone commandKernel.procs [90, 90, 10] ∧ NamesNone commandKernel.procs [10] ∧
    (NameCommand.showPcb.run silentConsole commandKernel [90, 90, 10]).map (fun _ => ()) =
      .error .nullPointer ∧
    ((NameCommand.setPcbPriority [53, 10]).run silentConsole commandKernel [10]).map
      (fun _ => ()) = .error .nullPointer ∧
    ¬ Harmless silentConsole commandKernel
      (NameCommand.showPcb.run silentConsole commandKernel [90, 90, 10]) ∧
    ¬ Harmless silentConsole commandKernel
      ((NameCommand.setPcbPriority [53, 10]).run silentConsole commandKernel [10]) := by
  have hshow : (NameCommand.showPcb.run silentConsole commandKernel [90, 90, 10]).map
      (fun _ => ()) = .error .nullPointer := by
    decide +kernel
  have hset : ((NameCommand.setPcbPriority [53, 10]).run silentConsole commandKernel [10]).map
      (fun _ => ()) = .error .nullPointer := by
    decide +kernel
  refine ⟨?_, ?_, hshow, hset, not_harmless_of_map hshow, not_harmless_of_map hset⟩
  · intro name hname
    have htoken : (strtok [90, 90, 10] whitespace).1 = some [90, 90] := by decide
    rw [htoken] at hname
    cases hname
    right
    decide +kernel
  · intro name hname
    have htoken : (strtok [10] whitespace).1 = none := by decide
    rw [htoken] at hname
    cases hname

end Unknown

end Mpx
