import Mpx.Kernel.Names
import Mpx.User.Commands

/-! The blocks of the heap that the commands take, and those that they do not give back. -/

namespace Mpx

open Memory PointerList Procs Run CString

inductive Command
  | loadR3
  | deletePCB (line : List U8)
  | gettime (hours minutes seconds : U8)
  | setPCBpriority (line priorityLine : List U8)

/-- The system at the prompt of `commhand`, and the PCBs of the processes that exist. -/
structure Session where
  kernel : Kernel Heap
  pcbs : List U32

def namedPcb (K : Kernel Heap) (line : List U8) : U32 :=
  match (strtok line whitespace).1 with
  | none => 0
  | some name => (pcbSearch K.procs name).toOption.getD 0

/-- A command from the line at the prompt up to the next prompt. -/
def runCommand (C : Console Heap) (proc : Nat → U32) (st : Session) :
    Command → Except Fault Session
  | .loadR3 => do
      let (pcbs, K) ← loadR3 studentHeap C proc st.kernel
      return ⟨K, pcbs ++ st.pcbs⟩
  | .deletePCB line => do
      let (msg, K) ← deletePcb C st.kernel line
      let K ← C msg K
      let pcbs := if msg = deletedMsg then st.pcbs.erase (namedPcb st.kernel line) else st.pcbs
      return ⟨K, pcbs⟩
  | .gettime hours minutes seconds => do
      let (_, K) ← getTime studentHeap C st.kernel hours minutes seconds
      return ⟨K, st.pcbs⟩
  | .setPCBpriority line priorityLine => do
      let K ← setPcbPriority studentHeap C st.kernel line priorityLine
      return ⟨K, st.pcbs⟩

inductive SessionStep (Allowed : Session → Command → Prop) : Session → Session → Prop
  | system (st : Session) (K' : Kernel Heap) (hstep : SystemStep studentHeap st.kernel K') :
      SessionStep Allowed st ⟨K', st.pcbs⟩
  | command (st : Session) (cmd : Command) (C : Console Heap) (proc : Nat → U32) (st' : Session)
      (hC : Talks studentHeap C) (hallowed : Allowed st cmd)
      (hrun : runCommand C proc st cmd = .ok st') : SessionStep Allowed st st'

/-- The allocated blocks are the device control block `dcb`, the queued requests and the
PCBs of the processes that exist. -/
def NoLeaks (st : Session) (dcb : U32) : Prop :=
  ∃ queue, st.kernel.device.Queued queue ∧
    ∀ p, Allocated st.kernel.device.heap p ↔ p = dcb ∨ p ∈ queue ∨ p ∈ st.pcbs

def Deletes (K : Kernel Heap) (line : List U8) : Prop :=
  ∃ name p, (strtok line whitespace).1 = some name ∧ minNameLen ≤ strlen name ∧
    strlen name ≤ maxNameLen ∧ pcbSearch K.procs name = .ok p ∧ p ≠ 0 ∧
    (K.procs.pcbs p).procClass ≠ systemProc ∧
    ∃ q, removeQueue (K.procs.pcbs p).state = some q ∧ K.procs.OnQueue q p

/-- The commands that take no block for good: a deletion that deletes nothing, and
`gettime` when there is no room for its text. -/
def Balanced (st : Session) : Command → Prop
  | .loadR3 => True
  | .deletePCB line => ¬ Deletes st.kernel line
  | .gettime _ _ _ => NoRoom st.kernel.device.heap 12
  | .setPCBpriority _ _ => False

def Held (st : Session) (dcb : U32) : Prop :=
  ∃ queue live, Populated st.kernel (fun p => p ∈ st.pcbs) queue (dcb :: st.pcbs) live

section Blocks

variable {K K' : Kernel Heap} {st st' : Session} {S : U32 → Prop} {queue others live : List U32}
  {dcb p : U32} {C : Console Heap}

theorem Populated.allocated_iff (h : Populated K S queue others live) :
    Allocated K.device.heap p ↔ p ∈ queue ∨ p ∈ others := by
  rw [Mpx.allocated_iff h.requests.owns, h.blocks.mem_iff, List.mem_append]

theorem Held.noLeaks (h : Held st dcb) : NoLeaks st dcb := by
  rcases h with ⟨queue, live, h⟩
  refine ⟨queue, h.requests.queued, ?_⟩
  intro p
  rw [h.allocated_iff, List.mem_cons]
  tauto

/-- A block besides these is lost. -/
theorem Populated.leaks (h : Populated st.kernel S queue others live) (hp : p ∈ others)
    (hdcb : p ≠ dcb) (hpcbs : p ∉ st.pcbs) : ¬ NoLeaks st dcb := by
  intro hnoLeaks
  rcases hnoLeaks with ⟨queue', hqueued, hall⟩
  have hsame : queue' = queue := IsList.unique hqueued h.requests.queued
  have hnodup := h.blocks.nodup_iff.mp (ownsBlocks_nodup h.requests.owns)
  rcases (hall p).mp (h.allocated_iff.mpr (Or.inr hp)) with heq | hqueue | hpcb
  · exact hdcb heq
  · rw [hsame] at hqueue
    exact (List.nodup_append.mp hnodup).2.2 p hqueue p hp rfl
  · exact hpcbs hpcb

theorem Populated.leaks_new (h : Populated st.kernel S queue (p :: dcb :: st.pcbs) live) :
    ¬ NoLeaks st dcb := by
  have hnodup := h.blocks.nodup_iff.mp (ownsBlocks_nodup h.requests.owns)
  have hnew := (List.nodup_cons.mp (List.nodup_append.mp hnodup).2.1).1
  apply h.leaks List.mem_cons_self
  · intro heq
    exact hnew (heq ▸ List.mem_cons_self)
  · intro hmem
    exact hnew (List.mem_cons_of_mem _ hmem)

theorem Populated.console {msg : String} (h : Populated K S queue others live)
    (hC : Talks studentHeap C) (hrun : C msg K = .ok K') :
    ∃ queue' live', Populated K' S queue' others live' :=
  (systemRun_populated h (hC _ _ _ hrun)).1

theorem Held.perm {pcbs pcbs' : List U32} (h : Held ⟨K, pcbs⟩ dcb) (hperm : pcbs'.Perm pcbs) :
    Held ⟨K, pcbs'⟩ dcb := by
  rcases h with ⟨queue, live, h⟩
  exact ⟨queue, live, h.congr (fun p => hperm.mem_iff) (hperm.cons dcb)⟩

theorem Held.join {pcbs : List U32}
    (h : ∃ queue live, Populated K (fun x => x ∈ pcbs ∨ x = p) queue (p :: dcb :: pcbs) live) :
    Held ⟨K, p :: pcbs⟩ dcb := by
  rcases h with ⟨queue, live, h⟩
  refine ⟨queue, live, h.congr ?_ (List.Perm.swap _ _ _)⟩
  intro x
  rw [List.mem_cons, or_comm]

end Blocks

section LoadR3

variable {K K' : Kernel Heap} {pcbs new : List U32} {dcb : U32} {C : Console Heap}
  {proc : Nat → U32}

theorem loadProcesses_held {is : List Nat} (h : Held ⟨K, pcbs⟩ dcb) (hC : Talks studentHeap C)
    (hrun : loadProcesses studentHeap C proc is K = .ok (new, K')) :
    Held ⟨K', new ++ pcbs⟩ dcb := by
  induction is generalizing K pcbs new with
  | nil =>
      cases hrun
      exact h
  | cons i is ih =>
      rcases of_bind_ok hrun with ⟨⟨p, K₁⟩, hload, hrest⟩
      rcases of_bind_ok hrest with ⟨⟨ps, K₂⟩, hloads, heq⟩
      cases heq
      rcases h with ⟨queue, live, h⟩
      have hjoined := Held.join (startProcess_populated h hC hload)
      apply (ih hjoined hloads).perm
      exact List.perm_middle.symm

end LoadR3

section DeletePcb

variable {K K' : Kernel Heap} {S : U32 → Prop} {queue others live : List U32} {C : Console Heap}
  {line : List U8} {msg : String}

theorem deletePcb_populated (h : Populated K S queue others live) (hC : Talks studentHeap C)
    (hrun : deletePcb C K line = .ok (msg, K')) :
    ∃ queue' live', Populated K' S queue' others live' := by
  refine onUserProcess_kept (I := fun K => ∃ queue live, Populated K S queue others live) ?_
    ⟨queue, live, h⟩ ?_ hrun
  · intro msg K₁ K₂ h₁ hwrite
    rcases h₁ with ⟨queue₁, live₁, h₁⟩
    exact h₁.console hC hwrite
  · intro p _ hact
    rcases of_bind_ok hact with ⟨⟨r, s⟩, hremove, hrest⟩
    have hsame : K' = { K with procs := s } := by
      by_cases hr : r = 0
      · simp only [hr, ne_eq, not_true, if_false] at hrest
        cases hrest
        rfl
      · simp only [if_pos hr] at hrest
        cases hrest
        rfl
    rw [hsame]
    exact ⟨queue, live, h.withProcs (confined_remove hremove)⟩

theorem deletePcb_deletes (hrun : deletePcb C K line = .ok (msg, K')) :
    msg = deletedMsg ↔ Deletes K line := by
  constructor
  · intro hmsg
    rw [hmsg] at hrun
    rcases onUserProcess_cases (by decide) (by decide) (by decide) hrun with
      ⟨name, p, hname, hmin, hmax, hfind, hp, hclass, hact⟩
    rcases of_bind_ok hact with ⟨⟨r, s⟩, hremove, hrest⟩
    rcases pcbRemove_cases hremove with ⟨hr, -⟩ | ⟨-, q, hq, hon, -⟩
    · rw [hr] at hrest
      simp [pcbError, deletedMsg, pure, Except.pure] at hrest
    · exact ⟨name, p, hname, hmin, hmax, hfind, hp, hclass, q, hq, hon⟩
  · intro hdeletes
    rcases hdeletes with ⟨name, p, hname, hmin, hmax, hfind, hp, hclass, q, hq, hon⟩
    have hlength : ¬ (strlen name < minNameLen ∨ strlen name > maxNameLen) := by omega
    have hpcbFind : pcbFind C K name = .ok (p, K) := by
      simp only [pcbFind, hfind, bind, Except.bind, hp, false_and, if_false, pure, Except.pure]
    rw [deletePcb, onUserProcess, hname] at hrun
    simp only [if_neg hlength, hpcbFind, bind, Except.bind, if_neg hp, if_neg hclass] at hrun
    rcases of_bind_ok hrun with ⟨⟨r, s⟩, hremove, hrest⟩
    have hr := pcbRemove_onQueue hq hon hp hremove
    rw [hr] at hrest
    simp only [pcbSuccess, ne_eq, not_true, if_false] at hrest
    cases hrest
    rfl

end DeletePcb

section NewBlocks

variable {K K' : Kernel Heap} {S : U32 → Prop} {queue others live : List U32} {C : Console Heap}

/-- The text of `gettime` stays in its block, if there is room for one. -/
theorem getTime_populated {hours minutes seconds : U8} {p : U32}
    (h : Populated K S queue others live) (hC : Talks studentHeap C)
    (hrun : getTime studentHeap C K hours minutes seconds = .ok (p, K')) :
    (NoRoom K.device.heap 12 ∧ ∃ queue' live', Populated K' S queue' others live') ∨
      (¬ NoRoom K.device.heap 12 ∧ ∃ queue' live', Populated K' S queue' (p :: others) live') := by
  rcases of_bind_ok hrun with ⟨⟨ptr, heap⟩, halloc, hrest⟩
  have hown := allocateMemory_owns h.requests.owns halloc
  have hroom : ptr = 0 ↔ NoRoom K.device.heap 12 :=
    allocateMemory_null_iff h.requests.owns (by decide) halloc
  by_cases hnull : ptr = 0
  · simp only [if_pos hnull] at hrest hown
    cases hrest
    exact Or.inl ⟨hroom.mp hnull, queue, live, h.withHeap hown h.blocks h.housed⟩
  · simp only [if_neg hnull] at hrest hown
    rcases of_bind_ok hrest with ⟨K₁, hwrite, heq⟩
    cases heq
    exact Or.inr ⟨mt hroom.mpr hnull, (h.allocate hown).console hC hwrite⟩

/-- The copy of the name stays in its block on all paths on which `setPCBpriority` returns. -/
theorem setPcbPriority_populated {line priorityLine : List U8}
    (h : Populated K S queue others live) (hC : Talks studentHeap C)
    (hrun : setPcbPriority studentHeap C K line priorityLine = .ok K') :
    ∃ p queue' live', Populated K' S queue' (p :: others) live' := by
  refine setPcbPriority_kept (I := fun K => ∃ p queue live, Populated K S queue (p :: others) live)
    ?_ ?_ ?_ hrun
  · intro msg K₁ K₂ h₁ hwrite
    rcases h₁ with ⟨p, queue₁, live₁, h₁⟩
    exact ⟨p, h₁.console hC hwrite⟩
  · intro K₁ p v h₁
    rcases h₁ with ⟨ptr, queue₁, live₁, h₁⟩
    exact ⟨ptr, queue₁, live₁, h₁.withProcs (confined_modify _ (fun _ => rfl) fun _ => rfl)⟩
  · intro ptr heap hnull halloc
    have hown := allocateMemory_owns h.requests.owns halloc
    rw [if_neg hnull] at hown
    exact ⟨ptr, queue, ptr :: live, h.allocate hown⟩

end NewBlocks

section Sessions

variable {st st' : Session} {dcb : U32} {C : Console Heap} {proc : Nat → U32} {cmd : Command}

theorem pcbSearch_namedPcb {K : Kernel Heap} {line name : List U8} {p : U32}
    (hname : (strtok line whitespace).1 = some name) (hfind : pcbSearch K.procs name = .ok p) :
    namedPcb K line = p := by
  rw [namedPcb, hname]
  simp only [hfind]
  rfl

/-- The blocks are in order again after a command just when it is balanced. -/
theorem runCommand_spec (h : Held st dcb) (hC : Talks studentHeap C)
    (hrun : runCommand C proc st cmd = .ok st') :
    (Balanced st cmd → Held st' dcb) ∧ (¬ Balanced st cmd → ¬ NoLeaks st' dcb) := by
  cases cmd with
  | loadR3 =>
      rcases of_bind_ok hrun with ⟨⟨new, K⟩, hload, heq⟩
      cases heq
      exact ⟨fun _ => loadProcesses_held h hC hload, fun hnot => absurd trivial hnot⟩
  | deletePCB line =>
      rcases h with ⟨queue, live, h⟩
      rcases of_bind_ok hrun with ⟨⟨msg, K⟩, hdelete, hrest⟩
      rcases of_bind_ok hrest with ⟨K₁, hwrite, heq⟩
      cases heq
      rcases deletePcb_populated h hC hdelete with ⟨queue₁, live₁, h₁⟩
      rcases h₁.console hC hwrite with ⟨queue₂, live₂, h₂⟩
      have hmsg := deletePcb_deletes hdelete
      constructor
      · intro hbalanced
        rw [if_neg (mt hmsg.mp hbalanced)]
        exact ⟨queue₂, live₂, h₂⟩
      · intro hunbalanced
        have hdeletes : Deletes st.kernel line := not_not.mp hunbalanced
        rw [if_pos (hmsg.mpr hdeletes)]
        rcases hdeletes with ⟨name, p, hname, -, -, hfind, -, -, q, -, hon⟩
        rw [pcbSearch_namedPcb hname hfind]
        have hp : p ∈ st.pcbs := h.onSome p ⟨q, hon⟩
        have hnodup := h.blocks.nodup_iff.mp (ownsBlocks_nodup h.requests.owns)
        rcases List.nodup_cons.mp (List.nodup_append.mp hnodup).2.1 with ⟨hdcb, hpcbs⟩
        refine @Populated.leaks ⟨K₁, st.pcbs.erase p⟩ _ _ _ _ _ p h₂ ?_ ?_ ?_
        · exact List.mem_cons_of_mem _ hp
        · exact fun heq => hdcb (heq ▸ hp)
        · exact hpcbs.not_mem_erase
  | gettime hours minutes seconds =>
      rcases h with ⟨queue, live, h⟩
      rcases of_bind_ok hrun with ⟨⟨p, K⟩, htime, heq⟩
      cases heq
      rcases getTime_populated h hC htime with ⟨hroom, hnext⟩ | ⟨hroom, queue', live', hnext⟩
      · exact ⟨fun _ => hnext, fun hnot => absurd hroom hnot⟩
      · exact ⟨fun hbalanced => absurd hbalanced hroom,
          fun _ => @Populated.leaks_new ⟨K, st.pcbs⟩ _ _ _ _ _ hnext⟩
  | setPCBpriority line priorityLine =>
      rcases h with ⟨queue, live, h⟩
      rcases of_bind_ok hrun with ⟨K, hset, heq⟩
      cases heq
      rcases setPcbPriority_populated h hC hset with ⟨p, queue', live', hnext⟩
      exact ⟨fun hbalanced => hbalanced.elim,
        fun _ => @Populated.leaks_new ⟨K, st.pcbs⟩ _ _ _ _ _ hnext⟩

theorem kmain_held {K K' : Kernel Heap} {commhand sysIdleProcess commhandProc idleProc : U32}
    (hown : OwnsBlocks K.device.heap []) (hC : Talks studentHeap C)
    (hrun : kmain studentHeap C K commhand sysIdleProcess =
      .ok (dcb, commhandProc, idleProc, K')) : Held ⟨K', [idleProc, commhandProc]⟩ dcb := by
  rcases of_bind_ok hrun with ⟨⟨p, heap⟩, halloc, hrest⟩
  have hown' := allocateMemory_owns hown halloc
  by_cases hnull : p = 0
  · simp only [if_pos hnull] at hrest
    cases hrest
  · simp only [if_neg hnull] at hrest hown'
    rcases of_bind_ok hrest with ⟨⟨q, K₁⟩, hcommhand, hrest⟩
    rcases of_bind_ok hrest with ⟨⟨r, K₂⟩, hidle, heq⟩
    cases heq
    have hempty : Populated { K with
        procs := { K.procs with readyHead := 0, blockedHead := 0, suspendedHead := 0 }
        globalPcb := 0, initialContext := 0
        device := Device.opened K.device.port.ringBuffer K.device.mem heap }
        (fun x => x ∈ ([] : List U32)) [] [dcb] [dcb] := by
      constructor
      · exact ⟨⟨rfl, rfl, rfl, rfl⟩, rfl, hown', List.nil_subset _⟩
      · exact List.Perm.refl _
      · intro x hx
        rcases hx with ⟨queue, hqueue⟩
        cases queue <;> exact absurd hqueue not_reaches_null
      · exact fun hg => absurd rfl hg
      · exact fun r hr => absurd hr List.not_mem_nil
      · exact fun x hx => absurd hx List.not_mem_nil
      · exact fun x hx => absurd hx List.not_mem_nil
    rcases Held.join (startProcess_populated hempty hC hcommhand) with ⟨queue₁, live₁, h₁⟩
    exact Held.join (startProcess_populated h₁ hC hidle)

theorem sessionStep_held (h : Held st dcb) (hstep : SessionStep Balanced st st') :
    Held st' dcb := by
  cases hstep with
  | system K' hstep =>
      rcases h with ⟨queue, live, h⟩
      exact (systemStep_populated h hstep).1
  | command cmd C proc st' hC hallowed hrun => exact (runCommand_spec h hC hrun).1 hallowed

/-- Without `setPCBpriority`, deletions of processes and times for which there is room,
the commands lose no blocks. -/
theorem commands_leak_nothing (hstart : Held st dcb)
    (hrun : Relation.ReflTransGen (SessionStep Balanced) st st') : NoLeaks st' dcb := by
  have hheld := Run.invariant (fun st => Held st dcb)
    (fun _ _ h hstep => sessionStep_held h hstep) hrun hstart
  exact hheld.noLeaks

def bootAndRun (cmd : Command) : Except Fault (U32 × Session × Session × Session) := do
  let (dcb, commhandProc, idleProc, K) ←
    kmain studentHeap silentConsole bootKernel 0x100000 0x100100
  let (_, K') ← sysCall studentHeap { K with contexts := fun _ => callContext 1 0 0 0 } 0x1234
  let st := ⟨K', [idleProc, commhandProc]⟩
  let st' ← runCommand silentConsole (fun i => BitVec.ofNat 32 (0x100000 + 0x1000 * i)) st cmd
  return (dcb, ⟨K, [idleProc, commhandProc]⟩, st, st')

theorem bootAndRun_spec {st₀ : Session} (hrun : bootAndRun cmd = .ok (dcb, st₀, st, st')) :
    Held st₀ dcb ∧ SystemStep studentHeap st₀.kernel st.kernel ∧ st.pcbs = st₀.pcbs ∧
      ∃ proc, runCommand silentConsole proc st cmd = .ok st' := by
  rcases of_bind_ok hrun with ⟨⟨d, p, q, K⟩, hboot, hrest⟩
  rcases of_bind_ok hrest with ⟨⟨r, K'⟩, hidle, hrest⟩
  rcases of_bind_ok hrest with ⟨st₁, hcommand, heq⟩
  cases heq
  have hstep := SystemStep.call K (fun _ => callContext 1 0 0 0) K.device.mem 0x1234 r K' hidle
  exact ⟨kmain_held kernelHeap_owns (silentConsole_talks _) hboot, hstep, rfl, _, hcommand⟩

theorem bootAndRun_steps {Allowed : Session → Command → Prop} {st₀ : Session}
    (hrun : bootAndRun cmd = .ok (dcb, st₀, st, st')) (hallowed : Allowed st cmd) :
    Relation.ReflTransGen (SessionStep Allowed) st₀ st' := by
  rcases bootAndRun_spec hrun with ⟨-, hstep, hpcbs, proc, hcommand⟩
  have hsystem := @SessionStep.system Allowed st₀ st.kernel hstep
  rw [← hpcbs] at hsystem
  exact (Relation.ReflTransGen.single hsystem).tail
    (SessionStep.command _ _ _ _ _ (silentConsole_talks _) hallowed hcommand)

theorem commands_leak_nothing_loadR3 :
    ∃ dcb st₀ st, Held st₀ dcb ∧ Relation.ReflTransGen (SessionStep Balanced) st₀ st ∧
      st.pcbs.length = 7 ∧ NoLeaks st dcb := by
  have hcompute : (bootAndRun .loadR3).map (fun r => r.2.2.2.pcbs.length) = .ok 7 := by
    decide +kernel
  rcases of_map_ok hcompute with ⟨⟨dcb, st₀, st, st'⟩, hrun, hlength⟩
  have hstart := (bootAndRun_spec hrun).1
  have hsteps : Relation.ReflTransGen (SessionStep Balanced) st₀ st' :=
    bootAndRun_steps hrun trivial
  exact ⟨dcb, st₀, st', hstart, hsteps, hlength, commands_leak_nothing hstart hsteps⟩

/-- The first `gettime` after boot leaves its text in the heap. -/
theorem gettime_leaks_first :
    ∃ dcb st₀ st, Held st₀ dcb ∧
      Relation.ReflTransGen (SessionStep fun _ _ => True) st₀ st ∧ ¬ NoLeaks st dcb := by
  have hcompute : (bootAndRun (.gettime 0x12 0x34 0x56)).map (fun r =>
      r.2.2.1.kernel.device.heap.chain.map fun bs =>
        decide (∃ b ∈ bs, b.isFree = true ∧ 12 ≤ b.size.toNat)) = .ok (.ok true) := by
    decide +kernel
  rcases of_map_ok hcompute with ⟨⟨dcb, st₀, st, st'⟩, hrun, hchain⟩
  rcases of_map_ok hchain with ⟨bs, hbs, hfree⟩
  rcases bootAndRun_spec hrun with ⟨hstart, hstep, hpcbs, proc, hcommand⟩
  have hheld : Held st dcb := by
    rcases hstart with ⟨queue, live, h⟩
    have hnext := (systemStep_populated h hstep).1
    rwa [← hpcbs] at hnext
  have hroom : ¬ Balanced st (.gettime 0x12 0x34 0x56) := by
    intro hnone
    rcases of_decide_eq_true hfree with ⟨b, hb, hisFree, hsize⟩
    have hsmall := hnone bs hbs b hb hisFree
    omega
  exact ⟨dcb, st₀, st', hstart, bootAndRun_steps hrun trivial,
    (runCommand_spec hheld (silentConsole_talks _) hcommand).2 hroom⟩

end Sessions

end Mpx
