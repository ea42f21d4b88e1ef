import Mpx.User.Boot

/-! The commands that list the queues: which PCBs they read, whatever happens to the queues
while their messages are written. -/

namespace Mpx

open Memory PointerList Procs Run CString

section Model

variable {σ : Type}

abbrev Reader (σ : Type) := U32 → Kernel σ → Except Fault Pcb

def readPcb : Reader σ := fun p K => .ok (K.procs.pcbs p)

inductive Piece
  | text (msg : String)
  | field (f : Pcb → Option String)

/-- No text for the state -1, which `pcb.c` calls suspended. -/
def stateText (b : Pcb) : Option String :=
  if b.state = readyState then some "READY"
  else if b.state = blockedState then some "BLOCKED"
  else if b.state = suspendState then some "SUSPENDED"
  else if b.state = resumeState then some "RESUMED"
  else none

def description : List Piece :=
  [.text "\nName: ", .field fun b => some (ofBytes (text b.name)),
    .text "\nClass: ", .field fun b => some (if b.procClass = userProc then "User" else "Syst"),
    .text "\nState: ", .field stateText,
    .text "\nPriority: ", .field fun b => some (ofBytes [48 + BitVec.ofInt 8 b.priority]),
    .text "\n"]

def writePieces (read : Reader σ) (C : Console σ) (currentPcb : U32) :
    List Piece → Kernel σ → Except Fault (Kernel σ)
  | [], K => .ok K
  | .text msg :: pieces, K => do
      let K ← C msg K
      writePieces read C currentPcb pieces K
  | .field f :: pieces, K => do
      let b ← read currentPcb K
      match f b with
      | none => writePieces read C currentPcb pieces K
      | some msg => do
          let K ← C msg K
          writePieces read C currentPcb pieces K

/-- The loop over one queue. The fuel is no bound: the queue may change meanwhile. -/
def showQueue (read : Reader σ) (C : Console σ) : Nat → U32 → Kernel σ → Except Fault (Kernel σ)
  | 0, _, _ => .error .diverges
  | fuel + 1, currentPcb, K =>
      if currentPcb = 0 then .ok K
      else do
        let K ← writePieces read C currentPcb description K
        let b ← read currentPcb K
        showQueue read C fuel b.nextPcb K

def showReady (read : Reader σ) (C : Console σ) (fuel : Nat) (K : Kernel σ) :
    Except Fault (Kernel σ) :=
  if K.procs.readyHead = 0 then do
    let K ← C "\nThere are no processes currently ready." K
    showQueue read C fuel 0 K
  else showQueue read C fuel K.procs.readyHead K

/-- `all_list` holds the heads of the queues from the beginning. -/
def showAll (read : Reader σ) (C : Console σ) (fuel : Nat) (K : Kernel σ) :
    Except Fault (Kernel σ) := do
  let allList := [K.procs.readyHead, K.procs.blockedHead, K.procs.suspendedHead]
  allList.foldlM (fun K currentPcb => showQueue read C fuel currentPcb K) K

def Piece.texts (b : Pcb) : Piece → List String
  | .text msg => [msg]
  | .field f => (f b).toList

def describe (b : Pcb) : List String := description.flatMap (Piece.texts b)

end Model

section Undisturbed

variable {σ : Type} {C : Console σ} {K K' : Kernel σ} {p : U32} {xs ys : List U32}

def Unmoved (C : Console σ) : Prop := ∀ msg K K', C msg K = .ok K' → K'.procs = K.procs

theorem writeAll_append (msgs rest : List String) :
    writeAll C (msgs ++ rest) K = (writeAll C msgs K >>= writeAll C rest) := by
  induction msgs generalizing K with
  | nil => rfl
  | cons msg msgs ih =>
      rw [List.cons_append, writeAll, writeAll]
      cases C msg K with
      | error e => rfl
      | ok K₁ => exact ih

theorem Unmoved.writeAll (hC : Unmoved C) {msgs : List String}
    (hrun : Mpx.writeAll C msgs K = .ok K') : K'.procs = K.procs := by
  induction msgs generalizing K with
  | nil =>
      cases hrun
      rfl
  | cons msg msgs ih =>
      obtain ⟨K₁, hfirst, hrest⟩ := of_bind_ok hrun
      exact (ih hrest).trans (hC msg K K₁ hfirst)

theorem Unmoved.bind (hC : Unmoved C) (msgs : List String) {rest : List String}
    {f : Kernel σ → Except Fault (Kernel σ)}
    (hf : ∀ K', K'.procs = K.procs → f K' = Mpx.writeAll C rest K') :
    (Mpx.writeAll C msgs K >>= f) = Mpx.writeAll C (msgs ++ rest) K := by
  rw [writeAll_append]
  cases hrun : Mpx.writeAll C msgs K with
  | error e => rfl
  | ok K' => exact hf K' (hC.writeAll hrun)

theorem writePieces_writes (hC : Unmoved C) (pieces : List Piece) :
    writePieces readPcb C p pieces K =
      writeAll C (pieces.flatMap (Piece.texts (K.procs.pcbs p))) K := by
  induction pieces generalizing K with
  | nil => rfl
  | cons piece pieces ih =>
      have hrest : ∀ K', K'.procs = K.procs → writePieces readPcb C p pieces K' =
          writeAll C (pieces.flatMap (Piece.texts (K.procs.pcbs p))) K' := by
        intro K' hsame
        rw [ih, hsame]
      have hmessage : ∀ msg, (C msg K >>= writePieces readPcb C p pieces) =
          writeAll C (msg :: pieces.flatMap (Piece.texts (K.procs.pcbs p))) K := by
        intro msg
        rw [writeAll]
        cases hrun : C msg K with
        | error e => rfl
        | ok K' => exact hrest K' (hC msg K K' hrun)
      cases piece with
      | text msg => exact hmessage msg
      | field f =>
          simp only [writePieces, readPcb, ok_bind, List.flatMap_cons, Piece.texts]
          cases f (K.procs.pcbs p) with
          | none => exact ih
          | some msg => exact hmessage msg

theorem showQueue_writes (hC : Unmoved C) {fuel : Nat} (hlist : IsList 0 K.procs.next p xs)
    (hfuel : xs.length < fuel) :
    showQueue readPcb C fuel p K =
      writeAll C (xs.flatMap fun x => describe (K.procs.pcbs x)) K := by
  induction xs generalizing p K fuel with
  | nil =>
      cases fuel with
      | zero => exact absurd hfuel (Nat.not_lt_zero _)
      | succ fuel =>
          have hnull : p = 0 := hlist
          rw [showQueue, if_pos hnull]
          rfl
  | cons x xs ih =>
      obtain ⟨rfl, hne, htail⟩ := hlist
      cases fuel with
      | zero => exact absurd hfuel (Nat.not_lt_zero _)
      | succ fuel =>
          rw [showQueue, if_neg hne, writePieces_writes hC, List.flatMap_cons]
          apply hC.bind
          intro K' hsame
          rw [← hsame]
          have hnext : IsList 0 K'.procs.next (K'.procs.pcbs p).nextPcb xs := by
            rw [hsame]
            exact htail
          exact ih hnext (Nat.lt_of_succ_lt_succ hfuel)

/-- Every queued PCB is listed once, in the order of its queue; the running one is not. -/
theorem showAll_writes (hC : Unmoved C) {fuel : Nat} {lists : Queue → List U32}
    (hlists : ∀ q, K.procs.Holds q (lists q)) (hfuel : ∀ q, (lists q).length < fuel) :
    showAll readPcb C fuel K = writeAll C
      ((lists .ready ++ lists .blocked ++ lists .suspended).flatMap fun x =>
        describe (K.procs.pcbs x)) K := by
  have hqueue : ∀ q K', K'.procs = K.procs → showQueue readPcb C fuel (K.procs.head q) K' =
      writeAll C ((lists q).flatMap fun x => describe (K.procs.pcbs x)) K' := by
    intro q K' hsame
    have hlist : IsList 0 K'.procs.next (K.procs.head q) (lists q) := by
      rw [hsame]
      exact hlists q
    rw [showQueue_writes hC hlist (hfuel q), hsame]
  rw [List.append_assoc, List.flatMap_append, List.flatMap_append]
  have hready := hqueue .ready K rfl
  simp only [showAll, List.foldlM_cons, List.foldlM_nil]
  rw [show K.procs.readyHead = K.procs.head .ready from rfl, hready]
  apply hC.bind
  intro K₁ h₁
  rw [show K.procs.blockedHead = K.procs.head .blocked from rfl, hqueue .blocked K₁ h₁]
  apply hC.bind
  intro K₂ h₂
  rw [show K.procs.suspendedHead = K.procs.head .suspended from rfl,
    hqueue .suspended K₂ (h₂.trans h₁)]
  exact bind_pure _

end Undisturbed

def IsProcess (K : Kernel Heap) (p : U32) : Prop :=
  (∃ live, OwnsBlocks K.device.heap live ∧ p ∈ live) ∧ (K.procs.pcbs p).name.headD 0 ≠ 0

open Classical in
/-- An access that checks that it meets a process. -/
noncomputable def readProcess : Reader Heap := fun p K =>
  if IsProcess K p then .ok (K.procs.pcbs p) else .error .outOfBounds

section Checked

variable {C : Console Heap} {K K' : Kernel Heap} {S : U32 → Prop} {p : U32} {fuel : Nat}

theorem Tied.isProcess (h : Tied K S) (hp : S p) : IsProcess K p := by
  obtain ⟨queue, others, live, hpopulated⟩ := h.populated
  have hlive : p ∈ live :=
    hpopulated.blocks.mem_iff.mpr (List.mem_append_right queue (hpopulated.housed p hp))
  exact ⟨⟨live, hpopulated.requests.owns, hlive⟩, hpopulated.named p hp⟩

theorem Tied.read (h : Tied K S) (hp : S p) : readProcess p K = readPcb p K :=
  if_pos (h.isProcess hp)

theorem Tied.talks (h : Tied K S) (hC : Talks studentHeap C) {msg : String}
    (hrun : C msg K = .ok K') : Tied K' S :=
  h.run (hC.talksFrom msg K K' hrun)

/-- Two computations agree, and lead to states in which the processes are those of `S`. -/
def Agree (S : U32 → Prop) (x y : Except Fault (Kernel Heap)) : Prop :=
  x = y ∧ ∀ K, y = .ok K → Tied K S

theorem Agree.bind {x y : Except Fault (Kernel Heap)} {f g : Kernel Heap → Except Fault (Kernel Heap)}
    (h : Agree S x y) (hfg : ∀ K, Tied K S → Agree S (f K) (g K)) : Agree S (x >>= f) (y >>= g) := by
  cases y with
  | error e =>
      rw [h.1]
      exact ⟨rfl, fun K hK => by cases hK⟩
  | ok K =>
      rw [h.1]
      exact hfg K (h.2 K rfl)

theorem Tied.message (h : Tied K S) (hC : Talks studentHeap C) (msg : String) :
    Agree S (C msg K) (C msg K) := ⟨rfl, fun _ hrun => h.talks hC hrun⟩

theorem writePieces_agree (hC : Talks studentHeap C) (hp : S p) (pieces : List Piece)
    (h : Tied K S) :
    Agree S (writePieces readProcess C p pieces K) (writePieces readPcb C p pieces K) := by
  induction pieces generalizing K with
  | nil =>
      refine ⟨rfl, fun K' hK' => ?_⟩
      cases hK'
      exact h
  | cons piece pieces ih =>
      cases piece with
      | text msg => exact (h.message hC msg).bind fun K₁ h₁ => ih h₁
      | field f =>
          simp only [writePieces, h.read hp, readPcb, ok_bind]
          cases f (K.procs.pcbs p) with
          | none => exact ih h
          | some msg => exact (h.message hC msg).bind fun K₁ h₁ => ih h₁

/-- By induction on the turns of the loop: the link of a process leads to a process. -/
theorem showQueue_agree (hC : Talks studentHeap C) (fuel : Nat) (hp : p ≠ 0 → S p)
    (h : Tied K S) :
    Agree S (showQueue readProcess C fuel p K) (showQueue readPcb C fuel p K) := by
  induction fuel generalizing p K with
  | zero => exact ⟨rfl, fun K' hK' => by cases hK'⟩
  | succ fuel ih =>
      by_cases hnull : p = 0
      · simp only [showQueue, if_pos hnull]
        refine ⟨rfl, fun K' hK' => ?_⟩
        cases hK'
        exact h
      · simp only [showQueue, if_neg hnull]
        refine (writePieces_agree hC (hp hnull) description h).bind fun K₁ h₁ => ?_
        rw [h₁.read (hp hnull)]
        exact ih (fun hne => h₁.closed.next p (hp hnull) hne) h₁

theorem showAll_agree (hC : Talks studentHeap C) (fuel : Nat) (heads : List U32)
    (hheads : ∀ p ∈ heads, p ≠ 0 → S p) (h : Tied K S) :
    Agree S (heads.foldlM (fun K p => showQueue readProcess C fuel p K) K)
      (heads.foldlM (fun K p => showQueue readPcb C fuel p K) K) := by
  induction heads generalizing K with
  | nil =>
      refine ⟨rfl, fun K' hK' => ?_⟩
      cases hK'
      exact h
  | cons p heads ih =>
      exact (showQueue_agree hC fuel (hheads p List.mem_cons_self) h).bind fun K₁ h₁ =>
        ih (fun q hq => hheads q (List.mem_cons_of_mem p hq)) h₁

theorem processRun_tied {Allowed : Kernel Heap → Option (List U8) → Prop} (h : Tied K S)
    (hrun : Relation.ReflTransGen (ProcessStep Allowed) K K') : ∃ S', Tied K' S' :=
  Run.invariant (fun K => ∃ S, Tied K S)
    (fun _ _ htied hstep => htied.elim fun _ h => processStep_tied h hstep) hrun ⟨S, h⟩

end Checked

/-- In no state of the system does a listing follow a link that leads out of the processes. Its
own WRITEs, the other processes and the device may move them in any way between two accesses. -/
theorem listings_read_processes {Allowed : Kernel Heap → Option (List U8) → Prop}
    {C₀ C : Console Heap} {K K₁ K₂ : Kernel Heap}
    {commhand sysIdleProcess dcb commhandProc idleProc : U32}
    (hown : OwnsBlocks K.device.heap []) (hC₀ : Talks studentHeap C₀)
    (hboot : kmain studentHeap C₀ K commhand sysIdleProcess =
      .ok (dcb, commhandProc, idleProc, K₁))
    (hrun : Relation.ReflTransGen (ProcessStep Allowed) K₁ K₂) (hC : Talks studentHeap C)
    (fuel : Nat) :
    showReady readProcess C fuel K₂ = showReady readPcb C fuel K₂ ∧
      showAll readProcess C fuel K₂ = showAll readPcb C fuel K₂ := by
  obtain ⟨S₁, hstart, -⟩ := kmain_tied hown hC₀ hboot
  obtain ⟨S, h⟩ := processRun_tied hstart hrun
  have hheads : ∀ q, K₂.procs.head q ≠ 0 → S (K₂.procs.head q) := h.closed.head
  constructor
  · by_cases hnull : K₂.procs.readyHead = 0
    · simp only [showReady, if_pos hnull]
      exact ((h.message hC _).bind fun K₃ h₃ =>
        showQueue_agree hC fuel (fun hne => absurd rfl hne) h₃).1
    · simp only [showReady, if_neg hnull]
      exact (showQueue_agree hC fuel (hheads .ready) h).1
  · apply (showAll_agree hC fuel _ _ h).1
    intro p hp hne
    cases List.mem_cons.mp hp with
    | inl hready =>
        rw [hready] at hne ⊢
        exact hheads .ready hne
    | inr hrest =>
        cases List.mem_cons.mp hrest with
        | inl hblocked =>
            rw [hblocked] at hne ⊢
            exact hheads .blocked hne
        | inr hlast =>
            rw [List.mem_singleton.mp hlast] at hne ⊢
            exact hheads .suspended hne

/-- A message of one byte, during which the other process runs: the caller of the WRITE waits,
the interrupt behind the byte makes it ready, and the other process calls IDLE. -/
def writingConsole : Console Heap := fun _ K => do
  let (_, K) ← sysCall studentHeap
    { K with contexts := fun _ => callContext 3 COM1 0x5000 1 } 0x3000
  let (device, procs) ← serialOutputInterrupt studentHeap K.device K.procs
  let (_, K) ← sysCall studentHeap
    { K with device := device, procs := procs, contexts := fun _ => callContext 1 0 0 0 } 0x2000
  return K

theorem writingConsole_talks : Talks studentHeap writingConsole := by
  intro msg K K' hrun
  obtain ⟨⟨r₁, K₁⟩, hwrite, hrest⟩ := of_bind_ok hrun
  obtain ⟨⟨device, procs⟩, hinterrupt, hrest⟩ := of_bind_ok hrest
  obtain ⟨⟨r₂, K₂⟩, hidle, heq⟩ := of_bind_ok hrest
  cases heq
  have hfirst : SystemStep studentHeap K K₁ :=
    .call K (fun _ => callContext 3 COM1 0x5000 1) K.device.mem 0x3000 r₁ K₁ hwrite
  have hsecond : SystemStep studentHeap K₁ { K₁ with device := device, procs := procs } :=
    .outputInterrupt K₁ device procs hinterrupt
  have hthird : SystemStep studentHeap { K₁ with device := device, procs := procs } K' :=
    .call _ (fun _ => callContext 1 0 0 0) device.mem 0x2000 r₂ K' hidle
  exact ((Relation.ReflTransGen.single hfirst).tail hsecond).tail hthird

/-- The first message leaves the caller on the blocked queue, which was empty. -/
theorem listings_read_processes_two_yields :
    ∃ boot idle first second, bootAndYield = .ok (boot, idle, first, second) ∧
      (∃ K, writingConsole "\nName: " first.2 = .ok K ∧ first.2.procs.blockedHead = 0 ∧
        K.procs.blockedHead = first.2.globalPcb) ∧
      showAll readProcess writingConsole 9 first.2 = showAll readPcb writingConsole 9 first.2 := by
  have hcompute : (do
      let runs ← bootAndYield
      let K ← writingConsole "\nName: " runs.2.2.1.2
      return (decide (runs.2.2.1.2.procs.blockedHead = 0 ∧
        K.procs.blockedHead = runs.2.2.1.2.globalPcb), runs, K)).map Prod.fst = .ok true := by
    decide +kernel
  obtain ⟨⟨moved, runs, K⟩, hboth, hmoved⟩ := of_map_ok hcompute
  obtain ⟨⟨boot, idle, first, second⟩, hrun, hrest⟩ := of_bind_ok hboth
  obtain ⟨K, hmessage, hsame⟩ := of_bind_ok hrest
  cases hsame
  have hsteps := hrun
  obtain ⟨⟨dcb, p, q, K₁⟩, hboot, hrest⟩ := of_bind_ok hsteps
  obtain ⟨idle, hcall, hrest⟩ := of_bind_ok hrest
  obtain ⟨first, hfirst, hrest⟩ := of_bind_ok hrest
  obtain ⟨second, hsecond, heq⟩ := of_bind_ok hrest
  cases heq
  have hidle : ProcessStep (fun _ _ => True) K₁ idle.2 :=
    .system _ _ (.call K₁ (fun _ => callContext 1 0 0 0) K₁.device.mem 0x1234 _ _ hcall)
  have hyield : ProcessStep (fun _ _ => True) idle.2 first.2 :=
    .system _ _ (.call idle.2 idle.2.contexts idle.2.device.mem 0x2000 _ _ hfirst)
  refine ⟨_, _, _, _, hrun, ⟨K, hmessage, of_decide_eq_true hmoved⟩, ?_⟩
  exact (listings_read_processes kernelHeap_owns (silentConsole_talks _) hboot
    ((Relation.ReflTransGen.single hidle).tail hyield) writingConsole_talks 9).2

end Mpx
