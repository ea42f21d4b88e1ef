import Mpx.Base.Words
import Mpx.Kernel.Exit
import Mpx.Serial.Interrupt
import Mpx.User.Commands

/-! The loop of `commhand` in `user/commhand.c`: the line that it reads and the command that
it takes from it. -/

namespace Mpx

open Memory CString Run

variable {σ : Type}

inductive ShellCommand
  | alarm | deletePcb | getDate | getTime | help | loadR3 | resumePcb | setDate | setPcbPriority
  | setTime | showAll | showPcb | showReady | shutdown | suspendPcb | version
  deriving DecidableEq, Repr

def ShellCommand.all : List ShellCommand :=
  [.alarm, .deletePcb, .getDate, .getTime, .help, .loadR3, .resumePcb, .setDate, .setPcbPriority,
    .setTime, .showAll, .showPcb, .showReady, .shutdown, .suspendPcb, .version]

def ShellCommand.word : ShellCommand → String
  | .alarm => "alarm"
  | .deletePcb => "deletePCB"
  | .getDate => "getdate"
  | .getTime => "gettime"
  | .help => "help"
  | .loadR3 => "loadR3"
  | .resumePcb => "resumePCB"
  | .setDate => "setdate"
  | .setPcbPriority => "setPCBpriority"
  | .setTime => "settime"
  | .showAll => "showall"
  | .showPcb => "showPCB"
  | .showReady => "showready"
  | .shutdown => "shutdown"
  | .suspendPcb => "suspendPCB"
  | .version => "version"

def commandOf (input : List U8) : Option ShellCommand :=
  ShellCommand.all.find? fun c => strcmp input (literal c.word) = 0

inductive Answer
  | overflow
  | nothing
  | invalid
  | run (command : ShellCommand)
  deriving DecidableEq, Repr

/-- The loop behind the READ that has returned `nread`. -/
def commhandAnswer (nread : Int) (buf : List U8) : Answer :=
  if nread = -1 then .overflow
  else
    match (strtok buf whitespace).1 with
    | none => .nothing
    | some input =>
        match commandOf input with
        | some command => .run command
        | none => .invalid

def lineSize : Nat := 20

/-- The loop up to the READ of one character into the cleared line. -/
def commhandRead (F : HeapFunctions σ) (K : Kernel σ) (ctx buf : U32) :
    Except Fault (U32 × Kernel σ) :=
  let call := { K.contexts ctx with eax := 2, ebx := COM1, ecx := buf, edx := 1 }
  sysCall F { K with
    contexts := Function.update K.contexts ctx call
    device := { K.device with mem := clear K.device.mem buf 20 } } ctx

/-- `sys_req(READ, ...)` when its interrupt returns: it falls back on `serial_poll` for -1. -/
def sysReqRead (eax : U32) : Option Int := if eax = -1 then none else some eax.toInt

section Words

variable {input buf : List U8} {c : ShellCommand}

theorem mem_all (c : ShellCommand) : c ∈ ShellCommand.all := by
  cases c <;> decide

theorem words_nodup : (ShellCommand.all.map fun c => literal c.word).Nodup := by decide

theorem words_plain : ∀ c ∈ ShellCommand.all,
    text (literal c.word) = literal c.word ∧ 4 ≤ (literal c.word).length := by decide

theorem commandOf_iff : commandOf input = some c ↔ text input = literal c.word := by
  have hequal : ∀ c : ShellCommand,
      strcmp input (literal c.word) = 0 ↔ text input = literal c.word := by
    intro c
    rw [strcmp_eq_zero_iff, (words_plain c (mem_all c)).1]
  constructor
  · intro hfind
    rw [commandOf] at hfind
    have hequals := List.find?_some hfind
    exact (hequal c).mp (of_decide_eq_true hequals)
  · intro htext
    cases hfind : commandOf input with
    | none =>
        have hnone := List.find?_eq_none.mp hfind c (mem_all c)
        exact absurd (decide_eq_true ((hequal c).mpr htext)) hnone
    | some c' =>
        rw [commandOf] at hfind
        have hequals := List.find?_some hfind
        have htext' := (hequal c').mp (of_decide_eq_true hequals)
        have hword : literal c'.word = literal c.word := htext'.symm.trans htext
        exact congrArg some (List.inj_on_of_nodup_map words_nodup (mem_all c') (mem_all c) hword)

theorem strtok_token_length {s delims token : List U8}
    (htoken : (strtok s delims).1 = some token) : token.length ≤ (text s).length := by
  rw [strtok] at htoken
  split at htoken
  · cases htoken
  · cases htoken
    exact ((List.takeWhile_sublist _).trans (List.dropWhile_sublist _)).length_le

/-- A line with a command in it is at least as long as the shortest one. -/
theorem commhandAnswer_run {nread : Int} (hrun : commhandAnswer nread buf = .run c) :
    4 ≤ (text buf).length := by
  rw [commhandAnswer] at hrun
  by_cases hnread : nread = -1
  · rw [if_pos hnread] at hrun
    cases hrun
  · rw [if_neg hnread] at hrun
    cases htoken : (strtok buf whitespace).1 with
    | none =>
        rw [htoken] at hrun
        cases hrun
    | some input =>
        rw [htoken] at hrun
        cases hcommand : commandOf input with
        | none =>
            simp only [hcommand] at hrun
            cases hrun
        | some command =>
            have hword := commandOf_iff.mp hcommand
            calc 4 ≤ (literal command.word).length := (words_plain command (mem_all command)).2
              _ = (text input).length := by rw [hword]
              _ ≤ input.length := (List.takeWhile_sublist _).length_le
              _ ≤ (text buf).length := strtok_token_length htoken

end Words

section Frame

variable {F : HeapFunctions σ} {d d' : Device σ} {K K' : Kernel σ} {buf len : U32} {x : U32}

def OutOfBuffer (buf len x : U32) : Prop := ∀ j < len.toNat, x ≠ buf + BitVec.ofNat 32 j

theorem readLoop_outside {fuel count count' : Nat} {newline : Bool}
    (hrun : readLoop buf len fuel d count = .ok (newline, count', d'))
    (hx : OutOfBuffer buf len x) :
    d'.mem.byte x = d.mem.byte x := by
  induction fuel generalizing d count with
  | zero => cases hrun
  | succ fuel ih =>
      rw [readLoop] at hrun
      by_cases hcount : count < len.toNat
      · rw [if_pos hcount] at hrun
        obtain ⟨character, -, hrun⟩ := of_bind_ok hrun
        by_cases hend : character ≠ 0
        · rw [if_pos hend] at hrun
          obtain ⟨port, -, hrun⟩ := of_bind_ok hrun
          by_cases hnewline : character = 10
          · simp only [if_pos hnewline] at hrun
            cases hrun
            rfl
          · simp only [if_neg hnewline] at hrun
            calc d'.mem.byte x
                = (store8 d.mem (buf + BitVec.ofNat 32 count) character).byte x := ih hrun
              _ = d.mem.byte x := if_neg (hx count hcount)
        · rw [if_neg hend] at hrun
          cases hrun
          rfl
      · rw [if_neg hcount] at hrun
        cases hrun
        rfl

theorem serialRead_outside {code : Int} (hrun : serialRead d buf len = .ok (code, d'))
    (hx : OutOfBuffer buf len x) : d'.mem.byte x = d.mem.byte x := by
  rw [serialRead] at hrun
  split at hrun
  · cases hrun
    rfl
  · split at hrun
    · cases hrun
      rfl
    · split at hrun
      · cases hrun
        rfl
      · split at hrun
        · cases hrun
          rfl
        · obtain ⟨⟨newline, count, d₁⟩, hloop, hrun⟩ := of_bind_ok hrun
          have hsame := readLoop_outside hloop hx
          simp only at hrun
          split at hrun <;>
          · cases hrun
            exact hsame

theorem serialWrite_mem (d : Device σ) (dev buf len : U32) :
    (serialWrite d dev buf len).2.mem = d.mem := by
  rw [serialWrite]
  split
  · rfl
  · split
    · rfl
    · split
      · rfl
      · split <;> rfl

theorem startIfIdle_outside {dev : U32} {op : OpCode} (hop : op = .read ∨ op = .write)
    (hrun : startIfIdle d dev buf len op = .ok d') (hx : OutOfBuffer buf len x) :
    d'.mem.byte x = d.mem.byte x := by
  by_cases hidle : d.port.operation = .idle
  · cases hop with
    | inl hread =>
        subst hread
        rw [startIfIdle, if_pos hidle] at hrun
        obtain ⟨⟨code, d₁⟩, hread, heq⟩ := of_bind_ok hrun
        cases heq
        exact serialRead_outside hread hx
    | inr hwrite =>
        subst hwrite
        rw [startIfIdle, if_pos hidle] at hrun
        rw [← serialWrite_mem d dev buf len, Except.ok.inj hrun]
  · rw [startIfIdle_busy _ _ _ _ hidle] at hrun
    cases hrun
    rfl

theorem ioScheduler_outside {proc dev : U32} {op : OpCode} (hop : op = .read ∨ op = .write)
    (hrun : ioScheduler F d proc dev buf len op = .ok d') (hx : OutOfBuffer buf len x) :
    d'.mem.byte x = d.mem.byte x := by
  cases ioScheduler_cases hrun with
  | inl hsame => rw [hsame]
  | inr hqueued =>
      obtain ⟨-, -, heap, iocbs, ioHead, hstart⟩ := hqueued
      have hsame := startIfIdle_outside hop hstart hx
      exact hsame

theorem outputInterrupt_mem {s s' : Procs} (hrun : serialOutputInterrupt F d s = .ok (d', s')) :
    d'.mem = d.mem := by
  by_cases hwrite : d.port.operation = .write
  · by_cases hhead : d.port.ioHead = 0
    · rw [serialOutputInterrupt, if_neg (not_not.mpr hwrite)] at hrun
      simp only [Device.outb, if_pos hhead] at hrun
      cases hrun
    · by_cases hmore : d.More
      · rw [serialOutputInterrupt, if_neg (not_not.mpr hwrite)] at hrun
        have hsends : d.port.eventFlag = 1 ∧ d.port.counter < d.port.count := hmore
        simp only [Device.outb, if_neg hhead, if_pos hsends] at hrun
        cases hrun
        rfl
      · rw [serialOutputInterrupt_done s hwrite hhead hmore] at hrun
        obtain ⟨s₁, -, hrest⟩ := of_bind_ok hrun
        obtain ⟨⟨r, heap⟩, -, heq⟩ := of_bind_ok hrest
        cases heq
        rfl
  · rw [serialOutputInterrupt_spurious s hwrite] at hrun
    cases hrun
    rfl

/-- No interrupt writes to memory: nothing that is typed reaches a buffer. -/
theorem serialInterrupt_mem {iir : U8} {s s' : Procs}
    (hrun : serialInterrupt F iir d s = .ok (d', s')) : d'.mem = d.mem := by
  obtain ⟨d₁, rfl, hserved⟩ := serialInterrupt_cases hrun
  cases hserved with
  | inl houtput =>
      have hmem := outputInterrupt_mem houtput
      exact hmem
  | inr hother =>
      cases hother with
      | inl hinput =>
          rw [hinput.1, serialInputInterrupt]
          split <;> rfl
      | inr hnone =>
          rw [hnone.1]
          rfl

theorem requestCase_outside {ctx : U32} {op : OpCode} (hop : op = .read ∨ op = .write)
    (hrun : requestCase F K ctx op = .ok K')
    (hx : OutOfBuffer (K.contexts ctx).ecx (K.contexts ctx).edx x) :
    K'.device.mem.byte x = K.device.mem.byte x := by
  obtain ⟨-, proc, hsched⟩ := requestCase_device hrun
  exact ioScheduler_outside hop hsched hx

theorem exitCase_mem {n r : U32} (hrun : exitCase F K n = .ok (r, K')) :
    K'.device.mem = K.device.mem ∧ K'.contexts = K.contexts := by
  cases exitCase_cases hrun with
  | inl hdispatch =>
      obtain ⟨hdevice, hcontexts⟩ := dispatch_device hdispatch.2
      exact ⟨by rw [hdevice], hcontexts⟩
  | inr hfreed =>
      obtain ⟨-, -, result, s, freed, heap, -, -, -, rfl⟩ := hfreed
      exact ⟨rfl, rfl⟩

/-- A system call writes into the buffer that it names, and changes no context but its own. -/
theorem sysCall_outside {ctx r : U32} (hrun : sysCall F K ctx = .ok (r, K')) :
    (OutOfBuffer (K.contexts ctx).ecx (K.contexts ctx).edx x →
      K'.device.mem.byte x = K.device.mem.byte x) ∧
    ∀ c ≠ ctx, K'.contexts c = K.contexts c := by
  cases sysCall_cases hrun with
  | inl hinvalid =>
      rw [hinvalid]
      exact ⟨fun _ => rfl, fun c hc => Function.update_of_ne hc _ _⟩
  | inr hvalid =>
      cases hvalid with
      | inl hexit =>
          obtain ⟨hmem, hcontexts⟩ := exitCase_mem hexit
          exact ⟨fun _ => by rw [hmem], fun c _ => by rw [hcontexts]⟩
      | inr hother =>
          cases hother with
          | inl hidle =>
              obtain ⟨hdevice, hcontexts⟩ := idleCase_device hidle
              exact ⟨fun _ => by rw [hdevice], fun c _ => by rw [hcontexts]⟩
          | inr hrequests =>
              cases hrequests with
              | inl hread =>
                  obtain ⟨K₁, hrequest, hidle⟩ := hread
                  obtain ⟨hdevice, hcontexts⟩ := idleCase_device hidle
                  obtain ⟨hcontexts₁, -⟩ := requestCase_device hrequest
                  rw [hdevice, hcontexts, hcontexts₁]
                  exact ⟨requestCase_outside (Or.inl rfl) hrequest, fun c _ => rfl⟩
              | inr hwrite =>
                  obtain ⟨K₁, K₂, hfirst, hsecond, hidle⟩ := hwrite
                  obtain ⟨hdevice, hcontexts⟩ := idleCase_device hidle
                  obtain ⟨hcontexts₁, -⟩ := requestCase_device hfirst
                  obtain ⟨hcontexts₂, -⟩ := requestCase_device hsecond
                  rw [hdevice, hcontexts, hcontexts₂, hcontexts₁]
                  refine ⟨fun hx => ?_, fun c _ => rfl⟩
                  have hx₁ : OutOfBuffer (K₁.contexts ctx).ecx (K₁.contexts ctx).edx x := by
                    rw [hcontexts₁]
                    exact hx
                  rw [requestCase_outside (Or.inr rfl) hsecond hx₁,
                    requestCase_outside (Or.inr rfl) hfirst hx]

end Frame

section Waiting

variable {F : HeapFunctions σ} {K K' : Kernel σ} {ctx buf : U32}

def InLine (buf x : U32) : Prop := ∃ i < lineSize, x = buf + BitVec.ofNat 32 i

/-- What happens until `commhand` runs again: calls of other processes with other buffers,
interrupts, and what these processes do by themselves. The line and the registers that
`commhand` has saved at `ctx` are its own. -/
inductive WaitStep (F : HeapFunctions σ) (ctx buf : U32) : Kernel σ → Kernel σ → Prop
  | call (K : Kernel σ) (ctx' r : U32) (K' : Kernel σ) (hctx : ctx' ≠ ctx)
      (hbuffer : ∀ x, InLine buf x → OutOfBuffer (K.contexts ctx').ecx (K.contexts ctx').edx x)
      (hrun : sysCall F K ctx' = .ok (r, K')) : WaitStep F ctx buf K K'
  | interrupt (K : Kernel σ) (iir : U8) (device : Device σ) (procs : Procs)
      (hrun : serialInterrupt F iir K.device K.procs = .ok (device, procs)) :
      WaitStep F ctx buf K { K with device := device, procs := procs }
  | work (K : Kernel σ) (procs : Procs) (globalPcb : U32) (contexts : U32 → Context) (mem : Mem)
      (heap : σ) (hcontext : contexts ctx = K.contexts ctx)
      (hline : ∀ x, InLine buf x → mem.byte x = K.device.mem.byte x) :
      WaitStep F ctx buf K { K with
        procs := procs, globalPcb := globalPcb, contexts := contexts
        device := { K.device with mem := mem, heap := heap } }

/-- The READ is in the saved registers, and no second character in the line. -/
structure Waiting (ctx buf : U32) (K : Kernel σ) : Prop where
  eax : (K.contexts ctx).eax = 2
  second : K.device.mem.byte (buf + 1) = 0

theorem inLine_second (buf : U32) : InLine buf (buf + 1) := ⟨1, by decide, rfl⟩

theorem Waiting.step (h : Waiting ctx buf K) (hstep : WaitStep F ctx buf K K') :
    Waiting ctx buf K' := by
  cases hstep with
  | call ctx' r K' hctx hbuffer hrun =>
      obtain ⟨hmem, hcontexts⟩ := sysCall_outside hrun
      refine ⟨?_, ?_⟩
      · rw [hcontexts ctx hctx.symm]
        exact h.eax
      · rw [hmem (hbuffer _ (inLine_second buf))]
        exact h.second
  | interrupt iir device procs hrun =>
      refine ⟨h.eax, ?_⟩
      simp only [serialInterrupt_mem hrun]
      exact h.second
  | work procs globalPcb contexts mem heap hcontext hline =>
      refine ⟨?_, ?_⟩
      · simp only [hcontext]
        exact h.eax
      · simp only [hline _ (inLine_second buf)]
        exact h.second

theorem waiting_commhandRead {r : U32} (hrun : commhandRead F K ctx buf = .ok (r, K')) :
    Waiting ctx buf K' := by
  generalize hcall :
    ({ K.contexts ctx with eax := 2, ebx := COM1, ecx := buf, edx := 1 } : Context) = call
  generalize hstart : ({ K with
    contexts := Function.update K.contexts ctx call
    device := { K.device with mem := clear K.device.mem buf 20 } } : Kernel σ) = K₀
  have hcontext : K₀.contexts ctx = call := by
    rw [← hstart]
    exact Function.update_self ctx call K.contexts
  have hread : syscallNumber (K₀.contexts ctx).eax = some .read := by
    rw [hcontext, ← hcall]
    rfl
  rw [commhandRead, hcall, hstart, sysCall, hread] at hrun
  obtain ⟨K₁, hrequest, hidle⟩ := of_bind_ok hrun
  obtain ⟨hdevice, hcontexts⟩ := idleCase_device hidle
  obtain ⟨hcontexts₁, -⟩ := requestCase_device hrequest
  have hbehind : OutOfBuffer (K₀.contexts ctx).ecx (K₀.contexts ctx).edx (buf + 1) := by
    rw [hcontext, ← hcall]
    intro j hj
    have hzero : j = 0 := Nat.lt_one_iff.mp hj
    rw [hzero]
    bv_omega
  constructor
  · rw [hcontexts, hcontexts₁, hcontext, ← hcall]
  · rw [hdevice, requestCase_outside (Or.inl rfl) hrequest hbehind, ← hstart]
    have hcleared : buf + 1 - buf < 20 := by bv_omega
    exact if_pos hcleared

theorem text_line {m : Mem} (hsecond : m.byte (buf + 1) = 0) :
    (text (bufferBytes m buf lineSize)).length ≤ 1 := by
  have hsplit : bufferBytes m buf lineSize = m.byte (buf + BitVec.ofNat 32 0) :: m.byte (buf + 1) ::
      (List.range' 2 18).map fun i => m.byte (buf + BitVec.ofNat 32 i) := rfl
  rw [hsplit, hsecond]
  by_cases hfirst : m.byte (buf + BitVec.ofNat 32 0) = 0
  · rw [hfirst, text_zero]
    exact Nat.zero_le 1
  · rw [text_cons hfirst, text_zero]
    exact le_rfl

end Waiting

/-- `commhand` asks for one character at a time. Whatever is typed and whatever the other
processes do, the line that it gets holds no command, and its answer is none of the 16
commands. -/
theorem commhand_runs_no_command (F : HeapFunctions σ) (K K₁ K₂ : Kernel σ) (ctx buf r : U32)
    (hread : commhandRead F K ctx buf = .ok (r, K₁))
    (hwait : Relation.ReflTransGen (WaitStep F ctx buf) K₁ K₂) :
    ∃ nread, sysReqRead (K₂.contexts ctx).eax = some nread ∧
      (commhandAnswer nread (bufferBytes K₂.device.mem buf lineSize) = .nothing ∨
        commhandAnswer nread (bufferBytes K₂.device.mem buf lineSize) = .invalid) := by
  have hend : Waiting ctx buf K₂ :=
    Run.invariant (Waiting ctx buf) (fun _ _ h hstep => h.step hstep) hwait
      (waiting_commhandRead hread)
  refine ⟨2, by rw [hend.eax]; rfl, ?_⟩
  have hshort := text_line hend.second
  cases hanswer : commhandAnswer 2 (bufferBytes K₂.device.mem buf lineSize) with
  | overflow =>
      rw [commhandAnswer, if_neg (by decide)] at hanswer
      split at hanswer
      · cases hanswer
      · split at hanswer <;> cases hanswer
  | nothing => exact Or.inl rfl
  | invalid => exact Or.inr rfl
  | run command =>
      have hlong := commhandAnswer_run hanswer
      omega

def typedKernel : Kernel Heap :=
  { callingKernel 0x200 (callContext 0 0 0 0) with
    device := Device.opened (Vector.ofFn fun i => (literal "version")[i]?.getD 0) ⟨fun _ => 0⟩
      kernelHeap }

theorem commhand_runs_no_command_version :
    ∃ r K, commhandRead studentHeap typedKernel 0x1234 0x6000 = .ok (r, K) ∧
      bufferBytes K.device.mem 0x6000 2 = [118, 0] ∧
      ∃ nread, sysReqRead (K.contexts 0x1234).eax = some nread ∧
        (commhandAnswer nread (bufferBytes K.device.mem 0x6000 lineSize) = .nothing ∨
          commhandAnswer nread (bufferBytes K.device.mem 0x6000 lineSize) = .invalid) := by
  have hcompute : (commhandRead studentHeap typedKernel 0x1234 0x6000).map
      (fun x => bufferBytes x.2.device.mem 0x6000 2) = .ok [118, 0] := by decide +kernel
  obtain ⟨⟨r, K⟩, hread, hline⟩ := of_map_ok hcompute
  exact ⟨r, K, hread, hline,
    commhand_runs_no_command studentHeap typedKernel K K 0x1234 0x6000 r hread .refl⟩

end Mpx
