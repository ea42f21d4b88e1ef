import Mpx.Base.Strtok
import Mpx.User.Clock
import Mpx.User.NameCopy

/-! `alarm` of `user/commhand.c`. The line with the time and the line with the name are read
into one array. -/

namespace Mpx

open Memory CString Numeral Run

variable {σ : Type}

/-- What a run of `alarm` meets when both lines are read: the second line, `tok_tmp` before the
first call of `strtok`, and what is on the stack behind `seconds[0]`. -/
structure AlarmRun (σ : Type) where
  kernel : Kernel σ
  nameLine : List U8
  tokTmp : Option Nat
  stack : List U8

/-- `alarm_name`, the three numbers, and whether `get_time_int` is `alarm_time_int`. -/
structure AlarmEntry where
  alarmName : Option (List U8)
  time : Int × Int × Int
  rings : Bool

def findAlarm (C : Console σ) (K : Kernel σ) :
    Option (List U8) → Except Fault (U32 × Kernel σ)
  | some alarmName => pcbFind C K alarmName
  | none =>
      if K.procs.readyHead = 0 ∧ K.procs.suspendedHead = 0 then .ok (0, K)
      else .error .nullPointer

def alarmEntry (F : HeapFunctions σ) (C : Console σ) (timeLine : List U8) (run : AlarmRun σ)
    (c : Clock) : Except Fault (AlarmEntry × Kernel σ) := do
  let first := Strtok.strtok (some 0) whitespace ⟨timeLine, run.tokTmp⟩
  let second := Strtok.strtok (some 0) whitespace ⟨run.nameLine, first.2.tokTmp⟩
  let buf := second.2.bytes
  let alarmName := second.1.map fun o => buf.drop o
  let (found, K) ← findAlarm C run.kernel alarmName
  let K ← if found ≠ 0 then C "\nName already in use:" K else .ok K
  let (hours, minutes, seconds) := readTime c
  let (ptr, K) ← getTime F C K hours minutes seconds
  if ptr = 0 then .error .nullPointer
  else
    let getTimeInt := atoi (timeStr (bcdToBinary hours - 4) (bcdToBinary minutes)
      (bcdToBinary seconds))
    match first.1 with
    | none => .error .nullPointer
    | some o =>
        let alarmTimeInt := atoi (buf.drop o)
        return (⟨alarmName, inputTime buf run.stack, getTimeInt = alarmTimeInt⟩, K)

/-- The rest of `alarm` up to `sys_req(IDLE)`; `alarm_msg` follows when it returns, or not. -/
def startAlarm (F : HeapFunctions σ) (C : Console σ) (K : Kernel σ) (entry : AlarmEntry)
    (eip : U32) : Except Fault (Bool × Kernel σ) := do
  let K ← C timeSetMsg K
  match entry.alarmName with
  | none =>
      let _ ← pcbSetup F C K none userProc 1
      .error .nullPointer
  | some alarmName =>
      let (_, K) ← startProcess F C K alarmName userProc 1 true eip
      return (entry.rings, K)

def alarm (F : HeapFunctions σ) (C : Console σ) (eip : U32) (timeLine : List U8)
    (run : AlarmRun σ) (c : Clock) : Clock × Except Fault (Bool × Kernel σ) :=
  match alarmEntry F C timeLine run c with
  | .error fault => (c, .error fault)
  | .ok (entry, K) =>
      let c := c.select SECONDS
      if ¬ ValidTime entry.time then
        (c, do
          let K ← C "\nInvalid time input. \n" K
          return (false, K))
      else
        let c := (c.select ALARM_HR).store (BitVec.ofInt 8 entry.time.1)
        let c := (c.select ALARM_MIN).store (BitVec.ofInt 8 entry.time.2.1)
        let c := (c.select ALARM_SEC).store (BitVec.ofInt 8 entry.time.2.2)
        (c, startAlarm F C K entry eip)

def alarmRegs (c : Clock) : U8 × U8 × U8 := (c.regs ALARM_HR, c.regs ALARM_MIN, c.regs ALARM_SEC)

def SetsAlarm (F : HeapFunctions σ) (C : Console σ) (eip : U32) (timeLine : List U8)
    (run : AlarmRun σ) (hour minutes seconds : Nat) : Prop :=
  ∀ c, alarmRegs (alarm F C eip timeLine run c).1 =
    (BitVec.ofNat 8 hour, BitVec.ofNat 8 minutes, BitVec.ofNat 8 seconds)

def FreshName (run : AlarmRun σ) : Prop :=
  ∃ name, (strtok run.nameLine whitespace).1 = some name ∧ minNameLen ≤ strlen name ∧
    strlen name ≤ maxNameLen ∧ pcbSearch run.kernel.procs name = .ok 0

def cutLine (line : List U8) : List U8 := line.set (strtok line whitespace).2.length 0

/-- The name itself spells the time: its characters 0 and 1 the hour, 3 and 7 the minutes, and 6
with what is on the stack the seconds. -/
structure NameSpells (run : AlarmRun σ) (hour minutes seconds : Nat) : Prop where
  hour : LeadingNumber [deref (cutLine run.nameLine) 0, deref (cutLine run.nameLine) 1, 0]
    (BitVec.ofNat 32 hour)
  minutes : LeadingNumber [deref (cutLine run.nameLine) 3, deref (cutLine run.nameLine) 7, 0]
    (BitVec.ofNat 32 minutes)
  seconds : LeadingNumber (deref (cutLine run.nameLine) 6 :: run.stack) (BitVec.ofNat 32 seconds)

/-- Every message is written at last, and what happens to the heap until then are its own calls. -/
def Serves (C : Console Heap) : Prop :=
  ∀ msg K live, OwnsBlocks K.device.heap live →
    ∃ K' live', C msg K = .ok K' ∧ OwnsBlocks K'.device.heap live'

/-- When `pcb_find` has returned there is memory for the text of `get_time`. -/
def RoomForTime (C : Console Heap) (run : AlarmRun Heap) : Prop :=
  ∃ name K, (strtok run.nameLine whitespace).1 = some name ∧
    pcbFind C run.kernel name = .ok (0, K) ∧ ¬ NoRoom K.device.heap 12

section Cut

theorem set_text_end (s : List U8) : s.set (text s).length 0 = s := by
  induction s with
  | nil => rfl
  | cons c s ih =>
      by_cases hc : c = 0
      · rw [hc, text_zero]
        rfl
      · rw [text_cons hc, List.length_cons, List.set_cons_succ, ih]

/-- What `strtok` leaves in the array. What `tok_tmp` is before makes no difference. -/
theorem strtok_cutLine (line : List U8) (tokTmp : Option Nat) :
    (Strtok.strtok (some 0) whitespace ⟨line, tokTmp⟩).2.bytes = cutLine line := by
  rw [cutLine, Strtok.strtok_first line whitespace_nonzero tokTmp]
  rcases Strtok.strtok_start line whitespace tokTmp with ⟨-, hcall⟩ | ⟨a, t, -, htoken, hcall⟩
  · rw [hcall]
    exact (set_text_end line).symm
  · have hbound := htoken.length_le
    have hlength : (text (Strtok.cut line (text line) (a + t.length))).length = a + t.length := by
      rw [Strtok.text_cut_start htoken, List.length_take]
      omega
    rw [hcall]
    simp only [hlength]
    by_cases hlt : a + t.length < (text line).length
    · exact if_pos hlt
    · have hend : a + t.length = (text line).length := by omega
      calc Strtok.cut line (text line) (a + t.length) = line := if_neg hlt
        _ = line.set (a + t.length) 0 := by rw [hend, set_text_end]

end Cut

section Run

variable {C : Console Heap} {run : AlarmRun Heap} {live : List U32} {eip : U32}
  {timeLine : List U8} {hour minutes seconds : Nat}

theorem getTime_serves {K : Kernel Heap} (hC : Serves C) (hown : OwnsBlocks K.device.heap live)
    (hours minutes seconds : U8) :
    ∃ ptr K', getTime studentHeap C K hours minutes seconds = .ok (ptr, K') ∧
      (ptr = 0 ↔ NoRoom K.device.heap 12) := by
  rcases allocateMemory_total hown 12 with ⟨ptr, heap, hrun⟩
  have hnull : ptr = 0 ↔ NoRoom K.device.heap 12 := allocateMemory_null_iff hown (by decide) hrun
  have hown' := allocateMemory_owns hown hrun
  rw [getTime_alloc hrun]
  by_cases hptr : ptr = 0
  · rw [if_pos hptr]
    exact ⟨0, _, rfl, iff_of_true rfl (hnull.mp hptr)⟩
  · rw [if_neg hptr]
    rcases hC (ofBytes (timeStr (bcdToBinary hours - 4) (bcdToBinary minutes)
      (bcdToBinary seconds))) { K with device := { K.device with heap := heap } } _ hown' with
      ⟨K', -, hwrite, -⟩
    rw [hwrite]
    exact ⟨ptr, K', rfl, hnull⟩

theorem pcbFind_serves {K : Kernel Heap} {name : List U8} (hC : Serves C)
    (hown : OwnsBlocks K.device.heap live) (hsearch : pcbSearch K.procs name = .ok 0) :
    ∃ K' live', pcbFind C K name = .ok (0, K') ∧ OwnsBlocks K'.device.heap live' := by
  rw [pcbFind, hsearch, ok_bind]
  by_cases hmessage : (0 : U32) = 0 ∧ K.procs.suspendedHead ≠ 0
  · rcases hC "A PCB with the given name cannot be found. Please try again." K live hown with
      ⟨K', live', hwrite, hown'⟩
    rw [if_pos hmessage, hwrite]
    exact ⟨K', live', rfl, hown'⟩
  · rw [if_neg hmessage]
    exact ⟨K, live, rfl, hown⟩

theorem freshName_found (hC : Serves C) (hown : OwnsBlocks run.kernel.device.heap live)
    (hfresh : FreshName run) :
    ∃ o K live', (∀ tokTmp,
        (Strtok.strtok (some 0) whitespace ⟨run.nameLine, tokTmp⟩).1 = some o) ∧
      findAlarm C run.kernel (some ((cutLine run.nameLine).drop o)) = .ok (0, K) ∧
      OwnsBlocks K.device.heap live' ∧ (RoomForTime C run ↔ ¬ NoRoom K.device.heap 12) := by
  rcases hfresh with ⟨name, hname, -, -, hsearch⟩
  rcases pcbFind_serves hC hown hsearch with ⟨K, live', hfind, hown'⟩
  have htoken := hname
  rw [Strtok.strtok_first run.nameLine whitespace_nonzero none, Option.map_eq_some_iff,
    strtok_cutLine] at htoken
  rcases htoken with ⟨o, ho, htext⟩
  have hsame : text ((cutLine run.nameLine).drop o) = text name := by
    rw [← htext, text_eq_self (spells_text _).nonzero]
  have hfind' : pcbFind C run.kernel ((cutLine run.nameLine).drop o) = .ok (0, K) := by
    rw [← hfind, pcbFind, pcbFind, pcbSearch_congr (fun _ => rfl) (fun _ _ => rfl) hsame]
  refine ⟨o, K, live', fun _ => ho, hfind', hown', ?_⟩
  constructor
  · intro hroom
    rcases hroom with ⟨name', K', hname', hfound, hroom⟩
    rw [hname] at hname'
    cases hname'
    rw [hfind] at hfound
    cases hfound
    exact hroom
  · exact fun hroom => ⟨name, K, hname, hfind, hroom⟩

/-- `alarm` gets as far as the check of the time when `get_time` returns a block, and what it
checks then is the name. -/
theorem alarmEntry_spec (hC : Serves C) (hown : OwnsBlocks run.kernel.device.heap live)
    (hline : ∃ c ∈ text timeLine, c ∉ whitespace) (hfresh : FreshName run) (c : Clock) :
    (¬ RoomForTime C run ∧ alarmEntry studentHeap C timeLine run c = .error .nullPointer) ∨
    (RoomForTime C run ∧
      ∃ entry K, alarmEntry studentHeap C timeLine run c = .ok (entry, K) ∧
        entry.time = inputTime (cutLine run.nameLine) run.stack) := by
  rcases strtok_not_blank run.tokTmp hline with ⟨a, st, hfirst, -⟩
  rcases freshName_found hC hown hfresh with ⟨o, K₁, live₁, hname, hfind, hown₁, hroom⟩
  rcases getTime_serves hC hown₁ (readTime c).1 (readTime c).2.1 (readTime c).2.2 with
    ⟨ptr, K₂, hget, hnull⟩
  rw [hroom, not_not, ← hnull, alarmEntry]
  simp only [hfirst, strtok_cutLine, hname, Option.map_some, hfind, ok_bind, ne_eq,
    not_true_eq_false, if_false, hget]
  by_cases hptr : ptr = 0
  · left
    rw [if_pos hptr]
    exact ⟨hptr, rfl⟩
  · right
    rw [if_neg hptr]
    exact ⟨hptr, _, K₂, rfl, rfl⟩

theorem alarm_regs (hC : Serves C) (hown : OwnsBlocks run.kernel.device.heap live)
    (hline : ∃ c ∈ text timeLine, c ∉ whitespace) (hfresh : FreshName run) (c : Clock) :
    ((¬ RoomForTime C run ∨ ¬ ValidTime (inputTime (cutLine run.nameLine) run.stack)) ∧
      alarmRegs (alarm studentHeap C eip timeLine run c).1 = alarmRegs c) ∨
    (RoomForTime C run ∧ ValidTime (inputTime (cutLine run.nameLine) run.stack) ∧
      alarmRegs (alarm studentHeap C eip timeLine run c).1 =
        (BitVec.ofInt 8 (inputTime (cutLine run.nameLine) run.stack).1,
          BitVec.ofInt 8 (inputTime (cutLine run.nameLine) run.stack).2.1,
          BitVec.ofInt 8 (inputTime (cutLine run.nameLine) run.stack).2.2)) := by
  rcases alarmEntry_spec hC hown hline hfresh c with ⟨hroom, hentry⟩ | ⟨hroom, entry, K, hentry, htime⟩
  · left
    rw [alarm, hentry]
    exact ⟨Or.inl hroom, rfl⟩
  · rw [alarm, hentry]
    simp only [htime]
    by_cases hvalid : ValidTime (inputTime (cutLine run.nameLine) run.stack)
    · right
      rw [if_neg (not_not.mpr hvalid)]
      exact ⟨hroom, hvalid, rfl⟩
    · left
      rw [if_pos hvalid]
      exact ⟨Or.inr hvalid, rfl⟩

theorem nameSpells_iff (hhour : hour < 24) (hminutes : minutes < 60) (hseconds : seconds < 60) :
    NameSpells run hour minutes seconds ↔
      inputTime (cutLine run.nameLine) run.stack = ((hour : Int), (minutes : Int), (seconds : Int)) := by
  rw [inputTime, Prod.mk.injEq, Prod.mk.injEq, ← toInt_ofNat_of_lt (by omega : hour < 2 ^ 31),
    ← toInt_ofNat_of_lt (by omega : minutes < 2 ^ 31),
    ← toInt_ofNat_of_lt (by omega : seconds < 2 ^ 31), atoi_eq_iff, atoi_eq_iff, atoi_eq_iff]
  exact ⟨fun h => ⟨h.hour, h.minutes, h.seconds⟩, fun h => ⟨h.1, h.2.1, h.2.2⟩⟩

/-- A run sets the alarm to a time of the day exactly when the name spells that time. -/
theorem setsAlarm_iff (hC : Serves C) (hown : OwnsBlocks run.kernel.device.heap live)
    (hline : ∃ c ∈ text timeLine, c ∉ whitespace) (hfresh : FreshName run)
    (hhour : hour < 24) (hminutes : minutes < 60) (hseconds : seconds < 60) :
    SetsAlarm studentHeap C eip timeLine run hour minutes seconds ↔
      RoomForTime C run ∧ NameSpells run hour minutes seconds := by
  rw [nameSpells_iff hhour hminutes hseconds]
  constructor
  · intro hsets
    -- registers that hold another hour before the run
    have hwritten := hsets ⟨0, fun _ => BitVec.ofNat 8 hour + 1, true⟩
    rcases alarm_regs hC hown hline hfresh
      ⟨0, fun _ => BitVec.ofNat 8 hour + 1, true⟩ with ⟨-, hregs⟩ | ⟨hroom, hvalid, hregs⟩
    · rw [hwritten] at hregs
      have hsame : BitVec.ofNat 8 hour = BitVec.ofNat 8 hour + 1 := congrArg Prod.fst hregs
      exact absurd hsame (by bv_omega)
    · refine ⟨hroom, ?_⟩
      rw [hwritten] at hregs
      generalize inputTime (cutLine run.nameLine) run.stack = time at hvalid hregs
      rcases time with ⟨t₁, t₂, t₃⟩
      simp only [ValidTime, not_or, not_lt] at hvalid
      simp only [Prod.mk.injEq, ← BitVec.toNat_inj, BitVec.toNat_ofNat, BitVec.toNat_ofInt] at hregs ⊢
      omega
  · intro h c
    rcases alarm_regs hC hown hline hfresh c with ⟨hnone, -⟩ | ⟨-, -, hregs⟩
    · rw [h.2] at hnone
      rcases hnone with hroom | hinvalid
      · exact absurd h.1 hroom
      · refine absurd ?_ hinvalid
        simp only [ValidTime]
        omega
    · rw [hregs, h.2]
      simp only [BitVec.ofInt_natCast]

end Run

section TwoRuns

variable {C : Console Heap} {run run' : AlarmRun Heap} {live live' : List U32}

theorem typedTime_not_blank (h₁ h₂ m₁ m₂ s₁ s₂ : Fin 10) (rest : List U8) :
    ∃ c ∈ text (typedTime h₁ h₂ m₁ m₂ s₁ s₂ ++ rest), c ∉ whitespace := by
  have hfigure : ∀ d : Fin 10, digitChar d ≠ 0 ∧ digitChar d ∉ whitespace := by decide
  rw [typedTime, List.cons_append, text_cons (hfigure h₁).1]
  exact ⟨digitChar h₁, List.mem_cons_self, (hfigure h₁).2⟩

/-- Two runs with the same time and two new names both set the alarm to that time exactly when
there is memory for the text of `get_time` and both names spell the time. -/
theorem alarm_time_iff (hC : Serves C) (eip : U32) (h₁ h₂ m₁ m₂ s₁ s₂ : Fin 10) (rest : List U8)
    (hhour : 10 * h₁.val + h₂ < 24) (hminutes : 10 * m₁.val + m₂ < 60)
    (hseconds : 10 * s₁.val + s₂ < 60)
    (hown : OwnsBlocks run.kernel.device.heap live) (hfresh : FreshName run)
    (hown' : OwnsBlocks run'.kernel.device.heap live') (hfresh' : FreshName run') :
    (SetsAlarm studentHeap C eip (typedTime h₁ h₂ m₁ m₂ s₁ s₂ ++ rest) run
        (10 * h₁ + h₂) (10 * m₁ + m₂) (10 * s₁ + s₂) ∧
      SetsAlarm studentHeap C eip (typedTime h₁ h₂ m₁ m₂ s₁ s₂ ++ rest) run'
        (10 * h₁ + h₂) (10 * m₁ + m₂) (10 * s₁ + s₂)) ↔
      (RoomForTime C run ∧ NameSpells run (10 * h₁ + h₂) (10 * m₁ + m₂) (10 * s₁ + s₂)) ∧
      (RoomForTime C run' ∧ NameSpells run' (10 * h₁ + h₂) (10 * m₁ + m₂) (10 * s₁ + s₂)) := by
  have hline := typedTime_not_blank h₁ h₂ m₁ m₂ s₁ s₂ rest
  exact and_congr (setsAlarm_iff hC hown hline hfresh hhour hminutes hseconds)
    (setsAlarm_iff hC hown' hline hfresh' hhour hminutes hseconds)

def firstAlarm (name stack : List U8) : AlarmRun Heap := ⟨bootKernel, name ++ [13], none, stack⟩

theorem firstAlarm_fresh {name stack : List U8} (htoken : (strtok (name ++ [13]) whitespace).1 = some name)
    (hmin : minNameLen ≤ strlen name) (hmax : strlen name ≤ maxNameLen) :
    FreshName (firstAlarm name stack) :=
  ⟨name, htoken, hmin, hmax, rfl⟩

theorem firstAlarm_room {name stack : List U8}
    (htoken : (strtok (name ++ [13]) whitespace).1 = some name) :
    RoomForTime silentConsole (firstAlarm name stack) :=
  ⟨name, bootKernel, htoken, rfl, bootKernel_room⟩

theorem silentConsole_serves : Serves silentConsole :=
  fun _ K live hown => ⟨K, live, rfl, hown⟩

theorem alarm_time_iff_spelled :
    SetsAlarm studentHeap silentConsole 0 (typedTime 1 2 3 4 5 6 ++ [13])
        (firstAlarm [49, 50, 58, 51, 65, 65, 53, 52] [54, 0]) 12 34 56 ∧
      SetsAlarm studentHeap silentConsole 0 (typedTime 1 2 3 4 5 6 ++ [13])
        (firstAlarm [49, 50, 58, 51, 66, 66, 53, 52] [54, 0]) 12 34 56 := by
  apply (alarm_time_iff silentConsole_serves 0 1 2 3 4 5 6 [13] (by decide) (by decide) (by decide)
    kernelHeap_owns (firstAlarm_fresh (by decide) (by decide) (by decide))
    kernelHeap_owns (firstAlarm_fresh (by decide) (by decide) (by decide))).mpr
  have hspells : ∀ c : U8, c = 65 ∨ c = 66 →
      NameSpells (firstAlarm [49, 50, 58, 51, c, c, 53, 52] [54, 0]) 12 34 56 := by
    intro c hc
    rw [nameSpells_iff (by decide) (by decide) (by decide)]
    rcases hc with hc | hc <;> rw [hc] <;> decide
  exact ⟨⟨firstAlarm_room (by decide), hspells 65 (Or.inl rfl)⟩,
    firstAlarm_room (by decide), hspells 66 (Or.inr rfl)⟩

/-- For 12:34:56 and the name `AA` midnight is set. -/
theorem alarm_time_from_name :
    FreshName (firstAlarm [65, 65] [0]) ∧ FreshName (firstAlarm [66, 66] [0]) ∧
    (∀ c, alarmRegs (alarm studentHeap silentConsole 0 (typedTime 1 2 3 4 5 6 ++ [13])
      (firstAlarm [65, 65] [0]) c).1 = (0, 0, 0)) ∧
    ¬ (SetsAlarm studentHeap silentConsole 0 (typedTime 1 2 3 4 5 6 ++ [13])
        (firstAlarm [65, 65] [0]) 12 34 56 ∧
      SetsAlarm studentHeap silentConsole 0 (typedTime 1 2 3 4 5 6 ++ [13])
        (firstAlarm [66, 66] [0]) 12 34 56) := by
  have hfresh : FreshName (firstAlarm [65, 65] [0]) :=
    firstAlarm_fresh (by decide) (by decide) (by decide)
  have hline := typedTime_not_blank 1 2 3 4 5 6 [13]
  have hspells : NameSpells (firstAlarm [65, 65] [0]) 0 0 0 := by
    rw [nameSpells_iff (by decide) (by decide) (by decide)]
    decide
  have hmidnight : SetsAlarm studentHeap silentConsole 0 (typedTime 1 2 3 4 5 6 ++ [13])
      (firstAlarm [65, 65] [0]) 0 0 0 :=
    (setsAlarm_iff silentConsole_serves kernelHeap_owns hline hfresh (by decide) (by decide)
      (by decide)).mpr ⟨firstAlarm_room (by decide), hspells⟩
  refine ⟨hfresh, firstAlarm_fresh (by decide) (by decide) (by decide), hmidnight, ?_⟩
  intro hboth
  have hregs := (hmidnight stoppedClock).symm.trans (hboth.1 stoppedClock)
  exact absurd hregs (by decide)

end TwoRuns

end Mpx
