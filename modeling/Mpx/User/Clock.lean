import Mpx.Base.Atoi
import Mpx.Base.Words
import Mpx.Heap.Calls
import Mpx.Kernel.Names
import Mpx.Serial.Poll
import Mpx.User.Commands

/-! The real-time clock: `set_time` of `user/commhand.c`, and what `get_time` shows of it. -/

namespace Mpx

open Memory CString Numeral Run

variable {σ : Type}

def SECONDS : U8 := 0x00
def ALARM_SEC : U8 := 0x01
def MINUTES : U8 := 0x02
def ALARM_MIN : U8 := 0x03
def HOURS : U8 := 0x04
def ALARM_HR : U8 := 0x05
def DAY : U8 := 0x07
def MONTH : U8 := 0x08
def YEAR : U8 := 0x09

/-- The clock with the register that is selected, and whether interrupts are enabled. -/
structure Clock where
  index : U8
  regs : U8 → U8
  interrupts : Bool

namespace Clock

def select (c : Clock) (reg : U8) : Clock := { c with index := reg }

def store (c : Clock) (v : U8) : Clock := { c with regs := Function.update c.regs c.index v }

def data (c : Clock) : U8 := c.regs c.index

def cli (c : Clock) : Clock := { c with interrupts := false }

def sti (c : Clock) : Clock := { c with interrupts := true }

end Clock

/-- The hour, the minutes and the seconds that `set_time` and `alarm` take from `buf`.
`minutes[1]` is assigned twice and `seconds[1]` not at all, so what is on the stack behind
`seconds[0]` counts as well. -/
def inputTime (buf stack : List U8) : Int × Int × Int :=
  let hour := [deref buf 0, deref buf 1, 0]
  let minutes := [deref buf 3, deref buf 7, 0]
  let seconds := deref buf 6 :: stack
  (atoi hour, atoi minutes, atoi seconds)

def ValidTime (time : Int × Int × Int) : Prop :=
  ¬ (time.1 < 0 ∨ time.1 > 23 ∨ time.2.1 < 0 ∨ time.2.1 > 59 ∨ time.2.2 < 0 ∨ time.2.2 > 59)

instance (time : Int × Int × Int) : Decidable (ValidTime time) :=
  inferInstanceAs (Decidable (¬ _))

def timeSetMsg : String := "\nTime set successfully. \n"

/-- `set_time` when `serial_poll` has returned `nread`. The answer is the text that is written
last. -/
def setTime (nread : Int) (buf stack : List U8) (c : Clock) : String × Clock :=
  if nread = bufferOverflow then ("\nInput buffer overflow. \n", c)
  else if nread < 5 then ("\nInvalid input format. \n", c)
  else
    let time := inputTime buf stack
    if ¬ ValidTime time then ("\nInvalid time input. \n", c)
    else
      let c := c.cli
      let c := (c.select HOURS).store (BitVec.ofInt 8 time.1)
      let c := (c.select MINUTES).store (BitVec.ofInt 8 time.2.1)
      let c := (c.select SECONDS).store (BitVec.ofInt 8 time.2.2)
      (timeSetMsg, c.sti)

def readTime (c : Clock) : U8 × U8 × U8 :=
  let c := c.select HOURS
  let hours := c.data
  let c := c.select MINUTES
  let minutes := c.data
  let c := c.select SECONDS
  let seconds := c.data
  (hours, minutes, seconds)

def ShowsTime (F : HeapFunctions σ) (K : Kernel σ) (c : Clock) (text : List U8) : Prop :=
  ∃ ptr heap, ∀ C : Console σ,
    getTime F C K (readTime c).1 (readTime c).2.1 (readTime c).2.2 = (do
      let K ← C (ofBytes text) { K with device := { K.device with heap := heap } }
      return (ptr, K))

section Show

theorem char_injective {a b : U8} (h : Char.ofNat a.toNat = Char.ofNat b.toNat) : a = b := by
  have hval : ∀ c : U8, (Char.ofNat c.toNat).toNat = c.toNat := by
    intro c
    have hc := c.isLt
    have hvalid : c.toNat.isValidChar := Or.inl (by omega)
    rw [Char.ofNat, dif_pos hvalid]
    rfl
  apply BitVec.eq_of_toNat_eq
  rw [← hval a, ← hval b, h]

theorem ofBytes_injective {s t : List U8} (h : ofBytes s = ofBytes t) : s = t := by
  rw [ofBytes, ofBytes, String.ofList_inj] at h
  exact List.map_injective_iff.mpr (fun a b => char_injective) h

theorem getTime_alloc {K : Kernel Heap} {ptr : U32} {heap : Heap}
    (halloc : allocateMemory K.device.heap 12 = .ok (ptr, heap)) (C : Console Heap)
    (hours minutes seconds : U8) : getTime studentHeap C K hours minutes seconds =
      if ptr = 0 then .ok (0, { K with device := { K.device with heap := heap } })
      else do
        let K ← C (ofBytes (timeStr (bcdToBinary hours - 4) (bcdToBinary minutes)
          (bcdToBinary seconds))) { K with device := { K.device with heap := heap } }
        return (ptr, K) := by
  have hcall : sysAllocMem studentHeap K.device.heap 12 = .ok (ptr, heap) := halloc
  rw [getTime, hcall]
  rfl

theorem showsTime_iff {K : Kernel Heap} {live : List U32} {c : Clock} {text : List U8}
    (hown : OwnsBlocks K.device.heap live) :
    ShowsTime studentHeap K c text ↔ ¬ NoRoom K.device.heap 12 ∧
      text = timeStr (bcdToBinary (readTime c).1 - 4) (bcdToBinary (readTime c).2.1)
        (bcdToBinary (readTime c).2.2) := by
  rcases allocateMemory_total hown 12 with ⟨p, h', hrun⟩
  have hnull : p = 0 ↔ NoRoom K.device.heap 12 := allocateMemory_null_iff hown (by decide) hrun
  rw [ShowsTime, ← hnull]
  simp only [getTime_alloc hrun]
  generalize timeStr (bcdToBinary (readTime c).1 - 4) (bcdToBinary (readTime c).2.1)
    (bcdToBinary (readTime c).2.2) = shown
  by_cases hp : p = 0
  · simp only [if_pos hp]
    apply iff_of_false
    · intro hshows
      rcases hshows with ⟨ptr, heap, hshows⟩
      -- a console that never returns
      cases hshows fun _ _ => .error .diverges
    · exact fun h => h.1 hp
  · simp only [if_neg hp]
    constructor
    · intro hshows
      refine ⟨hp, ?_⟩
      rcases hshows with ⟨ptr, heap, hshows⟩
      -- a console that tells this text from all others
      have hspy := hshows fun msg _ => .error (if msg = ofBytes shown then .diverges else .outOfBounds)
      have hfault := Except.error.inj hspy
      rw [if_pos rfl] at hfault
      by_contra hne
      rw [if_neg fun heq => hne (ofBytes_injective heq)] at hfault
      cases hfault
    · intro h
      rw [h.2]
      exact ⟨p, h', fun _ => rfl⟩

end Show

section SetTime

variable {nread : Int} {buf stack rest : List U8} {c : Clock}

theorem setTime_accepted (h : (setTime nread buf stack c).1 = timeSetMsg) :
    ValidTime (inputTime buf stack) ∧
    readTime (setTime nread buf stack c).2 = (BitVec.ofInt 8 (inputTime buf stack).1,
      BitVec.ofInt 8 (inputTime buf stack).2.1, BitVec.ofInt 8 (inputTime buf stack).2.2) := by
  have hoverflowMsg : "\nInput buffer overflow. \n" ≠ timeSetMsg := by decide
  have hformatMsg : "\nInvalid input format. \n" ≠ timeSetMsg := by decide
  have hinputMsg : "\nInvalid time input. \n" ≠ timeSetMsg := by decide
  rw [setTime] at h ⊢
  by_cases hoverflow : nread = bufferOverflow
  · rw [if_pos hoverflow] at h
    exact absurd h hoverflowMsg
  · rw [if_neg hoverflow] at h ⊢
    by_cases hshort : nread < 5
    · rw [if_pos hshort] at h
      exact absurd h hformatMsg
    · rw [if_neg hshort] at h ⊢
      by_cases hvalid : ValidTime (inputTime buf stack)
      · refine ⟨hvalid, ?_⟩
        simp only [not_not.mpr hvalid, if_false]
        rfl
      · simp only [hvalid, not_false_iff, if_true] at h
        exact absurd h hinputMsg

def typedTime (h₁ h₂ m₁ m₂ s₁ s₂ : Fin 10) : List U8 :=
  [digitChar h₁, digitChar h₂, 58, digitChar m₁, digitChar m₂, 58, digitChar s₁, digitChar s₂]

/-- What `get_time` is to show for it, four hours earlier. -/
def shownTime (h₁ h₂ m₁ m₂ s₁ s₂ : Fin 10) : List U8 :=
  10 :: twoDigits ((10 * h₁ + h₂ + 20) % 24) ++ 58 :: [digitChar m₁, digitChar m₂] ++
    58 :: [digitChar s₁, digitChar s₂] ++ [10]

theorem bcdToBinary_ofNat {n : Nat} (hn : n < 60) :
    bcdToBinary (BitVec.ofNat 8 n) = BitVec.ofNat 8 (n - 6 * (n / 16)) := by
  have hall : ∀ n < 60, bcdToBinary (BitVec.ofNat 8 n) = BitVec.ofNat 8 (n - 6 * (n / 16)) := by
    decide +kernel
  exact hall n hn

theorem digits_ofNat {n : Nat} (hn : n < 100) :
    [48 + BitVec.ofNat 8 n / 10, 48 + BitVec.ofNat 8 n % 10] = twoDigits n := by
  have hall : ∀ n < 100, [48 + BitVec.ofNat 8 n / 10, 48 + BitVec.ofNat 8 n % 10] = twoDigits n := by
    decide +kernel
  exact hall n hn

/-- The hours before four o'clock wrap around in eight bits, and from 16 on they are no BCD
code. -/
theorem hours_shown_iff {n : Nat} (hn : n < 24) :
    [48 + (bcdToBinary (BitVec.ofNat 8 n) - 4) / 10, 48 + (bcdToBinary (BitVec.ofNat 8 n) - 4) % 10]
      = twoDigits ((n + 20) % 24) ↔ 4 ≤ n ∧ n ≤ 15 := by
  have hall : ∀ n < 24, ([48 + (bcdToBinary (BitVec.ofNat 8 n) - 4) / 10,
      48 + (bcdToBinary (BitVec.ofNat 8 n) - 4) % 10] = twoDigits ((n + 20) % 24) ↔
        4 ≤ n ∧ n ≤ 15) := by
    decide +kernel
  exact hall n hn

theorem bcd_shown_iff {n a b : Nat} (hn : n < 60) (ha : a < 10) (hb : b < 10) :
    [48 + bcdToBinary (BitVec.ofNat 8 n) / 10, 48 + bcdToBinary (BitVec.ofNat 8 n) % 10] =
      [digitChar a, digitChar b] ↔ n - 6 * (n / 16) = 10 * a + b := by
  rw [bcdToBinary_ofNat hn, digits_ofNat (by omega), twoDigits_eq_iff (by omega) ha hb]

/-- The hour, the minutes and the seconds that come back. The minutes are read with the last
digit of the seconds, and the seconds with what is on the stack. -/
def ComesBack (h₁ h₂ m₁ m₂ s₁ s₂ : Fin 10) (stack : List U8) : Prop :=
  (4 ≤ 10 * h₁.val + h₂ ∧ 10 * h₁.val + h₂ ≤ 15) ∧
  ((10 * m₁.val + m₂ ≤ 15 ∧ s₂ = m₂) ∨ ((m₁.val = 1 ∨ m₁.val = 2) ∧ s₂.val = m₂ + 6)) ∧
  (spelled s₁ stack = 16 * s₁ + s₂ ∨
    (0 < s₁.val ∧ s₂.val ≤ 5 ∧ spelled s₁ stack + 6 = 16 * s₁ + s₂))

instance (h₁ h₂ m₁ m₂ s₁ s₂ : Fin 10) (stack : List U8) :
    Decidable (ComesBack h₁ h₂ m₁ m₂ s₁ s₂ stack) := inferInstanceAs (Decidable (_ ∧ _))

theorem timeStr_eq_iff (hours minutes seconds : U8) (h₁ h₂ m₁ m₂ s₁ s₂ : Fin 10) :
    shownTime h₁ h₂ m₁ m₂ s₁ s₂ = timeStr hours minutes seconds ↔
      [48 + hours / 10, 48 + hours % 10] = twoDigits ((10 * h₁ + h₂ + 20) % 24) ∧
      [48 + minutes / 10, 48 + minutes % 10] = [digitChar m₁, digitChar m₂] ∧
      [48 + seconds / 10, 48 + seconds % 10] = [digitChar s₁, digitChar s₂] := by
  rw [shownTime, timeStr, twoDigits]
  simp only [List.cons_append, List.nil_append, List.cons.injEq, true_and, and_true]
  constructor
  · intro h
    rcases h with ⟨e1, e2, e3, e4, e5, e6⟩
    exact ⟨⟨e1.symm, e2.symm⟩, ⟨e3.symm, e4.symm⟩, e5.symm, e6.symm⟩
  · intro h
    rcases h with ⟨⟨e1, e2⟩, ⟨e3, e4⟩, e5, e6⟩
    exact ⟨e1.symm, e2.symm, e3.symm, e4.symm, e5.symm, e6.symm⟩

theorem inputTime_typed (h₁ h₂ m₁ m₂ s₁ s₂ : Fin 10)
    (hvalid : ValidTime (inputTime (typedTime h₁ h₂ m₁ m₂ s₁ s₂ ++ rest) stack)) :
    inputTime (typedTime h₁ h₂ m₁ m₂ s₁ s₂ ++ rest) stack =
      (((10 * h₁.val + h₂.val : Nat) : Int), ((10 * m₁.val + s₂.val : Nat) : Int),
        (spelled s₁ stack : Int)) ∧
    10 * h₁.val + h₂ < 24 ∧ 10 * m₁.val + s₂ < 60 ∧ spelled s₁ stack < 60 := by
  have hinput : inputTime (typedTime h₁ h₂ m₁ m₂ s₁ s₂ ++ rest) stack =
      (atoi [digitChar h₁, digitChar h₂, 0], atoi [digitChar m₁, digitChar s₂, 0],
        atoi (digitChar s₁ :: stack)) := rfl
  rw [hinput, atoi_two h₁.isLt h₂.isLt, atoi_two m₁.isLt s₂.isLt, atoi_spelled s₁.isLt] at hvalid ⊢
  simp only [ValidTime, not_or, not_lt] at hvalid
  rcases hvalid with ⟨-, hhour, -, hminutes, hlow, hhigh⟩
  have hword : spelled s₁ stack < 2 ^ 32 := Nat.mod_lt _ (by decide)
  have hseconds : (BitVec.ofNat 32 (spelled s₁ stack)).toInt = (spelled s₁ stack : Int) := by
    rw [BitVec.toInt_eq_toNat_cond, toNat_ofNat_of_lt hword] at hlow hhigh ⊢
    split
    · rfl
    · next hneg =>
        rw [if_neg hneg] at hlow
        omega
  rw [hseconds] at hhigh ⊢
  exact ⟨rfl, by omega, by omega, by omega⟩

/-- An accepted line is shown again, four hours earlier, exactly when there is memory for the
text and the three fields come back. -/
theorem set_get_time_iff {K : Kernel Heap} {live : List U32} (hown : OwnsBlocks K.device.heap live)
    (h₁ h₂ m₁ m₂ s₁ s₂ : Fin 10) (rest : List U8) (haccept : (setTime nread
      (typedTime h₁ h₂ m₁ m₂ s₁ s₂ ++ rest) stack c).1 = timeSetMsg) :
    ShowsTime studentHeap K (setTime nread (typedTime h₁ h₂ m₁ m₂ s₁ s₂ ++ rest) stack c).2
        (shownTime h₁ h₂ m₁ m₂ s₁ s₂) ↔
      ¬ NoRoom K.device.heap 12 ∧ ComesBack h₁ h₂ m₁ m₂ s₁ s₂ stack := by
  rcases setTime_accepted haccept with ⟨hvalid, hregs⟩
  rcases inputTime_typed h₁ h₂ m₁ m₂ s₁ s₂ hvalid with ⟨hinput, hhour, hminutes, hseconds⟩
  rw [hinput] at hregs
  simp only [BitVec.ofInt_natCast] at hregs
  rw [showsTime_iff hown, hregs, timeStr_eq_iff, hours_shown_iff hhour,
    bcd_shown_iff hminutes m₁.isLt m₂.isLt, bcd_shown_iff hseconds s₁.isLt s₂.isLt, ComesBack]
  have hm₁ := m₁.isLt
  have hm₂ := m₂.isLt
  have hs₁ := s₁.isLt
  have hs₂ := s₂.isLt
  have hsame : s₂ = m₂ ↔ s₂.val = m₂.val := Fin.ext_iff
  rw [hsame]
  refine and_congr_right fun _ => and_congr Iff.rfl (and_congr ?_ ?_)
  · omega
  · omega

end SetTime

section Noon

theorem bootKernel_room : ¬ NoRoom bootKernel.device.heap 12 := by
  intro hfull
  have h := hfull _ kernelHeap_chain _ List.mem_cons_self rfl
  exact absurd h (by decide)

def stoppedClock : Clock := ⟨0, fun _ => 0, true⟩

theorem set_get_time_iff_noon :
    (setTime 9 (typedTime 1 2 0 0 0 0 ++ [10, 0]) [0] stoppedClock).1 = timeSetMsg ∧
    ShowsTime studentHeap bootKernel
      (setTime 9 (typedTime 1 2 0 0 0 0 ++ [10, 0]) [0] stoppedClock).2
      (shownTime 1 2 0 0 0 0) := by
  have haccept : (setTime 9 (typedTime 1 2 0 0 0 0 ++ [10, 0]) [0] stoppedClock).1 =
      timeSetMsg := by decide
  exact ⟨haccept, (set_get_time_iff kernelHeap_owns 1 2 0 0 0 0 [10, 0] haccept).mpr
    ⟨bootKernel_room, by decide⟩⟩

/-- For 12:34:56 with nothing on the stack, 08:24:05 is shown. -/
theorem set_get_time_wrong :
    (setTime 9 (typedTime 1 2 3 4 5 6 ++ [10, 0]) [0] stoppedClock).1 = timeSetMsg ∧
    ShowsTime studentHeap bootKernel
      (setTime 9 (typedTime 1 2 3 4 5 6 ++ [10, 0]) [0] stoppedClock).2
      [10, 48, 56, 58, 50, 52, 58, 48, 53, 10] ∧
    ¬ ShowsTime studentHeap bootKernel
      (setTime 9 (typedTime 1 2 3 4 5 6 ++ [10, 0]) [0] stoppedClock).2
      (shownTime 1 2 3 4 5 6) := by
  have hregs : readTime (setTime 9 (typedTime 1 2 3 4 5 6 ++ [10, 0]) [0] stoppedClock).2 =
      (12, 36, 5) := by decide
  have hshown : timeStr (bcdToBinary 12 - 4) (bcdToBinary 36) (bcdToBinary 5) =
      [10, 48, 56, 58, 50, 52, 58, 48, 53, 10] := by decide
  refine ⟨by decide, ?_, ?_⟩
  · rw [showsTime_iff kernelHeap_owns, hregs, hshown]
    exact ⟨bootKernel_room, rfl⟩
  · rw [showsTime_iff kernelHeap_owns, hregs, hshown]
    exact fun h => absurd h.2 (by decide)

end Noon

end Mpx
