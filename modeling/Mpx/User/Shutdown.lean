import Mpx.Serial.Poll
import Mpx.User.Commands

/-! `shutdown` of `user/commhand.c`, from the keys that are pressed to the EXIT. -/

namespace Mpx

open Memory CString LineEditor

/-- The string in memory from `p` on, as far as the fuel goes. -/
def cstringAt (m : Mem) : Nat → U32 → List U8
  | 0, _ => []
  | fuel + 1, p => if m.byte p = 0 then [] else m.byte p :: cstringAt m fuel (p + 1)

/-- What becomes of the call: it polls for more keys, it calls EXIT, it says that the shutdown is
canceled, or it returns without a word. -/
inductive ShutdownAnswer
  | waiting
  | exits
  | canceled
  | silent
  deriving DecidableEq, Repr

def shutdownAnswer (input : Option (List U8)) : ShutdownAnswer :=
  match input with
  | none => .silent
  | some input => if strcmp input (literal "yes") = 0 then .exits else .canceled

/-- The call of `strtok` for the string `line` at `buf`. It stores a NUL behind the token, unless
the string ends there. -/
def strtokAt (s : Poll) (buf : U32) (line : List U8) : Option (List U8) × Poll :=
  let (input, cut) := strtok line whitespace
  if cut.length < line.length then (input, s.store buf (BitVec.ofNat 32 cut.length) 0)
  else (input, s)

/-- The call behind its prompt, on the bytes that the port receives. A string cannot be longer
than the memory. -/
def shutdown (buf : U32) (received : List U8) (mem : Mem) : ShutdownAnswer × Poll :=
  let polled := serialPoll buf 10 received (Poll.start mem)
  match polled.1.value with
  | none => (.waiting, polled.2)
  | some shutdownInput =>
      let s := polled.2.store buf (BitVec.ofInt 32 shutdownInput) 0
      let (input, s) := strtokAt s buf (cstringAt s.mem (2 ^ 32) buf)
      (shutdownAnswer input, s)

def shutdownRequest (line : List U8 × Bool) : ShutdownAnswer :=
  if line.2 then shutdownAnswer (strtok line.1 whitespace).1 else .waiting

section Strings

variable {m : Mem} {buf : U32} {line : List U8} {n : Nat}

theorem text_text (s : List U8) : text (text s) = text s := by
  induction s with
  | nil => rfl
  | cons c s ih =>
      by_cases hc : c = 0
      · rw [hc]
        rfl
      · rw [text_cons hc, text_cons hc, ih]

theorem strtok_text (s delims : List U8) : strtok (text s) delims = strtok s delims := by
  rw [strtok, strtok, text_text]

/-- The string goes up to the first zero of the line, and no further than its own end. -/
theorem cstringAt_eq {fuel : Nat} (hbytes : bufferBytes m buf line.length = line)
    (hend : m.byte (buf + BitVec.ofNat 32 line.length) = 0) (hfuel : line.length < fuel) :
    cstringAt m fuel buf = text line := by
  induction line generalizing buf fuel with
  | nil =>
      obtain ⟨fuel, rfl⟩ := Nat.exists_eq_add_one.mpr hfuel
      have hzero : m.byte buf = 0 := by
        rw [List.length_nil, BitVec.add_zero] at hend
        exact hend
      rw [cstringAt, if_pos hzero]
      rfl
  | cons c line ih =>
      obtain ⟨fuel, rfl⟩ := Nat.exists_eq_add_one.mpr (Nat.zero_lt_of_lt hfuel)
      rw [List.length_cons] at hbytes hend hfuel
      have hshift : ∀ i, buf + BitVec.ofNat 32 (i + 1) = buf + 1 + BitVec.ofNat 32 i := by
        intro i
        bv_omega
      have hfirst : m.byte buf = c ∧ bufferBytes m (buf + 1) line.length = line := by
        rw [bufferBytes, List.range_succ_eq_map, List.map_cons, List.map_map] at hbytes
        obtain ⟨hhead, htail⟩ := List.cons.inj hbytes
        refine ⟨by rw [← hhead, BitVec.add_zero], ?_⟩
        rw [bufferBytes]
        refine Eq.trans (List.map_congr_left fun i _ => ?_) htail
        rw [Function.comp_apply, hshift]
      rw [cstringAt, hfirst.1]
      by_cases hc : c = 0
      · rw [if_pos hc, hc, text_zero]
      · rw [hshift] at hend
        rw [if_neg hc, text_cons hc, ih hfirst.2 hend (by omega)]

theorem strtokAt_input (s : Poll) (buf : U32) (line : List U8) :
    (strtokAt s buf line).1 = (strtok line whitespace).1 := by
  simp only [strtokAt]
  split <;> rfl

theorem strtokAt_stores {s : Poll} {limit : U32} (hstores : ∀ i ∈ s.stores, i < limit)
    (hline : line.length ≤ limit.toNat) : ∀ i ∈ (strtokAt s buf line).2.stores, i < limit := by
  simp only [strtokAt]
  split
  case isTrue hcut =>
    intro i hi
    cases List.mem_append.mp hi with
    | inl hold => exact hstores i hold
    | inr hlast =>
        have hlimit := limit.isLt
        rw [List.mem_singleton.mp hlast, BitVec.lt_def, BitVec.toNat_ofNat,
          Nat.mod_eq_of_lt (by omega)]
        omega
  case isFalse => exact hstores

end Strings

/-- As long as no backspace comes to an empty line and nothing but a backspace to a line of nine
characters, `shutdown` stays inside of its buffer, and it calls EXIT exactly when the line that
has been edited starts with the word `yes`. -/
theorem shutdown_on_yes (buf : U32) (received : List U8) (mem : Mem)
    (hroom : ∀ line c, Typed 10 received line c → LeavesRoom 10 line c) :
    (∀ i ∈ (shutdown buf received mem).2.stores, i < 10) ∧
      (shutdown buf received mem).1 = shutdownRequest (editLine 10 received) := by
  have hstart : Editing buf (Poll.start mem) [] := editing_start mem
  have hinside := pollInside_of_room hstart (by decide) (fun i hi => absurd hi List.not_mem_nil)
    hroom
  obtain ⟨hexit, hediting⟩ := serialPoll_edits hstart (Nat.zero_le _)
    fun line c htyped => (hroom line c htyped).erasable
  have hline : edit isBackspace isNewline (10 : U32).toNat [] received = editLine 10 received := rfl
  rw [hline] at hexit hediting
  rw [shutdown, shutdownRequest]
  generalize serialPoll buf 10 received (Poll.start mem) = polled at hinside hexit hediting ⊢
  obtain ⟨exit, s⟩ := polled
  cases hstopped : (editLine 10 received).2 with
  | false =>
      rw [hstopped] at hexit
      obtain rfl : exit = .waiting := hexit
      exact ⟨hinside.indices, rfl⟩
  | true =>
      rw [hstopped] at hexit
      obtain rfl : exit = .count s.bytesRead := hexit
      have hend : s.bytesRead < 10 := by
        have hcaller := hinside.caller _ rfl
        rwa [BitVec.ofInt_toInt] at hcaller
      have hstored := hediting.store hediting.count.ge 0
      have hzero : (s.store buf s.bytesRead 0).mem.byte
          (buf + BitVec.ofNat 32 (editLine 10 received).1.length) = 0 := by
        rw [← hediting.count, BitVec.ofNat_toNat, BitVec.setWidth_eq]
        exact byte_store8 s.mem _ 0
      have hlength : (editLine 10 received).1.length < 10 := by
        rw [← hediting.count]
        exact hend
      have htext : (text (editLine 10 received).1).length ≤ (editLine 10 received).1.length :=
        (List.takeWhile_sublist _).length_le
      simp only [PollExit.value, BitVec.ofInt_toInt, if_true]
      rw [cstringAt_eq hstored.bytes hzero (by omega)]
      constructor
      · apply strtokAt_stores
        · intro i hi
          cases List.mem_append.mp hi with
          | inl hold => exact hinside.indices i hold
          | inr hlast =>
              rw [List.mem_singleton.mp hlast]
              exact hend
        · exact Nat.le_trans htext hlength.le
      · rw [strtokAt_input, strtok_text]

theorem shutdown_on_yes_seven_keys :
    (shutdown 0x8000 [120, 127, 32, 121, 101, 115, 13] ⟨fun _ => 7⟩).1 = .exits := by
  have hroom : Throughout isBackspace isNewline 10 (LeavesRoom 10) []
      [120, 127, 32, 121, 101, 115, 13] := by decide
  rw [(shutdown_on_yes 0x8000 [120, 127, 32, 121, 101, 115, 13] ⟨fun _ => 7⟩ hroom).2]
  decide

end Mpx
