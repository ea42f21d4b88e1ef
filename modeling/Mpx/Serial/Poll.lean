import Mpx.Base.LineEditor
import Mpx.Serial.Transfer

/-! `serial_poll` of `kernel/serial.c`: what it stores in the buffer while a line is typed. -/

namespace Mpx

open Memory LineEditor

def bufferOverflow : Int := -1

/-- The count of `serial_poll` with the memory that its buffer lies in, the indices at which
it has written the buffer and the bytes that it has sent to the terminal, oldest first. -/
structure Poll where
  bytesRead : U32
  mem : Mem
  stores : List U32
  sent : List U8

namespace Poll

def start (mem : Mem) : Poll := ⟨0, mem, [], []⟩

def store (s : Poll) (buffer index : U32) (c : U8) : Poll :=
  { s with mem := store8 s.mem (buffer + index) c, stores := s.stores ++ [index] }

def outb (s : Poll) (c : U8) : Poll := { s with sent := s.sent ++ [c] }

end Poll

def isBackspace (c : U8) : Bool := c = 8 ∨ c = 127

def isNewline (c : U8) : Bool := c = 10 ∨ c = 13

/-- What is done with a byte before the test for the enter and return keys. -/
def pollByte (buffer : U32) (c : U8) (s : Poll) : Poll :=
  let s := { s.store buffer s.bytesRead c with bytesRead := s.bytesRead + 1 }
  let s := s.outb c
  if isBackspace c then
    if s.bytesRead > 0 then
      let s := { s with bytesRead := s.bytesRead - 1 }
      let s := { s with bytesRead := s.bytesRead - 1 }
      let s := s.store buffer s.bytesRead 0
      ((s.outb 8).outb 32).outb 8
    else s
  else s

/-- The return statements of `serial_poll`. `waiting` is the loop that polls for a byte. -/
inductive PollExit
  | waiting
  | count (bytesRead : U32)
  | overflow
  deriving DecidableEq, Repr

def PollExit.value : PollExit → Option Int
  | .waiting => none
  | .count bytesRead => some bytesRead.toInt
  | .overflow => some bufferOverflow

/-- `serial_poll` on the bytes that the port receives. A round in which no byte is ready
changes nothing. -/
def serialPoll (buffer len : U32) : List U8 → Poll → PollExit × Poll
  | [], s => if s.bytesRead < len then (.waiting, s) else (.count s.bytesRead, s)
  | c :: received, s =>
      if s.bytesRead < len then
        let s := pollByte buffer c s
        if isNewline c then
          let s := s.store buffer s.bytesRead 0
          (.count s.bytesRead, s.outb 10)
        else if s.bytesRead > len then (.overflow, s)
        else serialPoll buffer len received s
      else (.count s.bytesRead, s)

/-- The line editor that `serial_poll` should be: the line that has been typed, and whether
it is complete. -/
def editLine (len : U32) (received : List U8) : List U8 × Bool :=
  edit isBackspace isNewline len.toNat [] received

def Typed (len : U32) (received line : List U8) (c : U8) : Prop :=
  Arrives isBackspace isNewline len.toNat [] received line c

section Step

variable {buffer len index : U32} {c : U8} {s : Poll} {line received : List U8} {m : Mem}
  {n : Nat}

theorem byte_store8 (m : Mem) (a : U32) (c : U8) : (store8 m a c).byte a = c := if_pos rfl

theorem bufferBytes_store8 (hn : n ≤ index.toNat) :
    bufferBytes (store8 m (buffer + index) c) buffer n = bufferBytes m buffer n := by
  apply List.map_congr_left
  intro i hi
  have hlt : i < index.toNat := lt_of_lt_of_le (List.mem_range.mp hi) hn
  have haddr : buffer + BitVec.ofNat 32 i ≠ buffer + index := by
    have := index.isLt
    bv_omega
  rw [store8]
  exact if_neg haddr

theorem pollByte_other (hc : isBackspace c = false) : pollByte buffer c s = { s with
    bytesRead := s.bytesRead + 1
    mem := store8 s.mem (buffer + s.bytesRead) c
    stores := s.stores ++ [s.bytesRead]
    sent := s.sent ++ [c] } := by
  rw [pollByte, hc]
  rfl

theorem pollByte_backspace (hc : isBackspace c = true) (hmore : s.bytesRead + 1 > 0) :
    pollByte buffer c s = { s with
      bytesRead := s.bytesRead - 1
      mem := store8 (store8 s.mem (buffer + s.bytesRead) c) (buffer + (s.bytesRead - 1)) 0
      stores := s.stores ++ [s.bytesRead, s.bytesRead - 1]
      sent := s.sent ++ [c, 8, 32, 8] } := by
  have hback : s.bytesRead + 1 - 1 - 1 = s.bytesRead - 1 := by
    bv_omega
  rw [pollByte, hc]
  simp only [Poll.outb, Poll.store, if_true, if_pos hmore, hback, List.append_assoc,
    List.cons_append, List.nil_append]

theorem pollByte_wrapped (hc : isBackspace c = true) (hmore : ¬ s.bytesRead + 1 > 0) :
    pollByte buffer c s = { s with
      bytesRead := s.bytesRead + 1
      mem := store8 s.mem (buffer + s.bytesRead) c
      stores := s.stores ++ [s.bytesRead]
      sent := s.sent ++ [c] } := by
  rw [pollByte, hc]
  exact if_neg hmore

/-- The first bytes of the buffer are the edited line. -/
structure Editing (buffer : U32) (s : Poll) (line : List U8) : Prop where
  count : s.bytesRead.toNat = line.length
  bytes : bufferBytes s.mem buffer line.length = line

theorem editing_start (mem : Mem) : Editing buffer (Poll.start mem) [] := ⟨rfl, rfl⟩

theorem Editing.room (h : Editing buffer s line) : s.bytesRead < len ↔ line.length < len.toNat := by
  rw [BitVec.lt_def, h.count]

theorem Editing.append (h : Editing buffer s line) (hroom : line.length < len.toNat)
    (hc : isBackspace c = false) :
    Editing buffer (pollByte buffer c s) (line ++ [c]) ∧
      (pollByte buffer c s).stores = s.stores ++ [s.bytesRead] ∧
      (pollByte buffer c s).sent = s.sent ++ [c] := by
  have hlen := len.isLt
  have hcount := h.count
  rw [pollByte_other hc]
  refine ⟨⟨?_, ?_⟩, rfl, rfl⟩
  · rw [List.length_append, List.length_singleton]
    simp only
    bv_omega
  · have hindex : buffer + BitVec.ofNat 32 line.length = buffer + s.bytesRead := by
      bv_omega
    rw [List.length_append, List.length_singleton, bufferBytes_succ]
    rw [bufferBytes_store8 hcount.ge, h.bytes, hindex, byte_store8]

theorem Editing.erase (h : Editing buffer s line) (hroom : line.length < len.toNat)
    (hc : isBackspace c = true) (hline : line ≠ []) :
    Editing buffer (pollByte buffer c s) line.dropLast ∧
      (pollByte buffer c s).stores = s.stores ++ [s.bytesRead, s.bytesRead - 1] ∧
      (pollByte buffer c s).sent = s.sent ++ [c, 8, 32, 8] := by
  have hlen := len.isLt
  have hcount := h.count
  have hpos : 0 < line.length := List.length_pos_iff.mpr hline
  have hmore : s.bytesRead + 1 > 0 := by
    bv_omega
  rw [pollByte_backspace hc hmore]
  refine ⟨⟨?_, ?_⟩, rfl, rfl⟩
  · rw [List.length_dropLast]
    bv_omega
  · have hfront : bufferBytes s.mem buffer (line.length - 1) = line.dropLast := by
      have hbytes := h.bytes
      rw [← Nat.sub_add_cancel hpos, bufferBytes_succ] at hbytes
      exact List.dropLast_concat.symm.trans (congrArg List.dropLast hbytes)
    rw [List.length_dropLast, bufferBytes_store8 (by bv_omega), bufferBytes_store8 (by omega)]
    exact hfront

end Step

section Run

variable {buffer len index : U32} {c : U8} {s : Poll} {line received : List U8}

theorem serialPoll_full (hfull : ¬ s.bytesRead < len) :
    serialPoll buffer len received s = (.count s.bytesRead, s) := by
  cases received with
  | nil => rw [serialPoll, if_neg hfull]
  | cons c received => rw [serialPoll, if_neg hfull]

theorem serialPoll_waiting (hroom : s.bytesRead < len) :
    serialPoll buffer len [] s = (.waiting, s) := by
  rw [serialPoll, if_pos hroom]

theorem serialPoll_newline (hroom : s.bytesRead < len) (hc : isNewline c = true) :
    serialPoll buffer len (c :: received) s =
      (.count (pollByte buffer c s).bytesRead,
        ((pollByte buffer c s).store buffer (pollByte buffer c s).bytesRead 0).outb 10) := by
  simp only [serialPoll, if_pos hroom, hc, if_true, Poll.store]

theorem serialPoll_overflow (hroom : s.bytesRead < len) (hc : isNewline c = false)
    (hover : (pollByte buffer c s).bytesRead > len) :
    serialPoll buffer len (c :: received) s = (.overflow, pollByte buffer c s) := by
  simp only [serialPoll, if_pos hroom, hc, Bool.false_eq_true, if_false, if_pos hover]

theorem serialPoll_goes_on (hroom : s.bytesRead < len) (hc : isNewline c = false)
    (hfits : ¬ (pollByte buffer c s).bytesRead > len) :
    serialPoll buffer len (c :: received) s =
      serialPoll buffer len received (pollByte buffer c s) := by
  simp only [serialPoll, if_pos hroom, hc, Bool.false_eq_true, if_false, if_neg hfits]

theorem isNewline_of_isBackspace (hc : isBackspace c = true) : isNewline c = false := by
  simp only [isBackspace, isNewline, decide_eq_true_eq, decide_eq_false_iff_not] at *
  rcases hc with hc | hc
  · rw [hc]
    decide
  · rw [hc]
    decide

theorem ends_eq (c : U8) : ends isBackspace isNewline c = isNewline c := by
  rw [ends]
  cases hc : isBackspace c with
  | true => rw [isNewline_of_isBackspace hc]; rfl
  | false => rfl

theorem Editing.store (h : Editing buffer s line) (hn : line.length ≤ index.toNat) (c : U8) :
    Editing buffer (s.store buffer index c) line where
  count := h.count
  bytes := by
    rw [Poll.store, bufferBytes_store8 hn, h.bytes]

theorem Editing.press (h : Editing buffer s line) (hroom : line.length < len.toNat)
    (hback : isBackspace c = true → line ≠ []) :
    Editing buffer (pollByte buffer c s) (press isBackspace line c) := by
  cases hc : isBackspace c with
  | true =>
      rw [press_erase hc]
      exact (h.erase hroom hc (hback hc)).1
  | false =>
      rw [press_append hc]
      exact (h.append hroom hc).1

theorem Editing.fits (h : Editing buffer s line) (hlength : line.length ≤ len.toNat) :
    ¬ s.bytesRead > len := by
  rw [gt_iff_lt, BitVec.lt_def, h.count]
  exact not_lt.mpr hlength

def Erasable (line : List U8) (c : U8) : Prop := isBackspace c = true → line ≠ []

instance (line : List U8) (c : U8) : Decidable (Erasable line c) :=
  inferInstanceAs (Decidable (_ → _))

/-- By induction on the bytes: the buffer keeps up with the edited line. -/
theorem serialPoll_edits (h : Editing buffer s line) (hlength : line.length ≤ len.toNat)
    (hback : Throughout isBackspace isNewline len.toNat Erasable line received) :
    (serialPoll buffer len received s).1 =
        (if (edit isBackspace isNewline len.toNat line received).2 then
          .count (serialPoll buffer len received s).2.bytesRead else .waiting) ∧
      Editing buffer (serialPoll buffer len received s).2
        (edit isBackspace isNewline len.toNat line received).1 := by
  induction received generalizing s line with
  | nil =>
      by_cases hroom : line.length < len.toNat
      · rw [serialPoll_waiting (h.room.mpr hroom), edit_room hroom]
        exact ⟨rfl, h⟩
      · rw [serialPoll_full (mt h.room.mp hroom), edit_full (not_lt.mp hroom)]
        exact ⟨rfl, h⟩
  | cons c received ih =>
      by_cases hroom : line.length < len.toNat
      · rw [throughout_cons hroom] at hback
        have hpress := h.press hroom hback.1
        cases hc : isNewline c with
        | true =>
            rw [serialPoll_newline (h.room.mpr hroom) hc, edit_ends hroom (by rw [ends_eq, hc])]
            have hstore := hpress.store (le_of_eq hpress.count.symm) 0
            exact ⟨rfl, hstore.count, hstore.bytes⟩
        | false =>
            have hends : ends isBackspace isNewline c = false := by rw [ends_eq, hc]
            have hpressed : (press isBackspace line c).length ≤ len.toNat :=
              (press_length_le line c).trans hroom
            rw [serialPoll_goes_on (h.room.mpr hroom) hc (hpress.fits hpressed),
              edit_goes_on hroom hends]
            exact ih hpress hpressed (hback.2 hends)
      · rw [serialPoll_full (mt h.room.mp hroom), edit_full (not_lt.mp hroom)]
        exact ⟨rfl, h⟩

end Run

section Edits

variable {len : U32} {received : List U8}

/-- As long as no backspace comes to an empty line, `serial_poll` is the line editor: it
returns when the line is complete, with the line at the start of the buffer. -/
theorem poll_edits_line (buffer len : U32) (mem : Mem) (received : List U8)
    (hback : ∀ line c, Typed len received line c → Erasable line c) :
    (serialPoll buffer len received (Poll.start mem)).1 ≠ .overflow ∧
    ((editLine len received).2 = false →
      (serialPoll buffer len received (Poll.start mem)).1 = .waiting) ∧
    ((editLine len received).2 = true →
      ∃ n, (serialPoll buffer len received (Poll.start mem)).1 = .count n ∧
        n.toNat = (editLine len received).1.length ∧
        bufferBytes (serialPoll buffer len received (Poll.start mem)).2.mem buffer n.toNat =
          (editLine len received).1 ∧
        (n.toNat < 2 ^ 31 → (PollExit.count n).value = some (n.toNat : Int) ∧
          (PollExit.count n).value ≠ some bufferOverflow)) := by
  rcases serialPoll_edits (editing_start mem) (Nat.zero_le _) hback with ⟨hexit, hediting⟩
  rw [editLine] at *
  refine ⟨?_, ?_, ?_⟩
  · rw [hexit]
    split <;> exact PollExit.noConfusion
  · intro hwaiting
    rw [hexit, hwaiting]
    rfl
  · intro hstopped
    rw [hstopped] at hexit
    refine ⟨_, hexit, hediting.count, ?_, ?_⟩
    · rw [hediting.count, hediting.bytes]
    · intro hsmall
      rw [PollExit.value, BitVec.toInt_eq_toNat_of_lt (by omega)]
      refine ⟨rfl, fun heq => ?_⟩
      have hneg := Option.some.inj heq
      rw [bufferOverflow] at hneg
      omega

theorem poll_edits_line_four_keys :
    ∃ n, (serialPoll 0x8000 20 [65, 127, 66, 13] (Poll.start ⟨fun _ => 0⟩)).1 = .count n ∧
      n.toNat = 2 ∧ bufferBytes
        (serialPoll 0x8000 20 [65, 127, 66, 13] (Poll.start ⟨fun _ => 0⟩)).2.mem 0x8000 n.toNat =
          [66, 13] := by
  have hback : Throughout isBackspace isNewline 20 Erasable [] [65, 127, 66, 13] := by decide
  have hstopped : editLine 20 [65, 127, 66, 13] = ([66, 13], true) := by decide
  have h := (poll_edits_line 0x8000 20 ⟨fun _ => 0⟩ [65, 127, 66, 13] hback).2.2
  rw [hstopped] at h
  rcases h rfl with ⟨n, hexit, hcount, hbytes, -⟩
  exact ⟨n, hexit, hcount, hbytes⟩

end Edits

section Inside

variable {buffer len index : U32} {c : U8} {s : Poll} {line received : List U8}

/-- `serial_poll` writes its buffer within the length, and there is a NUL within the length
when it returns. A NUL that a caller stores at the returned count is within it too. -/
structure PollInside (buffer len : U32) (result : PollExit × Poll) : Prop where
  indices : ∀ i ∈ result.2.stores, i < len
  terminated : result.1 ≠ .waiting → ∃ i, i < len ∧ result.2.mem.byte (buffer + i) = 0
  caller : ∀ n, result.1.value = some n → BitVec.ofInt 32 n < len

/-- A backspace finds something to erase, and any other byte leaves room for a NUL. -/
def LeavesRoom (len : U32) (line : List U8) (c : U8) : Prop :=
  if isBackspace c = true then line ≠ [] else line.length + 1 < len.toNat

instance (len : U32) (line : List U8) (c : U8) : Decidable (LeavesRoom len line c) :=
  inferInstanceAs (Decidable (ite _ _ _))

theorem pollByte_stores (buffer : U32) (c : U8) (s : Poll) :
    s.stores <+: (pollByte buffer c s).stores := by
  cases hc : isBackspace c with
  | true =>
      by_cases hmore : s.bytesRead + 1 > 0
      · rw [pollByte_backspace hc hmore]
        exact List.prefix_append _ _
      · rw [pollByte_wrapped hc hmore]
        exact List.prefix_append _ _
  | false =>
      rw [pollByte_other hc]
      exact List.prefix_append _ _

theorem serialPoll_stores (received : List U8) (s : Poll) :
    s.stores <+: (serialPoll buffer len received s).2.stores := by
  induction received generalizing s with
  | nil =>
      rw [serialPoll]
      split <;> exact List.prefix_rfl
  | cons c received ih =>
      have hbyte := pollByte_stores buffer c s
      simp only [serialPoll]
      split
      · split
        · exact hbyte.trans (List.prefix_append _ _)
        · split
          · exact hbyte
          · exact hbyte.trans (ih _)
      · exact List.prefix_rfl

theorem LeavesRoom.erasable (h : LeavesRoom len line c) : Erasable line c := by
  intro hc
  rwa [LeavesRoom, if_pos hc] at h

theorem LeavesRoom.pressed (h : LeavesRoom len line c) (hroom : line.length < len.toNat) :
    (press isBackspace line c).length < len.toNat := by
  cases hc : isBackspace c with
  | true =>
      rw [press_erase hc, List.length_dropLast]
      omega
  | false =>
      rw [LeavesRoom, if_neg (by simp [hc])] at h
      rw [press_append hc, List.length_append]
      exact h

theorem LeavesRoom.indices (h : LeavesRoom len line c) (hediting : Editing buffer s line)
    (hroom : line.length < len.toNat) (hstores : ∀ i ∈ s.stores, i < len) :
    ∀ i ∈ (pollByte buffer c s).stores, i < len := by
  have hhere : s.bytesRead < len := hediting.room.mpr hroom
  intro i hi
  cases hc : isBackspace c with
  | true =>
      have hline := h.erasable hc
      have hpos : 0 < line.length := List.length_pos_iff.mpr hline
      have hcount := hediting.count
      have hbefore : s.bytesRead - 1 < len := by
        bv_omega
      rw [(hediting.erase hroom hc hline).2.1] at hi
      simp only [List.mem_append, List.mem_cons, List.not_mem_nil, or_false] at hi
      rcases hi with hold | hi | hi
      · exact hstores i hold
      · rwa [hi]
      · rwa [hi]
  | false =>
      rw [(hediting.append hroom hc).2.1] at hi
      rcases List.mem_append.mp hi with hold | hlast
      · exact hstores i hold
      · rwa [List.mem_singleton.mp hlast]

theorem pollInside_of_room (h : Editing buffer s line) (hlength : line.length < len.toNat)
    (hstores : ∀ i ∈ s.stores, i < len)
    (hroom : Throughout isBackspace isNewline len.toNat (LeavesRoom len) line received) :
    PollInside buffer len (serialPoll buffer len received s) := by
  induction received generalizing s line with
  | nil =>
      rw [serialPoll_waiting (h.room.mpr hlength)]
      exact ⟨hstores, fun hne => absurd rfl hne, fun n hn => by cases hn⟩
  | cons c received ih =>
      rw [throughout_cons hlength] at hroom
      have hpress := h.press hlength hroom.1.erasable
      have hindices := hroom.1.indices h hlength hstores
      have hpressed := hroom.1.pressed hlength
      cases hc : isNewline c with
      | true =>
          rw [serialPoll_newline (h.room.mpr hlength) hc]
          have hend : (pollByte buffer c s).bytesRead < len := hpress.room.mpr hpressed
          constructor
          · intro i hi
            rcases List.mem_append.mp hi with hold | hlast
            · exact hindices i hold
            · rwa [List.mem_singleton.mp hlast]
          · exact fun _ => ⟨_, hend, byte_store8 _ _ _⟩
          · intro n hn
            rw [← Option.some.inj hn, BitVec.ofInt_toInt]
            exact hend
      | false =>
          rw [serialPoll_goes_on (h.room.mpr hlength) hc (hpress.fits (le_of_lt hpressed))]
          exact ih hpress hpressed hindices (hroom.2 (by rw [ends_eq, hc]))

/-- A backspace at the start of the buffer is undone in front of it. -/
theorem pollByte_underflow (h : Editing buffer s []) (hc : isBackspace c = true) :
    0xFFFFFFFF ∈ (pollByte buffer c s).stores := by
  have hzero : s.bytesRead = 0 := BitVec.eq_of_toNat_eq h.count
  have hmore : s.bytesRead + 1 > 0 := by
    rw [hzero]
    decide
  rw [pollByte_backspace hc hmore, hzero]
  exact List.mem_append_right _ (List.mem_cons_of_mem _ List.mem_cons_self)

theorem erasable_of_pollInside (h : Editing buffer s line) (hlength : line.length < len.toNat)
    (hinside : PollInside buffer len (serialPoll buffer len (c :: received) s)) :
    Erasable line c := by
  intro hc hempty
  rw [hempty] at h hlength
  have hroom : s.bytesRead < len := h.room.mpr hlength
  have hnewline := isNewline_of_isBackspace hc
  have hindex : (0xFFFFFFFF : U32) ∈ (serialPoll buffer len (c :: received) s).2.stores := by
    by_cases hover : (pollByte buffer c s).bytesRead > len
    · rw [serialPoll_overflow hroom hnewline hover]
      exact pollByte_underflow h hc
    · rw [serialPoll_goes_on hroom hnewline hover]
      exact (serialPoll_stores received _).subset (pollByte_underflow h hc)
  have hbad := hinside.indices _ hindex
  bv_omega

theorem append_of_pollInside (h : Editing buffer s line) (hlength : line.length < len.toNat)
    (hc : isBackspace c = false)
    (hinside : PollInside buffer len (serialPoll buffer len (c :: received) s)) :
    (line ++ [c]).length < len.toNat := by
  have hroom : s.bytesRead < len := h.room.mpr hlength
  have hpress := (h.append hlength hc).1
  rw [← hpress.room]
  cases hnewline : isNewline c with
  | true =>
      rw [serialPoll_newline hroom hnewline] at hinside
      apply hinside.indices
      exact List.mem_append_right _ List.mem_cons_self
  | false =>
      have hlong : (line ++ [c]).length ≤ len.toNat := by
        rw [List.length_append]
        exact hlength
      rw [serialPoll_goes_on hroom hnewline (hpress.fits hlong)] at hinside
      by_contra hfull
      rw [serialPoll_full hfull] at hinside
      have hcaller := hinside.caller _ rfl
      rw [BitVec.ofInt_toInt] at hcaller
      exact hfull hcaller

theorem room_of_pollInside (h : Editing buffer s line) (hlength : line.length < len.toNat)
    (hinside : PollInside buffer len (serialPoll buffer len received s)) :
    Throughout isBackspace isNewline len.toNat (LeavesRoom len) line received := by
  induction received generalizing s line with
  | nil => exact throughout_nil
  | cons c received ih =>
      have hhere : LeavesRoom len line c := by
        cases hc : isBackspace c with
        | true =>
            rw [LeavesRoom, if_pos hc]
            exact erasable_of_pollInside h hlength hinside hc
        | false =>
            have hend := append_of_pollInside h hlength hc hinside
            rw [List.length_append] at hend
            rw [LeavesRoom, if_neg (by simp [hc])]
            exact hend
      rw [throughout_cons hlength]
      refine ⟨hhere, fun hends => ?_⟩
      rw [ends_eq] at hends
      have hpress := h.press hlength hhere.erasable
      have hpressed := hhere.pressed hlength
      have hroom : s.bytesRead < len := h.room.mpr hlength
      rw [serialPoll_goes_on hroom hends (hpress.fits (le_of_lt hpressed))] at hinside
      exact ih hpress hpressed hinside

/-- `serial_poll` stays inside its buffer exactly for the streams in which no backspace comes
to an empty line and no other byte takes the last place of the buffer. -/
theorem poll_inside_iff (buffer len : U32) (hlen : 1 ≤ len.toNat) (mem : Mem)
    (received : List U8) :
    PollInside buffer len (serialPoll buffer len received (Poll.start mem)) ↔
      ∀ line c, Typed len received line c → LeavesRoom len line c := by
  constructor
  · exact fun hinside => room_of_pollInside (editing_start mem) hlen hinside
  · intro hroom
    exact pollInside_of_room (editing_start mem) hlen (fun i hi => absurd hi List.not_mem_nil) hroom

theorem poll_inside_iff_two_keys :
    PollInside 0x8000 3 (serialPoll 0x8000 3 [65, 13] (Poll.start ⟨fun _ => 0⟩)) := by
  have hroom : Throughout isBackspace isNewline 3 (LeavesRoom 3) [] [65, 13] := by decide
  exact (poll_inside_iff 0x8000 3 (by decide) ⟨fun _ => 0⟩ [65, 13]).mpr hroom

/-- A backspace on an empty line, a return key as the last byte of the buffer of `set_date`,
and twelve bytes that fill it. -/
theorem poll_leaves_buffer :
    (¬ PollInside 0x8000 12 (serialPoll 0x8000 12 [8] (Poll.start ⟨fun _ => 1⟩)) ∧
      (serialPoll 0x8000 12 [8] (Poll.start ⟨fun _ => 1⟩)).2.stores = [0, 0xFFFFFFFF]) ∧
    (¬ PollInside 0x8000 12
        (serialPoll 0x8000 12 (List.replicate 11 65 ++ [13]) (Poll.start ⟨fun _ => 1⟩)) ∧
      12 ∈ (serialPoll 0x8000 12 (List.replicate 11 65 ++ [13]) (Poll.start ⟨fun _ => 1⟩)).2.stores) ∧
    ¬ PollInside 0x8000 12
        (serialPoll 0x8000 12 (List.replicate 12 65) (Poll.start ⟨fun _ => 1⟩)) ∧
      (serialPoll 0x8000 12 (List.replicate 12 65) (Poll.start ⟨fun _ => 1⟩)).1 = .count 12 ∧
      ∀ i < 12, (serialPoll 0x8000 12 (List.replicate 12 65) (Poll.start ⟨fun _ => 1⟩)).2.mem.byte
        (0x8000 + BitVec.ofNat 32 i) ≠ 0 := by
  have hindex : ∀ result : PollExit × Poll, ∀ i ∈ result.2.stores, ¬ i < 12 →
      ¬ PollInside 0x8000 12 result := fun _ i hi hout hinside => hout (hinside.indices i hi)
  refine ⟨⟨?_, by decide⟩, ⟨?_, by decide⟩, ?_, by decide, by decide⟩
  · exact hindex _ 0xFFFFFFFF (by decide) (by decide)
  · exact hindex _ 12 (by decide) (by decide)
  · intro hinside
    exact absurd (hinside.caller 12 (by decide)) (by decide)

end Inside

end Mpx
