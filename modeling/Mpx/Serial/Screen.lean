import Mpx.Serial.Poll

/-! The screen of the terminal behind COM1 while `serial_poll` echoes the line. -/

namespace Mpx

open Memory LineEditor

def isPrintable (c : U8) : Bool := 32 ≤ c ∧ c ≤ 126

namespace LineEditor.Terminal

variable {c : U8} {line : List U8} {t : Terminal U8}

/-- What the terminal does with a byte: 8 moves the cursor, 127 does nothing. -/
def receive (t : Terminal U8) (c : U8) : Terminal U8 :=
  if c = 8 then t.left else if isPrintable c then t.draw c else t

theorem receive_printable (hc : isPrintable c = true) : t.receive c = t.draw c := by
  have hback : c ≠ 8 := by
    intro heq
    rw [heq] at hc
    exact absurd hc (by decide)
  rw [receive, if_neg hback, if_pos hc]

theorem receive_delete (t : Terminal U8) : t.receive 127 = t := rfl

theorem cursor_left (t : Terminal U8) : t.left.cursor = t.cursor - 1 := rfl

theorem cells_left (t : Terminal U8) : t.left.cells = t.cells := rfl

theorem rubOut_eq (t : Terminal U8) :
    t.rubOut 32 = ⟨Function.update t.cells (t.cursor - 1) 32, t.cursor - 1⟩ := rfl

theorem receive_left (t : Terminal U8) : t.receive 8 = t.left := rfl

theorem receive_rubOut (t : Terminal U8) : [(8 : U8), 32, 8].foldl receive t = t.rubOut 32 := rfl

/-- Behind one byte the cursor cannot be moved too far. -/
theorem Shows.rubOut_left (h : Shows 32 line t) (hline : line ≠ []) (hshort : line.length < 2) :
    Shows 32 line.dropLast (t.left.rubOut 32) := by
  have hone : t.cursor = 1 := by
    have hlength : 0 < line.length := List.length_pos_iff.mpr hline
    rw [h.cursor]
    omega
  have hsame : t.left.rubOut 32 = t.rubOut 32 := by
    simp only [rubOut_eq, cursor_left, cells_left, hone]
  rw [hsame]
  exact h.rubOut hline

/-- Behind more bytes it is one column too far to the left. -/
theorem Shows.not_rubOut_left (h : Shows 32 line t) (hlong : ¬ line.length < 2) :
    ¬ Shows 32 line.dropLast (t.left.rubOut 32) := by
  intro hshows
  have hcursor : t.cursor - 1 - 1 = line.dropLast.length := hshows.cursor
  rw [h.cursor, List.length_dropLast] at hcursor
  omega

end LineEditor.Terminal

open LineEditor.Terminal

def screen (sent : List U8) : Terminal U8 := sent.foldl receive (blankLine 32)

def ScreenShows (buffer len : U32) (mem : Mem) (received : List U8) : Prop :=
  Shows 32 (editLine len received).1
    (screen (serialPoll buffer len received (Poll.start mem)).2.sent)

/-- Key 8 comes to a line of at most one byte. -/
def LastByteOnly (line : List U8) (c : U8) : Prop := c = 8 → line.length < 2

instance (line : List U8) (c : U8) : Decidable (LastByteOnly line c) :=
  inferInstanceAs (Decidable (_ → _))

section Keys

variable {buffer len : U32} {c : U8} {s : Poll} {line received : List U8}

theorem screen_append (sent echo : List U8) :
    screen (sent ++ echo) = echo.foldl receive (screen sent) := List.foldl_append

theorem isNewline_of_isPrintable (hc : isPrintable c = true) : isNewline c = false := by
  simp only [isPrintable, isNewline, decide_eq_true_eq, decide_eq_false_iff_not] at *
  bv_omega

theorem isNewline_of_key (hc : isPrintable c = true ∨ isBackspace c = true) :
    isNewline c = false := by
  cases hc with
  | inl hprintable => exact isNewline_of_isPrintable hprintable
  | inr hback => exact isNewline_of_isBackspace hback

theorem screen_press (h : Editing buffer s line) (hroom : line.length < len.toNat)
    (hshows : Shows 32 line (screen s.sent)) (hkey : isPrintable c = true ∨ isBackspace c = true)
    (hback : Erasable line c) :
    Shows 32 (press isBackspace line c) (screen (pollByte buffer c s).sent) ↔
      LastByteOnly line c := by
  cases hc : isBackspace c with
  | true =>
      have hline := hback hc
      rw [(h.erase hroom hc hline).2.2, press_erase hc, screen_append, List.foldl_cons,
        receive_rubOut]
      by_cases hleft : c = 8
      · rw [hleft, receive_left]
        constructor
        · intro hafter _
          by_contra hlong
          exact hshows.not_rubOut_left hlong hafter
        · exact fun hshort => hshows.rubOut_left hline (hshort rfl)
      · have hdelete : c = 127 := by
          rw [isBackspace, decide_eq_true_eq] at hc
          exact hc.resolve_left hleft
        rw [hdelete, receive_delete]
        exact iff_of_true (hshows.rubOut hline) (fun hne => absurd hne (by decide))
  | false =>
      have hprintable : isPrintable c = true := hkey.resolve_right (by simp [hc])
      have hleft : c ≠ 8 := by
        intro heq
        rw [heq] at hc
        exact absurd hc (by decide)
      rw [(h.append hroom hc).2.2, press_append hc, screen_append, List.foldl_cons, List.foldl_nil,
        receive_printable hprintable]
      exact iff_of_true (hshows.draw c) (fun heq => absurd heq hleft)

end Keys

section Streams

variable {buffer len : U32} {c : U8} {s : Poll} {line received : List U8}

theorem serialPoll_key (h : Editing buffer s line) (hroom : line.length < len.toNat)
    (hkey : isPrintable c = true ∨ isBackspace c = true) (hback : Erasable line c) :
    serialPoll buffer len (c :: received) s =
      serialPoll buffer len received (pollByte buffer c s) := by
  have hpress := h.press hroom hback
  exact serialPoll_goes_on (h.room.mpr hroom) (isNewline_of_key hkey)
    (hpress.fits ((press_length_le line c).trans hroom))

/-- By induction on the keys: as long as key 8 only comes to short lines, the screen keeps up
with the line. -/
theorem screen_edits (h : Editing buffer s line) (hshows : Shows 32 line (screen s.sent))
    (hshort : line.length + received.length < len.toNat)
    (hkeys : ∀ c ∈ received, isPrintable c = true ∨ isBackspace c = true)
    (hback : Throughout isBackspace isNewline len.toNat Erasable line received)
    (hlast : Throughout isBackspace isNewline len.toNat LastByteOnly line received) :
    Shows 32 (edit isBackspace isNewline len.toNat line received).1
      (screen (serialPoll buffer len received s).2.sent) := by
  induction received generalizing s line with
  | nil =>
      rw [serialPoll_waiting (h.room.mpr hshort), edit]
      exact hshows
  | cons c received ih =>
      rw [List.length_cons] at hshort
      have hroom : line.length < len.toNat := by omega
      have hkey := hkeys c List.mem_cons_self
      have hends : ends isBackspace isNewline c = false := by
        rw [ends_eq, isNewline_of_key hkey]
      rw [throughout_cons hroom] at hback hlast
      have hpressed : (press isBackspace line c).length ≤ line.length + 1 := press_length_le line c
      rw [serialPoll_key h hroom hkey hback.1, edit_goes_on hroom hends]
      exact ih (h.press hroom hback.1)
        ((screen_press h hroom hshows hkey hback.1).mpr hlast.1) (by omega)
        (fun d hd => hkeys d (List.mem_cons_of_mem _ hd)) (hback.2 hends) (hlast.2 hends)

/-- The other direction, from the screen after each of the keys. -/
theorem lastByteOnly_of_shows (h : Editing buffer s line) (hshows : Shows 32 line (screen s.sent))
    (hshort : line.length + received.length < len.toNat)
    (hkeys : ∀ c ∈ received, isPrintable c = true ∨ isBackspace c = true)
    (hback : Throughout isBackspace isNewline len.toNat Erasable line received)
    (hall : ∀ front, front <+: received →
      Shows 32 (edit isBackspace isNewline len.toNat line front).1
        (screen (serialPoll buffer len front s).2.sent)) :
    Throughout isBackspace isNewline len.toNat LastByteOnly line received := by
  induction received generalizing s line with
  | nil => exact throughout_nil
  | cons c received ih =>
      rw [List.length_cons] at hshort
      have hroom : line.length < len.toNat := by omega
      have hkey := hkeys c List.mem_cons_self
      have hends : ends isBackspace isNewline c = false := by
        rw [ends_eq, isNewline_of_key hkey]
      have hpressed : (press isBackspace line c).length ≤ line.length + 1 := press_length_le line c
      rw [throughout_cons hroom] at hback ⊢
      have hpress := h.press hroom hback.1
      have hlater : ∀ front, front <+: received →
          Shows 32 (edit isBackspace isNewline len.toNat (press isBackspace line c) front).1
            (screen (serialPoll buffer len front (pollByte buffer c s)).2.sent) := by
        intro front hfront
        have hcons := hall (c :: front) (List.cons_prefix_cons.mpr ⟨rfl, hfront⟩)
        rwa [serialPoll_key h hroom hkey hback.1, edit_goes_on hroom hends] at hcons
      have hfirst : Shows 32 (press isBackspace line c) (screen (pollByte buffer c s).sent) := by
        have hnil := hlater [] List.nil_prefix
        rwa [serialPoll_waiting (hpress.room.mpr (by omega))] at hnil
      refine ⟨(screen_press h hroom hshows hkey hback.1).mp hfirst, fun _ => ?_⟩
      exact ih hpress hfirst (by omega) (fun d hd => hkeys d (List.mem_cons_of_mem _ hd))
        (hback.2 hends) hlater

/-- The screen shows the line after each key of a stream exactly when key 8 never comes to a
line of two bytes or more: its echo has already moved the cursor. -/
theorem screen_shows_iff (buffer len : U32) (mem : Mem) (received : List U8)
    (hkeys : ∀ c ∈ received, isPrintable c = true ∨ isBackspace c = true)
    (hshort : received.length < len.toNat)
    (hback : ∀ line c, Typed len received line c → Erasable line c) :
    (∀ front, front <+: received → ScreenShows buffer len mem front) ↔
      ∀ line c, Typed len received line c → LastByteOnly line c := by
  have hstart : ([] : List U8).length + received.length < len.toNat := by
    rw [List.length_nil]
    omega
  constructor
  · intro hall
    exact lastByteOnly_of_shows (editing_start mem) shows_blankLine hstart hkeys hback hall
  · intro hlast front hfront
    have hlength := hfront.length_le
    have hkeys' : ∀ c ∈ front, isPrintable c = true ∨ isBackspace c = true :=
      fun c hc => hkeys c (hfront.subset hc)
    exact screen_edits (editing_start mem) shows_blankLine (by simp; omega) hkeys'
      (fun l c hc => hback l c (hc.of_longer hfront)) (fun l c hc => hlast l c (hc.of_longer hfront))

theorem screen_shows_iff_six_keys :
    ScreenShows 0x8000 20 ⟨fun _ => 0⟩ [65, 66, 127, 127, 67, 8] := by
  have hback : Throughout isBackspace isNewline 20 Erasable [] [65, 66, 127, 127, 67, 8] := by
    decide
  have hlast : Throughout isBackspace isNewline 20 LastByteOnly [] [65, 66, 127, 127, 67, 8] := by
    decide
  exact (screen_shows_iff 0x8000 20 ⟨fun _ => 0⟩ [65, 66, 127, 127, 67, 8] (by decide) (by decide)
    hback).mpr hlast _ List.prefix_rfl

/-- `A`, `B` and key 8: the cursor ends on the `A` that is still in the line. -/
theorem screen_behind_line :
    (editLine 20 [65, 66, 8]).1 = [65] ∧
      (screen (serialPoll 0x8000 20 [65, 66, 8] (Poll.start ⟨fun _ => 0⟩)).2.sent).cursor = 0 ∧
      (screen (serialPoll 0x8000 20 [65, 66, 8] (Poll.start ⟨fun _ => 0⟩)).2.sent).cells 0 = 32 ∧
      ¬ ScreenShows 0x8000 20 ⟨fun _ => 0⟩ [65, 66, 8] := by
  refine ⟨by decide, by decide, by decide, fun hshows => ?_⟩
  exact absurd hshows.cursor (by decide)

end Streams

end Mpx
