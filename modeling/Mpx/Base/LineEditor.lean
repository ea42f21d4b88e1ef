import Mathlib.Tactic

/-! A line editor over any alphabet, and a terminal of one line that shows what is edited. -/

namespace Mpx.LineEditor

section Editor

variable {α : Type*} (erases stops : α → Bool) (limit : Nat)

def press (line : List α) (c : α) : List α :=
  if erases c then line.dropLast else line ++ [c]

def ends (c : α) : Bool := !erases c && stops c

/-- The edited line, and whether the editor has stopped: at a character that ends the line,
or when the line has `limit` characters. -/
def edit : List α → List α → List α × Bool
  | line, [] => (line, decide (limit ≤ line.length))
  | line, c :: stream =>
      if limit ≤ line.length then (line, true)
      else if ends erases stops c then (press erases line c, true)
      else edit (press erases line c) stream

def Arrives (line stream l : List α) (c : α) : Prop :=
  ∃ front, front ++ [c] <+: stream ∧ edit erases stops limit line front = (l, false)

def Throughout (P : List α → α → Prop) (line stream : List α) : Prop :=
  ∀ l c, Arrives erases stops limit line stream l c → P l c

end Editor

section Arrival

variable {α : Type*} {erases stops : α → Bool} {limit : Nat} {line stream l : List α} {c d : α}

theorem press_erase (hc : erases c = true) : press erases line c = line.dropLast := if_pos hc

theorem press_append (hc : erases c = false) : press erases line c = line ++ [c] :=
  if_neg (by simp [hc])

theorem press_length_le (line : List α) (c : α) :
    (press erases line c).length ≤ line.length + 1 := by
  cases hc : erases c with
  | true =>
      calc (press erases line c).length = line.dropLast.length := by rw [press_erase hc]
        _ ≤ line.length := by rw [List.length_dropLast]; exact Nat.sub_le _ _
        _ ≤ line.length + 1 := Nat.le_succ _
  | false =>
      rw [press_append hc, List.length_append]
      rfl

theorem edit_room (hroom : line.length < limit) :
    edit erases stops limit line [] = (line, false) := by
  rw [edit, decide_eq_false (not_le.mpr hroom)]

theorem edit_full (hfull : limit ≤ line.length) :
    edit erases stops limit line stream = (line, true) := by
  cases stream with
  | nil => rw [edit, decide_eq_true hfull]
  | cons c stream => rw [edit, if_pos hfull]

theorem edit_ends (hroom : line.length < limit) (hc : ends erases stops c = true) :
    edit erases stops limit line (c :: stream) = (press erases line c, true) := by
  rw [edit, if_neg (not_le.mpr hroom), if_pos hc]

theorem edit_goes_on (hroom : line.length < limit) (hc : ends erases stops c = false) :
    edit erases stops limit line (c :: stream) =
      edit erases stops limit (press erases line c) stream := by
  rw [edit, if_neg (not_le.mpr hroom), if_neg (by simp [hc])]

theorem not_arrives_nil : ¬ Arrives erases stops limit line [] l c := by
  intro h
  rcases h with ⟨front, hfront, -⟩
  have hlength := hfront.length_le
  simp at hlength

theorem not_arrives_full (hfull : limit ≤ line.length) :
    ¬ Arrives erases stops limit line stream l c := by
  intro h
  rcases h with ⟨front, -, hedit⟩
  rw [edit_full hfull] at hedit
  cases hedit

theorem arrives_first (hroom : line.length < limit) :
    Arrives erases stops limit line (c :: stream) line c :=
  ⟨[], ⟨stream, rfl⟩, edit_room hroom⟩

theorem arrives_later (hroom : line.length < limit) (hc : ends erases stops c = false)
    (h : Arrives erases stops limit (press erases line c) stream l d) :
    Arrives erases stops limit line (c :: stream) l d := by
  rcases h with ⟨front, hfront, hedit⟩
  refine ⟨c :: front, List.cons_prefix_cons.mpr ⟨rfl, hfront⟩, ?_⟩
  rw [edit_goes_on hroom hc, hedit]

theorem Arrives.of_longer {longer : List α} (h : Arrives erases stops limit line stream l c)
    (hlonger : stream <+: longer) : Arrives erases stops limit line longer l c := by
  rcases h with ⟨front, hfront, hedit⟩
  exact ⟨front, hfront.trans hlonger, hedit⟩

theorem arrives_cons (h : Arrives erases stops limit line (c :: stream) l d) :
    line.length < limit ∧ ((l = line ∧ d = c) ∨ (ends erases stops c = false ∧
      Arrives erases stops limit (press erases line c) stream l d)) := by
  have hroom : line.length < limit := by
    by_contra hfull
    exact not_arrives_full (not_lt.mp hfull) h
  rcases h with ⟨front, hfront, hedit⟩
  refine ⟨hroom, ?_⟩
  cases front with
  | nil =>
      rw [edit_room hroom] at hedit
      cases hedit
      exact Or.inl ⟨rfl, (List.cons_prefix_cons.mp hfront).1⟩
  | cons e front =>
      have hsplit := List.cons_prefix_cons.mp hfront
      rw [hsplit.1] at hedit
      cases hends : ends erases stops c with
      | true =>
          rw [edit_ends hroom hends] at hedit
          cases hedit
      | false =>
          rw [edit_goes_on hroom hends] at hedit
          exact Or.inr ⟨rfl, front, hsplit.2, hedit⟩

theorem throughout_nil {P : List α → α → Prop} : Throughout erases stops limit P line [] :=
  fun _ _ h => absurd h not_arrives_nil

theorem throughout_full {P : List α → α → Prop} (hfull : limit ≤ line.length) :
    Throughout erases stops limit P line stream :=
  fun _ _ h => absurd h (not_arrives_full hfull)

theorem throughout_cons {P : List α → α → Prop} (hroom : line.length < limit) :
    Throughout erases stops limit P line (c :: stream) ↔
      P line c ∧ (ends erases stops c = false →
        Throughout erases stops limit P (press erases line c) stream) := by
  constructor
  · intro h
    exact ⟨h line c (arrives_first hroom), fun hc l d hd => h l d (arrives_later hroom hc hd)⟩
  · intro h l d hd
    rcases (arrives_cons hd).2 with ⟨hl, hdc⟩ | ⟨hc, hlater⟩
    · rw [hl, hdc]
      exact h.1
    · exact h.2 hc l d hlater

instance Throughout.decidable (P : List α → α → Prop) [∀ l c, Decidable (P l c)] :
    ∀ line stream, Decidable (Throughout erases stops limit P line stream)
  | _, [] => isTrue throughout_nil
  | line, c :: stream =>
      if hroom : line.length < limit then
        have := Throughout.decidable P (press erases line c) stream
        decidable_of_iff _ (throughout_cons hroom).symm
      else isTrue (throughout_full (not_lt.mp hroom))

end Arrival

structure Terminal (α : Type*) where
  cells : Nat → α
  cursor : Nat

namespace Terminal

variable {α : Type*}

def blankLine (blank : α) : Terminal α := ⟨fun _ => blank, 0⟩

def left (t : Terminal α) : Terminal α := { t with cursor := t.cursor - 1 }

def draw (t : Terminal α) (c : α) : Terminal α :=
  ⟨Function.update t.cells t.cursor c, t.cursor + 1⟩

def rubOut (blank : α) (t : Terminal α) : Terminal α := (t.left.draw blank).left

structure Shows (blank : α) (text : List α) (t : Terminal α) : Prop where
  cursor : t.cursor = text.length
  cells : ∀ i, t.cells i = text[i]?.getD blank

variable {blank : α} {text : List α} {t : Terminal α}

@[simp] theorem cursor_draw (c : α) : (t.draw c).cursor = t.cursor + 1 := rfl

@[simp] theorem cells_draw (c : α) : (t.draw c).cells = Function.update t.cells t.cursor c := rfl

@[simp] theorem cursor_rubOut : (t.rubOut blank).cursor = t.cursor - 1 := rfl

@[simp] theorem cells_rubOut :
    (t.rubOut blank).cells = Function.update t.cells (t.cursor - 1) blank := rfl

theorem shows_blankLine : Shows blank [] (blankLine blank) := ⟨rfl, fun _ => rfl⟩

theorem Shows.draw (h : Shows blank text t) (c : α) : Shows blank (text ++ [c]) (t.draw c) where
  cursor := by
    rw [cursor_draw, h.cursor, List.length_append]
    rfl
  cells := by
    intro i
    rw [cells_draw, h.cursor]
    by_cases hi : i = text.length
    · rw [hi, Function.update_self, List.getElem?_concat_length]
      rfl
    · have hsame : (text ++ [c])[i]? = text[i]? := by
        grind
      rw [Function.update_of_ne hi, h.cells, hsame]

theorem Shows.rubOut (h : Shows blank text t) (htext : text ≠ []) :
    Shows blank text.dropLast (t.rubOut blank) where
  cursor := by
    rw [cursor_rubOut, h.cursor, List.length_dropLast]
  cells := by
    intro i
    have hlength : 0 < text.length := List.length_pos_iff.mpr htext
    rw [cells_rubOut, h.cursor, List.getElem?_dropLast]
    by_cases hi : i = text.length - 1
    · rw [hi, Function.update_self, if_neg (lt_irrefl _)]
      rfl
    · rw [Function.update_of_ne hi, h.cells]
      by_cases hlast : i < text.length - 1
      · rw [if_pos hlast]
      · rw [if_neg hlast, List.getElem?_eq_none (by omega)]

end Terminal

end Mpx.LineEditor
