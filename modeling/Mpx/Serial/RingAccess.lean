import Mpx.Serial.Read

/-! The accesses of `serial_read` to the ring buffer and to the requestor's buffer. -/

namespace Mpx

open Memory

variable {σ : Type}

/-- A character that is stored in the requestor's buffer or taken out of the ring is kept
with the access. -/
inductive RingAccess
  | ringRead (index : Nat)
  | bufStore (index : Nat) (c : U8)
  | ringClear (index : Nat) (c : U8)
  deriving DecidableEq, Repr

def readLoopTraced (buf len : U32) :
    Nat → Device σ → Nat → List RingAccess × Except Fault (Bool × Nat × Device σ)
  | 0, _, _ => ([], .error .diverges)
  | fuel + 1, d, count =>
      if count < len.toNat then
        match d.port.ringGet count with
        | .error e => ([.ringRead count], .error e)
        | .ok currentCharacter =>
            if currentCharacter ≠ 0 then
              match d.port.ringClear count with
              | .error e => ([.ringRead count, .ringClear count currentCharacter], .error e)
              | .ok port =>
                  if currentCharacter = 10 then
                    ([.ringRead count, .ringClear count currentCharacter],
                      .ok (true, count, { d with port := port }))
                  else
                    let mem := store8 d.mem (buf + BitVec.ofNat 32 count) currentCharacter
                    let rest := readLoopTraced buf len fuel { d with port := port, mem := mem }
                      (count + 1)
                    (.ringRead count :: .bufStore count currentCharacter ::
                      .ringClear count currentCharacter :: rest.1, rest.2)
            else ([.ringRead count], .ok (false, count, d))
      else ([], .ok (false, count, d))

def serialReadTraced (d : Device σ) (buf len : U32) :
    List RingAccess × Except Fault (Int × Device σ) :=
  if d.port.status = .inUse then ([], .ok (readPortNotOpen, d))
  else if buf = 0 then ([], .ok (readInvBufAddr, d))
  else if len = 0 then ([], .ok (readInvCountAddr, d))
  else if d.port.operation ≠ .idle then ([], .ok (readDevBusy, d))
  else
    let started := { d with port := { d.port with operation := .read, eventFlag := 0 } }
    let loop := readLoopTraced buf len readFuel started 0
    (loop.1, do
      let (newline, count, d) ← loop.2
      if newline ∨ ¬ count < len.toNat then
        return (0, { d with port := { d.port with operation := .idle, eventFlag := 1 } })
      else return (0, d))

theorem readLoopTraced_result (buf len : U32) (fuel : Nat) (d : Device σ) (count : Nat) :
    (readLoopTraced buf len fuel d count).2 = readLoop buf len fuel d count := by
  induction fuel generalizing d count with
  | zero => rfl
  | succ fuel ih =>
      rw [readLoopTraced, readLoop]
      by_cases hlen : count < len.toNat
      · rw [if_pos hlen, if_pos hlen]
        cases d.port.ringGet count with
        | error e => rfl
        | ok c =>
            simp only [bind, Except.bind]
            by_cases hnull : c ≠ 0
            · rw [if_pos hnull, if_pos hnull]
              cases d.port.ringClear count with
              | error e => rfl
              | ok port =>
                  by_cases hnewline : c = 10
                  · simp only [if_pos hnewline]
                    rfl
                  · simp only [if_neg hnewline]
                    exact ih _ _
            · rw [if_neg hnull, if_neg hnull]
              rfl
      · rw [if_neg hlen, if_neg hlen]
        rfl

/-- The trace is that of the function itself. -/
theorem serialReadTraced_result (d : Device σ) (buf len : U32) :
    (serialReadTraced d buf len).2 = serialRead d buf len := by
  rw [serialReadTraced, serialRead]
  split
  · rfl
  · split
    · rfl
    · split
      · rfl
      · split
        · rfl
        · simp only [readLoopTraced_result]

/-- The ring has indices 0 to 15, and the requestor's buffer those below the length. -/
def RingAccess.Inside (len : U32) : RingAccess → Prop
  | .ringRead index => index < 16
  | .bufStore index _ => index < len.toNat
  | .ringClear index _ => index < 16

def ReadInside (len : U32) (trace : List RingAccess) : Prop := ∀ a ∈ trace, a.Inside len

section Loop

variable {buf len : U32} {chars : List U8} {d : Device σ} {count fuel : Nat} {c : U8}

theorem readInside_nil : ReadInside len [] := fun _ ha => absurd ha List.not_mem_nil

theorem readInside_cons {a : RingAccess} {trace : List RingAccess} :
    ReadInside len (a :: trace) ↔ a.Inside len ∧ ReadInside len trace := List.forall_mem_cons

theorem readLoopTraced_done (hlen : ¬ count < len.toNat) :
    readLoopTraced buf len (fuel + 1) d count = ([], .ok (false, count, d)) := by
  rw [readLoopTraced, if_neg hlen]

theorem readLoopTraced_null (hlen : count < len.toNat) (hget : d.port.ringGet count = .ok 0) :
    readLoopTraced buf len (fuel + 1) d count = ([.ringRead count], .ok (false, count, d)) := by
  rw [readLoopTraced, if_pos hlen, hget]
  rfl

theorem readLoopTraced_newline {port : Dcb} (hlen : count < len.toNat)
    (hget : d.port.ringGet count = .ok 10) (hclear : d.port.ringClear count = .ok port) :
    readLoopTraced buf len (fuel + 1) d count = ([.ringRead count, .ringClear count 10],
      .ok (true, count, { d with port := port })) := by
  rw [readLoopTraced, if_pos hlen, hget, hclear]
  rfl

theorem readLoopTraced_copy {port : Dcb} (hlen : count < len.toNat)
    (hget : d.port.ringGet count = .ok c) (hclear : d.port.ringClear count = .ok port)
    (hnull : c ≠ 0) (hnewline : c ≠ 10) :
    readLoopTraced buf len (fuel + 1) d count =
      (.ringRead count :: .bufStore count c :: .ringClear count c ::
        (readLoopTraced buf len fuel { d with
          port := port
          mem := store8 d.mem (buf + BitVec.ofNat 32 count) c } (count + 1)).1,
        (readLoopTraced buf len fuel { d with
          port := port
          mem := store8 d.mem (buf + BitVec.ofNat 32 count) c } (count + 1)).2) := by
  rw [readLoopTraced, if_pos hlen, hget]
  simp only [if_pos hnull, hclear, if_neg hnewline]

theorem readLoopTraced_ringRead (hlen : count < len.toNat) :
    RingAccess.ringRead count ∈ (readLoopTraced buf len (fuel + 1) d count).1 := by
  rw [readLoopTraced, if_pos hlen]
  cases d.port.ringGet count with
  | error e => exact List.mem_cons_self
  | ok c =>
      by_cases hnull : c ≠ 0
      · simp only [if_pos hnull]
        cases d.port.ringClear count with
        | error e => exact List.mem_cons_self
        | ok port =>
            by_cases hnewline : c = 10
            · simp only [if_pos hnewline]
              exact List.mem_cons_self
            · simp only [if_neg hnewline]
              exact List.mem_cons_self
      · simp only [if_neg hnull]
        exact List.mem_cons_self

/-- The loop from index `count`, where the ring still holds `chars`: it stays inside where
the request ends with the ring, or something in the ring ends the loop. -/
theorem readLoopTraced_inside (hchars : d.port.ringBuffer.toList.drop count = chars)
    (hcount : count + chars.length = 16) (hfuel : chars.length < fuel) :
    ReadInside len (readLoopTraced buf len fuel d count).1 ↔
      len.toNat ≤ 16 ∨ 0 ∈ chars ∨ 10 ∈ chars := by
  induction chars generalizing d count fuel with
  | nil =>
      have hsixteen : count = 16 := by simpa using hcount
      cases fuel with
      | zero => exact absurd hfuel (Nat.not_lt_zero _)
      | succ fuel =>
          by_cases hlen : count < len.toNat
          · have hnot : ¬ ReadInside len (readLoopTraced buf len (fuel + 1) d count).1 := by
              intro hinside
              have hindex : count < 16 := hinside _ (readLoopTraced_ringRead hlen)
              omega
            exact iff_of_false hnot (by simp; omega)
          · rw [readLoopTraced_done hlen]
            exact iff_of_true readInside_nil (Or.inl (by omega))
  | cons c chars ih =>
      rw [List.length_cons] at hcount hfuel
      cases fuel with
      | zero => exact absurd hfuel (Nat.not_lt_zero _)
      | succ fuel =>
          by_cases hlen : count < len.toNat
          · have hget := ringGet_char hchars
            have hindex : count < 16 := by omega
            rcases ringClear_char hchars with ⟨ring, hclear, hrest⟩
            by_cases hnull : c = 0
            · rw [hnull] at hget ⊢
              rw [readLoopTraced_null hlen hget, readInside_cons]
              exact iff_of_true ⟨hindex, readInside_nil⟩ (Or.inr (Or.inl List.mem_cons_self))
            · by_cases hnewline : c = 10
              · rw [hnewline] at hget ⊢
                rw [readLoopTraced_newline hlen hget hclear, readInside_cons, readInside_cons]
                exact iff_of_true ⟨hindex, hindex, readInside_nil⟩
                  (Or.inr (Or.inr List.mem_cons_self))
              · rw [readLoopTraced_copy hlen hget hclear hnull hnewline]
                simp only [readInside_cons]
                rw [ih hrest (by omega) (by omega), List.mem_cons, List.mem_cons]
                constructor
                · rintro ⟨-, -, -, hends⟩
                  exact hends.imp_right (Or.imp Or.inr Or.inr)
                · intro hends
                  refine ⟨hindex, hlen, hindex, hends.imp_right (Or.imp ?_ ?_)⟩
                  · exact fun h => h.resolve_left (Ne.symm hnull)
                  · exact fun h => h.resolve_left (Ne.symm hnewline)
          · rw [readLoopTraced_done hlen]
            exact iff_of_true readInside_nil (Or.inl (by omega))

end Loop

/-- `serial_read` stays inside the ring and the requestor's buffer exactly where it refuses
the request, the request asks for at most 16 characters, or the ring holds a NUL or a
new-line. -/
theorem read_inside_iff (d : Device σ) (buf len : U32) :
    ReadInside len (serialReadTraced d buf len).1 ↔
      d.port.status = .inUse ∨ buf = 0 ∨ d.port.operation ≠ .idle ∨ len.toNat ≤ 16 ∨
        0 ∈ d.port.ringBuffer.toList ∨ 10 ∈ d.port.ringBuffer.toList := by
  rw [serialReadTraced]
  by_cases hstatus : d.port.status = .inUse
  · rw [if_pos hstatus]
    exact iff_of_true readInside_nil (Or.inl hstatus)
  · by_cases hbuf : buf = 0
    · rw [if_neg hstatus, if_pos hbuf]
      exact iff_of_true readInside_nil (Or.inr (Or.inl hbuf))
    · by_cases hlen : len = 0
      · rw [if_neg hstatus, if_neg hbuf, if_pos hlen]
        exact iff_of_true readInside_nil (by simp [hlen])
      · by_cases hidle : d.port.operation ≠ .idle
        · rw [if_neg hstatus, if_neg hbuf, if_neg hlen, if_pos hidle]
          exact iff_of_true readInside_nil (Or.inr (Or.inr (Or.inl hidle)))
        · rw [if_neg hstatus, if_neg hbuf, if_neg hlen, if_neg hidle]
          simp only [hstatus, hbuf, hidle, false_or]
          exact readLoopTraced_inside rfl (by simp) (by simp [readFuel])

/-- Sixteen letters in the ring and a request for seventeen characters. -/
theorem read_leaves_ring :
    RingAccess.ringRead 16 ∈ (serialReadTraced (Device.opened (Vector.replicate 16 65)
        ⟨fun _ => 0⟩ ()) 0x8000 17).1 ∧
      ¬ ReadInside 17 (serialReadTraced (Device.opened (Vector.replicate 16 65)
        ⟨fun _ => 0⟩ ()) 0x8000 17).1 := by
  have hread : RingAccess.ringRead 16 ∈ (serialReadTraced (Device.opened (Vector.replicate 16 65)
      ⟨fun _ => 0⟩ ()) 0x8000 17).1 := by
    decide
  exact ⟨hread, fun hinside => Nat.lt_irrefl 16 (hinside _ hread)⟩

end Mpx
