import Mpx.Serial.Model

/-! `serial_read` on the text that the ring buffer holds. -/

namespace Mpx

open Memory

variable {σ : Type}

/-- What `serial_open` establishes and the driver keeps: the port is available, and no
read runs on into the fields behind the ring. -/
structure OpenPort (d : Device σ) : Prop where
  status : d.port.status = .available
  initialized : d.initialized = true
  currDev : d.port.currDev = COM1
  ringHead : d.port.ringHead = 0

theorem OpenPort.congr {d d' : Device σ} (h : OpenPort d) (hstatus : d'.port.status = d.port.status)
    (hinitialized : d'.initialized = d.initialized) (hcurrDev : d'.port.currDev = d.port.currDev)
    (hringHead : d'.port.ringHead = d.port.ringHead) : OpenPort d' where
  status := hstatus.trans h.status
  initialized := hinitialized.trans h.initialized
  currDev := hcurrDev.trans h.currDev
  ringHead := hringHead.trans h.ringHead

theorem OpenPort.available {d : Device σ} (h : OpenPort d) : d.port.status ≠ .inUse := by
  rw [h.status]
  decide

def ringText (chars : List U8) : List U8 := chars.takeWhile fun c => c ≠ 0

theorem ringText_null (chars : List U8) : ringText (0 :: chars) = [] :=
  List.takeWhile_cons_of_neg (by simp)

theorem ringText_cons {c : U8} (hc : c ≠ 0) (chars : List U8) :
    ringText (c :: chars) = c :: ringText chars :=
  List.takeWhile_cons_of_pos (by simpa using hc)

/-- A read of `len` characters needs no more input than there is. -/
def ReadSatisfied (ring : Vector U8 16) (len : U32) : Prop :=
  0 < len.toNat ∧
    (10 ∈ (ringText ring.toList).take len.toNat ∨ len.toNat ≤ (ringText ring.toList).length)

instance (ring : Vector U8 16) (len : U32) : Decidable (ReadSatisfied ring len) :=
  inferInstanceAs (Decidable (_ ∧ _))

namespace Device

def withRing (d : Device σ) (ring : Vector U8 16) (mem : Mem) : Device σ :=
  { d with port := { d.port with ringBuffer := ring }, mem := mem }

end Device

theorem ringGet_char {p : Dcb} {index : Nat} {c : U8} {chars : List U8}
    (hchars : p.ringBuffer.toList.drop index = c :: chars) : p.ringGet index = .ok c := by
  have hindex : index < 16 := by
    have hlength := congrArg List.length hchars
    simp only [List.length_drop, Vector.length_toList, List.length_cons] at hlength
    omega
  rw [List.drop_eq_getElem_cons (by simpa using hindex)] at hchars
  have hget : p.ringBuffer[index] = c := by
    simpa using (List.cons.inj hchars).1
  rw [Dcb.ringGet, dif_pos hindex, hget]

theorem ringGet_end {p : Dcb} (h : p.ringHead = 0) : p.ringGet 16 = .ok 0 := by
  rw [Dcb.ringGet, dif_neg (by decide), if_pos (by decide), h]
  rfl

theorem ringClear_char {p : Dcb} {index : Nat} {c : U8} {chars : List U8}
    (hchars : p.ringBuffer.toList.drop index = c :: chars) :
    ∃ ring : Vector U8 16, p.ringClear index = .ok { p with ringBuffer := ring } ∧
      ring.toList.drop (index + 1) = chars := by
  have hindex : index < 16 := by
    have hlength := congrArg List.length hchars
    simp only [List.length_drop, Vector.length_toList, List.length_cons] at hlength
    omega
  refine ⟨p.ringBuffer.set index 0, by rw [Dcb.ringClear, dif_pos hindex], ?_⟩
  rw [List.drop_eq_getElem_cons (by simpa using hindex)] at hchars
  rw [Vector.toList_set, List.drop_set_of_lt (Nat.lt_succ_self index)]
  exact (List.cons.inj hchars).2

theorem readLoop_spec {buf len : U32} {chars : List U8} {d : Device σ} {count fuel : Nat}
    (hhead : d.port.ringHead = 0) (hchars : d.port.ringBuffer.toList.drop count = chars)
    (hcount : count + chars.length = 16) (hfuel : chars.length < fuel) :
    ∃ nl count' ring mem, readLoop buf len fuel d count = .ok (nl, count', d.withRing ring mem) ∧
      (nl = true ↔ 10 ∈ (ringText chars).take (len.toNat - count)) ∧
      (nl = false → (count' < len.toNat ↔ count + (ringText chars).length < len.toNat)) := by
  induction chars generalizing d count fuel with
  | nil =>
      obtain ⟨fuel, rfl⟩ := Nat.exists_eq_succ_of_ne_zero (Nat.ne_of_gt hfuel)
      have hsixteen : count = 16 := by simpa using hcount
      refine ⟨false, count, d.port.ringBuffer, d.mem, ?_, by simp [ringText], by simp [ringText]⟩
      by_cases hlen : count < len.toNat
      · rw [readLoop, if_pos hlen, hsixteen, ringGet_end hhead]
        rfl
      · rw [readLoop, if_neg hlen]
        rfl
  | cons c chars ih =>
      obtain ⟨fuel, rfl⟩ := Nat.exists_eq_succ_of_ne_zero (Nat.ne_zero_of_lt hfuel)
      by_cases hlen : count < len.toNat
      · obtain ⟨ring, hclear, hrest⟩ := ringClear_char hchars
        have hroom : len.toNat - count = (len.toNat - (count + 1)) + 1 := by omega
        rw [readLoop, if_pos hlen, ringGet_char hchars]
        by_cases hnull : c = 0
        · subst hnull
          refine ⟨false, count, d.port.ringBuffer, d.mem, rfl, ?_, ?_⟩
          · rw [ringText_null]
            simp
          · rw [ringText_null]
            simp
        · have htext := ringText_cons hnull chars
          by_cases hnewline : c = 10
          · refine ⟨true, count, ring, d.mem, ?_, ?_, by simp⟩
            · simp only [bind, Except.bind, ne_eq, if_true, hclear, hnewline]
              rfl
            · rw [htext, hroom, List.take_succ_cons, hnewline]
              simp
          · obtain ⟨nl, count', ring', mem', hrun, hnl, hmore⟩ :=
              @ih { d with
                  port := { d.port with ringBuffer := ring }
                  mem := store8 d.mem (buf + BitVec.ofNat 32 count) c } (count + 1) fuel
                hhead hrest (by simp only [List.length_cons] at hcount; omega)
                (Nat.lt_of_succ_lt_succ hfuel)
            refine ⟨nl, count', ring', mem', ?_, ?_, ?_⟩
            · simp only [bind, Except.bind, ne_eq, hnull, not_false_eq_true, if_true, hclear,
                hnewline, if_false]
              exact hrun
            · rw [hnl, htext, hroom, List.take_succ_cons, List.mem_cons]
              exact ⟨Or.inr, fun h => h.resolve_left (Ne.symm hnewline)⟩
            · intro hfalse
              rw [hmore hfalse, htext, List.length_cons]
              omega
      · refine ⟨false, count, d.port.ringBuffer, d.mem, by rw [readLoop, if_neg hlen]; rfl, ?_, ?_⟩
        · rw [Nat.sub_eq_zero_of_le (not_lt.mp hlen)]
          simp
        · intro _
          omega

/-- A read on an idle port completes at once where the ring satisfies it, and leaves
the port reading elsewhere. -/
theorem serialRead_spec {d : Device σ} {buf len : U32} (hopen : OpenPort d)
    (hidle : d.port.operation = .idle) (hbuf : buf ≠ 0) (hlen : len ≠ 0) :
    ∃ (ring : Vector U8 16) (mem : Mem), serialRead d buf len = .ok (0, { d with
      port := { d.port with
        ringBuffer := ring
        operation := if ReadSatisfied d.port.ringBuffer len then .idle else .read
        eventFlag := if ReadSatisfied d.port.ringBuffer len then 1 else 0 }
      mem := mem }) := by
  have hpos : 0 < len.toNat := by
    refine Nat.pos_of_ne_zero fun hzero => hlen ?_
    exact BitVec.eq_of_toNat_eq hzero
  obtain ⟨nl, count, ring, mem, hrun, hnl, hmore⟩ :=
    @readLoop_spec σ buf len _ { d with port := { d.port with operation := .read, eventFlag := 0 } }
      0 readFuel hopen.ringHead rfl (by simp) (by simp [readFuel])
  have htest : (nl = true ∨ ¬ count < len.toNat) ↔ ReadSatisfied d.port.ringBuffer len := by
    simp only [List.drop_zero, Nat.sub_zero, Nat.zero_add] at hnl hmore
    rw [ReadSatisfied, ← hnl]
    cases nl with
    | true => simp [hpos]
    | false => simp [hpos, hmore rfl]
  refine ⟨ring, mem, ?_⟩
  rw [serialRead, if_neg hopen.available, if_neg hbuf, if_neg hlen, if_neg (not_not.mpr hidle)]
  simp only [bind, Except.bind, hrun]
  by_cases hsat : ReadSatisfied d.port.ringBuffer len
  · simp only [if_pos (htest.mpr hsat), if_pos hsat]
    rfl
  · simp only [if_neg (mt htest.mp hsat), if_neg hsat]
    rfl

end Mpx
