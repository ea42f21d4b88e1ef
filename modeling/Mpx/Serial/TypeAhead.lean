import Mpx.Serial.RingAccess

/-! What a sequence of `serial_read` calls delivers of the text in the ring buffer. -/

namespace Mpx

open Memory

variable {σ : Type}

def delivered (trace : List RingAccess) : List U8 :=
  trace.filterMap fun
    | .ringRead _ => none
    | .bufStore _ c => some c
    | .ringClear _ c => if c = 10 then some c else none

/-- A call of `serial_read` with the device at that moment. -/
structure ReadCall (σ : Type) where
  device : Device σ
  buf : U32
  len : U32

def ReadCall.Accepted (call : ReadCall σ) : Prop :=
  call.device.port.status ≠ .inUse ∧ call.buf ≠ 0

instance (call : ReadCall σ) : Decidable call.Accepted := inferInstanceAs (Decidable (_ ∧ _))

/-- What each of the calls delivers. From one call to the next the ring stays; everything
else on the device may change. -/
def readCalls : Vector U8 16 → List (ReadCall σ) → Except Fault (List (List U8) × Vector U8 16)
  | ring, [] => .ok ([], ring)
  | ring, call :: calls => do
      let read := serialReadTraced (call.device.withRing ring call.device.mem) call.buf call.len
      let (_, d) ← read.2
      let (outs, ring) ← readCalls d.port.ringBuffer calls
      return (delivered read.1 :: outs, ring)

/-- Nothing is lost or delivered out of order, and a call that starts while there are
characters left delivers the next one. -/
structure InOrder (chars : List U8) (outs : List (List U8)) : Prop where
  order : outs.flatten <+: chars
  next : ∀ i out, outs[i]? = some out → (outs.take i).flatten ≠ chars → out ≠ []

def TakenAtOnce (chars : List U8) : List (ReadCall σ) → Prop
  | [] => True
  | first :: later => chars = [] ∨ (first.Accepted ∧
      (later = [] ∨ (chars.length ≤ first.len.toNat ∧ 10 ∉ chars.dropLast)))

def takeLine : Nat → List U8 → List U8
  | 0, _ => []
  | _ + 1, [] => []
  | n + 1, c :: chars => if c = 10 then [c] else c :: takeLine n chars

section Line

variable {n : Nat} {chars : List U8} {c : U8}

theorem takeLine_nil (n : Nat) : takeLine n [] = [] := by
  cases n <;> rfl

theorem takeLine_newline : takeLine (n + 1) (10 :: chars) = [10] := if_pos rfl

theorem takeLine_cons (hc : c ≠ 10) : takeLine (n + 1) (c :: chars) = c :: takeLine n chars :=
  if_neg hc

theorem takeLine_starts (n : Nat) (chars : List U8) : takeLine n chars <+: chars := by
  induction n generalizing chars with
  | zero => exact List.nil_prefix
  | succ n ih =>
      cases chars with
      | nil => exact List.prefix_rfl
      | cons c chars =>
          by_cases hc : c = 10
          · rw [hc, takeLine_newline]
            exact List.cons_prefix_cons.mpr ⟨rfl, List.nil_prefix⟩
          · rw [takeLine_cons hc]
            exact List.cons_prefix_cons.mpr ⟨rfl, ih chars⟩

theorem takeLine_ne_nil (hn : n ≠ 0) (hchars : chars ≠ []) : takeLine n chars ≠ [] := by
  cases n with
  | zero => exact absurd rfl hn
  | succ n =>
      cases chars with
      | nil => exact absurd rfl hchars
      | cons c chars =>
          by_cases hc : c = 10
          · rw [hc, takeLine_newline]
            exact List.cons_ne_nil _ _
          · rw [takeLine_cons hc]
            exact List.cons_ne_nil _ _

/-- The whole text is taken when the request is long enough and no new-line comes before
the last character. -/
theorem takeLine_eq_iff (n : Nat) (chars : List U8) :
    takeLine n chars = chars ↔ chars.length ≤ n ∧ 10 ∉ chars.dropLast := by
  induction chars generalizing n with
  | nil =>
      rw [takeLine_nil]
      exact iff_of_true rfl ⟨Nat.zero_le n, List.not_mem_nil⟩
  | cons c chars ih =>
      cases n with
      | zero => exact iff_of_false (List.cons_ne_nil c chars).symm (fun h => Nat.not_succ_le_zero _ h.1)
      | succ n =>
          by_cases hc : c = 10
          · rw [hc, takeLine_newline, List.cons_eq_cons]
            cases chars with
            | nil => simp
            | cons d chars => simp
          · rw [takeLine_cons hc, List.cons_eq_cons, ih, List.length_cons]
            cases chars with
            | nil => simp
            | cons d chars =>
                rw [List.dropLast_cons_cons, List.mem_cons, not_or]
                constructor
                · exact fun h => ⟨Nat.succ_le_succ h.2.1, Ne.symm hc, h.2.2⟩
                · exact fun h => ⟨rfl, Nat.le_of_succ_le_succ h.1, h.2.2⟩

end Line

section Call

variable {buf len : U32} {chars : List U8} {d : Device σ} {count fuel : Nat} {c : U8}

theorem delivered_newline (index : Nat) : delivered [.ringRead index, .ringClear index 10] = [10] :=
  rfl

theorem delivered_copy (hc : c ≠ 10) (index : Nat) (trace : List RingAccess) :
    delivered (.ringRead index :: .bufStore index c :: .ringClear index c :: trace) =
      c :: delivered trace := by
  have hclear : delivered (.ringClear index c :: trace) = delivered trace :=
    List.filterMap_cons_none (if_neg hc)
  exact congrArg (List.cons c) hclear

theorem ringText_set (hfirst : count = 0 ∨ ringText chars = []) :
    ringText (chars.set count 0) = [] := by
  cases chars with
  | nil => rfl
  | cons c chars =>
      cases count with
      | zero => exact ringText_null chars
      | succ count =>
          have hempty := hfirst.resolve_left (Nat.succ_ne_zero count)
          have hc : c = 0 := by
            by_contra hc
            rw [ringText_cons hc] at hempty
            exact List.cons_ne_nil _ _ hempty
          rw [List.set_cons_succ, hc, ringText_null]

theorem ringClear_first {p : Dcb} {ring : Vector U8 16} (hcount : count < 16)
    (hclear : p.ringClear count = .ok { p with ringBuffer := ring })
    (hfirst : count = 0 ∨ ringText p.ringBuffer.toList = []) : ringText ring.toList = [] := by
  rw [Dcb.ringClear, dif_pos hcount] at hclear
  have hring : p.ringBuffer.set count 0 = ring := congrArg Dcb.ringBuffer (Except.ok.inj hclear)
  rw [← hring, Vector.toList_set]
  exact ringText_set hfirst

/-- A NUL that ends the first read is the first character. -/
theorem first_of_null {ring : Vector U8 16} (hchars : ring.toList.drop count = 0 :: chars)
    (hfirst : count = 0 ∨ ringText ring.toList = []) : ringText ring.toList = [] := by
  cases hfirst with
  | inl hzero =>
      rw [hzero, List.drop_zero] at hchars
      rw [hchars, ringText_null]
  | inr hempty => exact hempty

theorem readLoopTraced_text (buf : U32) (fuel : Nat)
    (hchars : d.port.ringBuffer.toList.drop count = chars)
    (hcount : count + chars.length = 16) (hfuel : chars.length < fuel)
    (hnull : (ringText chars).length < chars.length) (hlen : 0 < len.toNat)
    (hfirst : count = 0 ∨ ringText d.port.ringBuffer.toList = []) :
    ∃ nl count' d', (readLoopTraced buf len fuel d count).2 = .ok (nl, count', d') ∧
      delivered (readLoopTraced buf len fuel d count).1 =
        takeLine (len.toNat - count) (ringText chars) ∧
      ringText d'.port.ringBuffer.toList = [] := by
  induction chars generalizing d count fuel with
  | nil => exact absurd hnull (Nat.not_lt_zero _)
  | cons c chars ih =>
      rw [List.length_cons] at hcount hfuel
      cases fuel with
      | zero => exact absurd hfuel (Nat.not_lt_zero _)
      | succ fuel =>
          by_cases hmore : count < len.toNat
          · have hget := ringGet_char hchars
            have hroom : len.toNat - count = (len.toNat - (count + 1)) + 1 := by omega
            rcases ringClear_char hchars with ⟨ring, hclear, hdrop⟩
            have hring := ringClear_first (by omega) hclear hfirst
            by_cases hc : c = 0
            · rw [hc] at hget hchars ⊢
              rw [readLoopTraced_null hmore hget, ringText_null, takeLine_nil]
              exact ⟨false, count, d, rfl, rfl, first_of_null hchars hfirst⟩
            · rw [ringText_cons hc] at hnull ⊢
              rw [hroom]
              by_cases hnewline : c = 10
              · rw [hnewline] at hget ⊢
                rw [readLoopTraced_newline hmore hget hclear, takeLine_newline, delivered_newline]
                exact ⟨true, count, d.withRing ring d.mem, rfl, rfl, hring⟩
              · rw [readLoopTraced_copy hmore hget hclear hc hnewline]
                rw [takeLine_cons hnewline, delivered_copy hnewline]
                rw [List.length_cons, List.length_cons] at hnull
                rcases ih fuel (d := { d with
                    port := { d.port with ringBuffer := ring }
                    mem := store8 d.mem (buf + BitVec.ofNat 32 count) c })
                  hdrop (by omega) (by omega) (by omega) (Or.inr hring) with
                  ⟨nl, count', d', hrun, hout, hafter⟩
                exact ⟨nl, count', d', hrun, congrArg (List.cons c) hout, hafter⟩
          · rw [readLoopTraced_done hmore, Nat.sub_eq_zero_of_le (not_lt.mp hmore)]
            exact ⟨false, count, d, rfl, rfl, hfirst.resolve_left (by omega)⟩

/-- An accepted read delivers one line of the text, or as much of it as was asked for, and
leaves no text in the ring. -/
theorem serialReadTraced_text (hstatus : d.port.status ≠ .inUse) (hbuf : buf ≠ 0)
    (hlen : len ≠ 0) (hidle : d.port.operation = .idle)
    (hchars : (ringText d.port.ringBuffer.toList).length ≤ 15) :
    ∃ d', (serialReadTraced d buf len).2 = .ok (0, d') ∧
      delivered (serialReadTraced d buf len).1 =
        takeLine len.toNat (ringText d.port.ringBuffer.toList) ∧
      ringText d'.port.ringBuffer.toList = [] := by
  have hpos : 0 < len.toNat := Nat.pos_of_ne_zero fun hzero => hlen (BitVec.eq_of_toNat_eq hzero)
  have hsixteen : d.port.ringBuffer.toList.length = 16 := d.port.ringBuffer.length_toList
  rcases readLoopTraced_text buf readFuel
    (d := { d with port := { d.port with operation := .read, eventFlag := 0 } })
    rfl (by simp) (by simp [readFuel]) (by simp only [List.drop_zero]; omega) hpos (Or.inl rfl) with
    ⟨nl, count, d', hrun, hout, hring⟩
  rw [serialReadTraced, if_neg hstatus, if_neg hbuf, if_neg hlen, if_neg (not_not.mpr hidle)]
  simp only [hrun, bind, Except.bind]
  by_cases hdone : nl = true ∨ ¬ count < len.toNat
  · rw [if_pos hdone]
    exact ⟨_, rfl, hout, hring⟩
  · rw [if_neg hdone]
    exact ⟨_, rfl, hout, hring⟩

end Call

section Calls

variable {ring : Vector U8 16} {call : ReadCall σ} {calls : List (ReadCall σ)}

theorem call_accepted (haccepted : call.Accepted) (hidle : call.device.port.operation = .idle)
    (hlen : call.len ≠ 0) (hchars : (ringText ring.toList).length ≤ 15) :
    ∃ d, (serialReadTraced (call.device.withRing ring call.device.mem) call.buf call.len).2 =
        .ok (0, d) ∧
      delivered (serialReadTraced (call.device.withRing ring call.device.mem) call.buf
        call.len).1 = takeLine call.len.toNat (ringText ring.toList) ∧
      ringText d.port.ringBuffer.toList = [] :=
  serialReadTraced_text haccepted.1 haccepted.2 hlen hidle hchars

theorem call_refused (ring : Vector U8 16) (hrefused : ¬ call.Accepted) :
    ∃ code d, serialReadTraced (call.device.withRing ring call.device.mem) call.buf call.len =
      ([], .ok (code, d)) ∧ d.port.ringBuffer = ring := by
  rw [serialReadTraced]
  by_cases hstatus : call.device.port.status = .inUse
  · exact ⟨_, _, if_pos hstatus, rfl⟩
  · have hbuf : call.buf = 0 := by
      by_contra hbuf
      exact hrefused ⟨hstatus, hbuf⟩
    have hopen : (call.device.withRing ring call.device.mem).port.status ≠ .inUse := hstatus
    rw [if_neg hopen, if_pos hbuf]
    exact ⟨_, _, rfl, rfl⟩

theorem readCalls_cons {code : Int} {d : Device σ} {outs : List (List U8)} {after : Vector U8 16}
    (hcall : (serialReadTraced (call.device.withRing ring call.device.mem) call.buf call.len).2 =
      .ok (code, d)) (hcalls : readCalls d.port.ringBuffer calls = .ok (outs, after)) :
    readCalls ring (call :: calls) = .ok (delivered (serialReadTraced
      (call.device.withRing ring call.device.mem) call.buf call.len).1 :: outs, after) := by
  rw [readCalls, hcall]
  simp only [bind, Except.bind, hcalls]
  rfl

theorem readCalls_empty (hring : ringText ring.toList = [])
    (hcalls : ∀ call ∈ calls, call.device.port.operation = .idle ∧ call.len ≠ 0) :
    ∃ after, readCalls ring calls = .ok (List.replicate calls.length [], after) := by
  induction calls generalizing ring with
  | nil => exact ⟨ring, rfl⟩
  | cons call calls ih =>
      have hlater : ∀ call ∈ calls, call.device.port.operation = .idle ∧ call.len ≠ 0 :=
        fun call hmem => hcalls call (List.mem_cons_of_mem _ hmem)
      by_cases haccepted : call.Accepted
      · have hhere := hcalls call List.mem_cons_self
        have hchars : (ringText ring.toList).length ≤ 15 := by
          rw [hring]
          exact Nat.zero_le 15
        rcases call_accepted haccepted hhere.1 hhere.2 hchars with ⟨d, hcall, hout, hd⟩
        rcases ih hd hlater with ⟨after, hrest⟩
        rw [hring, takeLine_nil] at hout
        refine ⟨after, ?_⟩
        rw [readCalls_cons hcall hrest, hout]
        rfl
      · rcases call_refused ring haccepted with ⟨code, d, hcall, hd⟩
        rcases ih hring hlater with ⟨after, hrest⟩
        refine ⟨after, ?_⟩
        rw [readCalls_cons (congrArg Prod.snd hcall) (by rw [hd]; exact hrest), hcall]
        rfl

theorem readCalls_ok (hchars : (ringText ring.toList).length ≤ 15)
    (hcalls : ∀ call ∈ calls, call.device.port.operation = .idle ∧ call.len ≠ 0) :
    ∃ outs after, readCalls ring calls = .ok (outs, after) := by
  induction calls generalizing ring with
  | nil => exact ⟨[], ring, rfl⟩
  | cons call calls ih =>
      have hlater : ∀ call ∈ calls, call.device.port.operation = .idle ∧ call.len ≠ 0 :=
        fun call hmem => hcalls call (List.mem_cons_of_mem _ hmem)
      by_cases haccepted : call.Accepted
      · have hhere := hcalls call List.mem_cons_self
        rcases call_accepted haccepted hhere.1 hhere.2 hchars with ⟨d, hcall, -, hd⟩
        rcases readCalls_empty hd hlater with ⟨after, hrest⟩
        exact ⟨_, after, readCalls_cons hcall hrest⟩
      · rcases call_refused ring haccepted with ⟨code, d, hcall, hd⟩
        rcases ih hchars hlater with ⟨outs, after, hrest⟩
        exact ⟨_, after, readCalls_cons (congrArg Prod.snd hcall) (by rw [hd]; exact hrest)⟩

theorem inOrder_nil (chars : List U8) : InOrder chars [] :=
  ⟨List.nil_prefix, fun _ _ hout => by cases hout⟩

theorem inOrder_first {chars first : List U8} {n : Nat} (hfirst : first <+: chars) :
    InOrder chars (first :: List.replicate n []) ↔
      (chars ≠ [] → first ≠ []) ∧ (n = 0 ∨ first = chars) := by
  constructor
  · intro h
    refine ⟨fun hchars => h.next 0 first rfl (Ne.symm hchars), ?_⟩
    by_contra hneither
    rw [not_or] at hneither
    refine h.next 1 [] ?_ ?_ rfl
    · rw [List.getElem?_cons_succ, List.getElem?_replicate]
      exact if_pos (Nat.pos_of_ne_zero hneither.1)
    · simpa using hneither.2
  · rintro ⟨hsome, hlater⟩
    constructor
    · rw [List.flatten_cons, List.flatten_replicate_nil, List.append_nil]
      exact hfirst
    · intro i out hout hleft
      cases i with
      | zero =>
          rw [← Option.some.inj hout]
          exact hsome (Ne.symm hleft)
      | succ i =>
          rw [List.getElem?_cons_succ, List.getElem?_replicate] at hout
          rw [List.take_succ_cons, List.take_replicate, List.flatten_cons, List.flatten_replicate_nil,
            List.append_nil] at hleft
          cases hlater with
          | inl hzero =>
              rw [hzero] at hout
              cases hout
          | inr hall => exact absurd hall hleft

/-- A sequence of reads delivers the text in order and without loss exactly when the first
of them takes all of it, or is the only one. -/
theorem typeahead_in_order_iff (ring : Vector U8 16)
    (hchars : (ringText ring.toList).length ≤ 15) (calls : List (ReadCall σ))
    (hcalls : ∀ call ∈ calls, call.device.port.operation = .idle ∧ call.len ≠ 0) :
    ∃ outs after, readCalls ring calls = .ok (outs, after) ∧
      (InOrder (ringText ring.toList) outs ↔ TakenAtOnce (ringText ring.toList) calls) := by
  cases calls with
  | nil => exact ⟨[], ring, rfl, iff_of_true (inOrder_nil _) trivial⟩
  | cons first later =>
      have hlater : ∀ call ∈ later, call.device.port.operation = .idle ∧ call.len ≠ 0 :=
        fun call hmem => hcalls call (List.mem_cons_of_mem _ hmem)
      by_cases hempty : ringText ring.toList = []
      · rcases readCalls_empty hempty hcalls with ⟨after, hrun⟩
        refine ⟨_, after, hrun, iff_of_true ?_ (Or.inl hempty)⟩
        rw [hempty, List.length_cons, List.replicate_succ, inOrder_first List.nil_prefix]
        exact ⟨fun hne => absurd rfl hne, Or.inr rfl⟩
      · by_cases haccepted : first.Accepted
        · have hhere := hcalls first List.mem_cons_self
          rcases call_accepted haccepted hhere.1 hhere.2 hchars with ⟨d, hcall, hout, hd⟩
          rcases readCalls_empty hd hlater with ⟨after, hrest⟩
          refine ⟨_, after, readCalls_cons hcall hrest, ?_⟩
          have hpos : first.len.toNat ≠ 0 := fun hzero => hhere.2 (BitVec.eq_of_toNat_eq hzero)
          rw [hout, inOrder_first (takeLine_starts _ _), takeLine_eq_iff, List.length_eq_zero_iff]
          constructor
          · exact fun h => Or.inr ⟨haccepted, h.2⟩
          · exact fun h => ⟨fun _ => takeLine_ne_nil hpos hempty, (h.resolve_left hempty).2⟩
        · rcases call_refused ring haccepted with ⟨code, d, hcall, hd⟩
          rcases readCalls_ok hchars hlater with ⟨outs, after, hrest⟩
          refine ⟨_, after, readCalls_cons (congrArg Prod.snd hcall) (by rw [hd]; exact hrest), ?_⟩
          rw [hcall]
          refine iff_of_false ?_ (fun h => haccepted (h.resolve_left hempty).1)
          intro h
          exact h.next 0 [] rfl (Ne.symm hempty) rfl

end Calls

def ringOf (chars : List U8) : Vector U8 16 := Vector.ofFn fun i => chars[i]?.getD 0

def callOf (len : U32) : ReadCall Unit :=
  ⟨Device.opened (ringOf []) ⟨fun _ => 0⟩ (), 0x8000, len⟩

theorem typeahead_in_order_iff_one_line :
    ∃ outs after, readCalls (ringOf [108, 115, 10]) [callOf 8, callOf 8] = .ok (outs, after) ∧
      InOrder [108, 115, 10] outs := by
  have htext : ringText (ringOf [108, 115, 10]).toList = [108, 115, 10] := by decide
  have h := typeahead_in_order_iff (ringOf [108, 115, 10]) (by rw [htext]; decide)
    [callOf 8, callOf 8] (by decide)
  rw [htext] at h
  rcases h with ⟨outs, after, hrun, hiff⟩
  exact ⟨outs, after, hrun, hiff.mpr (Or.inr ⟨by decide, Or.inr (by decide)⟩)⟩

/-- Two lines in the ring: the second call finds the NUL that the first has left. -/
theorem typeahead_lost :
    ∃ outs after, readCalls (ringOf [97, 10, 98, 10]) [callOf 8, callOf 8] = .ok (outs, after) ∧
      outs = [[97, 10], []] ∧ ¬ InOrder [97, 10, 98, 10] outs := by
  refine ⟨[[97, 10], []], _, rfl, rfl, fun h => ?_⟩
  exact h.next 1 [] rfl (by decide) rfl

end Mpx
