import Mpx.Base.Offset
import Mpx.Base.Tokens

/-! `strtok` of `lib/string.c` over a sequence of calls. A pointer into the string is its
offset, and NULL is no offset. -/

namespace Mpx.Strtok

open Memory CString Tokens

/-- The string and the static variable `tok_tmp`. -/
structure State where
  bytes : List U8
  tokTmp : Option Nat

/-- The loop over the leading delimiters. It starts over in `s2` behind each of them. -/
def skip (s s2 : List U8) (s1 p : Nat) : Nat :=
  if h : deref s2 p ≠ 0 ∧ deref s s1 ≠ 0 then
    if deref s s1 = deref s2 p then skip s s2 (s1 + 1) 0 else skip s s2 s1 (p + 1)
  else s1
termination_by (s.length - s1, s2.length - p)
decreasing_by
  · have hlt := lt_length_of_deref h.2
    exact Prod.Lex.left _ _ (by omega)
  · have hlt := lt_length_of_deref h.1
    exact Prod.Lex.right _ (by omega)

def isDelim (c : U8) (s2 : List U8) (p : Nat) : Bool :=
  if h : deref s2 p ≠ 0 then
    if c = deref s2 p then true else isDelim c s2 (p + 1)
  else false
termination_by s2.length - p
decreasing_by
  have hlt := lt_length_of_deref h
  omega

/-- The outer loop of the second part: where it meets a delimiter, unless the string ends. -/
def scan (s s2 : List U8) (tokTmp : Nat) : Option Nat :=
  if h : deref s tokTmp ≠ 0 then
    if isDelim (deref s tokTmp) s2 0 then some tokTmp else scan s s2 (tokTmp + 1)
  else none
termination_by s.length - tokTmp
decreasing_by
  have hlt := lt_length_of_deref h
  omega

def strtok (s1 : Option Nat) (s2 : List U8) (st : State) : Option Nat × State :=
  match s1.or st.tokTmp with
  | none => (none, st)
  | some s1 =>
      let s1 := skip st.bytes s2 s1 0
      if deref st.bytes s1 = 0 then (none, { st with tokTmp := none })
      else
        match scan st.bytes s2 s1 with
        | some tokTmp => (some s1, ⟨st.bytes.set tokTmp 0, some (tokTmp + 1)⟩)
        | none => (some s1, { st with tokTmp := none })

/-- `strtok(s1, d)` and then `strtok(NULL, d)` up to the call that returns NULL: where the
tokens begin, and the string that each pointer is right after its call. -/
inductive Calls (d : List U8) : Option Nat → State → List (Nat × List U8) → State → Prop
  | done {s1 : Option Nat} {st st' : State} (hcall : strtok s1 d st = (none, st')) :
      Calls d s1 st [] st'
  | next {s1 : Option Nat} {o : Nat} {st st₁ st' : State} {calls : List (Nat × List U8)}
      (hcall : strtok s1 d st = (some o, st₁)) (hrest : Calls d none st₁ calls st') :
      Calls d s1 st ((o, text (st₁.bytes.drop o)) :: calls) st'

section Loops

variable {b d u : List U8} {c : U8} {o p : Nat}

def Delim (d : List U8) (c : U8) : Prop := c ∈ text d

theorem isDelim_iff (hp : p ≤ (text d).length) :
    isDelim c d p = true ↔ c ∈ (text d).drop p := by
  have hd := spells_text d
  fun_induction isDelim c d p with
  | case1 p hne heq =>
      have hlt : p < (text d).length := hd.lt_of_ne_zero hp hne
      rw [List.drop_eq_getElem_cons hlt, ← hd.char p hlt (Nat.zero_le p)]
      simp [heq]
  | case2 p hne hdiff ih =>
      have hlt : p < (text d).length := hd.lt_of_ne_zero hp hne
      have htail : isDelim c d (p + 1) = true ↔ c ∈ (text d).drop (p + 1) := ih hlt
      rw [htail, List.drop_eq_getElem_cons hlt, List.mem_cons, ← hd.char p hlt (Nat.zero_le p)]
      simp [hdiff]
  | case3 p hzero =>
      have hend : ¬ p < (text d).length := fun hlt => hzero (hd.ne_zero (Nat.zero_le p) hlt)
      rw [List.drop_eq_nil_of_le (not_lt.mp hend)]
      simp

theorem isDelim_zero_iff : isDelim c d 0 = true ↔ Delim d c := isDelim_iff (Nat.zero_le _)

/-- The skip loop ends on the first character that is no delimiter, or at the end. While it
tests a character, those of `d` in front of `p` are not this one. -/
theorem skip_spec (h : Spells b u o) (ho : o ≤ u.length) (hp : p ≤ (text d).length)
    (htested : ∀ j < p, deref d j ≠ deref b o) :
    o ≤ skip b d o p ∧ skip b d o p ≤ u.length ∧ Gap (Delim d) u o (skip b d o p) ∧
      ∀ c, u[skip b d o p]? = some c → ¬ Delim d c := by
  have hd := spells_text d
  fun_induction skip b d o p with
  | case1 o p hne heq ih =>
      have hlt : o < u.length := h.lt_of_ne_zero ho hne.2
      have hp' : p < (text d).length := hd.lt_of_ne_zero hp hne.1
      rcases ih (h.mono (Nat.le_succ o)) hlt (Nat.zero_le _) (fun j hj => absurd hj (Nat.not_lt_zero j))
        with ⟨hle, hend, hgap, hstop⟩
      refine ⟨by omega, hend, ?_, hstop⟩
      intro i c hi hlow hc
      by_cases hio : i = o
      · rw [hio, List.getElem?_eq_getElem hlt, Option.some_inj] at hc
        rw [Delim, ← hc, ← h.char o hlt le_rfl, heq, hd.char p hp' (Nat.zero_le p)]
        exact List.getElem_mem hp'
      · exact hgap i c (by omega) hlow hc
  | case2 o p hne hdiff ih =>
      apply ih h ho (hd.lt_of_ne_zero hp hne.1)
      intro j hj
      by_cases hjp : j = p
      · rw [hjp]
        exact fun heq => hdiff heq.symm
      · exact htested j (by omega)
  | case3 o p hend =>
      refine ⟨le_rfl, ho, fun i c hi hlow => by omega, ?_⟩
      intro c hc hmem
      rcases List.getElem?_eq_some_iff.mp hc with ⟨hlt, hat⟩
      have hpend : ¬ p < (text d).length := fun hp' =>
        hend ⟨hd.ne_zero (Nat.zero_le p) hp', h.ne_zero le_rfl hlt⟩
      rcases List.mem_iff_getElem.mp hmem with ⟨j, hj, hjc⟩
      apply htested j (by omega)
      rw [hd.char j hj (Nat.zero_le j), h.char o hlt le_rfl, hjc, hat]

theorem scan_spec (h : Spells b u o) (ho : o ≤ u.length) :
    ∃ e, o ≤ e ∧ e ≤ u.length ∧ (∀ i c, o ≤ i → i < e → u[i]? = some c → ¬ Delim d c) ∧
      (∀ c, u[e]? = some c → Delim d c) ∧
      scan b d o = if e < u.length then some e else none := by
  fun_induction scan b d o with
  | case1 o hne hdelim =>
      have hlt : o < u.length := h.lt_of_ne_zero ho hne
      refine ⟨o, le_rfl, ho, fun i c hi hlow => by omega, ?_, (if_pos hlt).symm⟩
      intro c hc
      rw [List.getElem?_eq_getElem hlt, Option.some_inj] at hc
      rw [← hc, ← h.char o hlt le_rfl]
      exact isDelim_zero_iff.mp hdelim
  | case2 o hne hdelim ih =>
      have hlt : o < u.length := h.lt_of_ne_zero ho hne
      rcases ih (h.mono (Nat.le_succ o)) hlt with ⟨e, hle, hend, hclean, hstop, hscan⟩
      refine ⟨e, by omega, hend, ?_, hstop, hscan⟩
      intro i c hi hlow hc
      by_cases hio : i = o
      · rw [hio, List.getElem?_eq_getElem hlt, Option.some_inj] at hc
        rw [← hc, ← h.char o hlt le_rfl]
        exact fun hmem => hdelim (isDelim_zero_iff.mpr hmem)
      · exact hclean i c (by omega) hlow hc
  | case3 o hzero =>
      have hend : o = u.length := by
        by_contra hne
        exact hzero (h.ne_zero le_rfl (by omega))
      refine ⟨o, le_rfl, ho, fun i c hi hlow => by omega, ?_, (if_neg (by omega)).symm⟩
      intro c hc
      rw [hend, List.getElem?_eq_none le_rfl] at hc
      cases hc

end Loops

def Boundary (d u : List U8) (o : Nat) : Prop := ∀ c, 0 < o → u[o - 1]? = some c → Delim d c

def cut (b u : List U8) (e : Nat) : List U8 := if e < u.length then b.set e 0 else b

section Calls

variable {b d u : List U8} {s1 leftover : Option Nat} {o a e : Nat} {t : List U8}

theorem length_cut : (cut b u e).length = b.length := by
  rw [cut]
  split
  · exact List.length_set
  · rfl

theorem deref_cut (h : Spells b u o) (ho : o ≤ e) (he : e ≤ u.length) (i : Nat) :
    deref (cut b u e) i = if i = e then 0 else deref b i := by
  rw [cut]
  by_cases hlt : e < u.length
  · rw [if_pos hlt]
    exact deref_set (lt_length_of_deref (h.ne_zero ho hlt)) 0 i
  · have hend : e = u.length := by omega
    rw [if_neg hlt]
    by_cases hi : i = e
    · rw [if_pos hi, hi, hend, h.stop]
    · rw [if_neg hi]

theorem text_cut (h : Spells b u o) (htoken : IsToken (Delim d) u a t) (ho : o ≤ a) :
    text ((cut b u (a + t.length)).drop a) = t := by
  have hcut := deref_cut h (by omega : o ≤ a + t.length) htoken.length_le
  apply text_drop
  · intro i hi
    have hlt : a + i < u.length := by
      have hlength := htoken.length_le
      omega
    have hat := htoken.getElem? hi
    rw [List.getElem?_eq_getElem hlt, Option.some_inj] at hat
    rw [hcut, if_neg (by omega), h.char _ hlt (by omega), hat]
  · rw [hcut, if_pos rfl]
  · intro hzero
    exact h.nonzero (List.mem_of_mem_drop (htoken.run.subset hzero))

theorem text_cut_start {s : List U8} (htoken : IsToken (Delim d) (text s) a t) :
    text (cut s (text s) (a + t.length)) = (text s).take (a + t.length) := by
  have hspells := spells_text s
  have hbound := htoken.length_le
  have hcut := deref_cut hspells (Nat.zero_le _) hbound
  have hlength : ((text s).take (a + t.length)).length = a + t.length := by
    rw [List.length_take]
    omega
  rw [← List.drop_zero (l := cut s (text s) (a + t.length))]
  apply text_drop
  · intro i hi
    rw [Nat.zero_add, hcut, if_neg (by omega), hspells.char i (by omega) (Nat.zero_le i),
      List.getElem_take]
  · rw [Nat.zero_add, hlength, hcut, if_pos rfl]
  · exact fun hzero => hspells.nonzero (List.mem_of_mem_take hzero)

theorem strtok_spec (h : Spells b u o) (ho : o ≤ u.length) (hstart : Boundary d u o)
    (hptr : s1.or leftover = some o) :
    (Gap (Delim d) u o u.length ∧ strtok s1 d ⟨b, leftover⟩ = (none, ⟨b, none⟩)) ∨
    ∃ a t, o ≤ a ∧ Gap (Delim d) u o a ∧ IsToken (Delim d) u a t ∧
      strtok s1 d ⟨b, leftover⟩ = (some a, ⟨cut b u (a + t.length),
        if a + t.length < u.length then some (a + t.length + 1) else none⟩) := by
  rcases skip_spec h ho (Nat.zero_le (text d).length) (fun j hj => absurd hj (Nat.not_lt_zero j))
    with ⟨hle, hend, hgap, hstop⟩
  rw [strtok, hptr]
  simp only
  generalize skip b d o 0 = a at hle hend hgap hstop
  by_cases ha : a < u.length
  · rw [if_neg (h.ne_zero hle ha)]
    rcases scan_spec (d := d) (h.mono hle) hend with ⟨e, hae, heu, hclean, hbehind, hscan⟩
    have hfirst : a < e := by
      by_contra hge
      have heq : e = a := by omega
      rw [heq] at hbehind
      have hat := List.getElem?_eq_getElem ha
      exact hstop _ hat (hbehind _ hat)
    have hstarts : ∀ c, 0 < a → u[a - 1]? = some c → Delim d c := by
      intro c hpos hc
      by_cases hao : a = o
      · exact hstart c (by omega) (hao ▸ hc)
      · exact hgap (a - 1) c (by omega) (by omega) hc
    rcases isToken_extract hfirst heu hclean hstarts hbehind with ⟨hlength, htoken⟩
    have hsum : a + (u.extract a e).length = e := by omega
    refine Or.inr ⟨a, u.extract a e, hle, hgap, htoken, ?_⟩
    rw [hscan, hsum, cut]
    by_cases he : e < u.length
    · simp only [if_pos he]
    · simp only [if_neg he]
  · have heq : a = u.length := by omega
    rw [heq, h.stop, if_pos rfl]
    exact Or.inl ⟨heq ▸ hgap, rfl⟩

theorem boundary_zero : Boundary d u 0 := fun _ hpos => absurd hpos (lt_irrefl 0)

theorem strtok_start (s d : List U8) (leftover : Option Nat) :
    (Gap (Delim d) (text s) 0 (text s).length ∧
      strtok (some 0) d ⟨s, leftover⟩ = (none, ⟨s, none⟩)) ∨
    ∃ a t, Gap (Delim d) (text s) 0 a ∧ IsToken (Delim d) (text s) a t ∧
      strtok (some 0) d ⟨s, leftover⟩ = (some a, ⟨cut s (text s) (a + t.length),
        if a + t.length < (text s).length then some (a + t.length + 1) else none⟩) := by
  have hptr : (some 0).or leftover = some 0 := rfl
  rcases strtok_spec (spells_text s) (Nat.zero_le _) boundary_zero hptr with
    hnone | ⟨a, t, -, htoken⟩
  · exact Or.inl hnone
  · exact Or.inr ⟨a, t, htoken⟩

theorem boundary_behind (htoken : IsToken (Delim d) u a t) :
    Boundary d u (a + t.length + 1) := by
  intro c _ hc
  exact htoken.ends c hc

/-- The calls with the pointer at `o` return the tokens from there on, and they clear the
byte behind each of them. The induction is on what is left of the string. -/
theorem calls_spec (h : Spells b u o) (ho : o ≤ u.length) (hstart : Boundary d u o)
    (hptr : s1.or leftover = some o) :
    ∃ calls st', Calls d s1 ⟨b, leftover⟩ calls st' ∧ TokensFrom (Delim d) u o calls ∧
      st'.bytes.length = b.length ∧
      (∀ o t, (o, t) ∈ calls → deref st'.bytes (o + t.length) = 0) ∧
      ∀ i, (∀ o t, (o, t) ∈ calls → i ≠ o + t.length) → deref st'.bytes i = deref b i := by
  induction hleft : u.length - o using Nat.strong_induction_on generalizing b s1 leftover o with
  | _ left ih =>
      rcases strtok_spec h ho hstart hptr with ⟨hgap, hcall⟩ | ⟨a, t, hle, hgap, htoken, hcall⟩
      · exact ⟨[], _, .done hcall, .done hgap, rfl, fun _ _ hmem => absurd hmem List.not_mem_nil,
          fun _ _ => rfl⟩
      · have hpos : 0 < t.length := List.length_pos_of_ne_nil htoken.nonempty
        have hlength := htoken.length_le
        have hcut := deref_cut h (by omega : o ≤ a + t.length) hlength
        have htext := text_cut h htoken hle
        by_cases hend : a + t.length < u.length
        · rw [if_pos hend] at hcall
          have hspells : Spells (cut b u (a + t.length)) u (a + t.length + 1) := by
            rw [cut, if_pos hend]
            exact h.set (by omega) hend
          have hnull : (none : Option Nat).or (some (a + t.length + 1)) =
              some (a + t.length + 1) := rfl
          rcases ih _ (by omega) hspells hend (boundary_behind htoken) hnull rfl with
            ⟨calls, st', hcalls, htokens, hlen, hzero, hsame⟩
          have hfresh : ∀ o t', (o, t') ∈ calls → a + t.length ≠ o + t'.length := by
            intro o t' hmem
            have hlater := (htokens.mem_iff.mp hmem).2
            omega
          have hnext := Calls.next hcall hcalls
          rw [htext] at hnext
          refine ⟨_, st', hnext, .next hle hgap htoken
            (htokens.extend (Nat.le_succ _) htoken.gap_behind), by rw [hlen, length_cut], ?_, ?_⟩
          · intro o t' hmem
            rcases List.mem_cons.mp hmem with heq | hmem
            · cases heq
              rw [hsame _ hfresh, hcut, if_pos rfl]
            · exact hzero o t' hmem
          · intro i hi
            rw [hsame i fun o t' hmem => hi o t' (List.mem_cons_of_mem _ hmem), hcut,
              if_neg (hi a t List.mem_cons_self)]
        · rw [if_neg hend] at hcall
          have hnext := Calls.next hcall (.done rfl)
          rw [htext] at hnext
          refine ⟨_, _, hnext, .next hle hgap htoken (.done fun i c hi hlow => by omega),
            length_cut, ?_, ?_⟩
          · intro o t' hmem
            cases List.mem_singleton.mp hmem
            rw [hcut, if_pos rfl]
          · intro i hi
            rw [hcut, if_neg (hi a t List.mem_cons_self)]

/-- The calls on a string end, and they return its maximal runs of characters that are no
delimiters, in order, each one a string of its own. Nothing but the byte directly behind each
of them changes, and that byte was a delimiter, or the end of the string. -/
theorem strtok_enumerates (s d : List U8) (leftover : Option Nat) :
    ∃ calls st', Calls d (some 0) ⟨s, leftover⟩ calls st' ∧
      (∀ o t, (o, t) ∈ calls ↔ IsToken (Delim d) (text s) o t) ∧
      calls.Pairwise (fun x y => x.1 < y.1) ∧
      (∀ o t, (o, t) ∈ calls → text (st'.bytes.drop o) = t) ∧
      (∀ o t, (o, t) ∈ calls → deref st'.bytes (o + t.length) = 0 ∧
        (o + t.length < strlen s → Delim d (deref s (o + t.length)))) ∧
      st'.bytes.length = s.length ∧
      ∀ i, (∀ o t, (o, t) ∈ calls → i ≠ o + t.length) → deref st'.bytes i = deref s i := by
  have hspells := spells_text s
  have hptr : (some 0).or leftover = some 0 := rfl
  have hstart : Boundary d (text s) 0 := boundary_zero
  rcases calls_spec hspells (Nat.zero_le _) hstart hptr with
    ⟨calls, st', hcalls, htokens, hlength, hzero, hsame⟩
  have hmem : ∀ o t, (o, t) ∈ calls ↔ IsToken (Delim d) (text s) o t := by
    intro o t
    rw [htokens.mem_iff]
    simp
  refine ⟨calls, st', hcalls, hmem, ?_, ?_, ?_, hlength, hsame⟩
  · exact htokens.pairwise.imp fun hlt => lt_of_le_of_lt (Nat.le_add_right _ _) hlt
  · intro o t hcall
    have htoken := (hmem o t).mp hcall
    have hbound := htoken.length_le
    apply text_drop
    · intro i hi
      have hat := htoken.getElem? hi
      rw [List.getElem?_eq_getElem (by omega), Option.some_inj] at hat
      -- the end of a token is no character of a token
      have hinside : ∀ o' t', (o', t') ∈ calls → o + i ≠ o' + t'.length := by
        intro o' t' hcall' heq
        have hends := ((hmem o' t').mp hcall').ends
        rw [← heq] at hends
        have hget := List.getElem?_eq_getElem (l := text s) (i := o + i) (by omega)
        exact htoken.not_delim (by omega) (by omega) hget (hends _ hget)
      rw [hsame _ hinside, hspells.char _ (by omega) (Nat.zero_le _), hat]
    · exact hzero o t hcall
    · exact fun hin => hspells.nonzero (List.mem_of_mem_drop (htoken.run.subset hin))
  · intro o t hcall
    refine ⟨hzero o t hcall, ?_⟩
    intro hlt
    rw [strlen_eq_length] at hlt
    rw [hspells.char _ hlt (Nat.zero_le _)]
    exact ((hmem o t).mp hcall).ends _ (List.getElem?_eq_getElem hlt)

theorem token_split (htoken : IsToken (Delim d) u a t) (hgap : Gap (Delim d) u 0 a) :
    ∃ lead back, u = lead ++ (t ++ back) ∧ lead.length = a ∧ (∀ c ∈ lead, c ∈ text d) ∧
      ∀ c ∈ back.head?, c ∈ text d := by
  rcases htoken.run with ⟨back, hback⟩
  have hlength : (u.take a).length = a := by
    have hlt := htoken.lt_length
    rw [List.length_take]
    omega
  refine ⟨u.take a, back, by rw [hback, List.take_append_drop], hlength, ?_, ?_⟩
  · intro c hc
    rcases List.mem_iff_getElem?.mp hc with ⟨i, hi⟩
    have hlt : i < a := by
      have hin := (List.getElem?_eq_some_iff.mp hi).1
      omega
    rw [List.getElem?_take_of_lt hlt] at hi
    exact hgap i c (Nat.zero_le i) hlt hi
  · intro c hc
    apply htoken.ends
    rw [← List.getElem?_drop, ← hback, List.getElem?_append_right le_rfl, Nat.sub_self]
    rw [List.head?_eq_getElem?] at hc
    exact hc

/-- The first call on a string, as `CString.strtok` states it: the token and what the string
is afterwards. -/
theorem strtok_first (s : List U8) (hd : (0 : U8) ∉ d) (leftover : Option Nat) :
    CString.strtok s d =
      ((strtok (some 0) d ⟨s, leftover⟩).1.map fun o =>
        text ((strtok (some 0) d ⟨s, leftover⟩).2.bytes.drop o),
      text (strtok (some 0) d ⟨s, leftover⟩).2.bytes) := by
  have hspells := spells_text s
  rcases strtok_start s d leftover with ⟨hgap, hcall⟩ | ⟨a, t, hgap, htoken, hcall⟩
  · have hall : (text s).dropWhile (fun c => c ∈ d) = [] := by
      rw [List.dropWhile_eq_nil_iff]
      intro c hc
      rcases List.mem_iff_getElem?.mp hc with ⟨i, hi⟩
      have hdelim := hgap i c (Nat.zero_le i) (List.getElem?_eq_some_iff.mp hi).1 hi
      rw [Delim, text_eq_self hd] at hdelim
      exact decide_eq_true hdelim
    rw [hcall, CString.strtok, hall]
    rfl
  · rcases token_split htoken hgap with ⟨lead, back, hsplit, hlead, hdelims, hback⟩
    rw [text_eq_self hd] at hdelims hback
    have hclean : ∀ c ∈ t, c ∉ d := by
      intro c hc hmem
      exact htoken.clean c hc (by rw [Delim, text_eq_self hd]; exact hmem)
    have hfront : ∀ c ∈ lead, decide (c ∈ d) = true := fun c hc => decide_eq_true (hdelims c hc)
    have hhead : (t ++ back).takeWhile (fun c => c ∈ d) = [] ∧
        (t ++ back).dropWhile (fun c => c ∈ d) = t ++ back := by
      cases t with
      | nil => exact absurd rfl htoken.nonempty
      | cons c t => simp [hclean c List.mem_cons_self]
    have htoken' : (t ++ back).takeWhile (fun c => c ∉ d) = t := by
      rw [List.takeWhile_append_of_pos fun c hc => decide_eq_true (hclean c hc)]
      cases back with
      | nil => simp
      | cons c back => simp [hback c rfl]
    have hbytes : text (cut s (text s) (a + t.length)) = lead ++ t := by
      rw [text_cut_start htoken, hsplit, ← List.append_assoc, ← hlead, ← List.length_append,
        List.take_left']
      rfl
    rw [hcall, hbytes, CString.strtok]
    simp only [Option.map_some, text_cut hspells htoken (Nat.zero_le a)]
    rw [hsplit, List.dropWhile_append_of_pos hfront, List.takeWhile_append_of_pos hfront, hhead.1,
      hhead.2, htoken', if_neg htoken.nonempty, List.append_nil]

end Calls

end Mpx.Strtok
