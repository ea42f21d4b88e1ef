import Mathlib.Tactic

/-! The tokens of a list: its maximal non-empty runs of elements that are no delimiters. -/

namespace Mpx.Tokens

variable {α : Type*}

/-- `t` is a maximal run of `s` without delimiters, and it begins at the index `o`. -/
structure IsToken (delim : α → Prop) (s : List α) (o : Nat) (t : List α) : Prop where
  nonempty : t ≠ []
  run : t <+: s.drop o
  clean : ∀ c ∈ t, ¬ delim c
  starts : ∀ c, 0 < o → s[o - 1]? = some c → delim c
  ends : ∀ c, s[o + t.length]? = some c → delim c

def Gap (delim : α → Prop) (s : List α) (o a : Nat) : Prop :=
  ∀ i c, o ≤ i → i < a → s[i]? = some c → delim c

inductive TokensFrom (delim : α → Prop) (s : List α) : Nat → List (Nat × List α) → Prop
  | done {o : Nat} (hgap : Gap delim s o s.length) : TokensFrom delim s o []
  | next {o a : Nat} {t : List α} {tokens : List (Nat × List α)} (ho : o ≤ a)
      (hgap : Gap delim s o a) (htoken : IsToken delim s a t)
      (hrest : TokensFrom delim s (a + t.length) tokens) :
      TokensFrom delim s o ((a, t) :: tokens)

section Run

variable {delim : α → Prop} {s t t' : List α} {o a i : Nat} {c : α}

theorem IsToken.getElem? (h : IsToken delim s o t) (hi : i < t.length) :
    s[o + i]? = some t[i] := by
  rcases h.run with ⟨rest, hrest⟩
  rw [← List.getElem?_drop, ← hrest, List.getElem?_append_left hi, List.getElem?_eq_getElem hi]

theorem IsToken.length_le (h : IsToken delim s o t) : o + t.length ≤ s.length := by
  have hpos : 0 < t.length := List.length_pos_of_ne_nil h.nonempty
  have hrun := h.run.length_le
  rw [List.length_drop] at hrun
  omega

theorem IsToken.not_delim (h : IsToken delim s o t) (ho : o ≤ i) (hi : i < o + t.length)
    (hc : s[i]? = some c) : ¬ delim c := by
  have hat := h.getElem? (i := i - o) (by omega)
  rw [Nat.add_sub_cancel' ho, hc] at hat
  rw [Option.some.inj hat]
  exact h.clean _ (List.getElem_mem _)

theorem IsToken.lt_length (h : IsToken delim s o t) : o < s.length := by
  have hpos : 0 < t.length := List.length_pos_of_ne_nil h.nonempty
  have hlength := h.length_le
  omega

theorem IsToken.start_le (h : IsToken delim s o t) (h' : IsToken delim s a t')
    (ha : a < o + t.length) : a ≤ o := by
  by_contra hlt
  have hbound := h.length_le
  have hbefore : s[a - 1]? = some s[a - 1] := List.getElem?_eq_getElem (by omega)
  exact h.not_delim (by omega) (by omega) hbefore (h'.starts _ (by omega) hbefore)

theorem IsToken.end_le (h : IsToken delim s o t) (h' : IsToken delim s o t') :
    t.length ≤ t'.length := by
  by_contra hlt
  have hbound := h.length_le
  have hbehind : s[o + t'.length]? = some s[o + t'.length] :=
    List.getElem?_eq_getElem (by omega)
  exact h.not_delim (by omega) (by omega) hbehind (h'.ends _ hbehind)

theorem isToken_extract {e : Nat} (hoe : o < e) (hes : e ≤ s.length)
    (hclean : ∀ i c, o ≤ i → i < e → s[i]? = some c → ¬ delim c)
    (hstarts : ∀ c, 0 < o → s[o - 1]? = some c → delim c)
    (hends : ∀ c, s[e]? = some c → delim c) :
    (s.extract o e).length = e - o ∧ IsToken delim s o (s.extract o e) := by
  have hlength : (s.extract o e).length = e - o := by
    rw [List.extract_eq_take_drop, List.length_take, List.length_drop]
    omega
  have hend : o + (s.extract o e).length = e := by omega
  refine ⟨hlength, List.ne_nil_of_length_pos (by omega), List.take_prefix _ _, ?_, hstarts, ?_⟩
  · intro c hc
    rcases List.mem_iff_getElem?.mp hc with ⟨i, hi⟩
    have hlt : i < e - o := by
      rw [← hlength]
      exact (List.getElem?_eq_some_iff.mp hi).1
    apply hclean (o + i) c (Nat.le_add_right o i) (by omega)
    rw [List.extract_eq_take_drop, List.getElem?_take_of_lt hlt, List.getElem?_drop] at hi
    exact hi
  · rw [hend]
    exact hends

theorem IsToken.unique (h : IsToken delim s o t) (h' : IsToken delim s a t') (ho : o ≤ i)
    (hi : i < o + t.length) (ha : a ≤ i) (hi' : i < a + t'.length) : a = o ∧ t' = t := by
  have hstart : a = o :=
    le_antisymm (h.start_le h' (by omega)) (h'.start_le h (by omega))
  rw [hstart] at h' ⊢
  have hlength : t'.length = t.length := le_antisymm (h'.end_le h) (h.end_le h')
  exact ⟨rfl, (List.prefix_of_prefix_length_le h'.run h.run hlength.le).eq_of_length hlength⟩

theorem Gap.not_token (hgap : Gap delim s o a) (h : IsToken delim s i t) (ho : o ≤ i)
    (hi : i < a) : False := by
  have hpos : 0 < t.length := List.length_pos_of_ne_nil h.nonempty
  have hlt : i < s.length := h.lt_length
  have hat : s[i]? = some s[i] := List.getElem?_eq_getElem hlt
  exact h.not_delim le_rfl (by omega) hat (hgap i _ ho hi hat)

theorem IsToken.gap_behind (h : IsToken delim s o t) :
    Gap delim s (o + t.length) (o + t.length + 1) := by
  intro i c ho hi hc
  have hat : i = o + t.length := by omega
  rw [hat] at hc
  exact h.ends c hc

end Run

section Scan

variable {delim : α → Prop} {s t : List α} {o a : Nat} {tokens : List (Nat × List α)}

theorem TokensFrom.extend (h : TokensFrom delim s a tokens) (ho : o ≤ a)
    (hgap : Gap delim s o a) : TokensFrom delim s o tokens := by
  have hjoin : ∀ {b}, Gap delim s a b → Gap delim s o b := by
    intro b hback i c hi hlt hc
    by_cases hia : i < a
    · exact hgap i c hi hia hc
    · exact hback i c (by omega) hlt hc
  cases h with
  | done hback => exact .done (hjoin hback)
  | next hle hback htoken hrest => exact .next (ho.trans hle) (hjoin hback) htoken hrest

/-- A scan meets the tokens that begin at its index or behind it, and no others. -/
theorem TokensFrom.mem_iff (h : TokensFrom delim s o tokens) :
    (a, t) ∈ tokens ↔ IsToken delim s a t ∧ o ≤ a := by
  induction h with
  | done hgap =>
      simp only [List.not_mem_nil, false_iff, not_and]
      intro htoken ho
      exact hgap.not_token htoken ho htoken.lt_length
  | @next o b u tokens ho hgap htoken hrest ih =>
      rw [List.mem_cons, ih]
      constructor
      · intro hmem
        rcases hmem with heq | ⟨hlater, hle⟩
        · cases heq
          exact ⟨htoken, ho⟩
        · exact ⟨hlater, by omega⟩
      · intro hmem
        rcases hmem with ⟨hmem, hle⟩
        have hb : b ≤ a := by
          by_contra hlt
          exact hgap.not_token hmem hle (by omega)
        by_cases hinside : a < b + u.length
        · have hpos : 0 < t.length := List.length_pos_of_ne_nil hmem.nonempty
          rcases htoken.unique hmem hb hinside le_rfl (by omega) with ⟨heq, hsame⟩
          exact Or.inl (by rw [heq, hsame])
        · exact Or.inr ⟨hmem, by omega⟩

theorem TokensFrom.pairwise (h : TokensFrom delim s o tokens) :
    tokens.Pairwise fun x y => x.1 + x.2.length < y.1 := by
  induction h with
  | done hgap => exact List.Pairwise.nil
  | @next o b u tokens ho hgap htoken hrest ih =>
      apply List.Pairwise.cons _ ih
      intro y hy
      have hlater := hrest.mem_iff.mp hy
      change b + u.length < y.1
      by_contra hlt
      exact htoken.gap_behind.not_token hlater.1 hlater.2 (by omega)

end Scan

end Mpx.Tokens
