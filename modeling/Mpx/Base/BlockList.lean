import Mathlib.Data.List.Chain
import Mathlib.Tactic

/-! First-fit allocation and coalescing release on a list of contiguous blocks.

Every block carries `hdr` bytes of header in front of its payload. The list
starts at an address `a`, and each block begins where the one before it ends. -/

namespace Mpx.BlockList

structure Block where
  size : Nat
  free : Bool
  deriving DecidableEq, Repr

variable (hdr : Nat)

def span : List Block → Nat
  | [] => 0
  | b :: bs => hdr + b.size + span bs

def layout : Nat → List Block → List (Nat × Block)
  | _, [] => []
  | a, b :: bs => (a, b) :: layout (a + hdr + b.size) bs

def held : Nat → List Block → List (Nat × Nat)
  | _, [] => []
  | a, b :: bs =>
      if b.free then held (a + hdr + b.size) bs
      else (a + hdr, b.size) :: held (a + hdr + b.size) bs

def Separated (bs : List Block) : Prop :=
  bs.IsChain fun b c => ¬ (b.free = true ∧ c.free = true)

/-- Take `n` bytes of a free block and keep the rest as a free block when a
header and at least one byte are left over. -/
def carve (n : Nat) (b : Block) : List Block :=
  if n + hdr < b.size then [⟨n, false⟩, ⟨b.size - n - hdr, true⟩]
  else [⟨b.size, false⟩]

def firstFit (n : Nat) : Nat → List Block → Option (Nat × List Block)
  | _, [] => none
  | a, b :: bs =>
      if n ≤ b.size ∧ b.free = true then some (a + hdr, carve hdr n b ++ bs)
      else (firstFit n (a + hdr + b.size) bs).map fun r => (r.1, b :: r.2)

def glue (b : Block) : List Block → List Block
  | [] => [b]
  | c :: cs =>
      if b.free = true ∧ c.free = true then ⟨b.size + hdr + c.size, true⟩ :: cs
      else b :: c :: cs

def release (p : Nat) : Nat → List Block → Option (List Block)
  | _, [] => none
  | a, b :: bs =>
      if a + hdr = p ∧ b.free = false then some (glue hdr ⟨b.size, true⟩ bs)
      else (release p (a + hdr + b.size) bs).map (glue hdr b)

variable {hdr}

theorem span_append (bs cs : List Block) :
    span hdr (bs ++ cs) = span hdr bs + span hdr cs := by
  induction bs with
  | nil => simp [span]
  | cons b bs ih => simp only [List.cons_append, span, ih, Nat.add_assoc]

theorem span_carve (n : Nat) (b : Block) :
    span hdr (carve hdr n b) = hdr + b.size := by
  unfold carve
  split
  · simp only [span]
    omega
  · simp [span]

theorem span_glue (b : Block) (bs : List Block) :
    span hdr (glue hdr b bs) = hdr + b.size + span hdr bs := by
  cases bs with
  | nil => rfl
  | cons c cs =>
      simp only [glue]
      split
      · simp only [span]
        omega
      · rfl

theorem firstFit_cons_some {n a p : Nat} {b : Block} {bs rest : List Block}
    (hfit : firstFit hdr n a (b :: bs) = some (p, rest)) :
    ((n ≤ b.size ∧ b.free = true) ∧ p = a + hdr ∧ rest = carve hdr n b ++ bs) ∨
    (¬ (n ≤ b.size ∧ b.free = true) ∧
      ∃ tail, firstFit hdr n (a + hdr + b.size) bs = some (p, tail) ∧ rest = b :: tail) := by
  rw [firstFit] at hfit
  by_cases hb : n ≤ b.size ∧ b.free = true
  · rw [if_pos hb] at hfit
    cases hfit
    exact Or.inl ⟨hb, rfl, rfl⟩
  · rw [if_neg hb] at hfit
    rcases Option.map_eq_some_iff.mp hfit with ⟨⟨q, tail⟩, htail, heq⟩
    cases heq
    exact Or.inr ⟨hb, tail, htail, rfl⟩

theorem firstFit_cons_none {n a : Nat} {b : Block} {bs : List Block}
    (hnone : firstFit hdr n a (b :: bs) = none) :
    ¬ (n ≤ b.size ∧ b.free = true) ∧ firstFit hdr n (a + hdr + b.size) bs = none := by
  rw [firstFit] at hnone
  by_cases hb : n ≤ b.size ∧ b.free = true
  · rw [if_pos hb] at hnone
    cases hnone
  · rw [if_neg hb] at hnone
    exact ⟨hb, Option.map_eq_none_iff.mp hnone⟩

theorem release_cons_some {p a : Nat} {b : Block} {bs rest : List Block}
    (hrel : release hdr p a (b :: bs) = some rest) :
    ((a + hdr = p ∧ b.free = false) ∧ rest = glue hdr ⟨b.size, true⟩ bs) ∨
    (¬ (a + hdr = p ∧ b.free = false) ∧
      ∃ tail, release hdr p (a + hdr + b.size) bs = some tail ∧ rest = glue hdr b tail) := by
  rw [release] at hrel
  by_cases hb : a + hdr = p ∧ b.free = false
  · rw [if_pos hb] at hrel
    cases hrel
    exact Or.inl ⟨hb, rfl⟩
  · rw [if_neg hb] at hrel
    rcases Option.map_eq_some_iff.mp hrel with ⟨tail, htail, heq⟩
    exact Or.inr ⟨hb, tail, htail, heq.symm⟩

theorem release_cons_none {p a : Nat} {b : Block} {bs : List Block}
    (hnone : release hdr p a (b :: bs) = none) :
    ¬ (a + hdr = p ∧ b.free = false) ∧ release hdr p (a + hdr + b.size) bs = none := by
  rw [release] at hnone
  by_cases hb : a + hdr = p ∧ b.free = false
  · rw [if_pos hb] at hnone
    cases hnone
  · rw [if_neg hb] at hnone
    exact ⟨hb, Option.map_eq_none_iff.mp hnone⟩

theorem firstFit_isEmpty {n a p : Nat} {bs rest : List Block}
    (hfit : firstFit hdr n a bs = some (p, rest)) : rest.isEmpty = bs.isEmpty := by
  cases bs with
  | nil => simp [firstFit] at hfit
  | cons b bs =>
      rcases firstFit_cons_some hfit with ⟨-, -, heq⟩ | ⟨-, tail, -, heq⟩
      · rw [heq, carve]
        split <;> rfl
      · rw [heq]
        rfl

theorem span_firstFit {n a p : Nat} {bs rest : List Block}
    (hfit : firstFit hdr n a bs = some (p, rest)) :
    span hdr rest = span hdr bs := by
  induction bs generalizing a rest with
  | nil => simp [firstFit] at hfit
  | cons b bs ih =>
      rcases firstFit_cons_some hfit with ⟨-, -, heq⟩ | ⟨-, tail, htail, heq⟩
      · rw [heq, span_append, span_carve, span]
      · rw [heq, span, span, ih htail]

theorem glue_ne_nil (b : Block) (bs : List Block) : glue hdr b bs ≠ [] := by
  cases bs with
  | nil => simp [glue]
  | cons c cs =>
      simp only [glue]
      split <;> simp

theorem release_ne_nil {p a : Nat} {bs rest : List Block}
    (hrel : release hdr p a bs = some rest) : bs ≠ [] ∧ rest ≠ [] := by
  cases bs with
  | nil => simp [release] at hrel
  | cons b bs =>
      refine ⟨List.cons_ne_nil b bs, ?_⟩
      rcases release_cons_some hrel with ⟨-, heq⟩ | ⟨-, tail, -, heq⟩ <;> rw [heq] <;>
        exact glue_ne_nil _ _

theorem span_release {p a : Nat} {bs rest : List Block}
    (hrel : release hdr p a bs = some rest) : span hdr rest = span hdr bs := by
  induction bs generalizing a rest with
  | nil => simp [release] at hrel
  | cons b bs ih =>
      rcases release_cons_some hrel with ⟨-, heq⟩ | ⟨-, tail, htail, heq⟩
      · rw [heq, span_glue, span]
      · rw [heq, span_glue, span, ih htail]

theorem separated_cons {b : Block} {bs : List Block} :
    Separated (b :: bs) ↔
      (∀ c ∈ bs.head?, ¬ (b.free = true ∧ c.free = true)) ∧ Separated bs :=
  List.isChain_cons

theorem firstFit_head_free {n a p : Nat} {bs rest : List Block}
    (hfit : firstFit hdr n a bs = some (p, rest)) :
    ∀ c ∈ rest.head?, c.free = true → ∃ d ∈ bs.head?, d.free = true := by
  intro c hc hfree
  cases bs with
  | nil => simp [firstFit] at hfit
  | cons b bs =>
      refine ⟨b, rfl, ?_⟩
      rcases firstFit_cons_some hfit with ⟨hb, -⟩ | ⟨-, tail, -, heq⟩
      · exact hb.2
      · rw [heq] at hc
        cases hc
        exact hfree

theorem separated_firstFit {n a p : Nat} {bs rest : List Block}
    (hsep : Separated bs) (hfit : firstFit hdr n a bs = some (p, rest)) :
    Separated rest := by
  induction bs generalizing a rest with
  | nil => simp [firstFit] at hfit
  | cons b bs ih =>
      have hb := separated_cons.mp hsep
      rcases firstFit_cons_some hfit with ⟨hfree, -, heq⟩ | ⟨-, tail, htail, heq⟩
      · have hnext : ∀ c ∈ bs.head?, c.free = false := by
          intro c hc
          have := hb.1 c hc
          simpa [hfree.2] using this
        rw [heq, carve]
        split
        · refine separated_cons.mpr ⟨by simp, separated_cons.mpr ⟨?_, hb.2⟩⟩
          intro c hc
          simp [hnext c hc]
        · exact separated_cons.mpr ⟨by simp, hb.2⟩
      · rw [heq]
        refine separated_cons.mpr ⟨?_, ih hb.2 htail⟩
        rintro c hc ⟨hbfree, hcfree⟩
        obtain ⟨d, hd, hdfree⟩ := firstFit_head_free htail c hc hcfree
        exact hb.1 d hd ⟨hbfree, hdfree⟩

theorem separated_glue {b : Block} {bs : List Block} (hsep : Separated bs) :
    Separated (glue hdr b bs) := by
  cases bs with
  | nil => exact separated_cons.mpr ⟨by simp, hsep⟩
  | cons c cs =>
      have hc := separated_cons.mp hsep
      simp only [glue]
      split
      · next hfree =>
        refine separated_cons.mpr ⟨?_, hc.2⟩
        intro d hd
        have := hc.1 d hd
        simpa [hfree.2] using this
      · next hnot => exact separated_cons.mpr ⟨by simpa using hnot, hsep⟩

theorem separated_release {p a : Nat} {bs rest : List Block} (hsep : Separated bs)
    (hrel : release hdr p a bs = some rest) : Separated rest := by
  induction bs generalizing a rest with
  | nil => simp [release] at hrel
  | cons b bs ih =>
      have hb := separated_cons.mp hsep
      rcases release_cons_some hrel with ⟨-, heq⟩ | ⟨-, tail, htail, heq⟩
      · rw [heq]
        exact separated_glue hb.2
      · rw [heq]
        exact separated_glue (ih hb.2 htail)

theorem glue_of_separated {b : Block} {bs : List Block}
    (hsep : ∀ c ∈ bs.head?, ¬ (b.free = true ∧ c.free = true)) :
    glue hdr b bs = b :: bs := by
  cases bs with
  | nil => rfl
  | cons c cs => simp only [glue, if_neg (hsep c rfl)]

theorem glue_head_free (b : Block) (bs : List Block) :
    ∀ c ∈ (glue hdr b bs).head?, c.free = b.free := by
  intro c hc
  cases bs with
  | nil => cases hc; rfl
  | cons d ds =>
      simp only [glue] at hc
      split at hc
      · next hfree => cases hc; exact hfree.1.symm
      · cases hc; rfl

theorem held_bounds {a p s : Nat} {bs : List Block} (hmem : (p, s) ∈ held hdr a bs) :
    a + hdr ≤ p ∧ p + s ≤ a + span hdr bs := by
  induction bs generalizing a with
  | nil => simp [held] at hmem
  | cons b bs ih =>
      simp only [held] at hmem
      simp only [span]
      split at hmem
      · have := ih hmem
        omega
      · rcases List.mem_cons.mp hmem with heq | htail
        · cases heq
          omega
        · have := ih htail
          omega

theorem layout_bounds {a h : Nat} {b : Block} {bs : List Block}
    (hmem : (h, b) ∈ layout hdr a bs) :
    a ≤ h ∧ h + hdr + b.size ≤ a + span hdr bs := by
  induction bs generalizing a with
  | nil => simp [layout] at hmem
  | cons c bs ih =>
      simp only [layout] at hmem
      simp only [span]
      rcases List.mem_cons.mp hmem with heq | htail
      · cases heq
        omega
      · have := ih htail
        omega

theorem held_pairwise (a : Nat) (bs : List Block) :
    (held hdr a bs).Pairwise fun x y => x.1 + x.2 + hdr ≤ y.1 := by
  induction bs generalizing a with
  | nil => exact List.Pairwise.nil
  | cons b bs ih =>
      simp only [held]
      split
      · exact ih _
      · refine List.pairwise_cons.mpr ⟨?_, ih _⟩
        rintro ⟨p, s⟩ hmem
        have := held_bounds hmem
        simp only
        omega

theorem held_apart {a : Nat} {bs : List Block} {x y : Nat × Nat}
    (hx : x ∈ held hdr a bs) (hy : y ∈ held hdr a bs) (hne : x ≠ y) :
    x.1 + x.2 + hdr ≤ y.1 ∨ y.1 + y.2 + hdr ≤ x.1 := by
  have hpairs := @held_pairwise hdr a bs
  generalize held hdr a bs = blocks at hx hy hpairs
  induction blocks with
  | nil => cases hx
  | cons b blocks ih =>
      obtain ⟨hfirst, hrest⟩ := List.pairwise_cons.mp hpairs
      rcases List.mem_cons.mp hx with rfl | hx' <;> rcases List.mem_cons.mp hy with rfl | hy'
      · exact absurd rfl hne
      · exact Or.inl (hfirst y hy')
      · exact Or.inr (hfirst x hx')
      · exact ih hx' hy' hrest

theorem held_avoids_headers {a p s h : Nat} {b : Block} {bs : List Block}
    (hheld : (p, s) ∈ held hdr a bs) (hmem : (h, b) ∈ layout hdr a bs) :
    h + hdr ≤ p ∨ p + s ≤ h := by
  induction bs generalizing a with
  | nil => simp [held] at hheld
  | cons c bs ih =>
      simp only [held] at hheld
      simp only [layout] at hmem
      rcases List.mem_cons.mp hmem with heq | htail
      · cases heq
        split at hheld
        · have := held_bounds hheld
          omega
        · rcases List.mem_cons.mp hheld with heq | hlater
          · cases heq
            omega
          · have := held_bounds hlater
            omega
      · have hlow := layout_bounds htail
        split at hheld
        · exact ih hheld htail
        · rcases List.mem_cons.mp hheld with heq | hlater
          · cases heq
            omega
          · exact ih hlater htail

theorem held_mem_layout {a p s : Nat} {bs : List Block}
    (hheld : (p, s) ∈ held hdr a bs) :
    ∃ h, p = h + hdr ∧ (h, ⟨s, false⟩) ∈ layout hdr a bs := by
  induction bs generalizing a with
  | nil => simp [held] at hheld
  | cons b bs ih =>
      simp only [held] at hheld
      simp only [layout, List.mem_cons]
      split at hheld
      · obtain ⟨h, heq, hmem⟩ := ih hheld
        exact ⟨h, heq, Or.inr hmem⟩
      · next hfree =>
        rcases List.mem_cons.mp hheld with heq | htail
        · cases heq
          refine ⟨a, rfl, Or.inl ?_⟩
          cases b
          simp_all
        · obtain ⟨h, heq, hmem⟩ := ih htail
          exact ⟨h, heq, Or.inr hmem⟩

theorem layout_mem_held {a h : Nat} {b : Block} {bs : List Block}
    (hmem : (h, b) ∈ layout hdr a bs) (hfree : b.free = false) :
    (h + hdr, b.size) ∈ held hdr a bs := by
  induction bs generalizing a with
  | nil => simp [layout] at hmem
  | cons c bs ih =>
      simp only [layout] at hmem
      simp only [held]
      rcases List.mem_cons.mp hmem with heq | htail
      · cases heq
        simp [hfree]
      · split
        · exact ih htail
        · exact List.mem_cons_of_mem _ (ih htail)

theorem held_glue (a : Nat) (b : Block) (bs : List Block) :
    held hdr a (glue hdr b bs) = held hdr a (b :: bs) := by
  cases bs with
  | nil => rfl
  | cons c cs =>
      simp only [glue]
      split
      · next hfree =>
        simp only [held, hfree.1, hfree.2, if_true]
        congr 1
        omega
      · rfl

theorem held_carve_append (a n : Nat) (b : Block) (bs : List Block) :
    held hdr a (carve hdr n b ++ bs) =
      (a + hdr, if n + hdr < b.size then n else b.size) ::
        held hdr (a + hdr + b.size) bs := by
  unfold carve
  by_cases hroom : n + hdr < b.size
  · have hend : a + hdr + n + hdr + (b.size - n - hdr) = a + hdr + b.size := by omega
    simp [hroom, held, hend]
  · simp [hroom, held]

/-- First fit fails just when no free block is large enough. -/
theorem firstFit_eq_none_iff {n a : Nat} {bs : List Block} :
    firstFit hdr n a bs = none ↔ ∀ b ∈ bs, b.free = true → b.size < n := by
  induction bs generalizing a with
  | nil => simp [firstFit]
  | cons b bs ih =>
      rw [firstFit, List.forall_mem_cons]
      split
      · next hfit =>
        simp only [reduceCtorEq, false_iff, not_and]
        intro hsmall
        have := hsmall hfit.2
        omega
      · next hfit =>
        rw [Option.map_eq_none_iff, ih]
        constructor
        · intro hrest
          refine ⟨fun hfree => ?_, hrest⟩
          by_contra hlarge
          exact hfit ⟨Nat.le_of_not_lt hlarge, hfree⟩
        · exact fun hall => hall.2

/-- First fit carves up one block and keeps those in front of it and behind it. -/
theorem firstFit_split {n a p : Nat} {bs rest : List Block}
    (hfit : firstFit hdr n a bs = some (p, rest)) :
    ∃ front b back, bs = front ++ b :: back ∧ rest = front ++ (carve hdr n b ++ back) ∧
      p = a + span hdr front + hdr ∧ n ≤ b.size ∧ b.free = true := by
  induction bs generalizing a rest with
  | nil => simp [firstFit] at hfit
  | cons b bs ih =>
      rcases firstFit_cons_some hfit with ⟨hb, hp, heq⟩ | ⟨-, tail, htail, heq⟩
      · exact ⟨[], b, bs, rfl, heq, by simp [hp, span], hb⟩
      · rcases ih htail with ⟨front, c, back, rfl, rfl, hp, hc⟩
        have hstart : p = a + span hdr (b :: front) + hdr := by
          simp only [span]
          omega
        exact ⟨b :: front, c, back, rfl, heq, hstart, hc⟩

theorem firstFit_lowest {n a p h : Nat} {b : Block} {bs rest : List Block}
    (hfit : firstFit hdr n a bs = some (p, rest)) (hmem : (h, b) ∈ layout hdr a bs)
    (hsize : n ≤ b.size) (hfree : b.free = true) : p ≤ h + hdr := by
  induction bs generalizing a rest with
  | nil => simp [layout] at hmem
  | cons c bs ih =>
      rcases firstFit_cons_some hfit with ⟨-, hp, -⟩ | ⟨hskip, tail, htail, -⟩
      · have hbounds := layout_bounds hmem
        omega
      · rcases List.mem_cons.mp hmem with heq | hlater
        · cases heq
          exact absurd ⟨hsize, hfree⟩ hskip
        · exact ih htail hlater

/-! How many blocks of one size first fit can hand out. -/

def slots (hdr n : Nat) (bs : List Block) : Nat :=
  (bs.map fun b => if b.free then (b.size + hdr) / (n + hdr) else 0).sum

theorem slots_append (n : Nat) (bs cs : List Block) :
    slots hdr n (bs ++ cs) = slots hdr n bs + slots hdr n cs := by
  rw [slots, List.map_append, List.sum_append, slots, slots]

theorem slots_cons (n : Nat) (b : Block) (bs : List Block) :
    slots hdr n (b :: bs) =
      (if b.free then (b.size + hdr) / (n + hdr) else 0) + slots hdr n bs := by
  rw [slots, List.map_cons, List.sum_cons, slots]

theorem slots_carve {n : Nat} {b : Block} (hpos : 0 < n) (hsize : n ≤ b.size) :
    slots hdr n (carve hdr n b) + 1 = (b.size + hdr) / (n + hdr) := by
  by_cases hroom : n + hdr < b.size
  · have hrest : b.size - n - hdr + hdr = b.size + hdr - (n + hdr) := by omega
    calc slots hdr n (carve hdr n b) + 1 = (b.size - n - hdr + hdr) / (n + hdr) + 1 := by
          simp [carve, hroom, slots]
      _ = (b.size + hdr - (n + hdr)) / (n + hdr) + 1 := by rw [hrest]
      _ = (b.size + hdr) / (n + hdr) := (Nat.div_eq_sub_div (by omega) (by omega)).symm
  · calc slots hdr n (carve hdr n b) + 1 = 1 := by simp [carve, hroom, slots]
      _ = (b.size + hdr) / (n + hdr) := (Nat.div_eq_of_lt_le (by omega) (by omega)).symm

theorem slots_firstFit {n a p : Nat} {bs rest : List Block} (hpos : 0 < n)
    (hfit : firstFit hdr n a bs = some (p, rest)) :
    slots hdr n bs = slots hdr n rest + 1 := by
  rcases firstFit_split hfit with ⟨front, b, back, hbs, hrest, -, hsize, hfree⟩
  calc slots hdr n bs = slots hdr n front + ((b.size + hdr) / (n + hdr) + slots hdr n back) := by
        rw [hbs, slots_append, slots_cons, if_pos hfree]
    _ = slots hdr n front + (slots hdr n (carve hdr n b) + 1 + slots hdr n back) := by
        rw [slots_carve hpos hsize]
    _ = slots hdr n front + (slots hdr n (carve hdr n b) + slots hdr n back) + 1 := by omega
    _ = slots hdr n rest + 1 := by rw [hrest, slots_append, slots_append]

theorem slots_eq_zero_iff {n a : Nat} {bs : List Block} (hpos : 0 < n) :
    slots hdr n bs = 0 ↔ firstFit hdr n a bs = none := by
  rw [firstFit_eq_none_iff]
  induction bs with
  | nil => simp [slots]
  | cons b bs ih =>
      rw [slots_cons, List.forall_mem_cons, ← ih, Nat.add_eq_zero_iff]
      apply and_congr_left
      intro _
      cases b.free with
      | false => simp
      | true =>
          rw [if_pos rfl, Nat.div_eq_zero_iff, imp_iff_right rfl]
          omega

theorem held_cons_perm {a : Nat} {b : Block} {bs cs : List Block} {x : Nat × Nat}
    (hperm : (held hdr (a + hdr + b.size) bs).Perm (x :: held hdr (a + hdr + b.size) cs)) :
    (held hdr a (b :: bs)).Perm (x :: held hdr a (b :: cs)) := by
  simp only [held]
  split
  · exact hperm
  · generalize held hdr (a + hdr + b.size) bs = before at hperm ⊢
    generalize held hdr (a + hdr + b.size) cs = after at hperm ⊢
    calc List.Perm ((a + hdr, b.size) :: before) ((a + hdr, b.size) :: x :: after) := hperm.cons _
      List.Perm _ (x :: (a + hdr, b.size) :: after) := List.Perm.swap _ _ _

/-- First fit adds one held block, at least as large as the request. -/
theorem held_firstFit {n a p : Nat} {bs rest : List Block}
    (hfit : firstFit hdr n a bs = some (p, rest)) :
    ∃ s, n ≤ s ∧ (held hdr a rest).Perm ((p, s) :: held hdr a bs) := by
  induction bs generalizing a rest with
  | nil => simp [firstFit] at hfit
  | cons b bs ih =>
      rcases firstFit_cons_some hfit with ⟨hb, hp, heq⟩ | ⟨-, tail, htail, heq⟩
      · refine ⟨if n + hdr < b.size then n else b.size, ?_, ?_⟩
        · split
          · exact Nat.le_refl n
          · exact hb.1
        · rw [hp, heq, held_carve_append, held, if_pos hb.2]
      · rcases ih htail with ⟨s, hs, hperm⟩
        rw [heq]
        exact ⟨s, hs, held_cons_perm hperm⟩

/-- Release takes exactly the block it was asked for off the held blocks. -/
theorem held_release {p a : Nat} {bs rest : List Block}
    (hrel : release hdr p a bs = some rest) :
    ∃ s, (held hdr a bs).Perm ((p, s) :: held hdr a rest) := by
  induction bs generalizing a rest with
  | nil => simp [release] at hrel
  | cons b bs ih =>
      rcases release_cons_some hrel with ⟨hb, heq⟩ | ⟨-, tail, htail, heq⟩
      · refine ⟨b.size, ?_⟩
        rw [heq, held_glue]
        simp only [held, hb.2, ← hb.1, if_true, Bool.false_eq_true, if_false]
        exact List.Perm.refl _
      · rcases ih htail with ⟨s, hperm⟩
        refine ⟨s, ?_⟩
        rw [heq, held_glue]
        exact held_cons_perm hperm

theorem release_isSome {p s a : Nat} {bs : List Block}
    (hheld : (p, s) ∈ held hdr a bs) : ∃ rest, release hdr p a bs = some rest := by
  induction bs generalizing a with
  | nil => simp [held] at hheld
  | cons b bs ih =>
      simp only [held] at hheld
      simp only [release]
      split
      · exact ⟨_, rfl⟩
      · next hnot =>
        have htail : (p, s) ∈ held hdr (a + hdr + b.size) bs := by
          split at hheld
          · exact hheld
          · next hfree =>
            rcases List.mem_cons.mp hheld with heq | htail
            · cases heq
              simp_all
            · exact htail
        obtain ⟨rest, hrest⟩ := ih htail
        exact ⟨glue hdr b rest, by rw [hrest]; rfl⟩

theorem release_eq_none_iff {p a : Nat} {bs : List Block} :
    release hdr p a bs = none ↔ ∀ s, (p, s) ∉ held hdr a bs := by
  constructor
  · intro hnone s hheld
    rcases release_isSome hheld with ⟨rest, hrest⟩
    rw [hnone] at hrest
    cases hrest
  · intro hgone
    cases hrel : release hdr p a bs with
    | none => rfl
    | some rest =>
        rcases held_release hrel with ⟨s, hperm⟩
        exact absurd (hperm.mem_iff.mpr List.mem_cons_self) (hgone s)

theorem held_starts_nodup (a : Nat) (bs : List Block) (hpos : 0 < hdr) :
    ((held hdr a bs).map Prod.fst).Nodup := by
  refine List.pairwise_map.mpr ((held_pairwise a bs).imp ?_)
  intro x y hxy
  omega

theorem free_block_end {a : Nat} {b : Block} {bs : List Block} (hsep : Separated (b :: bs))
    (hfree : b.free = true) :
    a + hdr + b.size =
      ((held hdr a (b :: bs)).head?.map fun x => x.1 - hdr).getD (a + span hdr (b :: bs)) := by
  cases bs with
  | nil => simp [held, hfree, span, Nat.add_assoc]
  | cons c cs =>
      have hc : c.free = false := by
        have hnot := (separated_cons.mp hsep).1 c rfl
        simpa [hfree] using hnot
      simp [held, hfree, hc]

theorem held_free_ne {a n : Nat} {b : Block} {bs : List Block} {rest : List (Nat × Nat)}
    (hpos : 0 < hdr) (hfree : b.free = true) :
    held hdr a (b :: bs) ≠ (a + hdr, n) :: rest := by
  intro heq
  have hmem : (a + hdr, n) ∈ held hdr a (b :: bs) := by
    rw [heq]
    exact List.mem_cons_self
  simp only [held, hfree, if_true] at hmem
  have hbounds := held_bounds hmem
  omega

theorem held_head_free {a : Nat} {b c : Block} {bs cs : List Block} (hpos : 0 < hdr)
    (hheld : held hdr a (b :: bs) = held hdr a (c :: cs)) : b.free = c.free := by
  cases hb : b.free with
  | true =>
      cases hc : c.free with
      | true => rfl
      | false =>
          rw [held.eq_2 hdr a c cs] at hheld
          simp only [hc] at hheld
          exact absurd hheld (held_free_ne hpos hb)
  | false =>
      cases hc : c.free with
      | true =>
          rw [held.eq_2 hdr a b bs] at hheld
          simp only [hb] at hheld
          exact absurd hheld.symm (held_free_ne hpos hc)
      | false => rfl

theorem held_head_size {a : Nat} {b c : Block} {bs cs : List Block}
    (hbs : Separated (b :: bs)) (hcs : Separated (c :: cs))
    (hspan : span hdr (b :: bs) = span hdr (c :: cs))
    (hheld : held hdr a (b :: bs) = held hdr a (c :: cs)) (hkind : b.free = c.free) :
    b.size = c.size := by
  cases hc : c.free with
  | true =>
      have hbend := @free_block_end hdr a _ _ hbs (hkind.trans hc)
      have hcend := @free_block_end hdr a _ _ hcs hc
      rw [hheld, hspan, ← hcend] at hbend
      omega
  | false =>
      simp only [held, hkind, hc, Bool.false_eq_true, if_false, List.cons.injEq, Prod.mk.injEq,
        true_and] at hheld
      exact hheld.1

/-- A separated list is known by its length in bytes and its held blocks. -/
theorem separated_ext {a : Nat} {bs cs : List Block} (hpos : 0 < hdr) (hbs : Separated bs)
    (hcs : Separated cs) (hspan : span hdr bs = span hdr cs)
    (hheld : held hdr a bs = held hdr a cs) : bs = cs := by
  induction bs generalizing a cs with
  | nil =>
      cases cs with
      | nil => rfl
      | cons c cs =>
          simp only [span] at hspan
          omega
  | cons b bs ih =>
      cases cs with
      | nil =>
          simp only [span] at hspan
          omega
      | cons c cs =>
          have hkind := held_head_free hpos hheld
          have hsize := held_head_size hbs hcs hspan hheld hkind
          have hblock : b = c := by
            cases b
            cases c
            simp_all
          subst hblock
          have htail : held hdr (a + hdr + b.size) bs = held hdr (a + hdr + b.size) cs := by
            cases hb : b.free with
            | true => simpa only [held, hb, if_true] using hheld
            | false =>
                simp only [held, hb, Bool.false_eq_true, if_false, List.cons.injEq] at hheld
                exact hheld.2
          simp only [span, Nat.add_left_cancel_iff] at hspan
          have hrest := ih (separated_cons.mp hbs).2 (separated_cons.mp hcs).2 hspan htail
          rw [hrest]

theorem held_ext {a : Nat} {bs cs : List Block} (hpos : 0 < hdr)
    (hmem : ∀ x, x ∈ held hdr a bs ↔ x ∈ held hdr a cs) : held hdr a bs = held hdr a cs := by
  have hlt : ∀ ds : List Block, (held hdr a ds).Pairwise fun x y => x.1 < y.1 := by
    intro ds
    apply (held_pairwise a ds).imp
    intro x y hxy
    omega
  have hnodup : ∀ ds : List Block, (held hdr a ds).Nodup := by
    intro ds
    exact (held_starts_nodup a ds hpos).of_map
  have hperm := (List.perm_ext_iff_of_nodup (hnodup bs) (hnodup cs)).mpr hmem
  apply hperm.eq_of_pairwise _ (hlt bs) (hlt cs)
  intro x y _ _ hxy hyx
  omega

theorem mem_held_release {p a : Nat} {bs rest : List Block} (hpos : 0 < hdr)
    (hrel : release hdr p a bs = some rest) (x : Nat × Nat) :
    x ∈ held hdr a rest ↔ x ∈ held hdr a bs ∧ x.1 ≠ p := by
  rcases held_release hrel with ⟨size, hperm⟩
  have hstarts := (hperm.map Prod.fst).nodup_iff.mp (held_starts_nodup a bs hpos)
  have hgone := (List.nodup_cons.mp hstarts).1
  rw [hperm.mem_iff, List.mem_cons]
  constructor
  · intro hmem
    constructor
    · exact Or.inr hmem
    · intro heq
      apply hgone
      exact List.mem_map.mpr ⟨x, hmem, heq⟩
  · intro h
    rcases h with ⟨hnew | hold, hne⟩
    · exact absurd (congrArg Prod.fst hnew) hne
    · exact hold

end Mpx.BlockList
