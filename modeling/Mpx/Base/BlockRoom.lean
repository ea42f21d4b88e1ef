import Mpx.Base.BlockList

/-! How much room the held blocks take, and how much the free ones between them can be worth. -/

namespace Mpx.BlockList

variable {hdr : Nat}

def heldBytes (hdr a : Nat) (bs : List Block) : Nat :=
  ((held hdr a bs).map fun x => hdr + x.2).sum

theorem heldBytes_free {a : Nat} {b : Block} (hfree : b.free = true) (bs : List Block) :
    heldBytes hdr a (b :: bs) = heldBytes hdr (a + hdr + b.size) bs := by
  simp [heldBytes, held, hfree]

theorem heldBytes_held {a : Nat} {b : Block} (hheld : b.free = false) (bs : List Block) :
    heldBytes hdr a (b :: bs) = hdr + b.size + heldBytes hdr (a + hdr + b.size) bs := by
  simp [heldBytes, held, hheld]

theorem heldBytes_le_span (a : Nat) (bs : List Block) : heldBytes hdr a bs ≤ span hdr bs := by
  induction bs generalizing a with
  | nil => exact Nat.le_refl 0
  | cons b bs ih =>
      have htail := ih (a + hdr + b.size)
      cases hb : b.free with
      | true =>
          rw [heldBytes_free hb, span]
          omega
      | false =>
          rw [heldBytes_held hb, span]
          omega

theorem length_mul_le_span {a n : Nat} {bs : List Block} {ps : List (Nat × Nat)}
    (hnodup : ps.Nodup) (hheld : ps ⊆ held hdr a bs) (hsize : ∀ x ∈ ps, n ≤ x.2) :
    ps.length * (hdr + n) ≤ span hdr bs := by
  obtain ⟨qs, hperm, hsublist⟩ := hnodup.subperm hheld
  have hcount : (qs.map fun x => hdr + x.2).length • (hdr + n) ≤
      (qs.map fun x => hdr + x.2).sum := by
    apply List.card_nsmul_le_sum
    intro y hy
    obtain ⟨x, hx, rfl⟩ := List.mem_map.mp hy
    exact Nat.add_le_add_left (hsize x (hperm.mem_iff.mp hx)) hdr
  have hsum : (qs.map fun x => hdr + x.2).sum ≤ heldBytes hdr a bs :=
    (hsublist.map _).sum_le_sum fun _ _ => Nat.zero_le _
  calc ps.length * (hdr + n) = (qs.map fun x => hdr + x.2).length • (hdr + n) := by
        rw [List.length_map, hperm.length_eq, smul_eq_mul]
    _ ≤ heldBytes hdr a bs := hcount.trans hsum
    _ ≤ span hdr bs := heldBytes_le_span a bs

/-- Between two free blocks of a separated list lies a held one. -/
theorem span_le_of_separated {a n : Nat} {bs : List Block} (hsep : Separated bs)
    (hsmall : ∀ b ∈ bs, b.free = true → hdr + b.size ≤ n) :
    span hdr bs ≤ heldBytes hdr a bs + ((held hdr a bs).length + 1) * n ∧
      ((∀ b ∈ bs.head?, b.free = false) →
        span hdr bs ≤ heldBytes hdr a bs + (held hdr a bs).length * n) := by
  induction bs generalizing a with
  | nil => simp [span]
  | cons b bs ih =>
      obtain ⟨hnext, hrest⟩ := separated_cons.mp hsep
      obtain ⟨hany, hheld⟩ := ih (a := a + hdr + b.size) hrest
        fun c hc => hsmall c (List.mem_cons_of_mem _ hc)
      cases hb : b.free with
      | true =>
          have hlater : ∀ c ∈ bs.head?, c.free = false := by
            intro c hc
            simpa [hb] using hnext c hc
          have hbound := hheld hlater
          have hsize := hsmall b List.mem_cons_self hb
          refine ⟨?_, fun hfirst => ?_⟩
          · rw [heldBytes_free hb, span, held, if_pos hb, Nat.add_mul, Nat.one_mul]
            omega
          · exact absurd (hfirst b rfl) (by simp [hb])
      | false =>
          have hlength : (held hdr a (b :: bs)).length =
              (held hdr (a + hdr + b.size) bs).length + 1 := by simp [held, hb]
          have hbound : span hdr (b :: bs) ≤
              heldBytes hdr a (b :: bs) + (held hdr a (b :: bs)).length * n := by
            rw [heldBytes_held hb, span, hlength]
            omega
          refine ⟨hbound.trans ?_, fun _ => hbound⟩
          exact Nat.add_le_add_left (Nat.mul_le_mul_right n (Nat.le_succ _)) _

end Mpx.BlockList
