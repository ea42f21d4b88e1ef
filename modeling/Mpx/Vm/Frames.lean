import Mpx.Vm.Model

/-! The bitmap of the frames: `find_free` returns the lowest frame that is not in use. -/

namespace Mpx

open Memory

def FrameUsed (frames : Nat → U32) (n : Nat) : Prop :=
  (frames (n / 32)).getLsbD (n % 32) = true

instance (frames : Nat → U32) (n : Nat) : Decidable (FrameUsed frames n) :=
  inferInstanceAs (Decidable (_ = true))

section Bits

variable {word : U32} {j n : Nat}

theorem getLsbD_bit (hn : n < 32) (j : Nat) : ((1 : U32) <<< j).getLsbD n = decide (n = j) := by
  have hone : (1 : U32).getLsbD (n - j) = decide (n - j = 0) := by
    have hword : (1 : U32) = 1#32 := rfl
    rw [hword, BitVec.getLsbD_one]
    simp
  rw [BitVec.getLsbD_shiftLeft, hone, decide_eq_true hn, Bool.true_and]
  by_cases hnj : n = j
  · simp [hnj]
  · by_cases hlt : n < j
    · simp [hlt, hnj]
    · have hpos : n - j ≠ 0 := by omega
      simp [hpos, hnj]

theorem bit_clear_iff (hj : j < 32) : word &&& ((1 : U32) <<< j) = 0 ↔ word.getLsbD j = false := by
  constructor
  · intro hzero
    have hbit := congrArg (fun w : U32 => w.getLsbD j) hzero
    simp only [BitVec.getLsbD_and, getLsbD_bit hj, decide_true, Bool.and_true] at hbit
    rw [hbit]
    exact BitVec.getLsbD_zero
  · intro hclear
    apply BitVec.eq_of_getLsbD_eq
    intro i hi
    rw [BitVec.getLsbD_and, getLsbD_bit hi]
    by_cases hij : i = j
    · rw [hij, hclear, Bool.false_and]
      exact BitVec.getLsbD_zero.symm
    · rw [decide_eq_false hij, Bool.and_false]
      exact BitVec.getLsbD_zero.symm

theorem full_iff : word = 0xffffffff ↔ ∀ b < 32, word.getLsbD b = true := by
  have hones : (0xffffffff : U32) = BitVec.allOnes 32 := by decide
  rw [hones]
  constructor
  · intro hfull b hb
    rw [hfull, BitVec.getLsbD_allOnes]
    exact decide_eq_true hb
  · intro hall
    apply BitVec.eq_of_getLsbD_eq
    intro i hi
    rw [hall i hi, BitVec.getLsbD_allOnes]
    exact (decide_eq_true hi).symm

theorem findBitLoop_spec {rest : Nat} (hset : ∀ b, b < n → word.getLsbD b = true)
    (hclear : word.getLsbD n = false) (hn : n < 32) (hj : j ≤ n) (hrest : n < j + rest) :
    findBitLoop word rest j = some n := by
  induction rest generalizing j with
  | zero => omega
  | succ rest ih =>
      rw [findBitLoop]
      by_cases hjn : j = n
      · rw [if_pos ((bit_clear_iff (by omega)).mpr (by rw [hjn, hclear])), hjn]
      · have hlt : j < n := by omega
        have hbit : ¬ word &&& ((1 : U32) <<< j) = 0 := by
          rw [bit_clear_iff (by omega), hset j hlt]
          exact Bool.noConfusion
        rw [if_neg hbit]
        exact ih hlt (by omega)

end Bits

section Bitmap

variable {frames : Nat → U32} {k n : Nat}

theorem frameUsed_word (i : Nat) {b : Nat} (hb : b < 32) :
    FrameUsed frames (i * 32 + b) ↔ (frames i).getLsbD b = true := by
  have hdiv : (i * 32 + b) / 32 = i := by omega
  have hmod : (i * 32 + b) % 32 = b := by omega
  rw [FrameUsed, hdiv, hmod]

theorem findFreeLoop_spec {rest i : Nat} (hused : ∀ k < n, FrameUsed frames k)
    (hfree : ¬ FrameUsed frames n) (hi : i ≤ n / 32) (hrest : n / 32 < i + rest) :
    findFreeLoop frames rest i = BitVec.ofNat 32 n := by
  induction rest generalizing i with
  | zero => omega
  | succ rest ih =>
      rw [findFreeLoop, FRAME_BIT]
      by_cases hin : i = n / 32
      · have hclear : (frames i).getLsbD (n % 32) = false := by
          rw [hin]
          exact Bool.eq_false_iff.mpr hfree
        have hset : ∀ b, b < n % 32 → (frames i).getLsbD b = true := by
          intro b hb
          exact (frameUsed_word i (by omega)).mp (hused _ (by omega))
        have hnotFull : frames i ≠ 0xffffffff := by
          intro hfull
          rw [full_iff.mp hfull _ (by omega)] at hclear
          cases hclear
        have hbit : findBitLoop (frames i) 32 0 = some (n % 32) :=
          findBitLoop_spec hset hclear (by omega) (Nat.zero_le _) (by omega)
        have hsum : i * 32 + n % 32 = n := by omega
        rw [if_pos hnotFull, hbit]
        simp only [hsum]
      · have hfull : frames i = 0xffffffff := by
          rw [full_iff]
          intro b hb
          exact (frameUsed_word i hb).mp (hused _ (by omega))
        rw [if_neg (not_not.mpr hfull)]
        exact ih (by omega) (by omega)

theorem findFree_spec (hused : ∀ k < n, FrameUsed frames k) (hfree : ¬ FrameUsed frames n)
    (hn : n < 16384) : findFree frames = BitVec.ofNat 32 n :=
  findFreeLoop_spec hused hfree (Nat.zero_le _) (by rw [FRAME_WORDS]; omega)

theorem findFreeLoop_full {rest i : Nat} (hused : ∀ k < 16384, FrameUsed frames k)
    (hi : i + rest ≤ FRAME_WORDS) : findFreeLoop frames rest i = -1 := by
  induction rest generalizing i with
  | zero => rfl
  | succ rest ih =>
      have hbound : i + (rest + 1) ≤ 512 := hi
      have hfull : frames i = 0xffffffff := by
        rw [full_iff]
        intro b hb
        exact (frameUsed_word i hb).mp (hused _ (by omega))
      rw [findFreeLoop, if_neg (not_not.mpr hfull)]
      exact ih (by omega)

theorem ofNat_ne_minus_one (hn : n < 16384) : BitVec.ofNat 32 n ≠ (-1 : U32) := by
  intro heq
  have hval := congrArg BitVec.toNat heq
  have hminus : (-1 : U32).toNat = 2 ^ 32 - 1 := by decide
  rw [toNat_ofNat_of_lt (by omega), hminus] at hval
  omega

def LeastFree (frames : Nat → U32) (n : Nat) : Prop :=
  n < 16384 ∧ ¬ FrameUsed frames n ∧ ∀ k < n, FrameUsed frames k

theorem leastFree_or_full (frames : Nat → U32) :
    (∃ n, LeastFree frames n) ∨ ∀ k < 16384, FrameUsed frames k := by
  by_cases hfree : ∃ n, n < 16384 ∧ ¬ FrameUsed frames n
  · left
    have hleast := Nat.find_spec hfree
    refine ⟨Nat.find hfree, hleast.1, hleast.2, ?_⟩
    intro k hk
    by_contra hnot
    exact Nat.find_min hfree hk ⟨lt_trans hk hleast.1, hnot⟩
  · right
    intro k hk
    by_contra hnot
    exact hfree ⟨k, hk, hnot⟩

theorem LeastFree.findFree_eq (h : LeastFree frames n) : findFree frames = BitVec.ofNat 32 n :=
  findFree_spec h.2.2 h.2.1 h.1

theorem findFree_full (hused : ∀ k < 16384, FrameUsed frames k) : findFree frames = -1 :=
  findFreeLoop_full hused (Nat.zero_add FRAME_WORDS).le

theorem findFree_eq_minus_one_iff : findFree frames = -1 ↔ ∀ k < 16384, FrameUsed frames k := by
  refine ⟨?_, findFree_full⟩
  intro hminus
  rcases leastFree_or_full frames with ⟨n, hn⟩ | hused
  · rw [hn.findFree_eq] at hminus
    exact absurd hminus (ofNat_ne_minus_one hn.1)
  · exact hused

theorem findFree_eq_iff (hn : n < 16384) :
    findFree frames = BitVec.ofNat 32 n ↔ LeastFree frames n := by
  refine ⟨?_, LeastFree.findFree_eq⟩
  intro hfind
  rcases leastFree_or_full frames with ⟨m, hm⟩ | hused
  · have hval := congrArg BitVec.toNat (hm.findFree_eq.symm.trans hfind)
    rw [toNat_ofNat_of_lt (lt_trans hm.1 (by decide)), toNat_ofNat_of_lt (by omega)] at hval
    rw [← hval]
    exact hm
  · rw [findFree_full hused] at hfind
    exact absurd hfind.symm (ofNat_ne_minus_one hn)

theorem setBit_spec (hn : n < 16384) :
    FrameUsed (setBit frames (BitVec.ofNat 32 n * PAGE_SIZE)) k ↔ k = n ∨ FrameUsed frames k := by
  have hframe : (BitVec.ofNat 32 n * PAGE_SIZE / PAGE_SIZE).toNat = n := by
    have hsize : PAGE_SIZE.toNat = 4096 := rfl
    calc (BitVec.ofNat 32 n * PAGE_SIZE / PAGE_SIZE).toNat = n * 4096 % 2 ^ 32 / 4096 := by
          rw [BitVec.toNat_udiv, BitVec.toNat_mul, hsize, toNat_ofNat_of_lt (by omega)]
      _ = n * 4096 / 4096 := by rw [Nat.mod_eq_of_lt (by omega)]
      _ = n := Nat.mul_div_cancel n (by decide)
  rw [FrameUsed, FrameUsed, setBit]
  simp only [hframe, FRAME_BIT]
  by_cases hword : k / 32 = n / 32
  · have hsame : k % 32 = n % 32 ↔ k = n := by omega
    rw [hword, Function.update_self, BitVec.getLsbD_or, getLsbD_bit (by omega), Bool.or_eq_true,
      decide_eq_true_eq, hsame, or_comm]
  · have hne : k ≠ n := fun heq => hword (by rw [heq])
    rw [Function.update_of_ne hword]
    simp [hne]

end Bitmap

end Mpx
