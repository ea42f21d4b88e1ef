import Mpx.Vm.Tables

/-! Whatever bitmap `new_frame` starts from, no frame is given to two pages. -/

namespace Mpx

open Memory

/-- Calls of `new_frame` on entries whose `frameaddr` is 0 that return, and the frames that
stand in the entries afterwards. Between two calls all but the bitmap may change. -/
inductive FrameRun : Vm → List Nat → Vm → Prop
  | nil (vm : Vm) : FrameRun vm [] vm
  | call {vm vm₁ vm' : Vm} {page : U32} {given : List Nat}
      (hunmapped : frameaddr (load32 vm.mem page) = 0) (hrun : newFrame vm page = .ok vm₁)
      (hrest : FrameRun vm₁ given vm') :
      FrameRun vm ((frameaddr (load32 vm₁.mem page)).toNat :: given) vm'
  | other {vm vm₁ vm' : Vm} {given : List Nat} (hframes : vm₁.frames = vm.frames)
      (hrest : FrameRun vm₁ given vm') : FrameRun vm given vm'

structure FindsLeast (frames : Nat → U32) : Prop where
  full : findFree frames = -1 ↔ ∀ k < 16384, FrameUsed frames k
  least : ∀ n < 16384, findFree frames = BitVec.ofNat 32 n ↔
    ¬ FrameUsed frames n ∧ ∀ k < n, FrameUsed frames k
  setBit : ∀ n < 16384, findFree frames = BitVec.ofNat 32 n → ∀ k,
    FrameUsed (setBit frames (findFree frames * PAGE_SIZE)) k ↔ k = n ∨ FrameUsed frames k

structure GivenOnce (before after : Nat → U32) (given : List Nat) : Prop where
  distinct : given.Nodup
  free : ∀ n ∈ given, n < 16384 ∧ ¬ FrameUsed before n
  newlySet : ∀ k, FrameUsed after k ∧ ¬ FrameUsed before k ↔ k ∈ given
  kept : ∀ k, FrameUsed before k → FrameUsed after k

section Calls

variable {vm vm₁ vm' : Vm} {page : U32} {given : List Nat} {frames : Nat → U32} {n : Nat}

theorem findsLeast (frames : Nat → U32) : FindsLeast frames where
  full := findFree_eq_minus_one_iff
  least := by
    intro n hn
    rw [findFree_eq_iff hn, LeastFree, and_iff_right hn]
  setBit := by
    intro n hn hfind k
    rw [hfind]
    exact setBit_spec hn

theorem newFrame_given (hunmapped : frameaddr (load32 vm.mem page) = 0)
    (hrun : newFrame vm page = .ok vm₁) :
    LeastFree vm.frames (frameaddr (load32 vm₁.mem page)).toNat ∧
      ∀ k, FrameUsed vm₁.frames k ↔
        k = (frameaddr (load32 vm₁.mem page)).toNat ∨ FrameUsed vm.frames k := by
  rcases leastFree_or_full vm.frames with ⟨n, hleast⟩ | hused
  · rw [newFrame_least hunmapped hleast] at hrun
    cases hrun
    rw [storeEntry_frameaddr _ _ (lt_trans hleast.1 (by decide))]
    exact ⟨hleast, fun k => setBit_spec hleast.1⟩
  · rw [newFrame_full hunmapped hused] at hrun
    cases hrun

theorem GivenOnce.nil (frames : Nat → U32) : GivenOnce frames frames [] where
  distinct := List.nodup_nil
  free := fun _ hn => absurd hn List.not_mem_nil
  newlySet := fun _ => iff_of_false (fun h => h.2 h.1) List.not_mem_nil
  kept := fun _ hk => hk

theorem GivenOnce.cons {before mid after : Nat → U32} (hleast : LeastFree before n)
    (hset : ∀ k, FrameUsed mid k ↔ k = n ∨ FrameUsed before k) (h : GivenOnce mid after given) :
    GivenOnce before after (n :: given) where
  distinct := by
    rw [List.nodup_cons]
    exact ⟨fun hmem => (h.free n hmem).2 ((hset n).mpr (Or.inl rfl)), h.distinct⟩
  free := by
    intro m hm
    rcases List.mem_cons.mp hm with heq | hmem
    · rw [heq]
      exact ⟨hleast.1, hleast.2.1⟩
    · rcases h.free m hmem with ⟨hlt, hunused⟩
      exact ⟨hlt, fun hused => hunused ((hset m).mpr (Or.inr hused))⟩
  newlySet := by
    intro k
    rw [List.mem_cons, ← h.newlySet k, hset k]
    constructor
    · rintro ⟨hafter, hbefore⟩
      by_cases hk : k = n
      · exact Or.inl hk
      · exact Or.inr ⟨hafter, not_or.mpr ⟨hk, hbefore⟩⟩
    · rintro (hk | ⟨hafter, hmid⟩)
      · rw [hk]
        exact ⟨h.kept n ((hset n).mpr (Or.inl rfl)), hleast.2.1⟩
      · exact ⟨hafter, (not_or.mp hmid).2⟩
  kept := fun k hk => h.kept k ((hset k).mpr (Or.inr hk))

theorem FrameRun.givenOnce (h : FrameRun vm given vm') : GivenOnce vm.frames vm'.frames given := by
  induction h with
  | nil vm => exact GivenOnce.nil vm.frames
  | call hunmapped hrun _ ih =>
      rcases newFrame_given hunmapped hrun with ⟨hleast, hset⟩
      exact GivenOnce.cons hleast hset ih
  | other hframes _ ih =>
      rw [hframes] at ih
      exact ih

end Calls

/-- From every bitmap, for every sequence of calls: the frames given are distinct, were free and
are exactly the bits newly set. -/
theorem frames_given_once :
    (∀ frames, FindsLeast frames) ∧
      ∀ vm given vm', FrameRun vm given vm' → GivenOnce vm.frames vm'.frames given :=
  ⟨findsLeast, fun _ _ _ => FrameRun.givenOnce⟩

/-- In the first word only the highest bit is clear, so the second call goes to the second
word. -/
theorem frames_given_once_bit_31 :
    ∃ vm', FrameRun { bootVm ⟨fun _ => 0⟩ 0x123456 with
        frames := fun i => if i = 0 then 0x7fffffff else 0 } [31, 32] vm' ∧
      GivenOnce (fun i => if i = 0 then 0x7fffffff else 0) vm'.frames [31, 32] := by
  let vm : Vm := { bootVm ⟨fun _ => 0⟩ 0x123456 with
    frames := fun i => if i = 0 then 0x7fffffff else 0 }
  have hcompute : (do
      let vm₁ ← newFrame vm 0x1000
      let vm₂ ← newFrame vm₁ 0x2000
      return ((frameaddr (load32 vm₁.mem 0x1000), frameaddr (load32 vm₁.mem 0x2000),
        frameaddr (load32 vm₂.mem 0x2000)), vm₂)).map Prod.fst = .ok (31, 0, 32) := by
    decide +kernel
  obtain ⟨⟨entries, vm₂⟩, hboth, heq⟩ := Run.of_map_ok hcompute
  obtain ⟨vm₁, hfirst, hrest⟩ := Run.of_bind_ok hboth
  obtain ⟨vm₂, hsecond, hsame⟩ := Run.of_bind_ok hrest
  cases hsame
  simp only [Prod.mk.injEq] at heq
  obtain ⟨hentry₁, hunmapped₂, hentry₂⟩ := heq
  have hunmapped₁ : frameaddr (load32 vm.mem 0x1000) = 0 := by decide
  have hrun := FrameRun.call hunmapped₁ hfirst
    (FrameRun.call hunmapped₂ hsecond (FrameRun.nil _))
  rw [hentry₁, hentry₂] at hrun
  exact ⟨vm₂, hrun, frames_given_once.2 vm [31, 32] vm₂ hrun⟩

end Mpx
