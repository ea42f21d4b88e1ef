import Mpx.Base.CString
import Mpx.Process.Links

/-! The search of `pcb_find` through the ready and the suspended queue. -/

namespace Mpx

open Memory PointerList Procs CString Run

def findLoop (s : Procs) (foundName : List U8) : Nat → U32 → Except Fault U32
  | 0, _ => .error .diverges
  | fuel + 1, currPcb =>
      if currPcb = 0 then .ok 0
      else if strcmp foundName (s.pcbs currPcb).name = 0 then .ok currPcb
      else findLoop s foundName fuel (s.next currPcb)

/-- `pcb_find` up to its message. -/
def pcbSearch (s : Procs) (foundName : List U8) : Except Fault U32 := do
  let currPcb ← findLoop s foundName queueFuel s.readyHead
  if currPcb ≠ 0 then return currPcb
  else findLoop s foundName queueFuel s.suspendedHead

section Search

variable {s : Procs} {foundName : List U8} {p z : U32}

def Procs.nameText (s : Procs) (p : U32) : List U8 := text (s.pcbs p).name

theorem findLoop_cases {fuel : Nat} (hrun : findLoop s foundName (fuel + 1) z = .ok p) :
    (z = 0 ∧ p = 0) ∨ (z ≠ 0 ∧ p = z ∧ s.nameText z = text foundName) ∨
      (z ≠ 0 ∧ s.nameText z ≠ text foundName ∧ findLoop s foundName fuel (s.next z) = .ok p) := by
  rw [findLoop] at hrun
  by_cases hz : z = 0
  · rw [if_pos hz] at hrun
    cases hrun
    exact Or.inl ⟨hz, rfl⟩
  · rw [if_neg hz] at hrun
    by_cases hname : strcmp foundName (s.pcbs z).name = 0
    · rw [if_pos hname] at hrun
      cases hrun
      exact Or.inr (Or.inl ⟨hz, rfl, ((strcmp_eq_zero_iff _ _).mp hname).symm⟩)
    · rw [if_neg hname] at hrun
      exact Or.inr (Or.inr
        ⟨hz, fun heq => hname ((strcmp_eq_zero_iff _ _).mpr heq.symm), hrun⟩)

theorem findLoop_found {fuel : Nat} (hrun : findLoop s foundName fuel z = .ok p) (hp : p ≠ 0) :
    Reaches 0 s.next z p ∧ s.nameText p = text foundName := by
  induction fuel generalizing z with
  | zero => cases hrun
  | succ fuel ih =>
      rcases findLoop_cases hrun with ⟨-, hend⟩ | ⟨hz, heq, hname⟩ | ⟨hz, -, hrest⟩
      · exact absurd hend hp
      · rw [heq]
        exact ⟨Reaches.here hz, hname⟩
      · rcases ih hrest with ⟨hreach, htext⟩
        exact ⟨Reaches.step hz hreach, htext⟩

theorem findLoop_none {fuel : Nat} (hrun : findLoop s foundName fuel z = .ok 0)
    (hreach : Reaches 0 s.next z p) : s.nameText p ≠ text foundName := by
  induction fuel generalizing z with
  | zero => cases hrun
  | succ fuel ih =>
      rcases findLoop_cases hrun with ⟨hz, -⟩ | ⟨hz, heq, -⟩ | ⟨-, hname, hrest⟩
      · cases hreach with
        | here hne => exact absurd hz hne
        | step hne _ => exact absurd hz hne
      · exact absurd heq.symm hz
      · cases hreach with
        | here _ => exact hname
        | step _ hreach => exact ih hrest hreach

theorem findLoop_congr {s' : Procs} {foundName' : List U8} {fuel : Nat}
    (hsame : ∀ x, Reaches 0 s.next z x → s'.pcbs x = s.pcbs x)
    (htext : text foundName' = text foundName) :
    findLoop s' foundName' fuel z = findLoop s foundName fuel z := by
  induction fuel generalizing z with
  | zero => rfl
  | succ fuel ih =>
      rw [findLoop, findLoop]
      by_cases hz : z = 0
      · rw [if_pos hz, if_pos hz]
      · have hhere := hsame z (Reaches.here hz)
        have hcmp : strcmp foundName' (s'.pcbs z).name = 0 ↔
            strcmp foundName (s.pcbs z).name = 0 := by
          rw [strcmp_eq_zero_iff, strcmp_eq_zero_iff, htext, hhere]
        have hrest : findLoop s' foundName' fuel (s'.next z) =
            findLoop s foundName fuel (s.next z) := by
          rw [next, hhere]
          exact ih fun x hx => hsame x (Reaches.step hz hx)
        rw [if_neg hz, if_neg hz, hrest]
        simp only [hcmp]

theorem findLoop_error {fuel : Nat} {e : Fault} (hrun : findLoop s foundName fuel z = .error e) :
    e = .diverges := by
  induction fuel generalizing z with
  | zero =>
      cases hrun
      rfl
  | succ fuel ih =>
      rw [findLoop] at hrun
      split at hrun
      · cases hrun
      · split at hrun
        · cases hrun
        · exact ih hrun

theorem pcbSearch_congr {s' : Procs} {foundName' : List U8}
    (hhead : ∀ q, s'.head q = s.head q) (hsame : ∀ x, s.OnSome x → s'.pcbs x = s.pcbs x)
    (htext : text foundName' = text foundName) :
    pcbSearch s' foundName' = pcbSearch s foundName := by
  have hloop : ∀ q, findLoop s' foundName' queueFuel (s'.head q) =
      findLoop s foundName queueFuel (s.head q) := by
    intro q
    rw [hhead q]
    exact findLoop_congr (fun x hx => hsame x ⟨q, hx⟩) htext
  have hready : findLoop s' foundName' queueFuel s'.readyHead =
      findLoop s foundName queueFuel s.readyHead := hloop .ready
  have hsuspended : findLoop s' foundName' queueFuel s'.suspendedHead =
      findLoop s foundName queueFuel s.suspendedHead := hloop .suspended
  rw [pcbSearch, pcbSearch, hready, hsuspended]

theorem pcbSearch_error {e : Fault} (hrun : pcbSearch s foundName = .error e) :
    e = .diverges := by
  rcases of_bind_error hrun with hfirst | ⟨w, -, hrest⟩
  · exact findLoop_error hfirst
  · by_cases hw : w = 0
    · rw [if_neg (not_not.mpr hw)] at hrest
      exact findLoop_error hrest
    · rw [if_pos hw] at hrest
      cases hrest

theorem pcbSearch_found (hrun : pcbSearch s foundName = .ok p) (hp : p ≠ 0) :
    (s.OnQueue .ready p ∨ s.OnQueue .suspended p) ∧ s.nameText p = text foundName := by
  rw [pcbSearch] at hrun
  rcases of_bind_ok hrun with ⟨w, hready, hrest⟩
  by_cases hw : w = 0
  · rw [if_neg (not_not.mpr hw)] at hrest
    rcases findLoop_found hrest hp with ⟨hreach, htext⟩
    exact ⟨Or.inr hreach, htext⟩
  · rw [if_pos hw] at hrest
    cases hrest
    rcases findLoop_found hready hp with ⟨hreach, htext⟩
    exact ⟨Or.inl hreach, htext⟩

theorem pcbSearch_both (hrun : pcbSearch s foundName = .ok 0) :
    findLoop s foundName queueFuel s.readyHead = .ok 0 ∧
      findLoop s foundName queueFuel s.suspendedHead = .ok 0 := by
  rw [pcbSearch] at hrun
  rcases of_bind_ok hrun with ⟨w, hready, hrest⟩
  by_cases hw : w = 0
  · rw [if_neg (not_not.mpr hw)] at hrest
    rw [hw] at hready
    exact ⟨hready, hrest⟩
  · rw [if_pos hw] at hrest
    cases hrest
    exact absurd rfl hw

theorem pcbSearch_none (hrun : pcbSearch s foundName = .ok 0)
    (hp : s.OnQueue .ready p ∨ s.OnQueue .suspended p) : s.nameText p ≠ text foundName := by
  rcases pcbSearch_both hrun with ⟨hready, hsuspended⟩
  rcases hp with hp | hp
  · exact findLoop_none hready hp
  · exact findLoop_none hsuspended hp

theorem findLoop_ends {fuel : Nat} (hrun : findLoop s foundName fuel z = .ok 0) :
    ∃ xs, IsList 0 s.next z xs := by
  induction fuel generalizing z with
  | zero => cases hrun
  | succ fuel ih =>
      rcases findLoop_cases hrun with ⟨hz, -⟩ | ⟨hz, heq, -⟩ | ⟨hz, -, hrest⟩
      · exact ⟨[], hz⟩
      · exact absurd heq.symm hz
      · rcases ih hrest with ⟨xs, hxs⟩
        exact ⟨z :: xs, rfl, hz, hxs⟩

theorem findLoop_unused {fuel : Nat} {xs : List U32} (hlist : IsList 0 s.next z xs)
    (hfuel : xs.length < fuel) (hnames : ∀ x ∈ xs, s.nameText x ≠ text foundName) :
    findLoop s foundName fuel z = .ok 0 := by
  induction xs generalizing z fuel with
  | nil =>
      cases fuel with
      | zero => exact absurd hfuel (Nat.not_lt_zero _)
      | succ fuel => rw [findLoop, isList_nil.mp hlist, if_pos rfl]
  | cons x xs ih =>
      cases fuel with
      | zero => exact absurd hfuel (Nat.not_lt_zero _)
      | succ fuel =>
          rcases hlist with ⟨hz, hne, htail⟩
          rcases List.forall_mem_cons.mp hnames with ⟨hx, hxs⟩
          have hcmp : strcmp foundName (s.pcbs x).name ≠ 0 :=
            fun heq => hx ((strcmp_eq_zero_iff _ _).mp heq).symm
          rw [findLoop, hz, if_neg hne, if_neg hcmp]
          exact ih htail (Nat.lt_of_succ_lt_succ hfuel) hxs

theorem pcbSearch_ends (hrun : pcbSearch s foundName = .ok 0) {q : Queue} (hq : q ≠ .blocked) :
    ∃ xs, s.Holds q xs := by
  rcases pcbSearch_both hrun with ⟨hready, hsuspended⟩
  cases q with
  | ready => exact findLoop_ends hready
  | blocked => exact absurd rfl hq
  | suspended => exact findLoop_ends hsuspended

theorem pcbSearch_unused {xs ys : List U32} (hready : s.Holds .ready xs)
    (hsuspended : s.Holds .suspended ys)
    (hnames : ∀ x, x ∈ xs ∨ x ∈ ys → s.nameText x ≠ text foundName) :
    pcbSearch s foundName = .ok 0 := by
  have hloop : ∀ q zs, s.Holds q zs → (∀ x ∈ zs, s.nameText x ≠ text foundName) →
      findLoop s foundName queueFuel (s.head q) = .ok 0 := by
    intro q zs hzs hunused
    rw [queueFuel]
    exact findLoop_unused hzs (isList_length_lt hzs) hunused
  have hfirst : findLoop s foundName queueFuel s.readyHead = .ok 0 :=
    hloop .ready xs hready fun x hx => hnames x (Or.inl hx)
  have hsecond : findLoop s foundName queueFuel s.suspendedHead = .ok 0 :=
    hloop .suspended ys hsuspended fun x hx => hnames x (Or.inr hx)
  rw [pcbSearch, hfirst, ok_bind, if_neg (not_not.mpr rfl), hsecond]

end Search

end Mpx
