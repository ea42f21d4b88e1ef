import Mpx.Base.Strtok
import Mpx.Base.Words
import Mpx.Heap.Calls
import Mpx.User.Commands

/-! The copy that `set_pcb_priority` makes of the name on its line. -/

namespace Mpx

open Memory CString Tokens

def strcpy (m : Mem) (dest : U32) : List U8 → Mem
  | [] => store8 m dest 0
  | c :: src => if c ≠ 0 then strcpy (store8 m dest c) (dest + 1) src else store8 m dest 0

/-- The copy of `src` at `ptr` stays inside of its block, and it is the same string. -/
structure CopyFits (h : Heap) (ptr : U32) (src : List U8) : Prop where
  room : (text src).length + 1 ≤ payloadSize h ptr
  inside : ∀ x : U32, x.toNat < ptr.toNat ∨ ptr.toNat + payloadSize h ptr ≤ x.toNat →
    (strcpy h.mem ptr src).byte x = h.mem.byte x
  copied : ∀ i, i ≤ (text src).length →
    (strcpy h.mem ptr src).byte (ptr + BitVec.ofNat 32 i) = deref (text src) i

section Copy

variable {m : Mem} {dest x ptr size : U32} {src s : List U8} {h h' : Heap} {live : List U32} {i : Nat}

theorem strcpy_cons {c : U8} (hc : c ≠ 0) (m : Mem) (dest : U32) (src : List U8) :
    strcpy m dest (c :: src) = strcpy (store8 m dest c) (dest + 1) src := if_pos hc

theorem strcpy_end (hsrc : text src = []) (m : Mem) (dest : U32) :
    strcpy m dest src = store8 m dest 0 := by
  cases src with
  | nil => rfl
  | cons c src =>
      have hc : c = 0 := by
        by_contra hc
        rw [text_cons hc] at hsrc
        cases hsrc
      exact if_neg fun hne => hne hc

theorem toNat_next (hfit : dest.toNat + 1 < 2 ^ 32) : (dest + 1).toNat = dest.toNat + 1 := by
  have hone : (1 : U32).toNat = 1 := rfl
  rw [BitVec.toNat_add, hone]
  omega

theorem strcpy_frame (hfit : dest.toNat + (text src).length < 2 ^ 32)
    (hx : x.toNat < dest.toNat ∨ dest.toNat + (text src).length < x.toNat) :
    (strcpy m dest src).byte x = m.byte x := by
  have hne : x ≠ dest := by
    intro heq
    rw [heq] at hx
    omega
  induction src generalizing m dest with
  | nil => exact if_neg hne
  | cons c src ih =>
      by_cases hc : c = 0
      · rw [strcpy_end (by rw [hc, text_zero])]
        exact if_neg hne
      · rw [text_cons hc, List.length_cons] at hfit hx
        have hnext : (dest + 1).toNat = dest.toNat + 1 := toNat_next (by omega)
        have hne' : x ≠ dest + 1 := by
          intro heq
          rw [heq, hnext] at hx
          omega
        rw [strcpy_cons hc, ih (by omega) (by omega) hne']
        exact if_neg hne

theorem strcpy_copied (hfit : dest.toNat + (text src).length < 2 ^ 32)
    (hi : i ≤ (text src).length) :
    (strcpy m dest src).byte (dest + BitVec.ofNat 32 i) = deref (text src) i := by
  induction src generalizing m dest i with
  | nil =>
      have hzero : i = 0 := Nat.le_zero.mp hi
      rw [hzero, BitVec.add_zero]
      exact if_pos rfl
  | cons c src ih =>
      by_cases hc : c = 0
      · rw [hc, text_zero] at hi ⊢
        have hzero : i = 0 := Nat.le_zero.mp hi
        rw [hzero, BitVec.add_zero, strcpy_end (text_zero src)]
        exact if_pos rfl
      · rw [text_cons hc, List.length_cons] at hfit hi
        have hnext : (dest + 1).toNat = dest.toNat + 1 := toNat_next (by omega)
        rw [strcpy_cons hc, text_cons hc]
        cases i with
        | zero =>
            rw [BitVec.add_zero, strcpy_frame (by omega) (by omega)]
            exact if_pos rfl
        | succ i =>
            have hstep : dest + BitVec.ofNat 32 (i + 1) = dest + 1 + BitVec.ofNat 32 i := by
              rw [BitVec.ofNat_add, BitVec.add_comm (BitVec.ofNat 32 i), ← BitVec.add_assoc]
              rfl
            rw [hstep, ih (by omega) (Nat.le_of_succ_le_succ hi)]
            rfl

theorem allocated_block (hown : OwnsBlocks h live) (hsize : size.toNat ≤ 2 ^ 32 - 4)
    (hcall : allocateMemory h size = .ok (ptr, h')) (hptr : ptr ≠ 0) :
    size.toNat ≤ payloadSize h' ptr ∧ ptr.toNat + payloadSize h' ptr ≤ 2 ^ 32 := by
  have hown' := allocateMemory_owns hown hcall
  rw [if_neg hptr] at hown'
  rcases hown with ⟨a, total, bs, hinv⟩
  rcases hown' with ⟨a', total', bs', hinv'⟩
  have hinside := (payloads_isolated hinv').inside ptr List.mem_cons_self
  have hend := encodes_span hinv'.represents.encodes hinv'.represents.nonempty
  rw [hinv'.total] at hend
  exact ⟨atLeastRequested_small hinv.represents hsize ptr h' hcall hptr, hinside.2.trans hend⟩

theorem copyFits_of_room (hroom : (text src).length + 1 ≤ payloadSize h ptr)
    (hend : ptr.toNat + payloadSize h ptr ≤ 2 ^ 32) : CopyFits h ptr src where
  room := hroom
  inside := fun x hx => strcpy_frame (by omega) (by omega)
  copied := fun i hi => strcpy_copied (by omega) hi

end Copy

section Line

variable {h : Heap} {live : List U32} {buf : U32} {s : List U8}

theorem whitespace_nonzero : (0 : U8) ∉ whitespace := by decide

/-- A line that is not blank has a first name, and the line that is cut behind it is at least
as long as the name. -/
theorem strtok_not_blank (leftover : Option Nat) (hline : ∃ c ∈ text s, c ∉ whitespace) :
    ∃ copy st, Strtok.strtok (some 0) whitespace ⟨s, leftover⟩ = (some copy, st) ∧
      IsToken (Strtok.Delim whitespace) (text s) copy (text (st.bytes.drop copy)) ∧
      (text (st.bytes.drop copy)).length ≤ strlen st.bytes ∧ strlen st.bytes ≤ strlen s := by
  have hspells := spells_text s
  rcases Strtok.strtok_start s whitespace leftover with ⟨hgap, -⟩ | ⟨a, t, -, htoken, hcall⟩
  · rcases hline with ⟨c, hc, hblank⟩
    rcases List.mem_iff_getElem?.mp hc with ⟨i, hi⟩
    have hdelim := hgap i c (Nat.zero_le i) (List.getElem?_eq_some_iff.mp hi).1 hi
    rw [Strtok.Delim, text_eq_self whitespace_nonzero] at hdelim
    exact absurd hdelim hblank
  · have hbound := htoken.length_le
    refine ⟨a, _, hcall, ?_⟩
    simp only [Strtok.text_cut hspells htoken (Nat.zero_le a)]
    rw [strlen_eq_length, strlen_eq_length, Strtok.text_cut_start htoken, List.length_take]
    exact ⟨htoken, by omega, by omega⟩

structure LineAt (h : Heap) (buf : U32) (s : List U8) : Prop where
  fits : buf.toNat + strlen s < 2 ^ 32
  header : buf.toNat + strlen s < h.memlist.toNat ∨ h.memlist.toNat + 4 ≤ buf.toNat

theorem LineAt.length (hat : LineAt h buf s) (hown : OwnsBlocks h live) :
    strlen s + 5 ≤ 2 ^ 32 := by
  rcases hown with ⟨a, total, bs, hinv⟩
  have hrep := hinv.represents
  have hfirst : h.memlist.toNat + 4 ≤ 2 ^ 32 := by
    rcases List.exists_cons_of_ne_nil hrep.nonempty with ⟨b, rest, hbs⟩
    have henc : Encodes h.mem a (b :: rest) := hbs ▸ hrep.encodes
    have hfits := henc.1.fits
    rw [hrep.memlist, henc.1.addr_toNat]
    omega
  have hfits := hat.fits
  rcases hat.header with hbefore | hbehind <;> omega

/-- The first name of a line that is not blank, and its copy in a new block for as many bytes
as the cut line has, with its zero. -/
theorem name_copy_fits (leftover : Option Nat) (hline : ∃ c ∈ text s, c ∉ whitespace)
    (hown : OwnsBlocks h live) (hat : LineAt h buf s) :
    ∃ copy st, Strtok.strtok (some 0) whitespace ⟨s, leftover⟩ = (some copy, st) ∧
      IsToken (Strtok.Delim whitespace) (text s) copy (text (st.bytes.drop copy)) ∧
      ∀ name h', allocateMemory h (BitVec.ofNat 32 (strlen st.bytes + 1)) = .ok (name, h') →
        name ≠ 0 → CopyFits h' name (st.bytes.drop copy) := by
  have hlength := hat.length hown
  rcases strtok_not_blank leftover hline with ⟨copy, st, hcall, htoken, hshort, hcut⟩
  refine ⟨copy, st, hcall, htoken, ?_⟩
  intro name h' halloc hname
  have hsize : (BitVec.ofNat 32 (strlen st.bytes + 1)).toNat = strlen st.bytes + 1 :=
    toNat_ofNat_of_lt (by omega)
  rcases allocated_block hown (by omega) halloc hname with ⟨hroom, hend⟩
  exact copyFits_of_room (by omega) hend

/-- A name behind two blanks, copied into the first block of the heap. -/
theorem name_copy_fits_blanks :
    ∃ copy st name h', Strtok.strtok (some 0) whitespace ⟨[32, 32, 66, 66, 10], none⟩ =
        (some copy, st) ∧
      IsToken (Strtok.Delim whitespace) (text [32, 32, 66, 66, 10]) copy
        (text (st.bytes.drop copy)) ∧
      allocateMemory kernelHeap (BitVec.ofNat 32 (strlen st.bytes + 1)) = .ok (name, h') ∧
      name ≠ 0 ∧ CopyFits h' name (st.bytes.drop copy) := by
  have hline : ∃ c ∈ text [32, 32, 66, 66, 10], c ∉ whitespace := ⟨66, by decide, by decide⟩
  obtain ⟨copy, st, hcall, htoken, hcopy⟩ := name_copy_fits none hline kernelHeap_owns
    (⟨by decide, Or.inl (by decide)⟩ : LineAt kernelHeap 0x8000 [32, 32, 66, 66, 10])
  have hsize : strlen st.bytes < 6 := by
    obtain ⟨copy', st', hcall', -, -, hcut⟩ := strtok_not_blank none hline
    rw [hcall] at hcall'
    cases hcall'
    exact Nat.lt_succ_of_le hcut
  have hcompute : ∀ n < 6, (allocateMemory kernelHeap (BitVec.ofNat 32 (n + 1))).map Prod.fst =
      .ok 0xd000004 := by decide +kernel
  obtain ⟨h', halloc⟩ := Run.of_map_fst_ok (hcompute _ hsize)
  exact ⟨_, _, 0xd000004, h', hcall, htoken, halloc, by decide, hcopy _ h' halloc (by decide)⟩

end Line

end Mpx
