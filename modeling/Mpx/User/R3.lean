import Mathlib.Data.List.TakeWhile
import Mpx.Base.Buffer
import Mpx.Base.CString
import Mpx.Base.Run

/-! The test processes of `user/core.c`: the messages that they build on their stacks and the
requests that they make. -/

namespace Mpx

open Memory CString Run Buffer

/-- The calls of `sys_req` with the bytes that a WRITE points to. -/
inductive SysReq
  | write (buffer : List U8)
  | idle
  | exit
  deriving DecidableEq, Repr

def memcpy (output : List U8) (off : Nat) (src : List U8) (n : Nat) : Except Fault (List U8) :=
  copyInto .outOfBounds output off (src.take n)

/-- `strlen` of an array. Without a zero it runs off the end. -/
def strlenIn (output : List U8) : Except Fault Nat :=
  if strlen output < output.length then .ok (strlen output) else .error .outOfBounds

def terminated (s : String) : List U8 := literal s ++ [0]

def crlf : String := "\r\n"

/-- The three copies that make up a message; `procname` is what lies in memory from its first
character on. -/
def r3Message (output : List U8) (start : String) (procname : List U8) :
    Except Fault (List U8) := do
  let output ← memcpy output 0 (terminated start) (strlen (terminated start) + 1)
  let off ← strlenIn output
  let output ← memcpy output off (text procname ++ [0]) (strlen procname + 1)
  let off ← strlenIn output
  memcpy output off (terminated crlf) (strlen (terminated crlf) + 1)

def r3Rounds (output : List U8) : Nat → Except Fault (List SysReq)
  | 0 => .ok []
  | n + 1 => do
      let len ← strlenIn output
      let rest ← r3Rounds output n
      return .write (output.take len) :: .idle :: rest

/-- `r3_proc` up to its EXIT, which does not return. -/
def r3Proc (output : Vector U8 100) (iterations : Int) (procname : List U8) :
    Except Fault (List SysReq) := do
  let output ← r3Message output.toList "dispatched " procname
  let rounds ← r3Rounds output iterations.toNat
  let output ← r3Message output "exiting " procname
  let len ← strlenIn output
  return rounds ++ [.write (output.take len), .exit]

def proc1 (output : Vector U8 100) : Except Fault (List SysReq) :=
  r3Proc output 1 (terminated "proc1")

def proc2 (output : Vector U8 100) : Except Fault (List SysReq) :=
  r3Proc output 2 (terminated "proc2")

def proc3 (output : Vector U8 100) : Except Fault (List SysReq) :=
  r3Proc output 3 (terminated "proc3")

def proc4 (output : Vector U8 100) : Except Fault (List SysReq) :=
  r3Proc output 4 (terminated "proc4")

def proc5 (output : Vector U8 100) : Except Fault (List SysReq) :=
  r3Proc output 5 (terminated "proc5")

/-- What the second process asks for. -/
example : proc2 (Vector.replicate 100 255) = .ok [.write (literal "dispatched proc2\r\n"), .idle,
    .write (literal "dispatched proc2\r\n"), .idle, .write (literal "exiting proc2\r\n"),
    .exit] := by decide +kernel

def messageOf (start : String) (procname : List U8) : List U8 :=
  literal start ++ text procname ++ literal crlf

section Strings

variable {output t s : List U8} {start : String} {procname : List U8}

structure Holding (output t : List U8) : Prop where
  plain : (0 : U8) ∉ t
  rest : ∃ rest, output = t ++ 0 :: rest

theorem text_plain (hplain : (0 : U8) ∉ t) (rest : List U8) : text (t ++ 0 :: rest) = t := by
  induction t with
  | nil => rfl
  | cons c t ih =>
      obtain ⟨hc, ht⟩ := List.ne_and_not_mem_of_not_mem_cons hplain
      rw [List.cons_append, text_cons (Ne.symm hc), ih ht]

theorem not_mem_text (s : List U8) : (0 : U8) ∉ text s := by
  intro hmem
  have hne := List.mem_takeWhile_imp hmem
  exact absurd rfl (of_decide_eq_true hne)

theorem Holding.text (h : Holding output t) : text output = t := by
  obtain ⟨rest, rfl⟩ := h.rest
  exact text_plain h.plain rest

theorem Holding.strlenIn (h : Holding output t) : strlenIn output = .ok t.length := by
  have hstrlen : strlen output = t.length := by rw [strlen_eq_length, h.text]
  have hroom : t.length < output.length := by
    obtain ⟨rest, rfl⟩ := h.rest
    rw [List.length_append, List.length_cons]
    omega
  rw [Mpx.strlenIn, hstrlen, if_pos hroom]

theorem Holding.take (h : Holding output t) : output.take t.length = t := by
  obtain ⟨rest, rfl⟩ := h.rest
  exact List.take_left

theorem holding_copyInto (hfront : output.take t.length = t) (ht : (0 : U8) ∉ t)
    (hs : (0 : U8) ∉ s) (hfit : t.length + s.length + 1 ≤ output.length) :
    ∃ output', copyInto Fault.outOfBounds output t.length (s ++ [0]) = .ok output' ∧
      output'.length = output.length ∧ Holding output' (t ++ s) := by
  have hlength : (s ++ [0]).length = s.length + 1 := List.length_append
  refine ⟨_, copyInto_fits (by omega), ?_, fun hmem => ?_,
    output.drop (t.length + (s ++ [0]).length), ?_⟩
  · simp only [List.length_append, List.length_take, List.length_drop, List.length_singleton]
    omega
  · exact (List.mem_append.mp hmem).elim ht hs
  · rw [hfront, List.append_assoc, List.append_assoc, List.append_assoc]
    rfl

theorem take_terminated (hstart : (0 : U8) ∉ literal start) :
    (terminated start).take (strlen (terminated start) + 1) = literal start ++ [0] := by
  rw [terminated, strlen_eq_length, text_plain hstart]
  exact List.take_of_length_le (by rw [List.length_append]; rfl)

theorem take_procname (procname : List U8) :
    (text procname ++ [0]).take (strlen procname + 1) = text procname ++ [0] := by
  rw [strlen_eq_length]
  exact List.take_of_length_le (by rw [List.length_append]; rfl)

end Strings

section Messages

variable {output : List U8} {start : String} {procname : List U8}

/-- The second copy starts where the first one has put its zero, and the third where the second
has. -/
theorem r3Message_copies (hstart : (0 : U8) ∉ literal start)
    (hfirst : (literal start).length + 1 ≤ output.length) :
    ∃ output₁, output₁.length = output.length ∧ Holding output₁ (literal start) ∧
      r3Message output start procname =
        (copyInto Fault.outOfBounds output₁ (literal start).length (text procname ++ [0]) >>=
          fun output₂ => strlenIn output₂ >>=
          fun off => copyInto Fault.outOfBounds output₂ off (literal crlf ++ [0])) := by
  obtain ⟨output₁, hcopy, hlength, hholding⟩ := @holding_copyInto output [] _ rfl
    List.not_mem_nil hstart (by rw [List.length_nil]; omega)
  refine ⟨output₁, hlength, hholding, ?_⟩
  have hcrlf : (0 : U8) ∉ literal crlf := by decide
  simp only [r3Message, memcpy, take_terminated hstart, take_terminated hcrlf, take_procname]
  rw [show copyInto Fault.outOfBounds output 0 (literal start ++ [0]) = .ok output₁ from hcopy,
    ok_bind, hholding.strlenIn, ok_bind]
  rfl

theorem r3Message_fits (hstart : (0 : U8) ∉ literal start)
    (hfit : (literal start).length + (text procname).length + 3 ≤ output.length) :
    ∃ output', r3Message output start procname = .ok output' ∧ output'.length = output.length ∧
      Holding output' (messageOf start procname) := by
  obtain ⟨output₁, hlength₁, hholding₁, heq⟩ :=
    @r3Message_copies output start procname hstart (by omega)
  obtain ⟨output₂, hcopy₂, hlength₂, hholding₂⟩ := holding_copyInto hholding₁.take hholding₁.plain
    (not_mem_text procname) (by omega)
  have hcrlf : (0 : U8) ∉ literal crlf := by decide
  have hlength : (literal crlf).length = 2 := rfl
  obtain ⟨output₃, hcopy₃, hlength₃, hholding₃⟩ := holding_copyInto hholding₂.take hholding₂.plain
    hcrlf (by rw [List.length_append]; omega)
  refine ⟨output₃, ?_, by omega, hholding₃⟩
  rw [heq, hcopy₂, ok_bind, hholding₂.strlenIn, ok_bind, hcopy₃]

theorem r3Message_overruns (hstart : (0 : U8) ∉ literal start)
    (hfirst : (literal start).length + 1 ≤ output.length)
    (hlong : output.length < (literal start).length + (text procname).length + 3) :
    r3Message output start procname = .error .outOfBounds := by
  obtain ⟨output₁, hlength₁, hholding₁, heq⟩ :=
    @r3Message_copies output start procname hstart hfirst
  rw [heq]
  by_cases hname : (literal start).length + (text procname).length + 1 ≤ output.length
  · obtain ⟨output₂, hcopy₂, hlength₂, hholding₂⟩ := holding_copyInto hholding₁.take
      hholding₁.plain (not_mem_text procname) (by omega)
    have hlength : (literal crlf ++ [0]).length = 3 := rfl
    rw [hcopy₂, ok_bind, hholding₂.strlenIn, ok_bind]
    rw [copyInto_overruns (by rw [List.length_append]; omega) (by rw [List.length_append]; omega)]
  · have hlength : (text procname ++ [0]).length = (text procname).length + 1 :=
      List.length_append
    rw [copyInto_overruns (by omega) (by omega)]
    rfl

theorem r3Rounds_eq {t : List U8} (h : Holding output t) (n : Nat) :
    r3Rounds output n = .ok (List.replicate n [.write t, .idle]).flatten := by
  induction n with
  | zero => rfl
  | succ n ih =>
      rw [r3Rounds, h.strlenIn, ok_bind, ih, h.take, List.replicate_succ, List.flatten_cons]
      rfl

end Messages

/-- Whatever is on its stack, a test process stays inside its buffer exactly when its name has
at most 86 characters, and then it writes its message, yields, and so on `iterations` times
before it says that it exits. -/
theorem r3_requests (output : Vector U8 100) (iterations : Int) (procname : List U8) :
    r3Proc output iterations procname =
      if (text procname).length ≤ 86 then
        .ok ((List.replicate iterations.toNat
            [.write (messageOf "dispatched " procname), .idle]).flatten ++
          [.write (messageOf "exiting " procname), .exit])
      else .error .outOfBounds := by
  have hdispatched : (0 : U8) ∉ literal "dispatched " := by decide
  have hexiting : (0 : U8) ∉ literal "exiting " := by decide
  have hlength : (literal "dispatched ").length = 11 ∧ (literal "exiting ").length = 8 := by decide
  have harray : output.toList.length = 100 := output.length_toList
  split
  · next hshort =>
    obtain ⟨output₁, hmessage₁, hlength₁, hholding₁⟩ :=
      @r3Message_fits output.toList _ procname hdispatched (by omega)
    obtain ⟨output₂, hmessage₂, -, hholding₂⟩ :=
      @r3Message_fits output₁ _ procname hexiting (by omega)
    rw [r3Proc, hmessage₁, ok_bind, r3Rounds_eq hholding₁, ok_bind, hmessage₂, ok_bind,
      hholding₂.strlenIn, ok_bind, hholding₂.take]
    rfl
  · next hlong =>
    rw [r3Proc, r3Message_overruns hdispatched (by omega) (by omega)]
    rfl

end Mpx
