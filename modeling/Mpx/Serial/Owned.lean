import Mpx.Serial.History

/-! The blocks of the queued requests: each call of the driver takes at most one from the
heap or gives one back. -/

namespace Mpx

open Memory PointerList Run

variable {σ : Type} {F : HeapFunctions σ} {Owns : σ → List U32 → Prop}

/-- The open port with its queue, whose requests lie in blocks of the heap. -/
structure Requests (Owns : σ → List U32 → Prop) (d : Device σ) (queue live : List U32) :
    Prop where
  openPort : OpenPort d
  queued : d.Queued queue
  owns : Owns d.heap live
  held : queue ⊆ live

def SameProcesses (d d' : Device σ) (queue : List U32) : Prop :=
  ∀ p ∈ queue, (d'.iocbs p).currProc = (d.iocbs p).currProc

theorem SameRequests.currProc {iocbs iocbs' : U32 → Iocb} (h : SameRequests iocbs iocbs')
    (p : U32) : (iocbs' p).currProc = (iocbs p).currProc := by
  rw [h p]

theorem ioScheduler_requests {d d' : Device σ} {queue live : List U32}
    {proc dev buf len : U32} {op : OpCode} (hlaws : HeapLaws F Owns)
    (h : Requests Owns d queue live) (hop : op = .read ∨ op = .write)
    (hrun : ioScheduler F d proc dev buf len op = .ok d') :
    ∃ new, Requests Owns d' (queue ++ new) (new ++ live) ∧ SameProcesses d d' queue ∧
      ∀ p ∈ new, (d'.iocbs p).currProc = proc := by
  by_cases hrefused : dev ≠ COM1 ∨ buf = 0
  · rw [ioScheduler_refused proc len op hrefused] at hrun
    cases hrun
    refine ⟨[], ?_, fun _ _ => rfl, fun p hp => absurd hp List.not_mem_nil⟩
    rw [List.append_nil]
    exact h
  · rcases not_or.mp hrefused with ⟨hdev, hbuf⟩
    have hcom : dev = COM1 := not_not.mp hdev
    subst hcom
    rcases ioScheduler_alloc hbuf hrun with ⟨temp, heap, halloc, htemp⟩
    rcases hlaws.malloc_fresh h.owns halloc htemp with ⟨hnew, hown⟩
    have hfresh : temp ∉ queue := fun hmem => hnew (h.held hmem)
    rcases @ioScheduler_append σ F _ _ _ proc buf len _ op h.queued hbuf halloc htemp hfresh with
      ⟨iocbs, ioHead, hqueue, hsame, heq⟩
    rw [heq] at hrun
    rcases startIfIdle_sameQueue (h.openPort.withQueue heap iocbs ioHead) hop hbuf with
      ⟨d₁, hstart, hsameQueue⟩
    rw [hstart] at hrun
    cases hrun
    have hiocbs : d'.iocbs = iocbs := hsameQueue.iocbs
    refine ⟨[temp], ?_, ?_, ?_⟩
    · constructor
      · exact hsameQueue.openPort
      · rw [Device.Queued, hsameQueue.iocbs, hsameQueue.ioHead]
        exact hqueue
      · rw [hsameQueue.heap]
        exact hown
      · intro p hp
        rcases List.mem_append.mp hp with hold | hlast
        · exact List.mem_cons_of_mem _ (h.held hold)
        · rw [List.mem_singleton.mp hlast]
          exact List.mem_cons_self
    · intro p hp
      rw [hiocbs, hsame.currProc, Function.update_of_ne (ne_of_mem_of_not_mem hp hfresh)]
    · intro p hp
      rw [List.mem_singleton.mp hp, hiocbs, hsame.currProc, Function.update_self]

theorem serialInputInterrupt_requests {d : Device σ} {queue live : List U32}
    (h : Requests Owns d queue live) : Requests Owns (serialInputInterrupt d) queue live := by
  rw [serialInputInterrupt]
  split
  · exact ⟨h.openPort.congr rfl rfl rfl rfl, h.queued, h.owns, h.held⟩
  · exact h

theorem iocbs_serialInputInterrupt (d : Device σ) : (serialInputInterrupt d).iocbs = d.iocbs := by
  rw [serialInputInterrupt]
  split <;> rfl

/-- An interrupt goes on with a transfer, or it ends the oldest request, releases its
block and unblocks its process. -/
theorem serialOutputInterrupt_requests {d d' : Device σ} {s s' : Procs}
    {queue live : List U32} (hlaws : HeapLaws F Owns) (h : Requests Owns d queue live)
    (hrun : serialOutputInterrupt F d s = .ok (d', s')) :
    d'.iocbs = d.iocbs ∧ ((s' = s ∧ Requests Owns d' queue live) ∨
      ∃ p rest, queue = p :: rest ∧ Requests Owns d' rest (live.erase p) ∧
        unblockPcb s (d.iocbs p).currProc = .ok s') := by
  by_cases hop : d.port.operation = .write
  · by_cases hhead : d.port.ioHead = 0
    · rw [serialOutputInterrupt, if_neg (not_not.mpr hop)] at hrun
      simp only [Device.outb, if_pos hhead] at hrun
      cases hrun
    · by_cases hmore : d.More
      · rw [serialOutputInterrupt_more s h.openPort.currDev hop hhead hmore] at hrun
        cases hrun
        refine ⟨rfl, Or.inl ⟨rfl, ?_, h.queued, h.owns, h.held⟩⟩
        exact h.openPort.congr rfl rfl rfl rfl
      · rw [serialOutputInterrupt_done s hop hhead hmore] at hrun
        rcases of_bind_ok hrun with ⟨s₁, hunblock, hrest⟩
        rcases of_bind_ok hrest with ⟨⟨r, heap⟩, hfree, heq⟩
        cases heq
        have hqueued := h.queued
        cases queue with
        | nil => exact absurd hqueued hhead
        | cons p rest =>
            rcases hqueued with ⟨hp, hne, htail⟩
            rw [hp] at hunblock hfree
            rcases hlaws.free_live h.owns (h.held List.mem_cons_self) with
              ⟨r₁, heap₁, hfree₁, hown⟩
            rw [sysFreeMem, hfree₁] at hfree
            cases hfree
            refine ⟨rfl, Or.inr ⟨p, rest, rfl, ?_, hunblock⟩⟩
            have hlist : IsList 0 (nextIocb d.iocbs) p (p :: rest) := ⟨rfl, hne, htail⟩
            have hgone : p ∉ rest := (List.nodup_cons.mp hlist.nodup).1
            constructor
            · exact ⟨rfl, h.openPort.initialized, h.openPort.currDev, h.openPort.ringHead⟩
            · simp only [Device.Queued, Device.completed, hp]
              exact htail
            · exact hown
            · intro x hx
              exact (List.mem_erase_of_ne (ne_of_mem_of_not_mem hx hgone)).mpr
                (h.held (List.mem_cons_of_mem _ hx))
  · rw [serialOutputInterrupt_spurious s hop] at hrun
    cases hrun
    exact ⟨rfl, Or.inl ⟨rfl, h⟩⟩

end Mpx
