import TaskQueueCoSim.Mmio.Bridge

/-!
# One iteration serves a pending request

`ServedOnceForAll` says that one iteration answers and clears every request set
in `CTRL`, and that no later iteration touches the queue, `ACK` or `DATA_OUT`.
Both branches clear their bit in one local copy of `CTRL`, so the pop branch
writes back the push request that the push branch has just cleared:
`servedOnceForAll_iff` shows that the iteration does what it should exactly when
the two requests are not set together.
-/

namespace TaskQueueCoSim.Mmio

open Flags VtbTaskQueue

/-- Exactly one of the two answers to a request is set. -/
def AnsweredOnce (ack : Word) (k : Kind) : Prop :=
  (has ack (k.bit .ok) ^^ has ack (k.bit .refused)) = true

/-- Nothing the host or the queue's user can see of a request differs. -/
structure SameService (s t : Bench) : Prop where
  queue : t.top.queue.queue = s.top.queue.queue
  ack : t.regs.ack = s.regs.ack
  dataOut : t.regs.dataOut = s.regs.dataOut
  performed : ∀ k, performed k t.log = performed k s.log

structure ServedOnceForAll (s : Bench) : Prop where
  answered : ∀ k : Kind, has s.regs.ctrl k.req = true → AnsweredOnce (iteration s).regs.ack k
  cleared : ∀ k : Kind, has s.regs.ctrl k.req = true → has (iteration s).regs.ctrl k.req = false
  performed : ∀ k : Kind, has s.regs.ctrl k.req = true →
    performed k (iteration s).log = performed k s.log +
      if has (iteration s).regs.ack (k.bit .ok) then 1 else 0
  settled : ∀ n, SameService (iteration s) (iterations n (iteration s))

/-! ## The iteration by what is requested -/

section Requests

variable {s : Bench} (he : s.exited = false) (ht : s.regs.tbDone = 0)

include he ht

theorem iteration_idle (hpush : has s.regs.ctrl Kind.push.req = false)
    (hpop : has s.regs.ctrl Kind.pop.req = false) : iteration s = finish false s := by
  simp [iteration, he, read32, ht, pushBranch, popBranch, hpush, hpop]

theorem iteration_push (hpush : has s.regs.ctrl Kind.push.req = true)
    (hpop : has s.regs.ctrl Kind.pop.req = false) :
    iteration s = finish true (pushBranch s.regs.ctrl s.regs.dataIn s).1 := by
  cases hf : s.top.full <;>
    simp [iteration, he, read32, ht, pushBranch, popBranch, hpush, hpop, hf]

theorem iteration_pop (hpush : has s.regs.ctrl Kind.push.req = false)
    (hpop : has s.regs.ctrl Kind.pop.req = true) :
    iteration s = finish true (popBranch s.regs.ctrl s).1 := by
  cases hv : s.top.validOut <;>
    simp [iteration, he, read32, ht, pushBranch, popBranch, hpush, hpop, hv]

/-- With both requests set, the pop branch writes `CTRL` last, from the copy in
which the push request is still set. -/
theorem iteration_both (hpush : has s.regs.ctrl Kind.push.req = true)
    (hpop : has s.regs.ctrl Kind.pop.req = true) :
    (iteration s).regs.ctrl = clear s.regs.ctrl Kind.pop.req := by
  have h (t : Bench) : ((popBranch s.regs.ctrl t).1).regs.ctrl = clear s.regs.ctrl Kind.pop.req := by
    cases hv : t.top.validOut <;> simp [popBranch, hpop, hv, answer, write32]
  cases hf : s.top.full <;> simp [iteration, he, read32, ht, finish, write32, h, pushBranch, hpush, hf]

end Requests

theorem answeredOnce_bit (k : Kind) (a : Answer) : AnsweredOnce (k.bit a) k := by
  cases a <;> simp [AnsweredOnce]

/-! ## Quiet iterations -/

/-- Nothing is requested and nothing is under way. -/
structure Quiet (s : Bench) : Prop where
  ready : Ready s.top
  request : ∀ k : Kind, has s.regs.ctrl k.req = false

theorem Quiet.iteration {s : Bench} (h : Quiet s) :
    Quiet (iteration s) ∧ SameService s (iteration s) := by
  cases he : s.exited
  case true =>
    have e : Mmio.iteration s = s := by simp [Mmio.iteration, he]
    rw [e]
    exact ⟨h, rfl, rfl, rfl, fun _ => rfl⟩
  case false =>
    by_cases ht : s.regs.tbDone = 0
    · rw [iteration_idle he ht (h.request .push) (h.request .pop)]
      obtain ⟨ready, queue⟩ := h.ready.tick
      refine ⟨⟨ready, h.request⟩, ?_, rfl, rfl, fun k => ?_⟩
      · show (s.top.tick).queue.queue = _
        rw [queue]
      · simp [finish, Mmio.performed]
    · have e : Mmio.iteration s = { s with exited := true } := by
        simp only [Mmio.iteration, he, read32, ne_eq, ht, not_false_eq_true, if_true,
          Bool.false_eq_true, if_false]
      rw [e]
      exact ⟨⟨h.ready, h.request⟩, rfl, rfl, rfl, fun _ => rfl⟩

theorem SameService.trans {s t u : Bench} (h : SameService s t) (h' : SameService t u) :
    SameService s u :=
  ⟨h'.queue.trans h.queue, h'.ack.trans h.ack, h'.dataOut.trans h.dataOut,
    fun k => (h'.performed k).trans (h.performed k)⟩

theorem Quiet.iterations {s : Bench} (h : Quiet s) (n : Nat) : SameService s (iterations n s) := by
  induction n generalizing s with
  | zero => exact ⟨rfl, rfl, rfl, fun _ => rfl⟩
  | succ n ih =>
    obtain ⟨quiet, same⟩ := h.iteration
    exact same.trans (ih quiet)

/-! ## One request -/

/-- What a branch leaves behind: the request answered once and cleared, the
queue's ports at rest, and the action reported. -/
structure Served (k : Kind) (s t : Bench) : Prop where
  ready : Ready t.top
  ctrl : t.regs.ctrl = clear s.regs.ctrl k.req
  answer : ∃ a, t.regs.ack = s.regs.ack ||| k.bit a ∧
    ∀ k', performed k' t.log = performed k' s.log + if k' = k ∧ a = .ok then 1 else 0

theorem served_push {s : Bench} (h : Ready s.top) (hpush : has s.regs.ctrl Kind.push.req = true) :
    Served .push s (finish true (pushBranch s.regs.ctrl s.regs.dataIn s).1) := by
  cases hf : s.top.full
  case true =>
    simp only [pushBranch, hpush, hf, if_true]
    refine ⟨h, rfl, .refused, rfl, fun k => ?_⟩
    simp [finish, performed, Outcome.answer]
  case false =>
    simp only [pushBranch, hpush, hf, if_true, Bool.false_eq_true, if_false]
    refine ⟨h.push_done _, rfl, .ok, rfl, fun k => ?_⟩
    cases k <;> simp [finish, performed, Outcome.answer, Outcome.kind]

theorem served_pop {s : Bench} (h : Ready s.top) (hpop : has s.regs.ctrl Kind.pop.req = true) :
    Served .pop s (finish true (popBranch s.regs.ctrl s).1) := by
  cases hv : s.top.validOut
  case false =>
    simp only [popBranch, hpop, hv, if_true, Bool.not_false]
    refine ⟨h, rfl, .refused, rfl, fun k => ?_⟩
    simp [finish, performed, Outcome.answer]
  case true =>
    simp only [popBranch, hpop, hv, if_true, Bool.not_true, Bool.false_eq_true, if_false]
    refine ⟨h.pop_done, rfl, .ok, rfl, fun k => ?_⟩
    cases k <;> simp [finish, performed, Outcome.answer, Outcome.kind]

/-- With one request set, one iteration serves it. -/
theorem served_iteration {s : Bench} (h : Ready s.top) (he : s.exited = false)
    (ht : s.regs.tbDone = 0) (k : Kind) (hk : has s.regs.ctrl k.req = true)
    (hother : has s.regs.ctrl k.other.req = false) : Served k s (iteration s) := by
  cases k with
  | push => exact iteration_push he ht hk hother ▸ served_push h hk
  | pop => exact iteration_pop he ht hother hk ▸ served_pop h hk

theorem servedOnceForAll_of_one {s : Bench} (h : Ready s.top) (he : s.exited = false)
    (ht : s.regs.tbDone = 0) (ha : s.regs.ack = 0) (k : Kind) (hk : has s.regs.ctrl k.req = true)
    (hother : has s.regs.ctrl k.other.req = false) : ServedOnceForAll s := by
  obtain ⟨ready, ctrl, a, ack, done⟩ := served_iteration h he ht k hk hother
  have ack : (iteration s).regs.ack = k.bit a := by simpa [ha] using ack
  have only : ∀ k', has s.regs.ctrl k'.req = true → k' = k := by
    intro k' hk'
    cases k <;> cases k' <;> first | rfl | simp_all [Kind.other]
  have quiet : Quiet (iteration s) := by
    refine ⟨ready, fun k' => ?_⟩
    rw [ctrl]
    by_contra hc
    have := only k' (has_of_has_clear (by simpa using hc))
    subst this
    simp at hc
  refine ⟨fun k' hk' => ?_, fun k' _ => quiet.request k', fun k' hk' => ?_,
    fun n => quiet.iterations n⟩
  · rw [only k' hk', ack]
    exact answeredOnce_bit k a
  · rw [only k' hk', ack, done k]
    simp

/-- **One iteration serves every pending request, once and for all, exactly when
no more than one is pending.** -/
theorem servedOnceForAll_iff (regs : Regs) (top : VtbTaskQueue) (ready : Ready top)
    (hack : regs.ack = 0) (hdone : regs.tbDone = 0) :
    ServedOnceForAll ⟨regs, top, false, []⟩ ↔
      ¬ (has regs.ctrl Kind.push.req = true ∧ has regs.ctrl Kind.pop.req = true) := by
  constructor
  · rintro h ⟨hpush, hpop⟩
    have e := iteration_both (s := ⟨regs, top, false, []⟩) rfl hdone hpush hpop
    have cleared := h.cleared .push hpush
    rw [e, Kind.has_clear_req (by decide), hpush] at cleared
    exact Bool.false_ne_true cleared.symm
  · intro h
    cases hpush : has regs.ctrl Kind.push.req
    case true =>
      exact servedOnceForAll_of_one ready rfl hdone hack .push hpush
        (by simpa [hpush, Kind.other] using h)
    case false =>
      cases hpop : has regs.ctrl Kind.pop.req
      case true => exact servedOnceForAll_of_one ready rfl hdone hack .pop hpop hpush
      case false =>
        have none : ∀ k : Kind, has regs.ctrl k.req = false := by
          intro k
          cases k <;> assumption
        have quiet : Quiet ⟨regs, top, false, []⟩ := ⟨ready, none⟩
        have no {k : Kind} {P : Prop} (hk : has regs.ctrl k.req = true) : P :=
          absurd (hk.symm.trans (none k)) (by simp)
        exact ⟨fun _ => no, fun _ => no, fun _ => no, quiet.iteration.1.iterations⟩

theorem servedOnceForAll_push :
    ServedOnceForAll ⟨{ zeroed with ctrl := 1, dataIn := 7 }, bootZero, false, []⟩ :=
  (servedOnceForAll_iff _ bootZero (boot_spec _ _ _).1 rfl rfl).mpr (by decide)

/-- Both requests set: the push request is back in `CTRL` after the iteration. -/
theorem not_servedOnceForAll_both :
    ¬ ServedOnceForAll ⟨{ zeroed with ctrl := 3, dataIn := 7 }, bootZero, false, []⟩ := by
  intro h
  exact absurd (h.cleared .push (by decide)) (by decide)

end TaskQueueCoSim.Mmio
