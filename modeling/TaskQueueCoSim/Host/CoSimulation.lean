import TaskQueueCoSim.Host.DeviceRefinement
import TaskQueueCoSim.Mmio.TimedCalls
import TaskQueueCoSim.Oracle.CheckersAgree
import TaskQueueCoSim.Rtl.QueueRefinement

/-!
# The whole co-simulation

`coSimulation` is `test_task_queue_host.c` run through the driver against the bridge,
the testbench and the queue core.  If the bridge gets through an iteration in every 100
accesses of the host, the least timeout that the host uses, then everything below the
host behaves as `staleFifo`, a 16-deep queue whose pop gives the word behind the head
(`coSimulation_refines`).

* `coSimulation_accounts`: no call times out, and what the trace leaves in the oracle's
  queue is what is left in the core;
* `coSimulation_words`: every pop line of the trace, and so the verdict of the oracle.
-/

namespace TaskQueueCoSim.HostTest

open Machine Mmio QueueCore Replay Oracle

/-- The driver's two calls on the bridge.  A call always returns, and `*out` is read only
if the pop returned 0. -/
def bridgeDevice (gaps : Nat → Nat) : Device Paced where
  mmioPush v timeout s :=
    match s.call gaps ⟨.push, v, none⟩ timeout with
    | (s, some ⟨_, .code rc _⟩) => (rc, s)
    | (s, _) => (-2, s)
  mmioPop timeout s :=
    match s.call gaps ⟨.pop, 0, none⟩ timeout with
    | (s, some ⟨_, .code rc out⟩) => (rc, out.getD 0, s)
    | (s, _) => (-2, 0, s)

/-- Zeroed registers, the testbench just reset, the bridge at the top of its loop. -/
def Paced.init (q : QueueCore 16 32) (d : Distributor) (a : Arbiter) : Paced :=
  ⟨⟨zeroed, boot q d a, false, []⟩, 0⟩

/-- The program, the driver, the bridge and the queue core together. -/
def coSimulation (gaps : Nat → Nat) (q : QueueCore 16 32) (d : Distributor) (a : Arbiter)
    (rand : Nat → Nat) (swbuf : Fin 16 → Word) : Host Paced :=
  main (bridgeDevice gaps) rand swbuf (Paced.init q d a)

/-- A 16-deep queue that never times out.  A pop gives the word behind the head. -/
def staleFifo (mem₀ : BitVec (clog2 16) → Word) : Device Ideal where
  mmioPush v _ i := ((i.answer .push).code, i.next (mmioPush v none))
  mmioPop _ i := ((i.answer .pop).code, bridgeDelivers mem₀ i, i.next (mmioPop none))

/-! ## The stack below the host -/

section Stack

variable {gaps : Nat → Nat} {mem₀ : BitVec (clog2 16) → Word} {s : Paced} {i : Ideal} {n : Nat}

theorem bridgeDevice_push (live : Responsive gaps n) (h : Resting mem₀ s.bench i) (v : Word) :
    ((bridgeDevice gaps).mmioPush v n s).1 = (i.answer .push).code ∧
      Resting mem₀ ((bridgeDevice gaps).mmioPush v n s).2.bench (i.next (mmioPush v none)) := by
  obtain ⟨resting, result⟩ := call_answered live h ⟨.push, v, none⟩
  simp only [bridgeDevice]
  rcases hc : s.call gaps ⟨.push, v, none⟩ n with ⟨t, x⟩
  rw [hc] at resting result
  obtain ⟨x, rfl, hx⟩ := Option.map_eq_some_iff.mp result
  obtain ⟨c, result⟩ := x
  cases hx
  exact ⟨rfl, resting⟩

theorem bridgeDevice_pop (live : Responsive gaps n) (h : Resting mem₀ s.bench i) :
    ((bridgeDevice gaps).mmioPop n s).1 = (i.answer .pop).code ∧
      ((i.answer .pop).code = 0 →
        ((bridgeDevice gaps).mmioPop n s).2.1 = bridgeDelivers mem₀ i) ∧
      Resting mem₀ ((bridgeDevice gaps).mmioPop n s).2.2.bench (i.next (mmioPop none)) := by
  obtain ⟨resting, result⟩ := call_answered live h ⟨.pop, 0, none⟩
  simp only [bridgeDevice]
  rcases hc : s.call gaps ⟨.pop, 0, none⟩ n with ⟨t, x⟩
  rw [hc] at resting result
  obtain ⟨x, rfl, hx⟩ := Option.map_eq_some_iff.mp result
  obtain ⟨c, result⟩ := x
  cases hx
  refine ⟨rfl, fun ok => ?_, resting⟩
  cases ha : i.answer .pop with
  | ok => simp [Ideal.out, ha]
  | refused => simp [ha, Answer.code] at ok

/-- What the host has below it is the queue that gives the word behind the head. -/
theorem bridgeDevice_refines (live : Responsive gaps leastTimeout)
    (mem₀ : BitVec (clog2 16) → Word) :
    (bridgeDevice gaps).Refines (staleFifo mem₀) fun s i => Resting mem₀ s.bench i where
  push_rc v _ _ _ hn h := (bridgeDevice_push (live.mono hn) h v).1
  push_rel v _ _ _ hn h := (bridgeDevice_push (live.mono hn) h v).2
  pop_rc _ _ _ hn h := (bridgeDevice_pop (live.mono hn) h).1
  pop_out _ _ _ hn h ok := (bridgeDevice_pop (live.mono hn) h).2.1 ok
  pop_rel _ _ _ hn h := (bridgeDevice_pop (live.mono hn) h).2.2

theorem resting_init (q : QueueCore 16 32) (d : Distributor) (a : Arbiter) :
    Resting q.mem (Paced.init q d a).bench .empty :=
  (sync_init q d a).at_

end Stack

/-- **The co-simulation refines the program over one queue.**  If the bridge gets through
an iteration in every 100 accesses, a run has the counters, the golden queue and the trace
of the same program over `staleFifo`, and the core ends with the words of that queue. -/
theorem coSimulation_refines {gaps : Nat → Nat} (live : Responsive gaps leastTimeout)
    (q : QueueCore 16 32) (d : Distributor) (a : Arbiter) (rand : Nat → Nat)
    (swbuf : Fin 16 → Word) :
    (coSimulation gaps q d a rand swbuf).Related
      (fun s i => Resting q.mem s.bench i ∧ s.bench.top.queue.queue = i.queue)
      (main (staleFifo q.mem) rand swbuf .empty) := by
  have h := main_related (bridgeDevice_refines live q.mem) rand swbuf (resting_init q d a)
  exact ⟨⟨h.device, h.device.hardware.queue_eq⟩, h.drawn, h.metrics, h.ring, h.trace⟩

theorem responsive_every : Responsive (fun _ => 1) leastTimeout :=
  fun n => ⟨n, Nat.le_refl _, by simp [leastTimeout], Nat.one_pos⟩

theorem coSimulation_refines_every :
    (coSimulation (fun _ => 1) QueueCore.zero ⟨false, 0, 0⟩ ⟨0, 0, false⟩ id (fun _ => 0)).Related
      (fun s i => Resting QueueCore.zero.mem s.bench i ∧ s.bench.top.queue.queue = i.queue)
      (main (staleFifo QueueCore.zero.mem) id (fun _ => 0) .empty) :=
  coSimulation_refines responsive_every QueueCore.zero ⟨false, 0, 0⟩ ⟨0, 0, false⟩ id fun _ => 0

/-! ## The accounts of a run -/

section Accounts

variable {mem₀ : BitVec (clog2 16) → Word} {s u : Host Ideal}

/-- Every call is counted as a success or a refusal, and the successes are what the queue
has taken and given. -/
structure Accounted (s : Host Ideal) : Prop where
  sane : s.device.Sane
  attemptedPush : s.metrics.attemptedPush = s.metrics.successPush + s.metrics.refusedPush
  attemptedPop : s.metrics.attemptedPop = s.metrics.successPop + s.metrics.refusedPop
  accepted : s.device.accepted.length = s.metrics.successPush
  popped : s.device.popped = s.metrics.successPop

/-- What a push does to the queue. -/
theorem next_push (i : Ideal) (v : Word) :
    (i.answer .push = .ok ∧ i.next (mmioPush v none) = { i with accepted := i.accepted ++ [v] }) ∨
    (i.answer .push = .refused ∧ i.next (mmioPush v none) = i) := by
  cases h : i.answer .push <;> simp [mmioPush, Ideal.next, h]

theorem next_pop (i : Ideal) :
    (i.answer .pop = .ok ∧ i.next (mmioPop none) = { i with popped := i.popped + 1 }) ∨
    (i.answer .pop = .refused ∧ i.next (mmioPop none) = i) := by
  cases h : i.answer .pop <;> simp [mmioPop, Ideal.next, h]

/-- A queue operation and the counters that go with it. -/
theorem Accounted.of_eq (h : Accounted s) {i : Ideal} {m : Metrics} (device : u.device = i)
    (metrics : u.metrics = m) (sane : i.Sane)
    (attemptedPush : m.attemptedPush = m.successPush + m.refusedPush)
    (attemptedPop : m.attemptedPop = m.successPop + m.refusedPop)
    (accepted : i.accepted.length + s.metrics.successPush =
      s.device.accepted.length + m.successPush)
    (popped : i.popped + s.metrics.successPop = s.device.popped + m.successPop) : Accounted u := by
  subst device metrics
  have := h.accepted
  have := h.popped
  exact ⟨sane, attemptedPush, attemptedPop, by omega, by omega⟩

theorem Accounted.push (h : Accounted s) (v : Word)
    (device : u.device = s.device.next (mmioPush v none))
    (metrics : u.metrics = s.metrics.countPush (s.device.answer .push).code) : Accounted u := by
  have sane := h.sane.next (mmioPush v none)
  have pushes := h.attemptedPush
  have pops := h.attemptedPop
  rcases next_push s.device v with ⟨ok, e⟩ | ⟨refused, e⟩
  · rw [ok] at metrics
    rw [e] at device sane
    refine h.of_eq device metrics sane ?_ pops ?_ rfl
    · simp only [Metrics.countPush, Answer.code, if_true]
      omega
    · simp only [Metrics.countPush, Answer.code, if_true, List.length_append,
        List.length_singleton]
      omega
  · rw [refused] at metrics
    rw [e] at device sane
    refine h.of_eq device metrics sane ?_ pops rfl rfl
    show s.metrics.attemptedPush + 1 = s.metrics.successPush + (s.metrics.refusedPush + 1)
    omega

/-- A pop, whether or not its word counts as a mismatch. -/
theorem Accounted.pop (h : Accounted s) (device : u.device = s.device.next (mmioPop none)) {k : Nat}
    (metrics : u.metrics =
      { s.metrics.countPop (s.device.answer .pop).code with mismatches := k }) : Accounted u := by
  have sane := h.sane.next (mmioPop none)
  have pushes := h.attemptedPush
  have pops := h.attemptedPop
  rcases next_pop s.device with ⟨ok, e⟩ | ⟨refused, e⟩
  · rw [ok] at metrics
    rw [e] at device sane
    refine h.of_eq device metrics sane pushes ?_ rfl ?_
    · show s.metrics.attemptedPop + 1 = s.metrics.successPop + 1 + s.metrics.refusedPop
      omega
    · show s.device.popped + 1 + s.metrics.successPop = s.device.popped + (s.metrics.successPop + 1)
      omega
  · rw [refused] at metrics
    rw [e] at device sane
    refine h.of_eq device metrics sane pushes ?_ rfl rfl
    show s.metrics.attemptedPop + 1 = s.metrics.successPop + (s.metrics.refusedPop + 1)
    omega

/-- The queue holds at most two words that the golden queue does not know of. -/
structure Tracked (s : Host Ideal) : Prop extends Accounted s where
  known : s.ring.swcount ≤ s.device.queue.length
  unknown : s.device.queue.length ≤ s.ring.swcount + 2

/-- Only the mismatches depend on whether the words agree. -/
theorem mismatches_of_ite (m : Metrics) (p : Prop) [Decidable p] :
    ∃ k, (if p then m.mismatch else m) = { m with mismatches := k } := by
  split
  · exact ⟨m.mismatches + 1, rfl⟩
  · exact ⟨m.mismatches, rfl⟩

theorem length_queue_push {i : Ideal} (h : i.Sane) (v : Word) :
    ({ i with accepted := i.accepted ++ [v] } : Ideal).queue.length = i.queue.length + 1 := by
  have := h.popped_le
  simp only [Ideal.queue, List.length_drop, List.length_append, List.length_singleton]
  omega

theorem length_queue_pop (i : Ideal) :
    ({ i with popped := i.popped + 1 } : Ideal).queue.length = i.queue.length - 1 := by
  simp only [Ideal.queue, List.length_drop]
  omega

theorem tracked_deterministic (swbuf : Fin 16 → Word) :
    Tracked (deterministic (staleFifo mem₀) (start swbuf .empty)) := by
  have hstart : Accounted (start swbuf .empty) :=
    ⟨Ideal.sane_run [], rfl, rfl, rfl, rfl⟩
  have hend : Accounted (deterministic (staleFifo mem₀) (start swbuf .empty)) := by
    apply run_invariant
    · intro s _ h
      exact h.pop rfl rfl
    · apply run_invariant _ hstart
      intro s v h
      exact h.push v rfl rfl
  have device : (deterministic (staleFifo mem₀) (start swbuf .empty)).device = ⟨vals, 2⟩ := by
    have push (s : Host Ideal) (i : Ideal) (v : Word) (h : s.device = i) :
        (deterministicPush (staleFifo mem₀) v s).device = i.next (mmioPush v none) := by
      rw [← h]
      rfl
    have pop (s : Host Ideal) (i : Ideal) (_ : Nat) (h : s.device = i) :
        (deterministicPop (staleFifo mem₀) s).device = i.next (mmioPop none) := by
      rw [← h]
      rfl
    have pushes := run_related push (rfl : (start swbuf Ideal.empty).device = .empty) vals
    have pops := run_related pop pushes (List.range 2)
    have ended : run (fun (i : Ideal) (_ : Nat) => i.next (mmioPop none))
        (run (fun i v => i.next (mmioPush v none)) .empty vals) (List.range 2) = ⟨vals, 2⟩ := by
      decide
    exact pops.trans ended
  refine ⟨hend, Nat.zero_le _, ?_⟩
  rw [device]
  exact Nat.le_add_left 2 _

theorem Tracked.randomPush (h : Tracked s) (v : Word) :
    Tracked (randomPush (staleFifo mem₀) v s) := by
  have known := h.known
  have unknown := h.unknown
  unfold HostTest.randomPush staleFifo
  rcases next_push s.device v with ⟨ok, e⟩ | ⟨refused, e⟩
  · have room := Ideal.answer_push.mp ok
    have hring : s.ring.swcount < swdepth := by
      rw [swdepth]
      omega
    have len := length_queue_push h.sane v
    simp only [ok, Answer.code, if_true]
    refine ⟨h.toAccounted.push v rfl (by rw [ok]; rfl), ?_, ?_⟩
    · simp only [e, len, Ring.push, hring, if_true]
      omega
    · simp only [e, len, Ring.push, hring, if_true]
      omega
  · simp only [refused, Answer.code, if_neg (show ¬ (-1 : Int) = 0 by decide)]
    refine ⟨h.toAccounted.push v rfl (by rw [refused]; rfl), ?_, ?_⟩
    · simpa only [e] using known
    · simpa only [e] using unknown

theorem Tracked.randomPop (h : Tracked s) : Tracked (randomPop (staleFifo mem₀) s) := by
  have known := h.known
  have unknown := h.unknown
  unfold HostTest.randomPop staleFifo
  rcases next_pop s.device with ⟨ok, e⟩ | ⟨refused, e⟩
  · have len := length_queue_pop s.device
    simp only [ok, Answer.code, if_true]
    by_cases hc : s.ring.swcount = 0
    · -- a word that the golden queue does not know of
      simp only [hc, if_true]
      refine ⟨h.toAccounted.pop rfl (by rw [ok]; rfl), ?_, ?_⟩
      · exact hc.trans_le (Nat.zero_le _)
      · simp only [e, len]
        omega
    · simp only [hc, if_false]
      obtain ⟨k, hk⟩ := mismatches_of_ite (s.metrics.countPop 0)
        (s.ring.expected ≠ bridgeDelivers mem₀ s.device)
      have pos := List.length_pos_iff.mpr (Ideal.answer_pop.mp ok)
      refine ⟨h.toAccounted.pop rfl (by rw [ok]; exact hk), ?_, ?_⟩
      · simp only [e, len, Ring.pop]
        omega
      · simp only [e, len, Ring.pop]
        omega
  · simp only [refused, Answer.code, if_neg (show ¬ (-1 : Int) = 0 by decide)]
    refine ⟨h.toAccounted.pop rfl (by rw [refused]; rfl), ?_, ?_⟩
    · simpa only [e] using known
    · simpa only [e] using unknown

theorem Tracked.randomOp (h : Tracked s) (rand : Nat → Nat) :
    Tracked (randomOp (staleFifo mem₀) rand s) := by
  unfold HostTest.randomOp
  dsimp only
  split_ifs
  · apply Tracked.randomPush
    exact ⟨⟨h.sane, h.attemptedPush, h.attemptedPop, h.accepted, h.popped⟩, h.known, h.unknown⟩
  · apply Tracked.randomPop
    exact ⟨⟨h.sane, h.attemptedPush, h.attemptedPop, h.accepted, h.popped⟩, h.known, h.unknown⟩
  · exact ⟨⟨h.sane, h.attemptedPush, h.attemptedPop, h.accepted, h.popped⟩, h.known, h.unknown⟩

theorem Tracked.randomized (h : Tracked s) (rand : Nat → Nat) :
    Tracked (randomized (staleFifo mem₀) rand s) :=
  run_invariant (fun _ _ h => h.randomOp rand) h (List.range OPS)

/-- The queue holds what the golden queue expects, so no pop is refused. -/
theorem Tracked.drain (h : Tracked s) :
    Tracked (drain (staleFifo mem₀) s) ∧ (drain (staleFifo mem₀) s).ring.swcount = 0 := by
  induction hn : s.ring.swcount generalizing s with
  | zero =>
    rw [HostTest.drain, if_neg (by omega)]
    exact ⟨h, hn⟩
  | succ n ih =>
    have known := h.known
    have unknown := h.unknown
    have ok : s.device.answer .pop = .ok :=
      Ideal.answer_pop.mpr (List.length_pos_iff.mp (by omega))
    obtain ⟨-, e⟩ := (next_pop s.device).resolve_right fun h => by simp [ok] at h
    have len := length_queue_pop s.device
    rw [HostTest.drain, if_pos (by omega)]
    simp only [staleFifo, ok, Answer.code, if_true]
    obtain ⟨k, hk⟩ := mismatches_of_ite
      { s.metrics with attemptedPop := s.metrics.attemptedPop + 1, successPop := s.metrics.successPop + 1 }
      (s.ring.expected ≠ bridgeDelivers mem₀ s.device)
    refine ih ⟨h.toAccounted.pop rfl (by rw [ok]; exact hk), ?_, ?_⟩ (by simp [Ring.pop, hn])
    · simp only [e, len, Ring.pop]
      omega
    · simp only [e, len, Ring.pop]
      omega

/-- The program over the queue: all is accounted for, and the golden queue drained. -/
theorem tracked_main (mem₀ : BitVec (clog2 16) → Word) (rand : Nat → Nat)
    (swbuf : Fin 16 → Word) :
    Tracked (main (staleFifo mem₀) rand swbuf .empty) ∧
      (main (staleFifo mem₀) rand swbuf .empty).ring.swcount = 0 :=
  ((tracked_deterministic swbuf).randomized rand).drain

end Accounts

/-! ## What the trace says -/

section Trace

variable {mem₀ : BitVec (clog2 16) → Word}

/-- The operations that the queue has answered with 0 so far, each with the word that
belongs to it. -/
structure Played (mem₀ : BitVec (clog2 16) → Word) (i : Ideal) (ops : List (Event Word)) :
    Prop where
  sane : i.Sane
  pushed : pushed ops = i.accepted
  popped : (popped ops).length = i.popped
  pop : ∀ pre w post, ops = pre ++ .pop w :: post →
    (Replay.popped pre).length < (Replay.pushed pre).length ∧
      w = shown mem₀ (Replay.pushed pre) ((Replay.popped pre).length + 1)

section Played

variable {i : Ideal} {ops : List (Event Word)} (h : Played mem₀ i ops)

include h

theorem Played.push (v : Word)
    (e : i.next (mmioPush v none) = { i with accepted := i.accepted ++ [v] }) :
    Played mem₀ (i.next (mmioPush v none)) (ops ++ [.push v]) where
  sane := h.sane.next _
  pushed := by rw [e, pushed_append, h.pushed]; rfl
  popped := by rw [e, popped_append, List.length_append, h.popped]; rfl
  pop := by
    intro pre w post eq
    rcases concat_eq_append_cons eq with ⟨-, e'⟩ | ⟨post', eq'⟩
    · cases e'
    · exact h.pop pre w post' eq'

theorem Played.popOp (ok : i.answer .pop = .ok)
    (e : i.next (mmioPop none) = { i with popped := i.popped + 1 }) :
    Played mem₀ (i.next (mmioPop none)) (ops ++ [.pop (bridgeDelivers mem₀ i)]) where
  sane := h.sane.next _
  pushed := by rw [e, pushed_append, h.pushed]; exact List.append_nil _
  popped := by rw [e, popped_append, List.length_append, h.popped]; rfl
  pop := by
    intro pre w post eq
    rcases concat_eq_append_cons eq with ⟨rfl, e'⟩ | ⟨post', eq'⟩
    · cases e'
      have some := List.length_pos_iff.mpr (Ideal.answer_pop.mp ok)
      rw [Ideal.queue, List.length_drop] at some
      rw [h.pushed, h.popped]
      exact ⟨by omega, rfl⟩
    · exact h.pop pre w post' eq'

end Played

/-- The queue, recorded, answers as `Played` says. -/
theorem recording_refines (mem₀ : BitVec (clog2 16) → Word) :
    (staleFifo mem₀).recording.Refines (staleFifo mem₀).recording
      fun x y => x = y ∧ Played mem₀ x.1 x.2 where
  push_rc _ _ _ _ _ h := by rw [h.1]
  push_rel v n x y _ h := by
    obtain ⟨rfl, h⟩ := h
    refine ⟨rfl, ?_⟩
    rcases next_push x.1 v with ⟨ok, e⟩ | ⟨refused, e⟩
    · simpa [Device.recording, staleFifo, ok, Answer.code] using h.push v e
    · simpa [Device.recording, staleFifo, refused, Answer.code, e] using h
  pop_rc _ _ _ _ h := by rw [h.1]
  pop_out _ _ _ _ h _ := by rw [h.1]
  pop_rel n x y _ h := by
    obtain ⟨rfl, h⟩ := h
    refine ⟨rfl, ?_⟩
    rcases next_pop x.1 with ⟨ok, e⟩ | ⟨refused, e⟩
    · simpa [Device.recording, staleFifo, ok, Answer.code] using h.popOp ok e
    · simpa [Device.recording, staleFifo, refused, Answer.code, e] using h

/-- The successful operations of the program over the queue. -/
theorem played_main (mem₀ : BitVec (clog2 16) → Word) (rand : Nat → Nat)
    (swbuf : Fin 16 → Word) :
    Played mem₀ (main (staleFifo mem₀) rand swbuf .empty).device
      (operations (staleFifo mem₀) rand swbuf .empty) := by
  have hstart : Played mem₀ Ideal.empty [] :=
    ⟨Ideal.sane_run [], rfl, rfl, fun pre w post h => by cases pre <;> cases h⟩
  have h := (main_related (recording_refines mem₀) rand swbuf (d := (Ideal.empty, []))
    ⟨rfl, hstart⟩).device.2
  rw [← onDevice_main]
  exact h

/-- No pop of the trace finds nothing, so what it leaves is what the queue holds. -/
theorem Played.replay {i : Ideal} {ops : List (Event Word)} (h : Played mem₀ i ops) :
    emptyPops 0 ops = 0 ∧ (run check ⟨[], 0⟩ ops).queue.length = i.queue.length := by
  have none : emptyPops 0 ops = 0 := by
    rw [emptyPops_eq_zero_iff]
    intro k
    induction k with
    | zero => simp
    | succ k ih =>
      by_cases hk : k < ops.length
      · rw [List.take_succ_eq_append_getElem hk, popped_append, pushed_append]
        cases hop : ops[k] with
        | push v =>
          simp only [popped_push, pushed_push, popped_nil, pushed_nil, List.append_nil,
            List.length_append]
          omega
        | pop w =>
          have split : ops = ops.take k ++ .pop w :: ops.drop (k + 1) := by
            rw [← hop, ← List.drop_eq_getElem_cons hk, List.take_append_drop]
          have less := (h.pop _ _ _ split).1
          simp only [popped_pop, pushed_pop, popped_nil, pushed_nil, List.append_nil,
            List.length_append, List.length_singleton]
          omega
      · rw [List.take_of_length_le (by omega)] at ih ⊢
        exact ih
  have len := length_replay_queue ⟨[], 0⟩ ops
  simp only [List.length_nil, Nat.zero_add] at len
  rw [served_eq_popped none, h.pushed, h.popped] at len
  refine ⟨none, ?_⟩
  rw [Ideal.queue, List.length_drop]
  omega

end Trace

/-! ## The results -/

/-- What a run of the co-simulation accounts for. -/
structure Accounts (s : Host Paced) : Prop where
  pushes_answered : s.metrics.attemptedPush = s.metrics.successPush + s.metrics.refusedPush
  pops_answered : s.metrics.attemptedPop = s.metrics.successPop + s.metrics.refusedPop
  golden_pushes : (checkTrace s.trace).pushes = s.metrics.successPush
  golden_pops : (checkTrace s.trace).pops = s.metrics.successPop
  golden_left : (checkTrace s.trace).finalQueueLen = s.device.bench.top.queue.queue.length
  drained : s.ring.swcount = 0
  left_le : s.device.bench.top.queue.queue.length ≤ 2

/-- What the trace of a run says, and the oracle about it. -/
structure Words (mem₀ : BitVec (clog2 16) → Word) (s : Host Paced) (ops : List (Event Word)) :
    Prop where
  trace : s.trace = traceHeader ++ (ops.map traceOf).flatten
  pop : ∀ pre w post, ops = pre ++ .pop w :: post →
    (popped pre).length < (pushed pre).length ∧
      w = shown mem₀ (pushed pre) ((popped pre).length + 1)
  mismatches : (checkTrace s.trace).mismatches = disagreements (popped ops) (pushed ops)
  exit_iff : exitStatus (checkTrace s.trace) = 0 ↔
    ∀ pre w post, ops = pre ++ .pop w :: post → (pushed pre)[(popped pre).length]? = some w

section Results

variable {gaps : Nat → Nat} (live : Responsive gaps leastTimeout) (q : QueueCore 16 32)
  (d : Distributor) (a : Arbiter) (rand : Nat → Nat) (swbuf : Fin 16 → Word)

include live

/-- The trace of a run has the operations of the program over the queue. -/
theorem trace_coSimulation :
    (coSimulation gaps q d a rand swbuf).trace =
      traceHeader ++ ((operations (staleFifo q.mem) rand swbuf .empty).map traceOf).flatten := by
  have h := main_related (bridgeDevice_refines live q.mem) rand swbuf (resting_init q d a)
  refine h.trace.trans ?_
  rw [← onDevice_main]
  exact (logged_main (staleFifo q.mem) rand swbuf .empty).trace

/-- **Accounts.**  No call of a run times out; the oracle reads as many pushes and pops as
succeeded, and is left with as many words as the queue core; the golden queue is drained,
and the core holds at most the two words that the deterministic phase left. -/
theorem coSimulation_accounts : Accounts (coSimulation gaps q d a rand swbuf) := by
  have h := main_related (bridgeDevice_refines live q.mem) rand swbuf (resting_init q d a)
  have htrace := trace_coSimulation live q d a rand swbuf
  obtain ⟨htracked, hdrained⟩ := tracked_main q.mem rand swbuf
  have hplayed := played_main q.mem rand swbuf
  have hqueue : (coSimulation gaps q d a rand swbuf).device.bench.top.queue.queue = _ :=
    h.device.hardware.queue_eq
  have hmetrics : (coSimulation gaps q d a rand swbuf).metrics = _ := h.metrics
  have hring : (coSimulation gaps q d a rand swbuf).ring = _ := h.ring
  have hcheck := (congrArg checkTrace htrace).trans (checkTrace_traceOf _)
  refine ⟨?_, ?_, ?_, ?_, ?_, ?_, ?_⟩
  · rw [hmetrics]
    exact htracked.attemptedPush
  · rw [hmetrics]
    exact htracked.attemptedPop
  · rw [hmetrics, hcheck, ← htracked.accepted, ← hplayed.pushed]
    refine (run_apply_pushes _ _).trans ?_
    rw [pushed_numbered, List.length_map]
    exact Nat.zero_add _
  · rw [hmetrics, hcheck, ← htracked.popped, ← hplayed.popped]
    refine (run_apply_pops _ _).trans ?_
    rw [popped_numbered, List.length_map]
    exact Nat.zero_add _
  · rw [hqueue, ← hplayed.replay.2, htrace]
    exact (checkTrace_verdict _).2
  · rw [hring]
    exact hdrained
  · have := htracked.unknown
    rw [hqueue]
    omega

/-- **Words.**  The trace has an event for every operation that succeeded; each pop found
something and gives the word behind the oldest one, and the oracle counts the pops for which
that is another word, so it exits with 0 exactly if there is none. -/
theorem coSimulation_words : ∃ ops, Words q.mem (coSimulation gaps q d a rand swbuf) ops := by
  have htrace := trace_coSimulation live q d a rand swbuf
  have hplayed := played_main q.mem rand swbuf
  refine ⟨operations (staleFifo q.mem) rand swbuf .empty, ?_⟩
  generalize operations (staleFifo q.mem) rand swbuf .empty = ops at htrace hplayed ⊢
  obtain ⟨none, -⟩ := hplayed.replay
  have hcount : (checkTrace (coSimulation gaps q d a rand swbuf).trace).mismatches =
      disagreements (popped ops) (pushed ops) := by
    rw [htrace, (checkTrace_verdict ops).1, replay_mismatches]
    simp [none, served_eq_popped none]
  refine ⟨htrace, hplayed.pop, hcount, ?_⟩
  have hexit : exitStatus (checkTrace (coSimulation gaps q d a rand swbuf).trace) = 0 ↔
      disagreements (popped ops) (pushed ops) = 0 := by
    rw [exitStatus, hcount]
    by_cases h : disagreements (popped ops) (pushed ops) = 0 <;> simp [h]
  rw [hexit, disagreements_eq_zero_iff, popped_prefix_iff none]

end Results

theorem coSimulation_accounts_every :
    Accounts (coSimulation (fun _ => 1) QueueCore.zero ⟨false, 0, 0⟩ ⟨0, 0, false⟩ id (fun _ => 0)) :=
  coSimulation_accounts responsive_every QueueCore.zero ⟨false, 0, 0⟩ ⟨0, 0, false⟩ id fun _ => 0

theorem coSimulation_words_every :
    ∃ ops, Words QueueCore.zero.mem
      (coSimulation (fun _ => 1) QueueCore.zero ⟨false, 0, 0⟩ ⟨0, 0, false⟩ id fun _ => 0) ops :=
  coSimulation_words responsive_every QueueCore.zero ⟨false, 0, 0⟩ ⟨0, 0, false⟩ id fun _ => 0

end TaskQueueCoSim.HostTest
