import TaskQueueCoSim.Hw.Harness

/-!
# The randomized test of the hardware-only harness

`Synced g q` relates the globals of the harness to a list: the ports are at
rest, the queue core holds `q`, no mismatch is counted and the metrics add up.
The reset establishes it for the empty list, every helper keeps it, and the
drain loop takes the list down to empty.
-/

namespace TaskQueueCoSim.Harness

open Machine VtbTaskQueue

structure Synced (g : Bench) (q : List Word) : Prop where
  ready : Ready g.top
  holds : g.top.queue.Represents q 0
  clean : g.metrics.mismatches = 0
  pushes : g.metrics.attemptedPushes = g.metrics.successfulPushes + g.metrics.refusedPushes
  pops : g.metrics.attemptedPops = g.metrics.successfulPops + g.metrics.refusedPops
  stored : g.metrics.successfulPushes = g.metrics.successfulPops + q.length

theorem Synced.full_iff {g : Bench} {q : List Word} (h : Synced g q) :
    g.top.full = true ↔ q.length = 16 :=
  h.holds.full_iff

theorem Synced.validOut_iff {g : Bench} {q : List Word} (h : Synced g q) :
    g.top.validOut = true ↔ q ≠ [] := by
  rw [← List.length_pos_iff]
  exact h.holds.validOut_iff

theorem Synced.tick {g : Bench} {q : List Word} (h : Synced g q) : Synced (tick g) q where
  ready := h.ready.tick.1
  holds := by
    show (g.top.tick).queue.Represents q 0
    rw [h.ready.tick.2]
    exact h.holds
  clean := h.clean
  pushes := h.pushes
  pops := h.pops
  stored := h.stored

/-- A push is refused exactly when the list is full, and otherwise appended. -/
theorem Synced.hostTryPush {g : Bench} {q : List Word} (h : Synced g q) (v : Word) :
    (q.length = 16 ∧ (hostTryPush v g).1 = -1 ∧ Synced (hostTryPush v g).2 q) ∨
    (q.length < 16 ∧ (hostTryPush v g).1 = 0 ∧ Synced (hostTryPush v g).2 (q ++ [v])) := by
  have hl := h.holds.length_le
  cases hf : g.top.full
  case true =>
    refine Or.inl ⟨h.full_iff.mp hf, by simp [Harness.hostTryPush, hf], ?_⟩
    simp only [Harness.hostTryPush, hf, if_true]
    exact ⟨h.ready, h.holds, h.clean, by have := h.pushes; simp only; omega, h.pops, h.stored⟩
  case false =>
    have room : q.length < 16 := by
      have := mt h.full_iff.mpr (by simp [hf])
      omega
    refine Or.inr ⟨room, by simp [Harness.hostTryPush, hf], ?_⟩
    simp only [Harness.hostTryPush, hf, Bool.false_eq_true, if_false]
    have done := h.ready.push_done v
    refine ⟨⟨done.reset, done.hostMode, done.hostPushReq, done.hostPopReq⟩, ?_, h.clean, ?_,
      h.pops, ?_⟩
    · show (g.top.raisePush v).tick.queue.Represents (q ++ [v]) 0
      rw [h.ready.push_tick v]
      exact h.holds.push_edge (by decide) room v
    · have := h.pushes
      simp only [Harness.tick]; omega
    · have := h.stored
      simp only [Harness.tick, List.length_append, List.length_singleton]; omega

/-- On an empty list a pop is refused. -/
theorem Synced.hostTryPop_nil {g : Bench} (h : Synced g []) :
    (hostTryPop g).1 = none ∧ Synced (hostTryPop g).2 [] := by
  have hv : g.top.validOut = false := by
    have := mt h.validOut_iff.mp (by simp)
    simpa using this
  refine ⟨by simp [Harness.hostTryPop, hv], ?_⟩
  simp only [Harness.hostTryPop, hv, Bool.not_false, if_true]
  exact ⟨h.ready, h.holds, h.clean, h.pushes, by have := h.pops; simp only; omega, h.stored⟩

/-- Otherwise a pop gives the first word and removes it. -/
theorem Synced.hostTryPop_cons {g : Bench} {x : Word} {q : List Word} (h : Synced g (x :: q)) :
    (hostTryPop g).1 = some x ∧ Synced (hostTryPop g).2 q := by
  have hv : g.top.validOut = true := h.validOut_iff.mpr (by simp)
  have hd : g.top.dataOut = x := h.holds.dataOut_eq (by simp)
  refine ⟨by simp [Harness.hostTryPop, hv, hd], ?_⟩
  simp only [Harness.hostTryPop, hv, Bool.not_true, Bool.false_eq_true, if_false]
  refine ⟨h.ready.pop_done, ?_, h.clean, h.pushes, ?_, ?_⟩
  · show g.top.raisePop.tick.queue.Represents q 0
    rw [h.ready.pop_tick]
    exact h.holds.pop_edge (by decide) _
  · have := h.pops
    simp only [Harness.tick]; omega
  · have := h.stored
    simp only [Harness.tick, List.length_cons] at this ⊢; omega

/-! ## The loop -/

theorem Synced.pushOp {s : RandomizedTest} (h : Synced s.bench s.sw) (v : Word) :
    Synced (pushOp v s).bench (pushOp v s).sw := by
  rcases h.hostTryPush v with ⟨_, rc, synced⟩ | ⟨_, rc, synced⟩
  · simpa [Harness.pushOp, rc] using synced
  · simpa [Harness.pushOp, rc] using synced

theorem Synced.popOp {s : RandomizedTest} (h : Synced s.bench s.sw) :
    Synced (popOp s).bench (popOp s).sw := by
  cases hsw : s.sw with
  | nil =>
    rw [hsw] at h
    obtain ⟨out, synced⟩ := h.hostTryPop_nil
    have e : hostTryPop s.bench = (none, (hostTryPop s.bench).2) := by rw [← out]
    rw [Harness.popOp, e]
    simpa [hsw] using synced
  | cons x q =>
    rw [hsw] at h
    obtain ⟨out, synced⟩ := h.hostTryPop_cons
    have e : hostTryPop s.bench = (some x, (hostTryPop s.bench).2) := by rw [← out]
    rw [Harness.popOp, e]
    simpa [hsw] using synced

theorem Synced.randomOp {s : RandomizedTest} (h : Synced s.bench s.sw) (rand : Nat → Nat) :
    Synced (randomOp rand s).bench (randomOp rand s).sw := by
  unfold Harness.randomOp
  by_cases h0 : rand s.drawn % 3 = 0
  · rw [if_pos h0]
    exact Synced.pushOp (s := { s with drawn := s.drawn + 1 + 1 }) h _
  · rw [if_neg h0]
    by_cases h1 : rand s.drawn % 3 = 1
    · rw [if_pos h1]
      exact Synced.popOp (s := { s with drawn := s.drawn + 1 }) h
    · rw [if_neg h1]
      exact h.tick

theorem Synced.randomOps {s : RandomizedTest} (h : Synced s.bench s.sw) (rand : Nat → Nat)
    (n : Nat) : Synced (randomOps rand n s).bench (randomOps rand n s).sw :=
  run_invariant (I := fun s : RandomizedTest => Synced s.bench s.sw)
    (fun _ _ hs => hs.randomOp rand) h _

/-! ## Reset and drain -/

theorem ticks_reset {n : Nat} {g : Bench} (hr : g.top.reset = true)
    (hm : g.top.hostMode = true) (hpush : g.top.hostPushReq = false)
    (hpop : g.top.hostPopReq = false) :
    let t := (ticks n g).top
    t.reset = true ∧ t.hostMode = true ∧ t.hostPushReq = false ∧ t.hostPopReq = false ∧
      (ticks n g).metrics = g.metrics ∧ (0 < n → t.queue.Represents [] 0) := by
  induction n generalizing g with
  | zero => exact ⟨hr, hm, hpush, hpop, rfl, by omega⟩
  | succ n ih =>
    obtain ⟨r, m, push, pop, met, rep⟩ := ih (g := Harness.tick g)
      (by simp [Harness.tick, hr]) (by simp [Harness.tick, hm]) (by simp [Harness.tick, hpush])
      (by simp [Harness.tick, hpop])
    refine ⟨r, m, push, pop, met, fun _ => ?_⟩
    cases n with
    | zero =>
      show (VtbTaskQueue.tick g.top).queue.Represents [] 0
      rw [tick_queue]
      exact QueueCore.represents_reset _ hr
    | succ n => exact rep (by omega)

/-- **Reset.**  Whatever the registers held, the reset sequence leaves the
queue empty, if the request lines are low. -/
theorem synced_start {g : Bench} (hpush : g.top.hostPushReq = false)
    (hpop : g.top.hostPopReq = false) : Synced (startRandomizedTest g).bench [] := by
  obtain ⟨r, m, push, pop, met, rep⟩ := ticks_reset (n := 4)
    (g := { g with metrics := {}, top := { g.top with hostMode := true, reset := true } })
    rfl rfl hpush hpop
  generalize hg : ticks 4 { g with
    metrics := {}, top := { g.top with hostMode := true, reset := true } } = g4 at *
  have ready : Ready { g4.top with reset := false } := ⟨rfl, m, push, pop⟩
  have e : (startRandomizedTest g).bench =
      Harness.tick { g4 with top := { g4.top with reset := false } } := by
    rw [← hg]; rfl
  rw [e]
  refine Synced.tick ⟨ready, rep (by omega), ?_, ?_, ?_, ?_⟩ <;> simp [met]

/-- The drain takes every word of the reference off the queue. -/
theorem Synced.drain {s : RandomizedTest} {g : Bench} {q : List Word} (h : Synced g q) :
    Synced (drain.go s g q).bench [] ∧ (drain.go s g q).sw = [] := by
  induction q generalizing g with
  | nil => exact ⟨h, rfl⟩
  | cons x q ih =>
    obtain ⟨out, synced⟩ := h.hostTryPop_cons
    have e : hostTryPop g = (some x, (hostTryPop g).2) := by rw [← out]
    rw [Harness.drain.go, e]
    simpa using ih synced

/-! ## The whole test -/

/-- A test leaves the request lines low, as the next one needs them. -/
theorem ready_runRandomizedTest (rand : Nat → Nat) (ops : Int) {g : Bench}
    (hpush : g.top.hostPushReq = false) (hpop : g.top.hostPopReq = false) :
    Ready (runRandomizedTest rand ops g).bench.top :=
  (((synced_start hpush hpop).randomOps rand ops.toNat).drain
    (s := randomOps rand ops.toNat (startRandomizedTest g))).1.ready

/-- The `i`-th state of the loop. -/
def loopState (rand : Nat → Nat) (g : Bench) (i : Nat) : RandomizedTest :=
  randomOps rand i (startRandomizedTest g)

/-- **No mismatch is ever reported, and the test drains completely.** -/
theorem randomizedTest_clean (rand : Nat → Nat) (ops : Int) (g : Bench)
    (hpush : g.top.hostPushReq = false) (hpop : g.top.hostPopReq = false) :
    let r := runRandomizedTest rand ops g
    let m := r.bench.metrics
    m.mismatches = 0 ∧ r.sw = [] ∧ r.bench.top.queue.queue = [] ∧
    (∀ i ≤ ops.toNat, let s := loopState rand g i
      (∀ v, (hostTryPush v s.bench).1 = -1 ↔ s.sw.length = 16) ∧
      ((hostTryPop s.bench).1 = none ↔ s.sw = [])) ∧
    m.attemptedPushes = m.successfulPushes + m.refusedPushes ∧
    m.attemptedPops = m.successfulPops + m.refusedPops ∧
    m.successfulPushes = m.successfulPops := by
  have start := synced_start hpush hpop
  obtain ⟨final, sw⟩ := (start.randomOps rand ops.toNat).drain
    (s := randomOps rand ops.toNat (startRandomizedTest g))
  refine ⟨final.clean, sw, final.holds.queue_eq, ?_, final.pushes, final.pops, final.stored⟩
  intro i _ s
  have synced : Synced s.bench s.sw := start.randomOps rand i
  constructor
  · intro v
    rcases synced.hostTryPush v with ⟨len, rc, _⟩ | ⟨len, rc, _⟩
    · simp [len, rc]
    · simp only [rc]
      constructor
      · intro e; cases e
      · intro e; omega
  · cases hsw : s.sw with
    | nil => rw [hsw] at synced; simp [synced.hostTryPop_nil.1]
    | cons x q => rw [hsw] at synced; simp [synced.hostTryPop_cons.1]

/-- The globals as `main` sets them up. -/
def powerOnBench : Bench :=
  ⟨powerOn ⟨fun _ => 0, 0, 0, 0⟩ ⟨false, 0, 0⟩ ⟨0, 0, false⟩, 0, {}⟩

theorem randomizedTest_clean_powerOn :
    (runRandomizedTest (fun i => i) 10000 powerOnBench).bench.metrics.mismatches = 0 :=
  (randomizedTest_clean (fun i => i) 10000 powerOnBench rfl rfl).1

end TaskQueueCoSim.Harness
