import TaskQueueCoSim.Hw.RandomizedTest
import TaskQueueCoSim.Host.TestTaskQueueHost

/-!
# The hardware-only program as a whole, `main` of `hw/verilator_main.cpp`

The deterministic test runs a script of pushes and pops, and then pops while its reference
deque is not empty; a refused pop does not leave that loop, it reports a mismatch and tries
again.  `runDeterministicTest` is given any script and a bound on the rounds of the loop.

* `deterministicTest_follows`: the loop ends, and the log is the one that a plain queue of
  16 words would write;
* `main_passes`: the program exits with 0, and `sim_cycles` is five for the reset, one for
  each request that succeeded and one for each idle round.
-/

namespace TaskQueueCoSim.Harness

open Machine VtbTaskQueue

/-! ## The deterministic test -/

inductive Scripted where
  | push (v : Word)
  | pop
  deriving DecidableEq, Repr

def Scripted.isPush : Scripted → Bool
  | .push _ => true
  | .pop => false

structure DeterministicTest where
  bench : Bench
  sw : List Word
  log : List String

/-- `0x%08x` -/
def hex (v : Word) : String := "0x" ++ String.ofList (HostTest.hex8 v)

def DeterministicTest.print (s : DeterministicTest) (line : String) : DeterministicTest :=
  { s with log := s.log ++ [line] }

def DeterministicTest.mismatch (s : DeterministicTest) (line : String) : DeterministicTest :=
  { s.print line with bench := Harness.mismatch s.bench }

/-- The lambda `push`. -/
def push (v : Word) (s : DeterministicTest) : DeterministicTest :=
  let (rc, g) := hostTryPush v s.bench
  if rc = 0 then { s with bench := g, sw := s.sw ++ [v] }.print ("push OK " ++ hex v)
  else { s with bench := g }.print ("push REFUSED " ++ hex v)

/-- The lambda `pop`. -/
def pop (s : DeterministicTest) : DeterministicTest :=
  match hostTryPop s.bench with
  | (some out, g) =>
    match s.sw with
    | [] => { s with bench := g }.mismatch ("MISMATCH: popped but SW empty -> " ++ hex out)
    | expected :: sw =>
      let s := { s with bench := g, sw := sw }
      if expected ≠ out then
        s.mismatch ("MISMATCH: expected " ++ hex expected ++ " got " ++ hex out)
      else s.print ("pop OK " ++ hex out)
  | (none, g) =>
    let s := { s with bench := g }
    if s.sw ≠ [] then s.mismatch "MISMATCH: pop refused but SW had data"
    else s.print "pop REFUSED (empty)"

def perform (s : DeterministicTest) : Scripted → DeterministicTest
  | .push v => push v s
  | .pop => pop s

/-- A round of `while (!sw.empty()) pop();`. -/
def drainRound (s : DeterministicTest) : Option DeterministicTest :=
  if s.sw = [] then none else some (pop s)

def startDeterministicTest (g : Bench) : DeterministicTest where
  bench := resetCycles 4 { g with metrics := {}, top := { g.top with hostMode := true } }
  sw := []
  log := ["[HOST] Running deterministic test..."]

def script : List Scripted :=
  [.push 0xA5A5A5A5#32, .push 0xDEADBEEF#32, .push 0x01234567#32, .push 0x89ABCDEF#32, .pop, .pop,
    .push 0xCAFEBABE#32, .push 0x0BADF00D#32]

/-- Up to the end of the drain loop, if that takes at most `rounds` rounds. -/
def deterministicTest (rounds : Nat) (script : List Scripted) (g : Bench) : DeterministicTest :=
  steps drainRound rounds (run perform (startDeterministicTest g) script)

def runDeterministicTest (rounds : Nat) (script : List Scripted) (g : Bench) : DeterministicTest :=
  let s := deterministicTest rounds script g
  s.print ("[HOST] deterministic test done. cycles simulated: " ++ toString s.bench.cycles)

/-! ## The same over a plain queue -/

/-- What the queue holds, how many words it has taken, and what the test has printed. -/
structure PlainTest where
  q : List Word
  taken : Nat
  log : List String

def PlainTest.perform (p : PlainTest) : Scripted → PlainTest
  | .push v =>
    if p.q.length < 16 then ⟨p.q ++ [v], p.taken + 1, p.log ++ ["push OK " ++ hex v]⟩
    else ⟨p.q, p.taken, p.log ++ ["push REFUSED " ++ hex v]⟩
  | .pop =>
    match p.q with
    | [] => ⟨[], p.taken, p.log ++ ["pop REFUSED (empty)"]⟩
    | x :: q => ⟨q, p.taken, p.log ++ ["pop OK " ++ hex x]⟩

def PlainTest.start : PlainTest := ⟨[], 0, ["[HOST] Running deterministic test..."]⟩

/-- The lines of the test up to the end of the drain loop. -/
def PlainTest.lines (p : PlainTest) : List String := p.log ++ p.q.map fun x => "pop OK " ++ hex x

/-! ## Cycles -/

/-- Beyond `base`, a cycle was spent on every request that succeeded; so many pushes and pops
were attempted. -/
structure Counted (base pushes pops : Nat) (g : Bench) : Prop where
  cycles : g.cycles = base + g.metrics.successfulPushes + g.metrics.successfulPops
  pushes : g.metrics.attemptedPushes = pushes
  pops : g.metrics.attemptedPops = pops

theorem Counted.hostTryPush {base a b : Nat} {g : Bench} (h : Counted base a b g) (v : Word) :
    Counted base (a + 1) b (hostTryPush v g).2 := by
  have cycles := h.cycles
  have pushes := h.pushes
  have pops := h.pops
  cases hf : g.top.full <;>
    constructor <;>
    simp only [Harness.hostTryPush, hf, tick, Bool.false_eq_true, if_true, if_false] <;> omega

theorem Counted.hostTryPop {base a b : Nat} {g : Bench} (h : Counted base a b g) :
    Counted base a (b + 1) (hostTryPop g).2 := by
  have cycles := h.cycles
  have pushes := h.pushes
  have pops := h.pops
  cases hv : g.top.validOut <;>
    constructor <;>
    simp only [Harness.hostTryPop, hv, tick, Bool.not_true, Bool.not_false, Bool.false_eq_true,
      if_true, if_false] <;> omega

/-- A push pops nothing, and a pop pushes nothing. -/
theorem successfulPops_hostTryPush (v : Word) (g : Bench) :
    (hostTryPush v g).2.metrics.successfulPops = g.metrics.successfulPops := by
  cases hf : g.top.full <;> simp [hostTryPush, hf, tick]

theorem successfulPushes_hostTryPop (g : Bench) :
    (hostTryPop g).2.metrics.successfulPushes = g.metrics.successfulPushes := by
  cases hv : g.top.validOut <;> simp [hostTryPop, hv, tick]

theorem cycles_ticks (n : Nat) (g : Bench) : (ticks n g).cycles = g.cycles + n := by
  induction n generalizing g with
  | zero => rfl
  | succ n ih =>
    rw [ticks, ih]
    simp only [tick]
    omega

theorem metrics_ticks (n : Nat) (g : Bench) : (ticks n g).metrics = g.metrics := by
  induction n generalizing g with
  | zero => rfl
  | succ n ih => rw [ticks, ih, tick]

/-- The reset takes five cycles. -/
theorem counted_start (g : Bench) :
    Counted (g.cycles + 5) 0 0 (startDeterministicTest g).bench := by
  constructor <;> simp only [startDeterministicTest, resetCycles, tick, cycles_ticks, metrics_ticks]

/-! ## The deterministic test follows the plain queue -/

/-- The harness and the plain queue at one point of the script. -/
structure Follows (base pushes pops : Nat) (s : DeterministicTest) (p : PlainTest) : Prop where
  synced : Synced s.bench s.sw
  sw_eq : s.sw = p.q
  log_eq : s.log = p.log
  taken_eq : s.bench.metrics.successfulPushes = p.taken
  counted : Counted base pushes pops s.bench

section Follows

variable {base a b : Nat} {s : DeterministicTest} {p : PlainTest}

theorem Follows.push (h : Follows base a b s p) (v : Word) :
    Follows base (a + 1) b (push v s) (p.perform (.push v)) := by
  have counted := h.counted.hostTryPush v
  have pops := successfulPops_hostTryPush v s.bench
  have before := h.synced.stored
  have taken := h.taken_eq
  rcases h.synced.hostTryPush v with ⟨len, rc, synced⟩ | ⟨len, rc, synced⟩
  · have e : Harness.push v s =
        { s with bench := (Harness.hostTryPush v s.bench).2 }.print ("push REFUSED " ++ hex v) := by
      simp [Harness.push, rc]
    have e' : p.perform (.push v) = ⟨p.q, p.taken, p.log ++ ["push REFUSED " ++ hex v]⟩ := by
      rw [PlainTest.perform, ← h.sw_eq, if_neg (by omega)]
    have after := synced.stored
    rw [e, e']
    refine ⟨synced, h.sw_eq, by rw [DeterministicTest.print, h.log_eq], ?_, counted⟩
    show (Harness.hostTryPush v s.bench).2.metrics.successfulPushes = p.taken
    omega
  · have e : Harness.push v s = { s with
        bench := (Harness.hostTryPush v s.bench).2, sw := s.sw ++ [v] }.print
          ("push OK " ++ hex v) := by
      simp [Harness.push, rc]
    have e' : p.perform (.push v) =
        ⟨p.q ++ [v], p.taken + 1, p.log ++ ["push OK " ++ hex v]⟩ := by
      rw [PlainTest.perform, ← h.sw_eq, if_pos len]
    have after := synced.stored
    rw [List.length_append, List.length_singleton] at after
    rw [e, e']
    refine ⟨synced, by rw [← h.sw_eq]; rfl, by rw [DeterministicTest.print, h.log_eq], ?_, counted⟩
    show (Harness.hostTryPush v s.bench).2.metrics.successfulPushes = p.taken + 1
    omega

/-- A pop from an empty queue is refused, and the reference agrees. -/
theorem Follows.pop_nil (h : Follows base a b s p) (hq : p.q = []) :
    Follows base a (b + 1) (pop s) (p.perform .pop) := by
  have counted := h.counted.hostTryPop
  have taken := (successfulPushes_hostTryPop s.bench).trans h.taken_eq
  have hsw : s.sw = [] := h.sw_eq.trans hq
  obtain ⟨out, synced⟩ := (hsw ▸ h.synced).hostTryPop_nil
  have e : hostTryPop s.bench = (none, (hostTryPop s.bench).2) := by rw [← out]
  have e' : p.perform .pop = ⟨[], p.taken, p.log ++ ["pop REFUSED (empty)"]⟩ := by
    rw [PlainTest.perform, hq]
  rw [Harness.pop, e, e']
  simp only [hsw, ne_eq, not_true_eq_false, if_false]
  exact ⟨synced, rfl, by rw [DeterministicTest.print, h.log_eq], taken, counted⟩

/-- Otherwise it gives the first word. -/
theorem Follows.pop_cons (h : Follows base a b s p) {x : Word} {q : List Word} (hq : p.q = x :: q) :
    Follows base a (b + 1) (pop s) ⟨q, p.taken, p.log ++ ["pop OK " ++ hex x]⟩ := by
  have counted := h.counted.hostTryPop
  have taken := (successfulPushes_hostTryPop s.bench).trans h.taken_eq
  have hsw : s.sw = x :: q := h.sw_eq.trans hq
  obtain ⟨out, synced⟩ := (hsw ▸ h.synced).hostTryPop_cons
  have e : hostTryPop s.bench = (some x, (hostTryPop s.bench).2) := by rw [← out]
  rw [Harness.pop, e]
  simp only [hsw, ne_eq, not_true_eq_false, if_false]
  exact ⟨synced, rfl, by rw [DeterministicTest.print, h.log_eq], taken, counted⟩

theorem Follows.pop (h : Follows base a b s p) :
    Follows base a (b + 1) (pop s) (p.perform .pop) := by
  cases hq : p.q with
  | nil => exact h.pop_nil hq
  | cons x q =>
    have e : p.perform .pop = ⟨q, p.taken, p.log ++ ["pop OK " ++ hex x]⟩ := by
      rw [PlainTest.perform, hq]
    exact e ▸ h.pop_cons hq

/-- The drain loop takes one word off in every round, so it ends. -/
theorem Follows.drain (h : Follows base a b s p) {rounds : Nat} (enough : p.q.length ≤ rounds) :
    Follows base a (b + p.q.length) (steps drainRound rounds s)
      ⟨[], p.taken, p.lines⟩ := by
  induction rounds generalizing s p b with
  | zero =>
    have hq : p.q = [] := List.length_eq_zero_iff.mp (Nat.le_zero.mp enough)
    exact ⟨h.synced, h.sw_eq.trans hq, by
      simp [steps, PlainTest.lines, hq, h.log_eq], h.taken_eq, by rw [hq]; exact h.counted⟩
  | succ rounds ih =>
    cases hq : p.q with
    | nil =>
      have hsw : s.sw = [] := h.sw_eq.trans hq
      have e : steps drainRound (rounds + 1) s = s := by simp [steps, drainRound, hsw]
      rw [e]
      exact ⟨h.synced, hsw, by simp [PlainTest.lines, hq, h.log_eq], h.taken_eq, h.counted⟩
    | cons x q =>
      have hsw : s.sw = x :: q := h.sw_eq.trans hq
      have e : steps drainRound (rounds + 1) s = steps drainRound rounds (Harness.pop s) := by
        simp [steps, drainRound, hsw]
      have rest := ih (h.pop_cons hq) (by
        rw [hq, List.length_cons] at enough
        exact Nat.le_of_succ_le_succ enough)
      rw [e]
      have lines : PlainTest.lines ⟨q, p.taken, p.log ++ ["pop OK " ++ hex x]⟩ = p.lines := by
        simp [PlainTest.lines, hq]
      rw [lines] at rest
      rwa [List.length_cons, Nat.add_comm q.length 1, ← Nat.add_assoc]

end Follows

/-- No script leaves more words in the queue than it has operations. -/
theorem length_run_perform (ops : List Scripted) (p : PlainTest) :
    (run PlainTest.perform p ops).q.length ≤ p.q.length + ops.length := by
  induction ops generalizing p with
  | nil => exact Nat.le_refl _
  | cons op ops ih =>
    have step : (p.perform op).q.length ≤ p.q.length + 1 := by
      cases op with
      | push v =>
        simp only [PlainTest.perform]
        split <;> simp
      | pop =>
        cases hq : p.q <;> simp only [PlainTest.perform, hq, List.length_nil, List.length_cons] <;>
          omega
    have := ih (p.perform op)
    rw [run_cons, List.length_cons]
    omega

theorem follows_start {g : Bench} (hpush : g.top.hostPushReq = false)
    (hpop : g.top.hostPopReq = false) :
    Follows (g.cycles + 5) 0 0 (startDeterministicTest g) .start :=
  ⟨synced_start hpush hpop, rfl, rfl, by
    simp only [startDeterministicTest, resetCycles, tick, metrics_ticks, PlainTest.start],
    counted_start g⟩

theorem Follows.run {base a b : Nat} {s : DeterministicTest} {p : PlainTest}
    (h : Follows base a b s p) (ops : List Scripted) :
    Follows base (a + ops.countP (·.isPush)) (b + ops.countP (!·.isPush))
      (run Harness.perform s ops) (run PlainTest.perform p ops) := by
  induction ops generalizing a b s p with
  | nil => exact h
  | cons op ops ih =>
    cases op with
    | push v =>
      have pushes : (Scripted.push v :: ops).countP (·.isPush) = ops.countP (·.isPush) + 1 :=
        List.countP_cons_of_pos rfl
      have pops : (Scripted.push v :: ops).countP (!·.isPush) = ops.countP (!·.isPush) :=
        List.countP_cons_of_neg Bool.false_ne_true
      rw [pushes, pops, Nat.add_comm _ 1, ← Nat.add_assoc]
      exact ih (h.push v)
    | pop =>
      have pushes : (Scripted.pop :: ops).countP (·.isPush) = ops.countP (·.isPush) :=
        List.countP_cons_of_neg Bool.false_ne_true
      have pops : (Scripted.pop :: ops).countP (!·.isPush) = ops.countP (!·.isPush) + 1 :=
        List.countP_cons_of_pos rfl
      rw [pushes, pops, Nat.add_comm _ 1, ← Nat.add_assoc]
      exact ih h.pop

/-- The deterministic test with the plain queue beside it. -/
theorem follows_deterministicTest {rounds : Nat} {script : List Scripted} {g : Bench}
    (hpush : g.top.hostPushReq = false) (hpop : g.top.hostPopReq = false)
    (enough : script.length ≤ rounds) :
    let p := run PlainTest.perform .start script
    Follows (g.cycles + 5) (script.countP (·.isPush)) (script.countP (!·.isPush) + p.q.length)
      (deterministicTest rounds script g) ⟨[], p.taken, p.lines⟩ := by
  have played := (follows_start hpush hpop).run script
  have left := length_run_perform script .start
  have fits : (run PlainTest.perform .start script).q.length ≤ rounds :=
    left.trans (by simpa [PlainTest.start])
  have drained := played.drain fits
  rwa [Nat.zero_add, Nat.zero_add] at drained

/-- **The deterministic test follows the plain queue.**  Over any registers, for any script,
the drain loop ends within as many rounds as the script has operations, the log is that of a
queue of 16 words, no mismatch is counted, and the cycles are five for the reset and one for
each request that succeeded. -/
theorem deterministicTest_follows (rounds : Nat) (script : List Scripted) (g : Bench)
    (hpush : g.top.hostPushReq = false) (hpop : g.top.hostPopReq = false)
    (enough : script.length ≤ rounds) :
    let s := deterministicTest rounds script g
    let p := run PlainTest.perform .start script
    let m := s.bench.metrics
    drainRound s = none ∧ s.log = p.lines ∧ m.mismatches = 0 ∧
      m.attemptedPushes = script.countP (·.isPush) ∧
      m.attemptedPops = script.countP (!·.isPush) + p.q.length ∧
      m.successfulPushes = p.taken ∧ m.successfulPops = p.taken ∧
      s.bench.cycles = g.cycles + 5 + 2 * p.taken := by
  intro s p m
  have h : Follows (g.cycles + 5) (script.countP (·.isPush))
      (script.countP (!·.isPush) + p.q.length) s ⟨[], p.taken, p.lines⟩ :=
    follows_deterministicTest hpush hpop enough
  have hsw : s.sw = [] := h.sw_eq
  have taken : m.successfulPushes = p.taken := h.taken_eq
  have stored : m.successfulPushes = m.successfulPops + s.sw.length := h.synced.stored
  have cycles : s.bench.cycles = g.cycles + 5 + m.successfulPushes + m.successfulPops :=
    h.counted.cycles
  rw [hsw, List.length_nil] at stored
  exact ⟨by simp [drainRound, hsw], h.log_eq, h.synced.clean, h.counted.pushes, h.counted.pops,
    taken, by omega, by omega⟩

theorem deterministicTest_follows_script :
    let s := deterministicTest 8 script powerOnBench
    let p := run PlainTest.perform .start script
    let m := s.bench.metrics
    drainRound s = none ∧ s.log = p.lines ∧ m.mismatches = 0 ∧
      m.attemptedPushes = script.countP (·.isPush) ∧
      m.attemptedPops = script.countP (!·.isPush) + p.q.length ∧
      m.successfulPushes = p.taken ∧ m.successfulPops = p.taken ∧
      s.bench.cycles = powerOnBench.cycles + 5 + 2 * p.taken :=
  deterministicTest_follows 8 script powerOnBench rfl rfl (by decide)

/-! ## Cycles of the randomized test -/

section Randomized

variable {base a b : Nat}

theorem Counted.mismatch {g : Bench} (h : Counted base a b g) : Counted base a b (mismatch g) :=
  ⟨h.cycles, h.pushes, h.pops⟩

theorem Counted.popOp {s : RandomizedTest} (h : Counted base a b s.bench) :
    Counted base a (b + 1) (popOp s).bench := by
  have counted := h.hostTryPop
  unfold Harness.popOp
  generalize Harness.hostTryPop s.bench = r at counted ⊢
  obtain ⟨out, g⟩ := r
  cases out with
  | none =>
    by_cases e : s.sw ≠ []
    · simpa only [e, ne_eq, not_false_eq_true, if_true] using counted.mismatch
    · simpa only [e, if_false] using counted
  | some out =>
    cases s.sw with
    | nil => exact counted.mismatch
    | cons expected sw =>
      by_cases e : expected ≠ out
      · simpa only [e, ne_eq, not_false_eq_true, if_true] using counted.mismatch
      · simpa only [e, if_false] using counted

/-- A round of the loop is a push, a pop or an idle cycle. -/
theorem Counted.randomOp {s : RandomizedTest} (h : Counted base a b s.bench) (rand : Nat → Nat) :
    let op := rand s.drawn % 3
    Counted (base + if op = 2 then 1 else 0) (a + if op = 0 then 1 else 0)
      (b + if op = 1 then 1 else 0) (randomOp rand s).bench := by
  intro op
  have below : op < 3 := Nat.mod_lt _ (by decide)
  unfold Harness.randomOp
  obtain hop | hop | hop : op = 0 ∨ op = 1 ∨ op = 2 := by omega
  · simpa [op, hop, Harness.pushOp] using h.hostTryPush (BitVec.ofNat 32 (rand (s.drawn + 1)))
  · simpa [op, hop] using Counted.popOp (s := { s with drawn := s.drawn + 1 }) h
  · have cycles := h.cycles
    have idle : Counted (base + 1) a b (tick s.bench) :=
      ⟨by simp only [tick]; omega, h.pushes, h.pops⟩
    simpa [op, hop] using idle

/-- How many of the first `n` rounds draw `op`. -/
def opsOf (rand : Nat → Nat) (g : Bench) (op n : Nat) : Nat :=
  (List.range n).countP fun i => rand (loopState rand g i).drawn % 3 = op

/-- How many of the first `n` rounds are idle. -/
def idles (rand : Nat → Nat) (g : Bench) (n : Nat) : Nat := opsOf rand g 2 n

theorem loopState_succ (rand : Nat → Nat) (g : Bench) (i : Nat) :
    loopState rand g (i + 1) = randomOp rand (loopState rand g i) := by
  simp only [loopState, randomOps, List.range_succ, run_concat]

theorem opsOf_succ (rand : Nat → Nat) (g : Bench) (op i : Nat) :
    opsOf rand g op (i + 1) =
      opsOf rand g op i + if rand (loopState rand g i).drawn % 3 = op then 1 else 0 := by
  simp [opsOf, List.range_succ]

/-- Every round is a push, a pop or idle. -/
theorem opsOf_add (rand : Nat → Nat) (g : Bench) (n : Nat) :
    opsOf rand g 0 n + opsOf rand g 1 n + idles rand g n = n := by
  induction n with
  | zero => rfl
  | succ n ih =>
    have below : rand (loopState rand g n).drawn % 3 < 3 := Nat.mod_lt _ (by decide)
    simp only [idles, opsOf_succ] at ih ⊢
    split_ifs <;> omega

theorem counted_loopState (rand : Nat → Nat) (g : Bench) (i : Nat) :
    Counted (g.cycles + 5 + idles rand g i) (opsOf rand g 0 i) (opsOf rand g 1 i)
      (loopState rand g i).bench := by
  induction i with
  | zero => exact counted_start g
  | succ i ih =>
    rw [loopState_succ, idles, opsOf_succ, opsOf_succ, opsOf_succ, ← Nat.add_assoc]
    exact ih.randomOp rand

/-- Each round of the drain loop is a request. -/
theorem Counted.drain {s : RandomizedTest} {g : Bench} {q : List Word} (h : Counted base a b g)
    (synced : Synced g q) : Counted base a (b + q.length) (drain.go s g q).bench := by
  induction q generalizing g b with
  | nil => exact h
  | cons x q ih =>
    obtain ⟨out, synced'⟩ := synced.hostTryPop_cons
    have e : Harness.hostTryPop g = (some x, (Harness.hostTryPop g).2) := by rw [← out]
    rw [Harness.drain.go, e]
    have := ih h.hostTryPop synced'
    simpa [Nat.add_assoc, Nat.add_comm 1] using this

/-- The counters at the end of a test that began at cycle `c` and was idle `idle` times. -/
structure Accounts (ops c idle cycles : Nat) (m : Metrics) : Prop where
  mismatches : m.mismatches = 0
  pushes : m.attemptedPushes = m.successfulPushes + m.refusedPushes
  pops : m.attemptedPops = m.successfulPops + m.refusedPops
  drained : m.successfulPops = m.successfulPushes
  cycles : cycles = c + 5 + 2 * m.successfulPushes + idle
  atLeast : ops ≤ m.attemptedPushes + m.attemptedPops + idle
  atMost : m.attemptedPushes + m.attemptedPops + idle ≤ ops + 16

theorem accounts_runRandomizedTest (rand : Nat → Nat) (ops : Nat) {g : Bench}
    (hpush : g.top.hostPushReq = false) (hpop : g.top.hostPopReq = false) :
    Accounts ops g.cycles (idles rand g ops) (runRandomizedTest rand ops g).bench.cycles
      (runRandomizedTest rand ops g).bench.metrics := by
  have h := counted_loopState rand g ops
  have rounds := opsOf_add rand g ops
  have synced : Synced (loopState rand g ops).bench (loopState rand g ops).sw :=
    (synced_start hpush hpop).randomOps rand ops
  have left := synced.holds.length_le
  have final : Synced (runRandomizedTest rand ops g).bench [] :=
    (synced.drain (s := loopState rand g ops)).1
  have counted : Counted (g.cycles + 5 + idles rand g ops) (opsOf rand g 0 ops)
      (opsOf rand g 1 ops + (loopState rand g ops).sw.length)
      (runRandomizedTest rand ops g).bench := h.drain (s := loopState rand g ops) synced
  have stored := final.stored
  have cycles := counted.cycles
  have attemptedPushes := counted.pushes
  have attemptedPops := counted.pops
  rw [List.length_nil] at stored
  exact ⟨final.clean, final.pushes, final.pops, by omega, by omega, by omega, by omega⟩

end Randomized

/-! ## `main` -/

structure Program where
  /-- the deterministic test's part of `outputs/run.log` -/
  log : List String
  stdout : List String
  resultsJson : List String
  metricsCsv : List String
  status : Nat

/-- `write_results_json` -/
def resultsJson (m : Metrics) (simCycles : Nat) : List String :=
  ["\x7b",
    "  \"attempted_pushes\": " ++ toString m.attemptedPushes ++ ",",
    "  \"successful_pushes\": " ++ toString m.successfulPushes ++ ",",
    "  \"refused_pushes\": " ++ toString m.refusedPushes ++ ",",
    "  \"attempted_pops\": " ++ toString m.attemptedPops ++ ",",
    "  \"successful_pops\": " ++ toString m.successfulPops ++ ",",
    "  \"refused_pops\": " ++ toString m.refusedPops ++ ",",
    "  \"mismatches\": " ++ toString m.mismatches ++ ",",
    "  \"sim_cycles\": " ++ toString simCycles,
    "\x7d"]

/-- `write_metrics_csv` -/
def metricsCsv (m : Metrics) (simCycles : Nat) : List String :=
  ["attempted_pushes,successful_pushes,refused_pushes,attempted_pops,successful_pops," ++
      "refused_pops,mismatches,sim_cycles",
    ",".intercalate ([m.attemptedPushes, m.successfulPushes, m.refusedPushes, m.attemptedPops,
      m.successfulPops, m.refusedPops, m.mismatches, simCycles].map toString)]

def summary (m : Metrics) (cycles : Nat) : List String :=
  ["[HOST] randomized test mismatches: " ++ toString m.mismatches,
    "[HOST] pushed: attempts=" ++ toString m.attemptedPushes ++ " success=" ++
      toString m.successfulPushes ++ " refused=" ++ toString m.refusedPushes,
    "[HOST] popped: attempts=" ++ toString m.attemptedPops ++ " success=" ++
      toString m.successfulPops ++ " refused=" ++ toString m.refusedPops,
    "[HOST] cycles simulated: " ++ toString cycles]

/-- The globals as `main` leaves them when the deterministic test is done. -/
def afterDeterministicTest (rounds : Nat) (g : Bench) : Bench :=
  { (runDeterministicTest rounds script g).bench with cycles := 0, metrics := {} }

def OPS : Nat := 10000

/-- `main` from the summary on. -/
def report (det : DeterministicTest) (random : RandomizedTest) : Program where
  log := det.log
  stdout := summary random.bench.metrics random.bench.cycles
  resultsJson := resultsJson random.bench.metrics random.bench.cycles
  metricsCsv := metricsCsv random.bench.metrics random.bench.cycles
  status := if det.bench.metrics.mismatches + random.bench.metrics.mismatches = 0 then 0 else 2

def main (rand : Nat → Nat) (rounds : Nat) (queue : QueueCore 16 32) (distributor : Distributor)
    (arbiter : Arbiter) : Program :=
  let g : Bench := ⟨powerOn queue distributor arbiter, 0, {}⟩
  report (runDeterministicTest rounds script g)
    (runRandomizedTest rand OPS (afterDeterministicTest rounds g))

/-- What a run of the program leaves behind, `m` being the counters of its randomized test. -/
structure Passes (prog : Program) (m : Metrics) (idle cycles : Nat) : Prop where
  status : prog.status = 0
  log : prog.log = (run PlainTest.perform .start script).lines ++
    ["[HOST] deterministic test done. cycles simulated: " ++ toString 17]
  stdout : prog.stdout = summary m cycles
  resultsJson : prog.resultsJson = resultsJson m cycles
  metricsCsv : prog.metricsCsv = metricsCsv m cycles
  accounts : Accounts OPS 0 idle cycles m

theorem taken_script : (run PlainTest.perform .start script).taken = 6 := rfl

theorem passes_report {det : DeterministicTest} {random : RandomizedTest} {idle : Nat}
    (accounts : Accounts OPS 0 idle random.bench.cycles random.bench.metrics)
    (clean : det.bench.metrics.mismatches = 0)
    (log : det.log = (run PlainTest.perform .start script).lines ++
      ["[HOST] deterministic test done. cycles simulated: " ++ toString 17]) :
    Passes (report det random) random.bench.metrics idle random.bench.cycles := by
  refine ⟨?_, log, rfl, rfl, rfl, accounts⟩
  rw [report, clean, accounts.mismatches]
  rfl

/-- The same from any bench that starts at cycle 0 with no request on the ports. -/
theorem passes_from (rand : Nat → Nat) (rounds : Nat) {g : Bench} (start : g.cycles = 0)
    (hpush : g.top.hostPushReq = false) (hpop : g.top.hostPopReq = false) (enough : 8 ≤ rounds) :
    Passes (report (runDeterministicTest rounds script g)
        (runRandomizedTest rand OPS (afterDeterministicTest rounds g)))
      (runRandomizedTest rand OPS (afterDeterministicTest rounds g)).bench.metrics
      (idles rand (afterDeterministicTest rounds g) OPS)
      (runRandomizedTest rand OPS (afterDeterministicTest rounds g)).bench.cycles := by
  have short : script.length ≤ rounds := enough
  have follows := follows_deterministicTest hpush hpop short
  have ready : Ready (afterDeterministicTest rounds g).top := follows.synced.ready
  have accounts := accounts_runRandomizedTest rand OPS ready.hostPushReq ready.hostPopReq
  have fresh : (afterDeterministicTest rounds g).cycles = 0 := rfl
  rw [fresh] at accounts
  have footer : (deterministicTest rounds script g).bench.cycles = 17 := by
    have cycles := follows.counted.cycles
    have stored := follows.synced.stored
    have taken := follows.taken_eq
    rw [follows.sw_eq, List.length_nil] at stored
    rw [taken_script] at taken
    omega
  have log : (runDeterministicTest rounds script g).log =
      (run PlainTest.perform .start script).lines ++
        ["[HOST] deterministic test done. cycles simulated: " ++ toString 17] := by
    rw [runDeterministicTest, DeterministicTest.print, follows.log_eq, footer]
  exact passes_report accounts follows.synced.clean log

/-- **The program passes.**  Over any registers at power-on and any numbers from `rand()`, it
exits with 0, its log is that of a plain queue, and the three reports give the same counters:
every word pushed is popped, and `sim_cycles` is five, two for each word, and one for each
idle round. -/
theorem main_passes (rand : Nat → Nat) (rounds : Nat) (q : QueueCore 16 32) (d : Distributor)
    (a : Arbiter) (enough : 8 ≤ rounds) :
    let g := afterDeterministicTest rounds ⟨powerOn q d a, 0, {}⟩
    let random := runRandomizedTest rand OPS g
    Passes (main rand rounds q d a) random.bench.metrics (idles rand g OPS) random.bench.cycles :=
  passes_from (g := ⟨powerOn q d a, 0, {}⟩) rand rounds rfl rfl rfl enough

theorem main_passes_powerOn :
    let g := afterDeterministicTest 8
      ⟨powerOn ⟨fun _ => 7, 3, 5, 21⟩ ⟨true, 1, 2⟩ ⟨1, 2, true⟩, 0, {}⟩
    let random := runRandomizedTest id OPS g
    Passes (main id 8 ⟨fun _ => 7, 3, 5, 21⟩ ⟨true, 1, 2⟩ ⟨1, 2, true⟩) random.bench.metrics
      (idles id g OPS) random.bench.cycles :=
  main_passes id 8 ⟨fun _ => 7, 3, 5, 21⟩ ⟨true, 1, 2⟩ ⟨1, 2, true⟩ (by decide)

end TaskQueueCoSim.Harness
