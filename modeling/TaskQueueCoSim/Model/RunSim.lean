import Mathlib.Algebra.Order.Field.Rat
import TaskQueueCoSim.Lib.OrderStatistics
import TaskQueueCoSim.Model.Arriving

/-!
# run_sim with its parameters (model/behavioral.py)

`run_sim` makes the distributions from the tunable parameters, seeds the one
generator that they share, and starts the processes.
-/

namespace TaskQueueCoSim.Behavioral

/-- Python's `random` with the state `G`: any generator that its seed determines. -/
structure Random (G : Type) where
  seed : ℤ → G
  expovariate : ℚ → G → ℚ × G
  gauss : ℚ → ℚ → G → ℚ × G

variable {G : Type}

/-! ## Distributions -/

def makeExponential (r : Random G) (rate : ℚ) : G → ℚ × G :=
  if rate ≤ 0 then fun g => (0, g) else r.expovariate rate

def makeDeterministic (value : ℚ) : G → ℚ × G := fun g => (value, g)

def makeNormal (r : Random G) (mu sigma : ℚ) : G → ℚ × G :=
  if sigma ≤ 0 then fun g => (mu, g)
  else fun g => (max 0 (r.gauss mu sigma g).1, (r.gauss mu sigma g).2)

/-- The tunable parameters in force during a call. -/
structure Tunables where
  seed : ℤ
  numTasks : ℕ
  numFollowers : ℕ
  numLeaders : ℕ
  taskDurationMean : ℚ
  taskDurationSd : ℚ
  dispatchTimeSw : ℚ
  dispatchTimeHw : ℚ
  arrivalRate : ℚ
  arrivalModel : String
  batchEnqueue : ℤ
  simTraceSampleInterval : ℚ

namespace Tunables

variable (p : Tunables)

def interarrival (r : Random G) : G → ℚ × G :=
  if p.arrivalModel = "poisson" then makeExponential r p.arrivalRate
  else makeDeterministic (if 0 < p.arrivalRate then 1 / p.arrivalRate else 0)

def dispatchTime (mode : String) : ℚ :=
  if mode = "sw" then p.dispatchTimeSw else p.dispatchTimeHw

/-- What `run_sim(mode)` starts the processes with. -/
def setup (r : Random G) (mode : String) : Setup G where
  numTasks := p.numTasks
  numLeaders := p.numLeaders
  numFollowers := p.numFollowers
  batchEnqueue := p.batchEnqueue
  interarrival := p.interarrival r
  dispatchTime := makeDeterministic (p.dispatchTime mode)
  taskDuration := makeNormal r p.taskDurationMean p.taskDurationSd
  sampleInterval := p.simTraceSampleInterval

/-- The state of `run_sim(mode)` after `n` rounds of its loop. -/
def run (r : Random G) (mode : String) (n : ℕ) : Sim G :=
  reached (p.setup r mode) (r.seed p.seed) n

/-- The loop has been left by completion. -/
def Completed (s : Sim G) : Prop := p.numTasks ≤ s.metrics.completedTasks

end Tunables

/-! ## Latencies -/

/-- The latencies of the tasks that are finished, in the order of their arrival. -/
def latencies (numTasks : ℕ) (m : Metrics) : List ℚ :=
  (List.range numTasks).filterMap fun tid => do
    let a ← (m.taskInfo tid).arrival
    let f ← (m.taskInfo tid).finish
    return f - a

/-- `latency_stats["median_ns"]` -/
def medianNs (numTasks : ℕ) (m : Metrics) : ℚ :=
  if latencies numTasks m = [] then 0 else OrderStatistics.median (latencies numTasks m)

/-! ## What is drawn -/

section Draws

variable (c : Setup G) (random : G) {x d : ℚ} (hd : ∀ g, c.dispatchTime g = (d, g))

/-- If durations are not drawn, the generator is used for the interarrival times only. -/
def Draws.ofArrivals (hx : ∀ g, c.taskDuration g = (x, g)) : Draws c where
  state a _ := (fun g => (c.interarrival g).2)^[a] random
  interarrival a := (c.interarrival ((fun g => (c.interarrival g).2)^[a] random)).1
  taskDuration _ := x
  dispatchTime := d
  interarrival_eq a _ := by rw [Function.iterate_succ_apply']
  taskDuration_eq _ _ := hx _
  dispatchTime_eq _ _ := hd _

/-- If interarrival times are not drawn, the generator is used for the durations only. -/
def Draws.ofDurations (hx : ∀ g, c.interarrival g = (x, g)) : Draws c where
  state _ b := (fun g => (c.taskDuration g).2)^[b] random
  interarrival _ := x
  taskDuration b := (c.taskDuration ((fun g => (c.taskDuration g).2)^[b] random)).1
  dispatchTime := d
  interarrival_eq _ _ := hx _
  taskDuration_eq _ b := by rw [Function.iterate_succ_apply']
  dispatchTime_eq _ _ := hd _

end Draws

/-- Two runs that draw the same interarrival times have the same arrival times. -/
theorem Draws.arrive_congr {c c' : Setup G} {w : Draws c} {w' : Draws c'}
    (h : ∀ a, w.interarrival a = w'.interarrival a) : w.arrive = w'.arrive := by
  funext i
  induction i with
  | zero => rfl
  | succ i ih => rw [arrive, arrive, ih, h]

/-- Durations are not drawn without a deviation. -/
theorem makeNormal_of_le (r : Random G) (mu : ℚ) {sigma : ℚ} (h : sigma ≤ 0) (g : G) :
    makeNormal r mu sigma g = (mu, g) := by
  rw [makeNormal, if_pos h]

end TaskQueueCoSim.Behavioral
