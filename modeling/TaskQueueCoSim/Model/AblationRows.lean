import TaskQueueCoSim.Model.Globals
import TaskQueueCoSim.Model.LatencyStats
import TaskQueueCoSim.Model.LoopEnds

/-!
# The rows of the ablation (model/run_ablation.py)

`experiment_runner` makes a row from the results of a run.  It calls `run_sim`, or,
if it cannot, runs `model/behavioral.py` and reads the file that it writes.

* `experimentRow_results`: a row from the results of a run has what they report;
* `experimentRow_file`: a row from the file is empty, as no key of it is found;
* `rows_differ`: the two rows never agree.
-/

namespace TaskQueueCoSim.Behavioral

variable {G : Type}

/-! ## Python data -/

inductive Key where
  | str (s : String)
  | int (n : ℕ)
  deriving DecidableEq

/-- The data that dictionaries of results are made of. -/
inductive Data where
  | value (v : Value)
  | list (l : List Data)
  | dict (items : List (Key × Data))

namespace Value

def truthy : Value → Bool
  | .none => false
  | .bool b => b
  | .int n => n ≠ 0
  | .float q => q ≠ 0
  | .str s => s ≠ ""
  | .object _ => true

def integer : Value → Option ℤ
  | .bool b => some b.toNat
  | .int n => some n
  | _ => Option.none

def number : Value → Option ℚ
  | .float q => some q
  | v => v.integer.map fun n => (n : ℚ)

/-- A string; what is none equals no string. -/
def text : Value → String
  | .str s => s
  | _ => ""

end Value

namespace Data

/-- `d[k]` if `d` is a dictionary with the key. -/
def item (d : Data) (k : String) : Option Data :=
  match d with
  | .dict items => items.lookup (.str k)
  | _ => none

/-- `d.get(k, default)`; what is no dictionary raises. -/
def get (d : Data) (k : String) (default : Data) : Option Data :=
  match d with
  | .dict items => some ((items.lookup (.str k)).getD default)
  | _ => none

def truthy : Data → Bool
  | .value v => v.truthy
  | .list l => !l.isEmpty
  | .dict items => !items.isEmpty

def number : Data → Option ℚ
  | .value v => v.number
  | _ => none

/-- `sum(m.values()) / len(m) if m else 0.0` for `m = d or {}` -/
def average (d : Data) : Option ℚ :=
  if d.truthy then
    match d with
    | .dict items => (items.mapM fun x : Key × Data => x.2.number).map fun xs => xs.sum / xs.length
    | _ => none
  else some 0

end Data

mutual

/-- What `json.load` reads of what `json.dump` has written: keys become strings. -/
def reload : Data → Data
  | .value v => .value v
  | .list l => .list (reloadList l)
  | .dict items => .dict (reloadItems items)

def reloadList : List Data → List Data
  | [] => []
  | d :: l => reload d :: reloadList l

def reloadItems : List (Key × Data) → List (Key × Data)
  | [] => []
  | (.str s, d) :: items => (.str s, reload d) :: reloadItems items
  | (.int n, d) :: items => (.str (toString n), reload d) :: reloadItems items

end

/-! ## The results of run_sim -/

/-- The parameters that the globals give; `none` where a type is wrong. -/
def tunables (g : Globals) : Option Tunables := do
  let integer k := (g k).bind Value.integer
  let number k := (g k).bind Value.number
  return {
    seed := ← integer "SEED"
    numTasks := (← integer "NUM_TASKS").toNat
    numFollowers := (← integer "NUM_FOLLOWERS").toNat
    numLeaders := (← integer "NUM_LEADERS").toNat
    taskDurationMean := ← number "TASK_DURATION_MEAN"
    taskDurationSd := ← number "TASK_DURATION_SD"
    dispatchTimeSw := ← number "DISPATCH_TIME_SW"
    dispatchTimeHw := ← number "DISPATCH_TIME_HW"
    arrivalRate := ← number "ARRIVAL_RATE"
    arrivalModel := (← g "ARRIVAL_MODEL").text
    batchEnqueue := ⌈← number "BATCH_ENQUEUE"⌉
    simTraceSampleInterval := ← number "SIM_TRACE_SAMPLE_INTERVAL" }

/-- The process whose busy time the next event adds to. -/
def Sim.busies (c : Setup G) (s : Sim G) : Option (StoreName × ℕ) :=
  s.due.bind fun
    | .leaderGet lid _ => if 0 < (c.dispatchTime s.random).1 then none else some (.arrivalBuffer, lid)
    | .leaderTimeout lid _ _ => some (.arrivalBuffer, lid)
    | .execPut lid _ _ _ => some (.arrivalBuffer, lid)
    | .followerGet fid _ => if 0 < (c.taskDuration s.random).1 then none else some (.execQueue, fid)
    | .followerTimeout fid _ _ => some (.execQueue, fid)
    | _ => none

/-- The leader whose block time the next event adds to. -/
def Sim.blocks (s : Sim G) : Option ℕ :=
  s.agenda.head?.bind fun
    | (t, .execPut lid _ _ beforePut) => if 0 < t - beforePut then some lid else none
    | _ => none

/-- The state in which the loop is left, with the keys of the dictionaries of times in
the order in which they came. -/
structure Outcome (G : Type) where
  sim : Sim G
  leaders : List ℕ
  blocked : List ℕ
  followers : List ℕ

def outcome (c : Setup G) (random : G) (n : ℕ) : Outcome G where
  sim := reached c random n
  leaders := keys .arrivalBuffer
  blocked := (Machine.stepsLog (round c) Sim.blocks n (start c random)).eraseDups
  followers := keys .execQueue
where
  keys (q : StoreName) : List ℕ :=
    ((Machine.stepsLog (round c) (Sim.busies c) n (start c random)).filterMap fun p =>
      if p.1 = q then some p.2 else none).eraseDups

/-- `queue_waits` -/
def queueWaits (numTasks : ℕ) (m : Metrics) : List ℚ :=
  (List.range numTasks).filterMap fun tid => do
    let q ← (m.taskInfo tid).enqueued
    let s ← (m.taskInfo tid).startExec
    return s - q

namespace Outcome

def float (x : ℚ) : Data := .value (.float x)

def int (n : ℕ) : Data := .value (.int n)

/-- A figure about `xs`, which is 0 if there are none. -/
def figure (xs : List ℚ) (x : ℚ) : Data := if xs = [] then int 0 else float x

/-- A dictionary of times, as fractions of the whole. -/
def fractions (keys : List ℕ) (f : ℕ → ℚ) : Data := .dict (keys.map fun k => (.int k, float (f k)))

def depths (samples : List (ℚ × ℕ)) : Data :=
  .list (samples.map fun x => .dict [(.str "t", float x.1), (.str "depth", int x.2)])

def summary (g : Globals) (mode : String) (s : Sim G) : Data :=
  let var k := Data.value ((g k).getD .none)
  .dict [(.str "mode", .value (.str mode)), (.str "env_now", float s.now),
    (.str "num_tasks", var "NUM_TASKS"), (.str "num_followers", var "NUM_FOLLOWERS"),
    (.str "num_leaders", var "NUM_LEADERS"), (.str "task_duration_mean", var "TASK_DURATION_MEAN"),
    (.str "dispatch_time", .value ((dispatchTime mode g).getD .none)),
    (.str "arrival_rate", var "ARRIVAL_RATE"), (.str "queue_capacity", var "EXEC_QUEUE_CAPACITY"),
    (.str "batch_enqueue", var "BATCH_ENQUEUE")]

def latencyDict (xs : List ℚ) (stats : LatencyStats) : Data :=
  .dict [(.str "avg_ns", figure xs stats.avgNs), (.str "median_ns", figure xs stats.medianNs),
    (.str "p90_ns", figure xs stats.p90Ns), (.str "p99_ns", figure xs stats.p99Ns),
    (.str "min_ns", figure xs stats.minNs), (.str "max_ns", figure xs stats.maxNs)]

def waitDict (xs : List ℚ) : Data :=
  .dict [(.str "avg_wait_ns", figure xs (OrderStatistics.mean xs)),
    (.str "median_wait_ns", figure xs (OrderStatistics.median xs)),
    (.str "max_wait_ns", figure xs (xs.max?.getD 0))]

variable (o : Outcome G)

def leaderBlock (lid : ℕ) : ℚ := o.sim.metrics.leaderBlockTime lid / o.sim.totalTime

/-- The items of the dictionary that `run_sim` returns. -/
def items (g : Globals) (mode : String) (numTasks : ℕ) (stats : LatencyStats) : List (Key × Data) :=
  let m := o.sim.metrics
  [(.str "summary", summary g mode o.sim),
    (.str "latency_stats", latencyDict (latencies numTasks m) stats),
    (.str "wait_stats", waitDict (queueWaits numTasks m)),
    (.str "leader_util", fractions o.leaders o.sim.leaderUtil),
    (.str "leader_block_fraction", fractions o.blocked o.leaderBlock),
    (.str "follower_util_sample", fractions (o.followers.take 16) o.sim.followerUtil),
    (.str "queue_ts_exec", depths m.queueSamplesExec),
    (.str "queue_ts_arrival", depths m.queueSamplesArrival),
    (.str "rate_ts", .list (m.rateSamples.map fun x =>
      .dict [(.str "t", float x.1), (.str "enq", float x.2.1), (.str "deq", float x.2.2)])),
    (.str "completed_tasks", int m.completedTasks), (.str "total_enqueued", int m.totalEnqueued),
    (.str "total_dequeued", int m.totalDequeued)]

/-- What `run_sim` returns; the statistics may raise. -/
def results (g : Globals) (mode : String) (numTasks : ℕ) : Option Data :=
  (latencyStats (latencies numTasks o.sim.metrics)).map fun stats =>
    .dict (o.items g mode numTasks stats)

end Outcome

/-- `run_sim(mode, config)` returns the results when the globals are `g` before the call. -/
def Returns (r : Random G) (g : Globals) (call : Call) (results : Data) : Prop :=
  ∃ p n, tunables (runSim g call) = some p ∧ Left (p.setup r call.mode) (p.run r call.mode n) ∧
    (outcome (p.setup r call.mode) (r.seed p.seed) n).results (runSim g call) call.mode p.numTasks =
      some results

/-! ## run_ablation.py -/

/-- `run_sim` is imported and called, before any other call of it. -/
def CallRunSimDirect (r : Random G) (mode : String) (config : Config) (results : Data) : Prop :=
  Returns r defaults ⟨mode, config⟩ results

/-- What `__main__` of behavioral.py writes to the file. -/
def resultsFile (sw hw : Data) : Data := .dict [(.str "software", sw), (.str "hardware", hw)]

/-- The file that `python model/behavioral.py` has written is read; nothing is made of the
mode and the config. -/
def CallRunSimSubprocess (r : Random G) (_mode : String) (_config : Config) (results : Data) : Prop :=
  ∃ sw hw, Returns r defaults ⟨"sw", []⟩ sw ∧
    Returns r (runSim defaults ⟨"sw", []⟩) ⟨"hw", []⟩ hw ∧ results = reload (resultsFile sw hw)

/-- The results of the one run that the row is about. -/
def single (mode : String) (results : Data) : Data :=
  if (results.item "summary").isSome then results else (results.item mode).getD results

/-- A row of the CSV file. -/
structure Row where
  experiment : String
  seed : ℤ
  mode : String
  numTasks : Data
  numFollowers : Data
  numLeaders : Data
  batchEnqueue : Data
  dispatchTime : Data
  arrivalRate : Data
  envNow : Data
  completedTasks : Data
  medianNs : Data
  p90Ns : Data
  p99Ns : Data
  totalEnqueued : Data
  totalDequeued : Data
  leaderUtilAvg : ℚ
  leaderBlockFrac : ℚ
  followerUtilAvgSample : ℚ

/-- The row that `experiment_runner` builds from the available fields; `none` is an exception. -/
def buildRow (e : Experiment) (seed : ℤ) (one : Data) : Option Row := do
  let summary ← one.get "summary" (.dict [])
  let lat ← one.get "latency_stats" (.dict [])
  let leaderUtilMap ← one.get "leader_util" (.dict [])
  let followerUtilMap ← one.get "follower_util_sample" (.dict [])
  let leaderBlockMap ← one.get "leader_block_fraction" (.dict [])
  let leaderUtilAvg ← leaderUtilMap.average
  let followerUtilAvg ← followerUtilMap.average
  let leaderBlockAvg ← leaderBlockMap.average
  let none := Data.value .none
  return {
    experiment := e.name
    seed := seed
    mode := e.mode
    numTasks := ← summary.get "num_tasks" none
    numFollowers := ← summary.get "num_followers" none
    numLeaders := ← summary.get "num_leaders" none
    batchEnqueue := ← summary.get "batch_enqueue" none
    dispatchTime := ← summary.get "dispatch_time" none
    arrivalRate := ← summary.get "arrival_rate" none
    envNow := ← summary.get "env_now" none
    completedTasks := ← one.get "completed_tasks" none
    medianNs := ← lat.get "median_ns" none
    p90Ns := ← lat.get "p90_ns" none
    p99Ns := ← lat.get "p99_ns" none
    totalEnqueued := ← one.get "total_enqueued" none
    totalDequeued := ← one.get "total_dequeued" none
    leaderUtilAvg := leaderUtilAvg
    leaderBlockFrac := leaderBlockAvg
    followerUtilAvgSample := followerUtilAvg }

/-- The row of `experiment_runner` for the results that it has got. -/
def experimentRow (e : Experiment) (seed : ℤ) (results : Data) : Option Row :=
  buildRow e seed (single e.mode results)

/-- The call of `run_sim` for a seed. -/
def Experiment.runCfg (e : Experiment) (seed : ℤ) : Config := setItem e.config "SEED" (.int seed)

def DirectRow (r : Random G) (e : Experiment) (seed : ℤ) (row : Row) : Prop :=
  ∃ results, CallRunSimDirect r e.mode (e.runCfg seed) results ∧
    experimentRow e seed results = some row

def FallbackRow (r : Random G) (e : Experiment) (seed : ℤ) (row : Row) : Prop :=
  ∃ results, CallRunSimSubprocess r e.mode (e.runCfg seed) results ∧
    experimentRow e seed results = some row

/-- The two rows say the same of the run. -/
structure Row.Agrees (a b : Row) : Prop where
  numTasks : a.numTasks = b.numTasks
  numFollowers : a.numFollowers = b.numFollowers
  dispatchTime : a.dispatchTime = b.dispatchTime
  completedTasks : a.completedTasks = b.completedTasks
  medianNs : a.medianNs = b.medianNs
  p90Ns : a.p90Ns = b.p90Ns
  p99Ns : a.p99Ns = b.p99Ns
  leaderUtilAvg : a.leaderUtilAvg = b.leaderUtilAvg
  followerUtilAvgSample : a.followerUtilAvgSample = b.followerUtilAvgSample

/-! ## What a row reads -/

namespace Data

/-- What the getters find under a key. -/
def found (items : List (Key × Data)) (k : String) (default : Data) : Data :=
  (items.lookup (.str k)).getD default

theorem get_dict_bind (items : List (Key × Data)) (k : String) (default : Data)
    (f : Data → Option Row) : (get (.dict items) k default >>= f) = f (found items k default) := rfl

end Data

/-- A row reads the sub-dictionaries and the averages of the maps. -/
theorem buildRow_dict (e : Experiment) (seed : ℤ) (items : List (Key × Data))
    {summary lat : List (Key × Data)} {a b f : ℚ}
    (hsummary : Data.found items "summary" (.dict []) = .dict summary)
    (hlat : Data.found items "latency_stats" (.dict []) = .dict lat)
    (ha : (Data.found items "leader_util" (.dict [])).average = some a)
    (hb : (Data.found items "leader_block_fraction" (.dict [])).average = some b)
    (hf : (Data.found items "follower_util_sample" (.dict [])).average = some f) :
    buildRow e seed (.dict items) = some {
      experiment := e.name
      seed := seed
      mode := e.mode
      numTasks := Data.found summary "num_tasks" (.value .none)
      numFollowers := Data.found summary "num_followers" (.value .none)
      numLeaders := Data.found summary "num_leaders" (.value .none)
      batchEnqueue := Data.found summary "batch_enqueue" (.value .none)
      dispatchTime := Data.found summary "dispatch_time" (.value .none)
      arrivalRate := Data.found summary "arrival_rate" (.value .none)
      envNow := Data.found summary "env_now" (.value .none)
      completedTasks := Data.found items "completed_tasks" (.value .none)
      medianNs := Data.found lat "median_ns" (.value .none)
      p90Ns := Data.found lat "p90_ns" (.value .none)
      p99Ns := Data.found lat "p99_ns" (.value .none)
      totalEnqueued := Data.found items "total_enqueued" (.value .none)
      totalDequeued := Data.found items "total_dequeued" (.value .none)
      leaderUtilAvg := a
      leaderBlockFrac := b
      followerUtilAvgSample := f } := by
  rw [buildRow, Data.get_dict_bind, Data.get_dict_bind, Data.get_dict_bind, Data.get_dict_bind,
    Data.get_dict_bind, hsummary, hlat, ha, hb, hf]
  rfl

/-- The row that is left if no key is found. -/
def Row.empty (e : Experiment) (seed : ℤ) : Row where
  experiment := e.name
  seed := seed
  mode := e.mode
  numTasks := .value .none
  numFollowers := .value .none
  numLeaders := .value .none
  batchEnqueue := .value .none
  dispatchTime := .value .none
  arrivalRate := .value .none
  envNow := .value .none
  completedTasks := .value .none
  medianNs := .value .none
  p90Ns := .value .none
  p99Ns := .value .none
  totalEnqueued := .value .none
  totalDequeued := .value .none
  leaderUtilAvg := 0
  leaderBlockFrac := 0
  followerUtilAvgSample := 0

/-- The file has neither the keys of a run nor the modes. -/
theorem single_file {mode : String} (hmode : mode = "sw" ∨ mode = "hw") (sw hw : Data) :
    single mode (resultsFile sw hw) = resultsFile sw hw := by
  obtain rfl | rfl := hmode <;> rfl

/-- **No key of the file is found.**  Whatever the two runs report, the row is empty. -/
theorem experimentRow_file {e : Experiment} (hmode : e.mode = "sw" ∨ e.mode = "hw") (seed : ℤ)
    (sw hw : Data) : experimentRow e seed (resultsFile sw hw) = some (.empty e seed) := by
  rw [experimentRow, single_file hmode]
  exact buildRow_dict e seed [(.str "software", sw), (.str "hardware", hw)] rfl rfl rfl rfl rfl

/-! ## The row of a run -/

/-- The row with what a run reports. -/
def Outcome.row (o : Outcome G) (g : Globals) (mode : String) (numTasks : ℕ) (stats : LatencyStats)
    (e : Experiment) (seed : ℤ) : Row where
  experiment := e.name
  seed := seed
  mode := e.mode
  numTasks := .value ((g "NUM_TASKS").getD .none)
  numFollowers := .value ((g "NUM_FOLLOWERS").getD .none)
  numLeaders := .value ((g "NUM_LEADERS").getD .none)
  batchEnqueue := .value ((g "BATCH_ENQUEUE").getD .none)
  dispatchTime := .value ((Behavioral.dispatchTime mode g).getD .none)
  arrivalRate := .value ((g "ARRIVAL_RATE").getD .none)
  envNow := float o.sim.now
  completedTasks := int o.sim.metrics.completedTasks
  medianNs := figure (latencies numTasks o.sim.metrics) stats.medianNs
  p90Ns := figure (latencies numTasks o.sim.metrics) stats.p90Ns
  p99Ns := figure (latencies numTasks o.sim.metrics) stats.p99Ns
  totalEnqueued := int o.sim.metrics.totalEnqueued
  totalDequeued := int o.sim.metrics.totalDequeued
  leaderUtilAvg := OrderStatistics.mean (o.leaders.map o.sim.leaderUtil)
  leaderBlockFrac := OrderStatistics.mean (o.blocked.map o.leaderBlock)
  followerUtilAvgSample := OrderStatistics.mean ((o.followers.take 16).map o.sim.followerUtil)

namespace Outcome

/-- The average of a map does not depend on its keys. -/
theorem average_map (key : ℕ → Key) (keys : List ℕ) (f : ℕ → ℚ) :
    (Data.dict (keys.map fun k => (key k, float (f k)))).average =
      some (OrderStatistics.mean (keys.map f)) := by
  have hvalues : ((keys.map fun k => (key k, float (f k))).mapM fun x : Key × Data => x.2.number) =
      some (keys.map f) := by
    induction keys with
    | nil => rfl
    | cons k keys ih =>
      rw [List.map_cons, List.mapM_cons, ih]
      rfl
  cases keys with
  | nil => simp [Data.average, Data.truthy, OrderStatistics.mean]
  | cons k keys => exact congrArg (Option.map OrderStatistics.mean) hvalues

theorem reload_fractions (keys : List ℕ) (f : ℕ → ℚ) :
    reload (fractions keys f) = .dict (keys.map fun k => (.str (toString k), float (f k))) := by
  have hitems : reloadItems (keys.map fun k => (.int k, float (f k))) =
      keys.map fun k => (.str (toString k), float (f k)) := by
    induction keys with
    | nil => rfl
    | cons k keys ih =>
      rw [List.map_cons, reloadItems, ih]
      rfl
  rw [fractions, reload, hitems]

/-- Figures are read as they were written. -/
theorem reload_latencyDict (xs : List ℚ) (stats : LatencyStats) :
    reload (latencyDict xs stats) = latencyDict xs stats := by
  unfold latencyDict figure
  split_ifs <;> rfl

variable (o : Outcome G) {g : Globals} {mode : String} {numTasks : ℕ} {d : Data}

/-- **A row of a run has what it reports**, also if the results have been in a file. -/
theorem experimentRow_results (h : o.results g mode numTasks = some d) (e : Experiment) (seed : ℤ) :
    ∃ stats, latencyStats (latencies numTasks o.sim.metrics) = some stats ∧
      experimentRow e seed d = some (o.row g mode numTasks stats e seed) ∧
      experimentRow e seed (reload d) = some (o.row g mode numTasks stats e seed) := by
  obtain ⟨stats, hstats, rfl⟩ := Option.map_eq_some_iff.1 h
  refine ⟨stats, hstats, ?_, ?_⟩
  · exact buildRow_dict e seed (o.items g mode numTasks stats) rfl rfl
      (average_map .int _ _) (average_map .int _ _) (average_map .int _ _)
  · have haverage : ∀ keys f, (reload (fractions keys f)).average =
        some (OrderStatistics.mean (keys.map f)) := fun keys f => by
      rw [reload_fractions]
      exact average_map (fun k => .str (toString k)) keys f
    exact buildRow_dict e seed (reloadItems (o.items g mode numTasks stats)) rfl
      (reload_latencyDict _ _) (haverage _ _) (haverage _ _) (haverage _ _)

/-- A row of a run counts the tasks that are done; an empty row does not. -/
theorem not_agrees_empty (stats : LatencyStats) (e : Experiment) (seed : ℤ) :
    ¬(o.row g mode numTasks stats e seed).Agrees (.empty e seed) := by
  intro h
  have hdone : int o.sim.metrics.completedTasks = .value .none := h.completedTasks
  cases hdone

end Outcome

/-! ## Every experiment -/

/-- A dictionary of the form that `run_sim` returns. -/
def IsResults (G : Type) (d : Data) : Prop :=
  ∃ (o : Outcome G) (g : Globals) (mode : String) (numTasks : ℕ), o.results g mode numTasks = some d

/-- The sub-result of the mode. -/
def ofMode (mode : String) (sw hw : Data) : Data := if mode = "sw" then sw else hw

theorem DirectRow.eq_row {r : Random G} {e : Experiment} {seed : ℤ} {row : Row}
    (h : DirectRow r e seed row) : ∃ (o : Outcome G) (g : Globals) (mode : String) (numTasks : ℕ)
      (stats : LatencyStats), row = o.row g mode numTasks stats e seed := by
  obtain ⟨results, ⟨p, n, -, -, hresults⟩, hrow⟩ := h
  obtain ⟨stats, -, hread, -⟩ := Outcome.experimentRow_results _ hresults e seed
  exact ⟨_, _, _, _, stats, Option.some.inj (hrow.symm.trans hread)⟩

theorem FallbackRow.eq_empty {r : Random G} {e : Experiment} (hmode : e.mode = "sw" ∨ e.mode = "hw")
    {seed : ℤ} {row : Row} (h : FallbackRow r e seed row) : row = .empty e seed := by
  obtain ⟨-, ⟨sw, hw, -, -, rfl⟩, hrow⟩ := h
  exact Option.some.inj (hrow.symm.trans (experimentRow_file hmode seed (reload sw) (reload hw)))

/-- **The rows never agree.**  Whatever the experiment and the seed, the row of the fallback
is not the row of the call, nor, for any two results in the file, that of the requested mode. -/
theorem rows_differ (r : Random G) (e : Experiment) (hmode : e.mode = "sw" ∨ e.mode = "hw")
    (seed : ℤ) :
    (∀ direct fallback, DirectRow r e seed direct → FallbackRow r e seed fallback →
      ¬direct.Agrees fallback) ∧
    ∀ sw hw, IsResults G sw → IsResults G hw → ∀ row sub,
      experimentRow e seed (reload (resultsFile sw hw)) = some row →
      experimentRow e seed (reload (ofMode e.mode sw hw)) = some sub → ¬sub.Agrees row := by
  refine ⟨fun direct fallback hdirect hfallback => ?_, fun sw hw hsw hhw row sub hrow hsub => ?_⟩
  · obtain ⟨o, g, mode, numTasks, stats, rfl⟩ := hdirect.eq_row
    rw [hfallback.eq_empty hmode]
    exact o.not_agrees_empty stats e seed
  · have hsome : IsResults G (ofMode e.mode sw hw) := by
      unfold ofMode
      split_ifs <;> assumption
    obtain ⟨o, g, mode, numTasks, hresults⟩ := hsome
    obtain ⟨stats, -, -, hread⟩ := o.experimentRow_results hresults e seed
    have hempty := experimentRow_file hmode seed (reload sw) (reload hw)
    rw [← Option.some.inj (hread.symm.trans hsub), ← Option.some.inj (hempty.symm.trans hrow)]
    exact o.not_agrees_empty stats e seed

/-! ## Rows that are built -/

/-- `run_sim` returns if the parameters are of their types and the samplers wait. -/
theorem exists_returns (r : Random G) {g : Globals} (call : Call) {p : Tunables}
    (hp : tunables (runSim g call) = some p) (hpos : 0 < p.simTraceSampleInterval) :
    ∃ d, Returns r g call d := by
  obtain ⟨n, hn⟩ := round_halts (c := p.setup r call.mode) hpos (r.seed p.seed)
  have hleft := (sampled_reached (c := p.setup r call.mode) hpos (r.seed p.seed) n).left hn
  obtain ⟨stats, hstats⟩ := exists_latencyStats (latencies p.numTasks (p.run r call.mode n).metrics)
  exact ⟨_, p, n, hp, hleft, Option.map_eq_some_iff.2 ⟨stats, hstats, rfl⟩⟩

/-- The parameters of the module. -/
def defaultTunables : Tunables where
  seed := 42
  numTasks := 1000
  numFollowers := 64
  numLeaders := 1
  taskDurationMean := 10
  taskDurationSd := 0
  dispatchTimeSw := 5
  dispatchTimeHw := 1
  arrivalRate := 1 / 5
  arrivalModel := "poisson"
  batchEnqueue := 1
  simTraceSampleInterval := 2

theorem tunables_defaults : tunables defaults = some defaultTunables := rfl

/-- Both rows are built if the overrides are of their types. -/
theorem exists_rows (r : Random G) {e : Experiment} (hmode : e.mode = "sw" ∨ e.mode = "hw")
    (seed : ℤ) {p : Tunables} (hp : tunables (runSim defaults ⟨e.mode, e.runCfg seed⟩) = some p)
    (hpos : 0 < p.simTraceSampleInterval) :
    ∃ direct fallback, DirectRow r e seed direct ∧ FallbackRow r e seed fallback := by
  have hdefault : 0 < defaultTunables.simTraceSampleInterval := by decide
  obtain ⟨d, hd⟩ := exists_returns r _ hp hpos
  obtain ⟨sw, hsw⟩ := exists_returns r ⟨"sw", []⟩ tunables_defaults hdefault
  obtain ⟨hw, hhw⟩ := exists_returns r ⟨"hw", []⟩ tunables_defaults hdefault
  obtain ⟨p', n, -, -, hresults⟩ := id hd
  obtain ⟨stats, -, hrow, -⟩ := Outcome.experimentRow_results _ hresults e seed
  exact ⟨_, _, ⟨d, hd, hrow⟩, ⟨_, ⟨sw, hw, hsw, hhw, rfl⟩,
    experimentRow_file hmode seed (reload sw) (reload hw)⟩⟩

/-- A generator that always gives the mean. -/
def steady : Random Unit where
  seed _ := ()
  expovariate rate _ := (1 / rate, ())
  gauss mu _ _ := (mu, ())

theorem rows_differ_followers_4 : ∃ direct fallback,
    DirectRow steady ⟨"followers_4", "hw", [("NUM_FOLLOWERS", .int 4),
      ("TASK_DURATION_MEAN", .float 50), ("ARRIVAL_RATE", .float 1)]⟩ 100 direct ∧
    FallbackRow steady ⟨"followers_4", "hw", [("NUM_FOLLOWERS", .int 4),
      ("TASK_DURATION_MEAN", .float 50), ("ARRIVAL_RATE", .float 1)]⟩ 100 fallback ∧
    ¬direct.Agrees fallback := by
  obtain ⟨direct, fallback, hdirect, hfallback⟩ := exists_rows steady
    (e := ⟨"followers_4", "hw", [("NUM_FOLLOWERS", .int 4), ("TASK_DURATION_MEAN", .float 50),
      ("ARRIVAL_RATE", .float 1)]⟩) (.inr rfl) 100
    (p := { defaultTunables with
      seed := 100, numFollowers := 4, taskDurationMean := 50, arrivalRate := 1 }) rfl (by decide)
  exact ⟨direct, fallback, hdirect, hfallback,
    (rows_differ steady _ (.inr rfl) 100).1 direct fallback hdirect hfallback⟩

/-- The first default experiment, with the first default seed. -/
theorem not_agrees_baseline_sw : ∃ direct fallback,
    DirectRow steady ⟨"baseline_sw", "sw", []⟩ 42 direct ∧
    FallbackRow steady ⟨"baseline_sw", "sw", []⟩ 42 fallback ∧ ¬direct.Agrees fallback := by
  obtain ⟨direct, fallback, hdirect, hfallback⟩ := exists_rows steady
    (e := ⟨"baseline_sw", "sw", []⟩) (.inl rfl) 42 (p := defaultTunables) rfl (by decide)
  refine ⟨direct, fallback, hdirect, hfallback, ?_⟩
  obtain ⟨o, g, mode, numTasks, stats, rfl⟩ := hdirect.eq_row
  rw [hfallback.eq_empty (.inl rfl)]
  exact o.not_agrees_empty stats _ _

end TaskQueueCoSim.Behavioral
