import Mathlib.Data.List.Induction
import Mathlib.Logic.Function.Basic
import TaskQueueCoSim.Lib.Machine

/-!
# The parameters of the behavioral model (model/behavioral.py, model/run_ablation.py)

`run_sim` stores what its `config` gives in the globals of the module, and the
simulation reads its parameters from there.  The globals outlive the call.

* `configure_eq`: a name holds the value given for it last, or else the one before;
* `independent_iff`: the parameters of a call do not depend on the calls before it
  exactly if each is in its config or was last given its default.
-/

namespace TaskQueueCoSim.Behavioral

open Machine

/-- A Python value; of what is no plain value only the name is kept. -/
inductive Value where
  | none
  | bool (b : Bool)
  | int (n : Int)
  | float (q : Rat)
  | str (s : String)
  | object (name : String)
  deriving DecidableEq

/-- The globals of a module: the names it defines, with their values. -/
abbrev Globals := String → Option Value

/-- The items of a `config` dictionary, in order. -/
abbrev Config := List (String × Value)

/-- The tunable parameters that a simulation reads. -/
def parameters : Config :=
  [("SEED", .int 42), ("NUM_TASKS", .int 1000), ("NUM_FOLLOWERS", .int 64),
    ("NUM_LEADERS", .int 1), ("TASK_DURATION_MEAN", .float 10), ("TASK_DURATION_SD", .float 0),
    ("DISPATCH_TIME_SW", .float 5), ("DISPATCH_TIME_HW", .float 1),
    ("ARRIVAL_RATE", .float (1 / 5)), ("ARRIVAL_MODEL", .str "poisson"),
    ("BATCH_ENQUEUE", .int 1), ("SIM_TRACE_SAMPLE_INTERVAL", .float 2)]

/-- What else the module defines. -/
def otherNames : Config :=
  [("EXEC_QUEUE_CAPACITY", .none), ("OUTPUT_FILE", .str "model/sim_results.json")] ++
    ["simpy", "random", "json", "os", "statistics", "defaultdict", "Metrics", "arrival_process",
      "leader_process", "follower_worker", "depth_sampler", "rate_sampler", "make_exponential",
      "make_deterministic", "make_normal", "run_sim", "__name__", "__doc__", "__package__",
      "__loader__", "__spec__", "__file__", "__cached__", "__builtins__"].map
      fun name => (name, .object name)

/-- The globals after the import. -/
def defaults : Globals := fun k => (parameters ++ otherNames).lookup k

/-- `if k in globals(): globals()[k] = v` -/
def assign (g : Globals) (item : String × Value) : Globals :=
  if (g item.1).isSome then Function.update g item.1 (some item.2) else g

/-- The loop over `config.items()`. -/
def configure (g : Globals) (config : Config) : Globals := run assign g config

structure Call where
  mode : String
  config : Config
  deriving DecidableEq

/-- The globals during and after `run_sim(mode, config)`; nothing else of it
assigns a global. -/
def runSim (g : Globals) (call : Call) : Globals := configure g call.config

/-- The dispatch time that a call uses. -/
def dispatchTime (mode : String) (g : Globals) : Option Value :=
  if mode = "sw" then g "DISPATCH_TIME_SW" else g "DISPATCH_TIME_HW"

/-! ## The experiments of run_ablation.py -/

/-- `run_cfg["SEED"] = seed`; a key that is there keeps its place. -/
def setItem (config : Config) (k : String) (v : Value) : Config :=
  if (config.lookup k).isSome then config.map fun item => if item.1 = k then (k, v) else item
  else config ++ [(k, v)]

structure Experiment where
  name : String
  mode : String
  /-- the other keys -/
  config : Config

/-- The calls of `experiment_runner`. -/
def experimentRunner (experiment : Experiment) (seeds : List Int) : List Call :=
  seeds.map fun seed => ⟨experiment.mode, setItem experiment.config "SEED" (.int seed)⟩

def DEFAULT_SEEDS : List Int := [42, 100, 2025]

def DEFAULT_EXPERIMENTS : List Experiment :=
  [⟨"baseline_sw", "sw", []⟩,
    ⟨"baseline_hw", "hw", []⟩,
    ⟨"followers_4", "hw", [("NUM_FOLLOWERS", .int 4), ("TASK_DURATION_MEAN", .float 50),
      ("ARRIVAL_RATE", .float 1)]⟩,
    ⟨"followers_16", "hw", [("NUM_FOLLOWERS", .int 16), ("TASK_DURATION_MEAN", .float 20),
      ("ARRIVAL_RATE", .float (3 / 5))]⟩,
    ⟨"leaders_2_batch4", "hw", [("NUM_LEADERS", .int 2), ("BATCH_ENQUEUE", .int 4),
      ("ARRIVAL_RATE", .float 1), ("TASK_DURATION_MEAN", .float 10)]⟩,
    ⟨"sw_arrival_heavy", "sw", [("ARRIVAL_RATE", .float (3 / 5)), ("NUM_FOLLOWERS", .int 8),
      ("TASK_DURATION_MEAN", .float 5)]⟩]

/-- The calls of `main`, experiment by experiment. -/
def experimentCalls (experiments : List Experiment) (seeds : List Int) : List Call :=
  experiments.flatMap fun experiment => experimentRunner experiment seeds

/-! ## What a name holds -/

/-- The value that a list of items gives a name last. -/
def given (items : Config) (k : String) : Option Value := items.reverse.lookup k

theorem given_concat (items : Config) (item : String × Value) (k : String) :
    given (items ++ [item]) k = if k = item.1 then some item.2 else given items k := by
  obtain ⟨name, v⟩ := item
  rw [given, List.reverse_append, List.reverse_singleton, List.singleton_append, List.lookup_cons]
  by_cases h : k = name
  · simp [h]
  · have hne : (k == name) = false := by simpa using h
    simp only [hne, h, if_false, given]

theorem isSome_assign (g : Globals) (item : String × Value) (k : String) :
    (assign g item k).isSome = (g k).isSome := by
  unfold assign
  split_ifs with h
  · by_cases hk : k = item.1
    · subst hk
      simp [h]
    · rw [Function.update_of_ne hk]
  · rfl

/-- No name is added and none is taken away. -/
theorem isSome_configure (g : Globals) (config : Config) (k : String) :
    (configure g config k).isSome = (g k).isSome := by
  apply run_invariant (I := fun g' : Globals => (g' k).isSome = (g k).isSome) _ rfl
  intro g' item h
  exact (isSome_assign g' item k).trans h

/-- A name holds the value given for it last, or else the one before. -/
theorem configure_eq (g : Globals) (config : Config) {k : String} (hk : (g k).isSome) :
    configure g config k = (given config k).or (g k) := by
  induction config using List.reverseRecOn with
  | nil => rfl
  | append_singleton config item ih =>
    have hitem := isSome_configure g config item.1
    rw [configure, run_concat, given_concat, assign]
    change (if ((configure g config) item.1).isSome then _ else configure g config) k = _
    by_cases h : k = item.1
    · subst h
      rw [if_pos (hitem.trans hk), Function.update_self, if_pos rfl]
      rfl
    · rw [if_neg h, ← ih]
      split_ifs
      · exact Function.update_of_ne h _ _
      · rfl

theorem run_runSim (g : Globals) (history : List Call) :
    run runSim g history = configure g (history.flatMap Call.config) := by
  induction history generalizing g with
  | nil => rfl
  | cons call history ih =>
    rw [run_cons, ih, List.flatMap_cons, configure, configure, run_append]
    rfl

/-! ## Independence -/

/-- The parameters in effect in a call are the same after `history` as in a
process where it is the first. -/
def Independent (history : List Call) (call : Call) : Prop :=
  ∀ p ∈ parameters.map Prod.fst,
    runSim (run runSim defaults history) call p = runSim defaults call p

/-- The value that `history` gives a name last. -/
def lastGiven (history : List Call) (k : String) : Option Value :=
  given (history.flatMap Call.config) k

/-- Every parameter is in the config or was last given its default, if it was
given at all. -/
def Restored (history : List Call) (call : Call) : Prop :=
  ∀ p ∈ parameters.map Prod.fst,
    (given call.config p).isSome ∨ ∀ v, lastGiven history p = some v → defaults p = some v

theorem isSome_defaults : ∀ p ∈ parameters.map Prod.fst, (defaults p).isSome := by
  decide

/-- **Independence.**  The parameters of a call do not depend on the calls before
it exactly if each is in its config or was last given its default. -/
theorem independent_iff (history : List Call) (call : Call) :
    Independent history call ↔ Restored history call := by
  refine forall₂_congr fun p hp => ?_
  have hsome := isSome_defaults p hp
  have hbefore : run runSim defaults history p = (lastGiven history p).or (defaults p) := by
    rw [run_runSim]
    exact configure_eq defaults _ hsome
  have hafter := configure_eq (run runSim defaults history) call.config (k := p)
    (by rw [run_runSim, isSome_configure]; exact hsome)
  have hfresh := configure_eq defaults call.config hsome
  simp only [runSim, hafter, hfresh, hbefore]
  cases hgiven : given call.config p with
  | some v => simp
  | none =>
    cases hlast : lastGiven history p with
    | none => simp
    | some v => simp [eq_comm]

/-- The default experiments before `sw_arrival_heavy` leave two leaders and
batches of four to it. -/
theorem not_independent_sw_arrival_heavy :
    ¬ Independent (experimentCalls (DEFAULT_EXPERIMENTS.take 5) DEFAULT_SEEDS)
      ⟨"sw", [("ARRIVAL_RATE", .float (3 / 5)), ("NUM_FOLLOWERS", .int 8),
        ("TASK_DURATION_MEAN", .float 5), ("SEED", .int 42)]⟩ := by
  intro h
  have := h "BATCH_ENQUEUE" (by decide)
  revert this
  decide +kernel

end TaskQueueCoSim.Behavioral
