import TaskQueueCoSim.Lib.Csv
import TaskQueueCoSim.Model.AblationRows

/-!
# The CSV file of the ablation (model/run_ablation.py)

`main` appends the rows of an experiment when all its seeds are done.  An exception ends it, and
a later call of the script appends to the file that is there.

* `experimentRows`: what `experiment_runner` returns, or that it raises;
* `csv_reads_back`: after any calls of the script the file has the header once, and the rows of
  the experiments that were done.
-/

namespace TaskQueueCoSim.Behavioral

variable {σ : Type}

/-! ## Rows -/

/-- The columns of the CSV file. -/
def header : List String :=
  ["experiment", "seed", "mode", "num_tasks", "num_followers", "num_leaders", "batch_enqueue",
    "dispatch_time", "arrival_rate", "env_now", "completed_tasks",
    "median_ns", "p90_ns", "p99_ns",
    "total_enqueued", "total_dequeued",
    "leader_util_avg", "leader_block_frac", "follower_util_avg_sample"]

namespace Row

/-- The items of a row, as `experiment_runner` makes them. -/
def items (r : Row) : List (String × Data) :=
  [("experiment", .value (.str r.experiment)), ("seed", .value (.int r.seed)),
    ("mode", .value (.str r.mode)), ("num_tasks", r.numTasks), ("num_followers", r.numFollowers),
    ("num_leaders", r.numLeaders), ("batch_enqueue", r.batchEnqueue),
    ("dispatch_time", r.dispatchTime), ("arrival_rate", r.arrivalRate), ("env_now", r.envNow),
    ("completed_tasks", r.completedTasks), ("median_ns", r.medianNs), ("p90_ns", r.p90Ns),
    ("p99_ns", r.p99Ns), ("total_enqueued", r.totalEnqueued), ("total_dequeued", r.totalDequeued),
    ("leader_util_avg", .value (.float r.leaderUtilAvg)),
    ("leader_block_frac", .value (.float r.leaderBlockFrac)),
    ("follower_util_avg_sample", .value (.float r.followerUtilAvgSample))]

/-- `r.get(k, None)` -/
def get (r : Row) (k : String) : Data := (r.items.lookup k).getD (.value .none)

/-- The row is about a seed of an experiment. -/
def About (e : Experiment) (seed : ℤ) (r : Row) : Prop :=
  r.experiment = e.name ∧ r.mode = e.mode ∧ r.seed = seed

end Row

/-- The field for some data; `str` is the text of what is neither None nor a string. -/
def fieldOf (str : Data → Csv.Text) : Data → Csv.Text
  | .value .none => []
  | .value (.str s) => s.toList
  | d => str d

def Row.fields (str : Data → Csv.Text) (r : Row) : List Csv.Text :=
  header.map fun k => fieldOf str (r.get k)

/-- `write_csv_rows`, where `file` is what the file has, if there is one. -/
def writeCsvRows (str : Data → Csv.Text) (file : Option Csv.Text) (rows : List Row) : Csv.Text :=
  file.getD [] ++ (if file.isNone then Csv.writeRow (header.map String.toList) else []) ++
    rows.flatMap fun r => Csv.writeRow (r.fields str)

/-! ## The script -/

/-- `experiment_runner`; `run` gives the results for a seed, unless it raises, and what it leaves
behind. -/
def experimentRows (run : Experiment → ℤ → σ → Option Data × σ) (e : Experiment) :
    List ℤ → σ → Option (List Row) × σ
  | [], s => (some [], s)
  | seed :: seeds, s =>
    let (results, s) := run e seed s
    match results.bind (experimentRow e seed) with
    | none => (none, s)
    | some row =>
      let (rows, s) := experimentRows run e seeds s
      (rows.map fun rows => row :: rows, s)

/-- A call of the script. -/
structure Script (σ : Type) where
  experiments : List Experiment
  seeds : List ℤ
  run : Experiment → ℤ → σ → Option Data × σ
  state : σ

namespace Script

variable (str : Data → Csv.Text) (script : Script σ)

/-- The loop of `main` over the experiments. -/
def loop : List Experiment → σ → Option Csv.Text → Option Csv.Text
  | [], _, file => file
  | e :: experiments, s, file =>
    match experimentRows script.run e script.seeds s with
    | (none, _) => file
    | (some rows, s) => loop experiments s (some (writeCsvRows str file rows))

/-- What `main` makes of the file. -/
def main (file : Option Csv.Text) : Option Csv.Text :=
  script.loop str script.experiments script.state file

/-- The rows of the experiments that are done before one raises. -/
def doneFrom : List Experiment → σ → List (List Row)
  | [], _ => []
  | e :: experiments, s =>
    match experimentRows script.run e script.seeds s with
    | (none, _) => []
    | (some rows, s) => rows :: doneFrom experiments s

def done : List (List Row) := script.doneFrom script.experiments script.state

/-- What the first `n` experiments leave behind. -/
def stateAfter (n : ℕ) : σ :=
  (script.experiments.take n).foldl
    (fun s e => (experimentRows script.run e script.seeds s).2) script.state

end Script

/-! ## What is in the file -/

section File

variable (str : Data → Csv.Text)

/-- What the file has when the rows are those of the experiments that were done. -/
def csvFile (done : List (List Row)) : Option Csv.Text :=
  if done = [] then none
  else some ((header.map String.toList :: done.flatten.map (Row.fields str)).flatMap Csv.writeRow)

theorem csvFile_write (done : List (List Row)) (rows : List Row) :
    some (writeCsvRows str (csvFile str done) rows) = csvFile str (done ++ [rows]) := by
  have hne : done ++ [rows] ≠ [] := by simp
  by_cases hdone : done = []
  · subst hdone
    simp [csvFile, writeCsvRows, List.flatMap_map]
  · rw [csvFile, csvFile, if_neg hdone, if_neg hne, writeCsvRows]
    simp [List.flatMap_map]

theorem csvFile_loop (script : Script σ) (experiments : List Experiment) (s : σ)
    (done : List (List Row)) : script.loop str experiments s (csvFile str done) =
      csvFile str (done ++ script.doneFrom experiments s) := by
  induction experiments generalizing done s with
  | nil => rw [Script.doneFrom, List.append_nil, Script.loop]
  | cons e experiments ih =>
    rw [Script.doneFrom, Script.loop]
    split
    · rw [List.append_nil]
    · rw [csvFile_write, ih, List.append_assoc, List.singleton_append]

theorem csvFile_scripts (scripts : List (Script σ)) (done : List (List Row)) :
    scripts.foldl (fun file script => script.main str file) (csvFile str done) =
      csvFile str (done ++ scripts.flatMap Script.done) := by
  induction scripts generalizing done with
  | nil => rw [List.flatMap_nil, List.append_nil, List.foldl_nil]
  | cons script scripts ih =>
    rw [List.foldl_cons, Script.main, csvFile_loop, ih, List.flatMap_cons, List.append_assoc]
    rfl

end File

/-! ## The rows of an experiment -/

theorem exists_of_bind {α β : Type} {o : Option α} {f : α → Option β} {b : β}
    (h : (o >>= f) = some b) : ∃ a, f a = some b := by
  obtain ⟨a, -, ha⟩ := Option.bind_eq_some_iff.1 h
  exact ⟨a, ha⟩

theorem about_of_buildRow {e : Experiment} {seed : ℤ} {one : Data} {row : Row}
    (h : buildRow e seed one = some row) : row.About e seed := by
  unfold buildRow at h
  -- a getter that raises would leave no row
  repeat obtain ⟨_, h⟩ := exists_of_bind h
  obtain rfl := Option.some.inj h
  exact ⟨rfl, rfl, rfl⟩

theorem about_of_experimentRows {run : Experiment → ℤ → σ → Option Data × σ} {e : Experiment}
    {seeds : List ℤ} {s s' : σ} {rows : List Row}
    (h : experimentRows run e seeds s = (some rows, s')) :
    List.Forall₂ (fun seed row => Row.About e seed row) seeds rows := by
  induction seeds generalizing s rows with
  | nil =>
    obtain rfl := Option.some.inj (Prod.mk.inj h).1
    exact .nil
  | cons seed seeds ih =>
    unfold experimentRows at h
    rcases hrun : run e seed s with ⟨results, s₁⟩
    rcases hrest : experimentRows run e seeds s₁ with ⟨rest, s₂⟩
    cases hrow : results.bind (experimentRow e seed) with
    | none => simp [hrun, hrow] at h
    | some row =>
      simp only [hrun, hrow, hrest, Prod.mk.injEq, Option.map_eq_some_iff] at h
      obtain ⟨⟨rest, rfl, rfl⟩, rfl⟩ := h
      obtain ⟨results, -, hbuild⟩ := Option.bind_eq_some_iff.1 hrow
      exact .cons (about_of_buildRow hbuild) (ih hrest)

/-- The experiments that are done are the first `n`, each with a row for every seed; the one after
them raises on what they have left behind. -/
structure Script.Progress (script : Script σ) (n : ℕ) : Prop where
  rows : List.Forall₂ (fun e rows => List.Forall₂ (fun seed row => Row.About e seed row)
    script.seeds rows) (script.experiments.take n) script.done
  raised : ∀ e ∈ script.experiments[n]?,
    (experimentRows script.run e script.seeds (script.stateAfter n)).1 = none

theorem Script.exists_progress (script : Script σ) : ∃ n, script.Progress n := by
  suffices ∀ (experiments : List Experiment) (s : σ), ∃ n,
      List.Forall₂ (fun e rows => List.Forall₂ (fun seed row => Row.About e seed row)
        script.seeds rows) (experiments.take n) (script.doneFrom experiments s) ∧
      ∀ e ∈ experiments[n]?, (experimentRows script.run e script.seeds ((experiments.take n).foldl
        (fun s e => (experimentRows script.run e script.seeds s).2) s)).1 = none by
    obtain ⟨n, hrows, hraised⟩ := this script.experiments script.state
    exact ⟨n, hrows, hraised⟩
  intro experiments
  induction experiments with
  | nil => exact fun s => ⟨0, .nil, fun e he => by cases he⟩
  | cons e experiments ih =>
    intro s
    rcases hrows : experimentRows script.run e script.seeds s with ⟨rows, s'⟩
    cases rows with
    | none =>
      refine ⟨0, ?_, fun e' he' => ?_⟩
      · rw [doneFrom, hrows]
        exact .nil
      · obtain rfl := Option.some.inj he'
        rw [List.take_zero, List.foldl_nil, hrows]
    | some rows =>
      obtain ⟨n, hdone, hraised⟩ := ih s'
      refine ⟨n + 1, ?_, fun e' he' => ?_⟩
      · rw [doneFrom, hrows]
        exact .cons (about_of_experimentRows hrows) hdone
      · rw [List.take_succ_cons, List.foldl_cons, hrows]
        exact hraised e' he'

/-- **The CSV file is read back.**  After any calls of the script, of which each may raise at any
seed, there is a file if an experiment was done, and a reader gives the header and then, in order,
the fields of all rows of the experiments that were done. -/
theorem csv_reads_back (str : Data → Csv.Text) (scripts : List (Script σ)) :
    (scripts.foldl (fun file script => script.main str file) none).map Csv.read =
      (if scripts.flatMap Script.done = [] then none
      else some (some (header.map String.toList ::
        (scripts.flatMap Script.done).flatten.map (Row.fields str)))) ∧
    ∀ script ∈ scripts, ∃ n, script.Progress n := by
  refine ⟨?_, fun script _ => script.exists_progress⟩
  have hfile := csvFile_scripts str scripts []
  rw [List.nil_append] at hfile
  rw [show (none : Option Csv.Text) = csvFile str [] from rfl, hfile, csvFile]
  split_ifs
  · rfl
  · exact congrArg some (Csv.read_write _)

end TaskQueueCoSim.Behavioral
