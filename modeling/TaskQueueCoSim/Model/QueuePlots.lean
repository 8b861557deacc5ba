import TaskQueueCoSim.Model.AblationRows
import TaskQueueCoSim.Model.FasterDispatch
import TaskQueueCoSim.Model.ResampleStep
import TaskQueueCoSim.Model.SamplesAgree

/-!
# The plots of the queue depths (model/plot_results.py)

`plot_queue_series` reads the samples of a run from `sim_results.json` and draws them after
`_resample_step`.  `plots_show_depths` follows the depths on their way: what stands in the
figures over a time is the number of tasks that waited at the last multiple of the interval.
-/

namespace TaskQueueCoSim.PlotResults

open Behavioral StepFunction

/-! ## `plot_queue_series` -/

/-- `plt.step(times, depths, where='post')` -/
structure Curve where
  times : List ℚ
  depths : List ℚ
  deriving DecidableEq

/-- A figure, and the file that it is saved to. -/
structure Figure where
  file : String
  curves : List Curve
  deriving DecidableEq

/-- `safe_get(d, k, default=[])` -/
def safeGet (d : Data) (k : String) : Data := (d.item k).getD (.list [])

def readSample (p : Data) : Option Sample := do
  let t ← p.item "t"
  let depth ← p.item "depth"
  return (← t.number, ← depth.number)

/-- `[(p['t'], p['depth']) for p in arr] if arr else []`; `none` is an exception. -/
def readSamples (arr : Data) : Option (List Sample) :=
  if arr.truthy then
    match arr with
    | .list l => l.mapM readSample
    | _ => none
  else some []

def step (td : List Sample) : Curve := ⟨(resampleStep td 1).1, (resampleStep td 1).2⟩

/-- `np.zeros_like` over the same times. -/
def zeroLine (td : List Sample) : Curve :=
  ⟨(resampleStep td 1).1, (resampleStep td 1).1.map fun _ => 0⟩

/-- The figures for the samples of the arrival buffer and of the execution queue. -/
def queueFigures (arrTd exTd : List Sample) (tag : String) : List Figure :=
  let exCurve := if exTd = [] then zeroLine arrTd else step exTd
  if arrTd = [] then
    if exTd = [] then []
    else [⟨"queue_exec_" ++ tag ++ ".png", [exCurve]⟩, ⟨"queue_combined_" ++ tag ++ ".png", [exCurve]⟩]
  else
    [⟨"queue_arrival_" ++ tag ++ ".png", [step arrTd]⟩, ⟨"queue_exec_" ++ tag ++ ".png", [exCurve]⟩,
      ⟨"queue_combined_" ++ tag ++ ".png", [step arrTd, exCurve]⟩]

def plotQueueSeries (obj : Data) (tag : String) : Option (List Figure) := do
  let arrTd ← readSamples (safeGet obj "queue_ts_arrival")
  let exTd ← readSamples (safeGet obj "queue_ts_exec")
  return queueFigures arrTd exTd tag

/-! ## What is read is what was sampled -/

section Read

/-- The samples as numbers. -/
def numbers (samples : List (ℚ × ℕ)) : List Sample := samples.map fun x => (x.1, (x.2 : ℚ))

theorem readSamples_depths (samples : List (ℚ × ℕ)) :
    readSamples (Outcome.depths samples) = some (numbers samples) := by
  have hread : (samples.map fun x => Data.dict [(.str "t", Outcome.float x.1),
      (.str "depth", Outcome.int x.2)]).mapM readSample = some (numbers samples) := by
    induction samples with
    | nil => rfl
    | cons x samples ih =>
      rw [List.map_cons, List.mapM_cons, ih]
      rfl
  cases samples with
  | nil => rfl
  | cons x samples => exact hread

/-- The file keeps the samples. -/
theorem reload_depths (samples : List (ℚ × ℕ)) :
    reload (Outcome.depths samples) = Outcome.depths samples := by
  have hlist : reloadList (samples.map fun x => Data.dict [(.str "t", Outcome.float x.1),
      (.str "depth", Outcome.int x.2)]) = samples.map fun x =>
        Data.dict [(.str "t", Outcome.float x.1), (.str "depth", Outcome.int x.2)] := by
    induction samples with
    | nil => rfl
    | cons x samples ih =>
      rw [List.map_cons, reloadList, ih]
      rfl
  rw [Outcome.depths, reload, hlist]

variable {G : Type} {o : Outcome G} {g : Globals} {mode : String} {numTasks : ℕ} {d : Data}

/-- The figures of a run are those of its samples, as it returns them or from the file. -/
theorem plotQueueSeries_results (h : o.results g mode numTasks = some d) (tag : String) :
    let figures := queueFigures (numbers o.sim.metrics.queueSamplesArrival)
      (numbers o.sim.metrics.queueSamplesExec) tag
    plotQueueSeries d tag = some figures ∧ plotQueueSeries (reload d) tag = some figures := by
  obtain ⟨stats, -, rfl⟩ := Option.map_eq_some_iff.1 h
  have read (d : Data) (harrival : safeGet d "queue_ts_arrival" =
      Outcome.depths o.sim.metrics.queueSamplesArrival)
      (hexec : safeGet d "queue_ts_exec" = Outcome.depths o.sim.metrics.queueSamplesExec) :
      plotQueueSeries d tag = some (queueFigures (numbers o.sim.metrics.queueSamplesArrival)
        (numbers o.sim.metrics.queueSamplesExec) tag) := by
    rw [plotQueueSeries, harrival, hexec, readSamples_depths, readSamples_depths]
    rfl
  exact ⟨read _ rfl rfl, read _ (reload_depths _) (reload_depths _)⟩

end Read

/-! ## What is drawn -/

/-- Over each time there is a depth within the bounds at a multiple of the interval `Δ`; this
is the last one by then, unless the run has ended at `now`. -/
def Curve.Shows (curve : Curve) (Δ now : ℚ) (low high : ℚ → ℕ) : Prop :=
  ∀ q ∈ curve.times.zip curve.depths, ∃ k : ℕ, k * Δ ≤ q.1 ∧
    (q.1 < (k + 1) * Δ ∨ now ≤ (k + 1) * Δ) ∧ low (k * Δ) ≤ q.2 ∧ q.2 ≤ high (k * Δ)

/-- Each point of a curve is one of the samples on the grid of the interval. -/
theorem exists_sample {samples : List (ℚ × ℕ)} {Δ : ℚ} (hpos : 0 < Δ)
    (htimes : samples.map Prod.fst = (List.range samples.length).map fun k : ℕ => k * Δ) {q : ℚ × ℚ}
    (hq : q ∈ (step (numbers samples)).times.zip (step (numbers samples)).depths) :
    ∃ k : ℕ, ∃ x ∈ samples, x.1 = k * Δ ∧ q.2 = x.2 ∧ k * Δ ≤ q.1 ∧
      (q.1 < (k + 1) * Δ ∨ samples.length = k + 1) := by
  have hne : numbers samples ≠ [] := by
    intro hnil
    simp [hnil, step, resampleStep] at hq
  obtain ⟨first, rest, hcons⟩ := List.exists_cons_of_ne_nil hne
  have hfill : ForwardFills (numbers samples) := hcons ▸ resampleStep_forwardFills first rest
  have hlength : 0 < samples.length := by
    rw [List.length_pos_iff]
    exact fun hnil => hne (by rw [hnil]; rfl)
  -- a sample was taken at each multiple of the interval
  have taken (k : ℕ) (hk : k < samples.length) : ∃ e ∈ byTime (numbers samples), e.1 = k * Δ := by
    have hmem : (k : ℚ) * Δ ∈ samples.map Prod.fst :=
      htimes ▸ List.mem_map.2 ⟨k, List.mem_range.2 hk, rfl⟩
    obtain ⟨x, hx, hxk⟩ := List.mem_map.1 hmem
    exact ⟨(x.1, (x.2 : ℚ)), mem_byTime.2 (List.mem_map_of_mem hx), hxk⟩
  rw [show (step (numbers samples)).depths = _ from hfill.depths,
    show (step (numbers samples)).times = _ from hfill.grid, ← List.map_prod_left_eq_zip] at hq
  obtain ⟨g, hg, rfl⟩ := List.mem_map.1 hq
  obtain ⟨i, -, rfl⟩ := List.mem_map.1 hg
  obtain ⟨start, hstart, hzero⟩ := taken 0 hlength
  have hearly : start.1 ≤ (i : ℚ) := by
    rw [hzero, Nat.cast_zero, zero_mul]
    exact Nat.cast_nonneg i
  obtain ⟨e, he, hle, hvalue, hlast⟩ :=
    exists_valueAt (byTime_pairwise (numbers samples)) ⟨start, hstart, hearly⟩ 0
  obtain ⟨x, hx, rfl⟩ := List.mem_map.1 (mem_byTime.1 he)
  have hgrid : x.1 ∈ (List.range samples.length).map fun k : ℕ => (k : ℚ) * Δ :=
    htimes ▸ List.mem_map_of_mem hx
  obtain ⟨k, hk, hkx⟩ := List.mem_map.1 hgrid
  refine ⟨k, x, hx, hkx.symm, hvalue, hkx.trans_le hle, ?_⟩
  rw [List.mem_range] at hk
  obtain hk | hk := Nat.lt_or_eq_of_le (Nat.succ_le_of_lt hk)
  · -- the next sample is not up to the time
    obtain ⟨e', he', hnext⟩ := taken (k + 1) hk
    refine .inl (lt_of_not_ge fun hge => ?_)
    have hback : e'.1 ≤ x.1 := hlast e' he' (by rw [hnext]; exact_mod_cast hge)
    rw [hnext, ← hkx] at hback
    push_cast at hback
    linarith
  · exact .inr hk.symm

theorem step_shows {samples : List (ℚ × ℕ)} {Δ now : ℚ} {low high : ℚ → ℕ} (hpos : 0 < Δ)
    (htimes : samples.map Prod.fst = (List.range samples.length).map fun k : ℕ => k * Δ)
    (hnow : now ≤ samples.length * Δ)
    (hdepth : ∀ x ∈ samples, low x.1 ≤ x.2 ∧ x.2 ≤ high x.1) :
    (step (numbers samples)).Shows Δ now low high := by
  intro q hq
  obtain ⟨k, x, hx, hxk, hvalue, hle, hlast⟩ := exists_sample hpos htimes hq
  obtain ⟨hlow, hhigh⟩ := hdepth x hx
  rw [hxk] at hlow hhigh
  refine ⟨k, hle, hlast.imp_right fun hlength => ?_, ?_, ?_⟩
  · rw [hlength] at hnow
    exact_mod_cast hnow
  · rw [hvalue]
    exact_mod_cast hlow
  · rw [hvalue]
    exact_mod_cast hhigh

variable {G : Type}

/-- The three figures of a run, with the tasks that waited. -/
structure ShowsDepths (N : ℕ) (Δ : ℚ) (s : Sim G) (tag : String) (arrival exec : Curve)
    (figures : List Figure) : Prop where
  figures : figures = [⟨"queue_arrival_" ++ tag ++ ".png", [arrival]⟩,
    ⟨"queue_exec_" ++ tag ++ ".png", [exec]⟩,
    ⟨"queue_combined_" ++ tag ++ ".png", [arrival, exec]⟩]
  exec : exec.Shows Δ s.now (s.metrics.between N .enqueued .startExec)
    (s.metrics.around N .enqueued .startExec)
  arrival : arrival.Shows Δ s.now (fun _ => 0) (s.metrics.around N .arrival .enqueued)

/-- The figures for samples that agree with the tasks. -/
theorem queueFigures_show {N : ℕ} {Δ : ℚ} {s : Sim G} (agree : SamplesAgree N Δ s) (hpos : 0 < Δ)
    (hall : s.metrics.completedTasks = N) (tag : String) :
    let figures := queueFigures (numbers s.metrics.queueSamplesArrival)
      (numbers s.metrics.queueSamplesExec) tag
    s.now ≤ 0 ∧ figures = [] ∨ ∃ arrival exec, ShowsDepths N Δ s tag arrival exec figures := by
  have hlength : s.metrics.queueSamplesArrival.length = s.metrics.queueSamplesExec.length := by
    simpa using congrArg List.length agree.arrival_times
  have hnow := agree.none_missed.1
  by_cases hexec : s.metrics.queueSamplesExec = []
  · rw [hexec, List.length_nil] at hnow hlength
    refine .inl ⟨by simpa using hnow, ?_⟩
    rw [List.length_eq_zero_iff.1 hlength, hexec]
    rfl
  · have harrival : s.metrics.queueSamplesArrival ≠ [] := by
      intro hnil
      rw [hnil] at hlength
      exact hexec (List.length_eq_zero_iff.1 hlength.symm)
    refine .inr ⟨step (numbers s.metrics.queueSamplesArrival),
      step (numbers s.metrics.queueSamplesExec), ?_, ?_, ?_⟩
    · simp [queueFigures, numbers, harrival, hexec]
    · exact step_shows hpos agree.exec_times hnow (agree.exec_depth hall)
    · refine step_shows hpos ?_ (hlength ▸ hnow) fun x hx =>
        ⟨Nat.zero_le _, agree.arrival_depth hall x hx⟩
      rw [agree.arrival_times, agree.exec_times, hlength]

theorem completedTasks_eq {p : Tunables} {r : Random G} {mode : String} {n : ℕ}
    (hdone : p.Completed (p.run r mode n)) :
    (p.run r mode n).metrics.completedTasks = p.numTasks := by
  refine le_antisymm ?_ hdone
  have hcompleted := (inv_reached (p.setup r mode) (r.seed p.seed) n).completed
  refine hcompleted.trans_le ?_
  exact (Finset.sum_le_card_nsmul _ _ 1 fun tid _ => stamped_le_one _ tid _).trans
    (by simp [Tunables.setup])

/-- **The plots show how many tasks wait.**  For a completed run with an interval of at least
`1e-9`, from its results or from the file: the depth that is drawn over a time is that of the
execution queue, or of the arrival buffer, at the last multiple of the interval, as the times
of the tasks have it.  If no time has passed there may be nothing to draw. -/
theorem plots_show_depths (p : Tunables) (r : Random G) (mode : String) (n : ℕ)
    (hΔ : 1 / 10 ^ 9 ≤ p.simTraceSampleInterval) (hdone : p.Completed (p.run r mode n))
    {g : Globals} {d : Data}
    (h : (outcome (p.setup r mode) (r.seed p.seed) n).results g mode p.numTasks = some d)
    (tag : String) : ∃ figures, plotQueueSeries d tag = some figures ∧
      plotQueueSeries (reload d) tag = some figures ∧
      ((p.run r mode n).now ≤ 0 ∧ figures = [] ∨ ∃ arrival exec,
        ShowsDepths p.numTasks p.simTraceSampleInterval (p.run r mode n) tag arrival exec figures) := by
  obtain ⟨hread, hfile⟩ := plotQueueSeries_results h tag
  have hpos : 0 < p.simTraceSampleInterval := lt_of_lt_of_le (by norm_num) hΔ
  have agree : SamplesAgree p.numTasks p.simTraceSampleInterval (p.run r mode n) :=
    samples_agree (p.setup r mode) (r.seed p.seed) hΔ n
  exact ⟨_, hread, hfile, queueFigures_show agree hpos (completedTasks_eq hdone) tag⟩

open Tunables in
theorem plots_show_depths_twoTasks : ∃ d,
    (outcome (twoTasks.setup unused "sw") (unused.seed twoTasks.seed) 44).results defaults "sw" 2 =
      some d ∧
    ∃ figures, plotQueueSeries d "sw" = some figures ∧ plotQueueSeries (reload d) "sw" = some figures ∧
      ((twoTasks.run unused "sw" 44).now ≤ 0 ∧ figures = [] ∨ ∃ arrival exec,
        ShowsDepths 2 2 (twoTasks.run unused "sw" 44) "sw" arrival exec figures) := by
  obtain ⟨stats, hstats⟩ :=
    exists_latencyStats (latencies 2 (twoTasks.run unused "sw" 44).metrics)
  have h : (outcome (twoTasks.setup unused "sw") (unused.seed twoTasks.seed) 44).results
      defaults "sw" 2 = some _ := Option.map_eq_some_iff.2 ⟨stats, hstats, rfl⟩
  exact ⟨_, h, plots_show_depths twoTasks unused "sw" 44 (by decide +kernel)
    (by unfold Completed; decide +kernel) h "sw"⟩

end TaskQueueCoSim.PlotResults
