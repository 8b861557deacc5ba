import TaskQueueCoSim.Model.ExecutedOnce
import TaskQueueCoSim.Model.RunSim
import TaskQueueCoSim.Model.Tandem

/-!
# Faster dispatch hurts no task

With batches of one task and a constant duration the times of a run are those of
the schedules, and the schedules of two stations in tandem are monotone in the
dispatch time.
-/

namespace TaskQueueCoSim.Behavioral

variable {G : Type}

/-- If one setup only dispatches faster, no time of its schedules is later. -/
theorem Draws.time_le_time {c c' : Setup G} (w : Draws c) (w' : Draws c') (D : ℚ)
    (hl : c.numLeaders = c'.numLeaders) (hf : c.numFollowers = c'.numFollowers)
    (harrive : w.arrive = w'.arrive) (hd : w.dispatchTime ≤ w'.dispatchTime) (k : Stamp) (tid : ℕ) :
    w.time D k tid ≤ w'.time D k tid := by
  have henqueue : ∀ i, w.enqueue i ≤ w'.enqueue i := by
    intro i
    unfold enqueue
    rw [hl, harrive]
    exact Station.finish_le_finish (fun _ => le_rfl) (max_le_max hd le_rfl) i
  cases k with
  | arrival => exact (congrFun harrive tid).le
  | enqueued => exact henqueue tid
  | startExec =>
    show Station.begins _ _ _ _ ≤ Station.begins _ _ _ _
    rw [hf]
    exact Station.begins_le_begins henqueue le_rfl tid
  | finish =>
    show Station.finish _ _ _ _ ≤ Station.finish _ _ _ _
    rw [hf]
    exact Station.finish_le_finish henqueue le_rfl tid

/-- If all tasks are finished, each has its latency. -/
theorem latencies_eq {N : ℕ} {m : Metrics} {a f : ℕ → ℚ}
    (ha : ∀ tid < N, m.stamp tid .arrival = some (a tid))
    (hf : ∀ tid < N, m.stamp tid .finish = some (f tid)) :
    latencies N m = (List.range N).map fun tid => f tid - a tid := by
  rw [latencies, ← List.filterMap_eq_map]
  refine List.filterMap_congr fun tid htid => ?_
  have ha' : (m.taskInfo tid).arrival = some (a tid) := ha tid (List.mem_range.1 htid)
  have hf' : (m.taskInfo tid).finish = some (f tid) := hf tid (List.mem_range.1 htid)
  simp [ha', hf']

/-- Latencies that are no longer, task by task, have no greater median. -/
theorem medianNs_le_medianNs {N : ℕ} {m m' : Metrics} {a f f' : ℕ → ℚ}
    (ha : ∀ tid < N, m.stamp tid .arrival = some (a tid))
    (hf : ∀ tid < N, m.stamp tid .finish = some (f tid))
    (ha' : ∀ tid < N, m'.stamp tid .arrival = some (a tid))
    (hf' : ∀ tid < N, m'.stamp tid .finish = some (f' tid)) (hle : ∀ tid < N, f tid ≤ f' tid) :
    medianNs N m ≤ medianNs N m' := by
  unfold medianNs
  rw [latencies_eq ha hf, latencies_eq ha' hf']
  simp only [List.map_eq_nil_iff]
  split_ifs
  · exact le_rfl
  · refine OrderStatistics.median_le_median ?_
    rw [List.forall₂_map_left_iff, List.forall₂_map_right_iff, List.forall₂_same]
    exact fun tid htid => sub_le_sub_right (hle tid (List.mem_range.1 htid)) _

namespace Tunables

variable (p : Tunables) (r : Random G)

/-- What a run without a deviation of the durations draws. -/
def draws (hsd : p.taskDurationSd ≤ 0) (mode : String) : Draws (p.setup r mode) :=
  .ofArrivals _ (r.seed p.seed) (fun _ => rfl) (makeNormal_of_le r p.taskDurationMean hsd)

variable {p r}

/-- The times of the tasks in a run that has been left by completion. -/
theorem stamp_eq (hsd : p.taskDurationSd ≤ 0) (hbatch : p.batchEnqueue ≤ 1)
    (hl : 0 < p.numLeaders) (hf : 0 < p.numFollowers) {mode : String} {n : ℕ}
    (hdone : p.Completed (p.run r mode n)) (k : Stamp) {tid : ℕ} (ht : tid < p.numTasks) :
    (p.run r mode n).metrics.stamp tid k =
      some ((p.draws r hsd mode).time p.taskDurationMean k tid) := by
  obtain ⟨t, hstamp⟩ := stamp_of_completed (c := p.setup r mode) hdone ht k
  have hdur : ∀ random, ((p.setup r mode).taskDuration random).1 = p.taskDurationMean :=
    fun random => congrArg Prod.fst (makeNormal_of_le r p.taskDurationMean hsd random)
  have := stamped_reached (p.draws r hsd mode) hbatch hdur hl hf n tid k t hstamp
  rw [← this]
  exact hstamp

/-- **Faster dispatch never hurts a task.**  With batches of one task and a constant
duration, no time of a task in the run of mode `hw` is later than in that of mode
`sw`, and the median latency is no greater, if both runs complete. -/
theorem faster_dispatch_hurts_no_task (p : Tunables) (r : Random G) (hbatch : p.batchEnqueue ≤ 1)
    (hsd : p.taskDurationSd ≤ 0) (hl : 0 < p.numLeaders) (hf : 0 < p.numFollowers)
    (hd : p.dispatchTimeHw ≤ p.dispatchTimeSw) {n m : ℕ} (hsw : p.Completed (p.run r "sw" n))
    (hhw : p.Completed (p.run r "hw" m)) :
    (∀ tid < p.numTasks, ∀ k, ∃ x y, (p.run r "hw" m).metrics.stamp tid k = some x ∧
      (p.run r "sw" n).metrics.stamp tid k = some y ∧ x ≤ y) ∧
    medianNs p.numTasks (p.run r "hw" m).metrics ≤ medianNs p.numTasks (p.run r "sw" n).metrics := by
  have harrive : (p.draws r hsd "hw").arrive = (p.draws r hsd "sw").arrive :=
    Draws.arrive_congr fun _ => rfl
  have hle := (p.draws r hsd "hw").time_le_time (p.draws r hsd "sw") p.taskDurationMean rfl rfl
    harrive hd
  have stamps {mode : String} {n : ℕ} (hdone : p.Completed (p.run r mode n)) (k : Stamp) {tid : ℕ}
      (ht : tid < p.numTasks) := stamp_eq hsd hbatch hl hf hdone k ht
  refine ⟨fun tid ht k => ⟨_, _, stamps hhw k ht, stamps hsw k ht, hle k tid⟩, ?_⟩
  refine medianNs_le_medianNs (fun tid ht => ?_) (fun tid ht => stamps hhw .finish ht)
    (fun tid ht => stamps hsw .arrival ht) (fun tid ht => stamps hsw .finish ht)
    fun tid _ => hle .finish tid
  exact (stamps hhw .arrival ht).trans (congrArg some (congrFun harrive tid))

/-- Two tasks in a row for one leader and one follower; nothing is drawn. -/
def twoTasks : Tunables where
  seed := 42
  numTasks := 2
  numFollowers := 1
  numLeaders := 1
  taskDurationMean := 10
  taskDurationSd := 0
  dispatchTimeSw := 5
  dispatchTimeHw := 1
  arrivalRate := 1
  arrivalModel := "deterministic"
  batchEnqueue := 1
  simTraceSampleInterval := 2

/-- A generator for runs that do not draw. -/
def unused : Random Unit := ⟨fun _ => (), fun _ => (0, ·), fun _ _ => (0, ·)⟩

theorem faster_dispatch_two_tasks :
    (∀ tid < 2, ∀ k, ∃ x y, (twoTasks.run unused "hw" 40).metrics.stamp tid k = some x ∧
      (twoTasks.run unused "sw" 44).metrics.stamp tid k = some y ∧ x ≤ y) ∧
    medianNs 2 (twoTasks.run unused "hw" 40).metrics ≤
      medianNs 2 (twoTasks.run unused "sw" 44).metrics :=
  faster_dispatch_hurts_no_task twoTasks unused (by decide) (by decide) (by decide) (by decide)
    (by decide) (by unfold Completed; decide +kernel) (by unfold Completed; decide +kernel)

end Tunables

end TaskQueueCoSim.Behavioral
