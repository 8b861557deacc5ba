import TaskQueueCoSim.Model.FasterDispatch
import TaskQueueCoSim.Model.LatencyStats
import TaskQueueCoSim.Model.Timeline

/-!
# More resources hurt no task

More leaders, more followers, a shorter dispatch and shorter tasks: on the same
workload no time of a task is later, so no figure of `latency_stats` is greater,
and the run ends no later.
-/

namespace TaskQueueCoSim.Behavioral

open OrderStatistics

variable {G : Type}

/-! ## The end of a run -/

/-- A run that is done ends when the last task is finished. -/
theorem now_of_completed {c : Setup G} {random : G} {n : ℕ} (hpos : 0 < c.numTasks)
    (hdone : c.numTasks ≤ (reached c random n).metrics.completedTasks) :
    ∃ tid < c.numTasks,
      (reached c random n).metrics.stamp tid .finish = some (reached c random n).now := by
  induction n with
  | zero => exact absurd hdone (not_le.2 hpos)
  | succ n ih =>
    by_cases hbefore : c.numTasks ≤ (reached c random n).metrics.completedTasks
    · have hsame : reached c random (n + 1) = reached c random n := by
        rw [reached_succ, round, if_pos hbefore, Option.getD_none]
      rw [hsame]
      exact ih hbefore
    · -- one more task is finished, and this is recorded now
      have hless : (reached c random n).stampedCount c.numTasks .finish <
          (reached c random (n + 1)).stampedCount c.numTasks .finish := by
        rw [← (inv_reached c random n).completed, ← (inv_reached c random (n + 1)).completed]
        exact Nat.lt_of_lt_of_le (Nat.lt_of_not_le hbefore) hdone
      obtain ⟨tid, htid, hlt⟩ := Finset.exists_lt_of_sum_lt hless
      refine ⟨tid, Finset.mem_range.1 htid, ?_⟩
      obtain hsame | ⟨-, hnow⟩ := notes_reached c random n tid .finish
      · simp [Sim.stamped, hsame] at hlt
      · exact hnow

/-! ## The schedules -/

/-- One setup has the resources of another: its leaders and followers, and its speed. -/
theorem Draws.time_le_time_of_resources {c c' : Setup G} (w : Draws c) (w' : Draws c') {D D' : ℚ}
    (hl : 0 < c.numLeaders) (hll : c.numLeaders ≤ c'.numLeaders) (hf : 0 < c.numFollowers)
    (hff : c.numFollowers ≤ c'.numFollowers) (harrive : w'.arrive = w.arrive)
    (hd : w'.dispatchTime ≤ w.dispatchTime) (hD : D' ≤ D) (k : Stamp) (tid : ℕ) :
    w'.time D' k tid ≤ w.time D k tid := by
  have henqueue : ∀ i, w'.enqueue i ≤ w.enqueue i := fun i =>
    calc w'.enqueue i
        ≤ Station.finish c'.numLeaders w.arrive (max w.dispatchTime 0) i :=
          Station.finish_le_finish (fun _ => (congrFun harrive _).le) (max_le_max hd le_rfl) i
      _ ≤ w.enqueue i := Station.finish_le_finish_of_servers hl hll w.arrive_mono i
  have hmono := w.enqueue_mono
  cases k with
  | arrival => exact (congrFun harrive tid).le
  | enqueued => exact henqueue tid
  | startExec =>
    calc w'.startExec D' tid
        ≤ Station.begins c'.numFollowers w.enqueue (max D 0) tid :=
          Station.begins_le_begins henqueue (max_le_max hD le_rfl) tid
      _ ≤ w.startExec D tid := Station.begins_le_begins_of_servers hf hff hmono tid
  | finish =>
    calc w'.finish D' tid
        ≤ Station.finish c'.numFollowers w.enqueue (max D 0) tid :=
          Station.finish_le_finish henqueue (max_le_max hD le_rfl) tid
      _ ≤ w.finish D tid := Station.finish_le_finish_of_servers hf hff hmono tid

/-! ## The figures -/

/-- No figure is greater. -/
structure LatencyStats.NoGreater (a b : LatencyStats) : Prop where
  avg : a.avgNs ≤ b.avgNs
  median : a.medianNs ≤ b.medianNs
  p90 : a.p90Ns ≤ b.p90Ns
  p99 : a.p99Ns ≤ b.p99Ns
  min : a.minNs ≤ b.minNs
  max : a.maxNs ≤ b.maxNs

section Figures

variable {xs ys : List ℚ} (h : List.Forall₂ (· ≤ ·) xs ys)

include h

theorem eq_nil_iff_of_forall₂ : xs = [] ↔ ys = [] := by
  rw [← List.length_eq_zero_iff, ← List.length_eq_zero_iff, h.length_eq]

theorem max?_le_max? : (if xs = [] then 0 else xs.max?.getD 0) ≤
    if ys = [] then 0 else ys.max?.getD 0 := by
  have hnil := eq_nil_iff_of_forall₂ h
  by_cases hxs : xs = []
  · simp [hxs, hnil.1 hxs]
  · rw [if_neg hxs, if_neg fun hys => hxs (hnil.2 hys)]
    have bounded : ∀ x ∈ xs, x ≤ ys.max?.getD 0 := fun x hx => by
      obtain ⟨i, hi, rfl⟩ := List.getElem_of_mem hx
      have hle := h.get hi (h.length_eq ▸ hi)
      exact hle.trans (le_max?_getD (List.getElem_mem _))
    cases hm : xs.max? with
    | none => exact absurd (List.max?_eq_none_iff.1 hm) hxs
    | some m => exact bounded m (List.max?_eq_some_iff.1 hm).1

theorem min?_le_min? : (if xs = [] then 0 else xs.min?.getD 0) ≤
    if ys = [] then 0 else ys.min?.getD 0 := by
  have hnil := eq_nil_iff_of_forall₂ h
  by_cases hxs : xs = []
  · simp [hxs, hnil.1 hxs]
  · have hys : ys ≠ [] := fun hys => hxs (hnil.2 hys)
    rw [if_neg hxs, if_neg hys]
    have bounding : ∀ y ∈ ys, xs.min?.getD 0 ≤ y := fun y hy => by
      obtain ⟨i, hi, rfl⟩ := List.getElem_of_mem hy
      have hle := h.get (h.length_eq ▸ hi) hi
      exact (min?_getD_le (List.getElem_mem _)).trans hle
    cases hm : ys.min? with
    | none => exact absurd (List.min?_eq_none_iff.1 hm) hys
    | some m => exact bounding m (List.min?_eq_some_iff.1 hm).1

theorem quantilesSafe_le {n idx : ℕ} (hidx : idx + 1 < n) {x y : ℚ}
    (hx : quantilesSafe xs n idx = some x) (hy : quantilesSafe ys n idx = some y) : x ≤ y := by
  by_cases hn : n ≤ xs.length
  · rw [quantilesSafe_of_le hn hidx] at hx
    rw [quantilesSafe_of_le (h.length_eq ▸ hn) hidx] at hy
    obtain rfl := Option.some.inj hx
    obtain rfl := Option.some.inj hy
    exact OrderStatistics.cutPoint_le_cutPoint h hn (by omega) hidx
  · rw [quantilesSafe_of_lt idx (by omega)] at hx
    rw [quantilesSafe_of_lt idx (by rw [← h.length_eq]; omega)] at hy
    obtain rfl := Option.some.inj hx
    obtain rfl := Option.some.inj hy
    exact max?_le_max? h

/-- Latencies that are no longer, task by task, have no greater figures. -/
theorem latencyStats_noGreater {a b : LatencyStats} (ha : latencyStats xs = some a)
    (hb : latencyStats ys = some b) : a.NoGreater b := by
  obtain ⟨p90, h90, ha⟩ := Option.bind_eq_some_iff.1 ha
  obtain ⟨p99, h99, ha⟩ := Option.bind_eq_some_iff.1 ha
  obtain ⟨q90, h90', hb⟩ := Option.bind_eq_some_iff.1 hb
  obtain ⟨q99, h99', hb⟩ := Option.bind_eq_some_iff.1 hb
  obtain rfl := Option.some.inj ha
  obtain rfl := Option.some.inj hb
  have hnil := eq_nil_iff_of_forall₂ h
  refine ⟨?_, ?_, quantilesSafe_le h (by decide) h90 h90', quantilesSafe_le h (by decide) h99 h99',
    min?_le_min? h, max?_le_max? h⟩
  · simp only [hnil]
    split_ifs
    · exact le_rfl
    · exact mean_le_mean h
  · simp only [hnil]
    split_ifs
    · exact le_rfl
    · exact median_le_median h

end Figures

/-! ## Two runs -/

namespace Tunables

/-- The call of `run_sim` with `p'` and `mode'` has the workload of that with `p` and `mode`,
and at least its resources. -/
structure HasResources (p p' : Tunables) (mode mode' : String) : Prop where
  seed : p'.seed = p.seed
  numTasks : p'.numTasks = p.numTasks
  arrivalModel : p'.arrivalModel = p.arrivalModel
  arrivalRate : p'.arrivalRate = p.arrivalRate
  leaders : p.numLeaders ≤ p'.numLeaders
  followers : p.numFollowers ≤ p'.numFollowers
  dispatch : p'.dispatchTime mode' ≤ p.dispatchTime mode
  duration : p'.taskDurationMean ≤ p.taskDurationMean

/-- What a run with more resources gains: `s'` is its end, and `s` that of the other. -/
structure NoLater (N : ℕ) (s s' : Sim G) : Prop where
  times : ∀ tid < N, ∀ k, ∃ x y, s'.metrics.stamp tid k = some x ∧
    s.metrics.stamp tid k = some y ∧ x ≤ y
  figures : ∀ a b, latencyStats (latencies N s'.metrics) = some a →
    latencyStats (latencies N s.metrics) = some b → a.NoGreater b
  ends : 0 < N → s'.now ≤ s.now

/-- **More resources hurt no task.**  With batches of one task and a constant duration, a
completed run with more leaders, more followers, a shorter dispatch or shorter tasks has no
time of a task later, no figure of the latencies greater, and no later end, than a completed
run on the same workload. -/
theorem resources_hurt_no_task (p p' : Tunables) (r : Random G) {mode mode' : String}
    (h : p.HasResources p' mode mode') (hbatch : p.batchEnqueue ≤ 1) (hbatch' : p'.batchEnqueue ≤ 1)
    (hsd : p.taskDurationSd ≤ 0) (hsd' : p'.taskDurationSd ≤ 0) (hl : 0 < p.numLeaders)
    (hf : 0 < p.numFollowers) {n n' : ℕ} (hdone : p.Completed (p.run r mode n))
    (hdone' : p'.Completed (p'.run r mode' n')) :
    NoLater p.numTasks (p.run r mode n) (p'.run r mode' n') := by
  have hsame : p'.interarrival r = p.interarrival r := by
    unfold interarrival
    rw [h.arrivalModel, h.arrivalRate]
  have harrive : (p'.draws r hsd' mode').arrive = (p.draws r hsd mode).arrive := by
    refine Draws.arrive_congr fun a => ?_
    show (p'.interarrival r ((fun g => (p'.interarrival r g).2)^[a] (r.seed p'.seed))).1 =
      (p.interarrival r ((fun g => (p.interarrival r g).2)^[a] (r.seed p.seed))).1
    rw [hsame, h.seed]
  have hle := (p.draws r hsd mode).time_le_time_of_resources (p'.draws r hsd' mode') hl h.leaders hf
    h.followers harrive h.dispatch h.duration
  have stamps (k : Stamp) {tid : ℕ} (ht : tid < p.numTasks) :=
    stamp_eq hsd hbatch hl hf hdone k ht
  have stamps' (k : Stamp) {tid : ℕ} (ht : tid < p.numTasks) :=
    stamp_eq hsd' hbatch' (Nat.lt_of_lt_of_le hl h.leaders) (Nat.lt_of_lt_of_le hf h.followers) hdone'
      k (h.numTasks.symm ▸ ht)
  refine ⟨fun tid ht k => ⟨_, _, stamps' k ht, stamps k ht, hle k tid⟩, fun a b ha hb => ?_,
    fun hpos => ?_⟩
  · rw [latencies_eq (fun tid ht => stamps' .arrival ht) fun tid ht => stamps' .finish ht] at ha
    rw [latencies_eq (fun tid ht => stamps .arrival ht) fun tid ht => stamps .finish ht] at hb
    refine latencyStats_noGreater ?_ ha hb
    rw [List.forall₂_map_left_iff, List.forall₂_map_right_iff, List.forall₂_same]
    exact fun tid _ => sub_le_sub (hle .finish tid) (congrFun harrive tid).ge
  · have hpos' : 0 < (p'.setup r mode').numTasks := lt_of_lt_of_eq hpos h.numTasks.symm
    have hlast : ∃ tid < p'.numTasks, (p'.run r mode' n').metrics.stamp tid .finish =
        some (p'.run r mode' n').now := now_of_completed hpos' hdone'
    obtain ⟨tid, ht', hlast⟩ := hlast
    have ht : tid < p.numTasks := lt_of_lt_of_eq ht' h.numTasks
    have hend := Option.some.inj (hlast.symm.trans (stamps' .finish ht))
    exact hend.trans_le ((hle .finish tid).trans
      ((inv_reached (p.setup r mode) (r.seed p.seed) n).past tid .finish _ (stamps .finish ht)))

/-- The two tasks for two leaders and two followers. -/
def twoServers : Tunables := { twoTasks with numLeaders := 2, numFollowers := 2 }

theorem resources_two_tasks :
    NoLater 2 (twoTasks.run unused "sw" 44) (twoServers.run unused "hw" 40) :=
  resources_hurt_no_task twoTasks twoServers unused
    ⟨rfl, rfl, rfl, rfl, by decide, by decide, by decide +kernel, le_rfl⟩ (by decide) (by decide)
    (by decide) (by decide) (by decide) (by decide) (by unfold Completed; decide +kernel)
    (by unfold Completed; decide +kernel)

end Tunables

end TaskQueueCoSim.Behavioral
