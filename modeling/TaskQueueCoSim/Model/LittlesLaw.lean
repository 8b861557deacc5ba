import TaskQueueCoSim.Lib.Sojourn
import TaskQueueCoSim.Model.AblationRows
import TaskQueueCoSim.Model.FasterDispatch
import TaskQueueCoSim.Model.WorkConserving

/-!
# Little's law for a run of the behavioral model

The area under the number of tasks between two of their times is the time that the tasks
spend there (`area_stage`).  Time goes on in settled states only, where this is what the
stores hold and the processes have in hand.
-/

namespace TaskQueueCoSim.Behavioral

open Agenda Sim Sojourn

variable {G : Type} {c : Setup G} {s : Sim G}

/-! ## Areas -/

/-- The area under `f` up to the state after `n` rounds. -/
def area (c : Setup G) (random : G) (f : Sim G → ℕ) (n : ℕ) : ℚ :=
  ∑ i ∈ Finset.range n,
    ((reached c random (i + 1)).now - (reached c random i).now) * f (reached c random i)

/-- Only the states in which time goes on count. -/
theorem area_congr {random : G} {f g : Sim G → ℕ}
    (h : ∀ i, (reached c random i).now < (reached c random (i + 1)).now →
      f (reached c random i) = g (reached c random i)) (n : ℕ) :
    area c random f n = area c random g n := by
  refine Finset.sum_congr rfl fun i _ => ?_
  rcases (now_le_now_succ c random i).eq_or_lt with heq | hlt
  · rw [heq, sub_self, zero_mul, zero_mul]
  · rw [h i hlt]

theorem area_add (random : G) (f g : Sim G → ℕ) (n : ℕ) :
    area c random (fun s => f s + g s) n = area c random f n + area c random g n := by
  simp only [area, Nat.cast_add, mul_add, Finset.sum_add_distrib]

/-- What is recorded of a task between two of its times. -/
def Metrics.stay (m : Metrics) (k k' : Stamp) (tid : ℕ) : Stay ℚ := ⟨m.stamp tid k, m.stamp tid k'⟩

/-- How long the tasks have been between two of their times, until now if they are there still. -/
def Sim.spent (s : Sim G) (numTasks : ℕ) (k k' : Stamp) : ℚ :=
  ∑ tid ∈ Finset.range numTasks, (s.metrics.stay k k' tid).spent s.now

theorem Timed.valid (h : Timed s) {k k' : Stamp} (hk : k'.prev = some k) (tid : ℕ) :
    (s.metrics.stay k k' tid).Valid := by
  intro hnone
  have hnone : s.metrics.stamp tid k = none := hnone
  refine Option.eq_none_iff_forall_ne_some.2 fun x hx => ?_
  obtain ⟨y, hy, -⟩ := h.after tid k' k x hk hx
  rw [hnone] at hy
  cases hy

/-- The number of tasks between two of their times. -/
theorem Timed.sum_inside (h : Timed s) {k k' : Stamp} (hk : k'.prev = some k) (numTasks : ℕ) :
    ∑ tid ∈ Finset.range numTasks, (s.metrics.stay k k' tid).inside =
      s.stampedCount numTasks k - s.stampedCount numTasks k' := by
  exact Finset.sum_tsub_distrib _ fun tid _ => h.stamped_le hk tid

/-- The area under the number of tasks between two of their times. -/
theorem area_stage (c : Setup G) (random : G) {k k' : Stamp} (hk : k'.prev = some k) (n : ℕ) :
    area c random (fun s => s.stampedCount c.numTasks k - s.stampedCount c.numTasks k') n =
      (reached c random n).spent c.numTasks k k' := by
  have law := area_eq (Finset.range c.numTasks)
    (fun i tid => (reached c random i).metrics.stay k k' tid) (fun i => (reached c random i).now)
    (fun tid => by cases k <;> rfl) (fun i => (inv_reached c random i).toTimed.valid hk)
    (fun i tid => ⟨notes_reached c random i tid k, notes_reached c random i tid k'⟩) n
  refine Eq.trans ?_ law
  simp only [area, (inv_reached c random _).toTimed.sum_inside hk]

/-! ## The stores and the processes -/

/-- The tasks that are with the leaders or on their way to them. -/
def Sim.dispatching (s : Sim G) : ℕ :=
  (s.stores .arrivalBuffer).items.length + (s.tasks .batched).length

/-- `len(exec_queue.items)` -/
def Sim.execDepth (s : Sim G) : ℕ := (s.stores .execQueue).items.length

/-- In the states that count, the parts of the state are what is between the times. -/
theorem stages_eq {random : G} {n : ℕ}
    (hlt : (reached c random n).now < (reached c random (n + 1)).now) :
    let s := reached c random n
    s.stampedCount c.numTasks .arrival - s.stampedCount c.numTasks .enqueued = s.dispatching ∧
      s.stampedCount c.numTasks .enqueued - s.stampedCount c.numTasks .startExec = s.execDepth ∧
      s.stampedCount c.numTasks .startExec - s.stampedCount c.numTasks .finish =
        s.atWork .execQueue := by
  intro s
  have hinv := inv_reached c random n
  have conserving := workConserving_of_settled (settled_reached hlt)
  have started := hinv.flow.started
  have enqueued := hinv.enqueued
  have completed := hinv.completed
  have batched := conserving.batched
  have executing := conserving.executing
  have waiting := conserving.waiting
  rw [length_executing] at started
  simp only [dispatching, execDepth, s]
  omega

/-- The area under what the parts of the state hold. -/
theorem area_parts (c : Setup G) (random : G) (n : ℕ) :
    area c random Sim.dispatching n = (reached c random n).spent c.numTasks .arrival .enqueued ∧
      area c random Sim.execDepth n = (reached c random n).spent c.numTasks .enqueued .startExec ∧
      area c random (fun s => s.atWork .execQueue) n =
        (reached c random n).spent c.numTasks .startExec .finish := by
  refine ⟨(area_congr ?_ n).trans (area_stage c random rfl n),
    (area_congr ?_ n).trans (area_stage c random rfl n),
    (area_congr ?_ n).trans (area_stage c random rfl n)⟩
  · exact fun i hlt => (stages_eq hlt).1.symm
  · exact fun i hlt => (stages_eq hlt).2.1.symm
  · exact fun i hlt => (stages_eq hlt).2.2.symm

/-! ## The averages that a run reports -/

/-- `avg_wait_ns` -/
def avgWaitNs (numTasks : ℕ) (m : Metrics) : ℚ :=
  if queueWaits numTasks m = [] then 0 else OrderStatistics.mean (queueWaits numTasks m)

/-- The average as it is reported, times how many there are. -/
theorem length_mul_mean (xs : List ℚ) :
    xs.length * (if xs = [] then 0 else OrderStatistics.mean xs) = xs.sum := by
  unfold OrderStatistics.mean
  split_ifs with h
  · simp [h]
  · have hne : (xs.length : ℚ) ≠ 0 := by simpa using h
    field_simp

/-- The average that a run reports of its latencies. -/
theorem avgNs_eq {xs : List ℚ} {stats : LatencyStats} (h : latencyStats xs = some stats) :
    stats.avgNs = if xs = [] then 0 else OrderStatistics.mean xs := by
  obtain ⟨p90, -, h⟩ := Option.bind_eq_some_iff.1 h
  obtain ⟨p99, -, h⟩ := Option.bind_eq_some_iff.1 h
  rw [← Option.some.inj h]

/-- The differences between two times of each task, if all of them are recorded. -/
theorem sum_differences {N : ℕ} {k k' : Stamp} (h : ∀ tid < N, ∃ x y,
      s.metrics.stamp tid k = some x ∧ s.metrics.stamp tid k' = some y) {l : List ℚ}
    (hl : l = (List.range N).filterMap fun tid => do
      let x ← s.metrics.stamp tid k
      let y ← s.metrics.stamp tid k'
      return y - x) : l.length = N ∧ l.sum = s.spent N k k' := by
  have hmap : l = (List.range N).map fun tid => (s.metrics.stay k k' tid).spent s.now := by
    rw [hl, ← List.filterMap_eq_map]
    refine List.filterMap_congr fun tid htid => ?_
    obtain ⟨x, y, hx, hy⟩ := h tid (List.mem_range.1 htid)
    simp [hx, hy, Metrics.stay, Stay.spent]
  rw [hmap, List.length_map, List.length_range]
  exact ⟨rfl, rfl⟩

/-- The tasks that have arrived and are not finished. -/
def Sim.present (s : Sim G) : ℕ := s.dispatching + s.execDepth + s.atWork .execQueue

theorem area_present (c : Setup G) (random : G) (n : ℕ) :
    area c random Sim.present n = (reached c random n).spent c.numTasks .arrival .finish := by
  obtain ⟨dispatching, waiting, executing⟩ := area_parts c random n
  calc area c random Sim.present n
      = area c random (fun s => s.dispatching + s.execDepth) n +
          area c random (fun s => s.atWork .execQueue) n := area_add ..
    _ = area c random Sim.dispatching n + area c random Sim.execDepth n +
          area c random (fun s => s.atWork .execQueue) n := by
      rw [area_add random Sim.dispatching Sim.execDepth]
    _ = (reached c random n).spent c.numTasks .arrival .finish := by
      rw [dispatching, waiting, executing]
      simp only [Sim.spent, ← Finset.sum_add_distrib]
      refine Finset.sum_congr rfl fun tid _ => ?_
      simp only [Stay.spent, Metrics.stay]
      ring

/-- What the areas under the numbers of tasks are, in every state of a run and at its end. -/
structure LittlesLaw (c : Setup G) (random : G) (n : ℕ) : Prop where
  waiting : area c random Sim.execDepth n =
    (reached c random n).spent c.numTasks .enqueued .startExec
  present : area c random Sim.present n =
    (reached c random n).spent c.numTasks .arrival .finish
  avg_wait : c.numTasks ≤ (reached c random n).metrics.completedTasks →
    area c random Sim.execDepth n =
      c.numTasks * avgWaitNs c.numTasks (reached c random n).metrics
  avg : c.numTasks ≤ (reached c random n).metrics.completedTasks → ∀ stats,
    latencyStats (latencies c.numTasks (reached c random n).metrics) = some stats →
    area c random Sim.present n = c.numTasks * stats.avgNs

/-- **Little's law.**  In every state that the loop reaches, the area under the depth of the
execution queue is the time that the tasks have waited in it, and the area under the number
of tasks in the system is the time that they have spent there.  When all tasks are done,
these are the number of tasks times the averages that are reported. -/
theorem littles_law (c : Setup G) (random : G) (n : ℕ) : LittlesLaw c random n := by
  have waiting := (area_parts c random n).2.1
  have recorded (hdone : c.numTasks ≤ (reached c random n).metrics.completedTasks) (k k' : Stamp)
      (tid : ℕ) (ht : tid < c.numTasks) : ∃ x y,
        (reached c random n).metrics.stamp tid k = some x ∧
          (reached c random n).metrics.stamp tid k' = some y := by
    obtain ⟨x, hx⟩ := stamp_of_completed hdone ht k
    obtain ⟨y, hy⟩ := stamp_of_completed hdone ht k'
    exact ⟨x, y, hx, hy⟩
  refine ⟨waiting, area_present c random n, fun hdone => ?_, fun hdone stats hstats => ?_⟩
  · obtain ⟨hlen, hsum⟩ := sum_differences (recorded hdone .enqueued .startExec)
      (l := queueWaits c.numTasks (reached c random n).metrics) rfl
    rw [waiting, ← hsum, ← length_mul_mean, hlen, avgWaitNs]
  · obtain ⟨hlen, hsum⟩ := sum_differences (recorded hdone .arrival .finish)
      (l := latencies c.numTasks (reached c random n).metrics) rfl
    rw [area_present, ← hsum, ← length_mul_mean, hlen, avgNs_eq hstats]

end TaskQueueCoSim.Behavioral
