import TaskQueueCoSim.Model.RunSim

/-!
# Latency statistics of run_sim (model/behavioral.py)

`run_sim` takes p90 and p99 from `statistics.quantiles` only if there are at
least 10 and 100 latencies, and reports the maximum otherwise.  The figures are
in order at every length (`latencyStats_ordered`).
-/

namespace TaskQueueCoSim.Behavioral

open OrderStatistics

/-- `quantiles_safe`; `none` is an exception. -/
def quantilesSafe (xs : List ℚ) (n idxDefault : ℕ) : Option ℚ :=
  if n ≤ xs.length then (quantiles xs n).bind (·[idxDefault]?)
  else some (if xs = [] then 0 else xs.max?.getD 0)

/-- `latency_stats` -/
structure LatencyStats where
  avgNs : ℚ
  medianNs : ℚ
  p90Ns : ℚ
  p99Ns : ℚ
  minNs : ℚ
  maxNs : ℚ
  deriving DecidableEq, Repr

def latencyStats (latencies : List ℚ) : Option LatencyStats := do
  let p90 ← quantilesSafe latencies 10 8
  let p99 ← quantilesSafe latencies 100 98
  return {
    avgNs := if latencies = [] then 0 else mean latencies
    medianNs := if latencies = [] then 0 else median latencies
    p90Ns := p90
    p99Ns := p99
    minNs := if latencies = [] then 0 else latencies.min?.getD 0
    maxNs := if latencies = [] then 0 else latencies.max?.getD 0 }

/-- The order of the figures. -/
structure LatencyStats.Ordered (s : LatencyStats) : Prop where
  min_le_median : s.minNs ≤ s.medianNs
  median_le_p90 : s.medianNs ≤ s.p90Ns
  p90_le_p99 : s.p90Ns ≤ s.p99Ns
  p99_le_max : s.p99Ns ≤ s.maxNs
  min_le_avg : s.minNs ≤ s.avgNs
  avg_le_max : s.avgNs ≤ s.maxNs

variable {xs : List ℚ}

theorem quantilesSafe_of_lt {n : ℕ} (idx : ℕ) (h : xs.length < n) :
    quantilesSafe xs n idx = some (if xs = [] then 0 else xs.max?.getD 0) :=
  if_neg (by omega)

/-- With enough latencies the cut point is there. -/
theorem quantilesSafe_of_le {n idx : ℕ} (h : n ≤ xs.length) (hidx : idx + 1 < n) :
    quantilesSafe xs n idx = some (cutPoint xs n (idx + 1)) := by
  rw [quantilesSafe, if_pos h]
  exact quantiles_getElem? (by omega) hidx

theorem min?_getD_le {x : ℚ} (hx : x ∈ xs) : xs.min?.getD 0 ≤ x := by
  obtain ⟨m, hm⟩ := Option.isSome_iff_exists.1 (List.isSome_min?_of_mem hx)
  rw [hm]
  exact (List.min?_eq_some_iff.1 hm).2 x hx

theorem le_max?_getD {x : ℚ} (hx : x ∈ xs) : x ≤ xs.max?.getD 0 := by
  obtain ⟨m, hm⟩ := Option.isSome_iff_exists.1 (List.isSome_max?_of_mem hx)
  rw [hm]
  exact (List.max?_eq_some_iff.1 hm).2 x hx

/-- A figure that lies at a position of the sorted data is at most the maximum. -/
theorem getD_le_max {i : ℕ} (hi : i < xs.length) :
    (xs.insertionSort (· ≤ ·)).getD i 0 ≤ xs.max?.getD 0 :=
  le_max?_getD (getD_insertionSort_mem 0 hi)

/-- The median is at most what stands right of the middle. -/
theorem median_le_getD {i : ℕ} (hmid : xs.length / 2 ≤ i) (hi : i < xs.length) :
    median xs ≤ (xs.insertionSort (· ≤ ·)).getD i 0 := by
  have hne : xs ≠ [] := List.ne_nil_of_length_pos (by omega)
  exact (median_mem_Icc hne).2.trans (getD_le_getD_insertionSort 0 hmid hi)

theorem median_le_max (hne : xs ≠ []) : median xs ≤ xs.max?.getD 0 := by
  have hpos := List.length_pos_of_ne_nil hne
  exact (median_le_getD le_rfl (by omega)).trans (getD_le_max (by omega))

theorem min_le_median (hne : xs ≠ []) : xs.min?.getD 0 ≤ median xs := by
  have hpos := List.length_pos_of_ne_nil hne
  have hmem : (xs.insertionSort (· ≤ ·)).getD ((xs.length - 1) / 2) 0 ∈ xs :=
    getD_insertionSort_mem 0 (by omega)
  exact (min?_getD_le hmem).trans (median_mem_Icc hne).1

/-- The 90th percentile stands right of the middle. -/
theorem median_le_cutPoint (h : 10 ≤ xs.length) : median xs ≤ cutPoint xs 10 9 := by
  have hcut := (cutPoint_mem_Icc (i := 9) h (by omega) (by omega)).1
  exact (median_le_getD (by omega) (by omega)).trans hcut

/-- A cut point is at most the maximum. -/
theorem cutPoint_le_max {n i : ℕ} (h : n ≤ xs.length) (hi : 0 < i) (hin : i < n) :
    cutPoint xs n i ≤ xs.max?.getD 0 :=
  (cutPoint_mem_Icc h hi hin).2.trans (getD_le_max (index_interior h hi hin).2)

/-- The 99th percentile stands at a later position than the 90th. -/
theorem cutPoint_le_cutPoint (h : 100 ≤ xs.length) : cutPoint xs 10 9 ≤ cutPoint xs 100 99 := by
  have h10 : 10 ≤ xs.length := by omega
  have h90 := (cutPoint_mem_Icc (i := 9) h10 (by omega) (by omega)).2
  have h99 := (cutPoint_mem_Icc (i := 99) h (by omega) (by omega)).1
  have hstep : (xs.insertionSort (· ≤ ·)).getD (9 * (xs.length + 1) / 10) 0 ≤
      (xs.insertionSort (· ≤ ·)).getD (99 * (xs.length + 1) / 100 - 1) 0 :=
    getD_le_getD_insertionSort 0 (by omega) (by omega)
  exact (h90.trans hstep).trans h99

/-- The two percentiles are there at every length, in order, and from the median to the maximum. -/
theorem percentiles (hne : xs ≠ []) :
    ∃ p90 p99, quantilesSafe xs 10 8 = some p90 ∧ quantilesSafe xs 100 98 = some p99 ∧
      median xs ≤ p90 ∧ p90 ≤ p99 ∧ p99 ≤ xs.max?.getD 0 := by
  have hmax : (if xs = [] then 0 else xs.max?.getD 0) = xs.max?.getD 0 := if_neg hne
  by_cases h10 : 10 ≤ xs.length
  · have h90 : cutPoint xs 10 9 ≤ xs.max?.getD 0 := cutPoint_le_max h10 (by omega) (by omega)
    by_cases h100 : 100 ≤ xs.length
    · exact ⟨_, _, quantilesSafe_of_le h10 (by omega), quantilesSafe_of_le h100 (by omega),
        median_le_cutPoint h10, cutPoint_le_cutPoint h100,
        cutPoint_le_max h100 (by omega) (by omega)⟩
    · refine ⟨_, _, quantilesSafe_of_le h10 (by omega), quantilesSafe_of_lt 98 (by omega),
        median_le_cutPoint h10, ?_⟩
      rw [hmax]
      exact ⟨h90, le_rfl⟩
  · refine ⟨_, _, quantilesSafe_of_lt 8 (by omega), quantilesSafe_of_lt 98 (by omega), ?_⟩
    rw [hmax]
    exact ⟨median_le_max hne, le_rfl, le_rfl⟩

/-- No list of latencies makes the statistics raise. -/
theorem exists_latencyStats (xs : List ℚ) : ∃ stats, latencyStats xs = some stats := by
  by_cases hne : xs = []
  · subst hne
    exact ⟨_, rfl⟩
  · obtain ⟨p90, p99, h90, h99, -⟩ := percentiles hne
    exact ⟨_, by rw [latencyStats, h90, h99]; rfl⟩

/-- **Reported latencies are in order.**  No figure is missing, and they are ordered, for every
list of latencies. -/
theorem latencyStats_ordered (latencies : List ℚ) :
    ∃ s, latencyStats latencies = some s ∧ s.Ordered := by
  by_cases hne : latencies = []
  · subst hne
    exact ⟨_, rfl, le_rfl, le_rfl, le_rfl, le_rfl, le_rfl, le_rfl⟩
  · obtain ⟨p90, p99, h90, h99, hmedian, hle, hmax⟩ := percentiles hne
    obtain ⟨hlow, hhigh⟩ := mean_mem_Icc hne (fun _ => min?_getD_le) (fun _ => le_max?_getD)
    refine ⟨_, by rw [latencyStats, h90, h99]; rfl, ?_⟩
    simp only [if_neg hne]
    exact ⟨min_le_median hne, hmedian, hle, hmax, hlow, hhigh⟩

/-- The median that a run reports. -/
theorem medianNs_eq {numTasks : ℕ} {m : Metrics} {s : LatencyStats}
    (h : latencyStats (latencies numTasks m) = some s) : s.medianNs = medianNs numTasks m := by
  obtain ⟨p90, -, h⟩ := Option.bind_eq_some_iff.1 h
  obtain ⟨p99, -, h⟩ := Option.bind_eq_some_iff.1 h
  rw [← Option.some.inj h, medianNs]

end TaskQueueCoSim.Behavioral
