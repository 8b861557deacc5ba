import TaskQueueCoSim.Model.Samplers

/-!
# What the reported series say about the tasks

A sampled depth is the number of tasks that wait at that time, and a sampled
rate counts the tasks of one interval.  Only tasks whose times are those of the
samples may be counted or not: that depends on the order of the events.
-/

namespace TaskQueueCoSim.Behavioral

open Agenda Sim

variable {G : Type} {c : Setup G} {s : Sim G} {random : G} {i n tid : ℕ}

/-! ## Events that are noted -/

/-- What an event on the agenda notes is noted at the time it is due at. -/
theorem noted {x : ℚ × Ev} {k : Stamp} (hx : x ∈ (reached c random i).agenda) (hin : i ≤ n)
    (hgone : x ∉ (reached c random n).agenda)
    (hnote : ∀ s : Sim G, s.now = x.1 → (callbacks c x.2 s).metrics.stamp tid k = some x.1) :
    (reached c random n).metrics.stamp tid k = some x.1 := by
  obtain ⟨j, rest, hj, -, hnext⟩ := (mem_agenda_or_processed hx hin).resolve_left hgone
  refine stamp_reached_of_le (Nat.succ_le_of_lt hj) ?_
  rw [hnext]
  exact hnote _ rfl

/-- The event that stands for a task in a part of the state. -/
theorem exists_event_of_weight {k : Gauge} {l : List (ℚ × Ev)}
    (h : 0 < tally (Ev.weight tid k) l) : ∃ x ∈ l, 0 < x.2.weight tid k := by
  by_contra hno
  have hzero : tally (Ev.weight tid k) l = 0 := tally_eq_zero fun x hx =>
    Nat.eq_zero_of_not_pos fun hpos => hno ⟨x, hx, hpos⟩
  omega

/-- A task that is finished is nowhere else. -/
theorem Inv.nowhere {N : ℕ} {log : List ℕ} (h : Inv N log s) (hfin : s.stamped tid .finish = 1)
    {k : Gauge} {x : ℚ × Ev} (hx : x ∈ s.agenda) : x.2.weight tid k = 0 := by
  obtain ⟨m, -, hl⟩ := h.census
  have placed := (hl tid).placed
  have enqueued := (hl tid).enqueued
  have hle := le_tally (Ev.weight tid k) hx
  have hq : s.stamped tid .finish ≤ s.stamped tid .startExec := h.stamped_le rfl tid
  have hs : s.stamped tid .startExec ≤ s.stamped tid .enqueued := h.stamped_le rfl tid
  have hfound : x.2.weight tid k ≤ s.found tid k := le_trans hle (Nat.le_add_left ..)
  split_ifs at placed
  · cases k <;> omega
  · omega

section Waiting

variable (hin : i ≤ n) (hfin : (reached c random n).stamped tid .finish = 1)

include hin hfin

/-- A task that is in the execution queue has been enqueued by then, and is started later. -/
theorem around_of_mem (hmem : tid ∈ ((reached c random i).stores .execQueue).items) {q b : ℚ}
    (hq : (reached c random n).metrics.stamp tid .enqueued = some q)
    (hb : (reached c random n).metrics.stamp tid .startExec = some b) :
    q ≤ (reached c random (i + 1)).now ∧ (reached c random (i + 1)).now ≤ b := by
  have hinv := inv_reached c random i
  obtain ⟨m, -, hl⟩ := hinv.census
  have placed := (hl tid).placed
  have started := (hl tid).started
  have enqueued := (hl tid).enqueued
  have hqueued : 0 < (reached c random i).found tid .queued :=
    Nat.lt_of_lt_of_le (List.count_pos_iff.2 hmem) (Nat.le_add_right ..)
  have hnow := now_le_now_succ c random i
  split_ifs at placed
  · constructor
    · obtain ⟨hnone, -⟩ | ⟨-, hle⟩ := stamp_by hin hq
      · -- its put has not been processed
        have hputting : 0 < tally (Ev.weight tid .putting) (reached c random i).agenda := by
          have : (reached c random i).stamped tid .enqueued = 0 := stamped_eq_zero_iff.2 hnone
          have hw : (reached c random i).found tid .putting =
            0 + tally (Ev.weight tid .putting) (reached c random i).agenda := rfl
          omega
        obtain ⟨x, hx, hweight⟩ := exists_event_of_weight hputting
        have hgone : x ∉ (reached c random n).agenda := fun hx' => by
          have := (inv_reached c random n).nowhere hfin (k := .putting) hx'
          omega
        obtain ⟨t, e⟩ := x
        cases e with
        | execPut lid t' rest beforePut =>
          obtain rfl : tid = t' := List.mem_singleton.1 (List.count_pos_iff.1 hweight)
          have hnote : (reached c random n).metrics.stamp tid .enqueued = some t :=
            noted hx hin hgone fun s' hs' => by simp [callbacks, Metrics.stamp_recordPut, hs']
          obtain rfl := Option.some.inj (hq.symm.trans hnote)
          exact (hinv.prompt _ hx trivial).trans hnow
        | _ => cases hweight
      · exact hle.trans hnow
    · refine stamp_since hin (stamped_eq_zero_iff.1 ?_) hb
      omega
  · omega

/-- A task that is enqueued before and started after a round is in the execution queue then. -/
theorem mem_of_between {q b : ℚ} (hq : (reached c random n).metrics.stamp tid .enqueued = some q)
    (hb : (reached c random n).metrics.stamp tid .startExec = some b)
    (hlt : q < (reached c random (i + 1)).now) (hgt : (reached c random (i + 1)).now < b) :
    tid ∈ ((reached c random i).stores .execQueue).items := by
  have hinv := inv_reached c random i
  obtain ⟨m, -, hl⟩ := hinv.census
  have placed := (hl tid).placed
  have started := (hl tid).started
  have enqueued := (hl tid).enqueued
  have hnow := now_le_now_succ c random i
  have hone : (reached c random i).stamped tid .enqueued = 1 := by
    obtain ⟨-, hge⟩ | ⟨hsome, -⟩ := stamp_by hin hq
    · exact absurd hge (not_le.2 hlt)
    · simp [stamped, hsome]
  have hzero : (reached c random i).stamped tid .startExec = 0 := by
    obtain ⟨hnone, -⟩ | ⟨-, hle⟩ := stamp_by hin hb
    · exact stamped_eq_zero_iff.2 hnone
    · exact absurd (hle.trans hnow) (not_le.2 hgt)
  have hqueued : (reached c random i).found tid .queued =
      ((reached c random i).stores .execQueue).items.count tid +
        tally (Ev.weight tid .queued) (reached c random i).agenda := rfl
  refine List.count_pos_iff.1 ?_
  by_contra hnot
  -- it has been granted to a follower
  have hgranted : 0 < tally (Ev.weight tid .queued) (reached c random i).agenda := by omega
  obtain ⟨x, hx, hweight⟩ := exists_event_of_weight hgranted
  have hgone : x ∉ (reached c random n).agenda := fun hx' => by
    have := (inv_reached c random n).nowhere hfin (k := .queued) hx'
    omega
  obtain ⟨t, e⟩ := x
  cases e with
  | followerGet fid t' =>
    obtain rfl : tid = t' := List.mem_singleton.1 (List.count_pos_iff.1 hweight)
    have hnote : (reached c random n).metrics.stamp tid .startExec = some t :=
      noted hx hin hgone fun s' hs' => by
        simp only [callbacks, afterFollowerGet]
        split_ifs <;>
          simp [Metrics.stamp_recordStartExec, Metrics.stamp_recordExecuted, hs']
    obtain rfl := Option.some.inj (hb.symm.trans hnote)
    exact absurd ((hinv.prompt _ hx trivial).trans hnow) (not_le.2 hgt)
  | _ => cases hweight

end Waiting

/-- A task that is in the arrival buffer has arrived by then, and is enqueued later. -/
theorem around_of_mem_arrival (hin : i ≤ n)
    (hmem : tid ∈ ((reached c random i).stores .arrivalBuffer).items) {a q : ℚ}
    (ha : (reached c random n).metrics.stamp tid .arrival = some a)
    (hq : (reached c random n).metrics.stamp tid .enqueued = some q) :
    a ≤ (reached c random (i + 1)).now ∧ (reached c random (i + 1)).now ≤ q := by
  obtain ⟨m, harr, hl⟩ := (inv_reached c random i).census
  have placed := (hl tid).placed
  have enqueued := (hl tid).enqueued
  have hbuffered : 0 < (reached c random i).found tid .buffered :=
    Nat.lt_of_lt_of_le (List.count_pos_iff.2 hmem) (Nat.le_add_right ..)
  split_ifs at placed with ht
  · constructor
    · obtain ⟨hnone, -⟩ | ⟨-, hle⟩ := stamp_by hin ha
      · have := (harr.arrived tid).2 ht
        rw [hnone] at this
        cases this
      · exact hle.trans (now_le_now_succ c random i)
    · refine stamp_since hin (stamped_eq_zero_iff.1 ?_) hq
      omega
  · omega

/-! ## How many tasks -/

namespace Metrics

/-- The number of tasks of which the time `k` is before `t` and the time `k'` behind it. -/
def between (m : Metrics) (N : ℕ) (k k' : Stamp) (t : ℚ) : ℕ :=
  ((Finset.range N).filter fun tid =>
    (m.stamp tid k).any (· < t) ∧ (m.stamp tid k').any (t < ·)).card

/-- The same with those of which a time is `t`. -/
def around (m : Metrics) (N : ℕ) (k k' : Stamp) (t : ℚ) : ℕ :=
  ((Finset.range N).filter fun tid =>
    (m.stamp tid k).any (· ≤ t) ∧ (m.stamp tid k').any (t ≤ ·)).card

/-- The number of tasks of which the time `k` lies between `a` and `b`. -/
def marksBetween (m : Metrics) (N : ℕ) (k : Stamp) (a b : ℚ) : ℕ :=
  ((Finset.range N).filter fun tid => (m.stamp tid k).any fun t => a < t ∧ t < b).card

/-- The same with those of which it is `a` or `b`. -/
def marksAround (m : Metrics) (N : ℕ) (k : Stamp) (a b : ℚ) : ℕ :=
  ((Finset.range N).filter fun tid => (m.stamp tid k).any fun t => a ≤ t ∧ t ≤ b).card

end Metrics

theorem any_eq_true {r : Option ℚ} {P : ℚ → Bool} : r.any P = true ↔ ∃ t, r = some t ∧ P t = true := by
  cases r <;> simp

theorem nodup_items (c : Setup G) (random : G) (i : ℕ) (q : StoreName) :
    ((reached c random i).stores q).items.Nodup ∧
      ∀ tid ∈ ((reached c random i).stores q).items, tid < c.numTasks := by
  obtain ⟨m, harr, hl⟩ := (inv_reached c random i).census
  have count_le (tid : ℕ) : ((reached c random i).stores q).items.count tid ≤
      if tid < m then 1 else 0 := by
    rw [← (hl tid).placed]
    have hb : ((reached c random i).stores .arrivalBuffer).items.count tid ≤
      (reached c random i).found tid .buffered := Nat.le_add_right ..
    have hq : ((reached c random i).stores .execQueue).items.count tid ≤
      (reached c random i).found tid .queued := Nat.le_add_right ..
    cases q <;> omega
  refine ⟨List.nodup_iff_count_le_one.2 fun tid => (count_le tid).trans (by split_ifs <;> omega),
    fun tid hmem => ?_⟩
  have hpos := List.count_pos_iff.2 hmem
  have hle := count_le tid
  split_ifs at hle with ht
  · exact Nat.lt_of_lt_of_le ht harr.le
  · omega

section Depths

variable (hin : i ≤ n) (hdone : c.numTasks ≤ (reached c random n).metrics.completedTasks)

include hin hdone

/-- The depth of the execution queue in a round, by the times of the tasks. -/
theorem execDepth_mem : (reached c random n).metrics.between c.numTasks .enqueued .startExec
      (reached c random (i + 1)).now ≤ (reached c random i).execDepth ∧
    (reached c random i).execDepth ≤ (reached c random n).metrics.around c.numTasks .enqueued
      .startExec (reached c random (i + 1)).now := by
  have hfin := finished_of_completed hdone
  obtain ⟨hnodup, hlt⟩ := nodup_items c random i .execQueue
  constructor
  · refine (Finset.card_le_card (t := ((reached c random i).stores .execQueue).items.toFinset)
      fun tid htid => ?_).trans (List.toFinset_card_le _)
    obtain ⟨ht, hbefore, hbehind⟩ := Finset.mem_filter.1 htid
    obtain ⟨q, hq, hlt⟩ := any_eq_true.1 hbefore
    obtain ⟨b, hb, hgt⟩ := any_eq_true.1 hbehind
    exact List.mem_toFinset.2 (mem_of_between hin (hfin tid (Finset.mem_range.1 ht)) hq hb
      (of_decide_eq_true hlt) (of_decide_eq_true hgt))
  · rw [execDepth, ← List.toFinset_card_of_nodup hnodup]
    refine Finset.card_le_card fun tid htid => ?_
    have hmem := List.mem_toFinset.1 htid
    obtain ⟨q, hq⟩ := stamp_of_completed hdone (hlt tid hmem) .enqueued
    obtain ⟨b, hb⟩ := stamp_of_completed hdone (hlt tid hmem) .startExec
    obtain ⟨hle, hge⟩ := around_of_mem hin (hfin tid (hlt tid hmem)) hmem hq hb
    exact Finset.mem_filter.2 ⟨Finset.mem_range.2 (hlt tid hmem),
      any_eq_true.2 ⟨q, hq, decide_eq_true hle⟩, any_eq_true.2 ⟨b, hb, decide_eq_true hge⟩⟩

/-- No more tasks are in the arrival buffer than have arrived and are not enqueued. -/
theorem arrivalDepth_le : (reached c random i).arrivalDepth ≤
    (reached c random n).metrics.around c.numTasks .arrival .enqueued
      (reached c random (i + 1)).now := by
  obtain ⟨hnodup, hlt⟩ := nodup_items c random i .arrivalBuffer
  rw [arrivalDepth, ← List.toFinset_card_of_nodup hnodup]
  refine Finset.card_le_card fun tid htid => ?_
  have hmem := List.mem_toFinset.1 htid
  obtain ⟨a, ha⟩ := stamp_of_completed hdone (hlt tid hmem) .arrival
  obtain ⟨q, hq⟩ := stamp_of_completed hdone (hlt tid hmem) .enqueued
  obtain ⟨hle, hge⟩ := around_of_mem_arrival hin hmem ha hq
  exact Finset.mem_filter.2 ⟨Finset.mem_range.2 (hlt tid hmem),
    any_eq_true.2 ⟨a, ha, decide_eq_true hle⟩, any_eq_true.2 ⟨q, hq, decide_eq_true hge⟩⟩

end Depths

/-- The tasks of which a time has been recorded. -/
def Sim.marked (N : ℕ) (s : Sim G) (k : Stamp) : Finset ℕ :=
  (Finset.range N).filter fun tid => (s.metrics.stamp tid k).isSome

theorem card_marked (N : ℕ) (s : Sim G) (k : Stamp) : (s.marked N k).card = s.stampedCount N k := by
  rw [marked, Finset.card_filter]
  refine Finset.sum_congr rfl fun tid _ => ?_
  rw [stamped]
  cases (s.metrics.stamp tid k).isSome <;> rfl

/-- How many times have been recorded from one round to another. -/
theorem stampedCount_mem (k : Stamp) {i' : ℕ} (hii : i ≤ i') (hin : i' ≤ n) :
    (reached c random n).metrics.marksBetween c.numTasks k (reached c random (i + 1)).now
        (reached c random (i' + 1)).now + (reached c random i).stampedCount c.numTasks k ≤
      (reached c random i').stampedCount c.numTasks k ∧
    (reached c random i').stampedCount c.numTasks k ≤
      (reached c random n).metrics.marksAround c.numTasks k (reached c random (i + 1)).now
        (reached c random (i' + 1)).now + (reached c random i).stampedCount c.numTasks k := by
  have hsub : (reached c random i).marked c.numTasks k ⊆ (reached c random i').marked c.numTasks k := by
    intro tid htid
    obtain ⟨ht, hsome⟩ := Finset.mem_filter.1 htid
    obtain ⟨t, hstamp⟩ := Option.isSome_iff_exists.1 hsome
    refine Finset.mem_filter.2 ⟨ht, ?_⟩
    rw [stamp_reached_of_le hii hstamp]
    rfl
  have hcard := Finset.card_sdiff_add_card_eq_card hsub
  rw [card_marked, card_marked] at hcard
  have hnow := now_le_now_succ c random i
  have hnow' := now_le_now_succ c random i'
  rw [← hcard]
  constructor
  · refine Nat.add_le_add_right (Finset.card_le_card fun tid htid => ?_) _
    obtain ⟨ht, hany⟩ := Finset.mem_filter.1 htid
    obtain ⟨t, hstamp, hbetween⟩ := any_eq_true.1 hany
    obtain ⟨hgt, hlt⟩ := of_decide_eq_true hbetween
    refine Finset.mem_sdiff.2 ⟨Finset.mem_filter.2 ⟨ht, ?_⟩, fun hmem => ?_⟩
    · obtain ⟨-, hge⟩ | ⟨hsome, -⟩ := stamp_by hin hstamp
      · exact absurd hge (not_le.2 hlt)
      · rw [hsome]
        rfl
    · obtain ⟨hnone, -⟩ | ⟨-, hle⟩ := stamp_by (hii.trans hin) hstamp
      · have := (Finset.mem_filter.1 hmem).2
        rw [hnone] at this
        cases this
      · exact absurd (hle.trans hnow) (not_le.2 hgt)
  · refine Nat.add_le_add_right (Finset.card_le_card fun tid htid => ?_) _
    obtain ⟨hmem, hnot⟩ := Finset.mem_sdiff.1 htid
    obtain ⟨ht, hsome⟩ := Finset.mem_filter.1 hmem
    obtain ⟨t, hstamp⟩ := Option.isSome_iff_exists.1 hsome
    have hnone : (reached c random i).metrics.stamp tid k = none := by
      by_contra hne
      exact hnot (Finset.mem_filter.2 ⟨ht, by simpa [Option.isSome_iff_ne_none] using hne⟩)
    have hfinal := stamp_reached_of_le hin hstamp
    have hle := (inv_reached c random i').past tid k t hstamp
    exact Finset.mem_filter.2 ⟨ht, any_eq_true.2 ⟨t, hfinal,
      decide_eq_true ⟨stamp_since (hii.trans hin) hnone hfinal, hle.trans hnow'⟩⟩⟩

/-! ## The series -/

/-- What the series of a run with `Δ` between the samples say. -/
structure SamplesAgree (N : ℕ) (Δ : ℚ) (s : Sim G) : Prop where
  exec_times : s.metrics.queueSamplesExec.map Prod.fst =
    (List.range s.metrics.queueSamplesExec.length).map fun k : ℕ => k * Δ
  arrival_times : s.metrics.queueSamplesArrival.map Prod.fst =
    s.metrics.queueSamplesExec.map Prod.fst
  rate_times : s.metrics.rateSamples.map Prod.fst =
    (List.range s.metrics.rateSamples.length).map fun k : ℕ => (k + 1) * Δ
  none_missed : s.now ≤ s.metrics.queueSamplesExec.length * Δ ∧
    s.now ≤ (s.metrics.rateSamples.length + 1) * Δ
  exec_depth : s.metrics.completedTasks = N → ∀ x ∈ s.metrics.queueSamplesExec,
    s.metrics.between N .enqueued .startExec x.1 ≤ x.2 ∧
      x.2 ≤ s.metrics.around N .enqueued .startExec x.1
  arrival_depth : s.metrics.completedTasks = N → ∀ x ∈ s.metrics.queueSamplesArrival,
    x.2 ≤ s.metrics.around N .arrival .enqueued x.1
  enq_rate : ∀ x ∈ s.metrics.rateSamples,
    s.metrics.marksBetween N .enqueued (x.1 - Δ) x.1 ≤ x.2.1 * Δ ∧
      x.2.1 * Δ ≤ s.metrics.marksAround N .enqueued (x.1 - Δ) x.1
  deq_rate : ∀ x ∈ s.metrics.rateSamples,
    s.metrics.marksBetween N .finish (x.1 - Δ) x.1 ≤ x.2.2 * Δ ∧
      x.2.2 * Δ ≤ s.metrics.marksAround N .finish (x.1 - Δ) x.1

theorem pending_ahead (h : Ordered s) {κ : Type} {sel : Ev → Option κ} {t : ℚ} {k : κ}
    (hpending : pending sel s.agenda = [(t, k)]) : s.now ≤ t := by
  obtain ⟨y, hy, -, rfl⟩ := mem_pending.1 (hpending ▸ List.mem_singleton.2 rfl)
  exact h.ahead y hy

/-- All samples of the rates, and when the next one is due. -/
theorem exists_rates (hΔ : 1 / 10 ^ 9 ≤ c.sampleInterval) (random : G) (n : ℕ) :
    ∃ (m : ℕ) (r : ℕ → ℕ), (reached c random n).now ≤ (m + 1) * c.sampleInterval ∧
      (reached c random n).metrics.rateSamples =
        (List.range m).map (fun k => rateSample c random k (r k) (r (k + 1))) ∧
      (0 < m → RateSeries c random n m r) := by
  have hordered := (inv_reached c random n).toOrdered
  obtain ⟨hnext, hnone⟩ | ⟨m, r, rates⟩ := rateSeries_reached hΔ random n
  · refine ⟨0, id, (pending_ahead hordered hnext).trans ?_, hnone, fun h => absurd h (Nat.lt_irrefl 0)⟩
    have hpos : 0 ≤ c.sampleInterval := le_trans (by norm_num) hΔ
    simpa using hpos
  · exact ⟨m, r, pending_ahead hordered rates.next, rates.samples, fun _ => rates⟩

section Series

variable {m : ℕ} {r : ℕ → ℕ}

/-- A sample of the rates counts the times that have been recorded since the one before. -/
theorem RateSeries.rate_mem (h : RateSeries c random n m r) (hpos : 0 < c.sampleInterval) {k : ℕ}
    (hk : k < m) (mark : Stamp) :
    let s := reached c random n
    let t : ℚ := (k + 1) * c.sampleInterval
    let marks := ((reached c random (r (k + 1))).stampedCount c.numTasks mark : ℚ) -
      (reached c random (r k)).stampedCount c.numTasks mark
    s.metrics.marksBetween c.numTasks mark (t - c.sampleInterval) t ≤
        marks / c.sampleInterval * c.sampleInterval ∧
      marks / c.sampleInterval * c.sampleInterval ≤
        s.metrics.marksAround c.numTasks mark (t - c.sampleInterval) t := by
  intro s t marks
  obtain ⟨-, hlast⟩ := h.taken k hk.le
  obtain ⟨hround, hnow⟩ := h.taken (k + 1) hk
  have hle : r k ≤ r (k + 1) := by
    by_contra hgt
    have := now_le_now c random (i := r (k + 1) + 1) (n := r k + 1) (by omega)
    rw [hlast, hnow, Nat.cast_add, Nat.cast_one] at this
    linarith
  have ht : t - c.sampleInterval = (reached c random (r k + 1)).now := by
    rw [hlast]
    simp only [t]
    ring
  have ht' : t = (reached c random (r (k + 1) + 1)).now := by
    rw [hnow]
    simp only [t, Nat.cast_add, Nat.cast_one]
  obtain ⟨hbetween, haround⟩ := stampedCount_mem (n := n) mark hle hround.le
  rw [← ht, ← ht'] at hbetween haround
  rw [div_mul_cancel₀ _ hpos.ne']
  simp only [marks]
  constructor
  · rw [le_sub_iff_add_le]
    exact_mod_cast hbetween
  · rw [sub_le_iff_le_add]
    exact_mod_cast haround

end Series

/-- **The reported series agree with the tasks.**  At every point of a run with an interval of
at least `1e-9`, samples have been taken at all multiples of the interval, no rate counts a
task that was not enqueued or finished in its interval, and none that was is left out.  When
all tasks are done, no sampled depth counts a task that did not wait at that time, and none
that waited for a follower is left out. -/
theorem samples_agree (c : Setup G) (random : G) (hΔ : 1 / 10 ^ 9 ≤ c.sampleInterval) (n : ℕ) :
    SamplesAgree c.numTasks c.sampleInterval (reached c random n) := by
  have hpos : 0 < c.sampleInterval := lt_of_lt_of_le (by norm_num) hΔ
  have hinv := inv_reached c random n
  obtain ⟨m, r, depths⟩ := depthSeries_reached hpos.le random n
  have hexec : (reached c random n).metrics.queueSamplesExec.length = m := by simp [depths.exec]
  have done (h : (reached c random n).metrics.completedTasks = c.numTasks) : c.numTasks ≤
    (reached c random n).metrics.completedTasks := h.ge
  -- a sample and the round in which it was taken
  have enq (i : ℕ) : (reached c random i).metrics.totalEnqueued =
    (reached c random i).stampedCount c.numTasks .enqueued := (inv_reached c random i).enqueued
  have deq (i : ℕ) : (reached c random i).metrics.totalDequeued =
      (reached c random i).stampedCount c.numTasks .finish :=
    (inv_reached c random i).dequeued.trans (inv_reached c random i).completed
  obtain ⟨j, r', hj, hrate, hsamples⟩ := exists_rates hΔ random n
  have hrates : (reached c random n).metrics.rateSamples.length = j := by simp [hrate]
  refine ⟨?_, ?_, ?_, ⟨?_, ?_⟩, fun hdone x hx => ?_, fun hdone x hx => ?_, fun x hx => ?_,
    fun x hx => ?_⟩
  · rw [hexec, depths.exec, List.map_map]
    rfl
  · rw [depths.exec, depths.arrival, List.map_map, List.map_map]
    rfl
  · rw [hrates, hrate, List.map_map]
    rfl
  · rw [hexec]
    exact pending_ahead hinv.toOrdered depths.next
  · rw [hrates]
    exact hj
  · rw [depths.exec] at hx
    obtain ⟨k, hk, rfl⟩ := List.mem_map.1 hx
    obtain ⟨hround, hnow⟩ := depths.taken k (List.mem_range.1 hk)
    have := execDepth_mem hround.le (done hdone)
    rwa [hnow] at this
  · rw [depths.arrival] at hx
    obtain ⟨k, hk, rfl⟩ := List.mem_map.1 hx
    obtain ⟨hround, hnow⟩ := depths.taken k (List.mem_range.1 hk)
    have := arrivalDepth_le hround.le (done hdone)
    rwa [hnow] at this
  · rw [hrate] at hx
    obtain ⟨k, hk, rfl⟩ := List.mem_map.1 hx
    have hk := List.mem_range.1 hk
    have := (hsamples (by omega)).rate_mem hpos hk .enqueued
    simp only [rateSample, enq]
    exact this
  · rw [hrate] at hx
    obtain ⟨k, hk, rfl⟩ := List.mem_map.1 hx
    have hk := List.mem_range.1 hk
    have := (hsamples (by omega)).rate_mem hpos hk .finish
    simp only [rateSample, deq]
    exact this

theorem samples_agree_twoBatches : SamplesAgree 3 5 (reached twoBatches () 60) :=
  samples_agree twoBatches () (by decide +kernel) 60

end TaskQueueCoSim.Behavioral
