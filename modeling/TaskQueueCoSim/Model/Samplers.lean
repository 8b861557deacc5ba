import TaskQueueCoSim.Model.LittlesLaw

/-!
# The series that a run reports (model/behavioral.py)

`depth_sampler` and `rate_sampler` take a sample in every interval.

* `callbacks_work`: nobody else touches the series, nor waits for the samplers' events;
* `depthSeries_reached`, `rateSeries_reached`: in which rounds the samples are taken;
* `samples_agree`: what they say about the times of the tasks.
-/

namespace TaskQueueCoSim.Behavioral

open Agenda Sim

variable {G : Type} {c : Setup G} {s : Sim G} {e : Ev}

/-! ## The other processes -/

/-- The events of the samplers. -/
def Ev.sampler : Ev → Bool
  | .depthInit => true
  | .depthTimeout => true
  | .rateInit => true
  | .rateTimeout _ _ _ => true
  | .samplerFailed => true
  | _ => false

def Metrics.series (m : Metrics) : List (ℚ × ℕ) × List (ℚ × ℕ) × List (ℚ × ℚ × ℚ) :=
  (m.queueSamplesExec, m.queueSamplesArrival, m.rateSamples)

/-- A property that the other processes keep: no store, no draw, no event of theirs and no
record of theirs breaks it. -/
theorem callbacks_work (he : e.sampler = false) {I : Sim G → Prop}
    (setStore : ∀ (s' : Sim G) q items getQueue, I s' → I (s'.setStore q items getQueue))
    (setRandom : ∀ (s' : Sim G) random, I s' → I (s'.setRandom random))
    (record : ∀ (s' : Sim G) f, (∀ m, Metrics.series (f m) = m.series) → I s' → I (s'.record f))
    (schedule : ∀ (s' : Sim G) d e', e'.sampler = false → I s' → I (s'.schedule d e'))
    (h : I s) : I (callbacks c e s) := by
  have trigger : ∀ (s' : Sim G) q, I s' → I (s'.triggerGet q) := by
    intro s' q h
    obtain ⟨hs, -⟩ | ⟨t, items, pid, getQueue, -, hs⟩ := s'.triggerGet_cases q
    · rwa [hs]
    · rw [hs]
      exact schedule _ _ _ (by cases q <;> rfl) (setStore _ _ _ _ h)
  have get : ∀ (s' : Sim G) q pid, I s' → I (s'.get q pid) := fun s' q pid h =>
    trigger _ _ (setStore _ _ _ _ h)
  have arrive : ∀ (s' : Sim G) i, I s' → I (arrivalLoop c i s') := by
    intro s' i h
    unfold arrivalLoop
    split_ifs
    · exact schedule _ _ _ rfl (setStore _ _ _ _ (record _ _ (fun _ => rfl) h))
    · exact schedule _ _ _ rfl h
  have enqueue : ∀ (s' : Sim G) lid batch, I s' → I (enqueueLoop lid batch s') := by
    intro s' lid batch h
    cases batch with
    | nil => exact get _ _ _ h
    | cons t rest => exact schedule _ _ _ rfl (setStore _ _ _ _ h)
  have executed : ∀ (s' : Sim G) fid tid start, I s' → I (afterExecution fid tid start s') :=
    fun s' fid tid start h => get _ _ _ (record _ _ (fun _ => rfl) h)
  cases e with
  | arrivalInit | arrivalTimeout => exact arrive _ _ h
  | leaderInit | followerInit => exact get _ _ _ h
  | depthInit | depthTimeout | rateInit | rateTimeout | samplerFailed => cases he
  | arrivalPut i =>
    simp only [callbacks, afterArrivalPut]
    split_ifs
    · exact schedule _ _ _ rfl (setRandom _ _ (trigger _ _ h))
    · exact arrive _ _ (setRandom _ _ (trigger _ _ h))
  | arrivalEnd => exact h
  | leaderGet lid tid =>
    simp only [callbacks, afterLeaderGet]
    split_ifs
    · exact schedule _ _ _ rfl (setStore _ _ _ _ (setRandom _ _ h))
    · exact enqueue _ _ _ (record _ _ (fun _ => rfl) (setStore _ _ _ _ (setRandom _ _ h)))
  | leaderTimeout lid batch start => exact enqueue _ _ _ (record _ _ (fun _ => rfl) h)
  | execPut lid t rest beforePut =>
    refine enqueue _ _ _ (record _ _ (fun m => ?_) (trigger _ _ h))
    dsimp only [Metrics.recordPut]
    split_ifs <;> rfl
  | followerGet fid tid =>
    simp only [callbacks, afterFollowerGet]
    split_ifs
    · exact schedule _ _ _ rfl (setRandom _ _ (record _ _ (fun _ => rfl) h))
    · exact executed _ _ _ _ (setRandom _ _ (record _ _ (fun _ => rfl) h))
  | followerTimeout fid tid start => exact executed _ _ _ _ h

/-- The samplers' events and the series are left alone by the others. -/
theorem pending_callbacks_work {κ : Type} {sel : Ev → Option κ}
    (hsel : ∀ e, e.sampler = false → sel e = none) (he : e.sampler = false) :
    pending sel (callbacks c e s).agenda = pending sel s.agenda ∧
      (callbacks c e s).metrics.series = s.metrics.series :=
  callbacks_work he
    (I := fun s' => pending sel s'.agenda = pending sel s.agenda ∧
      s'.metrics.series = s.metrics.series)
    (fun _ _ _ _ h => h) (fun _ _ h => h) (fun _ _ hf h => ⟨h.1, (hf _).trans h.2⟩)
    (fun _ _ _ he' h => ⟨(pending_schedule_none sel (hsel _ he') _ _).trans h.1, h.2⟩) ⟨rfl, rfl⟩

/-! ## The samples of the depths -/

def Ev.depth : Ev → Option Unit
  | .depthInit => some ()
  | .depthTimeout => some ()
  | _ => none

/-- `len(arrival_buffer.items)` -/
def Sim.arrivalDepth (s : Sim G) : ℕ := (s.stores .arrivalBuffer).items.length

/-- After `n` rounds `m` samples have been taken, the `k`-th of them in the round `r k`. -/
structure DepthSeries (c : Setup G) (random : G) (n m : ℕ) (r : ℕ → ℕ) : Prop where
  next : pending Ev.depth (reached c random n).agenda = [(m * c.sampleInterval, ())]
  exec : (reached c random n).metrics.queueSamplesExec =
    (List.range m).map fun k : ℕ => (k * c.sampleInterval, (reached c random (r k)).execDepth)
  arrival : (reached c random n).metrics.queueSamplesArrival =
    (List.range m).map fun k : ℕ => (k * c.sampleInterval, (reached c random (r k)).arrivalDepth)
  taken : ∀ k < m, r k < n ∧ (reached c random (r k + 1)).now = k * c.sampleInterval

theorem depth_eq_none (he : e.sampler = false) : e.depth = none := by
  cases e <;> first | rfl | cases he

theorem map_range_update {β : Type} (f : ℕ → ℕ → β) (r : ℕ → ℕ) (m n : ℕ) :
    (List.range (m + 1)).map (fun k => f k (Function.update r m n k)) =
      (List.range m).map (fun k => f k (r k)) ++ [f m n] := by
  rw [List.range_succ, List.map_append, List.map_singleton, Function.update_self]
  congr 1
  refine List.map_congr_left fun k hk => ?_
  rw [Function.update_of_ne (Nat.ne_of_lt (List.mem_range.1 hk))]

/-- The depth sampler takes a sample. -/
theorem DepthSeries.sample {random : G} {n m : ℕ} {r : ℕ → ℕ} (h : DepthSeries c random n m r)
    (hpos : 0 ≤ c.sampleInterval) {t : ℚ} {rest : List (ℚ × Ev)} (hdepth : e.depth = some ())
    (hagenda : (reached c random n).agenda = (t, e) :: rest) (hnext : reached c random (n + 1) =
      callbacks c e { reached c random n with now := t, agenda := rest }) :
    DepthSeries c random (n + 1) (m + 1) (Function.update r m n) := by
  have hdue := h.next
  rw [hagenda, pending_cons_some hdepth, List.cons.injEq, Prod.mk.injEq] at hdue
  obtain ⟨⟨ht, -⟩, hrest⟩ := hdue
  replace ht : t = m * c.sampleInterval := ht
  have hsorted : Sorted rest := by
    have := (inv_reached c random n).toOrdered.sorted
    rw [hagenda] at this
    exact (List.pairwise_cons.1 this).2
  have hstep : reached c random (n + 1) =
      depthLoop c { reached c random n with now := t, agenda := rest } := by
    rw [hnext]
    cases e <;> first | rfl | cases hdepth
  have hagain : (reached c random (n + 1)).agenda =
      Agenda.schedule (t + c.sampleInterval) .depthTimeout rest := by
    rw [hstep, depthLoop, sampleTimeout, if_neg (not_lt.2 hpos)]
    rfl
  refine ⟨?_, ?_, ?_, fun k hk => ?_⟩
  · rw [hagain, pending_schedule_some Ev.depth rfl hsorted (by simp [hrest]), hrest, ht]
    simp [add_mul]
  · rw [map_range_update fun k i => (k * c.sampleInterval, (reached c random i).execDepth), ← h.exec,
      hstep, depthLoop, sampleTimeout_metrics, ← ht]
    rfl
  · rw [map_range_update fun k i => (k * c.sampleInterval, (reached c random i).arrivalDepth),
      ← h.arrival, hstep, depthLoop, sampleTimeout_metrics, ← ht]
    rfl
  · obtain hk | rfl := Nat.lt_succ_iff_lt_or_eq.1 hk
    · rw [Function.update_of_ne (Nat.ne_of_lt hk)]
      exact ⟨Nat.lt_succ_of_lt (h.taken k hk).1, (h.taken k hk).2⟩
    · rw [Function.update_self, hnext, callbacks_now]
      exact ⟨Nat.lt_succ_self n, ht⟩

/-- The rate sampler does not touch the samples of the depths. -/
theorem depth_of_rate (hs : e.sampler = true) (hdepth : e.depth = none) :
    pending Ev.depth (callbacks c e s).agenda = pending Ev.depth s.agenda ∧
      (callbacks c e s).metrics.queueSamplesExec = s.metrics.queueSamplesExec ∧
      (callbacks c e s).metrics.queueSamplesArrival = s.metrics.queueSamplesArrival := by
  have timeout : ∀ (s' : Sim G) lastT lastEnq lastDeq,
      pending Ev.depth (sampleTimeout c (.rateTimeout lastT lastEnq lastDeq) s').agenda =
        pending Ev.depth s'.agenda := by
    intro s' lastT lastEnq lastDeq
    unfold sampleTimeout
    split_ifs <;> exact pending_schedule_none Ev.depth rfl _ _
  cases e with
  | rateInit => exact ⟨timeout _ _ _ _, by simp [callbacks, rateLoop], by simp [callbacks, rateLoop]⟩
  | rateTimeout lastT lastEnq lastDeq =>
    refine ⟨timeout _ _ _ _, ?_, ?_⟩ <;>
      simp [callbacks, afterRateTimeout, rateLoop, Metrics.sampleRates]
  | samplerFailed => exact ⟨rfl, rfl, rfl⟩
  | depthInit | depthTimeout => cases hdepth
  | _ => cases hs

theorem depthSeries_reached (hpos : 0 ≤ c.sampleInterval) (random : G) (n : ℕ) :
    ∃ m r, DepthSeries c random n m r := by
  induction n with
  | zero =>
    refine ⟨0, id, ?_, rfl, rfl, fun k hk => absurd hk (Nat.not_lt_zero k)⟩
    show pending Ev.depth (start c random).agenda = _
    simp [pending, start, List.filterMap_append, List.filterMap_map, Function.comp_def, Ev.depth]
  | succ n ih =>
    obtain ⟨m, r, h⟩ := ih
    have later : ∀ k < m, r k < n + 1 ∧ (reached c random (r k + 1)).now = k * c.sampleInterval :=
      fun k hk => ⟨Nat.lt_succ_of_lt (h.taken k hk).1, (h.taken k hk).2⟩
    obtain hsame | ⟨t, e, rest, hagenda, hnext⟩ := reached_succ_cases c random n
    · exact ⟨m, r, hsame ▸ h.next, hsame ▸ h.exec, hsame ▸ h.arrival, later⟩
    · cases hdepth : e.depth with
      | some u => exact ⟨m + 1, _, h.sample hpos hdepth hagenda hnext⟩
      | none =>
        have hdue := h.next
        rw [hagenda, pending_cons_none hdepth] at hdue
        cases hs : e.sampler with
        | true =>
          obtain ⟨hpending, hexec, harrival⟩ := depth_of_rate (c := c)
            (s := { reached c random n with now := t, agenda := rest }) hs hdepth
          rw [← hnext] at hpending hexec harrival
          exact ⟨m, r, hpending.trans hdue, hexec.trans h.exec, harrival.trans h.arrival, later⟩
        | false =>
          obtain ⟨hpending, hseries⟩ := pending_callbacks_work (c := c) (fun _ => depth_eq_none)
            (s := { reached c random n with now := t, agenda := rest }) hs
          rw [← hnext] at hpending hseries
          obtain ⟨hexec, harrival, -⟩ := Prod.mk.inj hseries |>.imp_right Prod.mk.inj
          exact ⟨m, r, hpending.trans hdue, hexec.trans h.exec, harrival.trans h.arrival, later⟩

/-! ## The samples of the rates -/

def Ev.rate : Ev → Option Ev
  | .rateInit => some .rateInit
  | .rateTimeout lastT lastEnq lastDeq => some (.rateTimeout lastT lastEnq lastDeq)
  | _ => none

/-- The sample that is taken in the round `i` after one in the round `i'`. -/
def rateSample (c : Setup G) (random : G) (k i' i : ℕ) : ℚ × ℚ × ℚ :=
  ((k + 1) * c.sampleInterval,
    ((reached c random i).metrics.totalEnqueued - (reached c random i').metrics.totalEnqueued) /
      c.sampleInterval,
    ((reached c random i).metrics.totalDequeued - (reached c random i').metrics.totalDequeued) /
      c.sampleInterval)

/-- After `n` rounds `m` samples have been taken, the `k`-th of them in the round `r (k + 1)`. -/
structure RateSeries (c : Setup G) (random : G) (n m : ℕ) (r : ℕ → ℕ) : Prop where
  next : pending Ev.rate (reached c random n).agenda = [((m + 1) * c.sampleInterval,
    .rateTimeout (m * c.sampleInterval) (reached c random (r m)).metrics.totalEnqueued
      (reached c random (r m)).metrics.totalDequeued)]
  samples : (reached c random n).metrics.rateSamples =
    (List.range m).map fun k => rateSample c random k (r k) (r (k + 1))
  taken : ∀ k ≤ m, r k < n ∧ (reached c random (r k + 1)).now = k * c.sampleInterval

/-- The rate sampler has not begun. -/
def BeforeRates (c : Setup G) (random : G) (n : ℕ) : Prop :=
  pending Ev.rate (reached c random n).agenda = [(0, .rateInit)] ∧
    (reached c random n).metrics.rateSamples = []

theorem rate_eq_none (he : e.sampler = false) : e.rate = none := by
  cases e <;> first | rfl | cases he

/-- The depth sampler does not touch the samples of the rates. -/
theorem rate_of_depth (hs : e.sampler = true) (hrate : e.rate = none) :
    pending Ev.rate (callbacks c e s).agenda = pending Ev.rate s.agenda ∧
      (callbacks c e s).metrics.rateSamples = s.metrics.rateSamples := by
  have timeout : ∀ s' : Sim G,
      pending Ev.rate (sampleTimeout c .depthTimeout s').agenda = pending Ev.rate s'.agenda := by
    intro s'
    unfold sampleTimeout
    split_ifs <;> exact pending_schedule_none Ev.rate rfl _ _
  cases e with
  | depthInit | depthTimeout =>
    exact ⟨timeout _, by simp [callbacks, depthLoop, Metrics.sampleExec, Metrics.sampleArrival]⟩
  | samplerFailed => exact ⟨rfl, rfl⟩
  | rateInit | rateTimeout => cases hrate
  | _ => cases hs

section RateStep

variable {random : G} {n m : ℕ} {r : ℕ → ℕ} {t : ℚ} {rest : List (ℚ × Ev)}

/-- What the rate sampler waits for next. -/
theorem pending_rateLoop (hpos : 0 ≤ c.sampleInterval) (hsorted : Sorted s.agenda)
    (hrest : pending Ev.rate s.agenda = []) :
    pending Ev.rate (rateLoop c s).agenda = [(s.now + c.sampleInterval,
      .rateTimeout s.now s.metrics.totalEnqueued s.metrics.totalDequeued)] := by
  rw [rateLoop, sampleTimeout, if_neg (not_lt.2 hpos), schedule_agenda,
    pending_schedule_some Ev.rate rfl hsorted (by simp [hrest]), hrest, List.nil_append]

theorem sorted_rest (hagenda : (reached c random n).agenda = (t, e) :: rest) : Sorted rest := by
  have := (inv_reached c random n).toOrdered.sorted
  rw [hagenda] at this
  exact (List.pairwise_cons.1 this).2

/-- The rate sampler begins. -/
theorem BeforeRates.begin (h : BeforeRates c random n) (hpos : 0 ≤ c.sampleInterval) {e' : Ev}
    (hrate : e.rate = some e') (hagenda : (reached c random n).agenda = (t, e) :: rest)
    (hnext : reached c random (n + 1) =
      callbacks c e { reached c random n with now := t, agenda := rest }) :
    RateSeries c random (n + 1) 0 fun _ => n := by
  obtain ⟨hdue, hnone⟩ := h
  rw [hagenda, pending_cons_some hrate, List.cons.injEq, Prod.mk.injEq] at hdue
  obtain ⟨⟨ht, rfl⟩, hrest⟩ := hdue
  replace ht : t = 0 := ht
  obtain rfl : e = .rateInit := by
    cases e <;> first | rfl | cases hrate
  refine ⟨?_, ?_, fun k hk => ⟨Nat.lt_succ_self n, ?_⟩⟩
  · rw [hnext]
    refine (pending_rateLoop (s := { reached c random n with now := t, agenda := rest }) hpos
      (sorted_rest hagenda) hrest).trans ?_
    simp [ht]
  · rw [hnext]
    exact (congrArg Metrics.rateSamples (sampleTimeout_metrics ..)).trans hnone
  · obtain rfl := Nat.le_zero.1 hk
    rw [hnext, callbacks_now]
    simpa using ht

/-- The rate sampler takes a sample. -/
theorem RateSeries.sample (h : RateSeries c random n m r) (hpos : 1 / 10 ^ 9 ≤ c.sampleInterval)
    {e' : Ev} (hrate : e.rate = some e') (hagenda : (reached c random n).agenda = (t, e) :: rest)
    (hnext : reached c random (n + 1) =
      callbacks c e { reached c random n with now := t, agenda := rest }) :
    RateSeries c random (n + 1) (m + 1) (Function.update r (m + 1) n) := by
  have hdue := h.next
  rw [hagenda, pending_cons_some hrate, List.cons.injEq, Prod.mk.injEq] at hdue
  obtain ⟨⟨ht, rfl⟩, hrest⟩ := hdue
  replace ht : t = (m + 1) * c.sampleInterval := ht
  obtain rfl : e = .rateTimeout (m * c.sampleInterval)
      (reached c random (r m)).metrics.totalEnqueued
      (reached c random (r m)).metrics.totalDequeued := by
    cases e <;> first | exact Option.some.inj hrate | cases hrate
  have hnonneg : 0 ≤ c.sampleInterval := le_trans (by norm_num) hpos
  have hdt : max (1 / 10 ^ 9) ((m + 1) * c.sampleInterval - m * c.sampleInterval) =
      c.sampleInterval := by
    rw [add_mul, one_mul, add_sub_cancel_left]
    exact max_eq_right hpos
  have hm : r m = Function.update r (m + 1) n m := (Function.update_of_ne (by omega) ..).symm
  refine ⟨?_, ?_, fun k hk => ?_⟩
  · rw [hnext]
    refine (pending_rateLoop (s := Sim.record _ { reached c random n with now := t, agenda := rest })
      hnonneg (sorted_rest hagenda) hrest).trans ?_
    rw [Function.update_self]
    simp only [record_now, record_metrics, Metrics.sampleRates, ht, Nat.cast_add, Nat.cast_one,
      add_mul, one_mul]
  · have hmap : ∀ k ∈ List.range m, rateSample c random k (r k) (r (k + 1)) =
        rateSample c random k (Function.update r (m + 1) n k)
          (Function.update r (m + 1) n (k + 1)) := by
      intro k hk
      have := List.mem_range.1 hk
      rw [Function.update_of_ne (by omega), Function.update_of_ne (by omega)]
    rw [List.range_succ, List.map_append, List.map_singleton, ← List.map_congr_left hmap, ← h.samples,
      Function.update_self, ← hm, hnext]
    refine (congrArg Metrics.rateSamples (sampleTimeout_metrics ..)).trans ?_
    simp only [record_metrics, Metrics.sampleRates, rateSample, ht, hdt]
  · obtain hk | rfl := Nat.le_or_eq_of_le_succ hk
    · rw [Function.update_of_ne (by omega)]
      exact ⟨Nat.lt_succ_of_lt (h.taken k hk).1, (h.taken k hk).2⟩
    · rw [Function.update_self, hnext, callbacks_now]
      exact ⟨Nat.lt_succ_self n, by simpa using ht⟩

end RateStep

theorem rateSeries_reached (hpos : 1 / 10 ^ 9 ≤ c.sampleInterval) (random : G) (n : ℕ) :
    BeforeRates c random n ∨ ∃ m r, RateSeries c random n m r := by
  have hnonneg : 0 ≤ c.sampleInterval := le_trans (by norm_num) hpos
  induction n with
  | zero =>
    refine .inl ⟨?_, rfl⟩
    show pending Ev.rate (start c random).agenda = _
    simp [pending, start, List.filterMap_append, List.filterMap_map, Function.comp_def, Ev.rate]
  | succ n ih =>
    have later {m : ℕ} {r : ℕ → ℕ} (h : RateSeries c random n m r) :
        ∀ k ≤ m, r k < n + 1 ∧ (reached c random (r k + 1)).now = k * c.sampleInterval :=
      fun k hk => ⟨Nat.lt_succ_of_lt (h.taken k hk).1, (h.taken k hk).2⟩
    obtain hsame | ⟨t, e, rest, hagenda, hnext⟩ := reached_succ_cases c random n
    · refine ih.imp (fun h => ⟨hsame ▸ h.1, hsame ▸ h.2⟩) ?_
      rintro ⟨m, r, h⟩
      exact ⟨m, r, hsame ▸ h.next, hsame ▸ h.samples, later h⟩
    · cases hrate : e.rate with
      | some e' =>
        obtain h | ⟨m, r, h⟩ := ih
        · exact .inr ⟨0, _, h.begin hnonneg hrate hagenda hnext⟩
        · exact .inr ⟨m + 1, _, h.sample hpos hrate hagenda hnext⟩
      | none =>
        -- another process does not touch what the sampler waits for
        have kept : pending Ev.rate (reached c random (n + 1)).agenda =
              pending Ev.rate (reached c random n).agenda ∧
            (reached c random (n + 1)).metrics.rateSamples =
              (reached c random n).metrics.rateSamples := by
          rw [hagenda, pending_cons_none hrate, hnext]
          cases hs : e.sampler with
          | true => exact rate_of_depth hs hrate
          | false =>
            obtain ⟨hpending, hseries⟩ := pending_callbacks_work (c := c) (fun _ => rate_eq_none)
              (s := { reached c random n with now := t, agenda := rest }) hs
            exact ⟨hpending, (Prod.mk.inj (Prod.mk.inj hseries).2).2⟩
        refine ih.imp (fun h => ⟨kept.1.trans h.1, kept.2.trans h.2⟩) ?_
        rintro ⟨m, r, h⟩
        exact ⟨m, r, kept.1.trans h.next, kept.2.trans h.samples, later h⟩

end TaskQueueCoSim.Behavioral
