import TaskQueueCoSim.Model.FasterDispatch
import TaskQueueCoSim.Model.WorkConserving

/-!
# The rates that run_sim prints (model/behavioral.py)

`run_sim` prints how many tasks the followers can execute and the leaders can
dispatch in a unit of time.  No run is faster (`throughput_le_rates`): what the
leaders have put comes from batches whose dispatch has elapsed (`Dispatches`),
and each process has been busy for no longer than the time that has passed.
-/

namespace TaskQueueCoSim.Behavioral

open Agenda Sim

variable {G : Type} {c : Setup G} {s : Sim G} {e : Ev}

/-! ## What the leaders put -/

/-- How many tasks of a batch are put until the batch is done. -/
def Ev.toPut : Ev → ℕ
  | .execPut _ _ rest _ => rest.length + 1
  | _ => 0

def Sim.toPut (s : Sim G) : ℕ := tally Ev.toPut s.agenda

section ToPut

variable (s e) (q : StoreName)

theorem toPut_gotten (pid tid : ℕ) : (q.gotten pid tid).toPut = 0 := by cases q <;> rfl

@[simp] theorem toPut_record (f : Metrics → Metrics) : (s.record f).toPut = s.toPut := rfl

@[simp] theorem toPut_setRandom (random : G) : (s.setRandom random).toPut = s.toPut := rfl

@[simp] theorem toPut_setStore (items getQueue : List ℕ) :
    (s.setStore q items getQueue).toPut = s.toPut := rfl

@[simp] theorem toPut_hold : (s.hold e).toPut = e.toPut + s.toPut := tally_cons ..

@[simp] theorem toPut_schedule (d : ℚ) : (s.schedule d e).toPut = e.toPut + s.toPut :=
  tally_schedule ..

@[simp] theorem toPut_triggerGet : (s.triggerGet q).toPut = s.toPut := by
  obtain ⟨h, -⟩ | ⟨t, items, pid, getQueue, -, h⟩ := s.triggerGet_cases q
  · rw [h]
  · rw [h, toPut_schedule, toPut_gotten, Nat.zero_add, toPut_setStore]

@[simp] theorem toPut_get (pid : ℕ) : (s.get q pid).toPut = s.toPut := by
  rw [Sim.get, toPut_triggerGet, toPut_setStore]

@[simp] theorem toPut_put (tid : ℕ) : (s.put q tid e).toPut = e.toPut + s.toPut := by
  rw [put, toPut_schedule, toPut_setStore]

@[simp] theorem toPut_enqueueLoop (lid : ℕ) (batch : List ℕ) :
    (enqueueLoop lid batch s).toPut = batch.length + s.toPut := by
  cases batch <;> simp [enqueueLoop, Ev.toPut]

@[simp] theorem toPut_arrivalLoop (i : ℕ) : (arrivalLoop c i s).toPut = s.toPut := by
  unfold arrivalLoop
  split_ifs <;> simp [Ev.toPut]

theorem toPut_sampleTimeout (he : e.toPut = 0) : (sampleTimeout c e s).toPut = s.toPut := by
  unfold sampleTimeout
  split_ifs
  · simp [Ev.toPut]
  · simp [he]

end ToPut

/-- The batch whose dispatch elapses with an event, if a dispatch takes `d`. -/
def Sim.elapsing (c : Setup G) (d : ℚ) (s : Sim G) : Ev → List ℕ
  | .leaderGet _ tid =>
    if d ≤ 0 then (fillBatch c.batchEnqueue [tid] (s.stores .arrivalBuffer).items).1 else []
  | .leaderTimeout _ batch _ => batch
  | _ => []

/-- The tasks that have been put and those that are being put come from the batches. -/
theorem totalEnqueued_callbacks {d : ℚ} (hdraw : (c.dispatchTime s.random).1 = d) :
    (callbacks c e s).metrics.totalEnqueued + (callbacks c e s).toPut =
      s.metrics.totalEnqueued + e.toPut + s.toPut + (s.elapsing c d e).length := by
  cases e with
  | arrivalInit | arrivalTimeout =>
    simp only [callbacks, arrivalLoop_metrics, toPut_arrivalLoop, Ev.toPut, Sim.elapsing]
    split_ifs <;> simp [Metrics.recordArrival]
  | arrivalPut i =>
    simp only [callbacks, afterArrivalPut, Ev.toPut, Sim.elapsing]
    split_ifs
    · simp [Ev.toPut]
    · rw [arrivalLoop_metrics]
      split_ifs <;> simp [Metrics.recordArrival]
  | leaderInit | followerInit | arrivalEnd | samplerFailed =>
    simp [callbacks, Ev.toPut, Sim.elapsing]
  | depthInit | depthTimeout =>
    simp only [callbacks, depthLoop, sampleTimeout_metrics]
    rw [toPut_sampleTimeout _ _ rfl]
    rfl
  | rateInit | rateTimeout =>
    simp only [callbacks, rateLoop, afterRateTimeout, sampleTimeout_metrics]
    rw [toPut_sampleTimeout _ _ rfl]
    rfl
  | leaderGet lid tid =>
    simp only [callbacks, afterLeaderGet, hdraw, Ev.toPut, Sim.elapsing]
    split_ifs with hpos hle
    · exact absurd hpos (not_lt.2 hle)
    · simp [Ev.toPut]
    · simp only [afterDispatch, enqueueLoop_metrics, record_metrics, setStore_metrics,
        setRandom_metrics, toPut_enqueueLoop, toPut_record, toPut_setStore, toPut_setRandom,
        Metrics.addLeaderBusy]
      omega
    · exact absurd (not_lt.1 hpos) (by assumption)
  | leaderTimeout lid batch start =>
    simp [callbacks, afterDispatch, Metrics.addLeaderBusy, Ev.toPut, Sim.elapsing, Nat.add_comm,
      Nat.add_left_comm]
  | execPut lid t rest beforePut =>
    simp only [callbacks, afterExecPut, enqueueLoop_metrics, record_metrics,
      Metrics.recordPut_totalEnqueued, triggerGet_metrics, toPut_enqueueLoop, toPut_record,
      toPut_triggerGet, Ev.toPut, Sim.elapsing, List.length_nil]
    omega
  | followerGet fid tid =>
    simp only [callbacks, afterFollowerGet, Ev.toPut, Sim.elapsing]
    split_ifs <;>
      simp [Ev.toPut, afterExecution, Metrics.recordStartExec, Metrics.recordExecuted,
        Metrics.recordFinish, Metrics.addFollowerBusy]
  | followerTimeout fid tid start =>
    simp [callbacks, afterExecution, Ev.toPut, Sim.elapsing, Metrics.recordExecuted,
      Metrics.recordFinish, Metrics.addFollowerBusy]

theorem fillBatch_length_le {b : ℕ} {batchEnqueue : ℤ} (hb : batchEnqueue ≤ b) (items : List ℕ) :
    ∀ batch : List ℕ, batch.length ≤ b → (fillBatch batchEnqueue batch items).1.length ≤ b := by
  induction items with
  | nil => exact fun _ h => h
  | cons t items ih =>
    intro batch h
    unfold fillBatch
    split_ifs with hlt
    · refine ih _ ?_
      rw [List.length_append, List.length_singleton]
      omega
    · exact h

/-- At most `b` tasks have been put for each batch whose dispatch has elapsed. -/
structure Dispatches (b : ℕ) (log : List ℕ) (s : Sim G) : Prop where
  put : s.metrics.totalEnqueued + s.toPut ≤ b * log.length
  batch : ∀ x ∈ s.agenda, ∀ lid batch start, x.2 = .leaderTimeout lid batch start →
    batch.length ≤ b

namespace Dispatches

variable {b : ℕ} {d : ℚ} {log : List ℕ}

theorem length_elapsing (h : Dispatches b log (s.hold e)) (hb : c.batchEnqueue ≤ b) (hpos : 1 ≤ b) :
    (s.elapsing c d e).length ≤ b * (e.elapses d).toList.length := by
  cases e with
  | leaderGet lid tid =>
    unfold Sim.elapsing Ev.elapses
    split_ifs
    · simpa using fillBatch_length_le hb _ [tid] hpos
    · simp
  | leaderTimeout lid batch start =>
    simpa [Sim.elapsing, Ev.elapses] using h.batch _ (List.mem_cons_self ..) lid batch start rfl
  | _ => simp [Sim.elapsing]

theorem callbacks (h : Dispatches b log (s.hold e)) (hb : c.batchEnqueue ≤ b) (hpos : 1 ≤ b)
    (hdraw : (c.dispatchTime s.random).1 = d) :
    Dispatches b (log ++ (e.elapses d).toList) (callbacks c e s) := by
  refine ⟨?_, fun x hx lid batch start hev => ?_⟩
  · have hput := h.put
    have helapsing := h.length_elapsing (d := d) hb hpos
    rw [toPut_hold, hold_metrics] at hput
    rw [totalEnqueued_callbacks hdraw, List.length_append, Nat.mul_add]
    omega
  · obtain hold | ⟨d', hsched, -⟩ := callbacks_agenda hx
    · exact h.batch x (List.mem_cons_of_mem _ hold) lid batch start hev
    · rw [hev] at hsched
      generalize he' : Ev.leaderTimeout lid batch start = e' at hsched
      cases hsched with
      | leaderTimeout lid' tid hpos' =>
        obtain ⟨-, rfl, -⟩ := Ev.leaderTimeout.inj he'
        exact fillBatch_length_le hb _ [tid] hpos
      | gotten _ q => cases q <;> cases he'
      | sampling _ _ _ _ hs => subst he'; exact hs.elim
      | _ => cases he'

theorem start (b : ℕ) (c : Setup G) (random : G) : Dispatches b [] (start c random) := by
  refine ⟨?_, fun x hx lid batch start hev => ?_⟩
  · have hzero : (Behavioral.start c random).toPut = 0 := tally_eq_zero fun x hx => by
      have := (start_initial c random x hx).2
      generalize x.2 = e at this
      cases e <;> first | rfl | exact this.elim
    rw [hzero]
    exact Nat.zero_le _
  · have hinit := (start_initial c random x hx).2
    rw [hev] at hinit
    exact hinit.elim

end Dispatches

theorem dispatches_reached (c : Setup G) (random : G) {b : ℕ} {d : ℚ} (hb : c.batchEnqueue ≤ b)
    (hpos : 1 ≤ b) (hdraw : ∀ g, (c.dispatchTime g).1 = d) (n : ℕ) :
    Dispatches b (dispatched c d random n) (reached c random n) :=
  loop_invariant_log (Ev.elapses d) (I := fun log s => Dispatches b log s) (.start b c random)
    (fun _ _ _ _ _ h _ => ⟨h.put, h.batch⟩) (fun _ _ _ h => h.callbacks hb hpos (hdraw _)) n

/-- The leaders have enqueued at most `b` tasks each in every time `d`. -/
theorem enqueued_le (c : Setup G) (random : G) {b : ℕ} {d : ℚ} (hb : c.batchEnqueue ≤ b)
    (hpos : 1 ≤ b) (hd : 0 ≤ d) (hdraw : ∀ g, (c.dispatchTime g).1 = d) (n : ℕ) :
    (reached c random n).metrics.totalEnqueued * d ≤
      c.numLeaders * b * (reached c random n).now := by
  have put := (dispatches_reached c random hb hpos hdraw n).put
  have busy := (dispatching_reached c random hd hdraw n).sum_eq
  have accounted : ∑ lid ∈ Finset.range c.numLeaders,
      (reached c random n).metrics.leaderBusyTime lid ≤
        c.numLeaders * (reached c random n).now := by
    have := Finset.sum_le_card_nsmul (Finset.range c.numLeaders)
      (fun lid => (reached c random n).metrics.leaderBusyTime lid) (reached c random n).now
      fun lid _ => (accounted_reached c random n).le_now (.arrivalBuffer, lid)
    simpa using this
  have enqueued : ((reached c random n).metrics.totalEnqueued : ℚ) ≤
      b * (dispatched c d random n).length := by
    exact_mod_cast le_trans (Nat.le_add_right _ _) put
  calc (reached c random n).metrics.totalEnqueued * d
      ≤ b * (dispatched c d random n).length * d := mul_le_mul_of_nonneg_right enqueued hd
    _ = b * (d * (dispatched c d random n).length) := by ring
    _ ≤ b * (c.numLeaders * (reached c random n).now) :=
      mul_le_mul_of_nonneg_left (busy ▸ accounted) (Nat.cast_nonneg b)
    _ = c.numLeaders * b * (reached c random n).now := by ring

/-! ## What the followers execute -/

theorem lasting_reached (c : Setup G) (random : G) {D : ℚ}
    (hdraw : ∀ g, (c.taskDuration g).1 = D) (n : ℕ) :
    Lasting (fun _ => D) (reached c random n) := by
  have h : Inv c.numTasks (executed c random n) (reached c random n) ∧
      Lasting (fun _ => D) (reached c random n) := by
    refine loop_invariant_log Ev.starts
      (I := fun log s => Inv c.numTasks log s ∧ Lasting (fun _ => D) s)
      ⟨.start c random, .start _ random⟩ (fun log s t e rest h hagenda => ?_)
      (fun log e s h => ?_) n
    · exact ⟨h.1.advance hagenda, h.2.advance t⟩
    · obtain ⟨m, -, hl⟩ := h.1.census
      exact ⟨h.1.callbacks, h.2.callbacks h.1.toPutsFirst hl fun _ _ _ => hdraw _⟩
  exact h.2

/-- The followers have executed at most one task each in every time `D`. -/
theorem completed_le (c : Setup G) (random : G) {D : ℚ} (hD : 0 ≤ D)
    (hdraw : ∀ g, (c.taskDuration g).1 = D) (n : ℕ) :
    (reached c random n).metrics.completedTasks * D ≤
      c.numFollowers * (reached c random n).now := by
  have hinv := inv_reached c random n
  have duration : ∀ tid, ((reached c random n).metrics.duration tid).getD 0 =
      (reached c random n).stamped tid .finish * D := by
    intro tid
    cases hf : (reached c random n).metrics.stamp tid .finish with
    | none =>
      have hnone : (reached c random n).metrics.duration tid = none := by
        have hf : ((reached c random n).metrics.taskInfo tid).finish = none := hf
        simp [Metrics.duration, hf]
      simp [hnone, stamped, hf]
    | some f =>
      obtain ⟨b, hb, -⟩ := hinv.after tid .finish .startExec f rfl hf
      have hlast := (lasting_reached c random hdraw n).ended tid b f hb hf
      rw [Metrics.duration_eq_some.2 ⟨b, hb, f, hf, rfl⟩, hlast, max_eq_left hD]
      simp [stamped, hf]
  have accounted : ∑ fid ∈ Finset.range c.numFollowers,
      (reached c random n).metrics.followerBusyTime fid ≤
        c.numFollowers * (reached c random n).now := by
    have := Finset.sum_le_card_nsmul (Finset.range c.numFollowers)
      (fun fid => (reached c random n).metrics.followerBusyTime fid) (reached c random n).now
      fun fid _ => (accounted_reached c random n).le_now (.execQueue, fid)
    simpa using this
  rw [(executing_reached c random n).total] at accounted
  refine le_trans (le_of_eq ?_) accounted
  rw [hinv.completed, stampedCount, Nat.cast_sum, Finset.sum_mul]
  exact Finset.sum_congr rfl fun tid _ => (duration tid).symm

/-! ## The rates -/

namespace Tunables

variable (p : Tunables) (r : Random G)

/-- `follower_capacity` -/
def followerCapacity : ℚ := p.numFollowers / max (1 / 10 ^ 9) p.taskDurationMean

/-- `leader_rate` -/
def leaderRate (mode : String) : ℚ :=
  p.numLeaders * p.batchEnqueue / max (1 / 10 ^ 9) (p.dispatchTime mode)

/-- No more tasks have been done than the rates allow. -/
structure WithinRates (mode : String) (n : ℕ) : Prop where
  enqueued : (p.run r mode n).metrics.totalEnqueued ≤ p.leaderRate mode * (p.run r mode n).now
  completed : (p.run r mode n).metrics.completedTasks ≤
    min p.followerCapacity (p.leaderRate mode) * (p.run r mode n).now

/-- **No run is faster than the rates that it prints.**  With a constant duration, and times
that the rates are not cut off at, the tasks that are enqueued at any point of a run are at
most what the leaders dispatch in that time, and those that are completed at most what the
slower of leaders and followers can do. -/
theorem throughput_le_rates (hbatch : 1 ≤ p.batchEnqueue) (hsd : p.taskDurationSd ≤ 0)
    {mode : String} (hdispatch : 1 / 10 ^ 9 ≤ p.dispatchTime mode)
    (hmean : 1 / 10 ^ 9 ≤ p.taskDurationMean) (n : ℕ) : p.WithinRates r mode n := by
  have hd : 0 < p.dispatchTime mode := lt_of_lt_of_le (by norm_num) hdispatch
  have hD : 0 < p.taskDurationMean := lt_of_lt_of_le (by norm_num) hmean
  have hnow : 0 ≤ (p.run r mode n).now :=
    ((accounted_reached _ _ n).nonneg (.execQueue, 0)).trans
      ((accounted_reached _ _ n).le_now (.execQueue, 0))
  obtain ⟨b, hb⟩ := Int.eq_ofNat_of_zero_le (Int.le_trans Int.one_nonneg hbatch)
  have hb1 : 1 ≤ b := by omega
  have enqueued : (p.run r mode n).metrics.totalEnqueued ≤
      p.leaderRate mode * (p.run r mode n).now := by
    have := enqueued_le (p.setup r mode) (r.seed p.seed) (b := b) (d := p.dispatchTime mode)
      (le_of_eq hb) hb1 hd.le (fun _ => rfl) n
    rw [leaderRate, max_eq_right hdispatch, hb, div_mul_eq_mul_div, le_div_iff₀ hd]
    exact_mod_cast this
  have executed : (p.run r mode n).metrics.completedTasks ≤
      p.followerCapacity * (p.run r mode n).now := by
    have := completed_le (p.setup r mode) (r.seed p.seed) hD.le
      (fun g => congrArg Prod.fst (makeNormal_of_le r p.taskDurationMean hsd g)) n
    rw [followerCapacity, max_eq_right hmean, div_mul_eq_mul_div, le_div_iff₀ hD]
    exact this
  refine ⟨enqueued, ?_⟩
  rw [min_mul_of_nonneg _ _ hnow, le_min_iff]
  refine ⟨executed, le_trans ?_ enqueued⟩
  exact_mod_cast (inv_reached (p.setup r mode) (r.seed p.seed) n).completed_le

theorem throughput_twoTasks : twoTasks.WithinRates unused "hw" 40 :=
  throughput_le_rates twoTasks unused (by decide) (by decide)
    (by decide +kernel) (by decide +kernel) 40

end Tunables

end TaskQueueCoSim.Behavioral
