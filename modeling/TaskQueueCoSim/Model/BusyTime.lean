import Mathlib.Algebra.BigOperators.Ring.Finset
import Mathlib.Tactic.Linarith
import TaskQueueCoSim.Model.Lasting
import TaskQueueCoSim.Model.Presence

/-!
# Busy times (model/behavioral.py)

A process adds to its busy time when it has waited for a dispatch, a put or an
execution.  It waits for one event at a time, so these times do not overlap.

* `Accounted`: no process has been busy for longer than the time that has passed;
* `Dispatching`: a leader has been busy for the dispatch time for each of its
  batches, as puts take no time;
* `Executing`: the followers have been busy for as long as tasks were executed.
-/

namespace TaskQueueCoSim.Behavioral

open Agenda Sim

variable {G : Type} {c : Setup G} {s : Sim G} {e : Ev}

/-! ## What an event adds -/

/-- The busy time of a process. -/
def Metrics.busyTime (m : Metrics) : StoreName × ℕ → ℚ
  | (.arrivalBuffer, lid) => m.leaderBusyTime lid
  | (.execQueue, fid) => m.followerBusyTime fid

/-- The time from which on the process that waits for an event counts as busy. -/
def Ev.since : Ev → Option ℚ
  | .leaderTimeout _ _ start => some start
  | .execPut _ _ _ beforePut => some beforePut
  | .followerTimeout _ _ start => some start
  | _ => none

theorem Ev.Initial.since {e : Ev} (h : e.Initial) : e.since = none := by
  cases e <;> first | rfl | exact h.elim

/-- What the callbacks of an event add to the busy time of a process. -/
def Ev.busy (e : Ev) (now : ℚ) (p : StoreName × ℕ) : ℚ :=
  if e.process = some p then (e.since.map (now - ·)).getD 0 else 0

section BusyTime

variable (m : Metrics) (p : StoreName × ℕ) (i tid : ℕ) (x t : ℚ)

theorem busyTime_addLeaderBusy : (m.addLeaderBusy i x).busyTime p =
    m.busyTime p + if p = (.arrivalBuffer, i) then x else 0 := by
  obtain ⟨_ | _, j⟩ := p
  · by_cases h : j = i
    · subst h
      simp [Metrics.busyTime, Metrics.addLeaderBusy]
    · simp [Metrics.busyTime, Metrics.addLeaderBusy, h]
  · simp [Metrics.busyTime, Metrics.addLeaderBusy]

theorem busyTime_recordPut : (m.recordPut i tid x t).busyTime p =
    m.busyTime p + if p = (.arrivalBuffer, i) then t - x else 0 := by
  have hblock : ∀ y, (m.addLeaderBlock i y).busyTime p = m.busyTime p := fun y => by
    obtain ⟨_ | _, j⟩ := p <;> rfl
  have hrecord : ∀ m' : Metrics, Metrics.busyTime
      ({ m' with totalEnqueued := m'.totalEnqueued + 1 }.recordEnqueued tid t i) p = m'.busyTime p :=
    fun m' => by obtain ⟨_ | _, j⟩ := p <;> rfl
  simp only [Metrics.recordPut]
  rw [hrecord, busyTime_addLeaderBusy]
  split_ifs <;> simp only [hblock]

theorem busyTime_recordExecuted : (m.recordExecuted i tid x t).busyTime p =
    m.busyTime p + if p = (.execQueue, i) then t - x else 0 := by
  obtain ⟨_ | _, j⟩ := p
  · simp [Metrics.busyTime, Metrics.recordExecuted, Metrics.recordFinish, Metrics.addFollowerBusy]
  · by_cases h : j = i
    · subst h
      simp [Metrics.busyTime, Metrics.recordExecuted, Metrics.recordFinish, Metrics.addFollowerBusy]
    · simp [Metrics.busyTime, Metrics.recordExecuted, Metrics.recordFinish, Metrics.addFollowerBusy, h]

@[simp] theorem busyTime_recordStartExec :
    (m.recordStartExec tid t i).busyTime p = m.busyTime p := by
  obtain ⟨_ | _, j⟩ := p <;> rfl
@[simp] theorem busyTime_recordArrival : (m.recordArrival tid t).busyTime p = m.busyTime p := by
  obtain ⟨_ | _, j⟩ := p <;> rfl
@[simp] theorem busyTime_sampleExec (n : ℕ) : (m.sampleExec t n).busyTime p = m.busyTime p := by
  obtain ⟨_ | _, j⟩ := p <;> rfl
@[simp] theorem busyTime_sampleArrival (n : ℕ) :
    (m.sampleArrival t n).busyTime p = m.busyTime p := by
  obtain ⟨_ | _, j⟩ := p <;> rfl
@[simp] theorem busyTime_sampleRates (y : ℚ) : (m.sampleRates t x y).busyTime p = m.busyTime p := by
  obtain ⟨_ | _, j⟩ := p <;> rfl

end BusyTime

/-- **The busy times of a step.**  Only the process that waited for the event has
been busy. -/
theorem busyTime_callbacks (e : Ev) (s : Sim G) (p : StoreName × ℕ) :
    (callbacks c e s).metrics.busyTime p = s.metrics.busyTime p + e.busy s.now p := by
  have arrive : ∀ (s' : Sim G) i,
      (arrivalLoop c i s').metrics.busyTime p = s'.metrics.busyTime p := by
    intro s' i
    rw [arrivalLoop_metrics]
    split_ifs <;> simp
  cases e with
  | arrivalInit | arrivalTimeout => simp [callbacks, arrive, Ev.busy, Ev.process]
  | leaderInit | followerInit => simp [callbacks, Ev.busy, Ev.since]
  | depthInit | depthTimeout | rateInit | rateTimeout =>
    simp [callbacks, depthLoop, rateLoop, afterRateTimeout, Ev.busy, Ev.process]
  | arrivalEnd | samplerFailed => simp [callbacks, Ev.busy, Ev.process]
  | arrivalPut i =>
    simp only [callbacks, afterArrivalPut]
    split_ifs <;> simp [arrive, Ev.busy, Ev.process]
  | leaderGet lid tid =>
    simp only [callbacks, afterLeaderGet]
    split_ifs <;> simp [busyTime_addLeaderBusy, Ev.busy, Ev.since]
  | leaderTimeout lid batch start =>
    simp [callbacks, busyTime_addLeaderBusy, Ev.busy, Ev.process, Ev.since, eq_comm]
  | execPut lid t rest beforePut =>
    simp [callbacks, busyTime_recordPut, Ev.busy, Ev.process, Ev.since, eq_comm]
  | followerGet fid tid =>
    simp only [callbacks, afterFollowerGet]
    split_ifs <;> simp [busyTime_recordExecuted, Ev.busy, Ev.since]
  | followerTimeout fid tid start =>
    simp [callbacks, busyTime_recordExecuted, Ev.busy, Ev.process, Ev.since, eq_comm]

/-- A wait that counts begins when it is scheduled. -/
theorem Schedules.since {e' : Ev} {d t : ℚ} (h : Schedules c s e d e') (ht : e'.since = some t) :
    t = s.now := by
  cases h with
  | leaderTimeout | putAtOnce | putFirst | putNext | followerTimeout => exact (Option.some.inj ht).symm
  | gotten _ q => cases q <;> cases ht
  | sampling _ _ _ _ hs => cases e' <;> first | exact hs.elim | cases ht
  | _ => cases ht

/-! ## No process is busy for longer than the time that has passed -/

/-- A process has been busy for no longer than until now, nor, if it is busy
since `t`, for longer than until `t`. -/
structure Accounted (s : Sim G) : Prop where
  nonneg : ∀ p, 0 ≤ s.metrics.busyTime p
  le_now : ∀ p, s.metrics.busyTime p ≤ s.now
  since : ∀ x ∈ s.agenda, ∀ p t, x.2.process = some p → x.2.since = some t →
    s.metrics.busyTime p ≤ t ∧ t ≤ s.now

namespace Accounted

theorem callbacks (h : Accounted (s.hold e)) (hp : Present c (s.hold e)) :
    Accounted (callbacks c e s) := by
  have added : ∀ p, 0 ≤ e.busy s.now p ∧ s.metrics.busyTime p + e.busy s.now p ≤ s.now := by
    intro p
    have hle : s.metrics.busyTime p ≤ s.now := h.le_now p
    unfold Ev.busy
    split_ifs with hproc
    · cases hsince : e.since with
      | none => exact ⟨le_rfl, by simpa using hle⟩
      | some t =>
        obtain ⟨hbusy, hnow⟩ := h.since _ (List.mem_cons_self ..) p t hproc hsince
        have hbusy : s.metrics.busyTime p ≤ t := hbusy
        have hnow : t ≤ s.now := hnow
        simp only [Option.map_some, Option.getD_some]
        constructor <;> linarith
    · exact ⟨le_rfl, by simpa using hle⟩
  have hnow : ∀ p, (Behavioral.callbacks c e s).metrics.busyTime p ≤ s.now := fun p => by
    rw [busyTime_callbacks]
    exact (added p).2
  refine ⟨fun p => ?_, fun p => (callbacks_now (c := c) e s).symm ▸ hnow p, fun x hx p t hproc ht => ?_⟩
  · rw [busyTime_callbacks]
    exact add_nonneg (h.nonneg p) (added p).1
  · rw [callbacks_now]
    obtain hold | ⟨d, hsched, -⟩ := callbacks_agenda hx
    · -- its process did not wait for the event in hand
      have hne : e.process ≠ some p := fun he => hp.alone he hold hproc
      rw [busyTime_callbacks, Ev.busy, if_neg hne, add_zero]
      exact h.since x (List.mem_cons_of_mem _ hold) p t hproc ht
    · obtain rfl := hsched.since ht
      exact ⟨hnow p, le_rfl⟩

theorem start (c : Setup G) (random : G) : Accounted (start c random) := by
  have hzero : ∀ p, (Behavioral.start c random).metrics.busyTime p = 0 := by
    rintro ⟨_ | _, i⟩ <;> rfl
  refine ⟨fun p => (hzero p).ge, fun p => (hzero p).le, fun x hx p t _ ht => ?_⟩
  rw [(start_initial c random x hx).2.since] at ht
  cases ht

theorem advance (h : Accounted s) {t : ℚ} (hle : s.now ≤ t) : Accounted { s with now := t } :=
  ⟨h.nonneg, fun p => (h.le_now p).trans hle, fun x hx p t' hproc ht =>
    ⟨(h.since x hx p t' hproc ht).1, (h.since x hx p t' hproc ht).2.trans hle⟩⟩

end Accounted

/-! ## The batches of the leaders -/

/-- The leader whose dispatch has elapsed with an event, if a dispatch takes `d`. -/
def Ev.elapses (d : ℚ) : Ev → Option ℕ
  | .leaderGet lid _ => if d ≤ 0 then some lid else none
  | .leaderTimeout lid _ _ => some lid
  | _ => none

/-- The leaders whose dispatches have elapsed in the first `n` rounds, batch by batch. -/
def dispatched (c : Setup G) (d : ℚ) (random : G) (n : ℕ) : List ℕ :=
  Machine.stepsLog (round c) (fun s => s.due.bind (Ev.elapses d)) n (start c random)

/-- How long a leader waits for an event, if a dispatch takes `d`. -/
def Ev.lasts (d : ℚ) : Ev → ℚ
  | .leaderTimeout _ _ _ => d
  | _ => 0

/-- A leader has been busy for `d` for each of its batches. -/
structure Dispatching (c : Setup G) (d : ℚ) (log : List ℕ) (s : Sim G) : Prop where
  busy : ∀ lid, s.metrics.leaderBusyTime lid = d * log.count lid
  due : ∀ x ∈ s.agenda, ∀ lid t, x.2.process = some (.arrivalBuffer, lid) → x.2.since = some t →
    x.1 = t + x.2.lasts d
  known : ∀ lid ∈ log, lid < c.numLeaders

theorem Ev.elapses_eq_some {d : ℚ} {lid : ℕ} (h : e.elapses d = some lid) :
    e.process = some (.arrivalBuffer, lid) := by
  cases e with
  | leaderGet lid' tid =>
    rw [elapses] at h
    split_ifs at h
    exact congrArg (fun lid => some (StoreName.arrivalBuffer, lid)) (Option.some.inj h)
  | leaderTimeout lid' batch start =>
    exact congrArg (fun lid => some (StoreName.arrivalBuffer, lid)) (Option.some.inj h)
  | _ => cases h

/-- What a leader waits for is due when it lasts. -/
theorem Schedules.lasts {e' : Ev} {d t : ℚ} {lid : ℕ} (h : Schedules c s e d e')
    (hproc : e'.process = some (.arrivalBuffer, lid)) (ht : e'.since = some t) :
    d = e'.lasts (c.dispatchTime s.random).1 := by
  cases h with
  | leaderTimeout | putAtOnce | putFirst | putNext => rfl
  | gotten _ q => cases q <;> cases ht
  | followerTimeout => cases hproc
  | sampling _ _ _ _ hs => cases e' <;> first | exact hs.elim | cases ht
  | _ => cases ht

namespace Dispatching

variable {d : ℚ} {log : List ℕ}

/-- A leader has been busy for `d` if its dispatch has elapsed, and else not at all. -/
theorem busy_eq (h : Dispatching c d log (s.hold e)) (hd : 0 ≤ d) (lid : ℕ) :
    e.busy s.now (.arrivalBuffer, lid) = d * (e.elapses d).toList.count lid := by
  have hdue := h.due _ (List.mem_cons_self ..)
  unfold Ev.busy
  cases e with
  | leaderTimeout lid' batch start =>
    have hnow : s.now = start + d := hdue lid' start rfl rfl
    by_cases hlid : lid' = lid
    · simp [Ev.process, Ev.since, Ev.elapses, hlid, hnow]
    · simp [Ev.process, Ev.elapses, hlid]
  | execPut lid' t rest beforePut =>
    have hnow : s.now = beforePut + 0 := hdue lid' beforePut rfl rfl
    simp [Ev.since, Ev.elapses, hnow]
  | leaderGet lid' tid =>
    by_cases hle : d ≤ 0
    · simp [Ev.since, Ev.elapses, le_antisymm hle hd]
    · simp [Ev.since, Ev.elapses, hle]
  | _ => simp [Ev.since, Ev.process, Ev.elapses]

theorem callbacks (h : Dispatching c d log (s.hold e)) (hp : Present c (s.hold e)) (hd : 0 ≤ d)
    (hdraw : (c.dispatchTime s.random).1 = d) :
    Dispatching c d (log ++ (e.elapses d).toList) (callbacks c e s) := by
  refine ⟨fun lid => ?_, fun x hx lid t hproc ht => ?_, fun lid hlid => ?_⟩
  · have hadded := busyTime_callbacks (c := c) e s (.arrivalBuffer, lid)
    rw [h.busy_eq hd lid] at hadded
    refine hadded.trans ?_
    have hbusy : s.metrics.leaderBusyTime lid = d * log.count lid := h.busy lid
    rw [Metrics.busyTime, hbusy, List.count_append, Nat.cast_add, mul_add]
  · obtain hold | ⟨d', hsched, hdue⟩ := callbacks_agenda hx
    · exact h.due x (List.mem_cons_of_mem _ hold) lid t hproc ht
    · rw [hdue, hsched.since ht, hsched.lasts hproc ht, hdraw]
  · obtain hlid | hlid := List.mem_append.1 hlid
    · exact h.known lid hlid
    · have hproc := Ev.elapses_eq_some (Option.mem_toList.1 hlid)
      exact hp.lt (x := (s.now, e)) (List.mem_cons_self ..) hproc

theorem start (c : Setup G) (d : ℚ) (random : G) : Dispatching c d [] (start c random) := by
  refine ⟨fun lid => by simp [Behavioral.start, Metrics.init], fun x hx lid t _ ht => ?_,
    fun lid hlid => nomatch hlid⟩
  rw [(start_initial c random x hx).2.since] at ht
  cases ht

theorem advance (h : Dispatching c d log s) (t : ℚ) : Dispatching c d log { s with now := t } :=
  ⟨h.busy, h.due, h.known⟩

/-- All leaders together. -/
theorem sum_eq (h : Dispatching c d log s) :
    ∑ lid ∈ Finset.range c.numLeaders, s.metrics.leaderBusyTime lid = d * log.length := by
  have hcount : ∀ log : List ℕ, (∀ lid ∈ log, lid < c.numLeaders) →
      ∑ lid ∈ Finset.range c.numLeaders, log.count lid = log.length := by
    intro log
    induction log with
    | nil => simp
    | cons lid log ih =>
      intro hlt
      obtain ⟨hlid, hrest⟩ := List.forall_mem_cons.1 hlt
      simp [List.count_cons, Finset.sum_add_distrib, ih hrest, hlid]
  simp only [h.busy]
  rw [← Finset.mul_sum, ← Nat.cast_sum, hcount log h.known]

end Dispatching

/-! ## The tasks of the followers -/

/-- How long the task was executed whose execution ends with an event. -/
def Ev.work (e : Ev) (now : ℚ) (tid : ℕ) : ℚ :=
  match e with
  | .followerTimeout _ t start => if tid = t then now - start else 0
  | _ => 0

/-- The followers have been busy for as long as the tasks that are finished were
executed; those under execution have been started. -/
structure Executing (c : Setup G) (s : Sim G) : Prop where
  total : ∑ fid ∈ Finset.range c.numFollowers, s.metrics.followerBusyTime fid =
    ∑ tid ∈ Finset.range c.numTasks, (s.metrics.duration tid).getD 0
  started : ∀ x ∈ s.agenda, ∀ fid tid start, x.2 = .followerTimeout fid tid start →
    s.metrics.stamp tid .startExec = some start

namespace Executing

variable {log : List ℕ}

/-- The end of an execution makes its duration known. -/
theorem duration_finish {fid tid : ℕ} {start : ℚ}
    (h : Executing c (s.hold (.followerTimeout fid tid start)))
    (hinv : Inv c.numTasks log (s.hold (.followerTimeout fid tid start))) :
    s.metrics.duration tid = none ∧
      (callbacks c (.followerTimeout fid tid start) s).metrics.duration tid = some (s.now - start) := by
  obtain ⟨n, -, hl⟩ := hinv.census
  have hnone : s.metrics.stamp tid .finish = none :=
    stamped_eq_zero_iff.1 (hl tid).before_finish.2.2
  constructor
  · refine Option.eq_none_iff_forall_ne_some.2 fun x hx => ?_
    obtain ⟨_, _, f, hf, -⟩ := Metrics.duration_eq_some.1 hx
    rw [hnone] at hf
    cases hf
  · have hstart := hinv.stamp_callbacks (h.started _ (List.mem_cons_self ..) fid tid start rfl)
    have hfinish : (callbacks c (.followerTimeout fid tid start) s).metrics.stamp tid .finish =
        some s.now := by
      simp [callbacks, Metrics.stamp_recordExecuted]
    exact Metrics.duration_eq_some.2 ⟨start, hstart, s.now, hfinish, rfl⟩

/-- Another event makes only the duration of a task known that takes no time. -/
theorem duration_of_not_finish (hinv : Inv c.numTasks log (s.hold e)) {tid : ℕ}
    (hend : ∀ fid start, e ≠ .followerTimeout fid tid start) {y : ℚ}
    (hy : (callbacks c e s).metrics.duration tid = some y) :
    s.metrics.duration tid = some y ∨ y = 0 := by
  obtain ⟨n, -, hl⟩ := hinv.census
  -- a task that is started now has not been finished before
  have before : ∀ fid, e = .followerGet fid tid →
      s.metrics.stamp tid .startExec = none ∧ s.metrics.stamp tid .finish = none := by
    rintro fid rfl
    obtain ⟨-, hstart, hfin⟩ := (hl tid).before_start hinv.toPutsFirst
    exact ⟨stamped_eq_zero_iff.1 hstart, stamped_eq_zero_iff.1 hfin⟩
  obtain ⟨b, hb, f, hf, rfl⟩ := Metrics.duration_eq_some.1 hy
  obtain hf' | ⟨rfl, hrecf⟩ := callbacks_stamp (by decide) hf
  · obtain hb' | ⟨-, hrecb⟩ := callbacks_stamp (by decide) hb
    · exact .inl (Metrics.duration_eq_some.2 ⟨b, hb', f, hf', rfl⟩)
    · cases hrecb
      rw [(before _ rfl).2] at hf'
      cases hf'
  · obtain hb' | ⟨rfl, -⟩ := callbacks_stamp (by decide) hb
    · cases hrecf with
      | finishAtOnce fid =>
        rw [(before _ rfl).1] at hb'
        cases hb'
      | finish fid _ start => exact absurd rfl (hend fid start)
    · exact .inr (sub_self _)

/-- Only the end of an execution makes a difference to the durations. -/
theorem duration_callbacks (h : Executing c (s.hold e)) (hinv : Inv c.numTasks log (s.hold e))
    (tid : ℕ) : ((callbacks c e s).metrics.duration tid).getD 0 =
      (s.metrics.duration tid).getD 0 + e.work s.now tid := by
  by_cases hend : ∃ fid start, e = .followerTimeout fid tid start
  · obtain ⟨fid, start, rfl⟩ := hend
    obtain ⟨hbefore, hafter⟩ := h.duration_finish hinv
    simp [hbefore, hafter, Ev.work]
  · have hwork : e.work s.now tid = 0 := by
      cases e with
      | followerTimeout fid t start =>
        refine if_neg fun ht => hend ⟨fid, start, ?_⟩
        rw [ht]
      | _ => rfl
    rw [hwork, add_zero]
    cases hx : s.metrics.duration tid with
    | some x =>
      obtain ⟨b, hb, f, hf, hbf⟩ := Metrics.duration_eq_some.1 hx
      rw [Metrics.duration_eq_some.2
        ⟨b, hinv.stamp_callbacks hb, f, hinv.stamp_callbacks hf, hbf⟩]
    | none =>
      cases hy : (callbacks c e s).metrics.duration tid with
      | none => rfl
      | some y =>
        obtain hold | rfl := duration_of_not_finish hinv (fun fid start he => hend ⟨fid, start, he⟩) hy
        · rw [hx] at hold
          cases hold
        · rfl

/-- One follower has been busy while one task was executed. -/
theorem sum_busy (hinv : Inv c.numTasks log (s.hold e)) (hp : Present c (s.hold e)) :
    ∑ fid ∈ Finset.range c.numFollowers, e.busy s.now (.execQueue, fid) =
      ∑ tid ∈ Finset.range c.numTasks, e.work s.now tid := by
  obtain ⟨n, ha, hl⟩ := hinv.census
  cases e with
  | followerTimeout fid tid start =>
    have hfid : fid < c.numFollowers :=
      hp.lt (x := (s.now, .followerTimeout fid tid start)) (List.mem_cons_self ..) rfl
    have htid : tid < c.numTasks := Nat.lt_of_lt_of_le (hl tid).before_finish.1 ha.le
    simp [Ev.busy, Ev.process, Ev.since, Ev.work, hfid, htid]
  | _ => simp [Ev.busy, Ev.process, Ev.since, Ev.work]

theorem callbacks (h : Executing c (s.hold e)) (hinv : Inv c.numTasks log (s.hold e))
    (hp : Present c (s.hold e)) : Executing c (callbacks c e s) := by
  refine ⟨?_, fun x hx fid tid start hev => ?_⟩
  · have hbusy : ∀ fid, (Behavioral.callbacks c e s).metrics.followerBusyTime fid =
        s.metrics.followerBusyTime fid + e.busy s.now (.execQueue, fid) := fun fid =>
      busyTime_callbacks e s (.execQueue, fid)
    have htotal : ∑ fid ∈ Finset.range c.numFollowers, s.metrics.followerBusyTime fid =
      ∑ tid ∈ Finset.range c.numTasks, (s.metrics.duration tid).getD 0 := h.total
    simp only [hbusy, h.duration_callbacks hinv, Finset.sum_add_distrib]
    rw [htotal, sum_busy hinv hp]
  · obtain hold | ⟨rfl, hpos, rfl, -⟩ := executing_callbacks hx hev
    · exact hinv.stamp_callbacks (h.started x (List.mem_cons_of_mem _ hold) fid tid start hev)
    · simp [Behavioral.callbacks, afterFollowerGet, hpos, Metrics.stamp_recordStartExec]

theorem start (c : Setup G) (random : G) : Executing c (start c random) := by
  refine ⟨by simp [Behavioral.start, Metrics.init, Metrics.duration], fun x hx fid tid start hev => ?_⟩
  have hinit := (start_initial c random x hx).2
  rw [hev] at hinit
  exact hinit.elim

theorem advance (h : Executing c s) (t : ℚ) : Executing c { s with now := t } :=
  ⟨h.total, h.started⟩

end Executing

/-! ## Every run -/

/-- The sum of `finish - start_exec` over the finished tasks. -/
def Metrics.executionTime (m : Metrics) (numTasks : ℕ) : ℚ :=
  ∑ tid ∈ (Finset.range numTasks).filter fun tid => (m.taskInfo tid).finish.isSome,
    ((m.taskInfo tid).finish.getD 0 - (m.taskInfo tid).startExec.getD 0)

namespace Sim

/-- `total_time` -/
def totalTime (s : Sim G) : ℚ := max 1 s.now

/-- `leader_util` -/
def leaderUtil (s : Sim G) (lid : ℕ) : ℚ := s.metrics.leaderBusyTime lid / s.totalTime

/-- `follower_util` -/
def followerUtil (s : Sim G) (fid : ℕ) : ℚ := s.metrics.followerBusyTime fid / s.totalTime

end Sim

/-- No busy time is longer than the run, and together they are what has been done. -/
structure BusyConserved (c : Setup G) (random : G) (n : ℕ) : Prop where
  leader_le : ∀ lid, (reached c random n).metrics.leaderBusyTime lid ≤ (reached c random n).now
  follower_le : ∀ fid, (reached c random n).metrics.followerBusyTime fid ≤ (reached c random n).now
  leader_util : ∀ lid, 0 ≤ (reached c random n).leaderUtil lid ∧
    (reached c random n).leaderUtil lid ≤ 1
  follower_util : ∀ fid, 0 ≤ (reached c random n).followerUtil fid ∧
    (reached c random n).followerUtil fid ≤ 1
  follower_sum : ∑ fid ∈ Finset.range c.numFollowers,
    (reached c random n).metrics.followerBusyTime fid =
      (reached c random n).metrics.executionTime c.numTasks
  leader_sum : ∀ d, 0 ≤ d → (∀ g, (c.dispatchTime g).1 = d) →
    ∑ lid ∈ Finset.range c.numLeaders, (reached c random n).metrics.leaderBusyTime lid =
      d * (dispatched c d random n).length

theorem accounted_reached (c : Setup G) (random : G) (n : ℕ) : Accounted (reached c random n) := by
  have h : Ordered (reached c random n) ∧ Present c (reached c random n) ∧
      Accounted (reached c random n) := by
    refine loop_invariant (I := fun s => Ordered s ∧ Present c s ∧ Accounted s)
      ⟨.start random, .start c random, .start c random⟩ (fun s t e rest h hagenda => ?_)
      (fun e s h => ?_) n
    · exact ⟨h.1.advance hagenda, h.2.1.advance t, h.2.2.advance (h.1.now_le hagenda)⟩
    · exact ⟨h.1.callbacks, h.2.1.callbacks, h.2.2.callbacks h.2.1⟩
  exact h.2.2

theorem dispatching_reached (c : Setup G) (random : G) {d : ℚ} (hd : 0 ≤ d)
    (hdraw : ∀ g, (c.dispatchTime g).1 = d) (n : ℕ) :
    Dispatching c d (dispatched c d random n) (reached c random n) := by
  have h : Present c (reached c random n) ∧
      Dispatching c d (dispatched c d random n) (reached c random n) := by
    refine loop_invariant_log (Ev.elapses d)
      (I := fun log s => Present c s ∧ Dispatching c d log s) ⟨.start c random, .start c d random⟩
      (fun log s t e rest h _ => ⟨h.1.advance t, h.2.advance t⟩) (fun log e s h => ?_) n
    exact ⟨h.1.callbacks, h.2.callbacks h.1 hd (hdraw _)⟩
  exact h.2

theorem executing_reached (c : Setup G) (random : G) (n : ℕ) : Executing c (reached c random n) := by
  have h : Inv c.numTasks (executed c random n) (reached c random n) ∧
      Present c (reached c random n) ∧ Executing c (reached c random n) := by
    refine loop_invariant_log Ev.starts
      (I := fun log s => Inv c.numTasks log s ∧ Present c s ∧ Executing c s)
      ⟨.start c random, .start c random, .start c random⟩ (fun log s t e rest h hagenda => ?_)
      (fun log e s h => ?_) n
    · exact ⟨h.1.advance hagenda, h.2.1.advance t, h.2.2.advance t⟩
    · exact ⟨h.1.callbacks, h.2.1.callbacks, h.2.2.callbacks h.1 h.2.1⟩
  exact h.2.2

/-- A share of the run is a fraction. -/
theorem div_totalTime_mem {s : Sim G} {x : ℚ} (hx : 0 ≤ x) (hle : x ≤ s.now) :
    0 ≤ x / s.totalTime ∧ x / s.totalTime ≤ 1 := by
  have hpos : 0 < s.totalTime := lt_max_of_lt_left zero_lt_one
  exact ⟨div_nonneg hx hpos.le, (div_le_one₀ hpos).2 (hle.trans (le_max_right _ _))⟩

/-- The finished tasks have been started. -/
theorem Timed.executionTime_eq (h : Timed s) (numTasks : ℕ) :
    s.metrics.executionTime numTasks =
      ∑ tid ∈ Finset.range numTasks, (s.metrics.duration tid).getD 0 := by
  rw [Metrics.executionTime, Finset.sum_filter]
  refine Finset.sum_congr rfl fun tid _ => ?_
  cases hf : (s.metrics.taskInfo tid).finish with
  | none => simp [Metrics.duration, hf]
  | some f =>
    obtain ⟨b, hb, -⟩ := h.after tid .finish .startExec f rfl hf
    have hb : (s.metrics.taskInfo tid).startExec = some b := hb
    simp [Metrics.duration, hf, hb]

/-- **Busy times are conserved.**  In every state that the loop reaches, no process has been
busy for longer than the time that has passed, so the utilisations are fractions.  The
followers have been busy for as long as the finished tasks were executed, and the leaders
for the dispatch time for each batch whose dispatch has elapsed. -/
theorem busy_time_conserved (c : Setup G) (random : G) (n : ℕ) : BusyConserved c random n := by
  have h := accounted_reached c random n
  exact {
    leader_le := fun lid => h.le_now (.arrivalBuffer, lid)
    follower_le := fun fid => h.le_now (.execQueue, fid)
    leader_util := fun lid =>
      div_totalTime_mem (h.nonneg (.arrivalBuffer, lid)) (h.le_now (.arrivalBuffer, lid))
    follower_util := fun fid =>
      div_totalTime_mem (h.nonneg (.execQueue, fid)) (h.le_now (.execQueue, fid))
    follower_sum := by
      rw [(inv_reached c random n).toTimed.executionTime_eq]
      exact (executing_reached c random n).total
    leader_sum := fun d hd hdraw => (dispatching_reached c random hd hdraw n).sum_eq }

/-- Three tasks at once for a leader that takes two in a batch. -/
def twoBatches : Setup Unit where
  numTasks := 3
  numLeaders := 1
  numFollowers := 1
  batchEnqueue := 2
  interarrival _ := (0, ())
  dispatchTime _ := (3, ())
  taskDuration _ := (4, ())
  sampleInterval := 5

theorem busy_time_conserved_twoBatches :
    (reached twoBatches () 60).metrics.leaderBusyTime 0 = 3 * 2 := by
  have hlen : (dispatched twoBatches 3 () 60).length = 2 := by decide +kernel
  have hone : Finset.range twoBatches.numLeaders = {0} := rfl
  have hsum := (busy_time_conserved twoBatches () 60).leader_sum 3 (by decide) fun _ => rfl
  rwa [hone, Finset.sum_singleton, hlen] at hsum

end TaskQueueCoSim.Behavioral
