import Mathlib.Algebra.BigOperators.Group.Finset.Piecewise
import Mathlib.Algebra.Order.BigOperators.Group.Finset
import TaskQueueCoSim.Model.Census

/-!
# Every task is executed once (model/behavioral.py)

* `PutsFirst`: a put is processed before what was put is got by a follower;
* `Recorded`: the totals count the tasks, and their times are in order;
* `tasks_executed_once`: each task is in one place, none is started twice, and
  all are done when the loop is left by completion.
-/

namespace TaskQueueCoSim.Behavioral

open Agenda Sim

variable {G : Type} {c : Setup G}

/-! ## Puts are processed first -/

/-- No get that was granted what is put into the execution queue is before the put. -/
structure PutsFirst (s : Sim G) : Prop extends Ordered s where
  order : s.agenda.Pairwise fun x y =>
    ∀ tid, x.2.weight tid .queued = 0 ∨ y.2.weight tid .putting = 0

namespace PutsFirst

variable {s : Sim G} {e : Ev}

theorem of_hold (h : PutsFirst (s.hold e)) : PutsFirst s where
  toOrdered := h.toOrdered.of_hold
  order := (List.pairwise_cons.1 h.order).2

theorem setStore (h : PutsFirst s) (q : StoreName) (items getQueue : List Nat) :
    PutsFirst (s.setStore q items getQueue) :=
  ⟨h.toOrdered.setStore q items getQueue, h.order⟩

theorem setRandom (h : PutsFirst s) (random : G) : PutsFirst (s.setRandom random) :=
  ⟨h.toOrdered.setRandom random, h.order⟩

theorem record (h : PutsFirst s) (f : Metrics → Metrics) : PutsFirst (s.record f) :=
  ⟨h.toOrdered.record f, h.order⟩

theorem schedule (h : PutsFirst s) {d : ℚ} (hd : 0 ≤ d) (hp : e.Prompt → d = 0)
    (he : ∀ tid, e.weight tid .putting = 0) : PutsFirst (s.schedule d e) where
  toOrdered := h.toOrdered.schedule hd hp
  order := by
    refine pairwise_schedule h.sorted h.order (fun _ _ _ tid => .inr (he tid)) fun x hx hlt tid => ?_
    refine .inr (Nat.eq_zero_of_not_pos fun hpos => ?_)
    have prompt : x.2.Prompt := by
      cases hx2 : x.2 <;> rw [hx2] at hpos <;> trivial
    have hdue := h.prompt x hx prompt
    exact absurd (le_trans hdue (le_add_of_nonneg_right hd)) (not_le.2 hlt)

/-- The put of a task that no follower has been granted. -/
theorem schedule_put (h : PutsFirst s) {lid t : Nat} {rest : List Nat} {beforePut : ℚ}
    (hq : tally (Ev.weight t .queued) s.agenda = 0) :
    PutsFirst (s.schedule 0 (.execPut lid t rest beforePut)) where
  toOrdered := h.toOrdered.schedule le_rfl fun _ => rfl
  order := by
    refine pairwise_schedule h.sorted h.order (fun x hx _ tid => ?_) fun _ _ _ _ => .inl rfl
    by_cases ht : tid = t
    · subst ht
      have := le_tally (Ev.weight tid .queued) hx
      exact .inl (by omega)
    · exact .inr (by simp [Ev.weight, Ne.symm ht])

theorem triggerGet (h : PutsFirst s) (q : StoreName) : PutsFirst (s.triggerGet q) := by
  obtain ⟨hs, -⟩ | ⟨t, items, pid, getQueue, -, hs⟩ := s.triggerGet_cases q
  · rwa [hs]
  · rw [hs]
    exact (h.setStore _ _ _).schedule le_rfl (fun _ => rfl) fun tid => by cases q <;> rfl

theorem get (h : PutsFirst s) (q : StoreName) (pid : Nat) : PutsFirst (s.get q pid) :=
  (h.setStore _ _ _).triggerGet q

theorem enqueueLoop (h : PutsFirst s) (lid : Nat) {batch : List Nat}
    (hq : ∀ t ∈ batch, tally (Ev.weight t .queued) s.agenda = 0) :
    PutsFirst (enqueueLoop lid batch s) := by
  cases batch with
  | nil => exact h.get _ _
  | cons t rest => exact (h.setStore _ _ _).schedule_put (hq t (List.mem_cons_self ..))

theorem arrivalLoop (h : PutsFirst s) (c : Setup G) (i : Nat) : PutsFirst (arrivalLoop c i s) := by
  unfold Behavioral.arrivalLoop
  split_ifs
  · exact ((h.record _).setStore _ _ _).schedule le_rfl (fun _ => rfl) fun _ => rfl
  · exact h.schedule le_rfl (fun _ => rfl) fun _ => rfl

theorem afterExecution (h : PutsFirst s) (fid tid : Nat) (start : ℚ) :
    PutsFirst (afterExecution fid tid start s) :=
  (h.record _).get _ _

theorem sampleTimeout (h : PutsFirst s) (c : Setup G) (hp : ¬e.Prompt)
    (he : ∀ tid, e.weight tid .putting = 0) : PutsFirst (sampleTimeout c e s) := by
  unfold Behavioral.sampleTimeout
  split_ifs with hneg
  · exact h.schedule le_rfl (fun _ => rfl) fun _ => rfl
  · exact h.schedule (not_lt.1 hneg) (fun h => absurd h hp) he

/-- A task in a batch or in the arrival buffer has not been granted to a follower. -/
theorem not_granted {n tid : Nat} (hl : Located n s tid)
    (h : 0 < s.found tid .buffered + s.found tid .batched) :
    tally (Ev.weight tid .queued) s.agenda = 0 := by
  have hle := hl.le_one
  have : s.found tid .queued = 0 := by omega
  unfold found at this
  omega

theorem callbacks {n : Nat} (h : PutsFirst (s.hold e)) (hl : ∀ tid, Located n (s.hold e) tid) :
    PutsFirst (callbacks c e s) := by
  have hs := h.of_hold
  cases e with
  | arrivalInit => exact hs.arrivalLoop c _
  | leaderInit lid => exact hs.get _ _
  | followerInit fid => exact hs.get _ _
  | depthInit | depthTimeout => exact ((hs.record _).record _).sampleTimeout c id fun _ => rfl
  | rateInit => exact hs.sampleTimeout c id fun _ => rfl
  | arrivalPut i =>
    simp only [Behavioral.callbacks, afterArrivalPut]
    split_ifs with hpos
    · exact ((hs.triggerGet _).setRandom _).schedule hpos.le False.elim fun _ => rfl
    · exact ((hs.triggerGet _).setRandom _).arrivalLoop c _
  | arrivalTimeout i => exact hs.arrivalLoop c _
  | arrivalEnd | samplerFailed => exact hs
  | leaderGet lid tid =>
    simp only [Behavioral.callbacks, afterLeaderGet]
    split_ifs with hpos
    · exact ((hs.setRandom _).setStore _ _ _).schedule hpos.le False.elim fun _ => rfl
    · refine (((hs.setRandom _).setStore _ _ _).record _).enqueueLoop _ fun t ht => ?_
      have hmem : t ∈ [tid] ++ (s.stores .arrivalBuffer).items := by
        rw [← fillBatch_append c.batchEnqueue]
        exact List.mem_append_left _ ht
      have hpos := List.count_pos_iff.2 hmem
      rw [List.count_append] at hpos
      have := not_granted (hl t) (by
        simp only [found, waiting, hold_stores, hold_agenda, tally_cons, Ev.weight]
        omega)
      simpa [Ev.weight] using this
  | leaderTimeout lid batch start =>
    refine (hs.record _).enqueueLoop _ fun t ht => ?_
    have hpos := List.count_pos_iff.2 ht
    have := not_granted (hl t) (by simp only [found_hold, Ev.weight]; omega)
    simpa [Ev.weight] using this
  | execPut lid t' rest beforePut =>
    refine ((hs.triggerGet _).record _).enqueueLoop _ fun t ht => ?_
    have hpos := List.count_pos_iff.2 ht
    have := not_granted ((hl t).triggerGet .execQueue) (by simp only [found_hold, Ev.weight]; omega)
    simpa [Ev.weight] using this
  | followerGet fid tid =>
    simp only [Behavioral.callbacks, afterFollowerGet]
    split_ifs with hpos
    · exact ((hs.record _).setRandom _).schedule hpos.le False.elim fun _ => rfl
    · exact ((hs.record _).setRandom _).afterExecution _ _ _
  | followerTimeout fid tid start => exact hs.afterExecution _ _ _
  | rateTimeout lastT lastEnq lastDeq => exact (hs.record _).sampleTimeout c id fun _ => rfl

theorem start (random : G) : PutsFirst (start c random) := by
  have idle : ∀ x ∈ (Behavioral.start c random).agenda, ∀ tid, x.2.weight tid .putting = 0 :=
    fun x hx tid => (start_initial c random x hx).2.weight tid .putting
  exact ⟨.start random, List.pairwise_of_forall_mem_list fun x _ y hy tid => .inr (idle y hy tid)⟩

end PutsFirst

/-! ## What is recorded -/

/-- The time that is recorded before. -/
def Stamp.prev : Stamp → Option Stamp
  | .arrival => none
  | .enqueued => some .arrival
  | .startExec => some .enqueued
  | .finish => some .startExec

/-- How many tasks have the time recorded. -/
def Sim.stampedCount (numTasks : Nat) (s : Sim G) (k : Stamp) : Nat :=
  ∑ tid ∈ Finset.range numTasks, s.stamped tid k

/-- The task that an event starts. -/
def Ev.starts : Ev → Option Nat
  | .followerGet _ tid => some tid
  | _ => none

/-- The times are past, and each follows the one before. -/
structure Timed (s : Sim G) : Prop where
  past : ∀ tid k x, s.metrics.stamp tid k = some x → x ≤ s.now
  after : ∀ tid k k' x, k.prev = some k' → s.metrics.stamp tid k = some x →
    ∃ y, s.metrics.stamp tid k' = some y ∧ y ≤ x

/-- The time `k` of the task `i` is recorded, and no other. -/
def Metrics.Marks (m m' : Metrics) (i : Nat) (k : Stamp) (t : ℚ) : Prop :=
  ∀ tid k', m'.stamp tid k' = if tid = i ∧ k' = k then some t else m.stamp tid k'

section Marks

variable {N i : Nat} {k : Stamp} {s : Sim G} {f : Metrics → Metrics}
  (hf : s.metrics.Marks (f s.metrics) i k s.now)

include hf

/-- A time may be recorded if the one before it is and the one behind it is not. -/
theorem Timed.mark (h : Timed s) (hprev : ∀ k', k.prev = some k' → s.stamped i k' = 1)
    (hnext : ∀ k', k'.prev = some k → s.stamped i k' = 0) : Timed (s.record f) where
  past tid k' x hx := by
    rw [record_metrics, hf] at hx
    split_ifs at hx
    · exact (Option.some.inj hx).symm.le
    · exact h.past tid k' x hx
  after tid k' k'' x hk hx := by
    rw [record_metrics, hf] at hx
    rw [record_metrics, hf]
    split_ifs at hx with hmark
    · obtain ⟨rfl, rfl⟩ := hmark
      have hne : k'' ≠ k' := by
        rintro rfl
        cases k'' <;> cases hk
      have hsome := hprev k'' hk
      unfold stamped at hsome
      cases hy : s.metrics.stamp tid k'' with
      | none => simp [hy] at hsome
      | some y =>
        refine ⟨y, by simp [hne], ?_⟩
        exact (Option.some.inj hx) ▸ h.past tid k'' y hy
    · obtain ⟨y, hy, hle⟩ := h.after tid k' k'' x hk hx
      refine ⟨y, ?_, hle⟩
      rw [if_neg, hy]
      rintro ⟨rfl, rfl⟩
      have hnone := hnext k' hk
      simp [stamped, hx] at hnone

theorem stamped_mark (tid : Nat) (k' : Stamp) :
    (s.record f).stamped tid k' = if tid = i ∧ k' = k then 1 else s.stamped tid k' := by
  rw [stamped, record_metrics, hf]
  split_ifs <;> rfl

theorem stampedCount_mark (hi : i < N) (hnone : s.stamped i k = 0) :
    (s.record f).stampedCount N k = s.stampedCount N k + 1 := by
  have hone : ∀ tid, (s.record f).stamped tid k = s.stamped tid k + if tid = i then 1 else 0 := by
    intro tid
    rw [stamped_mark hf]
    by_cases htid : tid = i <;> simp [htid, hnone]
  simp only [stampedCount, hone, Finset.sum_add_distrib, Finset.sum_ite_eq', Finset.mem_range, hi,
    if_true]

theorem stampedCount_mark_ne {k' : Stamp} (hk : k' ≠ k) :
    (s.record f).stampedCount N k' = s.stampedCount N k' := by
  simp [stampedCount, stamped_mark hf, hk]

end Marks

/-- The totals count the tasks, and `log` lists those that have been started. -/
structure Recorded (numTasks : Nat) (log : List Nat) (s : Sim G) : Prop extends Timed s where
  enqueued : s.metrics.totalEnqueued = s.stampedCount numTasks .enqueued
  completed : s.metrics.completedTasks = s.stampedCount numTasks .finish
  dequeued : s.metrics.totalDequeued = s.metrics.completedTasks
  started : ∀ tid, log.count tid = s.stamped tid .startExec

namespace Recorded

variable {N : Nat} {log : List Nat} {s s' : Sim G} {e : Ev}

theorem of_metrics (h : Recorded N log s) (hnow : s'.now = s.now)
    (hm : s'.metrics = s.metrics) : Recorded N log s' := by
  obtain ⟨⟨hp, ha⟩, h1, h2, h3, h4⟩ := h
  refine ⟨⟨?_, ?_⟩, ?_, ?_, ?_, ?_⟩ <;> simpa only [hnow, hm, stampedCount, stamped]

theorem setStore (h : Recorded N log s) (q : StoreName) (items getQueue : List Nat) :
    Recorded N log (s.setStore q items getQueue) :=
  h.of_metrics rfl rfl

theorem setRandom (h : Recorded N log s) (random : G) : Recorded N log (s.setRandom random) :=
  h.of_metrics rfl rfl

/-- What is recorded besides the times and the totals does not matter. -/
theorem record (h : Recorded N log s) {f : Metrics → Metrics}
    (hf : ∀ m tid k, (f m).stamp tid k = m.stamp tid k)
    (ht : ∀ m, (f m).totalEnqueued = m.totalEnqueued ∧ (f m).totalDequeued = m.totalDequeued ∧
      (f m).completedTasks = m.completedTasks) : Recorded N log (s.record f) := by
  obtain ⟨⟨hp, ha⟩, h1, h2, h3, h4⟩ := h
  refine ⟨⟨?_, ?_⟩, ?_, ?_, ?_, ?_⟩ <;>
    simpa only [record_now, record_metrics, hf, ht, stampedCount, stamped]

/-- A task arrives of which nothing is recorded. -/
theorem recordArrival (h : Recorded N log s) {i : Nat} (hi : ∀ k, s.stamped i k = 0) :
    Recorded N log (s.record (.recordArrival i s.now)) := by
  have hnone : ∀ k, s.metrics.stamp i k = none := fun k => stamped_eq_zero_iff.1 (hi k)
  have hf : s.metrics.Marks (s.metrics.recordArrival i s.now) i .arrival s.now := by
    intro tid k
    rw [Metrics.stamp_recordArrival]
    by_cases htid : tid = i <;> by_cases hk : k = .arrival <;> simp [htid, hk, hnone]
  refine ⟨h.toTimed.mark hf (fun k' hk => by cases hk) fun k' _ => hi k', ?_, ?_, h.dequeued, ?_⟩
  · rw [stampedCount_mark_ne hf (by decide), ← h.enqueued]
    rfl
  · rw [stampedCount_mark_ne hf (by decide), ← h.completed]
    rfl
  · intro tid
    rw [h.started, stamped_mark hf]
    simp

/-- A task is enqueued that has arrived and has not been started. -/
theorem recordPut (h : Recorded N log s) {i : Nat} (hi : i < N) (harr : s.stamped i .arrival = 1)
    (henq : s.stamped i .enqueued = 0) (hstart : s.stamped i .startExec = 0) (lid : Nat)
    (beforePut : ℚ) : Recorded N log (s.record (.recordPut lid i beforePut s.now)) := by
  have hf : s.metrics.Marks (s.metrics.recordPut lid i beforePut s.now) i .enqueued s.now :=
    fun tid k => Metrics.stamp_recordPut ..
  refine ⟨h.toTimed.mark hf (fun k' hk => ?_) fun k' hk => ?_, ?_, ?_, ?_, ?_⟩
  · cases hk
    exact harr
  · cases k' <;> cases hk
    exact hstart
  · rw [stampedCount_mark hf hi henq, ← h.enqueued]
    exact Metrics.recordPut_totalEnqueued ..
  · rw [stampedCount_mark_ne hf (by decide), ← h.completed]
    exact Metrics.recordPut_completedTasks ..
  · rw [record_metrics, Metrics.recordPut_totalDequeued, Metrics.recordPut_completedTasks]
    exact h.dequeued
  · intro tid
    rw [h.started, stamped_mark hf]
    simp

/-- A task is started that has been enqueued and has not been started before. -/
theorem recordStartExec (h : Recorded N log s) {i : Nat} (henq : s.stamped i .enqueued = 1)
    (hstart : s.stamped i .startExec = 0) (hfin : s.stamped i .finish = 0) (fid : Nat) :
    Recorded N (log ++ [i]) (s.record (.recordStartExec i s.now fid)) := by
  have hf : s.metrics.Marks (s.metrics.recordStartExec i s.now fid) i .startExec s.now :=
    fun tid k => Metrics.stamp_recordStartExec ..
  refine ⟨h.toTimed.mark hf (fun k' hk => ?_) fun k' hk => ?_, ?_, ?_, h.dequeued, ?_⟩
  · cases hk
    exact henq
  · cases k' <;> cases hk
    exact hfin
  · rw [stampedCount_mark_ne hf (by decide), ← h.enqueued]
    rfl
  · rw [stampedCount_mark_ne hf (by decide), ← h.completed]
    rfl
  · intro tid
    rw [List.count_append, h.started, stamped_mark hf]
    by_cases htid : tid = i
    · simp [htid, hstart]
    · simp [htid, Ne.symm htid]

/-- A task is finished that has been started. -/
theorem recordExecuted (h : Recorded N log s) {i : Nat} (hi : i < N)
    (hstart : s.stamped i .startExec = 1) (hfin : s.stamped i .finish = 0) (fid : Nat) (start : ℚ) :
    Recorded N log (s.record (.recordExecuted fid i start s.now)) := by
  have hf : s.metrics.Marks (s.metrics.recordExecuted fid i start s.now) i .finish s.now :=
    fun tid k => Metrics.stamp_recordExecuted ..
  refine ⟨h.toTimed.mark hf (fun k' hk => ?_) fun k' hk => ?_, ?_, ?_, ?_, ?_⟩
  · cases hk
    exact hstart
  · cases k' <;> cases hk
  · rw [stampedCount_mark_ne hf (by decide), ← h.enqueued]
    rfl
  · rw [stampedCount_mark hf hi hfin, ← h.completed]
    rfl
  · exact congrArg (· + 1) h.dequeued
  · intro tid
    rw [h.started, stamped_mark hf]
    simp

end Recorded

/-! ## Every step -/

theorem stamped_le_one (s : Sim G) (tid : Nat) (k : Stamp) : s.stamped tid k ≤ 1 :=
  Bool.toNat_le _

@[simp] theorem stamped_hold (s : Sim G) (e : Ev) (tid : Nat) (k : Stamp) :
    (s.hold e).stamped tid k = s.stamped tid k := rfl

section Facts

variable {N n : Nat} {log : List Nat} {s : Sim G}

/-- A task that is somewhere has arrived. -/
theorem Located.lt {tid : Nat} (hl : Located n s tid)
    (h : 0 < s.found tid .buffered + s.found tid .batched + s.found tid .queued +
      s.found tid .executing + s.stamped tid .finish) : tid < n := by
  by_contra hge
  rw [hl.placed, if_neg hge] at h
  cases h

/-- Nothing is recorded of a task that has not arrived. -/
theorem Located.stamped_eq_zero {tid : Nat} (hl : Located n s tid) (ha : Arrivals N n s)
    (hle : n ≤ tid) (k : Stamp) : s.stamped tid k = 0 := by
  obtain ⟨hp, hs, he⟩ := hl
  rw [if_neg (Nat.not_lt.2 hle)] at hp
  have harr := ha.arrived tid
  simp only [Nat.not_lt.2 hle, iff_false, Bool.not_eq_true] at harr
  cases k with
  | arrival => simp [stamped, harr]
  | enqueued | startExec | finish => omega

/-- A task is recorded as enqueued after its arrival and before its start. -/
theorem Located.before_put {lid t : Nat} {rest : List Nat} {beforePut : ℚ}
    (hl : Located n (s.hold (.execPut lid t rest beforePut)) t)
    (ha : Arrivals N n (s.hold (.execPut lid t rest beforePut))) (hr : Timed s) :
    t < N ∧ s.stamped t .arrival = 1 ∧ s.stamped t .enqueued = 0 ∧ s.stamped t .startExec = 0 := by
  have hle := hl.le_one
  have henq := hl.enqueued
  have hone : (Ev.execPut lid t rest beforePut).weight t .putting = 1 := by simp [Ev.weight]
  rw [found_hold, hone, stamped_hold] at henq
  have ht := hl.lt (by omega)
  have hnone : s.stamped t .enqueued = 0 := by omega
  refine ⟨Nat.lt_of_lt_of_le ht ha.le, ?_, hnone, ?_⟩
  · have := (ha.arrived t).2 ht
    exact congrArg Bool.toNat this
  · -- a start would have been recorded after the task was enqueued
    by_contra hpos
    cases hx : s.metrics.stamp t .startExec with
    | none => exact hpos (by simp [stamped, hx])
    | some x =>
      obtain ⟨y, hy, -⟩ := hr.after t .startExec .enqueued x rfl hx
      simp [stamped, hy] at hnone

/-- A task that a follower gets has been recorded as enqueued. -/
theorem Located.before_start {fid t : Nat} (hl : Located n (s.hold (.followerGet fid t)) t)
    (hp : PutsFirst (s.hold (.followerGet fid t))) :
    s.stamped t .enqueued = 1 ∧ s.stamped t .startExec = 0 ∧ s.stamped t .finish = 0 := by
  have hle := hl.le_one
  have henq := hl.enqueued
  have hstart := hl.started
  have hone : (Ev.followerGet fid t).weight t .queued = 1 := by simp [Ev.weight]
  have no_put : (s.hold (.followerGet fid t)).found t .putting = 0 := by
    -- the put would be behind the get that is in hand
    have behind := (List.pairwise_cons.1 hp.order).1
    rw [found_hold, found, tally_eq_zero fun x hx => (behind x hx t).resolve_left (by simp [hone])]
    rfl
  rw [found_hold (k := .queued), hone] at hle henq
  rw [no_put] at henq
  simp only [stamped_hold] at hle henq hstart
  have := stamped_le_one s t .enqueued
  omega

/-- A task that has been under execution has been started and is not finished. -/
theorem Located.before_finish {fid t : Nat} {start : ℚ}
    (hl : Located n (s.hold (.followerTimeout fid t start)) t) :
    t < n ∧ s.stamped t .startExec = 1 ∧ s.stamped t .finish = 0 := by
  have hle := hl.le_one
  have hstart := hl.started
  have hone : (Ev.followerTimeout fid t start).weight t .executing = 1 := by simp [Ev.weight]
  rw [found_hold (k := .executing), hone] at hle hstart
  simp only [stamped_hold] at hle hstart
  have := stamped_le_one s t .startExec
  exact ⟨hl.lt (by rw [found_hold (k := .executing), hone]; omega), by omega, by omega⟩

end Facts

namespace Recorded

variable {c : Setup G} {n : Nat} {log : List Nat} {s : Sim G} {e : Ev}

theorem arrivalLoop (h : Recorded c.numTasks log s) (hl : ∀ k, s.stamped n k = 0) :
    Recorded c.numTasks log (arrivalLoop c n s) := by
  unfold Behavioral.arrivalLoop
  split_ifs
  · exact (h.recordArrival hl).of_metrics rfl rfl
  · exact h.of_metrics rfl rfl

theorem afterDispatch (h : Recorded N log s) (lid : Nat) (batch : List Nat) (start : ℚ) :
    Recorded N log (afterDispatch lid batch start s) :=
  of_metrics (h.record (f := .addLeaderBusy lid (s.now - start)) (by simp) fun _ => ⟨rfl, rfl, rfl⟩)
    (enqueueLoop_now ..) (enqueueLoop_metrics ..)

theorem depthLoop (h : Recorded N log s) (c : Setup G) : Recorded N log (depthLoop c s) :=
  of_metrics
    (record (h.record (by simp) fun _ => by exact ⟨rfl, rfl, rfl⟩) (by simp) fun _ => by
      exact ⟨rfl, rfl, rfl⟩)
    (sampleTimeout_now ..) (sampleTimeout_metrics ..)

theorem afterExecution {i : Nat} (h : Recorded N log s) (hi : i < N)
    (hstart : s.stamped i .startExec = 1) (hfin : s.stamped i .finish = 0) (fid : Nat) (start : ℚ) :
    Recorded N log (afterExecution fid i start s) :=
  (h.recordExecuted hi hstart hfin fid start).of_metrics (get_now ..) (get_metrics ..)

theorem callbacks (h : Recorded c.numTasks log (s.hold e)) (ha : Arrivals c.numTasks n (s.hold e))
    (hl : ∀ tid, Located n (s.hold e) tid) (he : e.starts = none) :
    Recorded c.numTasks log (callbacks c e s) := by
  have hs : Recorded c.numTasks log s := h.of_metrics rfl rfl
  have fresh : ∀ i, e.next = some i → ∀ k, s.stamped i k = 0 := by
    intro i hi k
    obtain rfl := ha.next _ (List.mem_cons_self ..) i hi
    exact (hl i).stamped_eq_zero ha le_rfl k
  cases e with
  | leaderInit lid => exact hs.of_metrics (get_now ..) (get_metrics ..)
  | followerInit fid => exact hs.of_metrics (get_now ..) (get_metrics ..)
  | depthInit | depthTimeout => exact hs.depthLoop c
  | rateInit => exact hs.of_metrics (sampleTimeout_now ..) (sampleTimeout_metrics ..)
  | rateTimeout lastT lastEnq lastDeq =>
    exact of_metrics (hs.record (by simp) fun _ => by exact ⟨rfl, rfl, rfl⟩) (sampleTimeout_now ..)
      (sampleTimeout_metrics ..)
  | arrivalEnd | samplerFailed => exact hs
  | leaderGet lid tid =>
    simp only [Behavioral.callbacks, afterLeaderGet]
    split_ifs
    · exact hs.of_metrics rfl rfl
    · exact ((hs.setRandom _).setStore _ _ _).afterDispatch _ _ _
  | leaderTimeout lid batch start => exact hs.afterDispatch _ _ _
  | arrivalInit => exact hs.arrivalLoop (fresh 0 rfl)
  | arrivalTimeout i => exact hs.arrivalLoop (fresh (i + 1) rfl)
  | arrivalPut i =>
    simp only [Behavioral.callbacks, afterArrivalPut]
    have hset : Recorded c.numTasks log
        ((s.triggerGet .arrivalBuffer).setRandom
          (c.interarrival (s.triggerGet .arrivalBuffer).random).2) :=
      hs.of_metrics (triggerGet_now ..) (triggerGet_metrics ..)
    split_ifs
    · exact hset.of_metrics rfl rfl
    · refine hset.arrivalLoop fun k => ?_
      simpa [stamped] using fresh (i + 1) rfl k
  | execPut lid t rest beforePut =>
    obtain ⟨hN, harr, henq, hstart⟩ := (hl t).before_put ha hs.toTimed
    exact (hs.recordPut hN harr henq hstart lid beforePut).of_metrics
      (by simp [Behavioral.callbacks]) (by simp [Behavioral.callbacks])
  | followerGet fid t => cases he
  | followerTimeout fid t start =>
    obtain ⟨hn, hstart, hfin⟩ := (hl t).before_finish
    exact hs.afterExecution (Nat.lt_of_lt_of_le hn ha.le) hstart hfin fid start

theorem afterFollowerGet {fid t : Nat} (h : Recorded c.numTasks log (s.hold (.followerGet fid t)))
    (hp : PutsFirst (s.hold (.followerGet fid t)))
    (ha : Arrivals c.numTasks n (s.hold (.followerGet fid t)))
    (hl : Located n (s.hold (.followerGet fid t)) t) :
    Recorded c.numTasks (log ++ [t]) (afterFollowerGet c fid t s) := by
  have hs : Recorded c.numTasks log s := h.of_metrics rfl rfl
  obtain ⟨henq, hstart, hfin⟩ := hl.before_start hp
  have started := hs.recordStartExec henq hstart hfin fid
  have hmark : ∀ k, (s.record (.recordStartExec t s.now fid)).stamped t k =
      if k = .startExec then 1 else s.stamped t k := by
    intro k
    rw [stamped_mark fun tid k => Metrics.stamp_recordStartExec ..]
    simp
  simp only [Behavioral.afterFollowerGet]
  split_ifs
  · exact started.of_metrics rfl rfl
  · have ht := hl.lt (by simp only [found_hold, Ev.weight, List.count_singleton_self]; omega)
    refine (started.setRandom _).afterExecution (Nat.lt_of_lt_of_le ht ha.le) ?_ ?_ _ _
    · exact (hmark .startExec).trans (if_pos rfl)
    · exact (hmark .finish).trans hfin

theorem start (random : G) : Recorded c.numTasks [] (start c random) := by
  have no_stamp : ∀ tid k, (Behavioral.start c random).metrics.stamp tid k = none := by
    intro tid k
    cases k <;> rfl
  have none_counted : ∀ k, (Behavioral.start c random).stampedCount c.numTasks k = 0 := by
    simp [stampedCount, stamped, no_stamp]
  refine ⟨⟨fun tid k x hx => ?_, fun tid k k' x _ hx => ?_⟩, (none_counted _).symm,
    (none_counted _).symm, rfl, fun tid => ?_⟩
  · rw [no_stamp] at hx
    cases hx
  · rw [no_stamp] at hx
    cases hx
  · simp [stamped, no_stamp]

end Recorded

/-! ## Every run -/

/-- What holds in every state of a run. -/
structure Inv (numTasks : Nat) (log : List Nat) (s : Sim G) : Prop extends
    PutsFirst s, Recorded numTasks log s where
  census : Census numTasks s

theorem PutsFirst.advance {s : Sim G} {t : ℚ} {e : Ev} {rest : List (ℚ × Ev)} (h : PutsFirst s)
    (hagenda : s.agenda = (t, e) :: rest) : PutsFirst { s with now := t } :=
  ⟨h.toOrdered.advance hagenda, h.order⟩

theorem Inv.advance {N : Nat} {log : List Nat} {s : Sim G} {t : ℚ} {e : Ev} {rest : List (ℚ × Ev)}
    (h : Inv N log s) (hagenda : s.agenda = (t, e) :: rest) : Inv N log { s with now := t } :=
  ⟨h.toPutsFirst.advance hagenda,
    ⟨⟨fun tid k x hx => (h.past tid k x hx).trans (h.now_le hagenda), h.after⟩, h.enqueued,
      h.completed, h.dequeued, h.started⟩, h.census.advance t⟩

/-- The tasks that are started in the first `n` rounds of the loop. -/
def executed (c : Setup G) (random : G) (n : Nat) : List Nat :=
  Machine.stepsLog (round c) (fun s => s.due.bind Ev.starts) n (start c random)

theorem Inv.start (c : Setup G) (random : G) : Inv c.numTasks [] (start c random) :=
  ⟨.start random, .start random, .start c random⟩

theorem Inv.callbacks {log : List Nat} {s : Sim G} {e : Ev} (h : Inv c.numTasks log (s.hold e)) :
    Inv c.numTasks (log ++ e.starts.toList) (callbacks c e s) := by
  obtain ⟨k, ha, hl⟩ := h.census
  refine ⟨h.toPutsFirst.callbacks hl, ?_, h.census.callbacks⟩
  cases hstarts : e.starts with
  | none => simpa using h.toRecorded.callbacks ha hl hstarts
  | some t =>
    cases e with
    | followerGet fid t' =>
      cases hstarts
      exact h.toRecorded.afterFollowerGet h.toPutsFirst ha (hl t)
    | _ => cases hstarts

theorem inv_reached (c : Setup G) (random : G) (n : Nat) :
    Inv c.numTasks (executed c random n) (reached c random n) :=
  loop_invariant_log Ev.starts (.start c random) (fun _ _ _ _ _ h hagenda => h.advance hagenda)
    (fun _ _ _ h => h.callbacks) n

/-- Only the tasks that there are have times. -/
theorem Inv.lt_of_stamp {N : Nat} {log : List Nat} {s : Sim G} (h : Inv N log s) {tid : Nat}
    {k : Stamp} {t : ℚ} (ht : s.metrics.stamp tid k = some t) : tid < N := by
  obtain ⟨n, ha, hl⟩ := h.census
  by_contra hge
  have hzero := (hl tid).stamped_eq_zero ha (ha.le.trans (Nat.not_lt.1 hge)) k
  rw [stamped_eq_zero_iff.1 hzero] at ht
  cases ht

/-- No time of a task is recorded twice. -/
theorem Inv.stamp_callbacks {c : Setup G} {log : List Nat} {e : Ev} {s : Sim G}
    (h : Inv c.numTasks log (s.hold e)) {tid : Nat} {k : Stamp} {t : ℚ}
    (ht : s.metrics.stamp tid k = some t) :
    (Behavioral.callbacks c e s).metrics.stamp tid k = some t := by
  obtain ⟨n, ha, hl⟩ := h.census
  have hone : s.stamped tid k = 1 := by simp [stamped, ht]
  obtain hsame | ⟨-, hrec⟩ | ⟨hnext, -⟩ := callbacks_stamp_cases (c := c) e s tid k
  · exact hsame.trans ht
  · have hzero : s.stamped tid k = 0 := by
      cases hrec with
      | enqueued => exact ((hl tid).before_put ha ⟨h.past, h.after⟩).2.2.1
      | startExec => exact ((hl tid).before_start h.toPutsFirst).2.1
      | finishAtOnce => exact ((hl tid).before_start h.toPutsFirst).2.2
      | finish => exact (hl tid).before_finish.2.2
    omega
  · obtain rfl := ha.next _ (List.mem_cons_self ..) tid hnext
    have hzero : s.stamped tid k = 0 := (hl tid).stamped_eq_zero ha le_rfl k
    omega

/-- A time that has been recorded stays. -/
theorem stamp_reached_of_le {c : Setup G} {random : G} {n m : Nat} (hle : n ≤ m) {tid : Nat}
    {k : Stamp} {t : ℚ} (h : (reached c random n).metrics.stamp tid k = some t) :
    (reached c random m).metrics.stamp tid k = some t := by
  refine Machine.steps_stable (P := fun s : Sim G => s.metrics.stamp tid k = some t)
    (fun i s' hi hround => ?_) hle h
  obtain ⟨t', e, rest, hagenda, -, -, rfl⟩ := round_cases hround
  have hinv := (inv_reached c random i).advance hagenda
  unfold reached at hinv
  rw [hagenda] at hinv
  exact hinv.stamp_callbacks hi

/-! ## Places -/

/-- The places of a task: a get that has been granted counts for the store, the
put that a leader waits for no longer for its batch. -/
inductive Place where
  | arrivalBuffer
  | batch (lid : Nat)
  | execQueue
  | follower (fid : Nat)
  | finished
  deriving DecidableEq

/-- The leader whose batch an event carries. -/
def Ev.leader : Ev → Option Nat
  | .leaderTimeout lid _ _ => some lid
  | .execPut lid _ _ _ => some lid
  | _ => none

/-- The follower that executes a task until an event. -/
def Ev.follower : Ev → Option Nat
  | .followerTimeout fid _ _ => some fid
  | _ => none

/-- How often a task is found in a place. -/
def Sim.located (s : Sim G) (tid : Nat) : Place → Nat
  | .arrivalBuffer => s.found tid .buffered
  | .batch lid => tally (share Ev.leader (Ev.weight tid .batched) lid) s.agenda
  | .execQueue => s.found tid .queued
  | .follower fid => tally (share Ev.follower (Ev.weight tid .executing) fid) s.agenda
  | .finished => s.stamped tid .finish

/-- How often a task is found in the places of the same sort. -/
def Sim.sort (s : Sim G) (tid : Nat) : Place → Nat
  | .arrivalBuffer => s.found tid .buffered
  | .batch _ => s.found tid .batched
  | .execQueue => s.found tid .queued
  | .follower _ => s.found tid .executing
  | .finished => s.stamped tid .finish

theorem located_le_sort (s : Sim G) (tid : Nat) (p : Place) : s.located tid p ≤ s.sort tid p := by
  have share_le : ∀ (own : Ev → Option Nat) (w : Ev → Nat) k,
      tally (share own w k) s.agenda ≤ tally w s.agenda := by
    intro own w k
    refine tally_mono (fun e => ?_) _
    unfold share
    split_ifs <;> omega
  cases p with
  | arrivalBuffer | execQueue | finished => exact Nat.le_refl _
  | batch lid => exact (share_le _ _ _).trans (Nat.le_add_left _ _)
  | follower fid => exact (share_le _ _ _).trans (Nat.le_add_left _ _)

/-- A task that has arrived is in exactly one place, once. -/
theorem Located.exists_place {n tid : Nat} {s : Sim G} (h : Located n s tid) (ht : tid < n) :
    ∃ p, s.located tid p = 1 ∧ ∀ p', p' ≠ p → s.located tid p' = 0 := by
  have hp := h.placed
  rw [if_pos ht] at hp
  have zero : ∀ p, s.sort tid p = 0 → s.located tid p = 0 := fun p hs => by
    have := located_le_sort s tid p
    omega
  have cases : s.found tid .buffered = 1 ∨ s.found tid .batched = 1 ∨ s.found tid .queued = 1 ∨
      s.found tid .executing = 1 ∨ s.stamped tid .finish = 1 := by omega
  obtain hone | hone | hone | hone | hone := cases
  · refine ⟨.arrivalBuffer, hone, fun p' hne => ?_⟩
    cases p' with
    | arrivalBuffer => exact absurd rfl hne
    | _ => exact zero _ (by simp only [sort]; omega)
  · have hown : ∀ e, 0 < Ev.weight tid .batched e → e.leader.isSome := by
      intro e he
      cases e <;> first | rfl | cases he
    obtain ⟨lid, hlid, hother⟩ := exists_share hown ((Nat.zero_add _).symm.trans hone)
    refine ⟨.batch lid, hlid, fun p' hne => ?_⟩
    cases p' with
    | batch lid' => exact hother lid' fun heq => hne (congrArg _ heq)
    | _ => exact zero _ (by simp only [sort]; omega)
  · refine ⟨.execQueue, hone, fun p' hne => ?_⟩
    cases p' with
    | execQueue => exact absurd rfl hne
    | _ => exact zero _ (by simp only [sort]; omega)
  · have hown : ∀ e, 0 < Ev.weight tid .executing e → e.follower.isSome := by
      intro e he
      cases e <;> first | rfl | cases he
    obtain ⟨fid, hfid, hother⟩ := exists_share hown ((Nat.zero_add _).symm.trans hone)
    refine ⟨.follower fid, hfid, fun p' hne => ?_⟩
    cases p' with
    | follower fid' => exact hother fid' fun heq => hne (congrArg _ heq)
    | _ => exact zero _ (by simp only [sort]; omega)
  · refine ⟨.finished, hone, fun p' hne => ?_⟩
    cases p' with
    | finished => exact absurd rfl hne
    | _ => exact zero _ (by simp only [sort]; omega)

/-- The task is in exactly one place, once. -/
def Sim.InOnePlace (s : Sim G) (tid : Nat) : Prop :=
  ∃ p, s.located tid p = 1 ∧ ∀ p', p' ≠ p → s.located tid p' = 0

/-- All times of the task are recorded, each no later than the next. -/
def Sim.CausalOrder (s : Sim G) (tid : Nat) : Prop :=
  ∃ a q b f, s.metrics.stamp tid .arrival = some a ∧ s.metrics.stamp tid .enqueued = some q ∧
    s.metrics.stamp tid .startExec = some b ∧ s.metrics.stamp tid .finish = some f ∧
    a ≤ q ∧ q ≤ b ∧ b ≤ f

theorem Timed.causalOrder {s : Sim G} (h : Timed s) {tid : Nat} (hf : s.stamped tid .finish = 1) :
    s.CausalOrder tid := by
  cases hx : s.metrics.stamp tid .finish with
  | none => simp [stamped, hx] at hf
  | some f =>
    obtain ⟨b, hb, hbf⟩ := h.after tid .finish .startExec f rfl hx
    obtain ⟨q, hq, hqb⟩ := h.after tid .startExec .enqueued b rfl hb
    obtain ⟨a, ha, haq⟩ := h.after tid .enqueued .arrival q rfl hq
    exact ⟨a, q, b, f, ha, hq, hb, hx, haq, hqb, hbf⟩

/-- If as many times are recorded as there are tasks, the time of each is. -/
theorem stamped_of_count {N : Nat} {s : Sim G} {k : Stamp} (h : N ≤ s.stampedCount N k) {tid : Nat}
    (ht : tid < N) : s.stamped tid k = 1 := by
  by_contra hne
  have hzero : s.stamped tid k < 1 := Nat.lt_of_le_of_ne (stamped_le_one s tid k) hne
  have hlt : s.stampedCount N k < ∑ _ ∈ Finset.range N, 1 :=
    Finset.sum_lt_sum (fun i _ => stamped_le_one s i k) ⟨tid, Finset.mem_range.2 ht, hzero⟩
  simp at hlt
  omega

/-- The tasks that are finished when the loop is left by completion: all. -/
theorem finished_of_completed {c : Setup G} {random : G} {n : Nat}
    (hdone : c.numTasks ≤ (reached c random n).metrics.completedTasks) :
    ∀ tid < c.numTasks, (reached c random n).stamped tid .finish = 1 := fun _ ht =>
  stamped_of_count ((inv_reached c random n).completed ▸ hdone) ht

/-- All times of all tasks are recorded when the loop is left by completion. -/
theorem stamp_of_completed {c : Setup G} {random : G} {n : Nat}
    (hdone : c.numTasks ≤ (reached c random n).metrics.completedTasks) {tid : Nat}
    (ht : tid < c.numTasks) (k : Stamp) : ∃ t, (reached c random n).metrics.stamp tid k = some t := by
  obtain ⟨a, q, b, f, ha, hq, hb, hf, -⟩ :=
    (inv_reached c random n).toTimed.causalOrder (finished_of_completed hdone tid ht)
  cases k with
  | arrival => exact ⟨a, ha⟩
  | enqueued => exact ⟨q, hq⟩
  | startExec => exact ⟨b, hb⟩
  | finish => exact ⟨f, hf⟩

/-- **Every task is executed once.**  In every state that the loop reaches, each
task that has arrived is in exactly one place, and none has been started twice.
If the loop is left by completion, the totals are the number of tasks, and the
times of each task are in order. -/
theorem tasks_executed_once (c : Setup G) (random : G) (n : Nat) :
    (∀ tid, ((reached c random n).metrics.taskInfo tid).arrival.isSome →
      (reached c random n).InOnePlace tid) ∧
    (executed c random n).Nodup ∧
    (c.numTasks ≤ (reached c random n).metrics.completedTasks →
      (reached c random n).metrics.totalEnqueued = c.numTasks ∧
      (reached c random n).metrics.totalDequeued = c.numTasks ∧
      (reached c random n).metrics.completedTasks = c.numTasks ∧
      ∀ tid < c.numTasks, (reached c random n).CausalOrder tid) := by
  have h := inv_reached c random n
  obtain ⟨k, ha, hl⟩ := h.census
  refine ⟨fun tid harr => (hl tid).exists_place ((ha.arrived tid).1 harr), ?_, fun hdone => ?_⟩
  · rw [List.nodup_iff_count_le_one]
    intro tid
    rw [h.started]
    exact stamped_le_one _ _ _
  · have hfin := finished_of_completed hdone
    have hcausal := fun tid ht => h.toTimed.causalOrder (hfin tid ht)
    have all : ∀ k : Stamp, (∀ tid < c.numTasks, (reached c random n).stamped tid k = 1) →
        (reached c random n).stampedCount c.numTasks k = c.numTasks := by
      intro k hk
      rw [stampedCount, Finset.sum_congr rfl fun tid ht => hk tid (Finset.mem_range.1 ht)]
      simp
    have hcompleted : (reached c random n).metrics.completedTasks = c.numTasks := by
      rw [h.completed, all .finish hfin]
    refine ⟨?_, h.dequeued.trans hcompleted, hcompleted, hcausal⟩
    rw [h.enqueued]
    refine all .enqueued fun tid ht => ?_
    obtain ⟨a, q, b, f, -, hq, -⟩ := hcausal tid ht
    simp [stamped, hq]

end TaskQueueCoSim.Behavioral
