import Mathlib.Tactic.Cases
import TaskQueueCoSim.Model.Behavioral

/-!
# Where the tasks are

A task that has arrived is in one place only.  `found` counts how often a task
is found in each part of the state; every event moves it from part to part.
-/

namespace TaskQueueCoSim.Behavioral

open Agenda Sim

variable {G : Type}

/-- The parts of the state where a task is counted: in the arrival buffer or
granted from it, in a batch, in the execution queue or granted from it, under
execution, and as the subject of a put that has not been processed. -/
inductive Gauge where
  | buffered | batched | queued | executing | putting
  deriving DecidableEq

/-- How often an event stands for a task. -/
def Ev.weight (tid : Nat) : Gauge → Ev → Nat
  | .buffered, .leaderGet _ t => [t].count tid
  | .batched, .leaderTimeout _ batch _ => batch.count tid
  | .batched, .execPut _ _ rest _ => rest.count tid
  | .queued, .followerGet _ t => [t].count tid
  | .executing, .followerTimeout _ t _ => [t].count tid
  | .putting, .execPut _ t _ _ => [t].count tid
  | _, _ => 0

namespace Sim

/-- How often a task is among the items of a store. -/
def waiting (s : Sim G) (tid : Nat) : Gauge → Nat
  | .buffered => (s.stores .arrivalBuffer).items.count tid
  | .queued => (s.stores .execQueue).items.count tid
  | _ => 0

def found (s : Sim G) (tid : Nat) (k : Gauge) : Nat :=
  s.waiting tid k + tally (Ev.weight tid k) s.agenda

end Sim

/-- The part that counts the items of a store. -/
def StoreName.gauge : StoreName → Gauge
  | .arrivalBuffer => .buffered
  | .execQueue => .queued

section Gauge

variable (s : Sim G) (tid : Nat) (k : Gauge)

@[simp] theorem found_hold (e : Ev) : (s.hold e).found tid k = e.weight tid k + s.found tid k := by
  have : (s.hold e).waiting tid k = s.waiting tid k := by cases k <;> rfl
  simp only [found, hold_agenda, tally_cons]
  omega

@[simp] theorem found_schedule (d : ℚ) (e : Ev) :
    (s.schedule d e).found tid k = e.weight tid k + s.found tid k := by
  simp only [found, schedule_agenda, tally_schedule]
  have : (s.schedule d e).waiting tid k = s.waiting tid k := by cases k <;> rfl
  omega

@[simp] theorem found_record (f : Metrics → Metrics) :
    (s.record f).found tid k = s.found tid k := by
  cases k <;> rfl

@[simp] theorem found_setRandom (random : G) :
    (s.setRandom random).found tid k = s.found tid k := by
  cases k <;> rfl

/-- What the items of a store count for. -/
theorem found_setStore (q : StoreName) (items getQueue : List Nat) :
    (s.setStore q items getQueue).found tid k +
        (if k = q.gauge then (s.stores q).items.count tid else 0) =
      s.found tid k + if k = q.gauge then items.count tid else 0 := by
  cases q <;> cases k <;> simp [found, waiting, StoreName.gauge] <;> omega

@[simp] theorem found_triggerGet (q : StoreName) :
    (s.triggerGet q).found tid k = s.found tid k := by
  obtain ⟨h, -⟩ | ⟨t, items, pid, getQueue, hq, h⟩ := s.triggerGet_cases q
  · rw [h]
  · have hw : (q.gotten pid t).weight tid k = if k = q.gauge then [t].count tid else 0 := by
      cases q <;> cases k <;> rfl
    have hu := found_setStore s tid k q items getQueue
    rw [hq] at hu
    rw [h, found_schedule, hw]
    split_ifs at hu ⊢
    · simp only [List.count_cons, List.count_nil] at hu ⊢
      omega
    · omega

@[simp] theorem found_put (q : StoreName) (t : Nat) (e : Ev) :
    (s.put q t e).found tid k =
      (if k = q.gauge then [t].count tid else 0) + e.weight tid k + s.found tid k := by
  have hu := found_setStore s tid k q ((s.stores q).items ++ [t]) (s.stores q).getQueue
  rw [put, found_schedule]
  split_ifs at hu ⊢
  · rw [List.count_append] at hu
    omega
  · omega

@[simp] theorem found_get (q : StoreName) (pid : Nat) :
    (s.get q pid).found tid k = s.found tid k := by
  have hu := found_setStore s tid k q (s.stores q).items ((s.stores q).getQueue ++ [pid])
  rw [Sim.get, found_triggerGet]
  split_ifs at hu <;> omega

end Gauge

/-! ## The arrival process -/

/-- The first `n` tasks have arrived, and the arrival process goes on with the next. -/
structure Arrivals (numTasks n : Nat) (s : Sim G) : Prop where
  le : n ≤ numTasks
  arrived : ∀ tid, (s.metrics.stamp tid .arrival).isSome ↔ tid < n
  next : ∀ x ∈ s.agenda, ∀ i, x.2.next = some i → i = n
  alone : tally (fun e => e.next.isSome.toNat) s.agenda ≤ 1

namespace Arrivals

variable {N n : Nat} {s : Sim G} {e : Ev}

theorem of_hold (h : Arrivals N n (s.hold e)) : Arrivals N n s where
  le := h.le
  arrived := h.arrived
  next x hx := h.next x (List.mem_cons_of_mem _ hx)
  alone := by
    have := h.alone
    rw [hold_agenda, tally_cons] at this
    omega

theorem schedule (h : Arrivals N n s) (d : ℚ) (he : e.next = none) :
    Arrivals N n (s.schedule d e) where
  le := h.le
  arrived := h.arrived
  next x hx i hi := by
    rcases mem_schedule.1 hx with rfl | hx
    · rw [he] at hi
      cases hi
    · exact h.next x hx i hi
  alone := by simpa [he] using h.alone

theorem record (h : Arrivals N n s) {f : Metrics → Metrics}
    (hf : ∀ m tid, (f m).stamp tid .arrival = m.stamp tid .arrival) : Arrivals N n (s.record f) where
  le := h.le
  arrived tid := by rw [record_metrics, hf, h.arrived]
  next := h.next
  alone := h.alone

theorem setStore (h : Arrivals N n s) (q : StoreName) (items getQueue : List Nat) :
    Arrivals N n (s.setStore q items getQueue) :=
  ⟨h.le, h.arrived, h.next, h.alone⟩

theorem setRandom (h : Arrivals N n s) (random : G) : Arrivals N n (s.setRandom random) :=
  ⟨h.le, h.arrived, h.next, h.alone⟩

/-- The order of the events does not matter. -/
theorem perm {s' : Sim G} (h : Arrivals N n s) (hm : s'.metrics = s.metrics)
    (hp : s'.agenda.Perm s.agenda) : Arrivals N n s' where
  le := h.le
  arrived := hm ▸ h.arrived
  next x hx := h.next x (hp.mem_iff.1 hx)
  alone := tally_perm _ hp ▸ h.alone

theorem hold_triggerGet (h : Arrivals N n (s.hold e)) (q : StoreName) :
    Arrivals N n ((s.triggerGet q).hold e) := by
  obtain ⟨hs, -⟩ | ⟨t, items, pid, getQueue, -, hs⟩ := s.triggerGet_cases q
  · rwa [hs]
  · rw [hs]
    refine ((h.setStore q items getQueue).schedule 0 (e := q.gotten pid t) (by cases q <;> rfl)).perm
      rfl ?_
    exact ((schedule_perm _ _ _).cons _).trans
      ((List.Perm.swap _ _ _).trans (schedule_perm _ _ _).symm)

/-- The arrival process makes the next task, until it has made all. -/
theorem arrivalLoop {c : Setup G} {i : Nat} (h : Arrivals c.numTasks n (s.hold e))
    (he : e.next = some i) :
    Arrivals c.numTasks (if n < c.numTasks then n + 1 else n) (arrivalLoop c i s) := by
  obtain rfl := h.next _ (List.mem_cons_self ..) i he
  have halone := h.alone
  rw [hold_agenda, tally_cons, he] at halone
  unfold Behavioral.arrivalLoop
  split_ifs with hi
  · refine ⟨hi, fun tid => ?_, fun x hx j hj => ?_, ?_⟩
    · have := h.arrived tid
      rw [put_metrics, record_metrics, Metrics.stamp_recordArrival]
      by_cases htid : tid = i
      · simp [htid]
      · rw [if_neg htid]
        exact this.trans (by omega)
    · rcases mem_schedule.1 hx with rfl | hx
      · exact (Option.some.inj hj).symm
      · have hpos := le_tally (fun e => e.next.isSome.toNat) hx
        rw [hj, setStore_agenda, record_agenda] at hpos
        simp only [Option.isSome_some, Bool.toNat_true] at hpos halone
        omega
    · rw [put_agenda, tally_schedule, record_agenda]
      exact halone
  · exact h.of_hold.schedule 0 rfl

/-- The arrival process waits for the timeout as it waited for the put. -/
theorem arrivalTimeout {i : Nat} (h : Arrivals N n (s.hold (.arrivalPut i))) (d : ℚ) :
    Arrivals N n (s.schedule d (.arrivalTimeout i)) where
  le := h.le
  arrived := h.arrived
  next x hx j hj := by
    rcases mem_schedule.1 hx with rfl | hx
    · exact h.next _ (List.mem_cons_self ..) j hj
    · exact h.next _ (List.mem_cons_of_mem _ hx) j hj
  alone := by simpa [Ev.next] using h.alone

/-- What is no matter of the arrival process leaves it as it is. -/
theorem callbacks {c : Setup G} (h : Arrivals N n (s.hold e)) (he : e.next = none) :
    Arrivals N n (callbacks c e s) :=
  callbacks_closed e s (fun _ _ _ _ h => h.setStore _ _ _) (fun _ _ h => h.setRandom _)
    (fun _ _ hf h => h.record (hf he)) (fun _ _ _ _ he' h => h.schedule _ (he'.next_eq_none he))
    h.of_hold

end Arrivals

/-- An event that a process begins with stands for no task. -/
theorem Ev.Initial.weight {e : Ev} (h : e.Initial) (tid : Nat) (k : Gauge) : e.weight tid k = 0 := by
  cases e <;> first | exact h.elim | cases k <;> rfl

/-- At the start only the arrival process has something to go on with. -/
theorem start_idle (c : Setup G) (random : G) : ∀ x ∈ (start c random).agenda,
    x = (0, .arrivalInit) ∨ x.2.next = none := by
  rintro ⟨t, e⟩ hx
  obtain ⟨rfl, hinit⟩ := start_initial c random _ hx
  cases e <;> first | exact .inl rfl | exact .inr rfl | exact hinit.elim

theorem Arrivals.start (c : Setup G) (random : G) : Arrivals c.numTasks 0 (start c random) := by
  refine ⟨Nat.zero_le _, fun tid => ?_, fun x hx i hi => ?_, ?_⟩
  · simp [Behavioral.start, Metrics.init, Metrics.stamp]
  · obtain rfl | hnext := start_idle c random x hx
    · exact (Option.some.inj hi).symm
    · rw [hnext] at hi
      cases hi
  · obtain ⟨rest, hagenda, hrest⟩ := start_agenda c random
    rw [hagenda, tally_cons, tally_eq_zero fun x hx => ?_]
    · exact Nat.le_refl 1
    · obtain ⟨-, ⟨_, h⟩ | ⟨_, h⟩ | h | h⟩ := hrest x hx <;> rw [h] <;> rfl

/-! ## The laws of the census -/

/-- One if the time is recorded for the task. -/
def Sim.stamped (s : Sim G) (tid : Nat) (k : Stamp) : Nat := (s.metrics.stamp tid k).isSome.toNat

theorem stamped_eq_zero_iff {s : Sim G} {tid : Nat} {k : Stamp} :
    s.stamped tid k = 0 ↔ s.metrics.stamp tid k = none := by
  simp [Sim.stamped, Bool.toNat_eq_zero]

/-- The first `n` tasks are in one place each; a task has been started if it is
under execution or finished, and recorded as enqueued if its put has been
processed. -/
structure Located (n : Nat) (s : Sim G) (tid : Nat) : Prop where
  placed : s.found tid .buffered + s.found tid .batched + s.found tid .queued +
    s.found tid .executing + s.stamped tid .finish = if tid < n then 1 else 0
  started : s.stamped tid .startExec = s.found tid .executing + s.stamped tid .finish
  enqueued : s.found tid .putting + s.stamped tid .enqueued =
    s.found tid .queued + s.found tid .executing + s.stamped tid .finish

namespace Located

variable {n tid : Nat} {s s' : Sim G} {e : Ev}

theorem congr (h : Located n s tid) (hg : ∀ k, s'.found tid k = s.found tid k)
    (hm : ∀ k, s'.metrics.stamp tid k = s.metrics.stamp tid k) : Located n s' tid := by
  obtain ⟨hp, hs, he⟩ := h
  constructor <;> simpa only [stamped, hg, hm]

theorem get (h : Located n s tid) (q : StoreName) (pid : Nat) : Located n (s.get q pid) tid :=
  h.congr (by simp) (by simp)

theorem of_hold (h : Located n (s.hold e) tid) (he : ∀ k, e.weight tid k = 0) : Located n s tid :=
  h.congr (by simp [he]) (by simp)

theorem hold_record (h : Located n (s.hold e) tid) {f : Metrics → Metrics}
    (hf : ∀ m k, (f m).stamp tid k = m.stamp tid k) : Located n ((s.record f).hold e) tid :=
  h.congr (by simp) fun k => by simp [hf]

/-- What is enqueued leaves the batch; its put is processed later. -/
theorem enqueueLoop {lid : Nat} {batch : List Nat} {start : ℚ}
    (h : Located n (s.hold (.leaderTimeout lid batch start)) tid) :
    Located n (enqueueLoop lid batch s) tid := by
  cases batch with
  | nil => exact (h.of_hold fun k => by cases k <;> rfl).get _ _
  | cons t rest =>
    obtain ⟨hp, hs, he⟩ := h
    constructor <;>
      simp [Behavioral.enqueueLoop, Ev.weight, StoreName.gauge, stamped, List.count_cons]
        at hp hs he ⊢ <;> omega

theorem afterDispatch {lid : Nat} {batch : List Nat} {start : ℚ}
    (h : Located n (s.hold (.leaderTimeout lid batch start)) tid) :
    Located n (afterDispatch lid batch start s) tid :=
  (h.hold_record (f := .addLeaderBusy lid (s.now - start)) (by simp)).enqueueLoop

/-- An event in hand may be scheduled. -/
theorem schedule (h : Located n (s.hold e) tid) (d : ℚ) : Located n (s.schedule d e) tid :=
  h.congr (by simp) (by simp)

/-- A leader that has got a task has it in its batch, with what it takes from the items. -/
theorem afterLeaderGet {lid t : Nat} (h : Located n (s.hold (.leaderGet lid t)) tid) (c : Setup G) :
    Located n (afterLeaderGet c lid t s) tid := by
  have batched : Located n (Sim.hold
      (.leaderTimeout lid (fillBatch c.batchEnqueue [t] (s.stores .arrivalBuffer).items).1 s.now)
      ((s.setRandom (c.dispatchTime s.random).2).setStore .arrivalBuffer
        (fillBatch c.batchEnqueue [t] (s.stores .arrivalBuffer).items).2
        (s.stores .arrivalBuffer).getQueue)) tid := by
    have hfill := congrArg (List.count tid) <|
      fillBatch_append c.batchEnqueue [t] (s.stores .arrivalBuffer).items
    rw [List.count_append, List.count_append] at hfill
    have hset := fun k => found_setStore (s.setRandom (c.dispatchTime s.random).2) tid k .arrivalBuffer
      (fillBatch c.batchEnqueue [t] (s.stores .arrivalBuffer).items).2
      (s.stores .arrivalBuffer).getQueue
    have hb := hset .buffered
    have ha := hset .batched
    have hq := hset .queued
    have hx := hset .executing
    have hu := hset .putting
    obtain ⟨hp, hs, he⟩ := h
    constructor <;> simp [Ev.weight, StoreName.gauge, stamped] at hb ha hq hx hu hp hs he ⊢ <;> omega
  simp only [Behavioral.afterLeaderGet]
  split_ifs
  · exact batched.schedule _
  · exact batched.afterDispatch

/-- A task counts once at most. -/
theorem le_one (h : Located n s tid) : s.found tid .buffered + s.found tid .batched +
    s.found tid .queued + s.found tid .executing + s.stamped tid .finish ≤ 1 := by
  rw [h.placed]
  split_ifs <;> omega

theorem afterExecPut {lid t : Nat} {rest : List Nat} {beforePut : ℚ}
    (h : Located n (s.hold (.execPut lid t rest beforePut)) tid) :
    Located n (afterExecPut lid t rest beforePut s) tid := by
  suffices Located n (Sim.hold (.leaderTimeout lid rest 0)
      (s.record (.recordPut lid t beforePut s.now))) tid from this.enqueueLoop
  have hle := h.le_one
  obtain ⟨hp, hs, he⟩ := h
  by_cases ht : tid = t
  · subst ht
    constructor <;> simp [Ev.weight, stamped, Metrics.stamp_recordPut] at hle hp hs he ⊢ <;> omega
  · constructor <;>
      simp [Ev.weight, stamped, Metrics.stamp_recordPut, ht, Ne.symm ht] at hp hs he ⊢ <;> omega

theorem afterExecution {fid t : Nat} {start : ℚ}
    (h : Located n (s.hold (.followerTimeout fid t start)) tid) :
    Located n (afterExecution fid t start s) tid := by
  refine get ?_ _ _
  have hle := h.le_one
  obtain ⟨hp, hs, he⟩ := h
  by_cases ht : tid = t
  · subst ht
    constructor <;> simp [Ev.weight, stamped, Metrics.stamp_recordExecuted] at hle hp hs he ⊢ <;> omega
  · constructor <;>
      simp [Ev.weight, stamped, Metrics.stamp_recordExecuted, ht, Ne.symm ht] at hp hs he ⊢ <;> omega

/-- A follower that has got a task has it under execution. -/
theorem afterFollowerGet {fid t : Nat} (h : Located n (s.hold (.followerGet fid t)) tid)
    (c : Setup G) : Located n (afterFollowerGet c fid t s) tid := by
  have executing : Located n (Sim.hold (.followerTimeout fid t s.now)
      ((s.record (.recordStartExec t s.now fid)).setRandom (c.taskDuration s.random).2)) tid := by
    have hle := h.le_one
    obtain ⟨hp, hs, he⟩ := h
    by_cases ht : tid = t
    · subst ht
      constructor <;> simp [Ev.weight, stamped, Metrics.stamp_recordStartExec] at hle hp hs he ⊢ <;>
        omega
    · constructor <;>
        simp [Ev.weight, stamped, Metrics.stamp_recordStartExec, ht, Ne.symm ht] at hp hs he ⊢ <;>
          omega
  simp only [Behavioral.afterFollowerGet]
  split_ifs
  · exact executing.schedule _
  · exact executing.afterExecution

theorem triggerGet (h : Located n (s.hold e) tid) (q : StoreName) :
    Located n ((s.triggerGet q).hold e) tid :=
  h.congr (by simp) (by simp)

theorem sampleTimeout (h : Located n s tid) (c : Setup G) (he : ∀ k, e.weight tid k = 0) :
    Located n (sampleTimeout c e s) tid := by
  unfold Behavioral.sampleTimeout
  split_ifs
  · exact h.congr (by simp [Ev.weight]) (by simp)
  · exact h.congr (by simp [he]) (by simp)

theorem depthLoop (h : Located n s tid) (c : Setup G) : Located n (depthLoop c s) tid :=
  sampleTimeout (h.congr (by simp) (by simp)) c fun k => by cases k <;> rfl

theorem callbacks {c : Setup G} (h : Located n (s.hold e) tid) (he : e.next = none) :
    Located n (callbacks c e s) tid := by
  cases e with
  | arrivalInit | arrivalPut | arrivalTimeout => cases he
  | leaderInit lid | followerInit fid => exact (h.of_hold fun k => by cases k <;> rfl).get _ _
  | depthInit | depthTimeout => exact (h.of_hold fun k => by cases k <;> rfl).depthLoop c
  | rateInit =>
    exact (h.of_hold fun k => by cases k <;> rfl).sampleTimeout c fun k => by cases k <;> rfl
  | rateTimeout lastT lastEnq lastDeq =>
    have hs := h.of_hold fun k => by cases k <;> rfl
    exact sampleTimeout (hs.congr (by simp) (by simp)) c fun k => by cases k <;> rfl
  | arrivalEnd | samplerFailed => exact h.of_hold fun k => by cases k <;> rfl
  | leaderGet lid t => exact h.afterLeaderGet c
  | leaderTimeout lid batch start => exact h.afterDispatch
  | execPut lid t rest beforePut => exact (h.triggerGet _).afterExecPut
  | followerGet fid t => exact h.afterFollowerGet c
  | followerTimeout fid t start => exact h.afterExecution

/-- A task that arrives is put into the arrival buffer. -/
theorem arrivalLoop (h : Located n s tid) (c : Setup G) :
    Located (if n < c.numTasks then n + 1 else n) (arrivalLoop c n s) tid := by
  unfold Behavioral.arrivalLoop
  split_ifs with hn
  · obtain ⟨hp, hs, he⟩ := h
    by_cases ht : tid = n
    · subst ht
      rw [if_neg (Nat.lt_irrefl _)] at hp
      constructor <;>
        simp [Ev.weight, StoreName.gauge, stamped, Metrics.stamp_recordArrival] <;> omega
    · have hlt : (tid < n + 1) = (tid < n) := propext (by omega)
      constructor <;>
        simp [Ev.weight, StoreName.gauge, stamped, Metrics.stamp_recordArrival, ht, Ne.symm ht, hlt]
          at hp hs he ⊢ <;> omega
  · exact h.congr (by simp [Ev.weight]) (by simp)

end Located

/-- **The census.**  The tasks that have arrived so far are in one place each. -/
def Census (numTasks : Nat) (s : Sim G) : Prop :=
  ∃ n, Arrivals numTasks n s ∧ ∀ tid, Located n s tid

namespace Census

variable {c : Setup G} {s : Sim G} {e : Ev}

theorem start (c : Setup G) (random : G) : Census c.numTasks (start c random) := by
  have none_counted : ∀ tid k, (Behavioral.start c random).found tid k = 0 := by
    intro tid k
    rw [found, tally_eq_zero fun x hx => (start_initial c random x hx).2.weight tid k]
    cases k <;> rfl
  have no_stamp : ∀ tid k, (Behavioral.start c random).stamped tid k = 0 := by
    intro tid k
    cases k <;> rfl
  exact ⟨0, .start c random, fun tid => by constructor <;> simp [none_counted, no_stamp]⟩

theorem arrivalLoop {i : Nat} (h : Census c.numTasks (s.hold e)) (he : e.next = some i)
    (hw : ∀ tid k, e.weight tid k = 0) : Census c.numTasks (arrivalLoop c i s) := by
  obtain ⟨n, ha, hl⟩ := h
  obtain rfl := ha.next _ (List.mem_cons_self ..) i he
  exact ⟨_, ha.arrivalLoop he, fun tid => ((hl tid).of_hold (hw tid)).arrivalLoop c⟩

theorem callbacks (h : Census c.numTasks (s.hold e)) : Census c.numTasks (callbacks c e s) := by
  cases hnext : e.next with
  | none =>
    obtain ⟨n, ha, hl⟩ := h
    exact ⟨n, ha.callbacks hnext, fun tid => (hl tid).callbacks hnext⟩
  | some i =>
    cases e with
    | arrivalInit => exact h.arrivalLoop rfl fun _ k => by cases k <;> rfl
    | arrivalTimeout j => exact h.arrivalLoop rfl fun _ k => by cases k <;> rfl
    | arrivalPut j =>
      obtain ⟨n, ha, hl⟩ := h
      have ha' := ha.hold_triggerGet .arrivalBuffer
      have hl' := fun tid => (hl tid).triggerGet .arrivalBuffer
      simp only [Behavioral.callbacks, afterArrivalPut]
      split_ifs
      · refine ⟨n, (ha'.setRandom _).arrivalTimeout _, fun tid => ?_⟩
        exact (hl' tid).congr (fun k => by cases k <;> simp [Ev.weight]) fun k => by simp
      · refine arrivalLoop (e := .arrivalPut j) ⟨n, ha'.setRandom _, fun tid => ?_⟩ rfl
          fun _ k => by cases k <;> rfl
        exact (hl' tid).congr (by simp) (by simp)
    | _ => cases hnext

/-- Where the tasks are does not depend on the time. -/
theorem advance {N : Nat} (h : Census N s) (t : ℚ) : Census N { s with now := t } := by
  obtain ⟨n, ha, hl⟩ := h
  exact ⟨n, ⟨ha.le, ha.arrived, ha.next, ha.alone⟩, fun tid =>
    (hl tid).congr (fun k => by cases k <;> rfl) fun _ => rfl⟩

end Census

end TaskQueueCoSim.Behavioral
