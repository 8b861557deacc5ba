import Mathlib.Data.Rat.Floor
import TaskQueueCoSim.Model.Presence

/-!
# What is left to do (model/behavioral.py)

A run can process only so many events of each kind: the arrival process handles each
task once, and a task passes each step on its way once.  `Cost` prices the events,
and `potential` is what all that is left to do may cost at most.

* `potential_callbacks`: the potential pays for every event;
* `spent_le`: what a run costs.
-/

namespace TaskQueueCoSim.Behavioral

open Agenda Sim

variable {G : Type} {c : Setup G} {s : Sim G} {e : Ev}

/-- The price of each kind of event; a tick is an event of a sampler. -/
structure Cost where
  arrivalInit : ℕ := 0
  leaderInit : ℕ := 0
  followerInit : ℕ := 0
  arrivalPut : ℕ := 0
  arrivalTimeout : ℕ := 0
  arrivalEnd : ℕ := 0
  leaderGet : ℕ := 0
  leaderTimeout : ℕ := 0
  execPut : ℕ := 0
  followerGet : ℕ := 0
  followerTimeout : ℕ := 0
  tick : ℕ := 0

/-- How many ticks there may be from `t` until the limit. -/
def ticks (interval t : ℚ) : ℕ := (⌊(MAX_SIM_TIME - t) / interval⌋ + 1).toNat

theorem ticks_add {interval t : ℚ} (hpos : 0 < interval) (ht : t ≤ MAX_SIM_TIME) :
    ticks interval (t + interval) + 1 ≤ ticks interval t := by
  have hdiv : (MAX_SIM_TIME - (t + interval)) / interval = (MAX_SIM_TIME - t) / interval - 1 := by
    rw [← sub_sub, sub_div, div_self hpos.ne']
  have hfloor : 0 ≤ ⌊(MAX_SIM_TIME - t) / interval⌋ :=
    Int.floor_nonneg.2 (div_nonneg (sub_nonneg.2 ht) hpos.le)
  rw [ticks, ticks, hdiv, Int.floor_sub_one]
  omega

namespace Cost

variable (u : Cost)

/-- The price of an event. -/
def of : Ev → ℕ
  | .arrivalInit => u.arrivalInit
  | .leaderInit _ => u.leaderInit
  | .followerInit _ => u.followerInit
  | .arrivalPut _ => u.arrivalPut
  | .arrivalTimeout _ => u.arrivalTimeout
  | .arrivalEnd => u.arrivalEnd
  | .leaderGet _ _ => u.leaderGet
  | .leaderTimeout _ _ _ => u.leaderTimeout
  | .execPut _ _ _ _ => u.execPut
  | .followerGet _ _ => u.followerGet
  | .followerTimeout _ _ _ => u.followerTimeout
  | .depthInit | .depthTimeout | .rateInit | .rateTimeout _ _ _ | .samplerFailed => u.tick

/-- What is left for a task in the execution queue. -/
def queued : ℕ := u.followerGet + u.followerTimeout

/-- What is left for a task in a batch. -/
def batched : ℕ := u.execPut + u.queued

/-- What is left for a task in the arrival buffer. -/
def buffered : ℕ := u.leaderGet + u.leaderTimeout + u.batched

/-- What is left for the arrival process before task `i` and for the tasks that it makes. -/
def arriving (numTasks i : ℕ) : ℕ :=
  (numTasks - i) * (u.arrivalPut + u.arrivalTimeout + u.buffered) + u.arrivalEnd

/-- What is left for an event and what follows from it. -/
def left (c : Setup G) : ℚ × Ev → ℕ
  | (_, .arrivalInit) => u.arrivalInit + u.arriving c.numTasks 0
  | (_, .leaderInit _) => u.leaderInit
  | (_, .followerInit _) => u.followerInit
  | (_, .arrivalPut i) => u.arrivalPut + u.arrivalTimeout + u.arriving c.numTasks (i + 1)
  | (_, .arrivalTimeout i) => u.arrivalTimeout + u.arriving c.numTasks (i + 1)
  | (_, .arrivalEnd) => u.arrivalEnd
  | (_, .leaderGet _ _) => u.buffered
  | (_, .leaderTimeout _ batch _) => u.leaderTimeout + batch.length * u.batched
  | (_, .execPut _ _ rest _) => u.execPut + rest.length * u.batched
  | (_, .followerGet _ _) => u.queued
  | (_, .followerTimeout _ _ _) => u.followerTimeout
  | (t, .depthInit) => u.tick * ticks c.sampleInterval t
  | (t, .depthTimeout) => u.tick * ticks c.sampleInterval t
  | (t, .rateInit) => u.tick * ticks c.sampleInterval t
  | (t, .rateTimeout _ _ _) => u.tick * ticks c.sampleInterval t
  | (_, .samplerFailed) => u.tick

/-- What is left for an item of a store. -/
def item : StoreName → ℕ
  | .arrivalBuffer => u.buffered
  | .execQueue => u.queued

end Cost

/-- What is left to do. -/
def Sim.potential (u : Cost) (c : Setup G) (s : Sim G) : ℕ :=
  (s.stores .arrivalBuffer).items.length * u.buffered +
    (s.stores .execQueue).items.length * u.queued + load (u.left c) s.agenda

section Potential

variable (u : Cost) (c s e) (q : StoreName) (t tid pid lid i : ℕ) (d : ℚ)

@[simp] theorem potential_record (f : Metrics → Metrics) :
    (s.record f).potential u c = s.potential u c := rfl

@[simp] theorem potential_setRandom (random : G) :
    (s.setRandom random).potential u c = s.potential u c := rfl

@[simp] theorem potential_hold :
    (s.hold e).potential u c = u.left c (s.now, e) + s.potential u c := by
  simp only [potential, hold_agenda, hold_stores, load_cons]
  omega

@[simp] theorem potential_schedule :
    (s.schedule d e).potential u c = u.left c (s.now + d, e) + s.potential u c := by
  simp only [potential, schedule_agenda, schedule_stores, load_schedule]
  omega

/-- What other items of a store make of the potential. -/
theorem potential_setStore (items getQueue : List ℕ) :
    (s.setStore q items getQueue).potential u c + (s.stores q).items.length * u.item q =
      s.potential u c + items.length * u.item q := by
  cases q <;> simp [potential, Cost.item] <;> omega

theorem left_gotten : u.left c (d, q.gotten pid tid) = u.item q := by
  cases q <;> rfl

@[simp] theorem potential_triggerGet : (s.triggerGet q).potential u c = s.potential u c := by
  obtain ⟨h, -⟩ | ⟨t, items, pid, getQueue, hq, h⟩ := s.triggerGet_cases q
  · rw [h]
  · have hset := potential_setStore c s u q items getQueue
    rw [hq, List.length_cons, Nat.succ_mul] at hset
    rw [h, potential_schedule, left_gotten]
    omega

@[simp] theorem potential_get : (s.get q pid).potential u c = s.potential u c := by
  have hset := potential_setStore c s u q (s.stores q).items ((s.stores q).getQueue ++ [pid])
  rw [Sim.get, potential_triggerGet]
  omega

@[simp] theorem potential_put :
    (s.put q t e).potential u c = u.left c (s.now, e) + u.item q + s.potential u c := by
  have hset := potential_setStore c s u q ((s.stores q).items ++ [t]) (s.stores q).getQueue
  rw [List.length_append, List.length_singleton, Nat.succ_mul] at hset
  rw [put, potential_schedule, setStore_now, add_zero]
  omega

@[simp] theorem potential_enqueueLoop (batch : List ℕ) :
    (enqueueLoop lid batch s).potential u c = batch.length * u.batched + s.potential u c := by
  cases batch with
  | nil => simp [enqueueLoop]
  | cons t rest =>
    rw [enqueueLoop, potential_put, List.length_cons, Nat.succ_mul]
    simp only [Cost.left, Cost.item, Cost.batched]
    omega

@[simp] theorem potential_arrivalLoop :
    (arrivalLoop c i s).potential u c = u.arriving c.numTasks i + s.potential u c := by
  unfold arrivalLoop
  split_ifs with hi
  · have hsucc : c.numTasks - i = c.numTasks - (i + 1) + 1 := by omega
    rw [potential_put, potential_record, record_now, Cost.arriving, hsucc, Nat.succ_mul]
    simp only [Cost.left, Cost.item, Cost.arriving]
    omega
  · have hzero : c.numTasks - i = 0 := by omega
    simp [Cost.left, Cost.arriving, hzero]

end Potential

variable {u : Cost}

/-- A sampler pays for a tick and leaves the rest to the next. -/
theorem potential_sampleTimeout (hu : u.tick = 0 ∨ 0 < c.sampleInterval ∧ s.now ≤ MAX_SIM_TIME)
    (he : u.left c (s.now + c.sampleInterval, e) =
      u.tick * ticks c.sampleInterval (s.now + c.sampleInterval)) :
    (sampleTimeout c e s).potential u c + u.tick ≤
      u.tick * ticks c.sampleInterval s.now + s.potential u c := by
  unfold sampleTimeout
  obtain hzero | ⟨hpos, hnow⟩ := hu
  · split_ifs
    · rw [potential_schedule, hzero]
      simp [Cost.left, hzero]
    · rw [potential_schedule, he, hzero]
      simp
  · have htick := Nat.mul_le_mul_left u.tick (ticks_add hpos hnow)
    rw [Nat.mul_succ] at htick
    rw [if_neg (not_lt.2 hpos.le), potential_schedule, he]
    omega

/-- A leader takes items into its batch, where less is left for them. -/
theorem potential_fillBatch (tid : ℕ) (random : G) :
    ((s.setRandom random).setStore .arrivalBuffer
        (fillBatch c.batchEnqueue [tid] (s.stores .arrivalBuffer).items).2
        (s.stores .arrivalBuffer).getQueue).potential u c +
      (fillBatch c.batchEnqueue [tid] (s.stores .arrivalBuffer).items).1.length * u.batched ≤
        s.potential u c + u.batched := by
  have hfill := congrArg List.length <|
    fillBatch_append c.batchEnqueue [tid] (s.stores .arrivalBuffer).items
  have hpos := fillBatch_length_pos c.batchEnqueue tid (s.stores .arrivalBuffer).items
  have hset := potential_setStore c (s.setRandom random) u .arrivalBuffer
    (fillBatch c.batchEnqueue [tid] (s.stores .arrivalBuffer).items).2
    (s.stores .arrivalBuffer).getQueue
  have hitems : ((s.setRandom random).stores .arrivalBuffer).items =
    (s.stores .arrivalBuffer).items := rfl
  rw [potential_setRandom, hitems] at hset
  simp only [List.length_append, List.length_singleton] at hfill
  obtain ⟨k, hk⟩ := Nat.exists_eq_add_of_lt hpos
  rw [Nat.zero_add] at hk
  have hlen : (s.stores .arrivalBuffer).items.length =
      (fillBatch c.batchEnqueue [tid] (s.stores .arrivalBuffer).items).2.length + k := by omega
  have hle : k * u.batched ≤ k * u.item .arrivalBuffer :=
    Nat.mul_le_mul_left k (Nat.le_add_left ..)
  rw [hlen, Nat.add_mul] at hset
  rw [hk, Nat.succ_mul]
  omega

/-- **The potential pays for every event.**  If ticks cost something, the interval must be
positive and the limit not passed. -/
theorem potential_callbacks (e : Ev) (s : Sim G)
    (hu : u.tick = 0 ∨ 0 < c.sampleInterval ∧ s.now ≤ MAX_SIM_TIME) :
    (callbacks c e s).potential u c + u.of e ≤ (s.hold e).potential u c := by
  rw [potential_hold]
  cases e with
  | arrivalInit | arrivalTimeout | leaderInit | followerInit | arrivalEnd | samplerFailed =>
    simp [callbacks, Cost.of, Cost.left]; omega
  | depthInit | depthTimeout => exact potential_sampleTimeout (s := (s.record _).record _) hu rfl
  | rateInit => exact potential_sampleTimeout hu rfl
  | rateTimeout lastT lastEnq lastDeq => exact potential_sampleTimeout (s := s.record _) hu rfl
  | arrivalPut i =>
    simp only [callbacks, afterArrivalPut, Cost.of, Cost.left]
    split_ifs
    · simp only [potential_schedule, potential_setRandom, potential_triggerGet, Cost.left]
      omega
    · simp only [potential_arrivalLoop, potential_setRandom, potential_triggerGet]
      omega
  | leaderGet lid tid =>
    have hfill := potential_fillBatch (c := c) (s := s) (u := u) tid (c.dispatchTime s.random).2
    generalize hs' : (s.setRandom (c.dispatchTime s.random).2).setStore .arrivalBuffer
      (fillBatch c.batchEnqueue [tid] (s.stores .arrivalBuffer).items).2
      (s.stores .arrivalBuffer).getQueue = s' at hfill
    have hcall : callbacks c (.leaderGet lid tid) s = if 0 < (c.dispatchTime s.random).1 then
        s'.schedule (c.dispatchTime s.random).1 (.leaderTimeout lid
          (fillBatch c.batchEnqueue [tid] (s.stores .arrivalBuffer).items).1 s'.now)
        else afterDispatch lid
          (fillBatch c.batchEnqueue [tid] (s.stores .arrivalBuffer).items).1 s'.now s' := by
      rw [← hs']
      rfl
    rw [hcall]
    simp only [afterDispatch, Cost.of, Cost.left, Cost.buffered]
    split_ifs
    · simp only [potential_schedule, Cost.left]
      omega
    · simp only [potential_enqueueLoop, potential_record]
      omega
  | leaderTimeout lid batch start =>
    simp [callbacks, afterDispatch, Cost.of, Cost.left]
    omega
  | execPut lid t rest beforePut =>
    simp [callbacks, afterExecPut, Cost.of, Cost.left]
    omega
  | followerGet fid tid =>
    simp only [callbacks, afterFollowerGet, afterExecution, Cost.of, Cost.left, Cost.queued]
    split_ifs
    · simp only [potential_schedule, potential_setRandom, potential_record, Cost.left]
      omega
    · simp only [potential_get, potential_setRandom, potential_record]
      omega
  | followerTimeout fid tid start =>
    simp [callbacks, afterExecution, Cost.of, Cost.left]
    omega

theorem potential_start (u : Cost) (c : Setup G) (random : G) :
    (start c random).potential u c = u.arrivalInit + u.arriving c.numTasks 0 +
      c.numLeaders * u.leaderInit + c.numFollowers * u.followerInit +
      2 * (u.tick * ticks c.sampleInterval 0) := by
  simp only [potential, start, load, List.length_nil, Nat.zero_mul, List.map_append, List.map_map,
    List.map_cons, List.map_nil, List.sum_append, List.sum_cons, List.sum_nil, Function.comp_def,
    Cost.left, List.map_const', List.length_range, List.sum_replicate_nat]
  omega

/-! ## What a run draws -/

/-- What values are drawn for. -/
inductive Purpose where
  | interarrival | dispatch | duration
  deriving DecidableEq

def Setup.draw (c : Setup G) : Purpose → G → ℚ × G
  | .interarrival => c.interarrival
  | .dispatch => c.dispatchTime
  | .duration => c.taskDuration

/-- What the callbacks of an event draw a value for. -/
def Ev.draws : Ev → Option Purpose
  | .arrivalPut _ => some .interarrival
  | .leaderGet _ _ => some .dispatch
  | .followerGet _ _ => some .duration
  | _ => none

/-- The events of the first `n` rounds, each with the state of the generator. -/
def history (c : Setup G) (random : G) (n : ℕ) : List (Ev × G) :=
  Machine.stepsLog (round c) (fun s => s.due.bind fun e => some (e, s.random)) n (start c random)

/-- The values that are drawn for one purpose in the first `n` rounds, in their order. -/
def drawnFor (c : Setup G) (random : G) (n : ℕ) (k : Purpose) : List ℚ :=
  (history c random n).filterMap fun x => if x.1.draws = some k then some (c.draw k x.2).1 else none

/-- What a run costs it has had to spend. -/
theorem spent_le (hu : u.tick = 0) (c : Setup G) (random : G) (n : ℕ) :
    ((history c random n).map fun x => u.of x.1).sum ≤ (start c random).potential u c := by
  have paid : ((history c random n).map fun x => u.of x.1).sum +
      (reached c random n).potential u c ≤ (start c random).potential u c := by
    refine loop_invariant_draws (fun e g => some (e, g)) (I := fun log s =>
      (log.map fun x => u.of x.1).sum + s.potential u c ≤ (start c random).potential u c)
      (by simp) (fun _ _ _ _ _ h _ _ => h) (fun log e s h => ?_) n
    have hstep := potential_callbacks (c := c) e s (.inl hu)
    simp only [Option.toList_some, List.map_append, List.map_cons, List.map_nil, List.sum_append,
      List.sum_cons, List.sum_nil]
    omega
  omega

/-- One for each event that draws for the purpose. -/
def Purpose.cost : Purpose → Cost
  | .interarrival => { arrivalPut := 1 }
  | .dispatch => { leaderGet := 1 }
  | .duration => { followerGet := 1 }

theorem Purpose.cost_of (k : Purpose) (e : Ev) : k.cost.of e = if e.draws = some k then 1 else 0 := by
  cases k <;> cases e <;> rfl

/-- No more values are drawn for a purpose than there are tasks. -/
theorem length_drawnFor_le (c : Setup G) (random : G) (n : ℕ) (k : Purpose) :
    (drawnFor c random n k).length ≤ c.numTasks := by
  have hlen : ∀ log : List (Ev × G), (log.filterMap fun x =>
      if x.1.draws = some k then some (c.draw k x.2).1 else none).length =
        (log.map fun x => k.cost.of x.1).sum := by
    intro log
    induction log with
    | nil => rfl
    | cons x log ih =>
      rw [List.map_cons, List.sum_cons, ← ih, Purpose.cost_of]
      by_cases hx : x.1.draws = some k <;> simp [hx, Nat.add_comm]
  have hspent := spent_le (u := k.cost) (by cases k <;> rfl) c random n
  rw [drawnFor, hlen]
  refine hspent.trans ?_
  rw [potential_start]
  cases k <;> simp [Purpose.cost, Cost.arriving, Cost.buffered, Cost.batched, Cost.queued]

end TaskQueueCoSim.Behavioral
