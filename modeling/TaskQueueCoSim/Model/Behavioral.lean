import Mathlib.Algebra.Order.Ring.Rat
import Mathlib.Logic.Function.Basic
import TaskQueueCoSim.Lib.Agenda
import TaskQueueCoSim.Lib.Machine

/-!
# The behavioral model (model/behavioral.py)

`run_sim` starts the processes and steps the SimPy environment until all tasks
are done.  An event carries what the process that waits for it knows; times are
exact.  Events are processed by time and then in the order of their scheduling.
-/

namespace TaskQueueCoSim.Behavioral

open Agenda

/-! ## Metrics -/

/-- The entry of a task in `task_info`. -/
structure TaskInfo where
  arrival : Option ℚ
  enqueued : Option ℚ
  enqueuedBy : Option Nat
  startExec : Option ℚ
  followerId : Option Nat
  finish : Option ℚ

/-- The task with index `i` is `T{i}`; a task without an entry has none of the times. -/
structure Metrics where
  taskInfo : Nat → TaskInfo
  queueSamplesExec : List (ℚ × Nat)
  queueSamplesArrival : List (ℚ × Nat)
  rateSamples : List (ℚ × ℚ × ℚ)
  leaderBusyTime : Nat → ℚ
  leaderBlockTime : Nat → ℚ
  followerBusyTime : Nat → ℚ
  totalEnqueued : Nat
  totalDequeued : Nat
  completedTasks : Nat

namespace Metrics

def init : Metrics where
  taskInfo _ := ⟨none, none, none, none, none, none⟩
  queueSamplesExec := []
  queueSamplesArrival := []
  rateSamples := []
  leaderBusyTime _ := 0
  leaderBlockTime _ := 0
  followerBusyTime _ := 0
  totalEnqueued := 0
  totalDequeued := 0
  completedTasks := 0

def recordArrival (tid : Nat) (t : ℚ) (m : Metrics) : Metrics :=
  { m with taskInfo := Function.update m.taskInfo tid ⟨some t, none, none, none, none, none⟩ }

def recordEnqueued (tid : Nat) (t : ℚ) (leaderId : Nat) (m : Metrics) : Metrics :=
  { m with
    taskInfo := Function.update m.taskInfo tid
      { m.taskInfo tid with enqueued := some t, enqueuedBy := some leaderId } }

def recordStartExec (tid : Nat) (t : ℚ) (followerId : Nat) (m : Metrics) : Metrics :=
  { m with
    taskInfo := Function.update m.taskInfo tid
      { m.taskInfo tid with startExec := some t, followerId := some followerId } }

def recordFinish (tid : Nat) (t : ℚ) (m : Metrics) : Metrics :=
  { m with
    taskInfo := Function.update m.taskInfo tid { m.taskInfo tid with finish := some t }
    completedTasks := m.completedTasks + 1 }

def sampleExec (t : ℚ) (depth : Nat) (m : Metrics) : Metrics :=
  { m with queueSamplesExec := m.queueSamplesExec ++ [(t, depth)] }

def sampleArrival (t : ℚ) (depth : Nat) (m : Metrics) : Metrics :=
  { m with queueSamplesArrival := m.queueSamplesArrival ++ [(t, depth)] }

def sampleRates (t enqRate deqRate : ℚ) (m : Metrics) : Metrics :=
  { m with rateSamples := m.rateSamples ++ [(t, enqRate, deqRate)] }

def addLeaderBusy (lid : Nat) (x : ℚ) (m : Metrics) : Metrics :=
  { m with leaderBusyTime := Function.update m.leaderBusyTime lid (m.leaderBusyTime lid + x) }

def addLeaderBlock (lid : Nat) (x : ℚ) (m : Metrics) : Metrics :=
  { m with leaderBlockTime := Function.update m.leaderBlockTime lid (m.leaderBlockTime lid + x) }

def addFollowerBusy (fid : Nat) (x : ℚ) (m : Metrics) : Metrics :=
  { m with
    followerBusyTime := Function.update m.followerBusyTime fid (m.followerBusyTime fid + x) }

end Metrics

/-! ## The environment -/

/-- `simpy.Store` without a capacity; of a waiting get only its process is kept. -/
structure Store where
  items : List Nat
  getQueue : List Nat

inductive StoreName where
  | arrivalBuffer | execQueue
  deriving DecidableEq

/-- The events, each with what the process waiting for it has in its variables. -/
inductive Ev where
  | arrivalInit
  | leaderInit (lid : Nat)
  | followerInit (fid : Nat)
  | depthInit
  | rateInit
  /-- the put of `T{i}` into the arrival buffer -/
  | arrivalPut (i : Nat)
  /-- the timeout after `T{i}` -/
  | arrivalTimeout (i : Nat)
  /-- the end of the arrival process, for which nothing waits -/
  | arrivalEnd
  | leaderGet (lid tid : Nat)
  | leaderTimeout (lid : Nat) (batch : List Nat) (start : ℚ)
  /-- the put of `t` into the execution queue; `rest` is left of the batch -/
  | execPut (lid t : Nat) (rest : List Nat) (beforePut : ℚ)
  | followerGet (fid tid : Nat)
  | followerTimeout (fid tid : Nat) (start : ℚ)
  | depthTimeout
  | rateTimeout (lastT : ℚ) (lastEnq lastDeq : Nat)
  /-- the end of a sampler by an exception -/
  | samplerFailed
  deriving DecidableEq

/-- The event of a get from a store. -/
def StoreName.gotten : StoreName → Nat → Nat → Ev
  | .arrivalBuffer => .leaderGet
  | .execQueue => .followerGet

/-- The state of a run; `random` is the state of the generator. -/
structure Sim (G : Type) where
  now : ℚ
  agenda : List (ℚ × Ev)
  stores : StoreName → Store
  random : G
  metrics : Metrics

/-- What the processes are started with; the functions draw from the generator. -/
structure Setup (G : Type) where
  numTasks : Nat
  numLeaders : Nat
  numFollowers : Nat
  batchEnqueue : Int
  interarrival : G → ℚ × G
  dispatchTime : G → ℚ × G
  taskDuration : G → ℚ × G
  sampleInterval : ℚ

variable {G : Type}

namespace Sim

def schedule (delay : ℚ) (e : Ev) (s : Sim G) : Sim G :=
  { s with agenda := Agenda.schedule (s.now + delay) e s.agenda }

def record (f : Metrics → Metrics) (s : Sim G) : Sim G :=
  { s with metrics := f s.metrics }

def setStore (q : StoreName) (items getQueue : List Nat) (s : Sim G) : Sim G :=
  { s with stores := Function.update s.stores q ⟨items, getQueue⟩ }

def setRandom (random : G) (s : Sim G) : Sim G := { s with random := random }

/-- `_trigger_get`: it grants one get at most, as `_do_get` returns nothing. -/
def triggerGet (q : StoreName) (s : Sim G) : Sim G :=
  match s.stores q with
  | ⟨tid :: items, pid :: getQueue⟩ =>
    (s.setStore q items getQueue).schedule 0 (q.gotten pid tid)
  | _ => s

/-- A put is granted at once; its event `e` triggers the gets when it is processed. -/
def put (q : StoreName) (tid : Nat) (e : Ev) (s : Sim G) : Sim G :=
  (s.setStore q ((s.stores q).items ++ [tid]) (s.stores q).getQueue).schedule 0 e

def get (q : StoreName) (pid : Nat) (s : Sim G) : Sim G :=
  (s.setStore q (s.stores q).items ((s.stores q).getQueue ++ [pid])).triggerGet q

section Fields

variable (s : Sim G) (d : ℚ) (e : Ev) (f : Metrics → Metrics) (q : StoreName) (tid pid : Nat)

@[simp] theorem schedule_now : (s.schedule d e).now = s.now := rfl
@[simp] theorem schedule_stores : (s.schedule d e).stores = s.stores := rfl
@[simp] theorem schedule_random : (s.schedule d e).random = s.random := rfl
@[simp] theorem schedule_metrics : (s.schedule d e).metrics = s.metrics := rfl
@[simp] theorem schedule_agenda :
    (s.schedule d e).agenda = Agenda.schedule (s.now + d) e s.agenda := rfl

@[simp] theorem record_now : (s.record f).now = s.now := rfl
@[simp] theorem record_agenda : (s.record f).agenda = s.agenda := rfl
@[simp] theorem record_stores : (s.record f).stores = s.stores := rfl
@[simp] theorem record_random : (s.record f).random = s.random := rfl
@[simp] theorem record_metrics : (s.record f).metrics = f s.metrics := rfl

/-- A trigger grants the first get the first item, if there are both. -/
theorem triggerGet_cases :
    (s.triggerGet q = s ∧ ((s.stores q).items = [] ∨ (s.stores q).getQueue = [])) ∨
    ∃ tid items pid getQueue, s.stores q = ⟨tid :: items, pid :: getQueue⟩ ∧
      s.triggerGet q = (s.setStore q items getQueue).schedule 0 (q.gotten pid tid) := by
  unfold triggerGet
  split
  · exact .inr ⟨_, _, _, _, by assumption, rfl⟩
  · rename_i h
    refine .inl ⟨rfl, ?_⟩
    rcases hq : s.stores q with ⟨_ | ⟨t, items⟩, _ | ⟨p, getQueue⟩⟩
    · exact .inl rfl
    · exact .inl rfl
    · exact .inr rfl
    · exact absurd hq (h t items p getQueue)

@[simp] theorem setStore_now (items getQueue : List Nat) :
    (s.setStore q items getQueue).now = s.now := rfl
@[simp] theorem setStore_agenda (items getQueue : List Nat) :
    (s.setStore q items getQueue).agenda = s.agenda := rfl
@[simp] theorem setStore_stores (items getQueue : List Nat) :
    (s.setStore q items getQueue).stores = Function.update s.stores q ⟨items, getQueue⟩ := rfl
@[simp] theorem setStore_random (items getQueue : List Nat) :
    (s.setStore q items getQueue).random = s.random := rfl
@[simp] theorem setStore_metrics (items getQueue : List Nat) :
    (s.setStore q items getQueue).metrics = s.metrics := rfl

@[simp] theorem setRandom_now (random : G) : (s.setRandom random).now = s.now := rfl
@[simp] theorem setRandom_agenda (random : G) : (s.setRandom random).agenda = s.agenda := rfl
@[simp] theorem setRandom_stores (random : G) : (s.setRandom random).stores = s.stores := rfl
@[simp] theorem setRandom_random (random : G) : (s.setRandom random).random = random := rfl
@[simp] theorem setRandom_metrics (random : G) : (s.setRandom random).metrics = s.metrics := rfl

@[simp] theorem triggerGet_now : (s.triggerGet q).now = s.now := by
  unfold triggerGet; split <;> rfl
@[simp] theorem triggerGet_random : (s.triggerGet q).random = s.random := by
  unfold triggerGet; split <;> rfl
@[simp] theorem triggerGet_metrics : (s.triggerGet q).metrics = s.metrics := by
  unfold triggerGet; split <;> rfl

@[simp] theorem put_now : (s.put q tid e).now = s.now := rfl
@[simp] theorem put_random : (s.put q tid e).random = s.random := rfl
@[simp] theorem put_metrics : (s.put q tid e).metrics = s.metrics := rfl
@[simp] theorem put_agenda : (s.put q tid e).agenda = Agenda.schedule (s.now + 0) e s.agenda := rfl

@[simp] theorem get_now : (s.get q pid).now = s.now := triggerGet_now _ _
@[simp] theorem get_random : (s.get q pid).random = s.random := triggerGet_random _ _
@[simp] theorem get_metrics : (s.get q pid).metrics = s.metrics := triggerGet_metrics _ _

end Fields

end Sim

open Sim

/-! ## Processes -/

variable (c : Setup G)

/-- `arrival_process` at the head of its loop. -/
def arrivalLoop (i : Nat) (s : Sim G) : Sim G :=
  if i < c.numTasks then
    (s.record (.recordArrival i s.now)).put .arrivalBuffer i (.arrivalPut i)
  else s.schedule 0 .arrivalEnd

def afterArrivalPut (i : Nat) (s : Sim G) : Sim G :=
  let (ia, random) := c.interarrival s.random
  let s := s.setRandom random
  if 0 < ia then s.schedule ia (.arrivalTimeout i) else arrivalLoop c (i + 1) s

/-- The loop that takes ready tasks from the items of the arrival buffer. -/
def fillBatch (batchEnqueue : Int) : List Nat → List Nat → List Nat × List Nat
  | batch, [] => (batch, [])
  | batch, t :: items =>
    if (batch.length : Int) < batchEnqueue then fillBatch batchEnqueue (batch ++ [t]) items
    else (batch, t :: items)

/-- `leader_process` at the head of its loop over the batch. -/
def enqueueLoop (lid : Nat) : List Nat → Sim G → Sim G
  | [], s => s.get .arrivalBuffer lid
  | t :: rest, s => s.put .execQueue t (.execPut lid t rest s.now)

/-- `leader_process` after it has paid the dispatch time. -/
def afterDispatch (lid : Nat) (batch : List Nat) (start : ℚ) (s : Sim G) : Sim G :=
  enqueueLoop lid batch (s.record (.addLeaderBusy lid (s.now - start)))

def afterLeaderGet (lid tid : Nat) (s : Sim G) : Sim G :=
  let (batch, items) := fillBatch c.batchEnqueue [tid] (s.stores .arrivalBuffer).items
  let (dt, random) := c.dispatchTime s.random
  let s := (s.setRandom random).setStore .arrivalBuffer items (s.stores .arrivalBuffer).getQueue
  if 0 < dt then s.schedule dt (.leaderTimeout lid batch s.now)
  else afterDispatch lid batch s.now s

/-- What a leader records about a put. -/
def Metrics.recordPut (lid t : Nat) (beforePut now : ℚ) (m : Metrics) : Metrics :=
  let putElapsed := now - beforePut
  let m := if 0 < putElapsed then m.addLeaderBlock lid putElapsed else m
  let m := m.addLeaderBusy lid putElapsed
  { m with totalEnqueued := m.totalEnqueued + 1 }.recordEnqueued t now lid

def afterExecPut (lid t : Nat) (rest : List Nat) (beforePut : ℚ) (s : Sim G) : Sim G :=
  enqueueLoop lid rest (s.record (.recordPut lid t beforePut s.now))

/-- What a follower records about a finished task. -/
def Metrics.recordExecuted (fid tid : Nat) (start now : ℚ) (m : Metrics) : Metrics :=
  let m := (m.addFollowerBusy fid (now - start)).recordFinish tid now
  { m with totalDequeued := m.totalDequeued + 1 }

def afterExecution (fid tid : Nat) (start : ℚ) (s : Sim G) : Sim G :=
  (s.record (.recordExecuted fid tid start s.now)).get .execQueue fid

def afterFollowerGet (fid tid : Nat) (s : Sim G) : Sim G :=
  let s := s.record (.recordStartExec tid s.now fid)
  let (td, random) := c.taskDuration s.random
  let s := s.setRandom random
  if 0 < td then s.schedule td (.followerTimeout fid tid s.now) else afterExecution fid tid s.now s

/-- `yield env.timeout(interval)`; a negative delay raises. -/
def sampleTimeout (e : Ev) (s : Sim G) : Sim G :=
  if c.sampleInterval < 0 then s.schedule 0 .samplerFailed else s.schedule c.sampleInterval e

/-- `depth_sampler` at the head of its loop. -/
def depthLoop (s : Sim G) : Sim G :=
  sampleTimeout c .depthTimeout
    ((s.record (.sampleExec s.now (s.stores .execQueue).items.length)).record
      (.sampleArrival s.now (s.stores .arrivalBuffer).items.length))

/-- `rate_sampler` at the head of its loop. -/
def rateLoop (s : Sim G) : Sim G :=
  sampleTimeout c (.rateTimeout s.now s.metrics.totalEnqueued s.metrics.totalDequeued) s

def afterRateTimeout (lastT : ℚ) (lastEnq lastDeq : Nat) (s : Sim G) : Sim G :=
  let dt := max (1 / 10 ^ 9) (s.now - lastT)
  let enqRate := ((s.metrics.totalEnqueued : ℚ) - lastEnq) / dt
  let deqRate := ((s.metrics.totalDequeued : ℚ) - lastDeq) / dt
  rateLoop c (s.record (.sampleRates s.now enqRate deqRate))

/-- The callbacks of an event. -/
def callbacks : Ev → Sim G → Sim G
  | .arrivalInit, s => arrivalLoop c 0 s
  | .leaderInit lid, s => s.get .arrivalBuffer lid
  | .followerInit fid, s => s.get .execQueue fid
  | .depthInit, s => depthLoop c s
  | .rateInit, s => rateLoop c s
  | .arrivalPut i, s => afterArrivalPut c i (s.triggerGet .arrivalBuffer)
  | .arrivalTimeout i, s => arrivalLoop c (i + 1) s
  | .arrivalEnd, s => s
  | .leaderGet lid tid, s => afterLeaderGet c lid tid s
  | .leaderTimeout lid batch start, s => afterDispatch lid batch start s
  | .execPut lid t rest beforePut, s =>
    afterExecPut lid t rest beforePut (s.triggerGet .execQueue)
  | .followerGet fid tid, s => afterFollowerGet c fid tid s
  | .followerTimeout fid tid start, s => afterExecution fid tid start s
  | .depthTimeout, s => depthLoop c s
  | .rateTimeout lastT lastEnq lastDeq, s => afterRateTimeout c lastT lastEnq lastDeq s
  | .samplerFailed, s => s

/-- A task is in the batch or still among the items. -/
theorem fillBatch_append (batchEnqueue : Int) (batch items : List Nat) :
    (fillBatch batchEnqueue batch items).1 ++ (fillBatch batchEnqueue batch items).2 =
      batch ++ items := by
  induction items generalizing batch with
  | nil => rfl
  | cons t items ih =>
    unfold fillBatch
    split_ifs
    · rw [ih, List.append_assoc, List.singleton_append]
    · rfl

/-! ## What the callbacks do to time and metrics -/

section Callbacks

variable (s : Sim G) (i lid tid fid : Nat) (batch rest : List Nat) (t : ℚ) (e : Ev)

@[simp] theorem enqueueLoop_now : (enqueueLoop lid batch s).now = s.now := by
  cases batch <;> simp [enqueueLoop]
@[simp] theorem enqueueLoop_metrics : (enqueueLoop lid batch s).metrics = s.metrics := by
  cases batch <;> simp [enqueueLoop]

@[simp] theorem enqueueLoop_random : (enqueueLoop lid batch s).random = s.random := by
  cases batch <;> simp [enqueueLoop]

@[simp] theorem afterDispatch_random : (afterDispatch lid batch t s).random = s.random := by
  simp [afterDispatch]
@[simp] theorem afterDispatch_now : (afterDispatch lid batch t s).now = s.now := by
  simp [afterDispatch]
@[simp] theorem afterDispatch_metrics :
    (afterDispatch lid batch t s).metrics = s.metrics.addLeaderBusy lid (s.now - t) := by
  simp [afterDispatch]

@[simp] theorem afterExecPut_random : (afterExecPut lid tid rest t s).random = s.random := by
  simp [afterExecPut]
@[simp] theorem afterExecPut_now : (afterExecPut lid tid rest t s).now = s.now := by
  simp [afterExecPut]
@[simp] theorem afterExecPut_metrics :
    (afterExecPut lid tid rest t s).metrics = s.metrics.recordPut lid tid t s.now := by
  simp [afterExecPut]

@[simp] theorem afterExecution_random : (afterExecution fid tid t s).random = s.random := by
  simp [afterExecution]
@[simp] theorem afterExecution_now : (afterExecution fid tid t s).now = s.now := by
  simp [afterExecution]
@[simp] theorem afterExecution_metrics :
    (afterExecution fid tid t s).metrics = s.metrics.recordExecuted fid tid t s.now := by
  simp [afterExecution]

@[simp] theorem sampleTimeout_random : (sampleTimeout c e s).random = s.random := by
  unfold sampleTimeout; split <;> rfl
@[simp] theorem sampleTimeout_now : (sampleTimeout c e s).now = s.now := by
  unfold sampleTimeout; split <;> rfl
@[simp] theorem sampleTimeout_metrics : (sampleTimeout c e s).metrics = s.metrics := by
  unfold sampleTimeout; split <;> rfl

@[simp] theorem arrivalLoop_random : (arrivalLoop c i s).random = s.random := by
  unfold arrivalLoop; split <;> rfl
@[simp] theorem arrivalLoop_now : (arrivalLoop c i s).now = s.now := by
  unfold arrivalLoop; split <;> rfl
theorem arrivalLoop_metrics : (arrivalLoop c i s).metrics =
    if i < c.numTasks then s.metrics.recordArrival i s.now else s.metrics := by
  unfold arrivalLoop; split <;> rfl

/-- The state of the generator after the callbacks of an event. -/
def drawn : Ev → G → G
  | .arrivalPut _, random => (c.interarrival random).2
  | .leaderGet _ _, random => (c.dispatchTime random).2
  | .followerGet _ _, random => (c.taskDuration random).2
  | _, random => random

theorem callbacks_random : (callbacks c e s).random = drawn c e s.random := by
  cases e <;> simp only [callbacks, depthLoop, rateLoop, afterRateTimeout, afterArrivalPut,
    afterLeaderGet, afterFollowerGet, drawn] <;> (try split_ifs) <;> simp

end Callbacks

/-! ## The times of a task -/

/-- The times that are recorded for a task, in their order. -/
inductive Stamp where
  | arrival | enqueued | startExec | finish
  deriving DecidableEq

namespace Metrics

def stamp (m : Metrics) (tid : Nat) : Stamp → Option ℚ
  | .arrival => (m.taskInfo tid).arrival
  | .enqueued => (m.taskInfo tid).enqueued
  | .startExec => (m.taskInfo tid).startExec
  | .finish => (m.taskInfo tid).finish

section Stamp

variable (m : Metrics) (tid i : Nat) (k : Stamp) (t x y : ℚ) (pid : Nat)

theorem stamp_recordArrival : (m.recordArrival i t).stamp tid k =
    if tid = i then (if k = .arrival then some t else none) else m.stamp tid k := by
  by_cases h : tid = i <;> cases k <;> simp [stamp, recordArrival, h]

theorem taskInfo_recordPut : (m.recordPut pid i x t).taskInfo =
    Function.update m.taskInfo i
      { m.taskInfo i with enqueued := some t, enqueuedBy := some pid } := by
  dsimp only [recordPut]
  split <;> rfl

theorem recordPut_totalEnqueued :
    (m.recordPut pid i x t).totalEnqueued = m.totalEnqueued + 1 := by
  dsimp only [recordPut]
  split <;> rfl

theorem recordPut_totalDequeued : (m.recordPut pid i x t).totalDequeued = m.totalDequeued := by
  dsimp only [recordPut]
  split <;> rfl

theorem recordPut_completedTasks : (m.recordPut pid i x t).completedTasks = m.completedTasks := by
  dsimp only [recordPut]
  split <;> rfl

theorem stamp_recordPut : (m.recordPut pid i x t).stamp tid k =
    if tid = i ∧ k = .enqueued then some t else m.stamp tid k := by
  by_cases h : tid = i <;> cases k <;>
    simp [stamp, taskInfo_recordPut, h]

theorem stamp_recordStartExec : (m.recordStartExec i t pid).stamp tid k =
    if tid = i ∧ k = .startExec then some t else m.stamp tid k := by
  by_cases h : tid = i <;> cases k <;> simp [stamp, recordStartExec, h]

theorem stamp_recordExecuted : (m.recordExecuted pid i x t).stamp tid k =
    if tid = i ∧ k = .finish then some t else m.stamp tid k := by
  by_cases h : tid = i <;> cases k <;>
    simp [stamp, recordExecuted, recordFinish, addFollowerBusy, h]

@[simp] theorem stamp_addLeaderBusy : (m.addLeaderBusy pid x).stamp tid k = m.stamp tid k := by
  cases k <;> rfl
@[simp] theorem stamp_sampleExec (n : Nat) : (m.sampleExec t n).stamp tid k = m.stamp tid k := by
  cases k <;> rfl
@[simp] theorem stamp_sampleArrival (n : Nat) :
    (m.sampleArrival t n).stamp tid k = m.stamp tid k := by
  cases k <;> rfl
@[simp] theorem stamp_sampleRates : (m.sampleRates t x y).stamp tid k = m.stamp tid k := by
  cases k <;> rfl

end Stamp

end Metrics

/-- A time other than the arrival that the callbacks of an event may record. -/
inductive Records (c : Setup G) (s : Sim G) : Ev → Nat → Stamp → Prop where
  | enqueued (lid t : Nat) (rest : List Nat) (beforePut : ℚ) :
    Records c s (.execPut lid t rest beforePut) t .enqueued
  | startExec (fid tid : Nat) : Records c s (.followerGet fid tid) tid .startExec
  | finishAtOnce (fid tid : Nat) (h : (c.taskDuration s.random).1 ≤ 0) :
    Records c s (.followerGet fid tid) tid .finish
  | finish (fid tid : Nat) (start : ℚ) : Records c s (.followerTimeout fid tid start) tid .finish

/-- The index of the task that the arrival process goes on with. -/
def Ev.next : Ev → Option Nat
  | .arrivalInit => some 0
  | .arrivalPut i => some (i + 1)
  | .arrivalTimeout i => some (i + 1)
  | _ => none

variable {c}

/-- A time of a task is what it was or is recorded now, unless the task arrives anew. -/
theorem callbacks_stamp_cases (e : Ev) (s : Sim G) (tid : Nat) (k : Stamp) :
    (callbacks c e s).metrics.stamp tid k = s.metrics.stamp tid k ∨
    (callbacks c e s).metrics.stamp tid k = some s.now ∧ Records c s e tid k ∨
    e.next = some tid ∧ (k ≠ .arrival → (callbacks c e s).metrics.stamp tid k = none) := by
  have arrive : ∀ (s' : Sim G) i, s'.metrics = s.metrics → e.next = some i →
      (arrivalLoop c i s').metrics.stamp tid k = s.metrics.stamp tid k ∨
      e.next = some tid ∧ (k ≠ .arrival → (arrivalLoop c i s').metrics.stamp tid k = none) := by
    intro s' i hs hi
    rw [arrivalLoop_metrics, hs]
    split_ifs
    · rw [Metrics.stamp_recordArrival]
      by_cases htid : tid = i
      · subst htid
        exact .inr ⟨hi, fun hk => by simp [hk]⟩
      · exact .inl (if_neg htid)
    · exact .inl rfl
  cases e with
  | arrivalInit | arrivalTimeout => exact (arrive s _ rfl rfl).imp_right .inr
  | arrivalPut i =>
    simp only [callbacks, afterArrivalPut]
    split_ifs
    · exact .inl (by simp)
    · exact (arrive _ _ (by simp) rfl).imp_right .inr
  | leaderInit | followerInit | depthInit | depthTimeout | rateInit | rateTimeout | arrivalEnd
    | samplerFailed | leaderTimeout =>
    exact .inl (by simp [callbacks, depthLoop, rateLoop, afterRateTimeout])
  | leaderGet lid tid' =>
    simp only [callbacks, afterLeaderGet]
    split_ifs <;> exact .inl (by simp)
  | execPut lid t' rest beforePut =>
    simp only [callbacks, afterExecPut_metrics, triggerGet_metrics, triggerGet_now,
      Metrics.stamp_recordPut]
    split_ifs with heq
    · obtain ⟨rfl, rfl⟩ := heq
      exact .inr (.inl ⟨rfl, .enqueued ..⟩)
    · exact .inl rfl
  | followerGet fid tid' =>
    simp only [callbacks, afterFollowerGet]
    split_ifs with hpos
    · simp only [schedule_metrics, setRandom_metrics, record_metrics, Metrics.stamp_recordStartExec]
      split_ifs with heq
      · obtain ⟨rfl, rfl⟩ := heq
        exact .inr (.inl ⟨rfl, .startExec ..⟩)
      · exact .inl rfl
    · simp only [afterExecution_metrics, setRandom_metrics, record_metrics, setRandom_now, record_now,
        Metrics.stamp_recordExecuted, Metrics.stamp_recordStartExec]
      split_ifs with heq heq'
      · obtain ⟨rfl, rfl⟩ := heq
        exact .inr (.inl ⟨rfl, .finishAtOnce _ _ (not_lt.1 hpos)⟩)
      · obtain ⟨rfl, rfl⟩ := heq'
        exact .inr (.inl ⟨rfl, .startExec ..⟩)
      · exact .inl rfl
  | followerTimeout fid tid' start =>
    simp only [callbacks, afterExecution_metrics, Metrics.stamp_recordExecuted]
    split_ifs with heq
    · obtain ⟨rfl, rfl⟩ := heq
      exact .inr (.inl ⟨rfl, .finish ..⟩)
    · exact .inl rfl

/-- What is recorded besides the arrivals has been recorded before or is now. -/
theorem callbacks_stamp {e : Ev} {s : Sim G} {tid : Nat} {k : Stamp} {t : ℚ} (hk : k ≠ .arrival)
    (h : (callbacks c e s).metrics.stamp tid k = some t) :
    s.metrics.stamp tid k = some t ∨ t = s.now ∧ Records c s e tid k := by
  obtain hsame | ⟨hnow, hrec⟩ | ⟨-, hnone⟩ := callbacks_stamp_cases (c := c) e s tid k
  · exact .inl (hsame ▸ h)
  · exact .inr ⟨Option.some.inj (h.symm.trans hnow), hrec⟩
  · rw [hnone hk] at h
    cases h

variable (c)

/-! ## run_sim -/

/-- `env.step()`; it raises when no event is left and for a failed process. -/
def step (s : Sim G) : Option (Sim G) :=
  match s.agenda with
  | [] => none
  | (_, .samplerFailed) :: _ => none
  | (t, e) :: rest => some (callbacks c e { s with now := t, agenda := rest })

def MAX_SIM_TIME : ℚ := 10 ^ 9

/-- One round of the stepping loop, or `none` if the loop is left. -/
def round (s : Sim G) : Option (Sim G) :=
  if c.numTasks ≤ s.metrics.completedTasks then none
  else if MAX_SIM_TIME < s.now then none
  else step c s

/-- The environment with the processes started. -/
def start (random : G) : Sim G where
  now := 0
  agenda := (([.arrivalInit] ++ (List.range c.numLeaders).map .leaderInit ++
    (List.range c.numFollowers).map .followerInit ++ [.depthInit, .rateInit]) : List Ev).map (0, ·)
  stores _ := ⟨[], []⟩
  random := random
  metrics := .init

/-- The state after `n` rounds of the loop, or where it has been left before. -/
def reached (random : G) (n : Nat) : Sim G := Machine.steps (round c) n (start c random)

/-- The arrival process is started first. -/
theorem start_agenda (random : G) : ∃ rest, (start c random).agenda = (0, .arrivalInit) :: rest ∧
    ∀ x ∈ rest, x.1 = 0 ∧ ((∃ lid, x.2 = .leaderInit lid) ∨ (∃ fid, x.2 = .followerInit fid) ∨
      x.2 = .depthInit ∨ x.2 = .rateInit) := by
  refine ⟨((List.range c.numLeaders).map Ev.leaderInit ++
    (List.range c.numFollowers).map Ev.followerInit ++ [Ev.depthInit, .rateInit]).map (0, ·), rfl,
    fun x hx => ?_⟩
  obtain ⟨e, he, rfl⟩ := List.mem_map.1 hx
  simp only [List.mem_append, List.mem_map, List.mem_range, List.mem_cons, List.not_mem_nil,
    or_false] at he
  obtain (⟨lid, -, rfl⟩ | ⟨fid, -, rfl⟩) | rfl | rfl := he <;> simp

/-- The events that processes begin with. -/
def Ev.Initial : Ev → Prop
  | .arrivalInit => True
  | .leaderInit _ => True
  | .followerInit _ => True
  | .depthInit => True
  | .rateInit => True
  | _ => False

/-- At the start nothing else is on the agenda. -/
theorem start_initial (random : G) : ∀ x ∈ (start c random).agenda, x.1 = 0 ∧ x.2.Initial := by
  obtain ⟨rest, hagenda, hrest⟩ := start_agenda c random
  rw [hagenda]
  refine List.forall_mem_cons.2 ⟨⟨rfl, trivial⟩, fun x hx => ?_⟩
  obtain ⟨hzero, ⟨_, he⟩ | ⟨_, he⟩ | he | he⟩ := hrest x hx <;> rw [he] <;> exact ⟨hzero, trivial⟩

/-! ## Runs -/

namespace Sim

/-- The state with an event in hand: it is due now, before all others. -/
def hold (e : Ev) (s : Sim G) : Sim G := { s with agenda := (s.now, e) :: s.agenda }

@[simp] theorem hold_now (s : Sim G) (e : Ev) : (s.hold e).now = s.now := rfl
@[simp] theorem hold_agenda (s : Sim G) (e : Ev) : (s.hold e).agenda = (s.now, e) :: s.agenda := rfl
@[simp] theorem hold_stores (s : Sim G) (e : Ev) : (s.hold e).stores = s.stores := rfl
@[simp] theorem hold_random (s : Sim G) (e : Ev) : (s.hold e).random = s.random := rfl
@[simp] theorem hold_metrics (s : Sim G) (e : Ev) : (s.hold e).metrics = s.metrics := rfl

end Sim

variable {c}

/-- A round of the loop takes the first event in hand, and time goes on to it. -/
theorem round_cases {s s' : Sim G} (h : round c s = some s') :
    ∃ t e rest, s.agenda = (t, e) :: rest ∧ s.metrics.completedTasks < c.numTasks ∧
      s.now ≤ MAX_SIM_TIME ∧ s' = callbacks c e { s with now := t, agenda := rest } := by
  unfold round at h
  split at h
  · cases h
  split at h
  · cases h
  rename_i hrunning hnow
  unfold step at h
  split at h
  · cases h
  · cases h
  · rename_i hagenda
    exact ⟨_, _, _, hagenda, not_le.1 hrunning, not_lt.1 hnow, (Option.some.inj h).symm⟩

/-- The timeouts of the samplers. -/
def Ev.Sampling : Ev → Prop
  | .depthTimeout => True
  | .rateTimeout _ _ _ => True
  | _ => False

/-- What the callbacks of an event may schedule, and with which delay. -/
inductive Schedules (c : Setup G) (s : Sim G) : Ev → ℚ → Ev → Prop where
  | arrivalPut (e : Ev) (i : Nat) (h : e.next = some i) : Schedules c s e 0 (.arrivalPut i)
  | arrivalTimeout (i : Nat) (h : 0 < (c.interarrival s.random).1) :
    Schedules c s (.arrivalPut i) (c.interarrival s.random).1 (.arrivalTimeout i)
  | arrivalEnd (e : Ev) : Schedules c s e 0 .arrivalEnd
  | gotten (e : Ev) (q : StoreName) (pid tid : Nat) : Schedules c s e 0 (q.gotten pid tid)
  | leaderTimeout (lid tid : Nat) (h : 0 < (c.dispatchTime s.random).1) :
    Schedules c s (.leaderGet lid tid) (c.dispatchTime s.random).1
      (.leaderTimeout lid (fillBatch c.batchEnqueue [tid] (s.stores .arrivalBuffer).items).1 s.now)
  | putAtOnce (lid tid t : Nat) (rest : List Nat) (h : (c.dispatchTime s.random).1 ≤ 0)
    (hb : (fillBatch c.batchEnqueue [tid] (s.stores .arrivalBuffer).items).1 = t :: rest) :
    Schedules c s (.leaderGet lid tid) 0 (.execPut lid t rest s.now)
  | putFirst (lid t : Nat) (rest : List Nat) (start : ℚ) :
    Schedules c s (.leaderTimeout lid (t :: rest) start) 0 (.execPut lid t rest s.now)
  | putNext (lid t' t : Nat) (rest : List Nat) (beforePut : ℚ) :
    Schedules c s (.execPut lid t' (t :: rest) beforePut) 0 (.execPut lid t rest s.now)
  | followerTimeout (fid tid : Nat) (h : 0 < (c.taskDuration s.random).1) :
    Schedules c s (.followerGet fid tid) (c.taskDuration s.random).1 (.followerTimeout fid tid s.now)
  | sampling (e e' : Ev) (d : ℚ) (hd : 0 ≤ d) (he : e'.Sampling) : Schedules c s e d e'
  | samplerFailed (e : Ev) (h : c.sampleInterval < 0) : Schedules c s e 0 .samplerFailed

namespace Schedules

variable {s : Sim G} {e e' : Ev} {d : ℚ}

theorem nonneg (h : Schedules c s e d e') : 0 ≤ d := by
  cases h with
  | arrivalTimeout _ h | leaderTimeout _ _ h | followerTimeout _ _ h => exact h.le
  | sampling _ _ _ hd => exact hd
  | _ => exact le_rfl

/-- Only the arrival process goes on with the arrivals. -/
theorem next_eq_none (h : Schedules c s e d e') (he : e.next = none) : e'.next = none := by
  cases h with
  | arrivalPut _ _ h => rw [he] at h; cases h
  | arrivalTimeout => cases he
  | gotten _ q => cases q <;> rfl
  | sampling e e' d hd he' => cases e' <;> first | rfl | exact he'.elim
  | _ => rfl

end Schedules

/-- A property that no store, no draw and no metric can break, and nothing that the
event schedules, is kept by the callbacks of the event. -/
theorem callbacks_closed (e : Ev) (s : Sim G) {I : Sim G → Prop}
    (setStore : ∀ (s' : Sim G) q items getQueue, I s' → I (s'.setStore q items getQueue))
    (setRandom : ∀ (s' : Sim G) random, I s' → I (s'.setRandom random))
    (record : ∀ (s' : Sim G) f,
      (e.next = none → ∀ m tid, Metrics.stamp (f m) tid .arrival = m.stamp tid .arrival) →
      I s' → I (s'.record f))
    (schedule : ∀ (s' : Sim G) d e', s'.now = s.now → Schedules c s e d e' → I s' →
      I (s'.schedule d e')) (h : I s) : I (callbacks c e s) := by
  -- the callbacks do not take the time on
  let J (s' : Sim G) := s'.now = s.now ∧ I s'
  suffices J (callbacks c e s) from this.2
  replace h : J s := ⟨rfl, h⟩
  replace setStore : ∀ (s' : Sim G) q items getQueue, J s' → J (s'.setStore q items getQueue) :=
    fun s' q items getQueue h => ⟨h.1, setStore s' q items getQueue h.2⟩
  replace setRandom : ∀ (s' : Sim G) random, J s' → J (s'.setRandom random) :=
    fun s' random h => ⟨h.1, setRandom s' random h.2⟩
  replace record : ∀ (s' : Sim G) f,
      (e.next = none → ∀ m tid, Metrics.stamp (f m) tid .arrival = m.stamp tid .arrival) →
      J s' → J (s'.record f) := fun s' f hf h => ⟨h.1, record s' f hf h.2⟩
  replace schedule : ∀ (s' : Sim G) d e', Schedules c s e d e' → J s' → J (s'.schedule d e') :=
    fun s' d e' he h => ⟨h.1, schedule s' d e' h.1 he h.2⟩
  have trigger : ∀ (s' : Sim G) q, J s' → J (s'.triggerGet q) := by
    intro s' q h
    obtain ⟨hs, -⟩ | ⟨t, items, pid, getQueue, -, hs⟩ := s'.triggerGet_cases q
    · rwa [hs]
    · rw [hs]
      exact schedule _ _ _ (.gotten ..) (setStore _ _ _ _ h)
  have get : ∀ (s' : Sim G) q pid, J s' → J (s'.get q pid) := fun s' q pid h =>
    trigger _ _ (setStore _ _ _ _ h)
  have arrive : ∀ (s' : Sim G) i, e.next = some i → J s' → J (arrivalLoop c i s') := by
    intro s' i hi h
    unfold arrivalLoop
    split_ifs
    · refine schedule _ _ _ (.arrivalPut e i hi) (setStore _ _ _ _ (record _ _ (fun he => ?_) h))
      rw [hi] at he
      cases he
    · exact schedule _ _ _ (.arrivalEnd e) h
  have enqueue : ∀ (s' : Sim G) lid batch,
      (∀ t rest, batch = t :: rest → Schedules c s e 0 (.execPut lid t rest s.now)) → J s' →
      J (enqueueLoop lid batch s') := by
    intro s' lid batch hput h
    cases batch with
    | nil => exact get _ _ _ h
    | cons t rest =>
      have hnow := h.1
      rw [← hnow] at hput
      exact schedule _ _ _ (hput t rest rfl) (setStore _ _ _ _ h)
  have executed : ∀ (s' : Sim G) fid tid start, J s' → J (afterExecution fid tid start s') :=
    fun s' fid tid start h =>
      get _ _ _ (record _ _ (fun _ _ _ => by simp [Metrics.stamp_recordExecuted]) h)
  have sample : ∀ (s' : Sim G) e', e'.Sampling → J s' → J (sampleTimeout c e' s') := by
    intro s' e' he' h
    unfold sampleTimeout
    split_ifs with hneg
    · exact schedule _ _ _ (.samplerFailed e hneg) h
    · exact schedule _ _ _ (.sampling e e' _ (not_lt.1 hneg) he') h
  have depth : J (depthLoop c s) :=
    sample _ _ trivial (record _ _ (fun _ _ _ => by simp) (record _ _ (fun _ _ _ => by simp) h))
  cases e with
  | arrivalInit => exact arrive _ _ rfl h
  | leaderInit lid => exact get _ _ _ h
  | followerInit fid => exact get _ _ _ h
  | depthInit | depthTimeout => exact depth
  | rateInit => exact sample _ _ trivial h
  | arrivalPut i =>
    simp only [callbacks, afterArrivalPut, triggerGet_random]
    split_ifs with hpos
    · exact schedule _ _ _ (.arrivalTimeout i hpos) (setRandom _ _ (trigger _ _ h))
    · exact arrive _ _ rfl (setRandom _ _ (trigger _ _ h))
  | arrivalTimeout i => exact arrive _ _ rfl h
  | arrivalEnd | samplerFailed => exact h
  | leaderGet lid tid =>
    simp only [callbacks, afterLeaderGet]
    split_ifs with hpos
    · exact schedule _ _ _ (.leaderTimeout lid tid hpos) (setStore _ _ _ _ (setRandom _ _ h))
    · exact enqueue _ _ _ (fun t rest hb => .putAtOnce lid tid t rest (not_lt.1 hpos) hb)
        (record _ _ (fun _ _ _ => by simp) (setStore _ _ _ _ (setRandom _ _ h)))
  | leaderTimeout lid batch start =>
    refine enqueue _ _ _ (fun t rest hb => ?_) (record _ _ (fun _ _ _ => by simp) h)
    subst hb
    exact .putFirst ..
  | execPut lid t' rest' beforePut =>
    refine enqueue _ _ _ (fun t rest hb => ?_)
      (record _ _ (fun _ _ _ => by simp [Metrics.stamp_recordPut]) (trigger _ _ h))
    subst hb
    exact .putNext ..
  | followerGet fid tid =>
    have started := record s (.recordStartExec tid s.now fid)
      (fun _ _ _ => by simp [Metrics.stamp_recordStartExec]) h
    simp only [callbacks, afterFollowerGet]
    split_ifs with hpos
    · exact schedule _ _ _ (.followerTimeout fid tid hpos) (setRandom _ _ started)
    · exact executed _ _ _ _ (setRandom _ _ started)
  | followerTimeout fid tid start => exact executed _ _ _ _ h
  | rateTimeout lastT lastEnq lastDeq =>
    exact sample _ _ trivial (record _ _ (fun _ _ _ => by simp) h)

/-- What is on the agenda was there before or has been scheduled now. -/
theorem callbacks_agenda {e : Ev} {s : Sim G} {x : ℚ × Ev} (hx : x ∈ (callbacks c e s).agenda) :
    x ∈ s.agenda ∨ ∃ d, Schedules c s e d x.2 ∧ x.1 = s.now + d := by
  refine callbacks_closed e s (I := fun s' => ∀ x ∈ s'.agenda, x ∈ s.agenda ∨
    ∃ d, Schedules c s e d x.2 ∧ x.1 = s.now + d) (fun _ _ _ _ h => h) (fun _ _ h => h)
    (fun _ _ _ h => h) (fun s' d e' hnow he h x hx => ?_) (fun _ hx => .inl hx) x hx
  rcases mem_schedule.1 hx with rfl | hx
  · exact .inr ⟨d, he, by rw [hnow]⟩
  · exact h x hx

@[simp] theorem callbacks_now (e : Ev) (s : Sim G) : (callbacks c e s).now = s.now :=
  callbacks_closed e s (I := fun s' => s'.now = s.now) (fun _ _ _ _ h => h) (fun _ _ h => h)
    (fun _ _ _ h => h) (fun _ _ _ _ _ h => h) rfl

/-- The event that is processed next. -/
def Sim.due (s : Sim G) : Option Ev := s.agenda.head?.map Prod.snd

/-- **Invariants of the loop.**  It is enough that time going on and the callbacks
of the event in hand keep what holds at the start. -/
theorem loop_invariant_draws {β : Type} (label : Ev → G → Option β) {I : List β → Sim G → Prop}
    {random : G} (init : I [] (start c random))
    (advance : ∀ log (s : Sim G) t e rest, I log s → s.agenda = (t, e) :: rest →
      s.metrics.completedTasks < c.numTasks → I log { s with now := t })
    (called : ∀ log e (s : Sim G), I log (s.hold e) →
      I (log ++ (label e s.random).toList) (callbacks c e s)) (n : Nat) :
    I (Machine.stepsLog (round c) (fun s => s.due.bind (label · s.random)) n (start c random))
      (reached c random n) := by
  refine Machine.steps_invariant_log (fun log s s' hs hstep => ?_) init n
  obtain ⟨t, e, rest, hagenda, hrunning, -, rfl⟩ := round_cases hstep
  have hnow := advance log s t e rest hs hagenda hrunning
  rw [hagenda] at hnow
  have := called log e { s with now := t, agenda := rest } hnow
  rwa [Sim.due, hagenda]

theorem loop_invariant_log {β : Type} (label : Ev → Option β) {I : List β → Sim G → Prop}
    {random : G} (init : I [] (start c random))
    (advance : ∀ log (s : Sim G) t e rest, I log s → s.agenda = (t, e) :: rest →
      I log { s with now := t })
    (called : ∀ log e (s : Sim G), I log (s.hold e) →
      I (log ++ (label e).toList) (callbacks c e s)) (n : Nat) :
    I (Machine.stepsLog (round c) (fun s => s.due.bind label) n (start c random))
      (reached c random n) :=
  loop_invariant_draws (fun e _ => label e) init
    (fun log s t e rest h hagenda _ => advance log s t e rest h hagenda) called n

theorem loop_invariant {I : Sim G → Prop} {random : G} (init : I (start c random))
    (advance : ∀ (s : Sim G) t e rest, I s → s.agenda = (t, e) :: rest → I { s with now := t })
    (called : ∀ e (s : Sim G), I (s.hold e) → I (callbacks c e s)) (n : Nat) :
    I (reached c random n) :=
  loop_invariant_log (fun _ => (none : Option Empty)) (I := fun _ => I) init
    (fun _ => advance) (fun _ => called) n

/-! ## Time goes on -/

/-- The events that are due when they are scheduled. -/
def Ev.Prompt : Ev → Prop
  | .arrivalTimeout _ => False
  | .leaderTimeout _ _ _ => False
  | .followerTimeout _ _ _ => False
  | .depthTimeout => False
  | .rateTimeout _ _ _ => False
  | _ => True

/-- The agenda is in order, nothing on it is late, and what was due when it was
scheduled is due now. -/
structure Ordered (s : Sim G) : Prop where
  sorted : Sorted s.agenda
  ahead : ∀ x ∈ s.agenda, s.now ≤ x.1
  prompt : ∀ x ∈ s.agenda, x.2.Prompt → x.1 ≤ s.now

/-- Such an event is scheduled without a delay. -/
theorem Schedules.prompt {s : Sim G} {e e' : Ev} {d : ℚ} (h : Schedules c s e d e')
    (he : e'.Prompt) : d = 0 := by
  cases h with
  | arrivalTimeout | leaderTimeout | followerTimeout => exact he.elim
  | sampling e e' d hd hs => cases e' <;> first | exact hs.elim | exact he.elim
  | _ => rfl

namespace Ordered

variable {s : Sim G} {e : Ev}

theorem of_hold (h : Ordered (s.hold e)) : Ordered s where
  sorted := (List.pairwise_cons.1 h.sorted).2
  ahead x hx := h.ahead x (List.mem_cons_of_mem _ hx)
  prompt x hx := h.prompt x (List.mem_cons_of_mem _ hx)

theorem schedule (h : Ordered s) {d : ℚ} (hd : 0 ≤ d) (he : e.Prompt → d = 0) :
    Ordered (s.schedule d e) where
  sorted := sorted_schedule _ _ h.sorted
  ahead x hx := by
    rcases mem_schedule.1 hx with rfl | hx
    · exact le_add_of_nonneg_right hd
    · exact h.ahead x hx
  prompt x hx hprompt := by
    rcases mem_schedule.1 hx with rfl | hx
    · simp [he hprompt]
    · exact h.prompt x hx hprompt

theorem setStore (h : Ordered s) (q : StoreName) (items getQueue : List Nat) :
    Ordered (s.setStore q items getQueue) :=
  ⟨h.sorted, h.ahead, h.prompt⟩

theorem setRandom (h : Ordered s) (random : G) : Ordered (s.setRandom random) :=
  ⟨h.sorted, h.ahead, h.prompt⟩

theorem record (h : Ordered s) (f : Metrics → Metrics) : Ordered (s.record f) :=
  ⟨h.sorted, h.ahead, h.prompt⟩

theorem triggerGet (h : Ordered s) (q : StoreName) : Ordered (s.triggerGet q) := by
  obtain ⟨hs, -⟩ | ⟨t, items, pid, getQueue, -, hs⟩ := s.triggerGet_cases q
  · rwa [hs]
  · rw [hs]
    exact (h.setStore _ _ _).schedule le_rfl fun _ => rfl

theorem put (h : Ordered s) (q : StoreName) (tid : Nat) (e : Ev) : Ordered (s.put q tid e) :=
  (h.setStore _ _ _).schedule le_rfl fun _ => rfl

variable (c) in
theorem arrivalLoop (h : Ordered s) (i : Nat) : Ordered (arrivalLoop c i s) := by
  unfold Behavioral.arrivalLoop
  split_ifs
  · exact (h.record _).put _ _ _
  · exact h.schedule le_rfl fun _ => rfl

theorem start (random : G) : Ordered (start c random) := by
  have at_zero : ∀ x ∈ (Behavioral.start c random).agenda, x.1 = 0 := fun x hx =>
    (start_initial c random x hx).1
  refine ⟨List.pairwise_of_forall_mem_list fun x hx y hy => ?_, fun x hx => ?_, fun x hx _ => ?_⟩
  · rw [at_zero x hx, at_zero y hy]
  · rw [at_zero x hx]
    exact le_rfl
  · rw [at_zero x hx]
    exact le_rfl

theorem now_le {t : ℚ} {rest : List (ℚ × Ev)} (h : Ordered s) (hagenda : s.agenda = (t, e) :: rest) :
    s.now ≤ t :=
  h.ahead (t, e) (by simp [hagenda])

/-- Nothing is due before the first event. -/
theorem head_le {t : ℚ} {rest : List (ℚ × Ev)} (h : Ordered s) (hagenda : s.agenda = (t, e) :: rest) :
    ∀ x ∈ s.agenda, t ≤ x.1 := by
  have hsorted := h.sorted
  rw [hagenda, Sorted, List.pairwise_cons] at hsorted
  rw [hagenda]
  exact List.forall_mem_cons.2 ⟨le_rfl, hsorted.1⟩

theorem advance {t : ℚ} {rest : List (ℚ × Ev)} (h : Ordered s) (hagenda : s.agenda = (t, e) :: rest) :
    Ordered { s with now := t } :=
  ⟨h.sorted, h.head_le hagenda, fun x hx he => (h.prompt x hx he).trans (h.now_le hagenda)⟩

theorem callbacks (h : Ordered (s.hold e)) : Ordered (callbacks c e s) :=
  callbacks_closed e s (fun _ _ _ _ h => h.setStore _ _ _) (fun _ _ h => h.setRandom _)
    (fun _ _ _ h => h.record _) (fun _ _ _ _ he h => h.schedule he.nonneg he.prompt) h.of_hold

end Ordered

end TaskQueueCoSim.Behavioral
