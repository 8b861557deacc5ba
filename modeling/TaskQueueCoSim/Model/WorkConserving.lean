import TaskQueueCoSim.Model.BusyTime
import TaskQueueCoSim.Model.Timeline

/-!
# Work conservation (model/behavioral.py)

* `flow_reached`: the totals are what is in the parts of the state;
* `Settled`: time goes on only when all that was due has happened;
* `work_conserving`: no follower and no leader is idle then while a task waits for it.
-/

namespace TaskQueueCoSim.Behavioral

open Agenda Sim

variable {G : Type} {c : Setup G} {s : Sim G}

/-! ## How many tasks there are in each part of the state -/

/-- The tasks that an event stands for. -/
def Ev.tasks : Gauge → Ev → List ℕ
  | .buffered, .leaderGet _ t => [t]
  | .batched, .leaderTimeout _ batch _ => batch
  | .batched, .execPut _ _ rest _ => rest
  | .queued, .followerGet _ t => [t]
  | .executing, .followerTimeout _ t _ => [t]
  | .putting, .execPut _ t _ _ => [t]
  | _, _ => []

namespace Sim

def items (s : Sim G) : Gauge → List ℕ
  | .buffered => (s.stores .arrivalBuffer).items
  | .queued => (s.stores .execQueue).items
  | _ => []

def tasks (s : Sim G) (k : Gauge) : List ℕ := s.items k ++ gather (Ev.tasks k) s.agenda

end Sim

theorem found_eq_count (s : Sim G) (tid : ℕ) (k : Gauge) : s.found tid k = (s.tasks k).count tid := by
  have hw : (fun e => (Ev.tasks k e).count tid) = Ev.weight tid k := by
    funext e
    cases k <;> cases e <;> rfl
  have hi : s.waiting tid k = (s.items k).count tid := by cases k <;> rfl
  rw [found, tasks, List.count_append, count_gather, hw, hi]

/-- Each of the tasks is counted once for every time it is there. -/
theorem sum_found {N : ℕ} {k : Gauge} (h : ∀ tid, N ≤ tid → s.found tid k = 0) :
    ∑ tid ∈ Finset.range N, s.found tid k = (s.tasks k).length := by
  have hsub : (s.tasks k).toFinset ⊆ Finset.range N := by
    intro tid htid
    have hpos := List.count_pos_iff.2 (List.mem_toFinset.1 htid)
    rw [← found_eq_count] at hpos
    by_contra hge
    have := h tid (by simpa using hge)
    omega
  simp only [found_eq_count]
  rw [← List.sum_toFinset_count_eq_length]
  refine (Finset.sum_subset hsub fun tid _ hnot => ?_).symm
  exact List.count_eq_zero.2 fun hmem => hnot (List.mem_toFinset.2 hmem)

/-- The tasks that have come to a part of the state and have not left it are in it. -/
structure Flow (N : ℕ) (s : Sim G) : Prop where
  arrived : (s.tasks .buffered).length + (s.tasks .batched).length + (s.tasks .queued).length +
    (s.tasks .executing).length + s.metrics.completedTasks = s.stampedCount N .arrival
  enqueued : (s.tasks .putting).length + s.metrics.totalEnqueued =
    (s.tasks .queued).length + (s.tasks .executing).length + s.metrics.completedTasks
  started : s.stampedCount N .startExec =
    (s.tasks .executing).length + s.metrics.completedTasks

theorem Inv.flow {N : ℕ} {log : List ℕ} (h : Inv N log s) : Flow N s := by
  obtain ⟨n, ha, hl⟩ := h.census
  have outside : ∀ k tid, N ≤ tid → s.found tid k = 0 := by
    intro k tid htid
    have placed := (hl tid).placed
    have enqueued := (hl tid).enqueued
    rw [if_neg (by have := ha.le; omega)] at placed
    cases k <;> omega
  have arrival : ∀ tid, s.stamped tid .arrival = if tid < n then 1 else 0 := by
    intro tid
    have := ha.arrived tid
    split_ifs with hn
    · simpa [stamped] using this.2 hn
    · exact stamped_eq_zero_iff.2 (by simpa using fun hs => hn (this.1 hs))
  have sums (f : ℕ → ℕ) (g : ℕ → ℕ) (hfg : ∀ tid, f tid = g tid) :
      ∑ tid ∈ Finset.range N, f tid = ∑ tid ∈ Finset.range N, g tid :=
    Finset.sum_congr rfl fun tid _ => hfg tid
  have placed := sums _ _ fun tid => (hl tid).placed.trans (arrival tid).symm
  have enqueued := sums _ _ fun tid => (hl tid).enqueued
  have started := sums _ _ fun tid => (hl tid).started
  simp only [Finset.sum_add_distrib, sum_found (outside _)] at placed enqueued started
  refine ⟨?_, ?_, ?_⟩
  · rw [h.completed]
    exact placed
  · rw [h.completed, h.enqueued]
    exact enqueued
  · rw [h.completed]
    exact started

/-- A time of a task is recorded only if the one before it is. -/
theorem Timed.stamped_le (h : Timed s) {k k' : Stamp} (hk : k'.prev = some k) (tid : ℕ) :
    s.stamped tid k' ≤ s.stamped tid k := by
  cases hs : s.metrics.stamp tid k' with
  | none => simp [stamped, hs]
  | some t =>
    obtain ⟨y, hy, -⟩ := h.after tid k' k t hk hs
    simp [stamped, hs, hy]

theorem Inv.completed_le {N : ℕ} {log : List ℕ} (h : Inv N log s) :
    s.metrics.completedTasks ≤ s.metrics.totalEnqueued := by
  rw [h.completed, h.enqueued]
  refine Finset.sum_le_sum fun tid _ => ?_
  exact (h.stamped_le (k := .startExec) rfl tid).trans (h.stamped_le rfl tid)

/-! ## When time goes on -/

/-- Nothing is left that is due now. -/
def Settled (s : Sim G) : Prop := ∀ x ∈ s.agenda, ¬x.2.Prompt

theorem Ordered.settled (h : Ordered s) {s' : Sim G} (hround : round c s = some s')
    (hlt : s.now < s'.now) : Settled s := by
  obtain ⟨t, e, rest, hagenda, -, -, rfl⟩ := round_cases hround
  rw [callbacks_now] at hlt
  intro x hx hprompt
  exact absurd (hlt.trans_le (h.head_le hagenda x hx)) (not_lt.2 (h.prompt x hx hprompt))

theorem Settled.gather_eq_nil (h : Settled s) {k : Gauge}
    (hk : k ≠ .batched ∧ k ≠ .executing) : gather (Ev.tasks k) s.agenda = [] := by
  refine Agenda.gather_eq_nil.2 fun x hx => ?_
  have := h x hx
  generalize x.2 = e at this
  cases e <;> cases k <;> first | rfl | exact absurd trivial this | exact absurd rfl hk.1 |
    exact absurd rfl hk.2

/-- The store that the process got its task from that is at work until an event. -/
def Ev.serves : Ev → Option StoreName
  | .leaderTimeout _ _ _ => some .arrivalBuffer
  | .followerTimeout _ _ _ => some .execQueue
  | _ => none

/-- How many leaders are dispatching, or how many followers are executing a task. -/
def Sim.atWork (s : Sim G) (q : StoreName) : ℕ :=
  tally (fun e => if e.serves = some q then 1 else 0) s.agenda

theorem length_executing (s : Sim G) : (s.tasks .executing).length = s.atWork .execQueue := by
  have hw : (fun e => (Ev.tasks .executing e).length) =
      fun e => if e.serves = some .execQueue then 1 else 0 := by
    funext e
    cases e <;> rfl
  have hi : s.items .executing = [] := rfl
  rw [tasks, hi, List.nil_append, length_gather, hw, atWork]

/-- All processes that get from a store. -/
theorem staff_reached (c : Setup G) (random : G) (n : ℕ) (q : StoreName) :
    (reached c random n).staff (fun p => p.1 = q) = c.servers q := by
  refine loop_invariant (I := fun s => s.staff (fun p => p.1 = q) = c.servers q) ?_
    (fun _ _ _ _ h _ => h) (fun e s h => ?_) n
  · rw [staff_start]
    cases q <;> simp [Setup.servers]
  · rw [staff_callbacks, ← staff_hold, h]

/-- Then each process is at work or waits for a get. -/
theorem Settled.staff_eq (h : Settled s) (q : StoreName) :
    s.staff (fun p => p.1 = q) = (s.stores q).getQueue.length + s.atWork q := by
  have hw : tally (Ev.staff fun p => p.1 = q) s.agenda = s.atWork q := by
    refine tally_congr fun x hx => ?_
    have := h x hx
    generalize x.2 = e at this ⊢
    cases e <;> cases q <;> first | rfl | exact absurd trivial this
  rw [Sim.staff, hw]
  cases q <;> simp

theorem Settled.told (h : Settled s) (ht : Told s) (q : StoreName) :
    (s.stores q).items = [] ∨ (s.stores q).getQueue = [] := by
  have hw : tally (Ev.untold q) s.agenda = 0 := tally_eq_zero fun x hx => by
    have := h x hx
    generalize x.2 = e at this ⊢
    cases e <;> cases q <;> first | rfl | exact absurd trivial this
  have := ht q
  rw [hw] at this
  simpa using this

/-! ## Every run -/

theorem told_reached (c : Setup G) (random : G) (n : ℕ) : Told (reached c random n) :=
  loop_invariant (.start c random) (fun _ t _ _ h _ => h.advance t) (fun _ _ h => h.callbacks) n

theorem settled_reached {random : G} {n : ℕ}
    (hlt : (reached c random n).now < (reached c random (n + 1)).now) :
    Settled (reached c random n) := by
  rw [reached_succ] at hlt
  cases hround : round c (reached c random n) with
  | none => simp [hround] at hlt
  | some s' =>
    rw [hround] at hlt
    exact (inv_reached c random n).toOrdered.settled hround hlt

/-- As many followers are at work as there are followers and tasks for them, and the other
tasks wait; a task waits for a leader only while all of them are dispatching. -/
structure WorkConserving (c : Setup G) (s : Sim G) : Prop where
  executing : s.atWork .execQueue =
    min c.numFollowers (s.metrics.totalEnqueued - s.metrics.completedTasks)
  waiting : (s.stores .execQueue).items.length =
    s.metrics.totalEnqueued - s.metrics.completedTasks - c.numFollowers
  dispatching : (s.stores .arrivalBuffer).items ≠ [] → s.atWork .arrivalBuffer = c.numLeaders
  batched : (s.stores .arrivalBuffer).items.length + (s.tasks .batched).length +
    s.metrics.totalEnqueued = s.stampedCount c.numTasks .arrival

theorem workConserving_of_settled {random : G} {n : ℕ} (settled : Settled (reached c random n)) :
    WorkConserving c (reached c random n) := by
  have flow := (inv_reached c random n).flow
  have staff (q : StoreName) := (settled.staff_eq q).symm.trans (staff_reached c random n q)
  have told := settled.told (told_reached c random n)
  have putting : ((reached c random n).tasks .putting).length = 0 := by
    rw [tasks, settled.gather_eq_nil (by decide)]
    rfl
  have queued : (reached c random n).tasks .queued = ((reached c random n).stores .execQueue).items := by
    rw [tasks, settled.gather_eq_nil (by decide), List.append_nil]
    rfl
  have buffered : (reached c random n).tasks .buffered =
      ((reached c random n).stores .arrivalBuffer).items := by
    rw [tasks, settled.gather_eq_nil (by decide), List.append_nil]
    rfl
  have arrived := flow.arrived
  have enqueued := flow.enqueued
  rw [length_executing, queued] at arrived enqueued
  rw [buffered] at arrived
  have followers : ((reached c random n).stores .execQueue).getQueue.length +
    (reached c random n).atWork .execQueue = c.numFollowers := staff .execQueue
  have leaders : ((reached c random n).stores .arrivalBuffer).getQueue.length +
    (reached c random n).atWork .arrivalBuffer = c.numLeaders := staff .arrivalBuffer
  have idle : ((reached c random n).stores .execQueue).items.length = 0 ∨
      ((reached c random n).stores .execQueue).getQueue.length = 0 :=
    (told .execQueue).imp List.length_eq_zero_iff.2 List.length_eq_zero_iff.2
  refine ⟨by omega, by omega, fun hne => ?_, by omega⟩
  rw [(told .arrivalBuffer).resolve_left hne] at leaders
  simpa using leaders

/-- **Work is conserved.**  Whenever time goes on in a run, no follower and no leader is idle
while a task waits for it. -/
theorem work_conserving (c : Setup G) (random : G) (n : ℕ)
    (hlt : (reached c random n).now < (reached c random (n + 1)).now) :
    WorkConserving c (reached c random n) :=
  workConserving_of_settled (settled_reached hlt)

/-- Two tasks wait for the one follower. -/
theorem work_conserving_twoBatches : WorkConserving twoBatches (reached twoBatches () 19) :=
  work_conserving twoBatches () 19 (by decide +kernel)

end TaskQueueCoSim.Behavioral
