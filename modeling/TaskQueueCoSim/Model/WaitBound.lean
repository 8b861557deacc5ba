import Mathlib.Algebra.BigOperators.Intervals
import TaskQueueCoSim.Model.LittlesLaw
import TaskQueueCoSim.Model.QueueOrder

/-!
# How long a task waits (model/behavioral.py)

While a task waits for a follower, all followers execute tasks that were put before it.

* `stamp_getD`: what has been recorded by a round are the times up to then;
* `area_between`: the followers' work in a part of a run;
* `wait_le_work_ahead`: the wait of a task, times the number of followers, is at most the work
  that was ahead of it.
-/

namespace TaskQueueCoSim.Behavioral

open Agenda Sim Sojourn

variable {G : Type} {c : Setup G} {random : G} {i j n tid a b : ℕ} {k : Stamp} {x y z : ℚ}

/-! ## Times and rounds -/

/-- A time is recorded in a round at that time. -/
theorem exists_round (hy : (reached c random n).metrics.stamp tid k = some y) :
    ∃ i ≤ n, (reached c random i).now = y ∧ (reached c random i).metrics.stamp tid k = some y ∧
      ∀ j < i, (reached c random j).metrics.stamp tid k = none := by
  induction n with
  | zero => cases k <;> cases hy
  | succ n ih =>
    obtain hsame | ⟨hnone, hnow⟩ := notes_reached c random n tid k
    · obtain ⟨i, hi, hround⟩ := ih (hsame ▸ hy)
      exact ⟨i, hi.trans (Nat.le_succ n), hround⟩
    · refine ⟨n + 1, le_rfl, Option.some.inj (hnow.symm.trans hy), hy, fun j hj => ?_⟩
      refine Option.eq_none_iff_forall_ne_some.2 fun x hx => ?_
      have := stamp_reached_of_le (Nat.le_of_lt_succ hj) hx
      rw [hnone] at this
      cases this

/-- What has been recorded by a round are the times up to then. -/
theorem stamp_getD (hin : i ≤ n) :
    ((reached c random i).metrics.stamp tid k).getD (reached c random i).now =
      min (((reached c random n).metrics.stamp tid k).getD (reached c random n).now)
        (reached c random i).now := by
  cases hn : (reached c random n).metrics.stamp tid k with
  | none =>
    have hi : (reached c random i).metrics.stamp tid k = none := by
      refine Option.eq_none_iff_forall_ne_some.2 fun x hx => ?_
      rw [stamp_reached_of_le hin hx] at hn
      cases hn
    rw [hi]
    exact (min_eq_right (now_le_now c random hin)).symm
  | some y =>
    obtain ⟨hi, hle⟩ | ⟨hi, hle⟩ := stamp_by hin hn
    · rw [hi]
      exact (min_eq_right ((now_le_now_succ c random i).trans hle)).symm
    · rw [hi]
      exact (min_eq_left hle).symm

/-! ## The work of the followers -/

/-- How long a task has been executed. -/
def Sim.workOf (s : Sim G) (tid : ℕ) : ℚ := (s.metrics.stay .startExec .finish tid).spent s.now

/-- The area under the number of followers at work is the work that they do. -/
theorem area_between (hij : i ≤ j) :
    ∑ m ∈ Finset.Ico i j, ((reached c random (m + 1)).now - (reached c random m).now) *
        (reached c random m).atWork .execQueue =
      ∑ tid ∈ Finset.range c.numTasks,
        ((reached c random j).workOf tid - (reached c random i).workOf tid) := by
  rw [Finset.sum_Ico_eq_sub _ hij, Finset.sum_sub_distrib]
  exact congrArg₂ (· - ·) (area_parts c random j).2.2 (area_parts c random i).2.2

/-- All followers are at work while a task waits and time goes on. -/
theorem atWork_of_waits (hx : (reached c random n).metrics.stamp a .enqueued = some x)
    (hnone : (reached c random n).metrics.stamp a .startExec = none)
    (hlt : (reached c random n).now < (reached c random (n + 1)).now) :
    (reached c random n).atWork .execQueue = c.numFollowers := by
  have settled := settled_reached hlt
  have conserving := workConserving_of_settled settled
  have hline := ((inv_reached c random n).waits hx hnone).1
  rw [waitingLine_eq, settled.gather_eq_nil (by decide), List.nil_append] at hline
  have waiting := conserving.waiting
  have executing := conserving.executing
  have hpos := List.length_pos_of_mem hline
  omega

/-- While a task waits the followers do all the work that they can. -/
theorem work_while_waiting (hij : i ≤ j)
    (hx : (reached c random i).metrics.stamp a .enqueued = some x)
    (hnone : ∀ m < j, (reached c random m).metrics.stamp a .startExec = none) :
    c.numFollowers * ((reached c random j).now - (reached c random i).now) =
      ∑ tid ∈ Finset.range c.numTasks,
        ((reached c random j).workOf tid - (reached c random i).workOf tid) := by
  rw [← area_between hij]
  have telescope := Finset.sum_Ico_sub (fun m => (reached c random m).now) hij
  rw [← telescope, Finset.mul_sum]
  refine Finset.sum_congr rfl fun m hm => ?_
  obtain ⟨him, hmj⟩ := Finset.mem_Ico.1 hm
  rcases (now_le_now_succ c random m).eq_or_lt with heq | hlt
  · rw [heq, sub_self, mul_zero, zero_mul]
  · rw [atWork_of_waits (stamp_reached_of_le him hx) (hnone m hmj) hlt, mul_comm]

/-! ## What is ahead of a task -/

/-- `b` was put no later than at `x`, when `a` was, and had not been finished. -/
def Metrics.ahead (m : Metrics) (a : ℕ) (x : ℚ) (b : ℕ) : Bool :=
  b ≠ a && (m.stamp b .enqueued).any (· ≤ x) && !(m.stamp b .finish).any (· ≤ x)

section Clipped

variable {S F : ℚ}

/-- What lies before `z` of an interval, without what lies before `x`. -/
def clipped (S F x z : ℚ) : ℚ := (min F z - min S z) - (min F x - min S x)

theorem clipped_le (hSF : S ≤ F) : clipped S F x z ≤ F - S := by
  have before : min S x ≤ min F x := min_le_min_right x hSF
  have inside : min F z - min S z ≤ F - S := by
    rcases le_total S z with h | h
    · rw [min_eq_left h]
      exact sub_le_sub_right (min_le_left F z) S
    · rw [min_eq_right h, min_eq_right (h.trans hSF), sub_self]
      exact sub_nonneg.2 hSF
  unfold clipped
  linarith

theorem clipped_of_late (hSF : S ≤ F) (h : z ≤ S) : clipped S F x z ≤ 0 := by
  have before : min S x ≤ min F x := min_le_min_right x hSF
  rw [clipped, min_eq_right h, min_eq_right (h.trans hSF)]
  linarith

theorem clipped_of_early (hSF : S ≤ F) (hxz : x ≤ z) (h : F ≤ x) : clipped S F x z = 0 := by
  rw [clipped, min_eq_left h, min_eq_left (h.trans hxz), min_eq_left (hSF.trans h),
    min_eq_left (hSF.trans (h.trans hxz)), sub_self]

end Clipped

/-- When the execution of a task began, or now. -/
def Sim.beganAt (s : Sim G) (tid : ℕ) : ℚ := (s.metrics.stamp tid .startExec).getD s.now

/-- When the execution of a task ended, or now. -/
def Sim.endedAt (s : Sim G) (tid : ℕ) : ℚ := (s.metrics.stamp tid .finish).getD s.now

/-- The work on a task between two rounds. -/
theorem workOf_sub (hij : i ≤ j) (hjn : j ≤ n) (tid : ℕ) :
    (reached c random j).workOf tid - (reached c random i).workOf tid =
      clipped ((reached c random n).beganAt tid) ((reached c random n).endedAt tid)
        (reached c random i).now (reached c random j).now := by
  have hin := hij.trans hjn
  rw [clipped, Sim.beganAt, Sim.endedAt, ← stamp_getD hjn, ← stamp_getD hjn, ← stamp_getD hin,
    ← stamp_getD hin]
  rfl

theorem beganAt_le_endedAt (n tid : ℕ) :
    (reached c random n).beganAt tid ≤ (reached c random n).endedAt tid := by
  have hinv := inv_reached c random n
  unfold Sim.beganAt Sim.endedAt
  cases hf : (reached c random n).metrics.stamp tid .finish with
  | some f =>
    obtain ⟨s, hs, hle⟩ := hinv.after tid .finish .startExec f rfl hf
    rw [hs]
    exact hle
  | none =>
    cases hs : (reached c random n).metrics.stamp tid .startExec with
    | none => exact le_rfl
    | some s => exact hinv.past tid .startExec s hs

/-- Before a task is started, the followers work on what is ahead of it. -/
theorem clipped_le_ahead (hx : (reached c random n).metrics.stamp a .enqueued = some x)
    (hz : (reached c random n).metrics.stamp a .startExec = some z) (hxz : x ≤ z) (b : ℕ) :
    clipped ((reached c random n).beganAt b) ((reached c random n).endedAt b) x z ≤
      if (reached c random n).metrics.ahead a x b then (reached c random n).workOf b else 0 := by
  have hSF : (reached c random n).beganAt b ≤ (reached c random n).endedAt b :=
    beganAt_le_endedAt n b
  have hpast : z ≤ (reached c random n).now := (inv_reached c random n).past a .startExec z hz
  split_ifs with hahead
  · exact clipped_le hSF
  by_cases hlate : z ≤ (reached c random n).beganAt b
  · exact clipped_of_late hSF hlate
  refine (clipped_of_early hSF hxz ?_).le
  -- it has been started earlier, so it was put earlier, and is no longer ahead
  have hinv := inv_reached c random n
  have hfirst := (inOrder_reached c random n).firstComeFirstServed hinv
  cases hs : (reached c random n).metrics.stamp b .startExec with
  | none =>
    rw [Sim.beganAt, hs] at hlate
    exact absurd hpast hlate
  | some s =>
    rw [Sim.beganAt, hs, Option.getD_some, not_le] at hlate
    obtain ⟨y, hy, -⟩ := hinv.after b .startExec .enqueued s rfl hs
    have hne : b ≠ a := by
      rintro rfl
      exact hlate.ne (Option.some.inj (hs.symm.trans hz))
    have hyx : y ≤ x := by
      by_contra hlt
      obtain ⟨w, hw, hle⟩ := hfirst a b x y s hx hy (not_le.1 hlt) hs
      obtain rfl := Option.some.inj (hz.symm.trans hw)
      exact absurd hle (not_le.2 hlate)
    cases hf : (reached c random n).metrics.stamp b .finish with
    | none => simp [Metrics.ahead, hne, hy, hyx, hf] at hahead
    | some f => simpa [Metrics.ahead, hne, hy, hyx, hf, Sim.endedAt] using hahead

/-- The wait of a task, times the number of followers, is at most the work that was ahead of it. -/
def WaitsForWork (c : Setup G) (s : Sim G) : Prop :=
  ∀ a x z, s.metrics.stamp a .enqueued = some x → s.metrics.stamp a .startExec = some z →
    c.numFollowers * (z - x) ≤
      ∑ b ∈ (Finset.range c.numTasks).filter fun b => s.metrics.ahead a x b, s.workOf b

/-- **No task waits for longer than its share of the work ahead of it.**  In every run, the time
that a task has waited in the execution queue, times the number of followers, is at most the time
that the tasks take that had been put before it and were not finished then. -/
theorem wait_le_work_ahead (c : Setup G) (random : G) (n : ℕ) :
    WaitsForWork c (reached c random n) := by
  intro a x z hx hz
  obtain ⟨i, hi, rfl, hxi, hbefore⟩ := exists_round hx
  obtain ⟨j, hj, rfl, hzj, hwaiting⟩ := exists_round hz
  have hij : i ≤ j := by
    obtain ⟨y, hy, -⟩ := (inv_reached c random j).after a .startExec .enqueued _ rfl hzj
    by_contra hlt
    rw [hbefore j (not_le.1 hlt)] at hy
    cases hy
  have hxz := now_le_now c random hij
  rw [work_while_waiting hij hxi hwaiting, Finset.sum_filter]
  refine Finset.sum_le_sum fun b _ => ?_
  rw [workOf_sub hij hj]
  exact clipped_le_ahead hx hz hxz b

end TaskQueueCoSim.Behavioral
