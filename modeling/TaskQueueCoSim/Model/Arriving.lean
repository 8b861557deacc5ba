import TaskQueueCoSim.Model.Census

/-!
# When the tasks arrive

If the draws for one purpose do not depend on those for another (`Draws`), the
arrival times are the sums of the interarrival times, whatever else happens.
-/

namespace TaskQueueCoSim.Behavioral

open Agenda Sim

variable {G : Type}

/-- What the processes draw: `state a b` is the generator after `a` interarrival
times and `b` task durations. -/
structure Draws (c : Setup G) where
  state : ℕ → ℕ → G
  interarrival : ℕ → ℚ
  taskDuration : ℕ → ℚ
  dispatchTime : ℚ
  interarrival_eq : ∀ a b, c.interarrival (state a b) = (interarrival a, state (a + 1) b)
  taskDuration_eq : ∀ a b, c.taskDuration (state a b) = (taskDuration b, state a (b + 1))
  dispatchTime_eq : ∀ a b, c.dispatchTime (state a b) = (dispatchTime, state a b)

variable {c : Setup G}

namespace Draws

variable (w : Draws c)

/-- When a task arrives: a time that is not positive is not waited for. -/
def arrive : ℕ → ℚ
  | 0 => 0
  | i + 1 => arrive i + max (w.interarrival i) 0

theorem arrive_mono : Monotone w.arrive :=
  monotone_nat_of_le_succ fun _ => le_add_of_nonneg_right (le_max_right _ _)

/-- How many interarrival times have been drawn when an event of the arrival
process is due, and when it is. -/
def clock : Ev → Option (ℕ × ℚ)
  | .arrivalInit => some (0, w.arrive 0)
  | .arrivalPut i => some (i, w.arrive i)
  | .arrivalTimeout i => some (i + 1, w.arrive (i + 1))
  | _ => none

/-- Only the arrival process and the start of a task draw. -/
theorem drawn_eq {e : Ev} (hnext : e.next = none) (hget : ∀ fid tid, e ≠ .followerGet fid tid)
    (a b : ℕ) : drawn c e (w.state a b) = w.state a b := by
  cases e with
  | arrivalPut => cases hnext
  | followerGet => exact absurd rfl (hget _ _)
  | leaderGet => exact congrArg Prod.snd (w.dispatchTime_eq a b)
  | _ => rfl

theorem clock_eq_none {e : Ev} (he : e.next = none) : w.clock e = none := by
  cases e <;> first | rfl | cases he

end Draws

/-- The tasks arrive as the draws say; `a` interarrival times and `b` task
durations have been drawn. -/
structure Arriving (w : Draws c) (n a b : ℕ) (s : Sim G) : Prop extends
    Arrivals c.numTasks n s where
  times : ∀ tid < n, s.metrics.stamp tid .arrival = some (w.arrive tid)
  clock : ∀ x ∈ s.agenda, ∀ j t, w.clock x.2 = some (j, t) → j = a ∧ t = x.1
  drawn : s.random = w.state a b

namespace Arriving

variable {w : Draws c} {n a b : ℕ} {s : Sim G} {e : Ev}

theorem start (w : Draws c) : Arriving w 0 0 0 (start c (w.state 0 0)) := by
  refine ⟨.start c _, fun tid ht => absurd ht (Nat.not_lt_zero _), fun x hx j t hclock => ?_, rfl⟩
  obtain rfl | hnext := start_idle c _ x hx
  · simp only [Draws.clock, Draws.arrive, Option.some.injEq, Prod.mk.injEq] at hclock
    exact ⟨hclock.1.symm, hclock.2.symm⟩
  · rw [w.clock_eq_none hnext] at hclock
    cases hclock

/-- Nothing of this depends on the time. -/
theorem advance (h : Arriving w n a b s) (t : ℚ) : Arriving w n a b { s with now := t } :=
  ⟨⟨h.le, h.arrived, h.next, h.alone⟩, h.times, h.clock, h.drawn⟩

theorem rest_next (h : Arrivals c.numTasks n (s.hold e)) {i : ℕ} (he : e.next = some i) :
    ∀ x ∈ s.agenda, x.2.next = none := by
  have halone := h.alone
  rw [hold_agenda, tally_cons, he] at halone
  intro x hx
  have hle := le_tally (fun e : Ev => e.next.isSome.toNat) hx
  cases hnext : x.2.next with
  | none => rfl
  | some j =>
    simp only [hnext, Option.isSome_some, Bool.toNat_true] at hle halone
    omega

/-- What is no matter of the arrival process. -/
theorem callbacks (h : Arriving w n a b (s.hold e)) (he : e.next = none)
    {b' : ℕ} (hb : Behavioral.drawn c e (w.state a b) = w.state a b') :
    Arriving w n a b' (callbacks c e s) := by
  have kept : (∀ tid < n, (Behavioral.callbacks c e s).metrics.stamp tid .arrival =
        some (w.arrive tid)) ∧
      ∀ x ∈ (Behavioral.callbacks c e s).agenda, ∀ j t, w.clock x.2 = some (j, t) →
        j = a ∧ t = x.1 := by
    refine callbacks_closed e s (I := fun s => (∀ tid < n, s.metrics.stamp tid .arrival =
      some (w.arrive tid)) ∧ ∀ x ∈ s.agenda, ∀ j t, w.clock x.2 = some (j, t) → j = a ∧ t = x.1)
      (fun _ _ _ _ h => h) (fun _ _ h => h) (fun s f hf h => ⟨fun tid ht => ?_, h.2⟩)
      (fun s d e' _ he' h => ⟨h.1, fun x hx j t hclock => ?_⟩)
      ⟨h.times, fun x hx => h.clock x (List.mem_cons_of_mem _ hx)⟩
    · exact (hf he _ tid).trans (h.1 tid ht)
    · rcases mem_schedule.1 hx with rfl | hx
      · rw [w.clock_eq_none (he'.next_eq_none he)] at hclock
        cases hclock
      · exact h.2 x hx j t hclock
  have hdrawn : s.random = w.state a b := h.drawn
  exact ⟨h.toArrivals.callbacks he, kept.1, kept.2, by rw [callbacks_random, hdrawn, hb]⟩

/-- The next task arrives in time. -/
theorem arrivalLoop {i : ℕ} (h : Arrivals c.numTasks n (s.hold e)) (he : e.next = some i)
    (htimes : ∀ tid < n, s.metrics.stamp tid .arrival = some (w.arrive tid))
    (hnow : w.arrive i = s.now) (hdrawn : s.random = w.state i b) :
    Arriving w (if n < c.numTasks then n + 1 else n) i b (arrivalLoop c i s) := by
  obtain rfl := h.next _ (List.mem_cons_self ..) i he
  refine ⟨h.arrivalLoop he, fun tid ht => ?_, fun x hx j t hclock => ?_, by simp [hdrawn]⟩
  · rw [arrivalLoop_metrics]
    split_ifs at ht ⊢
    · rw [Metrics.stamp_recordArrival]
      rcases Nat.lt_succ_iff_lt_or_eq.1 ht with hlt | rfl
      · rw [if_neg (Nat.ne_of_lt hlt), htimes tid hlt]
      · simp [hnow]
    · exact htimes tid ht
  · have old : ∀ x ∈ s.agenda, w.clock x.2 = none := fun x hx =>
      w.clock_eq_none (rest_next h he x hx)
    unfold Behavioral.arrivalLoop at hx
    split_ifs at hx
    · rcases mem_schedule.1 hx with rfl | hx
      · simp only [Draws.clock, Option.some.injEq, Prod.mk.injEq] at hclock
        obtain ⟨rfl, rfl⟩ := hclock
        simp [hnow]
      · rw [old x hx] at hclock
        cases hclock
    · rcases mem_schedule.1 hx with rfl | hx
      · cases hclock
      · rw [old x hx] at hclock
        cases hclock

/-- After a put the arrival process draws and waits for the timeout, if there is
any time to wait. -/
theorem afterArrivalPut {i : ℕ} (h : Arriving w n a b (s.hold (.arrivalPut i))) :
    n = i + 1 ∧ w.arrive i = s.now ∧
    (0 < w.interarrival i → Arriving w n (i + 1) b
      (((s.triggerGet .arrivalBuffer).setRandom (w.state (i + 1) b)).schedule (w.interarrival i)
        (.arrivalTimeout i))) ∧
    (w.interarrival i ≤ 0 → Arriving w (if n < c.numTasks then n + 1 else n) (i + 1) b
      (Behavioral.arrivalLoop c (i + 1)
        ((s.triggerGet .arrivalBuffer).setRandom (w.state (i + 1) b)))) := by
  have hn := h.next _ (List.mem_cons_self ..) (i + 1) rfl
  obtain ⟨rfl, hnow⟩ := h.clock _ (List.mem_cons_self ..) i (w.arrive i) rfl
  have ha := (h.hold_triggerGet .arrivalBuffer).setRandom (w.state (i + 1) b)
  have htimes : ∀ tid < n, (s.triggerGet .arrivalBuffer).metrics.stamp tid .arrival =
      some (w.arrive tid) := by
    rw [triggerGet_metrics]
    exact h.times
  refine ⟨hn.symm, hnow, fun hpos => ⟨ha.arrivalTimeout _, htimes, fun x hx j t hclock => ?_, rfl⟩,
    fun hle => ?_⟩
  · rcases mem_schedule.1 hx with rfl | hx
    · simp only [Draws.clock, Option.some.injEq, Prod.mk.injEq] at hclock
      obtain ⟨rfl, rfl⟩ := hclock
      simp [Draws.arrive, hnow, max_eq_left hpos.le]
    · rw [w.clock_eq_none (rest_next ha rfl x hx)] at hclock
      cases hclock
  · refine arrivalLoop ha rfl htimes ?_ rfl
    simp [Draws.arrive, hnow, max_eq_right hle]

/-- What holds beside the arrivals is kept by the callbacks of an event if the events
of the other processes keep it, and if the arrival process does so at its head and
when it waits. -/
theorem callbacks_and {J : ℕ → ℕ → Sim G → Prop} (h : Arriving w n a b (s.hold e))
    (other : e.next = none → ∃ b', Behavioral.drawn c e (w.state a b) = w.state a b' ∧
      J n b' (Behavioral.callbacks c e s))
    (resumed : (e = .arrivalInit ∨ ∃ i, e = .arrivalTimeout i) → J n b s)
    (put : ∀ i random, e = .arrivalPut i → J n b ((s.triggerGet .arrivalBuffer).setRandom random))
    (loop : ∀ s' : Sim G, s'.now = s.now → w.arrive n = s.now → J n b s' →
      J (if n < c.numTasks then n + 1 else n) b (Behavioral.arrivalLoop c n s'))
    (wait : ∀ (s' : Sim G) d i, 0 < d → J n b s' → J n b (s'.schedule d (.arrivalTimeout i))) :
    ∃ n' a' b', Arriving w n' a' b' (Behavioral.callbacks c e s) ∧
      J n' b' (Behavioral.callbacks c e s) := by
  have hdrawn : s.random = w.state a b := h.drawn
  have times : ∀ tid < n, s.metrics.stamp tid .arrival = some (w.arrive tid) := h.times
  have head : ∀ i, (e = .arrivalInit ∨ ∃ i, e = .arrivalTimeout i) → e.next = some i →
      w.clock e = some (i, w.arrive i) → ∃ n' a' b',
        Arriving w n' a' b' (Behavioral.arrivalLoop c i s) ∧
        J n' b' (Behavioral.arrivalLoop c i s) := by
    intro i he hnext hclock
    obtain ⟨rfl, hnow⟩ := h.clock _ (List.mem_cons_self ..) i (w.arrive i) hclock
    obtain rfl := h.next _ (List.mem_cons_self ..) i hnext
    exact ⟨_, _, _, arrivalLoop h.toArrivals hnext times hnow hdrawn, loop s rfl hnow (resumed he)⟩
  cases hnext : e.next with
  | none =>
    obtain ⟨b', hb, hJ⟩ := other hnext
    exact ⟨n, a, b', h.callbacks hnext hb, hJ⟩
  | some j =>
    cases e with
    | arrivalInit => exact head 0 (.inl rfl) rfl rfl
    | arrivalTimeout i => exact head (i + 1) (.inr ⟨i, rfl⟩) rfl rfl
    | arrivalPut i =>
      obtain ⟨rfl, hnow, hwait, hgo⟩ := h.afterArrivalPut
      obtain ⟨ha, -⟩ := h.clock _ (List.mem_cons_self ..) i (w.arrive i) rfl
      have hdraw : c.interarrival (s.triggerGet .arrivalBuffer).random =
          (w.interarrival i, w.state (i + 1) b) := by
        rw [triggerGet_random, hdrawn, ← ha, w.interarrival_eq]
      have hput := put i (w.state (i + 1) b) rfl
      simp only [Behavioral.callbacks, Behavioral.afterArrivalPut, hdraw]
      split_ifs with hpos
      · exact ⟨_, _, _, hwait hpos, wait _ _ i hpos hput⟩
      · refine ⟨_, _, _, hgo (not_lt.1 hpos), loop _ (by simp) ?_ hput⟩
        simp [Draws.arrive, hnow, max_eq_right (not_lt.1 hpos)]
    | _ => cases hnext

end Arriving

end TaskQueueCoSim.Behavioral
