import TaskQueueCoSim.Lib.Sojourn
import TaskQueueCoSim.Model.LoopEnds

/-!
# The rounds of a run in the order of time

* `notes_reached`: the times of a task are recorded when they come;
* `stamp_since`, `stamp_by`: so a time tells whether it was recorded by a round;
* `mem_agenda_or_processed`: an event is processed when it is due.
-/

namespace TaskQueueCoSim.Behavioral

open Agenda Sim Sojourn

variable {G : Type} {c : Setup G} {s : Sim G} {e : Ev}

/-! ## Times are recorded when they come -/

/-- An arrival that is recorded is recorded when it is. -/
theorem callbacks_arrival {tid : ℕ} {t : ℚ}
    (h : (callbacks c e s).metrics.stamp tid .arrival = some t) :
    s.metrics.stamp tid .arrival = some t ∨ t = s.now := by
  have arrive : ∀ (s' : Sim G) i, s'.metrics = s.metrics → s'.now = s.now →
      (arrivalLoop c i s').metrics.stamp tid .arrival = some t →
      s.metrics.stamp tid .arrival = some t ∨ t = s.now := by
    intro s' i hs hnow h
    rw [arrivalLoop_metrics, hs, hnow] at h
    split_ifs at h
    · rw [Metrics.stamp_recordArrival] at h
      split_ifs at h
      · exact .inr (Option.some.inj h).symm
      · exact .inl h
    · exact .inl h
  cases hnext : e.next with
  | none =>
    obtain hsame | ⟨hnow, -⟩ | ⟨hnext', -⟩ := callbacks_stamp_cases (c := c) e s tid .arrival
    · exact .inl (hsame ▸ h)
    · exact .inr (Option.some.inj (h.symm.trans hnow))
    · rw [hnext] at hnext'
      cases hnext'
  | some i =>
    cases e with
    | arrivalInit | arrivalTimeout => exact arrive s _ rfl rfl h
    | arrivalPut j =>
      simp only [callbacks, afterArrivalPut] at h
      split_ifs at h
      · exact .inl (by simpa using h)
      · exact arrive _ _ (by simp) (by simp) h
    | _ => cases hnext

/-- A time that is recorded stays, and another is recorded when it is now. -/
theorem Inv.notes_callbacks {log : List ℕ} (h : Inv c.numTasks log (s.hold e)) (tid : ℕ) (k : Stamp) :
    Notes s.now (s.metrics.stamp tid k) ((Behavioral.callbacks c e s).metrics.stamp tid k) := by
  cases hold : s.metrics.stamp tid k with
  | some t => exact .inl (h.stamp_callbacks hold)
  | none =>
    cases hnew : (Behavioral.callbacks c e s).metrics.stamp tid k with
    | none => exact .inl rfl
    | some t =>
      refine .inr ⟨rfl, congrArg some ?_⟩
      by_cases hk : k = .arrival
      · subst hk
        exact (callbacks_arrival hnew).resolve_left (by simp [hold])
      · exact ((callbacks_stamp hk hnew).resolve_left (by simp [hold])).1

/-! ## From round to round -/

theorem reached_succ (c : Setup G) (random : G) (n : ℕ) : reached c random (n + 1) =
    (round c (reached c random n)).getD (reached c random n) :=
  Machine.steps_succ ..

/-- A round processes the first event of the agenda. -/
theorem reached_succ_cases (c : Setup G) (random : G) (n : ℕ) :
    reached c random (n + 1) = reached c random n ∨
    ∃ t e rest, (reached c random n).agenda = (t, e) :: rest ∧
      reached c random (n + 1) = callbacks c e { reached c random n with now := t, agenda := rest } := by
  rw [reached_succ]
  cases hround : round c (reached c random n) with
  | none => exact .inl rfl
  | some s' =>
    obtain ⟨t, e, rest, hagenda, -, -, rfl⟩ := round_cases hround
    exact .inr ⟨t, e, rest, hagenda, rfl⟩

/-- What a round notes of a task. -/
theorem notes_reached (c : Setup G) (random : G) (n tid : ℕ) (k : Stamp) :
    Notes (reached c random (n + 1)).now ((reached c random n).metrics.stamp tid k)
      ((reached c random (n + 1)).metrics.stamp tid k) := by
  obtain hsame | ⟨t, e, rest, hagenda, hnext⟩ := reached_succ_cases c random n
  · rw [hsame]
    exact .inl rfl
  · have hinv := (inv_reached c random n).advance hagenda
    rw [hagenda] at hinv
    have := hinv.notes_callbacks (s := { reached c random n with now := t, agenda := rest }) tid k
    rwa [hnext, callbacks_now]

theorem now_le_now_succ (c : Setup G) (random : G) (n : ℕ) :
    (reached c random n).now ≤ (reached c random (n + 1)).now := by
  obtain hsame | ⟨t, e, rest, hagenda, hnext⟩ := reached_succ_cases c random n
  · rw [hsame]
  · rw [hnext, callbacks_now]
    exact (inv_reached c random n).toOrdered.now_le hagenda

theorem now_le_now (c : Setup G) (random : G) {i n : ℕ} (h : i ≤ n) :
    (reached c random i).now ≤ (reached c random n).now :=
  monotone_nat_of_le_succ (now_le_now_succ c random) h

variable {random : G} {i n tid : ℕ} {k : Stamp}

/-- A time that a round has not recorded yet is no earlier than the next round. -/
theorem stamp_since (hin : i ≤ n) (hnone : (reached c random i).metrics.stamp tid k = none) {y : ℚ}
    (hy : (reached c random n).metrics.stamp tid k = some y) :
    (reached c random (i + 1)).now ≤ y := by
  induction n, hin using Nat.le_induction generalizing y with
  | base =>
    rw [hnone] at hy
    cases hy
  | succ n hin ih =>
    obtain hsame | ⟨-, hnow⟩ := notes_reached c random n tid k
    · exact ih (hsame ▸ hy)
    · obtain rfl := Option.some.inj (hy.symm.trans hnow)
      exact now_le_now c random (by omega)

/-- A time before the next round has been recorded already, and no other has. -/
theorem stamp_by (hin : i ≤ n) {y : ℚ} (hy : (reached c random n).metrics.stamp tid k = some y) :
    (reached c random i).metrics.stamp tid k = none ∧ (reached c random (i + 1)).now ≤ y ∨
      (reached c random i).metrics.stamp tid k = some y ∧ y ≤ (reached c random i).now := by
  cases hi : (reached c random i).metrics.stamp tid k with
  | none => exact .inl ⟨rfl, stamp_since hin hi hy⟩
  | some x =>
    obtain rfl := Option.some.inj ((stamp_reached_of_le hin hi).symm.trans hy)
    exact .inr ⟨rfl, (inv_reached c random i).past tid k x hi⟩

/-- An event stays on the agenda until it is processed at the time it is due at. -/
theorem mem_agenda_or_processed {x : ℚ × Ev} (hx : x ∈ (reached c random i).agenda) (hin : i ≤ n) :
    x ∈ (reached c random n).agenda ∨ ∃ j rest, j < n ∧ (reached c random j).agenda = x :: rest ∧
      reached c random (j + 1) =
        callbacks c x.2 { reached c random j with now := x.1, agenda := rest } := by
  induction n, hin using Nat.le_induction with
  | base => exact .inl hx
  | succ n hin ih =>
    obtain hmem | ⟨j, rest, hj, hprocessed⟩ := ih
    · obtain hsame | ⟨t, e, rest, hagenda, hnext⟩ := reached_succ_cases c random n
      · exact .inl (hsame ▸ hmem)
      · rw [hagenda] at hmem
        obtain rfl | hmem := List.mem_cons.1 hmem
        · exact .inr ⟨n, rest, Nat.lt_succ_self n, hagenda, hnext⟩
        · exact .inl (hnext ▸ mem_callbacks hmem)
    · exact .inr ⟨j, rest, Nat.lt_succ_of_lt hj, hprocessed⟩

end TaskQueueCoSim.Behavioral
