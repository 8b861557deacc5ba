import TaskQueueCoSim.Model.Arriving
import TaskQueueCoSim.Model.Lasting
import TaskQueueCoSim.Model.QueueOrder
import TaskQueueCoSim.Model.Timeline

/-!
# The first draw (model/behavioral.py)

The put of the first task is processed, and the interarrival time behind it drawn, before a
leader has the task.  So when the first two tasks arrive does not depend on the dispatch time,
nor, if there is only one, how long it takes.
-/

namespace TaskQueueCoSim.Behavioral

open Agenda Sim

variable {G : Type} {c : Setup G} {random : G} {s : Sim G} {e : Ev}

/-- Processes begin with these events, but not the arrival process. -/
def Beginning (l : List (ℚ × Ev)) : Prop := ∀ x ∈ l, x.1 = 0 ∧ x.2.Initial ∧ x.2.next = none

/-- The arrival process has gone on to the second task, or waits for it. -/
def Beyond (ia : ℚ) (l : List (ℚ × Ev)) : Prop :=
  ∀ x ∈ l, ∀ i, x.2.next = some i → 2 ≤ i ∨ x = (ia, .arrivalTimeout 0) ∧ 0 < ia

/-- How far a run has come: no task has arrived, or the put of the first is processed next but
for what processes begin with, or the interarrival time behind it has been drawn. -/
inductive Drawn (c : Setup G) (random : G) (s : Sim G) : Prop where
  | init (rest : List (ℚ × Ev)) (hagenda : s.agenda = (0, .arrivalInit) :: rest)
    (hrest : Beginning rest) (hrandom : s.random = random)
  | put (pre post : List (ℚ × Ev)) (hagenda : s.agenda = pre ++ (0, .arrivalPut 0) :: post)
    (hpre : Beginning pre) (hrandom : s.random = random)
    (harrival : s.metrics.stamp 0 .arrival = some 0)
  | drawn (hbeyond : Beyond (c.interarrival random).1 s.agenda)
    (hrandom : c.numTasks = 1 → s.metrics.stamp 0 .startExec = none →
      s.random = (c.interarrival random).2)
    (harrival : s.metrics.stamp 0 .arrival = some 0)
    (hsecond : ∀ t, s.metrics.stamp 1 .arrival = some t → t = max (c.interarrival random).1 0)

/-- What is scheduled goes behind all that is due. -/
theorem schedule_append {t : ℚ} {l : List (ℚ × Ev)} (h : ∀ x ∈ l, x.1 ≤ t) (l' : List (ℚ × Ev)) :
    Agenda.schedule t e (l ++ l') = l ++ Agenda.schedule t e l' := by
  induction l with
  | nil => rfl
  | cons x l ih =>
    rw [List.cons_append, Agenda.schedule, if_pos (h x List.mem_cons_self),
      ih fun y hy => h y (List.mem_cons_of_mem _ hy), List.cons_append]

/-- The arrival process goes on from a task to the next one. -/
theorem Schedules.next_le {d : ℚ} {e' : Ev} {i : ℕ} (h : Schedules c s e d e')
    (hi : e'.next = some i) : (∃ j, e.next = some j ∧ i = j + 1) ∨
    ∃ j, e = .arrivalPut j ∧ i = j + 1 ∧ e' = .arrivalTimeout j ∧
      d = (c.interarrival s.random).1 ∧ 0 < d := by
  cases h with
  | arrivalPut e j hnext =>
    cases hi
    exact .inl ⟨j, hnext, rfl⟩
  | arrivalTimeout j hpos =>
    cases hi
    exact .inr ⟨j, rfl, rfl, rfl, rfl, hpos⟩
  | gotten _ q => cases q <;> cases hi
  | sampling _ e' _ _ hs => cases e' <;> first | exact hs.elim | cases hi
  | _ => cases hi

namespace Beyond

variable {ia : ℚ}

/-- Behind the put of the first task the arrival process draws how long it waits. -/
theorem put (hrest : ∀ x ∈ s.agenda, x.2.next = none) (hnow : s.now = 0) :
    Beyond (c.interarrival s.random).1 (callbacks c (.arrivalPut 0) s).agenda := by
  intro x hx i hi
  obtain hold | ⟨d, hsched, hdue⟩ := callbacks_agenda hx
  · rw [hrest x hold] at hi
    cases hi
  · obtain ⟨j, hj, rfl⟩ | ⟨j, hput, rfl, hev, rfl, hpos⟩ := hsched.next_le hi
    · cases hj
      exact .inl le_rfl
    · cases hput
      refine .inr ⟨Prod.ext ?_ hev, hpos⟩
      rw [hdue, hnow, zero_add]

theorem callbacks (h : Beyond ia (s.hold e).agenda) : Beyond ia (callbacks c e s).agenda := by
  intro x hx i hi
  obtain hold | ⟨d, hsched, -⟩ := callbacks_agenda hx
  · exact h x (List.mem_cons_of_mem _ hold) i hi
  · obtain ⟨j, hj, rfl⟩ | ⟨j, rfl, rfl, -⟩ := hsched.next_le hi
    · obtain hle | ⟨he, -⟩ := h _ List.mem_cons_self j hj
      · exact .inl (hle.trans (Nat.le_succ j))
      · obtain rfl : e = .arrivalTimeout 0 := congrArg Prod.snd he
        cases hj
        exact .inl le_rfl
    · obtain hle | ⟨he, -⟩ := h _ List.mem_cons_self (j + 1) rfl
      · exact .inl hle
      · cases congrArg Prod.snd he

end Beyond

namespace Drawn

variable {log : List ℕ}

theorem start (c : Setup G) (random : G) : Drawn c random (start c random) := by
  obtain ⟨rest, hagenda, hrest⟩ := start_agenda c random
  refine .init rest hagenda (fun x hx => ?_) rfl
  obtain ⟨hzero, ⟨_, he⟩ | ⟨_, he⟩ | he | he⟩ := hrest x hx <;> rw [he] <;>
    exact ⟨hzero, trivial, rfl⟩

/-- Before the put of the first task only the arrival process has something to go on with, and
no value is drawn. -/
theorem beginning (he : e.Initial ∧ e.next = none) {pre post : List (ℚ × Ev)}
    (hagenda : s.agenda = pre ++ (0, .arrivalPut 0) :: post) (hpre : Beginning pre)
    (hnow : 0 ≤ s.now) : (Behavioral.callbacks c e s).random = s.random ∧
      ∃ post', (Behavioral.callbacks c e s).agenda = pre ++ (0, .arrivalPut 0) :: post' := by
  refine ⟨?_, callbacks_closed e s
    (I := fun s' => ∃ post', s'.agenda = pre ++ ((0 : ℚ), Ev.arrivalPut 0) :: post')
    (fun _ _ _ _ h => h) (fun _ _ h => h) (fun _ _ _ h => h) (fun s' d e' hs' he' h => ?_)
    ⟨post, hagenda⟩⟩
  · rw [callbacks_random]
    obtain ⟨hinit, hnext⟩ := he
    cases e <;> first | rfl | exact hinit.elim
  · obtain ⟨post', h⟩ := h
    have later : 0 ≤ s'.now + d := add_nonneg (hs' ▸ hnow) he'.nonneg
    refine ⟨Agenda.schedule (s'.now + d) e' post', ?_⟩
    rw [schedule_agenda, h, schedule_append fun x hx => (hpre x hx).1.trans_le later, Agenda.schedule,
      if_pos later]

/-- The second task arrives when the first interarrival time has passed. -/
theorem second {t : ℚ} {ia : ℚ} (hbeyond : Beyond ia (s.hold e).agenda)
    (hsecond : ∀ t, s.metrics.stamp 1 .arrival = some t → t = max ia 0)
    (ht : (Behavioral.callbacks c e s).metrics.stamp 1 .arrival = some t) : t = max ia 0 := by
  obtain hsame | ⟨-, hrec⟩ | ⟨hnext, -⟩ := callbacks_stamp_cases (c := c) e s 1 .arrival
  · exact hsecond t (hsame.symm.trans ht)
  · cases hrec
  · obtain hle | ⟨he, hpos⟩ := hbeyond _ List.mem_cons_self 1 hnext
    · exact absurd hle (by decide)
    · obtain ⟨hnow, rfl⟩ := Prod.mk.inj he
      simp only [Behavioral.callbacks, arrivalLoop_metrics] at ht
      split_ifs at ht
      · rw [Metrics.stamp_recordArrival, if_pos rfl, if_pos rfl, Option.some.injEq] at ht
        rw [← ht, hnow, max_eq_left hpos.le]
      · exact hsecond t ht

/-- The second task arrives with the first if there is no time to wait. -/
theorem second_atOnce (hinv : Inv c.numTasks log (s.hold (.arrivalPut 0))) (hnow : s.now = 0) {t : ℚ}
    (ht : (Behavioral.callbacks c (.arrivalPut 0) s).metrics.stamp 1 .arrival = some t) :
    t = max (c.interarrival s.random).1 0 := by
  obtain ⟨n, ha, -⟩ := hinv.census
  obtain rfl := ha.next _ List.mem_cons_self 1 rfl
  have hnone : s.metrics.stamp 1 .arrival ≠ some t := fun h =>
    absurd ((ha.arrived 1).1 (Option.isSome_of_eq_some h)) (lt_irrefl 1)
  simp only [Behavioral.callbacks, afterArrivalPut, triggerGet_random] at ht
  split_ifs at ht with hpos
  · exact absurd (by simpa using ht) hnone
  · rw [arrivalLoop_metrics, setRandom_metrics, triggerGet_metrics] at ht
    split_ifs at ht
    · rw [Metrics.stamp_recordArrival, if_pos rfl, if_pos rfl, Option.some.injEq, setRandom_now,
        triggerGet_now, hnow] at ht
      rw [← ht, max_eq_right (not_lt.1 hpos)]
    · exact absurd ht hnone

/-- What a single task is started with. -/
theorem single (hc : c.numTasks = 1) (hinv : Inv c.numTasks log (s.hold e)) {ia : ℚ}
    (hbeyond : Beyond ia (s.hold e).agenda) (hd : ∀ g, (c.dispatchTime g).2 = g)
    (hnone : (Behavioral.callbacks c e s).metrics.stamp 0 .startExec = none) :
    Behavioral.drawn c e s.random = s.random ∧ s.metrics.stamp 0 .startExec = none := by
  obtain ⟨n, ha, hl⟩ := hinv.census
  have hold : s.metrics.stamp 0 .startExec = none := by
    rw [Option.eq_none_iff_forall_ne_some]
    intro x hx
    rw [hinv.stamp_callbacks hx] at hnone
    cases hnone
  refine ⟨?_, hold⟩
  cases e with
  | arrivalPut i =>
    have hn := ha.next _ List.mem_cons_self (i + 1) rfl
    have hle := ha.le
    obtain h2 | ⟨he, -⟩ := hbeyond _ List.mem_cons_self (i + 1) rfl
    · omega
    · cases congrArg Prod.snd he
  | leaderGet lid tid => exact hd _
  | followerGet fid tid =>
    have hlt : tid < n := (hl tid).lt (by simp [Ev.weight])
    have hle := ha.le
    obtain rfl : tid = 0 := by omega
    have started := hinv.callbacks.mem_log.1 (List.mem_append_right log (List.mem_singleton_self 0))
    rw [hnone] at started
    cases started
  | _ => rfl

theorem callbacks (h : Drawn c random (s.hold e)) (hc : 0 < c.numTasks)
    (hd : ∀ g, (c.dispatchTime g).2 = g) (hinv : Inv c.numTasks log (s.hold e)) :
    Drawn c random (callbacks c e s) := by
  cases h with
  | init rest hagenda hrest hrandom =>
    obtain ⟨hhead, rfl⟩ := List.cons.inj hagenda
    obtain ⟨hnow, rfl⟩ := Prod.mk.inj hhead
    have hnow : s.now = 0 := hnow
    refine .put s.agenda [] ?_ hrest ((callbacks_random ..).trans hrandom) ?_
    · simp only [Behavioral.callbacks, arrivalLoop, hc, if_true, put_agenda,
        record_now, record_agenda, hnow, add_zero]
      simpa [Agenda.schedule] using schedule_append (e := .arrivalPut 0) (t := 0)
        (fun x hx => (hrest x hx).1.le) []
    · simp only [Behavioral.callbacks, arrivalLoop_metrics, hc, if_true,
        Metrics.stamp_recordArrival, hnow]
  | put pre post hagenda hpre hrandom harrival =>
    cases pre with
    | nil =>
      obtain ⟨hhead, rfl⟩ := List.cons.inj hagenda
      obtain ⟨hnow, rfl⟩ := Prod.mk.inj hhead
      obtain rfl : s.random = random := hrandom
      obtain ⟨n, ha, -⟩ := hinv.census
      exact .drawn (.put (Arriving.rest_next ha rfl) hnow) (fun _ _ => callbacks_random ..)
        (hinv.stamp_callbacks harrival) fun t ht => second_atOnce hinv hnow ht
    | cons y pre =>
      obtain ⟨rfl, hagenda'⟩ := List.cons.inj hagenda
      obtain ⟨hnow, hinit⟩ := hpre _ List.mem_cons_self
      have hpre' : Beginning pre := fun x hx => hpre x (List.mem_cons_of_mem _ hx)
      obtain ⟨hsame, post', hagenda'⟩ := beginning (c := c) hinit hagenda' hpre' hnow.ge
      exact .put pre post' hagenda' hpre' (hsame.trans hrandom) (hinv.stamp_callbacks harrival)
  | drawn hbeyond hrandom harrival hsecond =>
    refine .drawn hbeyond.callbacks (fun hone hnone => ?_) (hinv.stamp_callbacks harrival)
      fun t => second hbeyond hsecond
    obtain ⟨hdrawn, hold⟩ := single hone hinv hbeyond hd hnone
    rw [callbacks_random, hdrawn]
    exact hrandom hone hold

theorem first_arrival (h : Drawn c random s) {t : ℚ} (hinv : Inv c.numTasks log s)
    (ht : s.metrics.stamp 0 .arrival = some t) : t = 0 := by
  obtain ⟨n, ha, -⟩ := hinv.census
  cases h with
  | init rest hagenda =>
    obtain rfl := ha.next _ (hagenda ▸ List.mem_cons_self) 0 rfl
    exact absurd ((ha.arrived 0).1 (Option.isSome_of_eq_some ht)) (lt_irrefl 0)
  | put _ _ _ _ _ harrival | drawn _ _ harrival => exact Option.some.inj (ht.symm.trans harrival)

theorem second_arrival (h : Drawn c random s) {t : ℚ} (hinv : Inv c.numTasks log s)
    (ht : s.metrics.stamp 1 .arrival = some t) : t = max (c.interarrival random).1 0 := by
  obtain ⟨n, ha, -⟩ := hinv.census
  have harrived := (ha.arrived 1).1 (Option.isSome_of_eq_some ht)
  cases h with
  | init rest hagenda =>
    obtain rfl := ha.next _ (hagenda ▸ List.mem_cons_self) 0 rfl
    exact absurd harrived (by decide)
  | put pre post hagenda =>
    obtain rfl := ha.next _ (hagenda ▸ List.mem_append_right _ List.mem_cons_self) 1 rfl
    exact absurd harrived (lt_irrefl 1)
  | drawn _ _ _ hsecond => exact hsecond t ht

/-- A single task has the second draw. -/
theorem duration {fid tid : ℕ} (h : Drawn c random (s.hold (.followerGet fid tid)))
    (hc : c.numTasks = 1) (hinv : Inv c.numTasks log (s.hold (.followerGet fid tid))) :
    s.random = (c.interarrival random).2 := by
  obtain ⟨n, ha, hl⟩ := hinv.census
  cases h with
  | init rest hagenda => cases congrArg Prod.snd (List.cons.inj hagenda).1
  | put pre post hagenda hpre =>
    cases pre with
    | nil => cases congrArg Prod.snd (List.cons.inj hagenda).1
    | cons y pre =>
      obtain ⟨rfl, -⟩ := List.cons.inj hagenda
      exact (hpre _ List.mem_cons_self).2.1.elim
  | drawn hbeyond hrandom =>
    have hlt : tid < n := (hl tid).lt (by simp [Ev.weight])
    have hle := ha.le
    obtain rfl : tid = 0 := by omega
    exact hrandom hc (stamped_eq_zero_iff.1 ((hl 0).before_start hinv.toPutsFirst).2.1)

theorem advance (h : Drawn c random s) (t : ℚ) : Drawn c random { s with now := t } := by
  cases h with
  | init rest hagenda hrest hrandom => exact .init rest hagenda hrest hrandom
  | put pre post hagenda hpre hrandom harrival => exact .put pre post hagenda hpre hrandom harrival
  | drawn hbeyond hrandom harrival hsecond => exact .drawn hbeyond hrandom harrival hsecond

end Drawn

theorem drawn_reached (hc : 0 < c.numTasks) (hd : ∀ g, (c.dispatchTime g).2 = g) (random : G) (n : ℕ) :
    Drawn c random (reached c random n) :=
  (loop_invariant_log Ev.starts (I := fun log s => Inv c.numTasks log s ∧ Drawn c random s)
    ⟨.start c random, .start c random⟩ (fun _ _ t _ _ h hagenda => ⟨h.1.advance hagenda, h.2.advance t⟩)
    (fun _ _ _ h => ⟨h.1.callbacks, h.2.callbacks hc hd h.1⟩) n).2

/-- The first two tasks arrive at the start and when the first interarrival time has passed. -/
theorem arrival_of_lt_two (hd : ∀ g, (c.dispatchTime g).2 = g) {n tid : ℕ} {t : ℚ} (htid : tid < 2)
    (ht : (reached c random n).metrics.stamp tid .arrival = some t) :
    t = if tid = 0 then 0 else max (c.interarrival random).1 0 := by
  have hinv := inv_reached c random n
  have hdrawn := drawn_reached (Nat.zero_lt_of_lt (hinv.lt_of_stamp ht)) hd random n
  split_ifs with hzero
  · subst hzero
    exact hdrawn.first_arrival hinv ht
  · obtain rfl : tid = 1 := by omega
    exact hdrawn.second_arrival hinv ht

/-- A single task takes as long as is drawn after the first draw. -/
theorem lasting_of_one (hc : c.numTasks = 1) (hd : ∀ g, (c.dispatchTime g).2 = g) (random : G) (n : ℕ) :
    Lasting (fun _ => (c.taskDuration (c.interarrival random).2).1) (reached c random n) := by
  refine (loop_invariant_log Ev.starts
    (I := fun log s => Inv c.numTasks log s ∧ Drawn c random s ∧ Lasting _ s)
    ⟨.start c random, .start c random, .start _ random⟩
    (fun _ _ t _ _ h hagenda => ⟨h.1.advance hagenda, h.2.1.advance t, h.2.2.advance t⟩)
    (fun log e s h => ?_) n).2.2
  obtain ⟨hinv, hdrawn, hlasting⟩ := h
  obtain ⟨m, -, hlocated⟩ := hinv.census
  refine ⟨hinv.callbacks, hdrawn.callbacks (by omega) hd hinv,
    hlasting.callbacks hinv.toPutsFirst hlocated fun fid tid he => ?_⟩
  subst he
  rw [hdrawn.duration hc hinv]

end TaskQueueCoSim.Behavioral
