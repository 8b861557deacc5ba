import TaskQueueCoSim.Model.InLine
import TaskQueueCoSim.Model.WorkConserving

/-!
# The order of the execution queue (model/behavioral.py)

Whatever the leaders, the batches and the durations are, the followers start the tasks in
the order in which these are put into the execution queue.

* `Adds`: what is put comes last in the line, and last of the puts under way;
* `InOrder`: the tasks stand in the order of their times, the puts under way at the end;
* `first_come_first_served`: so no task is started before one that was enqueued earlier.
-/

namespace TaskQueueCoSim.Behavioral

open Agenda Sim

variable {G : Type} {c : Setup G} {s s' : Sim G} {e : Ev}

/-! ## The line in front of the followers -/

namespace Sim

/-- The tasks in the execution queue, those that followers have been granted first. -/
def waitingLine (s : Sim G) : List ℕ := (s.station .execQueue).upcoming

/-- The tasks whose puts have not been processed. -/
def beingPut (s : Sim G) : List ℕ := gather (Ev.tasks .putting) s.agenda

end Sim

theorem granted_toList (e : Ev) :
    (Role.isGranted (e.role .execQueue)).toList = Ev.tasks .queued e := by
  cases e <;> rfl

theorem waitingLine_eq (s : Sim G) :
    s.waitingLine = gather (Ev.tasks .queued) s.agenda ++ (s.stores .execQueue).items := by
  have hgranted : Ev.tasks .queued = fun e => (Role.isGranted (e.role .execQueue)).toList :=
    funext fun e => (granted_toList e).symm
  rw [hgranted, ← map_snd_pending]
  rfl

theorem mem_waitingLine {tid : ℕ} : tid ∈ s.waitingLine ↔ 0 < s.found tid .queued := by
  rw [found_eq_count, List.count_pos_iff, waitingLine_eq, tasks, List.mem_append, List.mem_append,
    or_comm]
  rfl

theorem mem_beingPut {tid : ℕ} : tid ∈ s.beingPut ↔ 0 < s.found tid .putting := by
  rw [found_eq_count, List.count_pos_iff]
  rfl

theorem waitingLine_hold (s : Sim G) (e : Ev) :
    (s.hold e).waitingLine = Ev.tasks .queued e ++ s.waitingLine := by
  rw [waitingLine, upcoming_hold, granted_toList]
  rfl

theorem beingPut_hold (s : Sim G) (e : Ev) :
    (s.hold e).beingPut = Ev.tasks .putting e ++ s.beingPut := rfl

theorem beingPut_triggerGet (s : Sim G) (q : StoreName) :
    (s.triggerGet q).beingPut = s.beingPut := by
  obtain ⟨hs, -⟩ | ⟨t, items, pid, getQueue, -, hs⟩ := s.triggerGet_cases q
  · rw [hs]
  · rw [hs]
    exact gather_schedule_nil (by cases q <;> rfl) _ _

/-- What is new in line is new among the puts under way, at the end of both. -/
def Adds (s s' : Sim G) : Prop :=
  ∃ new, s'.waitingLine = s.waitingLine ++ new ∧ s'.beingPut = s.beingPut ++ new

namespace Adds

theorem of_eq (hline : s'.waitingLine = s.waitingLine) (hput : s'.beingPut = s.beingPut) :
    Adds s s' :=
  ⟨[], by simp [hline], by simp [hput]⟩

theorem refl (s : Sim G) : Adds s s := of_eq rfl rfl

theorem trans {s'' : Sim G} (h : Adds s s') (h' : Adds s' s'') : Adds s s'' := by
  obtain ⟨new, hline, hput⟩ := h
  obtain ⟨new', hline', hput'⟩ := h'
  exact ⟨new ++ new', by rw [hline', hline, List.append_assoc], by rw [hput', hput, List.append_assoc]⟩

theorem schedule (s : Sim G) (d : ℚ) (hq : Ev.tasks .queued e = [])
    (hp : Ev.tasks .putting e = []) : Adds s (s.schedule d e) := by
  refine of_eq (upcoming_schedule _ s d ?_) (gather_schedule_nil hp _ _)
  rw [← granted_toList] at hq
  exact Option.toList_eq_nil_iff.1 hq

theorem triggerGet (ho : Ordered s) (q : StoreName) : Adds s (s.triggerGet q) :=
  of_eq (upcoming_triggerGet _ ho q) (beingPut_triggerGet s q)

theorem get (ho : Ordered s) (q : StoreName) (pid : ℕ) : Adds s (s.get q pid) :=
  of_eq (upcoming_get _ ho q pid) (beingPut_triggerGet _ q)

theorem record (s : Sim G) (f : Metrics → Metrics) : Adds s (s.record f) := refl s

theorem setRandom (s : Sim G) (random : G) : Adds s (s.setRandom random) := refl s

/-- The arrival buffer is no part of the line. -/
theorem setBuffer (s : Sim G) (items getQueue : List ℕ) :
    Adds s (s.setStore .arrivalBuffer items getQueue) := by
  refine of_eq ?_ rfl
  rw [waitingLine, station_setStore_ne _ _ (by decide)]
  rfl

/-- A put is the last in both, since no put under way is due later. -/
theorem enqueueLoop (ho : Ordered s) (lid : ℕ) (batch : List ℕ) : Adds s (enqueueLoop lid batch s) := by
  cases batch with
  | nil => exact get ho _ _
  | cons t rest =>
    refine ⟨[t], upcoming_put _ s _ t rfl, gather_schedule_last ho.sorted (fun x hx hlt => ?_) _⟩
    cases hx2 : x.2 with
    | execPut lid' t' rest' beforePut =>
      have hdue := ho.prompt x hx (by rw [hx2]; trivial)
      exact absurd (hdue.trans (le_of_eq (add_zero s.now).symm)) (not_le.2 hlt)
    | _ => rfl

theorem arrivalLoop (c : Setup G) (s : Sim G) (i : ℕ) : Adds s (arrivalLoop c i s) := by
  unfold Behavioral.arrivalLoop
  split_ifs
  · exact ((record s _).trans (setBuffer _ _ _)).trans (schedule _ _ rfl rfl)
  · exact schedule s _ rfl rfl

theorem sampleTimeout (c : Setup G) (s : Sim G) (hq : Ev.tasks .queued e = [])
    (hp : Ev.tasks .putting e = []) : Adds s (sampleTimeout c e s) := by
  unfold Behavioral.sampleTimeout
  split_ifs
  · exact schedule s _ rfl rfl
  · exact schedule s _ hq hp

theorem afterExecution (ho : Ordered s) (fid tid : ℕ) (start : ℚ) :
    Adds s (afterExecution fid tid start s) :=
  (record s _).trans (get (ho.record _) _ _)

/-- Every event only adds to the line. -/
theorem callbacks (c : Setup G) (ho : Ordered s) (e : Ev) : Adds s (callbacks c e s) := by
  cases e with
  | arrivalInit | arrivalTimeout => exact arrivalLoop c s _
  | leaderInit | followerInit => exact get ho _ _
  | depthInit | depthTimeout =>
    exact ((record s _).trans (record _ _)).trans (sampleTimeout c _ rfl rfl)
  | rateInit => exact sampleTimeout c s rfl rfl
  | rateTimeout => exact (record s _).trans (sampleTimeout c _ rfl rfl)
  | arrivalEnd | samplerFailed => exact refl s
  | arrivalPut i =>
    simp only [Behavioral.callbacks, afterArrivalPut]
    split_ifs
    · exact ((triggerGet ho _).trans (setRandom _ _)).trans (schedule _ _ rfl rfl)
    · exact ((triggerGet ho _).trans (setRandom _ _)).trans (arrivalLoop c _ _)
  | leaderGet lid tid =>
    simp only [Behavioral.callbacks, afterLeaderGet]
    split_ifs
    · exact ((setRandom s _).trans (setBuffer _ _ _)).trans (schedule _ _ rfl rfl)
    · exact (((setRandom s _).trans (setBuffer _ _ _)).trans (record _ _)).trans
        (enqueueLoop (((ho.setRandom _).setStore _ _ _).record _) _ _)
  | leaderTimeout => exact (record s _).trans (enqueueLoop (ho.record _) _ _)
  | execPut =>
    exact ((triggerGet ho _).trans (record _ _)).trans
      (enqueueLoop ((ho.triggerGet _).record _) _ _)
  | followerGet fid tid =>
    simp only [Behavioral.callbacks, afterFollowerGet]
    split_ifs
    · exact ((record s _).trans (setRandom _ _)).trans (schedule _ _ rfl rfl)
    · exact ((record s _).trans (setRandom _ _)).trans
        (afterExecution ((ho.record _).setRandom _) _ _ _)
  | followerTimeout => exact afterExecution ho _ _ _

end Adds

/-! ## The tasks in turn -/

/-- The time of the one is no later than that of the other. -/
def Metrics.InTurn (m : Metrics) (k : Stamp) (a b : ℕ) : Prop :=
  ∀ x y, m.stamp a k = some x → m.stamp b k = some y → x ≤ y

/-- The tasks of `log` were started in the order of their times, which are no later than those
of the tasks in line; the puts under way come last. -/
structure InOrder (log : List ℕ) (s : Sim G) : Prop where
  line : ∃ front, s.waitingLine = front ++ s.beingPut ∧
    (∀ a ∈ front, (s.metrics.stamp a .enqueued).isSome) ∧
    (log ++ front).Pairwise (s.metrics.InTurn .enqueued)
  started : log.Pairwise (s.metrics.InTurn .startExec)

section InOrder

variable {N : ℕ} {log : List ℕ} {tid : ℕ}

/-- A put that is under way has not been recorded. -/
theorem Inv.not_enqueued (h : Inv N log s) (ht : tid ∈ s.beingPut) :
    s.metrics.stamp tid .enqueued = none := by
  obtain ⟨n, ha, hl⟩ := h.census
  have hle := (hl tid).le_one
  have henq := (hl tid).enqueued
  have hpos := mem_beingPut.1 ht
  exact stamped_eq_zero_iff.1 (by omega)

/-- What has been started is what the log has. -/
theorem Inv.mem_log (h : Inv N log s) :
    tid ∈ log ↔ (s.metrics.stamp tid .startExec).isSome := by
  rw [← List.count_pos_iff, h.started, stamped]
  cases (s.metrics.stamp tid .startExec).isSome <;> simp

theorem Inv.enqueued_of_mem_log (h : Inv N log s) (ht : tid ∈ log) :
    (s.metrics.stamp tid .enqueued).isSome := by
  obtain ⟨x, hx⟩ := Option.isSome_iff_exists.1 (h.mem_log.1 ht)
  obtain ⟨y, hy, -⟩ := h.after tid .startExec .enqueued x rfl hx
  exact Option.isSome_iff_exists.2 ⟨y, hy⟩

/-- Times that are recorded keep their order. -/
theorem Inv.inTurn_callbacks (h : Inv c.numTasks log (s.hold e)) {k : Stamp} {l : List ℕ}
    (hl : ∀ a ∈ l, (s.metrics.stamp a k).isSome) (hturn : l.Pairwise (s.metrics.InTurn k)) :
    l.Pairwise ((Behavioral.callbacks c e s).metrics.InTurn k) := by
  have keep : ∀ a ∈ l, (Behavioral.callbacks c e s).metrics.stamp a k = s.metrics.stamp a k := by
    intro a ha
    obtain ⟨x, hx⟩ := Option.isSome_iff_exists.1 (hl a ha)
    rw [hx]
    exact h.stamp_callbacks hx
  refine hturn.imp_of_mem fun ha hb hab => ?_
  rw [Metrics.InTurn, keep _ ha, keep _ hb]
  exact hab

/-- A time that is recorded now comes after all others. -/
theorem Inv.inTurn_now (h : Inv N log s) {a b : ℕ} {k : Stamp}
    (hb : s.metrics.stamp b k = some s.now) : s.metrics.InTurn k a b := by
  intro x y hx hy
  rw [hb] at hy
  obtain rfl := Option.some.inj hy
  exact h.past a k x hx

theorem InOrder.callbacks (h : InOrder log (s.hold e)) (hinv : Inv c.numTasks log (s.hold e)) :
    InOrder (log ++ e.starts.toList) (callbacks c e s) := by
  obtain ⟨new, hline, hput⟩ := Adds.callbacks c hinv.toOrdered.of_hold e
  have hinv' := hinv.callbacks
  obtain ⟨⟨front, hfront, hstamped, hturn⟩, hstarted⟩ := h
  have enqueued : ∀ a ∈ log ++ front, (s.metrics.stamp a .enqueued).isSome := by
    intro a ha
    obtain ha | ha := List.mem_append.1 ha
    · exact hinv.enqueued_of_mem_log ha
    · exact hstamped a ha
  have keep : ∀ a, (s.metrics.stamp a .enqueued).isSome →
      ((Behavioral.callbacks c e s).metrics.stamp a .enqueued).isSome := by
    intro a ha
    obtain ⟨x, hx⟩ := Option.isSome_iff_exists.1 ha
    rw [hinv.stamp_callbacks hx]
    rfl
  have kept := hinv.inTurn_callbacks enqueued hturn
  have begun := hinv.inTurn_callbacks (fun a ha => hinv.mem_log.1 ha) hstarted
  rw [waitingLine_hold, beingPut_hold] at hfront
  -- an event that neither starts a task nor ends a put leaves the line as it is
  have other (hq : Ev.tasks .queued e = []) (hp : Ev.tasks .putting e = []) (hs : e.starts = none) :
      InOrder (log ++ e.starts.toList) (Behavioral.callbacks c e s) := by
    rw [hq, hp, List.nil_append, List.nil_append] at hfront
    rw [hs, Option.toList_none, List.append_nil]
    exact ⟨⟨front, by rw [hline, hput, hfront, List.append_assoc],
      fun a ha => keep a (hstamped a ha), kept⟩, begun⟩
  cases e with
  | execPut lid t rest beforePut =>
    have hnow : (Behavioral.callbacks c (.execPut lid t rest beforePut) s).metrics.stamp t .enqueued =
        some (Behavioral.callbacks c (.execPut lid t rest beforePut) s).now := by
      simp [Behavioral.callbacks, Metrics.stamp_recordPut]
    refine ⟨⟨front ++ [t], ?_, fun a ha => ?_, ?_⟩, by simpa [Ev.starts] using begun⟩
    · rw [hline, hput]
      simpa [Ev.tasks] using congrArg (· ++ new) hfront
    · obtain ha | ha := List.mem_append.1 ha
      · exact keep a (hstamped a ha)
      · obtain rfl := List.mem_singleton.1 ha
        rw [hnow]
        rfl
    · rw [show (Ev.execPut lid t rest beforePut).starts = none from rfl, Option.toList_none,
        List.append_nil, ← List.append_assoc, List.pairwise_append]
      refine ⟨kept, List.pairwise_singleton _ _, fun a _ b hb => ?_⟩
      obtain rfl := List.mem_singleton.1 hb
      exact hinv'.inTurn_now hnow
  | followerGet fid t =>
    obtain ⟨n, ha, hl⟩ := hinv.census
    obtain ⟨henq, hstart, -⟩ := (hl t).before_start hinv.toPutsFirst
    cases front with
    | nil =>
      have ht : t ∈ (s.hold (.followerGet fid t)).beingPut := by
        rw [beingPut_hold, ← List.nil_append (_ ++ _), ← hfront]
        exact List.mem_cons_self ..
      have hnone : s.metrics.stamp t .enqueued = none := hinv.not_enqueued ht
      simp [stamped, hnone] at henq
    | cons a front =>
      obtain ⟨rfl, hrest⟩ : t = a ∧ s.waitingLine = front ++ s.beingPut := by
        simpa [Ev.tasks] using hfront
      have hsome : ((Behavioral.callbacks c (.followerGet fid t) s).metrics.stamp t
          .startExec).isSome := hinv'.mem_log.1 (by simp [Ev.starts])
      obtain ⟨x, hx⟩ := Option.isSome_iff_exists.1 hsome
      have hnow : x = (Behavioral.callbacks c (.followerGet fid t) s).now := by
        rw [callbacks_now]
        refine ((callbacks_stamp (by decide) hx).resolve_left fun hold => ?_).1
        simp [stamped, hold] at hstart
      refine ⟨⟨front, by rw [hline, hput, hrest, List.append_assoc],
        fun b hb => keep b (hstamped b (List.mem_cons_of_mem _ hb)), ?_⟩, ?_⟩
      · simpa [Ev.starts] using kept
      · rw [Ev.starts, Option.toList_some, List.pairwise_append]
        refine ⟨begun, List.pairwise_singleton _ _, fun b _ b' hb' => ?_⟩
        obtain rfl := List.mem_singleton.1 hb'
        exact hinv'.inTurn_now (hx.trans (congrArg some hnow))
  | _ => exact other rfl rfl rfl

theorem InOrder.start (c : Setup G) (random : G) : InOrder [] (start c random) := by
  have no_line : (Behavioral.start c random).waitingLine = [] := by
    rw [waitingLine, station_start]
    rfl
  have no_put : (Behavioral.start c random).beingPut = [] := by
    refine gather_eq_nil.2 fun x hx => ?_
    have hinit := (start_initial c random x hx).2
    cases hx2 : x.2 <;> rw [hx2] at hinit <;> first | rfl | exact hinit.elim
  exact ⟨⟨[], by rw [no_line, no_put]; rfl, fun _ ha => absurd ha List.not_mem_nil, List.Pairwise.nil⟩,
    List.Pairwise.nil⟩

end InOrder

theorem inOrder_reached (c : Setup G) (random : G) (n : ℕ) :
    InOrder (executed c random n) (reached c random n) := by
  refine (loop_invariant_log Ev.starts (I := fun log s => Inv c.numTasks log s ∧ InOrder log s)
    ⟨.start c random, .start c random⟩ (fun log s t e rest h hagenda => ?_)
    (fun log e s h => ⟨h.1.callbacks, h.2.callbacks h.1⟩) n).2
  exact ⟨h.1.advance hagenda, h.2.line, h.2.started⟩

/-- A task that is enqueued earlier than one that has been started has been started, no later. -/
def FirstComeFirstServed (m : Metrics) : Prop :=
  ∀ a b x y z, m.stamp a .enqueued = some x → m.stamp b .enqueued = some y → x < y →
    m.stamp b .startExec = some z → ∃ w, m.stamp a .startExec = some w ∧ w ≤ z

/-- Of two entries of a list one stands before the other in both relations. -/
theorem pairwise_either {R S : ℕ → ℕ → Prop} {l : List ℕ} {a b : ℕ} (hR : l.Pairwise R)
    (hS : l.Pairwise S) (ha : a ∈ l) (hb : b ∈ l) (hne : a ≠ b) : R a b ∧ S a b ∨ R b a ∧ S b a := by
  have : Std.Symm fun a b => R a b ∧ S a b ∨ R b a ∧ S b a := ⟨fun _ _ h => h.symm⟩
  have both := (hR.and hS).imp fun {a b} h => show R a b ∧ S a b ∨ R b a ∧ S b a from .inl h
  exact both.forall ha hb hne

/-- A task that has been enqueued and not started is in line. -/
theorem Inv.waits {N a : ℕ} {log : List ℕ} {x : ℚ} (h : Inv N log s)
    (hx : s.metrics.stamp a .enqueued = some x) (hnone : s.metrics.stamp a .startExec = none) :
    a ∈ s.waitingLine ∧ a ∉ s.beingPut := by
  obtain ⟨n, -, hl⟩ := h.census
  have henq := (hl a).enqueued
  have hstart := (hl a).started
  have henq' : s.stamped a .enqueued = 1 := by simp [stamped, hx]
  have hstart' := stamped_eq_zero_iff.2 hnone
  refine ⟨mem_waitingLine.2 (by omega), fun hput => ?_⟩
  rw [h.not_enqueued hput] at hx
  cases hx

theorem InOrder.firstComeFirstServed {N : ℕ} {log : List ℕ} (h : InOrder log s)
    (hinv : Inv N log s) : FirstComeFirstServed s.metrics := by
  intro a b x y z ha hb hlt hz
  obtain ⟨⟨front, hfront, -, hturn⟩, hstarted⟩ := h
  rw [List.pairwise_append] at hturn
  obtain ⟨hlog, -, hwaiting⟩ := hturn
  have hbl : b ∈ log := hinv.mem_log.2 (by rw [hz]; rfl)
  have hne : a ≠ b := by
    rintro rfl
    rw [ha] at hb
    exact absurd (Option.some.inj hb) hlt.ne
  cases hw : s.metrics.stamp a .startExec with
  | some w =>
    have hal : a ∈ log := hinv.mem_log.2 (by rw [hw]; rfl)
    obtain ⟨-, hstart⟩ | ⟨hback, -⟩ := pairwise_either hlog hstarted hal hbl hne
    · exact ⟨w, rfl, hstart w z hw hz⟩
    · exact absurd (hback y x hb ha) (not_le.2 hlt)
  | none =>
    -- it is in line, behind all that have been started
    obtain ⟨hline, hput⟩ := hinv.waits ha hw
    rw [hfront, List.mem_append] at hline
    exact absurd (hwaiting b hbl a (hline.resolve_right hput) y x hb ha) (not_le.2 hlt)

/-- **First come, first served.**  In every run no follower starts a task while one that was put
into the execution queue before it has not been started. -/
theorem first_come_first_served (c : Setup G) (random : G) (n : ℕ) :
    FirstComeFirstServed (reached c random n).metrics :=
  (inOrder_reached c random n).firstComeFirstServed (inv_reached c random n)

end TaskQueueCoSim.Behavioral
