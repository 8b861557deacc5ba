import TaskQueueCoSim.Model.QueueOrder
import TaskQueueCoSim.Model.RunSim

/-!
# The order of the dispatch (model/behavioral.py)

`run_sim` gives all leaders one dispatch time.  So tasks are enqueued no earlier than those
that arrived before them, although a leader that fills its batch may pass over a task that
another has been granted.

* `Expected`: when a task was enqueued, or will be as things stand;
* `Shifts`: a step takes tasks off the front of the arrival buffer, and expects them to be
  enqueued after one dispatch time;
* `no_task_overtakes`: with the order of the execution queue, a task is started before an
  earlier one only if both were enqueued at one time.
-/

namespace TaskQueueCoSim.Behavioral

open Agenda Sim

variable {G : Type} {c : Setup G} {s s' : Sim G} {e : Ev} {d t : ℚ} {a : ℕ}

/-- A batch is filled from the front of the items. -/
theorem fillBatch_taken (batchEnqueue : ℤ) (items batch : List ℕ) :
    ∃ taken, (fillBatch batchEnqueue batch items).1 = batch ++ taken ∧
      items = taken ++ (fillBatch batchEnqueue batch items).2 := by
  induction items generalizing batch with
  | nil => exact ⟨[], (List.append_nil _).symm, rfl⟩
  | cons t items ih =>
    unfold fillBatch
    split_ifs
    · obtain ⟨taken, hbatch, hitems⟩ := ih (batch ++ [t])
      exact ⟨t :: taken, by rw [hbatch, List.append_assoc]; rfl, congrArg (t :: ·) hitems⟩
    · exact ⟨[], (List.append_nil _).symm, rfl⟩

/-! ## When a task is expected to be enqueued -/

/-- The tasks that the leader that waits for an event has in its hands. -/
def Ev.inHand (e : Ev) : List ℕ := Ev.tasks .putting e ++ Ev.tasks .batched e

/-- A task was enqueued at `t`; or will be when its leader goes on; or one dispatch time from now. -/
inductive Expected (d : ℚ) (s : Sim G) : ℚ → ℕ → Prop where
  | enqueued {t : ℚ} {a : ℕ} (h : s.metrics.stamp a .enqueued = some t) : Expected d s t a
  | inHand {t : ℚ} {e : Ev} {a : ℕ} (hx : (t, e) ∈ s.agenda) (ha : a ∈ e.inHand) : Expected d s t a
  | granted {t : ℚ} {e : Ev} {a : ℕ} (hx : (t, e) ∈ s.agenda) (ha : a ∈ Ev.tasks .buffered e) :
    Expected d s (s.now + max d 0) a

/-- The items of the arrival buffer. -/
def Sim.buffer (s : Sim G) : List ℕ := (s.stores .arrivalBuffer).items

/-- Tasks that arrived earlier are expected no later, and those still in the buffer come after. -/
structure Dispatched (d : ℚ) (s : Sim G) : Prop where
  mono : ∀ t t' a b, Expected d s t a → Expected d s t' b → a < b → t ≤ t'
  ahead : ∀ t a, Expected d s t a → ∀ b ∈ s.buffer, a < b
  sorted : s.buffer.Pairwise (· < ·)
  bound : ∀ t a, Expected d s t a → t ≤ s.now + max d 0

/-- From `s` to `s'` no time goes on; what is newly expected has been at the front of the buffer. -/
structure Shifts (d : ℚ) (s s' : Sim G) : Prop where
  now : s'.now = s.now
  moves : ∃ moved, s.buffer = moved ++ s'.buffer ∧
    ∀ t a, Expected d s' t a → Expected d s t a ∨ t = s.now + max d 0 ∧ a ∈ moved

namespace Shifts

theorem of_subset (hnow : s'.now = s.now) (hbuffer : s'.buffer = s.buffer)
    (hexpected : ∀ t a, Expected d s' t a → Expected d s t a) : Shifts d s s' :=
  ⟨hnow, [], hbuffer.symm, fun t a h => .inl (hexpected t a h)⟩

theorem trans {s'' : Sim G} (h : Shifts d s s') (h' : Shifts d s' s'') : Shifts d s s'' := by
  obtain ⟨moved, hbuffer, hexpected⟩ := h.moves
  obtain ⟨moved', hbuffer', hexpected'⟩ := h'.moves
  refine ⟨h'.now.trans h.now, moved ++ moved', by rw [hbuffer, hbuffer', List.append_assoc],
    fun t a ha => ?_⟩
  obtain ha | ⟨ht, ha⟩ := hexpected' t a ha
  · obtain ha | ⟨ht, ha⟩ := hexpected t a ha
    · exact .inl ha
    · exact .inr ⟨ht, List.mem_append_left _ ha⟩
  · exact .inr ⟨by rw [ht, h.now], List.mem_append_right _ ha⟩

/-- The order is kept, since what is newly expected is expected last. -/
theorem dispatched (h : Shifts d s s') (hs : Dispatched d s) : Dispatched d s' := by
  obtain ⟨moved, hbuffer, hexpected⟩ := h.moves
  have hsorted := hs.sorted
  rw [hbuffer, List.pairwise_append] at hsorted
  have in_buffer : ∀ a ∈ moved, a ∈ s.buffer := by
    intro a ha
    rw [hbuffer]
    exact List.mem_append_left _ ha
  refine ⟨fun t t' a b ha hb hlt => ?_, fun t a ha b hb => ?_, hsorted.2.1, fun t a ha => ?_⟩
  · obtain hold | ⟨ht, hnew⟩ := hexpected t a ha
    · obtain hold' | ⟨ht', -⟩ := hexpected t' b hb
      · exact hs.mono t t' a b hold hold' hlt
      · exact (hs.bound t a hold).trans ht'.ge
    · obtain hold' | ⟨ht', -⟩ := hexpected t' b hb
      · exact absurd (hs.ahead t' b hold' a (in_buffer a hnew)) (Nat.lt_asymm hlt)
      · exact ht.le.trans ht'.ge
  · obtain ha | ⟨-, ha⟩ := hexpected t a ha
    · exact hs.ahead t a ha b (by rw [hbuffer]; exact List.mem_append_right _ hb)
    · exact hsorted.2.2 a ha b hb
  · rw [h.now]
    obtain ha | ⟨rfl, -⟩ := hexpected t a ha
    · exact hs.bound t a ha
    · exact le_rfl

/-- One event may be new, with tasks that are expected at its time or are moved now. -/
theorem of_agenda (moved : List ℕ) {t : ℚ} (hnow : s'.now = s.now)
    (hbuffer : s.buffer = moved ++ s'.buffer)
    (hstamp : ∀ a x, s'.metrics.stamp a .enqueued = some x → Expected d s x a)
    (hagenda : ∀ y ∈ s'.agenda, y = (t, e) ∨ y ∈ s.agenda)
    (hin : ∀ a ∈ e.inHand, Expected d s t a ∨ t = s.now + max d 0 ∧ a ∈ moved)
    (hgranted : ∀ a ∈ Ev.tasks .buffered e, a ∈ moved) : Shifts d s s' := by
  refine ⟨hnow, moved, hbuffer, fun x a h => ?_⟩
  cases h with
  | enqueued h => exact .inl (hstamp _ _ h)
  | inHand hx ha =>
    obtain hx | hx := hagenda _ hx
    · obtain ⟨rfl, rfl⟩ := Prod.mk.inj hx
      exact hin a ha
    · exact .inl (.inHand hx ha)
  | granted hx ha =>
    rw [hnow]
    obtain hx | hx := hagenda _ hx
    · obtain ⟨rfl, rfl⟩ := Prod.mk.inj hx
      exact .inr ⟨rfl, hgranted a ha⟩
    · exact .inl (.granted hx ha)

theorem of_hold : Shifts d (s.hold e) s :=
  of_subset rfl rfl fun t a h => by
    cases h with
    | enqueued h => exact .enqueued h
    | inHand hx ha => exact .inHand (List.mem_cons_of_mem _ hx) ha
    | granted hx ha => exact .granted (s := s.hold e) (List.mem_cons_of_mem _ hx) ha

theorem record {f : Metrics → Metrics}
    (hf : ∀ m a t, (f m).stamp a .enqueued = some t → m.stamp a .enqueued = some t) :
    Shifts d s (s.record f) :=
  of_subset rfl rfl fun t a h => by
    cases h with
    | enqueued h => exact .enqueued (hf _ _ _ h)
    | inHand hx ha => exact .inHand (s := s) hx ha
    | granted hx ha => exact .granted (s := s) hx ha

theorem setRandom (random : G) : Shifts d s (s.setRandom random) :=
  of_subset rfl rfl fun t a h => by
    cases h with
    | enqueued h => exact .enqueued h
    | inHand hx ha => exact .inHand (s := s) hx ha
    | granted hx ha => exact .granted (s := s) hx ha

/-- An event that stands for no task on its way. -/
theorem schedule {x : ℚ} (hin : e.inHand = []) (hgranted : Ev.tasks .buffered e = []) :
    Shifts d s (s.schedule x e) :=
  of_agenda [] rfl rfl (fun _ _ h => .enqueued h) (fun _ hy => mem_schedule.1 hy)
    (by simp [hin]) (by simp [hgranted])

/-- A get that is granted moves the first task of the arrival buffer. -/
theorem hold_triggerGet (q : StoreName) : Shifts d (s.hold e) ((s.triggerGet q).hold e) := by
  obtain ⟨hs, -⟩ | ⟨t, items, pid, getQueue, hq, hs⟩ := s.triggerGet_cases q
  · rw [hs]
    exact of_subset rfl rfl fun _ _ h => h
  rw [hs]
  have hagenda : ∀ y ∈ (((s.setStore q items getQueue).schedule 0 (q.gotten pid t)).hold e).agenda,
      y = (s.now + 0, q.gotten pid t) ∨ y ∈ (s.hold e).agenda := by
    intro y hy
    simp only [hold_agenda, schedule_agenda, List.mem_cons, mem_schedule] at hy ⊢
    tauto
  cases q with
  | execQueue =>
    exact of_agenda [] rfl rfl (fun _ _ h => .enqueued h) hagenda
      (fun _ ha => absurd ha List.not_mem_nil) fun _ ha => ha
  | arrivalBuffer =>
    refine of_agenda [t] rfl ?_ (fun _ _ h => .enqueued h) hagenda
      (fun _ ha => absurd ha List.not_mem_nil) fun _ ha => ha
    rw [Sim.buffer, hold_stores, hq]
    rfl

theorem get (q : StoreName) (pid : ℕ) : Shifts d (s.hold e) (s.get q pid) := by
  have asked : Shifts d (s.hold e)
      ((s.setStore q (s.stores q).items ((s.stores q).getQueue ++ [pid])).hold e) := by
    refine of_subset rfl ?_ fun t a h => ?_
    · cases q <;> rfl
    cases h with
    | enqueued h => exact .enqueued h
    | inHand hx ha => exact .inHand (s := s.hold e) hx ha
    | granted hx ha => exact .granted (s := s.hold e) hx ha
  exact (asked.trans (hold_triggerGet q)).trans of_hold

/-- A leader that goes on with its batch at once. -/
theorem enqueueLoop {lid : ℕ} {batch : List ℕ} {start : ℚ} :
    Shifts d (s.hold (.leaderTimeout lid batch start)) (enqueueLoop lid batch s) := by
  cases batch with
  | nil => exact get _ _
  | cons t rest =>
    refine of_agenda [] (t := s.now) (e := .execPut lid t rest s.now) rfl rfl
      (fun _ _ h => .enqueued h) (fun y hy => ?_)
      (fun a ha => .inl (.inHand (List.mem_cons_self ..) ha)) fun _ ha => ha
    obtain rfl | hy := mem_schedule.1 hy
    · exact .inl (by rw [setStore_now, add_zero])
    · exact .inr (List.mem_cons_of_mem _ hy)

/-- A leader that has got a task takes others with it, and goes on after the dispatch time. -/
theorem leaderGet {lid tid : ℕ} {batch : List ℕ} (start : ℚ) {batchEnqueue : ℤ}
    (hfill : fillBatch batchEnqueue [tid] s.buffer = (batch, s'.buffer)) (hnow : s'.now = s.now)
    (hstamp : ∀ a x, s'.metrics.stamp a .enqueued = some x → s.metrics.stamp a .enqueued = some x)
    (hagenda : ∀ y ∈ s'.agenda,
      y = (s.now + max d 0, Ev.leaderTimeout lid batch start) ∨ y ∈ s.agenda) :
    Shifts d (s.hold (.leaderGet lid tid)) s' := by
  obtain ⟨taken, hbatch, hitems⟩ := fillBatch_taken batchEnqueue s.buffer [tid]
  rw [hfill] at hbatch hitems
  refine of_agenda taken hnow hitems (fun a x h => .enqueued (hstamp a x h))
    (fun y hy => (hagenda y hy).imp_right (List.mem_cons_of_mem _)) (fun a ha => ?_)
    fun _ ha => absurd ha List.not_mem_nil
  rw [show (Ev.leaderTimeout lid batch start).inHand = tid :: taken from hbatch] at ha
  obtain rfl | ha := List.mem_cons.1 ha
  · exact .inl (.granted (s := s.hold _) (List.mem_cons_self ..) (List.mem_singleton_self _))
  · exact .inr ⟨rfl, ha⟩

/-- What a leader has put is enqueued now; it goes on with the rest of its batch. -/
theorem execPut {lid t : ℕ} {rest : List ℕ} {beforePut start : ℚ} :
    Shifts d (s.hold (.execPut lid t rest beforePut))
      ((s.record (.recordPut lid t beforePut s.now)).hold (.leaderTimeout lid rest start)) := by
  have carried (a : ℕ) (ha : a ∈ t :: rest) :
      Expected d (s.hold (.execPut lid t rest beforePut)) s.now a :=
    .inHand (List.mem_cons_self ..) ha
  refine of_agenda [] (t := s.now) rfl rfl (fun a x h => ?_)
    (fun y hy => (List.mem_cons.1 hy).imp_right (List.mem_cons_of_mem _))
    (fun a ha => .inl (carried a (List.mem_cons_of_mem _ ha))) fun _ ha => ha
  rw [hold_metrics, record_metrics, Metrics.stamp_recordPut] at h
  split_ifs at h with heq
  · obtain rfl := Option.some.inj h
    exact carried a (heq.1 ▸ List.mem_cons_self ..)
  · exact .enqueued h

theorem sampleTimeout (c : Setup G) (hin : e.inHand = []) (hgranted : Ev.tasks .buffered e = []) :
    Shifts d s (sampleTimeout c e s) := by
  unfold Behavioral.sampleTimeout
  split_ifs
  · exact schedule rfl rfl
  · exact schedule hin hgranted

theorem hold_record {f : Metrics → Metrics}
    (hf : ∀ m a t, (f m).stamp a .enqueued = some t → m.stamp a .enqueued = some t) :
    Shifts d (s.hold e) ((s.record f).hold e) := record (s := s.hold e) hf

theorem hold_setRandom (random : G) : Shifts d (s.hold e) ((s.setRandom random).hold e) :=
  setRandom (s := s.hold e) random

theorem afterExecution (fid tid : ℕ) (start : ℚ) :
    Shifts d (s.hold e) (afterExecution fid tid start s) :=
  (hold_record fun m a t h => by
    rwa [Metrics.stamp_recordExecuted, if_neg (by simp)] at h).trans (get _ _)

/-- Every event but an arrival moves tasks on. -/
theorem callbacks (hd : ∀ random, (c.dispatchTime random).1 = d) (he : e.next = none) :
    Shifts d (s.hold e) (callbacks c e s) := by
  cases e with
  | arrivalInit | arrivalPut | arrivalTimeout => cases he
  | leaderInit | followerInit => exact get _ _
  | depthInit | depthTimeout =>
    exact ((of_hold.trans (record fun _ _ _ h => by simpa using h)).trans
      (record fun _ _ _ h => by simpa using h)).trans (sampleTimeout c rfl rfl)
  | rateInit => exact of_hold.trans (sampleTimeout c rfl rfl)
  | rateTimeout =>
    exact (of_hold.trans (record fun _ _ _ h => by simpa using h)).trans (sampleTimeout c rfl rfl)
  | arrivalEnd | samplerFailed => exact of_hold
  | leaderGet lid tid =>
    rcases hfill : fillBatch c.batchEnqueue [tid] (s.stores .arrivalBuffer).items with ⟨batch, items⟩
    simp only [Behavioral.callbacks, afterLeaderGet, hfill, hd]
    split_ifs with hpos
    · refine leaderGet s.now hfill rfl (fun _ _ h => h) fun y hy => ?_
      rw [max_eq_left hpos.le]
      exact mem_schedule.1 hy
    · let s₁ := ((s.setRandom (c.dispatchTime s.random).2).setStore .arrivalBuffer items
        (s.stores .arrivalBuffer).getQueue).record (.addLeaderBusy lid (s.now - s.now))
      have gotten : Shifts d (s.hold (.leaderGet lid tid))
          (s₁.hold (.leaderTimeout lid batch s.now)) := by
        refine leaderGet s.now hfill rfl (fun a x h => ?_) fun y hy => ?_
        · simpa [s₁] using h
        · rw [max_eq_right (not_lt.1 hpos), add_zero]
          exact List.mem_cons.1 hy
      exact gotten.trans enqueueLoop
  | leaderTimeout lid batch start =>
    have recorded : Shifts d (s.hold (.leaderTimeout lid batch start))
        ((s.record (.addLeaderBusy lid (s.now - start))).hold (.leaderTimeout lid batch start)) :=
      hold_record fun m a t h => by simpa using h
    exact recorded.trans enqueueLoop
  | execPut lid t rest beforePut =>
    have put : Shifts d ((s.triggerGet .execQueue).hold (.execPut lid t rest beforePut))
        (((s.triggerGet .execQueue).record
          (.recordPut lid t beforePut (s.triggerGet .execQueue).now)).hold
            (.leaderTimeout lid rest s.now)) := execPut
    rw [triggerGet_now] at put
    have triggered := hold_triggerGet (d := d) (s := s) (e := .execPut lid t rest beforePut) .execQueue
    simp only [Behavioral.callbacks, afterExecPut, triggerGet_now]
    exact (triggered.trans put).trans enqueueLoop
  | followerGet fid tid =>
    have started : Shifts d (s.hold (.followerGet fid tid))
        ((s.record (.recordStartExec tid s.now fid)).hold (.followerGet fid tid)) :=
      hold_record fun m a t h => by rwa [Metrics.stamp_recordStartExec, if_neg (by simp)] at h
    simp only [Behavioral.callbacks, afterFollowerGet]
    split_ifs
    · exact ((started.trans of_hold).trans (setRandom _)).trans (schedule rfl rfl)
    · exact (started.trans (hold_setRandom _)).trans (afterExecution _ _ _)
  | followerTimeout => exact afterExecution _ _ _

end Shifts

/-! ## Every run -/

theorem found_pos_iff {k : Gauge} :
    0 < s.found a k ↔ a ∈ s.items k ∨ ∃ x ∈ s.agenda, a ∈ Ev.tasks k x.2 := by
  rw [found_eq_count, List.count_pos_iff, tasks, List.mem_append, gather, List.mem_flatMap]

section Located

variable {n : ℕ}

/-- Tasks that are somewhere or have been enqueued have arrived. -/
theorem Located.lt_of_pos (h : Located n s a) (hpos : 0 < s.found a .buffered +
    s.found a .batched + s.found a .putting + s.stamped a .enqueued) : a < n := by
  have placed := h.placed
  have enqueued := h.enqueued
  by_contra hge
  rw [if_neg hge] at placed
  omega

theorem Located.lt_of_expected (h : Located n s a) (ht : Expected d s t a) : a < n := by
  refine h.lt_of_pos ?_
  cases ht with
  | enqueued hx => simp [stamped, hx]
  | inHand hx ha =>
    obtain ha | ha := List.mem_append.1 ha
    · have := found_pos_iff.2 (.inr ⟨_, hx, ha⟩)
      omega
    · have := found_pos_iff.2 (.inr ⟨_, hx, ha⟩)
      omega
  | granted hx ha =>
    have := found_pos_iff.2 (.inr ⟨_, hx, ha⟩)
    omega

theorem Located.lt_of_buffer (h : Located n s a) (ha : a ∈ s.buffer) : a < n := by
  refine h.lt_of_pos ?_
  have := found_pos_iff.2 (.inl (show a ∈ s.items .buffered from ha))
  omega

/-- A task that has arrived and has left the buffer is expected. -/
theorem Located.expected (d : ℚ) (h : Located n s a) (hlt : a < n) (hnot : a ∉ s.buffer) :
    ∃ t, Expected d s t a := by
  have placed := h.placed
  have enqueued := h.enqueued
  rw [if_pos hlt] at placed
  cases hx : s.metrics.stamp a .enqueued with
  | some x => exact ⟨x, .enqueued hx⟩
  | none =>
    rw [stamped_eq_zero_iff.2 hx] at enqueued
    have found : 0 < s.found a .buffered ∨ 0 < s.found a .batched ∨ 0 < s.found a .putting := by omega
    simp only [found_pos_iff] at found
    obtain (ha | ⟨y, hy, ha⟩) | (ha | ⟨y, hy, ha⟩) | (ha | ⟨y, hy, ha⟩) := found
    · exact absurd ha hnot
    · exact ⟨_, .granted hy ha⟩
    · exact absurd ha List.not_mem_nil
    · exact ⟨_, .inHand hy (List.mem_append_right _ ha)⟩
    · exact absurd ha List.not_mem_nil
    · exact ⟨_, .inHand hy (List.mem_append_left _ ha)⟩

end Located

namespace Dispatched

/-- A task that arrives is the last of the buffer. -/
theorem arrivalLoop (h : Dispatched d s) (c : Setup G) {i : ℕ} (hl : ∀ tid, Located i s tid) :
    Dispatched d (arrivalLoop c i s) := by
  unfold Behavioral.arrivalLoop
  split_ifs
  · have hbuffer : ((s.record (.recordArrival i s.now)).put .arrivalBuffer i
        (.arrivalPut i)).buffer = s.buffer ++ [i] := rfl
    have before : ∀ t a, Expected d ((s.record (.recordArrival i s.now)).put .arrivalBuffer i
        (.arrivalPut i)) t a → Expected d s t a := by
      intro t a ha
      cases ha with
      | enqueued hx =>
        change (s.metrics.recordArrival i s.now).stamp a .enqueued = some t at hx
        rw [Metrics.stamp_recordArrival, if_neg (show Stamp.enqueued ≠ .arrival by decide)] at hx
        split_ifs at hx
        exact .enqueued hx
      | inHand hx ha =>
        obtain hx | hx := mem_schedule.1 hx
        · obtain ⟨-, rfl⟩ := Prod.mk.inj hx
          exact absurd ha List.not_mem_nil
        · exact .inHand hx ha
      | granted hx ha =>
        obtain hx | hx := mem_schedule.1 hx
        · obtain ⟨-, rfl⟩ := Prod.mk.inj hx
          exact absurd ha List.not_mem_nil
        · exact .granted (s := s) hx ha
    refine ⟨fun t t' a b ha hb => h.mono t t' a b (before t a ha) (before t' b hb),
      fun t a ha b hb => ?_, ?_, fun t a ha => h.bound t a (before t a ha)⟩
    · rw [hbuffer] at hb
      obtain hb | hb := List.mem_append.1 hb
      · exact h.ahead t a (before t a ha) b hb
      · obtain rfl := List.mem_singleton.1 hb
        exact (hl a).lt_of_expected (before t a ha)
    · rw [hbuffer, List.pairwise_append]
      refine ⟨h.sorted, List.pairwise_singleton _ _, fun a ha b hb => ?_⟩
      obtain rfl := List.mem_singleton.1 hb
      exact (hl a).lt_of_buffer ha
  · exact (Shifts.schedule rfl rfl).dispatched h

/-- When time goes on, no task that has been granted is left. -/
theorem advance (h : Dispatched d s) (ho : Ordered s) {x : ℚ} {rest : List (ℚ × Ev)}
    (hagenda : s.agenda = (x, e) :: rest) : Dispatched d { s with now := x } := by
  have hnow := ho.now_le hagenda
  have before : ∀ t a, Expected d { s with now := x } t a → Expected d s t a := by
    intro t a ha
    cases ha with
    | enqueued hx => exact .enqueued hx
    | inHand hx ha => exact .inHand (s := s) hx ha
    | @granted y e' a hx ha =>
      have hprompt : e'.Prompt := by
        cases e' <;> trivial
      have hsame : x = s.now :=
        le_antisymm ((ho.head_le hagenda _ hx).trans (ho.prompt _ hx hprompt)) hnow
      rw [show ({ s with now := x } : Sim G).now = s.now from hsame]
      exact .granted (s := s) hx ha
  exact ⟨fun t t' a b ha hb => h.mono t t' a b (before t a ha) (before t' b hb),
    fun t a ha => h.ahead t a (before t a ha), h.sorted,
    fun t a ha => (h.bound t a (before t a ha)).trans (add_le_add_left hnow _)⟩

theorem callbacks {N : ℕ} {log : List ℕ} (h : Dispatched d (s.hold e)) (hinv : Inv N log (s.hold e))
    (hd : ∀ random, (c.dispatchTime random).1 = d) : Dispatched d (callbacks c e s) := by
  obtain ⟨n, harr, hl⟩ := hinv.census
  have arrives (i : ℕ) (he : e.next = some i) (hw : ∀ tid k, e.weight tid k = 0) (s' : Sim G)
      (hs : Shifts d (s.hold e) s') (hg : ∀ tid k, s'.found tid k = s.found tid k)
      (hm : s'.metrics = s.metrics) : Dispatched d (Behavioral.arrivalLoop c i s') := by
    obtain rfl := harr.next _ (List.mem_cons_self ..) i he
    refine (hs.dispatched h).arrivalLoop c fun tid => ?_
    exact ((hl tid).of_hold (hw tid)).congr (hg tid) fun k => by rw [hm]
  cases e with
  | arrivalInit | arrivalTimeout =>
    exact arrives _ rfl (fun _ k => by cases k <;> rfl) s .of_hold (fun _ _ => rfl) rfl
  | arrivalPut i =>
    have drawn (q : StoreName) (random : G) :
        Shifts d (s.hold (.arrivalPut i)) ((s.triggerGet q).setRandom random) :=
      ((Shifts.hold_triggerGet q).trans .of_hold).trans (.setRandom _)
    simp only [Behavioral.callbacks, afterArrivalPut]
    split_ifs
    · exact ((drawn _ _).trans (.schedule rfl rfl)).dispatched h
    · exact arrives _ rfl (fun _ k => by cases k <;> rfl) _ (drawn _ _) (by simp) (by simp)
  | _ => exact (Shifts.callbacks hd rfl).dispatched h

theorem start (d : ℚ) (c : Setup G) (random : G) : Dispatched d (start c random) := by
  have none_expected : ∀ t a, ¬Expected d (Behavioral.start c random) t a := by
    intro t a ha
    cases ha with
    | enqueued hx => cases hx
    | @inHand t e a hx ha | @granted t e a hx ha =>
      have hinit := (start_initial c random _ hx).2
      cases e <;> first | exact hinit.elim | cases ha
  exact ⟨fun t t' a b ha => absurd ha (none_expected t a), fun t a ha => absurd ha (none_expected t a),
    List.Pairwise.nil, fun t a ha => absurd ha (none_expected t a)⟩

end Dispatched

theorem dispatched_reached (hd : ∀ random, (c.dispatchTime random).1 = d) (random : G) (n : ℕ) :
    Dispatched d (reached c random n) :=
  (loop_invariant_log Ev.starts (I := fun log s => Inv c.numTasks log s ∧ Dispatched d s)
    ⟨.start c random, .start d c random⟩
    (fun _ _ _ _ _ h hagenda => ⟨h.1.advance hagenda, h.2.advance h.1.toOrdered hagenda⟩)
    (fun _ _ _ h => ⟨h.1.callbacks, h.2.callbacks h.1 hd⟩) n).2

/-- A task that arrived before one that has been enqueued has been enqueued, no later; and if it
was earlier, it has also been started, no later, when the other one has been.  The exception is
what is enqueued at this moment. -/
def KeepsOrder (s : Sim G) : Prop :=
  ∀ a b y, a < b → s.metrics.stamp b .enqueued = some y → y = s.now ∨
    s.metrics.stamp a .enqueued = some y ∨
    ∃ x < y, s.metrics.stamp a .enqueued = some x ∧ ∀ z, s.metrics.stamp b .startExec = some z →
      ∃ w ≤ z, s.metrics.stamp a .startExec = some w

/-- **No task overtakes.**  In every call of `run_sim`, however many leaders there are and however
they fill their batches, tasks are enqueued and started in the order of their arrival, but for
those that are enqueued at one time. -/
theorem Tunables.no_task_overtakes (p : Tunables) (r : Random G) (mode : String) (n : ℕ) :
    KeepsOrder (p.run r mode n) := by
  intro a b y hab hb
  have hinv : Inv p.numTasks _ (p.run r mode n) := inv_reached (p.setup r mode) (r.seed p.seed) n
  have hdis : Dispatched (p.dispatchTime mode) (p.run r mode n) :=
    dispatched_reached (c := p.setup r mode) (fun _ => rfl) _ n
  have hfirst : FirstComeFirstServed (p.run r mode n).metrics :=
    (inOrder_reached (p.setup r mode) (r.seed p.seed) n).firstComeFirstServed hinv
  obtain ⟨m, -, hl⟩ := hinv.census
  have hnow : y ≤ (p.run r mode n).now := hinv.past b .enqueued y hb
  have hexp : Expected (p.dispatchTime mode) (p.run r mode n) y b := .enqueued hb
  -- it has left the buffer, since the other one has
  have hnot : a ∉ (p.run r mode n).buffer := fun ha => Nat.lt_asymm hab (hdis.ahead y b hexp a ha)
  obtain ⟨x, hx⟩ := (hl a).expected (p.dispatchTime mode)
    (hab.trans ((hl b).lt_of_expected hexp)) hnot
  have hle := hdis.mono x y a b hx hexp hab
  cases hx with
  | enqueued hx =>
    obtain hlt | rfl := hle.lt_or_eq
    · refine .inr (.inr ⟨x, hlt, hx, fun z hz => ?_⟩)
      obtain ⟨w, hw, hwz⟩ := hfirst a b x y z hx hb hlt hz
      exact ⟨w, hwz, hw⟩
    · exact .inr (.inl hx)
  | inHand hx =>
    -- what is in hand is due no earlier than now
    exact .inl (le_antisymm hnow ((hinv.ahead _ hx).trans hle))
  | granted =>
    exact .inl (le_antisymm hnow ((le_add_of_nonneg_right (le_max_right _ _)).trans hle))

end TaskQueueCoSim.Behavioral
