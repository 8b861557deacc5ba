import TaskQueueCoSim.Model.Behavioral

/-!
# The processes of the behavioral model

Leaders and followers loop for ever: each waits for a get or for one event.

* `staff_callbacks`: no process is lost and none is added, so each is in one place;
* `Told`: of the items and the gets of a store, one are no more than the puts that
  have not been processed.  When time goes on, one of them is empty.
-/

namespace TaskQueueCoSim.Behavioral

open Agenda Sim

variable {G : Type} {c : Setup G} {s : Sim G} {e : Ev}

/-! ## Staff -/

/-- The process that waits for an event: the store that it gets from and its number. -/
def Ev.process : Ev → Option (StoreName × ℕ)
  | .leaderInit lid => some (.arrivalBuffer, lid)
  | .leaderGet lid _ => some (.arrivalBuffer, lid)
  | .leaderTimeout lid _ _ => some (.arrivalBuffer, lid)
  | .execPut lid _ _ _ => some (.arrivalBuffer, lid)
  | .followerInit fid => some (.execQueue, fid)
  | .followerGet fid _ => some (.execQueue, fid)
  | .followerTimeout fid _ _ => some (.execQueue, fid)
  | _ => none

def Ev.staff (P : StoreName × ℕ → Bool) (e : Ev) : ℕ := (e.process.any P).toNat

/-- How many of the processes `P` there are. -/
def Sim.staff (P : StoreName × ℕ → Bool) (s : Sim G) : ℕ :=
  (s.stores .arrivalBuffer).getQueue.countP (fun lid => P (.arrivalBuffer, lid)) +
    (s.stores .execQueue).getQueue.countP (fun fid => P (.execQueue, fid)) +
    tally (Ev.staff P) s.agenda

section Staff

variable (P : StoreName × ℕ → Bool) (s e)

@[simp] theorem staff_record (f : Metrics → Metrics) : (s.record f).staff P = s.staff P := rfl

@[simp] theorem staff_setRandom (random : G) : (s.setRandom random).staff P = s.staff P := rfl

@[simp] theorem staff_hold : (s.hold e).staff P = e.staff P + s.staff P := by
  simp only [Sim.staff, hold_agenda, hold_stores, tally_cons]
  omega

@[simp] theorem staff_schedule (d : ℚ) : (s.schedule d e).staff P = e.staff P + s.staff P := by
  simp only [Sim.staff, schedule_agenda, schedule_stores, tally_schedule]
  omega

@[simp] theorem staff_setStore (q : StoreName) (items : List ℕ) :
    (s.setStore q items (s.stores q).getQueue).staff P = s.staff P := by
  cases q <;> simp [Sim.staff]

@[simp] theorem staff_gotten (q : StoreName) (pid tid : ℕ) :
    (q.gotten pid tid).staff P = (P (q, pid)).toNat := by
  cases q <;> rfl

@[simp] theorem staff_triggerGet (q : StoreName) : (s.triggerGet q).staff P = s.staff P := by
  obtain ⟨h, -⟩ | ⟨t, items, pid, getQueue, hq, h⟩ := s.triggerGet_cases q
  · rw [h]
  · rw [h, staff_schedule, staff_gotten]
    have hcount : ∀ b : Bool, (if b = true then 1 else 0) = b.toNat := fun b => by cases b <;> rfl
    cases q <;>
    · simp only [Sim.staff, setStore_stores, setStore_agenda, hq, Function.update_self, ne_eq,
        reduceCtorEq, not_false_eq_true, Function.update_of_ne, List.countP_cons, hcount]
      omega

@[simp] theorem staff_get (q : StoreName) (pid : ℕ) :
    (s.get q pid).staff P = (P (q, pid)).toNat + s.staff P := by
  have hcount : ∀ b : Bool, (if b = true then 1 else 0) = b.toNat := fun b => by cases b <;> rfl
  rw [Sim.get, staff_triggerGet]
  cases q <;>
  · simp only [Sim.staff, setStore_stores, setStore_agenda, Function.update_self, ne_eq,
      reduceCtorEq, not_false_eq_true, Function.update_of_ne, List.countP_append, List.countP_cons,
      List.countP_nil, hcount]
    omega

@[simp] theorem staff_put (q : StoreName) (t : ℕ) : (s.put q t e).staff P = e.staff P + s.staff P := by
  rw [put, staff_schedule, staff_setStore]

@[simp] theorem staff_enqueueLoop (lid : ℕ) (batch : List ℕ) :
    (enqueueLoop lid batch s).staff P = (P (.arrivalBuffer, lid)).toNat + s.staff P := by
  cases batch <;> simp [enqueueLoop, Ev.staff, Ev.process]

@[simp] theorem staff_arrivalLoop (i : ℕ) : (arrivalLoop c i s).staff P = s.staff P := by
  unfold arrivalLoop
  split_ifs <;> simp [Ev.staff, Ev.process]

theorem staff_sampleTimeout (he : e.staff P = 0) : (sampleTimeout c e s).staff P = s.staff P := by
  unfold sampleTimeout
  split_ifs
  · simp [Ev.staff, Ev.process]
  · simp [he]

/-- No process is lost and none is added. -/
theorem staff_callbacks : (callbacks c e s).staff P = e.staff P + s.staff P := by
  cases e with
  | arrivalInit | arrivalTimeout => simp [callbacks, Ev.staff, Ev.process]
  | leaderInit | followerInit => simp [callbacks, Ev.staff, Ev.process]
  | depthInit | depthTimeout | rateInit | rateTimeout =>
    exact (staff_sampleTimeout _ _ _ rfl).trans (Nat.zero_add _).symm
  | arrivalEnd | samplerFailed => simp [callbacks, Ev.staff, Ev.process]
  | arrivalPut i =>
    simp only [callbacks, afterArrivalPut]
    split_ifs <;> simp [Ev.staff, Ev.process]
  | leaderGet lid tid =>
    simp only [callbacks, afterLeaderGet, afterDispatch]
    have hset := staff_setStore (s.setRandom (c.dispatchTime s.random).2) P .arrivalBuffer
      (fillBatch c.batchEnqueue [tid] (s.stores .arrivalBuffer).items).2
    rw [staff_setRandom, setRandom_stores] at hset
    split_ifs <;> simp [Ev.staff, Ev.process, hset]
  | leaderTimeout | execPut => simp [callbacks, afterDispatch, afterExecPut, Ev.staff, Ev.process]
  | followerGet fid tid =>
    simp only [callbacks, afterFollowerGet, afterExecution]
    split_ifs <;> simp [Ev.staff, Ev.process]
  | followerTimeout => simp [callbacks, afterExecution, Ev.staff, Ev.process]

theorem staff_start (random : G) : (start c random).staff P =
    (List.range c.numLeaders).countP (fun lid => P (.arrivalBuffer, lid)) +
      (List.range c.numFollowers).countP (fun fid => P (.execQueue, fid)) := by
  have hsum : ∀ (f : ℕ → Bool) (l : List ℕ), (l.map fun i => (f i).toNat).sum = l.countP f := by
    intro f l
    induction l with
    | nil => rfl
    | cons i l ih => cases hf : f i <;> simp [ih, hf, Nat.add_comm]
  simp only [Sim.staff, start, tally, List.countP_nil, List.map_append, List.map_map,
    Function.comp_def, List.sum_append, Ev.staff, Ev.process, Option.any_some, hsum]
  simp

end Staff

/-- The number of processes that get from a store. -/
def Setup.servers (c : Setup G) : StoreName → ℕ
  | .arrivalBuffer => c.numLeaders
  | .execQueue => c.numFollowers

/-- Each process is in one place. -/
def Present (c : Setup G) (s : Sim G) : Prop :=
  ∀ p : StoreName × ℕ, s.staff (· == p) = if p.2 < c.servers p.1 then 1 else 0

theorem countP_range {f : ℕ → Bool} {i : ℕ} (hf : ∀ j, f j = true ↔ j = i) (n : ℕ) :
    (List.range n).countP f = if i < n then 1 else 0 := by
  induction n with
  | zero => rfl
  | succ n ih =>
    rw [List.range_succ, List.countP_append, ih, List.countP_singleton]
    have hn := hf n
    split_ifs <;> simp_all <;> omega

namespace Present

theorem start (c : Setup G) (random : G) : Present c (start c random) := by
  rintro ⟨q, i⟩
  rw [staff_start]
  cases q
  · have hother : (List.range c.numFollowers).countP
        (fun fid => (StoreName.execQueue, fid) == (StoreName.arrivalBuffer, i)) = 0 := by simp
    rw [countP_range (i := i) (by simp), hother]
    rfl
  · have hother : (List.range c.numLeaders).countP
        (fun lid => (StoreName.arrivalBuffer, lid) == (StoreName.execQueue, i)) = 0 := by simp
    rw [hother, countP_range (i := i) (by simp), Nat.zero_add]
    rfl

theorem advance (h : Present c s) (t : ℚ) : Present c { s with now := t } := h

/-- No other event is waited for by the process of the event in hand. -/
theorem alone (h : Present c (s.hold e)) {p : StoreName × ℕ} (he : e.process = some p) {x : ℚ × Ev}
    (hx : x ∈ s.agenda) : x.2.process ≠ some p := by
  intro hxp
  have hone := h p
  have hle := le_tally (Ev.staff (· == p)) hx
  rw [staff_hold, Sim.staff] at hone
  simp only [Ev.staff, he, hxp, Option.any_some, beq_self_eq_true, Bool.toNat_true] at hone hle
  split_ifs at hone <;> omega

/-- Only processes that have been started wait for events. -/
theorem lt (h : Present c s) {p : StoreName × ℕ} {x : ℚ × Ev} (hx : x ∈ s.agenda)
    (hxp : x.2.process = some p) : p.2 < c.servers p.1 := by
  by_contra hge
  have hzero := h p
  have hle := le_tally (Ev.staff (· == p)) hx
  rw [if_neg hge, Sim.staff] at hzero
  simp only [Ev.staff, hxp, Option.any_some, beq_self_eq_true, Bool.toNat_true] at hzero hle
  omega

/-- A process that does not wait for a get waits for an event. -/
theorem exists_event (h : Present c s) {q : StoreName} (hpos : 0 < c.servers q)
    (hempty : (s.stores q).getQueue = []) : ∃ x ∈ s.agenda, x.2.process = some (q, 0) := by
  by_contra hno
  have hzero : tally (Ev.staff (· == (q, 0))) s.agenda = 0 := by
    refine tally_eq_zero fun x hx => ?_
    have hne : x.2.process ≠ some (q, 0) := fun hp => hno ⟨x, hx, hp⟩
    cases hp : x.2.process with
    | none => simp [Ev.staff, hp]
    | some p => simpa [Ev.staff, hp] using hne
  have hone := h (q, 0)
  rw [if_pos hpos, Sim.staff, hzero] at hone
  cases q
  · have hother : (s.stores .execQueue).getQueue.countP
        (fun fid => (StoreName.execQueue, fid) == (StoreName.arrivalBuffer, 0)) = 0 := by simp
    rw [hempty, hother] at hone
    cases hone
  · have hother : (s.stores .arrivalBuffer).getQueue.countP
        (fun lid => (StoreName.arrivalBuffer, lid) == (StoreName.execQueue, 0)) = 0 := by simp
    rw [hempty, hother] at hone
    cases hone

theorem callbacks (h : Present c (s.hold e)) : Present c (callbacks c e s) := by
  intro p
  rw [staff_callbacks, ← staff_hold, h p]

end Present

/-! ## Puts that have not been processed -/

/-- The store that an event triggers the gets of. -/
def Ev.tells : Ev → Option StoreName
  | .arrivalPut _ => some .arrivalBuffer
  | .execPut _ _ _ _ => some .execQueue
  | _ => none

def Ev.untold (q : StoreName) (e : Ev) : ℕ := if e.tells = some q then 1 else 0

/-- A batch has a task, the one that the leader got. -/
theorem fillBatch_length_pos (batchEnqueue : ℤ) (tid : ℕ) (items : List ℕ) :
    0 < (fillBatch batchEnqueue [tid] items).1.length := by
  have grows : ∀ batch items, batch.length ≤ (fillBatch batchEnqueue batch items).1.length := by
    intro batch items
    induction items generalizing batch with
    | nil => exact Nat.le_refl _
    | cons t items ih =>
      unfold fillBatch
      split_ifs
      · exact (by simp : batch.length ≤ (batch ++ [t]).length).trans (ih _)
      · exact Nat.le_refl _
  exact grows [tid] items

/-- A leader that takes tasks leaves no more than there were. -/
theorem fillBatch_items_le (batchEnqueue : ℤ) (tid : ℕ) (items : List ℕ) :
    (fillBatch batchEnqueue [tid] items).2.length ≤ items.length := by
  have hfill := congrArg List.length (fillBatch_append batchEnqueue [tid] items)
  have hne := fillBatch_length_pos batchEnqueue tid items
  simp only [List.length_append, List.length_singleton] at hfill
  omega

/-- Of the items and the gets of a store one are no more than the puts to be processed. -/
def Told (s : Sim G) : Prop :=
  ∀ q, (s.stores q).items.length ≤ tally (Ev.untold q) s.agenda ∨
    (s.stores q).getQueue.length ≤ tally (Ev.untold q) s.agenda

namespace Told

theorem of_hold (h : Told (s.hold e)) (he : e.tells = none) : Told s := by
  intro q
  have hq := h q
  simpa [Ev.untold, he] using hq

theorem record (h : Told s) (f : Metrics → Metrics) : Told (s.record f) := h

theorem setRandom (h : Told s) (random : G) : Told (s.setRandom random) := h

theorem schedule (h : Told s) (d : ℚ) (e : Ev) : Told (s.schedule d e) := by
  intro q
  have hq := h q
  rw [schedule_agenda, tally_schedule, schedule_stores]
  omega

/-- Items may be taken. -/
theorem setStore (h : Told s) (q : StoreName) {items : List ℕ}
    (hlen : items.length ≤ (s.stores q).items.length) :
    Told (s.setStore q items (s.stores q).getQueue) := by
  intro q'
  have hq := h q'
  rw [setStore_stores, setStore_agenda]
  by_cases hne : q' = q
  · subst hne
    rw [Function.update_self]
    dsimp only
    omega
  · rwa [Function.update_of_ne hne]

theorem put (h : Told s) {q : StoreName} (tid : ℕ) (he : e.tells = some q) :
    Told (s.put q tid e) := by
  intro q'
  have hq := h q'
  rw [put_agenda, tally_schedule]
  by_cases hne : q' = q
  · subst hne
    simp only [Sim.put, schedule_stores, setStore_stores, Function.update_self, List.length_append,
      List.length_singleton, Ev.untold, he, if_true]
    omega
  · simp only [Sim.put, schedule_stores, setStore_stores, Function.update_of_ne hne]
    omega

/-- A put that is processed gives the first item to the first get. -/
theorem triggerGet {q : StoreName} (h : Told (s.hold e)) (he : e.tells = some q) :
    Told (s.triggerGet q) := by
  intro q'
  have hq := h q'
  rw [hold_agenda, tally_cons, hold_stores] at hq
  dsimp only at hq
  obtain ⟨hs, hempty⟩ | ⟨t, items, pid, getQueue, hstore, hs⟩ := s.triggerGet_cases q
  · rw [hs]
    by_cases hne : q' = q
    · subst hne
      obtain hempty | hempty := hempty <;> simp [hempty]
    · have hzero : e.untold q' = 0 := by simp [Ev.untold, he, Ne.symm hne]
      omega
  · rw [hs, schedule_agenda, tally_schedule, setStore_agenda, schedule_stores, setStore_stores]
    by_cases hne : q' = q
    · subst hne
      have hone : e.untold q' = 1 := by simp [Ev.untold, he]
      rw [hstore] at hq
      rw [Function.update_self]
      simp only [List.length_cons] at hq
      dsimp only
      omega
    · have hzero : e.untold q' = 0 := by simp [Ev.untold, he, Ne.symm hne]
      rw [Function.update_of_ne hne]
      omega

theorem get (h : Told s) (q : StoreName) (pid : ℕ) : Told (s.get q pid) := by
  intro q'
  have hq := h q'
  rw [Sim.get]
  by_cases hne : q' = q
  · subst hne
    obtain ⟨hs, hempty⟩ | ⟨t, items, pid', getQueue, hstore, hs⟩ :=
      (s.setStore q' (s.stores q').items ((s.stores q').getQueue ++ [pid])).triggerGet_cases q'
    · rw [setStore_stores, Function.update_self] at hempty
      dsimp only at hempty
      obtain hempty | hempty := hempty
      · rw [hs, setStore_stores, Function.update_self]
        exact .inl (by simp [hempty])
      · simp at hempty
    · rw [hs, schedule_agenda, tally_schedule, setStore_agenda, setStore_agenda, schedule_stores,
        setStore_stores, Function.update_self]
      rw [setStore_stores, Function.update_self] at hstore
      injection hstore with hitems hgets
      have hlen := congrArg List.length hgets
      rw [List.length_append, List.length_singleton, List.length_cons] at hlen
      rw [hitems, List.length_cons] at hq
      dsimp only
      omega
  · obtain ⟨hs, -⟩ | ⟨t, items, pid', getQueue, -, hs⟩ :=
      (s.setStore q (s.stores q).items ((s.stores q).getQueue ++ [pid])).triggerGet_cases q
    · rw [hs, setStore_agenda, setStore_stores, Function.update_of_ne hne]
      exact hq
    · rw [hs, schedule_agenda, tally_schedule, setStore_agenda, setStore_agenda, schedule_stores,
        setStore_stores, setStore_stores, Function.update_of_ne hne, Function.update_of_ne hne]
      omega

theorem enqueueLoop (h : Told s) (lid : ℕ) (batch : List ℕ) : Told (enqueueLoop lid batch s) := by
  cases batch with
  | nil => exact h.get _ _
  | cons t rest => exact h.put t rfl

theorem arrivalLoop (h : Told s) (c : Setup G) (i : ℕ) : Told (arrivalLoop c i s) := by
  unfold Behavioral.arrivalLoop
  split_ifs
  · exact (h.record _).put i rfl
  · exact h.schedule _ _

theorem sampleTimeout (h : Told s) (c : Setup G) (e : Ev) : Told (sampleTimeout c e s) := by
  unfold Behavioral.sampleTimeout
  split_ifs <;> exact h.schedule _ _

theorem callbacks (h : Told (s.hold e)) : Told (callbacks c e s) := by
  cases e with
  | arrivalInit => exact (h.of_hold rfl).arrivalLoop c _
  | leaderInit lid => exact (h.of_hold rfl).get _ _
  | followerInit fid => exact (h.of_hold rfl).get _ _
  | depthInit | depthTimeout => exact (((h.of_hold rfl).record _).record _).sampleTimeout c _
  | rateInit => exact (h.of_hold rfl).sampleTimeout c _
  | arrivalPut i =>
    simp only [Behavioral.callbacks, afterArrivalPut]
    split_ifs
    · exact ((h.triggerGet rfl).setRandom _).schedule _ _
    · exact ((h.triggerGet rfl).setRandom _).arrivalLoop c _
  | arrivalTimeout i => exact (h.of_hold rfl).arrivalLoop c _
  | arrivalEnd | samplerFailed => exact h.of_hold rfl
  | leaderGet lid tid =>
    have hless := fillBatch_items_le c.batchEnqueue tid (s.stores .arrivalBuffer).items
    have hset := ((h.of_hold rfl).setRandom (c.dispatchTime s.random).2).setStore .arrivalBuffer hless
    simp only [Behavioral.callbacks, afterLeaderGet]
    split_ifs
    · exact hset.schedule _ _
    · exact (hset.record _).enqueueLoop _ _
  | leaderTimeout lid batch start => exact ((h.of_hold rfl).record _).enqueueLoop _ _
  | execPut lid t rest beforePut => exact ((h.triggerGet rfl).record _).enqueueLoop _ _
  | followerGet fid tid =>
    simp only [Behavioral.callbacks, afterFollowerGet]
    split_ifs
    · exact (((h.of_hold rfl).record _).setRandom _).schedule _ _
    · exact ((((h.of_hold rfl).record _).setRandom _).record _).get _ _
  | followerTimeout fid tid start => exact ((h.of_hold rfl).record _).get _ _
  | rateTimeout lastT lastEnq lastDeq => exact ((h.of_hold rfl).record _).sampleTimeout c _

theorem start (c : Setup G) (random : G) : Told (start c random) :=
  fun _ => .inl (Nat.zero_le _)

theorem advance (h : Told s) (t : ℚ) : Told { s with now := t } := h

end Told

end TaskQueueCoSim.Behavioral
