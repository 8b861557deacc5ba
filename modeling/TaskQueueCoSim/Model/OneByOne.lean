import TaskQueueCoSim.Model.Arriving
import TaskQueueCoSim.Model.Presence

/-!
# Tasks that arrive one by one (model/behavioral.py)

If some time passes between any two arrivals, at most one leader gets a task at each moment:
either a leader that has been waiting gets the task that arrives, or the one that comes back for
tasks gets one that has been waiting.  So no two leaders come back at one moment.
-/

namespace TaskQueueCoSim.Behavioral

open Agenda Sim

variable {G : Type} {c : Setup G} {s : Sim G} {e : Ev} {δ : ℚ}

/-! ## What is counted -/

/-- When the leader that an event is for comes back for tasks; `δ` is the time of a dispatch. -/
def Ev.back (δ : ℚ) : ℚ × Ev → Option ℚ
  | (t, .leaderGet _ _) => some (t + δ)
  | (t, .leaderTimeout _ _ _) => some t
  | (t, .execPut _ _ _ _) => some t
  | _ => none

/-- The arrival process resumes with these events. -/
def Ev.arrives : Ev → ℕ
  | .arrivalInit => 1
  | .arrivalTimeout _ => 1
  | _ => 0

def Ev.leaderBegins : Ev → ℕ
  | .leaderInit _ => 1
  | _ => 0

/-- The other events. -/
def Ev.Aside (e : Ev) : Prop :=
  (∀ δ t, Ev.back δ (t, e) = none) ∧ e.arrives = 0 ∧ e.leaderBegins = 0

theorem Ev.of_back {t : ℚ} (h : (Ev.back δ (t, e)).isSome) :
    e.arrives = 0 ∧ e.leaderBegins = 0 := by
  cases e <;> first | exact ⟨rfl, rfl⟩ | cases h

namespace Sim

/-- How many leaders come back at `t`. -/
def returning (δ t : ℚ) (s : Sim G) : ℕ :=
  load (fun x => if Ev.back δ x = some t then 1 else 0) s.agenda

/-- How often the arrival process still resumes at this moment. -/
def coming (s : Sim G) : ℕ := load (fun x => if x.1 ≤ s.now then x.2.arrives else 0) s.agenda

/-- How many leaders wait for a task or are about to. -/
def hungry (s : Sim G) : ℕ :=
  (s.stores .arrivalBuffer).getQueue.length + tally Ev.leaderBegins s.agenda

def buffered (s : Sim G) : ℕ := (s.stores .arrivalBuffer).items.length

end Sim

section Counts

variable (s e) (δ t d : ℚ)

theorem returning_schedule : (s.schedule d e).returning δ t =
    (if Ev.back δ (s.now + d, e) = some t then 1 else 0) + s.returning δ t := by
  simp [returning]

theorem returning_hold : (s.hold e).returning δ t =
    (if Ev.back δ (s.now, e) = some t then 1 else 0) + s.returning δ t := rfl

theorem coming_schedule : (s.schedule d e).coming =
    (if s.now + d ≤ s.now then e.arrives else 0) + s.coming :=
  load_schedule _ _ _ _

theorem coming_hold : (s.hold e).coming = e.arrives + s.coming := by
  rw [coming, hold_agenda, load_cons]
  exact congrArg (· + s.coming) (if_pos le_rfl)

theorem hungry_schedule : (s.schedule d e).hungry = e.leaderBegins + s.hungry := by
  simp only [hungry, schedule_stores, schedule_agenda, tally_schedule]
  omega

theorem hungry_hold : (s.hold e).hungry = e.leaderBegins + s.hungry := by
  simp only [hungry, hold_stores, hold_agenda, tally_cons]
  omega

end Counts

/-! ## Every step -/

/-- At most one leader comes back at a time.  While leaders wait there is at most the task in the
buffer that has just arrived; and once a leader has been granted a task nobody else is at this
moment. -/
structure OneByOne (δ : ℚ) (s : Sim G) : Prop where
  one : ∀ t, s.returning δ t ≤ 1
  soon : ∀ t, s.now + δ < t → s.returning δ t = 0
  single : 0 < s.buffered → 0 < s.hungry → s.buffered = 1 ∧ s.coming = 0
  settled : 0 < s.returning δ (s.now + δ) →
    s.hungry = 0 ∧ s.returning δ s.now = 0 ∨ s.buffered = 0 ∧ s.coming = 0

namespace OneByOne

/-- Only what is counted matters. -/
theorem congr {s' : Sim G} (h : OneByOne δ s) (now : s'.now = s.now)
    (stores : s'.stores .arrivalBuffer = s.stores .arrivalBuffer)
    (returning : ∀ t, s'.returning δ t = s.returning δ t) (coming : s'.coming = s.coming)
    (hungry : s'.hungry = s.hungry) : OneByOne δ s' := by
  have buffered : s'.buffered = s.buffered := by rw [Sim.buffered, stores, Sim.buffered]
  refine ⟨fun t => (returning t).trans_le (h.one t), fun t ht => ?_, ?_, ?_⟩
  · rw [now] at ht
    exact (returning t).trans (h.soon t ht)
  · rw [buffered, hungry, coming]
    exact h.single
  · rw [now, returning, returning, hungry, buffered, coming]
    exact h.settled

/-- The order of the events does not matter. -/
theorem perm {s' : Sim G} (h : OneByOne δ s) (now : s'.now = s.now)
    (stores : s'.stores .arrivalBuffer = s.stores .arrivalBuffer) (hp : s'.agenda.Perm s.agenda) :
    OneByOne δ s' := by
  refine h.congr now stores (fun t => load_perm _ hp) ?_ ?_
  · rw [coming, now]
    exact load_perm _ hp
  · rw [hungry, stores, tally_perm _ hp, hungry]

theorem of_hold (h : OneByOne δ (s.hold e)) (he : e.Aside) : OneByOne δ s := by
  obtain ⟨hback, harrives, hbegins⟩ := he
  refine h.congr rfl rfl (fun t => ?_) ?_ ?_
  · rw [returning_hold, hback, if_neg (by simp), Nat.zero_add]
  · rw [coming_hold, harrives, Nat.zero_add]
  · rw [hungry_hold, hbegins, Nat.zero_add]

theorem schedule (h : OneByOne δ s) (he : e.Aside) (d : ℚ) : OneByOne δ (s.schedule d e) := by
  obtain ⟨hback, harrives, hbegins⟩ := he
  refine h.congr rfl rfl (fun t => ?_) ?_ ?_
  · rw [returning_schedule, hback, if_neg (by simp), Nat.zero_add]
  · rw [coming_schedule, harrives, ite_self, Nat.zero_add]
  · rw [hungry_schedule, hbegins, Nat.zero_add]

/-- A leader waits for one event after another and still comes back when it would. -/
theorem goes_on {e' : Ev} {d : ℚ} (h : OneByOne δ (s.hold e))
    (hback : Ev.back δ (s.now + d, e') = Ev.back δ (s.now, e)) (he : (Ev.back δ (s.now, e)).isSome) :
    OneByOne δ (s.schedule d e') := by
  obtain ⟨harrives, hbegins⟩ := Ev.of_back he
  obtain ⟨harrives', hbegins'⟩ := Ev.of_back (hback ▸ he)
  refine h.congr rfl rfl (fun t => ?_) ?_ ?_
  · rw [returning_schedule, returning_hold, hback]
  · rw [coming_schedule, coming_hold, harrives, harrives', ite_self]
  · rw [hungry_schedule, hungry_hold, hbegins, hbegins']

theorem record (h : OneByOne δ s) (f : Metrics → Metrics) : OneByOne δ (s.record f) :=
  ⟨h.one, h.soon, h.single, h.settled⟩

theorem setRandom (h : OneByOne δ s) (random : G) : OneByOne δ (s.setRandom random) :=
  ⟨h.one, h.soon, h.single, h.settled⟩

/-- The other store makes no difference. -/
theorem setExec (h : OneByOne δ s) (items getQueue : List ℕ) :
    OneByOne δ (s.setStore .execQueue items getQueue) :=
  ⟨h.one, h.soon, h.single, h.settled⟩

theorem triggerExec (h : OneByOne δ s) : OneByOne δ (s.triggerGet .execQueue) := by
  obtain ⟨hs, -⟩ | ⟨t, items, pid, getQueue, -, hs⟩ := s.triggerGet_cases .execQueue
  · rwa [hs]
  · rw [hs]
    exact (h.setExec items getQueue).schedule ⟨fun _ _ => rfl, rfl, rfl⟩ 0

theorem hold_triggerExec (h : OneByOne δ (s.hold e)) :
    OneByOne δ ((s.triggerGet .execQueue).hold e) := by
  obtain ⟨hs, -⟩ | ⟨t, items, pid, getQueue, -, hs⟩ := s.triggerGet_cases .execQueue
  · rwa [hs]
  · rw [hs]
    refine ((h.setExec items getQueue).schedule (e := .followerGet pid t)
      ⟨fun _ _ => rfl, rfl, rfl⟩ 0).perm rfl rfl ?_
    exact ((schedule_perm _ _ _).cons _).trans
      ((List.Perm.swap _ _ _).trans (schedule_perm _ _ _).symm)

theorem getExec (h : OneByOne δ s) (pid : ℕ) : OneByOne δ (s.get .execQueue pid) :=
  (h.setExec _ _).triggerExec

/-- A leader takes tasks out of the buffer. -/
theorem take (h : OneByOne δ s) {items : List ℕ} (hle : items.length ≤ s.buffered) :
    OneByOne δ (s.setStore .arrivalBuffer items (s.stores .arrivalBuffer).getQueue) := by
  let s' := s.setStore .arrivalBuffer items (s.stores .arrivalBuffer).getQueue
  have buffered : s'.buffered = items.length := by simp [s', Sim.buffered]
  have queue : (s'.stores .arrivalBuffer).getQueue = (s.stores .arrivalBuffer).getQueue := by
    simp [s']
  have hungry : s'.hungry = s.hungry := congrArg (·.length + tally Ev.leaderBegins s.agenda) queue
  obtain ⟨one, soon, single, settled⟩ := h
  change OneByOne δ s'
  refine ⟨one, soon, fun hb hh => ?_, fun hr => ?_⟩
  · obtain ⟨hone, hcoming⟩ := single (by omega) (by omega)
    exact ⟨by omega, hcoming⟩
  · exact (settled hr).imp (fun hs => ⟨hungry.trans hs.1, hs.2⟩) fun hs => ⟨by omega, hs.2⟩

/-! ### Leaders that get tasks -/

/-- A trigger gives the first task to the first leader, if there are both. -/
theorem give (one : ∀ t, s.returning δ t ≤ 1) (soon : ∀ t, s.now + δ < t → s.returning δ t = 0)
    (single : 0 < s.buffered → 0 < s.hungry → (s.stores .arrivalBuffer).getQueue = [] →
      s.buffered = 1 ∧ s.coming = 0)
    (granted : 0 < s.buffered → (s.stores .arrivalBuffer).getQueue ≠ [] →
      s.returning δ (s.now + δ) = 0 ∧
        (s.hungry = 1 ∧ s.returning δ s.now = 0 ∧ δ ≠ 0 ∨ s.buffered = 1 ∧ s.coming = 0))
    (settled : 0 < s.returning δ (s.now + δ) →
      s.hungry = 0 ∧ s.returning δ s.now = 0 ∨ s.buffered = 0 ∧ s.coming = 0) :
    OneByOne δ (s.triggerGet .arrivalBuffer) := by
  obtain ⟨hs, hnone⟩ | ⟨tid, items, pid, getQueue, hstore, hs⟩ := s.triggerGet_cases .arrivalBuffer
  · rw [hs]
    obtain hitems | hqueue := hnone
    · have empty : s.buffered = 0 := congrArg List.length hitems
      exact ⟨one, soon, by omega, settled⟩
    · exact ⟨one, soon, fun hb hh => single hb hh hqueue, settled⟩
  · have before : s.buffered = items.length + 1 ∧
        s.hungry = getQueue.length + 1 + tally Ev.leaderBegins s.agenda := by
      simp [buffered, hungry, hstore]
    obtain ⟨hfresh, hgranted⟩ := granted (by omega) (by simp [hstore])
    have returning : ∀ t, (s.triggerGet .arrivalBuffer).returning δ t =
        (if s.now + δ = t then 1 else 0) + s.returning δ t := fun t => by
      rw [hs, returning_schedule]
      simp only [StoreName.gotten, Ev.back, setStore_now, add_zero, Option.some.injEq]
      rfl
    have coming : (s.triggerGet .arrivalBuffer).coming = s.coming := by
      rw [hs, coming_schedule, show (StoreName.arrivalBuffer.gotten pid tid).arrives = 0 from rfl,
        ite_self]
      exact Nat.zero_add _
    have after : (s.triggerGet .arrivalBuffer).buffered = items.length ∧
        (s.triggerGet .arrivalBuffer).hungry =
          getQueue.length + tally Ev.leaderBegins s.agenda := by
      rw [hs]
      refine ⟨by simp [buffered], ?_⟩
      rw [hungry_schedule]
      simp [hungry, StoreName.gotten, Ev.leaderBegins]
    obtain ⟨hbuffered, hhungry⟩ := after
    refine ⟨fun t => ?_, fun t ht => ?_, ?_, ?_⟩
    · rw [returning]
      split_ifs with heq
      · rw [← heq, hfresh]
      · rw [zero_add]
        exact one t
    · rw [triggerGet_now] at ht
      rw [returning, if_neg ht.ne, soon t ht]
    · omega
    · rw [triggerGet_now, returning, returning, if_pos rfl, coming, hbuffered, hhungry]
      intro _
      obtain ⟨hone, hnow, hδ⟩ | hlast := hgranted
      · rw [if_neg (by simpa using hδ), hnow]
        omega
      · omega

/-- The counts with one more leader in the queue. -/
theorem queued (δ : ℚ) (s : Sim G) (pid : ℕ) : ∃ s' : Sim G,
    s.get .arrivalBuffer pid = s'.triggerGet .arrivalBuffer ∧
    s'.now = s.now ∧ (∀ t, s'.returning δ t = s.returning δ t) ∧ s'.coming = s.coming ∧
    s'.hungry = s.hungry + 1 ∧ s'.buffered = s.buffered ∧ (s'.stores .arrivalBuffer).getQueue ≠ [] := by
  refine ⟨_, rfl, rfl, fun _ => rfl, rfl, ?_, ?_, ?_⟩
  · simp only [hungry, setStore_stores, Function.update_self, List.length_append, List.length_singleton,
      setStore_agenda]
    omega
  · simp [buffered]
  · simp

/-- A leader begins. -/
theorem leaderInit {lid : ℕ} (h : OneByOne δ (s.hold (.leaderInit lid))) :
    OneByOne δ (s.get .arrivalBuffer lid) := by
  obtain ⟨s', hget, hnow, returning, coming, hungry, buffered, hqueue⟩ := queued δ s lid
  have before : ∀ t, (s.hold (.leaderInit lid)).returning δ t = s.returning δ t := fun t =>
    (returning_hold ..).trans (Nat.zero_add _)
  have hungryBefore := hungry_hold s (.leaderInit lid)
  have comingBefore := coming_hold s (.leaderInit lid)
  obtain ⟨one, soon, single, settled⟩ := h
  simp only [before, hold_now, show (s.hold (.leaderInit lid)).buffered = s.buffered from rfl]
    at one soon single settled
  simp only [Ev.leaderBegins, Ev.arrives] at hungryBefore comingBefore
  rw [hget]
  refine give ?_ ?_ (fun _ _ hnone => absurd hnone hqueue) ?_ ?_ <;>
    simp only [hnow, returning, coming, hungry, buffered]
  · exact one
  · exact soon
  · intro hb _
    obtain ⟨hone, hcoming⟩ := single hb (by omega)
    have : s.returning δ (s.now + δ) = 0 := by
      by_contra hne
      have := settled (by omega)
      omega
    exact ⟨this, .inr ⟨hone, by omega⟩⟩
  · intro hr
    have := settled hr
    omega

/-- A leader comes back. -/
theorem comes_back (h : OneByOne δ (s.hold e)) (hback : Ev.back δ (s.now, e) = some s.now) (lid : ℕ) :
    OneByOne δ (s.get .arrivalBuffer lid) := by
  obtain ⟨s', hget, hnow, returning, coming, hungry, buffered, hqueue⟩ := queued δ s lid
  obtain ⟨harrives, hbegins⟩ := Ev.of_back (by rw [hback]; rfl)
  have before : ∀ t, (s.hold e).returning δ t = (if s.now = t then 1 else 0) + s.returning δ t :=
    fun t => by simp only [returning_hold, hback, Option.some.injEq]
  have hungryBefore := hungry_hold s e
  have comingBefore := coming_hold s e
  obtain ⟨one, soon, single, settled⟩ := h
  have alone : s.returning δ s.now = 0 := by
    have := one s.now
    rw [before, if_pos rfl] at this
    omega
  simp only [before, hold_now, show (s.hold e).buffered = s.buffered from rfl, if_true]
    at one soon single settled
  rw [hget]
  refine give ?_ ?_ (fun _ _ hnone => absurd hnone hqueue) ?_ ?_ <;>
    simp only [hnow, returning, coming, hungry, buffered]
  · exact fun t => (Nat.le_add_left _ _).trans (one t)
  · exact fun t ht => Nat.eq_zero_of_add_eq_zero_left (soon t ht)
  · intro hb _
    have fresh : ¬0 < (if s.now = s.now + δ then 1 else 0) + s.returning δ (s.now + δ) := by
      intro hr
      have := settled hr
      omega
    split_ifs at fresh with hδ
    · omega
    · refine ⟨by omega, ?_⟩
      rcases Nat.eq_zero_or_pos s.hungry with hnone | hsome
      · exact .inl ⟨by omega, alone, fun hzero => hδ (by rw [hzero, add_zero])⟩
      · obtain ⟨hone, hcoming⟩ := single hb (by omega)
        exact .inr ⟨hone, by omega⟩
  · intro hr
    have := settled (by omega)
    omega

theorem enqueueLoop (h : OneByOne δ (s.hold e)) (hback : Ev.back δ (s.now, e) = some s.now) (lid : ℕ)
    (batch : List ℕ) : OneByOne δ (enqueueLoop lid batch s) := by
  cases batch with
  | nil => exact h.comes_back hback lid
  | cons t rest =>
    refine goes_on (e := e) (h.setExec ((s.stores .execQueue).items ++ [t]) _) ?_ ?_
    · rw [setStore_now, hback, add_zero]
      rfl
    · rw [setStore_now, hback]
      rfl

/-- A task arrives; nobody has been granted one at this moment, or else nobody waits. -/
theorem arrivalLoop (h : OneByOne δ (s.hold e)) (he : e.arrives = 1)
    (hrest : ∀ x ∈ s.agenda, x.2.next = none) (c : Setup G) (i : ℕ) :
    OneByOne δ (arrivalLoop c i s) := by
  have before : (∀ t, (s.hold e).returning δ t = s.returning δ t) ∧
      (s.hold e).hungry = s.hungry := by
    cases e <;> first
      | exact ⟨fun _ => Nat.zero_add _, (hungry_hold ..).trans (Nat.zero_add _)⟩
      | cases he
  have coming : (s.hold e).coming = 1 ∧ s.coming = 0 := by
    have hzero : s.coming = 0 := by
      refine List.sum_eq_zero fun k hk => ?_
      obtain ⟨x, hx, rfl⟩ := List.mem_map.1 hk
      have hnext := hrest x hx
      generalize x.2 = e' at hnext
      cases e' <;> first | exact ite_self _ | cases hnext
    exact ⟨by rw [coming_hold, he, hzero], hzero⟩
  obtain ⟨returning, hungry⟩ := before
  obtain ⟨one, soon, single, settled⟩ := h
  simp only [returning, hungry, coming.1, hold_now,
    show (s.hold e).buffered = s.buffered from rfl] at one soon single settled
  unfold Behavioral.arrivalLoop
  split_ifs
  · let s' := (s.record (.recordArrival i s.now)).setStore .arrivalBuffer
      ((s.stores .arrivalBuffer).items ++ [i]) (s.stores .arrivalBuffer).getQueue
    change OneByOne δ (s'.schedule 0 (.arrivalPut i))
    have returning' : ∀ t, (s'.schedule 0 (.arrivalPut i)).returning δ t = s.returning δ t := fun t =>
      (returning_schedule ..).trans (Nat.zero_add _)
    have hungry' : (s'.schedule 0 (.arrivalPut i)).hungry = s.hungry := by
      rw [hungry_schedule]
      simp [s', Ev.leaderBegins, Sim.hungry]
    have coming' : (s'.schedule 0 (.arrivalPut i)).coming = s.coming := by
      rw [coming_schedule, show (Ev.arrivalPut i).arrives = 0 from rfl, ite_self]
      exact Nat.zero_add _
    have buffered' : (s'.schedule 0 (.arrivalPut i)).buffered = s.buffered + 1 := by
      simp [s', buffered]
    refine ⟨fun t => (returning' t).trans_le (one t), fun t ht => (returning' t).trans (soon t ht),
      ?_, ?_⟩
    · rw [buffered', hungry', coming']
      omega
    · rw [schedule_now, show s'.now = s.now from rfl, returning', returning', hungry']
      intro hr
      have := settled hr
      omega
  · refine schedule (s := s) ⟨one, soon, ?_, ?_⟩ ⟨fun _ _ => rfl, rfl, rfl⟩ 0
    · intro hb hh
      have := single hb hh
      omega
    · intro hr
      have := settled hr
      omega

/-- The put of a task that arrives is processed. -/
theorem afterArrivalPut {i : ℕ} (h : OneByOne δ (s.hold (.arrivalPut i)))
    (hia : ∀ g, 0 < (c.interarrival g).1) :
    OneByOne δ (afterArrivalPut c i (s.triggerGet .arrivalBuffer)) := by
  have returning : ∀ t, (s.hold (.arrivalPut i)).returning δ t = s.returning δ t := fun t =>
    Nat.zero_add _
  have hungry : (s.hold (.arrivalPut i)).hungry = s.hungry :=
    (hungry_hold ..).trans (Nat.zero_add _)
  have coming : (s.hold (.arrivalPut i)).coming = s.coming :=
    (coming_hold ..).trans (Nat.zero_add _)
  obtain ⟨one, soon, single, settled⟩ := h
  simp only [returning, hungry, coming, hold_now,
    show (s.hold (.arrivalPut i)).buffered = s.buffered from rfl] at one soon single settled
  have given : OneByOne δ (s.triggerGet .arrivalBuffer) := by
    refine give one soon (fun hb hh _ => single hb hh) (fun hb hq => ?_) settled
    have hlen := List.length_pos_of_ne_nil hq
    have hh : 0 < s.hungry := Nat.add_pos_left hlen _
    refine ⟨?_, .inr (single hb hh)⟩
    by_contra hne
    have := settled (Nat.pos_of_ne_zero hne)
    omega
  simp only [Behavioral.afterArrivalPut, hia, if_true]
  refine (given.setRandom (c.interarrival (s.triggerGet .arrivalBuffer).random).2).congr rfl rfl
    (fun t => ?_) ?_ ?_
  · exact (returning_schedule ..).trans (Nat.zero_add _)
  · rw [coming_schedule, if_neg (by simpa using hia _), Nat.zero_add]
  · exact (hungry_schedule ..).trans (Nat.zero_add _)

theorem afterLeaderGet {lid tid : ℕ} {d : ℚ} (h : OneByOne δ (s.hold (.leaderGet lid tid)))
    (hd : ∀ g, (c.dispatchTime g).1 = d) (hδ : δ = max d 0) :
    OneByOne δ (afterLeaderGet c lid tid s) := by
  rcases hfill : fillBatch c.batchEnqueue [tid] (s.stores .arrivalBuffer).items with ⟨batch, items⟩
  have hle := fillBatch_items_le c.batchEnqueue tid (s.stores .arrivalBuffer).items
  rw [hfill] at hle
  let s' := (s.setRandom (c.dispatchTime s.random).2).setStore .arrivalBuffer items
    (s.stores .arrivalBuffer).getQueue
  have taken : OneByOne δ (s'.hold (.leaderGet lid tid)) :=
    (h.setRandom (c.dispatchTime s.random).2).take hle
  simp only [Behavioral.afterLeaderGet, hfill, hd]
  split_ifs with hpos
  · rw [max_eq_left hpos.le] at hδ
    subst hδ
    exact goes_on (s := s') taken rfl rfl
  · rw [max_eq_right (not_lt.1 hpos)] at hδ
    refine enqueueLoop (e := .leaderGet lid tid) (s := s'.record _)
      (taken.record (.addLeaderBusy lid (s'.now - s.now))) ?_ lid batch
    rw [hδ]
    exact congrArg some (add_zero _)

theorem afterFollowerGet (h : OneByOne δ s) (c : Setup G) (fid tid : ℕ) :
    OneByOne δ (afterFollowerGet c fid tid s) := by
  simp only [Behavioral.afterFollowerGet]
  split_ifs
  · exact ((h.record _).setRandom _).schedule ⟨fun _ _ => rfl, rfl, rfl⟩ _
  · exact (((h.record _).setRandom _).record _).getExec fid

theorem sampleTimeout (h : OneByOne δ s) (c : Setup G) (he : e.Aside) :
    OneByOne δ (sampleTimeout c e s) := by
  unfold Behavioral.sampleTimeout
  split_ifs
  · exact h.schedule ⟨fun _ _ => rfl, rfl, rfl⟩ _
  · exact h.schedule he _

/-- Every step lets at most one leader come back at a time. -/
theorem callbacks {n : ℕ} {d : ℚ} (h : OneByOne δ (s.hold e)) (ha : Arrivals c.numTasks n (s.hold e))
    (hd : ∀ g, (c.dispatchTime g).1 = d) (hδ : δ = max d 0) (hia : ∀ g, 0 < (c.interarrival g).1) :
    OneByOne δ (callbacks c e s) := by
  cases e with
  | arrivalInit => exact h.arrivalLoop rfl (Arriving.rest_next ha rfl) c 0
  | arrivalTimeout i => exact h.arrivalLoop rfl (Arriving.rest_next ha rfl) c (i + 1)
  | arrivalPut i => exact h.afterArrivalPut hia
  | leaderInit lid => exact h.leaderInit
  | leaderGet lid tid => exact h.afterLeaderGet hd hδ
  | leaderTimeout lid batch start =>
    exact enqueueLoop (e := .leaderTimeout lid batch start) (s := s.record _)
      (h.record (.addLeaderBusy lid (s.now - start))) rfl lid batch
  | execPut lid t rest beforePut =>
    have told := h.hold_triggerExec
    exact enqueueLoop (e := .execPut lid t rest beforePut) (s := (s.triggerGet .execQueue).record _)
      (told.record (.recordPut lid t beforePut (s.triggerGet .execQueue).now)) rfl lid rest
  | followerInit fid => exact (h.of_hold ⟨fun _ _ => rfl, rfl, rfl⟩).getExec fid
  | followerGet fid tid => exact (h.of_hold ⟨fun _ _ => rfl, rfl, rfl⟩).afterFollowerGet c fid tid
  | followerTimeout fid tid start =>
    exact ((h.of_hold ⟨fun _ _ => rfl, rfl, rfl⟩).record _).getExec fid
  | depthInit | depthTimeout =>
    have hs := h.of_hold ⟨fun _ _ => rfl, rfl, rfl⟩
    exact ((hs.record _).record _).sampleTimeout c ⟨fun _ _ => rfl, rfl, rfl⟩
  | rateInit =>
    exact (h.of_hold ⟨fun _ _ => rfl, rfl, rfl⟩).sampleTimeout c ⟨fun _ _ => rfl, rfl, rfl⟩
  | rateTimeout lastT lastEnq lastDeq =>
    have hs := h.of_hold ⟨fun _ _ => rfl, rfl, rfl⟩
    exact (hs.record _).sampleTimeout c ⟨fun _ _ => rfl, rfl, rfl⟩
  | arrivalEnd | samplerFailed => exact h.of_hold ⟨fun _ _ => rfl, rfl, rfl⟩

/-- Time goes on when all puts have been processed. -/
theorem advance {t : ℚ} {rest : List (ℚ × Ev)} (h : OneByOne δ s) (ho : Ordered s) (htold : Told s)
    (hagenda : s.agenda = (t, e) :: rest) : OneByOne δ { s with now := t } := by
  obtain heq | hlt := (ho.now_le hagenda).eq_or_lt
  · exact heq ▸ h
  have done : ∀ w : Ev → ℕ, (∀ e, 0 < w e → e.Prompt) → tally w s.agenda = 0 := by
    intro w hw
    refine tally_eq_zero fun x hx => Nat.eq_zero_of_not_pos fun hpos => ?_
    exact absurd (hlt.trans_le (ho.head_le hagenda x hx)) (not_lt.2 (ho.prompt x hx (hw _ hpos)))
  have begins : tally Ev.leaderBegins s.agenda = 0 := done _ fun e he => by cases e <;> trivial
  have puts : tally (Ev.untold .arrivalBuffer) s.agenda = 0 :=
    done _ fun e he => by cases e <;> trivial
  have later : s.now + δ < t + δ := add_lt_add_left hlt δ
  refine ⟨h.one, fun u hu => h.soon u (later.trans hu), fun hb hh => ?_, fun hr => ?_⟩
  · change 0 < (s.stores .arrivalBuffer).getQueue.length + tally Ev.leaderBegins s.agenda at hh
    change 0 < (s.stores .arrivalBuffer).items.length at hb
    have := htold .arrivalBuffer
    omega
  · have := h.soon (t + δ) later
    change 0 < s.returning δ (t + δ) at hr
    omega

theorem start (c : Setup G) (random : G) : OneByOne δ (start c random) := by
  have returning : ∀ t, (Behavioral.start c random).returning δ t = 0 := by
    intro t
    refine List.sum_eq_zero fun k hk => ?_
    obtain ⟨x, hx, rfl⟩ := List.mem_map.1 hk
    have hinit := (start_initial c random x hx).2
    obtain ⟨t', e⟩ := x
    cases e <;> first | rfl | exact hinit.elim
  have buffered : (Behavioral.start c random).buffered = 0 := rfl
  exact ⟨fun t => by rw [returning]; exact Nat.zero_le 1, fun t _ => returning t, by omega,
    by rw [returning]; omega⟩

end OneByOne

end TaskQueueCoSim.Behavioral
