import TaskQueueCoSim.Model.QueueOrder

/-!
# Tasks that are all there at once (model/behavioral.py)

If no time passes between the arrivals, the leaders take turns at the moments that are one
dispatch time apart.  What they do at each of these moments does not depend on how far apart
these are (`Crew`), so neither does the order in which they put the tasks.
-/

namespace TaskQueueCoSim.Behavioral

open Agenda Sim

/-! ## The leaders without the times -/

/-- What a leader or the arrival process does next. -/
inductive Turn where
  | arrivalInit
  | arrivalPut (i : ℕ)
  | leaderInit (lid : ℕ)
  | leaderGet (lid tid : ℕ)
  | dispatched (lid : ℕ) (batch : List ℕ)
  | execPut (lid : ℕ) (rest : List ℕ)

/-- The turns at this moment, those one dispatch time later, what the arrival buffer holds, and
the tasks that have been put into the execution queue. -/
structure Crew where
  turns : List Turn
  later : List Turn
  buffer : Store
  puts : List ℕ

namespace Crew

def start (numLeaders : ℕ) : Crew where
  turns := .arrivalInit :: (List.range numLeaders).map .leaderInit
  later := []
  buffer := ⟨[], []⟩
  puts := []

def give (k : Crew) : Crew :=
  match k.buffer with
  | ⟨tid :: items, lid :: getQueue⟩ =>
    { k with buffer := ⟨items, getQueue⟩, turns := k.turns ++ [.leaderGet lid tid] }
  | _ => k

def get (lid : ℕ) (k : Crew) : Crew :=
  { k with buffer := ⟨k.buffer.items, k.buffer.getQueue ++ [lid]⟩ }.give

def arrive (numTasks i : ℕ) (k : Crew) : Crew :=
  if i < numTasks then
    { k with buffer := ⟨k.buffer.items ++ [i], k.buffer.getQueue⟩, turns := k.turns ++ [.arrivalPut i] }
  else k

def enqueue (lid : ℕ) : List ℕ → Crew → Crew
  | [], k => k.get lid
  | t :: rest, k => { k with turns := k.turns ++ [.execPut lid rest], puts := k.puts ++ [t] }

/-- One turn. -/
def take (numTasks : ℕ) (batchEnqueue : ℤ) : Turn → Crew → Crew
  | .arrivalInit, k => k.arrive numTasks 0
  | .arrivalPut i, k => k.give.arrive numTasks (i + 1)
  | .leaderInit lid, k => k.get lid
  | .leaderGet lid tid, k =>
    let (batch, items) := fillBatch batchEnqueue [tid] k.buffer.items
    { k with buffer := ⟨items, k.buffer.getQueue⟩, later := k.later ++ [.dispatched lid batch] }
  | .dispatched lid batch, k => k.enqueue lid batch
  | .execPut lid rest, k => k.enqueue lid rest

/-- The next turn, or the next moment. -/
def step (numTasks : ℕ) (batchEnqueue : ℤ) (k : Crew) : Crew :=
  match k.turns with
  | [] => { k with turns := k.later, later := [] }
  | turn :: turns => { k with turns := turns }.take numTasks batchEnqueue turn

theorem puts_prefix (numTasks : ℕ) (batchEnqueue : ℤ) (k : Crew) :
    k.puts <+: (k.step numTasks batchEnqueue).puts := by
  have give : ∀ k : Crew, k.give.puts = k.puts := fun k => by unfold give; split <;> rfl
  have arrive : ∀ (k : Crew) i, (k.arrive numTasks i).puts = k.puts := fun k i => by
    unfold arrive; split <;> rfl
  have enqueue : ∀ (k : Crew) lid batch, k.puts <+: (k.enqueue lid batch).puts := fun k lid batch => by
    cases batch with
    | nil => exact (give _).symm ▸ List.prefix_rfl
    | cons t rest => exact List.prefix_append _ _
  unfold step
  split
  · exact List.prefix_rfl
  · rename_i turn turns _
    cases turn with
    | arrivalInit => exact (arrive ..).symm ▸ List.prefix_rfl
    | arrivalPut i => exact ((arrive ..).trans (give _)).symm ▸ List.prefix_rfl
    | leaderInit lid => exact (give _).symm ▸ List.prefix_rfl
    | leaderGet lid tid => exact List.prefix_rfl
    | dispatched lid batch | execPut lid batch => exact enqueue { k with turns := turns } lid batch

/-- What the leaders have put after `m` turns. -/
def putsAfter (numTasks numLeaders : ℕ) (batchEnqueue : ℤ) (m : ℕ) : List ℕ :=
  ((step numTasks batchEnqueue)^[m] (start numLeaders)).puts

section Rank

variable (numTasks numLeaders : ℕ) (batchEnqueue : ℤ)

theorem putsAfter_prefix {m m' : ℕ} (h : m ≤ m') :
    putsAfter numTasks numLeaders batchEnqueue m <+: putsAfter numTasks numLeaders batchEnqueue m' := by
  induction m', h using Nat.le_induction with
  | base => exact List.prefix_rfl
  | succ m' _ ih =>
    refine ih.trans ?_
    rw [putsAfter, putsAfter, Function.iterate_succ_apply']
    exact puts_prefix ..

open Classical in
/-- How many tasks are put before one. -/
noncomputable def rank (tid : ℕ) : ℕ :=
  if h : ∃ m, tid ∈ putsAfter numTasks numLeaders batchEnqueue m then
    (putsAfter numTasks numLeaders batchEnqueue (Nat.find h)).idxOf tid
  else 0

variable {numTasks numLeaders batchEnqueue}

/-- It is the same at any time after the put. -/
theorem rank_eq {m tid : ℕ} {log rest : List ℕ}
    (h : putsAfter numTasks numLeaders batchEnqueue m = log ++ tid :: rest) (hlog : tid ∉ log) :
    rank numTasks numLeaders batchEnqueue tid = log.length := by
  classical
  have hput : ∃ m, tid ∈ putsAfter numTasks numLeaders batchEnqueue m := ⟨m, by simp [h]⟩
  have hmin : Nat.find hput ≤ m := Nat.find_min' hput (by simp [h])
  obtain ⟨new, hnew⟩ := putsAfter_prefix numTasks numLeaders batchEnqueue hmin
  calc rank numTasks numLeaders batchEnqueue tid
      = (putsAfter numTasks numLeaders batchEnqueue (Nat.find hput)).idxOf tid := dif_pos hput
    _ = (log ++ tid :: rest).idxOf tid := by
      rw [← h, ← hnew, List.idxOf_append_of_mem (Nat.find_spec hput)]
    _ = log.length := by rw [List.idxOf_append_of_notMem hlog, List.idxOf_cons_self, add_zero]

end Rank

end Crew

/-! ## The runs follow them -/

variable {G : Type} {c : Setup G} {s : Sim G} {e : Ev} {d τ : ℚ} {log : List ℕ} {k : Crew}

def Ev.turn : Ev → Option Turn
  | .arrivalInit => some .arrivalInit
  | .arrivalPut i => some (.arrivalPut i)
  | .leaderInit lid => some (.leaderInit lid)
  | .leaderGet lid tid => some (.leaderGet lid tid)
  | .leaderTimeout lid batch _ => some (.dispatched lid batch)
  | .execPut lid _ rest _ => some (.execPut lid rest)
  | _ => none

/-- A state in which the leaders have taken their turns until the moment `τ`; the tasks in `log`
have been started. -/
structure Follows (d τ : ℚ) (log : List ℕ) (s : Sim G) (k : Crew) : Prop where
  turns : pending Ev.turn s.agenda = k.turns.map (τ, ·) ++ k.later.map (τ + d, ·)
  buffer : s.stores .arrivalBuffer = k.buffer
  puts : log ++ (s.station .execQueue).upcoming = k.puts

namespace Follows

theorem record (h : Follows d τ log s k) (f : Metrics → Metrics) : Follows d τ log (s.record f) k :=
  ⟨h.turns, h.buffer, h.puts⟩

theorem setRandom (h : Follows d τ log s k) (random : G) : Follows d τ log (s.setRandom random) k :=
  ⟨h.turns, h.buffer, h.puts⟩

/-- An event that is nobody's turn. -/
theorem schedule_other (h : Follows d τ log s k) (he : e.turn = none)
    (hq : Role.isGranted (e.role .execQueue) = none) (delay : ℚ) :
    Follows d τ log (s.schedule delay e) k where
  turns := (pending_schedule_none _ he _ _).trans h.turns
  buffer := h.buffer
  puts := by rw [upcoming_schedule _ _ _ hq, h.puts]

/-- A turn at this moment comes behind the others. -/
theorem schedule_turn (h : Follows d τ log s k) (hτ : s.now = τ) (hd : 0 < d) (ho : Ordered s)
    {turn : Turn} (he : e.turn = some turn) (hq : Role.isGranted (e.role .execQueue) = none) :
    Follows d τ log (s.schedule 0 e) { k with turns := k.turns ++ [turn] } where
  turns := by
    subst hτ
    have hnow : ∀ x ∈ k.turns.map (s.now, ·), x.1 ≤ s.now + 0 := by simp
    have hlater : ∀ x ∈ k.later.map (s.now + d, ·), s.now + 0 < x.1 := by simpa using fun _ _ => hd
    rw [schedule_agenda, pending_schedule_between _ he ho.sorted h.turns hnow hlater]
    simp
  buffer := h.buffer
  puts := by rw [upcoming_schedule _ _ _ hq, h.puts]

/-- A turn after the dispatch comes last of all. -/
theorem schedule_later (h : Follows d τ log s k) (hτ : s.now = τ) (hd : 0 < d) (ho : Ordered s)
    {turn : Turn} (he : e.turn = some turn) (hq : Role.isGranted (e.role .execQueue) = none) :
    Follows d τ log (s.schedule d e) { k with later := k.later ++ [turn] } where
  turns := by
    subst hτ
    have hall : ∀ x ∈ k.turns.map (s.now, ·) ++ k.later.map (s.now + d, ·), x.1 ≤ s.now + d := by
      intro x hx
      obtain hx | hx := List.mem_append.1 hx <;> obtain ⟨turn, -, rfl⟩ := List.mem_map.1 hx
      · exact le_add_of_nonneg_right hd.le
      · exact le_rfl
    have hnone : ∀ x ∈ ([] : List (ℚ × Turn)), s.now + d < x.1 := nofun
    rw [schedule_agenda, pending_schedule_between _ he ho.sorted
      (h.turns.trans (List.append_nil _).symm) hall hnone]
    simp
  buffer := h.buffer
  puts := by rw [upcoming_schedule _ _ _ hq, h.puts]

theorem setBuffer (h : Follows d τ log s k) (items getQueue : List ℕ) :
    Follows d τ log (s.setStore .arrivalBuffer items getQueue)
      { k with buffer := ⟨items, getQueue⟩ } where
  turns := h.turns
  buffer := by simp
  puts := by rw [station_setStore_ne _ _ (by decide), h.puts]

theorem triggerGet (h : Follows d τ log s k) (hτ : s.now = τ) (hd : 0 < d) (ho : Ordered s) :
    Follows d τ log (s.triggerGet .arrivalBuffer) k.give := by
  unfold Sim.triggerGet Crew.give
  rw [h.buffer]
  rcases k.buffer with ⟨_ | ⟨tid, items⟩, _ | ⟨lid, getQueue⟩⟩
  · exact h
  · exact h
  · exact h
  · exact (h.setBuffer items getQueue).schedule_turn (e := .leaderGet lid tid) hτ hd
      (ho.setStore _ _ _) rfl rfl

theorem get (h : Follows d τ log s k) (hτ : s.now = τ) (hd : 0 < d) (ho : Ordered s) (lid : ℕ) :
    Follows d τ log (s.get .arrivalBuffer lid) (k.get lid) := by
  rw [Sim.get, h.buffer]
  exact (h.setBuffer _ _).triggerGet hτ hd (ho.setStore _ _ _)

theorem enqueueLoop (h : Follows d τ log s k) (hτ : s.now = τ) (hd : 0 < d) (ho : Ordered s) (lid : ℕ)
    (batch : List ℕ) : Follows d τ log (enqueueLoop lid batch s) (k.enqueue lid batch) := by
  cases batch with
  | nil => exact h.get hτ hd ho lid
  | cons t rest =>
    have put : Follows d τ log (s.setStore .execQueue ((s.stores .execQueue).items ++ [t])
        (s.stores .execQueue).getQueue) { k with puts := k.puts ++ [t] } :=
      ⟨h.turns, h.buffer, by simp [← h.puts, station, Station.State.upcoming]⟩
    exact put.schedule_turn (e := .execPut lid t rest s.now) hτ hd (ho.setStore _ _ _) rfl rfl

theorem arrivalLoop (h : Follows d τ log s k) (hτ : s.now = τ) (hd : 0 < d) (ho : Ordered s) (i : ℕ) :
    Follows d τ log (arrivalLoop c i s) (k.arrive c.numTasks i) := by
  unfold Behavioral.arrivalLoop Crew.arrive
  split_ifs
  · rw [Sim.put, record_stores, h.buffer]
    exact ((h.record _).setBuffer _ _).schedule_turn (e := .arrivalPut i) hτ hd
      ((ho.record _).setStore _ _ _) rfl rfl
  · exact h.schedule_other rfl rfl 0

/-- A leader takes its tasks and pays the dispatch time. -/
theorem afterLeaderGet (h : Follows d τ log s k) (hτ : s.now = τ) (hd : 0 < d) (ho : Ordered s)
    (lid tid : ℕ) (hdispatch : ∀ g, (c.dispatchTime g).1 = d) : Follows d τ log (afterLeaderGet c lid tid s)
      (k.take c.numTasks c.batchEnqueue (.leaderGet lid tid)) := by
  rcases hfill : fillBatch c.batchEnqueue [tid] k.buffer.items with ⟨batch, items⟩
  simp only [Behavioral.afterLeaderGet, Crew.take, hdispatch, if_pos hd, h.buffer, hfill]
  let s' := (s.setRandom (c.dispatchTime s.random).2).setStore .arrivalBuffer items k.buffer.getQueue
  have taken : Follows d τ log s' { k with buffer := ⟨items, k.buffer.getQueue⟩ } :=
    (h.setRandom _).setBuffer items k.buffer.getQueue
  exact taken.schedule_later (e := .leaderTimeout lid batch s.now) hτ hd
    ((ho.setRandom _).setStore _ _ _) rfl (by cases batch <;> rfl)

/-- The store of the followers is not what the leaders look at. -/
theorem triggerExec (h : Follows d τ log s k) (ho : Ordered s) :
    Follows d τ log (s.triggerGet .execQueue) k := by
  have puts : log ++ ((s.triggerGet .execQueue).station .execQueue).upcoming = k.puts := by
    rw [upcoming_triggerGet _ ho, h.puts]
  obtain ⟨hs, -⟩ | ⟨t, items, pid, getQueue, -, hs⟩ := s.triggerGet_cases .execQueue
  · rwa [hs]
  · rw [hs] at puts ⊢
    exact ⟨(pending_schedule_none _ rfl _ _).trans h.turns, h.buffer, puts⟩

theorem getExec (h : Follows d τ log s k) (ho : Ordered s) (fid : ℕ) :
    Follows d τ log (s.get .execQueue fid) k := by
  have queued : Follows d τ log (s.setStore .execQueue (s.stores .execQueue).items
      ((s.stores .execQueue).getQueue ++ [fid])) k :=
    ⟨h.turns, h.buffer, by rw [station_setStore]; exact h.puts⟩
  exact queued.triggerExec (ho.setStore _ _ _)

theorem sampleTimeout (h : Follows d τ log s k) (he : e.turn = none)
    (hq : Role.isGranted (e.role .execQueue) = none) : Follows d τ log (sampleTimeout c e s) k := by
  unfold Behavioral.sampleTimeout
  split_ifs
  · exact h.schedule_other rfl rfl _
  · exact h.schedule_other he hq _

/-- What is nobody's turn leaves the leaders where they are. -/
theorem callbacks_other (h : Follows d τ log (s.hold e) k) (ho : Ordered s) (he : e.turn = none)
    (hne : ∀ i, e ≠ .arrivalTimeout i) :
    Follows d τ (log ++ e.starts.toList) (callbacks c e s) k := by
  have started : e.starts = Role.isGranted (e.role .execQueue) := by
    cases e with
    | leaderTimeout _ batch => cases batch <;> rfl
    | _ => rfl
  have hs : Follows d τ (log ++ e.starts.toList) s k := by
    refine ⟨(pending_cons_none (x := (s.now, e)) he _).symm.trans h.turns, h.buffer, ?_⟩
    rw [← h.puts, upcoming_hold, started, List.append_assoc]
  cases e with
  | arrivalInit | arrivalPut | leaderInit | leaderGet | leaderTimeout | execPut => cases he
  | arrivalTimeout i => exact absurd rfl (hne i)
  | followerInit fid => exact hs.getExec ho fid
  | followerGet fid tid =>
    simp only [Behavioral.callbacks, afterFollowerGet]
    split_ifs
    · exact ((hs.record _).setRandom _).schedule_other rfl rfl _
    · exact (((hs.record _).setRandom _).record _).getExec (((ho.record _).setRandom _).record _) fid
  | followerTimeout fid tid start => exact (hs.record _).getExec (ho.record _) fid
  | depthInit | depthTimeout => exact ((hs.record _).record _).sampleTimeout rfl rfl
  | rateInit => exact hs.sampleTimeout rfl rfl
  | rateTimeout lastT lastEnq lastDeq => exact (hs.record _).sampleTimeout rfl rfl
  | arrivalEnd | samplerFailed => exact hs

/-- A turn. -/
theorem callbacks_turn {turn : Turn} {turns : List Turn} (h : Follows d s.now log (s.hold e) k)
    (hturns : k.turns = turn :: turns) (he : e.turn = some turn) (hd : 0 < d) (ho : Ordered s)
    (hdispatch : ∀ g, (c.dispatchTime g).1 = d) (hia : ∀ g, (c.interarrival g).1 ≤ 0) :
    Follows d s.now (log ++ e.starts.toList) (callbacks c e s)
      (k.step c.numTasks c.batchEnqueue) := by
  have hs : Follows d s.now log s { k with turns := turns } := by
    refine ⟨?_, h.buffer, ?_⟩
    · have hpending := h.turns
      rw [hold_agenda, pending_cons_some (x := (s.now, e)) he, hturns] at hpending
      exact (List.cons.inj hpending).2
    · rw [← h.puts, upcoming_hold]
      cases e with
      | leaderTimeout _ batch => cases batch <;> rfl
      | followerGet => cases he
      | _ => rfl
  have nostart : e.starts = none := by cases e <;> first | rfl | cases he
  rw [Crew.step, hturns, nostart, Option.toList_none, List.append_nil]
  cases e with
  | arrivalInit =>
    cases he
    exact hs.arrivalLoop rfl hd ho 0
  | arrivalPut i =>
    cases he
    simp only [Behavioral.callbacks, Behavioral.afterArrivalPut, if_neg (not_lt.2 (hia _))]
    exact ((hs.triggerGet rfl hd ho).setRandom
      (c.interarrival (s.triggerGet .arrivalBuffer).random).2).arrivalLoop (c := c) (triggerGet_now ..)
      hd ((ho.triggerGet _).setRandom _) (i + 1)
  | leaderInit lid =>
    cases he
    exact hs.get rfl hd ho lid
  | leaderGet lid tid =>
    cases he
    exact hs.afterLeaderGet rfl hd ho lid tid hdispatch
  | leaderTimeout lid batch start =>
    cases he
    exact (hs.record _).enqueueLoop rfl hd (ho.record _) lid batch
  | execPut lid t rest beforePut =>
    cases he
    exact ((hs.triggerExec ho).record _).enqueueLoop (triggerGet_now ..) hd
      ((ho.triggerGet _).record _) lid rest
  | _ => cases he

/-- Every event is a turn of the crew, or none; a turn may be the first at its moment. -/
theorem callbacks (h : Follows d τ log (s.hold e) k) (hd : 0 < d) (ho : Ordered s)
    (hdispatch : ∀ g, (c.dispatchTime g).1 = d) (hia : ∀ g, (c.interarrival g).1 ≤ 0)
    (hne : ∀ i, e ≠ .arrivalTimeout i) : ∃ m τ', Follows d τ' (log ++ e.starts.toList)
      (callbacks c e s) ((Crew.step c.numTasks c.batchEnqueue)^[m] k) := by
  cases he : e.turn with
  | none => exact ⟨0, τ, h.callbacks_other ho he hne⟩
  | some turn =>
    have hpending := h.turns
    rw [hold_agenda, pending_cons_some (x := (s.now, e)) he] at hpending
    cases hturns : k.turns with
    | cons turn' turns =>
      rw [hturns] at hpending
      obtain ⟨hhead, -⟩ := List.cons.inj hpending
      obtain ⟨rfl, rfl⟩ := Prod.mk.inj hhead
      exact ⟨1, s.now, h.callbacks_turn hturns he hd ho hdispatch hia⟩
    | nil =>
      cases hlater : k.later with
      | nil =>
        rw [hturns, hlater] at hpending
        cases hpending
      | cons turn' later =>
        rw [hturns, hlater] at hpending
        obtain ⟨hhead, -⟩ := List.cons.inj hpending
        obtain ⟨hnow, rfl⟩ := Prod.mk.inj hhead
        have hstep : k.step c.numTasks c.batchEnqueue = { k with turns := k.later, later := [] } := by
          rw [Crew.step, hturns]
        have next : Follows d s.now log (s.hold e) (k.step c.numTasks c.batchEnqueue) := by
          rw [hstep]
          refine ⟨?_, h.buffer, h.puts⟩
          have hall := h.turns
          rw [hturns] at hall
          rw [hall, show s.now = τ + d from hnow]
          simp
        have hfirst : (k.step c.numTasks c.batchEnqueue).turns = turn :: later := by
          rw [hstep]
          exact hlater
        exact ⟨2, s.now, next.callbacks_turn hfirst he hd ho hdispatch hia⟩

theorem start (c : Setup G) (d : ℚ) (random : G) :
    Follows d 0 [] (start c random) (.start c.numLeaders) := by
  refine ⟨?_, rfl, ?_⟩
  · simp [Behavioral.start, Crew.start, pending, Ev.turn, Function.comp_def]
  · rw [station_start]
    rfl

end Follows

end TaskQueueCoSim.Behavioral
