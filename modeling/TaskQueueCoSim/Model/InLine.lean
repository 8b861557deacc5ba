import TaskQueueCoSim.Model.OneByOne
import TaskQueueCoSim.Model.Tandem

/-!
# Tasks in line (model/behavioral.py)

With one leader, with batches of one task, if the tasks arrive one by one, or if there
are two at most, no task overtakes another on its way to the followers: the tasks are
started in the order of their arrival.
-/

namespace TaskQueueCoSim.Behavioral

open Agenda Sim

variable {G : Type} {c : Setup G} {s : Sim G} {e : Ev}

/-! ## The leaders -/

/-- One for the events that a leader waits for. -/
def Ev.crew : Ev → ℕ
  | .leaderInit _ => 1
  | .leaderGet _ _ => 1
  | .leaderTimeout _ _ _ => 1
  | .execPut _ _ _ _ => 1
  | _ => 0

/-- How many leaders there are. -/
def Sim.crew (s : Sim G) : ℕ := (s.stores .arrivalBuffer).getQueue.length + tally Ev.crew s.agenda

section Crew

variable (s e)

theorem Ev.crew_eq : e.crew = e.staff fun p => p.1 = .arrivalBuffer := by
  cases e <;> rfl

/-- The leaders are the processes that get from the arrival buffer. -/
theorem crew_eq : s.crew = s.staff fun p => p.1 = .arrivalBuffer := by
  have hevents : Ev.crew = Ev.staff fun p => p.1 = .arrivalBuffer := funext Ev.crew_eq
  rw [Sim.crew, Sim.staff, hevents]
  simp

theorem crew_hold : (s.hold e).crew = e.crew + s.crew := by
  rw [crew_eq, staff_hold, ← crew_eq, ← Ev.crew_eq]

/-- No leader is lost and none is added. -/
theorem crew_callbacks : (callbacks c e s).crew = e.crew + s.crew := by
  rw [crew_eq, staff_callbacks, ← crew_eq, ← Ev.crew_eq]

theorem crew_start (random : G) : (start c random).crew = c.numLeaders := by
  simp [Sim.crew, start, tally, Ev.crew, Function.comp_def]

end Crew

/-! ## The line -/

/-- The tasks that a leader has in its hands. -/
def Ev.carried : Ev → List ℕ
  | .leaderTimeout _ batch _ => batch
  | .execPut _ _ rest _ => rest
  | _ => []

/-- The tasks that have not been started, those that are ahead first. -/
def Sim.line (s : Sim G) : List ℕ :=
  (s.station .execQueue).upcoming ++ gather Ev.carried s.agenda ++
    (s.station .arrivalBuffer).upcoming

section Line

variable (q : StoreName)

theorem upcoming_schedule (s : Sim G) (d : ℚ) (he : Role.isGranted (e.role q) = none) :
    ((s.schedule d e).station q).upcoming = (s.station q).upcoming := by
  simp only [Station.State.upcoming, station, schedule_agenda, schedule_stores]
  rw [pending_schedule_none (fun e : Ev => Role.isGranted (e.role q)) he]

theorem upcoming_hold (s : Sim G) (e : Ev) : ((s.hold e).station q).upcoming =
    (Role.isGranted (e.role q)).toList ++ (s.station q).upcoming := by
  rw [station_hold]
  rcases e.role q with _ | _ | _ | tid | tid | tid <;> rfl

theorem upcoming_triggerGet (ho : Ordered s) (q' : StoreName) :
    ((s.triggerGet q').station q).upcoming = (s.station q).upcoming := by
  by_cases h : q = q'
  · subst h
    rw [station_triggerGet q ho (granted_due q ho), Station.give_upcoming]
  · rw [station_triggerGet_ne q ho h]

theorem upcoming_get (ho : Ordered s) (q' : StoreName) (pid : ℕ) :
    ((s.get q' pid).station q).upcoming = (s.station q).upcoming := by
  by_cases h : q = q'
  · subst h
    rw [station_get q ho (granted_due q ho), Station.give_upcoming]
    rfl
  · rw [station_get_ne q ho h]

theorem upcoming_put (s : Sim G) (q' : StoreName) (t : ℕ) (he : Role.isGranted (e.role q) = none) :
    ((s.put q' t e).station q).upcoming =
      (s.station q).upcoming ++ if q = q' then [t] else [] := by
  rw [put, upcoming_schedule q _ _ he]
  by_cases h : q = q'
  · subst h
    simp [Station.State.upcoming, station]
  · rw [station_setStore_ne _ q h, if_neg h, List.append_nil]

theorem carried_triggerGet (s : Sim G) :
    gather Ev.carried (s.triggerGet q).agenda = gather Ev.carried s.agenda := by
  obtain ⟨hs, -⟩ | ⟨t, items, pid, getQueue, -, hs⟩ := s.triggerGet_cases q
  · rw [hs]
  · rw [hs]
    exact gather_schedule_nil (by cases q <;> rfl) _ _

theorem carried_get (s : Sim G) (pid : ℕ) :
    gather Ev.carried (s.get q pid).agenda = gather Ev.carried s.agenda :=
  carried_triggerGet q _

theorem mem_triggerGet {x : ℚ × Ev} (hx : x ∈ (s.triggerGet q).agenda) :
    x ∈ s.agenda ∨ ∃ pid tid, x.2 = q.gotten pid tid := by
  obtain ⟨hs, -⟩ | ⟨t, items, pid, getQueue, -, hs⟩ := s.triggerGet_cases q
  · exact .inl (hs ▸ hx)
  · rw [hs] at hx
    obtain rfl | hx := mem_schedule.1 hx
    · exact .inr ⟨pid, t, rfl⟩
    · exact .inl hx

theorem line_triggerGet (ho : Ordered s) : (s.triggerGet q).line = s.line := by
  rw [line, line, upcoming_triggerGet _ ho, upcoming_triggerGet _ ho, carried_triggerGet]

theorem line_get (ho : Ordered s) (pid : ℕ) : (s.get q pid).line = s.line := by
  rw [line, line, upcoming_get _ ho, upcoming_get _ ho, carried_get]

/-- An event that stands for no task in the line. -/
theorem line_schedule (s : Sim G) (d : ℚ) (he : ∀ q, Role.isGranted (e.role q) = none)
    (hc : e.carried = []) : (s.schedule d e).line = s.line := by
  rw [line, line, upcoming_schedule _ _ _ (he _), upcoming_schedule _ _ _ (he _), schedule_agenda,
    gather_schedule_nil hc]

theorem line_hold (he : ∀ q, Role.isGranted (e.role q) = none) :
    (s.hold e).line = (s.station .execQueue).upcoming ++
      (e.carried ++ gather Ev.carried s.agenda) ++ (s.station .arrivalBuffer).upcoming := by
  rw [line, upcoming_hold, upcoming_hold, he, he, hold_agenda, gather_cons]
  rfl

theorem line_hold_idle (he : ∀ q, Role.isGranted (e.role q) = none) (hc : e.carried = []) :
    (s.hold e).line = s.line := by
  rw [line_hold he, hc]
  rfl

theorem line_sampleTimeout (s : Sim G) (he : ∀ q, Role.isGranted (e.role q) = none)
    (hc : e.carried = []) : (sampleTimeout c e s).line = s.line := by
  unfold sampleTimeout
  split_ifs
  · exact line_schedule s _ (fun q => by cases q <;> rfl) rfl
  · exact line_schedule s _ he hc

/-- A task that arrives is the last. -/
theorem line_arrivalLoop (s : Sim G) (i : ℕ) :
    (arrivalLoop c i s).line = s.line ++ if i < c.numTasks then [i] else [] := by
  unfold arrivalLoop
  split_ifs
  · rw [line, upcoming_put _ _ _ _ rfl, upcoming_put _ _ _ _ rfl, put_agenda, gather_schedule_nil rfl]
    simp [line, station_record]
  · rw [line_schedule s _ (fun q => by cases q <;> rfl) rfl, List.append_nil]

/-- A leader that puts its tasks one by one lets none get ahead of another, unless
there are more in the hands of others that put theirs now. -/
theorem line_enqueueLoop (ho : Ordered s) {lid : ℕ} {batch : List ℕ}
    (h : batch.tail = [] ∨ ∀ x ∈ s.agenda, x.1 ≤ s.now → x.2.carried = []) :
    (enqueueLoop lid batch s).line = (s.station .execQueue).upcoming ++
      (batch ++ gather Ev.carried s.agenda) ++ (s.station .arrivalBuffer).upcoming := by
  cases batch with
  | nil => exact line_get _ ho lid
  | cons t rest =>
    have hcarried : gather Ev.carried
        (Agenda.schedule (s.now + 0) (Ev.execPut lid t rest s.now) s.agenda) =
        rest ++ gather Ev.carried s.agenda := by
      obtain hrest | hnone := h
      · obtain rfl : rest = [] := hrest
        rw [gather_schedule_nil rfl, List.nil_append]
      · exact gather_schedule_first (fun x hx hdue => hnone x hx (by simpa using hdue)) _
    rw [enqueueLoop, line, upcoming_put _ _ _ _ rfl, upcoming_put _ _ _ _ rfl, put_agenda, hcarried]
    simp

end Line

/-! ## Every step -/

/-- The tasks that have not been started stand in line; `n` have arrived and `b` have been
started.  Whoever pays the dispatch time has done so when it has passed. -/
structure InLine (c : Setup G) (d : ℚ) (n b : ℕ) (s : Sim G) : Prop where
  line : s.line = List.range' b (n - b)
  le : b ≤ n
  le_numTasks : n ≤ c.numTasks
  crew : s.crew = c.numLeaders
  dispatched : ∀ x ∈ s.agenda, ∀ lid batch start, x.2 = .leaderTimeout lid batch start →
    0 < d ∧ x.1 ≤ s.now + d
  single : c.batchEnqueue ≤ 1 → Singles s

/-- Leaders do not get ahead of one another: there is one at most, or each takes one task at a
time, or they come back for tasks one by one, or there are two tasks at most. -/
def LeadersInTurn (c : Setup G) (d : ℚ) (s : Sim G) : Prop :=
  c.numLeaders ≤ 1 ∨ c.batchEnqueue ≤ 1 ∨ OneByOne (max d 0) s ∨
    c.numTasks ≤ 2 ∧ Census c.numTasks s

/-- No two leaders come back at a time. -/
theorem OneByOne.apart {δ t : ℚ} (h : OneByOne δ (s.hold e)) (he : Ev.back δ (s.now, e) = some t)
    {x : ℚ × Ev} (hx : x ∈ s.agenda) : Ev.back δ x ≠ some t := by
  intro hback
  have hone := h.one t
  have hle := le_load (fun x => if Ev.back δ x = some t then 1 else 0) hx
  rw [returning_hold, if_pos he] at hone
  rw [if_pos hback] at hle
  change 1 ≤ s.returning δ t at hle
  omega

namespace InLine

variable {d : ℚ} {n b lid tid : ℕ}

/-- A leader that is the only one has all tasks in its hands. -/
theorem alone (h : InLine c d n b (s.hold e)) (hl : c.numLeaders ≤ 1) (he : e.crew = 1) :
    gather Ev.carried s.agenda = [] ∧ (s.station .arrivalBuffer).granted = [] := by
  have hcrew := h.crew
  rw [crew_hold, he, Sim.crew] at hcrew
  have idle : ∀ x ∈ s.agenda, x.2.crew = 0 := by
    intro x hx
    have := le_tally Ev.crew hx
    omega
  have granted : pending (fun e : Ev => Role.isGranted (e.role .arrivalBuffer)) s.agenda = [] := by
    refine pending_eq_nil fun x hx => ?_
    have := idle x hx
    cases hev : x.2 <;> rw [hev] at this <;> first | rfl | cases this
  refine ⟨gather_eq_nil.2 fun x hx => ?_, granted⟩
  have := idle x hx
  cases hev : x.2 <;> rw [hev] at this <;> first | rfl | cases this

/-- The line has all tasks at most. -/
theorem line_length_le (h : InLine c d n b s) : s.line.length ≤ c.numTasks := by
  have hle := h.le_numTasks
  rw [h.line, List.length_range']
  omega

/-- What a leader puts one by one is alone, or nobody else who puts now has tasks in its hands. -/
theorem tail_or_alone (h : InLine c d n b (s.hold e)) (ho : Ordered s)
    (hfifo : LeadersInTurn c d (s.hold e)) (he : Ev.back (max d 0) (s.now, e) = some s.now) :
    e.carried.tail = [] ∨ ∀ x ∈ s.agenda, x.1 ≤ s.now → x.2.carried = [] := by
  obtain hl | hb | hone | ⟨htwo, -⟩ := hfifo
  · have hcrew : e.crew = 1 := by cases e <;> first | rfl | cases he
    exact .inr fun x hx _ => gather_eq_nil.1 (h.alone hl hcrew).1 x hx
  · have hsingle := h.single hb _ (List.mem_cons_self ..)
    refine .inl ?_
    cases e with
    | leaderTimeout lid batch start =>
      obtain ⟨t, rfl⟩ := hsingle
      rfl
    | execPut lid t rest beforePut => rw [show rest = [] from hsingle]; rfl
    | _ => rfl
  · refine .inr fun x hx hdue => ?_
    have hnow : x.1 = s.now := le_antisymm hdue (ho.ahead x hx)
    have happart := hone.apart he hx
    obtain ⟨t, e'⟩ := x
    cases e' with
    | leaderTimeout | execPut => exact absurd (congrArg some hnow) happart
    | _ => rfl
  · -- one of the two tasks is in the hands of another leader
    have hlength := h.line_length_le
    simp only [Sim.line, hold_agenda, gather_cons, List.length_append] at hlength
    rcases Nat.lt_or_ge 1 e.carried.length with hmany | hfew
    · have hnone : gather Ev.carried s.agenda = [] := List.eq_nil_of_length_eq_zero (by omega)
      exact .inr fun x hx _ => gather_eq_nil.1 hnone x hx
    · exact .inl (List.eq_nil_of_length_eq_zero (by rw [List.length_tail]; omega))

/-- The line behind a leader that has got a task and has taken others with it. -/
theorem takes (h : InLine c d n b (s.hold (.leaderGet lid tid))) (ho : Ordered s)
    (hfifo : LeadersInTurn c d (s.hold (.leaderGet lid tid))) {batch items : List ℕ}
    (hfill : fillBatch c.batchEnqueue [tid] (s.stores .arrivalBuffer).items = (batch, items)) :
    batch ++ ((s.station .arrivalBuffer).granted.map Prod.snd ++ items) =
      tid :: (s.station .arrivalBuffer).upcoming := by
  have happend := fillBatch_append c.batchEnqueue [tid] (s.stores .arrivalBuffer).items
  rw [hfill] at happend
  suffices c.batchEnqueue ≤ 1 ∨ (s.stores .arrivalBuffer).items = [] ∨
      (s.station .arrivalBuffer).granted = [] by
    obtain hb | hitems | hgranted := this
    · rw [fillBatch_single hb] at hfill
      obtain ⟨rfl, rfl⟩ := Prod.mk.inj hfill
      rfl
    · rw [hitems] at hfill
      obtain ⟨rfl, rfl⟩ := Prod.mk.inj hfill
      rw [Station.State.upcoming, show (s.station .arrivalBuffer).waiting = [] from hitems]
      rfl
    · rw [Station.State.upcoming, hgranted]
      exact happend
  obtain hl | hb | hone | ⟨htwo, -⟩ := hfifo
  · exact .inr (.inr (h.alone hl rfl).2)
  · exact .inl hb
  · refine .inr (.inr ?_)
    change pending (fun e : Ev => Role.isGranted (e.role .arrivalBuffer)) s.agenda = []
    refine pending_eq_nil fun x hx => ?_
    have happart := hone.apart rfl hx
    have hahead := ho.ahead x hx
    have hprompt := ho.prompt x hx
    obtain ⟨t, e'⟩ := x
    cases e' with
    | leaderGet =>
      obtain rfl : t = s.now := le_antisymm (hprompt trivial) hahead
      exact absurd rfl happart
    | leaderTimeout _ batch => cases batch <;> rfl
    | _ => rfl
  · have hlength := h.line_length_le
    rw [Sim.line, upcoming_hold _ _ (.leaderGet lid tid), upcoming_hold] at hlength
    simp only [Station.State.upcoming, List.length_append, List.length_map, Ev.role, Role.isGranted,
      Option.toList_some, List.length_singleton] at hlength
    right
    rcases Nat.eq_zero_or_pos (s.stores .arrivalBuffer).items.length with hnone | hsome
    · exact .inl (List.eq_nil_of_length_eq_zero hnone)
    · refine .inr (List.eq_nil_of_length_eq_zero ?_)
      change 0 < (s.station .arrivalBuffer).waiting.length at hsome
      omega

/-- Two tasks are not enough for a leader that has got one, another that has one left and the
put of a third. -/
theorem three_tasks (hcensus : Census c.numTasks (s.hold (.leaderGet lid tid))) (htwo : c.numTasks ≤ 2)
    {x : ℚ × Ev} (hx : x ∈ s.agenda) {lid' t r : ℕ} {rest : List ℕ} {beforePut : ℚ}
    (hput : x.2 = .execPut lid' t (r :: rest) beforePut) : False := by
  obtain ⟨m, ha, hl⟩ := hcensus
  have hle := ha.le
  have found : ∀ i k, Ev.weight i k x.2 ≤ (s.hold (.leaderGet lid tid)).found i k := fun i k =>
    (le_tally (Ev.weight i k) (List.mem_cons_of_mem _ hx)).trans (Nat.le_add_left _ _)
  have got : 1 ≤ (s.hold (.leaderGet lid tid)).found tid .buffered := by simp [Ev.weight]
  have left : 1 ≤ (s.hold (.leaderGet lid tid)).found r .batched :=
    (by simp [hput, Ev.weight] : 1 ≤ Ev.weight r .batched x.2).trans (found r .batched)
  have put : 1 ≤ (s.hold (.leaderGet lid tid)).found t .putting :=
    (by simp [hput, Ev.weight] : 1 ≤ Ev.weight t .putting x.2).trans (found t .putting)
  have arrived : ∀ i, 1 ≤ (s.hold (.leaderGet lid tid)).found i .buffered +
      (s.hold (.leaderGet lid tid)).found i .batched + (s.hold (.leaderGet lid tid)).found i .putting →
      i < m := by
    intro i hi
    have placed := (hl i).placed
    have enqueued := (hl i).enqueued
    by_contra hge
    rw [if_neg hge] at placed
    omega
  have once := fun i => (hl i).le_one
  have enqueued := (hl t).enqueued
  have htid := arrived tid (by omega)
  have hr := arrived r (by omega)
  have ht := arrived t (by omega)
  have hne : tid ≠ r ∧ tid ≠ t ∧ r ≠ t := by
    refine ⟨?_, ?_, ?_⟩ <;> rintro rfl
    · have := once tid
      omega
    · have := once tid
      omega
    · have := once r
      omega
  omega

/-- What others have in their hands they put within the time of a dispatch, and before a leader
that pays none has got its tasks. -/
theorem others (h : InLine c d n b (s.hold (.leaderGet lid tid))) (ho : Ordered s)
    (hfifo : LeadersInTurn c d (s.hold (.leaderGet lid tid))) {x : ℚ × Ev} (hx : x ∈ s.agenda)
    (hne : x.2.carried ≠ []) : 0 < d ∧ x.1 ≤ s.now + d := by
  cases hev : x.2 with
  | leaderTimeout => exact h.dispatched x (List.mem_cons_of_mem _ hx) _ _ _ hev
  | execPut lid' t rest beforePut =>
    have hnow : x.1 ≤ s.now := ho.prompt x hx (by rw [hev]; trivial)
    have hpos : 0 < d := by
      by_contra hle
      obtain hl | hb | hone | ⟨htwo, hcensus⟩ := hfifo
      · exact hne (gather_eq_nil.1 (h.alone hl rfl).1 x hx)
      · have hsingle := h.single hb x (List.mem_cons_of_mem _ hx)
        rw [hev] at hsingle hne
        exact hne hsingle
      · refine hone.apart rfl hx ?_
        rw [← Prod.mk.eta (p := x), hev, max_eq_right (not_lt.1 hle), add_zero]
        exact congrArg some (le_antisymm hnow (ho.ahead x hx))
      · cases rest with
        | nil => exact hne (by rw [hev]; rfl)
        | cons r rest => exact three_tasks hcensus htwo hx hev
    exact ⟨hpos, hnow.trans (le_add_of_nonneg_right hpos.le)⟩
  | _ => exact absurd (by rw [hev]; rfl) hne

/-- The events that start no task and bring none let the line stand. -/
theorem line_callbacks (h : InLine c d n b (s.hold e)) (ho : Ordered s)
    (hfifo : LeadersInTurn c d (s.hold e)) (hd : ∀ random, (c.dispatchTime random).1 = d)
    (hnext : e.next = none) (hstarts : ∀ fid tid, e ≠ .followerGet fid tid) :
    (callbacks c e s).line = (s.hold e).line := by
  cases e with
  | arrivalInit | arrivalPut | arrivalTimeout => cases hnext
  | followerGet => exact absurd rfl (hstarts _ _)
  | leaderInit lid =>
    exact (line_get _ ho lid).trans (line_hold_idle (fun q => by cases q <;> rfl) rfl).symm
  | followerInit fid =>
    exact (line_get _ ho fid).trans (line_hold_idle (fun q => by cases q <;> rfl) rfl).symm
  | depthInit | depthTimeout | rateInit | rateTimeout =>
    exact (line_sampleTimeout _ (fun q => by cases q <;> rfl) rfl).trans
      (line_hold_idle (fun q => by cases q <;> rfl) rfl).symm
  | arrivalEnd | samplerFailed => exact (line_hold_idle (fun q => by cases q <;> rfl) rfl).symm
  | leaderGet lid tid =>
    rcases hfill : fillBatch c.batchEnqueue [tid] (s.stores .arrivalBuffer).items with ⟨batch, items⟩
    have htakes := h.takes ho hfifo hfill
    let s' := (s.setRandom (c.dispatchTime s.random).2).setStore .arrivalBuffer items
      (s.stores .arrivalBuffer).getQueue
    have ho' : Ordered s' := (ho.setRandom _).setStore _ _ _
    have hexec : (s'.station .execQueue).upcoming = (s.station .execQueue).upcoming := by
      rw [station_setStore_ne _ _ (by decide)]
      rfl
    have harrival : (s'.station .arrivalBuffer).upcoming =
        (s.station .arrivalBuffer).granted.map Prod.snd ++ items := by
      rw [station_setStore]
      rfl
    have hheld : (s.hold (.leaderGet lid tid)).line = (s.station .execQueue).upcoming ++
        gather Ev.carried s.agenda ++ (tid :: (s.station .arrivalBuffer).upcoming) := by
      rw [Sim.line, upcoming_hold, upcoming_hold]
      rfl
    have later : ∀ x ∈ s'.agenda, s'.now + d < x.1 → x.2.carried = [] := by
      intro x hx hlt
      by_contra hne
      exact absurd (h.others ho hfifo hx hne).2 (not_le.2 hlt)
    simp only [callbacks, afterLeaderGet, hfill, hd]
    rw [hheld, ← htakes]
    split_ifs with hpos
    · change (s'.schedule d (.leaderTimeout lid batch s.now)).line = _
      have hrole : ∀ q, Role.isGranted ((Ev.leaderTimeout lid batch s.now).role q) = none := by
        intro q
        cases q <;> cases batch <;> rfl
      rw [Sim.line, upcoming_schedule _ _ _ (hrole _), upcoming_schedule _ _ _ (hrole _), hexec,
        harrival, schedule_agenda, gather_schedule_last ho'.sorted later]
      simp [s', Ev.carried]
    · have hnone : gather Ev.carried s.agenda = [] := by
        refine gather_eq_nil.2 fun x hx => ?_
        by_contra hne
        exact hpos (h.others ho hfifo hx hne).1
      change (enqueueLoop lid batch (s'.record _)).line = _
      rw [line_enqueueLoop (ho'.record _) (.inr fun x hx _ => gather_eq_nil.1 hnone x hx),
        station_record, station_record, hexec,
        harrival]
      simp [s', hnone]
  | leaderTimeout lid batch start =>
    exact (line_enqueueLoop (ho.record _) (h.tail_or_alone ho hfifo rfl)).trans
      (line_hold (fun q => by cases q <;> cases batch <;> rfl)).symm
  | execPut lid t rest beforePut =>
    have hcarried : rest.tail = [] ∨ ∀ x ∈ (s.triggerGet .execQueue).agenda,
        x.1 ≤ (s.triggerGet .execQueue).now → x.2.carried = [] := by
      refine (h.tail_or_alone ho hfifo rfl).imp_right fun hothers x hx hdue => ?_
      rw [triggerGet_now] at hdue
      obtain hx | ⟨pid, tid, he⟩ := mem_triggerGet _ hx
      · exact hothers x hx hdue
      · rw [he]
        rfl
    refine (line_enqueueLoop ((ho.triggerGet .execQueue).record _) hcarried).trans ?_
    rw [line_hold (fun q => by cases q <;> rfl), station_record, station_record, record_agenda,
      upcoming_triggerGet _ ho, upcoming_triggerGet _ ho, carried_triggerGet]
    rfl
  | followerTimeout fid tid start =>
    exact (line_get _ (ho.record _) fid).trans (line_hold_idle (fun q => by cases q <;> rfl) rfl).symm

/-- A follower starts the first task of the line. -/
theorem line_followerGet (ho : Ordered s) (fid tid : ℕ) :
    (s.hold (.followerGet fid tid)).line = tid :: (callbacks c (.followerGet fid tid) s).line := by
  have hheld : (s.hold (.followerGet fid tid)).line = tid :: s.line := by
    rw [Sim.line, upcoming_hold, upcoming_hold]
    rfl
  rw [hheld]
  simp only [Behavioral.callbacks, afterFollowerGet]
  split_ifs
  · rw [line_schedule _ _ (fun q => by cases q <;> rfl) rfl]
    rfl
  · rw [afterExecution, line_get _ (((ho.record _).setRandom _).record _)]
    rfl

/-- Whoever begins to pay the dispatch time has done so when it has passed. -/
theorem dispatched_callbacks (h : InLine c d n b (s.hold e))
    (hd : ∀ random, (c.dispatchTime random).1 = d) :
    ∀ x ∈ (Behavioral.callbacks c e s).agenda, ∀ lid batch start,
      x.2 = .leaderTimeout lid batch start → 0 < d ∧ x.1 ≤ s.now + d := by
  intro x hx lid batch start hev
  obtain hx | ⟨d', hsched, hdue⟩ := callbacks_agenda hx
  · exact h.dispatched x (List.mem_cons_of_mem _ hx) lid batch start hev
  · rw [hdue]
    generalize x.2 = e' at hsched hev
    cases hsched with
    | leaderTimeout lid tid hpos =>
      rw [hd] at hpos ⊢
      exact ⟨hpos, le_rfl⟩
    | gotten _ q => cases q <;> cases hev
    | sampling _ _ _ _ hs =>
      rw [hev] at hs
      exact hs.elim
    | _ => cases hev

/-- The task that is started is the next one. -/
theorem first (h : InLine c d n b (s.hold (.followerGet lid tid))) (ho : Ordered s) :
    tid = b ∧ b < n ∧
      (Behavioral.callbacks c (.followerGet lid tid) s).line = List.range' (b + 1) (n - (b + 1)) := by
  have hline := h.line
  rw [line_followerGet ho (c := c)] at hline
  have hlt : b < n := by
    by_contra hge
    rw [Nat.sub_eq_zero_of_le (Nat.le_of_not_lt hge)] at hline
    cases hline
  obtain ⟨k, rfl⟩ := Nat.exists_eq_add_of_lt hlt
  have hsub : b + k + 1 - b = k + 1 := by omega
  have hsub' : b + k + 1 - (b + 1) = k := by omega
  rw [hsub, List.range'_succ, List.cons.injEq] at hline
  rw [hsub']
  exact ⟨hline.1, hlt, hline.2⟩

/-- The tasks stay in line. -/
theorem callbacks {w : Draws c} {a : ℕ} (h : InLine c d n b (s.hold e))
    (ha : Arriving w n a b (s.hold e)) (ho : Ordered (s.hold e))
    (hfifo : LeadersInTurn c d (s.hold e)) (hd : ∀ random, (c.dispatchTime random).1 = d) :
    ∃ n' a' b', Arriving w n' a' b' (callbacks c e s) ∧ InLine c d n' b' (callbacks c e s) := by
  have hos := ho.of_hold
  have hcrew : (Behavioral.callbacks c e s).crew = c.numLeaders := by
    rw [crew_callbacks, ← crew_hold, h.crew]
  have other : e.next = none → ∃ b', drawn c e (w.state a b) = w.state a b' ∧
      Ordered (Behavioral.callbacks c e s) ∧
      (Behavioral.callbacks c e s).line = List.range' b' (n - b') ∧ b' ≤ n := by
    intro hnext
    by_cases hget : ∀ fid tid, e ≠ .followerGet fid tid
    · refine ⟨b, w.drawn_eq hnext hget a b, ho.callbacks, ?_, h.le⟩
      rw [h.line_callbacks hos hfifo hd hnext hget, h.line]
    · simp only [not_forall, not_not] at hget
      obtain ⟨fid, tid, rfl⟩ := hget
      obtain ⟨-, hlt, hline⟩ := h.first hos
      exact ⟨b + 1, congrArg Prod.snd (w.taskDuration_eq a b), ho.callbacks, hline, hlt⟩
  have loop : ∀ s' : Sim G, s'.line = List.range' b (n - b) →
      (Behavioral.arrivalLoop c n s').line =
        List.range' b ((if n < c.numTasks then n + 1 else n) - b) := by
    intro s' hline
    rw [line_arrivalLoop, hline]
    split_ifs
    · obtain ⟨k, rfl⟩ := Nat.exists_eq_add_of_le h.le
      have hsub : b + k + 1 - b = k + 1 := by omega
      rw [hsub, Nat.add_sub_cancel_left, List.range'_concat, Nat.one_mul]
    · rw [List.append_nil]
  obtain ⟨n', a', b', ha', -, hline, hle⟩ := ha.callbacks_and
    (J := fun n b s => Ordered s ∧ s.line = List.range' b (n - b) ∧ b ≤ n) other
    (fun he => ⟨hos, (line_hold_idle (fun q => by
      obtain rfl | ⟨i, rfl⟩ := he <;> cases q <;> rfl) (by
      obtain rfl | ⟨i, rfl⟩ := he <;> rfl)).symm.trans h.line, h.le⟩)
    (fun i random he => ⟨(hos.triggerGet _).setRandom _, by
      subst he
      exact (line_triggerGet _ hos).trans
        ((line_hold_idle (fun q => by cases q <;> rfl) rfl).symm.trans h.line), h.le⟩)
    (fun s' _ _ hJ => ⟨hJ.1.arrivalLoop c n, loop s' hJ.2.1, by split_ifs <;> omega⟩)
    (fun s' d i hd hJ => ⟨hJ.1.schedule hd.le False.elim,
      (line_schedule s' d (fun q => by cases q <;> rfl) rfl).trans hJ.2.1, hJ.2.2⟩)
  exact ⟨n', a', b', ha', hline, hle, ha'.le, hcrew,
    by rw [callbacks_now]; exact h.dispatched_callbacks hd, fun hb => (h.single hb).callbacks hb⟩

theorem start (d : ℚ) (random : G) : InLine c d 0 0 (start c random) := by
  have empty : ∀ x ∈ (Behavioral.start c random).agenda, x.2.carried = [] := by
    rintro ⟨t, e⟩ hx
    have hinit := (start_initial c random _ hx).2
    cases e <;> first | rfl | exact hinit.elim
  refine ⟨?_, le_rfl, Nat.zero_le _, crew_start random, fun x hx lid batch start hev => ?_,
    fun _ => .start random⟩
  · rw [Sim.line, station_start, station_start, gather_eq_nil.2 empty]
    rfl
  · have hinit := (start_initial c random x hx).2
    rw [hev] at hinit
    exact hinit.elim

theorem advance (h : InLine c d n b s) {t : ℚ} (ht : s.now ≤ t) :
    InLine c d n b { s with now := t } where
  line := h.line
  le := h.le
  le_numTasks := h.le_numTasks
  crew := h.crew
  dispatched x hx lid batch start hev := by
    obtain ⟨hpos, hdue⟩ := h.dispatched x hx lid batch start hev
    exact ⟨hpos, hdue.trans (add_le_add_left ht d)⟩
  single := h.single

end InLine

end TaskQueueCoSim.Behavioral
