import TaskQueueCoSim.Model.Arriving
import TaskQueueCoSim.Model.Stations

/-!
# Leaders and followers in tandem (model/behavioral.py)

With batches of one task and times that do not depend on the task, both stations
serve first come, first served: the tasks are enqueued, started and finished
exactly when the schedules of the two stations say.
-/

namespace TaskQueueCoSim.Behavioral

open Agenda Sim

variable {G : Type} {c : Setup G}

namespace Draws

variable (w : Draws c) (D : ℚ)

/-- When a task is enqueued. -/
def enqueue : ℕ → ℚ := Station.finish c.numLeaders w.arrive (max w.dispatchTime 0)

/-- When a task is started. -/
def startExec : ℕ → ℚ := Station.begins c.numFollowers w.enqueue (max D 0)

/-- When a task is finished. -/
def finish : ℕ → ℚ := Station.finish c.numFollowers w.enqueue (max D 0)

theorem enqueue_mono : Monotone w.enqueue := Station.finish_mono w.arrive_mono

/-- When the schedules have a time of a task. -/
def time : Stamp → ℕ → ℚ
  | .arrival => w.arrive
  | .enqueued => w.enqueue
  | .startExec => w.startExec D
  | .finish => w.finish D

end Draws

/-- The stations keep to their schedules; the followers' tasks are those that the
leaders are done with. -/
def Stations (w : Draws c) (D : ℚ) (n : ℕ) (s : Sim G) : Prop :=
  ∃ kl kf : Station.Counts,
    Station.Inv c.numLeaders w.arrive (max w.dispatchTime 0) (s.station .arrivalBuffer) kl ∧
    Station.Inv c.numFollowers w.enqueue (max D 0) (s.station .execQueue) kf ∧
    kl.entered = n ∧ kf.entered = kl.served ∧ kf.back = kf.served

namespace Stations

variable {w : Draws c} {D : ℚ} {n : ℕ} {s : Sim G} {e : Ev}

/-- Only what the stations are counts. -/
theorem congr (h : Stations w D n s) {s' : Sim G} (hs : ∀ q, s'.station q = s.station q) :
    Stations w D n s' := by
  simpa only [Stations, hs] using h

theorem hold_congr {s' : Sim G} (h : Stations w D n (s.hold e)) (hnow : s'.now = s.now)
    (hs : ∀ q, s'.station q = s.station q) : Stations w D n (s'.hold e) :=
  h.congr fun q => by rw [station_hold, station_hold, hnow, hs]

theorem hold_record (h : Stations w D n (s.hold e)) (f : Metrics → Metrics) :
    Stations w D n ((s.record f).hold e) :=
  h.hold_congr rfl fun _ => rfl

/-- A leader that takes nothing else from the items leaves the stations as they are. -/
theorem hold_leaderGet (h : Stations w D n (s.hold e)) (random : G) :
    Stations w D n (((s.setRandom random).setStore .arrivalBuffer
      (s.stores .arrivalBuffer).items (s.stores .arrivalBuffer).getQueue).hold e) := by
  refine h.hold_congr rfl fun q => ?_
  cases q with
  | arrivalBuffer => exact station_setStore _ _ _ _
  | execQueue => exact station_setStore_ne _ _ (by decide) _ _

/-- An event that has no role. -/
theorem of_hold (h : Stations w D n (s.hold e)) (he : ∀ q, e.role q = none) : Stations w D n s :=
  h.congr fun q => by rw [station_hold, he]; rfl

theorem schedule (h : Stations w D n s) (ho : Ordered s) (d : ℚ) (he : ∀ q, e.role q = none) :
    Stations w D n (s.schedule d e) :=
  h.congr fun q => by
    rw [station_schedule q ho (by rw [he]; trivial), he]
    rfl

theorem record (h : Stations w D n s) (f : Metrics → Metrics) : Stations w D n (s.record f) :=
  h.congr fun _ => rfl

theorem setRandom (h : Stations w D n s) (random : G) : Stations w D n (s.setRandom random) :=
  h.congr fun _ => rfl

theorem sampleTimeout (h : Stations w D n s) (ho : Ordered s) (he : ∀ q, e.role q = none) :
    Stations w D n (sampleTimeout c e s) := by
  unfold Behavioral.sampleTimeout
  split_ifs
  · exact h.schedule ho _ fun q => by cases q <;> rfl
  · exact h.schedule ho _ he

/-- A task arrives. -/
theorem arrivalLoop (h : Stations w D n s) (ho : Ordered s) (hnow : w.arrive n = s.now) :
    Stations w D (if n < c.numTasks then n + 1 else n) (arrivalLoop c n s) := by
  unfold Behavioral.arrivalLoop
  split_ifs
  · obtain ⟨kl, kf, hl, hf, rfl, hp, hr⟩ := h
    refine ⟨{ kl with entered := kl.entered + 1 }, kf, ?_, ?_, rfl, hp, hr⟩
    · exact (hl.enter hnow).of_eq (station_put _ (ho.record _) _ rfl)
    · exact hf.of_eq (station_put_ne _ (ho.record _) (by decide) _ trivial)
  · exact h.schedule ho 0 fun q => by cases q <;> rfl

/-- The put of a task is processed. -/
theorem triggerArrival {i : ℕ} (h : Stations w D n (s.hold (.arrivalPut i))) (ho : Ordered s) :
    Stations w D n (s.triggerGet .arrivalBuffer) := by
  obtain ⟨kl, kf, hl, hf, he, hp, hr⟩ := h
  rw [station_hold] at hl hf
  obtain ⟨taken, hgive⟩ := Station.Inv.give w.arrive_mono hl
  refine ⟨{ kl with taken := taken }, kf, ?_, ?_, he, hp, hr⟩
  · exact hgive.of_eq (station_triggerGet _ ho hl.granted_due)
  · exact hf.of_eq (station_triggerGet_ne _ ho (by decide))

theorem leaderInit {lid : ℕ} (h : Stations w D n (s.hold (.leaderInit lid))) (ho : Ordered s) :
    Stations w D n (s.get .arrivalBuffer lid) := by
  obtain ⟨kl, kf, hl, hf, he, hp, hr⟩ := h
  rw [station_hold] at hl hf
  obtain ⟨taken, hgive⟩ := hl.born w.arrive_mono rfl
  refine ⟨{ kl with taken := taken }, kf, ?_, ?_, he, hp, hr⟩
  · exact hgive.of_eq (station_get _ ho hl.granted_due _)
  · exact hf.of_eq (station_get_ne _ ho (by decide) _)

theorem followerInit {fid : ℕ} (h : Stations w D n (s.hold (.followerInit fid))) (ho : Ordered s) :
    Stations w D n (s.get .execQueue fid) := by
  obtain ⟨kl, kf, hl, hf, he, hp, hr⟩ := h
  rw [station_hold] at hl hf
  obtain ⟨taken, hgive⟩ := hf.born w.enqueue_mono rfl
  refine ⟨kl, { kf with taken := taken }, ?_, ?_, he, hp, hr⟩
  · exact hl.of_eq (station_get_ne _ ho (by decide) _)
  · exact hgive.of_eq (station_get _ ho hf.granted_due _)

/-- A leader begins to dispatch a task. -/
theorem beginDispatch {lid tid : ℕ} (h : Stations w D n (s.hold (.leaderGet lid tid)))
    (ho : Ordered s) (hd : 0 < w.dispatchTime) (start : ℚ) :
    Stations w D n (s.schedule w.dispatchTime (.leaderTimeout lid [tid] start)) := by
  obtain ⟨kl, kf, hl, hf, he, hp, hr⟩ := h
  rw [station_hold] at hl hf
  rw [max_eq_left hd.le] at hl
  have hdue := hl.service_due w.arrive_mono (i := tid) rfl
  obtain ⟨-, -, hbegin⟩ := hl.begin hd.ne' (i := tid) rfl
  have hservice : (s.schedule w.dispatchTime (.leaderTimeout lid [tid] start)).station
      .arrivalBuffer = _ := station_schedule _ ho hdue
  refine ⟨{ kl with begun := kl.begun + 1 }, kf, ?_, ?_, he, hp, hr⟩
  · rw [max_eq_left hd.le]
    exact hbegin.of_eq hservice
  · exact hf.of_eq (station_schedule _ ho trivial)

/-- A leader is done with a task and puts it into the execution queue. -/
theorem putTask {kl kf : Station.Counts} {tid lid : ℕ} {beforePut : ℚ}
    (hl : Station.Inv c.numLeaders w.arrive (max w.dispatchTime 0)
      { s.station .arrivalBuffer with
        leaving := (s.station .arrivalBuffer).leaving ++ [(s.now, tid)] } kl)
    (hf : Station.Inv c.numFollowers w.enqueue (max D 0) (s.station .execQueue) kf)
    (he : kl.entered = n) (hp : kf.entered = tid) (hserved : kl.served = tid + 1)
    (hr : kf.back = kf.served) (hnow : w.enqueue tid = s.now) (ho : Ordered s) :
    Stations w D n (s.put .execQueue tid (.execPut lid tid [] beforePut)) := by
  subst hp
  refine ⟨kl, { kf with entered := kf.entered + 1 }, ?_, ?_, he, hserved.symm, hr⟩
  · refine hl.of_eq (station_put_ne _ ho (by decide) _ fun x hx => ?_)
    exact hl.leaving_due x (List.mem_append_left _ hx)
  · exact (hf.enter hnow).of_eq (station_put _ ho _ rfl)

/-- A leader that pays nothing puts the task at once. -/
theorem dispatchAtOnce {lid tid : ℕ} (h : Stations w D n (s.hold (.leaderGet lid tid)))
    (ho : Ordered s) (hd : w.dispatchTime ≤ 0) (beforePut : ℚ) :
    Stations w D n (s.put .execQueue tid (.execPut lid tid [] beforePut)) := by
  obtain ⟨kl, kf, hl, hf, he, hp, hr⟩ := h
  rw [station_hold] at hl hf
  obtain ⟨-, rfl, -, hnow, hdone⟩ := hl.begin_done (max_eq_right hd) (i := tid) rfl
  exact putTask hdone hf he hp rfl hr hnow ho

/-- A leader that has paid the dispatch time puts the task. -/
theorem dispatched {lid tid : ℕ} {start : ℚ}
    (h : Stations w D n (s.hold (.leaderTimeout lid [tid] start))) (ho : Ordered s)
    (beforePut : ℚ) : Stations w D n (s.put .execQueue tid (.execPut lid tid [] beforePut)) := by
  obtain ⟨kl, kf, hl, hf, he, hp, hr⟩ := h
  rw [station_hold] at hl hf
  obtain ⟨rfl, hnow, hdone⟩ := hl.serve (i := tid) rfl
  exact putTask hdone hf he hp rfl hr hnow ho

/-- The put of a task into the execution queue is processed, and its leader gets the next. -/
theorem nextDispatch {lid tid : ℕ} {beforePut : ℚ}
    (h : Stations w D n (s.hold (.execPut lid tid [] beforePut))) (ho : Ordered s)
    (f : Metrics → Metrics) :
    Stations w D n (((s.triggerGet .execQueue).record f).get .arrivalBuffer lid) := by
  obtain ⟨kl, kf, hl, hf, he, hp, hr⟩ := h
  rw [station_hold] at hl hf
  obtain ⟨-, -, taken, hleave⟩ := hl.leave w.arrive_mono (i := tid) rfl
  obtain ⟨taken', hgive⟩ := Station.Inv.give w.enqueue_mono hf
  have ho' : Ordered ((s.triggerGet .execQueue).record f) := (ho.triggerGet _).record f
  have hother : (s.triggerGet .execQueue).station .arrivalBuffer = s.station .arrivalBuffer :=
    station_triggerGet_ne _ ho (by decide)
  have hget := station_get .arrivalBuffer ho'
    (by rw [station_record, hother, record_now, triggerGet_now]; exact hl.granted_due) lid
  rw [station_record, hother] at hget
  refine ⟨_, _, hleave.of_eq hget, hgive.of_eq ?_, he, hp, hr⟩
  rw [station_get_ne _ ho' (by decide), station_record]
  exact station_triggerGet _ ho hf.granted_due

/-- A follower begins to execute a task. -/
theorem beginExecution {fid tid : ℕ} (h : Stations w D n (s.hold (.followerGet fid tid)))
    (ho : Ordered s) (hD : 0 < D) (start : ℚ) :
    Stations w D n (s.schedule D (.followerTimeout fid tid start)) := by
  obtain ⟨kl, kf, hl, hf, he, hp, hr⟩ := h
  rw [station_hold] at hl hf
  rw [max_eq_left hD.le] at hf
  have hdue := hf.service_due w.enqueue_mono (i := tid) rfl
  obtain ⟨-, -, hbegin⟩ := hf.begin hD.ne' (i := tid) rfl
  have hservice : (s.schedule D (.followerTimeout fid tid start)).station .execQueue = _ :=
    station_schedule _ ho hdue
  refine ⟨kl, { kf with begun := kf.begun + 1 }, ?_, ?_, he, hp, hr⟩
  · exact hl.of_eq (station_schedule _ ho trivial)
  · rw [max_eq_left hD.le]
    exact hbegin.of_eq hservice

/-- A follower that is done with a task gets the next. -/
theorem nextExecution {kl kf : Station.Counts} {fid tid : ℕ}
    (hl : Station.Inv c.numLeaders w.arrive (max w.dispatchTime 0) (s.station .arrivalBuffer) kl)
    (hf : Station.Inv c.numFollowers w.enqueue (max D 0)
      { s.station .execQueue with
        leaving := (s.station .execQueue).leaving ++ [(s.now, tid)] } kf)
    (hempty : (s.station .execQueue).leaving = []) (he : kl.entered = n)
    (hp : kf.entered = kl.served) (hr : kf.served = kf.back + 1) (ho : Ordered s) :
    Stations w D n (s.get .execQueue fid) := by
  have hone : (s.station .execQueue).leaving ++ [(s.now, tid)] =
      (s.now, tid) :: (s.station .execQueue).leaving := by
    rw [hempty, List.nil_append]
  obtain ⟨-, -, taken, hleave⟩ := hf.leave w.enqueue_mono hone
  refine ⟨kl, { kf with taken := taken, back := kf.back + 1 }, ?_, ?_, he, hp, hr.symm⟩
  · exact hl.of_eq (station_get_ne _ ho (by decide) _)
  · exact hleave.of_eq (station_get _ ho hf.granted_due fid)

/-- A follower that executes a task in no time gets the next at once. -/
theorem executeAtOnce {fid tid : ℕ} (h : Stations w D n (s.hold (.followerGet fid tid)))
    (ho : Ordered s) (hD : D ≤ 0) : Stations w D n (s.get .execQueue fid) := by
  obtain ⟨kl, kf, hl, hf, he, hp, hr⟩ := h
  rw [station_hold] at hl hf
  have hempty : (s.station .execQueue).leaving = [] := by
    have := hf.leaving
    rwa [hr, Station.jobs_self] at this
  obtain ⟨-, -, -, -, hdone⟩ := hf.begin_done (max_eq_right hD) (i := tid) rfl
  exact nextExecution hl hdone hempty he hp (by rw [hr]) ho

/-- A follower has executed a task. -/
theorem executed {fid tid : ℕ} {start : ℚ}
    (h : Stations w D n (s.hold (.followerTimeout fid tid start))) (ho : Ordered s) :
    Stations w D n (s.get .execQueue fid) := by
  obtain ⟨kl, kf, hl, hf, he, hp, hr⟩ := h
  rw [station_hold] at hl hf
  have hempty : (s.station .execQueue).leaving = [] := by
    have := hf.leaving
    rwa [hr, Station.jobs_self] at this
  obtain ⟨-, -, hdone⟩ := hf.serve (i := tid) rfl
  exact nextExecution hl hdone hempty he hp (by rw [hr]) ho

/-- What an event records is recorded when the schedules say. -/
theorem time_eq (h : Stations w D n (s.hold e)) (hw : ∀ random, (c.taskDuration random).1 = D)
    {tid : ℕ} {k : Stamp} (hrec : Records c s e tid k) : w.time D k tid = s.now := by
  obtain ⟨kl, kf, hl, hf, -⟩ := h
  rw [station_hold] at hl hf
  cases hrec with
  | enqueued lid t rest beforePut =>
    obtain ⟨-, rfl, hnow, -⟩ := Station.of_jobs_cons hl.leaving
    exact hnow.symm
  | startExec fid tid =>
    obtain ⟨-, rfl, hnow, -⟩ := Station.of_jobs_cons hf.granted
    exact hnow.symm
  | finishAtOnce fid tid hle =>
    obtain ⟨-, rfl, hnow, -⟩ := Station.of_jobs_cons hf.granted
    rw [hw] at hle
    calc w.finish D kf.begun = w.startExec D kf.begun + max D 0 := Station.finish_eq _ _ _ _
      _ = s.now := by rw [max_eq_right hle, add_zero, hnow]; rfl
  | finish fid tid start =>
    obtain ⟨-, rfl, hnow, -⟩ := Station.of_jobs_cons hf.service
    exact hnow.symm

theorem start (w : Draws c) (D : ℚ) (random : G) : Stations w D 0 (start c random) := by
  refine ⟨⟨0, 0, 0, 0, 0⟩, ⟨0, 0, 0, 0, 0⟩, ?_, ?_, rfl, rfl, rfl⟩
  · rw [station_start]
    exact .start ..
  · rw [station_start]
    exact .start ..

theorem advance (h : Stations w D n s) (hl : 0 < c.numLeaders) (hf : 0 < c.numFollowers)
    (ho : Ordered s) {t : ℚ} {rest : List (ℚ × Ev)} (hagenda : s.agenda = (t, e) :: rest) :
    Stations w D n { s with now := t } := by
  obtain ⟨kl, kf, hleaders, hfollowers, hk⟩ := h
  exact ⟨kl, kf, station_advance _ hleaders hl ho hagenda, station_advance _ hfollowers hf ho hagenda,
    hk⟩

end Stations

/-! ## Batches of one task -/

/-- What an event carries of a batch is one task. -/
def Ev.Single : Ev → Prop
  | .leaderTimeout _ batch _ => ∃ t, batch = [t]
  | .execPut _ _ rest _ => rest = []
  | _ => True

theorem fillBatch_single {batchEnqueue : ℤ} (h : batchEnqueue ≤ 1) (t : ℕ) (items : List ℕ) :
    fillBatch batchEnqueue [t] items = ([t], items) := by
  cases items with
  | nil => rfl
  | cons t' items =>
    rw [fillBatch, if_neg]
    simpa using h

def Singles (s : Sim G) : Prop := ∀ x ∈ s.agenda, x.2.Single

theorem Singles.callbacks {s : Sim G} {e : Ev} (hb : c.batchEnqueue ≤ 1) (h : Singles (s.hold e)) :
    Singles (callbacks c e s) := by
  intro x hx
  have he := h _ (List.mem_cons_self ..)
  obtain hx | ⟨d, hx, -⟩ := callbacks_agenda hx
  · exact h x (List.mem_cons_of_mem _ hx)
  · generalize x.2 = e' at hx ⊢
    cases hx with
    | gotten _ q => cases q <;> trivial
    | leaderTimeout lid tid => exact ⟨tid, congrArg Prod.fst (fillBatch_single hb tid _)⟩
    | putAtOnce lid tid t rest _ hfill =>
      rw [fillBatch_single hb] at hfill
      exact (List.cons.inj hfill).2.symm
    | putFirst lid t rest start =>
      obtain ⟨t', ht'⟩ := he
      exact (List.cons.inj ht').2
    | putNext => cases he
    | sampling _ _ _ _ hs => cases e' <;> trivial
    | _ => trivial

theorem Singles.start (random : G) : Singles (start c random) := by
  rintro ⟨t, e⟩ hx
  have hinit := (start_initial c random _ hx).2
  cases e <;> trivial

/-! ## Every step -/

/-- What is recorded is recorded when the schedules say. -/
def Stamped (w : Draws c) (D : ℚ) (s : Sim G) : Prop :=
  ∀ tid k t, s.metrics.stamp tid k = some t → t = w.time D k tid

/-- The state of a run in which both stations keep to their schedules. -/
structure Tandem (w : Draws c) (D : ℚ) (n a b : ℕ) (s : Sim G) : Prop
    extends Arriving w n a b s, Ordered s where
  stations : Stations w D n s
  stamped : Stamped w D s
  single : Singles s

def InTandem (w : Draws c) (D : ℚ) (s : Sim G) : Prop := ∃ n a b, Tandem w D n a b s

namespace Tandem

variable {w : Draws c} {D : ℚ} {n a b : ℕ} {s : Sim G} {e : Ev}

/-- The stations keep to their schedules. -/
theorem stations_callbacks (h : Tandem w D n a b (s.hold e)) (hb : c.batchEnqueue ≤ 1)
    (hw : ∀ random, (c.taskDuration random).1 = D) :
    ∃ n' a' b', Arriving w n' a' b' (callbacks c e s) ∧ Stations w D n' (callbacks c e s) := by
  have ho : Ordered s := h.toOrdered.of_hold
  have hs := h.stations
  have hdrawn : s.random = w.state a b := h.drawn
  have idle : (∀ q, e.role q = none) → Stations w D n s := hs.of_hold
  -- most events draw nothing
  have undrawn : drawn c e (w.state a b) = w.state a b →
      Stations w D n (Behavioral.callbacks c e s) →
      ∃ b', drawn c e (w.state a b) = w.state a b' ∧ Stations w D n (Behavioral.callbacks c e s) :=
    fun hdrawn hs => ⟨b, hdrawn, hs⟩
  have other : e.next = none → ∃ b', drawn c e (w.state a b) = w.state a b' ∧
      Stations w D n (Behavioral.callbacks c e s) := by
    intro hnext
    cases e with
    | arrivalInit | arrivalTimeout | arrivalPut => cases hnext
    | leaderInit lid => exact undrawn rfl (hs.leaderInit ho)
    | followerInit fid => exact undrawn rfl (hs.followerInit ho)
    | depthInit | depthTimeout =>
      refine undrawn rfl ((((idle fun q => ?_).record _).record _).sampleTimeout
        ((ho.record _).record _) fun q => ?_) <;> cases q <;> rfl
    | rateInit =>
      refine undrawn rfl ((idle fun q => ?_).sampleTimeout ho fun q => ?_) <;> cases q <;> rfl
    | rateTimeout lastT lastEnq lastDeq =>
      refine undrawn rfl (((idle fun q => ?_).record _).sampleTimeout (ho.record _) fun q => ?_) <;>
        cases q <;> rfl
    | arrivalEnd | samplerFailed => exact undrawn rfl (idle fun q => by cases q <;> rfl)
    | leaderGet lid tid =>
      refine undrawn (congrArg Prod.snd (w.dispatchTime_eq a b)) ?_
      have hs' := hs.hold_leaderGet (w.state a b)
      have ho' := (ho.setRandom (w.state a b)).setStore .arrivalBuffer
        (s.stores .arrivalBuffer).items (s.stores .arrivalBuffer).getQueue
      simp only [Behavioral.callbacks, afterLeaderGet, fillBatch_single hb, hdrawn,
        w.dispatchTime_eq]
      split_ifs with hpos
      · exact hs'.beginDispatch ho' hpos _
      · exact (hs'.hold_record _).dispatchAtOnce (ho'.record _) (not_lt.1 hpos) _
    | leaderTimeout lid batch start =>
      obtain ⟨tid, rfl⟩ := h.single _ (List.mem_cons_self ..)
      exact undrawn rfl ((hs.hold_record _).dispatched (ho.record _) _)
    | execPut lid tid rest beforePut =>
      obtain rfl : rest = [] := h.single _ (List.mem_cons_self ..)
      exact undrawn rfl (hs.nextDispatch ho _)
    | followerGet fid tid =>
      refine ⟨b + 1, congrArg Prod.snd (w.taskDuration_eq a b), ?_⟩
      have hs' : Stations w D n (((s.record (.recordStartExec tid s.now fid)).setRandom
          (w.state a (b + 1))).hold (.followerGet fid tid)) := hs.hold_congr rfl fun _ => rfl
      have ho' := (ho.record (.recordStartExec tid s.now fid)).setRandom (w.state a (b + 1))
      have hdraw : c.taskDuration s.random = (D, w.state a (b + 1)) := by
        rw [← hw (w.state a b), hdrawn, w.taskDuration_eq]
      simp only [Behavioral.callbacks, Behavioral.afterFollowerGet, record_random, hdraw]
      split_ifs with hpos
      · exact hs'.beginExecution ho' hpos _
      · exact (hs'.hold_record _).executeAtOnce (ho'.record _) (not_lt.1 hpos)
    | followerTimeout fid tid start =>
      exact undrawn rfl ((hs.hold_record _).executed (ho.record _))
  obtain ⟨n', a', b', ha, -, hs'⟩ := h.toArriving.callbacks_and
    (J := fun n _ s => Ordered s ∧ Stations w D n s)
    (fun hnext => (other hnext).imp fun _ hs => ⟨hs.1, h.toOrdered.callbacks, hs.2⟩)
    (fun he => ⟨ho, idle fun q => by obtain rfl | ⟨i, rfl⟩ := he <;> cases q <;> rfl⟩)
    (fun i random he => ⟨(ho.triggerGet _).setRandom _, by
      subst he; exact (hs.triggerArrival ho).setRandom random⟩)
    (fun s' hnow harrive hJ => ⟨hJ.1.arrivalLoop c n, hJ.2.arrivalLoop hJ.1 (harrive.trans hnow.symm)⟩)
    (fun s' d i hd hJ => ⟨hJ.1.schedule hd.le False.elim, hJ.2.schedule hJ.1 _ fun q => by
      cases q <;> rfl⟩)
  exact ⟨n', a', b', ha, hs'⟩

/-- Every event keeps both stations to their schedules. -/
theorem callbacks (hb : c.batchEnqueue ≤ 1) (hw : ∀ random, (c.taskDuration random).1 = D)
    (h : InTandem w D (s.hold e)) : InTandem w D (callbacks c e s) := by
  obtain ⟨n, a, b, h⟩ := h
  obtain ⟨n', a', b', ha, hs⟩ := h.stations_callbacks hb hw
  refine ⟨n', a', b', ha, h.toOrdered.callbacks, hs, fun tid k t hstamp => ?_, h.single.callbacks hb⟩
  by_cases hk : k = .arrival
  · subst hk
    have harrived := (ha.arrived tid).1 (by rw [hstamp]; rfl)
    exact Option.some.inj (hstamp.symm.trans (ha.times tid harrived))
  · obtain hold | ⟨rfl, hrec⟩ := callbacks_stamp hk hstamp
    · exact h.stamped tid k t hold
    · exact (h.stations.time_eq hw hrec).symm

theorem start (w : Draws c) (D : ℚ) : InTandem w D (start c (w.state 0 0)) := by
  refine ⟨0, 0, 0, .start w, .start _, .start w D _, fun tid k t hstamp => ?_, .start _⟩
  cases k <;> cases hstamp

theorem advance (h : InTandem w D s) (hl : 0 < c.numLeaders) (hf : 0 < c.numFollowers) {t : ℚ}
    {rest : List (ℚ × Ev)} (hagenda : s.agenda = (t, e) :: rest) :
    InTandem w D { s with now := t } := by
  obtain ⟨n, a, b, h⟩ := h
  exact ⟨n, a, b, h.toArriving.advance t, h.toOrdered.advance hagenda,
    h.stations.advance hl hf h.toOrdered hagenda, h.stamped, h.single⟩

end Tandem

/-- **Leaders and followers in tandem.**  With batches of one task and a constant
duration, every time that a run records is the one that the schedules have. -/
theorem stamped_reached {D : ℚ} (w : Draws c) (hb : c.batchEnqueue ≤ 1)
    (hw : ∀ random, (c.taskDuration random).1 = D) (hl : 0 < c.numLeaders)
    (hf : 0 < c.numFollowers) (n : ℕ) : Stamped w D (reached c (w.state 0 0) n) := by
  obtain ⟨_, _, _, h⟩ := loop_invariant (Tandem.start w D)
    (fun _ _ _ _ h hagenda => Tandem.advance h hl hf hagenda)
    (fun _ _ h => Tandem.callbacks hb hw h) n
  exact h.stamped

end TaskQueueCoSim.Behavioral
