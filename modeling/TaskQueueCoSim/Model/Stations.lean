import TaskQueueCoSim.Lib.Station
import TaskQueueCoSim.Model.Behavioral

/-!
# The stations of the behavioral model

The leaders serve the arrival buffer and the followers the execution queue.  What
the agenda and a store hold is the state of a station; `Ev.role` says what an
event stands for in it.
-/

namespace TaskQueueCoSim.Behavioral

open Agenda Sim

variable {G : Type}

/-- What an event can stand for in a station. -/
inductive Role where
  | unborn
  | untold
  | granted (tid : Nat)
  | service (tid : Nat)
  | leaving (tid : Nat)

def Ev.role : StoreName → Ev → Option Role
  | .arrivalBuffer, .leaderInit _ => some .unborn
  | .arrivalBuffer, .arrivalPut _ => some .untold
  | .arrivalBuffer, .leaderGet _ tid => some (.granted tid)
  | .arrivalBuffer, .leaderTimeout _ (t :: _) _ => some (.service t)
  | .arrivalBuffer, .execPut _ t _ _ => some (.leaving t)
  | .execQueue, .followerInit _ => some .unborn
  | .execQueue, .execPut _ _ _ _ => some .untold
  | .execQueue, .followerGet _ tid => some (.granted tid)
  | .execQueue, .followerTimeout _ tid _ => some (.service tid)
  | _, _ => none

namespace Role

def isUnborn : Option Role → Nat
  | some .unborn => 1
  | _ => 0

def isUntold : Option Role → Nat
  | some .untold => 1
  | _ => 0

def isGranted : Option Role → Option Nat
  | some (.granted tid) => some tid
  | _ => none

def isService : Option Role → Option Nat
  | some (.service tid) => some tid
  | _ => none

def isLeaving : Option Role → Option Nat
  | some (.leaving tid) => some tid
  | _ => none

end Role

/-- The station of the processes that get from a store. -/
def Sim.station (s : Sim G) (q : StoreName) : Station.State ℚ where
  now := s.now
  waiting := (s.stores q).items
  idle := (s.stores q).getQueue.length
  unborn := tally (fun e => Role.isUnborn (e.role q)) s.agenda
  untold := tally (fun e => Role.isUntold (e.role q)) s.agenda
  granted := pending (fun e => Role.isGranted (e.role q)) s.agenda
  service := pending (fun e => Role.isService (e.role q)) s.agenda
  leaving := pending (fun e => Role.isLeaving (e.role q)) s.agenda

/-- The state with an event of the role at its end. -/
def Role.last (t : ℚ) (s : Station.State ℚ) : Option Role → Station.State ℚ
  | none => s
  | some .unborn => { s with unborn := s.unborn + 1 }
  | some .untold => { s with untold := s.untold + 1 }
  | some (.granted tid) => { s with granted := s.granted ++ [(t, tid)] }
  | some (.service tid) => { s with service := s.service ++ [(t, tid)] }
  | some (.leaving tid) => { s with leaving := s.leaving ++ [(t, tid)] }

/-- The state with an event of the role at its front. -/
def Role.first (t : ℚ) (s : Station.State ℚ) : Option Role → Station.State ℚ
  | none => s
  | some .unborn => { s with unborn := s.unborn + 1 }
  | some .untold => { s with untold := s.untold + 1 }
  | some (.granted tid) => { s with granted := (t, tid) :: s.granted }
  | some (.service tid) => { s with service := (t, tid) :: s.service }
  | some (.leaving tid) => { s with leaving := (t, tid) :: s.leaving }

/-- The events of the role are due by `t`. -/
def Role.DueBy (t : ℚ) (s : Station.State ℚ) : Option Role → Prop
  | some (.granted _) => ∀ x ∈ s.granted, x.1 ≤ t
  | some (.service _) => ∀ x ∈ s.service, x.1 ≤ t
  | some (.leaving _) => ∀ x ∈ s.leaving, x.1 ≤ t
  | _ => True

section Station

variable (s : Sim G) (q : StoreName)

@[simp] theorem station_record (f : Metrics → Metrics) : (s.record f).station q = s.station q := rfl

@[simp] theorem station_setRandom (random : G) : (s.setRandom random).station q = s.station q := rfl

@[simp] theorem station_setStore (items getQueue : List Nat) :
    (s.setStore q items getQueue).station q =
      { s.station q with waiting := items, idle := getQueue.length } := by
  simp [station]

theorem station_setStore_ne {q' : StoreName} (h : q ≠ q') (items getQueue : List Nat) :
    (s.setStore q' items getQueue).station q = s.station q := by
  simp [station, Function.update_of_ne h]

theorem station_hold (e : Ev) : (s.hold e).station q = Role.first s.now (s.station q) (e.role q) := by
  simp only [station, hold_agenda, hold_now, hold_stores, tally_cons]
  rcases hr : e.role q with _ | _ | _ | tid | tid | tid <;>
    simp [pending, Role.first, Role.isUnborn, Role.isUntold, Role.isGranted, Role.isService,
      Role.isLeaving, hr, Nat.add_comm]

variable {s} in
/-- An event that is due after those of its role is the last of them. -/
theorem station_schedule (ho : Ordered s) {d : ℚ} {e : Ev}
    (h : Role.DueBy (s.now + d) (s.station q) (e.role q)) :
    (s.schedule d e).station q = Role.last (s.now + d) (s.station q) (e.role q) := by
  have other : ∀ sel : Option Role → Option Nat, sel (e.role q) = none →
      pending (fun e : Ev => sel (e.role q)) (Agenda.schedule (s.now + d) e s.agenda) =
        pending (fun e => sel (e.role q)) s.agenda :=
    fun sel hsel => pending_schedule_none (fun e : Ev => sel (e.role q)) hsel _ _
  have same : ∀ (sel : Option Role → Option Nat) tid, sel (e.role q) = some tid →
      (∀ x ∈ pending (fun e => sel (e.role q)) s.agenda, x.1 ≤ s.now + d) →
      pending (fun e : Ev => sel (e.role q)) (Agenda.schedule (s.now + d) e s.agenda) =
        pending (fun e => sel (e.role q)) s.agenda ++ [(s.now + d, tid)] :=
    fun sel _ hsel => pending_schedule_some (fun e : Ev => sel (e.role q)) hsel ho.sorted
  simp only [station, schedule_agenda, schedule_now, schedule_stores, tally_schedule]
  rcases hr : e.role q with _ | _ | _ | tid | tid | tid <;> rw [hr] at other same h
  · rw [other _ rfl, other _ rfl, other _ rfl]
    simp [Role.last, Role.isUnborn, Role.isUntold]
  · rw [other _ rfl, other _ rfl, other _ rfl]
    simp [Role.last, Role.isUnborn, Role.isUntold, Nat.add_comm]
  · rw [other _ rfl, other _ rfl, other _ rfl]
    simp [Role.last, Role.isUnborn, Role.isUntold, Nat.add_comm]
  · rw [same Role.isGranted tid rfl h, other Role.isService rfl, other Role.isLeaving rfl]
    simp [Role.last, Role.isUnborn, Role.isUntold]
  · rw [other Role.isGranted rfl, same Role.isService tid rfl h, other Role.isLeaving rfl]
    simp [Role.last, Role.isUnborn, Role.isUntold]
  · rw [other Role.isGranted rfl, other Role.isService rfl, same Role.isLeaving tid rfl h]
    simp [Role.last, Role.isUnborn, Role.isUntold]

variable {s}

/-- A trigger gives the first waiting task to the first idle process. -/
theorem station_triggerGet (ho : Ordered s) (hdue : ∀ x ∈ (s.station q).granted, x.1 ≤ s.now) :
    (s.triggerGet q).station q = (s.station q).give := by
  have hrole : ∀ pid tid, (q.gotten pid tid).role q = some (.granted tid) := by
    intro pid tid
    cases q <;> rfl
  obtain ⟨hs, hempty⟩ | ⟨tid, items, pid, getQueue, hq, hs⟩ := s.triggerGet_cases q
  · rw [hs]
    obtain h | h := hempty
    · simp [Station.State.give, station, h]
    · simp [Station.State.give, station, h]
  · have hset : ((s.setStore q items getQueue).station q).granted = (s.station q).granted := by simp
    rw [hs, station_schedule q (ho.setStore _ _ _)
      (by rw [hrole, Role.DueBy, hset]; simpa using hdue), hrole, station_setStore]
    simp [Role.last, Station.State.give, station, hq]

theorem station_triggerGet_ne {q' : StoreName} (ho : Ordered s) (h : q ≠ q') :
    (s.triggerGet q').station q = s.station q := by
  have hrole : ∀ pid tid, (q'.gotten pid tid).role q = none := by
    intro pid tid
    cases q <;> cases q' <;> first | rfl | exact absurd rfl h
  obtain ⟨hs, -⟩ | ⟨tid, items, pid, getQueue, hq, hs⟩ := s.triggerGet_cases q'
  · rw [hs]
  · rw [hs, station_schedule q (ho.setStore _ _ _) (by rw [hrole]; trivial), hrole]
    exact station_setStore_ne s q h _ _

theorem station_get (ho : Ordered s) (hdue : ∀ x ∈ (s.station q).granted, x.1 ≤ s.now) (pid : Nat) :
    (s.get q pid).station q =
      Station.State.give { s.station q with idle := (s.station q).idle + 1 } := by
  have hset := station_setStore s q (s.stores q).items ((s.stores q).getQueue ++ [pid])
  rw [Sim.get, station_triggerGet q (ho.setStore _ _ _) (by rw [hset]; exact hdue), hset]
  simp [station]

theorem station_get_ne {q' : StoreName} (ho : Ordered s) (h : q ≠ q') (pid : Nat) :
    (s.get q' pid).station q = s.station q := by
  rw [Sim.get, station_triggerGet_ne q (ho.setStore _ _ _) h, station_setStore_ne s q h]

theorem station_put (ho : Ordered s) (tid : Nat) {e : Ev} (he : e.role q = some .untold) :
    (s.put q tid e).station q = { s.station q with
      waiting := (s.station q).waiting ++ [tid], untold := (s.station q).untold + 1 } := by
  rw [put, station_schedule q (ho.setStore _ _ _) (by rw [he]; trivial), he, station_setStore]
  rfl

theorem station_put_ne {q' : StoreName} (ho : Ordered s) (h : q ≠ q') (tid : Nat) {e : Ev}
    (hdue : Role.DueBy s.now (s.station q) (e.role q)) :
    (s.put q' tid e).station q = Role.last s.now (s.station q) (e.role q) := by
  have hset := station_setStore_ne s q h ((s.stores q').items ++ [tid]) (s.stores q').getQueue
  rw [put, station_schedule q (ho.setStore _ _ _) (by rw [hset]; simpa using hdue), hset]
  simp

/-- What has been granted is due. -/
theorem granted_due (ho : Ordered s) : ∀ x ∈ (s.station q).granted, x.1 ≤ s.now := by
  intro x hx
  change x ∈ pending (fun e => Role.isGranted (e.role q)) s.agenda at hx
  obtain ⟨y, hy, hrole, hyx⟩ := mem_pending.1 hx
  refine hyx ▸ ho.prompt y hy ?_
  cases he : y.2 with
  | leaderTimeout lid batch start =>
    rw [he] at hrole
    cases q <;> cases batch <;> cases hrole
  | arrivalTimeout | followerTimeout | depthTimeout | rateTimeout =>
    rw [he] at hrole
    cases q <;> cases hrole
  | _ => trivial

/-- Whoever has still to start to wait or to be told is so before time goes on. -/
theorem role_prompt {e : Ev} (h : e.role q = some .unborn ∨ e.role q = some .untold) : e.Prompt := by
  cases e with
  | leaderTimeout lid batch start => cases q <;> cases batch <;> simp [Ev.role] at h
  | arrivalTimeout | followerTimeout | depthTimeout | rateTimeout => cases q <;> simp [Ev.role] at h
  | _ => trivial

/-- Time goes on to the first event. -/
theorem station_advance {servers : ℕ} {arrive : ℕ → ℚ} {d : ℚ} {k : Station.Counts}
    (h : Station.Inv servers arrive d (s.station q) k) (hpos : 0 < servers) (ho : Ordered s) {t : ℚ}
    {e : Ev} {rest : List (ℚ × Ev)} (hagenda : s.agenda = (t, e) :: rest) :
    Station.Inv servers arrive d (Sim.station { s with now := t } q) k := by
  have due : ∀ (sel : Ev → Option Nat), ∀ x ∈ pending sel s.agenda, t ≤ x.1 := by
    intro sel x hx
    obtain ⟨y, hy, -, hyx⟩ := mem_pending.1 hx
    exact hyx ▸ ho.head_le hagenda y hy
  refine (h.advance hpos (ho.now_le hagenda) ?_ ?_ ?_ fun hlt => ?_).of_eq rfl
  · exact due fun e => Role.isGranted (e.role q)
  · exact due fun e => Role.isService (e.role q)
  · exact due fun e => Role.isLeaving (e.role q)
  have late : ∀ x ∈ s.agenda, ¬x.2.Prompt := fun x hx hprompt =>
    absurd (ho.prompt x hx hprompt) (not_le.2 (hlt.trans_le (ho.head_le hagenda x hx)))
  have untold : tally (fun e => Role.isUntold (e.role q)) s.agenda = 0 := by
    refine tally_eq_zero fun x hx => ?_
    unfold Role.isUntold
    split
    · exact absurd (role_prompt q (.inr (by assumption))) (late x hx)
    · rfl
  have unborn : tally (fun e => Role.isUnborn (e.role q)) s.agenda = 0 := by
    refine tally_eq_zero fun x hx => ?_
    unfold Role.isUnborn
    split
    · exact absurd (role_prompt q (.inl (by assumption))) (late x hx)
    · rfl
  exact ⟨untold, unborn⟩

/-- At the start nothing has entered a station and nobody waits. -/
theorem station_start (c : Setup G) (random : G) : (start c random).station q =
    ⟨0, [], 0, if q = .arrivalBuffer then c.numLeaders else c.numFollowers, 0, [], [], []⟩ := by
  cases q <;> simp [station, start, tally, pending, Ev.role, Role.isUnborn, Role.isUntold,
    Role.isGranted, Role.isService, Role.isLeaving, Function.comp_def]

end Station

end TaskQueueCoSim.Behavioral
