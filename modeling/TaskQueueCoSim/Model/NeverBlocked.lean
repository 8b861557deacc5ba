import TaskQueueCoSim.Model.AblationRows

/-!
# No leader is ever blocked (model/behavioral.py, model/run_ablation.py)

`leader_block_time` is to hold the time that a leader waits in `exec_queue.put`.  The store is
built without `EXEC_QUEUE_CAPACITY`, so a put is granted at the time at which it is asked for
(`Unblocked`), and none of that time is ever recorded: `leader_block_fraction` is empty in
whatever `run_sim` returns, and `leader_block_frac` is 0 in its rows (`leaders_never_block`).
-/

namespace TaskQueueCoSim.Behavioral

open Agenda Sim

variable {G : Type} {c : Setup G} {s : Sim G}

/-! ## What is recorded about a put -/

theorem leaderBlockTime_recordPut (m : Metrics) (lid tid : ℕ) (t : ℚ) :
    (m.recordPut lid tid t t).leaderBlockTime = m.leaderBlockTime := by
  simp only [Metrics.recordPut, sub_self, lt_irrefl, if_false]
  rfl

/-- The time at which the put was asked for that an event grants. -/
def Ev.asked : Ev → Option ℚ
  | .execPut _ _ _ beforePut => some beforePut
  | _ => none

/-- No callbacks record that a leader was blocked, if a put is granted when it was asked for. -/
theorem leaderBlockTime_callbacks {e : Ev} (h : ∀ t, e.asked = some t → s.now = t) :
    (callbacks c e s).metrics.leaderBlockTime = s.metrics.leaderBlockTime := by
  have arrive (s' : Sim G) (i : ℕ) :
      (arrivalLoop c i s').metrics.leaderBlockTime = s'.metrics.leaderBlockTime := by
    rw [arrivalLoop_metrics]
    split_ifs <;> rfl
  cases e with
  | execPut lid t rest beforePut =>
    obtain rfl := h beforePut rfl
    simp only [callbacks, afterExecPut_metrics, triggerGet_metrics, triggerGet_now]
    exact leaderBlockTime_recordPut ..
  | arrivalInit | arrivalTimeout => simp [callbacks, arrive]
  | arrivalPut i =>
    simp only [callbacks, afterArrivalPut]
    split_ifs <;> simp [arrive]
  | depthInit | depthTimeout | rateInit | rateTimeout =>
    simp [callbacks, depthLoop, rateLoop, afterRateTimeout, Metrics.sampleExec,
      Metrics.sampleArrival, Metrics.sampleRates]
  | leaderGet lid tid =>
    simp only [callbacks, afterLeaderGet]
    split_ifs <;> simp [Metrics.addLeaderBusy]
  | leaderTimeout lid batch start => simp [callbacks, Metrics.addLeaderBusy]
  | followerGet fid tid =>
    simp only [callbacks, afterFollowerGet]
    split_ifs <;> simp [Metrics.recordExecuted, Metrics.recordStartExec, Metrics.recordFinish,
      Metrics.addFollowerBusy]
  | followerTimeout fid tid start =>
    simp [callbacks, Metrics.recordExecuted, Metrics.recordFinish, Metrics.addFollowerBusy]
  | _ => simp [callbacks]

/-! ## Puts are granted at once -/

/-- Every put is granted at the time at which it was asked for, and none has taken time. -/
structure Unblocked (s : Sim G) : Prop where
  granted : ∀ x ∈ s.agenda, ∀ t, x.2.asked = some t → x.1 = t
  counted : ∀ lid, s.metrics.leaderBlockTime lid = 0

/-- A put counts from when it was asked for, and is due when it is scheduled. -/
theorem Ev.since_of_asked {e : Ev} {t : ℚ} (h : e.asked = some t) : e.since = some t ∧ e.Prompt := by
  cases e with
  | execPut => exact ⟨h, trivial⟩
  | _ => cases h

theorem Schedules.asked {e e' : Ev} {d t : ℚ} (h : Schedules c s e d e') (ht : e'.asked = some t) :
    s.now + d = t := by
  obtain ⟨hsince, hprompt⟩ := Ev.since_of_asked ht
  rw [h.since hsince, h.prompt hprompt, add_zero]

namespace Unblocked

variable {e : Ev}

theorem start (c : Setup G) (random : G) : Unblocked (start c random) := by
  refine ⟨fun x hx t ht => ?_, fun _ => rfl⟩
  have hnone := (start_initial c random x hx).2.since
  rw [(Ev.since_of_asked ht).1] at hnone
  cases hnone

theorem advance (h : Unblocked s) (t : ℚ) : Unblocked { s with now := t } := ⟨h.granted, h.counted⟩

theorem callbacks (h : Unblocked (s.hold e)) : Unblocked (callbacks c e s) := by
  refine ⟨fun x hx t ht => ?_, fun lid => ?_⟩
  · obtain hold | ⟨d, hsched, hdue⟩ := callbacks_agenda hx
    · exact h.granted x (List.mem_cons_of_mem _ hold) t ht
    · rw [hdue]
      exact hsched.asked ht
  · rw [leaderBlockTime_callbacks fun t ht => h.granted (s.now, e) (List.mem_cons_self ..) t ht]
    exact h.counted lid

theorem round {s' : Sim G} (h : Unblocked s) (hround : round c s = some s') : Unblocked s' := by
  obtain ⟨t, e, rest, hagenda, -, -, rfl⟩ := round_cases hround
  refine callbacks ⟨fun x hx => h.granted x ?_, h.counted⟩
  rwa [hagenda]

/-- The next event adds to the block time of no leader. -/
theorem blocks (h : Unblocked s) : s.blocks = none := by
  unfold Sim.blocks
  cases hagenda : s.agenda with
  | nil => rfl
  | cons x rest =>
    obtain ⟨t, e⟩ := x
    cases e with
    | execPut lid tid rest' beforePut =>
      have hgranted : t = beforePut :=
        h.granted (t, .execPut lid tid rest' beforePut) (by simp [hagenda]) beforePut rfl
      simp [hgranted]
    | _ => rfl

end Unblocked

theorem unblocked_reached (c : Setup G) (random : G) (n : ℕ) : Unblocked (reached c random n) :=
  Machine.steps_invariant (fun _ _ h hround => h.round hround) (Unblocked.start c random) n

theorem blocked_outcome (c : Setup G) (random : G) (n : ℕ) : (outcome c random n).blocked = [] := by
  have silent : Machine.stepsLog (round c) Sim.blocks n (start c random) = [] :=
    Machine.stepsLog_eq_nil (I := Unblocked) (fun _ _ h hround => h.round hround)
      (fun _ h => h.blocks) (Unblocked.start c random) n
  show (Machine.stepsLog (round c) Sim.blocks n (start c random)).eraseDups = []
  rw [silent]
  rfl

/-! ## What is reported -/

/-- The results report no blocked leader, nor does a row, also if they have been in a file. -/
structure ReportsNoBlock (d : Data) : Prop where
  fraction : d.get "leader_block_fraction" (.value .none) = some (.dict [])
  row : ∀ e seed, ∃ row, experimentRow e seed d = some row ∧
    experimentRow e seed (reload d) = some row ∧ row.leaderBlockFrac = 0

/-- **No leader is ever blocked.**  Whatever the parameters, `EXEC_QUEUE_CAPACITY` among them, no
run records that a leader waited for its put, and none is reported. -/
theorem leaders_never_block (r : Random G) :
    (∀ (p : Tunables) (mode : String) (n lid : ℕ),
      (p.run r mode n).metrics.leaderBlockTime lid = 0) ∧
      ∀ g call d, Returns r g call d → ReportsNoBlock d := by
  refine ⟨fun p mode n => (unblocked_reached (p.setup r mode) (r.seed p.seed) n).counted, ?_⟩
  rintro g call d ⟨p, n, -, -, hresults⟩
  have hblocked := blocked_outcome (p.setup r call.mode) (r.seed p.seed) n
  constructor
  · obtain ⟨stats, -, rfl⟩ := Option.map_eq_some_iff.1 hresults
    show some (Outcome.fractions (outcome (p.setup r call.mode) (r.seed p.seed) n).blocked _) = _
    rw [hblocked]
    rfl
  · intro e seed
    obtain ⟨stats, -, hrow, hfile⟩ := Outcome.experimentRow_results _ hresults e seed
    refine ⟨_, hrow, hfile, ?_⟩
    show OrderStatistics.mean ((outcome (p.setup r call.mode) (r.seed p.seed) n).blocked.map _) = 0
    simp [hblocked, OrderStatistics.mean]

/-- A bound of 8 on the execution queue changes nothing. -/
theorem leaders_never_block_capacity : ∃ d,
    Returns steady defaults ⟨"sw", [("EXEC_QUEUE_CAPACITY", .int 8)]⟩ d ∧ ReportsNoBlock d := by
  obtain ⟨d, hd⟩ := exists_returns steady (g := defaults)
    ⟨"sw", [("EXEC_QUEUE_CAPACITY", .int 8)]⟩ (p := defaultTunables) rfl (by decide)
  exact ⟨d, hd, (leaders_never_block steady).2 _ _ _ hd⟩

end TaskQueueCoSim.Behavioral
