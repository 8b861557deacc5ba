import TaskQueueCoSim.Model.AllAtOnce
import TaskQueueCoSim.Model.FirstDraw
import TaskQueueCoSim.Model.RunSim
import TaskQueueCoSim.Model.Unstarted

/-!
# The workload of the two modes (model/behavioral.py)

Arrivals and durations are drawn from one generator in the order in which the
processes resume.  If that order, as far as values are drawn at all, does not
depend on the dispatch time, the two modes are run on the same workload.

* `workload_of_inLine`: tasks that do not overtake one another are started in the order of
  their numbers, so task `b` gets draw `b`;
* `workload_of_allAtOnce`: if all tasks arrive at once, the leaders take their batches in an
  order that no positive dispatch time changes;
* `same_workload_of_drawnApart`: the condition on the parameters.
-/

namespace TaskQueueCoSim.Behavioral

open Sim

variable {G : Type} {c c' : Setup G}

/-- Each task has the same arrival time and the same duration, as far as they are recorded. -/
def SameWorkload (m m' : Metrics) : Prop :=
  ∀ tid, (∀ x y, m.stamp tid .arrival = some x → m'.stamp tid .arrival = some y → x = y) ∧
    ∀ x y, m.duration tid = some x → m'.duration tid = some y → x = y

/-- The arrivals and the durations of a run. -/
structure Workload (arrive duration : ℕ → ℚ) (m : Metrics) : Prop where
  arrival : ∀ tid x, m.stamp tid .arrival = some x → x = arrive tid
  duration : ∀ tid x, m.duration tid = some x → x = max (duration tid) 0

theorem Workload.same {arrive arrive' duration : ℕ → ℚ} {m m' : Metrics}
    (h : Workload arrive duration m) (h' : Workload arrive' duration m')
    (harrive : arrive = arrive') : SameWorkload m m' := by
  subst harrive
  exact fun tid => ⟨fun x y hx hy => (h.arrival tid x hx).trans (h'.arrival tid y hy).symm,
    fun x y hx hy => (h.duration tid x hx).trans (h'.duration tid y hy).symm⟩

/-- One duration is drawn for each task that is started. -/
theorem Arriving.callbacks_starts {w : Draws c} {n a b : ℕ} {s : Sim G} {e : Ev}
    (h : Arriving w n a b (s.hold e)) :
    ∃ n' a', Arriving w n' a' (b + e.starts.toList.length) (Behavioral.callbacks c e s) := by
  have nostart : ∀ {e : Ev}, (∀ fid tid, e ≠ .followerGet fid tid) → e.starts = none := by
    intro e hget
    cases e with
    | followerGet => exact absurd rfl (hget _ _)
    | _ => rfl
  suffices ∃ n' a' b', Arriving w n' a' b' (Behavioral.callbacks c e s) ∧
      b' = b + e.starts.toList.length by
    obtain ⟨n', a', b', ha, rfl⟩ := this
    exact ⟨n', a', ha⟩
  refine h.callbacks_and (J := fun _ b' _ => b' = b + e.starts.toList.length) (fun hnext => ?_)
    (fun he => ?_) (fun i random he => ?_) (fun _ _ _ h => h) (fun _ _ _ _ h => h)
  · by_cases hget : ∀ fid tid, e ≠ .followerGet fid tid
    · exact ⟨b, w.drawn_eq hnext hget a b, by simp [nostart hget]⟩
    · simp only [not_forall, not_not] at hget
      obtain ⟨fid, tid, rfl⟩ := hget
      exact ⟨b + 1, congrArg Prod.snd (w.taskDuration_eq a b), rfl⟩
  · obtain rfl | ⟨i, rfl⟩ := he <;> rfl
  · subst he
    rfl

/-- The tasks arrive as the draws say, in whatever order durations are drawn. -/
theorem arrival_reached (w : Draws c) {k tid : ℕ} {x : ℚ}
    (hx : (reached c (w.state 0 0) k).metrics.stamp tid .arrival = some x) : x = w.arrive tid := by
  obtain ⟨n, a, b, ha⟩ : ∃ n a b, Arriving w n a b (reached c (w.state 0 0) k) := by
    refine loop_invariant (I := fun s => ∃ n a b, Arriving w n a b s) ⟨0, 0, 0, .start w⟩
      (fun s t _ _ h _ => ?_) (fun e s h => ?_) k <;> obtain ⟨n, a, b, h⟩ := h
    · exact ⟨n, a, b, h.advance t⟩
    · obtain ⟨n', a', h'⟩ := h.callbacks_starts
      exact ⟨n', a', _, h'⟩
  have harrived := (ha.arrived tid).1 (by rw [hx]; rfl)
  exact Option.some.inj (hx.symm.trans (ha.times tid harrived))

/-- **The workload of a run.**  Let `K` hold beside the arrivals in every state of a
run.  If it says which duration is drawn for a task that is started, the workload is
what the draws say. -/
theorem workload_reached (w : Draws c) (duration : ℕ → ℚ) {K : ℕ → ℕ → Sim G → Prop}
    (start : K 0 0 (start c (w.state 0 0)))
    (advance : ∀ n b (s : Sim G) t e rest, Ordered s → s.agenda = (t, e) :: rest → K n b s →
      K n b { s with now := t })
    (called : ∀ n a b e (s : Sim G), Arriving w n a b (s.hold e) → Census c.numTasks (s.hold e) →
      Ordered (s.hold e) → K n b (s.hold e) →
      ∃ n' a' b', Arriving w n' a' b' (callbacks c e s) ∧ K n' b' (callbacks c e s))
    (draws : ∀ n b (s : Sim G) fid tid, Ordered s → K n b (s.hold (.followerGet fid tid)) →
      w.taskDuration b = duration tid) (k : ℕ) :
    Workload w.arrive duration (reached c (w.state 0 0) k).metrics := by
  let I (s : Sim G) := PutsFirst s ∧ Census c.numTasks s ∧
    (∃ n a b, Arriving w n a b s ∧ K n b s) ∧ Lasting duration s
  suffices I (reached c (w.state 0 0) k) by
    refine ⟨fun tid x hx => arrival_reached w hx, fun tid x hx => ?_⟩
    obtain ⟨b, hb, f, hf, rfl⟩ := Metrics.duration_eq_some.1 hx
    rw [this.2.2.2.ended tid b f hb hf, add_sub_cancel_left]
  refine loop_invariant ?_ (fun s t e rest h hagenda => ?_) (fun e s h => ?_) k
  · exact ⟨.start _, .start c _, ⟨0, 0, 0, .start w, start⟩, .start _ _⟩
  · obtain ⟨hp, hc, ⟨n, a, b, ha, hK⟩, hl⟩ := h
    exact ⟨hp.advance hagenda, hc.advance t, ⟨n, a, b, ha.advance t,
      advance n b s t e rest hp.toOrdered hagenda hK⟩, hl.advance t⟩
  · obtain ⟨hp, hcensus, ⟨n, a, b, ha, hK⟩, hl⟩ := h
    have ⟨m, _, hlocated⟩ := hcensus
    refine ⟨hp.callbacks hlocated, hcensus.callbacks,
      called n a b e s ha hcensus hp.toOrdered hK, hl.callbacks hp hlocated fun fid tid he => ?_⟩
    subst he
    have hdrawn : s.random = w.state a b := ha.drawn
    rw [hdrawn, w.taskDuration_eq, draws n b s fid tid hp.of_hold.toOrdered hK]

/-- Durations that are not drawn are the same whatever the order. -/
theorem workload_of_constant (w : Draws c) {D : ℚ} (hD : ∀ b, w.taskDuration b = D) (k : ℕ) :
    Workload w.arrive (fun _ => D) (reached c (w.state 0 0) k).metrics := by
  refine workload_reached w (fun _ => D) (K := fun _ _ _ => True) trivial
    (fun _ _ _ _ _ _ _ _ _ => trivial) (fun n a b e s ha _ _ _ => ?_) (fun _ b _ _ _ _ _ => hD b) k
  obtain ⟨n', a', ha'⟩ := ha.callbacks_starts
  exact ⟨n', a', _, ha', trivial⟩

/-- If the tasks stay in line, each is started with the draw of its own number. -/
theorem workload_of_inLine (w : Draws c)
    (hfifo : c.numLeaders ≤ 1 ∨ c.batchEnqueue ≤ 1 ∨ (∀ g, 0 < (c.interarrival g).1) ∨ c.numTasks ≤ 2)
    (hd : ∀ random, (c.dispatchTime random).1 = w.dispatchTime) (k : ℕ) :
    Workload w.arrive w.taskDuration (reached c (w.state 0 0) k).metrics := by
  refine workload_reached w w.taskDuration (K := fun n b s => InLine c w.dispatchTime n b s ∧
    ((∀ g, 0 < (c.interarrival g).1) → OneByOne (max w.dispatchTime 0) s ∧ Told s))
    ⟨.start _ _, fun _ => ⟨.start c _, .start c _⟩⟩ (fun n b s t e rest ho hagenda h => ?_)
    (fun n a b e s ha hcensus ho h => ?_) (fun n b s fid tid ho h => ?_) k
  · exact ⟨h.1.advance (ho.now_le hagenda), fun hia =>
      ⟨(h.2 hia).1.advance ho (h.2 hia).2 hagenda, (h.2 hia).2.advance t⟩⟩
  · obtain ⟨hline, hone⟩ := h
    have hturn : LeadersInTurn c w.dispatchTime (s.hold e) := by
      obtain hl | hb | hia | htwo := hfifo
      · exact .inl hl
      · exact .inr (.inl hb)
      · exact .inr (.inr (.inl (hone hia).1))
      · exact .inr (.inr (.inr ⟨htwo, hcensus⟩))
    obtain ⟨n', a', b', ha', hline'⟩ := hline.callbacks ha ho hturn hd
    exact ⟨n', a', b', ha', hline', fun hia =>
      ⟨(hone hia).1.callbacks ha.toArrivals hd rfl hia, (hone hia).2.callbacks⟩⟩
  · rw [(h.1.first ho).1]

/-- The arrival process never waits. -/
def NoTimeout (s : Sim G) : Prop := ∀ x ∈ s.agenda, ∀ i, x.2 ≠ .arrivalTimeout i

theorem NoTimeout.callbacks {s : Sim G} {e : Ev} (h : NoTimeout (s.hold e))
    (hia : ∀ g, (c.interarrival g).1 ≤ 0) : NoTimeout (callbacks c e s) := by
  intro x hx i hev
  obtain hx | ⟨d, hsched, -⟩ := callbacks_agenda hx
  · exact h x (List.mem_cons_of_mem _ hx) i hev
  · rw [hev] at hsched
    generalize he' : Ev.arrivalTimeout i = e' at hsched
    cases hsched with
    | arrivalTimeout i hpos => exact absurd hpos (not_lt.2 (hia _))
    | gotten _ q => cases q <;> cases he'
    | sampling _ _ _ _ hs => subst he'; exact hs.elim
    | _ => cases he'

/-- If the tasks are all there at once and dispatches take time, each is started with the draw of
its rank among the puts. -/
theorem workload_of_allAtOnce (w : Draws c) (hia : ∀ g, (c.interarrival g).1 ≤ 0)
    (hd : ∀ random, (c.dispatchTime random).1 = w.dispatchTime) (hpos : 0 < w.dispatchTime) (k : ℕ) :
    Workload w.arrive
      (fun tid => w.taskDuration (Crew.rank c.numTasks c.numLeaders c.batchEnqueue tid))
      (reached c (w.state 0 0) k).metrics := by
  let follows (log : List ℕ) (s : Sim G) := ∃ m τ, Follows w.dispatchTime τ log s
    ((Crew.step c.numTasks c.batchEnqueue)^[m] (.start c.numLeaders))
  refine workload_reached w _ (K := fun _ b s => ∃ log, log.length = b ∧ Inv c.numTasks log s ∧
    NoTimeout s ∧ follows log s) ?_ (fun n b s t e rest ho hagenda h => ?_)
    (fun n a b e s ha _ ho h => ?_) (fun n b s fid tid ho h => ?_) k
  · refine ⟨[], rfl, .start c _, fun x hx i hev => ?_, 0, 0, .start c _ _⟩
    have hinit := (start_initial c _ x hx).2
    rw [hev] at hinit
    exact hinit.elim
  · obtain ⟨log, hlog, hinv, hnone, m, τ, h⟩ := h
    exact ⟨log, hlog, hinv.advance hagenda, hnone, m, τ, h.turns, h.buffer, h.puts⟩
  · obtain ⟨log, rfl, hinv, hnone, m, τ, h⟩ := h
    obtain ⟨n', a', ha'⟩ := ha.callbacks_starts
    obtain ⟨m', τ', h'⟩ := h.callbacks hpos ho.of_hold hd hia (hnone _ List.mem_cons_self)
    refine ⟨n', a', _, ha', log ++ e.starts.toList, List.length_append, hinv.callbacks,
      hnone.callbacks hia, m' + m, τ', ?_⟩
    rw [Function.iterate_add_apply]
    exact h'
  · obtain ⟨log, rfl, hinv, -, m, τ, h⟩ := h
    have hputs := h.puts
    rw [upcoming_hold] at hputs
    have ⟨_, _, hlocated⟩ := hinv.census
    have hlog : tid ∉ log := fun hmem => by
      have hstarted := hinv.mem_log.1 hmem
      rw [hold_metrics, stamped_eq_zero_iff.1
        ((hlocated tid).before_start hinv.toPutsFirst).2.1] at hstarted
      cases hstarted
    rw [Crew.rank_eq hputs.symm hlog]

/-- Without a sample interval all is recorded at time 0. -/
theorem workload_of_sampleInterval (h : c.sampleInterval ≤ 0) (random : G) (k : ℕ) :
    Workload (fun _ => 0) (fun _ => 0) (reached c random k).metrics := by
  refine ⟨fun tid x hx => stamp_eq_zero h hx, fun tid x hx => ?_⟩
  obtain ⟨b, hb, f, hf, rfl⟩ := Metrics.duration_eq_some.1 hx
  rw [stamp_eq_zero h hb, stamp_eq_zero h hf, sub_zero, max_self]

/-- The dispatch time counts for a run only as far as it is positive. -/
theorem reached_dispatchTime {d d' : ℚ} (hd : ∀ g, c.dispatchTime g = (d, g))
    (heq : max d 0 = max d' 0) (random : G) (n : ℕ) :
    reached { c with dispatchTime := fun g => (d', g) } random n = reached c random n := by
  have same : d = d' ∨ ¬0 < d ∧ ¬0 < d' := by
    rcases le_or_gt d 0 with h | h
    · rw [max_eq_right h] at heq
      exact .inr ⟨not_lt.2 h, not_lt.2 (heq ▸ le_max_left _ _)⟩
    · rw [max_eq_left h.le] at heq
      rcases max_cases d' 0 with ⟨h', -⟩ | ⟨h', -⟩
      · exact .inl (heq.trans h')
      · exact absurd (heq.trans h') h.ne'
  have hcallbacks : ∀ e s, callbacks { c with dispatchTime := fun g => (d', g) } e s =
      callbacks c e s := by
    intro e s
    cases e with
    | leaderGet lid tid =>
      simp only [callbacks, afterLeaderGet, hd]
      obtain rfl | ⟨hle, hle'⟩ := same
      · rfl
      · rw [if_neg hle, if_neg hle']
    | _ => rfl
  have hround : round { c with dispatchTime := fun g => (d', g) } = round c := by
    funext s
    simp only [round, step, hcallbacks]
  simp only [reached, hround]
  rfl

/-- A run is on the same workload as itself: what is recorded stays. -/
theorem sameWorkload_self (c : Setup G) (random : G) (n m : ℕ) :
    SameWorkload (reached c random n).metrics (reached c random m).metrics := by
  have both : ∀ {tid k x y}, (reached c random n).metrics.stamp tid k = some x →
      (reached c random m).metrics.stamp tid k = some y → x = y := by
    intro tid k x y hx hy
    have hx' := stamp_reached_of_le (le_max_left n m) hx
    have hy' := stamp_reached_of_le (le_max_right n m) hy
    exact Option.some.inj (hx'.symm.trans hy')
  refine fun tid => ⟨fun x y => both, fun x y hx hy => ?_⟩
  obtain ⟨b, hb, f, hf, rfl⟩ := Metrics.duration_eq_some.1 hx
  obtain ⟨b', hb', f', hf', rfl⟩ := Metrics.duration_eq_some.1 hy
  rw [both hb hb', both hf hf']

namespace Tunables

variable (p : Tunables) (r : Random G)

/-- Interarrival times are not drawn. -/
def Regular : Prop := p.arrivalModel ≠ "poisson" ∨ p.arrivalRate ≤ 0

/-- In the mode nobody can be given a task to execute, or no dispatch ends while the loop goes on. -/
def Idle (mode : String) : Prop :=
  p.numLeaders = 0 ∨ p.numFollowers = 0 ∨ MAX_SIM_TIME < p.dispatchTime mode

/-- Of what is drawn nothing depends on the dispatch time: durations are not drawn, or no time
passes, or there is one task at most; or the dispatch times make no difference; or durations are
drawn in neither mode, or in one of them and no other draw counts; or interarrival times are not
drawn and the tasks are started in the same order in both modes. -/
def DrawnApart : Prop :=
  p.taskDurationSd ≤ 0 ∨ p.simTraceSampleInterval ≤ 0 ∨ p.numTasks ≤ 1 ∨
    max p.dispatchTimeSw 0 = max p.dispatchTimeHw 0 ∨
    p.Idle "sw" ∧ p.Idle "hw" ∨
    (p.Idle "sw" ∨ p.Idle "hw") ∧ (p.Regular ∨ p.numTasks ≤ 2) ∨
    p.Regular ∧ (p.numLeaders ≤ 1 ∨ p.batchEnqueue ≤ 1 ∨ 0 < p.arrivalRate ∨ p.numTasks ≤ 2 ∨
      0 < p.dispatchTimeSw ∧ 0 < p.dispatchTimeHw)

variable {p r}

/-- Interarrival times are not drawn but for the Poisson model with a positive rate. -/
theorem interarrival_constant (h : p.Regular) :
    ∃ ia, (∀ g, p.interarrival r g = (ia, g)) ∧ (0 < p.arrivalRate → 0 < ia) ∧
      (p.arrivalRate ≤ 0 → ia ≤ 0) := by
  unfold interarrival
  split_ifs with hpoisson hrate
  · obtain hne | hle := h
    · exact absurd hpoisson hne
    · exact ⟨0, fun g => by rw [makeExponential, if_pos hle], fun hlt => absurd hlt (not_lt.2 hle),
        fun _ => le_rfl⟩
  · exact ⟨_, fun g => rfl, fun _ => one_div_pos.2 hrate, fun hle => absurd hrate (not_lt.2 hle)⟩
  · exact ⟨_, fun g => rfl, fun hlt => absurd hlt hrate, fun _ => le_rfl⟩

theorem nothingStarts_of_idle {mode : String} (h : p.Idle mode) (random : G) :
    NothingStarts (p.setup r mode) random := by
  obtain hl | hf | hd := h
  · exact nothingStarts_of_numLeaders hl random
  · exact nothingStarts_of_numFollowers hf random
  · exact nothingStarts_of_dispatchTime (fun _ => rfl) hd random

/-- The draws of a mode in which no durations are drawn. -/
def undrawn (p : Tunables) (r : Random G) (mode : String) :
    Draws { p.setup r mode with taskDuration := fun g => (0, g) } :=
  .ofArrivals _ (r.seed p.seed) (fun _ => rfl) (fun _ => rfl)

/-- Of a task that is started in one mode alone no durations are to be compared. -/
theorem sameWorkload_of_idle {n m : ℕ} (hidle : p.Idle "sw" ∨ p.Idle "hw")
    (harrival : ∀ tid x y, (p.run r "sw" n).metrics.stamp tid .arrival = some x →
      (p.run r "hw" m).metrics.stamp tid .arrival = some y → x = y) :
    SameWorkload (p.run r "sw" n).metrics (p.run r "hw" m).metrics := by
  refine fun tid => ⟨harrival tid, fun x y hx hy => ?_⟩
  obtain ⟨b, hb, -⟩ := Metrics.duration_eq_some.1 hx
  obtain ⟨b', hb', -⟩ := Metrics.duration_eq_some.1 hy
  obtain hsw | hhw := hidle
  · rw [run, (nothingStarts_of_idle hsw _).duration_eq_none] at hb
    cases hb
  · rw [run, (nothingStarts_of_idle hhw _).duration_eq_none] at hb'
    cases hb'

/-- Without draws for durations the tasks arrive at the same times. -/
theorem arrival_of_idle (hsw : p.Idle "sw") (hhw : p.Idle "hw") {n m tid : ℕ} {x y : ℚ}
    (hx : (p.run r "sw" n).metrics.stamp tid .arrival = some x)
    (hy : (p.run r "hw" m).metrics.stamp tid .arrival = some y) : x = y := by
  have arrival (mode : String) (hidle : p.Idle mode) (k : ℕ) {z : ℚ}
      (hz : (p.run r mode k).metrics.stamp tid .arrival = some z) :
      z = (undrawn p r mode).arrive tid := by
    rw [run, ← (nothingStarts_of_idle hidle _).reached_eq fun g => (0, g)] at hz
    exact arrival_reached (undrawn p r mode) hz
  have harrive : (undrawn p r "sw").arrive = (undrawn p r "hw").arrive :=
    Draws.arrive_congr fun _ => rfl
  rw [arrival "sw" hsw n hx, arrival "hw" hhw m hy, harrive]

/-- Without draws for the arrivals the tasks arrive at the same times. -/
theorem arrival_of_regular (h : p.Regular) {n m tid : ℕ} {x y : ℚ}
    (hx : (p.run r "sw" n).metrics.stamp tid .arrival = some x)
    (hy : (p.run r "hw" m).metrics.stamp tid .arrival = some y) : x = y := by
  obtain ⟨ia, hia, -⟩ := interarrival_constant (r := r) h
  let w (mode : String) : Draws (p.setup r mode) :=
    .ofDurations (p.setup r mode) (r.seed p.seed) (fun _ => rfl) hia
  have harrive : (w "sw").arrive = (w "hw").arrive := Draws.arrive_congr fun _ => rfl
  rw [arrival_reached (w "sw") hx, arrival_reached (w "hw") hy, harrive]

/-- The first two tasks arrive at the same times. -/
theorem arrival_of_two (htwo : p.numTasks ≤ 2) {n m tid : ℕ} {x y : ℚ}
    (hx : (p.run r "sw" n).metrics.stamp tid .arrival = some x)
    (hy : (p.run r "hw" m).metrics.stamp tid .arrival = some y) : x = y := by
  have hlt : tid < 2 := lt_of_lt_of_le ((inv_reached _ _ n).lt_of_stamp hx) htwo
  exact (arrival_of_lt_two (fun _ => rfl) hlt hx).trans
    (arrival_of_lt_two (fun _ => rfl) hlt hy).symm

/-- A single task takes equally long in both modes. -/
theorem duration_of_one (hone : p.numTasks ≤ 1) {n m tid : ℕ} {x y : ℚ}
    (hx : (p.run r "sw" n).metrics.duration tid = some x)
    (hy : (p.run r "hw" m).metrics.duration tid = some y) : x = y := by
  obtain ⟨b, hb, f, hf, rfl⟩ := Metrics.duration_eq_some.1 hx
  obtain ⟨b', hb', f', hf', rfl⟩ := Metrics.duration_eq_some.1 hy
  have hlt : tid < p.numTasks := (inv_reached _ _ n).lt_of_stamp hb
  have hone : p.numTasks = 1 := by omega
  have lasting (mode : String) (k : ℕ) := lasting_of_one (c := p.setup r mode) hone (fun _ => rfl)
    (r.seed p.seed) k
  rw [(lasting "sw" n).ended tid b f hb hf, (lasting "hw" m).ended tid b' f' hb' hf',
    add_sub_cancel_left, add_sub_cancel_left]
  rfl

/-- If interarrival times are not drawn, it is enough that tasks are started in the same order. -/
theorem sameWorkload_of_regular (h : p.Regular)
    (horder : p.numLeaders ≤ 1 ∨ p.batchEnqueue ≤ 1 ∨ 0 < p.arrivalRate ∨ p.numTasks ≤ 2 ∨
      0 < p.dispatchTimeSw ∧ 0 < p.dispatchTimeHw) (n m : ℕ) :
    SameWorkload (p.run r "sw" n).metrics (p.run r "hw" m).metrics := by
  obtain ⟨ia, hia, hpos, hle⟩ := interarrival_constant (r := r) h
  let w (mode : String) : Draws (p.setup r mode) :=
    .ofDurations (p.setup r mode) (r.seed p.seed) (fun _ => rfl) hia
  have harrive : (w "sw").arrive = (w "hw").arrive := Draws.arrive_congr fun _ => rfl
  have inLine (hfifo : p.numLeaders ≤ 1 ∨ p.batchEnqueue ≤ 1 ∨ (∀ g, 0 < (p.interarrival r g).1) ∨
      p.numTasks ≤ 2) : SameWorkload (p.run r "sw" n).metrics (p.run r "hw" m).metrics :=
    (workload_of_inLine (w "sw") hfifo (fun _ => rfl) n).same
      (workload_of_inLine (w "hw") hfifo (fun _ => rfl) m) harrive
  obtain hl | hb | hrate | htwo | ⟨hsw, hhw⟩ := horder
  · exact inLine (.inl hl)
  · exact inLine (.inr (.inl hb))
  · exact inLine (.inr (.inr (.inl fun g => by rw [hia]; exact hpos hrate)))
  · exact inLine (.inr (.inr (.inr htwo)))
  · rcases lt_or_ge 0 p.arrivalRate with hrate | hrate
    · exact inLine (.inr (.inr (.inl fun g => by rw [hia]; exact hpos hrate)))
    · have hnone : ∀ g, (p.interarrival r g).1 ≤ 0 := fun g => by rw [hia]; exact hle hrate
      exact (workload_of_allAtOnce (w "sw") hnone (fun _ => rfl) hsw n).same
        (workload_of_allAtOnce (w "hw") hnone (fun _ => rfl) hhw m) harrive

/-- **The two modes are run on the same workload**, if nothing that is drawn depends on
the dispatch time: in all states that the two runs reach. -/
theorem same_workload_of_drawnApart (p : Tunables) (r : Random G) (h : p.DrawnApart) (n m : ℕ) :
    SameWorkload (p.run r "sw" n).metrics (p.run r "hw" m).metrics := by
  obtain hsd | hinterval | hone | hdispatch | ⟨hsw, hhw⟩ | ⟨hidle, hfew⟩ | ⟨hregular, horder⟩ := h
  · have workload := fun mode k => workload_of_constant
      (.ofArrivals (p.setup r mode) (r.seed p.seed) (fun _ => rfl)
        (makeNormal_of_le r p.taskDurationMean hsd)) (fun _ => rfl) k
    exact (workload "sw" n).same (workload "hw" m) (Draws.arrive_congr fun _ => rfl)
  · exact (workload_of_sampleInterval hinterval _ n).same
      (workload_of_sampleInterval hinterval _ m) rfl
  · exact fun tid => ⟨fun x y => arrival_of_two (hone.trans one_le_two), fun x y => duration_of_one hone⟩
  · have hrun : p.run r "hw" m = p.run r "sw" m :=
      reached_dispatchTime (c := p.setup r "sw") (fun _ => rfl) hdispatch _ m
    rw [hrun]
    exact sameWorkload_self _ _ n m
  · exact sameWorkload_of_idle (.inl hsw) fun tid x y => arrival_of_idle hsw hhw
  · refine sameWorkload_of_idle hidle fun tid x y hx hy => ?_
    obtain hregular | htwo := hfew
    · exact arrival_of_regular hregular hx hy
    · exact arrival_of_two htwo hx hy
  · exact sameWorkload_of_regular hregular horder n m

/-- A generator that counts what is drawn; a duration is the longer the later it is drawn. -/
def counting : Random ℕ where
  seed _ := 0
  expovariate _ k := (3, k + 1)
  gauss mu _ k := (mu + k, k + 1)

/-- Two tasks for one leader and one follower. -/
def twoDraws (arrivalModel : String) : Tunables where
  seed := 42
  numTasks := 2
  numFollowers := 1
  numLeaders := 1
  taskDurationMean := 10
  taskDurationSd := 1
  dispatchTimeSw := 5
  dispatchTimeHw := 1
  arrivalRate := 1 / 5
  arrivalModel := arrivalModel
  batchEnqueue := 1
  simTraceSampleInterval := 2

theorem same_workload_deterministic :
    SameWorkload ((twoDraws "deterministic").run counting "sw" 50).metrics
      ((twoDraws "deterministic").run counting "hw" 50).metrics :=
  same_workload_of_drawnApart _ counting
    (.inr (.inr (.inr (.inr (.inr (.inr ⟨.inl (by decide), .inl (by decide)⟩)))))) 50 50

/-- With Poisson arrivals the second task arrives, and the next interarrival time is
drawn, between the start of the first task in one mode and in the other. -/
theorem not_same_workload_poisson :
    (twoDraws "poisson").Completed ((twoDraws "poisson").run counting "sw" 50) ∧
    (twoDraws "poisson").Completed ((twoDraws "poisson").run counting "hw" 50) ∧
    ¬SameWorkload ((twoDraws "poisson").run counting "sw" 50).metrics
      ((twoDraws "poisson").run counting "hw" 50).metrics := by
  refine ⟨by unfold Completed; decide +kernel, by unfold Completed; decide +kernel, fun h => ?_⟩
  have hsw : ((twoDraws "poisson").run counting "sw" 50).metrics.duration 0 = some 12 := by
    decide +kernel
  have hhw : ((twoDraws "poisson").run counting "hw" 50).metrics.duration 0 = some 11 := by
    decide +kernel
  exact absurd ((h 0).2 12 11 hsw hhw) (by decide)

end Tunables

end TaskQueueCoSim.Behavioral
