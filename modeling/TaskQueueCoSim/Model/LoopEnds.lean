import TaskQueueCoSim.Model.BusyTime
import TaskQueueCoSim.Model.Potential

/-!
# The loop of run_sim ends (model/behavioral.py)

The samplers go on for ever, so the loop is left by one of its breaks.  While
work is left, an event that is not of a sampler is due no later than all that
has been drawn so far; so the tasks are done before the limit if there is time
for all that is drawn.

* `round_halts`: a round is the last;
* `exists_working`: while work is left, some process is at work;
* `loop_ends`: the loop ends, and with all work done if there is time for it.
-/

namespace TaskQueueCoSim.Behavioral

open Agenda Sim

variable {G : Type} {c : Setup G} {s : Sim G} {e : Ev}

/-! ## The last round -/

/-- The loop is left by one of its breaks. -/
def Left (c : Setup G) (s : Sim G) : Prop :=
  c.numTasks ≤ s.metrics.completedTasks ∨ MAX_SIM_TIME < s.now

/-- An event costs one, whatever it is. -/
def Cost.unit : Cost where
  arrivalInit := 1
  leaderInit := 1
  followerInit := 1
  arrivalPut := 1
  arrivalTimeout := 1
  arrivalEnd := 1
  leaderGet := 1
  leaderTimeout := 1
  execPut := 1
  followerGet := 1
  followerTimeout := 1
  tick := 1

/-- A round takes the potential down, unless it takes the time past the limit. -/
theorem round_less {s' : Sim G} (hpos : 0 < c.sampleInterval) (h : round c s = some s') :
    round c s' = none ∨ s'.potential .unit c < s.potential .unit c := by
  obtain ⟨t, e, rest, hagenda, -, -, rfl⟩ := round_cases h
  by_cases ht : t ≤ MAX_SIM_TIME
  · have hstep := potential_callbacks (u := .unit) (c := c) e { s with now := t, agenda := rest }
      (.inr ⟨hpos, ht⟩)
    have hone : Cost.unit.of e = 1 := by cases e <;> rfl
    have hsame : (hold e { s with now := t, agenda := rest }).potential .unit c =
        s.potential .unit c := by
      simp only [potential, hold_agenda, hold_stores, hagenda]
    right
    omega
  · left
    unfold round
    rw [callbacks_now, if_pos (not_le.1 ht), ite_self]

/-- **The loop is left.** -/
theorem round_halts (hpos : 0 < c.sampleInterval) (random : G) :
    ∃ n, round c (reached c random n) = none :=
  Machine.steps_halt (Sim.potential .unit c) (fun _ _ h => round_less hpos h) _

/-- The callbacks of an event leave the others on the agenda. -/
theorem mem_callbacks {x : ℚ × Ev} (hx : x ∈ s.agenda) : x ∈ (callbacks c e s).agenda :=
  callbacks_closed e s (I := fun s' => x ∈ s'.agenda) (fun _ _ _ _ h => h) (fun _ _ h => h)
    (fun _ _ _ h => h) (fun _ _ _ _ _ h => mem_schedule.2 (.inr h)) hx

/-- The depth sampler waits for an event, and no sampler has failed. -/
structure Sampled (s : Sim G) : Prop where
  waits : ∃ x ∈ s.agenda, x.2 = .depthInit ∨ x.2 = .depthTimeout
  works : ∀ x ∈ s.agenda, x.2 ≠ .samplerFailed

namespace Sampled

theorem start (c : Setup G) (random : G) : Sampled (start c random) := by
  refine ⟨⟨(0, .depthInit), by simp [Behavioral.start], .inl rfl⟩, fun x hx hfail => ?_⟩
  have hinit := (start_initial c random x hx).2
  rw [hfail] at hinit
  exact hinit.elim

theorem advance (h : Sampled s) (t : ℚ) : Sampled { s with now := t } := ⟨h.waits, h.works⟩

theorem callbacks (h : Sampled (s.hold e)) (hpos : 0 < c.sampleInterval) :
    Sampled (callbacks c e s) := by
  have again : (e = .depthInit ∨ e = .depthTimeout) →
      (s.now + c.sampleInterval, .depthTimeout) ∈ (Behavioral.callbacks c e s).agenda := by
    rintro (rfl | rfl) <;>
    · simp only [Behavioral.callbacks, depthLoop, Behavioral.sampleTimeout, if_neg (not_lt.2 hpos.le)]
      exact mem_schedule.2 (.inl rfl)
  constructor
  · obtain ⟨x, hx, hev⟩ := h.waits
    rcases List.mem_cons.1 hx with rfl | hx
    · exact ⟨_, again hev, .inr rfl⟩
    · exact ⟨x, mem_callbacks hx, hev⟩
  · intro x hx hfail
    obtain old | ⟨d, hsched, -⟩ := callbacks_agenda hx
    · exact h.works x (List.mem_cons_of_mem _ old) hfail
    · rw [hfail] at hsched
      generalize he' : Ev.samplerFailed = e' at hsched
      cases hsched with
      | samplerFailed _ hneg => exact absurd hneg (not_lt.2 hpos.le)
      | gotten _ q => cases q <;> cases he'
      | sampling _ _ _ _ hs => subst he'; exact hs.elim
      | _ => cases he'

/-- A round that does nothing is a break of the loop. -/
theorem left (h : Sampled s) (hround : round c s = none) : Left c s := by
  unfold round at hround
  split_ifs at hround with hdone hlate
  · exact .inl hdone
  · exact .inr hlate
  · obtain ⟨x, hx, -⟩ := h.waits
    unfold step at hround
    split at hround
    · rename_i hnil
      rw [hnil] at hx
      cases hx
    · rename_i hfail
      exact absurd rfl (h.works _ (by rw [hfail]; exact List.mem_cons_self ..))
    · cases hround

end Sampled

theorem sampled_reached (hpos : 0 < c.sampleInterval) (random : G) (n : ℕ) :
    Sampled (reached c random n) :=
  loop_invariant (I := Sampled) (.start c random) (fun _ t _ _ h _ => h.advance t)
    (fun _ _ h => h.callbacks hpos) n

/-! ## Work that is left -/

/-- The arrival process waits for an event, or all tasks have arrived. -/
def Arrives (c : Setup G) (s : Sim G) : Prop :=
  (∃ x ∈ s.agenda, x.2.next.isSome) ∨
    ∀ tid < c.numTasks, (s.metrics.stamp tid .arrival).isSome

namespace Arrives

theorem start (c : Setup G) (random : G) : Arrives c (start c random) :=
  .inl ⟨(0, .arrivalInit), by simp [Behavioral.start], rfl⟩

theorem advance (h : Arrives c s) (t : ℚ) : Arrives c { s with now := t } := h

theorem arrivalLoop {n : ℕ} (h : ∀ tid, (s.metrics.stamp tid .arrival).isSome ↔ tid < n) :
    Arrives c (arrivalLoop c n s) := by
  unfold Behavioral.arrivalLoop
  split_ifs with hn
  · exact .inl ⟨_, mem_schedule.2 (.inl rfl), rfl⟩
  · exact .inr fun tid htid => (h tid).2 (by omega)

theorem callbacks {n : ℕ} (h : Arrives c (s.hold e)) (ha : Arrivals c.numTasks n (s.hold e)) :
    Arrives c (callbacks c e s) := by
  cases hnext : e.next with
  | none =>
    obtain ⟨x, hx, hsome⟩ | harr := h
    · rcases List.mem_cons.1 hx with rfl | hx
      · rw [hnext] at hsome
        cases hsome
      · exact .inl ⟨x, mem_callbacks hx, hsome⟩
    · refine .inr fun tid htid => ?_
      obtain hsame | ⟨hnow, -⟩ | ⟨hi, -⟩ := callbacks_stamp_cases (c := c) e s tid .arrival
      · rw [hsame]
        exact harr tid htid
      · rw [hnow]
        rfl
      · rw [hnext] at hi
        cases hi
  | some i =>
    obtain rfl := ha.next _ (List.mem_cons_self ..) i hnext
    have harr : ∀ tid, (s.metrics.stamp tid .arrival).isSome ↔ tid < i := ha.arrived
    cases e with
    | arrivalInit | arrivalTimeout =>
      cases hnext
      exact arrivalLoop harr
    | arrivalPut j =>
      cases hnext
      simp only [Behavioral.callbacks, afterArrivalPut]
      split_ifs
      · exact .inl ⟨_, mem_schedule.2 (.inl rfl), rfl⟩
      · exact arrivalLoop (by simpa using harr)
    | _ => cases hnext

end Arrives

/-- What a sampler waits for is no work. -/
theorem Ev.Sampling.idle (h : e.Sampling) : e.next = none ∧ e.process = none ∧ e.tells = none ∧
    ∀ tid k, e.weight tid k = 0 := by
  cases e <;> first | exact h.elim | exact ⟨rfl, rfl, rfl, fun _ k => by cases k <;> rfl⟩

/-- **Work is conserved.**  While a task is left, not only the samplers wait for events: a
task that waits in a store is got by one of the processes that get from it. -/
theorem exists_working {log : List ℕ} (hinv : Inv c.numTasks log s) (hp : Present c s)
    (ht : Told s) (ha : Arrives c s) (hservers : ∀ q, 1 ≤ c.servers q)
    (hrun : s.metrics.completedTasks < c.numTasks) : ∃ x ∈ s.agenda, ¬x.2.Sampling := by
  by_contra hno
  have idle : ∀ x ∈ s.agenda, x.2.Sampling := fun x hx => by
    by_contra hx'
    exact hno ⟨x, hx, hx'⟩
  -- all tasks have arrived
  have arrived : ∀ tid < c.numTasks, (s.metrics.stamp tid .arrival).isSome := by
    refine ha.resolve_left ?_
    rintro ⟨x, hx, hsome⟩
    rw [(idle x hx).idle.1] at hsome
    cases hsome
  -- one of them is not finished, and it is in a store
  have left : ∃ tid ∈ Finset.range c.numTasks, s.stamped tid .finish < 1 := by
    have hcount : ∑ tid ∈ Finset.range c.numTasks, s.stamped tid .finish < c.numTasks :=
      lt_of_eq_of_lt hinv.completed.symm hrun
    exact Finset.exists_lt_of_sum_lt (by simpa using hcount)
  obtain ⟨tid, htid, hfin⟩ := left
  obtain ⟨n, harr, hl⟩ := hinv.census
  have hn : tid < n := (harr.arrived tid).1 (arrived tid (Finset.mem_range.1 htid))
  have placed := (hl tid).placed
  rw [if_pos hn] at placed
  have found : ∀ k, s.found tid k = s.waiting tid k := fun k => by
    rw [Sim.found, tally_eq_zero fun x hx => (idle x hx).idle.2.2.2 tid k, Nat.add_zero]
  have stored : ∃ q, (s.stores q).items ≠ [] := by
    by_contra hnone
    have hitems : ∀ q, (s.stores q).items = [] := fun q => by
      by_contra hq
      exact hnone ⟨q, hq⟩
    simp only [found, waiting, hitems, List.count_nil] at placed
    omega
  obtain ⟨q, hq⟩ := stored
  -- so nothing waits for a get from this store
  have hget : (s.stores q).getQueue = [] := by
    have untold : tally (Ev.untold q) s.agenda = 0 := tally_eq_zero fun x hx => by
      simp [Ev.untold, (idle x hx).idle.2.2.1]
    obtain hle | hle := ht q
    · rw [untold, Nat.le_zero, List.length_eq_zero_iff] at hle
      exact absurd hle hq
    · rwa [untold, Nat.le_zero, List.length_eq_zero_iff] at hle
  obtain ⟨x, hx, hproc⟩ := hp.exists_event (hservers q) hget
  rw [(idle x hx).idle.2.1] at hproc
  cases hproc

/-! ## Time for the work -/

/-- No value that is drawn is negative. -/
def Setup.Nonneg (c : Setup G) : Prop := ∀ k random, 0 ≤ (c.draw k random).1

/-- The value that is drawn for an event. -/
def Setup.takes (c : Setup G) (x : Ev × G) : ℚ := x.1.draws.elim 0 fun k => (c.draw k x.2).1

theorem Setup.Nonneg.takes (hc : c.Nonneg) (x : Ev × G) : 0 ≤ c.takes x := by
  unfold Setup.takes
  cases x.1.draws with
  | none => exact le_rfl
  | some k => exact hc k x.2

/-- The time goes on to `D` for work, and only the samplers wait for longer. -/
structure InTime (D : ℚ) (s : Sim G) : Prop where
  now_le : s.now ≤ D
  due : ∀ x ∈ s.agenda, ¬x.2.Sampling → x.1 ≤ D

namespace InTime

variable {D : ℚ}

theorem start (c : Setup G) (random : G) : InTime 0 (start c random) := by
  refine ⟨le_rfl, fun x hx _ => ?_⟩
  obtain ⟨e, -, rfl⟩ := List.mem_map.1 hx
  exact le_rfl

/-- Time goes on to an event that is due before the work. -/
theorem advance (h : InTime D s) (hs : Ordered s) {t : ℚ} {rest : List (ℚ × Ev)}
    (hagenda : s.agenda = (t, e) :: rest) (hwork : ∃ x ∈ s.agenda, ¬x.2.Sampling) :
    InTime D { s with now := t } := by
  obtain ⟨x, hx, hev⟩ := hwork
  exact ⟨(hs.head_le hagenda x hx).trans (h.due x hx hev), h.due⟩

/-- What an event schedules for work is due after the value that is drawn for it. -/
theorem callbacks (h : InTime D (s.hold e)) (hc : c.Nonneg) :
    InTime (D + c.takes (e, s.random)) (callbacks c e s) := by
  have hle := hc.takes (e, s.random)
  have hnow : s.now ≤ D := h.now_le
  refine ⟨by rw [callbacks_now]; linarith, fun x hx hev => ?_⟩
  obtain old | ⟨d, hsched, hdue⟩ := callbacks_agenda hx
  · have := h.due x (List.mem_cons_of_mem _ old) hev
    linarith
  · suffices d ≤ c.takes (e, s.random) by linarith
    generalize x.2 = e' at hsched hev
    cases hsched with
    | arrivalTimeout | leaderTimeout | followerTimeout => exact le_rfl
    | sampling _ _ _ _ hs => exact absurd hs hev
    | _ => exact hle

end InTime

/-- What has been drawn for each purpose is all that has been drawn. -/
theorem sum_takes (c : Setup G) (random : G) (n : ℕ) : ((history c random n).map c.takes).sum =
    (drawnFor c random n .interarrival).sum + (drawnFor c random n .dispatch).sum +
      (drawnFor c random n .duration).sum := by
  unfold drawnFor
  induction history c random n with
  | nil => simp
  | cons x log ih =>
    rw [List.map_cons, List.sum_cons, ih, Setup.takes]
    cases hx : x.1.draws with
    | none => simp [hx]
    | some k => cases k <;> simp [hx] <;> ring

theorem in_time (hc : c.Nonneg) (hservers : ∀ q, 1 ≤ c.servers q) (random : G) (n : ℕ) :
    InTime ((history c random n).map c.takes).sum (reached c random n) := by
  have h : (∃ log, Inv c.numTasks log (reached c random n)) ∧ Present c (reached c random n) ∧
      Told (reached c random n) ∧ Arrives c (reached c random n) ∧
      InTime ((history c random n).map c.takes).sum (reached c random n) := by
    refine loop_invariant_draws (fun e g => some (e, g)) (I := fun log s =>
      (∃ log, Inv c.numTasks log s) ∧ Present c s ∧ Told s ∧ Arrives c s ∧
        InTime (log.map c.takes).sum s)
      ⟨⟨[], .start c random⟩, .start c random, .start c random, .start c random, .start c random⟩
      (fun log s t e rest h hagenda hrun => ?_) (fun log e s h => ?_) n
    · obtain ⟨⟨starts, hinv⟩, hp, ht, ha, hin⟩ := h
      exact ⟨⟨starts, hinv.advance hagenda⟩, hp.advance t, ht.advance t, ha.advance t,
        hin.advance hinv.toOrdered hagenda (exists_working hinv hp ht ha hservers hrun)⟩
    · obtain ⟨⟨starts, hinv⟩, hp, ht, ha, hin⟩ := h
      obtain ⟨k, harr, -⟩ := hinv.census
      have hsum : ((log ++ (some (e, s.random)).toList).map c.takes).sum =
          (log.map c.takes).sum + c.takes (e, s.random) := by simp
      rw [hsum]
      exact ⟨⟨_, hinv.callbacks⟩, hp.callbacks, ht.callbacks, ha.callbacks harr, hin.callbacks hc⟩
  exact h.2.2.2.2

/-- The time for what is drawn in `n` rounds, with `d` for the dispatch of each task. -/
def allotted (c : Setup G) (d : ℚ) (random : G) (n : ℕ) : ℚ :=
  (drawnFor c random n .interarrival).sum + c.numTasks * d + (drawnFor c random n .duration).sum

/-- Values of at most `d` are drawn once for each task, if at all. -/
theorem sum_drawnFor_le (random : G) {k : Purpose} {d : ℚ} (hd : 0 ≤ d)
    (hdraw : ∀ g, (c.draw k g).1 ≤ d) (n : ℕ) : (drawnFor c random n k).sum ≤ c.numTasks * d := by
  have hall : ∀ x ∈ drawnFor c random n k, x ≤ d := by
    intro x hx
    obtain ⟨y, -, hy⟩ := List.mem_filterMap.1 hx
    split_ifs at hy
    exact (Option.some.inj hy).symm.trans_le (hdraw _)
  have hlen : ((drawnFor c random n k).length : ℚ) ≤ c.numTasks := by
    exact_mod_cast length_drawnFor_le c random n k
  have hsum := List.sum_le_card_nsmul _ d hall
  rw [nsmul_eq_mul] at hsum
  exact hsum.trans (mul_le_mul_of_nonneg_right hlen hd)

/-! ## Every run -/

/-- The loop ends; if it has time for what is drawn, with dispatch times of at most `d`, it
ends when all tasks are done. -/
structure LoopEnds (c : Setup G) (random : G) : Prop where
  terminates : ∃ n, round c (reached c random n) = none ∧ Left c (reached c random n)
  completes : ∀ d, (∀ g, (c.dispatchTime g).1 ≤ d) → c.Nonneg → 1 ≤ c.numLeaders →
    1 ≤ c.numFollowers → (∀ n, allotted c d random n ≤ MAX_SIM_TIME) →
    ∃ n, round c (reached c random n) = none ∧
      (reached c random n).metrics.completedTasks = c.numTasks ∧
      (reached c random n).now ≤ allotted c d random n

/-- **The loop of run_sim ends.**  If the samplers wait at all, a round is the last, whatever is
drawn; and if there is a leader and a follower, and time for what is drawn before the limit, the
loop ends in that time with all tasks done. -/
theorem loop_ends (c : Setup G) (random : G) (hpos : 0 < c.sampleInterval) : LoopEnds c random := by
  obtain ⟨n, hn⟩ := round_halts hpos random
  have hleft := (sampled_reached hpos random n).left hn
  refine ⟨⟨n, hn, hleft⟩, fun d hdraw hc hleaders hfollowers hlimit => ?_⟩
  have hservers : ∀ q, 1 ≤ c.servers q := by
    rintro (_ | _)
    · exact hleaders
    · exact hfollowers
  have hnow : (reached c random n).now ≤ allotted c d random n := by
    have hin := (in_time hc hservers random n).now_le
    have hd : 0 ≤ d := (hc .dispatch random).trans (hdraw random)
    have hdispatch := sum_drawnFor_le (k := .dispatch) random hd hdraw n
    rw [sum_takes] at hin
    unfold allotted
    linarith
  have hdone := hleft.resolve_right (not_lt.2 (hnow.trans (hlimit n)))
  have hle : (reached c random n).metrics.completedTasks ≤ c.numTasks := by
    rw [(inv_reached c random n).completed]
    exact (Finset.sum_le_card_nsmul _ _ 1 fun tid _ => stamped_le_one _ tid _).trans (by simp)
  exact ⟨n, hn, le_antisymm hle hdone, hnow⟩

/-- The tasks of `twoBatches` come at once; there is time for their dispatch and execution. -/
theorem loop_ends_twoBatches : ∃ n, (reached twoBatches () n).metrics.completedTasks = 3 ∧
    (reached twoBatches () n).now ≤ 3 * 3 + 3 * 4 := by
  have hc : twoBatches.Nonneg := by
    rintro k ⟨⟩
    cases k <;> decide
  have hallotted : ∀ n, allotted twoBatches 3 () n ≤ 3 * 3 + 3 * 4 := by
    intro n
    have hia : (drawnFor twoBatches () n .interarrival).sum ≤ 3 * 0 :=
      sum_drawnFor_le () le_rfl (fun _ => le_rfl) n
    have hdur : (drawnFor twoBatches () n .duration).sum ≤ 3 * 4 :=
      sum_drawnFor_le () (by norm_num) (fun _ => le_rfl) n
    have htasks : (twoBatches.numTasks : ℚ) = 3 := rfl
    unfold allotted
    rw [htasks]
    linarith
  have hlimit : ∀ n, allotted twoBatches 3 () n ≤ MAX_SIM_TIME := fun n =>
    (hallotted n).trans (by norm_num [MAX_SIM_TIME])
  obtain ⟨n, -, hdone, hnow⟩ := (loop_ends twoBatches () (by decide)).completes 3 (fun _ => le_rfl) hc
    (by decide) (by decide) hlimit
  exact ⟨n, hdone, hnow.trans (hallotted n)⟩

end TaskQueueCoSim.Behavioral
