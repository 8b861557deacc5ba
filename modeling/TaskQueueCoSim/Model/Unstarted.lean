import TaskQueueCoSim.Model.Presence
import TaskQueueCoSim.Model.Timeline

/-!
# Runs in which no task is started (model/behavioral.py)

Without leaders, without followers, or if a dispatch takes longer than the loop runs, no
follower gets a task.  Durations are not drawn in such a run, and none is recorded.  Without a
sample interval a run has no time to record but 0.
-/

namespace TaskQueueCoSim.Behavioral

open Agenda Sim

variable {G : Type} {c : Setup G} {random : G}

/-- No follower has been granted a task. -/
def Ungranted (s : Sim G) : Prop := ∀ x ∈ s.agenda, ∀ fid tid, x.2 ≠ .followerGet fid tid

def NothingStarts (c : Setup G) (random : G) : Prop := ∀ n, Ungranted (reached c random n)

/-- Nothing else draws a duration. -/
theorem callbacks_taskDuration (f : G → ℚ × G) {e : Ev} (he : ∀ fid tid, e ≠ .followerGet fid tid)
    (s : Sim G) : callbacks { c with taskDuration := f } e s = callbacks c e s := by
  cases e with
  | followerGet fid tid => exact absurd rfl (he fid tid)
  | _ => rfl

theorem Ungranted.round {s : Sim G} (h : Ungranted s) (f : G → ℚ × G) :
    Behavioral.round { c with taskDuration := f } s = Behavioral.round c s := by
  unfold Behavioral.round step
  cases hagenda : s.agenda with
  | nil => rfl
  | cons x rest =>
    obtain ⟨t, e⟩ := x
    have he : ∀ fid tid, e ≠ .followerGet fid tid := h (t, e) (by simp [hagenda])
    cases e <;> simp only [callbacks_taskDuration f he]

/-- What no event of a run records is recorded for no task. -/
theorem stamp_reached_eq_none {k : Stamp} (hk : k ≠ .arrival)
    (h : ∀ n, ∀ x ∈ (reached c random n).agenda, ∀ s tid, ¬Records c s x.2 tid k) (n tid : ℕ) :
    (reached c random n).metrics.stamp tid k = none := by
  induction n with
  | zero => cases k <;> rfl
  | succ n ih =>
    obtain hsame | ⟨t, e, rest, hagenda, hnext⟩ := reached_succ_cases c random n
    · rw [hsame, ih]
    · rw [hnext, Option.eq_none_iff_forall_ne_some]
      intro x hx
      obtain hold | ⟨-, hrec⟩ := callbacks_stamp hk hx
      · exact absurd (hold.symm.trans ih) (by simp)
      · exact h n (t, e) (by simp [hagenda]) _ _ hrec

namespace NothingStarts

/-- How long tasks take makes no difference. -/
theorem reached_eq (h : NothingStarts c random) (f : G → ℚ × G) (n : ℕ) :
    reached { c with taskDuration := f } random n = reached c random n := by
  induction n with
  | zero => rfl
  | succ n ih => rw [reached_succ, reached_succ, ih, (h n).round f]

/-- No duration is recorded. -/
theorem duration_eq_none (h : NothingStarts c random) (n tid : ℕ) :
    (reached c random n).metrics.stamp tid .startExec = none := by
  refine stamp_reached_eq_none (by decide) (fun n x hx s tid hrec => ?_) n tid
  generalize hev : x.2 = e at hrec
  cases hrec
  exact h n x hx _ _ hev

end NothingStarts

/-! ## Without followers -/

theorem nothingStarts_of_numFollowers (h : c.numFollowers = 0) (random : G) :
    NothingStarts c random := by
  intro n x hx fid tid hev
  have staff : (reached c random n).staff (fun p => p.1 == .execQueue) = 0 := by
    refine loop_invariant (I := fun s : Sim G => s.staff (fun p => p.1 == .execQueue) = 0) ?_
      (fun _ _ _ _ hs _ => hs) (fun e s hs => ?_) n
    · rw [staff_start, h]
      simp
    · rw [staff_callbacks, ← staff_hold]
      exact hs
  have hle := le_tally (Ev.staff fun p => p.1 == .execQueue) hx
  rw [hev] at hle
  rw [Sim.staff] at staff
  simp only [Ev.staff, Ev.process, Option.any_some, beq_self_eq_true, Bool.toNat_true] at hle staff
  omega

/-! ## Without puts -/

/-- No put into the execution queue is under way. -/
def Unput (s : Sim G) : Prop := ∀ x ∈ s.agenda, x.2.tells ≠ some .execQueue

/-- Nothing can be granted from the execution queue before the first put. -/
theorem Census.ungranted {N : ℕ} {s : Sim G} (h : Census N s) (hput : Unput s)
    (henq : ∀ tid, s.metrics.stamp tid .enqueued = none) : Ungranted s := by
  obtain ⟨n, -, hl⟩ := h
  intro x hx fid tid hev
  have putting : tally (Ev.weight tid .putting) s.agenda = 0 := by
    refine tally_eq_zero fun y hy => ?_
    have := hput y hy
    cases hy2 : y.2 <;> rw [hy2] at this <;> first | rfl | exact absurd rfl this
  have enqueued := stamped_eq_zero_iff.2 (henq tid)
  have hle := le_tally (Ev.weight tid .queued) hx
  have hq := (hl tid).enqueued
  rw [enqueued, found, found, putting] at hq
  rw [hev] at hle
  simp only [Ev.weight, List.count_singleton_self, waiting] at hle hq
  omega

theorem Records.tells {s : Sim G} {e : Ev} {tid : ℕ} (h : Records c s e tid .enqueued) :
    e.tells = some .execQueue := by
  cases h
  rfl

theorem nothingStarts_of_numLeaders (h : c.numLeaders = 0) (random : G) : NothingStarts c random := by
  have unput : ∀ n, Unput (reached c random n) := by
    intro n x hx htells
    have staff : (reached c random n).staff (fun p => p.1 == .arrivalBuffer) = 0 := by
      refine loop_invariant (I := fun s : Sim G => s.staff (fun p => p.1 == .arrivalBuffer) = 0) ?_
        (fun _ _ _ _ hs _ => hs) (fun e s hs => ?_) n
      · rw [staff_start, h]
        simp
      · rw [staff_callbacks, ← staff_hold]
        exact hs
    have hle := le_tally (Ev.staff fun p => p.1 == .arrivalBuffer) hx
    rw [Sim.staff] at staff
    cases hev : x.2 <;> rw [hev] at hle htells <;> cases htells
    simp only [Ev.staff, Ev.process, Option.any_some, beq_self_eq_true, Bool.toNat_true] at hle staff
    omega
  exact fun n => (inv_reached c random n).census.ungranted (unput n)
    (stamp_reached_eq_none (by decide) (fun n x hx _ _ hrec => unput n x hx hrec.tells) n)

/-! ## With dispatches beyond the cap -/

/-- No dispatch has been paid for while the loop goes on. -/
structure Undispatched (d : ℚ) (s : Sim G) : Prop where
  ungranted : Ungranted s
  enqueued : ∀ tid, s.metrics.stamp tid .enqueued = none
  due : ∀ x ∈ s.agenda, ∀ lid batch start, x.2 = .leaderTimeout lid batch start → d ≤ x.1
  unput : s.now ≤ MAX_SIM_TIME → Unput s

/-- A leader that goes on after a dispatch grants no follower a task. -/
theorem ungranted_afterDispatch {s : Sim G} (h : Ungranted s) (lid : ℕ) (batch : List ℕ) (start : ℚ) :
    Ungranted (afterDispatch lid batch start s) := by
  have scheduled : ∀ {s' : Sim G} {e : Ev}, Ungranted s' → (∀ fid tid, e ≠ .followerGet fid tid) →
      Ungranted (s'.schedule 0 e) := by
    intro s' e h' he x hx
    obtain rfl | hx := mem_schedule.1 hx
    · exact he
    · exact h' x hx
  unfold afterDispatch
  cases batch with
  | nil =>
    rw [enqueueLoop, Sim.get]
    obtain ⟨hs, -⟩ | ⟨t, items, pid, getQueue, -, hs⟩ := triggerGet_cases (Sim.setStore
      .arrivalBuffer _ _ (s.record (.addLeaderBusy lid (s.now - start)))) .arrivalBuffer
    · rw [hs]
      exact h
    · rw [hs]
      exact scheduled h (fun fid tid => by rintro ⟨⟩)
  | cons t rest => exact scheduled h (fun fid tid => by rintro ⟨⟩)

/-- A put follows a dispatch that has been paid for, or another put. -/
theorem Schedules.not_put {s : Sim G} {e e' : Ev} {δ : ℚ} (h : Schedules c s e δ e')
    (hd : 0 < (c.dispatchTime s.random).1) (hput : e.tells ≠ some .execQueue)
    (hpaid : ∀ lid batch start, e ≠ .leaderTimeout lid batch start) :
    e'.tells ≠ some .execQueue := by
  cases h with
  | putAtOnce _ _ _ _ hle => exact absurd hd (not_lt.2 hle)
  | putFirst => exact absurd rfl (hpaid _ _ _)
  | putNext => exact absurd rfl hput
  | gotten _ q => cases q <;> exact nofun
  | sampling _ e' _ _ hs => cases e' <;> first | exact hs.elim | exact nofun
  | _ => exact nofun

namespace Undispatched

variable {d : ℚ} {s : Sim G} {e : Ev}

/-- The first dispatch that has been paid for ends the loop. -/
theorem callbacks (h : Undispatched d (s.hold e)) (hput : Unput (s.hold e)) (hnow : 0 ≤ s.now)
    (hd : ∀ g, (c.dispatchTime g).1 = d) (hcap : MAX_SIM_TIME < d)
    (census : Census c.numTasks (callbacks c e s)) : Undispatched d (callbacks c e s) := by
  have positive : 0 < d := lt_trans (by norm_num [MAX_SIM_TIME]) hcap
  have tail : ∀ x ∈ s.agenda, x ∈ (s.hold e).agenda := fun x hx => List.mem_cons_of_mem _ hx
  have noPut : e.tells ≠ some .execQueue := hput _ List.mem_cons_self
  have enqueued : ∀ tid, (Behavioral.callbacks c e s).metrics.stamp tid .enqueued = none := by
    intro tid
    rw [Option.eq_none_iff_forall_ne_some]
    intro x hx
    obtain hold | ⟨-, hrec⟩ := callbacks_stamp (by decide) hx
    · exact absurd (hold.symm.trans (h.enqueued tid)) (by simp)
    · exact noPut hrec.tells
  have due : ∀ x ∈ (Behavioral.callbacks c e s).agenda, ∀ lid batch start,
      x.2 = .leaderTimeout lid batch start → d ≤ x.1 := by
    intro x hx lid batch start hev
    obtain hold | ⟨δ, hsched, hdue⟩ := callbacks_agenda hx
    · exact h.due x (tail x hold) lid batch start hev
    · rw [hdue]
      generalize x.2 = e' at hsched hev
      cases hsched with
      | leaderTimeout => exact (hd _).ge.trans (le_add_of_nonneg_left hnow)
      | gotten _ q => cases q <;> cases hev
      | sampling _ _ _ _ hs =>
        rw [hev] at hs
        exact hs.elim
      | _ => cases hev
  by_cases hpaid : ∀ lid batch start, e ≠ .leaderTimeout lid batch start
  · have unput : Unput (Behavioral.callbacks c e s) := by
      intro x hx
      obtain hold | ⟨δ, hsched, -⟩ := callbacks_agenda hx
      · exact hput x (tail x hold)
      · exact hsched.not_put (by rw [hd]; exact positive) noPut hpaid
    exact ⟨census.ungranted unput enqueued, enqueued, due, fun _ => unput⟩
  · simp only [not_forall, not_not] at hpaid
    obtain ⟨lid, batch, start, rfl⟩ := hpaid
    have late : d ≤ s.now := h.due _ List.mem_cons_self _ _ _ rfl
    refine ⟨ungranted_afterDispatch (fun x hx => h.ungranted x (tail x hx)) _ _ _, enqueued, due,
      fun hle => ?_⟩
    rw [callbacks_now] at hle
    exact absurd (hcap.trans_le late) (not_lt.2 hle)

theorem start (d : ℚ) (random : G) : Undispatched d (start c random) := by
  refine ⟨fun x hx fid tid hev => ?_, fun tid => rfl, fun x hx lid batch start hev => ?_,
    fun _ x hx htells => ?_⟩ <;> have hinit := (start_initial c random x hx).2
  · rw [hev] at hinit
    exact hinit.elim
  · rw [hev] at hinit
    exact hinit.elim
  · cases hev : x.2 <;> rw [hev] at hinit htells <;> first | exact hinit.elim | cases htells

end Undispatched

theorem undispatched_reached {d : ℚ} (hd : ∀ g, (c.dispatchTime g).1 = d) (hcap : MAX_SIM_TIME < d)
    (random : G) (n : ℕ) : Undispatched d (reached c random n) := by
  induction n with
  | zero => exact .start d random
  | succ n ih =>
    have census := (inv_reached c random (n + 1)).census
    have later := now_le_now c random (Nat.zero_le n)
    rw [reached_succ] at census ⊢
    cases hround : round c (reached c random n) with
    | none => exact ih
    | some s' =>
      rw [hround] at census
      obtain ⟨t, e, rest, hagenda, -, hnow, rfl⟩ := round_cases hround
      obtain ⟨hungranted, henqueued, hdue, hunput⟩ := ih
      replace hunput := hunput hnow
      unfold Ungranted at hungranted
      unfold Unput at hunput
      have hle := (inv_reached c random n).toOrdered.now_le hagenda
      rw [hagenda] at hungranted hdue hunput
      exact Undispatched.callbacks (s := { reached c random n with now := t, agenda := rest })
        ⟨hungranted, henqueued, hdue, fun _ => hunput⟩ hunput (later.trans hle) hd hcap census

theorem nothingStarts_of_dispatchTime {d : ℚ} (hd : ∀ g, (c.dispatchTime g).1 = d)
    (hcap : MAX_SIM_TIME < d) (random : G) : NothingStarts c random :=
  fun n => (undispatched_reached hd hcap random n).ungranted

/-! ## Without a sample interval -/

/-- The events of `depth_sampler`, and its end. -/
def Ev.samplesDepth : Ev → Bool
  | .depthInit => true
  | .depthTimeout => true
  | .samplerFailed => true
  | _ => false

/-- The sampler is due at the start. -/
def SamplerDue (s : Sim G) : Prop := ∃ x ∈ s.agenda, x.1 = 0 ∧ x.2.samplesDepth = true

theorem samplerDue_depthLoop {s : Sim G} (hnow : s.now = 0) (h : c.sampleInterval ≤ 0) :
    SamplerDue (depthLoop c s) := by
  unfold depthLoop sampleTimeout
  split_ifs with hneg
  · refine ⟨(0, .samplerFailed), mem_schedule.2 (.inl ?_), rfl, rfl⟩
    simp [hnow]
  · refine ⟨(0, .depthTimeout), mem_schedule.2 (.inl ?_), rfl, rfl⟩
    simp [hnow, le_antisymm h (not_lt.1 hneg)]

/-- Time stands still. -/
theorem now_eq_zero (h : c.sampleInterval ≤ 0) (random : G) (n : ℕ) :
    (reached c random n).now = 0 ∧ SamplerDue (reached c random n) := by
  induction n with
  | zero => exact ⟨rfl, (0, .depthInit), by simp [reached, Machine.steps, start], rfl, rfl⟩
  | succ n ih =>
    obtain ⟨hnow, x, hx, hdue, hsamples⟩ := ih
    rw [reached_succ]
    cases hround : round c (reached c random n) with
    | none => exact ⟨hnow, x, hx, hdue, hsamples⟩
    | some s' =>
      obtain ⟨t, e, rest, hagenda, -, -, rfl⟩ := round_cases hround
      have ordered := (inv_reached c random n).toOrdered
      obtain rfl : t = 0 := le_antisymm (hdue ▸ ordered.head_le hagenda x hx)
        (hnow ▸ ordered.now_le hagenda)
      refine ⟨callbacks_now .., ?_⟩
      rw [hagenda] at hx
      obtain rfl | hx := List.mem_cons.1 hx
      · cases e with
        | depthInit | depthTimeout => exact samplerDue_depthLoop rfl h
        | samplerFailed =>
          -- a failed process ends the loop
          simp only [round, step, hagenda] at hround
          split_ifs at hround
        | _ => cases hsamples
      · exact ⟨x, mem_callbacks hx, hdue, hsamples⟩

/-- So do the times of the tasks. -/
theorem stamp_eq_zero (h : c.sampleInterval ≤ 0) {n tid : ℕ} {k : Stamp} {t : ℚ}
    (ht : (reached c random n).metrics.stamp tid k = some t) : t = 0 := by
  have past := (inv_reached c random n).past tid k t ht
  rw [(now_eq_zero h random n).1] at past
  have since := stamp_since (Nat.zero_le n) (by cases k <;> rfl) ht
  rw [(now_eq_zero h random 1).1] at since
  exact le_antisymm past since

end TaskQueueCoSim.Behavioral
