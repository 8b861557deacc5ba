import TaskQueueCoSim.Model.ExecutedOnce

/-!
# How long the tasks take

If a follower draws `duration tid` when it starts a task, the task is finished
that much after its start; a duration that is not positive takes no time.
-/

namespace TaskQueueCoSim.Behavioral

open Agenda Sim

variable {G : Type} {c : Setup G} {s : Sim G} {e : Ev}

/-- How long a task has been executed. -/
def Metrics.duration (m : Metrics) (tid : ℕ) : Option ℚ := do
  let b ← (m.taskInfo tid).startExec
  let f ← (m.taskInfo tid).finish
  return f - b

theorem Metrics.duration_eq_some {m : Metrics} {tid : ℕ} {x : ℚ} : m.duration tid = some x ↔
    ∃ b, m.stamp tid .startExec = some b ∧ ∃ f, m.stamp tid .finish = some f ∧ f - b = x := by
  simp [duration, stamp, Option.bind_eq_some_iff]

/-- The executions that are under way after the callbacks of an event. -/
theorem executing_callbacks {x : ℚ × Ev} {fid tid : ℕ} {start : ℚ}
    (hx : x ∈ (callbacks c e s).agenda) (hev : x.2 = .followerTimeout fid tid start) :
    x ∈ s.agenda ∨ e = .followerGet fid tid ∧ 0 < (c.taskDuration s.random).1 ∧ start = s.now ∧
      x.1 = s.now + (c.taskDuration s.random).1 := by
  obtain hx | ⟨d, hsched, hdue⟩ := callbacks_agenda hx
  · exact .inl hx
  · rw [hev] at hsched
    generalize he' : Ev.followerTimeout fid tid start = e' at hsched
    cases hsched with
    | followerTimeout fid' tid' hpos =>
      cases he'
      exact .inr ⟨rfl, hpos, rfl, hdue⟩
    | gotten _ q => cases q <;> cases he'
    | sampling _ _ _ _ hs => subst he'; exact hs.elim
    | _ => cases he'

/-- The executions under way end when `duration` says, and those that have ended did. -/
structure Lasting (duration : ℕ → ℚ) (s : Sim G) : Prop where
  ends : ∀ x ∈ s.agenda, ∀ fid tid start, x.2 = .followerTimeout fid tid start →
    x.1 = start + max (duration tid) 0 ∧
    ∀ b, s.metrics.stamp tid .startExec = some b → b = start
  ended : ∀ tid b f, s.metrics.stamp tid .startExec = some b →
    s.metrics.stamp tid .finish = some f → f = b + max (duration tid) 0

/-- A task that a follower gets is not under execution. -/
theorem Located.not_executing {n fid t : ℕ} (hl : Located n (s.hold (.followerGet fid t)) t)
    (hstart : s.stamped t .startExec = 0) {x : ℚ × Ev} (hx : x ∈ s.agenda) {fid' : ℕ} {start : ℚ} :
    x.2 ≠ .followerTimeout fid' t start := by
  intro hev
  have hle := le_tally (Ev.weight t .executing) hx
  have hstarted := hl.started
  rw [hev] at hle
  rw [found_hold, stamped_hold, stamped_hold, found] at hstarted
  simp only [Ev.weight, List.count_singleton_self] at hle hstarted
  omega

namespace Lasting

variable {duration : ℕ → ℚ} {n : ℕ}

theorem callbacks (h : Lasting duration (s.hold e)) (hp : PutsFirst (s.hold e))
    (hl : ∀ tid, Located n (s.hold e) tid)
    (hdraw : ∀ fid tid, e = .followerGet fid tid → (c.taskDuration s.random).1 = duration tid) :
    Lasting duration (callbacks c e s) := by
  have none_before : ∀ fid tid, e = .followerGet fid tid →
      s.metrics.stamp tid .startExec = none ∧ s.metrics.stamp tid .finish = none ∧
      ∀ x ∈ s.agenda, ∀ fid' start, x.2 ≠ .followerTimeout fid' tid start := by
    rintro fid tid rfl
    obtain ⟨-, hstart, hfin⟩ := (hl tid).before_start hp
    exact ⟨stamped_eq_zero_iff.1 hstart, stamped_eq_zero_iff.1 hfin, fun x hx fid' start =>
      (hl tid).not_executing hstart hx⟩
  have started : ∀ tid b, (Behavioral.callbacks c e s).metrics.stamp tid .startExec = some b →
      s.metrics.stamp tid .startExec = some b ∨ b = s.now ∧ ∃ fid, e = .followerGet fid tid := by
    intro tid b hb
    obtain old | ⟨now, hrec⟩ := callbacks_stamp (by decide) hb
    · exact .inl old
    · cases hrec
      exact .inr ⟨now, _, rfl⟩
  refine ⟨fun x hx fid tid start hev => ?_, fun tid b f hb hf => ?_⟩
  · obtain old | ⟨rfl, hpos, rfl, hdue⟩ := executing_callbacks hx hev
    · obtain ⟨hdue, hstart⟩ := h.ends x (List.mem_cons_of_mem _ old) fid tid start hev
      refine ⟨hdue, fun b hb => ?_⟩
      obtain before | ⟨-, fid', rfl⟩ := started tid b hb
      · exact hstart b before
      · exact absurd hev ((none_before _ _ rfl).2.2 x old _ _)
    · rw [hdraw _ _ rfl] at hpos hdue
      refine ⟨by rw [hdue, max_eq_left hpos.le], fun b hb => ?_⟩
      obtain before | ⟨now, -⟩ := started tid b hb
      · rw [(none_before _ _ rfl).1] at before
        cases before
      · exact now
  · obtain ended | ⟨rfl, hrec⟩ := callbacks_stamp (by decide) hf
    · obtain before | ⟨-, fid, rfl⟩ := started tid b hb
      · exact h.ended tid b f before ended
      · rw [(none_before _ _ rfl).2.1] at ended
        cases ended
    · cases hrec with
      | finishAtOnce fid tid hle =>
        obtain before | ⟨rfl, -⟩ := started tid b hb
        · rw [(none_before _ _ rfl).1] at before
          cases before
        · rw [← hdraw _ _ rfl, max_eq_right hle, add_zero]
      | finish fid tid start =>
        obtain ⟨hdue, hstart⟩ := h.ends _ (List.mem_cons_self ..) fid tid start rfl
        obtain before | ⟨-, fid', he⟩ := started tid b hb
        · rw [hstart b before]
          exact hdue
        · cases he

theorem start (duration : ℕ → ℚ) (random : G) : Lasting duration (start c random) := by
  refine ⟨fun x hx fid tid start hev => ?_, fun tid b f hb => by cases hb⟩
  have hinit := (start_initial c random x hx).2
  rw [hev] at hinit
  exact hinit.elim

theorem advance (h : Lasting duration s) (t : ℚ) : Lasting duration { s with now := t } :=
  ⟨h.ends, h.ended⟩

end Lasting

end TaskQueueCoSim.Behavioral
