import TaskQueueCoSim.Host.TestTaskQueueHost

/-!
# The host against an ideal device

The deterministic phase pushes four words and pops two, and the golden queue of
the randomized phase starts empty, so from then on an ideal device is two words
ahead of it.  `Ahead` says so of a state; every operation keeps it or counts a
mismatch, and so does the drain loop, which stops when the golden queue is empty.

* `length_device_main`: at `TB_DONE` a mismatch is counted or two words are left;
* `noFalseAlarm_never`: so no run ends clean with the device empty.
-/

namespace TaskQueueCoSim.HostTest

open Machine

/-- A 16-deep FIFO that never times out, as a list with the oldest word first.
A refused pop leaves `*out` alone. -/
def idealFifo (out : Word) : Device (List Word) where
  mmioPush v _ q := if q.length < 16 then (0, q ++ [v]) else (-1, q)
  mmioPop _ q :=
    match q with
    | [] => (-1, out, [])
    | x :: q => (0, x, q)

/-- The run ends without a mismatch and with the device empty. -/
structure NoFalseAlarm (s : Host (List Word)) : Prop where
  clean : s.metrics.mismatches = 0
  exit_zero : s.exitStatus = 0
  empty : s.device = []

/-- A mismatch is counted, or the device holds two words more than the golden queue. -/
def Ahead (s : Host (List Word)) : Prop :=
  0 < s.metrics.mismatches ∨
    s.device.length = s.ring.swcount + 2 ∧ s.device.length ≤ 16

section Metrics

variable (m : Metrics) (r : Int)

@[simp] theorem mismatches_countPush : (m.countPush r).mismatches = m.mismatches := by
  unfold Metrics.countPush
  split_ifs <;> rfl

@[simp] theorem mismatches_countPop : (m.countPop r).mismatches = m.mismatches := by
  unfold Metrics.countPop
  split_ifs <;> rfl

@[simp] theorem mismatches_mismatch : m.mismatch.mismatches = m.mismatches + 1 := rfl

/-- Counting a mismatch under a condition takes none back. -/
theorem mismatches_le_ite (p : Prop) [Decidable p] :
    m.mismatches ≤ (if p then m.mismatch else m).mismatches := by
  split_ifs
  · exact Nat.le_succ _
  · exact Nat.le_refl _

end Metrics

variable (out : Word) {s : Host (List Word)}

/-- The four pushes are accepted and the two pops give the first two words. -/
theorem device_deterministic (swbuf : Fin 16 → Word) :
    (deterministic (idealFifo out) (start swbuf [])).device = [0x01234567#32, 0x89ABCDEF#32] := by
  rfl

theorem ahead_deterministic (swbuf : Fin 16 → Word) :
    Ahead (deterministic (idealFifo out) (start swbuf [])) := by
  right
  rw [device_deterministic]
  exact ⟨rfl, by decide⟩

theorem Ahead.randomPush (h : Ahead s) (v : Word) : Ahead (randomPush (idealFifo out) v s) := by
  unfold HostTest.randomPush idealFifo
  by_cases room : s.device.length < 16
  · simp only [room, if_true]
    rcases h with h | ⟨hlen, hle⟩
    · exact Or.inl (by simpa using h)
    · -- the golden queue has more room than the device, so it takes the word too
      have hring : s.ring.swcount < swdepth := by
        rw [swdepth]
        omega
      right
      simp only [Ring.push, hring, if_true, List.length_append, List.length_singleton]
      omega
  · simp only [room, if_false, show (-1 : Int) ≠ 0 by decide]
    rcases h with h | h
    · exact Or.inl (by simpa using h)
    · exact Or.inr h

theorem Ahead.randomPop (h : Ahead s) : Ahead (randomPop (idealFifo out) s) := by
  unfold HostTest.randomPop idealFifo
  cases hq : s.device with
  | nil =>
    simp only [show (-1 : Int) ≠ 0 by decide, if_false]
    rcases h with h | ⟨hlen, hle⟩
    · exact Or.inl (by simpa using h)
    · rw [hq, List.length_nil] at hlen
      omega
  | cons x q =>
    simp only [if_true]
    by_cases hcount : s.ring.swcount = 0
    · simp only [hcount, if_true]
      exact Or.inl (by simp)
    · simp only [hcount, if_false]
      rcases h with h | ⟨hlen, hle⟩
      · left
        refine Nat.lt_of_lt_of_le ?_ (mismatches_le_ite _ _)
        simpa using h
      · right
        rw [hq, List.length_cons] at hlen hle
        simp only [Ring.pop]
        omega

theorem Ahead.randomOp (h : Ahead s) (rand : Nat → Nat) :
    Ahead (randomOp (idealFifo out) rand s) := by
  unfold HostTest.randomOp
  dsimp only
  split_ifs
  · apply Ahead.randomPush
    exact h
  · apply Ahead.randomPop
    exact h
  · exact h

theorem Ahead.randomized (h : Ahead s) (rand : Nat → Nat) :
    Ahead (randomized (idealFifo out) rand s) :=
  run_invariant (fun _ _ h => h.randomOp out rand) h (List.range OPS)

/-- A device that is ahead refuses no pop, so the loop empties the golden queue. -/
theorem Ahead.drain (h : Ahead s) :
    Ahead (drain (idealFifo out) s) ∧
      (0 < (drain (idealFifo out) s).metrics.mismatches ∨
        (drain (idealFifo out) s).ring.swcount = 0) := by
  induction hn : s.ring.swcount generalizing s with
  | zero =>
    rw [HostTest.drain, if_neg (by omega)]
    exact ⟨h, Or.inr hn⟩
  | succ n ih =>
    rw [HostTest.drain, if_pos (by omega)]
    cases hq : s.device with
    | nil =>
      have hm : 0 < s.metrics.mismatches := by
        rcases h with h | ⟨hlen, _⟩
        · exact h
        · rw [hq, List.length_nil] at hlen
          omega
      exact ⟨Or.inl hm, Or.inl hm⟩
    | cons x q =>
      simp only [idealFifo, if_true]
      refine ih ?_ (by simp [Ring.pop, hn])
      rcases h with h | ⟨hlen, hle⟩
      · left
        refine Nat.lt_of_lt_of_le ?_ (mismatches_le_ite _ _)
        exact h
      · right
        rw [hq, List.length_cons] at hlen hle
        simp only [Ring.pop]
        omega

variable (rand : Nat → Nat) (swbuf : Fin 16 → Word)

/-- At `TB_DONE` a mismatch is counted, or two words are left in the device. -/
theorem length_device_main :
    0 < (main (idealFifo out) rand swbuf []).metrics.mismatches ∨
      (main (idealFifo out) rand swbuf []).device.length = 2 := by
  obtain ⟨hahead, hdone⟩ := ((ahead_deterministic out swbuf).randomized out rand).drain out
  rcases hahead with hm | ⟨hlen, _⟩
  · exact Or.inl hm
  · rcases hdone with hm | hcount
    · exact Or.inl hm
    · right
      rw [hcount] at hlen
      exact hlen

/-- **False alarms.**  Against an ideal device no run of the host ends clean with
the device empty, whatever `rand()` gives. -/
theorem noFalseAlarm_never : ¬ NoFalseAlarm (main (idealFifo out) rand swbuf []) := by
  intro h
  rcases length_device_main out rand swbuf with hm | hlen
  · have := h.clean
    omega
  · rw [h.empty] at hlen
    cases hlen

/-! ## Pops only -/

/-- The device holds `q`, the golden queue nothing, and `n` mismatches are counted. -/
def Leftover (q : List Word) (n : Nat) (s : Host (List Word)) : Prop :=
  s.device = q ∧ s.ring.swcount = 0 ∧ s.metrics.mismatches = n

theorem leftover_deterministic : Leftover [0x01234567#32, 0x89ABCDEF#32] 0
    (deterministic (idealFifo out) (start swbuf [])) :=
  ⟨device_deterministic out swbuf, by rfl, by rfl⟩

theorem Leftover.pop {x : Word} {q : List Word} {n : Nat} (h : Leftover (x :: q) n s) :
    Leftover q (n + 1) (HostTest.randomOp (idealFifo out) (fun _ => 1) s) := by
  obtain ⟨hdevice, hcount, hm⟩ := h
  simp [HostTest.randomOp, HostTest.randomPop, idealFifo, Leftover, hdevice, hcount, hm]

theorem Leftover.refused {n : Nat} (h : Leftover [] n s) :
    Leftover [] n (HostTest.randomOp (idealFifo out) (fun _ => 1) s) := by
  obtain ⟨hdevice, hcount, hm⟩ := h
  simp [HostTest.randomOp, HostTest.randomPop, idealFifo, Leftover, hdevice, hcount, hm]

/-- If `rand()` only ever asks for pops, the words that the deterministic phase
left count as two mismatches. -/
theorem mismatches_popsOnly :
    (main (idealFifo out) (fun _ => 1) swbuf []).metrics.mismatches = 2 := by
  have hrange : List.range OPS = [0, 1] ++ List.range' 2 9998 := by
    rw [List.range_eq_range']
    rfl
  have hrandomized : Leftover [] 2 (randomized (idealFifo out) (fun _ => 1)
      (deterministic (idealFifo out) (start swbuf []))) := by
    rw [randomized, hrange, run_append, run_cons, run_cons, run_nil]
    apply run_invariant (fun _ _ h => h.refused out)
    exact ((leftover_deterministic out swbuf).pop out).pop out
  rw [main, HostTest.drain, if_neg (by simp [hrandomized.2.1])]
  exact hrandomized.2.2

theorem not_noFalseAlarm_popsOnly :
    ¬ NoFalseAlarm (main (idealFifo 0#32) (fun _ => 1) (fun _ => 0#32) []) := by
  intro h
  have := h.clean
  rw [mismatches_popsOnly] at this
  cases this

end TaskQueueCoSim.HostTest
