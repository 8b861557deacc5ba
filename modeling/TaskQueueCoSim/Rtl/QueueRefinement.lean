import TaskQueueCoSim.Lib.Machine
import TaskQueueCoSim.Rtl.QueueCore

/-!
# The queue core against the bounded FIFO

`RefinesFifo s cs` says that the outputs of the core, clocked from `s` through
the cycles `cs`, show a FIFO of capacity `DEPTH` in every cycle after the first
edge.  The core does so from a reset on exactly as long as `count` stays in
step with the FIFO (`refinesFifo_iff`): either no cycle since the last reset
accepted a push and a pop together, or there were `k` such cycles and the FIFO
holds more than `k` words and is not full.
-/

namespace TaskQueueCoSim.QueueCore

open Fifo Machine

variable {DEPTH WIDTH : Nat}

/-- The outputs show the list `q`. -/
structure Shows (s : QueueCore DEPTH WIDTH) (q : List (BitVec WIDTH)) : Prop where
  length_le : q.length ≤ DEPTH
  full_iff : s.full = true ↔ q.length = DEPTH
  validOut_iff : s.validOut = true ↔ q ≠ []
  dataOut_eq : ∀ hq : q ≠ [], s.dataOut = q.head hq

/-- There is a list that evolves as the FIFO does and is what the outputs show
after every edge. -/
def RefinesFifo (s : QueueCore DEPTH WIDTH) (cs : List (ClockCycle (BitVec WIDTH))) : Prop :=
  ∃ q : Nat → List (BitVec WIDTH),
    (∀ n (h : n < cs.length), q (n + 1) = next DEPTH (q n) cs[n]) ∧
    ∀ n, 1 ≤ n → n ≤ cs.length → Shows (run posedge s (cs.take n)) (q n)

/-- The FIFO together with the number of cycles since the last reset in which it
accepted a push and a pop. -/
def idealNext (DEPTH : Nat) (p : List (BitVec WIDTH) × Nat) (c : ClockCycle (BitVec WIDTH)) :
    List (BitVec WIDTH) × Nat :=
  (next DEPTH p.1 c, nextLag DEPTH p.1 p.2 c)

def ideal (DEPTH : Nat) (cs : List (ClockCycle (BitVec WIDTH))) : List (BitVec WIDTH) × Nat :=
  run (idealNext DEPTH) ([], 0) cs

/-- In every cycle of `cs` the FIFO has either accepted no push together with a
pop since the last reset, or holds more words than it did so and is not full. -/
def StaysInStep (DEPTH : Nat) (cs : List (ClockCycle (BitVec WIDTH))) : Prop :=
  ∀ n, n ≤ cs.length → InStep DEPTH (ideal DEPTH (cs.take n)).1 (ideal DEPTH (cs.take n)).2

/-- What the outputs show is the represented list exactly while in step. -/
theorem Represents.shows_iff {s : QueueCore DEPTH WIDTH} {q : List (BitVec WIDTH)} {lag : Nat}
    (h : Represents s q lag) : Shows s q ↔ InStep DEPTH q lag := by
  have len := h.length_le
  have cnt := h.count_eq
  have hn : q ≠ [] ↔ 0 < q.length := List.length_pos_iff.symm
  constructor
  · intro sh
    have hf := sh.full_iff
    have hv := sh.validOut_iff
    rw [h.full_iff] at hf
    rw [h.validOut_iff, hn] at hv
    unfold InStep
    omega
  · intro sync
    refine ⟨len, ?_, ?_, fun hq => h.dataOut_eq hq⟩
    · rw [h.full_iff]
      rcases sync with rfl | ⟨_, _⟩ <;> omega
    · rw [h.validOut_iff, hn]
      rcases sync with rfl | ⟨_, _⟩ <;> omega

/-- After a reset, and as long as the core was in step before every edge, the
registers represent the FIFO. -/
theorem represents_ideal (hp : 2 ^ clog2 DEPTH = DEPTH) (s : QueueCore DEPTH WIDTH)
    {c : ClockCycle (BitVec WIDTH)} {cs : List (ClockCycle (BitVec WIDTH))} (hc : c.reset = true) (n : Nat)
    (hn : n ≤ cs.length)
    (sync : ∀ m ≤ n, InStep DEPTH (ideal DEPTH ((c :: cs).take m)).1
      (ideal DEPTH ((c :: cs).take m)).2) :
    Represents (run posedge s ((c :: cs).take (n + 1))) (ideal DEPTH ((c :: cs).take (n + 1))).1
      (ideal DEPTH ((c :: cs).take (n + 1))).2 := by
  induction n with
  | zero =>
    have e : ideal DEPTH [c] = (([] : List (BitVec WIDTH)), 0) := by
      simp [ideal, idealNext, nextLag, hc]
    simpa [e] using represents_reset s hc
  | succ n ih =>
    have before := ih (by omega) fun m hm => sync m (by omega)
    have hlt : n + 1 < (c :: cs).length := by simp; omega
    rw [ideal, run_take_succ posedge s _ hlt, run_take_succ (idealNext DEPTH) _ _ hlt]
    exact before.posedge (sync (n + 1) (Nat.le_refl _)) hp

/-- A list that evolves as the FIFO does from a reset on is the FIFO's. -/
theorem eq_ideal {c : ClockCycle (BitVec WIDTH)} {cs : List (ClockCycle (BitVec WIDTH))}
    (hc : c.reset = true) {q : Nat → List (BitVec WIDTH)}
    (hq : ∀ n (h : n < (c :: cs).length), q (n + 1) = next DEPTH (q n) (c :: cs)[n]) (n : Nat)
    (hn : n ≤ cs.length) : q (n + 1) = (ideal DEPTH ((c :: cs).take (n + 1))).1 := by
  induction n with
  | zero =>
    rw [hq 0 (by simp)]
    simp [ideal, idealNext, hc]
  | succ n ih =>
    have hlt : n + 1 < (c :: cs).length := by simp; omega
    rw [hq (n + 1) hlt, ih (by omega), ideal, ideal, run_take_succ (idealNext DEPTH) _ _ hlt]
    rfl

/-- **The core refines the FIFO exactly while it stays in step.** -/
theorem refinesFifo_iff_staysInStep (hp : 2 ^ clog2 DEPTH = DEPTH) (s : QueueCore DEPTH WIDTH)
    {c : ClockCycle (BitVec WIDTH)} (hc : c.reset = true) (cs : List (ClockCycle (BitVec WIDTH))) :
    RefinesFifo s (c :: cs) ↔ StaysInStep DEPTH (c :: cs) := by
  constructor
  · rintro ⟨q, hq, shows_⟩ n
    -- strong induction: in step before every earlier edge gives the representation now
    induction n using Nat.strongRecOn with
    | ind n ih =>
      intro hn
      cases n with
      | zero => exact Or.inl rfl
      | succ n =>
        have hn' : n ≤ cs.length := by simpa using hn
        have rep := represents_ideal hp s hc n hn' fun m hm => ih m (by omega) (by simp; omega)
        have sh := shows_ (n + 1) (by omega) hn
        rw [eq_ideal hc hq n hn'] at sh
        exact rep.shows_iff.mp sh
  · intro sync
    refine ⟨fun n => (ideal DEPTH ((c :: cs).take n)).1, ?_, ?_⟩
    · intro n h
      simp only [ideal]
      rw [run_take_succ (idealNext DEPTH) _ _ h]
      rfl
    · intro n h1 hn
      obtain ⟨m, rfl⟩ : ∃ m, n = m + 1 := ⟨n - 1, by omega⟩
      have rep := represents_ideal hp s hc m (by simpa using hn)
        fun k hk => sync k (by omega)
      exact rep.shows_iff.mpr (sync (m + 1) hn)

instance (DEPTH : Nat) (cs : List (ClockCycle (BitVec WIDTH))) : Decidable (StaysInStep DEPTH cs) :=
  inferInstanceAs (Decidable (∀ n, n ≤ cs.length → _))

/-- Requesters that never assert `push_req` and `pop_req` in one cycle keep the
core in step. -/
theorem staysInStep_of_exclusive {cs : List (ClockCycle (BitVec WIDTH))}
    (h : ∀ c ∈ cs, (c.push && c.pop) = false) : StaysInStep DEPTH cs := by
  have lag : ∀ n, (ideal DEPTH (cs.take n)).2 = 0 := by
    intro n
    have guarded := guarded_of_forall_mem (idealNext DEPTH)
      (fun c (hc : c ∈ cs.take n) => h c (List.mem_of_mem_take hc)) ([], 0)
    refine guarded.invariant (I := fun p => p.2 = 0) ?_ rfl
    intro p c hp hc
    have never : (pushAccepted DEPTH p.1 c && popAccepted p.1 c) = false := by
      rcases Bool.and_eq_false_iff.mp hc with e | e <;> simp [pushAccepted, popAccepted, e]
    simp [idealNext, nextLag, never, hp]
  exact fun n _ => Or.inl (lag n)

/-- The core as `tb_task_queue` instantiates it. -/
theorem refinesFifo16_iff (s : QueueCore 16 32) (c : ClockCycle Word)
    (cs : List (ClockCycle Word)) (hc : c.reset = true) :
    RefinesFifo s (c :: cs) ↔ StaysInStep 16 (c :: cs) :=
  refinesFifo_iff_staysInStep (by decide) s hc cs

def resetCycle : ClockCycle Word := ⟨true, false, false, 0⟩
def pushCycle (v : Word) : ClockCycle Word := ⟨false, true, false, v⟩
def pushPopCycle (v : Word) : ClockCycle Word := ⟨false, true, true, v⟩

/-- Registers that are all zero. -/
def zero : QueueCore 16 32 := ⟨fun _ => 0, 0, 0, 0⟩

theorem refinesFifo16_three_pushes :
    RefinesFifo zero [resetCycle, pushCycle 1, pushCycle 2, pushPopCycle 3] :=
  (refinesFifo16_iff zero resetCycle _ rfl).mpr (by decide)

/-- One word stored, then a push and a pop in one cycle: the FIFO holds the new
word, but `count` is zero. -/
theorem not_refinesFifo16_coincident :
    ¬ RefinesFifo zero [resetCycle, pushCycle 1, pushPopCycle 2] := by
  rintro ⟨q, hq, shows_⟩
  have q1 : q 1 = [] := hq 0 (by decide)
  have q2 : q 2 = [1] := by rw [hq 1 (by decide), q1]; rfl
  have q3 : q 3 = [2] := by rw [hq 2 (by decide), q2]; rfl
  have lost : (run posedge zero [resetCycle, pushCycle 1, pushPopCycle 2]).validOut = false := by
    decide
  have shown : (run posedge zero [resetCycle, pushCycle 1, pushPopCycle 2]).validOut = true :=
    (shows_ 3 (by decide) (by decide)).validOut_iff.mpr (by simp [q3])
  exact Bool.false_ne_true (lost.symm.trans shown)

end TaskQueueCoSim.QueueCore
