import TaskQueueCoSim.Lib.Machine
import TaskQueueCoSim.Rtl.QueueCore

/-!
# A reset separates the sessions of the queue core

A reset leaves the memory as it is.  `Agree s t w popped` compares two cores
whose memories may differ: since the reset both have stored the words `w` and
moved the head `popped` places, and every slot written since then holds the same
word of `w` in both.  `count` never exceeds what lies between head and tail, also
when a push and a pop coincide, so a valid head is such a slot.

* `Agree.posedge`: one edge;
* `reset_isolates`: after a reset the outputs of two cores cannot be told apart.
-/

namespace TaskQueueCoSim.QueueCore

open RingMemory Fifo Machine

variable {DEPTH WIDTH : Nat}

/-- The words stored since the last reset, once `w` were. -/
def stored (w : List (BitVec WIDTH)) (s : QueueCore DEPTH WIDTH) (c : ClockCycle (BitVec WIDTH)) :
    List (BitVec WIDTH) :=
  if c.reset then [] else if c.push && !s.full then w ++ [c.data] else w

/-- The words that a run stores after its last reset, `w` being stored before. -/
def sinceReset (s : QueueCore DEPTH WIDTH) (w : List (BitVec WIDTH)) :
    List (ClockCycle (BitVec WIDTH)) → List (BitVec WIDTH)
  | [] => w
  | c :: cs => sinceReset (s.posedge c) (stored w s c) cs

structure Agree (s t : QueueCore DEPTH WIDTH) (w : List (BitVec WIDTH)) (popped : Nat) : Prop where
  count_eq : s.count = t.count
  head_eq : s.head = (ring DEPTH).slot 0 popped
  head_eq' : t.head = (ring DEPTH).slot 0 popped
  tail_eq : s.tail = (ring DEPTH).slot 0 w.length
  tail_eq' : t.tail = (ring DEPTH).slot 0 w.length
  count_le : s.count.toNat ≤ DEPTH
  count_add_popped : s.count.toNat + popped ≤ w.length
  mem_eq : ∀ j < w.length, s.mem ((ring DEPTH).slot 0 j) = t.mem ((ring DEPTH).slot 0 j)
  mem_mem : ∀ j < w.length, s.mem ((ring DEPTH).slot 0 j) ∈ w

section Agree

variable {s t : QueueCore DEPTH WIDTH} {w : List (BitVec WIDTH)} {popped : Nat}
  {c : ClockCycle (BitVec WIDTH)}

theorem Agree.full_eq (h : Agree s t w popped) : s.full = t.full := by
  simp only [full, h.count_eq]

theorem Agree.validOut_eq (h : Agree s t w popped) : s.validOut = t.validOut := by
  simp only [validOut, h.count_eq]

/-- A valid head has been written since the reset. -/
theorem Agree.dataOut_eq (h : Agree s t w popped) (hv : s.validOut = true) :
    s.dataOut = t.dataOut ∧ s.dataOut ∈ w := by
  have hcount : s.count.toNat ≠ 0 := by simpa [validOut] using hv
  have hlt : popped < w.length := by
    have := h.count_add_popped
    omega
  simp only [dataOut, h.head_eq, h.head_eq']
  exact ⟨h.mem_eq _ hlt, h.mem_mem _ hlt⟩

theorem agree_reset (s t : QueueCore DEPTH WIDTH) (hc : c.reset = true) :
    Agree (s.posedge c) (t.posedge c) [] 0 := by
  constructor <;> simp [QueueCore.posedge, hc, ofBitVec_slot]

/-- Both cores store the word in the same slot. -/
theorem Agree.push (h : Agree s t w popped) (hp : 2 ^ clog2 DEPTH = DEPTH) (room : s.full = false)
    (v : BitVec WIDTH) :
    Agree { s with mem := writeMem s.mem s.tail v, tail := s.tail + 1, count := s.count + 1 }
      { t with mem := writeMem t.mem t.tail v, tail := t.tail + 1, count := t.count + 1 }
      (w ++ [v]) popped := by
  have hcount := h.count_le
  have hne : s.count.toNat ≠ DEPTH := by simpa [full] using room
  have up := count_succ (s := s) (by omega)
  have small : ((ring DEPTH).slot 0 w.length).toNat < DEPTH :=
    Nat.lt_of_lt_of_eq (BitVec.isLt _) hp
  have next_slot : (ring DEPTH).slot 0 w.length + 1 = (ring DEPTH).slot 0 (w ++ [v]).length := by
    rw [List.length_append, List.length_singleton, ← RingIndex.slot_add]
    rfl
  have hadd := h.count_add_popped
  constructor
  · exact congrArg (· + 1) h.count_eq
  · exact h.head_eq
  · exact h.head_eq'
  · rw [← next_slot, ← h.tail_eq]
  · rw [← next_slot, ← h.tail_eq']
  · simp only [up]
    omega
  · simp only [up, List.length_append, List.length_singleton]
    omega
  · intro j hj
    simp only [writeMem, h.tail_eq, h.tail_eq', small, if_true]
    by_cases hslot : (ring DEPTH).slot 0 j = (ring DEPTH).slot 0 w.length
    · rw [hslot, Function.update_self, Function.update_self]
    · rw [Function.update_of_ne hslot, Function.update_of_ne hslot]
      have : j ≠ w.length := fun e => hslot (by rw [e])
      simp only [List.length_append, List.length_singleton] at hj
      exact h.mem_eq j (by omega)
  · intro j hj
    simp only [writeMem, h.tail_eq, small, if_true]
    by_cases hslot : (ring DEPTH).slot 0 j = (ring DEPTH).slot 0 w.length
    · rw [hslot, Function.update_self]
      simp
    · rw [Function.update_of_ne hslot]
      have : j ≠ w.length := fun e => hslot (by rw [e])
      simp only [List.length_append, List.length_singleton] at hj
      exact List.mem_append_left _ (h.mem_mem j (by omega))

/-- Both heads move on, and `count` becomes `n`. -/
theorem Agree.pop (h : Agree s t w popped) (n : BitVec (clog2 (DEPTH + 1)))
    (hle : n.toNat ≤ DEPTH) (hadd : n.toNat + (popped + 1) ≤ w.length) :
    Agree { s with head := s.head + 1, count := n } { t with head := t.head + 1, count := n }
      w (popped + 1) := by
  have next_slot : (ring DEPTH).slot 0 popped + 1 = (ring DEPTH).slot 0 (popped + 1) := by
    rw [← RingIndex.slot_add]
    rfl
  constructor
  · rfl
  · rw [← next_slot, ← h.head_eq]
  · rw [← next_slot, ← h.head_eq']
  · exact h.tail_eq
  · exact h.tail_eq'
  · exact hle
  · exact hadd
  · exact h.mem_eq
  · exact h.mem_mem

/-- **One edge.**  Two cores that agree take the same requests and agree after it. -/
theorem Agree.posedge (h : Agree s t w popped) (hp : 2 ^ clog2 DEPTH = DEPTH) :
    ∃ popped', Agree (s.posedge c) (t.posedge c) (stored w s c) popped' := by
  cases hr : c.reset
  swap
  · rw [stored, if_pos hr]
    exact ⟨0, agree_reset s t hr⟩
  have hcount := h.count_le
  have hadd := h.count_add_popped
  have hfull := h.full_eq
  simp only [QueueCore.posedge, stored, hr, ← hfull, ← h.count_eq, Bool.false_eq_true, if_false]
  cases hpush : c.push && !s.full <;> cases hpop : c.pop && s.count.toNat != 0 <;>
    simp only [Bool.false_eq_true, if_true, if_false]
  case false.false => exact ⟨popped, h⟩
  case true.false =>
    have room : s.full = false := by simpa using (Bool.and_eq_true_iff.mp hpush).2
    have := h.push hp room c.data
    rw [← h.count_eq] at this
    exact ⟨popped, this⟩
  case false.true =>
    have hne : s.count.toNat ≠ 0 := by simpa using (Bool.and_eq_true_iff.mp hpop).2
    have down := count_pred (s := s) (by omega) (by omega)
    exact ⟨popped + 1, h.pop (s.count - 1) (by omega) (by omega)⟩
  case true.true =>
    -- the second assignment to `count` wins, so it falls behind what is stored
    have room : s.full = false := by simpa using (Bool.and_eq_true_iff.mp hpush).2
    have hne : s.count.toNat ≠ 0 := by simpa using (Bool.and_eq_true_iff.mp hpop).2
    have down := count_pred (s := s) (by omega) (by omega)
    refine ⟨popped + 1, (h.push hp room c.data).pop (s.count - 1) (by omega) ?_⟩
    rw [List.length_append, List.length_singleton]
    omega

theorem Agree.run (h : Agree s t w popped) (hp : 2 ^ clog2 DEPTH = DEPTH)
    (cs : List (ClockCycle (BitVec WIDTH))) :
    ∃ popped', Agree (run QueueCore.posedge s cs) (run QueueCore.posedge t cs)
      (sinceReset s w cs) popped' := by
  induction cs generalizing s t w popped with
  | nil => exact ⟨popped, h⟩
  | cons c cs ih =>
    obtain ⟨popped', h'⟩ := h.posedge (c := c) hp
    exact ih h'

end Agree

theorem two_pow_clog2_two_pow (k : Nat) : 2 ^ clog2 (2 ^ k) = 2 ^ k := by
  cases k with
  | zero => rfl
  | succ k =>
    have hpos := Nat.one_le_two_pow (n := k)
    have hdouble : 2 ^ (k + 1) = 2 * 2 ^ k := by rw [Nat.pow_succ, Nat.mul_comm]
    have hlog : (2 ^ (k + 1) - 1).log2 = k := (Nat.log2_eq_iff (by omega)).mpr (by omega)
    rw [clog2, if_neg (by omega), hlog]

/-- **Resets separate sessions.**  Two cores of any depth that is a power of two,
whatever their registers and memories hold, are given a reset and then the same
cycles.  From then on their outputs agree, and a valid `data_out` is a word that
was stored since the last reset. -/
theorem reset_isolates (k : Nat) (s t : QueueCore (2 ^ k) WIDTH)
    (c : ClockCycle (BitVec WIDTH)) (cs : List (ClockCycle (BitVec WIDTH))) :
    let s' := run posedge s ({ c with reset := true } :: cs)
    let t' := run posedge t ({ c with reset := true } :: cs)
    s'.full = t'.full ∧ s'.validOut = t'.validOut ∧
      (s'.validOut = true → s'.dataOut = t'.dataOut ∧
        s'.dataOut ∈ sinceReset s [] ({ c with reset := true } :: cs)) := by
  have hstart : Agree (s.posedge { c with reset := true }) (t.posedge { c with reset := true }) [] 0 :=
    agree_reset s t rfl
  obtain ⟨popped, h⟩ := hstart.run (two_pow_clog2_two_pow k) cs
  exact ⟨h.full_eq, h.validOut_eq, h.dataOut_eq⟩

end TaskQueueCoSim.QueueCore
