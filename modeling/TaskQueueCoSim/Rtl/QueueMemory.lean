import Mathlib.Data.List.GetD
import TaskQueueCoSim.Rtl.QueueCore

/-!
# What the slots of the queue core hold

`Traced core mem₀ accepted popped` relates the core to everything it has done
since a reset over the memory `mem₀`: it has accepted the words `accepted`, and
given out the first `popped` of them.  Beyond the queue itself this says what
the slots outside it hold, so that `data_out` is known when the queue is empty:
`Traced.dataOut_eq` gives the word `shown`, which is the head of the queue if
there is one and else what the slot held one round before.
-/

namespace TaskQueueCoSim.QueueCore

open RingMemory Fifo

variable {DEPTH WIDTH : Nat}

/-- Every word ever in the memory: the words it held at power-on, and those
accepted since. -/
def written (mem₀ : BitVec (clog2 DEPTH) → BitVec WIDTH) (accepted : List (BitVec WIDTH)) :
    List (BitVec WIDTH) :=
  contents (ring DEPTH) mem₀ 0 DEPTH ++ accepted

/-- `data_out` once `popped` words were taken: the next word accepted, or the
word its slot held before. -/
def shown (mem₀ : BitVec (clog2 DEPTH) → BitVec WIDTH) (accepted : List (BitVec WIDTH))
    (popped : Nat) : BitVec WIDTH :=
  if popped < accepted.length then accepted.getD popped 0
  else (written mem₀ accepted).getD popped 0

structure Traced (core : QueueCore DEPTH WIDTH) (mem₀ : BitVec (clog2 DEPTH) → BitVec WIDTH)
    (accepted : List (BitVec WIDTH)) (popped : Nat) : Prop where
  represents : core.Represents (accepted.drop popped) 0
  popped_le : popped ≤ accepted.length
  head_eq : core.head = (ring DEPTH).slot 0 popped
  recent : Recent (ring DEPTH) core.mem 0 (written mem₀ accepted)

theorem traced_reset (mem₀ : BitVec (clog2 DEPTH) → BitVec WIDTH) :
    Traced (⟨mem₀, 0, 0, 0⟩ : QueueCore DEPTH WIDTH) mem₀ [] 0 where
  represents := represents_reset (c := ⟨true, false, false, 0⟩) ⟨mem₀, 0, 0, 0⟩ rfl
  popped_le := Nat.le_refl _
  head_eq := ((ring DEPTH).slot_zero 0).symm
  recent := by
    rw [written, List.append_nil]
    exact recent_contents mem₀ 0 DEPTH

section Traced

variable {core : QueueCore DEPTH WIDTH} {mem₀ : BitVec (clog2 DEPTH) → BitVec WIDTH}
  {accepted : List (BitVec WIDTH)} {popped : Nat}

theorem length_written : (written mem₀ accepted).length = DEPTH + accepted.length := by
  simp [written, contents]

/-- `tail` is the slot of the next word. -/
theorem Traced.tail_eq (h : Traced core mem₀ accepted popped) (hp : 2 ^ clog2 DEPTH = DEPTH) :
    core.tail = (ring DEPTH).slot 0 (written mem₀ accepted).length := by
  have hle := h.popped_le
  have wrap := ofBitVec_slot_wrap (clog2 DEPTH) 0 accepted.length
  rw [hp] at wrap
  rw [h.represents.tail_eq, h.head_eq, RingIndex.slot_add, length_written, List.length_drop, wrap]
  congr 1
  omega

/-- An accepted push. -/
theorem Traced.push (h : Traced core mem₀ accepted popped) (hp : 2 ^ clog2 DEPTH = DEPTH)
    (room : (accepted.drop popped).length < DEPTH) (v : BitVec WIDTH) :
    Traced (core.posedge ⟨false, true, false, v⟩) mem₀ (accepted ++ [v]) popped := by
  have notFull : core.full = false := by
    have := mt h.represents.full_iff.mp (by omega)
    simpa using this
  have small : core.tail.toNat < DEPTH := Nat.lt_of_lt_of_eq (BitVec.isLt _) hp
  have e : core.posedge ⟨false, true, false, v⟩ =
      { core with mem := Function.update core.mem core.tail v, tail := core.tail + 1,
                  count := core.count + 1 } := by
    simp [posedge, notFull, writeMem, small]
  have hle := h.popped_le
  refine ⟨?_, by rw [List.length_append]; omega, ?_, ?_⟩
  · rw [List.drop_append_of_le_length hle]
    exact h.represents.push_edge hp room v
  · rw [e]
    exact h.head_eq
  · rw [e, written, ← List.append_assoc]
    show Recent _ (Function.update core.mem core.tail v) _ _
    rw [h.tail_eq hp]
    exact h.recent.write v

/-- An accepted pop. -/
theorem Traced.pop (h : Traced core mem₀ accepted popped) (hp : 2 ^ clog2 DEPTH = DEPTH)
    (some : popped < accepted.length) (v : BitVec WIDTH) :
    Traced (core.posedge ⟨false, false, true, v⟩) mem₀ accepted (popped + 1) := by
  have valid : core.validOut = true := h.represents.validOut_iff.mpr (by
    rw [List.length_drop]; omega)
  have e : core.posedge ⟨false, false, true, v⟩ =
      { core with head := core.head + 1, count := core.count - 1 } := by
    have : (core.count.toNat != 0) = true := valid
    simp [posedge, this]
  refine ⟨?_, some, ?_, ?_⟩
  · rw [← List.tail_drop]
    exact h.represents.pop_edge hp v
  · rw [e, ← RingIndex.slot_add, ← h.head_eq]
    rfl
  · rw [e]
    exact h.recent

/-- What `data_out` shows, also when the queue is empty. -/
theorem Traced.dataOut_eq (h : Traced core mem₀ accepted popped) (hp : 2 ^ clog2 DEPTH = DEPTH)
    (hd : 0 < DEPTH) : core.dataOut = shown mem₀ accepted popped := by
  have hle := h.popped_le
  unfold shown
  split
  case isTrue lt =>
    have ne : accepted.drop popped ≠ [] := by
      rw [← List.length_pos_iff, List.length_drop]
      omega
    rw [h.represents.dataOut_eq ne, List.head_drop, List.getD_eq_getElem _ _ lt]
  case isFalse ge =>
    have len : popped < (written mem₀ accepted).length := by
      rw [length_written]
      omega
    rw [List.getD_eq_getElem _ _ len, dataOut, h.head_eq]
    exact h.recent popped len (by rw [length_written, ofBitVec_capacity, hp]; omega)

end Traced

end TaskQueueCoSim.QueueCore
