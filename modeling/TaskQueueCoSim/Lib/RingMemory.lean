import Mathlib.Algebra.Group.Nat.Defs
import Mathlib.Data.Nat.ModEq
import Mathlib.Logic.Function.Basic

/-!
# Circular memories that hold a list

A memory is a function from an index type.  A `RingIndex` says how to walk from
an index to the one `i` places further on, and for how many places the walk
meets no index twice.  `Holds mem head q` says that the words found on the walk
from `head` are exactly `q`.

* `Holds.write`: writing just behind the last word appends it, as long as the
  walk has room;
* `Holds.advance`: moving the head by one drops the first word;
* `Holds.read`: the word at the head is the first one.

`Recent mem base w` says that the words `w`, written one behind the other from
`base` on, are still there as far back as the capacity reaches.
-/

namespace TaskQueueCoSim.RingMemory

/-- `slot h i` is the index `i` places after `h`; the first `capacity` places
after any index are distinct. -/
structure RingIndex (ι : Type) where
  capacity : Nat
  slot : ι → Nat → ι
  slot_zero : ∀ h, slot h 0 = h
  slot_slot : ∀ h i, slot (slot h 1) i = slot h (i + 1)
  slot_inj : ∀ h i j, i < capacity → j < capacity → slot h i = slot h j → i = j

section Holds

variable {ι α : Type} (R : RingIndex ι)

/-- The words met on the walk from `head` are `q`. -/
def Holds (mem : ι → α) (head : ι) (q : List α) : Prop :=
  ∀ i (hi : i < q.length), mem (R.slot head i) = q[i]

variable {R} {mem : ι → α} {head : ι} {q : List α}

@[simp] theorem holds_nil : Holds R mem head ([] : List α) := by
  intro i hi
  simp at hi

theorem Holds.read {x : α} (h : Holds R mem head (x :: q)) : mem head = x := by
  have := h 0 (by simp)
  simpa [R.slot_zero] using this

theorem Holds.read_of_ne_nil (h : Holds R mem head q) (hq : q ≠ []) :
    mem head = q.head hq := by
  cases q with
  | nil => exact absurd rfl hq
  | cons x q => exact h.read

theorem Holds.advance (h : Holds R mem head q) :
    Holds R mem (R.slot head 1) q.tail := by
  intro i hi
  have hi' : i + 1 < q.length := by simp at hi; omega
  rw [R.slot_slot, h (i + 1) hi', List.getElem_tail]

/-- A write at a place the walk has not reached leaves the held words alone,
and is itself the next word held. -/
theorem Holds.write [DecidableEq ι] (h : Holds R mem head q) (room : q.length < R.capacity)
    (x : α) : Holds R (Function.update mem (R.slot head q.length) x) head (q ++ [x]) := by
  intro i hi
  rcases Nat.lt_or_ge i q.length with lt | ge
  · have ne : R.slot head i ≠ R.slot head q.length := fun e =>
      absurd (R.slot_inj head i q.length (by omega) room e) (by omega)
    rw [Function.update_of_ne ne, h i lt, List.getElem_append_left lt]
  · have e : i = q.length := by simp at hi; omega
    subst e
    simp

/-- The two lists held at one place agree as far as both go. -/
theorem Holds.unique {q' : List α} (h : Holds R mem head q) (h' : Holds R mem head q')
    (len : q.length = q'.length) : q = q' := by
  apply List.ext_getElem len
  intro i hi hi'
  rw [← h i hi, h' i hi']

/-- The list of the first `n` words met from `head`. -/
def contents (R : RingIndex ι) (mem : ι → α) (head : ι) (n : Nat) : List α :=
  (List.range n).map fun i => mem (R.slot head i)

theorem holds_contents (mem : ι → α) (head : ι) (n : Nat) :
    Holds R mem head (contents R mem head n) := by
  intro i hi
  simp [contents]

theorem Holds.contents_eq (h : Holds R mem head q) : contents R mem head q.length = q :=
  (holds_contents mem head q.length).unique h (by simp [contents])

end Holds

theorem RingIndex.slot_add {ι : Type} (R : RingIndex ι) (h : ι) (i j : Nat) :
    R.slot (R.slot h i) j = R.slot h (i + j) := by
  induction i generalizing h with
  | zero => rw [R.slot_zero, Nat.zero_add]
  | succ i ih => rw [← R.slot_slot h i, ih (R.slot h 1), R.slot_slot, Nat.add_right_comm]

section Recent

variable {ι α : Type} (R : RingIndex ι)

def Recent (mem : ι → α) (base : ι) (w : List α) : Prop :=
  ∀ j (hj : j < w.length), w.length ≤ j + R.capacity → mem (R.slot base j) = w[j]

variable {R} {mem : ι → α} {base : ι} {w : List α}

/-- A memory read off from its base. -/
theorem recent_contents (mem : ι → α) (base : ι) (n : Nat) :
    Recent R mem base (contents R mem base n) :=
  fun j hj _ => holds_contents mem base n j hj

/-- A further write pushes out only the word a whole capacity back. -/
theorem Recent.write [DecidableEq ι] (h : Recent R mem base w) (x : α) :
    Recent R (Function.update mem (R.slot base w.length) x) base (w ++ [x]) := by
  intro j hj recent
  rw [List.length_append, List.length_singleton] at hj recent
  rcases Nat.lt_or_ge j w.length with lt | ge
  · have ne : R.slot base j ≠ R.slot base w.length := by
      intro e
      rw [← R.slot_zero (R.slot base j), show w.length = j + (w.length - j) by omega,
        ← R.slot_add] at e
      have := R.slot_inj _ _ _ (by omega) (by omega) e
      omega
    rw [Function.update_of_ne ne, h j lt (by omega), List.getElem_append_left lt]
  · obtain rfl : j = w.length := by omega
    simp

end Recent

/-- `w`-bit pointers, which wrap at `2 ^ w`. -/
def ofBitVec (w : Nat) : RingIndex (BitVec w) where
  capacity := 2 ^ w
  slot h i := h + BitVec.ofNat w i
  slot_zero h := by simp
  slot_slot h i := by
    rw [Nat.add_comm i 1, BitVec.ofNat_add, BitVec.add_assoc]
  slot_inj h i j hi hj e := by
    have e' := congrArg BitVec.toNat (BitVec.add_right_inj h |>.mp e)
    simpa [Nat.mod_eq_of_lt hi, Nat.mod_eq_of_lt hj] using e'

@[simp] theorem ofBitVec_capacity (w : Nat) : (ofBitVec w).capacity = 2 ^ w := rfl

theorem ofBitVec_slot_wrap (w : Nat) (h : BitVec w) (i : Nat) :
    (ofBitVec w).slot h (2 ^ w + i) = (ofBitVec w).slot h i := by
  apply BitVec.eq_of_toNat_eq
  simp [ofBitVec]

theorem ofBitVec_slot (w : Nat) (h : BitVec w) (i : Nat) :
    (ofBitVec w).slot h i = h + BitVec.ofNat w i := rfl

/-- Indices below `n`, which wrap at `n`. -/
def ofFin (n : Nat) [NeZero n] : RingIndex (Fin n) where
  capacity := n
  slot h i := h + Fin.ofNat n i
  slot_zero h := by simp
  slot_slot h i := by
    refine Fin.ext ?_
    simp only [Fin.val_add, Fin.val_ofNat, Nat.add_mod_mod, Nat.mod_add_mod]
    rw [Nat.add_assoc, Nat.add_comm 1 i]
  slot_inj h i j hi hj e := by
    have e' := congrArg Fin.val e
    simp only [Fin.val_add, Fin.val_ofNat, Nat.add_mod_mod] at e'
    have hmod : i % n = j % n := Nat.ModEq.add_left_cancel' _ e'
    rwa [Nat.mod_eq_of_lt hi, Nat.mod_eq_of_lt hj] at hmod

@[simp] theorem ofFin_capacity (n : Nat) [NeZero n] : (ofFin n).capacity = n := rfl

end TaskQueueCoSim.RingMemory
