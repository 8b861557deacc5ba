import Mathlib.Data.BitVec

/-!
# Flag words

A word read as a set of flags: `has w m` tests whether `w` shares a bit with
the mask `m`, as `w & m` does in a C condition.  Setting a mask is `|||`, and
`clear w m` is `w & ~m`.
-/

namespace TaskQueueCoSim.Flags

variable {n : Nat}

def has (w m : BitVec n) : Bool := w &&& m != 0

def clear (w m : BitVec n) : BitVec n := w &&& ~~~m

@[simp] theorem has_zero (m : BitVec n) : has 0#n m = false := by
  simp [has]

/-- Setting flags sets them and leaves the others. -/
@[simp] theorem has_or (w v m : BitVec n) : has (w ||| v) m = (has w m || has v m) := by
  unfold has
  rw [Bool.eq_iff_iff]
  have split : (w ||| v) &&& m = (w &&& m) ||| (v &&& m) := by
    ext i hi
    simp [Bool.and_or_distrib_right]
  simp only [bne_iff_ne, ne_eq, Bool.or_eq_true, split]
  constructor
  · intro h
    by_contra hc
    simp only [not_or, Decidable.not_not] at hc
    exact h (by rw [hc.1, hc.2]; simp)
  · rintro (h | h) e
    · exact h (BitVec.or_eq_zero_iff.mp e).1
    · exact h (BitVec.or_eq_zero_iff.mp e).2

/-- Cleared flags are clear. -/
@[simp] theorem has_clear_self (w m : BitVec n) : has (clear w m) m = false := by
  have e : (w &&& ~~~m) &&& m = 0 := by
    ext i hi
    simp
  simp [has, clear, e]

/-- Clearing flags leaves the others. -/
theorem has_clear_of_disjoint (w : BitVec n) {m b : BitVec n} (h : b &&& m = 0) :
    has (clear w m) b = has w b := by
  have e : (w &&& ~~~m) &&& b = w &&& b := by
    ext i hi
    have hb : (b &&& m)[i] = false := by rw [h]; simp
    simp only [BitVec.getElem_and, BitVec.getElem_not] at hb ⊢
    cases hw : w[i] <;> cases hm : m[i] <;> simp_all
  simp [has, clear, e]

/-- Clearing flags sets none. -/
theorem has_of_has_clear {w m b : BitVec n} (h : has (clear w m) b = true) : has w b = true := by
  by_contra hc
  have e : w &&& b = 0 := by simpa [has] using hc
  have e' : (w &&& ~~~m) &&& b = 0 := by
    rw [BitVec.and_assoc, BitVec.and_comm (~~~m), ← BitVec.and_assoc, e]
    simp
  simp [has, clear, e'] at h

end TaskQueueCoSim.Flags
