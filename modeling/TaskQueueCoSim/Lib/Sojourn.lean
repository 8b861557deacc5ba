import Mathlib.Algebra.BigOperators.Ring.Finset
import Mathlib.Data.Bool.Basic

/-!
# Sojourn times

Individuals enter and leave, once each, and the times are recorded when they do.

* `spent_step`: the time spent inside grows by the time that passes inside;
* `area_eq`: the area under the number of those inside is the time that all have spent there.
-/

namespace TaskQueueCoSim.Sojourn

variable {τ ι : Type} [CommRing τ]

/-- What is recorded of an individual. -/
structure Stay (τ : Type) where
  entered : Option τ
  left : Option τ

/-- A time that is recorded stays, and another is recorded when it is now. -/
def Notes (now : τ) (r r' : Option τ) : Prop := r' = r ∨ r = none ∧ r' = some now

namespace Stay

def spent (x : Stay τ) (now : τ) : τ := x.left.getD now - x.entered.getD now

omit [CommRing τ] in
def inside (x : Stay τ) : ℕ := x.entered.isSome.toNat - x.left.isSome.toNat

/-- Nobody leaves who has not entered. -/
def Valid (x : Stay τ) : Prop := x.entered = none → x.left = none

/-- What is recorded while the time goes on to `now`. -/
structure Step (now : τ) (x x' : Stay τ) : Prop where
  entered : Notes now x.entered x'.entered
  left : Notes now x.left x'.left

theorem spent_step {now now' : τ} {x x' : Stay τ} (hx : x.Valid) (h : Step now' x x') :
    x'.spent now' = x.spent now + (now' - now) * x.inside := by
  obtain ⟨entered, left⟩ := x
  obtain ⟨entered', left'⟩ := x'
  obtain ⟨he, hl⟩ := h
  unfold Notes at he hl
  cases entered with
  | none =>
    obtain rfl : left = none := hx rfl
    have hentered : entered'.getD now' = now' := by
      obtain rfl | ⟨-, rfl⟩ := he <;> rfl
    have hleft : left'.getD now' = now' := by
      obtain rfl | ⟨-, rfl⟩ := hl <;> rfl
    simp only [spent, hentered, hleft, inside, Option.getD_none, Option.isSome_none]
    simp
  | some a =>
    obtain rfl : entered' = some a := he.resolve_right fun h => nomatch h.1
    cases left with
    | none =>
      have hleft : left'.getD now' = now' := by
        obtain rfl | ⟨-, rfl⟩ := hl <;> rfl
      simp only [spent, hleft, inside, Option.getD_none, Option.getD_some, Option.isSome_some,
        Option.isSome_none]
      simp
    | some b =>
      obtain rfl : left' = some b := hl.resolve_right fun h => nomatch h.1
      simp [spent, inside]

end Stay

/-- **Little's law along a path.**  From a start at which nobody has entered, the area under the
number of individuals inside is the time that they have spent there together. -/
theorem area_eq (J : Finset ι) (x : ℕ → ι → Stay τ) (now : ℕ → τ)
    (start : ∀ j, (x 0 j).entered = none) (valid : ∀ i j, (x i j).Valid)
    (step : ∀ i j, Stay.Step (now (i + 1)) (x i j) (x (i + 1) j)) (n : ℕ) :
    ∑ i ∈ Finset.range n, (now (i + 1) - now i) * (∑ j ∈ J, (x i j).inside : ℕ) =
      ∑ j ∈ J, (x n j).spent (now n) := by
  induction n with
  | zero =>
    refine (Finset.sum_eq_zero fun j _ => ?_).symm
    simp [Stay.spent, start j, valid 0 j (start j)]
  | succ n ih =>
    rw [Finset.sum_range_succ, ih, Nat.cast_sum, Finset.mul_sum, ← Finset.sum_add_distrib]
    exact Finset.sum_congr rfl fun j _ => (Stay.spent_step (valid n j) (step n j)).symm

end TaskQueueCoSim.Sojourn
