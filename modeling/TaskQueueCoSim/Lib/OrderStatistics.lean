import Mathlib.Algebra.Order.BigOperators.Group.List
import Mathlib.Algebra.Order.Field.Basic
import Mathlib.Algebra.Order.Module.Defs
import Mathlib.Data.List.GetD
import Mathlib.Data.List.Sort
import Mathlib.Tactic.FieldSimp
import Mathlib.Tactic.Linarith
import Mathlib.Tactic.Ring

/-!
# Order statistics

Sorting keeps two lists in order that are in order entry by entry
(`forall₂_insertionSort`), so the median is monotone (`median_le_median`).

The median and the cut points of `quantiles` lie between neighbours of the
sorted data (`median_mem_Icc`, `cutPoint_mem_Icc`), the mean between the least
and the greatest entry (`mean_mem_Icc`).
-/

namespace TaskQueueCoSim.OrderStatistics

open List

section Sorting

variable {α : Type} [LinearOrder α] {x y : α} {xs ys : List α}

/-- Inserting the lesser into the lesser list. -/
theorem forall₂_orderedInsert (hxs : xs.Pairwise (· ≤ ·)) (hys : ys.Pairwise (· ≤ ·)) (h : x ≤ y)
    (hle : Forall₂ (· ≤ ·) xs ys) :
    Forall₂ (· ≤ ·) (xs.orderedInsert (· ≤ ·) x) (ys.orderedInsert (· ≤ ·) y) := by
  induction hle generalizing x y with
  | nil => exact .cons h .nil
  | @cons a b as bs hab hrest ih =>
    obtain ⟨ha, has⟩ := pairwise_cons.1 hxs
    obtain ⟨hb, hbs⟩ := pairwise_cons.1 hys
    have first : ∀ (c : α) (l : List α), (∀ z ∈ l, c ≤ z) →
        l.orderedInsert (· ≤ ·) c = c :: l := by
      intro c l hc
      cases l with
      | nil => rfl
      | cons z l => exact orderedInsert_cons_of_le _ _ (hc z (mem_cons_self ..))
    by_cases hxa : x ≤ a <;> by_cases hyb : y ≤ b
    · rw [orderedInsert_cons_of_le _ _ hxa, orderedInsert_cons_of_le _ _ hyb]
      exact .cons h (.cons hab hrest)
    · rw [orderedInsert_cons_of_le _ _ hxa, orderedInsert_of_not_le _ _ hyb]
      have hay : a ≤ y := hab.trans (le_of_not_ge hyb)
      exact .cons (hxa.trans hab) (first a as ha ▸ ih has hbs hay)
    · rw [orderedInsert_of_not_le _ _ hxa, orderedInsert_cons_of_le _ _ hyb]
      have hax : a ≤ x := le_of_not_ge hxa
      exact .cons (hax.trans h) (first b bs hb ▸ ih has hbs (h.trans hyb))
    · rw [orderedInsert_of_not_le _ _ hxa, orderedInsert_of_not_le _ _ hyb]
      exact .cons hab (ih has hbs h)

theorem forall₂_insertionSort (h : Forall₂ (· ≤ ·) xs ys) :
    Forall₂ (· ≤ ·) (xs.insertionSort (· ≤ ·)) (ys.insertionSort (· ≤ ·)) := by
  induction h with
  | nil => exact .nil
  | cons hxy _ ih =>
    exact forall₂_orderedInsert (pairwise_insertionSort _ _) (pairwise_insertionSort _ _) hxy ih

theorem getD_le_getD (h : Forall₂ (· ≤ ·) xs ys) (k : ℕ) (d : α) : xs.getD k d ≤ ys.getD k d := by
  induction h generalizing k with
  | nil => exact le_rfl
  | cons hxy _ ih =>
    cases k with
    | zero => exact hxy
    | succ k => exact ih k

theorem getD_le_getD_insertionSort (d : α) {i j : ℕ} (hij : i ≤ j) (hj : j < xs.length) :
    (xs.insertionSort (· ≤ ·)).getD i d ≤ (xs.insertionSort (· ≤ ·)).getD j d := by
  have hlen := length_insertionSort (· ≤ ·) xs
  rw [getD_eq_getElem _ _ (by omega), getD_eq_getElem _ _ (by omega)]
  exact sortedLE_insertionSort.getElem_le_getElem_of_le hij

theorem getD_insertionSort_mem (d : α) {i : ℕ} (hi : i < xs.length) :
    (xs.insertionSort (· ≤ ·)).getD i d ∈ xs := by
  have hlen := length_insertionSort (· ≤ ·) xs
  rw [getD_eq_getElem _ _ (by omega)]
  exact (mem_insertionSort (· ≤ ·)).1 (getElem_mem _)

end Sorting

variable {K : Type} [Field K] [LinearOrder K]

/-- The middle of the sorted data, or the mean of the two middle entries. -/
def median (data : List K) : K :=
  let sorted := data.insertionSort (· ≤ ·)
  let n := data.length
  if n % 2 = 1 then sorted.getD (n / 2) 0 else (sorted.getD (n / 2 - 1) 0 + sorted.getD (n / 2) 0) / 2

/-- **The median is monotone.** -/
theorem median_le_median [IsStrictOrderedRing K] {xs ys : List K} (h : Forall₂ (· ≤ ·) xs ys) :
    median xs ≤ median ys := by
  have hsort := forall₂_insertionSort h
  unfold median
  simp only [h.length_eq]
  split_ifs
  · exact getD_le_getD hsort _ _
  · have hlow := getD_le_getD hsort (ys.length / 2 - 1) 0
    have hhigh := getD_le_getD hsort (ys.length / 2) 0
    exact div_le_div_of_nonneg_right (add_le_add hlow hhigh) zero_le_two

/-- The arithmetic mean. -/
def mean (data : List K) : K := data.sum / data.length

/-- Cut point `i` of `n` by the exclusive method, interpolated at position `i(len + 1)/n`. -/
def cutPoint (data : List K) (n i : ℕ) : K :=
  let sorted := data.insertionSort (· ≤ ·)
  let ld := data.length
  let m := ld + 1
  let j := i * m / n
  let j := if j < 1 then 1 else if ld - 1 < j then ld - 1 else j
  let delta : ℤ := i * m - j * n
  (sorted.getD (j - 1) 0 * (n - delta) + sorted.getD j 0 * delta) / n

/-- The `n - 1` cut points; none if the data are too few. -/
def quantiles (data : List K) (n : ℕ) : Option (List K) :=
  if n < 1 ∨ data.length < 2 then none
  else some ((List.range' 1 (n - 1)).map (cutPoint data n))

theorem quantiles_getElem? {data : List K} {n i : ℕ} (hlen : 2 ≤ data.length) (hi : i + 1 < n) :
    (quantiles data n).bind (·[i]?) = some (cutPoint data n (i + 1)) := by
  rw [quantiles, if_neg (by omega), Option.bind_some, getElem?_map, getElem?_range' (by omega)]
  simp [Nat.add_comm]

variable [IsStrictOrderedRing K]

/-- A weighted mean lies between its two values. -/
theorem weighted_mem_Icc {a b n t : K} (hab : a ≤ b) (ht : 0 ≤ t) (htn : t ≤ n) (hn : 0 < n) :
    a ≤ (a * (n - t) + b * t) / n ∧ (a * (n - t) + b * t) / n ≤ b := by
  have hlow : 0 ≤ (b - a) * t := mul_nonneg (sub_nonneg.2 hab) ht
  have hhigh : 0 ≤ (b - a) * (n - t) := mul_nonneg (sub_nonneg.2 hab) (sub_nonneg.2 htn)
  constructor
  · rw [le_div_iff₀ hn]
    linarith
  · rw [div_le_iff₀ hn]
    linarith

/-- No index is clamped if there are at least `n` entries. -/
theorem index_interior {ld n i : ℕ} (hn : n ≤ ld) (hi : 0 < i) (hin : i < n) :
    1 ≤ i * (ld + 1) / n ∧ i * (ld + 1) / n < ld := by
  have hpos : 0 < n := by omega
  constructor
  · rw [Nat.le_div_iff_mul_le hpos]
    calc 1 * n ≤ 1 * (ld + 1) := by omega
      _ ≤ i * (ld + 1) := Nat.mul_le_mul_right _ hi
  · rw [Nat.div_lt_iff_lt_mul hpos]
    calc i * (ld + 1) = i * ld + i := Nat.mul_succ ..
      _ < i * ld + ld := by omega
      _ = (i + 1) * ld := (Nat.succ_mul ..).symm
      _ ≤ n * ld := Nat.mul_le_mul_right _ hin
      _ = ld * n := Nat.mul_comm ..

omit [IsStrictOrderedRing K] in
/-- A cut point is a weighted mean of two neighbours. -/
theorem cutPoint_eq {data : List K} {n i : ℕ} (hn : n ≤ data.length) (hi : 0 < i) (hin : i < n) :
    cutPoint data n i = ((data.insertionSort (· ≤ ·)).getD (i * (data.length + 1) / n - 1) 0 *
        (n - (i * (data.length + 1) % n : ℕ)) +
      (data.insertionSort (· ≤ ·)).getD (i * (data.length + 1) / n) 0 *
        (i * (data.length + 1) % n : ℕ)) / n := by
  obtain ⟨hlow, hhigh⟩ := index_interior hn hi hin
  have hdelta : (i : ℤ) * (data.length + 1 : ℕ) - (i * (data.length + 1) / n : ℕ) * n =
      (i * (data.length + 1) % n : ℕ) := by
    have hdm := Nat.div_add_mod (i * (data.length + 1)) n
    have hcast : (n : ℤ) * (i * (data.length + 1) / n : ℕ) + (i * (data.length + 1) % n : ℕ) =
        (i : ℤ) * (data.length + 1 : ℕ) := by exact_mod_cast hdm
    linarith [mul_comm (n : ℤ) (i * (data.length + 1) / n : ℕ)]
  simp only [cutPoint]
  rw [if_neg (by omega), if_neg (by omega), hdelta, Int.cast_natCast]

/-- **A cut point lies between two neighbours.** -/
theorem cutPoint_mem_Icc {data : List K} {n i : ℕ} (hn : n ≤ data.length) (hi : 0 < i)
    (hin : i < n) :
    (data.insertionSort (· ≤ ·)).getD (i * (data.length + 1) / n - 1) 0 ≤ cutPoint data n i ∧
      cutPoint data n i ≤ (data.insertionSort (· ≤ ·)).getD (i * (data.length + 1) / n) 0 := by
  obtain ⟨hlow, hhigh⟩ := index_interior hn hi hin
  have hpos : 0 < n := by omega
  have hlt : i * (data.length + 1) % n < n := Nat.mod_lt _ hpos
  rw [cutPoint_eq hn hi hin]
  exact weighted_mem_Icc (getD_le_getD_insertionSort 0 (Nat.sub_le ..) hhigh) (Nat.cast_nonneg _)
    (Nat.cast_le.2 hlt.le) (Nat.cast_pos.2 hpos)

/-- **Cut points are monotone.** -/
theorem cutPoint_le_cutPoint {xs ys : List K} (h : Forall₂ (· ≤ ·) xs ys) {n i : ℕ}
    (hn : n ≤ xs.length) (hi : 0 < i) (hin : i < n) : cutPoint xs n i ≤ cutPoint ys n i := by
  have hsort := forall₂_insertionSort h
  have hmod : i * (ys.length + 1) % n ≤ n := (Nat.mod_lt _ (by omega)).le
  rw [cutPoint_eq hn hi hin, cutPoint_eq (h.length_eq ▸ hn) hi hin, h.length_eq]
  refine div_le_div_of_nonneg_right (add_le_add ?_ ?_) (Nat.cast_nonneg n)
  · exact mul_le_mul_of_nonneg_right (getD_le_getD hsort _ _) (sub_nonneg.2 (Nat.cast_le.2 hmod))
  · exact mul_le_mul_of_nonneg_right (getD_le_getD hsort _ _) (Nat.cast_nonneg _)

/-- **The mean is monotone.** -/
theorem mean_le_mean {xs ys : List K} (h : Forall₂ (· ≤ ·) xs ys) : mean xs ≤ mean ys := by
  rw [mean, mean, h.length_eq]
  exact div_le_div_of_nonneg_right h.sum_le_sum (Nat.cast_nonneg _)

/-- **The median lies between the two middle entries.** -/
theorem median_mem_Icc {data : List K} (hne : data ≠ []) :
    (data.insertionSort (· ≤ ·)).getD ((data.length - 1) / 2) 0 ≤ median data ∧
      median data ≤ (data.insertionSort (· ≤ ·)).getD (data.length / 2) 0 := by
  have hpos := length_pos_of_ne_nil hne
  by_cases hodd : data.length % 2 = 1
  · have hmid : (data.length - 1) / 2 = data.length / 2 := by omega
    simp only [median, if_pos hodd, hmid, le_refl, and_self]
  · have hmid : (data.length - 1) / 2 = data.length / 2 - 1 := by omega
    have hle : (data.insertionSort (· ≤ ·)).getD (data.length / 2 - 1) 0 ≤
        (data.insertionSort (· ≤ ·)).getD (data.length / 2) 0 :=
      getD_le_getD_insertionSort 0 (by omega) (by omega)
    simp only [median, if_neg hodd, hmid]
    constructor <;> linarith

/-- **The mean lies between bounds of the data.** -/
theorem mean_mem_Icc {data : List K} (hne : data ≠ []) {low high : K}
    (hlow : ∀ x ∈ data, low ≤ x) (hhigh : ∀ x ∈ data, x ≤ high) :
    low ≤ mean data ∧ mean data ≤ high := by
  have hpos : (0 : K) < data.length := Nat.cast_pos.2 (length_pos_of_ne_nil hne)
  constructor
  · rw [mean, le_div_iff₀ hpos, mul_comm, ← nsmul_eq_mul]
    exact card_nsmul_le_sum _ _ hlow
  · rw [mean, div_le_iff₀ hpos, mul_comm, ← nsmul_eq_mul]
    exact sum_le_card_nsmul _ _ hhigh

end TaskQueueCoSim.OrderStatistics
