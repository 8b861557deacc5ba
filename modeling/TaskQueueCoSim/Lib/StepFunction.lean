import Mathlib.Data.List.Sort

/-!
# Step functions given by samples

A sample is a time and the value from that time on.  Samples are sorted by time
with ties in the order given (`byTime_stable`), and the value at a time is that
of the last sample up to it (`valueAt`).  A pass over the sorted samples that has
taken those up to a time has taken exactly these (`filter_le_of_split`).
-/

namespace TaskQueueCoSim.StepFunction

open List

variable {τ β : Type} [LinearOrder τ]

/-- The samples sorted by time; the sort is stable. -/
def byTime (samples : List (τ × β)) : List (τ × β) :=
  samples.insertionSort fun a b => a.1 ≤ b.1

/-- The value at time `g`: that of the last sample up to `g`, or `d` before the first. -/
def valueAt (samples : List (τ × β)) (d : β) (g : τ) : β :=
  ((samples.filter (·.1 ≤ g)).getLast?).elim d (·.2)

variable {samples : List (τ × β)}

theorem byTime_perm (samples : List (τ × β)) : byTime samples ~ samples :=
  perm_insertionSort _ _

theorem mem_byTime {e : τ × β} : e ∈ byTime samples ↔ e ∈ samples :=
  (byTime_perm samples).mem_iff

theorem byTime_pairwise (samples : List (τ × β)) :
    (byTime samples).Pairwise fun a b => a.1 ≤ b.1 := by
  have : Std.Total fun a b : τ × β => a.1 ≤ b.1 := ⟨fun a b => le_total a.1 b.1⟩
  have : IsTrans (τ × β) fun a b => a.1 ≤ b.1 := ⟨fun _ _ _ => le_trans⟩
  exact pairwise_insertionSort _ _

theorem filter_orderedInsert (e : τ × β) (l : List (τ × β)) (t : τ) :
    (l.orderedInsert (fun a b => a.1 ≤ b.1) e).filter (·.1 = t) = (e :: l).filter (·.1 = t) := by
  induction l with
  | nil => rfl
  | cons a l ih =>
    by_cases hea : e.1 ≤ a.1
    · rw [orderedInsert_cons_of_le (r := fun a b : τ × β => a.1 ≤ b.1) _ hea]
    · rw [orderedInsert_of_not_le (r := fun a b : τ × β => a.1 ≤ b.1) _ hea, filter_cons, ih]
      by_cases ha : a.1 = t
      · have he : e.1 ≠ t := fun he => hea (he.trans ha.symm).le
        simp [ha, he]
      · by_cases he : e.1 = t <;> simp [ha, he]

/-- **The sort is stable.**  The samples of one time stay in the order given. -/
theorem byTime_stable (samples : List (τ × β)) (t : τ) :
    (byTime samples).filter (·.1 = t) = samples.filter (·.1 = t) := by
  induction samples with
  | nil => rfl
  | cons e samples ih =>
    rw [byTime, insertionSort_cons, filter_orderedInsert, filter_cons, filter_cons]
    rw [byTime] at ih
    rw [ih]

/-- **What a pass has taken.**  If everything taken is up to `g` and the next sample is beyond,
then the samples up to `g` are those taken. -/
theorem filter_le_of_split {taken rest : List (τ × β)} {g : τ}
    (hsorted : (taken ++ rest).Pairwise fun a b => a.1 ≤ b.1)
    (htaken : ∀ e ∈ taken, e.1 ≤ g) (hnext : ∀ e ∈ rest.head?, g < e.1) :
    (taken ++ rest).filter (·.1 ≤ g) = taken := by
  have hbeyond : ∀ e ∈ rest, ¬e.1 ≤ g := by
    intro e he
    cases rest with
    | nil => cases he
    | cons a rest =>
      have ha : g < a.1 := hnext a rfl
      obtain rfl | he := mem_cons.1 he
      · exact ha.not_ge
      · have hae := rel_of_pairwise_cons (pairwise_append.1 hsorted).2.1 he
        exact (ha.trans_le hae).not_ge
  rw [filter_append, filter_eq_self.2 (by simpa using htaken),
    filter_eq_nil_iff.2 (by simpa using hbeyond), append_nil]

/-- No sample is later than the last one. -/
theorem le_getLast {samples : List (τ × β)} (hsorted : samples.Pairwise fun a b => a.1 ≤ b.1)
    {last e : τ × β} (hlast : samples.getLast? = some last) (he : e ∈ samples) :
    e.1 ≤ last.1 := by
  obtain ⟨init, rfl⟩ := getLast?_eq_some_iff.1 hlast
  obtain he | he := mem_append.1 he
  · exact (pairwise_append.1 hsorted).2.2 e he last (mem_singleton_self _)
  · rw [mem_singleton.1 he]

/-- The value at a time is that of a sample which no other up to that time is later than. -/
theorem exists_valueAt {samples : List (τ × β)} (hsorted : samples.Pairwise fun a b => a.1 ≤ b.1)
    {g : τ} (h : ∃ e ∈ samples, e.1 ≤ g) (d : β) :
    ∃ e ∈ samples, e.1 ≤ g ∧ valueAt samples d g = e.2 ∧ ∀ e' ∈ samples, e'.1 ≤ g → e'.1 ≤ e.1 := by
  obtain ⟨first, hfirst, hle⟩ := h
  have hne : samples.filter (·.1 ≤ g) ≠ [] :=
    ne_nil_of_mem (mem_filter.2 ⟨hfirst, decide_eq_true hle⟩)
  obtain ⟨last, hlast⟩ := Option.isSome_iff_exists.1 (getLast?_isSome.2 hne)
  obtain ⟨hmem, hup⟩ := mem_filter.1 (mem_of_getLast? hlast)
  refine ⟨last, hmem, of_decide_eq_true hup, ?_, fun e' he' hle' => ?_⟩
  · rw [valueAt, hlast]
    rfl
  · exact le_getLast (hsorted.filter _) hlast (mem_filter.2 ⟨he', decide_eq_true hle'⟩)

end TaskQueueCoSim.StepFunction
