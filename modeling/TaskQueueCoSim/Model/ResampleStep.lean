import Mathlib.Data.Rat.Floor
import TaskQueueCoSim.Lib.StepFunction

/-!
# Step resampling (model/plot_results.py)

`_resample_step` goes once over the sorted samples and the grid, with an iterator
that looks one event ahead.  At every grid point it has consumed the samples up to
that point (`fill_spec`), so it returns the forward fill (`resampleStep_forwardFills`).
-/

namespace TaskQueueCoSim.PlotResults

open StepFunction

/-- `(t, depth)` -/
abbrev Sample := ℚ × ℚ

/-- `np.arange(0, stop, dt)` -/
def arange (stop dt : ℚ) : List ℚ := (List.range ⌈stop / dt⌉₊).map fun i : ℕ => (i : ℚ) * dt

/-- The state of the loop: the depth so far, the event ahead, and the iterator behind it. -/
structure Cursor where
  curDepth : ℚ
  nextEv : Option Sample
  evIter : List Sample
  deriving DecidableEq, Repr

/-- `while next_ev is not None and next_ev[0] <= g` -/
def consume (g : ℚ) : ℚ → Option Sample → List Sample → Cursor
  | curDepth, none, evIter => ⟨curDepth, none, evIter⟩
  | curDepth, some ev, [] =>
    if ev.1 ≤ g then ⟨ev.2, none, []⟩ else ⟨curDepth, some ev, []⟩
  | curDepth, some ev, e :: evIter =>
    if ev.1 ≤ g then consume g ev.2 (some e) evIter else ⟨curDepth, some ev, e :: evIter⟩

def Cursor.consume (c : Cursor) (g : ℚ) : Cursor :=
  PlotResults.consume g c.curDepth c.nextEv c.evIter

/-- `for i, g in enumerate(grid)`: the depths, and the state behind the loop. -/
def fill : List ℚ → Cursor → List ℚ × Cursor
  | [], c => ([], c)
  | g :: grid, c =>
    let c := c.consume g
    (c.curDepth :: (fill grid c).1, (fill grid c).2)

/-- `iter(times_depths)` with the first event looked at. -/
def Cursor.start (timesDepths : List Sample) : Cursor := ⟨0, timesDepths.head?, timesDepths.tail⟩

/-- The grid for sorted samples. -/
def gridOf (timesDepths : List Sample) (dt : ℚ) : List ℚ :=
  let tmax := ⌈(timesDepths.getLastD (0, 0)).1⌉
  let tmax := if tmax ≤ 0 then 1 else tmax
  arange (tmax + 1) dt

/-- The loop over the grid. -/
def resample (timesDepths : List Sample) (dt : ℚ) : List ℚ × Cursor :=
  fill (gridOf (byTime timesDepths) dt) (.start (byTime timesDepths))

/-- `_resample_step(times_depths, dt)` -/
def resampleStep (timesDepths : List Sample) (dt : ℚ) : List ℚ × List ℚ :=
  if timesDepths = [] then ([], [])
  else (gridOf (byTime timesDepths) dt, (resample timesDepths dt).1)

/-! ## The loop -/

/-- What the cursor has not consumed. -/
def Cursor.pending (c : Cursor) : List Sample := c.nextEv.toList ++ c.evIter

/-- The cursor stands behind `taken`. -/
structure Cursor.Behind (samples taken : List Sample) (c : Cursor) : Prop where
  split : taken ++ c.pending = samples
  ahead : c.nextEv = c.pending.head?
  depth : c.curDepth = taken.getLast?.elim 0 (·.2)

variable {samples taken : List Sample}

theorem Cursor.behind_start (samples : List Sample) : (Cursor.start samples).Behind samples [] := by
  cases samples <;> exact ⟨rfl, rfl, rfl⟩

/-- One event is consumed. -/
theorem Cursor.Behind.advance {d : ℚ} {ev : Sample} {evIter : List Sample}
    (h : Cursor.Behind samples taken ⟨d, some ev, evIter⟩) :
    Cursor.Behind samples (taken ++ [ev]) ⟨ev.2, evIter.head?, evIter.tail⟩ := by
  have hsplit := h.split
  cases evIter with
  | nil => exact ⟨by simpa [pending] using hsplit, rfl, by simp⟩
  | cons e evIter => exact ⟨by simpa [pending] using hsplit, rfl, by simp⟩

/-- **The inner loop.**  It consumes samples up to `g` and stops at one beyond. -/
theorem consume_spec (g : ℚ) {d : ℚ} {nextEv : Option Sample} {evIter : List Sample}
    (h : Cursor.Behind samples taken ⟨d, nextEv, evIter⟩) (htaken : ∀ e ∈ taken, e.1 ≤ g) :
    ∃ taken', (consume g d nextEv evIter).Behind samples taken' ∧ (∀ e ∈ taken', e.1 ≤ g) ∧
      ∀ e ∈ (consume g d nextEv evIter).nextEv, g < e.1 := by
  have grow : ∀ {taken : List Sample} {ev : Sample}, (∀ e ∈ taken, e.1 ≤ g) → ev.1 ≤ g →
      ∀ e ∈ taken ++ [ev], e.1 ≤ g := by
    intro taken ev htaken hev e he
    obtain he | he := List.mem_append.1 he
    · exact htaken e he
    · rwa [List.mem_singleton.1 he]
  induction evIter generalizing d nextEv taken with
  | nil =>
    cases nextEv with
    | none => exact ⟨taken, h, htaken, fun _ he => nomatch he⟩
    | some ev =>
      by_cases hev : ev.1 ≤ g
      · rw [consume, if_pos hev]
        exact ⟨_, h.advance, grow htaken hev, fun _ he => nomatch he⟩
      · rw [consume, if_neg hev]
        refine ⟨taken, h, htaken, fun e he => ?_⟩
        rw [← Option.some.inj he]
        exact not_le.1 hev
  | cons e evIter ih =>
    cases nextEv with
    | none => exact ⟨taken, h, htaken, fun _ he => nomatch he⟩
    | some ev =>
      by_cases hev : ev.1 ≤ g
      · rw [consume, if_pos hev]
        exact ih h.advance (grow htaken hev)
      · rw [consume, if_neg hev]
        refine ⟨taken, h, htaken, fun e he => ?_⟩
        rw [← Option.some.inj he]
        exact not_le.1 hev

/-- **The loop over the grid.**  Every grid point gets the value at that point, and no sample up
to the last grid point is left. -/
theorem fill_spec {grid : List ℚ} {c : Cursor} (hsorted : samples.Pairwise fun a b => a.1 ≤ b.1)
    (hgrid : grid.Pairwise (· ≤ ·)) (h : c.Behind samples taken)
    (htaken : ∀ e ∈ taken, ∀ g ∈ grid, e.1 ≤ g) :
    (fill grid c).1 = grid.map (valueAt samples 0) ∧
      (∃ taken', (fill grid c).2.Behind samples taken') ∧
      ∀ g ∈ grid.getLast?, ∀ e ∈ (fill grid c).2.nextEv, g < e.1 := by
  induction grid generalizing c taken with
  | nil => exact ⟨rfl, ⟨taken, h⟩, fun _ hg => nomatch hg⟩
  | cons g grid ih =>
    obtain ⟨hfirst, hrest⟩ := List.pairwise_cons.1 hgrid
    obtain ⟨taken', (h' : (c.consume g).Behind samples taken'), hle,
        (hnext : ∀ e ∈ (c.consume g).nextEv, g < e.1)⟩ :=
      consume_spec g h fun e he => htaken e he g (List.mem_cons_self ..)
    have hvalue : (c.consume g).curDepth = valueAt samples 0 g := by
      have hfilter : samples.filter (·.1 ≤ g) = taken' := by
        have hsplit : taken' ++ (c.consume g).pending = samples := h'.split
        rw [← hsplit] at hsorted ⊢
        refine filter_le_of_split hsorted hle fun e he => hnext e ?_
        rwa [← h'.ahead] at he
      rw [valueAt, hfilter]
      exact h'.depth
    obtain ⟨hmap, hbehind, hlast⟩ :=
      ih hrest h' fun e he g' hg' => (hle e he).trans (hfirst g' hg')
    refine ⟨by rw [fill, List.map_cons, ← hvalue]; exact congrArg _ hmap, hbehind, ?_⟩
    intro g' hg' e he
    cases grid with
    | nil =>
      obtain rfl : g = g' := Option.some.inj hg'
      exact hnext e he
    | cons g'' grid => exact hlast g' (by rwa [List.getLast?_cons_cons] at hg') e he

/-! ## Resampling -/

/-- The grid up to `max(1, ceil(t))` at `dt = 1`. -/
def unitGrid (t : ℚ) : List ℚ := (List.range ((max 1 ⌈t⌉).toNat + 1)).map (↑)

/-- The largest time. -/
def largest (samples : List Sample) : ℚ := (samples.map (·.1)).max?.getD 0

/-- `_resample_step` with `dt = 1` is the forward fill. -/
structure ForwardFills (samples : List Sample) : Prop where
  grid : (resampleStep samples 1).1 = unitGrid (largest samples)
  depths : (resampleStep samples 1).2 =
    (unitGrid (largest samples)).map (valueAt (byTime samples) 0)
  consumed : (resample samples 1).2.pending = []
  final : (resampleStep samples 1).2.getLast? = (byTime samples).getLast?.map (·.2)

theorem unitGrid_pairwise (t : ℚ) : (unitGrid t).Pairwise (· ≤ ·) := by
  rw [unitGrid, List.pairwise_map]
  exact List.pairwise_lt_range.imp fun h => Nat.cast_le.2 (Nat.le_of_lt h)

/-- The last grid point is not before `t`. -/
theorem unitGrid_getLast? (t : ℚ) : ∃ g, (unitGrid t).getLast? = some g ∧ t ≤ g := by
  refine ⟨((max 1 ⌈t⌉).toNat : ℚ), by simp [unitGrid, List.range_succ], ?_⟩
  have hpos : (0 : ℤ) ≤ max 1 ⌈t⌉ := le_max_of_le_left zero_le_one
  have hcast : ((max 1 ⌈t⌉).toNat : ℚ) = (max 1 ⌈t⌉ : ℤ) := by
    rw [← Int.cast_natCast, Int.toNat_of_nonneg hpos]
  rw [hcast]
  exact (Int.le_ceil t).trans (Int.cast_le.2 (le_max_right ..))

theorem gridOf_one (samples : List Sample) :
    gridOf samples 1 = unitGrid (samples.getLastD (0, 0)).1 := by
  have htmax : ∀ z : ℤ, (if z ≤ 0 then 1 else z) = max 1 z := by
    intro z
    split_ifs <;> omega
  have hpos : ∀ z : ℤ, (0 : ℚ) ≤ (max 1 z : ℤ) := fun z =>
    Int.cast_nonneg (le_max_of_le_left zero_le_one)
  simp only [gridOf, unitGrid, arange, htmax, div_one, mul_one]
  rw [Nat.ceil_add_one (hpos _), Nat.ceil_intCast]

/-- The sort puts the largest time last. -/
theorem largest_eq (samples : List Sample) :
    largest samples = ((byTime samples).getLastD (0, 0)).1 := by
  rw [largest, List.getLastD_eq_getLast?]
  cases hlast : (byTime samples).getLast? with
  | none =>
    have hperm := byTime_perm samples
    rw [List.getLast?_eq_none_iff.1 hlast] at hperm
    rw [List.nil_perm.1 hperm]
    rfl
  | some last =>
    have hmem : last.1 ∈ samples.map (·.1) :=
      List.mem_map_of_mem (mem_byTime.1 (List.mem_of_getLast? hlast))
    have hmax : (samples.map (·.1)).max? = some last.1 := by
      refine List.max?_eq_some_iff.2 ⟨hmem, fun t ht => ?_⟩
      obtain ⟨e, he, rfl⟩ := List.mem_map.1 ht
      exact le_getLast (byTime_pairwise samples) hlast (mem_byTime.2 he)
    rw [hmax]
    rfl

theorem le_largest {e : Sample} (he : e ∈ byTime samples) : e.1 ≤ largest samples := by
  have hne : byTime samples ≠ [] := List.ne_nil_of_mem he
  obtain ⟨last, hlast⟩ := Option.isSome_iff_exists.1 (List.getLast?_isSome.2 hne)
  rw [largest_eq, List.getLastD_eq_getLast?, hlast]
  exact le_getLast (byTime_pairwise samples) hlast he

/-- The loop of `_resample_step` with `dt = 1` has consumed every sample. -/
theorem resample_spec (samples : List Sample) :
    (resample samples 1).1 = (unitGrid (largest samples)).map (valueAt (byTime samples) 0) ∧
      (resample samples 1).2.pending = [] := by
  obtain ⟨g, hg, hle⟩ := unitGrid_getLast? (largest samples)
  obtain ⟨hmap, ⟨taken, hbehind⟩, hnext⟩ := fill_spec (byTime_pairwise samples)
    (unitGrid_pairwise (largest samples)) (Cursor.behind_start _) fun _ he => nomatch he
  rw [resample, gridOf_one, ← largest_eq]
  refine ⟨hmap, ?_⟩
  cases hev : (fill (unitGrid (largest samples)) (.start (byTime samples))).2.nextEv with
  | none => exact List.head?_eq_none_iff.1 (hbehind.ahead ▸ hev)
  | some e =>
    -- an event ahead would be later than the last grid point, hence than the largest time
    have hlate : g < e.1 := hnext g hg e hev
    have hmem : e ∈ byTime samples := by
      rw [← hbehind.split]
      exact List.mem_append_right _ (List.mem_of_head? (hbehind.ahead ▸ hev))
    exact absurd ((le_largest hmem).trans hle) hlate.not_ge

/-- The value at a time that no sample is beyond is that of the last sample. -/
theorem valueAt_of_le {g : ℚ} (hne : samples ≠ []) (h : largest samples ≤ g) :
    some (valueAt (byTime samples) 0 g) = (byTime samples).getLast?.map (·.2) := by
  have hne' : byTime samples ≠ [] := fun hnil => hne (List.nil_perm.1 (hnil ▸ byTime_perm samples))
  have hall : ∀ e ∈ byTime samples, e.1 ≤ g := fun e he => (le_largest he).trans h
  obtain ⟨last, hlast⟩ := Option.isSome_iff_exists.1 (List.getLast?_isSome.2 hne')
  rw [valueAt, List.filter_eq_self.2 (by simpa using hall), hlast]
  rfl

/-- **Resampling is the forward fill.** -/
theorem resampleStep_forwardFills (first : Sample) (rest : List Sample) :
    ForwardFills (first :: rest) := by
  have hne : first :: rest ≠ [] := List.cons_ne_nil _ _
  obtain ⟨hdepths, hpending⟩ := resample_spec (first :: rest)
  have hstep : resampleStep (first :: rest) 1 = (unitGrid (largest (first :: rest)),
      (unitGrid (largest (first :: rest))).map (valueAt (byTime (first :: rest)) 0)) := by
    rw [resampleStep, if_neg hne, hdepths, gridOf_one, ← largest_eq]
  refine ⟨by rw [hstep], by rw [hstep], hpending, ?_⟩
  obtain ⟨g, hg, hle⟩ := unitGrid_getLast? (largest (first :: rest))
  rw [hstep, List.getLast?_map, hg]
  exact valueAt_of_le hne hle

example : resampleStep [(5 / 2, 3), (1, 1), (1, 2)] 1 = ([0, 1, 2, 3], [0, 2, 2, 3]) := by
  decide +kernel

end TaskQueueCoSim.PlotResults
