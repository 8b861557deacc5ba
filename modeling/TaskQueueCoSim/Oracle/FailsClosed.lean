import TaskQueueCoSim.Oracle.CheckTrace

/-!
# The golden oracle and damaged traces

`FailsClosed` is what a damaged trace should meet: no mismatch only if every line
was an event and was applied.  A line with bad digits or an unknown operation is
counted, but one that does not have two fields is only reported.

* `run_apply_mismatches`: over any lines the mismatches are the counted lines and
  those of the replay of the others;
* `failsClosed_iff`: so the oracle fails closed on a trace exactly if no line lacks
  its fields, or something else in the trace is counted.
-/

namespace TaskQueueCoSim.Oracle

open Machine PyText Replay

/-! ## Lines -/

/-- One comma, with the operation before it and the value behind it. -/
def TwoFields (line op val : List Char) : Prop :=
  strip line = op ++ ',' :: val ∧ ',' ∉ op ∧ ',' ∉ val

/-- An operation `push` or `pop` and a hexadecimal value. -/
def WellFormed (line : List Char) : Prop :=
  ∃ op val, TwoFields line op val ∧
    (lower (strip op) = Op.push.name ∨ lower (strip op) = Op.pop.name) ∧
    (int16 (strip val)).isSome

/-- Not blank, and not two fields. -/
def Cut (line : List Char) : Prop := strip line ≠ [] ∧ ∀ op val, ¬ TwoFields line op val

/-- Two fields that are no event. -/
def Counted (line : List Char) : Prop := (∃ op val, TwoFields line op val) ∧ ¬ WellFormed line

def Line.event? : Line → Option (Event Int)
  | .push v => some (.push v)
  | .pop v => some (.pop v)
  | _ => none

def Line.counted : Line → Bool
  | .invalidHex => true
  | .unknownOp => true
  | _ => false

theorem twoFields_iff (line op val : List Char) :
    TwoFields line op val ↔ (strip line).splitOn ',' = [op, val] :=
  (splitOn_eq_pair_iff _ _ _ _).symm

theorem strip_ne_nil {line op val : List Char} (h : TwoFields line op val) : strip line ≠ [] := by
  rw [h.1]
  simp

/-- How a line with two fields is read. -/
theorem readLine_twoFields {line op val : List Char} (h : TwoFields line op val) :
    readLine line =
      match int16 (strip val) with
      | none => .invalidHex
      | some v =>
        if lower (strip op) = Op.push.name then .push v
        else if lower (strip op) = Op.pop.name then .pop v
        else .unknownOp := by
  have hsplit := (twoFields_iff _ _ _).mp h
  simp only [readLine, strip_ne_nil h, if_false, hsplit, Op.name]
  rfl

theorem readLine_blank {line : List Char} (h : strip line = []) : readLine line = .blank := by
  simp only [readLine, h, if_true]

theorem readLine_cut {line : List Char} (h : Cut line) : readLine line = .malformed := by
  simp only [readLine, h.1, if_false]
  split
  · next op val hsplit => exact absurd ((twoFields_iff _ _ _).mpr hsplit) (h.2 op val)
  · rfl

theorem readLine_wellFormed {line : List Char} (h : WellFormed line) :
    ∃ e, (readLine line).event? = some e ∧ (readLine line).counted = false := by
  obtain ⟨op, val, h2, hop, hval⟩ := h
  obtain ⟨v, hv⟩ := Option.isSome_iff_exists.mp hval
  rw [readLine_twoFields h2, hv]
  rcases hop with hop | hop
  · simp [hop, Line.event?, Line.counted]
  · simp [hop, Line.event?, Line.counted, Op.name]

theorem readLine_counted {line : List Char} (h : Counted line) :
    (readLine line).event? = none ∧ (readLine line).counted = true := by
  obtain ⟨⟨op, val, h2⟩, hbad⟩ := h
  rw [readLine_twoFields h2]
  cases hv : int16 (strip val) with
  | none => exact ⟨rfl, rfl⟩
  | some v =>
    have hpush : lower (strip op) ≠ Op.push.name := fun hop =>
      hbad ⟨op, val, h2, Or.inl hop, by simp [hv]⟩
    have hpop : lower (strip op) ≠ Op.pop.name := fun hop =>
      hbad ⟨op, val, h2, Or.inr hop, by simp [hv]⟩
    simp [hpush, hpop, Line.event?, Line.counted]

/-- Every line is blank, cut, counted or an event. -/
theorem line_cases (line : List Char) :
    strip line = [] ∨ Cut line ∨ Counted line ∨ WellFormed line := by
  by_cases hblank : strip line = []
  · exact Or.inl hblank
  · by_cases h2 : ∃ op val, TwoFields line op val
    · by_cases hwell : WellFormed line
      · exact Or.inr (Or.inr (Or.inr hwell))
      · exact Or.inr (Or.inr (Or.inl ⟨h2, hwell⟩))
    · exact Or.inr (Or.inl ⟨hblank, fun op val h => h2 ⟨op, val, h⟩⟩)

/-! ## The loop over any lines -/

/-- The mismatches so far are carried along. -/
theorem replay_mismatches_add (q : List Int) (m : Nat) (es : List (Event Int)) :
    (run check ⟨q, m⟩ es).mismatches = m + (run check ⟨q, 0⟩ es).mismatches := by
  simp only [replay_mismatches]
  omega

/-- The mismatches are the counted lines and those of the events. -/
theorem run_apply_mismatches (s : Golden) (ls : List Line) :
    (run apply s ls).mismatches = s.mismatches + ls.countP Line.counted +
      (run check ⟨s.q, 0⟩ (ls.filterMap Line.event?)).mismatches := by
  induction ls generalizing s with
  | nil => rfl
  | cons l ls ih =>
    rw [run_cons, ih]
    cases l with
    | blank => rfl
    | malformed => rfl
    | invalidHex =>
      simp only [apply, List.countP_cons, Line.counted, if_true, List.filterMap_cons, Line.event?]
      omega
    | unknownOp =>
      simp only [apply, List.countP_cons, Line.counted, if_true, List.filterMap_cons, Line.event?]
      omega
    | push v => rfl
    | pop v =>
      obtain ⟨q, mismatches, pushes, pops⟩ := s
      simp only [List.countP_cons, Line.counted, Bool.false_eq_true, if_false, List.filterMap_cons,
        Line.event?, run_cons]
      cases q with
      | nil =>
        simp only [apply, check]
        rw [replay_mismatches_add _ (0 + 1)]
        omega
      | cons x q =>
        simp only [apply, check]
        rw [replay_mismatches_add _ (0 + _)]
        by_cases h : x = v <;> simp only [h, ne_eq, not_true, not_false_iff, if_true, if_false] <;>
          omega

/-- Every event moves one of the two counters. -/
theorem run_apply_pushes_add_pops (s : Golden) (ls : List Line) :
    (run apply s ls).pushes + (run apply s ls).pops =
      s.pushes + s.pops + (ls.filterMap Line.event?).length := by
  induction ls generalizing s with
  | nil => rfl
  | cons l ls ih =>
    rw [run_cons, ih]
    cases l with
    | blank => rfl
    | malformed => rfl
    | invalidHex => rfl
    | unknownOp => rfl
    | push v =>
      simp only [apply, List.filterMap_cons, Line.event?, List.length_cons]
      omega
    | pop v =>
      cases hq : s.q <;> simp only [apply, hq, List.filterMap_cons, Line.event?, List.length_cons] <;>
        omega

/-! ## Damaged traces -/

/-- The lines behind the header that are not blank. -/
def body (trace : List Char) : List (List Char) := (lines trace).tail.filter fun l => strip l ≠ []

/-- The events of the lines that are events. -/
def events (trace : List Char) : List (Event Int) :=
  ((lines trace).tail.map readLine).filterMap Line.event?

/-- What a FIFO could have done. -/
def FifoHistory (es : List (Event Int)) : Prop :=
  (∀ k, (popped (es.take k)).length ≤ (pushed (es.take k)).length) ∧ popped es <+: pushed es

/-- A clean verdict says that every line was an event and was applied. -/
structure FailsClosed (trace : List Char) : Prop where
  wellFormed : (checkTrace trace).mismatches = 0 → ∀ line ∈ body trace, WellFormed line
  applied : (checkTrace trace).mismatches = 0 →
    (checkTrace trace).pushes + (checkTrace trace).pops = (body trace).length
  exit_one : (∃ line ∈ body trace, ¬ WellFormed line) → exitStatus (checkTrace trace) = 1

/-- No line is cut, or there is something else to count. -/
def DamageCounted (trace : List Char) : Prop :=
  (∀ line ∈ (lines trace).tail, ¬ Cut line) ∨ (∃ line ∈ (lines trace).tail, Counted line) ∨
    ¬ FifoHistory (events trace)

theorem mem_body {trace line : List Char} :
    line ∈ body trace ↔ line ∈ (lines trace).tail ∧ strip line ≠ [] := by
  simp [body]

theorem checkTrace_clean_iff (trace : List Char) :
    (checkTrace trace).mismatches = 0 ↔
      (∀ line ∈ (lines trace).tail, ¬ Counted line) ∧ FifoHistory (events trace) := by
  have hcount : (((lines trace).tail.map readLine).countP Line.counted = 0) ↔
      ∀ line ∈ (lines trace).tail, ¬ Counted line := by
    rw [List.countP_map, List.countP_eq_zero]
    refine forall₂_congr fun line _ => ?_
    constructor
    · intro h hcounted
      exact h (readLine_counted hcounted).2
    · intro h hcounted
      rcases line_cases line with hl | hl | hl | hl
      · simp [readLine_blank hl, Line.counted] at hcounted
      · simp [readLine_cut hl, Line.counted] at hcounted
      · exact h hl
      · obtain ⟨e, _, hne⟩ := readLine_wellFormed hl
        simp [hne] at hcounted
  have hrun := run_apply_mismatches Golden.start ((lines trace).tail.map readLine)
  rw [← hcount, FifoHistory, ← replay_clean_iff]
  change (run apply Golden.start ((lines trace).tail.map readLine)).mismatches = 0 ↔ _
  rw [hrun]
  simp only [Golden.start, events, Nat.zero_add, Nat.add_eq_zero_iff]

/-- If all lines behind the header that are not blank are events, they are as
many as the events. -/
theorem length_events {ls : List (List Char)}
    (h : ∀ line ∈ ls, strip line ≠ [] → WellFormed line) :
    ((ls.map readLine).filterMap Line.event?).length =
      (ls.filter fun l => strip l ≠ []).length := by
  induction ls with
  | nil => rfl
  | cons l ls ih =>
    have hrest := ih fun line hl => h line (by simp [hl])
    by_cases hl : strip l = []
    · rw [List.filter_cons_of_neg (by simp [hl]), ← hrest, List.map_cons, readLine_blank hl]
      rfl
    · obtain ⟨e, he, _⟩ := readLine_wellFormed (h l (by simp) hl)
      rw [List.filter_cons_of_pos (by simp [hl]), List.map_cons, List.filterMap_cons_some he,
        List.length_cons, List.length_cons, hrest]

/-- **Damaged traces.**  The oracle fails closed on a trace exactly if no line
lacks its two fields, or another line is counted, or the events are not those of
a FIFO. -/
theorem failsClosed_iff (trace : List Char) : FailsClosed trace ↔ DamageCounted trace := by
  have hclean := checkTrace_clean_iff trace
  constructor
  · intro h
    by_contra hnot
    simp only [DamageCounted, not_or, not_forall, not_exists, not_and, not_not] at hnot
    obtain ⟨⟨line, hline, hcut⟩, hcounted, hfifo⟩ := hnot
    have hm := hclean.mpr ⟨hcounted, hfifo⟩
    obtain ⟨op, val, h2, _⟩ := h.wellFormed hm line (mem_body.mpr ⟨hline, hcut.1⟩)
    exact hcut.2 op val h2
  · intro h
    have hwell : (checkTrace trace).mismatches = 0 → ∀ line ∈ body trace, WellFormed line := by
      intro hm line hline
      obtain ⟨hcounted, hfifo⟩ := hclean.mp hm
      obtain ⟨hline, hne⟩ := mem_body.mp hline
      rcases h with h | ⟨l, hl, hc⟩ | h
      · rcases line_cases line with hl | hl | hl | hl
        · exact absurd hl hne
        · exact absurd hl (h line hline)
        · exact absurd hl (hcounted line hline)
        · exact hl
      · exact absurd hc (hcounted l hl)
      · exact absurd hfifo h
    refine ⟨hwell, fun hm => ?_, fun hdamaged => ?_⟩
    · refine (run_apply_pushes_add_pops _ _).trans ?_
      rw [length_events fun line hl hne => hwell hm line (mem_body.mpr ⟨hl, hne⟩)]
      exact Nat.zero_add _
    · obtain ⟨line, hline, hbad⟩ := hdamaged
      have hm : (checkTrace trace).mismatches ≠ 0 := fun hm => hbad (hwell hm line hline)
      exact if_neg hm

/-- A line cut before its comma passes. -/
theorem not_failsClosed_cutLine :
    ¬ FailsClosed "op,value\npush,0x0000000a\npush\npop,0x0000000a\n".toList := by
  intro h
  obtain ⟨op, val, h2, _⟩ := h.wellFormed (by decide) "push\n".toList (by decide)
  have hcomma : ',' ∈ strip "push\n".toList := by
    rw [h2.1]
    simp
  exact absurd hcomma (by decide)

end TaskQueueCoSim.Oracle
