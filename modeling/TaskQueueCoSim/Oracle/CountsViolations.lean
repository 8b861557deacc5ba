import TaskQueueCoSim.Oracle.CheckTrace

/-!
# The golden oracle counts the violations

A trace of event lines after a header is checked by replaying its events, so the
counters of `checkTrace` are those of the replay.
-/

namespace TaskQueueCoSim.Oracle

open Machine PyText Replay

/-- What the oracle should say of a history. -/
structure CountsViolations (res : GoldenResults) (events : List (Event Int)) : Prop where
  pushes : res.pushes = (pushed events).length
  pops : res.pops = (popped events).length
  balance : res.pushes = (served 0 events).length + res.finalQueueLen
  mismatches : res.mismatches =
    emptyPops 0 events + disagreements (served 0 events) (pushed events)
  clean_iff : res.mismatches = 0 ↔
    (∀ k, (popped (events.take k)).length ≤ (pushed (events.take k)).length) ∧
      popped events <+: pushed events

theorem countsViolations_run (events : List (Event Int)) :
    CountsViolations (run apply Golden.start (events.map lineOf)).results events := by
  have hverdict := run_apply_verdict Golden.start events
  have hpushes := run_apply_pushes Golden.start events
  have hpops := run_apply_pops Golden.start events
  have hqueue := congrArg Verdict.queue hverdict
  have hmismatches := congrArg Verdict.mismatches hverdict
  generalize run apply Golden.start (events.map lineOf) = s at *
  have hlength := length_replay_queue (Golden.start.verdict) events
  have hcount := replay_mismatches (Golden.start.verdict) events
  have hclean := replay_clean_iff events
  simp only [Golden.verdict, Golden.start] at *
  constructor
  · simpa [Golden.results] using hpushes
  · simpa [Golden.results] using hpops
  · rw [← hqueue] at hlength
    simp only [Golden.results, hpushes]
    simpa using hlength
  · rw [← hmismatches] at hcount
    simpa [Golden.results] using hcount
  · rw [← hmismatches] at hclean
    exact hclean

/-- The lines of a trace of event lines are read as their events. -/
theorem map_readLine (es : List EventLine) :
    (es.map EventLine.text).map readLine = (es.map EventLine.event).map lineOf := by
  rw [List.map_map, List.map_map]
  exact List.map_congr_left fun e _ => e.readLine_text

theorem length_pushed (es : List EventLine) :
    (pushed (es.map EventLine.event)).length = es.countP (·.op = .push) := by
  induction es with
  | nil => rfl
  | cons e es ih =>
    rw [List.map_cons, List.countP_cons, ← ih]
    cases h : e.op <;> simp [EventLine.event, Op.event, h]

theorem length_popped (es : List EventLine) :
    (popped (es.map EventLine.event)).length = es.countP (·.op = .pop) := by
  induction es with
  | nil => rfl
  | cons e es ih =>
    rw [List.map_cons, List.countP_cons, ← ih]
    cases h : e.op <;> simp [EventLine.event, Op.event, h]

/-- **The oracle counts the violations.**  For a header and any list of event
lines, the counters are the numbers of pushes and pops, what is left was pushed
and not served, and the mismatches are the pops that found nothing and the
places where the other pops disagree with the pushes.  There is none exactly if
no prefix pops more than it pushes and the pops give what was pushed, in order. -/
theorem checkTrace_countsViolations {trace header : List Char} {es : List EventLine}
    (h : lines trace = header :: es.map EventLine.text) :
    (checkTrace trace).pushes = es.countP (·.op = .push) ∧
      (checkTrace trace).pops = es.countP (·.op = .pop) ∧
      CountsViolations (checkTrace trace) (es.map EventLine.event) := by
  have hrun : checkTrace trace =
      (run apply Golden.start ((es.map EventLine.event).map lineOf)).results := by
    rw [checkTrace, h, List.tail_cons, map_readLine]
  have hcounts := countsViolations_run (es.map EventLine.event)
  rw [← hrun] at hcounts
  refine ⟨?_, ?_, hcounts⟩
  · rw [hcounts.pushes, length_pushed]
  · rw [hcounts.pops, length_popped]

theorem checkTrace_countsViolations_pushPop :
    lines "op,value\npush,0x0000000a\npop,0x0000000b\n".toList =
        "op,value\n".toList ::
          [EventLine.plain .push "0000000a".toList (by decide) (by decide),
            EventLine.plain .pop "0000000b".toList (by decide) (by decide)].map EventLine.text ∧
      CountsViolations (checkTrace "op,value\npush,0x0000000a\npop,0x0000000b\n".toList)
        [.push 10, .pop 11] := by
  have h : lines "op,value\npush,0x0000000a\npop,0x0000000b\n".toList =
      "op,value\n".toList ::
        [EventLine.plain .push "0000000a".toList (by decide) (by decide),
          EventLine.plain .pop "0000000b".toList (by decide) (by decide)].map EventLine.text := by
    decide
  exact ⟨h, (checkTrace_countsViolations h).2.2⟩

end TaskQueueCoSim.Oracle
