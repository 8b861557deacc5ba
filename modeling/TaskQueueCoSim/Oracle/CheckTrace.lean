import TaskQueueCoSim.Lib.PyText
import TaskQueueCoSim.Lib.Replay

/-!
# The golden oracle (sw/fifo_model.py)

`checkTrace` reads a trace as `check_trace` does: the first line is skipped, and
every other line is stripped, split at its commas and applied to a queue.  What
a line turns out to be is a `Line`; the parser can leave it at five places.

An `EventLine` is a line as the oracle wants it, with the parts it is made of.

* `readLine_text`: an event line is read as the event it stands for;
* `run_apply_verdict`: over events the oracle is their replay.
-/

namespace TaskQueueCoSim.Oracle

open Machine PyText Replay

/-- What the oracle makes of a line. -/
inductive Line where
  | blank
  | malformed
  | invalidHex
  | push (v : Int)
  | pop (v : Int)
  | unknownOp
  deriving DecidableEq, Repr

def readLine (line : List Char) : Line :=
  let line := strip line
  if line = [] then .blank
  else
    match line.splitOn ',' with
    | [op, valStr] =>
      let op := lower (strip op)
      let valStr := strip valStr
      match int16 valStr with
      | none => .invalidHex
      | some v =>
        if op = ['p', 'u', 's', 'h'] then .push v
        else if op = ['p', 'o', 'p'] then .pop v
        else .unknownOp
    | _ => .malformed

/-- The queue and the counters of the loop. -/
structure Golden where
  q : List Int
  mismatches : Nat
  pushes : Nat
  pops : Nat
  deriving DecidableEq, Repr

def Golden.start : Golden := ⟨[], 0, 0, 0⟩

/-- A malformed line is reported and not counted. -/
def apply (s : Golden) : Line → Golden
  | .blank => s
  | .malformed => s
  | .invalidHex => { s with mismatches := s.mismatches + 1 }
  | .push v => { s with q := s.q ++ [v], pushes := s.pushes + 1 }
  | .pop v =>
    match s.q with
    | [] => { s with pops := s.pops + 1, mismatches := s.mismatches + 1 }
    | expected :: q =>
      { s with
        q := q
        pops := s.pops + 1
        mismatches := if expected ≠ v then s.mismatches + 1 else s.mismatches }
  | .unknownOp => { s with mismatches := s.mismatches + 1 }

structure GoldenResults where
  pushes : Nat
  pops : Nat
  finalQueueLen : Nat
  mismatches : Nat
  deriving DecidableEq, Repr

def Golden.results (s : Golden) : GoldenResults := ⟨s.pushes, s.pops, s.q.length, s.mismatches⟩

def checkTrace (trace : List Char) : GoldenResults :=
  (run apply Golden.start ((lines trace).tail.map readLine)).results

/-- The exit status of the script. -/
def exitStatus (res : GoldenResults) : Nat := if res.mismatches = 0 then 0 else 1

/-! ## Event lines -/

inductive Op where
  | push
  | pop
  deriving DecidableEq, Repr

def Op.name : Op → List Char
  | .push => ['p', 'u', 's', 'h']
  | .pop => ['p', 'o', 'p']

def Op.event : Op → Int → Event Int
  | .push => .push
  | .pop => .pop

/-- The line that says an event happened. -/
def lineOf : Event Int → Line
  | .push v => .push v
  | .pop v => .pop v

/-- A well-formed line: an operation in letters of either case and a hexadecimal
value, each between spaces. -/
structure EventLine where
  op : Op
  opText : List Char
  hexPrefix : List Char
  digits : List Char
  before : List Char
  beforeComma : List Char
  afterComma : List Char
  after : List Char
  opText_lower : lower opText = op.name
  hexPrefix_mem : hexPrefix ∈ hexPrefixes
  digits_ne : digits ≠ []
  digits_hex : ∀ c ∈ digits, (hexValue c).isSome
  padding : ∀ c ∈ before ++ beforeComma ++ afterComma ++ after, isSpace c = true

namespace EventLine

variable (e : EventLine)

def number : List Char := e.hexPrefix ++ e.digits

def text : List Char :=
  e.before ++ (e.opText ++ (e.beforeComma ++ ',' :: e.afterComma) ++ e.number) ++ e.after

/-- The value the digits stand for. -/
def value : Int := hexNat e.digits

/-- What the line says happened. -/
def event : Event Int := e.op.event e.value

theorem isSpace_opText : ∀ c ∈ e.opText, isSpace c = false := by
  intro c hc
  by_contra h
  have hs : isSpace c = true := by simpa using h
  have hmem := mem_lower hc (toLower_of_isSpace hs)
  rw [e.opText_lower] at hmem
  have none : ∀ op : Op, (op.name.all fun c => !isSpace c) = true := by
    intro op
    cases op <;> rfl
  have := List.all_eq_true.mp (none e.op) c hmem
  simp [hs] at this

theorem comma_not_mem_opText : ',' ∉ e.opText := by
  intro h
  have hmem := mem_lower h (by decide)
  rw [e.opText_lower] at hmem
  revert hmem
  cases e.op <;> decide

theorem opText_ne : e.opText ≠ [] := by
  intro h
  have hlower := e.opText_lower
  rw [h] at hlower
  revert hlower
  cases e.op <;> decide

theorem isSpace_number : ∀ c ∈ e.number, isSpace c = false := by
  intro c hc
  rcases List.mem_append.mp hc with h | h
  · have none : (hexPrefixes.all fun pre => pre.all fun c => !isSpace c) = true := rfl
    have := List.all_eq_true.mp (List.all_eq_true.mp none _ e.hexPrefix_mem) c h
    simpa using this
  · exact isSpace_of_hexValue (e.digits_hex c h)

theorem comma_not_mem_number : ',' ∉ e.number := by
  intro hc
  rcases List.mem_append.mp hc with h | h
  · have none : ∀ pre ∈ hexPrefixes, ',' ∉ pre := by decide
    exact none _ e.hexPrefix_mem h
  · exact hexValue_ne (e.digits_hex _ h) (by decide) rfl

theorem number_ne : e.number ≠ [] := by
  intro h
  exact e.digits_ne (List.append_eq_nil_iff.mp h).2

theorem isSpace_before : ∀ c ∈ e.before, isSpace c = true := by
  intro c h
  exact e.padding c (by simp [h])

theorem isSpace_beforeComma : ∀ c ∈ e.beforeComma, isSpace c = true := by
  intro c h
  exact e.padding c (by simp [h])

theorem isSpace_afterComma : ∀ c ∈ e.afterComma, isSpace c = true := by
  intro c h
  exact e.padding c (by simp [h])

theorem isSpace_after : ∀ c ∈ e.after, isSpace c = true := by
  intro c h
  exact e.padding c (by simp [h])

/-- What is between the outer spaces. -/
theorem strip_text : strip e.text = e.opText ++ (e.beforeComma ++ ',' :: e.afterComma) ++ e.number := by
  have hop := trimmed_of_forall e.isSpace_opText
  have hnumber := trimmed_of_forall e.isSpace_number
  exact strip_pad e.isSpace_before e.isSpace_after
    (hop.append hnumber (e.beforeComma ++ ',' :: e.afterComma) e.opText_ne e.number_ne)

/-- The only comma is the one between the two parts. -/
theorem splitOn_strip : (strip e.text).splitOn ',' =
    [e.opText ++ e.beforeComma, e.afterComma ++ e.number] := by
  have hleft : ',' ∉ e.opText ++ e.beforeComma := by
    intro h
    rcases List.mem_append.mp h with h | h
    · exact e.comma_not_mem_opText h
    · exact absurd (e.isSpace_beforeComma _ h) (by decide)
  have hright : ',' ∉ e.afterComma ++ e.number := by
    intro h
    rcases List.mem_append.mp h with h | h
    · exact absurd (e.isSpace_afterComma _ h) (by decide)
    · exact e.comma_not_mem_number h
  have hsplit : strip e.text = (e.opText ++ e.beforeComma) ++ ',' :: (e.afterComma ++ e.number) := by
    rw [strip_text]
    simp only [List.append_assoc, List.cons_append]
  rw [hsplit, List.splitOn_append_cons_self_of_not_mem hleft,
    List.splitOn_eq_singleton hright]

/-- **Reading.**  An event line is read as the event it stands for. -/
theorem readLine_text : readLine e.text = lineOf e.event := by
  have hne : strip e.text ≠ [] := by
    rw [strip_text]
    simp
  have hop : strip (e.opText ++ e.beforeComma) = e.opText := by
    have := strip_pad (List.forall_mem_nil _) e.isSpace_beforeComma
      (trimmed_of_forall e.isSpace_opText)
    rwa [List.nil_append] at this
  have hnumber : strip (e.afterComma ++ e.number) = e.number := by
    have := strip_pad e.isSpace_afterComma (List.forall_mem_nil _)
      (trimmed_of_forall e.isSpace_number)
    rwa [List.append_nil] at this
  have hvalue : int16 e.number = some e.value := int16_hex e.hexPrefix_mem e.digits_ne e.digits_hex
  simp only [readLine, hne, if_false, splitOn_strip, hop, e.opText_lower, hnumber, hvalue, event]
  cases e.op <;> rfl

/-- A line without spaces, as programs write it. -/
def plain (op : Op) (digits : List Char) (hne : digits ≠ [])
    (hhex : (digits.all fun c => (hexValue c).isSome) = true) : EventLine where
  op := op
  opText := op.name
  hexPrefix := ['0', 'x']
  digits := digits
  before := []
  beforeComma := []
  afterComma := []
  after := ['\n']
  opText_lower := by cases op <;> decide
  hexPrefix_mem := by decide
  digits_ne := hne
  digits_hex := List.all_eq_true.mp hhex
  padding := List.all_eq_true.mp rfl

end EventLine

/-! ## The loop over events -/

def Golden.verdict (s : Golden) : Verdict Int := ⟨s.q, s.mismatches⟩

theorem apply_verdict (s : Golden) (e : Event Int) :
    (apply s (lineOf e)).verdict = check s.verdict e := by
  obtain ⟨q, mismatches, pushes, pops⟩ := s
  cases e with
  | push v => rfl
  | pop v =>
    cases q with
    | nil => rfl
    | cons x q =>
      simp only [apply, lineOf, check, Golden.verdict]
      by_cases h : x = v <;> simp [h]

/-- Over events the oracle is their replay. -/
theorem run_apply_verdict (s : Golden) (es : List (Event Int)) :
    (run apply s (es.map lineOf)).verdict = run check s.verdict es :=
  run_simulation (R := fun (v : Verdict Int) (s : Golden) => s.verdict = v) lineOf
    (fun _ s e h => by rw [apply_verdict, h]) rfl es

theorem run_apply_pushes (s : Golden) (es : List (Event Int)) :
    (run apply s (es.map lineOf)).pushes = s.pushes + (pushed es).length := by
  induction es generalizing s with
  | nil => rfl
  | cons e es ih =>
    rw [List.map_cons, run_cons, ih]
    cases e with
    | push v =>
      simp only [lineOf, apply, pushed_push, List.length_cons]
      omega
    | pop v => cases hq : s.q <;> simp [lineOf, apply, hq]

theorem run_apply_pops (s : Golden) (es : List (Event Int)) :
    (run apply s (es.map lineOf)).pops = s.pops + (popped es).length := by
  induction es generalizing s with
  | nil => rfl
  | cons e es ih =>
    rw [List.map_cons, run_cons, ih]
    cases e with
    | push v => rfl
    | pop v => cases hq : s.q <;> simp [lineOf, apply, hq] <;> omega

end TaskQueueCoSim.Oracle
