import Mathlib.Data.List.Basic

/-!
# The bounded FIFO

What a synchronous FIFO of a given capacity is for: a list of words, with a
push accepted when the list has room and a pop accepted when it is non-empty,
both judged on the list before the edge, and both done when both are accepted.

Between resets, what went in is what came out followed by what is still held
(`sent_eq`).
-/

namespace TaskQueueCoSim.Fifo

variable {α : Type}

/-- What the surroundings ask of the FIFO in one clock cycle. -/
structure ClockCycle (α : Type) where
  reset : Bool
  push : Bool
  pop : Bool
  data : α
  deriving DecidableEq, Repr

def pushAccepted (capacity : Nat) (q : List α) (c : ClockCycle α) : Bool :=
  !c.reset && c.push && decide (q.length < capacity)

def popAccepted (q : List α) (c : ClockCycle α) : Bool :=
  !c.reset && c.pop && !q.isEmpty

/-- The contents after one clock cycle. -/
def next (capacity : Nat) (q : List α) (c : ClockCycle α) : List α :=
  if c.reset then []
  else (if popAccepted q c then q.tail else q) ++
    (if pushAccepted capacity q c then [c.data] else [])

theorem room_of_pushAccepted {capacity : Nat} {q : List α} {c : ClockCycle α}
    (h : pushAccepted capacity q c = true) : q.length < capacity := by
  simp only [pushAccepted, Bool.and_eq_true, decide_eq_true_eq] at h
  exact h.2

theorem ne_nil_of_popAccepted {q : List α} {c : ClockCycle α} (h : popAccepted q c = true) :
    q ≠ [] := by
  simp only [popAccepted, Bool.and_eq_true, Bool.not_eq_true', List.isEmpty_eq_false_iff] at h
  exact h.2

@[simp] theorem next_reset (capacity : Nat) (q : List α) {c : ClockCycle α} (h : c.reset = true) :
    next capacity q c = [] := by
  simp [next, h]

/-- The word taken in one cycle, as a list of at most one word. -/
def popped (q : List α) (c : ClockCycle α) : List α :=
  if popAccepted q c then q.take 1 else []

/-- The word accepted in one cycle, as a list of at most one word. -/
def pushed (capacity : Nat) (q : List α) (c : ClockCycle α) : List α :=
  if pushAccepted capacity q c then [c.data] else []

/-- No word is lost, invented or reordered in a cycle without reset. -/
theorem sent_eq (capacity : Nat) (q : List α) (c : ClockCycle α) (h : c.reset = false) :
    q ++ pushed capacity q c = popped q c ++ next capacity q c := by
  unfold pushed popped next
  cases q with
  | nil => simp [popAccepted, h]
  | cons x q => cases popAccepted (x :: q) c <;> simp [h]

end TaskQueueCoSim.Fifo
