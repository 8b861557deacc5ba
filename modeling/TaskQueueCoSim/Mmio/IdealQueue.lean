import TaskQueueCoSim.Lib.Machine
import TaskQueueCoSim.Mmio.Driver
import TaskQueueCoSim.Rtl.QueueMemory

/-!
# An ideal queue behind the driver

`Ideal` is a 16-deep queue that answers the calls of the driver one at a time:
it keeps the words it accepted and how many of them it gave out.  `Ideal.log`
lists what a sequence of calls returns, with one thing that is not ideal: the
word a pop delivers is a parameter `deliver` of the queue's history, because the
bridge does not deliver the head.
-/

namespace TaskQueueCoSim.Mmio

open Machine

structure Ideal where
  accepted : List Word
  popped : Nat
  deriving DecidableEq, Repr

/-- A completed call, with the contents of the queue before and after it. -/
structure Record extends Return where
  before : List Word
  after : List Word
  deriving DecidableEq, Repr

/-- The call was a request of kind `k` and returned 0. -/
def Return.succeeded (k : Kind) (x : Return) : Bool :=
  match x.call, x.result with
  | .request q, .code rc _ => q.kind = k ∧ rc = 0
  | _, _ => false

/-- How many calls of a kind succeeded. -/
def successes (k : Kind) (done : List Record) : Nat := done.countP fun x => x.succeeded k

namespace Ideal

def empty : Ideal := ⟨[], 0⟩

def queue (i : Ideal) : List Word := i.accepted.drop i.popped

def answer (i : Ideal) (k : Kind) : Answer :=
  match k with
  | .push => if i.queue.length < 16 then .ok else .refused
  | .pop => if i.queue = [] then .refused else .ok

def next (i : Ideal) : Call → Ideal
  | .request q =>
    match q.kind, i.answer q.kind with
    | .push, .ok => { i with accepted := i.accepted ++ [q.value] }
    | .pop, .ok => { i with popped := i.popped + 1 }
    | _, .refused => i
  | .status _ => i

variable (deliver : Ideal → Word)

/-- What a pop stores in `*out`. -/
def out (i : Ideal) (k : Kind) : Option Word :=
  match k, i.answer k with
  | .pop, .ok => some (deliver i)
  | _, _ => none

def result (i : Ideal) : Call → Result
  | .request q => .code (i.answer q.kind).code (i.out deliver q.kind)
  | .status mask =>
    .flag (Flags.has (statusBits (i.queue.length = 16) (i.queue ≠ [])) mask)

def record (i : Ideal) (c : Call) : Record :=
  ⟨⟨c, i.result deliver c⟩, i.queue, (i.next c).queue⟩

def log (i : Ideal) : List Call → List Record
  | [] => []
  | c :: cs => i.record deliver c :: (i.next c).log cs

theorem log_append (i : Ideal) (cs cs' : List Call) :
    i.log deliver (cs ++ cs') = i.log deliver cs ++ (run next i cs).log deliver cs' := by
  induction cs generalizing i with
  | nil => rfl
  | cons c cs ih => simp [log, ih]

theorem log_concat (i : Ideal) (cs : List Call) (c : Call) :
    i.log deliver (cs ++ [c]) = i.log deliver cs ++ [(run next i cs).record deliver c] :=
  log_append deliver i cs [c]

theorem map_call_log (i : Ideal) (cs : List Call) :
    (i.log deliver cs).map (fun x => x.call) = cs := by
  induction cs generalizing i with
  | nil => rfl
  | cons c cs ih => simp [log, record, ih]

/-- A record of the log is about the ideal queue as the calls before it left it. -/
theorem record_of_log {i : Ideal} {cs : List Call} {xs ys : List Record} {x : Record}
    (h : i.log deliver cs = xs ++ x :: ys) :
    ∃ cs₁ c, xs = i.log deliver cs₁ ∧ x = (run next i cs₁).record deliver c := by
  induction xs generalizing i cs with
  | nil =>
    cases cs with
    | nil => cases h
    | cons c cs => exact ⟨[], c, rfl, (List.cons.inj h).1.symm⟩
  | cons y xs ih =>
    cases cs with
    | nil => cases h
    | cons c cs =>
      obtain ⟨hy, rest⟩ := List.cons.inj h
      obtain ⟨cs₁, c', hxs, hx⟩ := ih rest
      exact ⟨c :: cs₁, c', by rw [log, ← hxs, hy], hx⟩

/-! ## One call -/

/-- What a call can do to the queue. -/
theorem next_cases (i : Ideal) (c : Call) :
    (∃ q, c = .request q ∧ q.kind = .push ∧ i.answer .push = .ok ∧
      i.next c = { i with accepted := i.accepted ++ [q.value] }) ∨
    (∃ q, c = .request q ∧ q.kind = .pop ∧ i.answer .pop = .ok ∧
      i.next c = { i with popped := i.popped + 1 }) ∨
    ((∀ q, c = .request q → i.answer q.kind = .refused) ∧ i.next c = i) := by
  cases c with
  | status mask => exact Or.inr (Or.inr ⟨fun _ e => (by cases e), rfl⟩)
  | request q =>
    cases hk : q.kind <;> cases ha : i.answer q.kind
    all_goals have ha' := hk ▸ ha
    · exact Or.inl ⟨q, rfl, hk, ha', by simp [next, hk, ha']⟩
    · exact Or.inr (Or.inr ⟨fun _ e => (by cases e; exact ha), by simp [next, hk, ha']⟩)
    · exact Or.inr (Or.inl ⟨q, rfl, hk, ha', by simp [next, hk, ha']⟩)
    · exact Or.inr (Or.inr ⟨fun _ e => (by cases e; exact ha), by simp [next, hk, ha']⟩)

theorem answer_push {i : Ideal} : i.answer .push = .ok ↔ i.queue.length < 16 := by
  simp [answer]

theorem answer_pop {i : Ideal} : i.answer .pop = .ok ↔ i.queue ≠ [] := by
  simp [answer]

/-- Nothing is taken that was not accepted, and the queue never outgrows 16. -/
structure Sane (i : Ideal) : Prop where
  popped_le : i.popped ≤ i.accepted.length
  length_le : i.queue.length ≤ 16

theorem Sane.length_queue {i : Ideal} (h : i.Sane) :
    (i.queue.length : Int) = i.accepted.length - i.popped := by
  have := h.popped_le
  rw [queue, List.length_drop]
  omega

theorem Sane.next {i : Ideal} (h : i.Sane) (c : Call) : (i.next c).Sane := by
  have hle := h.popped_le
  have hl := h.length_le
  rcases i.next_cases c with ⟨q, -, -, ok, e⟩ | ⟨q, -, -, ok, e⟩ | ⟨-, e⟩
  · have room := answer_push.mp ok
    have len : (i.accepted ++ [q.value]).length = i.accepted.length + 1 := by simp
    rw [e]
    simp only [queue, List.length_drop] at room ⊢
    exact ⟨by dsimp only; omega, by simp only [queue, List.length_drop]; omega⟩
  · have some := List.length_pos_iff.mpr (answer_pop.mp ok)
    rw [e]
    simp only [queue, List.length_drop] at some hl
    exact ⟨by dsimp only; omega, by simp only [queue, List.length_drop]; omega⟩
  · rw [e]
    exact h

theorem sane_run (cs : List Call) : (run Ideal.next empty cs).Sane :=
  run_invariant (fun _ c h => h.next c) (⟨Nat.le_refl _, by decide⟩ : empty.Sane) cs

/-! ## Counting successes -/

theorem succeeded_record (i : Ideal) (c : Call) (k : Kind) :
    (i.record deliver c).succeeded k = true ↔
      ∃ q, c = .request q ∧ q.kind = k ∧ i.answer k = .ok := by
  cases c with
  | status mask => simp [record, result, Return.succeeded]
  | request q =>
    by_cases hk : q.kind = k
    · subst hk
      cases ha : i.answer q.kind <;> simp [record, result, Return.succeeded, Answer.code, ha]
    · simp [record, result, Return.succeeded, hk]

/-- One call adds its success to the count. -/
theorem next_counts (i : Ideal) (c : Call) :
    (i.next c).accepted.length =
      i.accepted.length + (if (i.record deliver c).succeeded .push then 1 else 0) ∧
    (i.next c).popped = i.popped + (if (i.record deliver c).succeeded .pop then 1 else 0) := by
  have hs := i.succeeded_record deliver c
  rcases i.next_cases c with ⟨q, rfl, hk, ok, e⟩ | ⟨q, rfl, hk, ok, e⟩ | ⟨refused, e⟩
  · have push := (hs .push).mpr ⟨q, rfl, hk, ok⟩
    have pop : ¬ (i.record deliver (.request q)).succeeded .pop = true := by
      rw [hs]
      rintro ⟨q', eq, hk', -⟩
      cases eq
      rw [hk] at hk'
      cases hk'
    rw [e, if_pos push, if_neg pop]
    simp
  · have pop := (hs .pop).mpr ⟨q, rfl, hk, ok⟩
    have push : ¬ (i.record deliver (.request q)).succeeded .push = true := by
      rw [hs]
      rintro ⟨q', eq, hk', -⟩
      cases eq
      rw [hk] at hk'
      cases hk'
    rw [e, if_pos pop, if_neg push]
    simp
  · have none (k : Kind) : ¬ (i.record deliver c).succeeded k = true := by
      rw [hs]
      rintro ⟨q, rfl, rfl, ok⟩
      rw [refused q rfl] at ok
      cases ok
    rw [e, if_neg (none .push), if_neg (none .pop)]
    exact ⟨rfl, rfl⟩

theorem successes_log (i : Ideal) (cs : List Call) :
    (run next i cs).accepted.length = i.accepted.length + successes .push (i.log deliver cs) ∧
    (run next i cs).popped = i.popped + successes .pop (i.log deliver cs) := by
  induction cs generalizing i with
  | nil => exact ⟨rfl, rfl⟩
  | cons c cs ih =>
    obtain ⟨push, pop⟩ := ih (i.next c)
    obtain ⟨push', pop'⟩ := i.next_counts deliver c
    rw [run_cons, push, pop, push', pop']
    simp only [log, successes, List.countP_cons]
    omega

end Ideal

end TaskQueueCoSim.Mmio
