import TaskQueueCoSim.Mmio.DriverResults

/-!
# The words the driver pops

`FifoValues` says that the `k`-th successful pop delivers the word of the `k`-th
successful push.  The bridge samples `data_out` after the edge, so it delivers
the word behind the head, and `fifoValues_iff` gives the sequences of calls for
which that makes no difference: every word popped equals the one behind it.
-/

namespace TaskQueueCoSim.Mmio

open Machine QueueCore

/-- The word of a push that returned 0. -/
def Return.pushedWord (x : Return) : Option Word :=
  match x.call, x.result with
  | .request ⟨.push, v, _⟩, .code rc _ => if rc = 0 then some v else none
  | _, _ => none

/-- What a pop that returned 0 stored in `*out`. -/
def Return.poppedWord (x : Return) : Option Word :=
  match x.call, x.result with
  | .request ⟨.pop, _, _⟩, .code rc out => if rc = 0 then out else none
  | _, _ => none

def accepted (done : List Record) : List Word := done.filterMap fun x => x.pushedWord

def delivered (done : List Record) : List Word := done.filterMap fun x => x.poppedWord

def FifoValues (done : List Record) : Prop :=
  ∀ (k : Nat) (w : Word), (delivered done)[k]? = some w → (accepted done)[k]? = some w

/-- If the call takes a word, the word behind it is the same. -/
def Repeats (mem₀ : BitVec (clog2 16) → Word) (i : Ideal) (c : Call) : Prop :=
  c.kind? = some .pop → i.queue ≠ [] → i.queue.head? = some (bridgeDelivers mem₀ i)

instance Repeats.decidable (mem₀ : BitVec (clog2 16) → Word) (i : Ideal) (c : Call) :
    Decidable (Repeats mem₀ i c) :=
  inferInstanceAs (Decidable (_ → _))

section Log

variable (deliver : Ideal → Word)

/-- The words of one call. -/
theorem words_cases (i : Ideal) (c : Call) :
    (∃ v, c.kind? = some .push ∧ i.next c = { i with accepted := i.accepted ++ [v] } ∧
      (i.record deliver c).pushedWord = some v ∧ (i.record deliver c).poppedWord = none) ∨
    (i.queue ≠ [] ∧ c.kind? = some .pop ∧ i.next c = { i with popped := i.popped + 1 } ∧
      (i.record deliver c).pushedWord = none ∧
      (i.record deliver c).poppedWord = some (deliver i)) ∨
    ((c.kind? = some .pop → i.queue = []) ∧ i.next c = i ∧
      (i.record deliver c).pushedWord = none ∧ (i.record deliver c).poppedWord = none) := by
  rcases i.next_cases c with ⟨q, rfl, hk, ok, e⟩ | ⟨q, rfl, hk, ok, e⟩ | ⟨refused, e⟩
  · obtain ⟨kind, value, timeout⟩ := q
    cases hk
    exact Or.inl ⟨value, rfl, e, by
      simp [Ideal.record, Ideal.result, Return.pushedWord, ok, Answer.code], rfl⟩
  · obtain ⟨kind, value, timeout⟩ := q
    cases hk
    exact Or.inr (Or.inl ⟨Ideal.answer_pop.mp ok, rfl, e, rfl, by
      simp [Ideal.record, Ideal.result, Return.poppedWord, ok, Answer.code, Ideal.out]⟩)
  · refine Or.inr (Or.inr ⟨fun hk => ?_, e, ?_, ?_⟩)
    · cases c with
      | status mask => cases hk
      | request q =>
        have hk : q.kind = .pop := Option.some.inj hk
        by_contra ne
        have ok := Ideal.answer_pop.mpr ne
        have := refused q rfl
        rw [hk, ok] at this
        cases this
    all_goals
      cases c with
      | status mask => rfl
      | request q =>
        have := refused q rfl
        obtain ⟨kind, value, timeout⟩ := q
        cases kind <;>
          simp_all [Ideal.record, Ideal.result, Return.pushedWord, Return.poppedWord, Answer.code]

theorem accepted_log (cs : List Call) :
    accepted (Ideal.empty.log deliver cs) = (run Ideal.next .empty cs).accepted := by
  induction cs using List.reverseRecOn with
  | nil => rfl
  | append_singleton cs c ih =>
    rw [Ideal.log_concat, run_concat, accepted, List.filterMap_append, ← accepted, ih]
    generalize run Ideal.next Ideal.empty cs = i
    rcases words_cases deliver i c with ⟨v, -, e, push, -⟩ | ⟨-, -, e, push, -⟩ | ⟨-, e, push, -⟩ <;>
      simp [e, push]

theorem length_delivered_log (cs : List Call) :
    (delivered (Ideal.empty.log deliver cs)).length = (run Ideal.next .empty cs).popped := by
  induction cs using List.reverseRecOn with
  | nil => rfl
  | append_singleton cs c ih =>
    rw [Ideal.log_concat, run_concat, delivered, List.filterMap_append, ← delivered,
      List.length_append, ih]
    generalize run Ideal.next Ideal.empty cs = i
    rcases words_cases deliver i c with ⟨v, -, e, -, pop⟩ | ⟨-, -, e, -, pop⟩ | ⟨-, e, -, pop⟩ <;>
      simp [e, pop]

end Log

/-- One more pop keeps the values in order exactly if it delivers the head. -/
theorem values_snoc {xs ys : List Word} {w : Word} :
    (∀ (k : Nat) (x : Word), (ys ++ [w])[k]? = some x → xs[k]? = some x) ↔
      (∀ (k : Nat) (x : Word), ys[k]? = some x → xs[k]? = some x) ∧ xs[ys.length]? = some w := by
  constructor
  · intro h
    refine ⟨fun k x hk => h k x ?_, h ys.length w (by simp)⟩
    obtain ⟨lt, -⟩ := List.getElem?_eq_some_iff.mp hk
    rwa [List.getElem?_append_left lt]
  · rintro ⟨h, last⟩ k x hk
    rcases Nat.lt_trichotomy k ys.length with lt | rfl | gt
    · rw [List.getElem?_append_left lt] at hk
      exact h k x hk
    · have : w = x := by simpa using hk
      rw [← this]
      exact last
    · rw [List.getElem?_eq_none (by simp; omega)] at hk
      cases hk

/-- One more push changes nothing for the words delivered so far. -/
theorem values_push {xs ys : List Word} (v : Word) (h : ys.length ≤ xs.length) :
    (∀ (k : Nat) (x : Word), ys[k]? = some x → (xs ++ [v])[k]? = some x) ↔
      ∀ (k : Nat) (x : Word), ys[k]? = some x → xs[k]? = some x := by
  refine forall_congr' fun k => forall_congr' fun x => imp_congr_right fun hk => ?_
  obtain ⟨lt, -⟩ := List.getElem?_eq_some_iff.mp hk
  rw [List.getElem?_append_left (by omega)]

theorem fifoValues_log_iff (mem₀ : BitVec (clog2 16) → Word) (cs : List Call) :
    FifoValues (Ideal.empty.log (bridgeDelivers mem₀) cs) ↔
      Guarded Ideal.next (Repeats mem₀) .empty cs := by
  induction cs using List.reverseRecOn with
  | nil => simp [FifoValues, Ideal.log, delivered, Guarded]
  | append_singleton cs c ih =>
    have acc := accepted_log (bridgeDelivers mem₀) cs
    have len := length_delivered_log (bridgeDelivers mem₀) cs
    have sane := Ideal.sane_run cs
    rw [guarded_concat, ← ih, Ideal.log_concat]
    simp only [FifoValues, delivered, accepted, List.filterMap_append] at acc len ⊢
    generalize run Ideal.next Ideal.empty cs = i at acc len sane
    rw [acc]
    generalize List.filterMap (fun x : Record => x.poppedWord)
      (Ideal.empty.log (bridgeDelivers mem₀) cs) = ys at len
    rcases words_cases (bridgeDelivers mem₀) i c with
      ⟨v, kind, -, push, pop⟩ | ⟨ne, kind, -, push, pop⟩ | ⟨empty, -, push, pop⟩
    · have vacuous : Repeats mem₀ i c := fun hk => by
        rw [kind] at hk
        cases hk
      have le := sane.popped_le
      simp [push, pop, vacuous, values_push v (len.le.trans le)]
    · obtain ⟨x, xs, hq⟩ := List.exists_cons_of_ne_nil ne
      have head : i.accepted[ys.length]? = some x := by
        rw [len, ← List.head?_drop]
        exact congrArg List.head? hq
      have e : Repeats mem₀ i c ↔ some x = some (bridgeDelivers mem₀ i) := by
        simp [Repeats, kind, hq]
      simp [push, pop, values_snoc, head, e]
    · have vacuous : Repeats mem₀ i c := fun hk ne => absurd (empty hk) ne
      simp [push, pop, vacuous]

/-- **The popped words are in order exactly when each equals the one behind it.** -/
theorem fifoValues_iff (q : QueueCore 16 32) (d : Distributor) (a : Arbiter) (ts : List Turn)
    (patient : ∀ t ∈ ts, t.Patient) :
    let s := run Atomic.next (Atomic.init q d a) ts
    FifoValues s.done ↔
      Guarded Ideal.next (Repeats q.mem) .empty (s.done.map fun x => x.call) := by
  intro s
  obtain ⟨cs, h⟩ : ∃ cs, Sync q.mem s cs := atomic_refines q d a patient
  rw [h.done, Ideal.map_call_log]
  exact fifoValues_log_iff q.mem cs

/-- Two pushes of one word and a pop. -/
def pushTwicePop : List Turn :=
  whole (mmioPush 5 none) ++ whole (mmioPush 5 none) ++ whole (mmioPop none)

theorem fifoValues_pushTwicePop :
    FifoValues (run Atomic.next (Atomic.init ⟨fun _ => 0, 0, 0, 0⟩ ⟨false, 0, 0⟩ ⟨0, 0, false⟩)
      pushTwicePop).done :=
  (fifoValues_iff _ _ _ pushTwicePop (by decide)).mpr (by decide)

/-- A push and a pop. -/
def pushPop : List Turn := whole (mmioPush 5 none) ++ whole (mmioPop none)

/-- The pop returns 0 and delivers what the slot behind the head held at
power-on. -/
theorem not_fifoValues_pushPop :
    ¬ FifoValues (run Atomic.next (Atomic.init ⟨fun _ => 0, 0, 0, 0⟩ ⟨false, 0, 0⟩ ⟨0, 0, false⟩)
      pushPop).done := by
  intro h
  exact absurd (h 0 0 (by decide)) (by decide)

end TaskQueueCoSim.Mmio
