import Mathlib.Data.List.Basic
import TaskQueueCoSim.Lib.Machine

/-!
# Replaying a history of a queue

A history says which values were pushed and which values the pops gave.  It is
replayed against a list: a push goes to the end, a pop is held against the head.
A pop that finds nothing and a pop that gives another value are mismatches.

* `replay_mismatches`: the mismatches are the pops that found nothing and the
  places where the other pops disagree with the pushes;
* `length_replay_queue`: what is left is what was pushed and not served;
* `replay_clean_iff`: no mismatch exactly if no prefix pops more than it pushes
  and the popped values are a prefix of the pushed ones.
-/

namespace TaskQueueCoSim.Replay

open Machine

variable {α : Type}

inductive Event (α : Type) where
  | push (v : α)
  | pop (v : α)
  deriving DecidableEq, Repr

def Event.push? : Event α → Option α
  | .push v => some v
  | .pop _ => none

def Event.pop? : Event α → Option α
  | .push _ => none
  | .pop v => some v

def Event.map {β : Type} (f : α → β) : Event α → Event β
  | .push v => .push (f v)
  | .pop v => .pop (f v)

/-- The values pushed, in order. -/
def pushed (es : List (Event α)) : List α := es.filterMap Event.push?

/-- The values popped, in order. -/
def popped (es : List (Event α)) : List α := es.filterMap Event.pop?

/-- The values of the pops that find something, where `n` values are there first. -/
def served : Nat → List (Event α) → List α
  | _, [] => []
  | n, .push _ :: es => served (n + 1) es
  | 0, .pop _ :: es => served 0 es
  | n + 1, .pop v :: es => v :: served n es

/-- The pops that find nothing, where `n` values are there first. -/
def emptyPops : Nat → List (Event α) → Nat
  | _, [] => 0
  | n, .push _ :: es => emptyPops (n + 1) es
  | 0, .pop _ :: es => emptyPops 0 es + 1
  | n + 1, .pop _ :: es => emptyPops n es

/-! ## Histories -/

@[simp] theorem pushed_nil : pushed ([] : List (Event α)) = [] := rfl

@[simp] theorem pushed_push (v : α) (es : List (Event α)) :
    pushed (.push v :: es) = v :: pushed es := rfl

@[simp] theorem pushed_pop (v : α) (es : List (Event α)) : pushed (.pop v :: es) = pushed es := rfl

@[simp] theorem popped_nil : popped ([] : List (Event α)) = [] := rfl

@[simp] theorem popped_push (v : α) (es : List (Event α)) :
    popped (.push v :: es) = popped es := rfl

@[simp] theorem popped_pop (v : α) (es : List (Event α)) :
    popped (.pop v :: es) = v :: popped es := rfl

theorem pushed_append (es es' : List (Event α)) : pushed (es ++ es') = pushed es ++ pushed es' :=
  List.filterMap_append

theorem popped_append (es es' : List (Event α)) : popped (es ++ es') = popped es ++ popped es' :=
  List.filterMap_append

/-- An event of a longer history is its last event, or one of the shorter history. -/
theorem concat_eq_append_cons {es pre post : List (Event α)} {e e' : Event α}
    (h : es ++ [e] = pre ++ e' :: post) :
    (pre = es ∧ e' = e) ∨ ∃ post', es = pre ++ e' :: post' := by
  rcases List.eq_nil_or_concat post with rfl | ⟨post', x, rfl⟩
  · obtain ⟨h₁, h₂⟩ := List.append_inj' h rfl
    exact Or.inl ⟨h₁.symm, (List.cons.inj h₂).1.symm⟩
  · rw [List.concat_eq_append, ← List.cons_append, ← List.append_assoc] at h
    exact Or.inr ⟨post', (List.append_inj' h rfl).1⟩

/-- No pop finds nothing exactly if no prefix pops more than there is. -/
theorem emptyPops_eq_zero_iff (n : Nat) (es : List (Event α)) :
    emptyPops n es = 0 ↔
      ∀ k, (popped (es.take k)).length ≤ n + (pushed (es.take k)).length := by
  induction es generalizing n with
  | nil => simp [emptyPops]
  | cons e es ih =>
    -- the prefix of no events says nothing, the others begin with `e`
    have split : (∀ k, (popped ((e :: es).take k)).length ≤ n + (pushed ((e :: es).take k)).length) ↔
        ∀ k, (popped (e :: es.take k)).length ≤ n + (pushed (e :: es.take k)).length :=
      ⟨fun h k => h (k + 1), fun h k => by
        cases k with
        | zero => simp
        | succ k => exact h k⟩
    rw [split]
    cases e with
    | push v =>
      rw [emptyPops, ih]
      refine forall_congr' fun k => ?_
      rw [popped_push, pushed_push, List.length_cons]
      omega
    | pop v =>
      cases n with
      | zero =>
        refine iff_of_false (by simp [emptyPops]) fun h => ?_
        have := h 0
        simp at this
      | succ n =>
        rw [emptyPops, ih]
        refine forall_congr' fun k => ?_
        rw [popped_pop, pushed_pop, List.length_cons]
        omega

/-- If every pop finds something, all are served. -/
theorem served_eq_popped {n : Nat} {es : List (Event α)} (h : emptyPops n es = 0) :
    served n es = popped es := by
  induction es generalizing n with
  | nil => rfl
  | cons e es ih =>
    cases e with
    | push v => exact ih h
    | pop v =>
      cases n with
      | zero => exact absurd h (by simp [emptyPops])
      | succ n => exact congrArg (v :: ·) (ih h)

/-- Every value popped has its pop in the history. -/
theorem exists_pop {es : List (Event α)} {j : Nat} {v : α} (h : (popped es)[j]? = some v) :
    ∃ pre post, es = pre ++ .pop v :: post ∧ (popped pre).length = j := by
  induction es generalizing j with
  | nil => cases h
  | cons e es ih =>
    cases e with
    | push w =>
      obtain ⟨pre, post, rfl, hj⟩ := ih h
      exact ⟨.push w :: pre, post, rfl, hj⟩
    | pop w =>
      cases j with
      | zero =>
        have : w = v := by simpa using h
        exact ⟨[], es, by rw [this]; rfl, rfl⟩
      | succ j =>
        obtain ⟨pre, post, rfl, hj⟩ := ih h
        exact ⟨.pop w :: pre, post, rfl, congrArg (· + 1) hj⟩

/-- If every pop finds something, the pops are in order exactly if each takes what was
pushed longest ago. -/
theorem popped_prefix_iff {es : List (Event α)} (h : emptyPops 0 es = 0) :
    popped es <+: pushed es ↔
      ∀ pre v post, es = pre ++ .pop v :: post → (pushed pre)[(popped pre).length]? = some v := by
  have finds {pre post : List (Event α)} {v : α} (e : es = pre ++ .pop v :: post) :
      (popped pre).length < (pushed pre).length := by
    have hk := (emptyPops_eq_zero_iff 0 es).mp h (pre ++ [Event.pop v]).length
    have split : es = (pre ++ [.pop v]) ++ post := by simpa using e
    rw [split, List.take_left, popped_append, pushed_append] at hk
    simp only [popped_pop, popped_nil, pushed_pop, pushed_nil, List.length_append,
      List.length_singleton, List.length_nil] at hk
    omega
  have oldest {pre post : List (Event α)} {v : α} (e : es = pre ++ .pop v :: post) :
      (pushed es)[(popped pre).length]? = (pushed pre)[(popped pre).length]? := by
    rw [e, pushed_append, List.getElem?_append_left (finds e)]
  rw [List.prefix_iff_getElem?]
  constructor
  · intro hpre pre v post e
    have hv : (popped es)[(popped pre).length]? = some v := by
      rw [e, popped_append, popped_pop, List.getElem?_append_right (Nat.le_refl _), Nat.sub_self]
      rfl
    obtain ⟨lt, hv⟩ := List.getElem?_eq_some_iff.mp hv
    rw [← oldest e, hpre _ lt, hv]
  · intro hall j lt
    obtain ⟨pre, post, e, rfl⟩ := exists_pop (List.getElem?_eq_getElem lt)
    rw [oldest e]
    exact hall _ _ _ e

/-! ## Disagreement -/

variable [DecidableEq α]

/-- The places of `s` at which `p` has another value, or none. -/
def disagreements (s p : List α) : Nat := (List.range s.length).countP fun j => s[j]? ≠ p[j]?

@[simp] theorem disagreements_nil (p : List α) : disagreements [] p = 0 := rfl

theorem disagreements_cons (v x : α) (s p : List α) :
    disagreements (v :: s) (x :: p) = (if x = v then 0 else 1) + disagreements s p := by
  unfold disagreements
  rw [List.length_cons, List.range_succ_eq_map, List.countP_cons, List.countP_map]
  by_cases h : x = v
  · simp [h, Function.comp_def]
  · simp [h, Ne.symm h, Function.comp_def, Nat.add_comm]

theorem disagreements_eq_zero_iff (s p : List α) : disagreements s p = 0 ↔ s <+: p := by
  rw [List.prefix_iff_getElem?, disagreements, List.countP_eq_zero]
  simp only [List.mem_range, ne_eq, decide_not, Bool.not_eq_true', decide_eq_false_iff_not,
    Decidable.not_not]
  refine forall₂_congr fun j hj => ?_
  rw [List.getElem?_eq_getElem hj, eq_comm]

/-! ## The replay -/

structure Verdict (α : Type) where
  queue : List α
  mismatches : Nat
  deriving DecidableEq, Repr

/-- One event held against the queue. -/
def check (s : Verdict α) : Event α → Verdict α
  | .push v => { s with queue := s.queue ++ [v] }
  | .pop v =>
    match s.queue with
    | [] => { s with mismatches := s.mismatches + 1 }
    | x :: q => ⟨q, s.mismatches + if x = v then 0 else 1⟩

/-- **Mismatches.**  They are the pops that find nothing, and the disagreements
of the served pops with what was there and what was pushed. -/
theorem replay_mismatches (s : Verdict α) (es : List (Event α)) :
    (run check s es).mismatches =
      s.mismatches + emptyPops s.queue.length es +
        disagreements (served s.queue.length es) (s.queue ++ pushed es) := by
  obtain ⟨q, m⟩ := s
  induction es generalizing q m with
  | nil => simp [emptyPops, served]
  | cons e es ih =>
    rw [run_cons]
    cases e with
    | push v =>
      rw [check, ih]
      simp [emptyPops, served]
    | pop v =>
      cases q with
      | nil =>
        rw [check, ih]
        simp only [List.length_nil, emptyPops, served, pushed_pop]
        omega
      | cons x q =>
        rw [check, ih]
        simp only [List.length_cons, emptyPops, served, pushed_pop, List.cons_append,
          disagreements_cons]
        omega

def Verdict.map {β : Type} (f : α → β) (s : Verdict α) : Verdict β :=
  ⟨s.queue.map f, s.mismatches⟩

/-- Only which values are equal counts. -/
theorem run_check_map {β : Type} [DecidableEq β] {f : α → β} (hf : Function.Injective f)
    (s : Verdict α) (es : List (Event α)) :
    run check (s.map f) (es.map (Event.map f)) = (run check s es).map f := by
  refine run_simulation (R := fun (s : Verdict α) (t : Verdict β) => t = s.map f) (Event.map f)
    (fun s t e h => ?_) rfl es
  subst h
  obtain ⟨q, m⟩ := s
  cases e with
  | push v => simp [check, Event.map, Verdict.map]
  | pop v =>
    cases q with
    | nil => rfl
    | cons x q => simp [check, Event.map, Verdict.map, hf.eq_iff]

/-- What is left was pushed and not served. -/
theorem length_replay_queue (s : Verdict α) (es : List (Event α)) :
    s.queue.length + (pushed es).length =
      (served s.queue.length es).length + (run check s es).queue.length := by
  obtain ⟨q, m⟩ := s
  induction es generalizing q m with
  | nil => simp [served]
  | cons e es ih =>
    rw [run_cons]
    cases e with
    | push v =>
      have := ih (q ++ [v]) m
      simp only [List.length_append, List.length_singleton] at this
      simp only [check, served, pushed_push, List.length_cons]
      omega
    | pop v =>
      cases q with
      | nil => exact ih [] (m + 1)
      | cons x q =>
        have := ih q (m + if x = v then 0 else 1)
        dsimp only at this
        simp only [check, served, pushed_pop, List.length_cons]
        omega

/-- **Verdict.**  A replay from the start is clean exactly if no prefix pops more
than it pushes and the pops give what was pushed, in order. -/
theorem replay_clean_iff (es : List (Event α)) :
    (run check ⟨[], 0⟩ es).mismatches = 0 ↔
      (∀ k, (popped (es.take k)).length ≤ (pushed (es.take k)).length) ∧
        popped es <+: pushed es := by
  have empty := emptyPops_eq_zero_iff 0 es
  simp only [Nat.zero_add] at empty
  rw [replay_mismatches, ← empty]
  simp only [List.length_nil, List.nil_append, Nat.zero_add, Nat.add_eq_zero_iff,
    disagreements_eq_zero_iff]
  exact and_congr_right fun h => by rw [served_eq_popped h]

end TaskQueueCoSim.Replay
