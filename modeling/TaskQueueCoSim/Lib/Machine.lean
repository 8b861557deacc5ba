import Mathlib.Data.List.Basic
import Mathlib.Data.Nat.Init

/-!
# Runs of a deterministic machine

A machine is a function from a state and an input to the next state; a run
feeds it a list of inputs.  `Guarded next G s as` says that every step of the
run meets the condition `G` on the state before the step and its input.

* `Guarded.invariant`: an invariant kept by every step that meets the condition
  holds at the end of every run whose steps all meet it;
* `run_invariant`: the same without a condition;
* `run_replicate_le`: a measure that one repeated input takes down;
* `run_countdown`: what is due within so many inputs of a kind, whatever else comes between;
* `run_simulation`: two machines whose states stay related step by step;
* `restart_induction`: what holds behind every input that restarts the machine.

A machine without inputs may stop: `steps` runs one for at most so many steps.

* `steps_invariant`, `steps_invariant_log`: what every step keeps, of the state and
  of what the steps log;
* `steps_stable`: what holds from one state of a run on;
* `steps_halt`: a machine that takes a measure down stops.
-/

namespace TaskQueueCoSim.Machine

variable {σ τ α β : Type} (next : σ → α → σ)

def run (s : σ) (as : List α) : σ := as.foldl next s

/-- Every step of the run of `as` from `s` meets `G`. -/
def Guarded (G : σ → α → Prop) : σ → List α → Prop
  | _, [] => True
  | s, a :: as => G s a ∧ Guarded G (next s a) as

variable {next}

@[simp] theorem run_nil (s : σ) : run next s [] = s := rfl

@[simp] theorem run_cons (s : σ) (a : α) (as : List α) :
    run next s (a :: as) = run next (next s a) as := rfl

theorem run_append (s : σ) (as bs : List α) :
    run next s (as ++ bs) = run next (run next s as) bs := by
  simp [run, List.foldl_append]

theorem run_concat (s : σ) (as : List α) (a : α) :
    run next s (as ++ [a]) = next (run next s as) a := by
  simp [run_append]

theorem run_take_succ (next : σ → α → σ) (s : σ) (as : List α) {n : Nat} (h : n < as.length) :
    run next s (as.take (n + 1)) = next (run next s (as.take n)) as[n] := by
  rw [List.take_succ_eq_append_getElem h, run_concat]

/-- The states of a run before its steps, each with the input read in it. -/
def trace (next : σ → α → σ) : σ → List α → List (σ × α)
  | _, [] => []
  | s, a :: as => (s, a) :: trace next (next s a) as

theorem trace_concat (s : σ) (as : List α) (a : α) :
    trace next s (as ++ [a]) = trace next s as ++ [(run next s as, a)] := by
  induction as generalizing s with
  | nil => rfl
  | cons b as ih => simp [trace, ih]

theorem trace_take_succ (next : σ → α → σ) (s : σ) (as : List α) {n : Nat} (h : n < as.length) :
    trace next s (as.take (n + 1)) = trace next s (as.take n) ++ [(run next s (as.take n), as[n])] := by
  rw [List.take_succ_eq_append_getElem h, trace_concat]

/-- What holds behind every input that restarts a machine, and is kept by the others,
holds in a run from the first such input on. -/
theorem restart_induction {p : α → Bool} {as : List α} (first : ∀ a, as.head? = some a → p a = true)
    {P : Nat → Prop} (restart : ∀ n (h : n < as.length), p as[n] = true → P (n + 1))
    (step : ∀ n (h : n < as.length), p as[n] = false → P n → P (n + 1)) {n : Nat} (hn : 1 ≤ n)
    (hle : n ≤ as.length) : P n := by
  induction n, hn using Nat.le_induction with
  | base => exact restart 0 hle (first _ (by rw [List.head?_eq_getElem?, List.getElem?_eq_getElem hle]))
  | succ n _ ih =>
    cases hp : p as[n] with
    | true => exact restart n hle hp
    | false => exact step n hle hp (ih (Nat.le_of_lt hle))

theorem Guarded.invariant {G : σ → α → Prop} {I : σ → Prop}
    (step : ∀ s a, I s → G s a → I (next s a)) {s : σ} {as : List α}
    (h : Guarded next G s as) (hs : I s) : I (run next s as) := by
  induction as generalizing s with
  | nil => exact hs
  | cons a as ih => exact ih h.2 (step s a hs h.1)

theorem guarded_append {G : σ → α → Prop} {s : σ} {as bs : List α} :
    Guarded next G s (as ++ bs) ↔ Guarded next G s as ∧ Guarded next G (run next s as) bs := by
  induction as generalizing s with
  | nil => simp [Guarded]
  | cons a as ih => simp [Guarded, ih, and_assoc]

theorem guarded_concat {G : σ → α → Prop} {s : σ} {as : List α} {a : α} :
    Guarded next G s (as ++ [a]) ↔ Guarded next G s as ∧ G (run next s as) a := by
  simp [guarded_append, Guarded]

/-- Every prefix of a guarded run is guarded. -/
theorem Guarded.take {G : σ → α → Prop} {s : σ} {as : List α} (h : Guarded next G s as) (n : Nat) :
    Guarded next G s (as.take n) := by
  induction as generalizing s n with
  | nil => simpa using h
  | cons a as ih =>
    cases n with
    | zero => trivial
    | succ n => exact ⟨h.1, ih h.2 n⟩

/-- A condition on the inputs alone may be added to the guard. -/
theorem Guarded.and_forall_mem {G : σ → α → Prop} {P : α → Prop} {s : σ} {as : List α}
    (h : Guarded next G s as) (hP : ∀ a ∈ as, P a) :
    Guarded next (fun s a => G s a ∧ P a) s as := by
  induction as generalizing s with
  | nil => trivial
  | cons a as ih => exact ⟨⟨h.1, hP a (by simp)⟩, ih h.2 fun b hb => hP b (by simp [hb])⟩

/-- A condition on the inputs alone guards every run over such inputs. -/
theorem guarded_of_forall_mem (next : σ → α → σ) {P : α → Prop} {as : List α}
    (h : ∀ a ∈ as, P a) (s : σ) :
    Guarded next (fun _ a => P a) s as := by
  induction as generalizing s with
  | nil => trivial
  | cons a as ih => exact ⟨h a (by simp), ih (fun b hb => h b (by simp [hb])) (next s a)⟩

instance Guarded.decidable (G : σ → α → Prop) [∀ s a, Decidable (G s a)] :
    ∀ (s : σ) (as : List α), Decidable (Guarded next G s as)
  | _, [] => isTrue trivial
  | s, a :: as => @instDecidableAnd _ _ _ (Guarded.decidable G (next s a) as)

theorem run_invariant {I : σ → Prop} (step : ∀ s a, I s → I (next s a)) {s : σ}
    (hs : I s) (as : List α) : I (run next s as) := by
  induction as generalizing s with
  | nil => exact hs
  | cons a as ih => exact ih (step s a hs)

/-- A measure that every step with the input `a` takes down by one, until it is
zero, is taken down by `n` in `n` such steps. -/
theorem run_replicate_le (next : σ → α → σ) {I : σ → Prop} (m : σ → Nat) {a : α}
    (step : ∀ s, I s → I (next s a) ∧ m (next s a) ≤ m s - 1) {s : σ} (hs : I s) (n : Nat) :
    I (run next s (List.replicate n a)) ∧ m (run next s (List.replicate n a)) ≤ m s - n := by
  induction n generalizing s with
  | zero => exact ⟨hs, Nat.le_refl _⟩
  | succ n ih =>
    obtain ⟨hs', less⟩ := step s hs
    obtain ⟨hend, rest⟩ := ih hs'
    rw [List.replicate_succ, run_cons]
    exact ⟨hend, by omega⟩

/-- **Countdown.**  If an input of the kind `p` brings the machine nearer and no other takes
it further away, then so many inputs of that kind bring it there, in any order. -/
theorem run_countdown {I : Nat → σ → Prop} (p : α → Bool)
    (hit : ∀ n s a, p a = true → I n s → I (n - 1) (next s a))
    (other : ∀ n s a, p a = false → I n s → I n (next s a)) {n : Nat} {s : σ} (hs : I n s)
    (as : List α) : I (n - as.countP p) (run next s as) := by
  induction as generalizing n s with
  | nil => simpa using hs
  | cons a as ih =>
    cases hp : p a with
    | true =>
      have := ih (hit n s a hp hs)
      rwa [List.countP_cons_of_pos hp, Nat.add_comm, ← Nat.sub_sub]
    | false =>
      have := ih (other n s a hp hs)
      rwa [List.countP_cons_of_neg (by simp [hp])]

/-- **Simulation.**  States related by `R` stay related while the two machines
read inputs that correspond under `f`. -/
theorem run_simulation {next' : τ → β → τ} {R : σ → τ → Prop} (f : α → β)
    (step : ∀ s t a, R s t → R (next s a) (next' t (f a))) {s : σ} {t : τ}
    (h : R s t) (as : List α) : R (run next s as) (run next' t (as.map f)) := by
  induction as generalizing s t with
  | nil => exact h
  | cons a as ih => exact ih (step s t a h)

/-- The same for two machines that read the same inputs. -/
theorem run_related {next' : τ → α → τ} {R : σ → τ → Prop}
    (step : ∀ s t a, R s t → R (next s a) (next' t a)) {s : σ} {t : τ}
    (h : R s t) (as : List α) : R (run next s as) (run next' t as) := by
  have := run_simulation id step h as
  rwa [List.map_id] at this

/-- The same where the second machine is guarded. -/
theorem run_related_guarded {next' : τ → α → τ} {R : σ → τ → Prop} {G : τ → α → Prop}
    (step : ∀ s t a, R s t → G t a → R (next s a) (next' t a)) {s : σ} {t : τ} (h : R s t)
    {as : List α} (hg : Guarded next' G t as) : R (run next s as) (run next' t as) := by
  induction as generalizing s t with
  | nil => exact h
  | cons a as ih => exact ih (step s t a h hg.1) hg.2

/-! ## Machines that stop -/

section Steps

variable (step : σ → Option σ)

/-- The state after `n` steps, or where the machine has stopped before. -/
def steps : Nat → σ → σ
  | 0, s => s
  | n + 1, s =>
    match step s with
    | some s' => steps n s'
    | none => s

/-- What is logged in these steps. -/
def stepsLog (label : σ → Option β) : Nat → σ → List β
  | 0, _ => []
  | n + 1, s =>
    match step s with
    | some s' => (label s).toList ++ stepsLog label n s'
    | none => []

variable {step}

theorem steps_invariant {I : σ → Prop} (keep : ∀ s s', I s → step s = some s' → I s') {s : σ}
    (hs : I s) (n : Nat) : I (steps step n s) := by
  induction n generalizing s with
  | zero => exact hs
  | succ n ih =>
    cases h : step s with
    | none => simpa only [steps, h] using hs
    | some s' => simpa only [steps, h] using ih (keep s s' hs h)

/-- The same for an invariant that speaks about the log. -/
theorem steps_invariant_log {label : σ → Option β} {I : List β → σ → Prop}
    (keep : ∀ log s s', I log s → step s = some s' → I (log ++ (label s).toList) s') {s : σ}
    {log : List β} (hs : I log s) (n : Nat) :
    I (log ++ stepsLog step label n s) (steps step n s) := by
  induction n generalizing s log with
  | zero => simpa [stepsLog, steps] using hs
  | succ n ih =>
    cases h : step s with
    | none => simpa only [steps, stepsLog, h, List.append_nil] using hs
    | some s' =>
      have := ih (keep log s s' hs h)
      simpa only [steps, stepsLog, h, List.append_assoc] using this

/-- A machine logs nothing if no state that it can be in does. -/
theorem stepsLog_eq_nil {label : σ → Option β} {I : σ → Prop}
    (keep : ∀ s s', I s → step s = some s' → I s') (silent : ∀ s, I s → label s = none) {s : σ}
    (hs : I s) (n : Nat) : stepsLog step label n s = [] := by
  induction n generalizing s with
  | zero => rfl
  | succ n ih =>
    cases h : step s with
    | none => simp only [stepsLog, h]
    | some s' =>
      have later : stepsLog step label n s' = [] := ih (keep s s' hs h)
      simpa only [stepsLog, h, silent s hs, Option.toList_none, List.nil_append] using later

theorem steps_succ (n : Nat) (s : σ) :
    steps step (n + 1) s = (step (steps step n s)).getD (steps step n s) := by
  induction n generalizing s with
  | zero => cases h : step s <;> simp [steps, h]
  | succ n ih =>
    rw [steps]
    cases h : step s with
    | none => simp [steps, h]
    | some s' => simpa only [steps, h] using ih s'

/-- What every step of a run keeps holds from the state on in which it holds first. -/
theorem steps_stable {P : σ → Prop} {s : σ}
    (keep : ∀ n s', P (steps step n s) → step (steps step n s) = some s' → P s') {n m : Nat}
    (hle : n ≤ m) (h : P (steps step n s)) : P (steps step m s) := by
  induction m, hle using Nat.le_induction with
  | base => exact h
  | succ m _ ih =>
    rw [steps_succ]
    cases hstep : step (steps step m s) with
    | none => exact ih
    | some s' => exact keep m s' ih hstep

/-- A machine stops if every step, unless it is the last, takes a measure down. -/
theorem steps_halt (m : σ → Nat)
    (less : ∀ s s', step s = some s' → step s' = none ∨ m s' < m s) (s : σ) :
    ∃ n, step (steps step n s) = none := by
  suffices ∀ k s, m s ≤ k → ∃ n, step (steps step n s) = none from this (m s) s (Nat.le_refl _)
  intro k
  induction k with
  | zero =>
    intro s hs
    cases h : step s with
    | none => exact ⟨0, h⟩
    | some s' =>
      refine ⟨1, ?_⟩
      simp only [steps, h]
      exact (less s s' h).resolve_right (by omega)
  | succ k ih =>
    intro s hs
    cases h : step s with
    | none => exact ⟨0, h⟩
    | some s' =>
      obtain hlast | hless := less s s' h
      · exact ⟨1, by simpa only [steps, h] using hlast⟩
      · obtain ⟨n, hn⟩ := ih s' (by omega)
        exact ⟨n + 1, by simpa only [steps, h] using hn⟩

end Steps

end TaskQueueCoSim.Machine
