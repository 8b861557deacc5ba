import TaskQueueCoSim.Host.TestTaskQueueHost

/-!
# One device in place of another

The host sees a device only through what its two calls return.  `dev.Refines dev' R`
says that from related states the two devices return the same, for every timeout the
host uses, and stay related.  Then a whole run of the host on the one is a run on the
other: same counters, same golden queue, same `trace.csv` (`main_related`).
-/

namespace TaskQueueCoSim.HostTest

open Machine

variable {σ τ : Type}

/-- The least timeout that `main` passes. -/
def leastTimeout : Nat := 100

/-- From related states both devices return the same and stay related.  What a pop that
fails leaves in `*out` is never read. -/
structure Device.Refines (dev : Device σ) (dev' : Device τ) (R : σ → τ → Prop) : Prop where
  push_rc : ∀ v n s t, leastTimeout ≤ n → R s t →
    (dev.mmioPush v n s).1 = (dev'.mmioPush v n t).1
  push_rel : ∀ v n s t, leastTimeout ≤ n → R s t →
    R (dev.mmioPush v n s).2 (dev'.mmioPush v n t).2
  pop_rc : ∀ n s t, leastTimeout ≤ n → R s t → (dev.mmioPop n s).1 = (dev'.mmioPop n t).1
  pop_out : ∀ n s t, leastTimeout ≤ n → R s t → (dev'.mmioPop n t).1 = 0 →
    (dev.mmioPop n s).2.1 = (dev'.mmioPop n t).2.1
  pop_rel : ∀ n s t, leastTimeout ≤ n → R s t → R (dev.mmioPop n s).2.2 (dev'.mmioPop n t).2.2

/-- Two runs of the host at the same point. -/
structure Host.Related (R : σ → τ → Prop) (s : Host σ) (t : Host τ) : Prop where
  device : R s.device t.device
  drawn : s.drawn = t.drawn
  metrics : s.metrics = t.metrics
  ring : s.ring = t.ring
  trace : s.trace = t.trace

section Refines

variable {dev : Device σ} {dev' : Device τ} {R : σ → τ → Prop} (ref : dev.Refines dev' R)
  {s : Host σ} {t : Host τ}

include ref

theorem deterministicPush_related (h : s.Related R t) (v : Word) :
    (deterministicPush dev v s).Related R (deterministicPush dev' v t) := by
  have rc := ref.push_rc v 1000 _ _ (by decide) h.device
  refine ⟨ref.push_rel v 1000 _ _ (by decide) h.device, h.drawn, ?_, h.ring, ?_⟩
  · simp only [deterministicPush, rc, h.metrics]
  · simp only [deterministicPush, rc, h.trace]

theorem deterministicPop_related (h : s.Related R t) :
    (deterministicPop dev s).Related R (deterministicPop dev' t) := by
  have rc := ref.pop_rc 1000 _ _ (by decide) h.device
  have out := ref.pop_out 1000 _ _ (by decide) h.device
  refine ⟨ref.pop_rel 1000 _ _ (by decide) h.device, h.drawn, ?_, h.ring, ?_⟩
  · simp only [deterministicPop, rc, h.metrics]
  · simp only [deterministicPop, rc, h.trace]
    split
    case isTrue ok => rw [out ok]
    case isFalse => rfl

theorem deterministic_related (h : s.Related R t) :
    (deterministic dev s).Related R (deterministic dev' t) := by
  apply run_related
  · intro s t _ h
    exact deterministicPop_related ref h
  · apply run_related _ h
    intro s t v h
    exact deterministicPush_related ref h v

theorem randomPush_related (h : s.Related R t) (v : Word) :
    (randomPush dev v s).Related R (randomPush dev' v t) := by
  have rc := ref.push_rc v 100 _ _ (by decide) h.device
  have rel := ref.push_rel v 100 _ _ (by decide) h.device
  simp only [randomPush, rc, h.metrics, h.ring, h.trace]
  split
  · exact ⟨rel, h.drawn, rfl, rfl, rfl⟩
  · exact ⟨rel, h.drawn, rfl, rfl, rfl⟩

theorem randomPop_related (h : s.Related R t) :
    (randomPop dev s).Related R (randomPop dev' t) := by
  have rc := ref.pop_rc 100 _ _ (by decide) h.device
  have out := ref.pop_out 100 _ _ (by decide) h.device
  have rel := ref.pop_rel 100 _ _ (by decide) h.device
  simp only [randomPop, rc, h.metrics, h.ring, h.trace]
  split
  case isFalse => exact ⟨rel, h.drawn, rfl, rfl, rfl⟩
  case isTrue ok =>
    rw [out ok]
    split
    · exact ⟨rel, h.drawn, rfl, rfl, rfl⟩
    · exact ⟨rel, h.drawn, rfl, rfl, rfl⟩

theorem randomOp_related (h : s.Related R t) (rand : Nat → Nat) :
    (randomOp dev rand s).Related R (randomOp dev' rand t) := by
  unfold randomOp
  dsimp only
  rw [h.drawn]
  split
  · apply randomPush_related ref
    exact ⟨h.device, rfl, h.metrics, h.ring, h.trace⟩
  · split
    · apply randomPop_related ref
      exact ⟨h.device, rfl, h.metrics, h.ring, h.trace⟩
    · exact ⟨h.device, rfl, h.metrics, h.ring, h.trace⟩

theorem randomized_related (h : s.Related R t) (rand : Nat → Nat) :
    (randomized dev rand s).Related R (randomized dev' rand t) := by
  apply run_related _ h
  intro s t _ h
  exact randomOp_related ref h rand

theorem drain_related (h : s.Related R t) : (drain dev s).Related R (drain dev' t) := by
  induction hn : t.ring.swcount generalizing s t with
  | zero =>
    rw [drain, drain, h.ring, if_neg (by omega), if_neg (by omega)]
    exact h
  | succ n ih =>
    have rc := ref.pop_rc 1000 _ _ (by decide) h.device
    have out := ref.pop_out 1000 _ _ (by decide) h.device
    have rel := ref.pop_rel 1000 _ _ (by decide) h.device
    rw [drain, drain, h.ring, if_pos (by omega), if_pos (by omega)]
    simp only [rc, h.metrics, h.trace]
    split
    case isFalse => exact ⟨rel, h.drawn, rfl, rfl, rfl⟩
    case isTrue ok =>
      rw [out ok]
      exact ih ⟨rel, h.drawn, rfl, rfl, rfl⟩ (by simp [Ring.pop, hn])

/-- **A run of the host depends on the device only through what its calls return.** -/
theorem main_related (rand : Nat → Nat) (swbuf : Fin 16 → Word) {d : σ} {d' : τ} (h : R d d') :
    (main dev rand swbuf d).Related R (main dev' rand swbuf d') :=
  drain_related ref (randomized_related ref (deterministic_related ref
    ⟨h, rfl, rfl, rfl, rfl⟩) rand)

end Refines

end TaskQueueCoSim.HostTest
