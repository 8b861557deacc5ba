import TaskQueueCoSim.Mmio.Atomic

/-!
# Calls with a timeout on the running bridge

The host of the co-simulation gives up after `timeout_ms` polls.  Here a call runs
to its end against the bridge: before its `n`-th register access the bridge gets
through `gaps n` iterations, and `await` makes the accesses of the call until it
returns.

`Responsive gaps timeout` says that no `timeout` accesses in a row find the bridge
standing still.  Then no call times out, and a call does to the bridge and returns
what the patient call does (`call_answered`).
-/

namespace TaskQueueCoSim.Mmio

open Flags Machine VtbTaskQueue QueueCore

/-- The bridge, and how many accesses the host has made. -/
structure Paced where
  bench : Bench
  accesses : Nat

variable (gaps : Nat → Nat)

/-- What the bridge does before the next access of the host. -/
def Paced.proceed (s : Paced) : Bench := iterations (gaps s.accesses) s.bench

/-- One access of the host. -/
def Paced.access (s : Paced) (pc : HostPc) : Paced × HostPc × Option Return :=
  let bench := s.proceed gaps
  let (r, pc, x) := hostStep bench.regs pc
  (⟨{ bench with regs := r }, s.accesses + 1⟩, pc, x)

/-- At most so many accesses, until the call returns. -/
def Paced.await : Nat → Paced → HostPc → Paced × Option Return
  | 0, s, _ => (s, none)
  | n + 1, s, pc =>
    match s.access gaps pc with
    | (s, _, some x) => (s, some x)
    | (s, pc, none) => s.await n pc

/-- Three accesses post a request, each poll that finds no answer takes one, and two
more collect it. -/
def Paced.call (s : Paced) (q : Request) (timeout : Nat) : Paced × Option Return :=
  s.await gaps (timeout + 6) (Call.request { q with timeout := some timeout }).entry

/-- Among any `timeout` accesses in a row there is one that the bridge gets through an
iteration before. -/
def Responsive (timeout : Nat) : Prop :=
  ∀ n, ∃ m, n ≤ m ∧ m < n + timeout ∧ 0 < gaps m

variable {gaps}

theorem Responsive.mono {timeout timeout' : Nat} (h : Responsive gaps timeout)
    (hle : timeout ≤ timeout') : Responsive gaps timeout' := by
  intro n
  obtain ⟨m, hn, hm, hpos⟩ := h n
  exact ⟨m, hn, by omega, hpos⟩

section Await

variable {s : Paced} {pc pc' : HostPc} {r : Regs} {n : Nat}

theorem await_next (h : hostStep (s.proceed gaps).regs pc = (r, pc', none)) :
    s.await gaps (n + 1) pc =
      Paced.await gaps n ⟨{ s.proceed gaps with regs := r }, s.accesses + 1⟩ pc' := by
  simp [Paced.await, Paced.access, h]

theorem await_return {x : Return} (h : hostStep (s.proceed gaps).regs pc = (r, pc', some x)) :
    s.await gaps (n + 1) pc = (⟨{ s.proceed gaps with regs := r }, s.accesses + 1⟩, some x) := by
  simp [Paced.await, Paced.access, h]

end Await

/-! ## Every call returns -/

/-- How many accesses a call with a timeout has left at most. -/
def HostPc.left (timeout : Nat) : HostPc → Nat
  | idle => 0
  | readCtrl _ => timeout + 6
  | writeDataIn _ _ => timeout + 5
  | writeCtrl _ _ => timeout + 4
  | poll _ waited => (timeout - waited).toNat + 3
  | readDataOut _ _ => 2
  | clearAck _ _ _ _ => 1
  | readStatus _ => 1

/-- The request under way has this timeout. -/
def HostPc.Limited (timeout : Nat) : HostPc → Prop
  | readCtrl q | writeDataIn q _ | writeCtrl q _ | poll q _ => q.timeout = some (timeout : Int)
  | _ => True

/-- An access that does not return leaves fewer accesses. -/
theorem left_hostStep {timeout : Nat} {r r' : Regs} {pc pc' : HostPc} (hl : pc.Limited timeout)
    (hi : pc ≠ .idle) (h : hostStep r pc = (r', pc', none)) :
    pc'.Limited timeout ∧ pc' ≠ .idle ∧ pc'.left timeout < pc.left timeout := by
  cases pc with
  | idle => exact absurd rfl hi
  | readCtrl q =>
    obtain ⟨kind, value, limit⟩ := q
    cases kind <;> cases h
    · exact ⟨hl, by simp, by simp [HostPc.left]⟩
    · exact ⟨hl, by simp, by simp [HostPc.left]⟩
  | writeDataIn q ctrl =>
    cases h
    exact ⟨hl, by simp, by simp [HostPc.left]⟩
  | writeCtrl q ctrl =>
    cases h
    exact ⟨hl, by simp, by simp [HostPc.left]⟩
  | poll q waited =>
    have hl : q.timeout = some (timeout : Int) := hl
    have expired : q.expired waited = !decide (waited < timeout) := by simp [Request.expired, hl]
    simp only [hostStep, expired] at h
    split at h
    · cases h
    · rename_i early
      have early : waited < timeout := by simpa using early
      split at h
      · cases h
        obtain ⟨kind, value, limit⟩ := q
        cases kind
        · exact ⟨trivial, by simp [Request.accept], by simp [Request.accept, HostPc.left]⟩
        · exact ⟨trivial, by simp [Request.accept], by simp [Request.accept, HostPc.left]⟩
      · split at h
        · cases h
          exact ⟨trivial, by simp, by simp [HostPc.left]⟩
        · cases h
          exact ⟨hl, by simp, by simp only [HostPc.left]; omega⟩
  | readDataOut q ack =>
    cases h
    exact ⟨trivial, by simp, by simp [HostPc.left]⟩
  | clearAck q a ack out => cases h
  | readStatus mask => cases h

/-- Whatever the bridge does meanwhile, a call with a timeout returns. -/
theorem call_returns (gaps : Nat → Nat) (s : Paced) (q : Request) (timeout : Nat) :
    (s.call gaps q timeout).2 ≠ none := by
  suffices ∀ (n : Nat) (s : Paced) (pc : HostPc), pc.Limited timeout → pc ≠ .idle →
      pc.left timeout ≤ n → (s.await gaps n pc).2 ≠ none from
    this (timeout + 6) s _ (by simp [Call.entry, HostPc.Limited]) (by simp [Call.entry])
      (by simp [Call.entry, HostPc.left])
  intro n
  induction n with
  | zero =>
    intro s pc _ hi hle
    cases pc <;> simp_all [HostPc.left]
  | succ n ih =>
    intro s pc hl hi hle
    rcases h : hostStep (s.proceed gaps).regs pc with ⟨r, pc', x⟩
    cases x with
    | some x => simp [await_return h]
    | none =>
      obtain ⟨hl', hi', less⟩ := left_hostStep hl hi h
      rw [await_next h]
      exact ih _ _ hl' hi' (by omega)

/-! ## A responsive bridge answers in time -/

section Answers

variable {mem₀ : BitVec (clog2 16) → Word} {b : Bench} {i : Ideal} {q : Request} {timeout : Nat}

theorem Resting.iterations (h : Resting mem₀ b i) (n : Nat) :
    Resting mem₀ (iterations n b) i ∧ (Mmio.iterations n b).regs.dataIn = b.regs.dataIn := by
  induction n generalizing b with
  | zero => exact ⟨h, rfl⟩
  | succ n ih =>
    obtain ⟨-, regs⟩ := h.hardware.iterate_idle h.ctrl
    obtain ⟨rest, dataIn⟩ := ih h.iterate
    exact ⟨rest, dataIn.trans (by rw [regs])⟩

theorem Done.iterations (h : Done mem₀ b i q) (n : Nat) : Done mem₀ (iterations n b) i q := by
  induction n generalizing b with
  | zero => exact h
  | succ n ih => exact ih h.iterate

/-- One iteration is enough to have the request served. -/
theorem Pending.iterations (h : Pending mem₀ b i q) {n : Nat} (hn : 0 < n) :
    Done mem₀ (iterations n b) i q := by
  obtain ⟨n, rfl⟩ := Nat.exists_eq_add_one_of_ne_zero (Nat.ne_of_gt hn)
  exact h.iterate.iterations n

/-- Where a call stands while it polls: it is served, or will be within `k` accesses. -/
def Paced.Polls (mem₀ : BitVec (clog2 16) → Word) (gaps : Nat → Nat) (s : Paced) (i : Ideal)
    (q : Request) (k : Nat) : Prop :=
  Done mem₀ s.bench i q ∨
    (Pending mem₀ s.bench i q ∧ ∃ m, s.accesses ≤ m ∧ m < s.accesses + k ∧ 0 < gaps m)

/-- A call has returned `rc` and `out`, and left the bridge with the queue `i`. -/
structure Answered (mem₀ : BitVec (clog2 16) → Word) (i : Ideal) (rc : Int) (out : Option Word)
    (x : Paced × Option Return) : Prop where
  resting : Resting mem₀ x.1.bench i
  result : x.2.map (fun x => x.result) = some (.code rc out)

/-- The last access of a call clears the answer. -/
theorem answered_clearAck (gaps : Nat → Nat) {s : Paced} {n : Nat} (h : Done mem₀ s.bench i q)
    (out : Option Word) :
    Answered mem₀ (i.next (.request q)) (i.answer q.kind).code out
      (s.await gaps (n + 1) (.clearAck q (i.answer q.kind) (q.kind.bit (i.answer q.kind)) out)) := by
  have served : Done mem₀ (s.proceed gaps) i q := h.iterations _
  have hw := served.hardware
  rw [await_return rfl]
  exact ⟨⟨⟨hw.exited, hw.running, hw.ready, hw.traced, hw.status⟩, served.ctrl,
    Kind.clear_bit _ _⟩, rfl⟩

/-- An answer that stands in `ACK` is collected. -/
theorem answered_accept {s : Paced} {n : Nat} (h : Done mem₀ s.bench i q)
    (ok : i.answer q.kind = .ok) :
    Answered mem₀ (i.next (.request q)) 0 (i.out (bridgeDelivers mem₀) q.kind)
      (s.await gaps (n + 2) (q.accept (q.kind.bit .ok))) := by
  have code : (i.answer q.kind).code = 0 := by rw [ok]; rfl
  cases hk : q.kind with
  | push =>
    have last := answered_clearAck gaps (n := n + 1) h none
    rw [code, ok, hk] at last
    simp only [Request.accept, hk]
    exact last
  | pop =>
    have served : Done mem₀ (s.proceed gaps) i q := h.iterations _
    have out : i.out (bridgeDelivers mem₀) q.kind = some (s.proceed gaps).regs.dataOut := by
      have e : i.out (bridgeDelivers mem₀) q.kind = some (bridgeDelivers mem₀ i) := by
        simp [Ideal.out, hk, hk ▸ ok]
      rw [e, served.out _ e]
    have last := answered_clearAck gaps (n := n)
      (s := ⟨s.proceed gaps, s.accesses + 1⟩) served (some (s.proceed gaps).regs.dataOut)
    rw [code, ok, hk] at last
    rw [← hk, out]
    simp only [Request.accept, hk]
    rw [await_next rfl]
    exact last

/-- Polling ends with the answer, before the timeout. -/
theorem answered_poll {s : Paced} {n k w : Nat} (ht : q.timeout = some (timeout : Int))
    (h : s.Polls mem₀ gaps i q k) (hk : 0 < k) (hw : w + k ≤ timeout) (hn : k + 2 ≤ n) :
    Answered mem₀ (i.next (.request q)) (i.answer q.kind).code (i.out (bridgeDelivers mem₀) q.kind)
      (s.await gaps n (.poll q w)) := by
  induction k generalizing s n w with
  | zero => omega
  | succ k ih =>
    obtain ⟨n, rfl⟩ : ∃ m, n = m + 3 := ⟨n - 3, by omega⟩
    have early : q.expired w = false := by
      simp only [Request.expired, ht, Bool.not_eq_false', decide_eq_true_eq]
      omega
    have step : Done mem₀ (s.proceed gaps) i q ∨
        (Pending mem₀ (s.proceed gaps) i q ∧ ∃ m, s.accesses + 1 ≤ m ∧ m < s.accesses + 1 + k ∧
          0 < gaps m) := by
      rcases h with served | ⟨pending, m, hle, hlt, hpos⟩
      · exact Or.inl (served.iterations _)
      · by_cases hg : 0 < gaps s.accesses
        · exact Or.inl (pending.iterations hg)
        · have zero : gaps s.accesses = 0 := by omega
          have same : s.proceed gaps = s.bench := by rw [Paced.proceed, zero]; rfl
          have ne : m ≠ s.accesses := fun e => hg (e ▸ hpos)
          exact Or.inr ⟨same ▸ pending, m, by omega, by omega, hpos⟩
    rcases step with served | ⟨pending, later⟩
    · have ack := served.ack
      cases ha : i.answer q.kind with
      | ok =>
        have e : hostStep (s.proceed gaps).regs (.poll q w) =
            ((s.proceed gaps).regs, q.accept (q.kind.bit .ok), none) := by
          simp [hostStep, early, read32, ack, ha]
        rw [await_next e]
        exact answered_accept (s := ⟨s.proceed gaps, s.accesses + 1⟩) served ha
      | refused =>
        have e : hostStep (s.proceed gaps).regs (.poll q w) =
            ((s.proceed gaps).regs, .clearAck q .refused (q.kind.bit .refused) none, none) := by
          simp [hostStep, early, read32, ack, ha]
        have out : i.out (bridgeDelivers mem₀) q.kind = none := by
          cases hkind : q.kind <;> simp [Ideal.out, hkind ▸ ha]
        have last := answered_clearAck gaps (n := n + 1)
          (s := ⟨s.proceed gaps, s.accesses + 1⟩) served none
        rw [await_next e, out]
        rw [ha] at last
        exact last
    · have e : hostStep (s.proceed gaps).regs (.poll q w) =
          ((s.proceed gaps).regs, .poll q ((w + 1 : Nat) : Int), none) := by
        simp [hostStep, early, read32, pending.ack]
      obtain ⟨m, hle, hlt, hpos⟩ := later
      rw [await_next e]
      exact ih (s := ⟨s.proceed gaps, s.accesses + 1⟩) (Or.inr ⟨pending, m, hle, hlt, hpos⟩)
        (by omega) (by omega) (by omega)

/-- Posting a request takes at most three accesses. -/
theorem answered_writeCtrl {s : Paced} {n : Nat} (ht : q.timeout = some (timeout : Int))
    (live : Responsive gaps timeout) (h : Resting mem₀ s.bench i)
    (hv : q.kind = .push → s.bench.regs.dataIn = q.value) (hn : timeout + 3 ≤ n) :
    Answered mem₀ (i.next (.request q)) (i.answer q.kind).code (i.out (bridgeDelivers mem₀) q.kind)
      (s.await gaps n (.writeCtrl q 0)) := by
  obtain ⟨n, rfl⟩ : ∃ m, n = m + 1 := ⟨n - 1, by omega⟩
  obtain ⟨rest, dataIn⟩ : Resting mem₀ (s.proceed gaps) i ∧ _ := h.iterations _
  have hw := rest.hardware
  obtain ⟨m, hle, hlt, hpos⟩ := live (s.accesses + 1)
  rw [await_next rfl]
  refine answered_poll (k := timeout) (w := 0) ht (Or.inr ⟨?_, m, hle, hlt, hpos⟩)
    (by omega) (by omega) (by omega)
  exact ⟨⟨hw.exited, hw.running, hw.ready, hw.traced, hw.status⟩,
    by simp [write32], rest.ack, fun hk => dataIn.trans (hv hk)⟩

/-- **A responsive bridge answers every call in time.**  The call returns what the ideal
queue answers, and the word behind the head for a pop. -/
theorem call_answered {s : Paced} (live : Responsive gaps timeout) (h : Resting mem₀ s.bench i)
    (q : Request) :
    Answered mem₀ (i.next (.request q)) (i.answer q.kind).code (i.out (bridgeDelivers mem₀) q.kind)
      (s.call gaps q timeout) := by
  obtain ⟨kind, value, limit⟩ := q
  obtain ⟨rest, -⟩ : Resting mem₀ (s.proceed gaps) i ∧ _ := h.iterations _
  unfold Paced.call Call.entry
  cases kind with
  | pop =>
    have e : hostStep (s.proceed gaps).regs (.readCtrl ⟨.pop, value, some (timeout : Int)⟩) =
        ((s.proceed gaps).regs, .writeCtrl ⟨.pop, value, some (timeout : Int)⟩ 0, none) := by
      simp [hostStep, read32, rest.ctrl]
    rw [await_next e]
    exact answered_writeCtrl (q := ⟨.pop, value, some (timeout : Int)⟩) (n := timeout + 5)
      (s := ⟨s.proceed gaps, s.accesses + 1⟩) rfl live rest (fun hk => by cases hk) (by omega)
  | push =>
    have e : hostStep (s.proceed gaps).regs (.readCtrl ⟨.push, value, some (timeout : Int)⟩) =
        ((s.proceed gaps).regs, .writeDataIn ⟨.push, value, some (timeout : Int)⟩ 0, none) := by
      simp [hostStep, read32, rest.ctrl]
    rw [await_next e, await_next rfl]
    have rest' : Resting mem₀ (Paced.proceed gaps ⟨s.proceed gaps, s.accesses + 1⟩) i :=
      (rest.iterations _).1
    have hw := rest'.hardware
    exact answered_writeCtrl (q := ⟨.push, value, some (timeout : Int)⟩) (n := timeout + 4)
      (s := ⟨{ Paced.proceed gaps ⟨s.proceed gaps, s.accesses + 1⟩ with regs := _ }, _⟩) rfl live
      ⟨⟨hw.exited, hw.running, hw.ready, hw.traced, hw.status⟩, rest'.ctrl, rest'.ack⟩
      (fun _ => rfl) (by omega)

end Answers

end TaskQueueCoSim.Mmio
