import TaskQueueCoSim.Mmio.ExactlyOnce

/-!
# Calls that return, calls that hang, and the way out

Host and bridge take their steps in any order.

* `polling_call_returns`: in an undisturbed run a call that has posted its request returns
  once the bridge has taken 18 more steps and then the host three, whatever comes between;
* `lost_call_unserved`: a request that neither `CTRL`, nor `ACK`, nor the bridge knows of is
  never made up for: the call polls until its timeout, and for ever if it has none;
* `exits_of_tbDone`: with `TB_DONE` set the bridge leaves its loop within 16 of its steps,
  and serves at most one more push and one more pop on the way.
-/

namespace TaskQueueCoSim.Mmio

open Flags Machine

/-- How many calls have returned. -/
def returns (hist : List Event) : Nat :=
  hist.countP fun
    | .ret _ _ => true
    | _ => false

theorem returns_append (events hist : List Event) :
    returns (events ++ hist) = returns events + returns hist := by
  simp [returns]

theorem returns_outcomes (taken : Kind → Nat) (reports : List Report) :
    returns (outcomes taken reports) = 0 := by
  induction reports with
  | nil => rfl
  | cons report reports ih => cases report <;> exact ih

@[simp] theorem returns_bridgeStep (s : Sys) : returns s.bridgeStep.hist = returns s.hist := by
  show returns (outcomes _ _ ++ s.hist) = returns s.hist
  rw [returns_append, returns_outcomes, Nat.zero_add]

theorem returns_next_le (s : Sys) (a : Action) : returns s.hist ≤ returns (s.next a).hist := by
  obtain ⟨regs, host, bridge, posted, taken, hist⟩ := s
  cases a with
  | call c => cases host <;> simp [Sys.next, Sys.call, returns]
  | host =>
    simp only [Sys.next, Sys.hostStep]
    split
    · exact Nat.le_refl _
    · simp [returns]
  | bridge => exact Nat.le_of_eq (returns_bridgeStep _).symm

def Action.isBridge : Action → Bool
  | bridge => true
  | _ => false

def Action.isHost : Action → Bool
  | host => true
  | _ => false

/-! ## A call under way returns -/

/-- How many steps the bridge is away from answering a request in `CTRL`: in this pass if
it has read the request, else in the next one. -/
def Pc.ahead : Pc → Nat
  | readCtrl => 10
  | readDataIn ctrl => if carried ctrl = .idle then 18 else 9
  | readAck ctrl _ => if carried ctrl = .idle then 17 else 8
  | readStatus ctrl _ => if carried ctrl = .idle then 16 else 7
  | readTbDone ctrl _ => if carried ctrl = .idle then 15 else 6
  | testPush ctrl _ => if carried ctrl = .idle then 14 else 5
  | testPop ctrl _ => if has ctrl Kind.pop.req then 4 else 13
  | writeDataOut _ _ => 3
  | answerRead _ _ _ => 2
  | answerWrite _ _ _ _ => 1
  | idleTick _ => 12
  | writeStatus => 11
  | clearCtrl _ _ _ | exited => 0

theorem Pc.ahead_le (pc : Pc) : pc.ahead ≤ 18 := by
  cases pc <;> simp only [ahead] <;> first | omega | (split <;> omega)

/-- The bridge comes nearer to the answer of a request that is polled for. -/
theorem Inv.ahead_lt {s : Sys} {c : Option Kind} (h : Inv s c none) {k : Kind}
    (hhost : s.host.phase = .polling k) (hpc : s.bridge.pc ≠ .exited) :
    s.bridgeStep.bridge.pc.ahead < s.bridge.pc.ahead ∧ s.bridgeStep.bridge.pc ≠ .exited := by
  have st : Stage (.polling k) s.bridge.pc.phase c none := hhost ▸ h.stage
  obtain ⟨regs, host, ⟨pc, top⟩, posted, taken, hist⟩ := s
  cases pc with
  | readCtrl =>
    have hc : c = some k := by
      have st : Stage (.polling k) .idle c none := st
      cases st
      rfl
    have carries : carried regs.ctrl = .holding k := carried_some (hc ▸ h.ctrl)
    exact ⟨by simp [Sys.bridgeStep, Mmio.bridgeStep, Pc.ahead, read32, carries],
      by simp [Sys.bridgeStep, Mmio.bridgeStep]⟩
  | readTbDone ctrl dataIn =>
    have e : read32 regs .tbDone = 0 := h.running
    simp only [Sys.bridgeStep, Mmio.bridgeStep, e, Pc.ahead]
    exact ⟨by simp only [ne_eq, not_true_eq_false, if_false]; split <;> omega, by simp⟩
  | testPush ctrl dataIn =>
    cases hp : has ctrl Kind.push.req
    case true =>
      have carries : carried ctrl = .holding .push := by simp [carried, hp]
      cases hf : top.full
      · simp [Sys.bridgeStep, Mmio.bridgeStep, testPush_ok dataIn hp hf, Pc.ahead, carries]
      · simp [Sys.bridgeStep, Mmio.bridgeStep, testPush_refused dataIn hp hf, Pc.ahead, carries]
    case false =>
      have carries : carried ctrl =
          if has ctrl Kind.pop.req then .holding .pop else .idle := by simp [carried, hp]
      cases ho : has ctrl Kind.pop.req <;>
        simp [Sys.bridgeStep, Mmio.bridgeStep, testPush_none dataIn hp, Pc.ahead, carries, ho]
  | testPop ctrl did =>
    cases hp : has ctrl Kind.pop.req
    case true =>
      cases hv : top.validOut
      · simp [Sys.bridgeStep, Mmio.bridgeStep, testPop_refused did hp hv, Pc.ahead, hp]
      · simp [Sys.bridgeStep, Mmio.bridgeStep, testPop_ok did hp hv, Pc.ahead, hp]
    case false => simp [Sys.bridgeStep, Mmio.bridgeStep, testPop_none did hp, Pc.ahead, hp]
  | clearCtrl k' a ctrl =>
    have st : Stage (.polling k) (.clearing k' a) c none := st
    cases st
  | exited => exact absurd rfl hpc
  | idleTick did => cases did <;> simp [Sys.bridgeStep, Mmio.bridgeStep, Pc.ahead]
  | readDataIn | readAck | readStatus =>
    simp only [Sys.bridgeStep, Mmio.bridgeStep, Pc.ahead]
    exact ⟨by split <;> omega, by simp⟩
  | writeDataOut | answerRead | answerWrite | writeStatus =>
    simp [Sys.bridgeStep, Mmio.bridgeStep, Pc.ahead]

/-- `n` calls have returned, and within `m` steps of the bridge one more has, or its answer
is on display. -/
def Answering (n m : Nat) (s : Sys) : Prop :=
  n < returns s.hist ∨ n ≤ returns s.hist ∧
    ((∃ c y, Inv s c (some y)) ∨ ∃ c q waited, Inv s c none ∧ s.host = .poll q waited ∧
      s.bridge.pc ≠ .exited ∧ s.bridge.pc.ahead ≤ m)

theorem AckIs.unique {w : Word} {x y : Option (Kind × Answer)} (h : AckIs w x) (h' : AckIs w y) :
    x = y := by
  have agree (k : Kind) (a : Answer) : x = some (k, a) ↔ y = some (k, a) := by
    have := (h k a).symm.trans (h' k a)
    simpa using this
  rcases x with _ | ⟨k, a⟩
  · rcases y with _ | ⟨k, a⟩
    · rfl
    · exact (agree k a).mpr rfl
  · exact ((agree k a).mp rfl).symm

/-- An answer on display is one that the host is still to take. -/
theorem Stage.of_displayed {η : HostPhase} {φ : BridgePhase} {c : Option Kind} {y : Kind × Answer}
    (h : Stage η φ c (some y)) : η = .polling y.1 ∨ η = .acking y.1 y.2 := by
  cases h with
  | answered | cleared => exact Or.inl rfl
  | acked | closing => exact Or.inr rfl

/-- The bridge writes `ACK` only while no answer is on display. -/
theorem Inv.bridgeStep_ack {s : Sys} {c : Option Kind} {y : Kind × Answer} (h : Inv s c (some y)) :
    s.bridgeStep.regs.ack = s.regs.ack := by
  have st := h.stage
  obtain ⟨regs, host, ⟨pc, top⟩, posted, taken, hist⟩ := s
  cases pc with
  | answerWrite k a ctrl newAck =>
    exact absurd (Stage.of_answering (k := k) (a := a) st).2.2 (by simp)
  | idleTick did => cases did <;> rfl
  | _ => rfl

theorem Inv.displayed_bridgeStep {s : Sys} {c : Option Kind} {y : Kind × Answer}
    (h : Inv s c (some y)) : ∃ c', Inv s.bridgeStep c' (some y) := by
  obtain ⟨c', x', h'⟩ := h.bridgeStep
  have same : x' = some y := h'.ack.unique (h.bridgeStep_ack.symm ▸ h.ack)
  exact ⟨c', same ▸ h'⟩

/-- How many steps of its own the host is away from its return, with the answer on display. -/
def HostPc.toReturn : HostPc → Nat
  | poll _ _ => 3
  | readDataOut _ _ => 2
  | clearAck _ _ _ _ => 1
  | _ => 0

theorem Inv.displayed_hostStep {s : Sys} {c : Option Kind} {y : Kind × Answer}
    (h : Inv s c (some y)) :
    returns s.hist < returns s.hostStep.hist ∨
      (∃ c', Inv s.hostStep c' (some y)) ∧ returns s.hostStep.hist = returns s.hist ∧
        s.hostStep.host.toReturn < s.host.toReturn := by
  have phase := h.stage.of_displayed
  obtain ⟨k, a⟩ := y
  obtain ⟨regs, host, bridge, posted, taken, hist⟩ := s
  cases host with
  | poll q waited =>
    have hk : q.kind = k := by
      rcases phase with e | e
      · exact HostPhase.polling.inj e
      · cases e
    subst hk
    obtain ⟨c', x', h'⟩ := h.hostStep trivial
    cases a with
    | refused =>
      have e := poll_refused h.host waited h.ack
      simp only [Sys.hostStep, e] at h' ⊢
      have same : x' = some (q.kind, .refused) := AckIs.unique h'.ack h.ack
      exact Or.inr ⟨⟨c', same ▸ h'⟩, trivial, by simp [HostPc.toReturn]⟩
    | ok =>
      have e := poll_ok h.host waited h.ack
      simp only [Sys.hostStep, e] at h' ⊢
      have same : x' = some (q.kind, .ok) := AckIs.unique h'.ack h.ack
      refine Or.inr ⟨⟨c', same ▸ h'⟩, trivial, ?_⟩
      cases hq : q.kind <;> simp [Request.accept, hq, HostPc.toReturn]
  | readDataOut q ack =>
    obtain ⟨c', x', h'⟩ := h.hostStep trivial
    have same : x' = some (k, a) := AckIs.unique h'.ack h.ack
    exact Or.inr ⟨⟨c', same ▸ h'⟩, rfl, Nat.lt_succ_self 1⟩
  | clearAck q a' ack out =>
    refine Or.inl ?_
    simp [Sys.hostStep, Mmio.hostStep, returns]
  | idle | readCtrl | writeDataIn | writeCtrl | readStatus =>
    rcases phase with e | e <;> cases e

/-- A step of the bridge. -/
theorem Answering.bridge {n m : Nat} {s : Sys} (h : Answering n m s) :
    Answering n (m - 1) s.bridgeStep := by
  rcases h with h | ⟨hn, h⟩
  · exact Or.inl (returns_bridgeStep s ▸ h)
  · refine Or.inr ⟨returns_bridgeStep s ▸ hn, ?_⟩
    rcases h with ⟨c, y, h⟩ | ⟨c, q, waited, h, hhost, hpc, hm⟩
    · obtain ⟨c', h'⟩ := h.displayed_bridgeStep
      exact Or.inl ⟨c', y, h'⟩
    · obtain ⟨less, hpc'⟩ := h.ahead_lt (k := q.kind) (by rw [hhost]; rfl) hpc
      obtain ⟨c', x', h'⟩ := h.bridgeStep
      cases x' with
      | some y => exact Or.inl ⟨c', y, h'⟩
      | none => exact Or.inr ⟨c', q, waited, h', hhost, hpc', by omega⟩

/-- The host looks at `ACK` and takes nothing back. -/
theorem Answering.other {n m : Nat} {s : Sys} (h : Answering n m s) {a : Action}
    (ha : a.isBridge = false) : Answering n m (s.next a) := by
  rcases h with h | ⟨hn, h⟩
  · exact Or.inl (Nat.lt_of_lt_of_le h (returns_next_le s a))
  cases a with
  | bridge => cases ha
  | call call =>
    -- a call is under way, so this one is not made
    have same : s.call call = s := by
      have busy : s.host ≠ .idle := by
        rcases h with ⟨c, y, h⟩ | ⟨c, q, waited, -, hhost, -⟩
        · intro e
          have phase := h.stage.of_displayed
          rw [e] at phase
          rcases phase with e | e <;> cases e
        · rw [hhost]
          simp
      unfold Sys.call
      split
      · exact absurd ‹_› busy
      · rfl
    rw [Sys.next, same]
    exact Or.inr ⟨hn, h⟩
  | host =>
    rcases h with ⟨c, y, h⟩ | ⟨c, q, waited, h, hhost, hpc, hm⟩
    · rcases h.displayed_hostStep with more | ⟨⟨c', h'⟩, same, -⟩
      · exact Or.inl (Nat.lt_of_le_of_lt hn more)
      · exact Or.inr ⟨same.symm ▸ hn, Or.inl ⟨c', y, h'⟩⟩
    · obtain ⟨regs, host, bridge, posted, taken, hist⟩ := s
      subst hhost
      obtain ⟨c', x', h'⟩ := h.hostStep trivial
      have e := poll_none h.host waited h.ack
      simp only [Sys.next, Sys.hostStep, e] at h' ⊢
      cases x' with
      | some y => exact Or.inr ⟨hn, Or.inl ⟨c', y, h'⟩⟩
      | none => exact Or.inr ⟨hn, Or.inr ⟨c', q, waited + 1, h', rfl, hpc, hm⟩⟩

/-- The bridge has nothing left to do for the call. -/
theorem Answering.displayed {n : Nat} {s : Sys} (h : Answering n 0 s) :
    n < returns s.hist ∨ n ≤ returns s.hist ∧ ∃ c y, Inv s c (some y) := by
  rcases h with h | ⟨hn, h | ⟨c, q, waited, h, hhost, hpc, hm⟩⟩
  · exact Or.inl h
  · exact Or.inr ⟨hn, h⟩
  · have := (h.ahead_lt (k := q.kind) (by rw [hhost]; rfl) hpc).1
    omega

/-- `n` calls have returned, and within `m` steps of the host one more has. -/
def Returning (n m : Nat) (s : Sys) : Prop :=
  n < returns s.hist ∨
    n ≤ returns s.hist ∧ ∃ c y, Inv s c (some y) ∧ s.host.toReturn ≤ m

theorem Returning.host {n m : Nat} {s : Sys} (h : Returning n m s) :
    Returning n (m - 1) s.hostStep := by
  rcases h with h | ⟨hn, c, y, h, hm⟩
  · exact Or.inl (Nat.lt_of_lt_of_le h (returns_next_le s .host))
  · rcases h.displayed_hostStep with more | ⟨⟨c', h'⟩, same, less⟩
    · exact Or.inl (Nat.lt_of_le_of_lt hn more)
    · exact Or.inr ⟨same.symm ▸ hn, c', y, h', by omega⟩

theorem Returning.other {n m : Nat} {s : Sys} (h : Returning n m s) {a : Action}
    (ha : a.isHost = false) : Returning n m (s.next a) := by
  rcases h with h | ⟨hn, c, y, h, hm⟩
  · exact Or.inl (Nat.lt_of_lt_of_le h (returns_next_le s a))
  cases a with
  | host => cases ha
  | call call =>
    obtain ⟨regs, host, bridge, posted, taken, hist⟩ := s
    cases host with
    | idle =>
      have phase := h.stage.of_displayed
      rcases phase with e | e <;> cases e
    | _ => exact Or.inr ⟨hn, c, y, h, hm⟩
  | bridge =>
    obtain ⟨c', h'⟩ := h.displayed_bridgeStep
    exact Or.inr ⟨(returns_bridgeStep s).symm ▸ hn, c', y, h', hm⟩

theorem HostPc.toReturn_le (pc : HostPc) : pc.toReturn ≤ 3 := by
  cases pc <;> simp [toReturn]

/-- An undisturbed run keeps the invariant, and the bridge in its loop. -/
theorem exists_inv (top : VtbTaskQueue) {as : List Action} (patient : ∀ a ∈ as, a.Patient)
    (undisturbed : Guarded Sys.next Undisturbed (Sys.init top) as) :
    ∃ c x, Inv (run Sys.next (Sys.init top) as) c x ∧
      (run Sys.next (Sys.init top) as).bridge.pc ≠ .exited := by
  refine (undisturbed.and_forall_mem patient).invariant
    (I := fun s => ∃ c x, Inv s c x ∧ s.bridge.pc ≠ .exited) ?_ ⟨none, none, inv_init top, by
      simp [Sys.init]⟩
  rintro s a ⟨c, x, h, hpc⟩ g
  obtain ⟨c', x', h'⟩ := h.next g
  refine ⟨c', x', h', ?_⟩
  obtain ⟨regs, host, ⟨pc, top⟩, posted, taken, hist⟩ := s
  cases a with
  | call c => cases host <;> exact hpc
  | host => exact hpc
  | bridge =>
    cases pc with
    | exited => exact absurd rfl hpc
    | readTbDone ctrl dataIn =>
      have e : read32 regs .tbDone = 0 := h.running
      simp [Sys.next, Sys.bridgeStep, Mmio.bridgeStep, e]
    | testPush ctrl dataIn =>
      simp only [Sys.next, Sys.bridgeStep, Mmio.bridgeStep, testPush]
      split
      · split <;> simp
      · simp
    | testPop ctrl did =>
      simp only [Sys.next, Sys.bridgeStep, Mmio.bridgeStep, testPop]
      split
      · split <;> simp
      · simp
    | clearCtrl k a ctrl =>
      cases k <;> cases a <;> simp [Sys.next, Sys.bridgeStep, Mmio.bridgeStep, answered]
    | idleTick did => cases did <;> simp [Sys.next, Sys.bridgeStep, Mmio.bridgeStep]
    | _ => simp [Sys.next, Sys.bridgeStep, Mmio.bridgeStep]

/-- **No call hangs.**  In an undisturbed run, a call that has posted its request has
returned once the bridge has taken 18 steps and the host three after them, in any order
with whatever else. -/
theorem polling_call_returns (top : VtbTaskQueue) (as bs cs : List Action)
    (patient : ∀ a ∈ as, a.Patient) (undisturbed : Guarded Sys.next Undisturbed (Sys.init top) as)
    (q : Request) (waited : Int)
    (polling : (run Sys.next (Sys.init top) as).host = .poll q waited)
    (bridged : 18 ≤ bs.countP Action.isBridge) (hosted : 3 ≤ cs.countP Action.isHost) :
    returns (run Sys.next (Sys.init top) as).hist <
      returns (run Sys.next (Sys.init top) (as ++ bs ++ cs)).hist := by
  obtain ⟨c, x, inv, hpc⟩ := exists_inv top patient undisturbed
  rw [run_append, run_append]
  generalize run Sys.next (Sys.init top) as = s at polling inv hpc ⊢
  have start : Answering (returns s.hist) 18 s := by
    refine Or.inr ⟨Nat.le_refl _, ?_⟩
    cases x with
    | some y => exact Or.inl ⟨c, y, inv⟩
    | none => exact Or.inr ⟨c, q, waited, inv, polling, hpc, Pc.ahead_le _⟩
  have answered := run_countdown (I := Answering (returns s.hist)) Action.isBridge
    (fun m s a ha h => by cases a <;> first | exact h.bridge | cases ha)
    (fun m s a ha h => h.other ha) start bs
  rw [Nat.sub_eq_zero_of_le bridged] at answered
  have middle : Returning (returns s.hist) 3 (run Sys.next s bs) := by
    rcases answered.displayed with h | ⟨hn, c, y, h⟩
    · exact Or.inl h
    · exact Or.inr ⟨hn, c, y, h, HostPc.toReturn_le _⟩
  have returned := run_countdown (I := Returning (returns s.hist)) Action.isHost
    (fun m s a ha h => by cases a <;> first | exact h.host | cases ha)
    (fun m s a ha h => h.other ha) middle cs
  rw [Nat.sub_eq_zero_of_le hosted] at returned
  rcases returned with h | ⟨-, c, y, h, left⟩
  · exact h
  · have phase := h.stage.of_displayed
    generalize (run Sys.next (run Sys.next s bs) cs).host = pc at phase left
    cases pc <;> first | (simp [HostPc.toReturn] at left; done) | (rcases phase with e | e <;> cases e)

/-- A push that polls before the bridge has looked at `CTRL`. -/
theorem polling_call_returns_push :
    returns (run Sys.next (Sys.init bootZero) [.call (mmioPush 1 none), .host, .host, .host]).hist <
      returns (run Sys.next (Sys.init bootZero) ([.call (mmioPush 1 none), .host, .host, .host] ++
        List.replicate 18 .bridge ++ List.replicate 3 .host)).hist :=
  polling_call_returns bootZero [.call (mmioPush 1 none), .host, .host, .host]
    (List.replicate 18 .bridge) (List.replicate 3 .host) (by decide) (by decide) ⟨.push, 1, none⟩ 0
    (by decide) (by decide) (by decide)

/-! ## A lost request -/

/-- What clearing `CTRL` after an answer, and the rest of the pass, may bring back. -/
def restores (k : Kind) (ctrl : Word) : Kind → Bool
  | .push => has ctrl Kind.pop.req && has ctrl k.req
  | .pop => k = .push && has ctrl k.req

/-- The bridge has a request of a kind in hand, or an answer to one. -/
def Pc.keeps (k : Kind) : Pc → Bool
  | readDataIn ctrl | readAck ctrl _ | readStatus ctrl _ | readTbDone ctrl _ | testPush ctrl _ =>
    has ctrl k.req
  | testPop ctrl _ => has ctrl Kind.pop.req && has ctrl k.req
  | writeDataOut ctrl _ => k = .pop || restores k ctrl .pop
  | answerRead k' _ ctrl => k = k' || restores k ctrl k'
  | answerWrite k' _ ctrl newAck =>
    has newAck (k.bit .ok) || has newAck (k.bit .refused) || restores k ctrl k'
  | clearCtrl k' _ ctrl => restores k ctrl k'
  | _ => false

/-- A call polls for a request that nobody knows of. -/
structure Lost (q : Request) (waited : Int) (s : Sys) : Prop where
  polling : s.host = .poll q waited
  ctrl : has s.regs.ctrl q.kind.req = false
  ack : ∀ a, has s.regs.ack (q.kind.bit a) = false
  bridge : s.bridge.pc.keeps q.kind = false

/-- After `n` returns came a timeout. -/
def GivesUp (q : Request) (n : Nat) (hist : List Event) : Prop :=
  ∃ id earlier, .ret ⟨.request q, .code (-2) none⟩ id :: earlier <:+ hist ∧ returns earlier = n

section Lost

variable {q : Request} {waited : Int} {s : Sys}

/-- A step of the bridge that leaves `CTRL` and `ACK` alone. -/
theorem Lost.goto {regs regs' : Regs} {host : HostPc} {b b' : Bridge} {posted taken taken' : Kind → Nat}
    {hist hist' : List Event} (h : Lost q waited ⟨regs, host, b, posted, taken, hist⟩)
    (hctrl : regs'.ctrl = regs.ctrl) (hack : regs'.ack = regs.ack)
    (hpc : b'.pc.keeps q.kind = false) :
    Lost q waited ⟨regs', host, b', posted, taken', hist'⟩ where
  polling := h.polling
  ctrl := by
    show has regs'.ctrl q.kind.req = false
    rw [hctrl]
    exact h.ctrl
  ack a := by
    show has regs'.ack (q.kind.bit a) = false
    rw [hack]
    exact h.ack a
  bridge := hpc

/-- Clearing one request brings back none that is lost. -/
theorem has_clear_of_restores {k k' : Kind} {ctrl : Word} (h : restores k ctrl k' = false) :
    has (clear ctrl k'.req) k.req = false := by
  by_cases e : k' = k
  · rw [e, has_clear_self]
  · rw [Kind.has_clear_req e]
    cases k <;> cases k' <;> simp [restores] at h e ⊢ <;> exact h

/-- Serving the one kind of request takes up none of the other. -/
theorem keeps_testPush {k : Kind} {ctrl : Word} (top : VtbTaskQueue) (dataIn : Word)
    (h : has ctrl k.req = false) : (testPush top ctrl dataIn).1.pc.keeps k = false := by
  cases hp : has ctrl Kind.push.req
  case false => simp [testPush_none dataIn hp, Pc.keeps, h]
  case true =>
    cases k with
    | push =>
      rw [hp] at h
      cases h
    | pop =>
      cases hf : top.full
      · simp [testPush_ok dataIn hp hf, Pc.keeps, restores, h]
      · simp [testPush_refused dataIn hp hf, Pc.keeps, restores, h]

theorem keeps_testPop {k : Kind} {ctrl : Word} (top : VtbTaskQueue) (did : Bool)
    (h : (Pc.testPop ctrl did).keeps k = false) : (testPop top ctrl did).1.pc.keeps k = false := by
  cases hp : has ctrl Kind.pop.req
  case false => simp [testPop_none did hp, Pc.keeps]
  case true =>
    cases k with
    | pop => simp [Pc.keeps, hp] at h
    | push =>
      have h : has ctrl Kind.push.req = false := by simpa [Pc.keeps, hp] using h
      cases hv : top.validOut
      · simp [testPop_refused did hp hv, Pc.keeps, restores, h]
      · simp [testPop_ok did hp hv, Pc.keeps, restores, h]

theorem Lost.bridgeStep (h : Lost q waited s) : Lost q waited s.bridgeStep := by
  obtain ⟨regs, host, ⟨pc, top⟩, posted, taken, hist⟩ := s
  have keeps := h.bridge
  cases pc with
  | readCtrl => exact h.goto rfl rfl h.ctrl
  | readDataIn | readAck | readStatus => exact h.goto rfl rfl keeps
  | readTbDone ctrl dataIn =>
    refine h.goto rfl rfl ?_
    by_cases hd : read32 regs .tbDone = 0
    · simp only [hd, ne_eq, not_true_eq_false, if_false]
      exact keeps
    · simp only [hd, ne_eq, not_false_eq_true, if_true]
      rfl
  | testPush ctrl dataIn => exact h.goto rfl rfl (keeps_testPush top dataIn keeps)
  | testPop ctrl did => exact h.goto rfl rfl (keeps_testPop top did keeps)
  | writeDataOut ctrl popped =>
    refine h.goto rfl rfl ?_
    simp only [Pc.keeps, Bool.or_eq_false_iff] at keeps ⊢
    exact keeps
  | answerRead k a ctrl =>
    refine h.goto rfl rfl ?_
    simp only [Pc.keeps, Bool.or_eq_false_iff, decide_eq_false_iff_not] at keeps ⊢
    have off (a' : Answer) : has (regs.ack ||| k.bit a) (q.kind.bit a') = false := by
      rw [has_or, h.ack a', Kind.has_bit_bit]
      simp [Ne.symm keeps.1]
    exact ⟨⟨off .ok, off .refused⟩, keeps.2⟩
  | answerWrite k a ctrl newAck =>
    simp only [Pc.keeps, Bool.or_eq_false_iff] at keeps
    refine ⟨h.polling, h.ctrl, fun a' => ?_, keeps.2⟩
    cases a'
    · exact keeps.1.1
    · exact keeps.1.2
  | clearCtrl k a ctrl =>
    have keeps : restores q.kind ctrl k = false := keeps
    refine ⟨h.polling, has_clear_of_restores keeps, h.ack, ?_⟩
    cases k with
    | push => exact keeps
    | pop => cases a <;> rfl
  | idleTick did => cases did <;> exact h.goto rfl rfl rfl
  | writeStatus => exact h.goto rfl rfl rfl
  | exited => exact h

/-- A poll in time sees no answer. -/
theorem Lost.polls (h : Lost q waited s) (early : q.expired waited = false) :
    Lost q (waited + 1) s.hostStep ∧ s.hostStep.hist = s.hist := by
  obtain ⟨regs, host, bridge, posted, taken, hist⟩ := s
  obtain rfl : host = .poll q waited := h.polling
  have e : Mmio.hostStep regs (.poll q waited) = (regs, .poll q (waited + 1), none) := by
    simp [Mmio.hostStep, early, read32, h.ack]
  simp only [Sys.hostStep, e]
  exact ⟨⟨rfl, h.ctrl, h.ack, h.bridge⟩, trivial⟩

theorem Lost.expires (h : Lost q waited s) (late : q.expired waited = true) :
    GivesUp q (returns s.hist) s.hostStep.hist := by
  obtain ⟨regs, host, bridge, posted, taken, hist⟩ := s
  obtain rfl : host = .poll q waited := h.polling
  have e : Mmio.hostStep regs (.poll q waited) =
      (regs, .idle, some ⟨.request q, .code (-2) none⟩) := by simp [Mmio.hostStep, late]
  simp only [Sys.hostStep, e]
  exact ⟨_, hist, List.suffix_refl _, rfl⟩

theorem hist_suffix_next (s : Sys) (a : Action) : s.hist <:+ (s.next a).hist := by
  obtain ⟨regs, host, bridge, posted, taken, hist⟩ := s
  cases a with
  | call c => cases host <;> simp [Sys.next, Sys.call, List.suffix_cons]
  | host =>
    simp only [Sys.next, Sys.hostStep]
    split
    · exact List.suffix_refl _
    · exact List.suffix_cons _ _
  | bridge => exact List.suffix_append _ _

theorem GivesUp.next {n : Nat} (h : GivesUp q n s.hist) (a : Action) :
    GivesUp q n (s.next a).hist := by
  obtain ⟨id, earlier, hs, hn⟩ := h
  exact ⟨id, earlier, hs.trans (hist_suffix_next s a), hn⟩

/-- A step that is no poll leaves the request lost. -/
theorem Lost.other (h : Lost q waited s) {a : Action} (ha : a.isHost = false) :
    Lost q waited (s.next a) ∧ returns (s.next a).hist = returns s.hist := by
  cases a with
  | bridge => exact ⟨h.bridgeStep, returns_bridgeStep s⟩
  | host => cases ha
  | call c =>
    obtain ⟨regs, host, bridge, posted, taken, hist⟩ := s
    obtain rfl : host = .poll q waited := h.polling
    exact ⟨h, rfl⟩

/-- What becomes of a lost request in `polls` polls: none finds an answer, and the first after
the timeout gives up. -/
structure Unserved (q : Request) (waited : Int) (n polls : Nat) (s : Sys) : Prop where
  polls_on : (∀ i < polls, q.expired (waited + i) = false) →
    Lost q (waited + polls) s ∧ returns s.hist = n
  gives_up : (∃ i < polls, q.expired (waited + i) = true) → GivesUp q n s.hist

theorem Unserved.other {n polls : Nat} (h : Unserved q waited n polls s) {a : Action}
    (ha : a.isHost = false) : Unserved q waited n polls (s.next a) where
  polls_on early := by
    obtain ⟨lost, hn⟩ := h.polls_on early
    obtain ⟨lost', same⟩ := lost.other ha
    exact ⟨lost', same.trans hn⟩
  gives_up late := (h.gives_up late).next a

theorem Unserved.poll {n polls : Nat} (h : Unserved q waited n polls s) :
    Unserved q waited n (polls + 1) (s.next .host) where
  polls_on early := by
    obtain ⟨lost, hn⟩ := h.polls_on fun i hi => early i (Nat.lt_succ_of_lt hi)
    obtain ⟨lost', hist⟩ := lost.polls (early polls (Nat.lt_succ_self _))
    refine ⟨?_, (congrArg returns hist).trans hn⟩
    rwa [Int.add_assoc] at lost'
  gives_up late := by
    by_cases before : ∃ i < polls, q.expired (waited + i) = true
    · exact (h.gives_up before).next .host
    · have early : ∀ i < polls, q.expired (waited + i) = false := by
        simpa only [not_exists, not_and, Bool.not_eq_true] using before
      obtain ⟨lost, rfl⟩ := h.polls_on early
      obtain ⟨i, hi, hlate⟩ := late
      obtain rfl : i = polls := by
        refine Nat.le_antisymm (Nat.le_of_lt_succ hi) (Nat.le_of_not_lt fun hlt => ?_)
        simp [early i hlt] at hlate
      exact lost.expires hlate

/-- **A lost request is never served.**  From a state in which a call polls for a request that
neither `CTRL`, nor `ACK`, nor the bridge knows of, whatever run follows: no poll finds an
answer, a call without an end polls on, and one with a timeout returns -2 before anything
else returns. -/
theorem lost_call_unserved (h : Lost q waited s) (bs : List Action) :
    Unserved q waited (returns s.hist) (bs.countP Action.isHost) (run Sys.next s bs) := by
  induction bs using List.reverseRecOn with
  | nil => exact ⟨fun _ => ⟨by simpa using h, rfl⟩, fun ⟨i, hi, _⟩ => absurd hi (Nat.not_lt_zero i)⟩
  | append_singleton bs a ih =>
    rw [run_concat, List.countP_append]
    cases ha : a.isHost with
    | false => simpa [ha] using ih.other ha
    | true =>
      obtain rfl : a = .host := by cases a <;> first | rfl | cases ha
      simpa [ha] using ih.poll

end Lost

/-- The pushes of `lostPush` by a host that polls at most twice. -/
def hastyPush : List Action :=
  [.call (mmioPush 1 (some 2)), .host, .host, .host] ++ List.replicate 8 .bridge ++
    [.host, .host, .call (mmioPush 2 (some 2)), .host, .host, .host, .bridge]

theorem lost_call_unserved_hastyPush :
    Unserved ⟨.push, 2, some 2⟩ 0 (returns (run Sys.next (Sys.init bootZero) hastyPush).hist) 3
      (run Sys.next (run Sys.next (Sys.init bootZero) hastyPush)
        [.host, .bridge, .host, .bridge, .host]) :=
  lost_call_unserved ⟨by decide, by decide, fun a => by cases a <;> decide, by decide⟩
    [.host, .bridge, .host, .bridge, .host]

/-! ## `TB_DONE` -/

/-- How many steps the bridge is away from its exit once `TB_DONE` is set. -/
def Pc.untilExit : Pc → Nat
  | exited => 0
  | readTbDone _ _ => 1
  | readStatus _ _ => 2
  | readAck _ _ => 3
  | readDataIn _ => 4
  | readCtrl => 5
  | writeStatus => 6
  | idleTick _ => 7
  | clearCtrl .pop _ _ => 8
  | answerWrite .pop _ _ _ => 9
  | answerRead .pop _ _ => 10
  | writeDataOut _ _ => 11
  | testPop _ _ => 12
  | clearCtrl .push _ _ => 13
  | answerWrite .push _ _ _ => 14
  | answerRead .push _ _ => 15
  | testPush _ _ => 16

/-- How many requests of a kind the bridge may still perform in this pass. -/
def Pc.spare (k : Kind) : Pc → Nat
  | testPush _ _ => 1
  | testPop _ _ | answerRead .push _ _ | answerWrite .push _ _ _ | clearCtrl .push _ _ =>
    if k = .pop then 1 else 0
  | _ => 0

theorem Pc.untilExit_le (pc : Pc) : pc.untilExit ≤ 16 := by
  cases pc with
  | answerRead k | answerWrite k | clearCtrl k => cases k <;> simp [untilExit]
  | _ => simp [untilExit]

theorem Pc.spare_le (k : Kind) (pc : Pc) : pc.spare k ≤ 1 := by
  cases pc with
  | answerRead k' | answerWrite k' | clearCtrl k' => cases k' <;> cases k <;> simp [spare]
  | _ => cases k <;> simp [spare]

/-- Within `m` steps of the bridge it has left its loop; `n k` bounds what it performs. -/
structure Leaving (n : Kind → Nat) (m : Nat) (s : Sys) : Prop where
  tbDone : s.regs.tbDone ≠ 0
  exit : s.bridge.pc.untilExit ≤ m
  performs : ∀ k, clocked k s.hist + s.bridge.pc.spare k ≤ n k

/-- Neither side writes `TB_DONE`. -/
theorem hostStep_tbDone (r : Regs) (pc : HostPc) : (Mmio.hostStep r pc).1.tbDone = r.tbDone := by
  cases pc with
  | readCtrl q => cases hk : q.kind <;> simp [Mmio.hostStep, hk]
  | poll q waited =>
    simp only [Mmio.hostStep]
    split
    · rfl
    · split
      · rfl
      · split <;> rfl
  | _ => rfl

section Leaving

variable {n : Kind → Nat} {m : Nat} {s : Sys}

theorem Leaving.testPush {regs : Regs} {host : HostPc} {top : VtbTaskQueue}
    {posted taken : Kind → Nat} {hist : List Event} {ctrl dataIn : Word}
    (h : Leaving n m ⟨regs, host, ⟨.testPush ctrl dataIn, top⟩, posted, taken, hist⟩) :
    Leaving n (m - 1) ⟨regs, host, (testPush top ctrl dataIn).1, posted, taken,
      outcomes taken (testPush top ctrl dataIn).2 ++ hist⟩ := by
  have exit : 16 ≤ m := h.exit
  have performs (k : Kind) : clocked k hist + 1 ≤ n k := h.performs k
  cases hp : has ctrl Kind.push.req
  case false =>
    rw [testPush_none dataIn hp]
    refine ⟨h.tbDone, show 12 ≤ m - 1 by omega, fun k => ?_⟩
    have := performs k
    have := (Pc.testPop ctrl false).spare_le k
    show clocked k hist + (Pc.testPop ctrl false).spare k ≤ n k
    omega
  case true =>
    cases hf : top.full
    case true =>
      rw [testPush_refused dataIn hp hf]
      refine ⟨h.tbDone, show 15 ≤ m - 1 by omega, fun k => ?_⟩
      have := performs k
      have := (Pc.answerRead .push .refused ctrl).spare_le k
      have e := clocked_outcome k .pushRefused (taken .push) hist
      simp only [Outcome.answer, reduceCtorEq, and_false, if_false] at e
      show clocked k (.outcome .pushRefused (taken .push) :: hist) +
        (Pc.answerRead .push .refused ctrl).spare k ≤ n k
      rw [e]
      omega
    case false =>
      rw [testPush_ok dataIn hp hf]
      refine ⟨h.tbDone, show 15 ≤ m - 1 by omega, fun k => ?_⟩
      have := performs k
      show clocked k (.outcome (.pushed dataIn) (taken .push) :: hist) +
        (Pc.answerRead .push .ok ctrl).spare k ≤ n k
      rw [clocked_outcome]
      cases k <;> simp [Outcome.kind, Outcome.answer, Pc.spare] <;> omega

theorem Leaving.testPop {regs : Regs} {host : HostPc} {top : VtbTaskQueue}
    {posted taken : Kind → Nat} {hist : List Event} {ctrl : Word} {did : Bool}
    (h : Leaving n m ⟨regs, host, ⟨.testPop ctrl did, top⟩, posted, taken, hist⟩) :
    Leaving n (m - 1) ⟨regs, host, (testPop top ctrl did).1, posted, taken,
      outcomes taken (testPop top ctrl did).2 ++ hist⟩ := by
  have exit : 12 ≤ m := h.exit
  have performs (k : Kind) : clocked k hist + (if k = .pop then 1 else 0) ≤ n k := h.performs k
  cases hp : has ctrl Kind.pop.req
  case false =>
    rw [testPop_none did hp]
    refine ⟨h.tbDone, show 7 ≤ m - 1 by omega, fun k => ?_⟩
    have := performs k
    show clocked k hist + 0 ≤ n k
    omega
  case true =>
    cases hv : top.validOut
    case false =>
      rw [testPop_refused did hp hv]
      refine ⟨h.tbDone, show 10 ≤ m - 1 by omega, fun k => ?_⟩
      have := performs k
      show clocked k (.outcome .popRefused (taken .pop) :: hist) + 0 ≤ n k
      rw [clocked_outcome]
      simp only [Outcome.answer, reduceCtorEq, and_false, if_false]
      omega
    case true =>
      rw [testPop_ok did hp hv]
      refine ⟨h.tbDone, show 11 ≤ m - 1 by omega, fun k => ?_⟩
      have := performs k
      show clocked k (.outcome (.popped _) (taken .pop) :: hist) + 0 ≤ n k
      rw [clocked_outcome]
      cases k <;> simp [Outcome.kind, Outcome.answer] at this ⊢ <;> omega

/-- A step of the bridge that reports nothing. -/
theorem Leaving.goto {regs regs' : Regs} {host : HostPc} {b b' : Bridge}
    {posted taken taken' : Kind → Nat} {hist : List Event}
    (h : Leaving n m ⟨regs, host, b, posted, taken, hist⟩) (hr : regs'.tbDone = regs.tbDone)
    (less : b'.pc.untilExit ≤ b.pc.untilExit - 1) (spare : ∀ k, b'.pc.spare k ≤ b.pc.spare k) :
    Leaving n (m - 1) ⟨regs', host, b', posted, taken', hist⟩ where
  tbDone := by
    show regs'.tbDone ≠ 0
    rw [hr]
    exact h.tbDone
  exit := less.trans (Nat.sub_le_sub_right h.exit 1)
  performs k := (Nat.add_le_add_left (spare k) _).trans (h.performs k)

theorem Leaving.bridgeStep (h : Leaving n m s) : Leaving n (m - 1) s.bridgeStep := by
  obtain ⟨regs, host, ⟨pc, top⟩, posted, taken, hist⟩ := s
  cases pc with
  | readTbDone ctrl dataIn =>
    have e : Mmio.bridgeStep regs ⟨.readTbDone ctrl dataIn, top⟩ = (regs, ⟨.exited, top⟩, []) := by
      have := h.tbDone
      simp only [Mmio.bridgeStep, read32, this, ne_eq, not_false_eq_true, if_true]
    simp only [Sys.bridgeStep, e]
    exact h.goto rfl (Nat.le_refl _) fun k => Nat.le_refl _
  | testPush ctrl dataIn => exact h.testPush
  | testPop ctrl did => exact h.testPop
  | clearCtrl k a ctrl =>
    cases k with
    | push => exact h.goto rfl (Nat.le_refl _) fun k => Nat.le_refl _
    | pop => cases a <;> exact h.goto rfl (Nat.le_refl _) fun k => Nat.le_refl _
  | idleTick did => cases did <;> exact h.goto rfl (Nat.le_refl _) fun k => Nat.le_refl _
  | answerRead k a ctrl =>
    cases k <;> exact h.goto rfl (Nat.le_refl _) fun k => Nat.le_refl _
  | answerWrite k a ctrl newAck =>
    cases k <;> exact h.goto rfl (Nat.le_refl _) fun k => Nat.le_refl _
  | exited => exact ⟨h.tbDone, Nat.zero_le _, h.performs⟩
  | _ => exact h.goto rfl (Nat.le_refl _) fun k => Nat.le_refl _

theorem Leaving.other (h : Leaving n m s) {a : Action} (ha : a.isBridge = false) :
    Leaving n m (s.next a) := by
  obtain ⟨regs, host, b, posted, taken, hist⟩ := s
  cases a with
  | bridge => cases ha
  | call c =>
    cases host with
    | idle => exact ⟨h.tbDone, h.exit, h.performs⟩
    | _ => exact h
  | host =>
    have e := hostStep_tbDone regs host
    refine ⟨?_, h.exit, fun k => ?_⟩
    · show (Mmio.hostStep regs host).1.tbDone ≠ 0
      rw [e]
      exact h.tbDone
    · have same : clocked k (Sys.hostStep ⟨regs, host, b, posted, taken, hist⟩).hist =
          clocked k hist := by
        simp only [Sys.hostStep]
        split <;> rfl
      show clocked k (Sys.hostStep ⟨regs, host, b, posted, taken, hist⟩).hist + _ ≤ n k
      rw [same]
      exact h.performs k

/-- **`TB_DONE` stops the bridge.**  From any state in which it is set, the bridge has left
its loop once it has taken 16 steps, whatever the host does, and in any run it performs at
most one more push and one more pop. -/
theorem exits_of_tbDone (h : s.regs.tbDone ≠ 0) (bs : List Action) :
    (16 ≤ bs.countP Action.isBridge → (run Sys.next s bs).bridge.pc = .exited) ∧
      ∀ k, clocked k (run Sys.next s bs).hist ≤ clocked k s.hist + 1 := by
  have start : Leaving (fun k => clocked k s.hist + 1) 16 s :=
    ⟨h, Pc.untilExit_le _, fun k => Nat.add_le_add_left (Pc.spare_le k _) _⟩
  have leaving := run_countdown (I := Leaving fun k => clocked k s.hist + 1) Action.isBridge
    (fun m s a ha h => by cases a <;> first | exact h.bridgeStep | cases ha)
    (fun m s a ha h => h.other ha) start bs
  refine ⟨fun enough => ?_, fun k => (Nat.le_add_right _ _).trans (leaving.performs k)⟩
  rw [Nat.sub_eq_zero_of_le enough] at leaving
  have exit := leaving.exit
  generalize (run Sys.next s bs).bridge.pc = pc at exit
  cases pc with
  | answerRead k | answerWrite k | clearCtrl k => cases k <;> simp [Pc.untilExit] at exit
  | exited => rfl
  | _ => simp [Pc.untilExit] at exit

end Leaving

/-- `TB_DONE` is set when the bridge has looked at it; it has both requests in hand, and the
queue has a word. -/
def bothInHand : Sys where
  regs := { zeroed with ctrl := 3, dataIn := 7, tbDone := 1 }
  host := .idle
  bridge := ⟨.testPush 3 7, (testPush bootZero 1 5).1.top.tick⟩
  posted := fun _ => 0
  taken := fun _ => 0
  hist := []

/-- Both requests are performed on the way out. -/
theorem exits_of_tbDone_bothInHand :
    (run Sys.next bothInHand (List.replicate 16 .bridge)).bridge.pc = .exited ∧
      ∀ k, 0 < clocked k (run Sys.next bothInHand (List.replicate 16 .bridge)).hist ∧
        clocked k (run Sys.next bothInHand (List.replicate 16 .bridge)).hist ≤
          clocked k bothInHand.hist + 1 := by
  obtain ⟨exits, performs⟩ :=
    exits_of_tbDone (s := bothInHand) (by decide) (List.replicate 16 .bridge)
  exact ⟨exits (by decide), fun k => ⟨by cases k <;> decide, performs k⟩⟩

end TaskQueueCoSim.Mmio
