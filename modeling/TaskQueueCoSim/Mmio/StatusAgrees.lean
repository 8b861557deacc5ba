import TaskQueueCoSim.Mmio.Adversary
import TaskQueueCoSim.Mmio.DriverResults
import TaskQueueCoSim.Mmio.ExactlyOnce

/-!
# Status queries between calls

`StatusAgrees` says of a history that every query gave what the calls that have
returned make of the queue.  The bridge writes `STATUS` at the end of its loop,
after the answer in `ACK`, so a host that has its answer may still read what
`STATUS` said before.  That matters only if the request has taken the number of
words across the boundary that the query asks about (`Published`).

`Tallied` is the invariant beside `Inv`: what was clocked is what calls have
returned and at most one answer on its way, the queue holds the difference, and
`STATUS` shows its flags, between a request and the end of the loop those from
before the request.
-/

namespace TaskQueueCoSim.Mmio

open Flags Machine VtbTaskQueue

/-! ## Histories -/

def Result.succeeded : Result → Bool
  | code rc _ => rc = 0
  | flag _ => false

/-- How many calls of a kind have returned 0. -/
def returned (k : Kind) (hist : List Event) : Nat :=
  hist.countP fun
    | .ret x _ => x.call.kind? = some k && x.result.succeeded
    | _ => false

/-- The words that the calls that have returned have left in the queue. -/
def balance (hist : List Event) : Int := (returned .push hist : Int) - returned .pop hist

def StatusAgrees : List Event → Prop
  | [] => True
  | .ret x _ :: hist =>
    (x.call = mmioIsFull → x.result = .flag (balance hist = 16)) ∧
      (x.call = mmioIsValid → x.result = .flag (0 < balance hist)) ∧ StatusAgrees hist
  | _ :: hist => StatusAgrees hist

/-- The request that was served last. -/
def lastOutcome : List Event → Option Outcome
  | [] => none
  | .outcome o _ :: _ => some o
  | _ :: hist => lastOutcome hist

/-- The request, which has left `n` words in the queue, has changed what the query is to give. -/
def Outcome.Crosses (n : Int) (c : Call) : Outcome → Prop
  | pushed _ => c = mmioIsFull ∧ n = 16 ∨ c = mmioIsValid ∧ n = 1
  | popped _ => c = mmioIsFull ∧ n = 15 ∨ c = mmioIsValid ∧ n = 0
  | _ => False

instance Outcome.decidableCrosses (n : Int) (c : Call) (o : Outcome) : Decidable (o.Crosses n c) := by
  cases o <;> unfold Outcome.Crosses <;> infer_instance

def Report.isOutcome : Report → Bool
  | outcome _ => true
  | edge _ => false

/-- The system, with a note whether a request was served since `STATUS` was last written. -/
structure Noting where
  sys : Sys
  served : Bool

def Noting.next (m : Noting) (a : Action) : Noting where
  sys := m.sys.next a
  served := match a with
    | .bridge =>
      if m.sys.bridge.pc = .writeStatus then false
      else m.served || (bridgeStep m.sys.regs m.sys.bridge).2.2.any Report.isOutcome
    | _ => m.served

/-- When the host reads `STATUS`, the bridge has written it since the last request that it
served, or that request has not changed the answer. -/
def Published (m : Noting) : Action → Prop
  | .host =>
    match m.sys.host with
    | .readStatus mask => m.served = true →
        ∀ o ∈ lastOutcome m.sys.hist, ¬ o.Crosses (balance m.sys.hist) (.status mask)
    | _ => True
  | _ => True

instance Published.decidable (m : Noting) (a : Action) : Decidable (Published m a) :=
  match a, m with
  | .call _, _ | .bridge, _ => isTrue trivial
  | .host, ⟨⟨_, host, _, _, _, _⟩, _⟩ =>
    match host with
    | .readStatus _ => inferInstanceAs (Decidable (_ → _))
    | .idle | .readCtrl _ | .writeDataIn _ _ | .writeCtrl _ _ | .poll _ _ | .readDataOut _ _
    | .clearAck _ _ _ _ => isTrue trivial

/-! ## The invariant -/

/-- A request may have been served since `STATUS` was last written. -/
def Pc.unpublished : Pc → Bool
  | testPop _ did => did
  | writeDataOut _ _ | answerRead _ _ _ | answerWrite _ _ _ _ | clearCtrl _ _ _ => true
  | idleTick did => did
  | writeStatus => true
  | _ => false

/-- An answer to a performed request is on its way to the host. -/
def unreturned (regs : Regs) (pc : Pc) (k : Kind) : Bool :=
  pc.phase = .answering k .ok || has regs.ack (k.bit .ok)

/-- The queue under the bridge has seen what the history has. -/
def Behind (b : Bridge) (hist : List Event) : Prop :=
  ∃ log, Safe b log ∧ ∀ k, performed k log = clocked k hist

/-- `STATUS` shows the flags from before the last request. -/
def Lags (status : Word) (top : VtbTaskQueue) (hist : List Event) : Prop :=
  ∃ o full valid, lastOutcome hist = some o ∧ status = statusBits full valid ∧
    (full ≠ top.full ↔ o.Crosses top.queue.count.toNat mmioIsFull) ∧
    (valid ≠ top.validOut ↔ o.Crosses top.queue.count.toNat mmioIsValid)

structure Tallied (m : Noting) : Prop where
  published : m.served = false →
    m.sys.regs.status = statusBits m.sys.bridge.top.full m.sys.bridge.top.validOut
  lags : m.served = true → Lags m.sys.regs.status m.sys.bridge.top m.sys.hist
  served : m.served = true → m.sys.bridge.pc.unpublished = true
  /-- a pass that has served a push serves no pop -/
  once : ∀ ctrl, m.sys.bridge.pc = .testPop ctrl true → has ctrl Kind.pop.req = false
  behind : Behind m.sys.bridge m.sys.hist
  counted : ∀ k, clocked k m.sys.hist =
    returned k m.sys.hist + (unreturned m.sys.regs m.sys.bridge.pc k).toNat

theorem length_pushedWords (log : List Report) :
    (pushedWords log).length = performed .push log := by
  induction log with
  | nil => rfl
  | cons r log ih =>
    rcases r with e | o
    · simpa [pushedWords, performed] using ih
    · cases o <;> simpa [pushedWords, performed, Outcome.kind, Outcome.answer] using ih

theorem clocked_outcomes (k : Kind) (taken : Kind → Nat) (reports : List Report)
    (hist : List Event) :
    clocked k (outcomes taken reports ++ hist) = performed k reports + clocked k hist := by
  induction reports with
  | nil => simp [outcomes, performed]
  | cons r reports ih =>
    simp only [clocked, outcomes, performed, List.countP_append] at ih ⊢
    rcases r with e | o
    · simpa using ih
    · simp only [List.filterMap_cons, List.countP_cons]
      omega

/-- A step of the bridge, whatever it reads. -/
theorem Behind.step {b : Bridge} {hist : List Event} (h : Behind b hist) (r : Regs)
    (taken : Kind → Nat) :
    Behind (bridgeStep r b).2.1 (outcomes taken (bridgeStep r b).2.2 ++ hist) := by
  obtain ⟨log, hsafe, hclocked⟩ := h
  refine ⟨log ++ (bridgeStep r b).2.2, hsafe.step r, fun k => ?_⟩
  rw [performed_append, clocked_outcomes, hclocked]
  omega

/-- The registers of the queue, in numbers. -/
theorem Behind.count {b : Bridge} {hist : List Event} (h : Behind b hist) :
    (b.top.queue.count.toNat : Int) = clocked .push hist - clocked .pop hist ∧
      b.top.queue.count.toNat ≤ 16 ∧ b.top.full = decide (b.top.queue.count.toNat = 16) ∧
      b.top.validOut = decide (b.top.queue.count.toNat ≠ 0) := by
  obtain ⟨log, hsafe, hclocked⟩ := h
  have hwords := length_pushedWords log
  have hle := hsafe.popped_le
  have hpush := hclocked .push
  have hpop := hclocked .pop
  have hcount : b.top.queue.count.toNat =
      ((pushedWords log).drop (performed .pop log)).length := hsafe.holds.count_eq
  have hlength := hsafe.holds.length_le
  refine ⟨?_, by omega, ?_, ?_⟩
  · rw [List.length_drop] at hcount
    omega
  · rw [Bool.eq_iff_iff, decide_eq_true_iff, hcount]
    exact hsafe.holds.full_iff
  · rw [Bool.eq_iff_iff, decide_eq_true_iff, hcount, ← Nat.pos_iff_ne_zero]
    exact hsafe.holds.validOut_iff

/-! ## Calls and the host -/

variable {m : Noting} {s : Sys} {served : Bool} {c : Option Kind} {x : Option (Kind × Answer)}

theorem tallied_init (q : QueueCore 16 32) (d : Distributor) (a : Arbiter) :
    Tallied ⟨Sys.init (boot q d a), false⟩ where
  published _ := by
    have queue := (boot_spec q d a).2
    simp [Sys.init, zeroed, VtbTaskQueue.full, VtbTaskQueue.validOut, queue, QueueCore.full,
      QueueCore.validOut, statusBits]
  lags e := by cases e
  served e := by cases e
  once ctrl e := by cases e
  behind := ⟨_, safe_start q d a, fun k => by cases k <;> rfl⟩
  counted k := by
    cases k <;> simp [Sys.init, zeroed, clocked, returned, unreturned, Pc.phase, has]

theorem Tallied.call (h : Tallied ⟨s, served⟩) (call : Call) : Tallied ⟨s.call call, served⟩ := by
  obtain ⟨regs, host, bridge, posted, taken, hist⟩ := s
  cases host with
  | idle => exact ⟨h.published, h.lags, h.served, h.once, h.behind, h.counted⟩
  | _ => exact h

/-- A step of the host that leaves `ACK`, `STATUS` and the history alone. -/
theorem Tallied.goto {regs regs' : Regs} {host host' : HostPc} {bridge : Bridge}
    {posted posted' taken : Kind → Nat} {hist : List Event}
    (h : Tallied ⟨⟨regs, host, bridge, posted, taken, hist⟩, served⟩)
    (hr : regs'.ack = regs.ack ∧ regs'.status = regs.status) :
    Tallied ⟨⟨regs', host', bridge, posted', taken, hist⟩, served⟩ where
  published e := hr.2.trans (h.published e)
  lags e := by
    show Lags regs'.status _ _
    rw [hr.2]
    exact h.lags e
  served := h.served
  once := h.once
  behind := h.behind
  counted k := by
    have := h.counted k
    simp only [unreturned, hr.1] at this ⊢
    exact this

/-- While the host is at rest every performed request has been returned. -/
theorem Inv.unreturned_rest (h : Inv s c x) (hrest : s.host.phase = .rest) (k : Kind) :
    unreturned s.regs s.bridge.pc k = false := by
  have st := h.stage
  have hack := h.ack k .ok
  rw [hrest] at st
  generalize hφ : s.bridge.pc.phase = φ at st
  cases st with
  | quiet => simp [unreturned, hφ, hack]
  | early k' a => simp [unreturned, hφ, hack]

/-- A query between calls gives the right answer exactly if `STATUS` has been published as
far as the query goes. -/
theorem Tallied.readStatus {regs : Regs} {bridge : Bridge} {posted taken : Kind → Nat}
    {hist : List Event} {mask : Word}
    (h : Tallied ⟨⟨regs, .readStatus mask, bridge, posted, taken, hist⟩, served⟩)
    (inv : Inv ⟨regs, .readStatus mask, bridge, posted, taken, hist⟩ c x) (id : Nat) :
    StatusAgrees (.ret ⟨.status mask, .flag (has regs.status mask)⟩ id :: hist) ↔
      StatusAgrees hist ∧
        Published ⟨⟨regs, .readStatus mask, bridge, posted, taken, hist⟩, served⟩ .host := by
  have hreturned (k : Kind) : clocked k hist = returned k hist := by
    have := h.counted k
    rw [inv.unreturned_rest rfl k] at this
    exact this
  obtain ⟨hcount, -, hfull, hvalid⟩ := h.behind.count
  dsimp only at hcount hfull hvalid
  have hbalance : balance hist = bridge.top.queue.count.toNat := by
    rw [balance, ← hreturned, ← hreturned]
    exact hcount.symm
  have full : decide (balance hist = 16) = bridge.top.full := by
    rw [hbalance, hfull]
    exact decide_eq_decide.mpr (by exact_mod_cast Iff.rfl)
  have valid : decide (0 < balance hist) = bridge.top.validOut := by
    rw [hbalance, hvalid]
    exact decide_eq_decide.mpr (Int.natCast_pos.trans Nat.pos_iff_ne_zero)
  have query : StatusAgrees (.ret ⟨.status mask, .flag (has regs.status mask)⟩ id :: hist) ↔
      (Call.status mask = mmioIsFull → has regs.status 0x1#32 = bridge.top.full) ∧
        (Call.status mask = mmioIsValid → has regs.status 0x2#32 = bridge.top.validOut) ∧
          StatusAgrees hist := by
    rw [← full, ← valid]
    refine and_congr ?_ (and_congr ?_ Iff.rfl) <;>
    · refine forall_congr' fun hc => ?_
      obtain rfl : mask = _ := by injection hc
      exact Result.flag.injEq _ _ ▸ Iff.rfl
  have published : Published ⟨⟨regs, .readStatus mask, bridge, posted, taken, hist⟩, served⟩ .host ↔
      (served = true → ∀ o ∈ lastOutcome hist,
        ¬ o.Crosses (balance hist) (.status mask)) := Iff.rfl
  rw [query, published, hbalance]
  cases hp : served with
  | false =>
    have right : regs.status = statusBits bridge.top.full bridge.top.validOut := h.published hp
    obtain ⟨hbits₁, hbits₂⟩ := has_statusBits bridge.top.full bridge.top.validOut
    rw [right, hbits₁, hbits₂]
    simp
  | true =>
    obtain ⟨o, full', valid', hlast, hstatus, hcross₁, hcross₂⟩ := h.lags hp
    dsimp only at hlast hstatus hcross₁ hcross₂
    obtain ⟨hbits₁, hbits₂⟩ := has_statusBits full' valid'
    have distinct : mmioIsFull ≠ mmioIsValid := by decide
    have other (hf : Call.status mask ≠ mmioIsFull) (hv : Call.status mask ≠ mmioIsValid) :
        ¬ o.Crosses bridge.top.queue.count.toNat (.status mask) := by
      cases o <;> simp [Outcome.Crosses, hf, hv]
    rw [hstatus, hbits₁, hbits₂, hlast]
    by_cases hf : Call.status mask = mmioIsFull
    · simp [hf, distinct, ← hcross₁, and_comm]
    · by_cases hv : Call.status mask = mmioIsValid
      · simp [hv, distinct.symm, ← hcross₂, and_comm]
      · simp [hf, hv, other hf hv]

theorem returned_ret (k : Kind) (q : Request) (a : Answer) (out : Option Word) (id : Nat)
    (hist : List Event) :
    returned k (.ret ⟨.request q, .code a.code out⟩ id :: hist) =
      returned k hist + if q.kind = k ∧ a = .ok then 1 else 0 := by
  cases a <;> by_cases hk : q.kind = k <;>
    simp [returned, Call.kind?, Result.succeeded, Answer.code, hk]

theorem Tallied.hostStep (h : Tallied ⟨s, served⟩) (inv : Inv s c x) :
    Tallied ⟨s.hostStep, served⟩ := by
  obtain ⟨regs, host, bridge, posted, taken, hist⟩ := s
  cases host with
  | idle => exact h
  | readCtrl q =>
    obtain ⟨kind, value, timeout⟩ := q
    cases kind <;> exact h.goto ⟨rfl, rfl⟩
  | writeDataIn q ctrl => exact h.goto ⟨rfl, rfl⟩
  | writeCtrl q ctrl => exact h.goto ⟨rfl, rfl⟩
  | poll q waited =>
    have ht : q.timeout = none := inv.host
    simp only [Sys.hostStep, Mmio.hostStep, q.not_expired ht]
    cases has (read32 regs .ack) (q.kind.bit .ok) <;>
      cases has (read32 regs .ack) (q.kind.bit .refused) <;> exact h.goto ⟨rfl, rfl⟩
  | readDataOut q ack => exact h.goto ⟨rfl, rfl⟩
  | clearAck q a ack out =>
    have hx : AckIs regs.ack (some (q.kind, a)) ∧ ∀ k, bridge.pc.phase ≠ .answering k .ok := by
      have st : Stage (.acking q.kind a) bridge.pc.phase c x := inv.stage
      have hack : AckIs regs.ack x := inv.ack
      generalize bridge.pc.phase = φ at st
      cases st with
      | acked => exact ⟨hack, fun _ e => by cases e⟩
      | closing => exact ⟨hack, fun _ e => by cases e⟩
    have hcleared : AckIs (clear ack (q.kind.bit a)) none := ackIs_clear inv.host
    refine ⟨h.published, h.lags, h.served, h.once, h.behind, ?_⟩
    intro k
    have hcount := h.counted k
    have hret := returned_ret k q a out (posted q.kind) hist
    simp only [unreturned, hx.1 k .ok, hx.2 k, decide_false, Bool.false_or] at hcount
    simp only [Sys.hostStep, Mmio.hostStep, unreturned, write32, hcleared k .ok, hx.2 k, decide_false,
      Bool.false_or]
    change clocked k hist = returned k (.ret ⟨.request q, .code a.code out⟩ (posted q.kind) :: hist) + _
    rw [hret, hcount]
    by_cases hk : q.kind = k ∧ a = .ok <;> simp [hk]
  | readStatus mask => exact ⟨h.published, h.lags, h.served, h.once, h.behind, h.counted⟩

/-! ## The bridge -/

theorem statusAgrees_outcomes {hist : List Event} (taken : Kind → Nat) (reports : List Report) :
    StatusAgrees (outcomes taken reports ++ hist) ↔ StatusAgrees hist := by
  induction reports with
  | nil => exact Iff.rfl
  | cons r reports ih => cases r <;> exact ih

theorem returned_outcomes (k : Kind) (taken : Kind → Nat) (reports : List Report)
    (hist : List Event) : returned k (outcomes taken reports ++ hist) = returned k hist := by
  induction reports with
  | nil => rfl
  | cons r reports ih => cases r <;> exact ih

theorem outcomes_eq_nil (taken : Kind → Nat) {reports : List Report}
    (h : reports.any Report.isOutcome = false) : outcomes taken reports = [] := by
  induction reports with
  | nil => rfl
  | cons r reports ih =>
    rw [List.any_cons, Bool.or_eq_false_iff] at h
    cases r with
    | edge e => exact ih h.2
    | outcome o => cases h.1

/-- **A step of the bridge**, as far as `STATUS` goes: it writes the flags, it leaves `STATUS` and
the queue alone, or it serves a request. -/
theorem bridgeStep_cases {b : Bridge} {log : List Report} (h : Safe b log) (r : Regs) :
    (b.pc = .writeStatus ∧ (Mmio.bridgeStep r b).1.status = statusBits b.top.full b.top.validOut ∧
      (Mmio.bridgeStep r b).2 = (⟨.readCtrl, b.top⟩, [])) ∨
    (b.pc ≠ .writeStatus ∧ (Mmio.bridgeStep r b).1.status = r.status ∧
      (Mmio.bridgeStep r b).2.1.top.queue = b.top.queue ∧
      (Mmio.bridgeStep r b).2.2.any Report.isOutcome = false ∧
      (b.pc.unpublished = true → (Mmio.bridgeStep r b).2.1.pc.unpublished = true)) ∨
    (b.pc ≠ .writeStatus ∧ (Mmio.bridgeStep r b).1.status = r.status ∧
      (Mmio.bridgeStep r b).2.2.any Report.isOutcome = true ∧
      (Mmio.bridgeStep r b).2.1.pc.unpublished = true ∧
      (∀ ctrl, b.pc = .testPop ctrl true → has ctrl Kind.pop.req = true) ∧
      ((∀ ctrl, b.pc ≠ .testPop ctrl true) → b.pc.unpublished = false) ∧
      ∃ o, (∀ taken, outcomes taken (Mmio.bridgeStep r b).2.2 = [.outcome o (taken o.kind)]) ∧
        ∀ v, o = .pushed v → b.top.full = false) := by
  obtain ⟨pc, top⟩ := b
  cases pc with
  | readTbDone ctrl dataIn => exact .inr (.inl ⟨nofun, rfl, rfl, rfl, fun e => by cases e⟩)
  | testPush ctrl dataIn =>
    have push : Mmio.bridgeStep r ⟨.testPush ctrl dataIn, top⟩ = (r, testPush top ctrl dataIn) := rfl
    cases hp : has ctrl Kind.push.req
    · rw [push, testPush_none dataIn hp]
      exact .inr (.inl ⟨nofun, rfl, rfl, rfl, fun e => by cases e⟩)
    · cases hf : top.full
      · rw [push, testPush_ok dataIn hp hf]
        exact .inr (.inr ⟨nofun, rfl, rfl, rfl, nofun, fun _ => rfl, _, fun _ => rfl,
          fun _ _ => rfl⟩)
      · rw [push, testPush_refused dataIn hp hf]
        exact .inr (.inr ⟨nofun, rfl, rfl, rfl, nofun, fun _ => rfl, _, fun _ => rfl, nofun⟩)
  | testPop ctrl did =>
    have pop : Mmio.bridgeStep r ⟨.testPop ctrl did, top⟩ = (r, testPop top ctrl did) := rfl
    cases hp : has ctrl Kind.pop.req
    · rw [pop, testPop_none did hp]
      exact .inr (.inl ⟨nofun, rfl, rfl, rfl, id⟩)
    · have asked : ∀ ctrl', Pc.testPop ctrl did = .testPop ctrl' true →
          has ctrl' Kind.pop.req = true := by
        rintro ctrl' ⟨⟩
        exact hp
      have first : (∀ ctrl', Pc.testPop ctrl did ≠ .testPop ctrl' true) →
          (Pc.testPop ctrl did).unpublished = false := by
        intro hne
        cases did
        · rfl
        · exact absurd rfl (hne ctrl)
      cases hv : top.validOut
      · rw [pop, testPop_refused did hp hv]
        exact .inr (.inr ⟨nofun, rfl, rfl, rfl, asked, first, _, fun _ => rfl, nofun⟩)
      · rw [pop, testPop_ok did hp hv]
        exact .inr (.inr ⟨nofun, rfl, rfl, rfl, asked, first, _, fun _ => rfl, nofun⟩)
  | clearCtrl k a ctrl =>
    refine .inr (.inl ⟨nofun, rfl, ?_, rfl, ?_⟩) <;> cases k <;> cases a <;>
      first | rfl | exact fun _ => rfl
  | idleTick did =>
    cases did
    · have ready : Ready top := h.ready rfl
      exact .inr (.inl ⟨nofun, rfl, ready.tick.2, rfl, fun _ => rfl⟩)
    · exact .inr (.inl ⟨nofun, rfl, rfl, rfl, fun _ => rfl⟩)
  | writeStatus => exact .inl ⟨rfl, rfl, rfl⟩
  | _ => exact .inr (.inl ⟨nofun, rfl, rfl, rfl, id⟩)

theorem unreturned_of_phase {regs : Regs} {pc : Pc} {k : Kind}
    (h : pc.phase ≠ .answering k .ok) : unreturned regs pc k = has regs.ack (k.bit .ok) := by
  simp [unreturned, h]

theorem carried_ne_answering (ctrl : Word) (k : Kind) (a : Answer) :
    carried ctrl ≠ .answering k a := by
  rcases carried_cases ctrl with e | ⟨k', e, -⟩ <;> simp [e]

/-- The bridge performs the request it holds, and its answer is on the way. -/
theorem Inv.unreturned_serve {regs : Regs} {host : HostPc} {pc : Pc} {top : VtbTaskQueue}
    {posted taken : Kind → Nat} {hist : List Event} {k : Kind} {a : Answer} (pc' : Pc)
    (h : Inv ⟨regs, host, ⟨pc, top⟩, posted, taken, hist⟩ c x) (hφ : pc.phase = .holding k)
    (hpc : pc'.phase = .answering k a) (k' : Kind) :
    (if k = k' ∧ a = .ok then 1 else 0) + (unreturned regs pc k').toNat =
      (unreturned regs pc' k').toNat := by
  have st : Stage host.phase (.holding k) c x := hφ ▸ h.stage
  obtain ⟨-, -, rfl⟩ := st.of_holding
  have hack : has regs.ack (k'.bit .ok) = false := h.ack k' .ok
  by_cases hk : k = k' ∧ a = .ok <;> simp [unreturned, hφ, hpc, hack, hk]

/-- What a step of the bridge performs is what it adds to the answers on the way. -/
theorem Inv.unreturned_step (h : Inv s c x) (k : Kind) :
    performed k (Mmio.bridgeStep s.regs s.bridge).2.2 + (unreturned s.regs s.bridge.pc k).toNat =
      (unreturned (Mmio.bridgeStep s.regs s.bridge).1
        (Mmio.bridgeStep s.regs s.bridge).2.1.pc k).toNat := by
  obtain ⟨regs, host, ⟨pc, top⟩, posted, taken, hist⟩ := s
  have none : performed k [] = 0 := rfl
  cases pc with
  | readCtrl =>
    simp only [Mmio.bridgeStep, none, Nat.zero_add]
    rw [unreturned_of_phase, unreturned_of_phase]
    · exact carried_ne_answering _ _ _
    · simp [Pc.phase]
  | readDataIn | readAck | readStatus => exact Nat.zero_add _
  | readTbDone ctrl dataIn =>
    have e : read32 regs .tbDone = 0 := h.running
    simp only [Mmio.bridgeStep, e, none, Nat.zero_add]
    rfl
  | testPush ctrl dataIn =>
    cases hp : has ctrl Kind.push.req
    · simp only [Mmio.bridgeStep, testPush_none dataIn hp, none, Nat.zero_add]
      rw [unreturned_of_phase, unreturned_of_phase]
      · simp only [Pc.phase]
        split <;> simp
      · exact carried_ne_answering _ _ _
    · have hφ : (Pc.testPush ctrl dataIn).phase = .holding .push := by simp [Pc.phase, carried, hp]
      cases hf : top.full
      · simp only [Mmio.bridgeStep, testPush_ok dataIn hp hf]
        rw [← h.unreturned_serve (.answerRead .push .ok ctrl) hφ rfl k]
        cases k <;> rfl
      · simp only [Mmio.bridgeStep, testPush_refused dataIn hp hf]
        rw [← h.unreturned_serve (.answerRead .push .refused ctrl) hφ rfl k]
        cases k <;> rfl
  | testPop ctrl did =>
    cases hp : has ctrl Kind.pop.req
    · simp only [Mmio.bridgeStep, testPop_none did hp, none, Nat.zero_add]
      rw [unreturned_of_phase, unreturned_of_phase] <;> simp [Pc.phase, hp]
    · have hφ : (Pc.testPop ctrl did).phase = .holding .pop := by simp [Pc.phase, hp]
      cases hv : top.validOut
      · simp only [Mmio.bridgeStep, testPop_refused did hp hv]
        rw [← h.unreturned_serve (.answerRead .pop .refused ctrl) hφ rfl k]
        cases k <;> rfl
      · simp only [Mmio.bridgeStep, testPop_ok did hp hv]
        rw [← h.unreturned_serve (.writeDataOut ctrl _) hφ rfl k]
        cases k <;> rfl
  | writeDataOut ctrl popped => exact Nat.zero_add _
  | answerRead k' a ctrl => exact Nat.zero_add _
  | answerWrite k' a ctrl newAck =>
    obtain ⟨-, -, rfl⟩ := h.stage.of_answering
    have hack : has regs.ack (k.bit .ok) = false := h.ack k .ok
    have hnew := h.bridge.2 k .ok
    simp only [Mmio.bridgeStep, unreturned, write32, none, hack, hnew, Nat.zero_add]
    by_cases hk : k' = k ∧ a = .ok <;> simp [Pc.phase, hk]
  | clearCtrl k' a ctrl =>
    have hafter : (answered top ctrl k' a).pc.phase ≠ .answering k .ok := by
      cases k' <;> cases a <;> simp [answered, Pc.phase] <;> split <;> simp
    simp only [Mmio.bridgeStep, none, Nat.zero_add]
    rw [unreturned_of_phase hafter, unreturned_of_phase (by simp [Pc.phase])]
    rfl
  | idleTick did => cases did <;> exact Nat.zero_add _
  | writeStatus => exact Nat.zero_add _
  | exited => exact Nat.zero_add _

/-- A served request leaves `STATUS` as it was before it. -/
theorem lags_serve {status : Word} {top top' : VtbTaskQueue} {hist : List Event} {o : Outcome}
    (id : Nat) {pc pc' : Pc} (h : Behind ⟨pc, top⟩ hist)
    (h' : Behind ⟨pc', top'⟩ (.outcome o id :: hist))
    (published : status = statusBits top.full top.validOut)
    (room : ∀ v, o = .pushed v → top.full = false) : Lags status top' (.outcome o id :: hist) := by
  obtain ⟨hcount, hle, hfull, hvalid⟩ := h.count
  obtain ⟨hcount', -, hfull', hvalid'⟩ := h'.count
  dsimp only at hcount hle hfull hvalid hcount' hfull' hvalid'
  rw [clocked_outcome, clocked_outcome] at hcount'
  have distinct : mmioIsFull ≠ mmioIsValid := by decide
  refine ⟨o, top.full, top.validOut, rfl, published, ?_⟩
  rw [hfull] at room
  rw [hfull, hvalid, hfull', hvalid']
  generalize top.queue.count.toNat = m at hcount hle room
  generalize top'.queue.count.toNat = m' at hcount'
  cases o with
  | pushed v =>
    have notFull : m ≠ 16 := by simpa using room v rfl
    simp only [Outcome.kind, Outcome.answer, and_self, if_true, reduceCtorEq, false_and, if_false,
      Nat.add_zero] at hcount'
    obtain rfl : m' = m + 1 := by omega
    simp only [Outcome.Crosses, distinct, distinct.symm, true_and, false_and, or_false, false_or,
      ne_eq, decide_eq_decide]
    omega
  | popped w =>
    simp only [Outcome.kind, Outcome.answer, and_self, if_true, reduceCtorEq, false_and, if_false,
      Nat.add_zero] at hcount'
    obtain rfl : m = m' + 1 := by omega
    simp only [Outcome.Crosses, distinct, distinct.symm, true_and, false_and, or_false, false_or,
      ne_eq, decide_eq_decide]
    omega
  | pushRefused | popRefused =>
    simp only [Outcome.answer, reduceCtorEq, and_false, if_false, Nat.add_zero] at hcount'
    obtain rfl : m' = m := by omega
    simp [Outcome.Crosses]

/-- The note after a step of the bridge. -/
theorem next_served (hpc : s.bridge.pc ≠ .writeStatus) :
    ((⟨s, served⟩ : Noting).next .bridge).served =
      (served || (Mmio.bridgeStep s.regs s.bridge).2.2.any Report.isOutcome) := by
  show (if s.bridge.pc = .writeStatus then false else _) = _
  rw [if_neg hpc]

/-- A pass that has served a push had no other request. -/
theorem once_step (inv : Inv s c x) :
    ∀ ctrl, s.bridgeStep.bridge.pc = .testPop ctrl true → has ctrl Kind.pop.req = false := by
  intro ctrl e
  obtain ⟨regs, host, ⟨pc, top⟩, posted, taken, hist⟩ := s
  cases pc with
  | clearCtrl k a ctrl' =>
    have single : has ctrl' k.other.req = false := inv.bridge
    cases k
    · cases e
      exact single
    · cases a <;> cases e
  | readTbDone ctrl' dataIn =>
    simp only [Sys.bridgeStep, Mmio.bridgeStep] at e
    split at e <;> cases e
  | testPush ctrl' dataIn =>
    simp only [Sys.bridgeStep, Mmio.bridgeStep, testPush] at e
    split at e
    · split at e <;> cases e
    · cases e
  | testPop ctrl' did =>
    simp only [Sys.bridgeStep, Mmio.bridgeStep, testPop] at e
    split at e
    · split at e <;> cases e
    · cases e
  | idleTick did => cases did <;> cases e
  | _ => cases e

theorem counted_step (h : Tallied ⟨s, served⟩) (inv : Inv s c x) (k : Kind) :
    clocked k s.bridgeStep.hist =
      returned k s.bridgeStep.hist + (unreturned s.bridgeStep.regs s.bridgeStep.bridge.pc k).toNat := by
  have hcount := h.counted k
  have hstep := inv.unreturned_step k
  change clocked k (outcomes s.taken (Mmio.bridgeStep s.regs s.bridge).2.2 ++ s.hist) =
    returned k (outcomes s.taken (Mmio.bridgeStep s.regs s.bridge).2.2 ++ s.hist) +
      (unreturned (Mmio.bridgeStep s.regs s.bridge).1
        (Mmio.bridgeStep s.regs s.bridge).2.1.pc k).toNat
  rw [clocked_outcomes, returned_outcomes, hcount]
  dsimp only
  omega

theorem Tallied.bridgeStep (h : Tallied ⟨s, served⟩) (inv : Inv s c x) :
    Tallied ((⟨s, served⟩ : Noting).next .bridge) := by
  have behind : Behind s.bridgeStep.bridge s.bridgeStep.hist := h.behind.step _ _
  have once := once_step inv
  have counted := counted_step h inv
  have hist : s.bridgeStep.hist =
      outcomes s.taken (Mmio.bridgeStep s.regs s.bridge).2.2 ++ s.hist := rfl
  obtain ⟨log, hsafe, -⟩ := h.behind
  rcases bridgeStep_cases hsafe s.regs with
    ⟨hpc, hstatus, hstep⟩ | ⟨hpc, hstatus, hqueue, hquiet, hcarry⟩ |
    ⟨hpc, hstatus, hserves, hunpub, hasked, hfirst, o, hout, hroom⟩
  · have note : ((⟨s, served⟩ : Noting).next .bridge).served = false := if_pos hpc
    refine ⟨fun _ => ?_, fun e => ?_, fun e => ?_, once, behind, counted⟩
    · show (Mmio.bridgeStep s.regs s.bridge).1.status = _
      rw [hstatus]
      show _ = statusBits (Mmio.bridgeStep s.regs s.bridge).2.1.top.full
        (Mmio.bridgeStep s.regs s.bridge).2.1.top.validOut
      rw [hstep]
    all_goals
      rw [note] at e
      cases e
  · have note : ((⟨s, served⟩ : Noting).next .bridge).served = served := by
      rw [next_served hpc, hquiet, Bool.or_false]
    have full : s.bridgeStep.bridge.top.full = s.bridge.top.full := congrArg QueueCore.full hqueue
    have valid : s.bridgeStep.bridge.top.validOut = s.bridge.top.validOut :=
      congrArg QueueCore.validOut hqueue
    have count : s.bridgeStep.bridge.top.queue.count = s.bridge.top.queue.count :=
      congrArg QueueCore.count hqueue
    rw [outcomes_eq_nil s.taken hquiet, List.nil_append] at hist
    refine ⟨fun e => ?_, fun e => ?_, fun e => ?_, once, behind, counted⟩ <;> rw [note] at e
    · show s.bridgeStep.regs.status = statusBits s.bridgeStep.bridge.top.full _
      exact full ▸ valid ▸ hstatus.trans (h.published e)
    · show Lags s.bridgeStep.regs.status s.bridgeStep.bridge.top s.bridgeStep.hist
      obtain ⟨o, full', valid', hlast, hlags, hcross⟩ := h.lags e
      rw [hist]
      refine ⟨o, full', valid', hlast, hstatus.trans hlags, ?_⟩
      rw [full, valid, count]
      exact hcross
    · exact hcarry (h.served e)
  · have first : served = false := by
      refine Bool.eq_false_iff.mpr fun e => ?_
      have unpub := h.served e
      have hne : ∀ ctrl, s.bridge.pc ≠ .testPop ctrl true := by
        intro ctrl hctrl
        have := h.once ctrl hctrl
        rw [hasked ctrl hctrl] at this
        cases this
      rw [hfirst hne] at unpub
      cases unpub
    have note : ((⟨s, served⟩ : Noting).next .bridge).served = true := by
      rw [next_served hpc, hserves, Bool.or_true]
    have hist' : s.bridgeStep.hist = .outcome o (s.taken o.kind) :: s.hist := by
      rw [hist, hout]
      rfl
    refine ⟨fun e => ?_, fun _ => ?_, fun _ => hunpub, once, behind, counted⟩
    · rw [note] at e
      cases e
    · show Lags s.bridgeStep.regs.status s.bridgeStep.bridge.top s.bridgeStep.hist
      rw [hist'] at behind ⊢
      refine lags_serve _ h.behind behind (hstatus.trans ?_) hroom
      exact h.published first

/-! ## The theorem -/

theorem Tallied.next (h : Tallied m) (inv : Inv m.sys c x) (a : Action) : Tallied (m.next a) := by
  cases a with
  | call call => exact h.call call
  | host => exact h.hostStep inv
  | bridge => exact h.bridgeStep inv

/-- One step: a query is answered rightly exactly if it meets the condition. -/
theorem Tallied.statusAgrees_next (h : Tallied m) (inv : Inv m.sys c x) (a : Action) :
    StatusAgrees (m.sys.next a).hist ↔ StatusAgrees m.sys.hist ∧ Published m a := by
  obtain ⟨⟨regs, host, bridge, posted, taken, hist⟩, served⟩ := m
  have silent {p : Prop} : p ↔ p ∧ True := (and_true p).symm.to_iff
  cases a with
  | call call => cases host <;> exact silent
  | bridge => exact (statusAgrees_outcomes _ _).trans silent
  | host =>
    cases host with
    | readStatus mask => exact h.readStatus inv _
    | readCtrl q =>
      obtain ⟨kind, value, timeout⟩ := q
      cases kind <;> exact silent
    | poll q waited =>
      have ht : q.timeout = none := inv.host
      simp only [Sys.next, Sys.hostStep, Mmio.hostStep, q.not_expired ht]
      cases has (read32 regs .ack) (q.kind.bit .ok) <;>
        cases has (read32 regs .ack) (q.kind.bit .refused) <;> exact silent
    | clearAck q a ack out =>
      -- the return of a request is no query
      have full : Call.request q ≠ mmioIsFull := fun e => by cases e
      have valid : Call.request q ≠ mmioIsValid := fun e => by cases e
      simp [Sys.next, Sys.hostStep, Mmio.hostStep, StatusAgrees, Published, full, valid]
    | _ => exact silent

/-- **Status queries.**  In a run of patient calls in which the host never writes `CTRL` while a
clearing is due, all queries agree with the calls that have returned exactly if none reads
`STATUS` after a request that has changed the answer and before the bridge has written it. -/
theorem statusAgrees_iff_published (q : QueueCore 16 32) (d : Distributor) (a : Arbiter)
    (as : List Action) (patient : ∀ a ∈ as, a.Patient)
    (undisturbed : Guarded Sys.next Undisturbed (Sys.init (boot q d a)) as) :
    (∀ n, StatusAgrees (run Sys.next (Sys.init (boot q d a)) (as.take n)).hist) ↔
      Guarded Noting.next Published ⟨Sys.init (boot q d a), false⟩ as := by
  have prefixes : ∀ {m : Noting} {as : List Action}, (∃ c x, Inv m.sys c x) → Tallied m →
      Guarded Sys.next (fun s a => Undisturbed s a ∧ a.Patient) m.sys as → StatusAgrees m.sys.hist →
      ((∀ n, StatusAgrees (run Sys.next m.sys (as.take n)).hist) ↔
        Guarded Noting.next Published m as) := by
    intro m as inv h g agrees
    induction as generalizing m with
    | nil => exact iff_of_true (fun n => by simpa using agrees) trivial
    | cons a as ih =>
      obtain ⟨c, x, inv⟩ := inv
      have step := h.statusAgrees_next inv a
      have rest := ih (m := m.next a) (inv.next g.1) (h.next inv a) g.2
      constructor
      · intro all
        have one : StatusAgrees (m.sys.next a).hist := all 1
        exact ⟨(step.mp one).2, (rest one).mp fun n => all (n + 1)⟩
      · rintro ⟨now, later⟩ n
        have one : StatusAgrees (m.sys.next a).hist := step.mpr ⟨agrees, now⟩
        cases n with
        | zero => exact agrees
        | succ n => exact (rest one).mpr later n
  exact prefixes ⟨none, none, inv_init _⟩ (tallied_init q d a)
    (undisturbed.and_forall_mem patient) trivial

/-- A push that is answered and published before the host asks. -/
def pushThenValid : List Action :=
  [.call (mmioPush 1 none), .host, .host, .host] ++ List.replicate 12 .bridge ++
    [.host, .host, .call mmioIsValid, .host]

theorem statusAgrees_pushThenValid :
    (run Sys.next (Sys.init bootZero) pushThenValid).hist.head? =
        some (.ret ⟨mmioIsValid, .flag true⟩ 0) ∧
      ∀ n, StatusAgrees (run Sys.next (Sys.init bootZero) (pushThenValid.take n)).hist :=
  ⟨by decide, (statusAgrees_iff_published ⟨fun _ => 0, 0, 0, 0⟩ ⟨false, 0, 0⟩ ⟨0, 0, false⟩
    pushThenValid (by decide) (by decide)).mpr (by decide)⟩

/-- The host has its answer and asks before the bridge has written `STATUS`. -/
def earlyValid : List Action :=
  [.call (mmioPush 1 none), .host, .host, .host] ++ List.replicate 8 .bridge ++
    [.host, .host, .call mmioIsValid, .host]

theorem not_statusAgrees_earlyValid :
    (∀ a ∈ earlyValid, a.Patient) ∧
      ¬ StatusAgrees (run Sys.next (Sys.init bootZero) earlyValid).hist := by
  refine ⟨by decide, fun h => ?_⟩
  have e : (run Sys.next (Sys.init bootZero) earlyValid).hist =
      [.ret ⟨mmioIsValid, .flag false⟩ 0, .start mmioIsValid, .ret ⟨mmioPush 1 none, .code 0 none⟩ 1,
        .outcome (.pushed 1) 1, .start (mmioPush 1 none)] := by
    decide
  rw [e] at h
  have := h.2.1 rfl
  revert this
  decide

end TaskQueueCoSim.Mmio
