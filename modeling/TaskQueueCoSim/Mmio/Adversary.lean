import TaskQueueCoSim.Lib.Machine
import TaskQueueCoSim.Mmio.Bridge

/-!
# The bridge against arbitrary registers

The bridge is run with a fresh register region for every step, so that every
value it reads is arbitrary.  `Safe` is the invariant of such a run: the ports
are at rest except for `host_pop_req` between a pop and the end of its branch,
and the queue holds the words pushed less the words popped.  `sampledWords` says what
the pushed words are: those that the bridge has read from `DATA_IN` in the same
pass.  The main theorem `adversary_safe` reads off both what no client can bring
about.
-/

namespace TaskQueueCoSim.Mmio

open Flags Machine VtbTaskQueue

/-- One step of the bridge over registers that anybody may have written. -/
def adversaryStep (s : Bridge × List Report) (r : Regs) : Bridge × List Report :=
  let (_, b, reports) := bridgeStep r s.1
  (b, s.2 ++ reports)

/-- The loop after the reset sequence, whose last edge comes with reset low. -/
def adversaryStart (q : QueueCore 16 32) (d : Distributor) (a : Arbiter) :
    Bridge × List Report :=
  (⟨.readCtrl, boot q d a⟩, [.edge (bootReset q d a).edge])

/-- `host_pop_req` is high from the tick of a pop to the end of its branch. -/
def popHigh : Pc → Bool
  | .writeDataOut _ _ => true
  | .answerRead .pop .ok _ => true
  | .answerWrite .pop .ok _ _ => true
  | .clearCtrl .pop .ok _ => true
  | _ => false

/-- What a rising edge must never show. -/
structure Clean (e : Edge) : Prop where
  exclusive : ¬ (e.pushReq = true ∧ e.popReq = true)
  push : e.pushReq = true → e.full = false
  pop : e.popReq = true → e.validOut = true

structure Safe (b : Bridge) (log : List Report) : Prop where
  reset : b.top.reset = false
  hostMode : b.top.hostMode = true
  hostPushReq : b.top.hostPushReq = false
  hostPopReq : b.top.hostPopReq = popHigh b.pc
  clean : ∀ e, .edge e ∈ log → Clean e
  popped_le : performed .pop log ≤ (pushedWords log).length
  holds : b.top.queue.Represents ((pushedWords log).drop (performed .pop log)) 0

variable {b : Bridge} {log : List Report}

theorem Safe.ready (h : Safe b log) (hp : popHigh b.pc = false) : Ready b.top :=
  ⟨h.reset, h.hostMode, h.hostPushReq, h.hostPopReq.trans hp⟩

/-- A step that only moves the program counter. -/
theorem Safe.goto (h : Safe b log) (pc : Pc) (hp : popHigh pc = popHigh b.pc) :
    Safe ⟨pc, b.top⟩ log :=
  ⟨h.reset, h.hostMode, h.hostPushReq, h.hostPopReq.trans hp.symm, h.clean, h.popped_le, h.holds⟩

/-- A step that reports a refusal. -/
theorem Safe.refuse (h : Safe b log) {o : Outcome} (ho : o.answer = .refused) (pc : Pc)
    (hp : popHigh pc = popHigh b.pc) : Safe ⟨pc, b.top⟩ (log ++ [.outcome o]) := by
  have hn (k : Kind) : performed k [.outcome o] = 0 := by simp [performed, ho]
  have hw : pushedWords [.outcome o] = [] := by
    cases o <;> first | rfl | simp [Outcome.answer] at ho
  refine ⟨h.reset, h.hostMode, h.hostPushReq, h.hostPopReq.trans hp.symm, ?_, ?_, ?_⟩
  · simpa using h.clean
  · simpa [hn, hw] using h.popped_le
  · simpa [hn, hw] using h.holds

/-- A tick, with what it and the outcome behind it do to the log. -/
theorem Safe.clean_snoc (h : Safe b log) {e : Edge} (he : Clean e) (o : Outcome) :
    ∀ e', .edge e' ∈ log ++ [.edge e, .outcome o] → Clean e' := by
  intro e' he'
  rcases List.mem_append.mp he' with he' | he'
  · exact h.clean e' he'
  · have : e' = e := by simpa using he'
    rw [this]
    exact he

/-- A push is clocked only when the queue is not full. -/
theorem Safe.testPush {top : VtbTaskQueue} {ctrl dataIn : Word}
    (h : Safe ⟨.testPush ctrl dataIn, top⟩ log) :
    Safe (testPush top ctrl dataIn).1 (log ++ (testPush top ctrl dataIn).2) := by
  have ready : Ready top := h.ready rfl
  cases hp : has ctrl Kind.push.req
  case false =>
    rw [testPush_none dataIn hp, List.append_nil]
    exact h.goto (.testPop ctrl false) rfl
  case true =>
    cases hf : top.full
    case true =>
      rw [testPush_refused dataIn hp hf]
      exact h.refuse (o := .pushRefused) rfl (.answerRead .push .refused ctrl) rfl
    case false =>
      rw [testPush_ok dataIn hp hf]
      have hle := h.popped_le
      have room : ((pushedWords log).drop (performed .pop log)).length < 16 := by
        have := h.holds.length_le
        have := mt h.holds.full_iff.mpr (by simpa [full] using hf)
        omega
      have done := ready.push_done dataIn
      have clean : Clean (top.raisePush dataIn).edge := by
        rw [ready.push_edge, hf]
        exact ⟨by simp, fun _ => rfl, by simp⟩
      have hw : pushedWords [.edge (top.raisePush dataIn).edge, .outcome (.pushed dataIn)] =
          [dataIn] := rfl
      have hn : performed .pop [.edge (top.raisePush dataIn).edge, .outcome (.pushed dataIn)] =
          0 := rfl
      refine ⟨done.reset, done.hostMode, done.hostPushReq, done.hostPopReq,
        h.clean_snoc clean _, ?_, ?_⟩
      · simp only [pushedWords_append, performed_append, hw, hn, List.length_append]
        omega
      · rw [pushedWords_append, performed_append, hw, hn, Nat.add_zero,
          List.drop_append_of_le_length hle]
        show (top.raisePush dataIn).tick.queue.Represents _ 0
        rw [ready.push_tick]
        exact h.holds.push_edge (by decide) room dataIn

/-- A pop is clocked only when the queue is not empty. -/
theorem Safe.testPop {top : VtbTaskQueue} {ctrl : Word} {did : Bool}
    (h : Safe ⟨.testPop ctrl did, top⟩ log) :
    Safe (testPop top ctrl did).1 (log ++ (testPop top ctrl did).2) := by
  have ready : Ready top := h.ready rfl
  cases hp : has ctrl Kind.pop.req
  case false =>
    rw [testPop_none did hp, List.append_nil]
    exact h.goto (.idleTick did) rfl
  case true =>
    cases hv : top.validOut
    case false =>
      rw [testPop_refused did hp hv]
      exact h.refuse (o := .popRefused) rfl (.answerRead .pop .refused ctrl) rfl
    case true =>
      rw [testPop_ok did hp hv]
      have some : performed .pop log < (pushedWords log).length := by
        have := h.holds.validOut_iff.mp (by simpa [validOut] using hv)
        rw [List.length_drop] at this
        omega
      have clean : Clean top.raisePop.edge := by
        rw [ready.pop_edge, hv]
        exact ⟨by simp, by simp, fun _ => rfl⟩
      have hw : pushedWords [.edge top.raisePop.edge, .outcome (.popped top.raisePop.tick.dataOut)] =
          [] := rfl
      have hn : performed .pop
          [.edge top.raisePop.edge, .outcome (.popped top.raisePop.tick.dataOut)] = 1 := rfl
      have ports := tick_ports top.raisePop
      refine ⟨ports.1.trans ready.reset, ports.2.1.trans ready.hostMode,
        ports.2.2.1.trans ready.hostPushReq, ports.2.2.2.2, h.clean_snoc clean _, ?_, ?_⟩
      · simp only [pushedWords_append, performed_append, hw, hn, List.length_append]
        omega
      · rw [pushedWords_append, performed_append, hw, hn, List.append_nil, ← List.tail_drop]
        show top.raisePop.tick.queue.Represents _ 0
        rw [ready.pop_tick]
        exact h.holds.pop_edge (by decide) _

/-- The idle tick changes no word. -/
theorem Safe.idleTick {top : VtbTaskQueue} (h : Safe ⟨.idleTick false, top⟩ log) :
    Safe ⟨.writeStatus, top.tick⟩ (log ++ [.edge top.edge]) := by
  have ready : Ready top := h.ready rfl
  obtain ⟨ticked, queue⟩ := ready.tick
  have hw : pushedWords [.edge top.edge] = [] := rfl
  have hn (k : Kind) : performed k [.edge top.edge] = 0 := rfl
  refine ⟨ticked.reset, ticked.hostMode, ticked.hostPushReq, ticked.hostPopReq, ?_, ?_, ?_⟩
  · intro e he
    rcases List.mem_append.mp he with he | he
    · exact h.clean e he
    · have : e = top.edge := by simpa using he
      rw [this, ready.idle_edge]
      exact ⟨by simp, by simp, by simp⟩
  · simpa [hw, hn] using h.popped_le
  · show top.tick.queue.Represents _ 0
    rw [queue]
    simpa [hw, hn] using h.holds

/-- Every step of the bridge is safe, whatever it reads. -/
theorem Safe.step (h : Safe b log) (r : Regs) :
    Safe (adversaryStep (b, log) r).1 (adversaryStep (b, log) r).2 := by
  obtain ⟨pc, top⟩ := b
  cases pc with
  | testPush ctrl dataIn => exact h.testPush
  | testPop ctrl did => exact h.testPop
  | idleTick did =>
    cases did
    · exact h.idleTick
    · simpa [adversaryStep, bridgeStep] using h.goto .writeStatus rfl
  | clearCtrl k a ctrl =>
    have quiet := h.hostPopReq
    cases k <;> cases a <;>
      simp only [adversaryStep, bridgeStep, answered, List.append_nil]
    · exact h.goto _ rfl
    · exact h.goto _ rfl
    · exact ⟨h.reset, h.hostMode, h.hostPushReq, rfl, h.clean, h.popped_le, h.holds⟩
    · exact h.goto _ rfl
  | readTbDone ctrl dataIn =>
    have hp (c : Prop) [Decidable c] :
        popHigh (if c then .exited else .testPush ctrl dataIn) = false := by
      split <;> rfl
    simpa [adversaryStep, bridgeStep] using h.goto _ (hp (read32 r .tbDone ≠ 0))
  | answerRead k a ctrl =>
    simp only [adversaryStep, bridgeStep, List.append_nil]
    exact h.goto _ (by cases k <;> cases a <;> rfl)
  | answerWrite k a ctrl newAck =>
    simp only [adversaryStep, bridgeStep, List.append_nil]
    exact h.goto _ (by cases k <;> cases a <;> rfl)
  | _ =>
    simp only [adversaryStep, bridgeStep, List.append_nil]
    exact h.goto _ rfl

theorem safe_start (q : QueueCore 16 32) (d : Distributor) (a : Arbiter) :
    Safe (adversaryStart q d a).1 (adversaryStart q d a).2 := by
  obtain ⟨ready, queue⟩ := boot_spec q d a
  have before : Ready (bootReset q d a) := ⟨rfl, rfl, rfl, rfl⟩
  refine ⟨ready.reset, ready.hostMode, ready.hostPushReq, ready.hostPopReq, ?_, Nat.le_refl _, ?_⟩
  · intro e he
    have : e = (bootReset q d a).edge := by simpa [adversaryStart] using he
    rw [this, before.idle_edge]
    exact ⟨by simp, by simp, by simp⟩
  · show (boot q d a).queue.Represents [] 0
    rw [queue]
    exact QueueCore.represents_reset (c := ⟨true, false, false, 0⟩) q rfl

/-- The pointers of a core that represents a list, in numbers. -/
theorem pointers_of_represents {core : QueueCore 16 32} {q : List Word}
    (h : core.Represents q 0) :
    core.count.toNat ≤ 16 ∧ core.tail.toNat = (core.head.toNat + core.count.toNat) % 16 := by
  have len : core.count.toNat = q.length := h.count_eq
  have le := h.length_le
  refine ⟨by omega, ?_⟩
  rw [h.tail_eq, RingMemory.ofBitVec_slot, BitVec.toNat_add, BitVec.toNat_ofNat, len]
  exact Nat.add_mod_mod ..

/-! ## Where the words come from -/

/-- The bridge reads `DATA_IN` in this step. -/
def Pc.readsDataIn : Pc → Bool
  | readDataIn _ => true
  | _ => false

/-- The words of `DATA_IN`, as the bridge reads them, in the passes whose push it performs;
`sample` is what it has read from `DATA_IN` in the pass under way. -/
def sampledWords (sample : Word) (b : Bridge) : List Regs → List Word
  | [] => []
  | r :: rs =>
    let (_, b', reports) := bridgeStep r b
    let sample := if b.pc.readsDataIn then read32 r .dataIn else sample
    List.replicate (performed .push reports) sample ++ sampledWords sample b' rs

/-- Between the read of `DATA_IN` and the test of the request the bridge keeps the word. -/
def Pc.Keeps (sample : Word) : Pc → Prop
  | readAck _ dataIn | readStatus _ dataIn | readTbDone _ dataIn | testPush _ dataIn =>
    dataIn = sample
  | _ => True

section Sampled

variable {sample : Word}

/-- A step pushes nothing, or the word that it has read. -/
theorem pushedWords_step (r : Regs) (h : b.pc.Keeps sample) :
    pushedWords (bridgeStep r b).2.2 =
      List.replicate (performed .push (bridgeStep r b).2.2)
        (if b.pc.readsDataIn then read32 r .dataIn else sample) := by
  obtain ⟨pc, top⟩ := b
  cases pc with
  | testPush ctrl dataIn =>
    obtain rfl : dataIn = sample := h
    cases hp : has ctrl Kind.push.req
    · simp only [bridgeStep, testPush_none dataIn hp]
      rfl
    · cases hf : top.full
      · simp only [bridgeStep, testPush_ok dataIn hp hf]
        rfl
      · simp only [bridgeStep, testPush_refused dataIn hp hf]
        rfl
  | testPop ctrl did =>
    cases hp : has ctrl Kind.pop.req
    · simp only [bridgeStep, testPop_none did hp]
      rfl
    · cases hv : top.validOut
      · simp only [bridgeStep, testPop_refused did hp hv]
        rfl
      · simp only [bridgeStep, testPop_ok did hp hv]
        rfl
  | idleTick did => cases did <;> rfl
  | _ => rfl

theorem keeps_step (r : Regs) (h : b.pc.Keeps sample) :
    (bridgeStep r b).2.1.pc.Keeps (if b.pc.readsDataIn then read32 r .dataIn else sample) := by
  obtain ⟨pc, top⟩ := b
  cases pc with
  | readDataIn ctrl => exact rfl
  | readAck | readStatus => exact h
  | readTbDone ctrl dataIn =>
    show (if read32 r .tbDone ≠ 0 then Pc.exited else .testPush ctrl dataIn).Keeps sample
    split
    · trivial
    · exact h
  | testPush ctrl dataIn =>
    cases hp : has ctrl Kind.push.req
    · simp only [bridgeStep, testPush_none dataIn hp]
      trivial
    · cases hf : top.full
      · simp only [bridgeStep, testPush_ok dataIn hp hf]
        trivial
      · simp only [bridgeStep, testPush_refused dataIn hp hf]
        trivial
  | testPop ctrl did =>
    cases hp : has ctrl Kind.pop.req
    · simp only [bridgeStep, testPop_none did hp]
      trivial
    · cases hv : top.validOut
      · simp only [bridgeStep, testPop_refused did hp hv]
        trivial
      · simp only [bridgeStep, testPop_ok did hp hv]
        trivial
  | idleTick did => cases did <;> trivial
  | clearCtrl k a ctrl => cases k <;> cases a <;> trivial
  | _ => trivial

/-- The words that a run pushes are those that it has read. -/
theorem pushedWords_run (h : b.pc.Keeps sample) (rs : List Regs) :
    pushedWords (run adversaryStep (b, log) rs).2 = pushedWords log ++ sampledWords sample b rs := by
  induction rs generalizing b log sample with
  | nil => exact (List.append_nil _).symm
  | cons r rs ih =>
    have later : pushedWords
        (run adversaryStep ((bridgeStep r b).2.1, log ++ (bridgeStep r b).2.2) rs).2 = _ :=
      ih (keeps_step r h)
    rw [pushedWords_append, pushedWords_step r h, List.append_assoc] at later
    exact later

end Sampled

/-! ## The theorem -/

/-- **No client can corrupt the queue.**  Whatever the bridge reads at any step,
no edge shows both requests, a push when full or a pop when empty, and the queue
holds the words of `DATA_IN` that were read in the passes that pushed, less as many
as were popped. -/
theorem adversary_safe (q : QueueCore 16 32) (d : Distributor) (a : Arbiter) (rs : List Regs) :
    let s := run adversaryStep (adversaryStart q d a) rs
    let core := s.1.top.queue
    (∀ e, .edge e ∈ s.2 → Clean e) ∧
    core.count.toNat ≤ 16 ∧
    core.tail.toNat = (core.head.toNat + core.count.toNat) % 16 ∧
    core.queue = (sampledWords 0 (adversaryStart q d a).1 rs).drop (performed .pop s.2) := by
  have h := run_invariant (I := fun s : Bridge × List Report => Safe s.1 s.2)
    (fun _ r hs => hs.step r) (safe_start q d a) rs
  have words : pushedWords (run adversaryStep (adversaryStart q d a) rs).2 =
      sampledWords 0 (adversaryStart q d a).1 rs :=
    pushedWords_run (b := (adversaryStart q d a).1) trivial rs
  obtain ⟨count, tail⟩ := pointers_of_represents h.holds
  refine ⟨h.clean, count, tail, ?_⟩
  rw [← words]
  exact h.holds.queue_eq

end TaskQueueCoSim.Mmio
