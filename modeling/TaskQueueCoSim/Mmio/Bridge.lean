import TaskQueueCoSim.Mmio.Registers
import TaskQueueCoSim.Rtl.Testbench

/-!
# The MMIO bridge, `sw/sw_hw/verilator_main.cpp`

The bridge is modelled twice.

* `iteration` is the body of its loop run without interruption: the state is the
  register region and the testbench, and the functions follow the two branches
  of the source.
* `Pc` and `bridgeStep` are the same loop one register access at a time, for a
  host that may touch the registers in between.  A program counter carries the
  local variables still in use.  Testing a request and clocking the testbench
  touch no register and are steps of their own.

Both report what they do to the queue as a list of `Report`s.
`iteration_reaches` ties them together: left alone at the top of the loop, the
machine does exactly one `iteration`.
-/

namespace TaskQueueCoSim.Mmio

open Flags VtbTaskQueue

/-- What the bridge did about a request.  `popped` carries the word it samples
for `DATA_OUT`. -/
inductive Outcome where
  | pushed (v : Word)
  | pushRefused
  | popped (w : Word)
  | popRefused
  deriving DecidableEq, Repr

def Outcome.kind : Outcome → Kind
  | pushed _ => .push
  | pushRefused => .push
  | popped _ => .pop
  | popRefused => .pop

def Outcome.answer : Outcome → Answer
  | pushed _ => .ok
  | pushRefused => .refused
  | popped _ => .ok
  | popRefused => .refused

/-- A rising clock edge, or the outcome of a request. -/
inductive Report where
  | edge (e : Edge)
  | outcome (o : Outcome)
  deriving DecidableEq, Repr

/-- How many requests of a kind the queue has performed. -/
def performed (k : Kind) (log : List Report) : Nat :=
  log.countP fun
    | .outcome o => o.kind = k ∧ o.answer = .ok
    | .edge _ => false

/-- The words pushed, in order. -/
def pushedWords (log : List Report) : List Word :=
  log.filterMap fun
    | .outcome (.pushed v) => some v
    | _ => none

@[simp] theorem performed_append (k : Kind) (log log' : List Report) :
    performed k (log ++ log') = performed k log + performed k log' := by
  simp [performed]

@[simp] theorem pushedWords_append (log log' : List Report) :
    pushedWords (log ++ log') = pushedWords log ++ pushedWords log' := by
  simp [pushedWords]

/-! ## The loop body as one function -/

structure Bench where
  regs : Regs
  top : VtbTaskQueue
  exited : Bool
  log : List Report

/-- `new_ack = ACK; new_ack |= bit; ACK = new_ack`, then the request's bit is
cleared in the local `ctrl` and that written back. -/
def answer (regs : Regs) (k : Kind) (a : Answer) (ctrl : Word) : Regs :=
  let newAck := read32 regs .ack ||| k.bit a
  let regs := write32 regs .ack newAck
  write32 regs .ctrl (clear ctrl k.req)

/-- `if (ctrl & 0x1)`: the state after the branch and whether it was taken. -/
def pushBranch (ctrl dataIn : Word) (s : Bench) : Bench × Bool :=
  if has ctrl Kind.push.req then
    if s.top.full then
      ({ s with regs := answer s.regs .push .refused ctrl,
                log := s.log ++ [.outcome .pushRefused] }, true)
    else
      let up := s.top.raisePush dataIn
      ({ s with regs := answer s.regs .push .ok ctrl, top := up.tick.lowerPush,
                log := s.log ++ [.edge up.edge, .outcome (.pushed dataIn)] }, true)
  else (s, false)

/-- `if (ctrl & 0x2)`, with the same local `ctrl`. -/
def popBranch (ctrl : Word) (s : Bench) : Bench × Bool :=
  if has ctrl Kind.pop.req then
    if !s.top.validOut then
      ({ s with regs := answer s.regs .pop .refused ctrl,
                log := s.log ++ [.outcome .popRefused] }, true)
    else
      let up := s.top.raisePop
      -- sampled after the edge
      let popped := up.tick.dataOut
      let regs := write32 s.regs .dataOut popped
      ({ s with regs := answer regs .pop .ok ctrl, top := up.tick.lowerPop,
                log := s.log ++ [.edge up.edge, .outcome (.popped popped)] }, true)
  else (s, false)

/-- The idle tick, if nothing was done, and the new `STATUS`. -/
def finish (didSomething : Bool) (s : Bench) : Bench :=
  let s :=
    if !didSomething then { s with top := s.top.tick, log := s.log ++ [.edge s.top.edge] }
    else s
  { s with regs := write32 s.regs .status (statusBits s.top.full s.top.validOut) }

/-- One pass through the loop; `exited` once `TB_DONE` was seen. -/
def iteration (s : Bench) : Bench :=
  if s.exited then s
  else
    let ctrl := read32 s.regs .ctrl
    let dataIn := read32 s.regs .dataIn
    let tbDone := read32 s.regs .tbDone
    if tbDone ≠ 0 then { s with exited := true }
    else
      let (s, didPush) := pushBranch ctrl dataIn s
      let (s, didPop) := popBranch ctrl s
      finish (didPush || didPop) s

def iterations : Nat → Bench → Bench
  | 0, s => s
  | n + 1, s => iterations n (iteration s)

/-! ## The loop body one access at a time -/

inductive Pc where
  | readCtrl
  | readDataIn (ctrl : Word)
  | readAck (ctrl dataIn : Word)
  | readStatus (ctrl dataIn : Word)
  | readTbDone (ctrl dataIn : Word)
  | testPush (ctrl dataIn : Word)
  | testPop (ctrl : Word) (didSomething : Bool)
  | writeDataOut (ctrl popped : Word)
  | answerRead (k : Kind) (a : Answer) (ctrl : Word)
  | answerWrite (k : Kind) (a : Answer) (ctrl newAck : Word)
  | clearCtrl (k : Kind) (a : Answer) (ctrl : Word)
  | idleTick (didSomething : Bool)
  | writeStatus
  | exited
  deriving DecidableEq, Repr

structure Bridge where
  pc : Pc
  top : VtbTaskQueue

def testPush (top : VtbTaskQueue) (ctrl dataIn : Word) : Bridge × List Report :=
  if has ctrl Kind.push.req then
    if top.full then (⟨.answerRead .push .refused ctrl, top⟩, [.outcome .pushRefused])
    else
      let up := top.raisePush dataIn
      (⟨.answerRead .push .ok ctrl, up.tick.lowerPush⟩,
        [.edge up.edge, .outcome (.pushed dataIn)])
  else (⟨.testPop ctrl false, top⟩, [])

def testPop (top : VtbTaskQueue) (ctrl : Word) (didSomething : Bool) : Bridge × List Report :=
  if has ctrl Kind.pop.req then
    if !top.validOut then (⟨.answerRead .pop .refused ctrl, top⟩, [.outcome .popRefused])
    else
      let up := top.raisePop
      (⟨.writeDataOut ctrl up.tick.dataOut, up.tick⟩,
        [.edge up.edge, .outcome (.popped up.tick.dataOut)])
  else (⟨.idleTick didSomething, top⟩, [])

section Tests

variable {top : VtbTaskQueue} {ctrl : Word} (dataIn : Word) (did : Bool)

theorem testPush_none (h : has ctrl Kind.push.req = false) :
    testPush top ctrl dataIn = (⟨.testPop ctrl false, top⟩, []) := by
  simp [testPush, h]

theorem testPush_refused (h : has ctrl Kind.push.req = true) (hf : top.full = true) :
    testPush top ctrl dataIn =
      (⟨.answerRead .push .refused ctrl, top⟩, [.outcome .pushRefused]) := by
  simp [testPush, h, hf]

theorem testPush_ok (h : has ctrl Kind.push.req = true) (hf : top.full = false) :
    testPush top ctrl dataIn =
      (⟨.answerRead .push .ok ctrl, (top.raisePush dataIn).tick.lowerPush⟩,
        [.edge (top.raisePush dataIn).edge, .outcome (.pushed dataIn)]) := by
  simp [testPush, h, hf]

theorem testPop_none (h : has ctrl Kind.pop.req = false) :
    testPop top ctrl did = (⟨.idleTick did, top⟩, []) := by
  simp [testPop, h]

theorem testPop_refused (h : has ctrl Kind.pop.req = true) (hv : top.validOut = false) :
    testPop top ctrl did = (⟨.answerRead .pop .refused ctrl, top⟩, [.outcome .popRefused]) := by
  simp [testPop, h, hv]

theorem testPop_ok (h : has ctrl Kind.pop.req = true) (hv : top.validOut = true) :
    testPop top ctrl did =
      (⟨.writeDataOut ctrl top.raisePop.tick.dataOut, top.raisePop.tick⟩,
        [.edge top.raisePop.edge, .outcome (.popped top.raisePop.tick.dataOut)]) := by
  simp [testPop, h, hv]

end Tests

/-- Where the loop goes on once a request is answered; `host_pop_req` stays high
until then. -/
def answered (top : VtbTaskQueue) (ctrl : Word) : Kind → Answer → Bridge
  | .push, _ => ⟨.testPop ctrl true, top⟩
  | .pop, .refused => ⟨.idleTick true, top⟩
  | .pop, .ok => ⟨.idleTick true, top.lowerPop⟩

def bridgeStep (r : Regs) (b : Bridge) : Regs × Bridge × List Report :=
  match b.pc with
  | .readCtrl => (r, ⟨.readDataIn (read32 r .ctrl), b.top⟩, [])
  | .readDataIn ctrl => (r, ⟨.readAck ctrl (read32 r .dataIn), b.top⟩, [])
  | .readAck ctrl dataIn => (r, ⟨.readStatus ctrl dataIn, b.top⟩, [])
  | .readStatus ctrl dataIn => (r, ⟨.readTbDone ctrl dataIn, b.top⟩, [])
  | .readTbDone ctrl dataIn =>
    (r, ⟨if read32 r .tbDone ≠ 0 then .exited else .testPush ctrl dataIn, b.top⟩, [])
  | .testPush ctrl dataIn => (r, testPush b.top ctrl dataIn)
  | .testPop ctrl did => (r, testPop b.top ctrl did)
  | .writeDataOut ctrl popped =>
    (write32 r .dataOut popped, ⟨.answerRead .pop .ok ctrl, b.top⟩, [])
  | .answerRead k a ctrl => (r, ⟨.answerWrite k a ctrl (read32 r .ack ||| k.bit a), b.top⟩, [])
  | .answerWrite k a ctrl newAck => (write32 r .ack newAck, ⟨.clearCtrl k a ctrl, b.top⟩, [])
  | .clearCtrl k a ctrl => (write32 r .ctrl (clear ctrl k.req), answered b.top ctrl k a, [])
  | .idleTick did =>
    if did then (r, ⟨.writeStatus, b.top⟩, [])
    else (r, ⟨.writeStatus, b.top.tick⟩, [.edge b.top.edge])
  | .writeStatus =>
    (write32 r .status (statusBits b.top.full b.top.validOut), ⟨.readCtrl, b.top⟩, [])
  | .exited => (r, b, [])

/-! ## Start-up -/

/-- The testbench before the tick that follows the four ticks of reset. -/
def bootReset (queue : QueueCore 16 32) (distributor : Distributor) (arbiter : Arbiter) :
    VtbTaskQueue :=
  { (powerOn queue distributor arbiter).tick.tick.tick.tick with reset := false }

def boot (queue : QueueCore 16 32) (distributor : Distributor) (arbiter : Arbiter) :
    VtbTaskQueue :=
  (bootReset queue distributor arbiter).tick

/-- The loop starts with the ports at rest, the pointers and `count` zero, and
the memory as it was at power-on. -/
theorem boot_spec (q : QueueCore 16 32) (d : Distributor) (a : Arbiter) :
    Ready (boot q d a) ∧ (boot q d a).queue = { q with head := 0, tail := 0, count := 0 } := by
  have hon : (powerOn q d a).reset = true ∧ (powerOn q d a).hostMode = true ∧
      (powerOn q d a).hostPushReq = false ∧ (powerOn q d a).hostPopReq = false ∧
      (powerOn q d a).queue = q := ⟨rfl, rfl, rfl, rfl, rfl⟩
  obtain ⟨hreset, hmode, hpush, hpop, hq⟩ := hon
  have hready : Ready (bootReset q d a) :=
    ⟨rfl, by simp [bootReset, hmode], by simp [bootReset, hpush], by simp [bootReset, hpop]⟩
  have hqueue : (bootReset q d a).queue = { q with head := 0, tail := 0, count := 0 } := by
    simp [bootReset, cycle, QueueCore.posedge, hreset, hq]
  exact ⟨hready.tick.1, hready.tick.2.trans hqueue⟩

/-- The testbench as the loop finds it after the reset, over zeroed memory. -/
def bootZero : VtbTaskQueue :=
  boot ⟨fun _ => 0, 0, 0, 0⟩ ⟨false, 0, 0⟩ ⟨0, 0, false⟩

/-! ## The machine left alone runs iterations -/

abbrev Config := Regs × Bridge × List Report

/-- One step with nobody else touching the registers. -/
def stepAlone (c : Config) : Config :=
  let (r, b, reports) := bridgeStep c.1 c.2.1
  (r, b, c.2.2 ++ reports)

def Reaches (c d : Config) : Prop := ∃ n, stepAlone^[n] c = d

theorem Reaches.refl (c : Config) : Reaches c c := ⟨0, rfl⟩

theorem Reaches.trans {c d e : Config} (h : Reaches c d) (h' : Reaches d e) : Reaches c e := by
  obtain ⟨n, hn⟩ := h
  obtain ⟨m, hm⟩ := h'
  exact ⟨m + n, by rw [Function.iterate_add_apply, hn, hm]⟩

section Steps

variable {r r' : Regs} {b b' : Bridge} {log reports : List Report} {d : Config}

theorem Reaches.next (h : bridgeStep r b = (r', b', reports))
    (hd : Reaches (r', b', log ++ reports) d) : Reaches (r, b, log) d := by
  obtain ⟨n, hn⟩ := hd
  have e : stepAlone (r, b, log) = (r', b', log ++ reports) := by simp [stepAlone, h]
  exact ⟨n + 1, by rw [Function.iterate_succ_apply, e, hn]⟩

/-- A step that reports nothing. -/
theorem Reaches.silent (h : bridgeStep r b = (r', b', [])) (hd : Reaches (r', b', log) d) :
    Reaches (r, b, log) d :=
  .next h (by simpa using hd)

end Steps

/-- The machine at `pc` in the state of `s`. -/
def Bench.at (s : Bench) (pc : Pc) : Config := (s.regs, ⟨pc, s.top⟩, s.log)

theorem reads_reaches (s : Bench) (ht : s.regs.tbDone = 0) :
    Reaches (s.at .readCtrl) (s.at (.testPush s.regs.ctrl s.regs.dataIn)) :=
  .silent rfl <| .silent rfl <| .silent rfl <| .silent rfl <|
    .silent (by simp [bridgeStep, read32, ht]) (.refl _)

/-- Answering takes three steps: read `ACK`, write it back, clear the request. -/
theorem answer_reaches (r : Regs) (top : VtbTaskQueue) (log : List Report) (k : Kind) (a : Answer)
    (ctrl : Word) :
    Reaches (r, ⟨.answerRead k a ctrl, top⟩, log) (answer r k a ctrl, answered top ctrl k a, log) :=
  .silent rfl <| .silent rfl <| .silent rfl (.refl _)

theorem pushBranch_reaches (s : Bench) (ctrl dataIn : Word) :
    Reaches (s.at (.testPush ctrl dataIn))
      ((pushBranch ctrl dataIn s).1.at (.testPop ctrl (pushBranch ctrl dataIn s).2)) := by
  cases hp : has ctrl Kind.push.req
  case false =>
    have e : pushBranch ctrl dataIn s = (s, false) := by simp [pushBranch, hp]
    rw [e]
    exact .silent (by simp only [bridgeStep, testPush_none dataIn hp]) (.refl _)
  case true =>
    cases hf : s.top.full
    case true =>
      simp only [pushBranch, hp, hf, if_true]
      exact .next (by simp only [bridgeStep, testPush_refused dataIn hp hf]) (answer_reaches ..)
    case false =>
      simp only [pushBranch, hp, hf, if_true, Bool.false_eq_true, if_false]
      exact .next (by simp only [bridgeStep, testPush_ok dataIn hp hf]) (answer_reaches ..)

theorem popBranch_reaches (s : Bench) (ctrl : Word) (did : Bool) :
    Reaches (s.at (.testPop ctrl did))
      ((popBranch ctrl s).1.at (.idleTick (did || (popBranch ctrl s).2))) := by
  cases hp : has ctrl Kind.pop.req
  case false =>
    have e : popBranch ctrl s = (s, false) := by simp [popBranch, hp]
    rw [e, Bool.or_false]
    exact .silent (by simp only [bridgeStep, testPop_none did hp]) (.refl _)
  case true =>
    cases hv : s.top.validOut
    case false =>
      simp only [popBranch, hp, hv, if_true, Bool.not_false, Bool.or_true]
      exact .next (by simp only [bridgeStep, testPop_refused did hp hv]) (answer_reaches ..)
    case true =>
      simp only [popBranch, hp, hv, if_true, Bool.not_true, Bool.false_eq_true, if_false,
        Bool.or_true]
      have e : bridgeStep s.regs ⟨.testPop ctrl did, s.top⟩ = (s.regs,
          ⟨.writeDataOut ctrl s.top.raisePop.tick.dataOut, s.top.raisePop.tick⟩,
            [.edge s.top.raisePop.edge, .outcome (.popped s.top.raisePop.tick.dataOut)]) := by
        simp only [bridgeStep, testPop_ok did hp hv]
      exact .next e (.silent rfl (answer_reaches ..))

/-- The end of the loop body. -/
theorem rest_reaches (s : Bench) (did : Bool) :
    Reaches (s.at (.idleTick did)) ((finish did s).at .readCtrl) := by
  cases did
  · exact .next rfl (.silent rfl (.refl _))
  · exact .silent rfl (.silent rfl (.refl _))

/-- **Left alone, the machine runs iterations.**  From the top of the loop it
comes back to it after one `iteration`. -/
theorem iteration_reaches (s : Bench) (he : s.exited = false) (ht : s.regs.tbDone = 0) :
    Reaches (s.at .readCtrl) ((iteration s).at .readCtrl) := by
  have e : iteration s =
      let (s', didPush) := pushBranch s.regs.ctrl s.regs.dataIn s
      let (s', didPop) := popBranch s.regs.ctrl s'
      finish (didPush || didPop) s' := by
    simp [iteration, he, read32, ht]
  rw [e]
  exact (reads_reaches s ht).trans <| (pushBranch_reaches s _ _).trans <|
    (popBranch_reaches _ _ _).trans (rest_reaches _ _)

end TaskQueueCoSim.Mmio
