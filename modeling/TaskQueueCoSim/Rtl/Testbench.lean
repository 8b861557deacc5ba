import TaskQueueCoSim.Rtl.Dispatch

/-!
# The testbench `tb_task_queue.v` as the harnesses drive it

`VtbTaskQueue` is the model class Verilator generates: the ports a harness
assigns, the values of `always_comb`, the clock of the last `eval`, and the
registers of the three modules.  `eval` clocks the registers when `clk` has
risen since the last `eval` and then settles `always_comb`; `tick` is one full
clock, the same in both harnesses.

`tick_queue` says what a tick does to the queue: one edge that samples the host
ports as they stood before the tick.
-/

namespace TaskQueueCoSim

open Fifo

structure VtbTaskQueue where
  clk : Bool
  reset : Bool
  hostMode : Bool
  hostPushReq : Bool
  hostDataIn : Word
  hostPopReq : Bool
  clkLast : Bool
  pushReq : Bool
  dataIn : Word
  popReq : Bool
  queue : QueueCore 16 32
  distributor : Distributor
  arbiter : Arbiter

namespace VtbTaskQueue

def full (top : VtbTaskQueue) : Bool := top.queue.full

def validOut (top : VtbTaskQueue) : Bool := top.queue.validOut

def dataOut (top : VtbTaskQueue) : Word := top.queue.dataOut

/-- The three `always_ff` blocks. -/
def sequent (top : VtbTaskQueue) : VtbTaskQueue :=
  { top with
    queue := top.queue.posedge ⟨top.reset, top.pushReq, top.popReq, top.dataIn⟩
    distributor := top.distributor.posedge top.reset top.validOut top.dataOut true
    arbiter := top.arbiter.posedge top.reset top.validOut }

/-- `always_comb`: the host ports drive the queue when `host_mode` is set. -/
def combo (top : VtbTaskQueue) : VtbTaskQueue :=
  if top.hostMode then
    { top with pushReq := top.hostPushReq, dataIn := top.hostDataIn, popReq := top.hostPopReq }
  else
    { top with pushReq := false, dataIn := 0, popReq := false }

def eval (top : VtbTaskQueue) : VtbTaskQueue :=
  let top := if top.clk && !top.clkLast then top.sequent else top
  { top.combo with clkLast := top.clk }

/-- The model as both `main`s set it up, with whatever the registers hold at
power-on: the initial signals and the first `eval`. -/
def powerOn (queue : QueueCore 16 32) (distributor : Distributor) (arbiter : Arbiter) :
    VtbTaskQueue :=
  eval { clk := false, reset := true, hostMode := true, hostPushReq := false,
         hostDataIn := 0, hostPopReq := false, clkLast := false,
         pushReq := false, dataIn := 0, popReq := false, queue, distributor, arbiter }

/-- The falling half of a tick. -/
def fall (top : VtbTaskQueue) : VtbTaskQueue := eval { top with clk := false }

def tick (top : VtbTaskQueue) : VtbTaskQueue := eval { top.fall with clk := true }

/-- What the queue sees at the rising edge of a tick. -/
structure Edge where
  pushReq : Bool
  popReq : Bool
  full : Bool
  validOut : Bool
  deriving DecidableEq, Repr

def edge (top : VtbTaskQueue) : Edge :=
  ⟨top.fall.pushReq, top.fall.popReq, top.fall.full, top.fall.validOut⟩

/-- The host ports as a cycle of the queue. -/
def cycle (top : VtbTaskQueue) : ClockCycle Word :=
  ⟨top.reset, top.hostMode && top.hostPushReq, top.hostMode && top.hostPopReq,
    if top.hostMode then top.hostDataIn else 0⟩

@[simp] theorem tick_queue (top : VtbTaskQueue) :
    top.tick.queue = top.queue.posedge top.cycle := by
  cases h : top.hostMode <;> simp [tick, fall, eval, combo, sequent, cycle, h]

/-- A tick moves no port. -/
@[simp] theorem tick_ports (top : VtbTaskQueue) :
    top.tick.reset = top.reset ∧ top.tick.hostMode = top.hostMode ∧
      top.tick.hostPushReq = top.hostPushReq ∧ top.tick.hostDataIn = top.hostDataIn ∧
      top.tick.hostPopReq = top.hostPopReq := by
  cases h : top.hostMode <;> simp [tick, fall, eval, combo, sequent, h]

theorem edge_eq (top : VtbTaskQueue) :
    top.edge = ⟨top.cycle.push, top.cycle.pop, top.full, top.validOut⟩ := by
  cases h : top.hostMode <;> simp [edge, fall, eval, combo, cycle, full, validOut, h]

/-! ## Port assignments of the harnesses -/

def raisePush (top : VtbTaskQueue) (v : Word) : VtbTaskQueue :=
  { top with hostDataIn := v, hostPushReq := true }

def lowerPush (top : VtbTaskQueue) : VtbTaskQueue := { top with hostPushReq := false }

def raisePop (top : VtbTaskQueue) : VtbTaskQueue := { top with hostPopReq := true }

def lowerPop (top : VtbTaskQueue) : VtbTaskQueue := { top with hostPopReq := false }

/-- The ports as every harness keeps them between operations. -/
structure Ready (top : VtbTaskQueue) : Prop where
  reset : top.reset = false
  hostMode : top.hostMode = true
  hostPushReq : top.hostPushReq = false
  hostPopReq : top.hostPopReq = false

theorem cycle_host {t : VtbTaskQueue} (hr : t.reset = false) (hm : t.hostMode = true) :
    t.cycle = ⟨false, t.hostPushReq, t.hostPopReq, t.hostDataIn⟩ := by
  simp [cycle, hr, hm]

section Ready

variable {top : VtbTaskQueue}

/-- An idle tick between operations. -/
theorem Ready.tick (h : Ready top) : Ready top.tick ∧ top.tick.queue = top.queue := by
  have e := cycle_host h.reset h.hostMode
  rw [h.hostPushReq, h.hostPopReq] at e
  refine ⟨⟨?_, ?_, ?_, ?_⟩, ?_⟩ <;> simp [h.reset, h.hostMode, h.hostPushReq, h.hostPopReq, e]

/-- A tick with the push line raised clocks one push into the queue. -/
theorem Ready.push_tick (h : Ready top) (v : Word) :
    (top.raisePush v).tick.queue = top.queue.posedge ⟨false, true, false, v⟩ := by
  have e := cycle_host (t := top.raisePush v) h.reset h.hostMode
  rw [tick_queue, e]
  simp [raisePush, h.hostPopReq]

/-- What the queue sees at the edge of an idle tick, of a push and of a pop. -/
theorem Ready.idle_edge (h : Ready top) : top.edge = ⟨false, false, top.full, top.validOut⟩ := by
  rw [edge_eq, cycle_host h.reset h.hostMode, h.hostPushReq, h.hostPopReq]

theorem Ready.push_edge (h : Ready top) (v : Word) :
    (top.raisePush v).edge = ⟨true, false, top.full, top.validOut⟩ := by
  have e := cycle_host (t := top.raisePush v) h.reset h.hostMode
  rw [edge_eq, e]
  simp [raisePush, h.hostPopReq, full, validOut]

theorem Ready.pop_edge (h : Ready top) :
    top.raisePop.edge = ⟨false, true, top.full, top.validOut⟩ := by
  have e := cycle_host (t := top.raisePop) h.reset h.hostMode
  rw [edge_eq, e]
  simp [raisePop, h.hostPushReq, full, validOut]

/-- Lowering the push line after its tick restores the resting ports. -/
theorem Ready.push_done (h : Ready top) (v : Word) : Ready (top.raisePush v).tick.lowerPush := by
  constructor <;> simp [lowerPush, raisePush, h.reset, h.hostMode, h.hostPopReq]

/-- A tick with the pop line raised clocks one pop into the queue. -/
theorem Ready.pop_tick (h : Ready top) :
    top.raisePop.tick.queue = top.queue.posedge ⟨false, false, true, top.hostDataIn⟩ := by
  have e := cycle_host (t := top.raisePop) h.reset h.hostMode
  rw [tick_queue, e]
  simp [raisePop, h.hostPushReq]

theorem Ready.pop_done (h : Ready top) : Ready top.raisePop.tick.lowerPop := by
  constructor <;> simp [lowerPop, raisePop, h.reset, h.hostMode, h.hostPushReq]

end Ready

end VtbTaskQueue

end TaskQueueCoSim
