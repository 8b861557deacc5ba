import TaskQueueCoSim.Rtl.Delivery

/-!
# The testbench `tb_task_queue.v` as the sources have it

`VtbTaskQueue` keeps the outputs of `always_comb` as the last `eval` left them, and clocks the
registers with what it kept.  In `TbTaskQueue` they are wires, functions of the ports, and a
rising clock finds them at what the ports make of them.

A harness assigns the ports one by one, and the testbench sees them with the next `eval`
(`Driven`).  If nothing but the clock changes when it rises (`Settled`), what is kept is what
the wires have: `follows_run`.  `settled_ticks` says that a harness that assigns ports and
ticks, as both `main`s do, is one of this kind.
-/

namespace TaskQueueCoSim

open Fifo Machine

structure Ports where
  clk : Bool
  reset : Bool
  hostMode : Bool
  hostPushReq : Bool
  hostDataIn : Word
  hostPopReq : Bool
  deriving DecidableEq, Repr

structure TbTaskQueue where
  ports : Ports
  tbDone : Bool
  queue : QueueCore 16 32
  distributor : Distributor
  arbiter : Arbiter

namespace TbTaskQueue

/-- `initial tb_done = 1'b0`; the registers hold anything. -/
def initial (ports : Ports) (queue : QueueCore 16 32) (distributor : Distributor)
    (arbiter : Arbiter) : TbTaskQueue :=
  ⟨ports, false, queue, distributor, arbiter⟩

variable (tb : TbTaskQueue)

def full : Bool := tb.queue.full

def validOut : Bool := tb.queue.validOut

def dataOut : Word := tb.queue.dataOut

/-! `always_comb` -/

def pushReq : Bool := if tb.ports.hostMode then tb.ports.hostPushReq else false

def dataIn : Word := if tb.ports.hostMode then tb.ports.hostDataIn else 0

def popReq : Bool := if tb.ports.hostMode then tb.ports.hostPopReq else false

/-- The three `always_ff` blocks. -/
def posedge : TbTaskQueue :=
  { tb with
    queue := tb.queue.posedge ⟨tb.ports.reset, tb.pushReq, tb.popReq, tb.dataIn⟩
    distributor := tb.distributor.posedge tb.ports.reset tb.validOut tb.dataOut true
    arbiter := tb.arbiter.posedge tb.ports.reset tb.validOut }

/-- The ports change to `p`. -/
def drive (p : Ports) : TbTaskQueue :=
  if p.clk && !tb.ports.clk then { tb with ports := p }.posedge else { tb with ports := p }

end TbTaskQueue

/-! ## What a harness does to a model -/

/-- Assigning a port, or calling `eval`. -/
inductive Stimulus where
  | clk (b : Bool)
  | reset (b : Bool)
  | hostMode (b : Bool)
  | hostPushReq (b : Bool)
  | hostPopReq (b : Bool)
  | hostDataIn (w : Word)
  | tbDone (b : Bool)
  | eval
  deriving DecidableEq, Repr

/-- The testbench, and the ports as they have been assigned. -/
structure Driven where
  assigned : Ports
  tb : TbTaskQueue

def Ports.assign (p : Ports) : Stimulus → Ports
  | .clk b => { p with clk := b }
  | .reset b => { p with reset := b }
  | .hostMode b => { p with hostMode := b }
  | .hostPushReq b => { p with hostPushReq := b }
  | .hostPopReq b => { p with hostPopReq := b }
  | .hostDataIn w => { p with hostDataIn := w }
  | .tbDone _ | .eval => p

/-- The testbench gives `tb_done` a value at the start alone, so what is assigned to it stays. -/
def Driven.stimulate (s : Driven) : Stimulus → Driven
  | .eval => { s with tb := s.tb.drive s.assigned }
  | .tbDone b => { s with tb := { s.tb with tbDone := b } }
  | d => { s with assigned := s.assigned.assign d }

/-- The initial signals of both `main`s and their first `eval`. -/
def Driven.powerOn (queue : QueueCore 16 32) (distributor : Distributor) (arbiter : Arbiter) :
    Driven :=
  ⟨⟨false, true, true, false, 0, false⟩,
    .initial ⟨false, true, true, false, 0, false⟩ queue distributor arbiter⟩

/-- Nothing but the clock changes when it rises. -/
def Settled (s : Driven) : Stimulus → Prop
  | .eval => s.assigned.clk = true → s.tb.ports.clk = false →
      s.assigned = { s.tb.ports with clk := true }
  | _ => True

instance Settled.decidable (s : Driven) (d : Stimulus) : Decidable (Settled s d) :=
  match d with
  | .eval => inferInstanceAs (Decidable (_ → _))
  | .clk _ | .reset _ | .hostMode _ | .hostPushReq _ | .hostPopReq _ | .hostDataIn _ | .tbDone _ =>
    isTrue trivial

/-- `tick` of a harness. -/
def tickStimuli : List Stimulus := [.clk false, .eval, .clk true, .eval]

theorem settled_tick (s : Driven) : Guarded Driven.stimulate Settled s tickStimuli := by
  refine ⟨trivial, fun rises => ?_, trivial, fun _ _ => ?_, trivial⟩
  · cases rises
  · rfl

theorem settled_assignments {ds : List Stimulus} (h : .eval ∉ ds) (s : Driven) :
    Guarded Driven.stimulate Settled s ds := by
  induction ds generalizing s with
  | nil => trivial
  | cons d ds ih =>
    refine ⟨?_, ih (fun hd => h (List.mem_cons_of_mem _ hd)) _⟩
    cases d with
    | eval => exact absurd List.mem_cons_self h
    | _ => trivial

/-- **A harness that assigns ports and ticks** changes nothing else when the clock rises. -/
theorem settled_ticks {assignments : List (List Stimulus)} (h : ∀ ds ∈ assignments, .eval ∉ ds)
    (s : Driven) :
    Guarded Driven.stimulate Settled s (assignments.flatMap (· ++ tickStimuli)) := by
  induction assignments generalizing s with
  | nil => trivial
  | cons ds rest ih =>
    rw [List.flatMap_cons, List.append_assoc, guarded_append, guarded_append]
    exact ⟨settled_assignments (h ds List.mem_cons_self) s, settled_tick _,
      ih (fun ds' hd => h ds' (List.mem_cons_of_mem _ hd)) _⟩

/-! ## The schedule of the generated class -/

namespace VtbTaskQueue

/-- The testbench reads `tb_done` nowhere. -/
def stimulate (top : VtbTaskQueue) : Stimulus → VtbTaskQueue
  | .clk b => { top with clk := b }
  | .reset b => { top with reset := b }
  | .hostMode b => { top with hostMode := b }
  | .hostPushReq b => { top with hostPushReq := b }
  | .hostPopReq b => { top with hostPopReq := b }
  | .hostDataIn w => { top with hostDataIn := w }
  | .tbDone _ => top
  | .eval => top.eval

/-- A tick of a harness is four of these steps. -/
theorem tick_eq_stimulate (top : VtbTaskQueue) : top.tick = run stimulate top tickStimuli := rfl

def ports (top : VtbTaskQueue) : Ports :=
  ⟨top.clk, top.reset, top.hostMode, top.hostPushReq, top.hostDataIn, top.hostPopReq⟩

/-- What is kept is what the wires of the testbench have. -/
structure Follows (top : VtbTaskQueue) (s : Driven) : Prop where
  ports : top.ports = s.assigned
  clkLast : top.clkLast = s.tb.ports.clk
  pushReq : top.pushReq = s.tb.pushReq
  dataIn : top.dataIn = s.tb.dataIn
  popReq : top.popReq = s.tb.popReq
  queue : top.queue = s.tb.queue
  distributor : top.distributor = s.tb.distributor
  arbiter : top.arbiter = s.tb.arbiter

theorem follows_powerOn (queue : QueueCore 16 32) (distributor : Distributor) (arbiter : Arbiter) :
    Follows (powerOn queue distributor arbiter) (.powerOn queue distributor arbiter) :=
  ⟨rfl, rfl, rfl, rfl, rfl, rfl, rfl, rfl⟩

variable {top : VtbTaskQueue} {s : Driven}

theorem combo_eq (top : VtbTaskQueue) : top.combo =
    { top with
      pushReq := if top.hostMode then top.hostPushReq else false
      dataIn := if top.hostMode then top.hostDataIn else 0
      popReq := if top.hostMode then top.hostPopReq else false } := by
  unfold combo
  cases top.hostMode <;> rfl

/-- At the end of an `eval` the wires are kept, whatever was kept before. -/
theorem follows_combo (top : VtbTaskQueue) (tb : TbTaskQueue) (hp : top.ports = tb.ports)
    (hq : top.queue = tb.queue) (hd : top.distributor = tb.distributor)
    (ha : top.arbiter = tb.arbiter) :
    Follows { top.combo with clkLast := top.clk } ⟨tb.ports, tb⟩ := by
  obtain ⟨ports, tbDone, queue, distributor, arbiter⟩ := tb
  subst hp hq hd ha
  rw [combo_eq]
  exact ⟨rfl, rfl, rfl, rfl, rfl, rfl, rfl, rfl⟩

/-- The registers are clocked with what the wires have. -/
theorem Follows.sequent (h : Follows top s) (e : s.assigned = { s.tb.ports with clk := true }) :
    top.sequent.queue = (TbTaskQueue.posedge { s.tb with ports := s.assigned }).queue ∧
      top.sequent.distributor =
        (TbTaskQueue.posedge { s.tb with ports := s.assigned }).distributor ∧
      top.sequent.arbiter = (TbTaskQueue.posedge { s.tb with ports := s.assigned }).arbiter := by
  have reset : top.reset = s.assigned.reset := congrArg Ports.reset h.ports
  simp only [VtbTaskQueue.sequent, TbTaskQueue.posedge, VtbTaskQueue.validOut, VtbTaskQueue.dataOut,
    reset, h.pushReq, h.dataIn, h.popReq, h.queue, h.distributor, h.arbiter, e]
  exact ⟨rfl, rfl, rfl⟩

theorem Follows.eval (h : Follows top s) (settled : Settled s .eval) :
    Follows top.eval (s.stimulate .eval) := by
  have clk : top.clk = s.assigned.clk := congrArg Ports.clk h.ports
  unfold VtbTaskQueue.eval Driven.stimulate TbTaskQueue.drive
  rw [← clk, ← h.clkLast]
  by_cases rising : (top.clk && !top.clkLast) = true
  · rw [if_pos rising, if_pos rising]
    rw [Bool.and_eq_true, Bool.not_eq_true', clk, h.clkLast] at rising
    obtain ⟨hq, hd, ha⟩ := h.sequent (settled rising.1 rising.2)
    exact follows_combo top.sequent (.posedge { s.tb with ports := s.assigned }) h.ports hq hd ha
  · rw [if_neg rising, if_neg rising]
    exact follows_combo top { s.tb with ports := s.assigned } h.ports h.queue h.distributor
      h.arbiter

theorem Follows.stimulate (h : Follows top s) (d : Stimulus) (settled : Settled s d) :
    Follows (top.stimulate d) (s.stimulate d) := by
  have ports (hd : d ≠ .eval) : (top.stimulate d).ports = s.assigned.assign d := by
    rw [← h.ports]
    cases d <;> first | rfl | exact absurd rfl hd
  cases d with
  | eval => exact h.eval settled
  | tbDone b =>
    exact ⟨h.ports, h.clkLast, h.pushReq, h.dataIn, h.popReq, h.queue, h.distributor, h.arbiter⟩
  | clk b | reset b | hostMode b | hostPushReq b | hostPopReq b | hostDataIn w =>
    exact ⟨ports nofun, h.clkLast, h.pushReq, h.dataIn, h.popReq, h.queue, h.distributor, h.arbiter⟩

/-- **The schedule is that of the sources**, in every run in which nothing but the clock changes
when it rises. -/
theorem follows_run (queue : QueueCore 16 32) (distributor : Distributor) (arbiter : Arbiter)
    {ds : List Stimulus} (settled : Guarded Driven.stimulate Settled
      (.powerOn queue distributor arbiter) ds) :
    Follows (run stimulate (powerOn queue distributor arbiter) ds)
      (run Driven.stimulate (.powerOn queue distributor arbiter) ds) :=
  run_related_guarded (fun _ _ d h => h.stimulate d) (follows_powerOn queue distributor arbiter)
    settled

/-! ## Cycles -/

/-- What a harness assigns before it ticks. -/
def HostInput.assignments (i : HostInput) : List Stimulus :=
  [.reset i.reset, .hostMode i.hostMode, .hostPushReq i.hostPushReq, .hostDataIn i.hostDataIn,
    .hostPopReq i.hostPopReq]

def HostInput.stimuli (is : List HostInput) : List Stimulus :=
  (is.map assignments).flatMap (· ++ tickStimuli)

theorem run_clock (top : VtbTaskQueue) (is : List HostInput) :
    run clock top is = run stimulate top (HostInput.stimuli is) := by
  induction is generalizing top with
  | nil => rfl
  | cons i is ih =>
    have cycle : top.clock i = run stimulate top (i.assignments ++ tickStimuli) := by
      rw [run_append, ← tick_eq_stimulate]
      rfl
    rw [run_cons, ih, cycle, ← run_append]
    rfl

/-- **Clocked with any ports** the testbench has the registers of the sources. -/
theorem follows_clocks (queue : QueueCore 16 32) (distributor : Distributor) (arbiter : Arbiter)
    (is : List HostInput) :
    Follows (run clock (powerOn queue distributor arbiter) is)
      (run Driven.stimulate (.powerOn queue distributor arbiter) (HostInput.stimuli is)) := by
  rw [run_clock]
  refine follows_run _ _ _ (settled_ticks (fun ds hds => ?_) _)
  obtain ⟨i, -, rfl⟩ := List.mem_map.mp hds
  exact nofun

end VtbTaskQueue

end TaskQueueCoSim
