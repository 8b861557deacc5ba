import TaskQueueCoSim.Lib.Machine
import TaskQueueCoSim.Mmio.Bridge
import TaskQueueCoSim.Mmio.Driver

/-!
# Host and bridge over one region

Host and bridge take turns in any order, one register access at a time.  An
action that does not apply, such as a call while one is under way, changes
nothing, so every list of actions is a run.

The history records calls, outcomes and returns, newest first.  Requests of one
kind are numbered as the host sets their bit in `CTRL`; `taken k` is the number
of the request whose bit the bridge has last seen, and an outcome carries the
number of the request it is about.
-/

namespace TaskQueueCoSim.Mmio

open Flags Machine

inductive Event where
  | start (c : Call)
  | outcome (o : Outcome) (id : Nat)
  /-- `id` numbers the call's own request. -/
  | ret (x : Return) (id : Nat)
  deriving DecidableEq, Repr

structure Sys where
  regs : Regs
  host : HostPc
  bridge : Bridge
  posted : Kind → Nat
  taken : Kind → Nat
  hist : List Event

inductive Action where
  | call (c : Call)
  | host
  | bridge
  deriving DecidableEq, Repr

/-- The kind of request a step of the host sets in `CTRL`. -/
def HostPc.posts : HostPc → Option Kind
  | writeCtrl q _ => some q.kind
  | _ => none

def Sys.call (s : Sys) (c : Call) : Sys :=
  match s.host with
  | .idle => { s with host := c.entry, hist := .start c :: s.hist }
  | _ => s

def Sys.hostStep (s : Sys) : Sys :=
  let (r, pc, x) := Mmio.hostStep s.regs s.host
  { s with
    regs := r, host := pc
    posted := match s.host.posts with
      | none => s.posted
      | some k => Function.update s.posted k (s.posted k + 1)
    hist := match x with
      | none => s.hist
      | some x => .ret x (x.call.kind?.elim 0 s.posted) :: s.hist }

def outcomes (taken : Kind → Nat) (reports : List Report) : List Event :=
  reports.filterMap fun
    | .outcome o => some (.outcome o (taken o.kind))
    | .edge _ => none

def Sys.bridgeStep (s : Sys) : Sys :=
  let (r, b, reports) := Mmio.bridgeStep s.regs s.bridge
  { s with
    regs := r, bridge := b
    taken := match s.bridge.pc with
      | .readCtrl => fun k => if has s.regs.ctrl k.req then s.posted k else s.taken k
      | _ => s.taken
    hist := outcomes s.taken reports ++ s.hist }

def Sys.next (s : Sys) : Action → Sys
  | .call c => s.call c
  | .host => s.hostStep
  | .bridge => s.bridgeStep

/-- Zeroed registers, the bridge at the top of its loop, no call under way. -/
def Sys.init (top : VtbTaskQueue) : Sys where
  regs := zeroed
  host := .idle
  bridge := ⟨.readCtrl, top⟩
  posted := fun _ => 0
  taken := fun _ => 0
  hist := []

/-- The bridge has read `CTRL` with the request's bit set in this pass through
its loop and has not yet written the answer. -/
def Pc.owes (k : Kind) : Pc → Bool
  | readDataIn ctrl | readAck ctrl _ | readStatus ctrl _ | readTbDone ctrl _ | testPush ctrl _ =>
    has ctrl k.req
  | testPop ctrl _ => k = .pop && has ctrl k.req
  | writeDataOut _ _ => k = .pop
  | answerRead k' _ ctrl | answerWrite k' _ ctrl _ => k = k' || (k = .pop && has ctrl k.req)
  | clearCtrl k' _ ctrl => k' = .push && k = .pop && has ctrl k.req
  | _ => false

/-! ## Reading the history -/

/-- How many calls of a kind were made. -/
def calls (k : Kind) (hist : List Event) : Nat :=
  hist.countP fun
    | .start c => c.kind? = some k
    | _ => false

/-- The numbers of the requests of a kind that were performed or refused. -/
def served (k : Kind) (hist : List Event) : List Nat :=
  hist.filterMap fun
    | .outcome o id => if o.kind = k then some id else none
    | _ => none

/-- How many operations of a kind were clocked into the queue. -/
def clocked (k : Kind) (hist : List Event) : Nat :=
  hist.countP fun
    | .outcome o _ => o.kind = k ∧ o.answer = .ok
    | _ => false

theorem clocked_outcome (k : Kind) (o : Outcome) (id : Nat) (hist : List Event) :
    clocked k (.outcome o id :: hist) =
      clocked k hist + if o.kind = k ∧ o.answer = .ok then 1 else 0 := by
  simp only [clocked, List.countP_cons, decide_eq_true_eq]

/-- What has happened since the last call was made. -/
def during : List Event → List Event
  | [] => []
  | .start _ :: _ => []
  | e :: hist => e :: during hist

end TaskQueueCoSim.Mmio
