import TaskQueueCoSim.Mmio.Registers

/-!
# The host driver, `sw/src/task_queue_mmio.c`

A call of the driver as a program counter with the local variables still in
use, and `hostStep`, which runs it from one register access to the next.
`mmioPush` and `mmioPop` differ in the data they move and in the bits they use,
and share the rest.  A timeout of `none` stands for a caller who keeps polling.
-/

namespace TaskQueueCoSim.Mmio

open Flags

/-- The arguments of `mmio_push` or `mmio_pop`; a pop has no use for `value`. -/
structure Request where
  kind : Kind
  value : Word
  timeout : Option Int
  deriving DecidableEq, Repr

inductive Call where
  | request (q : Request)
  | status (mask : Word)
  deriving DecidableEq, Repr

def Call.kind? : Call → Option Kind
  | request q => some q.kind
  | status _ => none

def mmioPush (value : Word) (timeout : Option Int) : Call := .request ⟨.push, value, timeout⟩

def mmioPop (timeout : Option Int) : Call := .request ⟨.pop, 0, timeout⟩

def mmioIsFull : Call := .status 0x1#32

def mmioIsValid : Call := .status 0x2#32

/-- What a call gives back; `out` is what it stored in `*out`, if anything. -/
inductive Result where
  | code (rc : Int) (out : Option Word)
  | flag (b : Bool)
  deriving DecidableEq, Repr

structure Return where
  call : Call
  result : Result
  deriving DecidableEq, Repr

def Answer.code : Answer → Int
  | ok => 0
  | refused => -1

inductive HostPc where
  | idle
  | readCtrl (q : Request)
  | writeDataIn (q : Request) (ctrl : Word)
  | writeCtrl (q : Request) (ctrl : Word)
  | poll (q : Request) (waited : Int)
  | readDataOut (q : Request) (ack : Word)
  | clearAck (q : Request) (a : Answer) (ack : Word) (out : Option Word)
  | readStatus (mask : Word)
  deriving DecidableEq, Repr

def Call.entry : Call → HostPc
  | request q => .readCtrl q
  | status mask => .readStatus mask

/-- Not `waited < timeout_ms`. -/
def Request.expired (q : Request) (waited : Int) : Bool :=
  match q.timeout with
  | none => false
  | some timeoutMs => !decide (waited < timeoutMs)

/-- Once an answer is seen in `ack`: a successful pop fetches its word first. -/
def Request.accept (q : Request) (ack : Word) : HostPc :=
  match q.kind with
  | .push => .clearAck q .ok ack none
  | .pop => .readDataOut q ack

def hostStep (r : Regs) : HostPc → Regs × HostPc × Option Return
  | .idle => (r, .idle, none)
  | .readCtrl q =>
    match q.kind with
    | .push => (r, .writeDataIn q (read32 r .ctrl), none)
    | .pop => (r, .writeCtrl q (read32 r .ctrl), none)
  | .writeDataIn q ctrl => (write32 r .dataIn q.value, .writeCtrl q ctrl, none)
  | .writeCtrl q ctrl => (write32 r .ctrl (ctrl ||| q.kind.req), .poll q 0, none)
  | .poll q waited =>
    if q.expired waited then (r, .idle, some ⟨.request q, .code (-2) none⟩)
    else
      let ack := read32 r .ack
      if has ack (q.kind.bit .ok) then (r, q.accept ack, none)
      else if has ack (q.kind.bit .refused) then (r, .clearAck q .refused ack none, none)
      else (r, .poll q (waited + 1), none)
  | .readDataOut q ack => (r, .clearAck q .ok ack (some (read32 r .dataOut)), none)
  | .clearAck q a ack out =>
    (write32 r .ack (clear ack (q.kind.bit a)), .idle, some ⟨.request q, .code a.code out⟩)
  | .readStatus mask => (r, .idle, some ⟨.status mask, .flag (has (read32 r .status) mask)⟩)

/-- A caller who never gives up. -/
def Call.Patient : Call → Prop
  | request q => q.timeout = none
  | status _ => True

instance Call.decidablePatient (c : Call) : Decidable c.Patient := by
  cases c <;> unfold Call.Patient <;> infer_instance

theorem Request.not_expired {q : Request} (h : q.timeout = none) (waited : Int) :
    q.expired waited = false := by
  simp [expired, h]

/-- The answer bits of `w` are those of `x`. -/
def AckIs (w : Word) (x : Option (Kind × Answer)) : Prop :=
  ∀ (k : Kind) (a : Answer), has w (k.bit a) = decide (x = some (k, a))

/-! What a patient host makes of `ACK`. -/

section Poll

variable {r : Regs} {q : Request} (ht : q.timeout = none) (waited : Int)

include ht

theorem poll_none (ha : AckIs r.ack none) :
    hostStep r (.poll q waited) = (r, .poll q (waited + 1), none) := by
  simp [hostStep, q.not_expired ht, read32, ha q.kind]

theorem poll_ok (ha : AckIs r.ack (some (q.kind, .ok))) :
    hostStep r (.poll q waited) = (r, q.accept r.ack, none) := by
  simp [hostStep, q.not_expired ht, read32, ha q.kind]

theorem poll_refused (ha : AckIs r.ack (some (q.kind, .refused))) :
    hostStep r (.poll q waited) = (r, .clearAck q .refused r.ack none, none) := by
  simp [hostStep, q.not_expired ht, read32, ha q.kind]

end Poll

end TaskQueueCoSim.Mmio
