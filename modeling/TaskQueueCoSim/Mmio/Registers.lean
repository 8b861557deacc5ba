import TaskQueueCoSim.Lib.Flags
import TaskQueueCoSim.Rtl.QueueCore

/-!
# The MMIO region

Six 32-bit registers at the offsets both sides name, and the flags in three of
them.  `Kind` distinguishes the two requests.

* `CTRL`: `PUSH_REQ` 0x1, `POP_REQ` 0x2;
* `ACK`: `PUSH_OK` 0x1, `PUSH_REFUSED` 0x2, `POP_OK` 0x4, `POP_REFUSED` 0x8;
* `STATUS`: `FULL` 0x1, `VALID` 0x2.
-/

namespace TaskQueueCoSim.Mmio

open Flags

inductive Off where
  | ctrl
  | dataIn
  | ack
  | status
  | dataOut
  | tbDone
  deriving DecidableEq, Repr

structure Regs where
  ctrl : Word
  dataIn : Word
  ack : Word
  status : Word
  dataOut : Word
  tbDone : Word
  deriving DecidableEq, Repr

def read32 (r : Regs) : Off → Word
  | .ctrl => r.ctrl
  | .dataIn => r.dataIn
  | .ack => r.ack
  | .status => r.status
  | .dataOut => r.dataOut
  | .tbDone => r.tbDone

def write32 (r : Regs) (off : Off) (v : Word) : Regs :=
  match off with
  | .ctrl => { r with ctrl := v }
  | .dataIn => { r with dataIn := v }
  | .ack => { r with ack := v }
  | .status => { r with status := v }
  | .dataOut => { r with dataOut := v }
  | .tbDone => { r with tbDone := v }

/-- `memset(mmio, 0, MMIO_SIZE)`. -/
def zeroed : Regs := ⟨0, 0, 0, 0, 0, 0⟩

inductive Kind where
  | push
  | pop
  deriving DecidableEq, Repr

/-- The two answers to a request. -/
inductive Answer where
  | ok
  | refused
  deriving DecidableEq, Repr

namespace Kind

def req : Kind → Word
  | push => 0x1#32
  | pop => 0x2#32

/-- The bit of `ACK` that gives the answer. -/
def bit : Kind → Answer → Word
  | push, .ok => 0x1#32
  | push, .refused => 0x2#32
  | pop, .ok => 0x4#32
  | pop, .refused => 0x8#32

def other : Kind → Kind
  | push => pop
  | pop => push

/-! Distinct requests, and distinct answers, use distinct bits. -/

@[simp] theorem has_req_req (k k' : Kind) : has k.req k'.req = decide (k = k') := by
  cases k <;> cases k' <;> decide

@[simp] theorem has_bit_bit (k k' : Kind) (a a' : Answer) :
    has (k.bit a) (k'.bit a') = decide (k = k' ∧ a = a') := by
  cases k <;> cases k' <;> cases a <;> cases a' <;> decide

@[simp] theorem clear_req (k : Kind) : clear k.req k.req = 0 := by
  cases k <;> decide

@[simp] theorem clear_bit (k : Kind) (a : Answer) : clear (k.bit a) (k.bit a) = 0 := by
  cases k <;> cases a <;> decide

theorem has_clear_req {k k' : Kind} (h : k ≠ k') (w : Word) :
    has (clear w k.req) k'.req = has w k'.req := by
  apply has_clear_of_disjoint
  cases k <;> cases k' <;> first | exact absurd rfl h | decide

theorem has_clear_bit {k k' : Kind} {a a' : Answer} (h : k ≠ k' ∨ a ≠ a') (w : Word) :
    has (clear w (k.bit a)) (k'.bit a') = has w (k'.bit a') := by
  apply has_clear_of_disjoint
  cases k <;> cases k' <;> cases a <;> cases a' <;> first | simp at h; done | decide

end Kind

/-- `STATUS` as the bridge publishes it. -/
def statusBits (full valid : Bool) : Word :=
  let bits := 0#32
  let bits := if full then bits ||| 0x1#32 else bits
  if valid then bits ||| 0x2#32 else bits

end TaskQueueCoSim.Mmio
