import TaskQueueCoSim.Rtl.QueueCore

/-!
# Downstream of the queue: `hb_task_distributor.sv` and `hb_arbiter_banked.sv`

The registers of the two modules and one rising clock edge of each.  Neither
drives a signal the queue or the host reads.
-/

namespace TaskQueueCoSim

/-- The registers of `hb_task_distributor`. -/
structure Distributor where
  bufferedValid : Bool
  bufferedData : Word
  inDataReg : Word
  deriving DecidableEq, Repr

namespace Distributor

def outValid (s : Distributor) : Bool := s.bufferedValid

def outData (s : Distributor) : Word := s.bufferedData

def posedge (s : Distributor) (reset inValid : Bool) (inData : Word) (consumerReady : Bool) :
    Distributor :=
  if reset then ⟨false, 0, 0⟩
  else
    let s' := { s with inDataReg := inData }
    let s' := if s.bufferedValid && consumerReady then { s' with bufferedValid := false } else s'
    if inValid && !s.bufferedValid then
      -- `in_data_reg` as it was before the edge: the input of the cycle before
      { s' with bufferedData := s.inDataReg, bufferedValid := true }
    else s'

end Distributor

/-- The registers of `hb_arbiter_banked`; its `in_data` decides nothing. -/
structure Arbiter where
  grantOut : BitVec 2
  servedBank : BitVec 2
  rr : Bool
  deriving DecidableEq, Repr

def Arbiter.posedge (s : Arbiter) (reset inValid : Bool) : Arbiter :=
  if reset then ⟨0b00, 0b00, false⟩
  else if inValid then
    if s.rr = false then ⟨0b01, 0b01, true⟩ else ⟨0b10, 0b10, false⟩
  else { s with grantOut := 0b00, servedBank := 0b00 }

end TaskQueueCoSim
