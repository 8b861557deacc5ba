import TaskQueueCoSim.Rtl.TbTaskQueue

/-!
# The model that Verilator generated, `obj_dir/Vtb_task_queue.cpp`

The class keeps the registers and ports of the testbench in bytes and 32-bit words, and
runs the three `always_ff` blocks one after another over local copies (`__Vdly…`) of the
registers that other blocks read.  `full`, `valid_out` and `data_out` are variables of
their own, brought up to date at the end of each clocked step.

`Implements v t` ties a state of the class to one of `VtbTaskQueue`, which has the same
schedule, `Shows v s` to the testbench as the sources have it.  `verilated_shows` says that
whatever a harness assigns to the ports, and whenever it calls `eval`, the generated model
shows what the sources have, if nothing but the clock changes when it rises.
-/

namespace TaskQueueCoSim

open Fifo Machine

/-- `Vtb_task_queue`: a `CData` is a byte, an `IData` a word of 32 bits. -/
structure Verilated where
  clk : BitVec 8
  reset : BitVec 8
  hostMode : BitVec 8
  hostPushReq : BitVec 8
  hostPopReq : BitVec 8
  full : BitVec 8
  validOut : BitVec 8
  tbDone : BitVec 8
  hostDataIn : Word
  dataOut : Word
  pushReq : BitVec 8
  popReq : BitVec 8
  dataIn : Word
  grantOut : BitVec 8
  servedBank : BitVec 8
  rr : BitVec 8
  head : BitVec 8
  tail : BitVec 8
  count : BitVec 8
  mem : Fin 16 → Word
  bufferedValid : BitVec 8
  bufferedData : Word
  inDataReg : Word
  clkLast : BitVec 8
  didInit : Bool

namespace Verilated

/-- `(IData)(x)`. -/
def idata (x : BitVec 8) : Word := x.setWidth 32

instance memWords : NeZero 16 := ⟨by decide⟩

/-- `mem[i]`; the array has 16 words. -/
def memRead (mem : Fin 16 → Word) (i : BitVec 8) : Word := mem (Fin.ofNat 16 i.toNat)

def memWrite (mem : Fin 16 → Word) (i : BitVec 8) (w : Word) : Fin 16 → Word :=
  Function.update mem (Fin.ofNat 16 i.toNat) w

/-! ## `_sequent__TOP__2`

Each block as the values it assigns.  No block reads what another one assigns. -/

/-- `arb_grant_out`, `arb_served_bank`, `__Vdly…rr`. -/
def arbiterBlock (v : Verilated) : BitVec 8 × BitVec 8 × BitVec 8 :=
  if v.reset ≠ 0 then (0, 0, 0)
  else if v.validOut ≠ 0 then
    if v.rr ≠ 0 then (2, 2, 0) else (1, 1, 1)
  else (0, 0, v.rr)

/-- `__Vdly…buffered_valid`, `buffered_data`. -/
def distributorBlock (v : Verilated) : BitVec 8 × Word :=
  if v.reset ≠ 0 then (0, 0)
  else
    let dly := if v.bufferedValid ≠ 0 then 0 else v.bufferedValid
    if idata v.validOut &&& ~~~ idata v.bufferedValid ≠ 0 then (1, v.inDataReg)
    else (dly, v.bufferedData)

/-- `push_req & ~full`. -/
def pushTaken (v : Verilated) : Bool := idata v.pushReq &&& ~~~ idata v.full != 0

/-- `pop_req & (0 != count)`. -/
def popTaken (v : Verilated) : Bool :=
  idata v.popReq &&& (if (0#32 != idata v.count) = true then 1#32 else 0#32) != 0

/-- `__Vdly…tail`, and the write to `mem` that is due, if `__Vdlyvset…` is set. -/
def tailBlock (v : Verilated) : BitVec 8 × Option (BitVec 8 × Word) :=
  if v.reset ≠ 0 then (0, none)
  else if v.pushTaken then
    ((0xf#32 &&& (1#32 + idata v.tail)).setWidth 8, some (v.tail, v.dataIn))
  else (v.tail, none)

/-- `__Vdly…head`, `__Vdly…count`. -/
def headBlock (v : Verilated) : BitVec 8 × BitVec 8 :=
  if v.reset ≠ 0 then (0, 0)
  else
    let count := if v.pushTaken then (0x1f#32 &&& (1#32 + idata v.count)).setWidth 8 else v.count
    if v.popTaken then
      ((0xf#32 &&& (1#32 + idata v.head)).setWidth 8,
        (0x1f#32 &&& (idata v.count - 1#32)).setWidth 8)
    else (v.head, count)

/-- `full`, `valid_out` and `data_out` from the registers. -/
def outputs (v : Verilated) : Verilated :=
  { v with
    full := if (0x10#32 == idata v.count) = true then 1 else 0
    validOut := if (0#32 != idata v.count) = true then 1 else 0
    dataOut := memRead v.mem v.head }

def sequent (v : Verilated) : Verilated :=
  let (grantOut, servedBank, rr) := v.arbiterBlock
  let (bufferedValid, bufferedData) := v.distributorBlock
  let (tail, write) := v.tailBlock
  let (head, count) := v.headBlock
  let mem := match write with
    | none => v.mem
    | some (i, w) => memWrite v.mem i w
  -- `in_data_reg` takes `data_out` as it was before the outputs change
  let inDataReg := if v.reset ≠ 0 then 0 else v.dataOut
  outputs { v with
    grantOut, servedBank, rr, bufferedValid, bufferedData, tail, head, count, mem, inDataReg }

/-! ## `eval` -/

/-- `_combo__TOP__4`. -/
def combo (v : Verilated) : Verilated :=
  if v.hostMode ≠ 0 then
    { v with dataIn := v.hostDataIn, popReq := (idata v.hostPopReq &&& 1#32).setWidth 8,
             pushReq := (idata v.hostPushReq &&& 1#32).setWidth 8 }
  else { v with dataIn := 0, popReq := 0, pushReq := 0 }

/-- `_settle__TOP__3`. -/
def settle (v : Verilated) : Verilated :=
  let v := { v with pushReq := (idata v.hostMode &&& idata v.hostPushReq).setWidth 8 }
  let v :=
    if v.hostMode ≠ 0 then
      { v with dataIn := v.hostDataIn, popReq := (idata v.hostPopReq &&& 1#32).setWidth 8 }
    else { v with dataIn := 0, popReq := 0 }
  v.outputs

/-- `_eval`. -/
def evalBody (v : Verilated) : Verilated :=
  let v := if idata v.clk &&& ~~~ idata v.clkLast ≠ 0 then v.sequent else v
  let v := v.combo
  { v with clkLast := v.clk }

/-- `_eval_initial_loop`: the initial blocks, then one pass, since `_change_request` is
never true. -/
def evalInitialLoop (v : Verilated) : Verilated :=
  evalBody (settle { v with didInit := true, tbDone := 0, clkLast := v.clk })

/-- `eval_step`. -/
def eval (v : Verilated) : Verilated :=
  let v := if v.didInit then v else v.evalInitialLoop
  v.evalBody

end Verilated

/-! ## What a harness does to a model -/

/-- A port of one bit in its byte. -/
def bit (b : Bool) : BitVec 8 := if b then 1 else 0

def Verilated.stimulate (v : Verilated) : Stimulus → Verilated
  | .clk b => { v with clk := bit b }
  | .reset b => { v with reset := bit b }
  | .hostMode b => { v with hostMode := bit b }
  | .hostPushReq b => { v with hostPushReq := bit b }
  | .hostPopReq b => { v with hostPopReq := bit b }
  | .hostDataIn w => { v with hostDataIn := w }
  | .tbDone b => { v with tbDone := bit b }
  | .eval => v.eval

/-! ## The refinement -/

/-- The class keeps what `VtbTaskQueue` keeps: every port, register and output of the one is
that of the other. -/
structure Implements (v : Verilated) (t : VtbTaskQueue) : Prop where
  clk : v.clk = bit t.clk
  reset : v.reset = bit t.reset
  hostMode : v.hostMode = bit t.hostMode
  hostPushReq : v.hostPushReq = bit t.hostPushReq
  hostPopReq : v.hostPopReq = bit t.hostPopReq
  hostDataIn : v.hostDataIn = t.hostDataIn
  clkLast : v.clkLast = bit t.clkLast
  pushReq : v.pushReq = bit t.pushReq
  popReq : v.popReq = bit t.popReq
  dataIn : v.dataIn = t.dataIn
  head : v.head.toNat = t.queue.head.toNat
  tail : v.tail.toNat = t.queue.tail.toNat
  count : v.count.toNat = t.queue.count.toNat
  mem : ∀ i : Fin 16, v.mem i = t.queue.mem (BitVec.ofFin i)
  bufferedValid : v.bufferedValid = bit t.distributor.bufferedValid
  bufferedData : v.bufferedData = t.distributor.bufferedData
  inDataReg : v.inDataReg = t.distributor.inDataReg
  grantOut : v.grantOut.toNat = t.arbiter.grantOut.toNat
  servedBank : v.servedBank.toNat = t.arbiter.servedBank.toNat
  rr : v.rr = bit t.arbiter.rr
  full : v.full = bit t.full
  validOut : v.validOut = bit t.validOut
  dataOut : v.dataOut = t.dataOut
  didInit : v.didInit = true

section Words

@[simp] theorem bit_ne_zero (b : Bool) : bit b ≠ 0 ↔ b = true := by
  cases b <;> decide

theorem andNot_bit (b c : Bool) :
    Verilated.idata (bit b) &&& ~~~ Verilated.idata (bit c) ≠ 0 ↔ (b && !c) = true := by
  cases b <;> cases c <;> decide

theorem and_one_bit (b : Bool) : (Verilated.idata (bit b) &&& 1#32).setWidth 8 = bit b := by
  cases b <;> decide

/-! What the masks do to a byte. -/

theorem toNat_succ_nibble : ∀ x : BitVec 8,
    ((0xf#32 &&& (1#32 + Verilated.idata x)).setWidth 8).toNat = (x.toNat + 1) % 16 := by
  decide

theorem toNat_succ_five : ∀ x : BitVec 8,
    ((0x1f#32 &&& (1#32 + Verilated.idata x)).setWidth 8).toNat = (x.toNat + 1) % 32 := by
  decide

theorem toNat_pred_five : ∀ x : BitVec 8,
    ((0x1f#32 &&& (Verilated.idata x - 1#32)).setWidth 8).toNat = (x.toNat + 31) % 32 := by
  decide

theorem sixteen_eq_idata : ∀ x : BitVec 8,
    (0x10#32 == Verilated.idata x) = (x.toNat == 16) := by
  decide

theorem zero_ne_idata : ∀ x : BitVec 8, (0#32 != Verilated.idata x) = (x.toNat != 0) := by
  decide

theorem popTaken_bit (b : Bool) (x : BitVec 8) :
    (Verilated.idata (bit b) &&& (if (0#32 != Verilated.idata x) = true then 1#32 else 0#32) != 0) =
      (b && x.toNat != 0) := by
  rw [zero_ne_idata]
  cases b <;> cases x.toNat != 0 <;> decide

end Words

section Queue

variable (s : QueueCore 16 32) (c : ClockCycle Word)

theorem two_pow_ptr : 2 ^ clog2 16 = 16 := by decide

theorem two_pow_count : 2 ^ clog2 (16 + 1) = 32 := by decide

theorem toNat_head_posedge : (s.posedge c).head.toNat =
    if c.reset then 0
    else if c.pop && s.count.toNat != 0 then (s.head.toNat + 1) % 16 else s.head.toNat := by
  unfold QueueCore.posedge
  split
  · rfl
  · split <;> split <;> simp [BitVec.toNat_add, two_pow_ptr]

theorem toNat_tail_posedge : (s.posedge c).tail.toNat =
    if c.reset then 0
    else if c.push && !s.full then (s.tail.toNat + 1) % 16 else s.tail.toNat := by
  unfold QueueCore.posedge
  split
  · rfl
  · split <;> split <;> simp [BitVec.toNat_add, two_pow_ptr]

/-- Of the two assignments to `count` the pop's counts. -/
theorem toNat_count_posedge : (s.posedge c).count.toNat =
    if c.reset then 0
    else if c.pop && s.count.toNat != 0 then (s.count.toNat + 31) % 32
    else if c.push && !s.full then (s.count.toNat + 1) % 32 else s.count.toNat := by
  unfold QueueCore.posedge
  split
  · rfl
  · split <;> split <;> simp [BitVec.toNat_add, BitVec.toNat_sub, two_pow_count, Nat.add_comm]

theorem mem_posedge : (s.posedge c).mem =
    if !c.reset && (c.push && !s.full) then Function.update s.mem s.tail c.data else s.mem := by
  have small : s.tail.toNat < 16 := Nat.lt_of_lt_of_eq s.tail.isLt two_pow_ptr
  unfold QueueCore.posedge QueueCore.writeMem
  cases c.reset <;> cases c.push && !s.full <;> cases c.pop && s.count.toNat != 0 <;> simp [small]

end Queue

/-- The outputs are brought up to date from the registers. -/
theorem outputs_eq {v : Verilated} {t : VtbTaskQueue} (head : v.head.toNat = t.queue.head.toNat)
    (count : v.count.toNat = t.queue.count.toNat)
    (mem : ∀ i : Fin 16, v.mem i = t.queue.mem (BitVec.ofFin i)) :
    v.outputs.full = bit t.full ∧ v.outputs.validOut = bit t.validOut ∧
      v.outputs.dataOut = t.dataOut := by
  have lt : t.queue.head.toNat < 16 := Nat.lt_of_lt_of_eq t.queue.head.isLt two_pow_ptr
  have slot : BitVec.ofFin (Fin.ofNat 16 v.head.toNat) = t.queue.head := by
    rw [← BitVec.toNat_inj, head]
    exact Nat.mod_eq_of_lt lt
  refine ⟨?_, ?_, ?_⟩
  · rw [Verilated.outputs, sixteen_eq_idata, count]
    rfl
  · rw [Verilated.outputs, zero_ne_idata, count]
    rfl
  · rw [Verilated.outputs, Verilated.memRead, mem, slot]
    rfl

section Clocked

variable {v : Verilated} {t : VtbTaskQueue} (h : Implements v t)

include h

theorem pushTaken_eq : v.pushTaken = (t.pushReq && !t.queue.full) := by
  rw [Bool.eq_iff_iff, Verilated.pushTaken, bne_iff_ne, h.pushReq, h.full, andNot_bit]
  rfl

theorem popTaken_eq : v.popTaken = (t.popReq && t.queue.count.toNat != 0) := by
  rw [Verilated.popTaken, h.popReq, popTaken_bit, h.count]

theorem arbiterBlock_eq :
    v.arbiterBlock.1.toNat = t.sequent.arbiter.grantOut.toNat ∧
      v.arbiterBlock.2.1.toNat = t.sequent.arbiter.servedBank.toNat ∧
      v.arbiterBlock.2.2 = bit t.sequent.arbiter.rr := by
  have valid : v.validOut ≠ 0 ↔ t.validOut = true := by rw [h.validOut, bit_ne_zero]
  simp only [Verilated.arbiterBlock, VtbTaskQueue.sequent, Arbiter.posedge, h.reset, h.rr, valid,
    bit_ne_zero]
  cases t.reset <;> cases t.validOut <;> cases t.arbiter.rr <;> simp [bit]

theorem distributorBlock_eq :
    v.distributorBlock.1 = bit t.sequent.distributor.bufferedValid ∧
      v.distributorBlock.2 = t.sequent.distributor.bufferedData := by
  simp only [Verilated.distributorBlock, VtbTaskQueue.sequent, Distributor.posedge, h.reset,
    h.validOut, h.bufferedValid, h.bufferedData, h.inDataReg, andNot_bit, bit_ne_zero]
  cases t.reset <;> cases t.validOut <;> cases t.distributor.bufferedValid <;> simp [bit]

theorem tailBlock_eq : v.tailBlock.1.toNat = t.sequent.queue.tail.toNat ∧
    v.tailBlock.2 =
      if !t.reset && (t.pushReq && !t.queue.full) then some (v.tail, t.dataIn) else none := by
  simp only [Verilated.tailBlock, VtbTaskQueue.sequent, toNat_tail_posedge, h.reset,
    pushTaken_eq h, h.dataIn, bit_ne_zero, ← h.tail]
  cases t.reset <;> cases t.pushReq && !t.queue.full <;>
    simp only [toNat_succ_nibble, if_true, if_false, Bool.false_eq_true, Bool.not_false,
      Bool.not_true, Bool.and_true, Bool.and_false, and_self] <;> decide

theorem headBlock_eq : v.headBlock.1.toNat = t.sequent.queue.head.toNat ∧
    v.headBlock.2.toNat = t.sequent.queue.count.toNat := by
  simp only [Verilated.headBlock, VtbTaskQueue.sequent, toNat_head_posedge, toNat_count_posedge,
    h.reset, pushTaken_eq h, popTaken_eq h, bit_ne_zero, ← h.head, ← h.count]
  cases t.reset <;> cases t.pushReq && !t.queue.full <;> cases t.popReq && v.count.toNat != 0 <;>
    simp only [toNat_succ_nibble, toNat_succ_five, toNat_pred_five, if_true, if_false,
      Bool.false_eq_true, and_self] <;> decide

theorem mem_sequent (i : Fin 16) :
    (match v.tailBlock.2 with
      | none => v.mem
      | some (j, w) => Verilated.memWrite v.mem j w) i = t.sequent.queue.mem (BitVec.ofFin i) := by
  have e : t.sequent.queue.mem = if !t.reset && (t.pushReq && !t.queue.full) then
      Function.update t.queue.mem t.queue.tail t.dataIn else t.queue.mem := mem_posedge _ _
  rw [(tailBlock_eq h).2, e]
  cases !t.reset && (t.pushReq && !t.queue.full)
  case false => exact h.mem i
  case true =>
    have slot : BitVec.ofFin i = t.queue.tail ↔ i = Fin.ofNat 16 v.tail.toNat := by
      have lt : t.queue.tail.toNat < 16 := Nat.lt_of_lt_of_eq t.queue.tail.isLt two_pow_ptr
      rw [h.tail, ← BitVec.toNat_inj, Fin.ext_iff]
      show i.val = t.queue.tail.toNat ↔ i.val = t.queue.tail.toNat % 16
      rw [Nat.mod_eq_of_lt lt]
    simp only [if_true, Verilated.memWrite, Function.update_apply, slot]
    split
    · rfl
    · exact h.mem i

/-- **One clocked step of the class is one edge of the testbench.** -/
theorem Implements.sequent : Implements v.sequent t.sequent := by
  obtain ⟨grantOut, servedBank, rr⟩ := arbiterBlock_eq h
  obtain ⟨bufferedValid, bufferedData⟩ := distributorBlock_eq h
  obtain ⟨head, count⟩ := headBlock_eq h
  have tail := (tailBlock_eq h).1
  have mem := mem_sequent h
  have inDataReg : (if v.reset ≠ 0 then 0 else v.dataOut) = t.sequent.distributor.inDataReg := by
    simp only [h.reset, bit_ne_zero, h.dataOut, VtbTaskQueue.sequent, Distributor.posedge]
    cases t.reset <;> cases t.validOut <;> cases t.distributor.bufferedValid <;> rfl
  obtain ⟨full, validOut, dataOut⟩ := outputs_eq (v := v.sequent) (t := t.sequent) head count mem
  exact ⟨h.clk, h.reset, h.hostMode, h.hostPushReq, h.hostPopReq, h.hostDataIn, h.clkLast,
    h.pushReq, h.popReq, h.dataIn, head, tail, count, mem, bufferedValid, bufferedData, inDataReg,
    grantOut, servedBank, rr, full, validOut, dataOut, h.didInit⟩

theorem Implements.combo : Implements v.combo t.combo := by
  have mode : v.hostMode ≠ 0 ↔ t.hostMode = true := by rw [h.hostMode, bit_ne_zero]
  unfold Verilated.combo VtbTaskQueue.combo
  by_cases hm : t.hostMode = true
  · rw [if_pos (mode.mpr hm), if_pos hm, h.hostPopReq, h.hostPushReq, and_one_bit, and_one_bit]
    exact { h with pushReq := rfl, popReq := rfl, dataIn := h.hostDataIn, hostPushReq := rfl,
                   hostPopReq := rfl }
  · rw [if_neg (mt mode.mp hm), if_neg hm]
    exact { h with pushReq := rfl, popReq := rfl, dataIn := rfl }

/-- `eval` without and with a rising clock. -/
theorem Implements.evalBody : Implements v.evalBody t.eval := by
  have clocked : Verilated.idata v.clk &&& ~~~ Verilated.idata v.clkLast ≠ 0 ↔
      (t.clk && !t.clkLast) = true := by
    rw [h.clk, h.clkLast, andNot_bit]
  have keeps (t : VtbTaskQueue) : t.combo.clk = t.clk := by
    unfold VtbTaskQueue.combo
    split <;> rfl
  unfold Verilated.evalBody VtbTaskQueue.eval
  by_cases hc : (t.clk && !t.clkLast) = true
  · rw [if_pos (clocked.mpr hc), if_pos hc]
    have h' := (Implements.sequent h).combo
    exact { h' with clkLast := h'.clk.trans (congrArg bit (keeps t.sequent)) }
  · rw [if_neg (mt clocked.mp hc), if_neg hc]
    exact { h.combo with clkLast := h.combo.clk.trans (congrArg bit (keeps t)) }

theorem Implements.eval : Implements v.eval t.eval := by
  rw [Verilated.eval, h.didInit]
  exact Implements.evalBody h

theorem Implements.stimulate (d : Stimulus) : Implements (v.stimulate d) (t.stimulate d) := by
  cases d with
  | clk b => exact { h with clk := rfl }
  | reset b => exact { h with reset := rfl }
  | hostMode b => exact { h with hostMode := rfl }
  | hostPushReq b => exact { h with hostPushReq := rfl }
  | hostPopReq b => exact { h with hostPopReq := rfl }
  | hostDataIn w => exact { h with hostDataIn := rfl }
  | tbDone b => exact { h with }
  | eval => exact h.eval

end Clocked

/-! ## Power-on -/

namespace Verilated

/-- What `VL_RAND_RESET_I` puts into the registers: any values of their widths. -/
structure InWidth (v : Verilated) : Prop where
  head : v.head.toNat < 16
  tail : v.tail.toNat < 16
  count : v.count.toNat < 32
  bufferedValid : v.bufferedValid.toNat < 2
  grantOut : v.grantOut.toNat < 4
  servedBank : v.servedBank.toNat < 4
  rr : v.rr.toNat < 2

def queue (v : Verilated) : QueueCore 16 32 where
  mem i := v.mem (Fin.ofNat 16 i.toNat)
  head := BitVec.ofNat _ v.head.toNat
  tail := BitVec.ofNat _ v.tail.toNat
  count := BitVec.ofNat _ v.count.toNat

def distributor (v : Verilated) : Distributor :=
  ⟨v.bufferedValid.toNat == 1, v.bufferedData, v.inDataReg⟩

def arbiter (v : Verilated) : Arbiter :=
  ⟨BitVec.ofNat 2 v.grantOut.toNat, BitVec.ofNat 2 v.servedBank.toNat, v.rr.toNat == 1⟩

/-- The initial signals of both `main`s and their first `eval`. -/
def powerOn (v : Verilated) : Verilated :=
  run stimulate v [.clk false, .reset true, .hostMode true, .hostPushReq false, .hostPopReq false,
    .hostDataIn 0, .tbDone false, .eval]

end Verilated

/-- A byte that holds one bit. -/
theorem eq_bit_of_lt : ∀ x : BitVec 8, x.toNat < 2 → x = bit (x.toNat == 1) := by
  decide

theorem masked : (Verilated.idata (bit true) &&& Verilated.idata (bit false)).setWidth 8 = bit false := by
  decide

/-- The first `eval` settles the outputs over whatever the registers hold. -/
theorem implements_powerOn {v : Verilated} (hw : v.InWidth) (hi : v.didInit = false) :
    Implements v.powerOn (VtbTaskQueue.powerOn v.queue v.distributor v.arbiter) := by
  let v₀ : Verilated :=
    { v with clk := bit false, reset := bit true, hostMode := bit true, hostPushReq := bit false,
             hostPopReq := bit false, hostDataIn := 0, tbDone := 0, clkLast := bit false,
             didInit := true }
  let t₀ : VtbTaskQueue :=
    { clk := false, reset := true, hostMode := true, hostPushReq := false, hostDataIn := 0,
      hostPopReq := false, clkLast := false, pushReq := false, dataIn := 0, popReq := false,
      queue := v.queue, distributor := v.distributor, arbiter := v.arbiter }
  have head : v₀.head.toNat = t₀.queue.head.toNat := (Nat.mod_eq_of_lt hw.head).symm
  have tail : v₀.tail.toNat = t₀.queue.tail.toNat := (Nat.mod_eq_of_lt hw.tail).symm
  have count : v₀.count.toNat = t₀.queue.count.toNat := (Nat.mod_eq_of_lt hw.count).symm
  have mem (i : Fin 16) : v₀.mem i = t₀.queue.mem (BitVec.ofFin i) :=
    congrArg v.mem (Fin.ext (Nat.mod_eq_of_lt i.isLt).symm)
  obtain ⟨full, validOut, dataOut⟩ := outputs_eq head count mem
  have e₀ : v₀.settle =
      Verilated.outputs { v₀ with pushReq := bit false, popReq := bit false, dataIn := 0 } := by
    have mode : v₀.hostMode ≠ 0 := (bit_ne_zero true).mpr rfl
    rw [Verilated.settle, if_pos mode, masked, and_one_bit false]
  have settled : Implements v₀.settle t₀ := by
    rw [e₀]
    exact ⟨rfl, rfl, rfl, rfl, rfl, rfl, rfl, rfl, rfl, rfl, head, tail, count, mem,
      eq_bit_of_lt _ hw.bufferedValid, rfl, rfl, (Nat.mod_eq_of_lt hw.grantOut).symm,
      (Nat.mod_eq_of_lt hw.servedBank).symm, eq_bit_of_lt _ hw.rr, full, validOut, dataOut, rfl⟩
  have e : v.powerOn = v₀.settle.evalBody.evalBody := by
    simp [Verilated.powerOn, Verilated.stimulate, Verilated.eval, Verilated.evalInitialLoop, hi, v₀]
  rw [e]
  exact settled.evalBody.evalBody

/-! ## The sources -/

namespace Verilated

/-- `eval` assigns `tb_done` in the initial block alone. -/
theorem evalBody_tbDone (v : Verilated) : v.evalBody.tbDone = v.tbDone := by
  have combo (v : Verilated) : v.combo.tbDone = v.tbDone := by
    unfold Verilated.combo
    split <;> rfl
  unfold Verilated.evalBody
  split <;> exact combo _

theorem powerOn_tbDone {v : Verilated} (hi : v.didInit = false) : v.powerOn.tbDone = bit false := by
  have settle (u : Verilated) : u.settle.tbDone = u.tbDone := by
    simp only [Verilated.settle, Verilated.outputs]
    split <;> rfl
  have first (u : Verilated) (h : u.didInit = false) : u.eval.tbDone = bit false := by
    rw [Verilated.eval, h, if_neg (by decide), evalBody_tbDone, Verilated.evalInitialLoop,
      evalBody_tbDone, settle]
    rfl
  exact first _ hi

end Verilated

/-- The class shows the testbench: the ports as they are assigned, and every output, wire and
register as the sources have it with the ports of the last `eval`. -/
structure Shows (v : Verilated) (s : Driven) : Prop where
  clk : v.clk = bit s.assigned.clk
  reset : v.reset = bit s.assigned.reset
  hostMode : v.hostMode = bit s.assigned.hostMode
  hostPushReq : v.hostPushReq = bit s.assigned.hostPushReq
  hostPopReq : v.hostPopReq = bit s.assigned.hostPopReq
  hostDataIn : v.hostDataIn = s.assigned.hostDataIn
  full : v.full = bit s.tb.full
  validOut : v.validOut = bit s.tb.validOut
  dataOut : v.dataOut = s.tb.dataOut
  tbDone : v.tbDone = bit s.tb.tbDone
  pushReq : v.pushReq = bit s.tb.pushReq
  dataIn : v.dataIn = s.tb.dataIn
  popReq : v.popReq = bit s.tb.popReq
  head : v.head.toNat = s.tb.queue.head.toNat
  tail : v.tail.toNat = s.tb.queue.tail.toNat
  count : v.count.toNat = s.tb.queue.count.toNat
  mem : ∀ i : Fin 16, v.mem i = s.tb.queue.mem (BitVec.ofFin i)
  bufferedValid : v.bufferedValid = bit s.tb.distributor.bufferedValid
  bufferedData : v.bufferedData = s.tb.distributor.bufferedData
  inDataReg : v.inDataReg = s.tb.distributor.inDataReg
  grantOut : v.grantOut.toNat = s.tb.arbiter.grantOut.toNat
  servedBank : v.servedBank.toNat = s.tb.arbiter.servedBank.toNat
  rr : v.rr = bit s.tb.arbiter.rr

/-- The class keeps what follows the sources. -/
structure Tied (v : Verilated) (s : Driven) : Prop where
  follows : ∃ top : VtbTaskQueue, Implements v top ∧ top.Follows s
  tbDone : v.tbDone = bit s.tb.tbDone

namespace Tied

variable {v : Verilated} {s : Driven}

theorem shows (h : Tied v s) : Shows v s := by
  obtain ⟨⟨top, hv, hs⟩, tbDone⟩ := h
  obtain ⟨assigned, ⟨ports, done, queue, distributor, arbiter⟩⟩ := s
  obtain ⟨rfl, -, pushReq, dataIn, popReq, rfl, rfl, rfl⟩ := hs
  exact ⟨hv.clk, hv.reset, hv.hostMode, hv.hostPushReq, hv.hostPopReq, hv.hostDataIn, hv.full,
    hv.validOut, hv.dataOut, tbDone, pushReq ▸ hv.pushReq, dataIn ▸ hv.dataIn, popReq ▸ hv.popReq,
    hv.head, hv.tail, hv.count, hv.mem, hv.bufferedValid, hv.bufferedData, hv.inDataReg,
    hv.grantOut, hv.servedBank, hv.rr⟩

theorem stimulate (h : Tied v s) (d : Stimulus) (settled : Settled s d) :
    Tied (v.stimulate d) (s.stimulate d) := by
  obtain ⟨⟨top, hv, hs⟩, tbDone⟩ := h
  refine ⟨⟨top.stimulate d, hv.stimulate d, hs.stimulate d settled⟩, ?_⟩
  cases d with
  | tbDone b => rfl
  | eval =>
    show v.eval.tbDone = bit (s.tb.drive s.assigned).tbDone
    rw [Verilated.eval, hv.didInit, if_pos rfl, Verilated.evalBody_tbDone, tbDone,
      TbTaskQueue.drive]
    split <;> rfl
  | _ => exact tbDone

end Tied

theorem tied_powerOn {v : Verilated} (hw : v.InWidth) (hi : v.didInit = false) :
    Tied v.powerOn (.powerOn v.queue v.distributor v.arbiter) :=
  ⟨⟨_, implements_powerOn hw hi, VtbTaskQueue.follows_powerOn ..⟩, Verilated.powerOn_tbDone hi⟩

/-- **The generated model shows the testbench of the sources.**  Over any registers at power-on,
whatever a harness assigns to the ports and whenever it calls `eval`, if nothing but the clock
changes when it rises; and the indices stay inside `mem`. -/
theorem verilated_shows (v : Verilated) (hw : v.InWidth) (hi : v.didInit = false)
    (ds : List Stimulus) (settled : Guarded Driven.stimulate Settled
      (.powerOn v.queue v.distributor v.arbiter) ds) :
    Shows (run Verilated.stimulate v.powerOn ds)
        (run Driven.stimulate (.powerOn v.queue v.distributor v.arbiter) ds) ∧
      (run Verilated.stimulate v.powerOn ds).head.toNat < 16 ∧
      (run Verilated.stimulate v.powerOn ds).tail.toNat < 16 := by
  have h := run_related_guarded (R := Tied) (fun _ _ d h => h.stimulate d) (tied_powerOn hw hi)
    settled
  refine ⟨h.shows, ?_, ?_⟩
  · rw [h.shows.head]
    exact Nat.lt_of_lt_of_eq (BitVec.isLt _) two_pow_ptr
  · rw [h.shows.tail]
    exact Nat.lt_of_lt_of_eq (BitVec.isLt _) two_pow_ptr

/-- Every byte zero. -/
def Verilated.zero : Verilated :=
  ⟨0, 0, 0, 0, 0, 0, 0, 0, 0, 0, 0, 0, 0, 0, 0, 0, 0, 0, 0, fun _ => 0, 0, 0, 0, 0, false⟩

/-- Out of reset, two words are pushed, the queue rests, and one is popped. -/
def pushPushPop : List Stimulus :=
  [[], [.reset false, .hostPushReq true, .hostDataIn 7], [.hostDataIn 8], [.hostPushReq false],
    [.hostPopReq true], [.hostPopReq false, .tbDone true]].flatMap (· ++ tickStimuli)

/-- The word that is left is the second. -/
theorem verilated_shows_pushPushPop :
    let s := run Driven.stimulate
      (.powerOn Verilated.zero.queue Verilated.zero.distributor Verilated.zero.arbiter) pushPushPop
    (s.tb.validOut = true ∧ s.tb.dataOut = 8 ∧ s.tb.tbDone = true ∧ s.tb.queue.count.toNat = 1) ∧
      Shows (run Verilated.stimulate Verilated.zero.powerOn pushPushPop) s := by
  refine ⟨by decide, (verilated_shows .zero ⟨by decide, by decide, by decide, by decide, by decide,
    by decide, by decide⟩ rfl _ (settled_ticks ?_ _)).1⟩
  decide

end TaskQueueCoSim
