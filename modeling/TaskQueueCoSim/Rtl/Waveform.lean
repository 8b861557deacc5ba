import TaskQueueCoSim.Rtl.Verilated

/-!
# The waveform, `obj_dir/Vtb_task_queue__Trace.cpp`

Both `main`s dump the signals after every half of a clock.  The first dump records all of
them; a later one records what has changed, and looks only where an `eval` since the last
dump may have changed something: at the registers if the clock has risen, at the outputs
of `always_comb` after any `eval`, and at nothing at all if there was none.

`waveform_shows` says that this loses nothing: at every dump the waveform shows, under each
name that it declares, the value that the sources give the signal with the ports of the last
`eval`.  Only an input port that was assigned since the last `eval` may lag behind.
-/

namespace TaskQueueCoSim

open Machine

/-! ## The writer of the file -/

/-- What the generated code uses of `VerilatedVcd`; it is not part of the repository.  `full`
and `chg` get a code, a number of bits and a value; `shows` is what a viewer reads off the
file, the value recorded last for a code. -/
structure Vcd (W : Type) where
  full : W → Nat → Nat → Word → W
  chg : W → Nat → Nat → Word → W
  stamp : W → Nat → W
  fullDue : W → Bool
  shows : W → Nat → Option Word

/-- A value recorded with `bits` bits. -/
def cut (bits : Nat) (x : Word) : Word := (x.setWidth bits).setWidth 32

/-- A full dump is due first.  After `full` and after `chg` a code shows the value given: `chg`
writes nothing only if the value is the one recorded last. -/
structure Vcd.Lawful {W : Type} (vcd : Vcd W) (opened : W) : Prop where
  first : vcd.fullDue opened = true
  shows_full : ∀ w c n x,
    vcd.shows (vcd.full w c n x) = Function.update (vcd.shows w) c (some (cut n x))
  shows_chg : ∀ w c n x,
    vcd.shows (vcd.chg w c n x) = Function.update (vcd.shows w) c (some (cut n x))
  shows_stamp : ∀ w t, vcd.shows (vcd.stamp w t) = vcd.shows w

/-! ## The callbacks -/

/-- One call of `fullBit`, `fullCData`, `fullIData` or of their `chg` siblings. -/
structure Sample where
  code : Nat
  bits : Nat
  value : Word

def Sample.shown (x : Sample) : Word := cut x.bits x.value

/-- `VL_REDXOR_32` -/
def redXor (w : Word) : Bool := (List.range 32).foldl (fun b i => b ^^ w.getLsbD i) false

namespace Verilated

variable (o : Nat) (v : Verilated)

/-- What `_sequent__TOP__2` assigns, the outputs apart, from the offset `o` on. -/
def clockedSamples : List Sample :=
  [⟨o, 1, idata v.bufferedValid⟩, ⟨o + 1, 32, v.bufferedData⟩, ⟨o + 2, 2, idata v.grantOut⟩,
    ⟨o + 3, 2, idata v.servedBank⟩] ++
  (List.finRange 16).map (fun i => ⟨o + 4 + i, 32, v.mem i⟩) ++
  [⟨o + 20, 4, idata v.head⟩, ⟨o + 21, 4, idata v.tail⟩, ⟨o + 22, 5, idata v.count⟩,
    ⟨o + 23, 32, v.inDataReg⟩, ⟨o + 24, 1, idata v.rr⟩]

/-- What `_combo__TOP__4` assigns. -/
def comboSamples : List Sample :=
  [⟨o, 1, idata v.pushReq⟩, ⟨o + 1, 32, v.dataIn⟩, ⟨o + 2, 1, idata v.popReq⟩]

def portSamples : List Sample :=
  [⟨o, 1, idata v.clk⟩, ⟨o + 1, 1, idata v.reset⟩, ⟨o + 2, 1, idata v.hostMode⟩,
    ⟨o + 3, 1, idata v.hostPushReq⟩, ⟨o + 4, 32, v.hostDataIn⟩, ⟨o + 5, 1, idata v.hostPopReq⟩,
    ⟨o + 6, 1, idata v.full⟩, ⟨o + 7, 1, idata v.validOut⟩, ⟨o + 8, 32, v.dataOut⟩,
    ⟨o + 9, 1, idata v.tbDone⟩, ⟨o + 10, 1, 1#32 &&& idata (bit (redXor v.dataOut))⟩]

def constantSamples : List Sample := [⟨40, 32, 0x10⟩, ⟨41, 32, 0x20⟩, ⟨42, 32, 4⟩, ⟨43, 1, 1⟩]

/-- `traceFullSub0` -/
def traceFullSub0 : List Sample :=
  v.clockedSamples 1 ++ v.comboSamples 26 ++ v.portSamples 29 ++ constantSamples

/-- `traceChgSub0`; its offsets count from the code 1 on. -/
def traceChgSub0 (activity : Fin 3 → BitVec 8) : List Sample :=
  (if activity 1 ≠ 0 then v.clockedSamples 0 else []) ++
    (if activity 2 ≠ 0 then v.comboSamples 25 else []) ++ v.portSamples 28

end Verilated

/-- The calls for a list of samples, with the codes counted from `base` on. -/
def emit {W : Type} (record : W → Nat → Nat → Word → W) (base : Nat) (l : List Sample) (w : W) : W :=
  l.foldl (fun w x => record w (base + x.code) x.bits x.value) w

/-! ## The model with its trace -/

/-- The class with `__Vm_activity`, `__Vm_traceActivity`, the open file and the time of the
next dump. -/
structure Tracing (W : Type) where
  model : Verilated
  activity : Bool
  traceActivity : Fin 3 → BitVec 8
  wave : W
  time : Nat

/-- What a harness does: it drives the model or dumps the signals. -/
inductive TraceAction where
  | drive (d : Stimulus)
  | dump
  deriving DecidableEq, Repr

namespace Tracing

variable {W : Type} (vcd : Vcd W) (base : Nat) (s : Tracing W)

/-- `_eval` -/
def evalBody : Tracing W :=
  let rising := Verilated.idata s.model.clk &&& ~~~ Verilated.idata s.model.clkLast ≠ 0
  let traceActivity := if rising then Function.update s.traceActivity 1 1 else s.traceActivity
  { s with model := s.model.evalBody, traceActivity := Function.update traceActivity 2 1 }

/-- `_eval_initial_loop`; `_eval_settle` sets all the flags. -/
def evalInitialLoop : Tracing W :=
  evalBody
    { s with
      model := Verilated.settle { s.model with didInit := true, tbDone := 0, clkLast := s.model.clk }
      activity := true
      traceActivity := fun _ => 1 }

/-- `eval_step` -/
def eval : Tracing W :=
  let s := if s.model.didInit then s else s.evalInitialLoop
  evalBody { s with activity := true }

/-- `traceChgTop0` -/
def traceChgTop0 : Tracing W :=
  if s.activity then
    { s with wave := emit vcd.chg (base + 1) (s.model.traceChgSub0 s.traceActivity) s.wave }
  else s

/-- `traceFullTop0` -/
def traceFullTop0 : Tracing W :=
  { s with wave := emit vcd.full base s.model.traceFullSub0 s.wave }

def traceCleanup : Tracing W :=
  { s with activity := false, traceActivity := fun _ => 0 }

/-- `tfp->dump(time++)` runs the registered callbacks. -/
def dump : Tracing W :=
  let stamped := { s with wave := vcd.stamp s.wave s.time, time := s.time + 1 }
  traceCleanup (if vcd.fullDue s.wave then stamped.traceFullTop0 vcd base
    else stamped.traceChgTop0 vcd base)

def next : TraceAction → Tracing W
  | .drive .eval => s.eval
  | .drive d => { s with model := s.model.stimulate d }
  | .dump => s.dump vcd base

/-- The initial signals of both `main`s and their first `eval`. -/
def powerOn : Tracing W :=
  run (next vcd base) s ([.clk false, .reset true, .hostMode true, .hostPushReq false,
    .hostPopReq false, .hostDataIn 0, .tbDone false, .eval].map .drive)

end Tracing

/-! ## The names in the file -/

def Driven.next (s : Driven) : TraceAction → Driven
  | .drive d => s.stimulate d
  | .dump => s

/-- Nothing but the clock changes when it rises. -/
def SettledTrace (s : Driven) : TraceAction → Prop
  | .drive d => Settled s d
  | .dump => True

instance SettledTrace.decidable (s : Driven) (a : TraceAction) : Decidable (SettledTrace s a) :=
  match a with
  | .drive d => inferInstanceAs (Decidable (Settled s d))
  | .dump => isTrue trivial

inductive Port where
  | clk
  | reset
  | hostMode
  | hostPushReq
  | hostDataIn
  | hostPopReq
  | full
  | validOut
  | dataOut
  | tbDone
  deriving DecidableEq, Repr

/-- The names that `traceInitSub0` declares, by the module they are in. -/
inductive Signal where
  | top (p : Port)
  | port (p : Port)
  | pushReq
  | dataIn
  | popReq
  | distOutValid
  | distOutData
  | arbGrantOut
  | arbServedBank
  -- `dut_queue`
  | queueDepth
  | queueWidth
  | queueClk
  | queueReset
  | queuePushReq
  | queueDataIn
  | queueFull
  | queueValidOut
  | queueDataOut
  | queuePopReq
  | queuePtrW
  | queueMem (i : Fin 16)
  | queueHead
  | queueTail
  | queueCount
  -- `distributor`
  | distributorClk
  | distributorReset
  | distributorInValid
  | distributorInData
  | distributorOutValid
  | distributorOutData
  | distributorConsumerReady
  | distributorBufferedValid
  | distributorBufferedData
  | distributorInDataReg
  -- `arbiter`
  | arbiterClk
  | arbiterReset
  | arbiterInValid
  | arbiterInData
  | arbiterGrantOut
  | arbiterServedBank
  | arbiterRr
  | arbiterDummyBit
  deriving DecidableEq, Repr

def Port.code : Port → Nat
  | clk => 29
  | reset => 30
  | hostMode => 31
  | hostPushReq => 32
  | hostDataIn => 33
  | hostPopReq => 34
  | full => 35
  | validOut => 36
  | dataOut => 37
  | tbDone => 38

/-- The code under which `traceInitSub0` declares the name. -/
def Signal.code : Signal → Nat
  | top p | port p => p.code
  | pushReq => 26
  | dataIn => 27
  | popReq => 28
  | distOutValid => 1
  | distOutData => 2
  | arbGrantOut => 3
  | arbServedBank => 4
  | queueDepth => 40
  | queueWidth => 41
  | queueClk => 29
  | queueReset => 30
  | queuePushReq => 26
  | queueDataIn => 27
  | queueFull => 35
  | queueValidOut => 36
  | queueDataOut => 37
  | queuePopReq => 28
  | queuePtrW => 42
  | queueMem i => 5 + i
  | queueHead => 21
  | queueTail => 22
  | queueCount => 23
  | distributorClk => 29
  | distributorReset => 30
  | distributorInValid => 36
  | distributorInData => 37
  | distributorOutValid => 1
  | distributorOutData => 2
  | distributorConsumerReady => 43
  | distributorBufferedValid => 1
  | distributorBufferedData => 2
  | distributorInDataReg => 24
  | arbiterClk => 29
  | arbiterReset => 30
  | arbiterInValid => 36
  | arbiterInData => 37
  | arbiterGrantOut => 3
  | arbiterServedBank => 4
  | arbiterRr => 25
  | arbiterDummyBit => 39

/-- One bit as a word. -/
def flag (b : Bool) : Word := if b then 1 else 0

/-- An input port has what is assigned to it. -/
def Port.value (s : Driven) : Port → Word
  | clk => flag s.assigned.clk
  | reset => flag s.assigned.reset
  | hostMode => flag s.assigned.hostMode
  | hostPushReq => flag s.assigned.hostPushReq
  | hostDataIn => s.assigned.hostDataIn
  | hostPopReq => flag s.assigned.hostPopReq
  | full => flag s.tb.full
  | validOut => flag s.tb.validOut
  | dataOut => s.tb.dataOut
  | tbDone => flag s.tb.tbDone

/-- What the sources give a signal with the ports of the last `eval`: its register, or what its
port is connected to. -/
def Signal.value (s : Driven) : Signal → Word
  | top p | port p => p.value s
  | pushReq | queuePushReq => flag s.tb.pushReq
  | dataIn | queueDataIn => s.tb.dataIn
  | popReq | queuePopReq => flag s.tb.popReq
  | queueDepth => 16
  | queueWidth => 32
  | queuePtrW => BitVec.ofNat 32 (clog2 16)
  | queueClk | distributorClk | arbiterClk => Port.clk.value s
  | queueReset | distributorReset | arbiterReset => Port.reset.value s
  | queueFull => flag s.tb.full
  | queueValidOut | distributorInValid | arbiterInValid => flag s.tb.validOut
  | queueDataOut | distributorInData | arbiterInData => s.tb.dataOut
  | queueMem i => s.tb.queue.mem (BitVec.ofFin i)
  | queueHead => s.tb.queue.head.setWidth 32
  | queueTail => s.tb.queue.tail.setWidth 32
  | queueCount => s.tb.queue.count.setWidth 32
  | distOutValid | distributorOutValid => flag s.tb.distributor.outValid
  | distOutData | distributorOutData => s.tb.distributor.outData
  | distributorConsumerReady => 1
  | distributorBufferedValid => flag s.tb.distributor.bufferedValid
  | distributorBufferedData => s.tb.distributor.bufferedData
  | distributorInDataReg => s.tb.distributor.inDataReg
  | arbGrantOut | arbiterGrantOut => s.tb.arbiter.grantOut.setWidth 32
  | arbServedBank | arbiterServedBank => s.tb.arbiter.servedBank.setWidth 32
  | arbiterRr => flag s.tb.arbiter.rr
  | arbiterDummyBit => flag (redXor s.tb.dataOut)

/-- The input ports, and `tb_done`, which the harness assigns as well. -/
def isInput (code : Nat) : Bool := 29 ≤ code && code ≤ 34 || code == 38

/-! ## What a list of samples leaves in the file -/

section Emit

variable {W : Type} {vcd : Vcd W} {base : Nat} {record : W → Nat → Nat → Word → W}

/-- The file shows these samples. -/
def Shown (vcd : Vcd W) (base : Nat) (w : W) (l : List Sample) : Prop :=
  ∀ x ∈ l, vcd.shows w (base + x.code) = some x.shown

/-- `record` leaves its value and touches no other code. -/
def Records (vcd : Vcd W) (record : W → Nat → Nat → Word → W) : Prop :=
  ∀ w c n x, vcd.shows (record w c n x) = Function.update (vcd.shows w) c (some (cut n x))

theorem shows_emit (h : Records vcd record) {l : List Sample} {c : Nat}
    (hc : ∀ x ∈ l, x.code ≠ c) (w : W) :
    vcd.shows (emit record base l w) (base + c) = vcd.shows w (base + c) := by
  induction l generalizing w with
  | nil => rfl
  | cons x l ih =>
    have step : vcd.shows (record w (base + x.code) x.bits x.value) (base + c) =
        vcd.shows w (base + c) := by
      rw [h, Function.update_of_ne]
      have := hc x List.mem_cons_self
      omega
    exact (ih (fun y hy => hc y (List.mem_cons_of_mem _ hy)) _).trans step

/-- Samples of different codes are all shown once they have been recorded. -/
theorem shown_emit (h : Records vcd record) {l : List Sample}
    (nodup : (l.map Sample.code).Nodup) (w : W) : Shown vcd base (emit record base l w) l := by
  induction l generalizing w with
  | nil => exact fun x hx => absurd hx List.not_mem_nil
  | cons x l ih =>
    obtain ⟨fresh, nodup⟩ := List.nodup_cons.mp nodup
    intro y hy
    rcases List.mem_cons.mp hy with rfl | hy
    · have other : ∀ z ∈ l, z.code ≠ y.code := fun z hz e =>
        fresh (List.mem_map.mpr ⟨z, hz, e⟩)
      refine (shows_emit h other _).trans ?_
      rw [h, Function.update_self, Sample.shown]
    · exact ih nodup _ y hy

/-- Recording `l'` shows what is among it, and leaves alone what no code of it touches. -/
theorem Shown.emit (h : Records vcd record) {l l' : List Sample} {w : W}
    (nodup : (l'.map Sample.code).Nodup)
    (hl : l ⊆ l' ∨ Shown vcd base w l ∧ ∀ x ∈ l, ∀ y ∈ l', y.code ≠ x.code) :
    Shown vcd base (emit record base l' w) l := by
  intro x hx
  rcases hl with among | ⟨hl, disjoint⟩
  · exact shown_emit h nodup w x (among hx)
  · exact (shows_emit h (disjoint x hx) w).trans (hl x hx)

/-- Codes that are counted from one further on. -/
theorem emit_succ (l : List Sample) (w : W) :
    emit record (base + 1) l w = emit record base (l.map fun x => { x with code := 1 + x.code }) w := by
  simp only [emit, List.foldl_map, Nat.add_assoc]

theorem shown_append {w : W} {l l' : List Sample} :
    Shown vcd base w (l ++ l') ↔ Shown vcd base w l ∧ Shown vcd base w l' :=
  List.forall_mem_append

end Emit

section Samples

variable (v : Verilated)

/-- The outputs among the ports. -/
def Verilated.outputSamples : List Sample :=
  [⟨35, 1, Verilated.idata v.full⟩, ⟨36, 1, Verilated.idata v.validOut⟩, ⟨37, 32, v.dataOut⟩,
    ⟨39, 1, 1#32 &&& Verilated.idata (bit (redXor v.dataOut))⟩]

theorem codes_clockedSamples : (v.clockedSamples 1).map Sample.code = List.range' 1 25 := rfl

theorem codes_comboSamples : (v.comboSamples 26).map Sample.code = List.range' 26 3 := rfl

theorem codes_portSamples : (v.portSamples 29).map Sample.code = List.range' 29 11 := rfl

theorem codes_constantSamples : Verilated.constantSamples.map Sample.code = List.range' 40 4 := rfl

theorem codes_traceFullSub0 : v.traceFullSub0.map Sample.code = List.range' 1 43 := rfl

theorem outputSamples_subset : v.outputSamples ⊆ v.portSamples 29 := by
  intro x hx
  simp only [Verilated.outputSamples, List.mem_cons, List.not_mem_nil, or_false] at hx
  rcases hx with rfl | rfl | rfl | rfl <;> simp [Verilated.portSamples]

theorem mem_outputSamples {v : Verilated} {x : Sample} (hx : x ∈ v.portSamples 29)
    (hc : ¬ isInput x.code = true) : x ∈ v.outputSamples := by
  simp only [Verilated.portSamples, List.mem_cons, List.not_mem_nil, or_false] at hx
  rcases hx with rfl | rfl | rfl | rfl | rfl | rfl | rfl | rfl | rfl | rfl | rfl <;>
    first | exact absurd rfl hc | simp [Verilated.outputSamples]

/-- The samples of a dump after the first, with their codes. -/
def Verilated.changes (activity : Fin 3 → BitVec 8) : List Sample :=
  (if activity 1 ≠ 0 then v.clockedSamples 1 else []) ++
    (if activity 2 ≠ 0 then v.comboSamples 26 else []) ++ v.portSamples 29

theorem traceChgSub0_eq (activity : Fin 3 → BitVec 8) :
    (v.traceChgSub0 activity).map (fun x => { x with code := 1 + x.code }) = v.changes activity := by
  unfold Verilated.traceChgSub0 Verilated.changes
  split <;> split <;> rfl

/-- The codes of a change dump are some of those of a full one, in their order. -/
theorem codes_changes (activity : Fin 3 → BitVec 8) :
    ((v.changes activity).map Sample.code).Sublist (List.range' 1 39) := by
  have parts : List.range' 1 39 = List.range' 1 25 ++ List.range' 26 3 ++ List.range' 29 11 := rfl
  rw [parts, Verilated.changes, List.map_append, List.map_append, codes_portSamples]
  refine (List.Sublist.append ?_ ?_).append (List.Sublist.refl _)
  · split
    · exact (codes_clockedSamples v).symm ▸ List.Sublist.refl _
    · exact List.nil_sublist _
  · split
    · exact (codes_comboSamples v).symm ▸ List.Sublist.refl _
    · exact List.nil_sublist _

theorem mem_changes {v : Verilated} {activity : Fin 3 → BitVec 8} {x : Sample} :
    x ∈ v.changes activity ↔ activity 1 ≠ 0 ∧ x ∈ v.clockedSamples 1 ∨
      activity 2 ≠ 0 ∧ x ∈ v.comboSamples 26 ∨ x ∈ v.portSamples 29 := by
  unfold Verilated.changes
  by_cases h₁ : activity 1 = 0 <;> by_cases h₂ : activity 2 = 0 <;> simp [h₁, h₂]

/-- The codes of a group. -/
theorem code_mem {l : List Sample} {a n : Nat} (h : l.map Sample.code = List.range' a n)
    {x : Sample} (hx : x ∈ l) : a ≤ x.code ∧ x.code < a + n := by
  have hc : x.code ∈ List.range' a n := h ▸ List.mem_map_of_mem hx
  simpa using hc

end Samples

/-! ## What is not looked at has not changed -/

namespace Tracing

variable {W : Type} {vcd : Vcd W} {base : Nat} {opened : W} {s : Tracing W}

/-- The file shows the signals but for the inputs. -/
structure Steady (vcd : Vcd W) (base : Nat) (w : W) (v : Verilated) : Prop where
  clocked : Shown vcd base w (v.clockedSamples 1)
  combo : Shown vcd base w (v.comboSamples 26)
  outputs : Shown vcd base w v.outputSamples
  constants : Shown vcd base w Verilated.constantSamples

/-- What the flags stand for: a group whose flag is not set is shown as it is. -/
structure UpToDate (vcd : Vcd W) (base : Nat) (s : Tracing W) : Prop where
  clocked : s.traceActivity 1 = 0 → Shown vcd base s.wave (s.model.clockedSamples 1)
  combo : s.traceActivity 2 = 0 → Shown vcd base s.wave (s.model.comboSamples 26)
  constants : Shown vcd base s.wave Verilated.constantSamples
  quiet : s.activity = false → s.traceActivity 1 = 0 ∧ s.traceActivity 2 = 0 ∧
    Shown vcd base s.wave s.model.outputSamples

/-- Without a rising clock `_eval` leaves the registers alone. -/
theorem clockedSamples_combo (v : Verilated) (o : Nat) :
    v.combo.clockedSamples o = v.clockedSamples o := by
  unfold Verilated.combo
  split <;> rfl

theorem evalBody_clocked
    (h : s.traceActivity 1 = 0 → Shown vcd base s.wave (s.model.clockedSamples 1)) :
    s.evalBody.traceActivity 1 = 0 →
      Shown vcd base s.evalBody.wave (s.evalBody.model.clockedSamples 1) := by
  intro h₁
  have flag : s.evalBody.traceActivity 1 =
      if Verilated.idata s.model.clk &&& ~~~ Verilated.idata s.model.clkLast ≠ 0 then 1
      else s.traceActivity 1 := by
    simp only [evalBody]
    rw [Function.update_of_ne (by decide)]
    split
    · exact Function.update_self ..
    · rfl
  by_cases rising : Verilated.idata s.model.clk &&& ~~~ Verilated.idata s.model.clkLast ≠ 0
  · rw [flag, if_pos rising] at h₁
    cases h₁
  · rw [flag, if_neg rising] at h₁
    have same : s.evalBody.model.clockedSamples 1 = s.model.clockedSamples 1 := by
      show ({ (if Verilated.idata s.model.clk &&& ~~~ Verilated.idata s.model.clkLast ≠ 0 then
        s.model.sequent else s.model).combo with clkLast := _ } : Verilated).clockedSamples 1 = _
      rw [if_neg rising]
      exact clockedSamples_combo s.model 1
    rw [same]
    exact h h₁

theorem evalBody_combo : s.evalBody.traceActivity 2 ≠ 0 := by
  simp [evalBody]

/-- `eval` sets the flags of what it may change. -/
theorem UpToDate.eval (h : UpToDate vcd base s) : UpToDate vcd base s.eval := by
  have constants : Shown vcd base s.eval.wave Verilated.constantSamples := by
    unfold Tracing.eval
    split <;> exact h.constants
  have active : s.eval.activity = true := by
    unfold Tracing.eval
    split <;> rfl
  have clocked : s.eval.traceActivity 1 = 0 →
      Shown vcd base s.eval.wave (s.eval.model.clockedSamples 1) := by
    unfold Tracing.eval
    refine evalBody_clocked ?_
    split
    · exact h.clocked
    · exact evalBody_clocked (s := { s with model := _, activity := true, traceActivity := _ })
        fun h₁ => nomatch h₁
  refine ⟨clocked, fun h₂ => absurd h₂ evalBody_combo, constants, fun quiet => ?_⟩
  rw [active] at quiet
  cases quiet

/-- A port that a harness assigns is in no group that has a flag. -/
theorem UpToDate.assign (h : UpToDate vcd base s) {d : Stimulus} (hd : d ≠ .eval) :
    UpToDate vcd base { s with model := s.model.stimulate d } := by
  cases d with
  | eval => exact absurd rfl hd
  | _ => exact ⟨h.clocked, h.combo, h.constants, h.quiet⟩

/-- Right after a dump. -/
theorem Steady.upToDate (h : Steady vcd base s.wave s.model) : UpToDate vcd base s.traceCleanup :=
  ⟨fun _ => h.clocked, fun _ => h.combo, h.constants, fun _ => ⟨rfl, rfl, h.outputs⟩⟩

section Dump

@[simp] theorem dump_model : (s.dump vcd base).model = s.model := by
  cases due : vcd.fullDue s.wave <;> cases active : s.activity <;>
    simp [dump, traceCleanup, traceChgTop0, traceFullTop0, due, active]

variable (law : vcd.Lawful opened)

include law

theorem shown_stamp {l : List Sample} {w : W} (h : Shown vcd base w l) (t : Nat) :
    Shown vcd base (vcd.stamp w t) l := by
  intro x hx
  rw [law.shows_stamp]
  exact h x hx

theorem shown_full (w : W) (v : Verilated) :
    Shown vcd base (emit vcd.full base v.traceFullSub0 w) v.traceFullSub0 :=
  shown_emit law.shows_full (codes_traceFullSub0 v ▸ List.nodup_range') w

/-- A dump after the first: what it does not record is shown already. -/
theorem UpToDate.changes (h : UpToDate vcd base s) (t : Nat) :
    Steady vcd base (emit vcd.chg base (s.model.changes s.traceActivity) (vcd.stamp s.wave t))
        s.model ∧
      Shown vcd base (emit vcd.chg base (s.model.changes s.traceActivity) (vcd.stamp s.wave t))
        (s.model.portSamples 29) := by
  have nodup : ((s.model.changes s.traceActivity).map Sample.code).Nodup :=
    (codes_changes s.model s.traceActivity).nodup List.nodup_range'
  have ports : s.model.portSamples 29 ⊆ s.model.changes s.traceActivity := fun x hx =>
    mem_changes.mpr (Or.inr (Or.inr hx))
  have shown : Shown vcd base (emit vcd.chg base (s.model.changes s.traceActivity)
      (vcd.stamp s.wave t)) (s.model.portSamples 29) :=
    Shown.emit law.shows_chg nodup (Or.inl ports)
  refine ⟨⟨?_, ?_, fun x hx => shown x (outputSamples_subset s.model hx), ?_⟩, shown⟩
  · refine Shown.emit law.shows_chg nodup ?_
    by_cases h₁ : s.traceActivity 1 = 0
    · refine Or.inr ⟨shown_stamp law (h.clocked h₁) t, fun x hx y hy => ?_⟩
      have hx := code_mem (codes_clockedSamples s.model) hx
      rcases mem_changes.mp hy with ⟨h₁', -⟩ | ⟨-, hy⟩ | hy
      · exact absurd h₁ h₁'
      · have hy := code_mem (codes_comboSamples s.model) hy
        omega
      · have hy := code_mem (codes_portSamples s.model) hy
        omega
    · exact Or.inl fun x hx => mem_changes.mpr (Or.inl ⟨h₁, hx⟩)
  · refine Shown.emit law.shows_chg nodup ?_
    by_cases h₂ : s.traceActivity 2 = 0
    · refine Or.inr ⟨shown_stamp law (h.combo h₂) t, fun x hx y hy => ?_⟩
      have hx := code_mem (codes_comboSamples s.model) hx
      rcases mem_changes.mp hy with ⟨-, hy⟩ | ⟨h₂', -⟩ | hy
      · have hy := code_mem (codes_clockedSamples s.model) hy
        omega
      · exact absurd h₂ h₂'
      · have hy := code_mem (codes_portSamples s.model) hy
        omega
    · exact Or.inl fun x hx => mem_changes.mpr (Or.inr (Or.inl ⟨h₂, hx⟩))
  · refine Shown.emit law.shows_chg nodup
      (Or.inr ⟨shown_stamp law h.constants t, fun x hx y hy => ?_⟩)
    have hx := code_mem codes_constantSamples hx
    have hy : y.code ∈ List.range' 1 39 :=
      (codes_changes s.model s.traceActivity).subset (List.mem_map_of_mem hy)
    have := List.mem_range'_1.mp hy
    omega

/-- **What a dump shows.**  It leaves nothing out but inputs that no `eval` has seen. -/
theorem dump_shows (h : s.wave = opened ∨ UpToDate vcd base s) :
    Steady vcd base (s.dump vcd base).wave s.model ∧
      (s.wave = opened ∨ s.activity = true →
        Shown vcd base (s.dump vcd base).wave (s.model.portSamples 29)) := by
  by_cases due : vcd.fullDue s.wave = true
  · have wave : (s.dump vcd base).wave =
        emit vcd.full base s.model.traceFullSub0 (vcd.stamp s.wave s.time) := by
      simp only [dump, due, if_true]
      rfl
    have all : Shown vcd base _ _ := shown_full law (vcd.stamp s.wave s.time) s.model
    simp only [Verilated.traceFullSub0, shown_append] at all
    obtain ⟨⟨⟨clocked, combo⟩, ports⟩, constants⟩ := all
    rw [wave]
    exact ⟨⟨clocked, combo, fun x hx => ports x (outputSamples_subset s.model hx), constants⟩,
      fun _ => ports⟩
  · have upToDate : UpToDate vcd base s := h.resolve_left fun e => due (e ▸ law.first)
    by_cases active : s.activity = true
    · have wave : (s.dump vcd base).wave =
          emit vcd.chg base (s.model.changes s.traceActivity) (vcd.stamp s.wave s.time) := by
        rw [← traceChgSub0_eq, ← emit_succ]
        simp only [dump, due, traceChgTop0, active, if_true]
        rfl
      rw [wave]
      exact (upToDate.changes law s.time).imp_right fun shown _ => shown
    · have wave : (s.dump vcd base).wave = vcd.stamp s.wave s.time := by
        simp only [dump, due, traceChgTop0, active]
        rfl
      obtain ⟨h₁, h₂, outputs⟩ := upToDate.quiet (Bool.eq_false_iff.mpr active)
      rw [wave]
      refine ⟨⟨shown_stamp law (upToDate.clocked h₁) s.time,
        shown_stamp law (upToDate.combo h₂) s.time, shown_stamp law outputs s.time,
        shown_stamp law upToDate.constants s.time⟩, fun seen => ?_⟩
      rcases seen with e | active'
      · exact absurd (e ▸ law.first) due
      · exact absurd active' active

theorem UpToDate.next (h : s.wave = opened ∨ UpToDate vcd base s) (a : TraceAction) :
    (s.next vcd base a).wave = opened ∨ UpToDate vcd base (s.next vcd base a) := by
  cases a with
  | dump =>
    refine Or.inr ?_
    have steady := (dump_shows law h).1
    have model : (s.dump vcd base).model = s.model := dump_model
    rw [← model] at steady
    -- the flags are clear already
    have cleaned : (s.dump vcd base).traceCleanup = s.next vcd base .dump := rfl
    have upToDate := steady.upToDate
    rwa [cleaned] at upToDate
  | drive d =>
    by_cases hd : d = .eval
    · subst hd
      refine h.imp (fun e => ?_) UpToDate.eval
      show s.eval.wave = opened
      unfold Tracing.eval
      split <;> exact e
    · have assign : s.next vcd base (.drive d) = { s with model := s.model.stimulate d } := by
        cases d <;> first | rfl | exact absurd rfl hd
      rw [assign]
      exact h.imp id fun h => h.assign hd

end Dump

end Tracing

/-! ## The values in the file and the signals of the sources -/

section Values

theorem cut_bit {x : BitVec 8} {b : Bool} (h : x = bit b) : cut 1 (Verilated.idata x) = flag b := by
  subst h
  cases b <;> decide

theorem cut_word (w : Word) : cut 32 w = w := by
  simp [cut]

theorem cut_register {x : BitVec 8} {m : Nat} {y : BitVec m} (n : Nat) (hn : m = n)
    (h : x.toNat = y.toNat) : cut n (Verilated.idata x) = y.setWidth 32 := by
  subst hn
  rw [← BitVec.toNat_inj]
  simp [cut, Verilated.idata, h, Nat.mod_eq_of_lt y.isLt]

theorem cut_redXor (b : Bool) : cut 1 (1#32 &&& Verilated.idata (bit b)) = flag b := by
  cases b <;> decide

/-- A full dump has this value under the code. -/
def Has (v : Verilated) (code : Nat) (y : Word) : Prop :=
  ∃ x ∈ v.traceFullSub0, x.code = code ∧ x.shown = y

theorem Has.at {v : Verilated} {x : Sample} {y : Word} (i : Nat)
    (hx : v.traceFullSub0[i]? = some x) (hy : x.shown = y) : Has v x.code y :=
  ⟨x, List.mem_of_getElem? hx, rfl, hy⟩

variable {v : Verilated} {s : Driven} (h : Shows v s)

include h

theorem has_port (p : Port) : Has v p.code (p.value s) := by
  cases p with
  | clk => exact Has.at 28 rfl (cut_bit h.clk)
  | reset => exact Has.at 29 rfl (cut_bit h.reset)
  | hostMode => exact Has.at 30 rfl (cut_bit h.hostMode)
  | hostPushReq => exact Has.at 31 rfl (cut_bit h.hostPushReq)
  | hostDataIn => exact Has.at 32 rfl ((cut_word _).trans h.hostDataIn)
  | hostPopReq => exact Has.at 33 rfl (cut_bit h.hostPopReq)
  | full => exact Has.at 34 rfl (cut_bit h.full)
  | validOut => exact Has.at 35 rfl (cut_bit h.validOut)
  | dataOut => exact Has.at 36 rfl ((cut_word _).trans h.dataOut)
  | tbDone => exact Has.at 37 rfl (cut_bit h.tbDone)

/-- Every declared name has its code and its value. -/
theorem has_signal (g : Signal) : Has v g.code (g.value s) := by
  have port := has_port h
  cases g with
  | top p | port p => exact port p
  | pushReq | queuePushReq => exact Has.at 25 rfl (cut_bit h.pushReq)
  | dataIn | queueDataIn => exact Has.at 26 rfl ((cut_word _).trans h.dataIn)
  | popReq | queuePopReq => exact Has.at 27 rfl (cut_bit h.popReq)
  | queueClk | distributorClk | arbiterClk => exact port .clk
  | queueReset | distributorReset | arbiterReset => exact port .reset
  | queueFull => exact port .full
  | queueValidOut | distributorInValid | arbiterInValid => exact port .validOut
  | queueDataOut | distributorInData | arbiterInData => exact port .dataOut
  | queueDepth => exact Has.at 39 rfl (cut_word _)
  | queueWidth => exact Has.at 40 rfl (cut_word _)
  | queuePtrW => exact Has.at 41 rfl (cut_word _)
  | queueMem i =>
    refine ⟨⟨5 + i, 32, v.mem i⟩, ?_, rfl, (cut_word _).trans (h.mem i)⟩
    have among : (⟨5 + i, 32, v.mem i⟩ : Sample) ∈ v.clockedSamples 1 := by
      simp only [Verilated.clockedSamples, List.mem_append, List.mem_map]
      exact Or.inl (Or.inr ⟨i, List.mem_finRange i, rfl⟩)
    simp only [Verilated.traceFullSub0, List.mem_append]
    exact Or.inl (Or.inl (Or.inl among))
  | queueHead => exact Has.at 20 rfl (cut_register 4 (by decide) h.head)
  | queueTail => exact Has.at 21 rfl (cut_register 4 (by decide) h.tail)
  | queueCount => exact Has.at 22 rfl (cut_register 5 (by decide) h.count)
  | distOutValid | distributorOutValid | distributorBufferedValid =>
    exact Has.at 0 rfl (cut_bit h.bufferedValid)
  | distOutData | distributorOutData | distributorBufferedData =>
    exact Has.at 1 rfl ((cut_word _).trans h.bufferedData)
  | distributorConsumerReady => exact Has.at 42 rfl (show cut 1 1 = 1 by decide)
  | distributorInDataReg => exact Has.at 23 rfl ((cut_word _).trans h.inDataReg)
  | arbGrantOut | arbiterGrantOut =>
    exact Has.at 2 rfl (cut_register 2 rfl h.grantOut)
  | arbServedBank | arbiterServedBank =>
    exact Has.at 3 rfl (cut_register 2 rfl h.servedBank)
  | arbiterRr => exact Has.at 24 rfl (cut_bit h.rr)
  | arbiterDummyBit =>
    refine Has.at 38 rfl ((cut_redXor _).trans ?_)
    rw [h.dataOut]
    rfl

end Values

/-! ## Whole runs -/

namespace Tracing

variable {W : Type} {vcd : Vcd W} {base : Nat} {opened : W}

@[simp] theorem eval_model (s : Tracing W) : s.eval.model = s.model.eval := by
  unfold Tracing.eval Verilated.eval
  split <;> rfl

@[simp] theorem eval_wave (s : Tracing W) : s.eval.wave = s.wave := by
  unfold Tracing.eval
  split <;> rfl

@[simp] theorem eval_activity (s : Tracing W) : s.eval.activity = true := by
  unfold Tracing.eval
  split <;> rfl

theorem drive_model (s : Tracing W) (d : Stimulus) :
    (s.next vcd base (.drive d)).model = s.model.stimulate d := by
  cases d with
  | eval => exact eval_model s
  | _ => rfl

theorem drive_wave (s : Tracing W) (d : Stimulus) :
    (s.next vcd base (.drive d)).wave = s.wave := by
  cases d with
  | eval => exact eval_wave s
  | _ => rfl

theorem drive_activity (s : Tracing W) (d : Stimulus) (h : s.activity = true) :
    (s.next vcd base (.drive d)).activity = true := by
  cases d with
  | eval => exact eval_activity s
  | _ => exact h

theorem tied_next {s : Tracing W} {t : Driven} (h : Tied s.model t) (a : TraceAction)
    (settled : SettledTrace t a) : Tied (s.next vcd base a).model (t.next a) := by
  cases a with
  | dump =>
    have model : (s.dump vcd base).model = s.model := dump_model
    exact model ▸ h
  | drive d => exact drive_model s d ▸ h.stimulate d settled

/-- An `eval` stands after the last dump, or there was no dump at all. -/
def Evaluated (as : List TraceAction) : Prop :=
  .dump ∉ as ∨ ∃ bs cs, as = bs ++ .drive .eval :: cs ∧ .dump ∉ cs

section Run

variable {s : Tracing W} {as : List TraceAction} (quiet : .dump ∉ as)

include quiet

theorem run_wave : (run (next vcd base) s as).wave = s.wave :=
  (guarded_of_forall_mem (next vcd base) (P := fun a => a ≠ .dump)
    (fun a ha e => quiet (e ▸ ha)) s).invariant (I := fun s' => s'.wave = s.wave)
    (fun s' a e ha => by
      cases a with
      | dump => exact absurd rfl ha
      | drive d => exact (drive_wave s' d).trans e) rfl

theorem run_activity (h : s.activity = true) : (run (next vcd base) s as).activity = true :=
  (guarded_of_forall_mem (next vcd base) (P := fun a => a ≠ .dump)
    (fun a ha e => quiet (e ▸ ha)) s).invariant (I := fun s' => s'.activity = true)
    (fun s' a h ha => by
      cases a with
      | dump => exact absurd rfl ha
      | drive d => exact drive_activity s' d h) h

end Run

/-- Driving the class without a dump is what a harness without a trace does. -/
theorem run_drive_model (s : Tracing W) (ds : List Stimulus) :
    (run (next vcd base) s (ds.map .drive)).model = run Verilated.stimulate s.model ds := by
  induction ds generalizing s with
  | nil => rfl
  | cons d ds ih =>
    rw [List.map_cons, run_cons, ih, drive_model]
    rfl

/-- The testbench at power-on. -/
def start (v : Verilated) : Driven := .powerOn v.queue v.distributor v.arbiter

/-- **The waveform shows the testbench.**  Over any registers and flags at power-on, whatever a
harness assigns and whenever it calls `eval` and dumps, if nothing but the clock changes when it
rises: after each dump the file shows under each declared name the value that the sources give
the signal with the ports of the last `eval`, and for an input what is assigned to it, if an
`eval` stands between the dump and the one before. -/
theorem waveform_shows (law : vcd.Lawful opened) (base : Nat) (s : Tracing W)
    (hw : s.model.InWidth) (hi : s.model.didInit = false) (ho : s.wave = opened)
    (as : List TraceAction) (settled : Guarded Driven.next SettledTrace (start s.model) as)
    (g : Signal) (hg : isInput g.code = true → Evaluated as) :
    vcd.shows (run (next vcd base) (s.powerOn vcd base) (as ++ [.dump])).wave (base + g.code) =
      some (g.value (run Driven.next (start s.model) as)) := by
  have wave : (s.powerOn vcd base).wave = opened := (run_wave (by decide)).trans ho
  have active : (s.powerOn vcd base).activity = true := eval_activity _
  have powered : Tied (s.powerOn vcd base).model (start s.model) := by
    have model : (s.powerOn vcd base).model = s.model.powerOn := run_drive_model s _
    exact model ▸ tied_powerOn hw hi
  have tied : Tied (run (next vcd base) (s.powerOn vcd base) as).model
      (run Driven.next (start s.model) as) :=
    run_related_guarded (R := fun (s : Tracing W) t => Tied s.model t)
      (fun _ _ a h => tied_next h a) powered settled
  have upToDate := run_invariant (I := fun s => s.wave = opened ∨ UpToDate vcd base s)
    (fun _ a h => UpToDate.next law h a) (Or.inl wave) as
  have seen (h : Evaluated as) : (run (next vcd base) (s.powerOn vcd base) as).wave = opened ∨
      (run (next vcd base) (s.powerOn vcd base) as).activity = true := by
    rcases h with quiet | ⟨bs, cs, rfl, quiet⟩
    · exact Or.inl ((run_wave quiet).trans wave)
    · rw [run_append, run_cons]
      exact Or.inr (run_activity quiet (eval_activity _))
  rw [run_concat]
  generalize run (next vcd base) (s.powerOn vcd base) as = s' at tied upToDate seen
  generalize run Driven.next (start s.model) as = t at tied
  obtain ⟨steady, ports⟩ := dump_shows law upToDate
  obtain ⟨x, hx, hcode, hvalue⟩ := has_signal tied.shows g
  rw [← hcode] at hg ⊢
  rw [← hvalue]
  simp only [Verilated.traceFullSub0, List.mem_append] at hx
  rcases hx with ((hx | hx) | hx) | hx
  · exact steady.clocked x hx
  · exact steady.combo x hx
  · by_cases hin : isInput x.code = true
    · exact ports (seen (hg hin)) x hx
    · exact steady.outputs x (mem_outputSamples hx hin)
  · exact steady.constants x hx

/-- A file as the list of what was recorded, latest first. -/
def recorder : Vcd (List (Nat × Word)) where
  full w c n x := (c, cut n x) :: w
  chg w c n x := if w.lookup c = some (cut n x) then w else (c, cut n x) :: w
  stamp w _ := w
  fullDue w := w.isEmpty
  shows w c := w.lookup c

theorem lawful_recorder : recorder.Lawful [] := by
  have cons (w : List (Nat × Word)) (c : Nat) (x : Word) :
      (fun c' => ((c, x) :: w).lookup c') = Function.update (fun c' => w.lookup c') c (some x) := by
    funext c'
    by_cases h : c' = c
    · subst h
      simp
    · rw [Function.update_of_ne h, List.lookup_cons, beq_false_of_ne h]
  refine ⟨rfl, fun w c n x => cons w c (cut n x), fun w c n x => ?_, fun _ _ => rfl⟩
  show (fun c' => (if w.lookup c = some (cut n x) then w else (c, cut n x) :: w).lookup c') = _
  by_cases h : w.lookup c = some (cut n x)
  · rw [if_pos h, ← h]
    exact (Function.update_eq_self c _).symm
  · rw [if_neg h]
    exact cons w c (cut n x)

/-- Out of reset a push is dumped half a clock at a time, and the next pop asked for. -/
def pushTrace : List TraceAction :=
  [.dump, .drive (.reset false), .drive (.hostPushReq true), .drive (.hostDataIn 7),
    .drive (.clk false), .drive .eval, .dump, .drive (.clk true), .drive .eval, .dump,
    .drive (.hostPushReq false), .drive (.hostPopReq true), .drive (.clk false), .drive .eval]

theorem waveform_shows_pushTrace :
    Signal.value (run Driven.next (start .zero) pushTrace) (.port .hostPopReq) = 1 ∧
      recorder.shows (run (next recorder 1) (powerOn recorder 1 ⟨.zero, false, fun _ => 0, [], 0⟩)
        (pushTrace ++ [.dump])).wave (1 + Signal.code (.port .hostPopReq)) =
        some (Signal.value (run Driven.next (start .zero) pushTrace) (.port .hostPopReq)) :=
  ⟨rfl, waveform_shows lawful_recorder 1 ⟨.zero, false, fun _ => 0, [], 0⟩
    ⟨by decide, by decide, by decide, by decide, by decide, by decide, by decide⟩ rfl rfl
    pushTrace (by decide) (.port .hostPopReq) fun _ =>
      Or.inr ⟨pushTrace.take 13, [], rfl, by decide⟩⟩

end Tracing

end TaskQueueCoSim
