import Mathlib.Logic.Function.Basic
import TaskQueueCoSim.Lib.Machine
import TaskQueueCoSim.Rtl.QueueCore

/-!
# The co-simulation host, `sw/tests/test_task_queue_host.c`

`main` runs the deterministic phase, the randomized phase and the drain loop
against a `Device`, which is whatever `mmio_push` and `mmio_pop` do to a state.
`rand()` is an arbitrary stream of numbers and `swbuf` has arbitrary contents
at first.  The state keeps the counters, the software golden queue and the text
of `trace.csv`.
-/

namespace TaskQueueCoSim.HostTest

open Machine

/-- The two calls: what they return, `0`, `-1` or `-2`, and for a pop what it
leaves in `*out`.  The number is `timeout_iters`. -/
structure Device (σ : Type) where
  mmioPush : Word → Nat → σ → Int × σ
  mmioPop : Nat → σ → Int × Word × σ

structure Metrics where
  attemptedPush : Nat := 0
  successPush : Nat := 0
  refusedPush : Nat := 0
  attemptedPop : Nat := 0
  successPop : Nat := 0
  refusedPop : Nat := 0
  mismatches : Nat := 0
  deriving DecidableEq, Repr

/-- The software golden queue.  Arithmetic on `Fin 16` is that modulo `swdepth`. -/
structure Ring where
  swbuf : Fin 16 → Word
  swhead : Fin 16 := 0
  swtail : Fin 16 := 0
  swcount : Nat := 0

def swdepth : Nat := 16

structure Host (σ : Type) where
  device : σ
  /-- how many numbers `rand()` has given out -/
  drawn : Nat
  metrics : Metrics
  ring : Ring
  trace : List Char

/-! ## The trace file -/

def hexDigit (n : Nat) : Char := if n < 10 then Char.ofNat (48 + n) else Char.ofNat (87 + n)

/-- `%08x` -/
def hex8 (v : Word) : List Char :=
  [7, 6, 5, 4, 3, 2, 1, 0].map fun i => hexDigit (v.toNat / 16 ^ i % 16)

def traceHeader : List Char := ['o', 'p', ',', 'v', 'a', 'l', 'u', 'e', '\n']

def tracePush (v : Word) : List Char := ['p', 'u', 's', 'h', ',', '0', 'x'] ++ hex8 v ++ ['\n']

def tracePop (v : Word) : List Char := ['p', 'o', 'p', ',', '0', 'x'] ++ hex8 v ++ ['\n']

/-! ## Counters and golden queue -/

def Metrics.countPush (m : Metrics) (r : Int) : Metrics :=
  let m := { m with attemptedPush := m.attemptedPush + 1 }
  if r = 0 then { m with successPush := m.successPush + 1 }
  else if r = -1 then { m with refusedPush := m.refusedPush + 1 }
  else m

def Metrics.countPop (m : Metrics) (r : Int) : Metrics :=
  let m := { m with attemptedPop := m.attemptedPop + 1 }
  if r = 0 then { m with successPop := m.successPop + 1 }
  else if r = -1 then { m with refusedPop := m.refusedPop + 1 }
  else m

def Metrics.mismatch (m : Metrics) : Metrics := { m with mismatches := m.mismatches + 1 }

/-- A word that finds the golden queue full is dropped. -/
def Ring.push (b : Ring) (v : Word) : Ring :=
  if b.swcount < swdepth then
    { swbuf := Function.update b.swbuf b.swtail v
      swhead := b.swhead
      swtail := b.swtail + 1
      swcount := b.swcount + 1 }
  else b

def Ring.expected (b : Ring) : Word := b.swbuf b.swhead

def Ring.pop (b : Ring) : Ring := { b with swhead := b.swhead + 1, swcount := b.swcount - 1 }

/-! ## The phases -/

variable {σ : Type} (dev : Device σ)

def deterministicPush (v : Word) (s : Host σ) : Host σ :=
  let (r, device) := dev.mmioPush v 1000 s.device
  { s with
    device := device
    metrics := s.metrics.countPush r
    trace := if r = 0 then s.trace ++ tracePush v else s.trace }

def deterministicPop (s : Host σ) : Host σ :=
  let (r, out, device) := dev.mmioPop 1000 s.device
  { s with
    device := device
    metrics := s.metrics.countPop r
    trace := if r = 0 then s.trace ++ tracePop out else s.trace }

def vals : List Word := [0xA5A5A5A5#32, 0xDEADBEEF#32, 0x01234567#32, 0x89ABCDEF#32]

def deterministic (s : Host σ) : Host σ :=
  let s := run (fun s v => deterministicPush dev v s) s vals
  run (fun s _ => deterministicPop dev s) s (List.range 2)

def randomPush (v : Word) (s : Host σ) : Host σ :=
  let (r, device) := dev.mmioPush v 100 s.device
  let m := s.metrics.countPush r
  if r = 0 then
    { s with device := device, metrics := m, ring := s.ring.push v, trace := s.trace ++ tracePush v }
  else { s with device := device, metrics := m }

def randomPop (s : Host σ) : Host σ :=
  let (r, out, device) := dev.mmioPop 100 s.device
  let m := s.metrics.countPop r
  if r = 0 then
    let s := { s with device := device, trace := s.trace ++ tracePop out }
    if s.ring.swcount = 0 then { s with metrics := m.mismatch }
    else { s with
      metrics := if s.ring.expected ≠ out then m.mismatch else m
      ring := s.ring.pop }
  else { s with device := device, metrics := m }

/-- The body of the `for` loop; an idle round only sleeps. -/
def randomOp (rand : Nat → Nat) (s : Host σ) : Host σ :=
  let op := rand s.drawn % 3
  let s := { s with drawn := s.drawn + 1 }
  if op = 0 then
    randomPush dev (BitVec.ofNat 32 (rand s.drawn)) { s with drawn := s.drawn + 1 }
  else if op = 1 then randomPop dev s
  else s

def OPS : Nat := 10000

def randomized (rand : Nat → Nat) (s : Host σ) : Host σ :=
  run (fun s _ => randomOp dev rand s) s (List.range OPS)

/-- `while (swcount > 0)`; a pop that is refused or times out leaves the loop. -/
def drain (s : Host σ) : Host σ :=
  if 0 < s.ring.swcount then
    let (r, out, device) := dev.mmioPop 1000 s.device
    let m := { s.metrics with attemptedPop := s.metrics.attemptedPop + 1 }
    if r = 0 then
      let m := { m with successPop := m.successPop + 1 }
      drain { s with
        device := device
        metrics := if s.ring.expected ≠ out then m.mismatch else m
        ring := s.ring.pop
        trace := s.trace ++ tracePop out }
    else { s with device := device, metrics := m }
  else s
termination_by s.ring.swcount
decreasing_by
  simp only [Ring.pop]
  omega

/-- The state of `main` when it opens `trace.csv`, and when it declares `swbuf`,
the counters and the golden queue. -/
def start (swbuf : Fin 16 → Word) (device : σ) : Host σ where
  device := device
  drawn := 0
  metrics := {}
  ring := { swbuf := swbuf }
  trace := traceHeader

/-- The state when `main` signals `TB_DONE`. -/
def main (rand : Nat → Nat) (swbuf : Fin 16 → Word) (device : σ) : Host σ :=
  drain dev (randomized dev rand (deterministic dev (start swbuf device)))

def Host.exitStatus (s : Host σ) : Nat := if s.metrics.mismatches = 0 then 0 else 2

end TaskQueueCoSim.HostTest
