import TaskQueueCoSim.Lib.Machine
import TaskQueueCoSim.Rtl.Testbench

/-!
# The hardware-only harness, `hw/verilator_main.cpp`

`Bench` holds the globals of the harness.  `hostTryPush` and `hostTryPop` are
its non-blocking helpers and `runRandomizedTest` its randomized test, with
`rand()` an arbitrary stream of numbers.  The reference deque `sw` is a list
with its front first.
-/

namespace TaskQueueCoSim.Harness

open Machine VtbTaskQueue

structure Metrics where
  attemptedPushes : Nat := 0
  successfulPushes : Nat := 0
  refusedPushes : Nat := 0
  attemptedPops : Nat := 0
  successfulPops : Nat := 0
  refusedPops : Nat := 0
  mismatches : Nat := 0
  deriving DecidableEq, Repr

structure Bench where
  top : VtbTaskQueue
  cycles : Nat
  metrics : Metrics

def tick (g : Bench) : Bench := { g with top := g.top.tick, cycles := g.cycles + 1 }

def ticks : Nat → Bench → Bench
  | 0, g => g
  | n + 1, g => ticks n (tick g)

def resetCycles (n : Nat) (g : Bench) : Bench :=
  let g := ticks n { g with top := { g.top with reset := true } }
  tick { g with top := { g.top with reset := false } }

/-- The return code, `0` or `-1`, and the state after the call. -/
def hostTryPush (v : Word) (g : Bench) : Int × Bench :=
  let g := { g with metrics := { g.metrics with attemptedPushes := g.metrics.attemptedPushes + 1 } }
  if g.top.full then
    (-1, { g with metrics := { g.metrics with refusedPushes := g.metrics.refusedPushes + 1 } })
  else
    let g := tick { g with top := g.top.raisePush v }
    (0, { g with
      top := { g.top.lowerPush with hostDataIn := 0 }
      metrics := { g.metrics with successfulPushes := g.metrics.successfulPushes + 1 } })

/-- `some out` when the return code is `0`, `none` when it is `-1`. -/
def hostTryPop (g : Bench) : Option Word × Bench :=
  let g := { g with metrics := { g.metrics with attemptedPops := g.metrics.attemptedPops + 1 } }
  if !g.top.validOut then
    (none, { g with metrics := { g.metrics with refusedPops := g.metrics.refusedPops + 1 } })
  else
    -- sampled before the edge
    let sampled := g.top.dataOut
    let g := tick { g with top := g.top.raisePop }
    (some sampled, { g with
      top := g.top.lowerPop
      metrics := { g.metrics with successfulPops := g.metrics.successfulPops + 1 } })

def mismatch (g : Bench) : Bench :=
  { g with metrics := { g.metrics with mismatches := g.metrics.mismatches + 1 } }

/-- The randomized test in its loop: the globals, the reference deque, and how
many numbers `rand()` has given out. -/
structure RandomizedTest where
  bench : Bench
  sw : List Word
  drawn : Nat

def pushOp (v : Word) (s : RandomizedTest) : RandomizedTest :=
  let (rc, g) := hostTryPush v s.bench
  { s with bench := g, sw := if rc = 0 then s.sw ++ [v] else s.sw }

def popOp (s : RandomizedTest) : RandomizedTest :=
  match hostTryPop s.bench with
  | (some out, g) =>
    match s.sw with
    | [] => { s with bench := mismatch g }
    | expected :: sw => { s with bench := if expected ≠ out then mismatch g else g, sw := sw }
  | (none, g) => { s with bench := if s.sw ≠ [] then mismatch g else g }

/-- The body of the `for` loop. -/
def randomOp (rand : Nat → Nat) (s : RandomizedTest) : RandomizedTest :=
  let op := rand s.drawn % 3
  let s := { s with drawn := s.drawn + 1 }
  if op = 0 then
    pushOp (BitVec.ofNat 32 (rand s.drawn)) { s with drawn := s.drawn + 1 }
  else if op = 1 then popOp s
  else { s with bench := tick s.bench }

def randomOps (rand : Nat → Nat) (n : Nat) (s : RandomizedTest) : RandomizedTest :=
  run (fun s _ => randomOp rand s) s (List.range n)

/-- `while (!sw.empty())`: each round takes the front off `sw` or breaks. -/
def drain (s : RandomizedTest) : RandomizedTest :=
  go s.bench s.sw
where
  go (g : Bench) : List Word → RandomizedTest
    | [] => { s with bench := g, sw := [] }
    | expected :: sw =>
      match hostTryPop g with
      | (some out, g) => go (if expected ≠ out then mismatch g else g) sw
      | (none, g) => { s with bench := mismatch g, sw := expected :: sw }

def startRandomizedTest (g : Bench) : RandomizedTest where
  bench := resetCycles 4 { g with metrics := {}, top := { g.top with hostMode := true } }
  sw := []
  drawn := 0

def runRandomizedTest (rand : Nat → Nat) (ops : Int) (g : Bench) : RandomizedTest :=
  drain (randomOps rand ops.toNat (startRandomizedTest g))

end TaskQueueCoSim.Harness
