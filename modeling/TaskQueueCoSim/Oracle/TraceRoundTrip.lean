import TaskQueueCoSim.Host.TestTaskQueueHost
import TaskQueueCoSim.Oracle.CheckTrace

/-!
# The host's trace as the oracle reads it

`Device.recording` is a device that keeps the calls it answered with 0.  The
host runs on it as on the device itself, so what it has kept at the end are the
successful operations of the run, and `Logged` says that the trace has their
lines and the counters their numbers.

* `text_eventLine`, `event_eventLine`: `%08x` writes an event line, and its value
  is the word;
* `trace_roundTrip`: the oracle reads back the successful operations.
-/

namespace TaskQueueCoSim.HostTest

open Machine PyText Oracle Replay

/-! ## Words in the trace -/

theorem hexValue_hexDigit {n : Nat} (h : n < 16) : hexValue (hexDigit n) = some n := by
  have all : ∀ n < 16, hexValue (hexDigit n) = some n := by decide
  exact all n h

theorem hexValue_hex8 (v : Word) : ∀ c ∈ hex8 v, (hexValue c).isSome := by
  intro c hc
  obtain ⟨i, _, rfl⟩ := List.mem_map.mp hc
  rw [hexValue_hexDigit (Nat.mod_lt _ (by decide))]
  rfl

/-- Each digit takes the value from one power of 16 down to the one before. -/
theorem foldl_digits (v n : Nat) : ((List.range n).reverse).foldl
    (fun acc i => 16 * acc + v / 16 ^ i % 16) (v / 16 ^ n) = v := by
  induction n with
  | zero => simp
  | succ n ih =>
    have hstep : 16 * (v / 16 ^ (n + 1)) + v / 16 ^ n % 16 = v / 16 ^ n := by
      rw [Nat.pow_succ, ← Nat.div_div_eq_div_mul, Nat.div_add_mod]
    rw [List.range_succ, List.reverse_concat, List.foldl_cons, hstep, ih]

/-- The eight digits of a word give the word back. -/
theorem hexNat_hex8 (v : Word) : hexNat (hex8 v) = v.toNat := by
  have hzero : v.toNat / 16 ^ 8 = 0 := Nat.div_eq_of_lt v.isLt
  have hdigit : ∀ i, digit (hexDigit (v.toNat / 16 ^ i % 16)) = v.toNat / 16 ^ i % 16 := by
    intro i
    rw [digit, hexValue_hexDigit (Nat.mod_lt _ (by decide)), Option.getD_some]
  have hsum := foldl_digits v.toNat 8
  rw [hzero] at hsum
  rw [hexNat, hex8, List.foldl_map]
  simp only [hdigit]
  exact hsum

def opOf : Event Word → Op
  | .push _ => .push
  | .pop _ => .pop

def wordOf : Event Word → Word
  | .push v => v
  | .pop v => v

/-- The text that the host writes for a successful call. -/
def traceOf : Event Word → List Char
  | .push v => tracePush v
  | .pop v => tracePop v

/-- The event with the value as the oracle has it, a number. -/
def numbered : Event Word → Event Int
  | .push v => .push v.toNat
  | .pop v => .pop v.toNat

theorem pushed_numbered (ops : List (Event Word)) :
    pushed (ops.map numbered) = (pushed ops).map fun v => (v.toNat : Int) := by
  induction ops with
  | nil => rfl
  | cons e ops ih => cases e <;> simp [numbered, ih]

theorem popped_numbered (ops : List (Event Word)) :
    popped (ops.map numbered) = (popped ops).map fun v => (v.toNat : Int) := by
  induction ops with
  | nil => rfl
  | cons e ops ih => cases e <;> simp [numbered, ih]

/-- The line of a successful call, as an event line. -/
def eventLine (e : Event Word) : EventLine :=
  EventLine.plain (opOf e) (hex8 (wordOf e)) (by simp [hex8])
    (List.all_eq_true.mpr (hexValue_hex8 (wordOf e)))

theorem text_eventLine (e : Event Word) : (eventLine e).text = traceOf e := by
  cases e <;> simp [eventLine, EventLine.plain, EventLine.text, EventLine.number, opOf, wordOf,
    traceOf, tracePush, tracePop, Op.name]

theorem event_eventLine (e : Event Word) : (eventLine e).event = numbered e := by
  have hvalue : (eventLine e).value = ((wordOf e).toNat : Int) :=
    congrArg Nat.cast (hexNat_hex8 (wordOf e))
  cases e <;> simp only [EventLine.event, hvalue] <;> rfl

theorem readLine_traceOf (e : Event Word) : readLine (traceOf e) = lineOf (numbered e) := by
  rw [← text_eventLine, EventLine.readLine_text, event_eventLine]

/-- The trace is a text of one line for the header and one for each operation. -/
theorem lines_trace (ops : List (Event Word)) :
    lines (traceHeader ++ (ops.map traceOf).flatten) = traceHeader :: ops.map traceOf := by
  let body : Event Word → List Char := fun e => (opOf e).name ++ [',', '0', 'x'] ++ hex8 (wordOf e)
  have hmap : ops.map traceOf = (ops.map body).map fun t => t ++ ['\n'] := by
    rw [List.map_map]
    exact List.map_congr_left fun e _ => by cases e <;> rfl
  have hclean : ∀ e, '\r' ∉ body e ∧ '\n' ∉ body e := by
    intro e
    have hr : '\r' ∉ hex8 (wordOf e) := fun h => hexValue_ne (hexValue_hex8 _ _ h) (by decide) rfl
    have hn : '\n' ∉ hex8 (wordOf e) := fun h => hexValue_ne (hexValue_hex8 _ _ h) (by decide) rfl
    cases e <;> simp [body, opOf, Op.name, hr, hn]
  rw [hmap]
  apply @lines_flatten (['o', 'p', ',', 'v', 'a', 'l', 'u', 'e'] :: ops.map body)
  intro t ht
  rcases List.mem_cons.mp ht with rfl | ht
  · decide
  · obtain ⟨e, _, rfl⟩ := List.mem_map.mp ht
    exact hclean e

/-- The oracle replays the operations. -/
theorem checkTrace_traceOf (ops : List (Event Word)) :
    checkTrace (traceHeader ++ (ops.map traceOf).flatten) =
      (run apply Golden.start ((ops.map numbered).map lineOf)).results := by
  rw [checkTrace, lines_trace, List.tail_cons, List.map_map, List.map_map]
  congr 2
  exact List.map_congr_left fun e _ => readLine_traceOf e

/-! ## The recording device -/

variable {σ : Type} (dev : Device σ)

/-- The device with the calls it answered with 0. -/
def Device.recording : Device (σ × List (Event Word)) where
  mmioPush v timeout s :=
    let (r, device) := dev.mmioPush v timeout s.1
    (r, device, if r = 0 then s.2 ++ [.push v] else s.2)
  mmioPop timeout s :=
    let (r, out, device) := dev.mmioPop timeout s.1
    (r, out, device, if r = 0 then s.2 ++ [.pop out] else s.2)

/-- The host as it is on the device itself. -/
def Host.onDevice (s : Host (σ × List (Event Word))) : Host σ := { s with device := s.device.1 }

/-- The trace has the lines of the successful calls, the counters their numbers. -/
structure Logged (s : Host (σ × List (Event Word))) : Prop where
  trace : s.trace = traceHeader ++ (s.device.2.map traceOf).flatten
  pushes : s.metrics.successPush = (pushed s.device.2).length
  pops : s.metrics.successPop = (popped s.device.2).length

/-! ## The host on the recording device is the host on the device -/

/-- The two hosts correspond. -/
def OnDevice (t : Host (σ × List (Event Word))) (s : Host σ) : Prop := t.onDevice = s

variable {dev} {t : Host (σ × List (Event Word))} {s : Host σ}

theorem OnDevice.deterministic (h : OnDevice t s) :
    OnDevice (deterministic dev.recording t) (deterministic dev s) := by
  apply run_related
  · intro t s _ h
    exact h ▸ rfl
  · apply run_related _ h
    intro t s v h
    exact h ▸ rfl

theorem OnDevice.randomPush (h : OnDevice t s) (v : Word) :
    OnDevice (randomPush dev.recording v t) (randomPush dev v s) := by
  subst h
  obtain ⟨⟨device, ops⟩, drawn, metrics, ring, trace⟩ := t
  simp only [OnDevice, HostTest.randomPush, Device.recording, Host.onDevice]
  by_cases hr : (dev.mmioPush v 100 device).1 = 0
  · simp only [hr, if_true]
  · simp only [hr, if_false]

theorem OnDevice.randomPop (h : OnDevice t s) :
    OnDevice (randomPop dev.recording t) (randomPop dev s) := by
  subst h
  obtain ⟨⟨device, ops⟩, drawn, metrics, ring, trace⟩ := t
  simp only [OnDevice, HostTest.randomPop, Device.recording, Host.onDevice]
  by_cases hr : (dev.mmioPop 100 device).1 = 0
  · by_cases hc : ring.swcount = 0
    · simp only [hr, hc, if_true]
    · simp only [hr, hc, if_true, if_false]
  · simp only [hr, if_false]

theorem OnDevice.randomOp (h : OnDevice t s) (rand : Nat → Nat) :
    OnDevice (randomOp dev.recording rand t) (randomOp dev rand s) := by
  have hdrawn : t.drawn = s.drawn := congrArg Host.drawn h
  unfold HostTest.randomOp
  dsimp only
  rw [hdrawn]
  split_ifs
  · apply OnDevice.randomPush
    subst h
    rfl
  · apply OnDevice.randomPop
    subst h
    rfl
  · subst h
    rfl

theorem OnDevice.randomized (h : OnDevice t s) (rand : Nat → Nat) :
    OnDevice (randomized dev.recording rand t) (randomized dev rand s) := by
  apply run_related _ h
  intro t s _ h
  exact h.randomOp rand

theorem OnDevice.drain (h : OnDevice t s) : OnDevice (drain dev.recording t) (drain dev s) := by
  induction hn : s.ring.swcount generalizing s t with
  | zero =>
    have ht : t.ring.swcount = 0 := (congrArg (·.ring.swcount) h).trans hn
    rw [HostTest.drain, HostTest.drain, if_neg (by omega), if_neg (by omega)]
    exact h
  | succ n ih =>
    subst h
    have ht : t.ring.swcount = n + 1 := hn
    rw [HostTest.drain, HostTest.drain, if_pos (by omega), if_pos (by omega)]
    obtain ⟨⟨device, ops⟩, drawn, metrics, ring, trace⟩ := t
    simp only [Device.recording, Host.onDevice] at ht ⊢
    by_cases hr : (dev.mmioPop 1000 device).1 = 0
    · simp only [hr, if_true]
      exact ih rfl (by simp [Ring.pop, ht])
    · simp only [hr, if_false]
      rfl

variable (dev) (rand : Nat → Nat) (swbuf : Fin 16 → Word) (device : σ)

/-- The run that keeps its operations is the run. -/
theorem onDevice_main :
    (main dev.recording rand swbuf (device, [])).onDevice = main dev rand swbuf device := by
  have hstart : OnDevice (start swbuf (device, [])) (start swbuf device) := rfl
  exact (hstart.deterministic.randomized rand).drain

/-! ## What is written -/

section Metrics

variable (m : Metrics) (r : Int)

theorem successPush_countPush :
    (m.countPush r).successPush = m.successPush + if r = 0 then 1 else 0 := by
  unfold Metrics.countPush
  split_ifs <;> rfl

@[simp] theorem successPop_countPush : (m.countPush r).successPop = m.successPop := by
  unfold Metrics.countPush
  split_ifs <;> rfl

theorem successPop_countPop :
    (m.countPop r).successPop = m.successPop + if r = 0 then 1 else 0 := by
  unfold Metrics.countPop
  split_ifs <;> rfl

@[simp] theorem successPush_countPop : (m.countPop r).successPush = m.successPush := by
  unfold Metrics.countPop
  split_ifs <;> rfl

/-- A mismatch is neither a push nor a pop. -/
@[simp] theorem successPush_ite (p : Prop) [Decidable p] :
    (if p then m.mismatch else m).successPush = m.successPush := by
  split_ifs <;> rfl

@[simp] theorem successPop_ite (p : Prop) [Decidable p] :
    (if p then m.mismatch else m).successPop = m.successPop := by
  split_ifs <;> rfl

end Metrics

variable {dev rand swbuf device} {u : Host (σ × List (Event Word))} {r : Int}

/-- A push that returned `r`: operation, line and counter together. -/
theorem Logged.push (h : Logged t) (v : Word)
    (ops : u.device.2 = if r = 0 then t.device.2 ++ [.push v] else t.device.2)
    (trace : u.trace = if r = 0 then t.trace ++ tracePush v else t.trace)
    (metrics : u.metrics = t.metrics.countPush r) : Logged u := by
  by_cases hr : r = 0
  · rw [if_pos hr] at ops trace
    constructor
    · rw [trace, ops, h.trace]
      simp [traceOf]
    · rw [metrics, successPush_countPush, if_pos hr, ops, h.pushes]
      simp [pushed, Event.push?]
    · rw [metrics, successPop_countPush, ops, h.pops]
      simp [popped, Event.pop?]
  · rw [if_neg hr] at ops trace
    constructor
    · rw [trace, ops, h.trace]
    · rw [metrics, successPush_countPush, if_neg hr, ops, h.pushes, Nat.add_zero]
    · rw [metrics, successPop_countPush, ops, h.pops]

/-- A pop that returned `r`. -/
theorem Logged.pop (h : Logged t) (out : Word)
    (ops : u.device.2 = if r = 0 then t.device.2 ++ [.pop out] else t.device.2)
    (trace : u.trace = if r = 0 then t.trace ++ tracePop out else t.trace)
    (pushes : u.metrics.successPush = t.metrics.successPush)
    (pops : u.metrics.successPop = t.metrics.successPop + if r = 0 then 1 else 0) : Logged u := by
  by_cases hr : r = 0
  · rw [if_pos hr] at ops trace pops
    constructor
    · rw [trace, ops, h.trace]
      simp [traceOf]
    · rw [pushes, ops, h.pushes]
      simp [pushed, Event.push?]
    · rw [pops, ops, h.pops]
      simp [popped, Event.pop?]
  · rw [if_neg hr] at ops trace pops
    constructor
    · rw [trace, ops, h.trace]
    · rw [pushes, ops, h.pushes]
    · rw [pops, ops, h.pops, Nat.add_zero]

theorem Logged.start (swbuf : Fin 16 → Word) (device : σ) : Logged (start swbuf (device, [])) :=
  ⟨rfl, rfl, rfl⟩

theorem Logged.deterministic (h : Logged t) : Logged (deterministic dev.recording t) := by
  apply run_invariant
  · intro t _ h
    exact h.pop _ rfl rfl (successPush_countPop _ _) (successPop_countPop _ _)
  · apply run_invariant _ h
    intro t v h
    exact h.push v rfl rfl rfl

theorem Logged.randomPush (h : Logged t) (v : Word) : Logged (randomPush dev.recording v t) := by
  apply h.push v (r := (dev.mmioPush v 100 t.device.1).1)
  all_goals
    simp only [HostTest.randomPush, Device.recording]
    split_ifs <;> rfl

theorem Logged.randomPop (h : Logged t) : Logged (randomPop dev.recording t) := by
  apply h.pop (dev.mmioPop 100 t.device.1).2.1 (r := (dev.mmioPop 100 t.device.1).1)
  all_goals
    simp only [HostTest.randomPop, Device.recording]
    by_cases hr : (dev.mmioPop 100 t.device.1).1 = 0
    · by_cases hc : t.ring.swcount = 0
      · simp [hr, hc, successPop_countPop, Metrics.mismatch]
      · simp only [hr, hc, if_true, if_false, successPush_ite, successPop_ite,
          successPush_countPop, successPop_countPop]
    · simp [hr, successPop_countPop]

theorem Logged.randomOp (h : Logged t) (rand : Nat → Nat) :
    Logged (randomOp dev.recording rand t) := by
  unfold HostTest.randomOp
  dsimp only
  split_ifs
  · apply Logged.randomPush
    exact ⟨h.trace, h.pushes, h.pops⟩
  · apply Logged.randomPop
    exact ⟨h.trace, h.pushes, h.pops⟩
  · exact ⟨h.trace, h.pushes, h.pops⟩

theorem Logged.randomized (h : Logged t) (rand : Nat → Nat) :
    Logged (randomized dev.recording rand t) :=
  run_invariant (fun _ _ h => h.randomOp rand) h (List.range OPS)

theorem Logged.drain (h : Logged t) : Logged (drain dev.recording t) := by
  induction hn : t.ring.swcount generalizing t with
  | zero =>
    rw [HostTest.drain, if_neg (by omega)]
    exact h
  | succ n ih =>
    rw [HostTest.drain, if_pos (by omega)]
    simp only [Device.recording]
    by_cases hr : (dev.mmioPop 1000 t.device.1).1 = 0
    · simp only [hr, if_true]
      refine ih ?_ (by simp [Ring.pop, hn])
      apply h.pop (dev.mmioPop 1000 t.device.1).2.1 (r := 0)
      · rfl
      · rfl
      · exact successPush_ite _ _
      · exact successPop_ite _ _
    · simp only [hr, if_false]
      exact ⟨h.trace, h.pushes, h.pops⟩

/-! ## The round trip -/

variable (dev rand swbuf device)

/-- The successful operations of a run of the host, in order. -/
def operations : List (Event Word) := (main dev.recording rand swbuf (device, [])).device.2

theorem logged_main : Logged (main dev.recording rand swbuf (device, [])) :=
  (((Logged.start swbuf device).deterministic).randomized rand).drain

/-- **Round trip.**  Whatever the device answers, the oracle skips the header of
the trace and reads the other lines as the successful operations of the run, in
order and with their words, so it counts as many pushes and pops as the host. -/
theorem trace_roundTrip :
    (lines (main dev rand swbuf device).trace).head? = some traceHeader ∧
      (lines (main dev rand swbuf device).trace).tail.map readLine =
        (operations dev rand swbuf device).map (fun e => lineOf (numbered e)) ∧
      (checkTrace (main dev rand swbuf device).trace).pushes =
        (main dev rand swbuf device).metrics.successPush ∧
      (checkTrace (main dev rand swbuf device).trace).pops =
        (main dev rand swbuf device).metrics.successPop := by
  have hlogged := logged_main dev rand swbuf device
  have hmain := onDevice_main dev rand swbuf device
  have htrace : (main dev rand swbuf device).trace =
      traceHeader ++ ((operations dev rand swbuf device).map traceOf).flatten := by
    rw [← hmain]
    exact hlogged.trace
  have hlines := (congrArg lines htrace).trans (lines_trace _)
  have hread : (lines (main dev rand swbuf device).trace).tail.map readLine =
      ((operations dev rand swbuf device).map numbered).map lineOf := by
    rw [hlines, List.tail_cons, List.map_map, List.map_map]
    exact List.map_congr_left fun e _ => readLine_traceOf e
  have hcheck := (congrArg checkTrace htrace).trans (checkTrace_traceOf _)
  refine ⟨?_, ?_, ?_, ?_⟩
  · rw [hlines]
    rfl
  · rw [hread, List.map_map]
    rfl
  · rw [hcheck, ← hmain]
    refine (run_apply_pushes _ _).trans ?_
    rw [pushed_numbered, List.length_map]
    exact (Nat.zero_add _).trans hlogged.pushes.symm
  · rw [hcheck, ← hmain]
    refine (run_apply_pops _ _).trans ?_
    rw [popped_numbered, List.length_map]
    exact (Nat.zero_add _).trans hlogged.pops.symm

end TaskQueueCoSim.HostTest
