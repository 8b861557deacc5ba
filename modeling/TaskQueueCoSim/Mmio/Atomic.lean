import TaskQueueCoSim.Mmio.IdealQueue
import TaskQueueCoSim.Mmio.Service

/-!
# Host and bridge with uninterrupted iterations

The host runs one register access at a time and the bridge one whole iteration
at a time.  `Atomic.done` records the completed calls with the contents of the
queue when they were made and when they returned.

`atomic_refines` is the simulation: the records are those of the ideal queue,
except that a pop delivers the word `bridgeDelivers`, which the bridge samples
only after the edge.
-/

namespace TaskQueueCoSim.Mmio

open Flags Machine VtbTaskQueue QueueCore

structure Atomic where
  bench : Bench
  host : HostPc
  before : List Word
  done : List Record

inductive Turn where
  | call (c : Call)
  | host
  | iterate
  deriving DecidableEq, Repr

def Atomic.next (s : Atomic) : Turn → Atomic
  | .call c =>
    match s.host with
    | .idle => { s with host := c.entry, before := s.bench.top.queue.queue }
    | _ => s
  | .host =>
    let (r, pc, x) := hostStep s.bench.regs s.host
    { s with
      bench := { s.bench with regs := r }, host := pc
      done := match x with
        | none => s.done
        | some x => s.done ++ [⟨x, s.before, s.bench.top.queue.queue⟩] }
  | .iterate => { s with bench := iteration s.bench }

/-- Zeroed registers and the testbench just reset. -/
def Atomic.init (q : QueueCore 16 32) (d : Distributor) (a : Arbiter) : Atomic :=
  ⟨⟨zeroed, boot q d a, false, []⟩, .idle, [], []⟩

def Turn.Patient : Turn → Prop
  | call c => c.Patient
  | _ => True

instance Turn.decidablePatient (t : Turn) : Decidable t.Patient := by
  cases t <;> unfold Turn.Patient <;> infer_instance

/-- The word behind the head. -/
def bridgeDelivers (mem₀ : BitVec (clog2 16) → Word) (i : Ideal) : Word :=
  shown mem₀ i.accepted (i.popped + 1)

/-! ## The bridge against the ideal queue -/

structure Hardware (mem₀ : BitVec (clog2 16) → Word) (b : Bench) (i : Ideal) : Prop where
  exited : b.exited = false
  running : b.regs.tbDone = 0
  ready : Ready b.top
  traced : b.top.queue.Traced mem₀ i.accepted i.popped
  status : b.regs.status = statusBits (i.queue.length = 16) (i.queue ≠ [])

section Hardware

variable {mem₀ : BitVec (clog2 16) → Word} {b : Bench} {i : Ideal}

theorem full_eq {top : VtbTaskQueue} (h : top.queue.Traced mem₀ i.accepted i.popped) :
    top.full = decide (i.queue.length = 16) := by
  rw [Bool.eq_iff_iff, decide_eq_true_eq]
  exact h.represents.full_iff

theorem validOut_eq {top : VtbTaskQueue} (h : top.queue.Traced mem₀ i.accepted i.popped) :
    top.validOut = decide (i.queue ≠ []) := by
  rw [Bool.eq_iff_iff, decide_eq_true_eq, ← List.length_pos_iff]
  exact h.represents.validOut_iff

/-- The end of an iteration publishes the status. -/
theorem hardware_finish (he : b.exited = false) (ht : b.regs.tbDone = 0) (ready : Ready b.top)
    (traced : b.top.queue.Traced mem₀ i.accepted i.popped) (did : Bool) :
    Hardware mem₀ (finish did b) i := by
  cases did
  · obtain ⟨ready', queue⟩ := ready.tick
    have traced' : b.top.tick.queue.Traced mem₀ i.accepted i.popped := by
      rw [queue]
      exact traced
    exact ⟨he, ht, ready', traced', by
      rw [← full_eq traced', ← validOut_eq traced']; rfl⟩
  · exact ⟨he, ht, ready, traced, by rw [← full_eq traced, ← validOut_eq traced]; rfl⟩

/-- With no request the bridge idles. -/
theorem Hardware.iterate_idle (h : Hardware mem₀ b i) (hc : b.regs.ctrl = 0) :
    Hardware mem₀ (iteration b) i ∧
      (iteration b).regs = { b.regs with status := (iteration b).regs.status } := by
  have none (k : Kind) : has b.regs.ctrl k.req = false := by rw [hc]; exact has_zero _
  rw [iteration_idle h.exited h.running (none .push) (none .pop)]
  exact ⟨hardware_finish h.exited h.running h.ready h.traced false, rfl⟩

/-- A request is answered as the ideal queue answers it, and carried out. -/
structure Done (mem₀ : BitVec (clog2 16) → Word) (b : Bench) (i : Ideal) (q : Request) :
    Prop where
  hardware : Hardware mem₀ b (i.next (.request q))
  ctrl : b.regs.ctrl = 0
  ack : b.regs.ack = q.kind.bit (i.answer q.kind)
  out : ∀ w, i.out (bridgeDelivers mem₀) q.kind = some w → b.regs.dataOut = w

/-- What is left to the end of an iteration that served a request. -/
theorem done_finish {q : Request} {a : Answer} (e : i.answer q.kind = a)
    (rest : b.exited = false ∧ b.regs.tbDone = 0 ∧ Ready b.top)
    (traced : b.top.queue.Traced mem₀ (i.next (.request q)).accepted (i.next (.request q)).popped)
    (hc : b.regs.ctrl = 0) (ha : b.regs.ack = q.kind.bit a)
    (ho : ∀ w, i.out (bridgeDelivers mem₀) q.kind = some w → b.regs.dataOut = w) :
    Done mem₀ (finish true b) i q :=
  ⟨hardware_finish rest.1 rest.2.1 rest.2.2 traced true, hc, e ▸ ha, ho⟩

theorem Hardware.serve_push (h : Hardware mem₀ b i) (value : Word) (timeout : Option Int)
    (hc : b.regs.ctrl = Kind.push.req) (ha : b.regs.ack = 0) (hv : b.regs.dataIn = value) :
    Done mem₀ (iteration b) i ⟨.push, value, timeout⟩ := by
  have hpush : has b.regs.ctrl Kind.push.req = true := by rw [hc]; decide
  have hpop : has b.regs.ctrl Kind.pop.req = false := by rw [hc]; decide
  have hack (a : Answer) : b.regs.ack ||| Kind.push.bit a = Kind.push.bit a := by rw [ha]; simp
  have hclear : clear b.regs.ctrl Kind.push.req = 0 := by rw [hc]; exact Kind.clear_req .push
  rw [iteration_push h.exited h.running hpush hpop, hv]
  have hfull := full_eq h.traced
  have len : i.queue.length ≤ 16 := h.traced.represents.length_le
  cases hf : b.top.full
  case true =>
    have e : i.answer .push = .refused := by
      have : i.queue.length = 16 := by simpa [hf] using hfull
      simp [Ideal.answer, this]
    have e' : i.next (.request ⟨.push, value, timeout⟩) = i := by simp [Ideal.next, e]
    simp only [pushBranch, hpush, hf, if_true]
    exact done_finish e ⟨h.exited, h.running, h.ready⟩ (by rw [e']; exact h.traced) hclear
      (hack .refused) (by simp [Ideal.out])
  case false =>
    have room : i.queue.length < 16 := by
      have : i.queue.length ≠ 16 := by simpa [hf] using hfull
      omega
    have e : i.answer .push = .ok := by simp [Ideal.answer, room]
    have e' : i.next (.request ⟨.push, value, timeout⟩) =
        { i with accepted := i.accepted ++ [value] } := by
      simp [Ideal.next, e]
    have traced := h.traced.push (by decide) room value
    rw [← h.ready.push_tick value] at traced
    simp only [pushBranch, hpush, hf, if_true, Bool.false_eq_true, if_false]
    exact done_finish e ⟨h.exited, h.running, h.ready.push_done value⟩ (e' ▸ traced) hclear
      (hack .ok) (by simp [Ideal.out])

theorem Hardware.serve_pop (h : Hardware mem₀ b i) (value : Word) (timeout : Option Int)
    (hc : b.regs.ctrl = Kind.pop.req) (ha : b.regs.ack = 0) :
    Done mem₀ (iteration b) i ⟨.pop, value, timeout⟩ := by
  have hpush : has b.regs.ctrl Kind.push.req = false := by rw [hc]; decide
  have hpop : has b.regs.ctrl Kind.pop.req = true := by rw [hc]; decide
  have hack (a : Answer) : b.regs.ack ||| Kind.pop.bit a = Kind.pop.bit a := by rw [ha]; simp
  have hclear : clear b.regs.ctrl Kind.pop.req = 0 := by rw [hc]; exact Kind.clear_req .pop
  rw [iteration_pop h.exited h.running hpush hpop]
  have hvalid := validOut_eq h.traced
  cases hv : b.top.validOut
  case false =>
    have e : i.answer .pop = .refused := by
      have : i.queue = [] := by simpa [hv] using hvalid
      simp [Ideal.answer, this]
    have e' : i.next (.request ⟨.pop, value, timeout⟩) = i := by simp [Ideal.next, e]
    simp only [popBranch, hpop, hv, if_true, Bool.not_false]
    exact done_finish e ⟨h.exited, h.running, h.ready⟩ (by rw [e']; exact h.traced) hclear
      (hack .refused) (by simp [Ideal.out, e])
  case true =>
    have ne : i.queue ≠ [] := by simpa [hv] using hvalid
    have e : i.answer .pop = .ok := by simp [Ideal.answer, ne]
    have e' : i.next (.request ⟨.pop, value, timeout⟩) = { i with popped := i.popped + 1 } := by
      simp [Ideal.next, e]
    have some : i.popped < i.accepted.length := by
      have := List.length_pos_iff.mpr ne
      rw [Ideal.queue, List.length_drop] at this
      omega
    have traced := h.traced.pop (by decide) some b.top.hostDataIn
    rw [← h.ready.pop_tick] at traced
    simp only [popBranch, hpop, hv, if_true, Bool.not_true, Bool.false_eq_true, if_false]
    refine done_finish e ⟨h.exited, h.running, h.ready.pop_done⟩ (e' ▸ traced) hclear (hack .ok) ?_
    intro w hw
    simp only [Ideal.out, e, Option.some.injEq] at hw
    rw [← hw]
    exact traced.dataOut_eq (by decide) (by decide)

end Hardware

/-! ## The host against the ideal queue -/

section Host

variable {mem₀ : BitVec (clog2 16) → Word} {b : Bench} {i : Ideal}

/-- No request and no answer is under way. -/
structure Resting (mem₀ : BitVec (clog2 16) → Word) (b : Bench) (i : Ideal) : Prop where
  hardware : Hardware mem₀ b i
  ctrl : b.regs.ctrl = 0
  ack : b.regs.ack = 0

/-- The host's request is in `CTRL`. -/
structure Pending (mem₀ : BitVec (clog2 16) → Word) (b : Bench) (i : Ideal) (q : Request) :
    Prop where
  hardware : Hardware mem₀ b i
  ctrl : b.regs.ctrl = q.kind.req
  ack : b.regs.ack = 0
  dataIn : q.kind = .push → b.regs.dataIn = q.value

/-- Where host and bridge stand at each point of a call. -/
def HostPc.At (mem₀ : BitVec (clog2 16) → Word) (b : Bench) (i : Ideal) : HostPc → Prop
  | idle | readStatus _ => Resting mem₀ b i
  | readCtrl q => q.timeout = none ∧ Resting mem₀ b i
  | writeDataIn q ctrl => q.timeout = none ∧ q.kind = .push ∧ ctrl = 0 ∧ Resting mem₀ b i
  | writeCtrl q ctrl =>
    q.timeout = none ∧ ctrl = 0 ∧ (q.kind = .push → b.regs.dataIn = q.value) ∧ Resting mem₀ b i
  | poll q _ => q.timeout = none ∧ (Pending mem₀ b i q ∨ Done mem₀ b i q)
  | readDataOut q ack =>
    ack = q.kind.bit .ok ∧ q.kind = .pop ∧ i.answer q.kind = .ok ∧ Done mem₀ b i q
  | clearAck q a ack out =>
    ack = q.kind.bit a ∧ i.answer q.kind = a ∧ i.out (bridgeDelivers mem₀) q.kind = out ∧
      Done mem₀ b i q

/-- The state of the atomic system after the calls `cs`. -/
structure Sync (mem₀ : BitVec (clog2 16) → Word) (s : Atomic) (cs : List Call) : Prop where
  done : s.done = Ideal.empty.log (bridgeDelivers mem₀) cs
  at_ : s.host.At mem₀ s.bench (run Ideal.next .empty cs)
  before : s.host ≠ .idle → s.before = (run Ideal.next .empty cs).queue

theorem Hardware.queue_eq (h : Hardware mem₀ b i) : b.top.queue.queue = i.queue :=
  h.traced.represents.queue_eq

theorem Resting.iterate (h : Resting mem₀ b i) : Resting mem₀ (iteration b) i := by
  obtain ⟨hardware, regs⟩ := h.hardware.iterate_idle h.ctrl
  exact ⟨hardware, by rw [regs]; exact h.ctrl, by rw [regs]; exact h.ack⟩

theorem Done.iterate {q : Request} (h : Done mem₀ b i q) : Done mem₀ (iteration b) i q := by
  obtain ⟨hardware, regs⟩ := h.hardware.iterate_idle h.ctrl
  exact ⟨hardware, by rw [regs]; exact h.ctrl, by rw [regs]; exact h.ack,
    by rw [regs]; exact h.out⟩

theorem Pending.iterate {q : Request} (h : Pending mem₀ b i q) : Done mem₀ (iteration b) i q := by
  obtain ⟨kind, value, timeout⟩ := q
  cases kind
  · exact h.hardware.serve_push value timeout h.ctrl h.ack (h.dataIn rfl)
  · exact h.hardware.serve_pop value timeout h.ctrl h.ack

/-- An iteration between two accesses of the host. -/
theorem HostPc.At.iterate {pc : HostPc} (h : pc.At mem₀ b i) : pc.At mem₀ (iteration b) i := by
  cases pc with
  | idle | readStatus => exact Resting.iterate h
  | readCtrl q => exact ⟨h.1, h.2.iterate⟩
  | writeDataIn q ctrl => exact ⟨h.1, h.2.1, h.2.2.1, h.2.2.2.iterate⟩
  | writeCtrl q ctrl =>
    obtain ⟨ht, hc, hv, rest⟩ := h
    obtain ⟨-, regs⟩ := rest.hardware.iterate_idle rest.ctrl
    exact ⟨ht, hc, fun hk => by rw [regs]; exact hv hk, rest.iterate⟩
  | poll q waited =>
    obtain ⟨ht, pending | done⟩ := h
    · exact ⟨ht, Or.inr pending.iterate⟩
    · exact ⟨ht, Or.inr done.iterate⟩
  | readDataOut q ack => exact ⟨h.1, h.2.1, h.2.2.1, h.2.2.2.iterate⟩
  | clearAck q a ack out => exact ⟨h.1, h.2.1, h.2.2.1, h.2.2.2.iterate⟩

end Host

/-! ## The simulation -/

section Simulation

variable {mem₀ : BitVec (clog2 16) → Word} {s : Atomic} {cs : List Call}

/-- A step of the host inside a call. -/
theorem Sync.inside (h : Sync mem₀ s cs) {pc : HostPc} {r : Regs} (hi : s.host ≠ .idle)
    (e : hostStep s.bench.regs s.host = (r, pc, none))
    (hat : pc.At mem₀ { s.bench with regs := r } (run Ideal.next .empty cs)) :
    Sync mem₀ (s.next .host) cs := by
  simp only [Atomic.next, e]
  exact ⟨h.done, hat, fun _ => h.before hi⟩

/-- The step of the host with which a call returns. -/
theorem Sync.returns (h : Sync mem₀ s cs) {r : Regs} {x : Return} (hi : s.host ≠ .idle)
    (e : hostStep s.bench.regs s.host = (r, .idle, some x))
    (hx : x.result = (run Ideal.next .empty cs).result (bridgeDelivers mem₀) x.call)
    (hat : Resting mem₀ { s.bench with regs := r } ((run Ideal.next .empty cs).next x.call)) :
    Sync mem₀ (s.next .host) (cs ++ [x.call]) := by
  have hr : run Ideal.next .empty (cs ++ [x.call]) = (run Ideal.next .empty cs).next x.call :=
    run_concat ..
  simp only [Atomic.next, e]
  refine ⟨?_, ?_, fun hne => absurd rfl hne⟩
  · have after : s.bench.top.queue.queue = _ := hat.hardware.queue_eq
    rw [Ideal.log_concat, h.done, h.before hi, after, Ideal.record, ← hx]
  · exact hr ▸ hat

theorem Sync.host (h : Sync mem₀ s cs) : ∃ cs', Sync mem₀ (s.next .host) cs' := by
  obtain ⟨b, host, before, done⟩ := s
  generalize hi : run Ideal.next Ideal.empty cs = i
  have hat : host.At mem₀ b i := hi ▸ h.at_
  cases host with
  | idle => exact ⟨cs, h⟩
  | readCtrl q =>
    obtain ⟨ht, rest⟩ := hat
    obtain ⟨kind, value, timeout⟩ := q
    cases kind
    · exact ⟨cs, h.inside (by simp) rfl (hi ▸ ⟨ht, rfl, rest.ctrl, rest⟩)⟩
    · exact ⟨cs, h.inside (by simp) rfl (hi ▸ ⟨ht, rest.ctrl, (fun hk => by cases hk), rest⟩)⟩
  | writeDataIn q ctrl =>
    obtain ⟨ht, hk, hc, rest⟩ := hat
    have hw := rest.hardware
    exact ⟨cs, h.inside (by simp) rfl (hi ▸ ⟨ht, hc, fun _ => rfl,
      ⟨hw.exited, hw.running, hw.ready, hw.traced, hw.status⟩, rest.ctrl, rest.ack⟩)⟩
  | writeCtrl q ctrl =>
    obtain ⟨ht, hc, hv, rest⟩ := hat
    have hw := rest.hardware
    have set : ctrl ||| q.kind.req = q.kind.req := by rw [hc]; simp
    exact ⟨cs, h.inside (by simp) rfl (hi ▸ ⟨ht, Or.inl
      ⟨⟨hw.exited, hw.running, hw.ready, hw.traced, hw.status⟩, set, rest.ack, hv⟩⟩)⟩
  | poll q waited =>
    obtain ⟨ht, pending | served⟩ := hat
    · have e := poll_none ht waited (r := b.regs) fun k a => by simp [pending.ack]
      exact ⟨cs, h.inside (by simp) e (hi ▸ ⟨ht, Or.inl pending⟩)⟩
    · have shown : AckIs b.regs.ack (some (q.kind, i.answer q.kind)) := fun k a => by
        simp [served.ack, eq_comm]
      cases ha : i.answer q.kind with
      | refused =>
        have e := poll_refused ht waited (ha ▸ shown)
        refine ⟨cs, h.inside (by simp) e (hi ▸ ⟨ha ▸ served.ack, ha, ?_, served⟩)⟩
        cases hk : q.kind <;> simp [Ideal.out, hk ▸ ha]
      | ok =>
        have e := poll_ok ht waited (ha ▸ shown)
        have ack : b.regs.ack = q.kind.bit .ok := ha ▸ served.ack
        refine ⟨cs, h.inside (by simp) e (hi ▸ ?_)⟩
        obtain ⟨kind, value, timeout⟩ := q
        cases kind
        · exact ⟨ack, ha, by simp [Ideal.out], served⟩
        · exact ⟨ack, rfl, ha, served⟩
  | readDataOut q ack =>
    obtain ⟨hack, hk, ha, served⟩ := hat
    have out : i.out (bridgeDelivers mem₀) q.kind = some b.regs.dataOut := by
      have e : i.out (bridgeDelivers mem₀) q.kind = some (bridgeDelivers mem₀ i) := by
        simp [Ideal.out, hk, hk ▸ ha]
      rw [e, served.out _ e]
    exact ⟨cs, h.inside (by simp) rfl (hi ▸ ⟨hack, ha, out, served⟩)⟩
  | clearAck q a ack out =>
    obtain ⟨hack, ha, hout, served⟩ := hat
    have hw := served.hardware
    have cleared : clear ack (q.kind.bit a) = 0 := by rw [hack]; exact Kind.clear_bit _ _
    exact ⟨_, h.returns (by simp) rfl (by simp [hi, Ideal.result, ha, hout])
      (hi ▸ ⟨⟨hw.exited, hw.running, hw.ready, hw.traced, hw.status⟩, served.ctrl, cleared⟩)⟩
  | readStatus mask =>
    have rest : Resting mem₀ b i := hat
    exact ⟨_, h.returns (by simp) rfl
      (by simp [hi, Ideal.result, read32, rest.hardware.status]) (hi ▸ rest)⟩

theorem Sync.call (h : Sync mem₀ s cs) {c : Call} (hp : c.Patient) :
    Sync mem₀ (s.next (.call c)) cs := by
  obtain ⟨b, host, before, done⟩ := s
  cases host with
  | idle =>
    have rest : Resting mem₀ b (run Ideal.next .empty cs) := h.at_
    have queue : b.top.queue.queue = (run Ideal.next .empty cs).queue := rest.hardware.queue_eq
    cases c with
    | request q => exact ⟨h.done, ⟨hp, rest⟩, fun _ => queue⟩
    | status mask => exact ⟨h.done, rest, fun _ => queue⟩
  | _ => exact h

theorem Sync.iterate (h : Sync mem₀ s cs) : Sync mem₀ (s.next .iterate) cs :=
  ⟨h.done, h.at_.iterate, h.before⟩

theorem sync_init (q : QueueCore 16 32) (d : Distributor) (a : Arbiter) :
    Sync q.mem (Atomic.init q d a) [] := by
  obtain ⟨ready, queue⟩ := boot_spec q d a
  have traced : (boot q d a).queue.Traced q.mem [] 0 := by
    rw [queue]
    exact traced_reset q.mem
  exact ⟨rfl, ⟨⟨rfl, rfl, ready, traced, rfl⟩, rfl, rfl⟩, fun h => absurd rfl h⟩

/-- **Simulation.**  Whatever the schedule, the completed patient calls are those
of the ideal queue, but for the words the pops deliver. -/
theorem atomic_refines (q : QueueCore 16 32) (d : Distributor) (a : Arbiter) {ts : List Turn}
    (patient : ∀ t ∈ ts, t.Patient) :
    ∃ cs, Sync q.mem (run Atomic.next (Atomic.init q d a) ts) cs := by
  have guarded := guarded_of_forall_mem Atomic.next patient (Atomic.init q d a)
  refine guarded.invariant (I := fun s => ∃ cs, Sync q.mem s cs) ?_ ⟨[], sync_init q d a⟩
  rintro s t ⟨cs, h⟩ hp
  cases t with
  | call c => exact ⟨cs, h.call hp⟩
  | host => exact h.host
  | iterate => exact ⟨cs, h.iterate⟩

end Simulation

end TaskQueueCoSim.Mmio
