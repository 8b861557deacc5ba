import TaskQueueCoSim.Mmio.Atomic

/-!
# Return codes and status of the driver

With uninterrupted iterations and patient callers, `driver_matches_ideal` shows
that return codes and status flags are those of a 16-deep queue, that a refused
call leaves the queue alone, that `CTRL` and `ACK` are clear between calls, and
that a call always comes to its end: three more accesses of the host, one
iteration and three more accesses suffice.  The records are those of the calls that
were started, in their order (`calls_run`).
-/

namespace TaskQueueCoSim.Mmio

open Flags Machine QueueCore

/-- A completed call, made with `n` words stored. -/
structure MatchesIdeal (n : Int) (x : Record) : Prop where
  push : ∀ value timeout, x.call = mmioPush value timeout →
    ∃ out, x.result = .code (if n < 16 then 0 else -1) out
  pop : ∀ timeout, x.call = mmioPop timeout →
    ∃ out, x.result = .code (if 0 < n then 0 else -1) out
  isFull : x.call = mmioIsFull → x.result = .flag (n = 16)
  isValid : x.call = mmioIsValid → x.result = .flag (0 < n)
  refused : ∀ out, x.result = .code (-1) out → x.after = x.before

/-! ## The calls of a run -/

/-- The call under way. -/
def HostPc.call? : HostPc → Option Call
  | idle => none
  | readStatus mask => some (.status mask)
  | readCtrl q | writeDataIn q _ | writeCtrl q _ | poll q _ | readDataOut q _ | clearAck q _ _ _ =>
    some (.request q)

/-- The call that starts with a turn; while one is under way there is no other. -/
def Atomic.starts (s : Atomic) : Turn → List Call
  | .call c => if s.host = .idle then [c] else []
  | _ => []

def startedCalls (s : Atomic) : List Turn → List Call
  | [] => []
  | t :: ts => s.starts t ++ startedCalls (s.next t) ts

/-- A step of the host that returns does so from the call under way. -/
theorem call?_hostStep (r : Regs) (pc : HostPc) :
    ((hostStep r pc).2.2.map fun x => x.call).toList ++ (hostStep r pc).2.1.call?.toList =
      pc.call?.toList := by
  cases pc with
  | readCtrl q => obtain ⟨kind, value, timeout⟩ := q; cases kind <;> rfl
  | poll q waited =>
    obtain ⟨kind, value, timeout⟩ := q
    simp only [hostStep]
    split
    · rfl
    · split
      · cases kind <;> rfl
      · split <;> rfl
  | _ => rfl

/-- What has returned, and then what is under way, is what was started. -/
theorem calls_run (s : Atomic) (ts : List Turn) :
    (run Atomic.next s ts).done.map (fun x => x.call) ++ (run Atomic.next s ts).host.call?.toList =
      s.done.map (fun x => x.call) ++ s.host.call?.toList ++ startedCalls s ts := by
  induction ts generalizing s with
  | nil => exact (List.append_nil _).symm
  | cons t ts ih =>
    have step : (s.next t).done.map (fun x => x.call) ++ (s.next t).host.call?.toList =
        s.done.map (fun x => x.call) ++ s.host.call?.toList ++ s.starts t := by
      obtain ⟨bench, host, before, done⟩ := s
      cases t with
      | call c => cases host <;> cases c <;> simp [Atomic.next, Atomic.starts, HostPc.call?, Call.entry]
      | iterate => simp [Atomic.next, Atomic.starts]
      | host =>
        show _ = done.map (fun x => x.call) ++ host.call?.toList ++ []
        rw [List.append_nil, ← call?_hostStep bench.regs host]
        simp only [Atomic.next]
        cases (hostStep bench.regs host).2.2 <;> simp
    rw [run_cons, ih, step, startedCalls, List.append_assoc]

/-- Enough turns for a call under way to return. -/
def finishing : List Turn := [.host, .host, .host, .iterate, .host, .host, .host]

/-- One call with everything it needs to return. -/
def whole (c : Call) : List Turn := .call c :: finishing

theorem patient_whole {cs : List Call} (h : ∀ c ∈ cs, c.Patient) :
    ∀ t ∈ cs.flatMap whole, t.Patient := by
  intro t ht
  obtain ⟨c, hc, ht⟩ := List.mem_flatMap.mp ht
  rcases List.mem_cons.mp ht with rfl | ht
  · exact h c hc
  · have all : ∀ t ∈ finishing, t.Patient := by decide
    exact all t ht

theorem has_statusBits (full valid : Bool) :
    has (statusBits full valid) 0x1#32 = full ∧ has (statusBits full valid) 0x2#32 = valid := by
  cases full <;> cases valid <;> decide

theorem answer_code_push (i : Ideal) :
    (i.answer .push).code = if (i.queue.length : Int) < 16 then 0 else -1 := by
  by_cases h : i.queue.length < 16
  · have : (i.queue.length : Int) < 16 := by omega
    simp [Ideal.answer, Answer.code, h, this]
  · have : ¬ (i.queue.length : Int) < 16 := by omega
    simp [Ideal.answer, Answer.code, h, this]

theorem answer_code_pop (i : Ideal) :
    (i.answer .pop).code = if 0 < (i.queue.length : Int) then 0 else -1 := by
  by_cases h : i.queue = []
  · simp [Ideal.answer, Answer.code, h]
  · have : 0 < i.queue.length := List.length_pos_iff.mpr h
    simp [Ideal.answer, Answer.code, h, this]

theorem matchesIdeal_record (deliver : Ideal → Word) (i : Ideal) (c : Call) :
    MatchesIdeal i.queue.length (i.record deliver c) where
  push value timeout hc := by
    have hc : c = mmioPush value timeout := hc
    exact ⟨_, by rw [hc, ← answer_code_push]; rfl⟩
  pop timeout hc := by
    have hc : c = mmioPop timeout := hc
    exact ⟨_, by rw [hc, ← answer_code_pop]; rfl⟩
  isFull hc := by
    have hc : c = mmioIsFull := hc
    have h := (has_statusBits (i.queue.length = 16) (i.queue ≠ [])).1
    rw [hc]
    show Result.flag _ = _
    rw [h]
    congr 1
    simp only [decide_eq_decide]
    omega
  isValid hc := by
    have hc : c = mmioIsValid := hc
    have h := (has_statusBits (i.queue.length = 16) (i.queue ≠ [])).2
    rw [hc]
    show Result.flag _ = _
    rw [h]
    congr 1
    rw [decide_eq_decide, ← List.length_pos_iff]
    omega
  refused out h := by
    cases c with
    | status mask => cases h
    | request q =>
      have : (i.answer q.kind).code = -1 := by
        injection h
      have e : i.next (.request q) = i := by
        cases ha : i.answer q.kind
        · rw [ha] at this
          cases this
        · simp [Ideal.next, ha]
      exact congrArg Ideal.queue e

/-! ## A call comes to its end -/

/-- How many accesses are left until the host polls. -/
def HostPc.opening : HostPc → Nat
  | readCtrl _ => 3
  | writeDataIn _ _ => 2
  | writeCtrl _ _ => 1
  | _ => 0

/-- How many accesses are left once the answer is there. -/
def HostPc.closing : HostPc → Nat
  | idle => 0
  | poll _ _ => 3
  | readDataOut _ _ => 2
  | _ => 1

theorem opening_host (r : Regs) (pc : HostPc) :
    (hostStep r pc).2.1.opening ≤ pc.opening - 1 := by
  cases pc with
  | readCtrl q => obtain ⟨kind, value, timeout⟩ := q; cases kind <;> simp [hostStep, HostPc.opening]
  | poll q waited =>
    obtain ⟨kind, value, timeout⟩ := q
    simp only [hostStep]
    split
    · simp [HostPc.opening]
    · split
      · cases kind <;> simp [Request.accept, HostPc.opening]
      · split <;> simp [HostPc.opening]
  | _ => simp [hostStep, HostPc.opening]

/-- The host only has to collect the answer. -/
def HostPc.Answered (r : Regs) : HostPc → Prop
  | readCtrl _ | writeDataIn _ _ | writeCtrl _ _ => False
  | poll q _ => q.timeout = none ∧ ∃ a, AckIs r.ack (some (q.kind, a))
  | _ => True

theorem HostPc.Answered.host {r : Regs} {pc : HostPc} (h : pc.Answered r) :
    (hostStep r pc).2.1.Answered (hostStep r pc).1 ∧
      (hostStep r pc).2.1.closing ≤ pc.closing - 1 := by
  cases pc with
  | readCtrl | writeDataIn | writeCtrl => exact absurd h id
  | poll q waited =>
    obtain ⟨ht, a, ha⟩ := h
    cases a with
    | refused =>
      rw [poll_refused ht waited ha]
      exact ⟨trivial, by simp [closing]⟩
    | ok =>
      rw [poll_ok ht waited ha]
      obtain ⟨kind, value, timeout⟩ := q
      cases kind <;> exact ⟨trivial, by simp [closing, Request.accept]⟩
  | _ => exact ⟨trivial, Nat.le_refl _⟩

/-- After an iteration a polling host has its answer. -/
theorem answered_iterate {mem₀ : BitVec (clog2 16) → Word} {b : Bench} {i : Ideal} {pc : HostPc}
    (h : pc.At mem₀ b i) (ho : pc.opening = 0) : pc.Answered (iteration b).regs := by
  cases pc with
  | readCtrl | writeDataIn | writeCtrl => cases ho
  | poll q waited =>
    have done : Done mem₀ (iteration b) i q := by
      obtain ⟨-, pending | done⟩ := h
      · exact pending.iterate
      · exact done.iterate
    exact ⟨h.1, i.answer q.kind, fun k a => by simp [done.ack, eq_comm]⟩
  | _ => trivial

theorem driver_returns {mem₀ : BitVec (clog2 16) → Word} {s : Atomic} {cs : List Call}
    (h : Sync mem₀ s cs) : (run Atomic.next s finishing).host = .idle := by
  have e : finishing = List.replicate 3 .host ++ .iterate :: List.replicate 3 .host := rfl
  rw [e, run_append, run_cons]
  obtain ⟨⟨cs', h'⟩, opened⟩ := run_replicate_le Atomic.next
    (I := fun s => ∃ cs, Sync mem₀ s cs) (fun s => s.host.opening) (a := .host)
    (fun s ⟨_, h⟩ => ⟨h.host, opening_host s.bench.regs s.host⟩) ⟨cs, h⟩ 3
  generalize run Atomic.next s (List.replicate 3 .host) = s' at opened h'
  have zero : s'.host.opening = 0 := by
    have : s.host.opening ≤ 3 := by cases s.host <;> simp [HostPc.opening]
    omega
  obtain ⟨-, closed⟩ := run_replicate_le Atomic.next
    (I := fun s => s.host.Answered s.bench.regs) (fun s => s.host.closing) (a := .host)
    (fun _ h => h.host)
    (answered_iterate h'.at_ zero : (s'.next .iterate).host.Answered _) 3
  generalize run Atomic.next (s'.next .iterate) (List.replicate 3 .host) = s'' at closed
  have le : (s'.next .iterate).host.closing ≤ 3 := by
    cases (s'.next .iterate).host <;> simp [HostPc.closing]
  have none : s''.host.closing = 0 := by omega
  cases hs : s''.host with
  | idle => rfl
  | _ => rw [hs] at none; cases none

/-! ## The theorem -/

/-- **The driver matches an ideal 16-deep queue**, up to the words it pops: the calls that
were started return one after another, as they would from such a queue. -/
theorem driver_matches_ideal (q : QueueCore 16 32) (d : Distributor) (a : Arbiter)
    (ts : List Turn) (patient : ∀ t ∈ ts, t.Patient) :
    let s := run Atomic.next (Atomic.init q d a) ts
    let s' := run Atomic.next s finishing
    s.done.map (fun x => x.call) ++ s.host.call?.toList = startedCalls (Atomic.init q d a) ts ∧
    s'.done.map (fun x => x.call) = startedCalls (Atomic.init q d a) ts ∧ s'.host = .idle ∧
    (∀ xs x ys, s.done = xs ++ x :: ys →
      MatchesIdeal ((successes .push xs : Int) - successes .pop xs) x) ∧
    (s.host = .idle → s.bench.regs.ctrl = 0 ∧ s.bench.regs.ack = 0) := by
  intro s s'
  obtain ⟨cs, h⟩ : ∃ cs, Sync q.mem s cs := atomic_refines q d a patient
  have calls : s.done.map (fun x => x.call) ++ s.host.call?.toList =
      startedCalls (Atomic.init q d a) ts := calls_run (Atomic.init q d a) ts
  have returned : s'.host = .idle := driver_returns h
  refine ⟨calls, ?_, returned, fun xs x ys e => ?_, fun idle => ?_⟩
  · -- what is under way is finished, and nothing else is started
    have rest : startedCalls s finishing = [] := rfl
    have all := calls_run s finishing
    rw [calls, rest, List.append_nil] at all
    change s'.done.map (fun x => x.call) ++ s'.host.call?.toList = _ at all
    rw [returned] at all
    exact (List.append_nil _).symm.trans all
  · rw [h.done] at e
    obtain ⟨cs₁, c, hxs, hx⟩ := Ideal.record_of_log _ e
    obtain ⟨push, pop⟩ := Ideal.successes_log (bridgeDelivers q.mem) .empty cs₁
    have n := (Ideal.sane_run cs₁).length_queue
    rw [push, pop, ← hxs] at n
    have e' : ((successes .push xs : Int) - successes .pop xs) =
        (run Ideal.next .empty cs₁).queue.length := by
      rw [n]
      simp [Ideal.empty]
    rw [e', hx]
    exact matchesIdeal_record _ _ c
  · have rest := h.at_
    rw [idle] at rest
    exact ⟨rest.ctrl, rest.ack⟩

/-- A pop of the empty queue, sixteen pushes and one more, a pop, and queries in between. -/
def fillAndOverfill : List Call :=
  [mmioIsValid, mmioPop none] ++ (List.range 16).map (fun n => mmioPush (BitVec.ofNat 32 n) none) ++
    [mmioIsFull, mmioPush 16 none, mmioPop none, mmioIsFull, mmioIsValid]

/-- The whole of it, with what the calls return. -/
theorem driver_matches_ideal_fillAndOverfill :
    let init := Atomic.init ⟨fun _ => 0, 0, 0, 0⟩ ⟨false, 0, 0⟩ ⟨0, 0, false⟩
    let s := run Atomic.next init (fillAndOverfill.flatMap whole)
    let s' := run Atomic.next s finishing
    s.done.map (fun x => x.result) =
      [.flag false, .code (-1) none] ++ List.replicate 16 (.code 0 none) ++
        [.flag true, .code (-1) none, .code 0 (some 1), .flag false, .flag true] ∧
    s.done.map (fun x => x.call) ++ s.host.call?.toList =
      startedCalls init (fillAndOverfill.flatMap whole) ∧
    s'.done.map (fun x => x.call) = startedCalls init (fillAndOverfill.flatMap whole) ∧ s'.host = .idle ∧
    (∀ xs x ys, s.done = xs ++ x :: ys →
      MatchesIdeal ((successes .push xs : Int) - successes .pop xs) x) ∧
    (s.host = .idle → s.bench.regs.ctrl = 0 ∧ s.bench.regs.ack = 0) :=
  ⟨by decide +kernel, driver_matches_ideal ⟨fun _ => 0, 0, 0, 0⟩ ⟨false, 0, 0⟩ ⟨0, 0, false⟩
    (fillAndOverfill.flatMap whole) (patient_whole (by decide))⟩

end TaskQueueCoSim.Mmio
