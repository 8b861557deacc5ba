import TaskQueueCoSim.Mmio.Interleaving

/-!
# What a return code says

`Truthful` says of a history that every call reports what the bridge did for its
own request while it was under way.  `ACK` does not say which request it
answers, so a call that sets its request while the answer to an earlier one of
its kind is on display or on its way takes that answer for its own.
`truthful_of_untainted` shows that this is the only way to a wrong return code,
for calls with any timeouts.

While a call polls, `Answers` holds: every answer to its kind of request that is
in `ACK`, or in the copy the bridge is about to write there, is backed by an
outcome of this very request.
-/

namespace TaskQueueCoSim.Mmio

open Flags Machine

/-- The return code and `*out` are about request `id`, served in `events`. -/
def Reports (id : Nat) (events : List Event) (x : Return) : Prop :=
  match x.call, x.result with
  | .request ⟨.push, v, _⟩, .code rc _ =>
    (rc = 0 → .outcome (.pushed v) id ∈ events) ∧ (rc = -1 → .outcome .pushRefused id ∈ events)
  | .request ⟨.pop, _, _⟩, .code rc out =>
    (rc = 0 → ∃ w, out = some w ∧ .outcome (.popped w) id ∈ events) ∧
      (rc = -1 → .outcome .popRefused id ∈ events)
  | _, _ => True

/-- Every return in the history reports an outcome since its call was made. -/
def Truthful : List Event → Prop
  | [] => True
  | .ret x id :: hist => Reports id (during hist) x ∧ Truthful hist
  | _ :: hist => Truthful hist

/-- The bridge is about to write an answer to a kind of request. -/
def Pc.shows (k : Kind) : Pc → Bool
  | answerWrite _ _ _ newAck => has newAck (k.bit .ok) || has newAck (k.bit .refused)
  | _ => false

/-- When the host sets its request, no answer to one of its kind is in `ACK`, on
its way there, or still owed by the bridge. -/
def Untainted (s : Sys) : Action → Prop
  | .host =>
    match s.host with
    | .writeCtrl q _ =>
      has s.regs.ack (q.kind.bit .ok) = false ∧ has s.regs.ack (q.kind.bit .refused) = false ∧
        s.bridge.pc.owes q.kind = false ∧ s.bridge.pc.shows q.kind = false
    | _ => True
  | _ => True

instance Untainted.decidable (s : Sys) (a : Action) : Decidable (Untainted s a) :=
  match a, s with
  | .call _, _ | .bridge, _ => isTrue trivial
  | .host, ⟨_, host, _, _, _, _⟩ =>
    match host with
    | .writeCtrl _ _ => inferInstanceAs (Decidable (_ ∧ _ ∧ _ ∧ _))
    | .idle | .readCtrl _ | .writeDataIn _ _ | .poll _ _ | .readDataOut _ _ | .clearAck _ _ _ _
    | .readStatus _ => isTrue trivial

/-! ## Backed answers -/

/-- The outcome of a request that an answer stands for, where a pop gave `w`. -/
def Request.outcome (q : Request) (a : Answer) (w : Word) : Outcome :=
  match q.kind, a with
  | .push, .ok => .pushed q.value
  | .push, .refused => .pushRefused
  | .pop, .ok => .popped w
  | .pop, .refused => .popRefused

/-- Request `id`, made by `q`, was served so since the call was made. -/
def Backed (q : Request) (id : Nat) (hist : List Event) (a : Answer) (w : Word) : Prop :=
  .outcome (q.outcome a w) id ∈ during hist

/-- What the bridge's local variables hold while `q` is polling. -/
def Pc.Backs (q : Request) (id : Nat) (hist : List Event) (dataOut : Word) : Pc → Prop
  | readAck ctrl dataIn | readStatus ctrl dataIn | readTbDone ctrl dataIn | testPush ctrl dataIn =>
    q.kind = .push → has ctrl Kind.push.req = true → dataIn = q.value
  | writeDataOut _ popped => q.kind = .pop → Backed q id hist .ok popped
  | answerRead k a _ => k = q.kind → Backed q id hist a dataOut
  | answerWrite _ _ _ newAck =>
    ∀ a, has newAck (q.kind.bit a) = true → Backed q id hist a dataOut
  | _ => True

/-- While `q` is polling. -/
structure Answers (q : Request) (regs : Regs) (pc : Pc) (posted taken : Kind → Nat)
    (hist : List Event) : Prop where
  value : q.kind = .push → regs.dataIn = q.value
  taken : pc.owes q.kind = true → taken q.kind = posted q.kind
  backs : pc.Backs q (posted q.kind) hist regs.dataOut
  shown : ∀ a, has regs.ack (q.kind.bit a) = true →
    Backed q (posted q.kind) hist a regs.dataOut

/-- What the host knows at each point of a call. -/
def HostPc.Knows (s : Sys) : HostPc → Prop
  | writeCtrl q _ => q.kind = .push → s.regs.dataIn = q.value
  | poll q _ => Answers q s.regs s.bridge.pc s.posted s.taken s.hist
  | readDataOut q _ =>
    Answers q s.regs s.bridge.pc s.posted s.taken s.hist ∧
      Backed q (s.posted q.kind) s.hist .ok s.regs.dataOut
  | clearAck q a _ out =>
    ∃ w, Backed q (s.posted q.kind) s.hist a w ∧ (q.kind = .pop → a = .ok → out = some w)
  | _ => True

structure Faithful (s : Sys) : Prop where
  truthful : Truthful s.hist
  knows : s.host.Knows s

/-! ## Steps of the host -/

/-- A backed answer makes a truthful return. -/
theorem Backed.reports {q : Request} {id : Nat} {hist : List Event} {a : Answer} {w : Word}
    {out : Option Word} (h : Backed q id hist a w) (ho : q.kind = .pop → a = .ok → out = some w) :
    Reports id (during hist) ⟨.request q, .code a.code out⟩ := by
  obtain ⟨kind, value, timeout⟩ := q
  cases kind <;> cases a
  · exact ⟨fun _ => h, fun e => absurd e (by decide)⟩
  · exact ⟨fun e => absurd e (by decide), fun _ => h⟩
  · exact ⟨fun _ => ⟨w, ho rfl rfl, h⟩, fun e => absurd e (by decide)⟩
  · exact ⟨fun e => absurd e (by decide), fun _ => h⟩

theorem reports_timeout (q : Request) (id : Nat) (events : List Event) :
    Reports id events ⟨.request q, .code (-2) none⟩ := by
  obtain ⟨kind, value, timeout⟩ := q
  cases kind <;> exact ⟨fun e => absurd e (by decide), fun e => absurd e (by decide)⟩

theorem faithful_init (top : VtbTaskQueue) : Faithful (Sys.init top) := ⟨trivial, trivial⟩

theorem Faithful.call {s : Sys} (h : Faithful s) (c : Call) : Faithful (s.call c) := by
  obtain ⟨regs, host, bridge, posted, taken, hist⟩ := s
  cases host with
  | idle => cases c <;> exact ⟨h.truthful, trivial⟩
  | _ => exact h

/-- When the host sets its request, nothing about a request of its kind is under
way, so whatever turns up from here on is about this one. -/
theorem answers_post {s : Sys} {q : Request} {ctrl : Word} {posted : Kind → Nat}
    (hq : s.host = .writeCtrl q ctrl) (g : Untainted s .host)
    (value : q.kind = .push → s.regs.dataIn = q.value) (r : Regs)
    (hr : r.dataIn = s.regs.dataIn ∧ r.ack = s.regs.ack) :
    Answers q r s.bridge.pc posted s.taken s.hist := by
  simp only [Untainted, hq] at g
  obtain ⟨ok, refused, owes, shows_⟩ := g
  refine ⟨fun hk => hr.1.trans (value hk), fun e => ?_, ?_, fun a ha => ?_⟩
  · rw [owes] at e
    cases e
  · generalize s.bridge.pc = pc at owes shows_
    cases pc with
    | readAck ctrl | readStatus ctrl | readTbDone ctrl | testPush ctrl =>
      intro hk hc
      rw [hk, Pc.owes, hc] at owes
      cases owes
    | writeDataOut =>
      intro hk
      simp [Pc.owes, hk] at owes
    | answerRead =>
      intro hk
      simp [Pc.owes, hk] at owes
    | answerWrite k a ctrl newAck =>
      intro a' ha'
      cases a' <;> simp [Pc.shows, ha'] at shows_
    | _ => trivial
  · rw [hr.2] at ha
    cases a
    · rw [ok] at ha
      cases ha
    · rw [refused] at ha
      cases ha

theorem Faithful.hostStep {s : Sys} (h : Faithful s) (g : Untainted s .host) :
    Faithful s.hostStep := by
  obtain ⟨regs, host, bridge, posted, taken, hist⟩ := s
  cases host with
  | idle => exact h
  | readCtrl q =>
    obtain ⟨kind, value, timeout⟩ := q
    cases kind
    · exact ⟨h.truthful, trivial⟩
    · exact ⟨h.truthful, fun hk => by cases hk⟩
  | writeDataIn q ctrl => exact ⟨h.truthful, fun _ => rfl⟩
  | writeCtrl q ctrl => exact ⟨h.truthful, answers_post rfl g h.knows _ ⟨rfl, rfl⟩⟩
  | poll q waited =>
    have answers : Answers q regs bridge.pc posted taken hist := h.knows
    cases he : q.expired waited
    case true =>
      simp only [Sys.hostStep, Mmio.hostStep, he, if_true]
      exact ⟨⟨reports_timeout q _ _, h.truthful⟩, trivial⟩
    case false =>
      cases ok : has regs.ack (q.kind.bit .ok)
      case true =>
        have backed := answers.shown .ok ok
        have e : Mmio.hostStep regs (.poll q waited) = (regs, q.accept regs.ack, none) := by
          simp [Mmio.hostStep, he, read32, ok]
        simp only [Sys.hostStep, e]
        obtain ⟨kind, value, timeout⟩ := q
        cases kind
        · exact ⟨h.truthful, regs.dataOut, backed, fun hk => by cases hk⟩
        · exact ⟨h.truthful, answers, backed⟩
      case false =>
        cases refused : has regs.ack (q.kind.bit .refused)
        case true =>
          have e : Mmio.hostStep regs (.poll q waited) =
              (regs, .clearAck q .refused regs.ack none, none) := by
            simp [Mmio.hostStep, he, read32, ok, refused]
          simp only [Sys.hostStep, e]
          exact ⟨h.truthful, regs.dataOut, answers.shown .refused refused, fun _ ha => by cases ha⟩
        case false =>
          have e : Mmio.hostStep regs (.poll q waited) = (regs, .poll q (waited + 1), none) := by
            simp [Mmio.hostStep, he, read32, ok, refused]
          simp only [Sys.hostStep, e]
          exact ⟨h.truthful, answers⟩
  | readDataOut q ack => exact ⟨h.truthful, regs.dataOut, h.knows.2, fun _ _ => rfl⟩
  | clearAck q a ack out =>
    obtain ⟨w, backed, ho⟩ := h.knows
    exact ⟨⟨backed.reports ho, h.truthful⟩, trivial⟩
  | readStatus mask => exact ⟨⟨trivial, h.truthful⟩, trivial⟩

/-! ## Steps of the bridge -/

section BridgeSteps

variable {q : Request} {regs : Regs} {top : VtbTaskQueue} {posted taken : Kind → Nat}
  {hist : List Event}

/-- Outcomes added to the history take nothing away. -/
theorem Backed.outcomes {id : Nat} {a : Answer} {w : Word} (h : Backed q id hist a w)
    (reports : List Report) : Backed q id (outcomes taken reports ++ hist) a w := by
  induction reports with
  | nil => exact h
  | cons report reports ih =>
    cases report with
    | edge e => exact ih
    | outcome o => exact List.mem_cons_of_mem _ ih

theorem Truthful.outcomes (h : Truthful hist) (reports : List Report) :
    Truthful (outcomes taken reports ++ hist) := by
  induction reports with
  | nil => exact h
  | cons report reports ih => cases report <;> exact ih

/-- Only a popped word depends on `DATA_OUT`. -/
theorem Backed.dataOut {id : Nat} {a : Answer} {w w' : Word} (h : Backed q id hist a w)
    (hw : q.kind = .pop → Backed q id hist .ok w') : Backed q id hist a w' := by
  obtain ⟨kind, value, timeout⟩ := q
  cases kind <;> cases a
  · exact h
  · exact h
  · exact hw rfl
  · exact h

/-- The bridge moves on without writing anything the host reads. -/
theorem Answers.goto {pc pc' : Pc} (h : Answers q regs pc posted taken hist)
    (howes : pc'.owes q.kind = true → pc.owes q.kind = true)
    (hbacks : pc'.Backs q (posted q.kind) hist regs.dataOut) :
    Answers q regs pc' posted taken hist :=
  ⟨h.value, fun e => h.taken (howes e), hbacks, h.shown⟩

/-- The bridge serves a request. -/
theorem Answers.serve {pc pc' : Pc} (h : Answers q regs pc posted taken hist) (o : Outcome)
    (howes : pc'.owes q.kind = true → pc.owes q.kind = true)
    (hbacks : pc'.Backs q (posted q.kind) (.outcome o (taken o.kind) :: hist) regs.dataOut) :
    Answers q regs pc' posted taken (.outcome o (taken o.kind) :: hist) :=
  ⟨h.value, fun e => h.taken (howes e), hbacks, fun a ha => List.mem_cons_of_mem _ (h.shown a ha)⟩

/-- The outcome just reported backs its answer, if it is about `q`. -/
theorem backed_outcome {o : Outcome} {a : Answer} {w : Word} (ho : o = q.outcome a w)
    {id : Nat} (hid : taken o.kind = id) : Backed q id (.outcome o (taken o.kind) :: hist) a w := by
  rw [Backed, ← ho, ← hid]
  exact List.mem_cons_self

theorem Answers.testPush {ctrl dataIn : Word}
    (h : Answers q regs (.testPush ctrl dataIn) posted taken hist) :
    Answers q regs (testPush top ctrl dataIn).1.pc posted taken
      (outcomes taken (testPush top ctrl dataIn).2 ++ hist) := by
  cases hp : has ctrl Kind.push.req
  case false =>
    rw [testPush_none dataIn hp]
    exact h.goto (by simp [Pc.owes]) trivial
  case true =>
    have howes (a : Answer) : (Pc.answerRead .push a ctrl).owes q.kind = true →
        (Pc.testPush ctrl dataIn).owes q.kind = true := by
      intro e
      by_cases hk : q.kind = .push
      · simp [Pc.owes, hk, hp]
      · simp only [Pc.owes, hk, decide_false, Bool.false_or, Bool.and_eq_true] at e ⊢
        exact e.2
    have id_eq (hk : q.kind = .push) : taken .push = posted q.kind := by
      have := h.taken (by simp [Pc.owes, hk, hp])
      rwa [hk] at this ⊢
    have value (hk : q.kind = .push) : dataIn = q.value := h.backs hk hp
    cases hf : top.full
    case true =>
      rw [testPush_refused dataIn hp hf]
      exact h.serve .pushRefused (howes .refused) fun hk =>
        backed_outcome (by simp [Request.outcome, ← hk]) (id_eq hk.symm)
    case false =>
      rw [testPush_ok dataIn hp hf]
      exact h.serve (.pushed dataIn) (howes .ok) fun hk =>
        backed_outcome (by simp [Request.outcome, ← hk, value hk.symm]) (id_eq hk.symm)

theorem Answers.testPop {ctrl : Word} {did : Bool}
    (h : Answers q regs (.testPop ctrl did) posted taken hist) :
    Answers q regs (testPop top ctrl did).1.pc posted taken
      (outcomes taken (testPop top ctrl did).2 ++ hist) := by
  cases hp : has ctrl Kind.pop.req
  case false =>
    rw [testPop_none did hp]
    exact h.goto (by simp [Pc.owes]) trivial
  case true =>
    have owed (hk : q.kind = .pop) : (Pc.testPop ctrl did).owes q.kind = true := by
      simp [Pc.owes, hk, hp]
    have id_eq (hk : q.kind = .pop) : taken .pop = posted q.kind := by
      have := h.taken (owed hk)
      rwa [hk] at this ⊢
    cases hv : top.validOut
    case false =>
      rw [testPop_refused did hp hv]
      refine h.serve .popRefused (fun e => owed ?_) fun hk =>
        backed_outcome (by simp [Request.outcome, ← hk]) (id_eq hk.symm)
      by_contra hk
      simp [Pc.owes, hk] at e
    case true =>
      rw [testPop_ok did hp hv]
      refine h.serve (.popped _) (fun e => owed (by simpa [Pc.owes] using e)) fun hk =>
        backed_outcome (by simp [Request.outcome, hk]) (id_eq hk)

/-- A step of the bridge while `q` is polling, and while it is about to fetch
the word it popped. -/
theorem Answers.bridgeStep {host : HostPc} {b : Bridge}
    (h : Answers q regs b.pc posted taken hist) :
    let s := (Sys.mk regs host b posted taken hist).bridgeStep
    Answers q s.regs s.bridge.pc s.posted s.taken s.hist ∧
      (Backed q (posted q.kind) hist .ok regs.dataOut →
        Backed q (posted q.kind) s.hist .ok s.regs.dataOut) := by
  obtain ⟨pc, top⟩ := b
  cases pc with
  | readCtrl =>
    refine ⟨⟨h.value, fun e => ?_, trivial, h.shown⟩, id⟩
    have e : has regs.ctrl q.kind.req = true := e
    show (if has regs.ctrl q.kind.req then posted q.kind else taken q.kind) = posted q.kind
    rw [if_pos e]
  | readDataIn ctrl => exact ⟨h.goto id fun hk _ => h.value hk, id⟩
  | readAck ctrl dataIn => exact ⟨h.goto id h.backs, id⟩
  | readStatus ctrl dataIn => exact ⟨h.goto id h.backs, id⟩
  | readTbDone ctrl dataIn =>
    by_cases hd : read32 regs .tbDone = 0
    · simp only [Sys.bridgeStep, Mmio.bridgeStep, hd]
      exact ⟨h.goto id h.backs, id⟩
    · simp only [Sys.bridgeStep, Mmio.bridgeStep, ne_eq, hd, not_false_eq_true, if_true]
      exact ⟨h.goto (fun e => by cases e) trivial, id⟩
  | testPush ctrl dataIn => exact ⟨h.testPush, fun backed => backed.outcomes _⟩
  | testPop ctrl did => exact ⟨h.testPop, fun backed => backed.outcomes _⟩
  | writeDataOut ctrl popped =>
    have fetched (hk : q.kind = .pop) : Backed q (posted q.kind) hist .ok popped := h.backs hk
    refine ⟨⟨h.value, fun e => h.taken ?_, fun hk => fetched hk.symm,
      fun a ha => (h.shown a ha).dataOut fetched⟩, fun backed => backed.dataOut fetched⟩
    have e : (Pc.answerRead .pop .ok ctrl).owes q.kind = true := e
    simp only [Pc.owes, Bool.or_eq_true, Bool.and_eq_true] at e ⊢
    rcases e with hk | ⟨hk, -⟩ <;> exact hk
  | answerRead k a ctrl =>
    refine ⟨h.goto id fun a' ha' => ?_, id⟩
    rw [has_or, Bool.or_eq_true, Kind.has_bit_bit, decide_eq_true_eq] at ha'
    rcases ha' with shown | ⟨hk, rfl⟩
    · exact h.shown a' shown
    · exact h.backs hk
  | answerWrite k a ctrl newAck =>
    refine ⟨⟨h.value, fun e => h.taken ?_, trivial, h.backs⟩, id⟩
    have e : (Pc.clearCtrl k a ctrl).owes q.kind = true := e
    simp only [Pc.owes, Bool.and_eq_true] at e
    simp [Pc.owes, e.1.2, e.2]
  | clearCtrl k a ctrl =>
    cases k with
    | push =>
      refine ⟨⟨h.value, fun e => h.taken ?_, trivial, h.shown⟩, id⟩
      have e : (Pc.testPop ctrl true).owes q.kind = true := e
      simpa [Pc.owes] using e
    | pop => cases a <;> exact ⟨⟨h.value, fun e => (by cases e), trivial, h.shown⟩, id⟩
  | idleTick did =>
    cases did <;> exact ⟨h.goto (fun e => by cases e) trivial, id⟩
  | writeStatus => exact ⟨⟨h.value, fun e => (by cases e), trivial, h.shown⟩, id⟩
  | exited => exact ⟨h, id⟩

end BridgeSteps

/-- Only the host writes `DATA_IN`. -/
theorem bridgeStep_dataIn (r : Regs) (b : Bridge) :
    (Mmio.bridgeStep r b).1.dataIn = r.dataIn := by
  obtain ⟨pc, top⟩ := b
  cases pc with
  | idleTick did => cases did <;> rfl
  | _ => rfl

theorem Faithful.bridgeStep {s : Sys} (h : Faithful s) : Faithful s.bridgeStep := by
  obtain ⟨regs, host, b, posted, taken, hist⟩ := s
  have truthful : Truthful (Sys.mk regs host b posted taken hist).bridgeStep.hist :=
    h.truthful.outcomes _
  refine ⟨truthful, ?_⟩
  cases host with
  | writeCtrl q ctrl => exact fun hk => (bridgeStep_dataIn regs b).trans (h.knows hk)
  | poll q waited =>
    have answers : Answers q regs b.pc posted taken hist := h.knows
    exact answers.bridgeStep.1
  | readDataOut q ack =>
    obtain ⟨answers, backed⟩ := h.knows
    exact ⟨answers.bridgeStep.1, answers.bridgeStep.2 backed⟩
  | clearAck q a ack out =>
    obtain ⟨w, backed, ho⟩ := h.knows
    exact ⟨w, backed.outcomes _, ho⟩
  | _ => trivial

/-! ## The theorem -/

theorem Faithful.next {s : Sys} (h : Faithful s) {a : Action} (g : Untainted s a) :
    Faithful (s.next a) := by
  cases a with
  | call c => exact h.call c
  | host => exact h.hostStep g
  | bridge => exact h.bridgeStep

/-- **Return codes are truthful.**  In a run of calls with any timeouts in which
the host sets a request only when no answer to its kind is about, every return
in every state reached reports what the bridge did for that very call. -/
theorem truthful_of_untainted (top : VtbTaskQueue) (as : List Action)
    (untainted : Guarded Sys.next Untainted (Sys.init top) as) (n : Nat) :
    Truthful (run Sys.next (Sys.init top) (as.take n)).hist :=
  ((untainted.take n).invariant (fun _ _ h g => h.next g) (faithful_init top)).truthful

/-- A push that is answered in time, and a pop that gives up at once. -/
def pushThenTimeout : List Action :=
  [.call (mmioPush 1 (some 10)), .host, .host, .host] ++ List.replicate 9 .bridge ++
    [.host, .host, .call (mmioPop (some 0)), .host, .host, .host]

theorem truthful_pushThenTimeout :
    Truthful (run Sys.next (Sys.init bootZero) (pushThenTimeout.take 19)).hist :=
  truthful_of_untainted bootZero pushThenTimeout (by decide) 19

/-- The first push gives up before the bridge answers it, and the second one
finds that answer in `ACK`. -/
def stalePush : List Action :=
  [.call (mmioPush 1 (some 0)), .host, .host, .host, .host] ++ List.replicate 8 .bridge ++
    [.call (mmioPush 2 (some 10)), .host, .host, .host, .host, .host]

/-- The second push returns 0, and its word is nowhere. -/
theorem not_truthful_stalePush :
    ¬ Truthful (run Sys.next (Sys.init bootZero) stalePush).hist := by
  have e : (run Sys.next (Sys.init bootZero) stalePush).hist =
      [.ret ⟨mmioPush 2 (some 10), .code 0 none⟩ 2, .start (mmioPush 2 (some 10)),
        .outcome (.pushed 1) 1, .ret ⟨mmioPush 1 (some 0), .code (-2) none⟩ 1,
        .start (mmioPush 1 (some 0))] := by
    decide
  rw [e]
  intro h
  exact absurd (h.1.1 rfl) (by decide)

end TaskQueueCoSim.Mmio
