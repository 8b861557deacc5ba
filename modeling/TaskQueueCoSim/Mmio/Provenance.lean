import TaskQueueCoSim.Mmio.Adversary
import TaskQueueCoSim.Mmio.Interleaving

/-!
# Where the words come from

Host and bridge interleave in any order, calls may give up at any time, and requests
may be lost or served twice.  No word is made up all the same: `Explains` says of a history
that the bridge clocks in only words that the host has asked to push, samples only words
that were clocked in or that the memory held at power-on, and that a successful pop hands
over a word that the bridge has sampled.

`Traced` is the invariant.  A request bit for a push, in `CTRL` or in anybody's copy of it,
means that `DATA_IN` has been given a word; an answer bit for a pop, in `ACK` or in a copy of
it, means that `DATA_OUT` has been given one.  `Grows` is what every step does to both, so
that what one side knows survives the steps of the other.
-/

namespace TaskQueueCoSim.Mmio

open Flags Machine VtbTaskQueue

/-- A call to push `v` has been made. -/
def Given (hist : List Event) (v : Word) : Prop := ∃ t, .start (mmioPush v t) ∈ hist

/-- The bridge has sampled `w` for a pop. -/
def Fetched (hist : List Event) (w : Word) : Prop := ∃ id, .outcome (.popped w) id ∈ hist

/-- `w` may stand in the memory of the queue. -/
def Stored (mem₀ : BitVec (clog2 16) → Word) (hist : List Event) (w : Word) : Prop :=
  (∃ i, mem₀ i = w) ∨ ∃ id, .outcome (.pushed w) id ∈ hist

/-- What must have come before an event. -/
def Explained (mem₀ : BitVec (clog2 16) → Word) (hist : List Event) : Event → Prop
  | .outcome (.pushed v) _ => Given hist v
  | .outcome (.popped w) _ => Stored mem₀ hist w
  | .ret ⟨.request q, .code rc out⟩ _ =>
    q.kind = .pop → rc = 0 → ∃ w, out = some w ∧ Fetched hist w
  | _ => True

def Explains (mem₀ : BitVec (clog2 16) → Word) : List Event → Prop
  | [] => True
  | e :: hist => Explained mem₀ hist e ∧ Explains mem₀ hist

/-! ## What the local variables mean -/

/-- A copy of `CTRL`: a request to push comes with its word. -/
def Armed (s : Sys) (ctrl : Word) : Prop :=
  has ctrl Kind.push.req = true → Given s.hist s.regs.dataIn

/-- A copy of `ACK`: a successful pop comes with its word. -/
def Filled (s : Sys) (ack : Word) : Prop :=
  has ack (Kind.pop.bit .ok) = true → Fetched s.hist s.regs.dataOut

def HostPc.Traced (s : Sys) : HostPc → Prop
  | readCtrl q => q.kind = .push → Given s.hist q.value
  | writeDataIn q _ => Given s.hist q.value
  | writeCtrl q ctrl => Armed s ctrl ∧ (q.kind = .push → Given s.hist s.regs.dataIn)
  | readDataOut _ ack => Filled s ack ∧ Fetched s.hist s.regs.dataOut
  | clearAck q a ack out =>
    Filled s ack ∧ (q.kind = .pop → a = .ok → ∃ w, out = some w ∧ Fetched s.hist w)
  | _ => True

def Pc.Traced (s : Sys) : Pc → Prop
  | readDataIn ctrl | testPop ctrl _ | clearCtrl _ _ ctrl => Armed s ctrl
  | readAck ctrl dataIn | readStatus ctrl dataIn | readTbDone ctrl dataIn
  | testPush ctrl dataIn => Armed s ctrl ∧ (has ctrl Kind.push.req = true → Given s.hist dataIn)
  | writeDataOut ctrl popped => Armed s ctrl ∧ Fetched s.hist popped
  | answerRead k a ctrl =>
    Armed s ctrl ∧ (k = .pop → a = .ok → Fetched s.hist s.regs.dataOut)
  | answerWrite _ _ ctrl newAck => Armed s ctrl ∧ Filled s newAck
  | _ => True

structure Traced (mem₀ : BitVec (clog2 16) → Word) (s : Sys) : Prop where
  explains : Explains mem₀ s.hist
  safe : ∃ log, Safe s.bridge log
  mem : ∀ i, Stored mem₀ s.hist (s.bridge.top.queue.mem i)
  ctrl : Armed s s.regs.ctrl
  ack : Filled s s.regs.ack
  host : s.host.Traced s
  bridge : s.bridge.pc.Traced s

/-! ## What a step leaves alone -/

/-- What has come stays, also in the two data registers. -/
structure Grows (s s' : Sys) : Prop where
  given : ∀ v, Given s.hist v → Given s'.hist v
  fetched : ∀ w, Fetched s.hist w → Fetched s'.hist w
  dataIn : Given s.hist s.regs.dataIn → Given s'.hist s'.regs.dataIn
  dataOut : Fetched s.hist s.regs.dataOut → Fetched s'.hist s'.regs.dataOut

variable {s s' : Sys} {mem₀ : BitVec (clog2 16) → Word}

/-- Events added to the history, with the data registers as they were. -/
theorem grows_of_append {regs regs' : Regs} {host host' : HostPc} {b b' : Bridge}
    {posted posted' taken taken' : Kind → Nat} {hist : List Event} (events : List Event)
    (hin : regs'.dataIn = regs.dataIn) (hout : regs'.dataOut = regs.dataOut) :
    Grows ⟨regs, host, b, posted, taken, hist⟩
      ⟨regs', host', b', posted', taken', events ++ hist⟩ where
  given _ := fun ⟨t, h⟩ => ⟨t, List.mem_append_right _ h⟩
  fetched _ := fun ⟨id, h⟩ => ⟨id, List.mem_append_right _ h⟩
  dataIn := fun ⟨t, h⟩ => ⟨t, hin ▸ List.mem_append_right _ h⟩
  dataOut := fun ⟨id, h⟩ => ⟨id, hout ▸ List.mem_append_right _ h⟩

theorem Armed.grow {ctrl : Word} (h : Armed s ctrl) (g : Grows s s') : Armed s' ctrl :=
  fun hc => g.dataIn (h hc)

theorem Filled.grow {ack : Word} (h : Filled s ack) (g : Grows s s') : Filled s' ack :=
  fun ha => g.dataOut (h ha)

theorem HostPc.Traced.grow {pc : HostPc} (h : pc.Traced s) (g : Grows s s') : pc.Traced s' := by
  cases pc with
  | readCtrl q => exact fun hk => g.given _ (h hk)
  | writeDataIn q ctrl => exact g.given _ h
  | writeCtrl q ctrl => exact ⟨h.1.grow g, fun hk => g.dataIn (h.2 hk)⟩
  | readDataOut q ack => exact ⟨h.1.grow g, g.dataOut h.2⟩
  | clearAck q a ack out =>
    refine ⟨h.1.grow g, fun hk ha => ?_⟩
    obtain ⟨w, hw, hf⟩ := h.2 hk ha
    exact ⟨w, hw, g.fetched w hf⟩
  | _ => trivial

theorem Pc.Traced.grow {pc : Pc} (h : pc.Traced s) (g : Grows s s') : pc.Traced s' := by
  cases pc with
  | readDataIn | testPop | clearCtrl => exact Armed.grow h g
  | readAck | readStatus | readTbDone | testPush =>
    exact ⟨h.1.grow g, fun hc => g.given _ (h.2 hc)⟩
  | writeDataOut => exact ⟨h.1.grow g, g.fetched _ h.2⟩
  | answerRead => exact ⟨h.1.grow g, fun hk ha => g.dataOut (h.2 hk ha)⟩
  | answerWrite => exact ⟨h.1.grow g, h.2.grow g⟩
  | _ => trivial

theorem Stored.grow {hist : List Event} {w : Word} (h : Stored mem₀ hist w) (events : List Event) :
    Stored mem₀ (events ++ hist) w := by
  rcases h with h | ⟨id, h⟩
  · exact Or.inl h
  · exact Or.inr ⟨id, List.mem_append_right _ h⟩

/-! ## Calls and the host -/

theorem traced_init (q : QueueCore 16 32) (d : Distributor) (a : Arbiter) :
    Traced q.mem (Sys.init (boot q d a)) where
  explains := trivial
  safe := ⟨_, safe_start q d a⟩
  mem i := by
    have queue := (boot_spec q d a).2
    exact Or.inl ⟨i, by simp only [Sys.init, queue]⟩
  ctrl := fun h => by simp [Sys.init, zeroed] at h
  ack := fun h => by simp [Sys.init, zeroed] at h
  host := trivial
  bridge := trivial

theorem Traced.call (h : Traced mem₀ s) (c : Call) : Traced mem₀ (s.call c) := by
  obtain ⟨regs, host, bridge, posted, taken, hist⟩ := s
  cases host with
  | idle =>
    have g (host' : HostPc) : Grows ⟨regs, .idle, bridge, posted, taken, hist⟩
        ⟨regs, host', bridge, posted, taken, .start c :: hist⟩ :=
      grows_of_append [.start c] rfl rfl
    refine ⟨⟨trivial, h.explains⟩, h.safe, fun i => (h.mem i).grow [.start c],
      h.ctrl.grow (g c.entry), h.ack.grow (g c.entry), ?_, h.bridge.grow (g c.entry)⟩
    cases c with
    | request q =>
      obtain ⟨kind, value, timeout⟩ := q
      exact fun hk => ⟨timeout, List.mem_cons.mpr (Or.inl (by cases hk; rfl))⟩
    | status mask => trivial
  | _ => exact h

/-- A step of the host that ends no call. -/
theorem Traced.hostGoto {regs regs' : Regs} {host host' : HostPc} {bridge : Bridge}
    {posted posted' taken : Kind → Nat} {hist : List Event}
    (h : Traced mem₀ ⟨regs, host, bridge, posted, taken, hist⟩)
    (g : Grows ⟨regs, host, bridge, posted, taken, hist⟩
      ⟨regs', host', bridge, posted', taken, hist⟩)
    (hctrl : Armed ⟨regs', host', bridge, posted', taken, hist⟩ regs'.ctrl)
    (hack : regs'.ack = regs.ack)
    (hhost : host'.Traced ⟨regs', host', bridge, posted', taken, hist⟩) :
    Traced mem₀ ⟨regs', host', bridge, posted', taken, hist⟩ where
  explains := h.explains
  safe := h.safe
  mem := h.mem
  ctrl := hctrl
  ack := by
    have := h.ack.grow g
    rwa [← hack] at this
  host := hhost
  bridge := h.bridge.grow g

/-- A call returns. -/
theorem Traced.ret {regs regs' : Regs} {host : HostPc} {bridge : Bridge}
    {posted taken : Kind → Nat} {hist : List Event} {x : Return} (id : Nat)
    (h : Traced mem₀ ⟨regs, host, bridge, posted, taken, hist⟩)
    (explained : Explained mem₀ hist (.ret x id))
    (hctrl : regs'.ctrl = regs.ctrl)
    (hdata : regs'.dataIn = regs.dataIn ∧ regs'.dataOut = regs.dataOut)
    (hack : Filled ⟨regs, host, bridge, posted, taken, hist⟩ regs'.ack) :
    Traced mem₀ ⟨regs', .idle, bridge, posted, taken, .ret x id :: hist⟩ := by
  have g : Grows ⟨regs, host, bridge, posted, taken, hist⟩
      ⟨regs', .idle, bridge, posted, taken, .ret x id :: hist⟩ :=
    grows_of_append [.ret x id] hdata.1 hdata.2
  refine ⟨⟨explained, h.explains⟩, h.safe, fun i => (h.mem i).grow [.ret x id], ?_,
    hack.grow g, trivial, h.bridge.grow g⟩
  have := h.ctrl.grow g
  rwa [← hctrl] at this

theorem Traced.hostStep (h : Traced mem₀ s) : Traced mem₀ s.hostStep := by
  obtain ⟨regs, host, bridge, posted, taken, hist⟩ := s
  -- a step that writes nothing
  have goto (host' : HostPc) (hhost : host'.Traced ⟨regs, host', bridge, posted, taken, hist⟩) :
      Traced mem₀ ⟨regs, host', bridge, posted, taken, hist⟩ :=
    h.hostGoto (grows_of_append [] rfl rfl) (h.ctrl.grow (grows_of_append [] rfl rfl)) rfl hhost
  cases host with
  | idle => exact h
  | readCtrl q =>
    obtain ⟨kind, value, timeout⟩ := q
    cases kind with
    | push => exact goto _ (h.host rfl)
    | pop => exact goto _ ⟨h.ctrl, fun hk => by cases hk⟩
  | writeDataIn q ctrl =>
    have g : Grows ⟨regs, .writeDataIn q ctrl, bridge, posted, taken, hist⟩
        ⟨write32 regs .dataIn q.value, .writeCtrl q ctrl, bridge, posted, taken, hist⟩ :=
      ⟨fun _ h => h, fun _ h => h, fun _ => h.host, fun h => h⟩
    exact h.hostGoto g (h.ctrl.grow g) rfl ⟨fun _ => h.host, fun _ => h.host⟩
  | writeCtrl q ctrl =>
    obtain ⟨armed, pushes⟩ := h.host
    refine h.hostGoto ⟨fun _ h => h, fun _ h => h, fun h => h, fun h => h⟩ ?_ rfl trivial
    intro hc
    have hc : (has ctrl Kind.push.req || has q.kind.req Kind.push.req) = true := by
      rwa [← has_or]
    rw [Bool.or_eq_true, Kind.has_req_req, decide_eq_true_eq] at hc
    exact hc.elim armed pushes
  | poll q waited =>
    cases he : q.expired waited
    case true =>
      simp only [Sys.hostStep, Mmio.hostStep, he, if_true]
      exact h.ret _ (fun _ e => absurd e (by decide)) rfl ⟨rfl, rfl⟩ h.ack
    case false =>
      cases ok : has regs.ack (q.kind.bit .ok)
      case true =>
        have e : Mmio.hostStep regs (.poll q waited) = (regs, q.accept regs.ack, none) := by
          simp [Mmio.hostStep, he, read32, ok]
        simp only [Sys.hostStep, e]
        obtain ⟨kind, value, timeout⟩ := q
        cases kind with
        | push => exact goto _ ⟨h.ack, fun hk => by cases hk⟩
        | pop => exact goto _ ⟨h.ack, h.ack ok⟩
      case false =>
        cases refused : has regs.ack (q.kind.bit .refused)
        case true =>
          have e : Mmio.hostStep regs (.poll q waited) =
              (regs, .clearAck q .refused regs.ack none, none) := by
            simp [Mmio.hostStep, he, read32, ok, refused]
          simp only [Sys.hostStep, e]
          exact goto _ ⟨h.ack, fun _ ha => by cases ha⟩
        case false =>
          have e : Mmio.hostStep regs (.poll q waited) = (regs, .poll q (waited + 1), none) := by
            simp [Mmio.hostStep, he, read32, ok, refused]
          simp only [Sys.hostStep, e]
          exact goto _ trivial
  | readDataOut q ack =>
    obtain ⟨filled, fetched⟩ := h.host
    exact goto _ ⟨filled, fun _ _ => ⟨regs.dataOut, rfl, fetched⟩⟩
  | clearAck q a ack out =>
    obtain ⟨filled, fetched⟩ := h.host
    refine h.ret _ (fun hk hrc => fetched hk ?_) rfl ⟨rfl, rfl⟩ fun ha =>
      filled (has_of_has_clear ha)
    cases a with
    | ok => rfl
    | refused => exact absurd hrc (by decide)
  | readStatus mask => exact h.ret _ trivial rfl ⟨rfl, rfl⟩ h.ack

/-! ## The bridge -/

/-- An edge changes a word of the memory only to the word pushed with it. -/
theorem mem_tick (top : VtbTaskQueue) (i : BitVec (clog2 16)) :
    top.tick.queue.mem i = top.queue.mem i ∨
      top.cycle.push = true ∧ top.tick.queue.mem i = top.cycle.data := by
  rw [tick_queue]
  exact QueueCore.posedge_mem_cases ..

/-- A step of the bridge that reports nothing. -/
theorem Traced.bridgeGoto {regs regs' : Regs} {host : HostPc} {b b' : Bridge}
    {posted taken taken' : Kind → Nat} {hist : List Event}
    (h : Traced mem₀ ⟨regs, host, b, posted, taken, hist⟩) (hsafe : ∃ log, Safe b' log)
    (hmem : ∀ i, Stored mem₀ hist (b'.top.queue.mem i))
    (hin : regs'.dataIn = regs.dataIn) (hout : regs'.dataOut = regs.dataOut)
    (hctrl : Armed ⟨regs, host, b, posted, taken, hist⟩ regs'.ctrl)
    (hack : Filled ⟨regs, host, b, posted, taken, hist⟩ regs'.ack)
    (hpc : b'.pc.Traced ⟨regs, host, b, posted, taken, hist⟩) :
    Traced mem₀ ⟨regs', host, b', posted, taken', hist⟩ := by
  have g : Grows ⟨regs, host, b, posted, taken, hist⟩ ⟨regs', host, b', posted, taken', hist⟩ :=
    grows_of_append [] hin hout
  exact ⟨h.explains, hsafe, hmem, hctrl.grow g, hack.grow g, h.host.grow g, hpc.grow g⟩

/-- A step of the bridge that serves a request. -/
theorem Traced.serve {regs : Regs} {host : HostPc} {b b' : Bridge} {posted taken : Kind → Nat}
    {hist : List Event} {o : Outcome} (id : Nat)
    (h : Traced mem₀ ⟨regs, host, b, posted, taken, hist⟩) (hsafe : ∃ log, Safe b' log)
    (explained : Explained mem₀ hist (.outcome o id))
    (hmem : ∀ i, Stored mem₀ (.outcome o id :: hist) (b'.top.queue.mem i))
    (hpc : b'.pc.Traced ⟨regs, host, b', posted, taken, .outcome o id :: hist⟩) :
    Traced mem₀ ⟨regs, host, b', posted, taken, .outcome o id :: hist⟩ := by
  have g : Grows ⟨regs, host, b, posted, taken, hist⟩
      ⟨regs, host, b', posted, taken, .outcome o id :: hist⟩ :=
    grows_of_append [.outcome o id] rfl rfl
  exact ⟨⟨explained, h.explains⟩, hsafe, hmem, h.ctrl.grow g, h.ack.grow g, h.host.grow g, hpc⟩

section Serving

variable {regs : Regs} {host : HostPc} {top : VtbTaskQueue} {posted taken : Kind → Nat}
  {hist : List Event} {ctrl : Word}

theorem Traced.testPush {dataIn : Word}
    (h : Traced mem₀ ⟨regs, host, ⟨.testPush ctrl dataIn, top⟩, posted, taken, hist⟩) :
    Traced mem₀ ⟨regs, host, (testPush top ctrl dataIn).1, posted, taken,
      outcomes taken (testPush top ctrl dataIn).2 ++ hist⟩ := by
  obtain ⟨log, safe⟩ := h.safe
  obtain ⟨armed, given⟩ := h.bridge
  have safe' : ∃ log, Safe (Mmio.testPush top ctrl dataIn).1 log := ⟨_, safe.testPush⟩
  cases hp : has ctrl Kind.push.req
  case false =>
    rw [testPush_none dataIn hp] at safe' ⊢
    exact h.bridgeGoto safe' h.mem rfl rfl h.ctrl h.ack armed
  case true =>
    cases hf : top.full
    case true =>
      rw [testPush_refused dataIn hp hf] at safe' ⊢
      exact h.serve (taken .push) safe' trivial (fun i => (h.mem i).grow [_])
        ⟨armed.grow (grows_of_append [_] rfl rfl), fun _ ha => by cases ha⟩
    case false =>
      rw [testPush_ok dataIn hp hf] at safe' ⊢
      refine h.serve (taken .push) safe' (given hp) (fun i => ?_)
        ⟨armed.grow (grows_of_append [_] rfl rfl), fun hk => by cases hk⟩
      have ready : Ready top := safe.ready rfl
      have data : (top.raisePush dataIn).cycle.data = dataIn := by
        rw [cycle_host (t := top.raisePush dataIn) ready.reset ready.hostMode]
        rfl
      show Stored mem₀ _ ((top.raisePush dataIn).tick.queue.mem i)
      rcases mem_tick (top.raisePush dataIn) i with e | ⟨-, e⟩
      · rw [e]
        exact (h.mem i).grow [_]
      · rw [e, data]
        exact Or.inr ⟨taken .push, List.mem_cons_self⟩

theorem Traced.testPop {did : Bool}
    (h : Traced mem₀ ⟨regs, host, ⟨.testPop ctrl did, top⟩, posted, taken, hist⟩) :
    Traced mem₀ ⟨regs, host, (testPop top ctrl did).1, posted, taken,
      outcomes taken (testPop top ctrl did).2 ++ hist⟩ := by
  obtain ⟨log, safe⟩ := h.safe
  have armed : Armed _ ctrl := h.bridge
  have safe' : ∃ log, Safe (Mmio.testPop top ctrl did).1 log := ⟨_, safe.testPop⟩
  cases hp : has ctrl Kind.pop.req
  case false =>
    rw [testPop_none did hp] at safe' ⊢
    exact h.bridgeGoto safe' h.mem rfl rfl h.ctrl h.ack trivial
  case true =>
    cases hv : top.validOut
    case false =>
      rw [testPop_refused did hp hv] at safe' ⊢
      exact h.serve (taken .pop) safe' trivial (fun i => (h.mem i).grow [_])
        ⟨armed.grow (grows_of_append [_] rfl rfl), fun _ ha => by cases ha⟩
    case true =>
      rw [testPop_ok did hp hv] at safe' ⊢
      have ready : Ready top := safe.ready rfl
      have same (i : BitVec (clog2 16)) : top.raisePop.tick.queue.mem i = top.queue.mem i := by
        rcases mem_tick top.raisePop i with e | ⟨pushed, -⟩
        · exact e
        · rw [cycle_host (t := top.raisePop) ready.reset ready.hostMode] at pushed
          exact absurd (ready.hostPushReq.symm.trans pushed) (by decide)
      refine h.serve (taken .pop) safe' ?_ (fun i => ?_)
        ⟨armed.grow (grows_of_append [_] rfl rfl), taken .pop, List.mem_cons_self⟩
      · show Stored mem₀ hist (top.raisePop.tick.queue.mem _)
        rw [same]
        exact h.mem _
      · show Stored mem₀ _ (top.raisePop.tick.queue.mem i)
        rw [same]
        exact (h.mem i).grow [_]

end Serving

theorem Traced.bridgeStep (h : Traced mem₀ s) : Traced mem₀ s.bridgeStep := by
  obtain ⟨regs, host, ⟨pc, top⟩, posted, taken, hist⟩ := s
  obtain ⟨log, safe⟩ := h.safe
  have safe' : ∃ log, Safe (Mmio.bridgeStep regs ⟨pc, top⟩).2.1 log := ⟨_, safe.step regs⟩
  cases pc with
  | readCtrl => exact h.bridgeGoto safe' h.mem rfl rfl h.ctrl h.ack h.ctrl
  | readDataIn ctrl => exact h.bridgeGoto safe' h.mem rfl rfl h.ctrl h.ack ⟨h.bridge, h.bridge⟩
  | readAck ctrl dataIn => exact h.bridgeGoto safe' h.mem rfl rfl h.ctrl h.ack h.bridge
  | readStatus ctrl dataIn => exact h.bridgeGoto safe' h.mem rfl rfl h.ctrl h.ack h.bridge
  | readTbDone ctrl dataIn =>
    refine h.bridgeGoto safe' h.mem rfl rfl h.ctrl h.ack ?_
    by_cases hd : read32 regs .tbDone = 0
    · simp only [hd, ne_eq, not_true_eq_false, if_false]
      exact h.bridge
    · simp only [hd, ne_eq, not_false_eq_true, if_true]
      trivial
  | testPush ctrl dataIn => exact h.testPush
  | testPop ctrl did => exact h.testPop
  | writeDataOut ctrl popped =>
    obtain ⟨armed, fetched⟩ := h.bridge
    have g : Grows ⟨regs, host, ⟨.writeDataOut ctrl popped, top⟩, posted, taken, hist⟩
        ⟨write32 regs .dataOut popped, host, ⟨.answerRead .pop .ok ctrl, top⟩, posted, taken,
          hist⟩ :=
      ⟨fun _ h => h, fun _ h => h, fun h => h, fun _ => fetched⟩
    exact ⟨h.explains, safe', h.mem, h.ctrl.grow g, h.ack.grow g, h.host.grow g, armed.grow g,
      fun _ _ => fetched⟩
  | answerRead k a ctrl =>
    obtain ⟨armed, fetched⟩ := h.bridge
    refine h.bridgeGoto safe' h.mem rfl rfl h.ctrl h.ack ⟨armed, fun hn => ?_⟩
    rw [has_or, Bool.or_eq_true, Kind.has_bit_bit, decide_eq_true_eq] at hn
    exact hn.elim h.ack fun e => fetched e.1 e.2
  | answerWrite k a ctrl newAck =>
    obtain ⟨armed, filled⟩ := h.bridge
    exact h.bridgeGoto safe' h.mem rfl rfl h.ctrl filled armed
  | clearCtrl k a ctrl =>
    have armed : Armed _ ctrl := h.bridge
    have written : Armed ⟨regs, host, ⟨.clearCtrl k a ctrl, top⟩, posted, taken, hist⟩
        (clear ctrl k.req) := fun hc => armed (has_of_has_clear hc)
    cases k with
    | push => exact h.bridgeGoto safe' h.mem rfl rfl written h.ack armed
    | pop => cases a <;> exact h.bridgeGoto safe' h.mem rfl rfl written h.ack trivial
  | idleTick did =>
    cases did
    · have ready : Ready top := safe.ready rfl
      refine h.bridgeGoto safe' (fun i => ?_) rfl rfl h.ctrl h.ack trivial
      show Stored mem₀ hist (top.tick.queue.mem i)
      rw [ready.tick.2]
      exact h.mem i
    · exact h.bridgeGoto safe' h.mem rfl rfl h.ctrl h.ack trivial
  | writeStatus => exact h.bridgeGoto safe' h.mem rfl rfl h.ctrl h.ack trivial
  | exited => exact h

/-! ## The theorem -/

theorem Traced.next (h : Traced mem₀ s) (a : Action) : Traced mem₀ (s.next a) := by
  cases a with
  | call c => exact h.call c
  | host => exact h.hostStep
  | bridge => exact h.bridgeStep

/-- What comes before an event of an explained history explains it. -/
theorem Explains.at {later earlier : List Event} {e : Event}
    (h : Explains mem₀ (later ++ e :: earlier)) : Explained mem₀ earlier e ∧ Explains mem₀ earlier := by
  induction later with
  | nil => exact h
  | cons _ later ih => exact ih h.2

theorem Explains.fetched {hist : List Event} {w : Word} (h : Explains mem₀ hist)
    (hw : Fetched hist w) : Stored mem₀ hist w := by
  obtain ⟨id, hid⟩ := hw
  obtain ⟨later, earlier, rfl⟩ := List.append_of_mem hid
  have := h.at.1.grow (later ++ [.outcome (.popped w) id])
  simpa using this

theorem Explains.stored {hist : List Event} {w : Word} (h : Explains mem₀ hist)
    (hw : Stored mem₀ hist w) : (∃ i, mem₀ i = w) ∨ Given hist w := by
  rcases hw with hw | ⟨id, hid⟩
  · exact Or.inl hw
  · obtain ⟨later, earlier, rfl⟩ := List.append_of_mem hid
    obtain ⟨t, ht⟩ := h.at.1
    exact Or.inr ⟨t, by simp [ht]⟩

/-- **No word is made up.**  In every interleaving of host and bridge, with any timeouts,
a pop that returns 0 hands over a word that an earlier call asked to push, or one that the
memory of the queue held at power-on. -/
theorem popped_words_given (q : QueueCore 16 32) (d : Distributor) (a : Arbiter)
    (as : List Action) (later earlier : List Event) (p : Request) (out : Option Word) (id : Nat)
    (hp : p.kind = .pop)
    (h : (run Sys.next (Sys.init (boot q d a)) as).hist =
      later ++ .ret ⟨.request p, .code 0 out⟩ id :: earlier) :
    ∃ w, out = some w ∧ ((∃ i, q.mem i = w) ∨ Given earlier w) := by
  have traced := run_invariant (I := Traced q.mem) (fun _ a h => h.next a) (traced_init q d a) as
  have explains := traced.explains
  rw [h] at explains
  obtain ⟨explained, before⟩ := explains.at
  obtain ⟨w, hw, fetched⟩ := explained hp rfl
  exact ⟨w, hw, before.stored (before.fetched fetched)⟩

/-- A call that is served in one pass of the bridge, between its steps. -/
def servedCall (c : Call) (before pass after : Nat) : List Action :=
  .call c :: (List.replicate before .host ++ List.replicate pass .bridge ++
    List.replicate after .host)

def twoPushesAndPop : List Action :=
  servedCall (mmioPush 1 none) 3 12 2 ++ servedCall (mmioPush 2 (some 5)) 3 12 2 ++
    servedCall (mmioPop (some 3)) 2 13 3

/-- What stands in the history before that pop returns, newest first. -/
def twoPushesAndPopHistory : List Event :=
  [.outcome (.popped 2) 1, .start (mmioPop (some 3)), .ret ⟨mmioPush 2 (some 5), .code 0 none⟩ 2,
    .outcome (.pushed 2) 2, .start (mmioPush 2 (some 5)), .ret ⟨mmioPush 1 none, .code 0 none⟩ 1,
    .outcome (.pushed 1) 1, .start (mmioPush 1 none)]

theorem popped_words_given_two :
    ∃ w, some (2 : Word) = some w ∧
      ((∃ i : BitVec (clog2 16), (⟨fun _ => 0, 0, 0, 0⟩ : QueueCore 16 32).mem i = w) ∨
        Given twoPushesAndPopHistory w) := by
  have h : (run Sys.next (Sys.init (boot ⟨fun _ => 0, 0, 0, 0⟩ ⟨false, 0, 0⟩ ⟨0, 0, false⟩))
      twoPushesAndPop).hist =
      [] ++ .ret ⟨.request ⟨.pop, 0, some 3⟩, .code 0 (some 2)⟩ 1 :: twoPushesAndPopHistory := by
    decide +kernel
  exact popped_words_given _ _ _ _ _ _ _ _ _ rfl h

end TaskQueueCoSim.Mmio
