import TaskQueueCoSim.Mmio.Interleaving

/-!
# Every request is served exactly once

`ExactlyOnce` says that no request is served twice and that none is lost.  It
fails when the host starts its next call between the bridge's answer and the
bridge's clearing of `CTRL`: the clearing may then erase the new request, or the
new request may bring back the old one.  `exactlyOnce_of_undisturbed` shows that
nothing else goes wrong: if the host never writes `CTRL` in between, nor from a
copy it read in between, every state of the run is right.

`Stage` lists the combinations of what the host does, what the bridge does, the
request in `CTRL` and the answer in `ACK` that such a run meets.
-/

namespace TaskQueueCoSim.Mmio

open Flags Machine

structure ExactlyOnce (s : Sys) : Prop where
  distinct : ∀ k, (served k s.hist).Nodup
  issued : ∀ k, ∀ id ∈ served k s.hist, 1 ≤ id ∧ id ≤ calls k s.hist
  clocked_le : ∀ k, clocked k s.hist ≤ calls k s.hist
  kept : ∀ q waited, s.host = .poll q waited → (∀ a, has s.regs.ack (q.kind.bit a) = false) →
    has s.regs.ctrl q.kind.req = true ∨ s.bridge.pc.owes q.kind = true

def Action.Patient : Action → Prop
  | call c => c.Patient
  | _ => True

instance Action.decidablePatient (a : Action) : Decidable a.Patient := by
  cases a <;> unfold Action.Patient <;> infer_instance

def Pc.clearing : Pc → Bool
  | clearCtrl _ _ _ => true
  | _ => false

/-- The host sets its request in `CTRL` only when the bridge is not about to
clear one there, and from a copy of `CTRL` without a request of the other kind. -/
def Undisturbed (s : Sys) : Action → Prop
  | .host =>
    match s.host with
    | .writeCtrl q ctrl => s.bridge.pc.clearing = false ∧ has ctrl q.kind.other.req = false
    | _ => True
  | _ => True

instance Undisturbed.decidable (s : Sys) (a : Action) : Decidable (Undisturbed s a) := by
  unfold Undisturbed
  split
  · split <;> infer_instance
  · infer_instance

/-! ## Phases -/

inductive HostPhase where
  | rest
  | polling (k : Kind)
  | acking (k : Kind) (a : Answer)
  deriving DecidableEq

inductive BridgePhase where
  | idle
  | holding (k : Kind)
  | answering (k : Kind) (a : Answer)
  | clearing (k : Kind) (a : Answer)
  deriving DecidableEq

def HostPc.phase : HostPc → HostPhase
  | poll q _ => .polling q.kind
  | readDataOut q _ => .acking q.kind .ok
  | clearAck q a _ _ => .acking q.kind a
  | _ => .rest

/-- The request a copy of `CTRL` carries. -/
def carried (ctrl : Word) : BridgePhase :=
  if has ctrl Kind.push.req then .holding .push
  else if has ctrl Kind.pop.req then .holding .pop
  else .idle

/-- A copy of `CTRL` carries nothing, or a request that is set in it. -/
theorem carried_cases (ctrl : Word) :
    carried ctrl = .idle ∨ ∃ k : Kind, carried ctrl = .holding k ∧ has ctrl k.req = true := by
  unfold carried
  split
  · exact Or.inr ⟨.push, rfl, by assumption⟩
  · split
    · exact Or.inr ⟨.pop, rfl, by assumption⟩
    · exact Or.inl rfl

theorem has_of_carried {ctrl : Word} {k : Kind} (h : carried ctrl = .holding k) :
    has ctrl k.req = true := by
  rcases carried_cases ctrl with e | ⟨k', e, hk⟩
  · rw [e] at h
    cases h
  · rw [e] at h
    cases h
    exact hk

def Pc.phase : Pc → BridgePhase
  | readDataIn ctrl | readAck ctrl _ | readStatus ctrl _ | readTbDone ctrl _ | testPush ctrl _ =>
    carried ctrl
  | testPop ctrl _ => if has ctrl Kind.pop.req then .holding .pop else .idle
  | writeDataOut _ _ => .answering .pop .ok
  | answerRead k a _ | answerWrite k a _ _ => .answering k a
  | clearCtrl k a _ => .clearing k a
  | _ => .idle

/-- The request bits of `w` are those of `c`. -/
def CtrlIs (w : Word) (c : Option Kind) : Prop := ∀ k : Kind, has w k.req = decide (c = some k)

/-- What host, bridge, `CTRL` and `ACK` can be at one time. -/
inductive Stage : HostPhase → BridgePhase → Option Kind → Option (Kind × Answer) → Prop where
  | quiet : Stage .rest .idle none none
  | pending (k) : Stage (.polling k) .idle (some k) none
  | held (k) : Stage (.polling k) (.holding k) (some k) none
  | answering (k a) : Stage (.polling k) (.answering k a) (some k) none
  | answered (k a) : Stage (.polling k) (.clearing k a) (some k) (some (k, a))
  | acked (k a) : Stage (.acking k a) (.clearing k a) (some k) (some (k, a))
  | early (k a) : Stage .rest (.clearing k a) (some k) none
  | cleared (k a) : Stage (.polling k) .idle none (some (k, a))
  | closing (k a) : Stage (.acking k a) .idle none (some (k, a))

/-! ## What the local variables hold -/

def HostPc.Sound : HostPc → Prop
  | readCtrl q | writeDataIn q _ | writeCtrl q _ | poll q _ => q.timeout = none
  | readDataOut q ack => AckIs ack (some (q.kind, .ok))
  | clearAck q a ack _ => AckIs ack (some (q.kind, a))
  | _ => True

/-- The copy of `CTRL` carries at most one request. -/
def Single (ctrl : Word) : Prop :=
  has ctrl Kind.push.req = true → has ctrl Kind.pop.req = false

def Pc.Sound : Pc → Prop
  | readDataIn ctrl | readAck ctrl _ | readStatus ctrl _ | readTbDone ctrl _ | testPush ctrl _
  | testPop ctrl _ => Single ctrl
  | writeDataOut ctrl _ => has ctrl Kind.push.req = false
  | answerRead k _ ctrl | clearCtrl k _ ctrl => has ctrl k.other.req = false
  | answerWrite k a ctrl newAck => has ctrl k.other.req = false ∧ AckIs newAck (some (k, a))
  | _ => True

/-! ## The numbers of the requests -/

/-- The call under way whose request is not yet in `CTRL`. -/
def HostPc.opens : HostPc → Option Kind
  | readCtrl q | writeDataIn q _ | writeCtrl q _ => some q.kind
  | _ => none

/-- The latest request of a kind is in `CTRL` and not yet served. -/
def Fresh (φ : BridgePhase) (c : Option Kind) (k : Kind) : Prop :=
  c = some k ∧ (φ = .idle ∨ φ = .holding k)

structure Numbering (posted taken : Kind → Nat) (hist : List Event) (opens : Option Kind)
    (φ : BridgePhase) (c : Option Kind) : Prop where
  distinct : ∀ k, (served k hist).Nodup
  range : ∀ k, ∀ id ∈ served k hist, 1 ≤ id ∧ id ≤ posted k
  fresh : ∀ k, Fresh φ c k → 1 ≤ posted k ∧ ∀ id ∈ served k hist, id < posted k
  taken : ∀ k, φ = .holding k → taken k = posted k
  calls : ∀ k, calls k hist = posted k + if opens = some k then 1 else 0

section Numbering

variable {posted taken : Kind → Nat} {hist : List Event} {opens : Option Kind}
  {φ φ' : BridgePhase} {c c' : Option Kind}

/-- A step that numbers nothing and makes no request fresh. -/
theorem Numbering.move (h : Numbering posted taken hist opens φ c)
    (hf : ∀ k, Fresh φ' c' k → Fresh φ c k) (ht : ∀ k, φ' = .holding k → φ = .holding k) :
    Numbering posted taken hist opens φ' c' :=
  ⟨h.distinct, h.range, fun k hk => h.fresh k (hf k hk), fun k hk => h.taken k (ht k hk), h.calls⟩

/-- The host sets its request in `CTRL`. -/
theorem Numbering.post {k : Kind} (h : Numbering posted taken hist (some k) .idle none) :
    Numbering (Function.update posted k (posted k + 1)) taken hist none .idle (some k) where
  distinct := h.distinct
  range k' id hid := by
    have := h.range k' id hid
    rw [Function.update_apply]
    split
    · subst k'; omega
    · exact this
  fresh k' hk' := by
    obtain rfl : k = k' := Option.some.inj hk'.1
    rw [Function.update_self]
    exact ⟨by omega, fun id hid => by have := (h.range k id hid).2; omega⟩
  taken k' hk' := by cases hk'
  calls k' := by
    rw [h.calls k', Function.update_apply]
    by_cases e : k' = k
    · simp [e]
    · simp [e, Ne.symm e]

/-- The bridge reads `CTRL`. -/
theorem Numbering.take (h : Numbering posted taken hist opens .idle c) (ctrl : Word) :
    Numbering posted (fun k => if has ctrl k.req = true then posted k else taken k) hist opens
      (carried ctrl) c where
  distinct := h.distinct
  range := h.range
  fresh k hk := h.fresh k ⟨hk.1, Or.inl rfl⟩
  taken k hk := by simp [has_of_carried hk]
  calls := h.calls

/-- The bridge performs or refuses the request it holds. -/
theorem Numbering.serve {k : Kind} (h : Numbering posted taken hist opens (.holding k) (some k))
    {o : Outcome} (ho : o.kind = k) (a : Answer) :
    Numbering posted taken (.outcome o (taken k) :: hist) opens (.answering k a) (some k) := by
  obtain ⟨pos, new⟩ := h.fresh k ⟨rfl, Or.inr rfl⟩
  have e := h.taken k rfl
  have hs (k' : Kind) : served k' (.outcome o (taken k) :: hist) =
      if k = k' then taken k :: served k' hist else served k' hist := by
    by_cases hk : k = k' <;> simp [served, ho, hk]
  refine ⟨fun k' => ?_, fun k' id hid => ?_, fun k' hk' => ?_, fun k' hk' => (by cases hk'),
    h.calls⟩
  · rw [hs]
    split
    · subst k'
      refine List.nodup_cons.mpr ⟨fun hm => ?_, h.distinct k⟩
      have := new _ hm
      omega
    · exact h.distinct k'
  · rw [hs] at hid
    split at hid
    · subst k'
      rcases List.mem_cons.mp hid with rfl | hid
      · omega
      · exact h.range k id hid
    · exact h.range k' id hid
  · rcases hk'.2 with hφ | hφ <;> cases hφ

/-- A call returns. -/
theorem Numbering.ret (h : Numbering posted taken hist opens φ c) (x : Return) (id : Nat) :
    Numbering posted taken (.ret x id :: hist) opens φ c :=
  ⟨h.distinct, h.range, h.fresh, h.taken, h.calls⟩

/-- A call is made. -/
theorem Numbering.start (h : Numbering posted taken hist none φ c) (call : Call) :
    Numbering posted taken (.start call :: hist) call.kind? φ c where
  distinct := h.distinct
  range := h.range
  fresh := h.fresh
  taken := h.taken
  calls k := by
    have e := h.calls k
    by_cases hk : call.kind? = some k <;> simp [Mmio.calls, hk] at e ⊢ <;> omega

end Numbering

/-! ## The invariant -/

structure Inv (s : Sys) (c : Option Kind) (x : Option (Kind × Answer)) : Prop where
  running : s.regs.tbDone = 0
  ctrl : CtrlIs s.regs.ctrl c
  ack : AckIs s.regs.ack x
  stage : Stage s.host.phase s.bridge.pc.phase c x
  host : s.host.Sound
  bridge : s.bridge.pc.Sound
  numbering : Numbering s.posted s.taken s.hist s.host.opens s.bridge.pc.phase c

theorem ctrlIs_set {ctrl : Word} {k : Kind} (h : has ctrl k.other.req = false) :
    CtrlIs (ctrl ||| k.req) (some k) := by
  intro k'
  cases k <;> cases k' <;> simp_all [Kind.other]

theorem ctrlIs_clear {ctrl : Word} {k : Kind} (h : has ctrl k.other.req = false) :
    CtrlIs (clear ctrl k.req) none := by
  intro k'
  by_cases e : k = k'
  · simp [← e]
  · have : k' = k.other := by cases k <;> cases k' <;> first | rfl | exact absurd rfl e
    rw [Kind.has_clear_req e, this, h]
    simp

theorem ackIs_set {w : Word} (h : AckIs w none) (k : Kind) (a : Answer) :
    AckIs (w ||| k.bit a) (some (k, a)) := by
  intro k' a'
  simp [h k' a']

theorem ackIs_clear {w : Word} {k : Kind} {a : Answer} (h : AckIs w (some (k, a))) :
    AckIs (clear w (k.bit a)) none := by
  intro k' a'
  by_cases e : k = k' ∧ a = a'
  · simp [← e.1, ← e.2]
  · rw [Kind.has_clear_bit (by tauto), h k' a']
    simpa using e

variable {s : Sys} {c : Option Kind} {x : Option (Kind × Answer)}

theorem inv_init (top : VtbTaskQueue) : Inv (Sys.init top) none none where
  running := rfl
  ctrl k := by simp [Sys.init, zeroed, has]
  ack k a := by simp [Sys.init, zeroed, has]
  stage := .quiet
  host := trivial
  bridge := trivial
  numbering := by
    constructor <;> simp [Sys.init, served, calls, HostPc.opens, Fresh]

theorem Inv.call (h : Inv s c x) {call : Call} (hp : call.Patient) :
    Inv (s.call call) c x := by
  obtain ⟨regs, host, bridge, posted, taken, hist⟩ := s
  cases host with
  | idle =>
    cases call with
    | request q => exact ⟨h.running, h.ctrl, h.ack, h.stage, hp, h.bridge, h.numbering.start _⟩
    | status mask => exact ⟨h.running, h.ctrl, h.ack, h.stage, trivial, h.bridge, h.numbering.start _⟩
  | _ => exact h

theorem phase_ne_clearing {pc : Pc} (h : pc.clearing = false) (k : Kind) (a : Answer) :
    pc.phase ≠ .clearing k a := by
  have hc (ctrl : Word) : carried ctrl ≠ .clearing k a := by
    rcases carried_cases ctrl with e | ⟨k', e, -⟩ <;> simp [e]
  cases pc with
  | clearCtrl => simp [Pc.clearing] at h
  | testPop ctrl did =>
    intro e
    simp only [Pc.phase] at e
    split at e <;> cases e
  | readDataIn | readAck | readStatus | readTbDone | testPush => exact hc _
  | _ => simp [Pc.phase]

/-- A step of the host. -/
theorem Inv.hostStep (h : Inv s c x) (g : Undisturbed s .host) :
    ∃ c' x', Inv s.hostStep c' x' := by
  obtain ⟨regs, host, bridge, posted, taken, hist⟩ := s
  cases host with
  | idle => exact ⟨c, x, h⟩
  | readCtrl q =>
    obtain ⟨kind, value, timeout⟩ := q
    cases kind <;> exact ⟨c, x, h.running, h.ctrl, h.ack, h.stage, h.host, h.bridge, h.numbering⟩
  | writeDataIn q ctrl => exact ⟨c, x, h.running, h.ctrl, h.ack, h.stage, h.host, h.bridge, h.numbering⟩
  | writeCtrl q ctrl =>
    obtain ⟨notClearing, alone⟩ := g
    have idle : bridge.pc.phase = .idle ∧ c = none ∧ x = none := by
      have st := h.stage
      generalize hφ : bridge.pc.phase = φ at st
      cases st with
      | quiet => exact ⟨rfl, rfl, rfl⟩
      | early k a => exact absurd hφ (phase_ne_clearing notClearing k a)
    obtain ⟨hφ, rfl, rfl⟩ := idle
    have n : Numbering posted taken hist (some q.kind) .idle none := hφ ▸ h.numbering
    refine ⟨some q.kind, none, h.running, ctrlIs_set alone, h.ack, ?_, h.host, h.bridge, ?_⟩
    · show Stage (.polling q.kind) bridge.pc.phase _ _
      exact hφ ▸ .pending q.kind
    · show Numbering (Function.update posted q.kind (posted q.kind + 1)) taken hist none
        bridge.pc.phase _
      exact hφ ▸ n.post
  | poll q waited =>
    have st : Stage (.polling q.kind) bridge.pc.phase c x := h.stage
    cases x with
    | none =>
      have e := poll_none h.host waited h.ack
      simp only [Sys.hostStep, e]
      exact ⟨c, none, h.running, h.ctrl, h.ack, st, h.host, h.bridge, h.numbering⟩
    | some y =>
      obtain ⟨k, a⟩ := y
      -- an answer on display is to the host's own request
      have acked : k = q.kind ∧ Stage (.acking q.kind a) bridge.pc.phase c (some (q.kind, a)) := by
        generalize bridge.pc.phase = φ at st
        cases st with
        | answered => exact ⟨rfl, .acked ..⟩
        | cleared => exact ⟨rfl, .closing ..⟩
      obtain ⟨rfl, st'⟩ := acked
      cases a with
      | refused =>
        have e := poll_refused h.host waited h.ack
        simp only [Sys.hostStep, e]
        exact ⟨c, _, h.running, h.ctrl, h.ack, st', h.ack, h.bridge, h.numbering⟩
      | ok =>
        have e := poll_ok h.host waited h.ack
        simp only [Sys.hostStep, e]
        obtain ⟨kind, value, timeout⟩ := q
        cases kind <;> exact ⟨c, _, h.running, h.ctrl, h.ack, st', h.ack, h.bridge, h.numbering⟩
  | readDataOut q ack => exact ⟨c, x, h.running, h.ctrl, h.ack, h.stage, h.host, h.bridge, h.numbering⟩
  | clearAck q a ack out =>
    have closed : Stage .rest bridge.pc.phase c none := by
      have st : Stage (.acking q.kind a) bridge.pc.phase c x := h.stage
      generalize bridge.pc.phase = φ at st
      cases st with
      | acked => exact .early ..
      | closing => exact .quiet
    exact ⟨c, none, h.running, h.ctrl, ackIs_clear h.host, closed, trivial, h.bridge,
      h.numbering.ret _ _⟩
  | readStatus mask =>
    exact ⟨c, x, h.running, h.ctrl, h.ack, h.stage, trivial, h.bridge, h.numbering.ret _ _⟩

theorem carried_none {ctrl : Word} (h : CtrlIs ctrl none) : carried ctrl = .idle := by
  simp [carried, h .push, h .pop]

theorem carried_some {ctrl : Word} {k : Kind} (h : CtrlIs ctrl (some k)) :
    carried ctrl = .holding k := by
  cases k <;> simp [carried, h .push, h .pop]

theorem single_of_ctrlIs {ctrl : Word} (h : CtrlIs ctrl c) : Single ctrl := by
  intro hp
  have e : c = some .push := by simpa [h .push] using hp
  simp [h .pop, e]

/-- The bridge takes up what `CTRL` holds. -/
theorem Stage.take {η : HostPhase} {ctrl : Word} (h : Stage η .idle c x) (hc : CtrlIs ctrl c) :
    Stage η (carried ctrl) c x := by
  cases h with
  | quiet => exact carried_none hc ▸ .quiet
  | pending k => exact carried_some hc ▸ .held k
  | cleared k a => exact carried_none hc ▸ .cleared k a
  | closing k a => exact carried_none hc ▸ .closing k a

theorem Stage.of_holding {η : HostPhase} {k : Kind} (h : Stage η (.holding k) c x) :
    η = .polling k ∧ c = some k ∧ x = none := by
  cases h
  exact ⟨rfl, rfl, rfl⟩

theorem Stage.of_answering {η : HostPhase} {k : Kind} {a : Answer}
    (h : Stage η (.answering k a) c x) : η = .polling k ∧ c = some k ∧ x = none := by
  cases h
  exact ⟨rfl, rfl, rfl⟩

/-- The bridge clears the request it has answered. -/
theorem Stage.clear {η : HostPhase} {k : Kind} {a : Answer} (h : Stage η (.clearing k a) c x) :
    Stage η .idle none x := by
  cases h with
  | answered => exact .cleared k a
  | acked => exact .closing k a
  | early => exact .quiet

/-- The bridge performs or refuses the request it holds. -/
theorem Inv.serve {regs : Regs} {host : HostPc} {pc : Pc} {top : VtbTaskQueue}
    {posted taken : Kind → Nat} {hist : List Event} {k : Kind}
    (h : Inv ⟨regs, host, ⟨pc, top⟩, posted, taken, hist⟩ c x) (hφ : pc.phase = .holding k)
    {o : Outcome} (ho : o.kind = k) (pc' : Pc) {a : Answer} (hpc : pc'.phase = .answering k a)
    (sound : pc'.Sound) (top' : VtbTaskQueue) :
    Inv ⟨regs, host, ⟨pc', top'⟩, posted, taken, .outcome o (taken k) :: hist⟩ c x := by
  have st : Stage host.phase (.holding k) c x := hφ ▸ h.stage
  obtain ⟨hη, rfl, rfl⟩ := st.of_holding
  have n : Numbering posted taken hist host.opens (.holding k) (some k) := hφ ▸ h.numbering
  refine ⟨h.running, h.ctrl, h.ack, ?_, h.host, sound, ?_⟩
  · show Stage host.phase pc'.phase _ _
    rw [hη, hpc]
    exact .answering k a
  · show Numbering _ _ _ host.opens pc'.phase _
    exact hpc ▸ n.serve ho a

/-- A step of the bridge that leaves `CTRL`, `ACK` and the history alone. -/
theorem Inv.goto {regs regs' : Regs} {host : HostPc} {b b' : Bridge} {posted taken : Kind → Nat}
    {hist : List Event} (h : Inv ⟨regs, host, b, posted, taken, hist⟩ c x)
    (hr : regs'.tbDone = regs.tbDone ∧ regs'.ctrl = regs.ctrl ∧ regs'.ack = regs.ack)
    (hpc : b'.pc.phase = b.pc.phase) (sound : b'.pc.Sound) :
    Inv ⟨regs', host, b', posted, taken, hist⟩ c x := by
  refine ⟨hr.1.trans h.running, ?_, ?_, ?_, h.host, sound, ?_⟩
  · show CtrlIs regs'.ctrl c
    exact hr.2.1 ▸ h.ctrl
  · show AckIs regs'.ack x
    exact hr.2.2 ▸ h.ack
  · show Stage host.phase b'.pc.phase c x
    exact hpc ▸ h.stage
  · show Numbering posted taken hist host.opens b'.pc.phase c
    exact hpc ▸ h.numbering

/-- A step of the bridge. -/
theorem Inv.bridgeStep (h : Inv s c x) : ∃ c' x', Inv s.bridgeStep c' x' := by
  obtain ⟨regs, host, ⟨pc, top⟩, posted, taken, hist⟩ := s
  have same : regs.tbDone = regs.tbDone ∧ regs.ctrl = regs.ctrl ∧ regs.ack = regs.ack :=
    ⟨rfl, rfl, rfl⟩
  cases pc with
  | readCtrl =>
    have st : Stage host.phase .idle c x := h.stage
    exact ⟨c, x, h.running, h.ctrl, h.ack, st.take h.ctrl, h.host, single_of_ctrlIs h.ctrl,
      h.numbering.take regs.ctrl⟩
  | readDataIn ctrl => exact ⟨c, x, h.goto same rfl h.bridge⟩
  | readAck ctrl dataIn => exact ⟨c, x, h.goto same rfl h.bridge⟩
  | readStatus ctrl dataIn => exact ⟨c, x, h.goto same rfl h.bridge⟩
  | readTbDone ctrl dataIn =>
    have e : read32 regs .tbDone = 0 := h.running
    simp only [Sys.bridgeStep, Mmio.bridgeStep, e]
    exact ⟨c, x, h.goto same rfl h.bridge⟩
  | testPush ctrl dataIn =>
    cases hp : has ctrl Kind.push.req
    case false =>
      simp only [Sys.bridgeStep, Mmio.bridgeStep, testPush_none dataIn hp]
      exact ⟨c, x, h.goto same (by simp [Pc.phase, carried, hp]) h.bridge⟩
    case true =>
      have hφ : (Pc.testPush ctrl dataIn).phase = .holding .push := by
        simp [Pc.phase, carried, hp]
      cases hf : top.full
      case true =>
        simp only [Sys.bridgeStep, Mmio.bridgeStep, testPush_refused dataIn hp hf]
        exact ⟨c, x,
          h.serve hφ (o := .pushRefused) rfl (.answerRead .push .refused ctrl) rfl (h.bridge hp) _⟩
      case false =>
        simp only [Sys.bridgeStep, Mmio.bridgeStep, testPush_ok dataIn hp hf]
        exact ⟨c, x,
          h.serve hφ (o := .pushed dataIn) rfl (.answerRead .push .ok ctrl) rfl (h.bridge hp) _⟩
  | testPop ctrl did =>
    cases hp : has ctrl Kind.pop.req
    case false =>
      simp only [Sys.bridgeStep, Mmio.bridgeStep, testPop_none did hp]
      exact ⟨c, x, h.goto same (by simp [Pc.phase, hp]) trivial⟩
    case true =>
      have hφ : (Pc.testPop ctrl did).phase = .holding .pop := by simp [Pc.phase, hp]
      have alone : has ctrl Kind.push.req = false := by
        by_contra hc
        exact absurd (h.bridge (by simpa using hc)) (by simp [hp])
      cases hv : top.validOut
      case false =>
        simp only [Sys.bridgeStep, Mmio.bridgeStep, testPop_refused did hp hv]
        exact ⟨c, x, h.serve hφ (o := .popRefused) rfl (.answerRead .pop .refused ctrl) rfl alone _⟩
      case true =>
        simp only [Sys.bridgeStep, Mmio.bridgeStep, testPop_ok did hp hv]
        exact ⟨c, x, h.serve hφ (o := .popped _) rfl (.writeDataOut ctrl _) rfl alone _⟩
  | writeDataOut ctrl popped => exact ⟨c, x, h.goto ⟨rfl, rfl, rfl⟩ rfl h.bridge⟩
  | answerRead k a ctrl =>
    obtain ⟨-, -, rfl⟩ := h.stage.of_answering
    exact ⟨c, none, h.goto same rfl ⟨h.bridge, ackIs_set h.ack k a⟩⟩
  | answerWrite k a ctrl newAck =>
    obtain ⟨hη, rfl, rfl⟩ := h.stage.of_answering
    refine ⟨some k, some (k, a), h.running, h.ctrl, h.bridge.2, ?_, h.host, h.bridge.1, ?_⟩
    · show Stage host.phase _ _ _
      rw [hη]
      exact .answered k a
    · exact h.numbering.move (fun _ hk => by rcases hk.2 with e | e <;> cases e)
        (fun _ e => by cases e)
  | clearCtrl k a ctrl =>
    have st : Stage host.phase (.clearing k a) c x := h.stage
    have n : Numbering posted taken hist host.opens .idle none :=
      h.numbering.move (fun _ hk => by cases hk.1) (fun _ e => by cases e)
    have cleared := ctrlIs_clear h.bridge
    cases k with
    | push =>
      have hφ : (Pc.testPop ctrl true).phase = .idle := by
        have : has ctrl Kind.pop.req = false := h.bridge
        simp [Pc.phase, this]
      have alone : Single ctrl := fun _ => h.bridge
      refine ⟨none, x, h.running, cleared, h.ack, ?_, h.host, alone, ?_⟩
      · show Stage host.phase (Pc.testPop ctrl true).phase _ _
        exact hφ ▸ st.clear
      · show Numbering posted taken hist host.opens (Pc.testPop ctrl true).phase _
        exact hφ ▸ n
    | pop => cases a <;> exact ⟨none, x, h.running, cleared, h.ack, st.clear, h.host, trivial, n⟩
  | idleTick did => cases did <;> exact ⟨c, x, h.goto same rfl trivial⟩
  | writeStatus => exact ⟨c, x, h.goto ⟨rfl, rfl, rfl⟩ rfl trivial⟩
  | exited => exact ⟨c, x, h⟩

/-! ## The theorem -/

theorem clocked_le_served (k : Kind) (hist : List Event) :
    clocked k hist ≤ (served k hist).length := by
  induction hist with
  | nil => simp [clocked]
  | cons e hist ih =>
    cases e with
    | outcome o id =>
      by_cases hk : o.kind = k <;> by_cases ha : o.answer = .ok <;>
        simp [clocked, served, hk, ha] at ih ⊢ <;> omega
    | _ => simpa [clocked, served] using ih

/-- Distinct numbers from `1` to `n` are at most `n` many. -/
theorem length_le_of_range {l : List Nat} {n : Nat} (hd : l.Nodup)
    (hr : ∀ i ∈ l, 1 ≤ i ∧ i ≤ n) : l.length ≤ n := by
  have sub : l ⊆ List.range' 1 n := by
    intro i hi
    have := hr i hi
    exact List.mem_range'_1.mpr (by omega)
  simpa using (List.subperm_of_subset hd sub).length_le

theorem owes_of_holding {pc : Pc} {k : Kind} (h : pc.phase = .holding k) : pc.owes k = true := by
  cases pc with
  | readDataIn | readAck | readStatus | readTbDone | testPush => exact has_of_carried h
  | testPop ctrl did =>
    simp only [Pc.phase] at h
    split at h
    · cases h
      simpa [Pc.owes] using ‹_›
    · cases h
  | _ => cases h

theorem owes_of_answering {pc : Pc} {k : Kind} {a : Answer} (h : pc.phase = .answering k a) :
    pc.owes k = true := by
  have hc (ctrl : Word) : carried ctrl ≠ .answering k a := by
    rcases carried_cases ctrl with e | ⟨k', e, -⟩ <;> simp [e]
  cases pc with
  | readDataIn | readAck | readStatus | readTbDone | testPush => exact absurd h (hc _)
  | testPop ctrl did =>
    simp only [Pc.phase] at h
    split at h <;> cases h
  | writeDataOut | answerRead | answerWrite => cases h; simp [Pc.owes]
  | _ => cases h

theorem Inv.exactlyOnce (h : Inv s c x) : ExactlyOnce s := by
  have n := h.numbering
  have posted_le (k : Kind) : s.posted k ≤ calls k s.hist := by
    have := n.calls k
    omega
  have issued (k : Kind) : ∀ id ∈ served k s.hist, 1 ≤ id ∧ id ≤ calls k s.hist := by
    intro id hid
    have := n.range k id hid
    have := posted_le k
    omega
  refine ⟨n.distinct, issued, fun k => ?_, ?_⟩
  · exact (clocked_le_served k _).trans (length_le_of_range (n.distinct k) (issued k))
  · intro q waited hq silent
    have st : Stage (.polling q.kind) s.bridge.pc.phase c x := by
      have := h.stage
      rwa [hq] at this
    generalize hφ : s.bridge.pc.phase = φ at st
    cases st with
    | pending => exact Or.inl (by simp [h.ctrl q.kind])
    | held => exact Or.inr (owes_of_holding hφ)
    | answering k a => exact Or.inr (owes_of_answering hφ)
    | answered k a => exact absurd (silent a) (by simp [h.ack q.kind a])
    | cleared k a => exact absurd (silent a) (by simp [h.ack q.kind a])

theorem Inv.next (h : Inv s c x) {a : Action} (g : Undisturbed s a ∧ a.Patient) :
    ∃ c' x', Inv (s.next a) c' x' := by
  cases a with
  | call call => exact ⟨c, x, h.call g.2⟩
  | host => exact h.hostStep g.1
  | bridge => exact h.bridgeStep

/-- **Exactly once.**  In a run of patient calls in which the host never writes
`CTRL` while a clearing is due, every state reached has served every request at
most once and lost none. -/
theorem exactlyOnce_of_undisturbed (top : VtbTaskQueue) (as : List Action)
    (patient : ∀ a ∈ as, a.Patient) (undisturbed : Guarded Sys.next Undisturbed (Sys.init top) as)
    (n : Nat) : ExactlyOnce (run Sys.next (Sys.init top) (as.take n)) := by
  have guarded := (undisturbed.and_forall_mem patient).take n
  obtain ⟨c, x, h⟩ := guarded.invariant (I := fun s => ∃ c x, Inv s c x)
    (fun s a ⟨c, x, h⟩ g => h.next g) ⟨none, none, inv_init top⟩
  exact h.exactlyOnce

/-- A push that is answered and cleared before the host goes on to a pop. -/
def pushThenPop : List Action :=
  [.call (mmioPush 1 none), .host, .host, .host] ++ List.replicate 9 .bridge ++
    [.host, .host, .call (mmioPop none), .host, .host]

theorem exactlyOnce_pushThenPop :
    ExactlyOnce (run Sys.next (Sys.init bootZero) (pushThenPop.take 18)) :=
  exactlyOnce_of_undisturbed bootZero pushThenPop (by decide) (by decide) 18

/-- The host's second push sets its request while the bridge, which has answered
the first, is about to clear `CTRL`. -/
def lostPush : List Action :=
  [.call (mmioPush 1 none), .host, .host, .host] ++ List.replicate 8 .bridge ++
    [.host, .host, .call (mmioPush 2 none), .host, .host, .host, .bridge]

theorem not_exactlyOnce_lostPush :
    (∀ a ∈ lostPush, a.Patient) ∧ ¬ ExactlyOnce (run Sys.next (Sys.init bootZero) lostPush) := by
  refine ⟨by decide, fun h => ?_⟩
  have kept := h.kept ⟨.push, 2, none⟩ 0 (by decide) (fun a => by cases a <;> decide)
  exact absurd kept (by decide)

end TaskQueueCoSim.Mmio
