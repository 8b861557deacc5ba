import Mathlib.Data.List.DropRight
import TaskQueueCoSim.Lib.Machine
import TaskQueueCoSim.Rtl.Dispatch

/-!
# The handshake of `hb_task_distributor.sv`

The distributor is clocked with an arbitrary stream of inputs.  A word is accepted
at an edge with `in_valid` high and the buffer empty, and delivered at an edge with
the buffer full and `consumer_ready` high.

* `next_cases`: what an edge does;
* `handshake`: the buffer holds until it is delivered, and what has been accepted
  since the last reset has been delivered or is in the buffer;
* `deliversAccepted_iff`: what is delivered is `in_data` of the cycle before the
  acceptance, so it is the accepted word only if `in_data` has stood still.
-/

namespace TaskQueueCoSim.Distributor

open Machine

/-- The inputs in a cycle. -/
structure Input where
  reset : Bool
  inValid : Bool
  inData : Word
  consumerReady : Bool
  deriving DecidableEq, Repr

def next (s : Distributor) (i : Input) : Distributor :=
  s.posedge i.reset i.inValid i.inData i.consumerReady

/-- A word is taken up at the edge at the end of the cycle. -/
def accepts (s : Distributor) (i : Input) : Bool := !i.reset && i.inValid && !s.outValid

def delivers (s : Distributor) (i : Input) : Bool := !i.reset && s.outValid && i.consumerReady

@[simp] theorem outValid_mk (valid : Bool) (data reg : Word) :
    outValid ⟨valid, data, reg⟩ = valid := rfl

@[simp] theorem outData_mk (valid : Bool) (data reg : Word) :
    outData ⟨valid, data, reg⟩ = data := rfl

/-- **One edge.**  It resets, accepts, delivers, or leaves the buffer as it is. -/
theorem next_cases (s : Distributor) (i : Input) :
    i.reset = true ∧ s.next i = ⟨false, 0, 0⟩ ∨
    i.reset = false ∧ (
      accepts s i = true ∧ delivers s i = false ∧ s.outValid = false ∧
        s.next i = ⟨true, s.inDataReg, i.inData⟩ ∨
      accepts s i = false ∧ delivers s i = true ∧ s.outValid = true ∧
        s.next i = ⟨false, s.outData, i.inData⟩ ∨
      accepts s i = false ∧ delivers s i = false ∧
        s.next i = ⟨s.outValid, s.outData, i.inData⟩) := by
  obtain ⟨valid, data, reg⟩ := s
  obtain ⟨reset, inValid, inData, ready⟩ := i
  cases reset <;> cases inValid <;> cases valid <;> cases ready <;>
    simp [next, posedge, accepts, delivers, outValid, outData]

/-! ## Streams -/

variable (d : Distributor) (is : List Input)

/-- The state in cycle `n` of a stream. -/
def state (n : ℕ) : Distributor := run next d (is.take n)

/-- The cycles since the last reset before cycle `n`, each with the state in it. -/
def session (n : ℕ) : List (Distributor × Input) :=
  (trace next d (is.take n)).rtakeWhile fun x => !x.2.reset

/-- The words accepted and delivered in these cycles. -/
def accepted (n : ℕ) : List Word :=
  ((session d is n).filter fun x => accepts x.1 x.2).map fun x => x.2.inData

def delivered (n : ℕ) : List Word :=
  ((session d is n).filter fun x => delivers x.1 x.2).map fun x => x.1.outData

section Stream

variable {d is} {n : ℕ} (h : n < is.length)

include h

theorem state_succ : state d is (n + 1) = (state d is n).next is[n] :=
  run_take_succ next d is h

theorem session_succ : session d is (n + 1) =
    if is[n].reset then [] else session d is n ++ [(state d is n, is[n])] := by
  rw [session, trace_take_succ next d is h, List.rtakeWhile_concat]
  cases is[n].reset <;> rfl

theorem accepted_succ (hr : is[n].reset = false) : accepted d is (n + 1) =
    accepted d is n ++ if accepts (state d is n) is[n] then [is[n].inData] else [] := by
  rw [accepted, session_succ h, hr, if_neg Bool.false_ne_true, List.filter_append, List.map_append]
  cases ha : accepts (state d is n) is[n] <;> simp [accepted, ha]

theorem delivered_succ (hr : is[n].reset = false) : delivered d is (n + 1) =
    delivered d is n ++ if delivers (state d is n) is[n] then [(state d is n).outData] else [] := by
  rw [delivered, session_succ h, hr, if_neg Bool.false_ne_true, List.filter_append, List.map_append]
  cases hd : delivers (state d is n) is[n] <;> simp [delivered, hd]

theorem accepted_reset (hr : is[n].reset = true) : accepted d is (n + 1) = [] := by
  rw [accepted, session_succ h, if_pos hr]
  rfl

theorem delivered_reset (hr : is[n].reset = true) : delivered d is (n + 1) = [] := by
  rw [delivered, session_succ h, if_pos hr]
  rfl

end Stream

/-! ## Discipline -/

/-- The buffer is taken up and given away one word at a time. -/
structure HandshakeDiscipline : Prop where
  /-- valid data stands until the consumer is ready -/
  holds : ∀ n m, 1 ≤ n → n ≤ m → m ≤ is.length → (state d is n).outValid = true →
    (∀ k (h : k < is.length), n ≤ k → k < m → is[k].reset = false ∧ is[k].consumerReady = false) →
    (state d is m).outValid = true ∧ (state d is m).outData = (state d is n).outData
  /-- and no longer -/
  ends : ∀ n (h : n < is.length), (state d is n).outValid = true → is[n].consumerReady = true →
    (state d is (n + 1)).outValid = false
  exclusive : ∀ n (h : n < is.length), accepts (state d is n) is[n] = false ∨
    delivers (state d is n) is[n] = false
  /-- what has been accepted since the last reset has been delivered or is in the buffer -/
  conserved : ∀ n, 1 ≤ n → n ≤ is.length → (accepted d is n).length =
    (delivered d is n).length + if (state d is n).outValid then 1 else 0

variable {d is} {n : ℕ}

theorem state_reset (h : n < is.length) (hr : is[n].reset = true) :
    state d is (n + 1) = ⟨false, 0, 0⟩ := by
  rw [state_succ h]
  obtain ⟨-, hnext⟩ | ⟨hr', -⟩ := next_cases (state d is n) is[n]
  · exact hnext
  · rw [hr] at hr'
    cases hr'

/-- An edge without a reset: what it accepts and delivers, and the state behind it. -/
theorem edge_cases (h : n < is.length) (hr : is[n].reset = false) :
    (state d is n).outValid = false ∧
      accepted d is (n + 1) = accepted d is n ++ [is[n].inData] ∧
      delivered d is (n + 1) = delivered d is n ∧
      state d is (n + 1) = ⟨true, (state d is n).inDataReg, is[n].inData⟩ ∧
      accepts (state d is n) is[n] = true ∨
    (state d is n).outValid = true ∧ is[n].consumerReady = true ∧
      accepted d is (n + 1) = accepted d is n ∧
      delivered d is (n + 1) = delivered d is n ++ [(state d is n).outData] ∧
      state d is (n + 1) = ⟨false, (state d is n).outData, is[n].inData⟩ ∨
    ((state d is n).outValid = true → is[n].consumerReady = false) ∧
      accepted d is (n + 1) = accepted d is n ∧
      delivered d is (n + 1) = delivered d is n ∧
      state d is (n + 1) = ⟨(state d is n).outValid, (state d is n).outData, is[n].inData⟩ := by
  rw [accepted_succ h hr, delivered_succ h hr, state_succ h]
  obtain ⟨hr', -⟩ | ⟨-, hacc | hdel | hidle⟩ := next_cases (state d is n) is[n]
  · rw [hr] at hr'
    cases hr'
  · obtain ⟨ha, hd, hvalid, hnext⟩ := hacc
    exact .inl ⟨hvalid, by simp [ha], by simp [hd], hnext, ha⟩
  · obtain ⟨ha, hd, hvalid, hnext⟩ := hdel
    have hready : is[n].consumerReady = true := by simpa [delivers, hr, hvalid] using hd
    exact .inr (.inl ⟨hvalid, hready, by simp [ha], by simp [hd], hnext⟩)
  · obtain ⟨ha, hd, hnext⟩ := hidle
    refine .inr (.inr ⟨fun hvalid => ?_, by simp [ha], by simp [hd], hnext⟩)
    simpa [delivers, hr, hvalid] using hd

/-- A word in the buffer stays there while the consumer is not ready. -/
theorem outValid_stays {m : ℕ} (hnm : n ≤ m) (hm : m ≤ is.length)
    (hvalid : (state d is n).outValid = true)
    (hidle : ∀ k (h : k < is.length), n ≤ k → k < m →
      is[k].reset = false ∧ is[k].consumerReady = false) :
    (state d is m).outValid = true ∧ (state d is m).outData = (state d is n).outData ∧
      accepted d is m = accepted d is n ∧ delivered d is m = delivered d is n := by
  induction m, hnm using Nat.le_induction with
  | base => exact ⟨hvalid, rfl, rfl, rfl⟩
  | succ m hnm ih =>
    obtain ⟨hv, hdata, hacc, hdel⟩ := ih (by omega) fun k h hk hkm => hidle k h hk (by omega)
    obtain ⟨hr, hready⟩ := hidle m hm hnm (by omega)
    obtain ⟨hempty, -⟩ | ⟨-, hready', -⟩ | ⟨-, hacc', hdel', hnext⟩ := edge_cases hm hr
    · rw [hv] at hempty
      cases hempty
    · rw [hready] at hready'
      cases hready'
    · rw [hnext, hacc', hdel']
      exact ⟨hv, hdata, hacc, hdel⟩

/-- What has been accepted since the last reset has been delivered or is in the buffer. -/
theorem length_accepted (first : ∀ i, is.head? = some i → i.reset = true) (hn : 1 ≤ n)
    (hle : n ≤ is.length) : (accepted d is n).length =
      (delivered d is n).length + if (state d is n).outValid then 1 else 0 := by
  refine restart_induction (p := Input.reset) (P := fun n => (accepted d is n).length =
    (delivered d is n).length + if (state d is n).outValid then 1 else 0) first (fun n h hr => ?_)
    (fun n h hr ih => ?_) hn hle
  · rw [accepted_reset h hr, delivered_reset h hr, state_reset h hr]
    rfl
  · obtain ⟨hv, hacc, hdel, hnext, -⟩ | ⟨hv, -, hacc, hdel, hnext⟩ | ⟨-, hacc, hdel, hnext⟩ :=
      edge_cases (d := d) h hr <;> rw [hacc, hdel, hnext]
    · rw [hv] at ih
      simpa using ih
    · rw [hv] at ih
      simpa using ih
    · exact ih

section Stream

variable (d) (i : Input) (is)

/-- **Handshake.**  In every stream that begins with a reset the distributor keeps the
discipline, whatever its registers held before. -/
theorem handshake : HandshakeDiscipline d ({ i with reset := true } :: is) where
  holds n m _ hnm hm hvalid hidle := by
    obtain ⟨hv, hdata, -⟩ := outValid_stays hnm hm hvalid hidle
    exact ⟨hv, hdata⟩
  ends n h hvalid hready := by
    cases hr : ({ i with reset := true } :: is)[n].reset with
    | true => rw [state_reset h hr]; rfl
    | false =>
      obtain ⟨hempty, -⟩ | ⟨-, -, -, -, hnext⟩ | ⟨hbusy, -⟩ := edge_cases h hr
      · rw [hvalid] at hempty
        cases hempty
      · rw [hnext]; rfl
      · rw [hready] at hbusy
        cases hbusy hvalid
  exclusive n h := by
    obtain ⟨hr, -⟩ | ⟨-, ⟨-, hd, -⟩ | ⟨ha, -⟩ | ⟨ha, -⟩⟩ :=
      next_cases (state d ({ i with reset := true } :: is) n) ({ i with reset := true } :: is)[n]
    · exact .inl (by simp [accepts, hr])
    · exact .inr hd
    · exact .inl ha
    · exact .inl ha
  conserved n hn hle := length_accepted (fun a ha => by cases ha; rfl) hn hle

end Stream

/-! ## Data -/

/-- What is in `in_data_reg` in the cycle after an input. -/
def Input.latched (i : Input) : Word := if i.reset then 0 else i.inData

variable (d is) in
/-- Since every reset the words delivered are those accepted, but for one in the buffer. -/
def DeliversAccepted : Prop :=
  ∀ n, 1 ≤ n → n ≤ is.length → delivered d is n <+: accepted d is n ∧
    (accepted d is n).length ≤ (delivered d is n).length + 1

variable (d is) in
/-- Whenever a word is accepted that is delivered before the next reset, `in_data` is
what it was in the cycle before. -/
def StandsStill : Prop :=
  ∀ n m (h : n + 1 < m) (hm : m < is.length), accepts (state d is (n + 1)) is[n + 1] = true →
    is[m].consumerReady = true → (∀ k (hk : k < is.length), n + 1 < k → k ≤ m → is[k].reset = false) →
    is[n + 1].inData = is[n].latched

theorem inDataReg_succ (h : n < is.length) : (state d is (n + 1)).inDataReg = is[n].latched := by
  cases hr : is[n].reset with
  | true =>
    rw [state_reset h hr, Input.latched, if_pos hr]
  | false =>
    rw [Input.latched, hr, if_neg Bool.false_ne_true]
    obtain ⟨-, -, -, hnext, -⟩ | ⟨-, -, -, -, hnext⟩ | ⟨-, -, -, hnext⟩ := edge_cases h hr <;>
      rw [hnext]

/-- A word that is accepted is delivered, as it was latched, in the first cycle in which
the consumer is ready. -/
theorem delivered_of_accepts {m : ℕ} (hn : n < is.length) (hnm : n < m) (hm : m < is.length)
    (hacc : accepts (state d is n) is[n] = true)
    (hreset : ∀ k (h : k < is.length), n < k → k ≤ m → is[k].reset = false)
    (hidle : ∀ k (h : k < is.length), n < k → k < m → is[k].consumerReady = false)
    (hready : is[m].consumerReady = true) :
    (state d is n).outValid = false ∧ accepted d is (m + 1) = accepted d is n ++ [is[n].inData] ∧
      delivered d is (m + 1) = delivered d is n ++ [(state d is n).inDataReg] := by
  have hparts := hacc
  simp only [accepts, Bool.and_eq_true, Bool.not_eq_true'] at hparts
  obtain ⟨⟨hr, -⟩, hempty⟩ := hparts
  have htaken : accepted d is (n + 1) = accepted d is n ++ [is[n].inData] ∧
      delivered d is (n + 1) = delivered d is n ∧
      state d is (n + 1) = ⟨true, (state d is n).inDataReg, is[n].inData⟩ := by
    rw [accepted_succ hn hr, delivered_succ hn hr, state_succ hn]
    obtain ⟨hr', -⟩ | ⟨-, ⟨-, hd, -, hnext⟩ | ⟨ha, -⟩ | ⟨ha, -⟩⟩ := next_cases (state d is n) is[n]
    · rw [hr] at hr'
      cases hr'
    · exact ⟨by simp [hacc], by simp [hd], hnext⟩
    · rw [hacc] at ha
      cases ha
    · rw [hacc] at ha
      cases ha
  obtain ⟨hacc', hdel', hnext⟩ := htaken
  obtain ⟨hv, hdata, haccm, hdelm⟩ := outValid_stays (d := d) (n := n + 1) (m := m) hnm (by omega)
    (by rw [hnext]; rfl) fun k h hk hkm => ⟨hreset k h hk (by omega), hidle k h hk hkm⟩
  refine ⟨hempty, ?_⟩
  obtain ⟨hv', -⟩ | ⟨-, -, haccm', hdelm', -⟩ | ⟨hbusy, -⟩ :=
    edge_cases (d := d) hm (hreset m hm hnm (Nat.le_refl m))
  · rw [hv] at hv'
    cases hv'
  · rw [haccm', hdelm', haccm, hdelm, hdata, hacc', hdel', hnext]
    exact ⟨rfl, rfl⟩
  · rw [hready] at hbusy
    cases hbusy hv

variable (d is) in
/-- All accepted words have been delivered but the one in the buffer, which was accepted
in the cycle `a + 1` after it was latched. -/
def UpToBuffer (n : ℕ) : Prop :=
  (state d is n).outValid = false ∧ accepted d is n = delivered d is n ∨
  (state d is n).outValid = true ∧ ∃ a, ∃ h : a + 1 < is.length, a + 1 < n ∧
    accepts (state d is (a + 1)) is[a + 1] = true ∧
    (∀ k (hk : k < is.length), a + 1 < k → k < n → is[k].reset = false) ∧
    (state d is n).outData = is[a].latched ∧
    accepted d is n = delivered d is n ++ [is[a + 1].inData]

/-- If the words accepted stand still, a word in the buffer will be the accepted one
when it is delivered. -/
theorem upToBuffer_of_standsStill (first : ∀ i, is.head? = some i → i.reset = true)
    (hstill : StandsStill d is) (hn : 1 ≤ n) (hle : n ≤ is.length) : UpToBuffer d is n := by
  refine restart_induction (p := Input.reset) (P := UpToBuffer d is) first (fun n h hr => ?_)
    (fun n h hr ih => ?_) hn hle
  · unfold UpToBuffer
    rw [accepted_reset h hr, delivered_reset h hr, state_reset h hr]
    exact .inl ⟨rfl, rfl⟩
  · unfold UpToBuffer
    obtain ⟨hv, hacc, hdel, hnext, ha⟩ | ⟨hv, hready, hacc, hdel, hnext⟩ | ⟨-, hacc, hdel, hnext⟩ :=
      edge_cases (d := d) h hr
    · obtain ⟨a, rfl⟩ : ∃ a, n = a + 1 := by
        refine Nat.exists_eq_succ_of_ne_zero fun h0 => ?_
        subst h0
        rw [first is[0] (by rw [List.head?_eq_getElem?, List.getElem?_eq_getElem h])] at hr
        cases hr
      obtain ⟨-, heq⟩ | ⟨hv', -⟩ := ih
      · rw [hacc, hdel, hnext, heq, inDataReg_succ (by omega)]
        exact .inr ⟨rfl, a, h, by omega, ha, fun k hk _ _ => by omega, rfl, rfl⟩
      · rw [hv] at hv'
        cases hv'
    · obtain ⟨hv', -⟩ | ⟨-, a, hlt, han, ha, hresets, hdata, heq⟩ := ih
      · rw [hv] at hv'
        cases hv'
      · have hlatched : is[a + 1].inData = is[a].latched := by
          refine hstill a n han h ha hready fun k hk hak hkn => ?_
          rcases Nat.lt_or_eq_of_le hkn with hkn | rfl
          · exact hresets k hk hak hkn
          · exact hr
        rw [hacc, hdel, hnext, heq, hdata, hlatched]
        exact .inl ⟨rfl, rfl⟩
    · rw [hacc, hdel, hnext]
      refine ih.imp id fun ⟨hv, a, hlt, han, ha, hresets, hdata, heq⟩ => ?_
      refine ⟨hv, a, hlt, by omega, ha, fun k hk hak hkn => ?_, hdata, heq⟩
      rcases Nat.lt_or_eq_of_le (Nat.le_of_lt_succ hkn) with hkn | rfl
      · exact hresets k hk hak hkn
      · exact hr

/-- **Deliveries.**  In a stream that begins with a reset the words delivered are
those accepted if and only if `in_data` stands still for the words that are delivered. -/
theorem deliversAccepted_iff (d : Distributor) (i : Input) (is : List Input) :
    DeliversAccepted d ({ i with reset := true } :: is) ↔
      StandsStill d ({ i with reset := true } :: is) := by
  have first : ∀ j, ({ i with reset := true } :: is).head? = some j → j.reset = true := by
    rintro _ ⟨⟩
    rfl
  constructor
  · intro h n m hnm hm hacc hready hreset
    -- the first cycle behind the acceptance in which the consumer is ready
    have hex : ∃ m, n + 1 < m ∧ ∃ hm : m < ({ i with reset := true } :: is).length,
        ({ i with reset := true } :: is)[m].consumerReady = true := ⟨m, hnm, hm, hready⟩
    obtain ⟨hnm', hm', hready'⟩ := Nat.find_spec hex
    have hle : Nat.find hex ≤ m := Nat.find_min' hex ⟨hnm, hm, hready⟩
    obtain ⟨hempty, haccm, hdelm⟩ := delivered_of_accepts (by omega) hnm' hm' hacc
      (fun k hk hnk hkm => hreset k hk hnk (by omega))
      (fun k hk hnk hkm => by
        have hbusy := Nat.find_min hex hkm
        simp only [hnk, hk, true_and, exists_true_left, Bool.not_eq_true] at hbusy
        exact hbusy) hready'
    have hlen := length_accepted (d := d) first (n := n + 1) (by omega) (by omega)
    rw [hempty] at hlen
    obtain ⟨hinit, -⟩ := h (Nat.find hex + 1) (by omega) hm'
    rw [haccm, hdelm] at hinit
    have heq := hinit.eq_of_length (by simp [hlen])
    have hword := List.append_inj_right' heq rfl
    rw [inDataReg_succ (by omega), List.cons.injEq] at hword
    exact hword.1.symm
  · intro hstill n hn hle
    have hlen := length_accepted (d := d) first hn hle
    refine ⟨?_, by split_ifs at hlen <;> omega⟩
    obtain ⟨-, heq⟩ | ⟨-, a, _, -, -, -, -, heq⟩ := upToBuffer_of_standsStill first hstill hn hle
    · rw [heq]
    · rw [heq]
      exact List.prefix_append _ _

/-- One word, which is accepted in the first cycle in which it is valid. -/
def oneWord : List Input :=
  [⟨true, false, 0, false⟩, ⟨false, true, 7, false⟩, ⟨false, false, 0, true⟩]

/-- What is delivered is what `in_data_reg` holds after the reset. -/
theorem not_deliversAccepted_oneWord : ¬DeliversAccepted ⟨false, 0, 0⟩ oneWord := by
  intro h
  have hdelivered : delivered ⟨false, 0, 0⟩ oneWord 3 = [0] := by decide
  have haccepted : accepted ⟨false, 0, 0⟩ oneWord 3 = [7] := by decide
  obtain ⟨hinit, -⟩ := h 3 (by decide) (by decide)
  rw [hdelivered, haccepted] at hinit
  exact absurd (hinit.eq_of_length rfl) (by decide)

end TaskQueueCoSim.Distributor
