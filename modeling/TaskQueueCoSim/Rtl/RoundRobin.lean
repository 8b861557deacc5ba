import Mathlib.Data.List.DropRight
import TaskQueueCoSim.Rtl.Delivery
import TaskQueueCoSim.Rtl.Handshake

/-!
# Grants of `hb_arbiter_banked.sv`

The arbiter grants a bank in every valid cycle and then turns to the other bank.

* `strictlyFair`: the banks take turns whatever idle cycles lie in between;
* `grantsAcceptances_iff`: downstream of the queue a grant goes with a word that the
  distributor accepts only if the queue is never valid in two cycles in a row.
-/

namespace TaskQueueCoSim

open Machine

namespace Arbiter

/-- The inputs in a cycle; no register depends on the data. -/
structure Input where
  reset : Bool
  inValid : Bool
  inData : Word
  deriving DecidableEq, Repr

def next (s : Arbiter) (i : Input) : Arbiter := s.posedge i.reset i.inValid

/-- A valid cycle is granted the bank whose turn it is. -/
def turn (rr : Bool) : BitVec 2 := if rr then 0b10 else 0b01

theorem turn_ne_zero (rr : Bool) : turn rr ≠ 0 := by cases rr <;> decide

theorem turn_ne_both (rr : Bool) : turn rr ≠ 0b11 := by cases rr <;> decide

theorem turn_injective {r r' : Bool} (h : turn r = turn r') : r = r' := by
  revert h
  cases r <;> cases r' <;> decide

/-- **One edge.**  It resets, grants, or stays idle. -/
theorem posedge_cases (s : Arbiter) (reset inValid : Bool) :
    reset = true ∧ s.posedge reset inValid = ⟨0, 0, false⟩ ∨
    reset = false ∧ inValid = true ∧ s.posedge reset inValid = ⟨turn s.rr, turn s.rr, !s.rr⟩ ∨
    reset = false ∧ inValid = false ∧ s.posedge reset inValid = ⟨0, 0, s.rr⟩ := by
  obtain ⟨grant, served, rr⟩ := s
  cases reset <;> cases inValid <;> cases rr <;> simp [posedge, turn]

theorem posedge_grantOut_ne_zero (s : Arbiter) (reset inValid : Bool) :
    (s.posedge reset inValid).grantOut ≠ 0 ↔ inValid = true ∧ reset = false := by
  obtain ⟨rfl, hnext⟩ | ⟨rfl, rfl, hnext⟩ | ⟨rfl, rfl, hnext⟩ := s.posedge_cases reset inValid <;>
    rw [hnext]
  · simp
  · exact iff_of_true (turn_ne_zero _) ⟨rfl, rfl⟩
  · simp

/-! ## Streams -/

/-- The state in cycle `n` of a stream. -/
def state (a : Arbiter) (is : List Input) (n : ℕ) : Arbiter := run next a (is.take n)

/-- How many cycles before cycle `n` have been valid since the last reset. -/
def validCycles (is : List Input) (n : ℕ) : ℕ :=
  ((is.take n).rtakeWhile fun i => !i.reset).countP Input.inValid

/-- How often `bank` is granted to the `k` cycles from cycle `n` on. -/
def granted (a : Arbiter) (is : List Input) (bank : BitVec 2) (n k : ℕ) : ℕ :=
  (List.range k).countP fun j => (state a is (n + j + 1)).grantOut = bank

/-- How often `grant_out` shows `bank` in the `k` cycles from cycle `n` on. -/
def shown (a : Arbiter) (is : List Input) (bank : BitVec 2) (n k : ℕ) : ℕ :=
  (List.range k).countP fun j => (state a is (n + j)).grantOut = bank

structure StrictlyFair (a : Arbiter) (is : List Input) : Prop where
  served : ∀ n < is.length, (state a is (n + 1)).grantOut = (state a is (n + 1)).servedBank
  granted_iff : ∀ n (h : n < is.length),
    (state a is (n + 1)).grantOut ≠ 0 ↔ is[n].inValid = true ∧ is[n].reset = false
  one_bank : ∀ n < is.length, (state a is (n + 1)).grantOut ≠ 0b11
  /-- the first valid cycle since a reset is granted bank `01`, the next `10` -/
  alternates : ∀ n (h : n < is.length), is[n].inValid = true → is[n].reset = false →
    (state a is (n + 1)).grantOut = if validCycles is (n + 1) % 2 = 1 then 0b01 else 0b10
  /-- in every window of cycles without a reset -/
  fair : ∀ n k, 1 ≤ n → n + k ≤ is.length →
    (∀ j (h : j < is.length), n ≤ j → j < n + k → is[j].reset = false) →
    (granted a is 0b01 n k ≤ granted a is 0b10 n k + 1 ∧
      granted a is 0b10 n k ≤ granted a is 0b01 n k + 1) ∧
    shown a is 0b01 n k ≤ shown a is 0b10 n k + 1 ∧ shown a is 0b10 n k ≤ shown a is 0b01 n k + 1

section Stream

variable {a : Arbiter} {is : List Input} {n : ℕ}

theorem state_succ (h : n < is.length) :
    state a is (n + 1) = (state a is n).posedge is[n].reset is[n].inValid :=
  run_take_succ next a is h

theorem validCycles_succ (h : n < is.length) : validCycles is (n + 1) =
    if is[n].reset then 0 else validCycles is n + if is[n].inValid then 1 else 0 := by
  rw [validCycles, List.take_succ_eq_append_getElem h, List.rtakeWhile_concat]
  cases is[n].reset <;> simp [validCycles, List.countP_append, List.countP_cons]

/-- Whose turn it is says how many cycles have been valid. -/
theorem rr_eq (first : ∀ i, is.head? = some i → i.reset = true) (hn : 1 ≤ n)
    (hle : n ≤ is.length) : (state a is n).rr = decide (validCycles is n % 2 = 1) := by
  refine restart_induction (p := Input.reset)
    (P := fun n => (state a is n).rr = decide (validCycles is n % 2 = 1)) first (fun n h hr => ?_)
    (fun n h hr ih => ?_) hn hle
  · rw [validCycles_succ h, if_pos hr, state_succ h, hr]
    rfl
  · rw [validCycles_succ h, hr, if_neg Bool.false_ne_true, state_succ h]
    obtain ⟨hr', -⟩ | ⟨-, hv, hnext⟩ | ⟨-, hv, hnext⟩ :=
      (state a is n).posedge_cases is[n].reset is[n].inValid
    · rw [hr] at hr'
      cases hr'
    · rw [hnext, hv, ih, if_pos rfl]
      rcases Nat.mod_two_eq_zero_or_one (validCycles is n) with h0 | h0 <;>
        simp [h0, Nat.add_mod]
    · rw [hnext, hv, ih]
      simp

/-- What an edge without a reset grants, and whose turn it is then. -/
theorem grant_cases (h : n < is.length) (hr : is[n].reset = false) :
    is[n].inValid = true ∧ (state a is (n + 1)).grantOut = turn (state a is n).rr ∧
      (state a is (n + 1)).rr = !(state a is n).rr ∨
    is[n].inValid = false ∧ (state a is (n + 1)).grantOut = 0 ∧
      (state a is (n + 1)).rr = (state a is n).rr := by
  rw [state_succ h]
  obtain ⟨hr', -⟩ | ⟨-, hv, hnext⟩ | ⟨-, hv, hnext⟩ :=
    (state a is n).posedge_cases is[n].reset is[n].inValid
  · rw [hr] at hr'
    cases hr'
  · rw [hnext]
    exact .inl ⟨hv, rfl, rfl⟩
  · rw [hnext]
    exact .inr ⟨hv, rfl, rfl⟩

theorem granted_succ (bank : BitVec 2) (k : ℕ) : granted a is bank n (k + 1) =
    granted a is bank n k + if (state a is (n + k + 1)).grantOut = bank then 1 else 0 := by
  rw [granted, List.range_succ, List.countP_append]
  simp [granted, List.countP_cons]

theorem shown_succ (bank : BitVec 2) (k : ℕ) : shown a is bank n (k + 1) =
    (if (state a is n).grantOut = bank then 1 else 0) + shown a is bank (n + 1) k := by
  rw [shown, List.range_succ_eq_map, List.countP_cons, List.countP_map]
  simp [shown, Function.comp_def, Nat.add_left_comm, Nat.add_comm]

/-- A grant to a cycle is shown in the next one. -/
theorem shown_eq (bank : BitVec 2) (k : ℕ) : shown a is bank (n + 1) k = granted a is bank n k := by
  simp only [shown, granted, Nat.add_right_comm n 1]

/-- Over a window without a reset the banks are granted in turn. -/
theorem granted_balance {k : ℕ} (hle : n + k ≤ is.length)
    (hr : ∀ j (h : j < is.length), n ≤ j → j < n + k → is[j].reset = false) :
    granted a is 0b01 n k + (state a is n).rr.toNat =
      granted a is 0b10 n k + (state a is (n + k)).rr.toNat := by
  induction k with
  | zero => rfl
  | succ k ih =>
    have before := ih (by omega) fun j h hj hk => hr j h hj (by omega)
    rw [granted_succ, granted_succ]
    obtain ⟨-, hgrant, hturn⟩ | ⟨-, hgrant, hturn⟩ :=
      grant_cases (a := a) (n := n + k) (by omega) (hr (n + k) (by omega) (by omega) (by omega))
    · rw [← Nat.add_assoc, hgrant, hturn]
      cases hrr : (state a is (n + k)).rr <;> rw [hrr] at before <;> simp [turn] at before ⊢ <;> omega
    · rw [← Nat.add_assoc, hgrant, hturn]
      simpa using before

theorem granted_fair {k : ℕ} (hle : n + k ≤ is.length)
    (hr : ∀ j (h : j < is.length), n ≤ j → j < n + k → is[j].reset = false) :
    granted a is 0b01 n k ≤ granted a is 0b10 n k + 1 ∧
      granted a is 0b10 n k ≤ granted a is 0b01 n k + 1 := by
  have balance := granted_balance (a := a) hle hr
  have h := Bool.toNat_le (state a is n).rr
  have h' := Bool.toNat_le (state a is (n + k)).rr
  omega

theorem shown_fair {k : ℕ} (hle : n + 1 + k ≤ is.length)
    (hr : ∀ j (h : j < is.length), n + 1 ≤ j → j < n + 1 + k → is[j].reset = false) :
    shown a is 0b01 (n + 1) k ≤ shown a is 0b10 (n + 1) k + 1 ∧
      shown a is 0b10 (n + 1) k ≤ shown a is 0b01 (n + 1) k + 1 := by
  rw [shown_eq, shown_eq]
  cases k with
  | zero => simp [granted]
  | succ k =>
    have hn : n < is.length := by omega
    cases hreset : is[n].reset with
    | true =>
      -- nothing is granted to the cycle of the reset
      have hzero : (state a is (n + 1)).grantOut = 0 := by rw [state_succ hn, hreset]; rfl
      rw [← shown_eq, ← shown_eq, shown_succ, shown_succ, shown_eq, shown_eq, hzero]
      simpa using granted_fair (a := a) (n := n + 1) (k := k) (by omega) fun j h hj hk =>
        hr j h hj (by omega)
    | false =>
      refine granted_fair (by omega) fun j h hj hk => ?_
      rcases Nat.eq_or_lt_of_le hj with rfl | hj
      · exact hreset
      · exact hr j h hj (by omega)

/-- **Fairness.**  In every stream that begins with a reset the arbiter is strictly
fair, whatever its registers held before. -/
theorem strictlyFair (a : Arbiter) (i : Input) (is : List Input) :
    StrictlyFair a ({ i with reset := true } :: is) where
  served n h := by
    rw [state_succ h]
    obtain ⟨-, hnext⟩ | ⟨-, -, hnext⟩ | ⟨-, -, hnext⟩ := posedge_cases _ _ _ <;> rw [hnext]
  granted_iff n h := by
    rw [state_succ h]
    exact posedge_grantOut_ne_zero _ _ _
  one_bank n h := by
    rw [state_succ h]
    have idle : (0 : BitVec 2) ≠ 0b11 := by decide
    obtain ⟨-, hnext⟩ | ⟨-, -, hnext⟩ | ⟨-, -, hnext⟩ := posedge_cases _ _ _ <;> rw [hnext]
    · exact idle
    · exact turn_ne_both _
    · exact idle
  alternates n h hv hr := by
    have first : ∀ j, ({ i with reset := true } :: is).head? = some j → j.reset = true := by
      intro j hj
      cases hj
      rfl
    have hturn := rr_eq (a := a) first (n := n + 1) (by omega) h
    obtain ⟨-, hgrant, hnext⟩ | ⟨hv', -⟩ := grant_cases (a := a) h hr
    · rw [hgrant]
      rw [hnext] at hturn
      cases hrr : (state a ({ i with reset := true } :: is) n).rr <;> rw [hrr] at hturn <;>
        simpa [turn] using hturn
    · rw [hv] at hv'
      cases hv'
  fair n k hn hle hr := by
    obtain ⟨m, rfl⟩ : ∃ m, n = m + 1 := ⟨n - 1, by omega⟩
    exact ⟨granted_fair hle hr, shown_fair hle hr⟩

end Stream

end Arbiter

/-! ## Downstream of the queue -/

namespace VtbTaskQueue

theorem clock_arbiter (top : VtbTaskQueue) (i : HostInput) :
    (top.clock i).arbiter = top.arbiter.posedge i.reset top.validOut := by
  obtain ⟨reset, hostMode, push, data, pop⟩ := i
  cases hostMode <;> simp [clock, drive, tick, fall, eval, combo, sequent, validOut]

/-- The distributor accepts what is on `data_out`. -/
def takesUp (top : VtbTaskQueue) (i : HostInput) : Bool :=
  top.distributor.accepts ⟨i.reset, top.validOut, top.dataOut, true⟩

variable (top : VtbTaskQueue) (is : List HostInput)

/-- The testbench in cycle `n` of a run. -/
def inCycle (n : ℕ) : VtbTaskQueue := run clock top (is.take n)

/-- Every word that the distributor accepts is granted one bank, and words that follow
each other are granted both in turn. -/
structure GrantsAcceptances : Prop where
  granted_iff : ∀ n (h : n < is.length), (inCycle top is (n + 1)).arbiter.grantOut ≠ 0 ↔
    (inCycle top is n).takesUp is[n] = true
  one_bank : ∀ n (h : n < is.length), (inCycle top is n).takesUp is[n] = true →
    (inCycle top is (n + 1)).arbiter.grantOut = 0b01 ∨
    (inCycle top is (n + 1)).arbiter.grantOut = 0b10
  alternates : ∀ m n (hmn : m < n) (h : n < is.length), (inCycle top is m).takesUp is[m] = true →
    (inCycle top is n).takesUp is[n] = true →
    (∀ k (hk : k < is.length), m < k → k < n → (inCycle top is k).takesUp is[k] = false) →
    (∀ k (hk : k < is.length), m < k → k ≤ n → is[k].reset = false) →
    (inCycle top is (m + 1)).arbiter.grantOut ≠ (inCycle top is (n + 1)).arbiter.grantOut

/-- The queue is not valid in two cycles in a row, unless one of them is a reset. -/
def NeverValidTwice : Prop :=
  ∀ n (h : n + 1 < is.length), is[n].reset = false → is[n + 1].reset = false →
    (inCycle top is n).validOut = true → (inCycle top is (n + 1)).validOut = false

section Run

variable {top is} {n : ℕ} (h : n < is.length)

include h

theorem inCycle_arbiter : (inCycle top is (n + 1)).arbiter =
    (inCycle top is n).arbiter.posedge is[n].reset (inCycle top is n).validOut := by
  rw [inCycle, run_take_succ clock top is h, clock_arbiter]
  rfl

theorem inCycle_outValid : (inCycle top is (n + 1)).distributor.outValid =
    (inCycle top is n).takesUp is[n] := by
  rw [inCycle, run_take_succ clock top is h, clock_distributor, Distributor.posedge_outValid]
  rfl

theorem grantOut_ne_zero : (inCycle top is (n + 1)).arbiter.grantOut ≠ 0 ↔
    (inCycle top is n).validOut = true ∧ is[n].reset = false := by
  rw [inCycle_arbiter h]
  exact Arbiter.posedge_grantOut_ne_zero _ _ _

variable (top) in
/-- What a cycle without a reset grants, and whose turn it is then. -/
theorem inCycle_grant_cases (hr : is[n].reset = false) :
    (inCycle top is n).validOut = true ∧
      (inCycle top is (n + 1)).arbiter.grantOut = Arbiter.turn (inCycle top is n).arbiter.rr ∧
      (inCycle top is (n + 1)).arbiter.rr = !(inCycle top is n).arbiter.rr ∨
    (inCycle top is n).validOut = false ∧
      (inCycle top is (n + 1)).arbiter.rr = (inCycle top is n).arbiter.rr := by
  rw [inCycle_arbiter h]
  obtain ⟨hr', -⟩ | ⟨-, hv, hnext⟩ | ⟨-, hv, hnext⟩ :=
    (inCycle top is n).arbiter.posedge_cases is[n].reset (inCycle top is n).validOut
  · rw [hr] at hr'
    cases hr'
  · rw [hnext]
    exact .inl ⟨hv, rfl, rfl⟩
  · rw [hnext]
    exact .inr ⟨hv, rfl⟩

end Run

theorem takesUp_eq (i : HostInput) :
    top.takesUp i = (!i.reset && top.validOut && !top.distributor.outValid) := rfl

/-- If the queue is never valid twice, the buffer of the distributor is free whenever
the queue is valid. -/
theorem takesUp_iff {top : VtbTaskQueue} {is : List HostInput}
    (first : ∀ i, is.head? = some i → i.reset = true) (htwice : NeverValidTwice top is) {n : ℕ}
    (h : n < is.length) : (inCycle top is n).takesUp is[n] = true ↔
      (inCycle top is n).validOut = true ∧ is[n].reset = false := by
  rw [takesUp_eq]
  simp only [Bool.and_eq_true, Bool.not_eq_true']
  refine ⟨fun ⟨⟨hr, hv⟩, _⟩ => ⟨hv, hr⟩, fun ⟨hv, hr⟩ => ⟨⟨hr, hv⟩, ?_⟩⟩
  cases n with
  | zero =>
    rw [first is[0] (by rw [List.head?_eq_getElem?, List.getElem?_eq_getElem h])] at hr
    cases hr
  | succ n =>
    rw [inCycle_outValid (by omega), takesUp_eq]
    cases hr' : is[n].reset with
    | true => rfl
    | false =>
      cases hv' : (inCycle top is n).validOut with
      | false => rfl
      | true =>
        rw [htwice n h hr' hr hv'] at hv
        cases hv

/-- While no word waits in the queue the arbiter keeps its turn. -/
theorem rr_stays {top : VtbTaskQueue} {is : List HostInput} {m n : ℕ} (hmn : m ≤ n)
    (hle : n ≤ is.length) (hreset : ∀ k (h : k < is.length), m ≤ k → k < n → is[k].reset = false)
    (hquiet : ∀ k < n, m ≤ k → (inCycle top is k).validOut = false) :
    (inCycle top is n).arbiter.rr = (inCycle top is m).arbiter.rr := by
  induction n, hmn using Nat.le_induction with
  | base => rfl
  | succ n hmn ih =>
    have before := ih (by omega) (fun k h hk hkn => hreset k h hk (by omega))
      fun k hkn hk => hquiet k (by omega) hk
    obtain ⟨hv, -⟩ | ⟨-, hstay⟩ :=
      inCycle_grant_cases top (n := n) (by omega) (hreset n (by omega) hmn (by omega))
    · rw [hquiet n (by omega) hmn] at hv
      cases hv
    · rw [hstay, before]

/-- A word that the distributor accepts is granted the bank whose turn it is. -/
theorem grant_of_validOut {top : VtbTaskQueue} {is : List HostInput} {n : ℕ} (h : n < is.length)
    (hvalid : (inCycle top is n).validOut = true ∧ is[n].reset = false) :
    (inCycle top is (n + 1)).arbiter.grantOut = Arbiter.turn (inCycle top is n).arbiter.rr ∧
      (inCycle top is (n + 1)).arbiter.rr = !(inCycle top is n).arbiter.rr := by
  obtain ⟨hv, hr⟩ := hvalid
  obtain ⟨-, hgrant⟩ | ⟨hv', -⟩ := inCycle_grant_cases top h hr
  · exact hgrant
  · rw [hv] at hv'
    cases hv'

/-- **Grants and acceptances.**  In every run that begins with a reset the grants go
with the words that the distributor accepts if and only if the queue is never valid
in two cycles in a row. -/
theorem grantsAcceptances_iff (top : VtbTaskQueue) (i : HostInput) (is : List HostInput) :
    GrantsAcceptances top ({ i with reset := true } :: is) ↔
      NeverValidTwice top ({ i with reset := true } :: is) := by
  have first : ∀ j, ({ i with reset := true } :: is).head? = some j → j.reset = true := by
    rintro _ ⟨⟩
    rfl
  generalize ({ i with reset := true } :: is) = is at first ⊢
  constructor
  · intro hgrants n h hr hr' hv
    by_contra hv'
    rw [Bool.not_eq_false] at hv'
    have hn := (hgrants.granted_iff n (by omega)).1 ((grantOut_ne_zero (by omega)).2 ⟨hv, hr⟩)
    have hn' := (hgrants.granted_iff (n + 1) h).1 ((grantOut_ne_zero h).2 ⟨hv', hr'⟩)
    rw [takesUp_eq, inCycle_outValid (by omega), hn] at hn'
    simp at hn'
  · intro htwice
    have taken := fun {n} (h : n < is.length) => takesUp_iff (n := n) first htwice h
    refine ⟨fun n h => (grantOut_ne_zero h).trans (taken h).symm, fun n h htake => ?_,
      fun m n hmn h htakem htaken hidle hreset => ?_⟩
    · rw [(grant_of_validOut h ((taken h).1 htake)).1]
      cases (inCycle top is n).arbiter.rr
      · exact .inl rfl
      · exact .inr rfl
    · obtain ⟨hgrantm, hturn⟩ := grant_of_validOut (by omega) ((taken (by omega)).1 htakem)
      obtain ⟨hgrantn, -⟩ := grant_of_validOut h ((taken h).1 htaken)
      -- between the two words the arbiter waits for the second
      have waits : (inCycle top is n).arbiter.rr = (inCycle top is (m + 1)).arbiter.rr := by
        refine rr_stays hmn (by omega) (fun k hk hmk hkn => hreset k hk hmk (by omega))
          fun k hkn hmk => ?_
        by_contra hv
        have htake := (taken (by omega)).2 ⟨by simpa using hv, hreset k (by omega) hmk (by omega)⟩
        rw [hidle k (by omega) hmk hkn] at htake
        cases htake
      rw [hgrantm, hgrantn, waits, hturn]
      intro heq
      exact (Bool.eq_not_self _).1 (Arbiter.turn_injective heq)

/-- One word, which nobody pops: the queue stays valid. -/
theorem not_grantsAcceptances_push : ¬GrantsAcceptances zero
    [resetInput, pushInput 5, idleInput, idleInput] := by
  intro h
  have hgrant :
      (inCycle zero [resetInput, pushInput 5, idleInput, idleInput] 4).arbiter.grantOut ≠ 0 := by
    decide
  have htake := (h.granted_iff 3 (by decide)).1 hgrant
  revert htake
  decide

end VtbTaskQueue

end TaskQueueCoSim
