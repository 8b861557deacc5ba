import TaskQueueCoSim.Rtl.EveryDepth
import TaskQueueCoSim.Rtl.ResetIsolation

/-!
# The outputs of the queue core in closed form

Nothing is assumed about the requests: a push and a pop may be accepted in one cycle, and a
reset may come at any time.  `Ledger` is what the surroundings can write down themselves from
`full` and `valid_out`: the words accepted since the last reset, how many pops were taken,
and in how many cycles both happened.

`core_closed_form` gives the outputs from the ledger alone.  Each coincidence takes one off
the occupancy, so more words than fit may be outstanding, and then `data_out` is not the next
word but the latest one that went to its slot.
-/

namespace TaskQueueCoSim.QueueCore

open RingMemory Fifo Machine

variable {DEPTH WIDTH : Nat}

structure Ledger (WIDTH : Nat) where
  accepted : List (BitVec WIDTH)
  popped : Nat
  coincident : Nat
  deriving DecidableEq, Repr

def Ledger.empty : Ledger WIDTH := ⟨[], 0, 0⟩

/-- One cycle, as the outputs of the core let the surroundings see it. -/
def Ledger.next (l : Ledger WIDTH) (full validOut : Bool) (c : ClockCycle (BitVec WIDTH)) :
    Ledger WIDTH :=
  if c.reset then .empty
  else
    let push := c.push && !full
    let pop := c.pop && validOut
    { accepted := if push then l.accepted ++ [c.data] else l.accepted
      popped := if pop then l.popped + 1 else l.popped
      coincident := if push && pop then l.coincident + 1 else l.coincident }

def account (p : QueueCore DEPTH WIDTH × Ledger WIDTH) (c : ClockCycle (BitVec WIDTH)) :
    QueueCore DEPTH WIDTH × Ledger WIDTH :=
  (p.1.posedge c, p.2.next p.1.full p.1.validOut c)

/-- How many words the core says it holds. -/
def Ledger.occupancy (l : Ledger WIDTH) : Nat := l.accepted.length - l.popped - l.coincident

/-- The number of the word on `data_out`: the latest accepted one in the slot of the next. -/
def Ledger.front (DEPTH : Nat) (l : Ledger WIDTH) : Nat :=
  l.popped + DEPTH * ((l.accepted.length - 1 - l.popped) / DEPTH)

structure Balanced (s : QueueCore DEPTH WIDTH) (l : Ledger WIDTH) : Prop where
  head_eq : s.head = (ring DEPTH).slot 0 l.popped
  tail_eq : s.tail = (ring DEPTH).slot 0 l.accepted.length
  count_eq : s.count.toNat + l.popped + l.coincident = l.accepted.length
  count_le : s.count.toNat ≤ DEPTH
  recent : Recent (ring DEPTH) s.mem 0 l.accepted

theorem balanced_reset (s : QueueCore DEPTH WIDTH) {c : ClockCycle (BitVec WIDTH)}
    (hc : c.reset = true) : Balanced (s.posedge c) .empty where
  head_eq := by simp [posedge, hc, ofBitVec_slot, Ledger.empty]
  tail_eq := by simp [posedge, hc, ofBitVec_slot, Ledger.empty]
  count_eq := by simp [posedge, hc, Ledger.empty]
  count_le := by simp [posedge, hc]
  recent := fun j hj => absurd hj (Nat.not_lt_zero j)

section Balanced

variable {s : QueueCore DEPTH WIDTH} {l : Ledger WIDTH} {c : ClockCycle (BitVec WIDTH)}

/-- The ledger of a cycle without reset, given what the core accepts. -/
theorem Ledger.next_eq {push pop : Bool} (hr : c.reset = false)
    (hpush : (c.push && !s.full) = push) (hpop : (c.pop && s.count.toNat != 0) = pop) :
    l.next s.full s.validOut c =
      ⟨if push then l.accepted ++ [c.data] else l.accepted,
        if pop then l.popped + 1 else l.popped,
        if push && pop then l.coincident + 1 else l.coincident⟩ := by
  simp only [Ledger.next, validOut, hr, hpush, hpop, Bool.false_eq_true, if_false]

/-- A word is stored, and `count` becomes `n`. -/
theorem Balanced.push (h : Balanced s l) (hp : 2 ^ clog2 DEPTH = DEPTH) (v : BitVec WIDTH)
    (n : BitVec (clog2 (DEPTH + 1))) (popped coincident : Nat)
    (hcount : n.toNat + popped + coincident = l.accepted.length + 1) (hle : n.toNat ≤ DEPTH)
    (head : BitVec (clog2 DEPTH)) (hhead : head = (ring DEPTH).slot 0 popped) :
    Balanced ⟨writeMem s.mem s.tail v, head, s.tail + 1, n⟩
      ⟨l.accepted ++ [v], popped, coincident⟩ := by
  have small : s.tail.toNat < DEPTH := Nat.lt_of_lt_of_eq (BitVec.isLt _) hp
  have len : (l.accepted ++ [v]).length = l.accepted.length + 1 := by simp
  refine ⟨hhead, ?_, ?_, hle, ?_⟩
  · show s.tail + 1 = _
    rw [h.tail_eq, len, slot_succ]
  · show n.toNat + popped + coincident = _
    rw [len, hcount]
  · show Recent _ (writeMem s.mem s.tail v) _ _
    rw [writeMem, if_pos small, h.tail_eq]
    exact h.recent.write v

/-- **One edge.** -/
theorem Balanced.posedge (h : Balanced s l) (hp : 2 ^ clog2 DEPTH = DEPTH) :
    Balanced (s.posedge c) (l.next s.full s.validOut c) := by
  cases hr : c.reset
  swap
  · rw [Ledger.next, if_pos hr]
    exact balanced_reset s hr
  have hcount := h.count_eq
  have hle := h.count_le
  generalize hpush : (c.push && !s.full) = push
  generalize hpop : (c.pop && s.count.toNat != 0) = pop
  rw [Ledger.next_eq hr hpush hpop]
  simp only [QueueCore.posedge, hr, hpush, hpop, Bool.false_eq_true, if_false]
  cases push <;> cases pop <;>
    simp only [Bool.false_eq_true, if_true, if_false, Bool.and_true, Bool.and_false]
  case false.false => exact h
  case true.false =>
    have room : s.count.toNat ≠ DEPTH := by
      have : s.full = false := by simpa using (Bool.and_eq_true_iff.mp hpush).2
      simpa [full] using this
    have up := count_succ (s := s) (by omega)
    exact h.push hp c.data (s.count + 1) l.popped l.coincident (by omega) (by omega) s.head
      h.head_eq
  case false.true =>
    have some : s.count.toNat ≠ 0 := by simpa using (Bool.and_eq_true_iff.mp hpop).2
    have down := count_pred (s := s) (by omega) (by omega)
    refine ⟨?_, h.tail_eq, ?_, ?_, h.recent⟩
    · show s.head + 1 = _
      rw [h.head_eq, slot_succ]
    · show (s.count - 1).toNat + (l.popped + 1) + l.coincident = l.accepted.length
      omega
    · show (s.count - 1).toNat ≤ DEPTH
      omega
  case true.true =>
    have some : s.count.toNat ≠ 0 := by simpa using (Bool.and_eq_true_iff.mp hpop).2
    have down := count_pred (s := s) (by omega) (by omega)
    refine h.push hp c.data (s.count - 1) (l.popped + 1) (l.coincident + 1) (by omega) (by omega)
      (s.head + 1) ?_
    rw [h.head_eq, slot_succ]

/-- The slot of the next word holds the latest one accepted for it. -/
theorem Balanced.dataOut_eq (h : Balanced s l) (hp : 2 ^ clog2 DEPTH = DEPTH)
    (hlt : l.popped < l.accepted.length) :
    ∃ hf : l.front DEPTH < l.accepted.length, s.dataOut = l.accepted[l.front DEPTH] := by
  have hd : 0 < DEPTH := hp ▸ Nat.two_pow_pos _
  have low : DEPTH * ((l.accepted.length - 1 - l.popped) / DEPTH) ≤
      l.accepted.length - 1 - l.popped := Nat.mul_div_le _ _
  have high := Nat.lt_mul_div_succ (l.accepted.length - 1 - l.popped) hd
  rw [Nat.mul_add, Nat.mul_one] at high
  have hf : l.front DEPTH < l.accepted.length := by
    unfold Ledger.front
    omega
  have same : (ring DEPTH).slot 0 l.popped = (ring DEPTH).slot 0 (l.front DEPTH) := by
    apply BitVec.eq_of_toNat_eq
    simp [ofBitVec_slot, Ledger.front, hp]
  refine ⟨hf, ?_⟩
  rw [dataOut, h.head_eq, same]
  refine h.recent _ hf ?_
  rw [ofBitVec_capacity, hp]
  unfold Ledger.front
  omega

end Balanced

/-- The outputs of the core, as the ledger gives them. -/
structure Tells (s : QueueCore DEPTH WIDTH) (l : Ledger WIDTH) : Prop where
  taken_le : l.popped + l.coincident ≤ l.accepted.length
  occupancy_le : l.occupancy ≤ DEPTH
  full_iff : s.full = true ↔ l.occupancy = DEPTH
  validOut_iff : s.validOut = true ↔ l.occupancy ≠ 0
  dataOut_eq : s.validOut = true → l.accepted[l.front DEPTH]? = some s.dataOut
  front_eq : s.validOut = true → l.accepted.length ≤ l.popped + DEPTH → l.front DEPTH = l.popped

/-- **The outputs in closed form.**  For every power of two from 2 on as the depth (with one word the
pointers are declared `[-1:0]`) and every input stream from a reset on, coinciding requests and
further resets included: the outputs are those that the ledger of the accepted requests gives,
and the occupancy never leaves its range. -/
theorem core_closed_form (k : Nat) (s : QueueCore (2 ^ (k + 1)) WIDTH)
    (c : ClockCycle (BitVec WIDTH)) (cs : List (ClockCycle (BitVec WIDTH))) (hc : c.reset = true) :
    Tells (run account (s, .empty) (c :: cs)).1 (run account (s, .empty) (c :: cs)).2 := by
  have hp := two_pow_clog2_two_pow (k + 1)
  have start : Balanced (account (s, .empty) c).1 (account (s, .empty) c).2 := by
    rw [account, Ledger.next, if_pos hc]
    exact balanced_reset s hc
  have h : Balanced (run account (account (s, .empty) c) cs).1
      (run account (account (s, .empty) c) cs).2 :=
    run_invariant (I := fun p : QueueCore (2 ^ (k + 1)) WIDTH × Ledger WIDTH => Balanced p.1 p.2)
      (fun p c h => h.posedge hp) start cs
  rw [run_cons]
  generalize run account (account (s, .empty) c) cs = p at h ⊢
  obtain ⟨s', l⟩ := p
  have hcount : s'.count.toNat + l.popped + l.coincident = l.accepted.length := h.count_eq
  have hle : s'.count.toNat ≤ 2 ^ (k + 1) := h.count_le
  have occupancy : l.occupancy = s'.count.toNat := by
    unfold Ledger.occupancy
    omega
  have valid : s'.validOut = true ↔ l.occupancy ≠ 0 := by
    rw [occupancy]
    simp [validOut]
  refine ⟨?_, ?_, ?_, valid, fun hv => ?_, fun hv fits => ?_⟩
  · show l.popped + l.coincident ≤ l.accepted.length
    omega
  · show l.occupancy ≤ 2 ^ (k + 1)
    omega
  · show s'.full = true ↔ l.occupancy = 2 ^ (k + 1)
    rw [occupancy]
    simp [full]
  · have := valid.mp hv
    obtain ⟨hf, e⟩ := h.dataOut_eq hp (show l.popped < l.accepted.length by omega)
    exact (List.getElem?_eq_getElem hf).trans (congrArg some e.symm)
  · have pos := Nat.two_pow_pos (k + 1)
    have fits : l.accepted.length ≤ l.popped + 2 ^ (k + 1) := fits
    have : (l.accepted.length - 1 - l.popped) / 2 ^ (k + 1) = 0 := Nat.div_eq_of_lt (by omega)
    simp [Ledger.front, this]

/-- Three words are stored, a fourth with a pop in the same cycle. -/
def threeAndCoincident : List (ClockCycle Word) :=
  [resetCycle, ⟨false, true, false, 1⟩, ⟨false, true, false, 2⟩, ⟨false, true, false, 3⟩,
    ⟨false, true, true, 4⟩]

theorem core_closed_form_coincident :
    Tells (run account ((⟨fun _ => 9, 1, 2, 3⟩ : QueueCore (2 ^ (1 + 1)) 32), .empty)
        threeAndCoincident).1
      (run account ((⟨fun _ => 9, 1, 2, 3⟩ : QueueCore (2 ^ (1 + 1)) 32), .empty)
        threeAndCoincident).2 :=
  core_closed_form 1 ⟨fun _ => 9, 1, 2, 3⟩ resetCycle _ rfl

end TaskQueueCoSim.QueueCore
