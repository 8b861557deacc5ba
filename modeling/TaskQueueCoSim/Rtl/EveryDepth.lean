import TaskQueueCoSim.Rtl.QueueRefinement

/-!
# The queue core at every depth

The pointers wrap where their bits end, at a power of two, and the memory ends at
`DEPTH`.  `FifoOfDepth` says that every index in use is an address and that the
outputs are those of the FIFO.  `InSession` ties the pointers to the number of
words pushed since the last reset.

* `InSession.posedge`: one edge, if the word that is pushed goes to an address;
* `fifoOfDepth_iff`: with one request a cycle the core is a FIFO exactly if `DEPTH`
  is a power of two or no session pushes more words than the memory has.
-/

namespace TaskQueueCoSim.QueueCore

open RingMemory Fifo Machine

variable {DEPTH WIDTH : Nat}

/-- The FIFO, and how many words it has taken since the last reset. -/
def sessionNext (DEPTH : Nat) (p : List (BitVec WIDTH) × Nat) (c : ClockCycle (BitVec WIDTH)) :
    List (BitVec WIDTH) × Nat :=
  (next DEPTH p.1 c,
    if c.reset then 0 else if pushAccepted DEPTH p.1 c then p.2 + 1 else p.2)

def session (DEPTH : Nat) (cs : List (ClockCycle (BitVec WIDTH))) : List (BitVec WIDTH) × Nat :=
  run (sessionNext DEPTH) ([], 0) cs

/-- No session takes more words than the memory has. -/
def WithinMemory (DEPTH : Nat) (cs : List (ClockCycle (BitVec WIDTH))) : Prop :=
  ∀ n, n ≤ cs.length → (session DEPTH (cs.take n)).2 ≤ DEPTH

instance (DEPTH : Nat) (cs : List (ClockCycle (BitVec WIDTH))) : Decidable (WithinMemory DEPTH cs) :=
  inferInstanceAs (Decidable (∀ n, n ≤ cs.length → _))

/-- Every index in use is an address, and the outputs are those of the FIFO. -/
structure FifoOfDepth (s : QueueCore DEPTH WIDTH) (cs : List (ClockCycle (BitVec WIDTH))) : Prop where
  write_index : ∀ n (h : n < cs.length), cs[n].reset = false → cs[n].push = true →
    (run posedge s (cs.take n)).full = false → (run posedge s (cs.take n)).tail.toNat < DEPTH
  read_index : ∀ n, 1 ≤ n → n ≤ cs.length → (run posedge s (cs.take n)).validOut = true →
    (run posedge s (cs.take n)).head.toNat < DEPTH
  refines : RefinesFifo s cs

structure InSession (s : QueueCore DEPTH WIDTH) (p : List (BitVec WIDTH) × Nat) : Prop
    extends Represents s p.1 0 where
  length_le_pushes : p.1.length ≤ p.2
  tail_slot : s.tail = (ring DEPTH).slot 0 p.2
  head_slot : s.head = (ring DEPTH).slot 0 (p.2 - p.1.length)

/-- The places before `DEPTH` are addresses. -/
theorem slot_lt {n : Nat} (h : 2 ^ clog2 DEPTH = DEPTH ∨ n < DEPTH) :
    ((ring DEPTH).slot 0 n).toNat < DEPTH := by
  have hle : ((ring DEPTH).slot 0 n).toNat ≤ n := by
    rw [ofBitVec_slot]
    simpa using Nat.mod_le _ _
  rcases h with h | h
  · exact Nat.lt_of_lt_of_eq (BitVec.isLt _) h
  · omega

section Edge

variable {s : QueueCore DEPTH WIDTH} {p : List (BitVec WIDTH) × Nat} {c : ClockCycle (BitVec WIDTH)}

theorem tail_posedge (s : QueueCore DEPTH WIDTH) (hr : c.reset = false) :
    (s.posedge c).tail = if c.push && !s.full then s.tail + 1 else s.tail := by
  unfold posedge
  rw [hr]
  cases c.push && !s.full <;> cases c.pop && s.count.toNat != 0 <;> rfl

theorem head_posedge (s : QueueCore DEPTH WIDTH) (hr : c.reset = false) :
    (s.posedge c).head = if c.pop && s.count.toNat != 0 then s.head + 1 else s.head := by
  unfold posedge
  rw [hr]
  cases c.push && !s.full <;> cases c.pop && s.count.toNat != 0 <;> rfl

theorem inSession_reset (s : QueueCore DEPTH WIDTH) (hc : c.reset = true) :
    InSession (s.posedge c) ([], 0) where
  toRepresents := represents_reset s hc
  length_le_pushes := Nat.le_refl _
  tail_slot := by simp [posedge, hc, ofBitVec_slot]
  head_slot := by simp [posedge, hc, ofBitVec_slot]

/-- With one request in the cycle, `count` stays the length. -/
theorem nextLag_exclusive {q : List (BitVec WIDTH)} (exclusive : (c.push && c.pop) = false) :
    nextLag DEPTH q 0 c = 0 := by
  have never : (pushAccepted DEPTH q c && popAccepted q c) = false := by
    rcases Bool.and_eq_false_iff.mp exclusive with e | e <;> simp [pushAccepted, popAccepted, e]
  simp [nextLag, never]

theorem slot_succ (n : Nat) : (ring DEPTH).slot 0 n + 1 = (ring DEPTH).slot 0 (n + 1) := by
  rw [← RingIndex.slot_add]
  rfl

theorem InSession.posedge (h : InSession s p) (exclusive : (c.push && c.pop) = false)
    (small : pushAccepted DEPTH p.1 c = true → s.tail.toNat < DEPTH) :
    InSession (s.posedge c) (sessionNext DEPTH p c) := by
  obtain ⟨q, pushes⟩ := p
  cases hr : c.reset
  swap
  · have e : sessionNext DEPTH (q, pushes) c = ([], 0) := by simp [sessionNext, hr]
    rw [e]
    exact inSession_reset s hr
  have hlen : q.length ≤ pushes := h.length_le_pushes
  have htail : s.tail = (ring DEPTH).slot 0 pushes := h.tail_slot
  have hhead : s.head = (ring DEPTH).slot 0 (pushes - q.length) := h.head_slot
  have psh := h.takes_push (Or.inl rfl) hr
  have pp := h.takes_pop (Or.inl rfl) hr
  have rep := h.posedge_of_small (Or.inl rfl) small
  rw [nextLag_exclusive exclusive] at rep
  have hpos : popAccepted q c = true → 0 < q.length := fun hpop =>
    List.length_pos_iff.mpr (ne_nil_of_popAccepted hpop)
  refine ⟨rep, ?_, ?_, ?_⟩
  · simp only [sessionNext, next, hr, Bool.false_eq_true, if_false]
    split_ifs <;> simp <;> omega
  · simp only [sessionNext, tail_posedge s hr, psh, hr, Bool.false_eq_true, if_false, htail]
    split_ifs
    · rw [slot_succ]
    · rfl
  · simp only [sessionNext, next, head_posedge s hr, pp, hr, Bool.false_eq_true, if_false, hhead]
    cases hpush : pushAccepted DEPTH q c <;> cases hpop : popAccepted q c <;>
      simp only [Bool.false_eq_true, if_true, if_false, List.append_nil, List.length_append,
        List.length_tail, List.length_singleton, slot_succ]
    all_goals
      congr 1
      have := hpos
      simp only [hpop, Bool.false_eq_true, false_implies, true_implies] at this
      omega

end Edge

/-! ## Runs -/

section Run

variable (s : QueueCore DEPTH WIDTH) {c : ClockCycle (BitVec WIDTH)}
  {cs : List (ClockCycle (BitVec WIDTH))}

theorem session_take_succ {n : Nat} (h : n < cs.length) :
    session DEPTH (cs.take (n + 1)) = sessionNext DEPTH (session DEPTH (cs.take n)) cs[n] :=
  run_take_succ (sessionNext DEPTH) _ _ h

/-- The word that a cycle pushes is counted after it. -/
theorem session_pushed {n : Nat} (h : n < cs.length)
    (hpush : pushAccepted DEPTH (session DEPTH (cs.take n)).1 cs[n] = true) :
    (session DEPTH (cs.take (n + 1))).2 = (session DEPTH (cs.take n)).2 + 1 := by
  have hr : cs[n].reset = false := by
    simp only [pushAccepted, Bool.and_eq_true, Bool.not_eq_true'] at hpush
    exact hpush.1.1
  rw [session_take_succ h, sessionNext]
  simp [hr, hpush]

theorem inSession_run (hc : c.reset = true) (exclusive : ∀ a ∈ c :: cs, (a.push && a.pop) = false)
    (n : Nat) (hn : n ≤ cs.length)
    (within : ∀ m ≤ n + 1, 2 ^ clog2 DEPTH = DEPTH ∨ (session DEPTH ((c :: cs).take m)).2 ≤ DEPTH) :
    InSession (run posedge s ((c :: cs).take (n + 1))) (session DEPTH ((c :: cs).take (n + 1))) := by
  induction n with
  | zero =>
    have e : session DEPTH [c] = (([] : List (BitVec WIDTH)), 0) := by
      simp [session, sessionNext, hc]
    simpa [e] using inSession_reset s hc
  | succ n ih =>
    have before := ih (by omega) fun m hm => within m (by omega)
    have hlt : n + 1 < (c :: cs).length := by simp; omega
    rw [session_take_succ hlt, run_take_succ posedge s _ hlt]
    refine before.posedge (exclusive _ (List.getElem_mem hlt)) fun hpush => ?_
    rw [before.tail_slot]
    apply slot_lt
    have hcount := session_pushed hlt hpush
    rcases within (n + 1 + 1) (by omega) with hp | hle
    · exact Or.inl hp
    · right
      omega

/-- In a session the core takes exactly the words that the FIFO takes. -/
theorem InSession.full_eq_false {p : List (BitVec WIDTH) × Nat} {t : QueueCore DEPTH WIDTH}
    (h : InSession t p) (room : p.1.length < DEPTH) : t.full = false := by
  have := mt h.full_iff.mp (by omega)
  simpa using this

theorem InSession.pushAccepted_of_push {p : List (BitVec WIDTH) × Nat} {t : QueueCore DEPTH WIDTH}
    {a : ClockCycle (BitVec WIDTH)} (h : InSession t p) (hr : a.reset = false)
    (hpush : a.push = true) (hfull : t.full = false) : pushAccepted DEPTH p.1 a = true := by
  rw [← h.takes_push (Or.inl rfl) hr, hpush, hfull]
  rfl

theorem within_of_fifoOfDepth (hc : c.reset = true)
    (exclusive : ∀ a ∈ c :: cs, (a.push && a.pop) = false) (hp : 2 ^ clog2 DEPTH ≠ DEPTH)
    (h : FifoOfDepth s (c :: cs)) (n : Nat) (hn : n ≤ (c :: cs).length) :
    (session DEPTH ((c :: cs).take n)).2 ≤ DEPTH := by
  induction n using Nat.strongRecOn with
  | ind n ih =>
    match n with
    | 0 => exact Nat.zero_le _
    | 1 =>
      have e : session DEPTH [c] = (([] : List (BitVec WIDTH)), 0) := by
        simp [session, sessionNext, hc]
      simp [e]
    | n + 2 =>
      have hlt : n + 1 < (c :: cs).length := by omega
      have before := inSession_run s hc exclusive n (by simpa using hlt.le) fun m hm =>
        Or.inr (ih m (by omega) (by omega))
      have hle := ih (n + 1) (by omega) (by omega)
      rw [session_take_succ hlt, sessionNext]
      split_ifs with hr hpush
      · exact Nat.zero_le _
      · -- one word more than the memory has would go to the index `DEPTH`
        by_contra hgt
        have room := room_of_pushAccepted hpush
        simp only [pushAccepted, Bool.and_eq_true] at hpush
        have hsmall := h.write_index (n + 1) hlt (by simpa using hr) hpush.1.2
          (before.full_eq_false room)
        have hslot : (session DEPTH ((c :: cs).take (n + 1))).2 = DEPTH := by
          simp only at hgt
          omega
        rw [before.tail_slot, hslot, ofBitVec_slot] at hsmall
        have hpow := le_two_pow_clog2 DEPTH
        have : DEPTH % 2 ^ clog2 DEPTH = DEPTH := Nat.mod_eq_of_lt (by omega)
        simp [this] at hsmall
      · exact hle

/-- **Every depth.**  From a reset on, with one request a cycle, every index in
use is an address and the outputs are those of the FIFO exactly if `DEPTH` is a
power of two or no session pushes more words than the memory has. -/
theorem fifoOfDepth_iff (hc : c.reset = true)
    (exclusive : ∀ a ∈ c :: cs, (a.push && a.pop) = false) :
    FifoOfDepth s (c :: cs) ↔ 2 ^ clog2 DEPTH = DEPTH ∨ WithinMemory DEPTH (c :: cs) := by
  constructor
  · intro h
    by_cases hp : 2 ^ clog2 DEPTH = DEPTH
    · exact Or.inl hp
    · exact Or.inr fun n hn => within_of_fifoOfDepth s hc exclusive hp h n hn
  · intro h
    have within : ∀ m ≤ (c :: cs).length,
        2 ^ clog2 DEPTH = DEPTH ∨ (session DEPTH ((c :: cs).take m)).2 ≤ DEPTH := by
      intro m hm
      exact h.imp id fun h => h m hm
    have after : ∀ n, n ≤ cs.length →
        InSession (run posedge s ((c :: cs).take (n + 1))) (session DEPTH ((c :: cs).take (n + 1))) := by
      intro n hn
      exact inSession_run s hc exclusive n hn fun m hm => within m (by simp; omega)
    refine ⟨?_, ?_, ⟨fun n => (session DEPTH ((c :: cs).take n)).1, ?_, ?_⟩⟩
    · intro n hlt hr hpush hfull
      match n with
      | 0 =>
        rw [List.getElem_cons_zero, hc] at hr
        cases hr
      | n + 1 =>
        have before := after n (by simpa using hlt.le)
        have hcount := session_pushed hlt (before.pushAccepted_of_push hr hpush hfull)
        rw [before.tail_slot]
        apply slot_lt
        rcases within (n + 1 + 1) hlt with hp | hle
        · exact Or.inl hp
        · right
          omega
    · intro n h1 hn hvalid
      obtain ⟨m, rfl⟩ : ∃ m, n = m + 1 := ⟨n - 1, by omega⟩
      have now := after m (by simpa using hn)
      have hpos := now.validOut_iff.mp hvalid
      have hlen := now.length_le_pushes
      rw [now.head_slot]
      apply slot_lt
      rcases within (m + 1) hn with hp | hle
      · exact Or.inl hp
      · right
        omega
    · intro n hlt
      exact congrArg Prod.fst (session_take_succ hlt)
    · intro n h1 hn
      obtain ⟨m, rfl⟩ : ∃ m, n = m + 1 := ⟨n - 1, by omega⟩
      have now := after m (by simpa using hn)
      exact now.shows_iff.mpr (Or.inl rfl)

end Run

/-- A core of depth 3 with registers that are all zero. -/
def zero3 : QueueCore 3 32 := ⟨fun _ => 0, 0, 0, 0⟩

def popCycle : ClockCycle Word := ⟨false, false, true, 0⟩

theorem fifoOfDepth_three : FifoOfDepth zero3 [resetCycle, pushCycle 1, popCycle, pushCycle 2] :=
  (fifoOfDepth_iff zero3 rfl (by decide)).mpr (by decide)

/-- The fourth word of a session goes to an index that the memory does not have. -/
theorem not_fifoOfDepth_three : ¬ FifoOfDepth zero3
    [resetCycle, pushCycle 1, pushCycle 2, pushCycle 3, popCycle, pushCycle 4] := by
  intro h
  have := h.write_index 5 (by decide) rfl rfl (by decide)
  revert this
  decide

end TaskQueueCoSim.QueueCore
