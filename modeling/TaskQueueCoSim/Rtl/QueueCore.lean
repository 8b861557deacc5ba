import Mathlib.Data.BitVec
import TaskQueueCoSim.Lib.RingMemory
import TaskQueueCoSim.Lib.Fifo

/-!
# The queue core, `hb_task_queue_core.sv`

The registers of the core, its outputs, and one rising clock edge.  Within an
edge every right-hand side reads the registers before it, and of two
non-blocking assignments to one register the later one counts.

`Represents s q lag` ties the registers to a list: the memory holds `q` from
`head` on, `tail` stands just behind it, and `count` is `lag` short of the
length.  `Represents.posedge` says how an edge moves the three together.  The
lag is zero until an edge accepts a push and a pop at once: then `head` and
`tail` both move, but the second assignment to `count` overrides the first.
-/

namespace TaskQueueCoSim

open RingMemory Fifo

abbrev Word := BitVec 32

/-- `$clog2`: the number of bits that count up to `n - 1`. -/
def clog2 (n : Nat) : Nat := if n ≤ 1 then 0 else (n - 1).log2 + 1

theorem le_two_pow_clog2 (n : Nat) : n ≤ 2 ^ clog2 n := by
  unfold clog2
  split
  · simpa
  · have := Nat.lt_log2_self (n := n - 1)
    omega

/-- The registers of `hb_task_queue_core`.  `mem` is indexed by the pointers:
where `DEPTH` is not a power of two, its words at `DEPTH` and above do not
exist, a write there is dropped, and a read there gives whatever stands in this
function.  The pointers are those of the source from `DEPTH = 2` on: for 1 its range
`[PTR_W-1:0]` is `[-1:0]`, two bits. -/
structure QueueCore (DEPTH WIDTH : Nat) where
  mem : BitVec (clog2 DEPTH) → BitVec WIDTH
  head : BitVec (clog2 DEPTH)
  tail : BitVec (clog2 DEPTH)
  count : BitVec (clog2 (DEPTH + 1))

namespace QueueCore

variable {DEPTH WIDTH : Nat}

def full (s : QueueCore DEPTH WIDTH) : Bool := s.count.toNat == DEPTH

def validOut (s : QueueCore DEPTH WIDTH) : Bool := s.count.toNat != 0

def dataOut (s : QueueCore DEPTH WIDTH) : BitVec WIDTH := s.mem s.head

def writeMem (mem : BitVec (clog2 DEPTH) → BitVec WIDTH) (i : BitVec (clog2 DEPTH))
    (v : BitVec WIDTH) : BitVec (clog2 DEPTH) → BitVec WIDTH :=
  if i.toNat < DEPTH then Function.update mem i v else mem

/-- `always_ff @(posedge clk)`; a cycle's fields are `reset`, `push_req`,
`pop_req` and `data_in`. -/
def posedge (s : QueueCore DEPTH WIDTH) (c : ClockCycle (BitVec WIDTH)) : QueueCore DEPTH WIDTH :=
  if c.reset then { s with head := 0, tail := 0, count := 0 }
  else
    let s' := if c.push && !s.full then
        { s with mem := writeMem s.mem s.tail c.data, tail := s.tail + 1, count := s.count + 1 }
      else s
    -- the pop's assignment to `count` comes second, and reads the count before the edge
    if c.pop && s.count.toNat != 0 then { s' with head := s.head + 1, count := s.count - 1 }
    else s'

/-- An edge changes a word of the memory only to `data_in`, and only for a push. -/
theorem posedge_mem_cases (s : QueueCore DEPTH WIDTH) (c : ClockCycle (BitVec WIDTH))
    (i : BitVec (clog2 DEPTH)) :
    (s.posedge c).mem i = s.mem i ∨ c.push = true ∧ (s.posedge c).mem i = c.data := by
  have write : writeMem s.mem s.tail c.data i = s.mem i ∨
      writeMem s.mem s.tail c.data i = c.data := by
    unfold writeMem
    split
    · rw [Function.update_apply]
      split
      · exact Or.inr rfl
      · exact Or.inl rfl
    · exact Or.inl rfl
  unfold posedge
  cases c.reset
  case true => exact Or.inl rfl
  case false =>
    cases hp : c.push && !s.full
    case false => cases c.pop && s.count.toNat != 0 <;> exact Or.inl rfl
    case true =>
      have pushed : c.push = true := (Bool.and_eq_true _ _ ▸ hp).1
      cases c.pop && s.count.toNat != 0 <;> exact write.imp id fun e => ⟨pushed, e⟩

/-! ## The representation -/

/-- The memory as a ring: `PTR_W`-bit pointers that wrap. -/
abbrev ring (DEPTH : Nat) : RingIndex (BitVec (clog2 DEPTH)) := ofBitVec (clog2 DEPTH)

/-- The memory and the two pointers hold `q`, whatever `count` says. -/
structure Placed (s : QueueCore DEPTH WIDTH) (q : List (BitVec WIDTH)) : Prop where
  tail_eq : s.tail = (ring DEPTH).slot s.head q.length
  holds : Holds (ring DEPTH) s.mem s.head q

structure Represents (s : QueueCore DEPTH WIDTH) (q : List (BitVec WIDTH)) (lag : Nat) : Prop
    extends Placed s q where
  length_le : q.length ≤ DEPTH
  count_eq : s.count.toNat + lag = q.length

/-- The words from `head` on, as many as `count` says. -/
def queue (s : QueueCore DEPTH WIDTH) : List (BitVec WIDTH) :=
  contents (ring DEPTH) s.mem s.head s.count.toNat

section Outputs

variable {s : QueueCore DEPTH WIDTH} {q : List (BitVec WIDTH)} {lag : Nat}

theorem Represents.queue_eq (h : Represents s q 0) : s.queue = q := by
  have e : s.count.toNat = q.length := h.count_eq
  rw [queue, e, h.holds.contents_eq]

theorem Represents.full_iff (h : Represents s q lag) :
    s.full = true ↔ q.length = DEPTH + lag := by
  have := h.count_eq
  simp only [full, beq_iff_eq]
  omega

theorem Represents.validOut_iff (h : Represents s q lag) :
    s.validOut = true ↔ lag < q.length := by
  have := h.count_eq
  simp only [validOut, bne_iff_ne]
  omega

theorem Represents.dataOut_eq (h : Represents s q lag) (hq : q ≠ []) :
    s.dataOut = q.head hq :=
  h.holds.read_of_ne_nil hq

end Outputs

/-! ## One edge -/

/-- The core judges requests as the FIFO does: either nothing is missing from
`count`, or the list is away from both limits. -/
def InStep (DEPTH : Nat) (q : List (BitVec WIDTH)) (lag : Nat) : Prop :=
  lag = 0 ∨ (lag < q.length ∧ q.length < DEPTH)

instance (q : List (BitVec WIDTH)) (lag : Nat) : Decidable (InStep DEPTH q lag) :=
  inferInstanceAs (Decidable (_ ∨ _))

theorem InStep.behind {q : List (BitVec WIDTH)} {lag : Nat} (h : InStep DEPTH q lag)
    (hq : q ≠ []) : lag < q.length := by
  have := List.length_pos_iff.mpr hq
  rcases h with rfl | ⟨_, _⟩ <;> omega

/-- Each edge that accepts a push and a pop leaves `count` one shorter than the
list; a reset clears both. -/
def nextLag (DEPTH : Nat) (q : List (BitVec WIDTH)) (lag : Nat) (c : ClockCycle (BitVec WIDTH)) :
    Nat :=
  if c.reset then 0
  else if pushAccepted DEPTH q c && popAccepted q c then lag + 1 else lag

section Edge

variable {s : QueueCore DEPTH WIDTH} {q : List (BitVec WIDTH)} {lag : Nat}
  {c : ClockCycle (BitVec WIDTH)}

theorem represents_reset (s : QueueCore DEPTH WIDTH) (h : c.reset = true) :
    Represents (s.posedge c) [] 0 := by
  refine ⟨⟨?_, ?_⟩, ?_, ?_⟩ <;> simp [posedge, h, ofBitVec_slot]

theorem Represents.takes_push (h : Represents s q lag) (sync : InStep DEPTH q lag)
    (hr : c.reset = false) : (c.push && !s.full) = pushAccepted DEPTH q c := by
  have e : s.full = true ↔ ¬ q.length < DEPTH := by
    have := h.length_le
    rw [h.full_iff]
    rcases sync with rfl | ⟨_, _⟩ <;> omega
  cases hf : s.full
  · have : q.length < DEPTH := by simpa [hf] using e
    simp [pushAccepted, hr, this]
  · have : ¬ q.length < DEPTH := by simpa [hf] using e
    simp [pushAccepted, this]

theorem Represents.takes_pop (h : Represents s q lag) (sync : InStep DEPTH q lag)
    (hr : c.reset = false) : (c.pop && s.count.toNat != 0) = popAccepted q c := by
  have e : s.validOut = true ↔ q ≠ [] := by
    rw [h.validOut_iff, ← List.length_pos_iff]
    rcases sync with rfl | ⟨_, _⟩ <;> omega
  have e' : (s.count.toNat != 0) = !q.isEmpty := by
    rw [Bool.eq_iff_iff]
    simpa [validOut] using e
  rw [e', popAccepted, hr]
  simp

theorem count_one (h : 0 < DEPTH) : (1 : BitVec (clog2 (DEPTH + 1))).toNat = 1 := by
  have := le_two_pow_clog2 (DEPTH + 1)
  change 1 % 2 ^ clog2 (DEPTH + 1) = 1
  exact Nat.mod_eq_of_lt (by omega)

theorem count_succ (h : s.count.toNat < DEPTH) : (s.count + 1).toNat = s.count.toNat + 1 := by
  have := le_two_pow_clog2 (DEPTH + 1)
  rw [BitVec.toNat_add, count_one (by omega), Nat.mod_eq_of_lt (by omega)]

theorem count_pred (hd : 0 < DEPTH) (h : 0 < s.count.toNat) :
    (s.count - 1).toNat = s.count.toNat - 1 := by
  have one := count_one hd
  rw [BitVec.toNat_sub_of_le (by rw [BitVec.le_def, one]; omega), one]

/-- A word written at `tail` joins the list, if `tail` is an address. -/
theorem Placed.push (h : Placed s q) (small : s.tail.toNat < DEPTH)
    (room : q.length < DEPTH) (v : BitVec WIDTH) (n : BitVec (clog2 (DEPTH + 1))) :
    Placed { s with mem := writeMem s.mem s.tail v, tail := s.tail + 1, count := n }
      (q ++ [v]) where
  tail_eq := by
    rw [h.tail_eq, List.length_append, ofBitVec_slot, ofBitVec_slot, BitVec.ofNat_add,
      BitVec.add_assoc]
    rfl
  holds := by
    rw [h.tail_eq] at small
    simp only [writeMem, h.tail_eq, small, if_true]
    exact h.holds.write (Nat.lt_of_lt_of_le room (le_two_pow_clog2 DEPTH)) v

/-- Moving the head drops the first word. -/
theorem Placed.pop (h : Placed s q) (hq : q ≠ []) (n : BitVec (clog2 (DEPTH + 1))) :
    Placed { s with head := s.head + 1, count := n } q.tail where
  tail_eq := by
    obtain ⟨x, q', rfl⟩ := List.exists_cons_of_ne_nil hq
    rw [h.tail_eq]
    exact ((ring DEPTH).slot_slot s.head q'.length).symm
  holds := h.holds.advance

/-- An edge in step with the FIFO, if a word that is pushed goes to an address. -/
theorem Represents.posedge_of_small (h : Represents s q lag) (sync : InStep DEPTH q lag)
    (small : pushAccepted DEPTH q c = true → s.tail.toNat < DEPTH) :
    Represents (s.posedge c) (next DEPTH q c) (nextLag DEPTH q lag c) := by
  cases hr : c.reset
  swap
  · rw [next_reset DEPTH q hr, nextLag, if_pos hr]
    exact represents_reset s hr
  have hl := h.length_le
  have hc := h.count_eq
  have psh := h.takes_push sync hr
  have pp := h.takes_pop sync hr
  simp only [QueueCore.posedge, hr, psh, pp, next, nextLag, Bool.false_eq_true, if_false]
  cases hpush : pushAccepted DEPTH q c <;> cases hpop : popAccepted q c <;>
    simp only [Bool.and_true, Bool.and_false, Bool.false_eq_true, if_true, if_false,
      List.append_nil]
  case false.false => exact h
  case true.false =>
    have room := room_of_pushAccepted hpush
    have up := count_succ (s := s) (by omega)
    exact ⟨h.push (small hpush) room c.data _, by rw [List.length_append]; simpa, by
      rw [up, List.length_append, List.length_singleton]; omega⟩
  case false.true =>
    have hq := ne_nil_of_popAccepted hpop
    have behind := sync.behind hq
    have down := count_pred (s := s) (by omega) (by omega)
    exact ⟨h.pop hq _, by rw [List.length_tail]; omega, by rw [down, List.length_tail]; omega⟩
  case true.true =>
    have room := room_of_pushAccepted hpush
    have hq := ne_nil_of_popAccepted hpop
    have behind := sync.behind hq
    have down := count_pred (s := s) (by omega) (by omega)
    have moved := (h.push (small hpush) room c.data (s.count + 1)).pop (by simp)
      (s.count - 1)
    rw [List.tail_append_of_ne_nil hq] at moved
    refine ⟨moved, ?_, ?_⟩
    · rw [List.length_append, List.length_tail, List.length_singleton]; omega
    · rw [down, List.length_append, List.length_tail, List.length_singleton]; omega

/-- **One edge.**  In step with the FIFO, the core does what the FIFO does,
except that a push and a pop accepted together cost `count` one. -/
theorem Represents.posedge (h : Represents s q lag) (sync : InStep DEPTH q lag)
    (hp : 2 ^ clog2 DEPTH = DEPTH) :
    Represents (s.posedge c) (next DEPTH q c) (nextLag DEPTH q lag c) :=
  h.posedge_of_small sync fun _ => Nat.lt_of_lt_of_eq (BitVec.isLt _) hp

@[simp] theorem posedge_idle (s : QueueCore DEPTH WIDTH) (v : BitVec WIDTH) :
    s.posedge ⟨false, false, false, v⟩ = s := by
  simp [QueueCore.posedge]

/-- An edge with `push_req` alone, below the limit. -/
theorem Represents.push_edge (h : Represents s q 0) (hp : 2 ^ clog2 DEPTH = DEPTH)
    (room : q.length < DEPTH) (v : BitVec WIDTH) :
    Represents (s.posedge ⟨false, true, false, v⟩) (q ++ [v]) 0 := by
  have e := h.posedge (c := ⟨false, true, false, v⟩) (Or.inl rfl) hp
  simpa [next, nextLag, pushAccepted, popAccepted, room] using e

/-- An edge with `pop_req` alone. -/
theorem Represents.pop_edge (h : Represents s q 0) (hp : 2 ^ clog2 DEPTH = DEPTH)
    (v : BitVec WIDTH) : Represents (s.posedge ⟨false, false, true, v⟩) q.tail 0 := by
  have e := h.posedge (c := ⟨false, false, true, v⟩) (Or.inl rfl) hp
  cases q with
  | nil => simpa [next, nextLag, pushAccepted, popAccepted] using e
  | cons x q => simpa [next, nextLag, pushAccepted, popAccepted] using e

end Edge

end QueueCore

end TaskQueueCoSim
