import TaskQueueCoSim.Host.FalseAlarm
import TaskQueueCoSim.Lib.RingMemory
import TaskQueueCoSim.Oracle.TraceRoundTrip

/-!
# The host's golden queue against the oracle's

The randomized phase and the drain loop check the device against a ring of sixteen
words; the oracle checks the lines they write against a list.  `Agrees` says that
the ring holds the list and that both have counted the same mismatches.  A push that
finds the ring full would be dropped, so pushes must be accepted only while there
is room.
-/

namespace TaskQueueCoSim.HostTest

open Machine RingMemory Replay Oracle

/-! ## The ring -/

/-- The ring holds the words `q`. -/
structure Ring.Models (b : Ring) (q : List Word) : Prop where
  count : b.swcount = q.length
  tail : b.swtail = (ofFin 16).slot b.swhead q.length
  holds : Holds (ofFin 16) b.swbuf b.swhead q

namespace Ring.Models

variable {b : Ring} {q : List Word}

theorem push (h : b.Models q) (room : b.swcount < swdepth) (v : Word) :
    (b.push v).Models (q ++ [v]) := by
  have hlen : q.length < (ofFin 16).capacity := h.count ▸ room
  rw [Ring.push, if_pos room]
  refine ⟨?_, ?_, ?_⟩
  · simp [h.count]
  · rw [List.length_append, List.length_singleton, h.tail, ← RingIndex.slot_add]
    rfl
  · have := h.holds.write hlen v
    rwa [← h.tail] at this

theorem pop {x : Word} (h : b.Models (x :: q)) : b.pop.Models q := by
  refine ⟨?_, ?_, h.holds.advance⟩
  · rw [Ring.pop, h.count]
    rfl
  · rw [Ring.pop, h.tail, List.length_cons, Nat.add_comm, ← RingIndex.slot_add]
    rfl

theorem expected_eq {x : Word} (h : b.Models (x :: q)) : b.expected = x := h.holds.read

end Ring.Models

/-! ## Every operation -/

variable {σ : Type}

/-- Since `s₀` the lines of some operations have been written, the ring holds what
their replay leaves, and as many mismatches are counted. -/
def Agrees (s₀ s : Host σ) : Prop :=
  ∃ ops : List (Event Word), s.trace = s₀.trace ++ (ops.map traceOf).flatten ∧
    s.ring.Models (run check ⟨[], 0⟩ ops).queue ∧
    s.metrics.mismatches = s₀.metrics.mismatches + (run check ⟨[], 0⟩ ops).mismatches

namespace Agrees

variable {s₀ s u : Host σ}

/-- What neither writes a line nor counts a mismatch. -/
theorem congr (h : Agrees s₀ s) (htrace : u.trace = s.trace) (hring : u.ring = s.ring)
    (hm : u.metrics.mismatches = s.metrics.mismatches) : Agrees s₀ u := by
  obtain ⟨ops, h1, h2, h3⟩ := h
  exact ⟨ops, htrace.trans h1, hring ▸ h2, hm.trans h3⟩

theorem start (s : Host σ) (hhead : s.ring.swtail = s.ring.swhead) (hcount : s.ring.swcount = 0) :
    Agrees s s :=
  ⟨[], by simp, ⟨hcount, by rw [hhead]; exact ((ofFin 16).slot_zero _).symm, holds_nil⟩, rfl⟩

/-- A word is pushed and finds room. -/
theorem push (h : Agrees s₀ s) {v : Word} (room : s.ring.swcount < swdepth)
    (htrace : u.trace = s.trace ++ tracePush v) (hring : u.ring = s.ring.push v)
    (hm : u.metrics.mismatches = s.metrics.mismatches) : Agrees s₀ u := by
  obtain ⟨ops, h1, h2, h3⟩ := h
  refine ⟨ops ++ [.push v], ?_, ?_, ?_⟩
  · rw [htrace, h1]
    simp [traceOf]
  · rw [hring, run_concat]
    exact h2.push room v
  · rw [run_concat, hm, h3]
    rfl

/-- A word is popped that the ring does not have. -/
theorem popEmpty (h : Agrees s₀ s) {out : Word} (hcount : s.ring.swcount = 0)
    (htrace : u.trace = s.trace ++ tracePop out) (hring : u.ring = s.ring)
    (hm : u.metrics.mismatches = s.metrics.mismatches + 1) : Agrees s₀ u := by
  obtain ⟨ops, h1, h2, h3⟩ := h
  have hempty : (run check ⟨[], 0⟩ ops).queue = [] :=
    List.eq_nil_of_length_eq_zero (h2.count ▸ hcount)
  have hcheck : run check ⟨[], 0⟩ (ops ++ [.pop out]) =
      ⟨[], (run check ⟨[], 0⟩ ops).mismatches + 1⟩ := by
    rw [run_concat, check, hempty]
  refine ⟨ops ++ [.pop out], ?_, ?_, ?_⟩
  · rw [htrace, h1]
    simp [traceOf]
  · rw [hring, hcheck, ← hempty]
    exact h2
  · rw [hcheck, hm, h3]
    rfl

/-- A word is popped and held against the first word of the ring. -/
theorem pop (h : Agrees s₀ s) {out : Word} (hcount : s.ring.swcount ≠ 0)
    (htrace : u.trace = s.trace ++ tracePop out) (hring : u.ring = s.ring.pop)
    (hm : u.metrics.mismatches =
      s.metrics.mismatches + if s.ring.expected ≠ out then 1 else 0) : Agrees s₀ u := by
  obtain ⟨ops, h1, h2, h3⟩ := h
  cases hq : (run check ⟨[], 0⟩ ops).queue with
  | nil =>
    rw [hq] at h2
    exact absurd h2.count hcount
  | cons x q =>
    rw [hq] at h2
    have hcheck : run check ⟨[], 0⟩ (ops ++ [.pop out]) =
        ⟨q, (run check ⟨[], 0⟩ ops).mismatches + if x = out then 0 else 1⟩ := by
      rw [run_concat, check, hq]
    refine ⟨ops ++ [.pop out], ?_, ?_, ?_⟩
    · rw [htrace, h1]
      simp [traceOf]
    · rw [hring, hcheck]
      exact h2.pop
    · rw [hcheck, hm, h3, h2.expected_eq, Nat.add_assoc]
      by_cases hx : x = out <;> simp [hx]

end Agrees

/-! ## The phases -/

variable (dev : Device σ) (rand : Nat → Nat)

/-- A push that the device accepts in this round finds room in the ring. -/
def HasRoom (s : Host σ) : Prop :=
  rand s.drawn % 3 = 0 →
    (dev.mmioPush (BitVec.ofNat 32 (rand (s.drawn + 1))) 100 s.device).1 = 0 →
    s.ring.swcount < swdepth

/-- The state after some rounds of the randomized phase. -/
def rounds (n : Nat) (s : Host σ) : Host σ := run (fun s _ => randomOp dev rand s) s (List.range n)

variable {dev rand} {s₀ s : Host σ}

theorem rounds_succ (n : Nat) (s : Host σ) :
    rounds dev rand (n + 1) s = randomOp dev rand (rounds dev rand n s) := by
  rw [rounds, List.range_succ, run_concat]
  rfl

theorem mismatches_ite (m : Metrics) (p : Prop) [Decidable p] :
    (if p then m.mismatch else m).mismatches = m.mismatches + if p then 1 else 0 := by
  split_ifs <;> rfl

theorem Agrees.randomPush (h : Agrees s₀ s) {v : Word}
    (room : (dev.mmioPush v 100 s.device).1 = 0 → s.ring.swcount < swdepth) :
    Agrees s₀ (randomPush dev v s) := by
  unfold HostTest.randomPush
  dsimp only
  split_ifs with hr
  · exact h.push (room hr) rfl rfl (mismatches_countPush ..)
  · exact h.congr rfl rfl (mismatches_countPush ..)

theorem Agrees.randomPop (h : Agrees s₀ s) : Agrees s₀ (randomPop dev s) := by
  unfold HostTest.randomPop
  dsimp only
  by_cases hr : (dev.mmioPop 100 s.device).1 = 0
  · rw [if_pos hr]
    by_cases hcount : s.ring.swcount = 0
    · rw [if_pos hcount]
      exact h.popEmpty hcount rfl rfl (by simp)
    · rw [if_neg hcount]
      exact h.pop hcount rfl rfl (by rw [mismatches_ite, mismatches_countPop])
  · rw [if_neg hr]
    exact h.congr rfl rfl (mismatches_countPop ..)

theorem Agrees.randomOp (h : Agrees s₀ s) (room : HasRoom dev rand s) :
    Agrees s₀ (randomOp dev rand s) := by
  unfold HostTest.randomOp
  dsimp only
  split_ifs with hpush
  · refine randomPush ?_ (room hpush)
    exact h.congr rfl rfl rfl
  · refine randomPop ?_
    exact h.congr rfl rfl rfl
  · exact h.congr rfl rfl rfl

theorem Agrees.rounds (h : Agrees s₀ s) {n : Nat}
    (room : ∀ k < n, HasRoom dev rand (rounds dev rand k s)) : Agrees s₀ (rounds dev rand n s) := by
  induction n with
  | zero => exact h
  | succ n ih =>
    rw [rounds_succ]
    exact (ih fun k hk => room k (Nat.lt_succ_of_lt hk)).randomOp (room n (Nat.lt_succ_self n))

theorem Agrees.drain (h : Agrees s₀ s) : Agrees s₀ (drain dev s) := by
  induction hn : s.ring.swcount generalizing s with
  | zero =>
    rw [HostTest.drain, if_neg (by omega)]
    exact h
  | succ n ih =>
    rw [HostTest.drain, if_pos (by omega)]
    dsimp only
    by_cases hr : (dev.mmioPop 1000 s.device).1 = 0
    · rw [if_pos hr]
      refine ih ?_ (by simp [Ring.pop, hn])
      exact h.pop (by omega) rfl rfl (mismatches_ite ..)
    · rw [if_neg hr]
      exact h.congr rfl rfl rfl

/-- The deterministic phase checks nothing. -/
theorem mismatches_deterministic (s : Host σ) :
    (deterministic dev s).metrics.mismatches = s.metrics.mismatches := by
  have hpushes : (run (fun s v => deterministicPush dev v s) s vals).metrics.mismatches =
      s.metrics.mismatches :=
    run_invariant (I := fun t : Host σ => t.metrics.mismatches = s.metrics.mismatches)
      (fun t v ht => (mismatches_countPush ..).trans ht) rfl vals
  exact run_invariant (I := fun t : Host σ => t.metrics.mismatches = s.metrics.mismatches)
    (fun t _ ht => (mismatches_countPop ..).trans ht) hpushes (List.range 2)

/-- What the oracle counts is the replay of the words. -/
theorem checkTrace_verdict (ops : List (Event Word)) :
    (checkTrace (traceHeader ++ (ops.map traceOf).flatten)).mismatches =
        (run check ⟨[], 0⟩ ops).mismatches ∧
      (checkTrace (traceHeader ++ (ops.map traceOf).flatten)).finalQueueLen =
        (run check ⟨[], 0⟩ ops).queue.length := by
  have hnumbered : ops.map numbered = ops.map (Event.map fun v : Word => (v.toNat : Int)) :=
    List.map_congr_left fun e _ => by cases e <;> rfl
  have hinj : Function.Injective fun v : Word => (v.toNat : Int) := fun v w h =>
    BitVec.eq_of_toNat_eq (Int.ofNat.inj h)
  have hverdict := run_apply_verdict Golden.start (ops.map numbered)
  have hmap := run_check_map hinj ⟨[], 0⟩ ops
  rw [hnumbered] at hverdict
  have hqueue := congrArg Verdict.queue (hverdict.trans hmap)
  have hm := congrArg Verdict.mismatches (hverdict.trans hmap)
  rw [checkTrace_traceOf, hnumbered]
  refine ⟨hm, ?_⟩
  exact (congrArg List.length hqueue).trans (List.length_map _)

/-- **The checkers agree.**  Whatever the device answers, if it accepts a push only
while there is room in the ring, the host counts in the randomized phase and the
drain loop the mismatches that the oracle counts in the lines they write, and the
ring holds in the end as many words as the oracle's queue. -/
theorem checkers_agree (dev : Device σ) (rand : Nat → Nat) (swbuf : Fin 16 → Word) (device : σ)
    (room : ∀ k < OPS,
      HasRoom dev rand (rounds dev rand k (deterministic dev (start swbuf device)))) :
    ∃ lines, (main dev rand swbuf device).trace =
        (deterministic dev (start swbuf device)).trace ++ lines ∧
      (main dev rand swbuf device).metrics.mismatches =
        (checkTrace (traceHeader ++ lines)).mismatches ∧
      (main dev rand swbuf device).ring.swcount =
        (checkTrace (traceHeader ++ lines)).finalQueueLen := by
  -- the ring is as declared: the deterministic phase leaves it alone
  have hstart := Agrees.start (deterministic dev (start swbuf device)) rfl rfl
  obtain ⟨ops, htrace, hring, hm⟩ := (hstart.rounds room).drain
  obtain ⟨hmismatches, hlen⟩ := checkTrace_verdict ops
  have hclean : (deterministic dev (start swbuf device)).metrics.mismatches = 0 :=
    mismatches_deterministic _
  refine ⟨(ops.map traceOf).flatten, htrace, ?_, ?_⟩
  · rw [hmismatches]
    exact hm.trans (by rw [hclean, Nat.zero_add])
  · rw [hlen]
    exact hring.count

/-! ## An ideal device

An ideal FIFO still has two words of the deterministic phase, so the ring, which starts empty,
is never fuller, and is popped out of step.
-/

section IdealFifo

variable {out : Word} {t : Host (List Word)}

theorem swcount_le_randomPush (h : t.ring.swcount ≤ t.device.length) (v : Word) :
    (randomPush (idealFifo out) v t).ring.swcount ≤ (randomPush (idealFifo out) v t).device.length := by
  unfold HostTest.randomPush idealFifo
  by_cases room : t.device.length < 16
  · have hring : t.ring.swcount < swdepth := Nat.lt_of_le_of_lt h room
    simp only [room, if_true, Ring.push, hring, List.length_append, List.length_singleton]
    omega
  · simp only [room, if_false, show (-1 : Int) ≠ 0 by decide]
    exact h

theorem swcount_le_randomPop (h : t.ring.swcount ≤ t.device.length) :
    (randomPop (idealFifo out) t).ring.swcount ≤ (randomPop (idealFifo out) t).device.length := by
  unfold HostTest.randomPop idealFifo
  cases hq : t.device with
  | nil =>
    simp only [show (-1 : Int) ≠ 0 by decide, if_false]
    rw [hq] at h
    exact h
  | cons x q =>
    rw [hq, List.length_cons] at h
    simp only [if_true]
    by_cases hcount : t.ring.swcount = 0
    · simp only [hcount, if_true]
      omega
    · simp only [hcount, if_false, Ring.pop]
      omega

theorem swcount_le_randomOp (rand : Nat → Nat) (h : t.ring.swcount ≤ t.device.length) :
    (randomOp (idealFifo out) rand t).ring.swcount ≤
      (randomOp (idealFifo out) rand t).device.length := by
  unfold HostTest.randomOp
  dsimp only
  split_ifs
  · refine swcount_le_randomPush ?_ _
    exact h
  · refine swcount_le_randomPop ?_
    exact h
  · exact h

theorem hasRoom_of_le (rand : Nat → Nat) (h : t.ring.swcount ≤ t.device.length) :
    HasRoom (idealFifo out) rand t := by
  intro _ haccepted
  by_cases room : t.device.length < 16
  · exact Nat.lt_of_le_of_lt h room
  · simp [idealFifo, room] at haccepted

/-- What an ideal FIFO accepts finds room in the ring, whatever has been popped. -/
theorem hasRoom_idealFifo (out : Word) (rand : Nat → Nat) (swbuf : Fin 16 → Word) (k : Nat) :
    HasRoom (idealFifo out) rand (rounds (idealFifo out) rand k
      (deterministic (idealFifo out) (start swbuf []))) :=
  hasRoom_of_le rand (run_invariant (I := fun t : Host (List Word) =>
    t.ring.swcount ≤ t.device.length) (fun _ _ h => swcount_le_randomOp rand h) (Nat.zero_le _)
    (List.range k))

end IdealFifo

/-- Rounds in which `rand()` asks for nothing only draw. -/
theorem rounds_idle {n : Nat} (hidle : ∀ k, s.drawn ≤ k → rand k % 3 = 2) :
    rounds dev rand n s = { s with drawn := s.drawn + n } := by
  induction n with
  | zero => rfl
  | succ n ih =>
    have h : rand (s.drawn + n) % 3 = 2 := hidle _ (Nat.le_add_right _ _)
    rw [rounds_succ, ih, randomOp]
    simp [h, Nat.add_assoc]

theorem rounds_add (n m : Nat) :
    rounds dev rand (n + m) s = rounds dev rand m (rounds dev rand n s) := by
  induction m with
  | zero => rfl
  | succ m ih => rw [← Nat.add_assoc, rounds_succ, ih, rounds_succ]

/-- A pop, a push, two pops, a push, a pop and two pushes; then `rand()` asks for nothing. -/
def eightRounds (n : Nat) : Nat := [1, 0, 5, 1, 1, 0, 6, 1, 0, 7, 0, 8].getD n 2

/-- Four words are pushed.  Of the six popped two find the ring empty, one is wrong, and three
are right, two of them in the drain loop. -/
theorem metrics_eightRounds :
    (main (idealFifo 0) eightRounds (fun _ => 0) []).metrics = ⟨8, 8, 0, 8, 8, 0, 3⟩ := by
  have hidle : ∀ k, 12 ≤ k → eightRounds k % 3 = 2 := by
    intro k hk
    rw [eightRounds, List.getD_eq_getElem?_getD, List.getElem?_eq_none hk]
    rfl
  have hrounds : randomized (idealFifo 0) eightRounds
      (deterministic (idealFifo 0) (start (fun _ => 0) [])) = _ :=
    (rounds_add 8 9992).trans (rounds_idle hidle)
  rw [main, hrounds, drain, if_pos (by decide)]
  dsimp only
  rw [if_pos (by decide), drain, if_pos (by decide)]
  dsimp only
  rw [if_pos (by decide), drain, if_neg (by decide)]
  decide

theorem checkers_agree_eightRounds :
    (main (idealFifo 0) eightRounds (fun _ => 0) []).metrics = ⟨8, 8, 0, 8, 8, 0, 3⟩ ∧
      ∃ lines, (main (idealFifo 0) eightRounds (fun _ => 0) []).trace =
          (deterministic (idealFifo 0) (start (fun _ => 0) [])).trace ++ lines ∧
        (main (idealFifo 0) eightRounds (fun _ => 0) []).metrics.mismatches =
          (checkTrace (traceHeader ++ lines)).mismatches ∧
        (main (idealFifo 0) eightRounds (fun _ => 0) []).ring.swcount =
          (checkTrace (traceHeader ++ lines)).finalQueueLen :=
  ⟨metrics_eightRounds, checkers_agree (idealFifo 0) eightRounds (fun _ => 0) [] fun k _ =>
    hasRoom_idealFifo 0 eightRounds (fun _ => 0) k⟩

end TaskQueueCoSim.HostTest
