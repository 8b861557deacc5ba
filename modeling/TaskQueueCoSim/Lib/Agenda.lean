import Mathlib.Algebra.BigOperators.Group.List.Basic
import Mathlib.Algebra.Order.BigOperators.Group.List
import Mathlib.Algebra.Order.Ring.Nat
import Mathlib.Data.List.Basic
import Mathlib.Order.Lattice

/-!
# Agendas

An agenda lists events with the times they are due at, the next one first.
Events due at one time keep the order in which they were scheduled.

* `schedule_eq`: where a new event goes;
* `tally`: what the events weigh together; with `load` the times may count;
* `pending`: the events of one kind, which stay in order;
* `gather`: what the events hold, one after the other.
-/

namespace TaskQueueCoSim.Agenda

variable {τ ε κ : Type} [LinearOrder τ]

/-- Puts an event behind all that are due no later. -/
def schedule (t : τ) (e : ε) : List (τ × ε) → List (τ × ε)
  | [] => [(t, e)]
  | x :: l => if x.1 ≤ t then x :: schedule t e l else (t, e) :: x :: l

def Sorted (l : List (τ × ε)) : Prop := l.Pairwise fun x y => x.1 ≤ y.1

/-- An agenda splits where a new event goes. -/
theorem schedule_eq (t : τ) (e : ε) {l : List (τ × ε)} (h : Sorted l) :
    ∃ l₁ l₂, l = l₁ ++ l₂ ∧ schedule t e l = l₁ ++ (t, e) :: l₂ ∧
      (∀ x ∈ l₁, x.1 ≤ t) ∧ ∀ x ∈ l₂, t < x.1 := by
  induction l with
  | nil => exact ⟨[], [], rfl, rfl, by simp, by simp⟩
  | cons x l ih =>
    rw [Sorted, List.pairwise_cons] at h
    by_cases hx : x.1 ≤ t
    · obtain ⟨l₁, l₂, rfl, hs, h₁, h₂⟩ := ih h.2
      refine ⟨x :: l₁, l₂, rfl, ?_, ?_, h₂⟩
      · rw [schedule, if_pos hx, hs, List.cons_append]
      · exact List.forall_mem_cons.2 ⟨hx, h₁⟩
    · refine ⟨[], x :: l, rfl, by rw [schedule, if_neg hx, List.nil_append], by simp, ?_⟩
      rw [not_le] at hx
      exact List.forall_mem_cons.2 ⟨hx, fun y hy => lt_of_lt_of_le hx (h.1 y hy)⟩

theorem schedule_perm (t : τ) (e : ε) (l : List (τ × ε)) : (schedule t e l).Perm ((t, e) :: l) := by
  induction l with
  | nil => exact List.Perm.refl _
  | cons x l ih =>
    unfold schedule
    split_ifs
    · exact (ih.cons x).trans (List.Perm.swap _ _ _)
    · exact List.Perm.refl _

@[simp] theorem mem_schedule {t : τ} {e : ε} {l : List (τ × ε)} {x : τ × ε} :
    x ∈ schedule t e l ↔ x = (t, e) ∨ x ∈ l := by
  rw [(schedule_perm t e l).mem_iff, List.mem_cons]

/-- A relation that holds between the entries holds after an event has been
scheduled, if the event is in the relation with those before and behind it. -/
theorem pairwise_schedule {R : τ × ε → τ × ε → Prop} {t : τ} {e : ε} {l : List (τ × ε)}
    (h : Sorted l) (hR : l.Pairwise R) (before : ∀ x ∈ l, x.1 ≤ t → R x (t, e))
    (behind : ∀ x ∈ l, t < x.1 → R (t, e) x) : (schedule t e l).Pairwise R := by
  obtain ⟨l₁, l₂, rfl, hs, h₁, h₂⟩ := schedule_eq t e h
  rw [List.pairwise_append] at hR
  rw [hs, List.pairwise_append, List.pairwise_cons]
  refine ⟨hR.1, ⟨fun x hx => behind x (by simp [hx]) (h₂ x hx), hR.2.1⟩, fun x hx => ?_⟩
  exact List.forall_mem_cons.2 ⟨before x (by simp [hx]) (h₁ x hx), hR.2.2 x hx⟩

theorem sorted_schedule (t : τ) (e : ε) {l : List (τ × ε)} (h : Sorted l) :
    Sorted (schedule t e l) :=
  pairwise_schedule h h (fun _ _ hx => hx) fun _ _ hx => le_of_lt hx

/-! ## Tallies -/

/-- What the events of an agenda weigh together. -/
def tally (w : ε → Nat) (l : List (τ × ε)) : Nat := (l.map fun x => w x.2).sum

omit [LinearOrder τ] in
@[simp] theorem tally_nil (w : ε → Nat) : tally w ([] : List (τ × ε)) = 0 := rfl

omit [LinearOrder τ] in
@[simp] theorem tally_cons (w : ε → Nat) (x : τ × ε) (l : List (τ × ε)) :
    tally w (x :: l) = w x.2 + tally w l := rfl

omit [LinearOrder τ] in
theorem tally_perm (w : ε → Nat) {l l' : List (τ × ε)} (h : l.Perm l') : tally w l = tally w l' :=
  List.Perm.sum_eq (h.map fun x => w x.2)

@[simp] theorem tally_schedule (w : ε → Nat) (t : τ) (e : ε) (l : List (τ × ε)) :
    tally w (schedule t e l) = w e + tally w l :=
  tally_perm w (schedule_perm t e l)

omit [LinearOrder τ] in
theorem le_tally (w : ε → Nat) {l : List (τ × ε)} {x : τ × ε} (hx : x ∈ l) : w x.2 ≤ tally w l :=
  List.single_le_sum (fun _ _ => Nat.zero_le _) _ (List.mem_map.2 ⟨x, hx, rfl⟩)

omit [LinearOrder τ] in
theorem tally_eq_zero {w : ε → Nat} {l : List (τ × ε)} (h : ∀ x ∈ l, w x.2 = 0) :
    tally w l = 0 := by
  refine List.sum_eq_zero fun n hn => ?_
  obtain ⟨x, hx, rfl⟩ := List.mem_map.1 hn
  exact h x hx

omit [LinearOrder τ] in
theorem tally_mono {v w : ε → Nat} (h : ∀ e, v e ≤ w e) (l : List (τ × ε)) :
    tally v l ≤ tally w l := by
  induction l with
  | nil => exact Nat.le_refl 0
  | cons x l ih => exact Nat.add_le_add (h x.2) ih

omit [LinearOrder τ] in
theorem tally_congr {v w : ε → Nat} {l : List (τ × ε)} (h : ∀ x ∈ l, v x.2 = w x.2) :
    tally v l = tally w l :=
  congrArg List.sum (List.map_congr_left h)

/-- What the events weigh together if their times count. -/
def load (w : τ × ε → Nat) (l : List (τ × ε)) : Nat := (l.map w).sum

omit [LinearOrder τ] in
@[simp] theorem load_cons (w : τ × ε → Nat) (x : τ × ε) (l : List (τ × ε)) :
    load w (x :: l) = w x + load w l := rfl

omit [LinearOrder τ] in
theorem le_load (w : τ × ε → Nat) {l : List (τ × ε)} {x : τ × ε} (hx : x ∈ l) : w x ≤ load w l :=
  List.single_le_sum (fun _ _ => Nat.zero_le _) _ (List.mem_map.2 ⟨x, hx, rfl⟩)

omit [LinearOrder τ] in
theorem load_perm (w : τ × ε → Nat) {l l' : List (τ × ε)} (h : l.Perm l') : load w l = load w l' :=
  List.Perm.sum_eq (h.map w)

@[simp] theorem load_schedule (w : τ × ε → Nat) (t : τ) (e : ε) (l : List (τ × ε)) :
    load w (schedule t e l) = w (t, e) + load w l :=
  load_perm w (schedule_perm t e l)

/-- What the events of one owner weigh. -/
def share [DecidableEq κ] (own : ε → Option κ) (w : ε → Nat) (k : κ) (e : ε) : Nat :=
  if own e = some k then w e else 0

omit [LinearOrder τ] in
theorem tally_share_eq_zero [DecidableEq κ] (own : ε → Option κ) {w : ε → Nat} {l : List (τ × ε)}
    (h : tally w l = 0) (k : κ) : tally (share own w k) l = 0 := by
  have hle := tally_mono (v := share own w k) (w := w) (fun e => by unfold share; split_ifs <;> omega) l
  omega

omit [LinearOrder τ] in
/-- One owner has all of a weight of one. -/
theorem exists_share [DecidableEq κ] {own : ε → Option κ} {w : ε → Nat}
    (hw : ∀ e, 0 < w e → (own e).isSome) {l : List (τ × ε)} (h : tally w l = 1) :
    ∃ k, tally (share own w k) l = 1 ∧ ∀ k', k' ≠ k → tally (share own w k') l = 0 := by
  induction l with
  | nil => cases h
  | cons x l ih =>
    rw [tally_cons] at h
    rcases Nat.eq_zero_or_pos (w x.2) with hx | hx
    · have none_at : ∀ k, share own w k x.2 = 0 := fun k => by
        unfold share; split_ifs <;> omega
      obtain ⟨k, hone, hzero⟩ := ih (by omega)
      exact ⟨k, by rw [tally_cons, none_at, hone], fun k' hk => by
        rw [tally_cons, none_at, hzero k' hk]⟩
    · have hrest := tally_share_eq_zero own (l := l) (w := w) (by omega)
      obtain ⟨k, hk⟩ := Option.isSome_iff_exists.1 (hw x.2 hx)
      refine ⟨k, ?_, fun k' hne => ?_⟩
      · rw [tally_cons, hrest, share, if_pos hk]
        omega
      · rw [tally_cons, hrest, share, if_neg (by rw [hk]; exact fun h => hne (Option.some.inj h).symm)]

/-! ## The events of one kind -/

/-- What `sel` reads off the events that it selects, with their times. -/
def pending (sel : ε → Option κ) (l : List (τ × ε)) : List (τ × κ) :=
  l.filterMap fun x => (sel x.2).map (x.1, ·)

omit [LinearOrder τ] in
@[simp] theorem pending_nil (sel : ε → Option κ) : pending sel ([] : List (τ × ε)) = [] := rfl

omit [LinearOrder τ] in
theorem mem_pending {sel : ε → Option κ} {l : List (τ × ε)} {x : τ × κ} :
    x ∈ pending sel l ↔ ∃ y ∈ l, sel y.2 = some x.2 ∧ y.1 = x.1 := by
  obtain ⟨t, k⟩ := x
  simp [pending]

omit [LinearOrder τ] in
theorem pending_cons_some {sel : ε → Option κ} {x : τ × ε} {k : κ} (h : sel x.2 = some k)
    (l : List (τ × ε)) : pending sel (x :: l) = (x.1, k) :: pending sel l := by
  simp [pending, h]

omit [LinearOrder τ] in
theorem pending_cons_none {sel : ε → Option κ} {x : τ × ε} (h : sel x.2 = none)
    (l : List (τ × ε)) : pending sel (x :: l) = pending sel l := by
  simp [pending, h]

theorem pending_schedule_none (sel : ε → Option κ) {e : ε} (h : sel e = none) (t : τ)
    (l : List (τ × ε)) : pending sel (schedule t e l) = pending sel l := by
  induction l with
  | nil => simp [schedule, pending, h]
  | cons x l ih =>
    unfold schedule
    split_ifs
    · simp only [pending, List.filterMap_cons] at ih ⊢
      rw [ih]
    · exact pending_cons_none h _

omit [LinearOrder τ] in
theorem pending_eq_nil {sel : ε → Option κ} {l : List (τ × ε)} (h : ∀ x ∈ l, sel x.2 = none) :
    pending sel l = [] := by
  simpa [pending] using fun t e hx => h (t, e) hx

/-- An event due no earlier than the others of its kind comes last of them. -/
theorem pending_schedule_some (sel : ε → Option κ) {e : ε} {k : κ} (hk : sel e = some k) {t : τ}
    {l : List (τ × ε)} (hl : Sorted l) (h : ∀ x ∈ pending sel l, x.1 ≤ t) :
    pending sel (schedule t e l) = pending sel l ++ [(t, k)] := by
  obtain ⟨l₁, l₂, rfl, hs, -, h₂⟩ := schedule_eq t e hl
  have none_behind : pending sel l₂ = [] := by
    refine pending_eq_nil fun x hx => ?_
    cases hsel : sel x.2 with
    | none => rfl
    | some k' =>
      have hmem : (x.1, k') ∈ pending sel (l₁ ++ l₂) :=
        List.mem_filterMap.2 ⟨x, by simp [hx], by simp [hsel]⟩
      exact absurd (h _ hmem) (not_le.2 (h₂ x hx))
  have hcons : pending sel ((t, e) :: l₂) = [(t, k)] := by
    rw [pending_cons_some hk, none_behind]
  unfold pending at none_behind hcons ⊢
  rw [hs, List.filterMap_append, List.filterMap_append, none_behind, hcons, List.append_nil]

/-- An event goes behind those of its kind that are due no later. -/
theorem pending_schedule_between (sel : ε → Option κ) {e : ε} {k : κ} (hk : sel e = some k) {t : τ}
    {l : List (τ × ε)} (hl : Sorted l) {l₁ l₂ : List (τ × κ)} (h : pending sel l = l₁ ++ l₂)
    (h₁ : ∀ x ∈ l₁, x.1 ≤ t) (h₂ : ∀ x ∈ l₂, t < x.1) :
    pending sel (schedule t e l) = l₁ ++ (t, k) :: l₂ := by
  obtain ⟨a, b, rfl, hs, ha, hb⟩ := schedule_eq t e hl
  have split : pending sel (a ++ b) = pending sel a ++ pending sel b := List.filterMap_append
  have due : ∀ x ∈ pending sel a, x.1 ≤ t := fun x hx => by
    obtain ⟨y, hy, -, hyx⟩ := mem_pending.1 hx
    exact hyx ▸ ha y hy
  have later : ∀ x ∈ pending sel b, t < x.1 := fun x hx => by
    obtain ⟨y, hy, -, hyx⟩ := mem_pending.1 hx
    exact hyx ▸ hb y hy
  have parts : ∀ {l l' : List (τ × κ)}, (∀ x ∈ l, x.1 ≤ t) → (∀ x ∈ l', t < x.1) →
      (l ++ l').filter (fun x => x.1 ≤ t) = l := fun hl hl' => by
    rw [List.filter_append, List.filter_eq_self.2 (by simpa using hl),
      List.filter_eq_nil_iff.2 (by simpa using hl'), List.append_nil]
  rw [split] at h
  obtain rfl : pending sel a = l₁ := by
    rw [← parts due later, h, parts h₁ h₂]
  obtain rfl := List.append_cancel_left h
  have hcons := pending_cons_some (x := (t, e)) hk b
  rw [hs, ← hcons]
  exact List.filterMap_append

/-! ## What the events hold -/

/-- What `f` reads off the events, one after the other. -/
def gather (f : ε → List κ) (l : List (τ × ε)) : List κ := l.flatMap fun x => f x.2

omit [LinearOrder τ] in
@[simp] theorem gather_cons (f : ε → List κ) (x : τ × ε) (l : List (τ × ε)) :
    gather f (x :: l) = f x.2 ++ gather f l := rfl

omit [LinearOrder τ] in
theorem gather_eq_nil {f : ε → List κ} {l : List (τ × ε)} : gather f l = [] ↔ ∀ x ∈ l, f x.2 = [] :=
  List.flatMap_eq_nil_iff

omit [LinearOrder τ] in
theorem count_gather [DecidableEq κ] (f : ε → List κ) (l : List (τ × ε)) (k : κ) :
    (gather f l).count k = tally (fun e => (f e).count k) l := by
  rw [gather, List.count_flatMap]
  rfl

omit [LinearOrder τ] in
theorem length_gather (f : ε → List κ) (l : List (τ × ε)) :
    (gather f l).length = tally (fun e => (f e).length) l := by
  rw [gather, List.length_flatMap]
  rfl

omit [LinearOrder τ] in
theorem map_snd_pending (sel : ε → Option κ) (l : List (τ × ε)) :
    (pending sel l).map Prod.snd = gather (fun e => (sel e).toList) l := by
  induction l with
  | nil => rfl
  | cons x l ih =>
    rw [gather_cons, ← ih]
    cases h : sel x.2 with
    | none => rw [pending_cons_none h]; rfl
    | some k => rw [pending_cons_some h]; rfl

theorem gather_schedule_nil {f : ε → List κ} {e : ε} (h : f e = []) (t : τ) (l : List (τ × ε)) :
    gather f (schedule t e l) = gather f l := by
  induction l with
  | nil => simp [schedule, gather, h]
  | cons x l ih =>
    unfold schedule
    split_ifs
    · rw [gather_cons, gather_cons, ih]
    · rw [gather_cons, h, List.nil_append]

/-- If all that is due no later holds nothing, what an event holds comes first. -/
theorem gather_schedule_first {f : ε → List κ} {t : τ} {l : List (τ × ε)}
    (h : ∀ x ∈ l, x.1 ≤ t → f x.2 = []) (e : ε) :
    gather f (schedule t e l) = f e ++ gather f l := by
  induction l with
  | nil => simp [schedule, gather]
  | cons x l ih =>
    unfold schedule
    split_ifs with hx
    · rw [gather_cons, gather_cons, ih fun y hy => h y (List.mem_cons_of_mem _ hy),
        h x List.mem_cons_self hx, List.nil_append, List.nil_append]
    · rfl

/-- If all that is due later holds nothing, what an event holds comes last. -/
theorem gather_schedule_last {f : ε → List κ} {t : τ} {l : List (τ × ε)} (hl : Sorted l)
    (h : ∀ x ∈ l, t < x.1 → f x.2 = []) (e : ε) :
    gather f (schedule t e l) = gather f l ++ f e := by
  obtain ⟨l₁, l₂, rfl, hs, -, h₂⟩ := schedule_eq t e hl
  have none_behind : gather f l₂ = [] := gather_eq_nil.2 fun x hx => h x (by simp [hx]) (h₂ x hx)
  have hcons : gather f ((t, e) :: l₂) = f e := by rw [gather_cons, none_behind, List.append_nil]
  unfold gather at none_behind hcons ⊢
  rw [hs, List.flatMap_append, List.flatMap_append, none_behind, hcons, List.append_nil]

end TaskQueueCoSim.Agenda
