import Mathlib.Algebra.Order.Monoid.Defs
import Mathlib.Data.List.Range
import Mathlib.Order.Lattice

/-!
# First come, first served

Jobs enter a queue in the order of their numbers and are taken by `servers` equal
servers; each job occupies its server for the time `d`.

* `begins`, `finish`: when a job is begun and when it is done;
* `finish_le_finish`: shorter service and earlier arrivals delay no job;
* `finish_le_finish_of_servers`: more servers delay no job;
* `Inv`: what holds of a station that follows this schedule, and what keeps it.
-/

namespace TaskQueueCoSim.Station

variable {τ : Type} [LinearOrder τ] [AddCommMonoid τ] [IsOrderedAddMonoid τ]

/-! ## The schedule -/

section Schedule

variable (servers : ℕ) (arrive : ℕ → τ) (d : τ)

/-- A job is done when its server has come back from the job `servers` before it
and has served it. -/
def finish (i : ℕ) : τ :=
  if 0 < servers ∧ servers ≤ i then max (arrive i) (finish (i - servers)) + d else arrive i + d
termination_by i

/-- A job is begun when it has arrived and its server is free. -/
def begins (i : ℕ) : τ :=
  if 0 < servers ∧ servers ≤ i then max (arrive i) (finish servers arrive d (i - servers))
  else arrive i

omit [IsOrderedAddMonoid τ]

theorem finish_eq (i : ℕ) : finish servers arrive d i = begins servers arrive d i + d := by
  rw [finish, begins]
  split_ifs <;> rfl

theorem arrive_le_begins (i : ℕ) : arrive i ≤ begins servers arrive d i := by
  unfold begins
  split_ifs
  · exact le_max_left _ _
  · exact le_rfl

variable {servers arrive d}

theorem begins_le {i : ℕ} {t : τ} (harrive : arrive i ≤ t)
    (hfree : 0 < servers → servers ≤ i → finish servers arrive d (i - servers) ≤ t) :
    begins servers arrive d i ≤ t := by
  unfold begins
  split_ifs with h
  · exact max_le harrive (hfree h.1 h.2)
  · exact harrive

theorem finish_le_begins {i : ℕ} (hpos : 0 < servers) (hi : servers ≤ i) :
    finish servers arrive d (i - servers) ≤ begins servers arrive d i := by
  unfold begins
  rw [if_pos ⟨hpos, hi⟩]
  exact le_max_right _ _

end Schedule

section Monotone

variable {servers : ℕ} {arrive arrive' : ℕ → τ} {d d' : τ}

/-- Shorter service and earlier arrivals delay no job. -/
theorem finish_le_finish (harrive : ∀ i, arrive i ≤ arrive' i) (hd : d ≤ d') (i : ℕ) :
    finish servers arrive d i ≤ finish servers arrive' d' i := by
  induction i using Nat.strongRecOn with
  | ind i ih =>
    rw [finish_eq, finish_eq]
    refine add_le_add ?_ hd
    unfold begins
    split_ifs with h
    · exact max_le_max (harrive i) (ih (i - servers) (by omega))
    · exact harrive i

theorem begins_le_begins (harrive : ∀ i, arrive i ≤ arrive' i) (hd : d ≤ d') (i : ℕ) :
    begins servers arrive d i ≤ begins servers arrive' d' i := by
  unfold begins
  split_ifs
  · exact max_le_max (harrive i) (finish_le_finish harrive hd _)
  · exact harrive i

/-- Jobs are done in the order of their arrival. -/
theorem finish_mono (harrive : Monotone arrive) : Monotone (finish servers arrive d) := by
  intro i j
  induction j using Nat.strongRecOn generalizing i with
  | ind j ih =>
    intro hij
    rw [finish_eq, finish_eq]
    refine add_le_add ?_ le_rfl
    unfold begins
    split_ifs with hi hj
    · exact max_le_max (harrive hij) (ih _ (by omega) (by omega))
    · omega
    · exact (harrive hij).trans (le_max_left _ _)
    · exact harrive hij

theorem begins_mono (harrive : Monotone arrive) : Monotone (begins servers arrive d) := by
  intro i j hij
  unfold begins
  split_ifs
  · exact max_le_max (harrive hij) (finish_mono harrive (by omega))
  · omega
  · exact (harrive hij).trans (le_max_left _ _)
  · exact harrive hij

section Servers

variable {servers' : ℕ} (hpos : 0 < servers) (hle : servers ≤ servers') (harrive : Monotone arrive)

include hpos hle harrive

/-- A job is begun no later if with more servers the jobs before it are done no later. -/
theorem begins_le_begins_of_finish {i : ℕ}
    (h : ∀ j < i, finish servers' arrive d j ≤ finish servers arrive d j) :
    begins servers' arrive d i ≤ begins servers arrive d i := by
  refine begins_le (arrive_le_begins ..) fun _ hi => ?_
  calc finish servers' arrive d (i - servers')
      ≤ finish servers arrive d (i - servers') := h _ (by omega)
    _ ≤ finish servers arrive d (i - servers) := finish_mono harrive (by omega)
    _ ≤ begins servers arrive d i := finish_le_begins hpos (by omega)

/-- More servers delay no job. -/
theorem finish_le_finish_of_servers (i : ℕ) :
    finish servers' arrive d i ≤ finish servers arrive d i := by
  induction i using Nat.strongRecOn with
  | ind i ih =>
    rw [finish_eq, finish_eq]
    exact add_le_add (begins_le_begins_of_finish hpos hle harrive ih) le_rfl

theorem begins_le_begins_of_servers (i : ℕ) :
    begins servers' arrive d i ≤ begins servers arrive d i :=
  begins_le_begins_of_finish hpos hle harrive fun j _ =>
    finish_le_finish_of_servers hpos hle harrive j

end Servers

end Monotone

/-! ## Jobs in a row -/

/-- The jobs from `a` to before `b`, with a time each. -/
def jobs (f : ℕ → τ) (a b : ℕ) : List (τ × ℕ) := (List.range' a (b - a)).map fun i => (f i, i)

section Jobs

omit [LinearOrder τ] [AddCommMonoid τ] [IsOrderedAddMonoid τ]

variable {f : ℕ → τ} {a b : ℕ}

@[simp] theorem jobs_self : jobs f a a = [] := by simp [jobs]

theorem jobs_cons (h : a < b) : jobs f a b = (f a, a) :: jobs f (a + 1) b := by
  obtain ⟨n, rfl⟩ := Nat.exists_eq_add_of_lt h
  simp [jobs, List.range'_succ, Nat.add_assoc, Nat.add_sub_add_left]

theorem jobs_concat (h : a ≤ b) : jobs f a (b + 1) = jobs f a b ++ [(f b, b)] := by
  obtain ⟨n, rfl⟩ := Nat.exists_eq_add_of_le h
  have : a + n + 1 - a = n + 1 := by omega
  simp [jobs, this, List.range'_concat]

theorem mem_jobs {x : τ × ℕ} : x ∈ jobs f a b ↔ ∃ i, (a ≤ i ∧ i < b) ∧ x = (f i, i) := by
  simp only [jobs, List.mem_map, List.mem_range'_1]
  constructor
  · rintro ⟨i, hi, rfl⟩
    exact ⟨i, by omega, rfl⟩
  · rintro ⟨i, hi, rfl⟩
    exact ⟨i, by omega, rfl⟩

/-- The first of the jobs. -/
theorem of_jobs_cons {t : τ} {i : ℕ} {rest : List (τ × ℕ)} (h : (t, i) :: rest = jobs f a b) :
    a < b ∧ i = a ∧ t = f a ∧ rest = jobs f (a + 1) b := by
  have hlt : a < b := by
    by_contra hge
    simp [jobs, Nat.sub_eq_zero_of_le (Nat.le_of_not_lt hge)] at h
  rw [jobs_cons hlt] at h
  simp only [List.cons.injEq, Prod.mk.injEq] at h
  exact ⟨hlt, h.1.2, h.1.1, h.2⟩

end Jobs

/-! ## Stations -/

/-- The state of a station.  Jobs that have been given to a server, are in
service, or are done but still with their server stand with the times they are
due at. -/
structure State (τ : Type) where
  now : τ
  waiting : List ℕ
  /-- servers that wait for a job -/
  idle : ℕ
  /-- servers that have not started to wait yet -/
  unborn : ℕ
  /-- entries of which the idle servers have not been told -/
  untold : ℕ
  granted : List (τ × ℕ)
  service : List (τ × ℕ)
  leaving : List (τ × ℕ)

/-- How far the jobs have come. -/
structure Counts where
  entered : ℕ
  taken : ℕ
  begun : ℕ
  served : ℕ
  back : ℕ

/-- Gives the first waiting job to an idle server. -/
def State.give (s : State τ) : State τ :=
  match s.waiting, s.idle with
  | j :: waiting, idle + 1 =>
    { s with waiting := waiting, idle := idle, granted := s.granted ++ [(s.now, j)] }
  | _, _ => s

/-- The jobs that have not been begun, in their order. -/
def State.upcoming (s : State τ) : List ℕ := s.granted.map Prod.snd ++ s.waiting

omit [LinearOrder τ] [AddCommMonoid τ] [IsOrderedAddMonoid τ] in
@[simp] theorem give_upcoming (s : State τ) : s.give.upcoming = s.upcoming := by
  unfold State.give
  split
  · rename_i hw _
    simp [State.upcoming, hw]
  · rfl

/-- A station that keeps to the schedule: no server is idle while a job waits
that somebody has been told of. -/
structure Inv (servers : ℕ) (arrive : ℕ → τ) (d : τ) (s : State τ) (k : Counts) : Prop where
  taken_le : k.taken ≤ k.entered
  begun_le : k.begun ≤ k.taken
  served_le : k.served ≤ k.begun
  back_le : k.back ≤ k.served
  waiting : s.waiting = List.range' k.taken (k.entered - k.taken)
  granted : s.granted = jobs (begins servers arrive d) k.begun k.taken
  service : s.service = jobs (finish servers arrive d) k.served k.begun
  leaving : s.leaving = jobs (finish servers arrive d) k.back k.served
  all : s.idle + s.unborn + (k.taken - k.back) = servers
  arrived : ∀ i < k.entered, arrive i ≤ s.now
  given : ∀ i < k.taken, begins servers arrive d i ≤ s.now
  done : ∀ i < k.served, finish servers arrive d i ≤ s.now
  busy : k.taken < k.entered → s.now ≤ begins servers arrive d k.taken
  told : k.entered - k.taken ≤ s.untold ∨ s.idle ≤ s.untold
  instant : d = 0 → k.served = k.begun

namespace Inv

omit [IsOrderedAddMonoid τ]

variable {servers : ℕ} {arrive : ℕ → τ} {d : τ} {s : State τ} {k : Counts}

theorem of_eq (h : Inv servers arrive d s k) {s' : State τ} (hs : s' = s) :
    Inv servers arrive d s' k :=
  hs ▸ h

/-- At the start no job has come and no server waits. -/
theorem start (servers : ℕ) (arrive : ℕ → τ) (d now : τ) :
    Inv servers arrive d ⟨now, [], 0, servers, 0, [], [], []⟩ ⟨0, 0, 0, 0, 0⟩ := by
  constructor <;> simp

/-- What has been given to a server is due. -/
theorem granted_due (h : Inv servers arrive d s k) : ∀ x ∈ s.granted, x.1 ≤ s.now := by
  rw [h.granted]
  intro x hx
  obtain ⟨i, hi, rfl⟩ := mem_jobs.1 hx
  exact h.given i hi.2

theorem leaving_due (h : Inv servers arrive d s k) : ∀ x ∈ s.leaving, x.1 ≤ s.now := by
  rw [h.leaving]
  intro x hx
  obtain ⟨i, hi, rfl⟩ := mem_jobs.1 hx
  exact h.done i hi.2

/-- Time goes on to the next event.  If it does, nobody is left to be told, and
what is due now has happened: all servers are in service if a job waits. -/
theorem advance (h : Inv servers arrive d s k) (hpos : 0 < servers) {t : τ} (hle : s.now ≤ t)
    (hgranted : ∀ x ∈ s.granted, t ≤ x.1) (hservice : ∀ x ∈ s.service, t ≤ x.1)
    (hleaving : ∀ x ∈ s.leaving, t ≤ x.1)
    (hnow : s.now < t → s.untold = 0 ∧ s.unborn = 0) :
    Inv servers arrive d { s with now := t } k := by
  refine { h with
    arrived := fun i hi => (h.arrived i hi).trans hle
    given := fun i hi => (h.given i hi).trans hle
    done := fun i hi => (h.done i hi).trans hle
    busy := fun hwait => ?_ }
  rcases hle.eq_or_lt with rfl | hlt
  · exact h.busy hwait
  obtain ⟨huntold, hunborn⟩ := hnow hlt
  have hbegun : k.begun = k.taken := by
    by_contra hne
    have hmem : (begins servers arrive d k.begun, k.begun) ∈ s.granted := by
      rw [h.granted]
      exact mem_jobs.2 ⟨_, ⟨le_rfl, lt_of_le_of_ne h.begun_le hne⟩, rfl⟩
    have hgiven := h.given k.begun (lt_of_le_of_ne h.begun_le hne)
    exact absurd (hgranted _ hmem) (not_le.2 (hgiven.trans_lt hlt))
  have hback : k.back = k.served := by
    by_contra hne
    have hmem : (finish servers arrive d k.back, k.back) ∈ s.leaving := by
      rw [h.leaving]
      exact mem_jobs.2 ⟨_, ⟨le_rfl, lt_of_le_of_ne h.back_le hne⟩, rfl⟩
    have hdone := h.done k.back (lt_of_le_of_ne h.back_le hne)
    exact absurd (hleaving _ hmem) (not_le.2 (hdone.trans_lt hlt))
  have hall := h.all
  have htold := h.told
  have hidle : s.idle = 0 := by omega
  -- the first job in service is the one whose server the next waiting job gets
  have hfirst : (finish servers arrive d (k.taken - servers), k.taken - servers) ∈ s.service := by
    rw [h.service]
    exact mem_jobs.2 ⟨_, by omega, rfl⟩
  exact (hservice _ hfirst).trans (finish_le_begins hpos (by omega))

/-- A job enters when it is time for it. -/
theorem enter (h : Inv servers arrive d s k) (hnow : arrive k.entered = s.now) :
    Inv servers arrive d
      { s with waiting := s.waiting ++ [k.entered], untold := s.untold + 1 }
      { k with entered := k.entered + 1 } := by
  have htaken := h.taken_le
  refine { h with
    taken_le := Nat.le_succ_of_le htaken
    waiting := ?_
    arrived := fun i hi => ?_
    busy := fun _ => ?_
    told := ?_ }
  · obtain ⟨n, hn⟩ := Nat.exists_eq_add_of_le htaken
    have : k.taken + n + 1 - k.taken = n + 1 := by omega
    simp [h.waiting, hn, this, List.range'_concat]
  · rcases Nat.lt_succ_iff_lt_or_eq.1 hi with hlt | rfl
    · exact h.arrived i hlt
    · exact hnow.le
  · rcases htaken.lt_or_eq with hlt | heq
    · exact h.busy hlt
    · change s.now ≤ _
      rw [heq, ← hnow]
      exact arrive_le_begins _ _ _ _
  · have := h.told
    dsimp only
    omega

/-- A job that was given to a server goes into service. -/
theorem begin (h : Inv servers arrive d s k) (hd : d ≠ 0) {i : ℕ} {rest : List (τ × ℕ)}
    (hg : s.granted = (s.now, i) :: rest) :
    i = k.begun ∧ begins servers arrive d i = s.now ∧ Inv servers arrive d
      { s with granted := rest, service := s.service ++ [(s.now + d, i)] }
      { k with begun := k.begun + 1 } := by
  obtain ⟨hlt, rfl, hnow, hrest⟩ := of_jobs_cons (hg.symm.trans h.granted)
  refine ⟨rfl, hnow.symm, { h with
    begun_le := hlt
    served_le := Nat.le_succ_of_le h.served_le
    granted := hrest
    service := ?_
    instant := fun h0 => absurd h0 hd }⟩
  rw [jobs_concat h.served_le, h.service, finish_eq, ← hnow]

/-- A job that takes no time is done at once. -/
theorem begin_done (h : Inv servers arrive d s k) (hd : d = 0) {i : ℕ} {rest : List (τ × ℕ)}
    (hg : s.granted = (s.now, i) :: rest) :
    i = k.begun ∧ i = k.served ∧ begins servers arrive d i = s.now ∧
      finish servers arrive d i = s.now ∧ Inv servers arrive d
      { s with granted := rest, leaving := s.leaving ++ [(s.now, i)] }
      { k with begun := k.begun + 1, served := k.served + 1 } := by
  obtain ⟨hlt, rfl, hnow, hrest⟩ := of_jobs_cons (hg.symm.trans h.granted)
  have hserved := h.instant hd
  have hfinish : finish servers arrive d k.begun = s.now := by rw [finish_eq, ← hnow, hd, add_zero]
  refine ⟨rfl, hserved.symm, hnow.symm, hfinish, { h with
    begun_le := hlt
    served_le := Nat.succ_le_succ h.served_le
    back_le := Nat.le_succ_of_le h.back_le
    granted := hrest
    service := ?_
    leaving := ?_
    done := fun i hi => ?_
    instant := fun _ => by rw [hserved] }⟩
  · rw [h.service, hserved, jobs_self, jobs_self]
  · rw [jobs_concat h.back_le, h.leaving, hserved, hfinish]
  · rcases Nat.lt_succ_iff_lt_or_eq.1 hi with hlt | rfl
    · exact h.done i hlt
    · rw [hserved, hfinish]

/-- A job is done. -/
theorem serve (h : Inv servers arrive d s k) {i : ℕ} {rest : List (τ × ℕ)}
    (hs : s.service = (s.now, i) :: rest) :
    i = k.served ∧ finish servers arrive d i = s.now ∧ Inv servers arrive d
      { s with service := rest, leaving := s.leaving ++ [(s.now, i)] }
      { k with served := k.served + 1 } := by
  obtain ⟨hlt, rfl, hnow, hrest⟩ := of_jobs_cons (hs.symm.trans h.service)
  refine ⟨rfl, hnow.symm, { h with
    served_le := hlt
    back_le := Nat.le_succ_of_le h.back_le
    service := hrest
    leaving := ?_
    done := fun i hi => ?_
    instant := fun h0 => absurd (h.instant h0) (Nat.ne_of_lt hlt) }⟩
  · rw [jobs_concat h.back_le, h.leaving, ← hnow]
  · rcases Nat.lt_succ_iff_lt_or_eq.1 hi with hlt | rfl
    · exact h.done i hlt
    · exact hnow.ge

end Inv

/-- A job that is begun now is done after those in service. -/
theorem Inv.service_due {servers : ℕ} {arrive : ℕ → τ} {d : τ} {s : State τ} {k : Counts}
    (harrive : Monotone arrive) (h : Inv servers arrive d s k) {i : ℕ} {rest : List (τ × ℕ)}
    (hg : s.granted = (s.now, i) :: rest) : ∀ x ∈ s.service, x.1 ≤ s.now + d := by
  obtain ⟨-, -, hnow, -⟩ := of_jobs_cons (hg.symm.trans h.granted)
  rw [h.service, hnow, ← finish_eq]
  intro x hx
  obtain ⟨j, hj, rfl⟩ := mem_jobs.1 hx
  exact finish_mono harrive hj.2.le

/-- Whoever is told gives a job to a server if there are both.  The job is then
begun when the schedule says. -/
theorem Inv.give {servers : ℕ} {arrive : ℕ → τ} {d : τ} {s : State τ} {k : Counts}
    (harrive : Monotone arrive)
    (h : Inv servers arrive d { s with untold := s.untold + 1 } k) :
    ∃ n, Inv servers arrive d s.give { k with taken := n } := by
  have hall := h.all
  have htold := h.told
  have hwaiting := h.waiting
  have hlength := congrArg List.length hwaiting
  rw [List.length_range'] at hlength
  dsimp only at hall htold hwaiting hlength
  cases hw : s.waiting with
  | nil =>
    have hs : s.give = s := by simp [State.give, hw]
    rw [hw] at hlength
    rw [hs]
    exact ⟨k.taken, { h with told := .inl (by dsimp only; simp at hlength; omega) }⟩
  | cons j waiting =>
    cases hi : s.idle with
    | zero =>
      have hs : s.give = s := by simp [State.give, hw, hi]
      rw [hs]
      exact ⟨k.taken, { h with told := .inr (by omega) }⟩
    | succ idle =>
      have hs : s.give = { s with
          waiting := waiting, idle := idle, granted := s.granted ++ [(s.now, j)] } := by
        simp [State.give, hw, hi]
      have hlt : k.taken < k.entered := by
        rw [hw, List.length_cons] at hlength
        omega
      obtain ⟨n, hn⟩ := Nat.exists_eq_add_of_lt hlt
      have hlen : k.entered - k.taken = n + 1 := by omega
      rw [hw, hlen, List.range'_succ, List.cons.injEq] at hwaiting
      obtain ⟨rfl, hrest⟩ := hwaiting
      -- a server is idle, so the job whose server this one gets is done
      have hnow : begins servers arrive d k.taken = s.now := by
        refine le_antisymm (begins_le (h.arrived _ hlt) fun _ hle => ?_) (h.busy hlt)
        have hback := h.back_le
        exact h.done _ (by omega)
      rw [hs]
      refine ⟨k.taken + 1, { h with
        taken_le := hlt
        begun_le := Nat.le_succ_of_le h.begun_le
        waiting := ?_
        granted := ?_
        all := ?_
        given := fun i hi => ?_
        busy := fun _ => ?_
        told := ?_ }⟩
      · have hsub : k.entered - (k.taken + 1) = n := by omega
        dsimp only
        rw [hrest, hsub]
      · have hgranted := h.granted
        dsimp only at hgranted ⊢
        rw [jobs_concat h.begun_le, hgranted, hnow]
      · have hback := h.back_le
        have hserved := h.served_le
        have hbegun := h.begun_le
        dsimp only
        omega
      · rcases Nat.lt_succ_iff_lt_or_eq.1 hi with hlt | rfl
        · exact h.given i hlt
        · exact hnow.le
      · exact hnow.ge.trans (begins_mono harrive (Nat.le_succ _))
      · dsimp only
        omega

/-- A server starts to wait. -/
theorem Inv.born {servers : ℕ} {arrive : ℕ → τ} {d : τ} {s : State τ} {k : Counts}
    (harrive : Monotone arrive) (h : Inv servers arrive d s k) {n : ℕ} (hn : s.unborn = n + 1) :
    ∃ taken, Inv servers arrive d (State.give { s with unborn := n, idle := s.idle + 1 })
      { k with taken := taken } := by
  have hall := h.all
  have htold := h.told
  exact Inv.give (s := { s with unborn := n, idle := s.idle + 1 }) harrive
    { h with all := by dsimp only; omega, told := by dsimp only; omega }

/-- The server of a job that is done waits for the next. -/
theorem Inv.leave {servers : ℕ} {arrive : ℕ → τ} {d : τ} {s : State τ} {k : Counts}
    (harrive : Monotone arrive) (h : Inv servers arrive d s k) {t : τ} {i : ℕ}
    {rest : List (τ × ℕ)} (hl : s.leaving = (t, i) :: rest) :
    i = k.back ∧ finish servers arrive d i = t ∧ ∃ taken, Inv servers arrive d
      (State.give { s with leaving := rest, idle := s.idle + 1 })
      { k with taken := taken, back := k.back + 1 } := by
  obtain ⟨hlt, rfl, ht, hrest⟩ := of_jobs_cons (hl.symm.trans h.leaving)
  have hall := h.all
  have htold := h.told
  have hserved := h.served_le
  have hbegun := h.begun_le
  refine ⟨rfl, ht.symm, Inv.give (s := { s with leaving := rest, idle := s.idle + 1 })
    (k := { k with back := k.back + 1 }) harrive { h with
      back_le := hlt
      leaving := hrest
      all := by dsimp only; omega
      told := by dsimp only; omega }⟩

end TaskQueueCoSim.Station
