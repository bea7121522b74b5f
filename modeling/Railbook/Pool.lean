import Railbook.Termination

/-! The connections of the database (`app/database.py`: a pool of ten, and twenty more). A session takes one for its
    first statement, holds it while it waits for rows and for the gateway, and gives it back when its transaction
    ends. A session that finds none left waits. The look-up of the user in `get_current_user`, which takes the
    connection already before the first statement, and `enrich_booking`, which takes one again after the commit, are
    no steps here: their queries wait for no row, so that a request in one of them needs nothing but a connection. -/

namespace Railbook
open ReadCommitted Transition

/-- The session has not run a statement yet. -/
def Task.isNew : Task → Bool
  | .create _ .checkKey | .pay _ .lockBooking | .refund _ .lockBooking | .cleanup .scan => true
  | _ => false

/-- The session has a connection: its transaction has begun and not ended. -/
def Task.isConnected : Task → Bool
  | .create _ .checkKey | .create _ (.invalidate _) | .create _ (.finished _) => false
  | .pay _ .lockBooking | .pay _ (.invalidate _) | .pay _ (.finished _) => false
  | .refund _ .lockBooking | .refund _ (.invalidate _) | .refund _ (.finished _) => false
  | .cleanup .scan | .cleanup (.finished _) => false
  | _ => true

/-- How many connections are taken. -/
def State.connections (σ : State) : Nat := (σ.sessions.map fun s => s.task.isConnected.toNat).sum

/-- A session that runs its first statement finds a connection left. -/
def State.hasConnection (size : Nat) (σ : State) : Act → Bool
  | .run i _ => (σ.sessions[i]?).all fun s => !s.task.isNew || decide (σ.connections < size)
  | _ => true

/-- The steps of a service with a pool. To wait for a connection longer than the pool allows is a failure of
    the statement. -/
def poolStep (size : Nat) (cat : Catalog) (σ : State) (a : Act) : Option State :=
  if σ.hasConnection size a then step cat σ a else none

/-- The states that the seeded service reaches with a pool. -/
abbrev PoolReachable (size : Nat) (cat : Catalog) : State → Prop :=
  Reach (poolStep size cat) (fun _ _ => True) fun σ => ∃ now, σ = .seeded now

section
variable {size : Nat} {cat : Catalog} {σ τ : State} {i j : Sid} {s : Session} {t : Task} {e : Effect} {a : Act}

theorem poolStep_eq_some : poolStep size cat σ a = some τ ↔ σ.hasConnection size a = true ∧ step cat σ a = some τ :=
  Option.ite_none_right_eq_some

theorem PoolReachable.reachable (h : PoolReachable size cat σ) : Reachable cat σ :=
  h.invariant (fun _ start => .start start) fun _ _ _ _ hr _ hstep => hr.next trivial (poolStep_eq_some.mp hstep).2

/-! ### The pool is large enough -/

/-- Only the first statement takes a connection. -/
theorem Move.isConnected (m : Move cat σ i s e t) (h : t.isConnected = true) :
    s.task.isNew = true ∨ s.task.isConnected = true := by
  cases m with
  | create m => cases m <;> first | exact Or.inl rfl | exact Or.inr rfl | cases h
  | pay m => cases m <;> first | exact Or.inl rfl | exact Or.inr rfl | cases h
  | refund m => cases m <;> first | exact Or.inl rfl | exact Or.inr rfl | cases h
  | cleanup m => cases m <;> first | exact Or.inl rfl | exact Or.inr rfl | cases h

theorem connections_goto (hs : σ.sessions[i]? = some s) (m : Move cat σ i s e t)
    (left : t.isConnected = true → s.task.isNew = true → σ.connections < size) (h : σ.connections ≤ size) :
    ((σ.perform i e).goto i s t).connections ≤ size := by
  have hsum := sum_goto (fun s : Session => s.task.isConnected.toNat) (e := e) (t := t) hs
  simp only at hsum
  unfold State.connections at left h ⊢
  cases ht : t.isConnected with
  | false =>
    rw [ht, Bool.toNat_false] at hsum
    omega
  | true =>
    rw [ht, Bool.toNat_true] at hsum
    rcases m.isConnected ht with hn | hc
    · have hlt := left ht hn
      omega
    · rw [hc, Bool.toNat_true] at hsum
      omega

theorem raise_isConnected {t' : Task} (h : t.raise = some t') : t'.isConnected = false := by
  cases t <;> simp only [Task.raise, Option.ite_none_right_eq_some, Option.some.injEq] at h <;> obtain ⟨-, rfl⟩ :=
    h <;> rfl

/-- No more connections are taken than the pool has. -/
theorem connections_le (h : PoolReachable size cat σ) : σ.connections ≤ size := by
  refine h.invariant (I := fun σ => σ.connections ≤ size) ?_ ?_
  · rintro σ ⟨now, rfl⟩
    exact Nat.zero_le size
  · intro σ a τ _ hle _ hpool
    obtain ⟨hleft, hstep⟩ := poolStep_eq_some.mp hpool
    cases step_stepped hstep with
    | request r =>
      have hnew : r.task.isConnected = false := by cases r <;> rfl
      simpa [State.connections, hnew] using hle
    | @run i x s e t hs hc m =>
      refine connections_goto hs m (fun _ hn => ?_) hle
      simpa [State.hasConnection, hs, hn] using hleft
    | raise hs hraise m =>
      refine connections_goto hs m (fun hc => ?_) hle
      rw [raise_isConnected hraise] at hc
      cases hc
    | tick d => exact hle
    | updateConfig failureRate latencyMs => exact hle

/-! ### Progress -/

theorem Task.isConnected_of_owned {r : Resource} (h : r ∈ t.owned) : t.isConnected = true := by
  unfold Task.isConnected
  split <;> first | rfl | cases h

theorem Task.runs_of_isConnected (h : t.isConnected = true) : t.isNew = false ∧ t.isFinished = false := by
  cases t with
  | create q pc => cases pc <;> first | exact ⟨rfl, rfl⟩ | cases h
  | pay q pc => cases pc <;> first | exact ⟨rfl, rfl⟩ | cases h
  | refund q pc => cases pc <;> first | exact ⟨rfl, rfl⟩ | cases h
  | cleanup pc => cases pc <;> first | exact ⟨rfl, rfl⟩ | cases h

/-- Whoever is waited for has a connection, so as long as some are taken, a session that has one can go on. -/
theorem exists_pool_statement (hsize : 0 < size) (hr : Reachable cat σ) (h : ¬σ.AllFinished) :
    ∃ a τ, (∃ i x, a = .run i x) ∧ poolStep size cat σ a = some τ := by
  have inv := inv_of_reachableBy hr
  by_cases htaken : ∃ s ∈ σ.sessions, s.task.isConnected = true
  · obtain ⟨s, hs, hc⟩ := htaken
    obtain ⟨i, hs⟩ := List.mem_iff_getElem?.mp hs
    have closed : ∀ i j, (∃ s, σ.sessions[i]? = some s ∧ s.task.isConnected = true) → σ.WaitsFor i j →
        ∃ s, σ.sessions[j]? = some s ∧ s.task.isConnected = true := by
      rintro - j - ⟨-, r, -, -, ho, -⟩
      obtain ⟨s, hs, hown⟩ := inv.session_of_owner ho
      exact ⟨s, hs, Task.isConnected_of_owned hown⟩
    obtain ⟨j, ⟨s', hs', hc'⟩, hw⟩ := inv.ranked.exists_not_waiting closed ⟨s, hs, hc⟩
    obtain ⟨hnew, hf⟩ := Task.runs_of_isConnected hc'
    obtain ⟨x, τ, hstep⟩ := (enabled_iff inv hs' hf).mpr (not_exists.mpr hw)
    refine ⟨_, τ, ⟨j, x, rfl⟩, poolStep_eq_some.mpr ⟨?_, hstep⟩⟩
    simp [State.hasConnection, hs', hnew]
  · have hfree : σ.connections = 0 := by
      refine List.sum_eq_zero_iff_forall_eq_nat.mpr fun n hn => ?_
      obtain ⟨s, hs, rfl⟩ := List.mem_map.mp hn
      have hc : s.task.isConnected = false := Bool.eq_false_iff.mpr fun hc => htaken ⟨s, hs, hc⟩
      rw [hc, Bool.toNat_false]
    obtain ⟨a, τ, ⟨i, x, rfl⟩, hstep⟩ := exists_statement hr h
    refine ⟨_, τ, ⟨i, x, rfl⟩, poolStep_eq_some.mpr ⟨?_, hstep⟩⟩
    simp [State.hasConnection, hfree, hsize]

theorem spends_pool_statements (size : Nat) (cat : Catalog) :
    Spends (poolStep size cat) (Reachable cat) Act.isStatement Act.brings State.work where
  keep hr hpool := hr.next trivial (poolStep_eq_some.mp hpool).2
  pay hr hpool := (spends_statements cat).pay hr (poolStep_eq_some.mp hpool).2

/-- With a pool of one connection or more: no more connections are taken than there are, from every reachable state
    statements alone lead to one in which every request has been answered, where no statement can run that is so
    already, and every infinite run in which no more requests arrive answers all of them, if statements keep running
    as long as one can. -/
theorem pool_suffices (hsize : 0 < size) (h : PoolReachable size cat σ) :
    σ.connections ≤ size ∧
      (∃ acts τ, (∀ a ∈ acts, ∃ i x, a = .run i x) ∧ exec (poolStep size cat) σ acts = some τ ∧ τ.AllFinished) ∧
      ((∀ i x, poolStep size cat σ (.run i x) = none) → σ.AllFinished) ∧
      ∀ (ex : Execution (poolStep size cat)) (N : Nat), ex.states 0 = σ → (∀ n ≥ N, ∀ r, ex.labels n ≠ .request r) →
        (∀ n, (∃ i x τ, poolStep size cat (ex.states n) (.run i x) = some τ) →
          ∃ m ≥ n, (ex.labels m).isStatement = true) →
          ∃ M, ∀ n ≥ M, (ex.states n).AllFinished := by
  have hr := h.reachable
  refine ⟨connections_le h, ?_, fun hstuck => ?_, fun ex N start arrivals fair => ?_⟩
  · refine (spends_pool_statements size cat).finish (P := fun a => ∃ i x, a = .run i x) ?_
      (exists_pool_statement hsize) hr
    rintro a ⟨i, x, rfl⟩
    exact ⟨rfl, rfl⟩
  · by_contra hend
    obtain ⟨a, τ, ⟨i, x, rfl⟩, hstep⟩ := exists_pool_statement hsize hr hend
    rw [hstuck i x] at hstep
    cases hstep
  · have hr₀ : Reachable cat (ex.states 0) := start ▸ hr
    have hstates := (spends_pool_statements size cat).inv_states hr₀
    refine (spends_pool_statements size cat).completes (N := N) hr₀ (fun n hn => ?_) fun n hd => ?_
    · cases ha : ex.labels n with
      | request r => exact absurd ha (arrivals n hn r)
      | _ => rfl
    · obtain ⟨a, τ, ⟨i, x, rfl⟩, hstep⟩ := exists_pool_statement hsize (hstates n) hd
      exact fair n ⟨i, x, τ, hstep⟩

/-- One connection, and two requests: the second waits for the connection of the first. -/
theorem pool_suffices_one : ∃ σ : State, σ.connections = 1 ∧ (∀ x, poolStep 1 sampleCatalog σ (.run 1 x) = none) ∧
    ∃ acts τ, (∀ a ∈ acts, ∃ i x, a = .run i x) ∧ exec (poolStep 1 sampleCatalog) σ acts = some τ ∧ τ.AllFinished := by
  have hrun : (exec (poolStep 1 sampleCatalog) (.seeded 0) (.request (.create ⟨1, 20, 40, 50, none⟩) ::
      .request (.create ⟨2, 20, 41, 51, none⟩) :: runs 0 3 60)).any (fun σ : State =>
        decide (σ.connections = 1) && decide (σ.sessions[1]? = some ⟨0, .create ⟨2, 20, 41, 51, none⟩ .checkKey⟩)) =
          true := by
    decide
  obtain ⟨σ, run, htest⟩ := (Option.any_eq_true _ _).mp hrun
  simp only [Bool.and_eq_true, decide_eq_true_eq] at htest
  obtain ⟨hone, hs⟩ := htest
  have reached : PoolReachable 1 sampleCatalog σ :=
    Reach.exec (.start ⟨0, rfl⟩) (along_of_forall fun _ _ => trivial) run
  have hwaits : ∀ x, poolStep 1 sampleCatalog σ (.run 1 x) = none := by
    intro x
    simp [poolStep, State.hasConnection, hs, hone, Task.isNew]
  exact ⟨σ, hone, hwaits, (pool_suffices (by decide) reached).2.1⟩

end

end Railbook
