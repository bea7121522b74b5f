import Railbook.Creates
import Railbook.Library.Waiting

/-! Sessions wait for rows and for entries of unique indexes that others own. A session that owns something waits, if
    it waits at all, further down the order row, key, seat or payment key, so no wait is circular. -/

namespace Railbook
open ReadCommitted Transition

/-- The row or index entry that the next statement of a session has to own. -/
def Task.wants : Task → Option Resource
  | .create _ (.awaitSeat id) => some (.bookingRow id)
  | .create q (.insertKey _) => some (.bookingKey q.idempotencyKey)
  | .create q (.insertSeat _) => some (.bookingSeat q.scheduleId q.seatId)
  | .pay q .awaitBooking => some (.bookingRow q.bookingId)
  | .pay q (.record _ _ _) => some (.paymentKey q.idempotencyKey)
  | .refund q .awaitBooking => some (.bookingRow q.bookingId)
  | _ => none

/-- Session `i` waits for session `j`. -/
def State.WaitsFor (σ : State) (i j : Sid) : Prop :=
  ∃ s r, σ.sessions[i]? = some s ∧ s.task.wants = some r ∧ σ.store.owner r = some j ∧ j ≠ i

instance (σ : State) (i j : Sid) : Decidable (σ.WaitsFor i j) :=
  decidable_of_iff ((σ.sessions[i]?).any (fun s => s.task.wants.any fun r => σ.store.owner r = some j ∧ j ≠ i) = true)
  (by
    simp only [Option.any_eq_true, decide_eq_true_eq, State.WaitsFor]
    exact ⟨fun ⟨s, hs, r, hr, ho⟩ => ⟨s, r, hs, hr, ho⟩, fun ⟨s, r, hs, hr, ho⟩ => ⟨s, hs, r, hr, ho⟩⟩)

/-- How much a session may still have to wait for: a row, then a booking key, then a seat or a payment key. -/
def Resource.rank : Resource → Nat
  | .bookingRow _ => 3
  | .bookingKey _ => 2
  | .bookingSeat _ _ | .paymentKey _ => 1

/-- The rank of what the task waits for. -/
def Task.rank (t : Task) : Nat := t.wants.elim 0 Resource.rank

/-- The rank of what session `i` waits for. -/
def State.rank (σ : State) (i : Sid) : Nat := (σ.sessions[i]?).elim 0 fun s => s.task.rank

section
variable {cat : Catalog} {σ : State} {i j : Sid} {s : Session} {t : Task} {r : Resource}

/-- A session waits only for less than what it owns. -/
theorem Task.rank_lt_of_owned (h : r ∈ t.owned) : t.rank < r.rank := by
  unfold Task.owned at h
  split at h <;> simp only [List.mem_cons, List.not_mem_nil, or_false, List.mem_map] at h
  all_goals first
    | (rcases h with rfl | rfl | rfl)
    | (rcases h with rfl | rfl)
    | (obtain ⟨b, -, rfl⟩ := h)
  all_goals simp [Task.rank, Task.wants, Resource.rank]

theorem Inv.ranked (inv : Inv σ) : Waiting.Ranked σ.WaitsFor σ.rank := by
  rintro i j ⟨s, r, hs, hr, ho, -⟩
  have hown := (inv.own j r).mp ho
  have hi : σ.rank i = r.rank := by simp [State.rank, Task.rank, hs, hr]
  rw [hi, State.rank]
  unfold State.owned at hown
  cases hs' : σ.sessions[j]? with
  | none =>
    rw [hs'] at hown
    cases hown
  | some s' =>
    rw [hs'] at hown
    exact Task.rank_lt_of_owned hown

/-! ### The next statement -/

variable {began : Time} {x : Choice} {e : Effect}

theorem createBooking_enabled {q : CreateRequest} {pc : CreatePc} (fresh : σ.FreshId x.uuid)
    (free : ∀ r, (Task.create q pc).wants = some r → σ.store.Free i r) (hf : (Task.create q pc).isFinished = false) :
    (createBooking cat σ i began q x pc).isSome = true := by
  cases pc with
  | checkKey =>
    simp only [createBooking]
    split <;> rfl
  | lockSeat =>
    simp only [createBooking]
    split <;> rfl
  | awaitSeat id =>
    have hfree := free _ rfl
    simp only [createBooking, hfree, if_true]
    split
    · rfl
    · split <;> rfl
  | checkOverlap existing =>
    simp only [createBooking]
    split
    · rfl
    · split <;> rfl
  | getSeat existing =>
    simp only [createBooking]
    split
    · rfl
    · split
      · rfl
      · split <;> rfl
  | delete b price =>
    simp only [createBooking]
    split <;> rfl
  | insertKey b =>
    have hfree := free _ rfl
    simp only [createBooking, fresh, hfree, and_self, if_true]
    split <;> rfl
  | insertSeat b =>
    have hfree := free _ rfl
    simp only [createBooking, hfree, if_true]
    split
    · rfl
    · split <;> rfl
  | audit b => rfl
  | commit b => rfl
  | invalidate b => rfl
  | finished r => cases hf

theorem payBooking_enabled {q : PayRequest} {pc : PayPc} (free : ∀ r, (Task.pay q pc).wants = some r → σ.store.Free i r)
    (hf : (Task.pay q pc).isFinished = false) : (payBooking σ i began q x pc).isSome = true := by
  cases pc with
  | lockBooking =>
    simp only [payBooking]
    split <;> rfl
  | awaitBooking =>
    have hfree := free _ rfl
    simp only [payBooking, hfree, if_true]
    split
    · rfl
    · split
      · rfl
      · split
        · rfl
        · split <;> rfl
  | checkPayment b =>
    simp only [payBooking]
    split <;> rfl
  | record b r y =>
    have hfree := free _ rfl
    simp only [payBooking, hfree, if_true]
    split <;> rfl
  | finished r => cases hf
  | _ => rfl

theorem refundBooking_enabled {q : RefundRequest} {pc : RefundPc}
    (free : ∀ r, (Task.refund q pc).wants = some r → σ.store.Free i r) (hf : (Task.refund q pc).isFinished = false) :
    (refundBooking cat σ i began q pc).isSome = true := by
  cases pc with
  | lockBooking =>
    simp only [refundBooking]
    split <;> rfl
  | awaitBooking =>
    have hfree := free _ rfl
    simp only [refundBooking, hfree, if_true]
    split
    · rfl
    · split
      · rfl
      · split <;> rfl
  | checkDeparture b =>
    simp only [refundBooking]
    split
    · rfl
    · split <;> rfl
  | findPayment b =>
    simp only [refundBooking]
    split <;> rfl
  | finished r => cases hf
  | _ => rfl

/-- A session that has not ended and finds free what it wants takes its next statement. -/
theorem statement_enabled (fresh : σ.FreshId x.uuid) (free : ∀ r, s.task.wants = some r → σ.store.Free i r)
    (hf : s.task.isFinished = false) : ∃ e t, s.statement cat σ i x = some (e, t) := by
  obtain ⟨began, t⟩ := s
  cases t with
  | create q pc =>
    have h : (createBooking cat σ i began q x pc).isSome = true := createBooking_enabled fresh free hf
    obtain ⟨⟨e, pc'⟩, h⟩ := Option.isSome_iff_exists.mp h
    exact ⟨e, .create q pc', by simp only [Session.statement, h, Option.map_some]⟩
  | pay q pc =>
    have h : (payBooking σ i began q x pc).isSome = true := payBooking_enabled free hf
    obtain ⟨⟨e, pc'⟩, h⟩ := Option.isSome_iff_exists.mp h
    exact ⟨e, .pay q pc', by simp only [Session.statement, h, Option.map_some]⟩
  | refund q pc =>
    have h : (refundBooking cat σ i began q pc).isSome = true := refundBooking_enabled free hf
    obtain ⟨⟨e, pc'⟩, h⟩ := Option.isSome_iff_exists.mp h
    exact ⟨e, .refund q pc', by simp only [Session.statement, h, Option.map_some]⟩
  | cleanup pc =>
    cases pc with
    | finished r => cases hf
    | _ => exact ⟨_, _, rfl⟩

theorem free_of_statement (h : s.statement cat σ i x = some (e, t)) (hr : s.task.wants = some r) :
    σ.store.Free i r := by
  obtain ⟨began, task⟩ := s
  cases task with
  | create q pc =>
    simp only [Session.statement, Option.map_eq_some_iff, Prod.mk.injEq, Prod.exists] at h
    obtain ⟨e', pc', h, -, -⟩ := h
    cases pc with
    | awaitSeat id =>
      cases hr
      by_contra hfree
      simp only [createBooking, hfree, if_false, reduceCtorEq] at h
    | insertKey b =>
      cases hr
      exact (insertKey_free h).2
    | insertSeat b =>
      cases hr
      exact insertSeat_free h
    | _ => cases hr
  | pay q pc =>
    simp only [Session.statement, Option.map_eq_some_iff, Prod.mk.injEq, Prod.exists] at h
    obtain ⟨e', pc', h, -, -⟩ := h
    cases pc with
    | awaitBooking =>
      cases hr
      by_contra hfree
      simp only [payBooking, hfree, if_false, reduceCtorEq] at h
    | record b y z =>
      cases hr
      by_contra hfree
      simp only [payBooking, hfree, if_false, reduceCtorEq] at h
    | _ => cases hr
  | refund q pc =>
    simp only [Session.statement, Option.map_eq_some_iff, Prod.mk.injEq, Prod.exists] at h
    obtain ⟨e', pc', h, -, -⟩ := h
    cases pc with
    | awaitBooking =>
      cases hr
      by_contra hfree
      simp only [refundBooking, hfree, if_false, reduceCtorEq] at h
    | _ => cases hr
  | cleanup pc => cases hr

/-- A session that has not ended takes its next statement unless it waits for another one. -/
theorem enabled_iff (inv : Inv σ) (hs : σ.sessions[i]? = some s) (hf : s.task.isFinished = false) :
    (∃ x τ, step cat σ (.run i x) = some τ) ↔ ¬∃ j, σ.WaitsFor i j := by
  constructor
  · rintro ⟨x, τ, hstep⟩ ⟨j, s', r, hs', hr, ho, hne⟩
    obtain rfl := Option.some.inj (hs.symm.trans hs')
    cases step_stepped hstep with
    | run hs'' hc m =>
      obtain rfl := Option.some.inj (hs.symm.trans hs'')
      rcases free_of_statement hc hr with hnone | hown
      · cases ho.symm.trans hnone
      · exact hne (Option.some.inj (ho.symm.trans hown))
  · intro hw
    obtain ⟨id, fresh⟩ := inv.exists_freshId
    have free : ∀ r, s.task.wants = some r → σ.store.Free i r := by
      intro r hr
      cases ho : σ.store.owner r with
      | none => exact Or.inl ho
      | some j =>
        by_cases hj : j = i
        · exact Or.inr (hj ▸ ho)
        · exact absurd ⟨j, s, r, hs, hr, ho, hj⟩ hw
    obtain ⟨e, t, hc⟩ := statement_enabled (x := ⟨id, 0, 0⟩) fresh free hf
    exact ⟨_, _, step_run hs hc⟩

theorem Task.owned_of_finished (h : t.isFinished = true) : t.owned = [] := by
  unfold Task.isFinished at h
  split at h
  · rfl
  · rfl
  · rfl
  · rfl
  · cases h

theorem Inv.waited_for (inv : Inv σ) (h : σ.WaitsFor i j) : ∃ s, σ.sessions[j]? = some s ∧
    s.task.isFinished = false := by
  obtain ⟨-, r, -, -, ho, -⟩ := h
  have hown := (inv.own j r).mp ho
  unfold State.owned at hown
  cases hs : σ.sessions[j]? with
  | none =>
    rw [hs] at hown
    cases hown
  | some s =>
    rw [hs] at hown
    refine ⟨s, rfl, Bool.eq_false_iff.mpr fun hf => ?_⟩
    rw [Option.elim_some, Task.owned_of_finished hf] at hown
    cases hown

/-- In no reachable state do sessions wait for each other in a circle: a session waits exactly when it cannot take its
    next statement, and as long as a session has not ended, one that has not ended can take its next one. -/
theorem deadlock_free (hr : Reachable cat σ) :
    (∀ i, ¬Relation.TransGen σ.WaitsFor i i) ∧
      (∀ i s, σ.sessions[i]? = some s → s.task.isFinished = false →
        ((∃ x τ, step cat σ (.run i x) = some τ) ↔ ¬∃ j, σ.WaitsFor i j)) ∧
      ((∃ s ∈ σ.sessions, s.task.isFinished = false) →
        ∃ i s x τ, σ.sessions[i]? = some s ∧ s.task.isFinished = false ∧ step cat σ (.run i x) = some τ) := by
  have inv := inv_of_reachableBy hr
  refine ⟨inv.ranked.acyclic, fun i s hs hf => enabled_iff inv hs hf, ?_⟩
  rintro ⟨s, hs, hf⟩
  obtain ⟨i, hs⟩ := List.mem_iff_getElem?.mp hs
  obtain ⟨j, ⟨s', hs', hf'⟩, hw⟩ := inv.ranked.exists_not_waiting
    (P := fun i => ∃ s, σ.sessions[i]? = some s ∧ s.task.isFinished = false) (fun _ _ _ hw => inv.waited_for hw)
    ⟨s, hs, hf⟩
  obtain ⟨x, τ, hstep⟩ := (enabled_iff inv hs' hf').mpr (not_exists.mpr hw)
  exact ⟨j, s', x, τ, hs', hf', hstep⟩

/-- Four requests share two seats and two booking keys: the last waits for the third, and it for the first. -/
theorem deadlock_free_chain : ∃ σ : State, σ.WaitsFor 3 2 ∧ σ.WaitsFor 2 0 ∧ (∀ i, ¬Relation.TransGen σ.WaitsFor i i) ∧
    ∃ i s x τ, σ.sessions[i]? = some s ∧ s.task.isFinished = false ∧ step sampleCatalog σ (.run i x) = some τ := by
  have hrun : (exec (step sampleCatalog) (.seeded 0) ([.request (.create ⟨1, 20, 40, 50, none⟩),
      .request (.create ⟨1, 20, 41, 50, none⟩), .request (.create ⟨2, 20, 40, 51, none⟩),
      .request (.create ⟨2, 20, 41, 51, none⟩)] ++ runs 0 7 60 ++ runs 1 4 61 ++ runs 2 5 62 ++ runs 3 4 63)).any
      (fun σ : State => decide (σ.WaitsFor 3 2) && decide (σ.WaitsFor 2 0) &&
        decide (∃ s ∈ σ.sessions, s.task.isFinished = false)) = true := by decide
  obtain ⟨σ, hσ, htest⟩ := reachable_of_run hrun
  simp only [Bool.and_eq_true, decide_eq_true_eq] at htest
  obtain ⟨⟨h32, h20⟩, hopen⟩ := htest
  obtain ⟨acyclic, -, progress⟩ := deadlock_free hσ
  exact ⟨σ, h32, h20, acyclic, progress hopen⟩

end

end Railbook
