import Railbook.Payments
import Railbook.Charges
import Railbook.Admin.Service

/-! `PUT /demo/config` (`app/demo/router.py`): what the service does under a failure rate that nobody changes. At 0 or
    below the gateway declines no payment, at 1 or above it accepts none. -/

namespace Railbook
open ReadCommitted Transition

/-- The failure rate that `update_config` stores for `r`. -/
def storedRate (r : ℚ) : ℚ := max 0 (min 1 r)

/-- `random.random()` gives a number from 0 up to 1, and an update of the failure rate leaves it at that of `r`. -/
def Pinned (r : ℚ) (_ : State) : Act → Prop
  | .run _ c => 0 ≤ c.random ∧ c.random < 1
  | .updateConfig (some x) _ => storedRate x = storedRate r
  | _ => True

instance (r : ℚ) (σ : State) : (a : Act) → Decidable (Pinned r σ a)
  | .run _ _ => inferInstanceAs (Decidable (_ ∧ _))
  | .updateConfig (some _) _ => inferInstanceAs (Decidable (_ = _))
  | .updateConfig none _ | .request _ | .raise _ | .tick _ => isTrue trivial

/-- The rate is that of `r`, and every charge that was executed has the outcome `st`. -/
structure MockPaymentGateway.Decides (gw : MockPaymentGateway) (r : ℚ) (st : PaymentStatus) : Prop where
  rate : gw.failureRate = storedRate r
  processed : ∀ e ∈ gw.processed, e.2.status = st

section
variable {cat : Catalog} {σ τ : State} {i : Sid} {s : Session} {t : Task} {e : Effect} {c : Choice} {r : ℚ}
  {st : PaymentStatus} {gw : MockPaymentGateway}

theorem storedRate_of_nonpos (h : r ≤ 0) : storedRate r = 0 :=
  max_eq_left ((min_le_right 1 r).trans h)

theorem storedRate_of_one_le (h : 1 ≤ r) : storedRate r = 1 := by
  rw [storedRate, min_eq_left h]
  exact max_eq_right zero_le_one

/-- A rate that is stored decides every draw. -/
theorem draw_status (hrate : gw.failureRate = storedRate r) (hlow : 0 ≤ c.random) (hhigh : c.random < 1) :
    (r ≤ 0 → (gw.draw c).status = .success) ∧ (1 ≤ r → (gw.draw c).status = .failed) := by
  constructor
  · intro h
    rw [storedRate_of_nonpos h] at hrate
    rw [MockPaymentGateway.draw, hrate, if_neg (not_lt.mpr hlow)]
  · intro h
    rw [storedRate_of_one_le h] at hrate
    rw [MockPaymentGateway.draw, hrate, if_pos hhigh]

theorem MockPaymentGateway.Decides.charge {amount : Amount} {key : Uuid} (h : gw.Decides r st)
    (hdraw : (gw.draw c).status = st) : (gw.charge amount key c).2.Decides r st := by
  cases hl : gw.processed.lookup key with
  | some x =>
    rw [charge_cached hl]
    exact h
  | none =>
    rw [charge_fresh hl]
    exact ⟨h.rate, List.forall_mem_cons.mpr ⟨hdraw, h.processed⟩⟩

/-- A statement changes the gateway only by a charge. -/
theorem gateway_of_statement (hs : s.statement cat σ i c = some (e, t)) (m : Move cat σ i s e t) :
    (σ.perform i e).gateway = σ.gateway ∨ ∃ amount key, (σ.perform i e).gateway =
      (σ.gateway.charge amount key c).2 := by
  cases m with
  | create m => cases m <;> exact Or.inl rfl
  | pay m =>
    cases m with
    | @answered b x =>
      simp only [Session.statement, payBooking, Option.map_some, Option.some.injEq, Prod.mk.injEq,
        Effect.answer.injEq] at hs
      exact Or.inr ⟨_, _, hs.1.2.symm⟩
    | _ => exact Or.inl rfl
  | refund m => cases m <;> exact Or.inl rfl
  | cleanup m => cases m <;> exact Or.inl rfl

theorem MockPaymentGateway.Decides.step {a : Act} (h : σ.gateway.Decides r st)
    (hdecides : ∀ gw : MockPaymentGateway, ∀ c : Choice,
    gw.failureRate = storedRate r → 0 ≤ c.random → c.random < 1 → (gw.draw c).status = st) (pinned : Pinned r σ a)
    (hstep : step cat σ a = some τ) : τ.gateway.Decides r st := by
  cases step_stepped hstep with
  | request q => exact h
  | @run i x s e t hs hc m =>
    rw [goto_gateway]
    rcases gateway_of_statement hc m with hgw | ⟨amount, key, hgw⟩ <;> rw [hgw]
    · exact h
    · exact h.charge (hdecides _ _ h.rate pinned.1 pinned.2)
  | raise hs hraise m => exact h
  | tick d => exact h
  | updateConfig failureRate latencyMs =>
    refine ⟨?_, h.processed⟩
    cases failureRate with
    | none => exact h.rate
    | some x => exact pinned

/-- All payments have the outcome that the rate decides. -/
theorem payments_of_pinned {now : Time} {latencyMs : Option Int} {acts : List Act}
    (pinned : Along (step cat) (Pinned r) (.seeded now) (.updateConfig (some r) latencyMs :: acts))
    (run : exec (step cat) (.seeded now) (.updateConfig (some r) latencyMs :: acts) = some σ)
    (hdecides : ∀ gw : MockPaymentGateway, ∀ c : Choice,
      gw.failureRate = storedRate r → 0 ≤ c.random → c.random < 1 → (gw.draw c).status = st) :
    ∀ p ∈ σ.db.payments, p.status = st := by
  have hr : Reachable cat σ := reachable_exec (.start ⟨now, rfl⟩) run
  obtain ⟨υ, hυ, run⟩ := Option.bind_eq_some_iff.mp run
  have hgw : σ.gateway.Decides r st := by
    refine exec_invariant (P := Pinned r) (I := fun σ : State => σ.gateway.Decides r st)
      (fun _ _ _ h hp hstep => h.step hdecides hp hstep) ?_ ((along_cons hυ).mp pinned).2 run
    cases hυ
    exact ⟨rfl, fun e he => by cases he⟩
  intro p hp
  obtain ⟨a, ha, hrec⟩ := (traced_of_reachable hr).committed p hp
  have hcached := (gatewayLog_of_reachable hr).cached a ha
  rw [hrec.status]
  exact hgw.processed _ (MockPaymentGateway.lookup_mem hcached)

/-- After a `PUT /demo/config` that is not followed by one with another rate: under a rate of 0 or less every payment
    is a success, so that a booking is only cancelled when it has expired, unpaid; under a rate of 1 or more every
    payment is a failure, and no booking is ever confirmed. -/
theorem config_decides {now : Time} {latencyMs : Option Int} {acts : List Act}
    (pinned : Along (step cat) (Pinned r) (.seeded now) (.updateConfig (some r) latencyMs :: acts))
    (run : exec (step cat) (.seeded now) (.updateConfig (some r) latencyMs :: acts) = some σ) :
    (r ≤ 0 → (∀ p ∈ σ.db.payments, p.status = .success) ∧
      ∀ b ∈ σ.db.bookings, b.status = .cancelled → σ.db.Logged b.id .expiredCleanup ∧ σ.db.paymentsOf b.id = []) ∧
    (1 ≤ r → (∀ p ∈ σ.db.payments, p.status = .failed) ∧ (getStats σ.db).totalRevenue = 0 ∧
      ∀ b ∈ σ.db.bookings, b.status = .reserved ∨ b.status = .cancelled) := by
  have inv : Inv σ := inv_of_reachableBy (reachable_exec (.start ⟨now, rfl⟩) run)
  constructor
  · intro h
    have success := payments_of_pinned pinned run fun gw c hrate hlow hhigh => (draw_status hrate hlow hhigh).1 h
    refine ⟨success, fun b hb hst => ?_⟩
    obtain ⟨ph, hph, hconf⟩ := inv.conforms_of_mem hb
    rcases phase_of_cancelled hconf hst with rfl | rfl
    · obtain ⟨p, hps, hfailed, -⟩ := hconf.payments
      obtain ⟨hp, -⟩ := mem_ledger_payments.mp (hps ▸ List.mem_singleton_self p)
      rw [success p hp] at hfailed
      cases hfailed
    · exact ⟨hconf.logged (List.mem_cons_of_mem _ (List.mem_singleton_self _)), hconf.payments⟩
  · intro h
    have failed := payments_of_pinned pinned run fun gw c hrate hlow hhigh => (draw_status hrate hlow hhigh).2 h
    have hnone : σ.db.payments.filter (·.status = .success) = [] :=
      List.filter_eq_nil_iff.mpr fun p hp => by rw [failed p hp]; decide
    refine ⟨failed, by simp only [getStats, hnone, List.map_nil, List.sum_nil], fun b hb => ?_⟩
    obtain ⟨ph, hph, hconf⟩ := inv.conforms_of_mem hb
    have hunpaid : ph.payment ≠ some .success := fun hpaid => by
      have hpays := hconf.payments
      rw [hpaid] at hpays
      obtain ⟨p, hps, hsuccess, -⟩ := hpays
      obtain ⟨hp, -⟩ := mem_ledger_payments.mp (hps ▸ List.mem_singleton_self p)
      rw [failed p hp] at hsuccess
      cases hsuccess
    rw [hconf.status]
    cases ph <;> simp [Phase.status, Phase.payment] at hunpaid ⊢

/-- The rate is 0 while one booking is paid and another expires. -/
def acceptingRun : List Act :=
  [.request (.create ⟨1, 20, 40, 50, none⟩), .request (.create ⟨2, 20, 41, 51, none⟩)] ++ runs 0 9 60 ++ runs 1 9 61 ++
    .request (.pay ⟨60, 1, 70, none⟩) :: runs 2 9 80 ++ [.tick 600000000, .request .cleanup] ++ runs 3 3 90

theorem config_decides_accepting : ∃ σ : State, (∃ b ∈ σ.db.bookings, b.id = 61 ∧ b.status = .cancelled ∧
    σ.db.Logged b.id .expiredCleanup) ∧ ∀ p ∈ σ.db.payments, p.status = .success := by
  have pinned : Along (step sampleCatalog) (Pinned 0) (.seeded 0) (.updateConfig (some 0) none :: acceptingRun) := by
    decide
  have hrun : (exec (step sampleCatalog) (.seeded 0) (.updateConfig (some 0) none :: acceptingRun)).any
    (fun σ : State =>
      decide (∃ b ∈ σ.db.bookings, b.id = 61 ∧ b.status = .cancelled)) = true := by decide
  obtain ⟨σ, run, htest⟩ := (Option.any_eq_true _ _).mp hrun
  obtain ⟨b, hb, hid, hst⟩ := of_decide_eq_true htest
  obtain ⟨success, expired⟩ := (config_decides pinned run).1 le_rfl
  exact ⟨σ, ⟨b, hb, hid, hst, (expired b hb hst).1⟩, success⟩

end

end Railbook
