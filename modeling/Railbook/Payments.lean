import Railbook.Growth

/-! The payments of a booking, its status and its two times. -/

namespace Railbook
open ReadCommitted Transition

/-- The payments for booking `id`. -/
def Db.paymentsOf (d : Db) (id : Uuid) : List Payment := d.payments.filter (·.bookingId = id)

/-- There is exactly one payment for `b`: a success over the whole amount. -/
def PaidOnce (d : Db) (b : Booking) : Prop :=
  ∃ p, d.paymentsOf b.id = [p] ∧ p.status = .success ∧ p.amount = b.totalAmount ∧ p.gatewayRef ≠ none

/-- There is exactly one payment for `b`: a failure over the whole amount. -/
def DeclinedOnce (d : Db) (b : Booking) : Prop :=
  ∃ p, d.paymentsOf b.id = [p] ∧ p.status = .failed ∧ p.amount = b.totalAmount ∧ p.gatewayRef = none

/-- The payments and the times that go with the status of `b`. -/
structure LedgerCoherent (d : Db) (b : Booking) : Prop where
  reserved : b.status = .reserved → d.paymentsOf b.id = [] ∧ b.confirmedAt = none ∧ b.cancelledAt = none
  confirmed : b.status = .confirmed → PaidOnce d b ∧ b.confirmedAt ≠ none ∧ b.cancelledAt = none
  refunded : b.status = .refunded → PaidOnce d b ∧ b.confirmedAt ≠ none ∧ b.cancelledAt ≠ none
  cancelled : b.status = .cancelled →
    (d.paymentsOf b.id = [] ∨ DeclinedOnce d b) ∧ b.confirmedAt = none ∧ b.cancelledAt ≠ none

section
variable {cat : Catalog} {σ τ : State} {b : Booking} {ph : Phase} {d : Db}

theorem PaysFor.success {ps : List Payment} (h : PaysFor b ps (some .success)) :
    ∃ p, ps = [p] ∧ p.status = .success ∧ p.amount = b.totalAmount ∧ p.gatewayRef ≠ none := by
  obtain ⟨p, hps, hst, hamount, href⟩ := h
  exact ⟨p, hps, hst, hamount, Option.isSome_iff_ne_none.mp (href.mpr rfl)⟩

theorem PaysFor.failed {ps : List Payment} (h : PaysFor b ps (some .failed)) :
    ∃ p, ps = [p] ∧ p.status = .failed ∧ p.amount = b.totalAmount ∧ p.gatewayRef = none := by
  obtain ⟨p, hps, hst, hamount, href⟩ := h
  refine ⟨p, hps, hst, hamount, Option.not_isSome_iff_eq_none.mp fun hs => ?_⟩
  cases href.mp hs

theorem phase_of_refunded (h : Conforms (d.ledger b.id) b ph) (hst : b.status = .refunded) : ph = .refunded := by
  have := h.status.symm.trans hst
  cases ph <;> simp [Phase.status] at this ⊢

theorem phase_of_cancelled (h : Conforms (d.ledger b.id) b ph) (hst : b.status = .cancelled) :
    ph = .paymentFailed ∨ ph = .expired := by
  have := h.status.symm.trans hst
  cases ph <;> simp [Phase.status] at this ⊢

/-- The two times that a phase sets. -/
theorem Conforms.times (h : Conforms (d.ledger b.id) b ph) :
    (b.confirmedAt ≠ none ↔ ph.hasConfirmedAt = true) ∧ (b.cancelledAt ≠ none ↔ ph.hasCancelledAt = true) := by
  rw [← h.confirmedAt, ← h.cancelledAt]
  exact ⟨Option.isSome_iff_ne_none.symm, Option.isSome_iff_ne_none.symm⟩

theorem Conforms.ledgerCoherent (h : Conforms (d.ledger b.id) b ph) (hph : ph ∈ Phase.committed) :
    LedgerCoherent d b where
  reserved hst := by
    obtain rfl := phase_of_reserved h hph hst
    exact ⟨h.payments, not_not.mp (mt h.times.1.mp (by decide)), not_not.mp (mt h.times.2.mp (by decide))⟩
  confirmed hst := by
    obtain rfl := phase_of_confirmed h hph hst
    exact ⟨PaysFor.success h.payments, h.times.1.mpr rfl, not_not.mp (mt h.times.2.mp (by decide))⟩
  refunded hst := by
    obtain rfl := phase_of_refunded h hst
    exact ⟨PaysFor.success h.payments, h.times.1.mpr rfl, h.times.2.mpr rfl⟩
  cancelled hst := by
    rcases phase_of_cancelled h hst with rfl | rfl
    · exact ⟨Or.inr (PaysFor.failed h.payments), not_not.mp (mt h.times.1.mp (by decide)), h.times.2.mpr rfl⟩
    · exact ⟨Or.inl h.payments, not_not.mp (mt h.times.1.mp (by decide)), h.times.2.mpr rfl⟩

/-! ### The booking of a payment -/

theorem Inv.paid (h : Inv σ) {p : Payment} (hp : p ∈ σ.db.payments) : ∃ b ∈ σ.db.bookings, b.id = p.bookingId ∧
    ∃ ph ∈ Phase.committed, Conforms (σ.db.ledger p.bookingId) b ph ∧ ph.payment = some p.status := by
  have hmem : p ∈ (σ.db.ledger p.bookingId).payments := mem_ledger_payments.mpr ⟨hp, rfl⟩
  rcases h.settled p.bookingId with he | ⟨b, ph, hph, hc⟩
  · rw [he] at hmem
    cases hmem
  · refine ⟨b, hc.mem_bookings.1, hc.mem_bookings.2, ph, hph, hc, ?_⟩
    have hps := hc.payments
    cases hpay : ph.payment with
    | none =>
      rw [hpay] at hps
      rw [show (σ.db.ledger p.bookingId).payments = [] from hps] at hmem
      cases hmem
    | some st =>
      rw [hpay] at hps
      obtain ⟨p', hps, hst, -, -⟩ := hps
      rw [hps, List.mem_singleton] at hmem
      rw [hmem, hst]

theorem Inv.paid_success (h : Inv σ) {p : Payment} (hp : p ∈ σ.db.payments) (hst : p.status = .success) :
    ∃ b ∈ σ.db.bookings, b.id = p.bookingId ∧ (b.status = .confirmed ∨ b.status = .refunded) ∧
      σ.db.Logged p.bookingId .confirmed := by
  obtain ⟨b, hb, hid, ph, hph, hc, hpay⟩ := h.paid hp
  rw [hst] at hpay
  have hlog : ⟨.confirmed, some .reserved, .confirmed, b.userId⟩ ∈ ph.trail b.userId := by
    cases ph <;> simp [Phase.payment, Phase.trail] at hpay ⊢
  refine ⟨b, hb, hid, ?_, hc.logged hlog⟩
  rw [hc.status]
  cases ph <;> simp [Phase.payment, Phase.status] at hpay ⊢

theorem Inv.paid_failed (h : Inv σ) {p : Payment} (hp : p ∈ σ.db.payments) (hst : p.status = .failed) :
    ∃ b ∈ σ.db.bookings, b.id = p.bookingId ∧ b.status = .cancelled ∧ σ.db.Logged p.bookingId .paymentFailed := by
  obtain ⟨b, hb, hid, ph, hph, hc, hpay⟩ := h.paid hp
  rw [hst] at hpay
  have hphase : ph = .paymentFailed := by cases ph <;> simp [Phase.payment] at hpay ⊢
  subst hphase
  refine ⟨b, hb, hid, hc.status, ?_⟩
  exact hc.logged (x := ⟨.paymentFailed, some .reserved, .cancelled, b.userId⟩) (by simp [Phase.trail])

/-- The payment of a booking is the same row in every later state in which the booking still has one payment. -/
theorem paidOnce_same {c : Booking} (kept : σ.db.Kept τ.db) (hid : c.id = b.id)
    (hb : PaidOnce σ.db b) (hc : PaidOnce τ.db c) : τ.db.paymentsOf c.id = σ.db.paymentsOf b.id := by
  obtain ⟨p, hp, -⟩ := hb
  obtain ⟨p', hp', -⟩ := hc
  have hmem : p ∈ σ.db.paymentsOf b.id := hp ▸ List.mem_singleton_self p
  obtain ⟨hmem, hbid⟩ := List.mem_filter.mp hmem
  have hmem' : p ∈ τ.db.paymentsOf c.id := List.mem_filter.mpr ⟨kept.payments p hmem, by rwa [hid]⟩
  rw [hp', List.mem_singleton] at hmem'
  rw [hp, hp', hmem']

/-- In every reachable state the payments and the times of every booking agree with its status, and a refunded booking
    keeps the payment that confirmed it. -/
theorem ledger_coherence (h : Reachable cat σ) :
    (∀ b ∈ σ.db.bookings, LedgerCoherent σ.db b) ∧
      ∀ acts τ, exec (step cat) σ acts = some τ → ∀ b ∈ σ.db.bookings, ∀ c ∈ τ.db.bookings, c.id = b.id →
        b.status = .confirmed → c.status = .refunded → τ.db.paymentsOf c.id = σ.db.paymentsOf b.id := by
  have coherent : ∀ υ, Reachable cat υ → ∀ b ∈ υ.db.bookings, LedgerCoherent υ.db b := fun υ hυ b hb => by
    obtain ⟨ph, hph, hc⟩ := (inv_of_reachableBy hυ).conforms_of_mem hb
    exact hc.ledgerCoherent hph
  refine ⟨coherent σ h, fun acts τ run b hb c hc hid hst hst' => ?_⟩
  have hτ : Reachable cat τ := reachable_exec h run
  exact paidOnce_same (kept_exec h run) hid ((coherent σ h b hb).confirmed hst).1 ((coherent τ hτ c hc).refunded hst').1

/-- A booking that is paid while another one declines. -/
theorem ledger_coherence_run : ∃ σ : State, (∃ b ∈ σ.db.bookings, b.status = .confirmed ∧ LedgerCoherent σ.db b) ∧
    ∃ b ∈ σ.db.bookings, b.status = .cancelled ∧ LedgerCoherent σ.db b := by
  have hrun : (exec (step sampleCatalog) (.seeded 0) (.request (.create ⟨1, 20, 40, 50, none⟩) :: runs 0 9 60 ++
      .request (.pay ⟨60, 1, 70, none⟩) :: runs 1 9 80 ++ .request (.create ⟨2, 20, 41, 51, none⟩) :: runs 2 9 61 ++
      .updateConfig (some 1) none :: .request (.pay ⟨61, 2, 71, none⟩) :: runs 3 9 81)).any
      (fun σ : State => (σ.db.bookings.any fun b => b.status = .confirmed) &&
        σ.db.bookings.any fun b => b.status = .cancelled) = true := by decide
  obtain ⟨σ, hσ, htest⟩ := reachable_of_run hrun
  obtain ⟨hb, hc⟩ := Bool.and_eq_true_iff.mp htest
  obtain ⟨b, hb, hst⟩ := List.any_eq_true.mp hb
  obtain ⟨c, hc, hst'⟩ := List.any_eq_true.mp hc
  exact ⟨σ, ⟨b, hb, of_decide_eq_true hst, (ledger_coherence hσ).1 b hb⟩,
    c, hc, of_decide_eq_true hst', (ledger_coherence hσ).1 c hc⟩

end

end Railbook
