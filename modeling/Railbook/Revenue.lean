import Railbook.Admin.Service
import Railbook.Inserts
import Railbook.Refunds

/-! The revenue that `get_stats` reports. It is a sum over the successful payments, and a refund leaves the payment as
    it is: the report is the money of the confirmed bookings and of the refunded ones. -/

namespace Railbook
open ReadCommitted Transition Table

/-- The total amounts of the bookings with this status. -/
def Db.amountOf (d : Db) (status : BookingStatus) : Amount :=
  ((d.bookings.filter (·.status = status)).map (·.totalAmount)).sum

/-- The reported revenue is the money of the bookings that are confirmed. -/
def Db.RevenueExact (d : Db) : Prop := (getStats d).totalRevenue = d.amountOf .confirmed

instance (d : Db) : Decidable d.RevenueExact := inferInstanceAs (Decidable (_ = _))

/-- The next statement commits a refund. -/
def Task.commitsRefund : Task → Bool
  | .refund _ (.commit _) => true
  | _ => false

/-- The step commits a refund. -/
def commitsRefund (σ : State) : Act → Bool
  | .run i _ => (σ.sessions[i]?).any (·.task.commitsRefund)
  | _ => false

/-- A price that `create_booking` has worked out is not zero. -/
def CreatePc.Priced : CreatePc → Prop
  | .delete _ price => 0 < price
  | .insertKey b | .insertSeat b => 0 < b.totalAmount
  | _ => True

/-- The booking that the session builds has a price of the list. -/
def Task.Priced : Task → Prop
  | .create _ pc => pc.Priced
  | _ => True

section
variable {cat : Catalog} {σ τ : State} {i : Sid} {s : Session} {t : Task} {e : Effect} {a : Act} {b : Booking}
  {ph : Phase} {d : Db} {acts : List Act}

/-! ### Prices -/

theorem calculatePrice_pos (compType : CompType) : 0 < calculatePrice compType := by
  cases compType <;> decide

theorem Move.priced (m : Move cat σ i s e t) (h : s.task.Priced) : t.Priced := by
  cases m with
  | create m =>
    cases m with
    | priced compType hx => exact calculatePrice_pos compType
    | replace compType => exact calculatePrice_pos compType
    | deleted hp ha => exact h
    | keyed fresh free hk => exact h
    | _ => trivial
  | _ => trivial

theorem priced_of_reachable (h : Reachable cat σ) : ∀ (i : Sid) s, σ.sessions[i]? = some s → s.task.Priced := by
  refine sessions_of_reachable (P := fun _ _ s => s.task.Priced) h ?_ ?_ ?_ ?_
  · intro σ i r _ _
    cases r <;> trivial
  · intro σ i s e t _ _ hp m
    exact m.priced hp
  · intro σ i j s s' e t _ _ _ _ _ hp
    exact hp
  · intro σ τ i s hp _ _ _
    exact hp

theorem amounts_of_reachable (hr : Reachable cat σ) : σ.AllBookings fun b => 0 < b.totalAmount := by
  refine hr.invariant (I := fun σ : State => σ.AllBookings fun b => 0 < b.totalAmount) ?_ ?_
  · rintro σ ⟨now, rfl⟩
    exact allBookings_seeded now
  · intro σ a τ hr h _ hstep
    refine h.step ?_ ?_ hstep
    · intro b b' hf hb
      exact Booking.totalAmount_of_fixed hf ▸ hb
    · intro b hb
      obtain ⟨i, began, q, hs, -⟩ := inserted_of_mem hr hb
      exact priced_of_reachable hr i _ hs

/-! ### The successful payments, booking by booking -/

/-- The successful payments of a committed booking are over its amount if it is confirmed or refunded, and there are
    none otherwise. -/
theorem Conforms.successes (h : Conforms (d.ledger b.id) b ph) (hph : ph ∈ Phase.committed) :
    (((d.payments.filter (·.status = .success)).filter (·.bookingId == b.id)).map (·.amount)).sum =
      (if b.status = .confirmed then b.totalAmount else 0) + if b.status = .refunded then b.totalAmount else 0 := by
  have hpay : (d.payments.filter (·.status = .success)).filter (·.bookingId == b.id) =
      (d.ledger b.id).payments.filter (·.status = .success) := by
    rw [Db.ledger, List.filter_filter, List.filter_filter]
    exact List.filter_congr fun p _ => by rw [Bool.and_comm]; rfl
  have hps := h.payments
  rw [hpay, h.status]
  cases ph <;> simp [Phase.committed] at hph
  case reserved => rw [show (d.ledger b.id).payments = [] from hps]; rfl
  case expired => rw [show (d.ledger b.id).payments = [] from hps]; rfl
  case confirmed =>
    obtain ⟨p, hp, hst, ham, -⟩ := hps
    simp [hp, hst, ham, Phase.status]
  case refunded =>
    obtain ⟨p, hp, hst, ham, -⟩ := hps
    simp [hp, hst, ham, Phase.status]
  case paymentFailed =>
    obtain ⟨p, hp, hst, ham, -⟩ := hps
    simp [hp, hst, Phase.status]

theorem sum_ite_eq_amountOf (l : List Booking) (status : BookingStatus) :
    (l.map fun b => if b.status = status then b.totalAmount else 0).sum =
      ((l.filter (·.status = status)).map (·.totalAmount)).sum := by
  induction l with
  | nil => rfl
  | cons b l ih =>
    rw [List.map_cons, List.sum_cons, ih, List.filter_cons]
    by_cases h : b.status = status <;> simp [h]

theorem Inv.countP_bookings (inv : Inv σ) {p : Payment} (hp : p ∈ σ.db.payments) :
    (σ.db.bookings.countP fun b => p.bookingId == b.id) = 1 := by
  obtain ⟨b, hb, hid⟩ : ∃ b ∈ σ.db.bookings, b.id = p.bookingId := by
    have hmem : p ∈ (σ.db.ledger p.bookingId).payments := mem_ledger_payments.mpr ⟨hp, rfl⟩
    rcases inv.settled p.bookingId with he | ⟨b, ph, -, hc⟩
    · rw [he] at hmem
      cases hmem
    · exact ⟨b, hc.mem_bookings⟩
  have hle : (σ.db.bookings.filter fun b => p.bookingId == b.id).length ≤ 1 :=
    length_filter_le_one inv.ids_nodup fun b _ h => (beq_iff_eq.mp h).symm
  have hpos : 0 < σ.db.bookings.countP fun b => p.bookingId == b.id :=
    List.countP_pos_iff.mpr ⟨b, hb, beq_iff_eq.mpr hid.symm⟩
  rw [← List.countP_eq_length_filter] at hle
  omega

/-- The reported revenue is the money of the confirmed bookings and of the refunded ones. -/
theorem Inv.totalRevenue_eq (inv : Inv σ) :
    (getStats σ.db).totalRevenue = σ.db.amountOf .confirmed + σ.db.amountOf .refunded := by
  have hfibers : (σ.db.bookings.map fun b => (((σ.db.payments.filter (·.status = .success)).filter
      (·.bookingId == b.id)).map (·.amount)).sum).sum =
        ((σ.db.payments.filter (·.status = .success)).map (·.amount)).sum :=
    sum_fibers fun p hp => inv.countP_bookings (List.mem_of_mem_filter hp)
  have hsum : (σ.db.bookings.map fun b => (((σ.db.payments.filter (·.status = .success)).filter
      (·.bookingId == b.id)).map (·.amount)).sum).sum = (σ.db.bookings.map fun b =>
        (if b.status = .confirmed then b.totalAmount else 0) + if b.status = .refunded then b.totalAmount
        else 0).sum := by
    refine congrArg List.sum (List.map_congr_left fun b hb => ?_)
    obtain ⟨ph, hph, hc⟩ := inv.conforms_of_mem hb
    exact hc.successes hph
  rw [getStats, ← hfibers, hsum, List.sum_map_add, sum_ite_eq_amountOf, sum_ite_eq_amountOf, Db.amountOf, Db.amountOf]

theorem amountOf_eq_zero_iff {status : BookingStatus} (hpos : ∀ b ∈ d.bookings, 0 < b.totalAmount) :
    d.amountOf status = 0 ↔ ∀ b ∈ d.bookings, b.status ≠ status := by
  rw [Db.amountOf, List.sum_eq_zero_iff_forall_eq_nat]
  constructor
  · intro h b hb hst
    have hmem : b ∈ d.bookings.filter (·.status = status) := List.mem_filter.mpr ⟨hb, decide_eq_true hst⟩
    exact Nat.ne_of_gt (hpos b hb) (h _ (List.mem_map_of_mem hmem))
  · intro h n hn
    obtain ⟨b, hb, -⟩ := List.mem_map.mp hn
    obtain ⟨hb, hst⟩ := List.mem_filter.mp hb
    exact absurd (of_decide_eq_true hst) (h b hb)

/-- In a reachable state the report is exact when no booking is refunded, and only then. -/
theorem revenueExact_iff (hr : Reachable cat σ) : σ.db.RevenueExact ↔ ∀ b ∈ σ.db.bookings, b.status ≠ .refunded := by
  rw [← amountOf_eq_zero_iff (amounts_of_reachable hr).stored, Db.RevenueExact, (inv_of_reachableBy hr).totalRevenue_eq]
  exact Nat.add_eq_left

/-! ### Refunds in a run -/

theorem refunded_origin (hr : Reachable cat σ) (hstep : step cat σ a = some τ) (h : commitsRefund σ a = false)
    (hb : b ∈ τ.db.bookings) (hst : b.status = .refunded) : ∃ b' ∈ σ.db.bookings, b'.status = .refunded := by
  have inv := inv_of_reachableBy hr
  have hlogged : τ.db.Logged b.id .refunded := ((inv.step hstep).refunded_iff hb).mp hst
  have old : σ.db.Logged b.id .refunded → ∃ b' ∈ σ.db.bookings, b'.status = .refunded := fun hl => by
    obtain ⟨b', hb', -, hst'⟩ := inv.refunded_of_logged hl
    exact ⟨b', hb', hst'⟩
  have moved : ∀ {i s e t}, σ.sessions[i]? = some s → Move cat σ i s e t → (σ.perform i e).db.Logged b.id .refunded →
      (∃ b' ∈ σ.db.bookings, b'.status = .refunded) ∨ e = .commit ∧ s.task.commitsRefund = true := by
    intro i s e t hs m hl
    rcases perform_db σ i e with he | ⟨rfl, he⟩ <;> rw [he] at hl
    · exact Or.inl (old hl)
    · rcases m.refund_of_logged inv hs hl with hold | ⟨began, q, b', rfl, -⟩
      · exact Or.inl (old hold)
      · exact Or.inr ⟨rfl, rfl⟩
  cases step_stepped hstep with
  | request r => exact ⟨b, hb, hst⟩
  | @run i x s e t hs hc m =>
    rcases moved hs m hlogged with hold | ⟨-, hcommit⟩
    · exact hold
    · rw [commitsRefund, hs, Option.any_some, hcommit] at h
      cases h
  | raise hs hraise m =>
    rcases moved hs m hlogged with hold | ⟨he, -⟩
    · exact hold
    · cases he
  | tick d => exact ⟨b, hb, hst⟩
  | updateConfig failureRate latencyMs => exact ⟨b, hb, hst⟩

theorem Task.eq_of_commitsRefund (h : t.commitsRefund = true) : ∃ q b, t = .refund q (.commit b) := by
  cases t with
  | refund q pc =>
    cases pc with
    | commit b => exact ⟨q, b, rfl⟩
    | _ => cases h
  | _ => cases h

/-- After the commit of a refund a booking is refunded, at the end of every run. -/
theorem refunded_of_commitsRefund (hr : Reachable cat σ) (h : commitsRefund σ a = true)
    (run : exec (step cat) σ (a :: acts) = some τ) :
    ∃ b ∈ τ.db.bookings, b.status = .refunded := by
  cases a with
  | run i x =>
    obtain ⟨⟨began, t⟩, hs, htask⟩ := (Option.any_eq_true _ _).mp h
    obtain ⟨q, b, rfl⟩ := Task.eq_of_commitsRefund htask
    obtain ⟨υ, hstep, b', hb', hid, hst⟩ : ∃ υ, exec (step cat) σ (List.replicate 1 (.run i x)) = some υ ∧
      ∃ b' ∈ υ.db.bookings, b'.id = b.id ∧ b'.status = .refunded := refunded_of_commit (inv_of_reachableBy hr) hs x
    rw [List.replicate_one, exec_cons] at hstep
    rw [exec_cons] at run
    obtain ⟨υ', hυ', hnil⟩ := Option.bind_eq_some_iff.mp hstep
    obtain rfl := Option.some.inj hnil
    rw [hυ', Option.bind_some] at run
    have hrυ : Reachable cat υ' := hr.next trivial hυ'
    have hl : τ.db.Logged b.id .refunded :=
      (kept_exec hrυ run).logged (hid ▸ ((inv_of_reachableBy hrυ).refunded_iff hb').mp hst)
    obtain ⟨b₂, hb₂, -, hst₂⟩ := (inv_of_reachableBy (reachable_exec hrυ run)).refunded_of_logged hl
    exact ⟨b₂, hb₂, hst₂⟩
  | _ => cases h

/-- In a reachable state the reported revenue is the money of the confirmed bookings exactly when no booking is
    refunded, so at the end of a run exactly when no step of it commits a refund. -/
theorem revenue_iff (cat : Catalog) :
    (∀ σ, Reachable cat σ → (σ.db.RevenueExact ↔ ∀ b ∈ σ.db.bookings, b.status ≠ .refunded)) ∧
      ∀ now acts τ, exec (step cat) (.seeded now) acts = some τ →
        (τ.db.RevenueExact ↔ Along (step cat) (fun σ a => commitsRefund σ a = false) (.seeded now) acts) := by
  refine ⟨fun σ hr => revenueExact_iff hr, fun now acts τ run => ?_⟩
  have hτ : Reachable cat τ := reachable_exec (.start ⟨now, rfl⟩) run
  rw [revenueExact_iff hτ]
  constructor
  · intro hnone
    by_contra hnot
    obtain ⟨pre, a, post, υ, υ', -, hpre, ha, hstep, hpost⟩ := exists_step_of_not_along run hnot
    have hrun : exec (step cat) υ (a :: post) = some τ := by
      rw [exec_cons, hstep, Option.bind_some, hpost]
    obtain ⟨b, hb, hst⟩ := refunded_of_commitsRefund (reachable_exec (.start ⟨now, rfl⟩) hpre)
      (Bool.eq_true_of_not_eq_false ha) hrun
    exact hnone b hb hst
  · intro along
    refine (exec_invariant (I := fun υ : State => Reachable cat υ ∧ ∀ b ∈ υ.db.bookings, b.status ≠ .refunded)
      (fun υ a υ' h ha hstep => ?_) ⟨.start ⟨now, rfl⟩, fun b hb => by cases hb⟩ along run).2
    refine ⟨h.1.next trivial hstep, fun b hb hst => ?_⟩
    obtain ⟨b', hb', hst'⟩ := refunded_origin h.1 hstep ha hb hst
    exact h.2 b' hb' hst'

/-- A run that books and pays. -/
theorem revenue_paid : ∃ τ, Reachable sampleCatalog τ ∧ τ.db.amountOf .confirmed = 150000 ∧
    (τ.db.RevenueExact ↔ ∀ b ∈ τ.db.bookings, b.status ≠ .refunded) ∧ τ.db.RevenueExact := by
  have hrun : (exec (step sampleCatalog) (.seeded 0) (.request (.create ⟨1, 20, 40, 50, none⟩) :: runs 0 9 60 ++
      .request (.pay ⟨60, 1, 70, none⟩) :: runs 1 9 80)).any (fun τ : State => τ.db.amountOf .confirmed = 150000) =
        true := by
    decide
  have along : Along (step sampleCatalog) (fun σ a => commitsRefund σ a = false) (.seeded 0)
      (.request (.create ⟨1, 20, 40, 50, none⟩) :: runs 0 9 60 ++ .request (.pay ⟨60, 1, 70, none⟩) ::
        runs 1 9 80) := by
    decide
  obtain ⟨τ, hτ, hamount⟩ := (Option.any_eq_true _ _).mp hrun
  have hr : Reachable sampleCatalog τ := reachable_exec (.start ⟨0, rfl⟩) hτ
  exact ⟨τ, hr, of_decide_eq_true hamount, (revenue_iff sampleCatalog).1 τ hr,
    ((revenue_iff sampleCatalog).2 0 _ τ hτ).mpr along⟩

/-- A refunded booking is still revenue: it was paid with 1500, and no booking is confirmed. -/
theorem refund_still_revenue : ¬∀ (cat : Catalog) (σ : State), Reachable cat σ → σ.AllFinished → σ.db.RevenueExact := by
  intro h
  have hrun : (exec (step sampleCatalog) (.seeded 0) (.request (.create ⟨1, 20, 40, 50, none⟩) :: runs 0 9 60 ++
      .request (.pay ⟨60, 1, 70, none⟩) :: runs 1 9 80 ++ .request (.refund ⟨60, 1, none⟩) :: runs 2 9 90)).any
      (fun σ : State => decide ((∀ s ∈ σ.sessions, s.task.isFinished = true) ∧ (getStats σ.db).totalRevenue = 150000 ∧
        σ.db.amountOf .confirmed = 0)) = true := by
    decide
  obtain ⟨σ, hσ, htest⟩ := reachable_of_run hrun
  obtain ⟨hfin, hrev, hamount⟩ := of_decide_eq_true htest
  have hexact : (getStats σ.db).totalRevenue = σ.db.amountOf .confirmed := h sampleCatalog σ hσ hfin
  rw [hrev, hamount] at hexact
  cases hexact

end

end Railbook
