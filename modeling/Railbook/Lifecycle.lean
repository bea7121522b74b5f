import Railbook.Database

/-! The life of a booking: the phases it goes through, and what its ledger holds in each of them. A phase fixes the
    status, which of the two times are set, the payment and the whole audit trail. `inserted` and `attempted` occur
    only inside a transaction. -/

namespace Railbook
open ReadCommitted

/-- The phases of the life of a booking, those of a transaction that has not committed included. -/
inductive Phase where
  | inserted | reserved | attempted | confirmed | paymentFailed | refunded | expired
  deriving DecidableEq, Repr

/-- What an audit entry says about the state machine. -/
structure Entry where
  action : AuditAction
  previousStatus : Option BookingStatus
  newStatus : BookingStatus
  userId : Uuid
  deriving DecidableEq, Repr

/-- What an audit entry tells of a step of the booking. -/
def AuditTrail.entry (a : AuditTrail) : Entry := ⟨a.action, a.previousStatus, a.newStatus, a.userId⟩

namespace Phase

/-- The status of a booking in the phase. -/
def status : Phase → BookingStatus
  | inserted | reserved | attempted => .reserved
  | confirmed => .confirmed
  | paymentFailed | expired => .cancelled
  | refunded => .refunded

/-- `confirmed_at` is set. -/
def hasConfirmedAt : Phase → Bool
  | confirmed | refunded => true
  | _ => false

/-- `cancelled_at` is set. -/
def hasCancelledAt : Phase → Bool
  | paymentFailed | refunded | expired => true
  | _ => false

/-- The status of the one payment, if there is one. -/
def payment : Phase → Option PaymentStatus
  | confirmed | refunded => some .success
  | paymentFailed => some .failed
  | _ => none

/-- The audit trail of a booking of `owner` in the phase. -/
def trail (owner : Uuid) : Phase → List Entry
  | inserted => []
  | reserved => [⟨.reserved, none, .reserved, owner⟩]
  | attempted => [⟨.reserved, none, .reserved, owner⟩, ⟨.paymentAttempted, some .reserved, .reserved, owner⟩]
  | confirmed =>
    [⟨.reserved, none, .reserved, owner⟩, ⟨.paymentAttempted, some .reserved, .reserved, owner⟩,
     ⟨.confirmed, some .reserved, .confirmed, owner⟩]
  | paymentFailed =>
    [⟨.reserved, none, .reserved, owner⟩, ⟨.paymentAttempted, some .reserved, .reserved, owner⟩,
     ⟨.paymentFailed, some .reserved, .cancelled, owner⟩]
  | refunded =>
    [⟨.reserved, none, .reserved, owner⟩, ⟨.paymentAttempted, some .reserved, .reserved, owner⟩,
     ⟨.confirmed, some .reserved, .confirmed, owner⟩, ⟨.refunded, some .confirmed, .refunded, owner⟩]
  | expired => [⟨.reserved, none, .reserved, owner⟩, ⟨.expiredCleanup, some .reserved, .cancelled, systemUserId⟩]

/-- The phases in which a transaction may commit. -/
def committed : List Phase := [reserved, confirmed, paymentFailed, refunded, expired]

/-- The phases of a booking whose seat is free again. -/
def released : List Phase := [paymentFailed, refunded, expired]

end Phase

/-- The payments of a booking: none, or exactly one of the given status over the whole amount. -/
def PaysFor (b : Booking) (ps : List Payment) : Option PaymentStatus → Prop
  | none => ps = []
  | some st => ∃ p, ps = [p] ∧ p.status = st ∧ p.amount = b.totalAmount ∧ (p.gatewayRef.isSome = true ↔ st = .success)

/-- The ledger is that of booking `b` in phase `ph`. -/
structure Conforms (l : Ledger) (b : Booking) (ph : Phase) : Prop where
  row : l.bookings = [b]
  status : b.status = ph.status
  confirmedAt : b.confirmedAt.isSome = ph.hasConfirmedAt
  cancelledAt : b.cancelledAt.isSome = ph.hasCancelledAt
  payments : PaysFor b l.payments ph.payment
  trail : l.auditTrail.map AuditTrail.entry = ph.trail b.userId
  sorted : (l.auditTrail.map (·.id)).Pairwise (· < ·)

/-- A committed ledger: empty, or that of a booking in a phase that commits. -/
def Ledger.Settled (l : Ledger) : Prop := l = .empty ∨ ∃ b, ∃ ph ∈ Phase.committed, Conforms l b ph

section
variable {l : Ledger} {b b' : Booking} {ph ph' : Phase} {d : Db} {id : Uuid}

theorem Conforms.row_unique (h : Conforms l b ph) (h' : Conforms l b' ph') : b = b' := by
  have := h.row.symm.trans h'.row
  exact List.singleton_inj.mp this

/-- The audit trail tells the phase. -/
theorem Conforms.phase_unique (h : Conforms l b ph) (h' : Conforms l b' ph') : ph = ph' := by
  have ht := h.trail.symm.trans h'.trail
  rw [h.row_unique h'] at ht
  cases ph <;> cases ph' <;> simp [Phase.trail] at ht ⊢

theorem Conforms.trail_ne_nil (h : Conforms l b ph) (hph : ph ≠ .inserted) : l.auditTrail ≠ [] := by
  intro hnil
  have := h.trail
  rw [hnil] at this
  cases ph <;> simp [Phase.trail] at this hph

theorem Ledger.Settled.of_row (h : l.Settled) (hb : b ∈ l.bookings) : ∃ ph ∈ Phase.committed, Conforms l b ph := by
  rcases h with rfl | ⟨b', ph, hph, hc⟩
  · cases hb
  · rw [hc.row, List.mem_singleton] at hb
    exact ⟨ph, hph, hb ▸ hc⟩

theorem Ledger.Settled.eq_empty (h : l.Settled) (hb : l.bookings = []) : l = .empty := by
  rcases h with rfl | ⟨b', ph, hph, hc⟩
  · rfl
  · rw [hc.row] at hb
    cases hb

/-! ### Transitions -/

theorem PaysFor.congr {ps : List Payment} {st : Option PaymentStatus} (h : PaysFor b ps st)
    (ht : b'.totalAmount = b.totalAmount) : PaysFor b' ps st := by
  cases st with
  | none => exact h
  | some st =>
    obtain ⟨p, hps, hst, ham, href⟩ := h
    exact ⟨p, hps, hst, ham.trans ht.symm, href⟩

theorem sorted_append {as : List AuditTrail} {a : AuditTrail} (h : (as.map (·.id)).Pairwise (· < ·))
    (hid : ∀ e ∈ as, e.id < a.id) : ((as ++ [a]).map (·.id)).Pairwise (· < ·) := by
  rw [List.map_append, List.pairwise_append]
  refine ⟨h, by simp, fun x hx y hy => ?_⟩
  obtain ⟨e, he, rfl⟩ := List.mem_map.mp hx
  rw [List.map_singleton, List.mem_singleton] at hy
  exact hy ▸ hid e he

/-- A transition that updates the row, replaces the payments and appends one audit entry with the next id. -/
theorem Conforms.advance (h : Conforms l b ph) {st : BookingStatus} {c x : Option Time} {ps : List Payment}
    {a : AuditTrail} (hst : st = ph'.status) (hc : (c.or b.confirmedAt).isSome = ph'.hasConfirmedAt)
    (hx : (x.or b.cancelledAt).isSome = ph'.hasCancelledAt) (hps : PaysFor b ps ph'.payment)
    (ha : ph'.trail b.userId = ph.trail b.userId ++ [a.entry]) (hid : ∀ e ∈ l.auditTrail, e.id < a.id) :
    Conforms ⟨[b.update st c x], ps, l.auditTrail ++ [a]⟩ (b.update st c x) ph' where
  row := rfl
  status := hst
  confirmedAt := hc
  cancelledAt := hx
  payments := hps.congr rfl
  trail := by
    rw [List.map_append, h.trail]
    exact ha.symm
  sorted := sorted_append h.sorted hid

theorem Conforms.log (h : Conforms l b ph) {a : AuditTrail} (hst : ph'.status = ph.status)
    (hc : ph'.hasConfirmedAt = ph.hasConfirmedAt) (hx : ph'.hasCancelledAt = ph.hasCancelledAt)
    (hps : ph'.payment = ph.payment) (ha : ph'.trail b.userId = ph.trail b.userId ++ [a.entry])
    (hid : ∀ e ∈ l.auditTrail, e.id < a.id) : Conforms { l with auditTrail := l.auditTrail ++ [a] } b ph' where
  row := h.row
  status := h.status.trans hst.symm
  confirmedAt := h.confirmedAt.trans hc.symm
  cancelledAt := h.cancelledAt.trans hx.symm
  payments := hps ▸ h.payments
  trail := by
    rw [List.map_append, h.trail]
    exact ha.symm
  sorted := sorted_append h.sorted hid

/-! ### The ledger after a write -/

@[simp] theorem ledger_insertBooking : (Write.apply (.insertBooking b) d).ledger b.id =
    { d.ledger b.id with bookings := (d.ledger b.id).bookings ++ [b] } := by
  simp [Db.ledger, Write.apply]

@[simp] theorem ledger_setBooking {st : BookingStatus} {c x : Option Time} :
    (Write.apply (.setBooking id st c x) d).ledger id =
      { d.ledger id with bookings := (d.ledger id).bookings.map fun b => b.update st c x } := by
  simp only [Db.ledger, Write.apply, Ledger.mk.injEq, and_true]
  rw [filter_update fun _ => rfl]
  refine List.map_congr_left fun b hb => if_pos ?_
  simpa using (List.mem_filter.mp hb).2

theorem ledger_insertPayment {p : Payment} (h : p.bookingId = id) : (Write.apply (.insertPayment p) d).ledger id =
    { d.ledger id with payments := (d.ledger id).payments ++ [p] } := by
  simp [Db.ledger, Write.apply, h]

theorem ledger_insertAudit {a : AuditTrail} (h : a.bookingId = id) : (Write.apply (.insertAudit a) d).ledger id =
    { d.ledger id with auditTrail := (d.ledger id).auditTrail ++ [a] } := by
  simp [Db.ledger, Write.apply, h]

/-! ### What a write changes of the index entries and of the logs -/

@[simp] theorem holders_insertBooking {r : Resource} : (Write.apply (.insertBooking b) d).holders r =
    d.holders r ++ if r ∈ b.resources then [b.unique] else [] := by
  by_cases h : r ∈ b.resources <;> simp [Db.holders, Write.apply, h]

@[simp] theorem holders_setBooking {r : Resource} {st : BookingStatus} {c x : Option Time} :
    (Write.apply (.setBooking id st c x) d).holders r = d.holders r := by
  by_cases h : r = .bookingRow id
  · simp only [Db.holders, Write.apply]
    rw [filter_update fun _ => rfl, List.map_map]
    refine List.map_congr_left fun b _ => ?_
    simp only [Function.comp_apply]
    split <;> simp
  · exact (holders_viewAt r).frame (.setBooking id st c x) d (by simpa [Write.resources] using h)

@[simp] theorem holders_insertPayment {r : Resource} {p : Payment} :
    (Write.apply (.insertPayment p) d).holders r = d.holders r := rfl

@[simp] theorem holders_insertAudit {r : Resource} {a : AuditTrail} :
    (Write.apply (.insertAudit a) d).holders r = d.holders r := rfl

@[simp] theorem paymentsUnder_insertPayment {k : Uuid} {p : Payment} :
    (Write.apply (.insertPayment p) d).paymentsUnder k =
      d.paymentsUnder k ++ if p.idempotencyKey = k then [p] else [] := by
  by_cases h : p.idempotencyKey = k <;> simp [Db.paymentsUnder, Write.apply, h]

@[simp] theorem paymentsUnder_insertBooking {k : Uuid} :
    (Write.apply (.insertBooking b) d).paymentsUnder k = d.paymentsUnder k := rfl

@[simp] theorem paymentsUnder_setBooking {k : Uuid} {st : BookingStatus} {c x : Option Time} :
    (Write.apply (.setBooking id st c x) d).paymentsUnder k = d.paymentsUnder k := rfl

@[simp] theorem paymentsUnder_insertAudit {k : Uuid} {a : AuditTrail} :
    (Write.apply (.insertAudit a) d).paymentsUnder k = d.paymentsUnder k := rfl

theorem mem_payments_foldl {ws : List Write} {p : Payment} :
    p ∈ (ws.foldl (fun d w => w.apply d) d).payments ↔ p ∈ d.payments ∨ .insertPayment p ∈ ws := by
  induction ws generalizing d with
  | nil => simp
  | cons w ws ih =>
    rw [List.foldl_cons, ih, List.mem_cons]
    cases w <;> simp [Write.apply, or_assoc]

theorem mem_auditTrail_foldl {ws : List Write} {a : AuditTrail} :
    a ∈ (ws.foldl (fun d w => w.apply d) d).auditTrail ↔ a ∈ d.auditTrail ∨ .insertAudit a ∈ ws := by
  induction ws generalizing d with
  | nil => simp
  | cons w ws ih =>
    rw [List.foldl_cons, ih, List.mem_cons]
    cases w <;> simp [Write.apply, or_assoc]

theorem mem_ledger_bookings : b ∈ (d.ledger id).bookings ↔ b ∈ d.bookings ∧ b.id = id := by
  simp [Db.ledger]

theorem mem_ledger_payments {p : Payment} : p ∈ (d.ledger id).payments ↔ p ∈ d.payments ∧ p.bookingId = id := by
  simp [Db.ledger]

theorem mem_ledger_auditTrail {a : AuditTrail} : a ∈ (d.ledger id).auditTrail ↔ a ∈ d.auditTrail ∧
    a.bookingId = id := by
  simp [Db.ledger]

theorem Conforms.mem_bookings (h : Conforms (d.ledger id) b ph) : b ∈ d.bookings ∧ b.id = id :=
  mem_ledger_bookings.mp (h.row ▸ List.mem_singleton_self b)

theorem Conforms.eq_of_mem (h : Conforms (d.ledger id) b ph) (hb : b' ∈ d.bookings) (hid : b'.id = id) : b' = b :=
  List.mem_singleton.mp (h.row ▸ mem_ledger_bookings.mpr ⟨hb, hid⟩)

end

end Railbook
