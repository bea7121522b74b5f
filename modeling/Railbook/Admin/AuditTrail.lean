import Railbook.Constraints
import Railbook.Library.Paging
import Mathlib.Data.List.Sort

/-! `GET /admin/audit` of `app/admin/router.py`. The entries of one booking tell its whole life, but the answer is
    ordered by `created_at`, and the entries of one transaction share theirs. -/

namespace Railbook
open ReadCommitted Transition Paging

/-- An entry of the answer. -/
structure AdminAudit where
  id : Nat
  bookingId : Uuid
  userId : Uuid
  action : AuditAction
  previousStatus : Option BookingStatus
  newStatus : BookingStatus
  metadata : AuditMetadata
  createdAt : Time
  deriving DecidableEq, Repr

/-- The dictionary that the handler makes of an entry. -/
def adminAudit (e : AuditTrail) : AdminAudit :=
  ⟨e.id, e.bookingId, e.userId, e.action, e.previousStatus, e.newStatus, e.metadata, e.createdAt⟩

/-- What the answer tells of a step of the booking. -/
def AdminAudit.entry (e : AdminAudit) : Entry := ⟨e.action, e.previousStatus, e.newStatus, e.userId⟩

/-- `order_by(AuditTrail.created_at.desc())`. -/
def NewestEntryFirst (a b : AuditTrail) : Prop := b.createdAt ≤ a.createdAt

instance : DecidableRel NewestEntryFirst := fun a b => inferInstanceAs (Decidable (b.createdAt ≤ a.createdAt))

/-- The query of `audit_trail` over the entries that its where clause leaves. The database accepts no negative limit. -/
def auditPage (entries : List AuditTrail) (limit : Int) : Except Exc (List AdminAudit) :=
  if limit < 0 then .error .databaseError
  else .ok (((entries.insertionSort NewestEntryFirst).take limit.toNat).map adminAudit)

/-- `audit_trail`. An empty `booking_id` is none. `uuidOf` reads the text of an id as the driver of the database does,
    which refuses any other text. -/
def auditTrail (uuidOf : String → Option Uuid) (scan : List AuditTrail) (bookingId : Option String) (limit : Int) :
    Except Exc (List AdminAudit) :=
  match bookingId with
  | none => auditPage scan limit
  | some text =>
    if text = "" then auditPage scan limit
    else
      match uuidOf text with
      | none => .error .databaseError
      | some id => auditPage (scan.filter (·.bookingId = id)) limit

/-- Of the entries about the booking, those that no other one is newer than tell its status. -/
def Db.NewestTells (d : Db) (b : Booking) : Prop :=
  ∀ a ∈ (d.ledger b.id).auditTrail, (∀ a' ∈ (d.ledger b.id).auditTrail, a'.createdAt ≤ a.createdAt) →
  a.newStatus = b.status

/-- The refund of the booking belongs to a transaction that began after those of the reservation and of the payment. -/
def Db.RefundedLater (d : Db) (b : Booking) : Prop :=
  ∃ a ∈ d.auditTrail, a.bookingId = b.id ∧ a.action = .refunded ∧ b.reservedAt < a.createdAt ∧
    ∀ p ∈ d.payments, p.bookingId = b.id → p.attemptedAt < a.createdAt

/-- The entry belongs to the transaction of a payment. -/
def AuditAction.isPayment : AuditAction → Bool
  | paymentAttempted | confirmed | paymentFailed => true
  | _ => false

/-- The time of an entry is that of the booking, of the payment, or after the expiry. -/
structure AuditTrail.Stamped (d : Db) (a : AuditTrail) : Prop where
  reserved : a.action = .reserved → ∃ b ∈ d.bookings, b.id = a.bookingId ∧ a.createdAt = b.reservedAt
  paid : a.action.isPayment = true → ∃ p ∈ d.payments, p.bookingId = a.bookingId ∧ a.createdAt = p.attemptedAt
  expired : a.action = .expiredCleanup → ∃ b ∈ d.bookings, b.id = a.bookingId ∧ b.expiresAt.any (· < a.createdAt) = true

/-- Every audit entry carries the time of the transaction that its action tells of. -/
def Db.Stamped (d : Db) : Prop := ∀ a ∈ d.auditTrail, a.Stamped d

section
variable {cat : Catalog} {σ : State} {d d' : Db} {a : AuditTrail} {b : Booking} {c : Commit} {limit : Int}

/-! ### Times -/

theorem Transact.kept (h : d.Constraints cat) (m : Transact cat d c d') : d.Kept d' := by
  cases m with
  | reserve time fresh unused vacant user schedule priced entry =>
    exact ⟨fun p hp => hp, fun a ha => List.mem_append_left _ ha, fun b hb => ⟨b, List.mem_append_left _ hb, rfl⟩⟩
  | @settle i q b r began t n n' admits unpaid unused sound entries =>
    exact ⟨fun p hp => List.mem_append_left _ hp, fun a ha => List.mem_append_left _ ha,
      fun x hx => mem_of_fixed (replace_fixed h.bookingId admits.stored (r.book_fixed b t)) hx⟩
  | refund admits entry =>
    exact ⟨fun p hp => hp, fun a ha => List.mem_append_left _ ha,
      fun x hx => mem_of_fixed (replace_fixed h.bookingId admits.stored rfl) hx⟩
  | expire stored expired distinct entries =>
    exact ⟨fun p hp => hp, fun a ha => List.mem_append_left _ ha, fun x hx => mem_of_fixed expire_fixed hx⟩

theorem AuditTrail.Stamped.mono (h : a.Stamped d) (kept : d.Kept d') : a.Stamped d' where
  reserved ha := by
    obtain ⟨b, hb, hid, hat⟩ := h.reserved ha
    obtain ⟨b', hb', hfix⟩ := kept.bookings b hb
    exact ⟨b', hb', (Booking.id_of_fixed hfix).trans hid, hat.trans (Booking.reservedAt_of_fixed hfix).symm⟩
  paid ha := by
    obtain ⟨p, hp, hpaid⟩ := h.paid ha
    exact ⟨p, kept.payments p hp, hpaid⟩
  expired ha := by
    obtain ⟨b, hb, hid, hexp⟩ := h.expired ha
    obtain ⟨b', hb', hfix⟩ := kept.bookings b hb
    exact ⟨b', hb', (Booking.id_of_fixed hfix).trans hid, by rwa [Booking.expiresAt_of_fixed hfix]⟩

theorem Db.Stamped.transact (h : d.Stamped) (constraints : d.Constraints cat) (m : Transact cat d c d') :
    d'.Stamped := by
  have kept := m.kept constraints
  have old : ∀ a ∈ d.auditTrail, a.Stamped d' := fun a ha => (h a ha).mono kept
  intro a ha
  cases m with
  | reserve time fresh unused vacant user schedule priced entry =>
    rcases List.mem_append.mp ha with ha | ha
    · exact old a ha
    · obtain rfl := List.mem_singleton.mp ha
      exact ⟨fun _ => ⟨_, List.mem_append_right _ (List.mem_singleton_self _), rfl, rfl⟩, (by cases ·), (by cases ·)⟩
  | settle admits unpaid unused sound entries =>
    rcases List.mem_append.mp ha with ha | ha
    · exact old a ha
    · split at ha <;> rcases List.mem_pair.mp ha with rfl | rfl <;>
        exact ⟨(by cases ·), fun _ => ⟨_, List.mem_append_right _ (List.mem_singleton_self _), rfl, rfl⟩, (by cases ·)⟩
  | refund admits entry =>
    rcases List.mem_append.mp ha with ha | ha
    · exact old a ha
    · obtain rfl := List.mem_singleton.mp ha
      exact ⟨(by cases ·), (by cases ·), (by cases ·)⟩
  | expire stored expired distinct entries =>
    rcases List.mem_append.mp ha with ha | ha
    · exact old a ha
    · obtain ⟨⟨b, k⟩, hbk, rfl⟩ := List.mem_map.mp ha
      have hb : b ∈ _ := List.mem_of_getElem? (List.mem_zipIdx_iff_getElem?.mp hbk)
      obtain ⟨b', hb', hfix⟩ := kept.bookings b (stored b hb)
      have hexp := (of_decide_eq_true (expired b hb)).2
      exact ⟨(by cases ·), (by cases ·), fun _ => ⟨b', hb', Booking.id_of_fixed hfix,
        by rwa [Booking.expiresAt_of_fixed hfix]⟩⟩

theorem stamped_of_reachable (hr : Reachable cat σ) : σ.db.Constraints cat ∧ σ.db.Stamped := by
  refine (refines_transact cat).reach (I := fun d => d.Constraints cat ∧ d.Stamped) ?_
    (fun h m => ⟨h.1.transact m, h.2.transact h.1 m⟩) hr
  rintro σ ⟨now, rfl⟩
  exact ⟨.start ⟨now, rfl⟩, constraints_empty, fun a ha => by cases ha⟩

/-! ### The entries of one booking -/

section
variable {ph : Phase} {x : Entry}

theorem Conforms.exists_entry (h : Conforms (d.ledger b.id) b ph) (hx : x ∈ ph.trail b.userId) :
    ∃ a ∈ (d.ledger b.id).auditTrail, a.entry = x :=
  List.mem_map.mp (h.trail ▸ hx)

theorem Conforms.entry_mem (h : Conforms (d.ledger b.id) b ph) (ha : a ∈ (d.ledger b.id).auditTrail) :
    a.entry ∈ ph.trail b.userId :=
  h.trail ▸ List.mem_map_of_mem ha

end

/-- The entry of the reservation is as old as the booking. -/
theorem Db.Stamped.createdAt_reserved (h : d.Stamped) (constraints : d.Constraints cat) (hb : b ∈ d.bookings)
    (ha : a ∈ (d.ledger b.id).auditTrail) (hact : a.action = .reserved) : a.createdAt = b.reservedAt := by
  obtain ⟨hmem, hid⟩ := mem_ledger_auditTrail.mp ha
  obtain ⟨b', hb', hid', hat⟩ := (h a hmem).reserved hact
  obtain rfl : b' = b := List.inj_on_of_nodup_map constraints.bookingId hb' hb (hid'.trans hid)
  exact hat

theorem Db.Stamped.createdAt_paid (h : d.Stamped) (constraints : d.Constraints cat) {p : Payment} (hp : p ∈ d.payments)
    (hpid : p.bookingId = b.id) (ha : a ∈ (d.ledger b.id).auditTrail) (hact : a.action.isPayment = true) :
    a.createdAt = p.attemptedAt := by
  obtain ⟨hmem, hid⟩ := mem_ledger_auditTrail.mp ha
  obtain ⟨p', hp', hid', hat⟩ := (h a hmem).paid hact
  obtain rfl : p' = p := List.inj_on_of_nodup_map constraints.paymentBooking hp' hp ((hid'.trans hid).trans hpid.symm)
  exact hat

theorem Db.Stamped.reservedAt_lt (h : d.Stamped) (constraints : d.Constraints cat) (hb : b ∈ d.bookings)
    (ha : a ∈ (d.ledger b.id).auditTrail) (hact : a.action = .expiredCleanup) : b.reservedAt < a.createdAt := by
  obtain ⟨hmem, hid⟩ := mem_ledger_auditTrail.mp ha
  obtain ⟨b', hb', hid', hexp⟩ := (h a hmem).expired hact
  obtain rfl : b' = b := List.inj_on_of_nodup_map constraints.bookingId hb' hb (hid'.trans hid)
  obtain ⟨t, ht, hle⟩ := (constraints.bookings b' hb).expires
  rw [ht, Option.any_some, decide_eq_true_eq] at hexp
  have hpos : (0 : Int) ≤ timedeltaMinutes 5 := by decide
  exact Int.lt_of_le_of_lt (Int.le_trans (Int.le_add_of_nonneg_right hpos) hle) hexp

/-! ### Which entry is the newest -/

/-- A booking that is not reserved, and none of whose entries is newer than both its reservation and its payment: one
    of the entries that no other one is newer than is from when it was reserved. -/
theorem not_newestTells {x y : AuditTrail} (hx : x ∈ (d.ledger b.id).auditTrail) (hy : y ∈ (d.ledger b.id).auditTrail)
    (hxst : x.newStatus = .reserved) (hyst : y.newStatus = .reserved) (hst : b.status ≠ .reserved)
    (hle : ∀ a ∈ (d.ledger b.id).auditTrail, a.createdAt ≤ x.createdAt ∨ a.createdAt ≤ y.createdAt) :
    ¬d.NewestTells b := by
  intro tells
  rcases Int.le_total x.createdAt y.createdAt with hxy | hyx
  · have hnewest := tells y hy fun a ha => (hle a ha).elim (fun h => Int.le_trans h hxy) id
    exact hst (hnewest ▸ hyst)
  · have hnewest := tells x hx fun a ha => (hle a ha).elim id (fun h => Int.le_trans h hyx)
    exact hst (hnewest ▸ hxst)

theorem not_newestTells_of_attempt {ph : Phase} {p : Payment} (stamped : d.Stamped) (constraints : d.Constraints cat)
    (hb : b ∈ d.bookings) (hc : Conforms (d.ledger b.id) b ph) (hph : ph ∈ [Phase.confirmed, .paymentFailed, .refunded])
    (hp : p ∈ d.payments) (hpid : p.bookingId = b.id)
    (refunds : ∀ a ∈ (d.ledger b.id).auditTrail, a.action = .refunded → a.createdAt ≤ b.reservedAt ∨
      a.createdAt ≤ p.attemptedAt) :
    ¬d.NewestTells b := by
  have hst : b.status ≠ .reserved := by
    rw [hc.status]
    simp only [List.mem_cons, List.not_mem_nil, or_false] at hph
    rcases hph with rfl | rfl | rfl <;> decide
  have hboth : ⟨.reserved, none, .reserved, b.userId⟩ ∈ ph.trail b.userId ∧
      ⟨.paymentAttempted, some .reserved, .reserved, b.userId⟩ ∈ ph.trail b.userId := by
    simp only [List.mem_cons, List.not_mem_nil, or_false] at hph
    rcases hph with rfl | rfl | rfl <;> simp [Phase.trail]
  have hexpired : ∀ y ∈ ph.trail b.userId, y.action ≠ .expiredCleanup := by
    simp only [List.mem_cons, List.not_mem_nil, or_false] at hph
    rcases hph with rfl | rfl | rfl <;> simp [Phase.trail]
  obtain ⟨x, hx, hxe⟩ := hc.exists_entry hboth.1
  obtain ⟨y, hy, hye⟩ := hc.exists_entry hboth.2
  have hxat := stamped.createdAt_reserved constraints hb hx (congrArg Entry.action hxe)
  have hyact : y.action = .paymentAttempted := congrArg Entry.action hye
  have hyat := stamped.createdAt_paid constraints hp hpid hy (by rw [hyact]; rfl)
  refine not_newestTells hx hy (congrArg Entry.newStatus hxe) (congrArg Entry.newStatus hye) hst fun a ha => ?_
  rw [hxat, hyat]
  cases hact : a.action with
  | reserved => exact Or.inl (le_of_eq (stamped.createdAt_reserved constraints hb ha hact))
  | refunded => exact refunds a ha hact
  | expiredCleanup => exact absurd hact (hexpired a.entry (hc.entry_mem ha))
  | _ => exact Or.inr (le_of_eq (stamped.createdAt_paid constraints hp hpid ha (by rw [hact]; rfl)))

theorem Conforms.exists_payment {ph : Phase} {st : PaymentStatus} (h : Conforms (d.ledger b.id) b ph)
    (hst : ph.payment = some st) :
    ∃ p ∈ d.payments, p.bookingId = b.id := by
  have hpays := h.payments
  rw [hst] at hpays
  obtain ⟨p, hp, -⟩ := hpays
  exact ⟨p, mem_ledger_payments.mp (hp ▸ List.mem_singleton_self p)⟩

/-- No entry about the booking has an action that its phase does not have. -/
theorem Conforms.action_ne {ph : Phase} {action : AuditAction} (h : Conforms (d.ledger b.id) b ph)
    (hnot : ∀ y ∈ ph.trail b.userId, y.action ≠ action) (ha : a ∈ d.auditTrail) (hid : a.bookingId = b.id) :
    a.action ≠ action :=
  hnot a.entry (h.entry_mem (mem_ledger_auditTrail.mpr ⟨ha, hid⟩))

/-- The entry of an expiry is newer than that of the reservation. -/
theorem newestTells_of_expired (stamped : d.Stamped) (constraints : d.Constraints cat) (hb : b ∈ d.bookings)
    (hc : Conforms (d.ledger b.id) b .expired) : d.NewestTells b := by
  obtain ⟨y, hy, hye⟩ := hc.exists_entry (x := ⟨.expiredCleanup, some .reserved, .cancelled, systemUserId⟩)
    (by simp [Phase.trail])
  have hlt := stamped.reservedAt_lt constraints hb hy (congrArg Entry.action hye)
  intro x hx newest
  have hentry := hc.entry_mem hx
  simp only [Phase.trail, List.mem_cons, List.not_mem_nil, or_false] at hentry
  rw [hc.status]
  rcases hentry with h | h
  · have hat := stamped.createdAt_reserved constraints hb hx (congrArg Entry.action h)
    exact absurd hlt (Int.not_lt.mpr (hat ▸ newest y hy))
  · exact congrArg Entry.newStatus h

theorem newestTells_iff_of_refunded (stamped : d.Stamped) (constraints : d.Constraints cat) (hb : b ∈ d.bookings)
    (hc : Conforms (d.ledger b.id) b .refunded) : d.NewestTells b ↔ d.RefundedLater b := by
  obtain ⟨p, hp, hpid⟩ := hc.exists_payment rfl
  have hone : ∀ p' ∈ d.payments, p'.bookingId = b.id → p' = p := fun p' hp' hid =>
    List.inj_on_of_nodup_map constraints.paymentBooking hp' hp (hid.trans hpid.symm)
  constructor
  · intro tells
    by_contra hlate
    refine not_newestTells_of_attempt stamped constraints hb hc (by simp) hp hpid (fun a ha hact => ?_) tells
    obtain ⟨ha, hid⟩ := mem_ledger_auditTrail.mp ha
    by_contra hlt
    obtain ⟨hres, hpay⟩ := not_or.mp hlt
    exact hlate ⟨a, ha, hid, hact, Int.not_le.mp hres, fun p' hp' hid' => hone p' hp' hid' ▸ Int.not_le.mp hpay⟩
  · rintro ⟨a, ha, hid, -, hres, hpay⟩ x hx newest
    have hle := newest a (mem_ledger_auditTrail.mpr ⟨ha, hid⟩)
    have hreserved : x.action ≠ .reserved := fun h =>
      absurd hres (Int.not_lt.mpr (stamped.createdAt_reserved constraints hb hx h ▸ hle))
    have hpayment : x.action.isPayment ≠ true := fun h =>
      absurd (hpay p hp hpid) (Int.not_lt.mpr (stamped.createdAt_paid constraints hp hpid hx h ▸ hle))
    have hentry := hc.entry_mem hx
    simp only [Phase.trail, List.mem_cons, List.not_mem_nil, or_false] at hentry
    rw [hc.status]
    rcases hentry with h | h | h | h
    · exact absurd (congrArg Entry.action h) hreserved
    · exact absurd (congrArg (fun x : Entry => x.action.isPayment) h) hpayment
    · exact absurd (congrArg (fun x : Entry => x.action.isPayment) h) hpayment
    · exact congrArg Entry.newStatus h

/-- The two entries of a payment are of one time. -/
theorem not_newestTells_of_paid {ph : Phase} (stamped : d.Stamped) (constraints : d.Constraints cat)
    (hb : b ∈ d.bookings) (hc : Conforms (d.ledger b.id) b ph) (hph : ph = .confirmed ∨ ph = .paymentFailed) :
    ¬d.NewestTells b ∧ ¬(b.status = .reserved ∨ d.Logged b.id .expiredCleanup ∨ d.RefundedLater b) := by
  obtain ⟨p, hp, hpid⟩ : ∃ p ∈ d.payments, p.bookingId = b.id := by
    rcases hph with rfl | rfl <;> exact hc.exists_payment rfl
  have hnot : ∀ y ∈ ph.trail b.userId, y.action ≠ .refunded ∧ y.action ≠ .expiredCleanup := by
    rcases hph with rfl | rfl <;> simp [Phase.trail]
  have hrefund {a : AuditTrail} := hc.action_ne (a := a) fun y hy => (hnot y hy).1
  constructor
  · refine not_newestTells_of_attempt stamped constraints hb hc (by rcases hph with rfl | rfl <;> simp) hp hpid
      fun a ha hact => ?_
    obtain ⟨ha, hid⟩ := mem_ledger_auditTrail.mp ha
    exact absurd hact (hrefund ha hid)
  · rintro (h | ⟨a, ha, hid, hact⟩ | ⟨a, ha, hid, hact, -⟩)
    · rw [hc.status] at h
      rcases hph with rfl | rfl <;> cases h
    · exact hc.action_ne (fun y hy => (hnot y hy).2) ha hid hact
    · exact hrefund ha hid hact

/-- The newest entries tell the status of a booking, except when its last transaction is a payment, or a refund that
    began no later than the reservation or the payment. -/
theorem newestTells_iff (hr : Reachable cat σ) (hb : b ∈ σ.db.bookings) :
    σ.db.NewestTells b ↔ b.status = .reserved ∨ σ.db.Logged b.id .expiredCleanup ∨ σ.db.RefundedLater b := by
  obtain ⟨constraints, stamped⟩ := stamped_of_reachable hr
  obtain ⟨ph, hph, hc⟩ := (inv_of_reachableBy hr).conforms_of_mem hb
  simp only [Phase.committed, List.mem_cons, List.not_mem_nil, or_false] at hph
  rcases hph with rfl | rfl | rfl | rfl | rfl
  · refine iff_of_true (fun a ha _ => ?_) (Or.inl hc.status)
    rw [hc.status]
    exact congrArg Entry.newStatus (List.mem_singleton.mp (hc.entry_mem ha))
  · exact iff_of_false (not_newestTells_of_paid stamped constraints hb hc (Or.inl rfl)).1
      (not_newestTells_of_paid stamped constraints hb hc (Or.inl rfl)).2
  · exact iff_of_false (not_newestTells_of_paid stamped constraints hb hc (Or.inr rfl)).1
      (not_newestTells_of_paid stamped constraints hb hc (Or.inr rfl)).2
  · rw [newestTells_iff_of_refunded stamped constraints hb hc]
    refine ⟨fun h => Or.inr (Or.inr h), ?_⟩
    rintro (h | ⟨a, ha, hid, hact⟩ | h)
    · rw [hc.status] at h
      cases h
    · exact absurd hact (hc.action_ne (by simp [Phase.trail]) ha hid)
    · exact h
  · obtain ⟨y, hy, hye⟩ := hc.exists_entry (x := ⟨.expiredCleanup, some .reserved, .cancelled, systemUserId⟩)
      (by simp [Phase.trail])
    obtain ⟨hmem, hid⟩ := mem_ledger_auditTrail.mp hy
    exact iff_of_true (newestTells_of_expired stamped constraints hb hc)
      (Or.inr (Or.inl ⟨y, hmem, hid, congrArg Entry.action hye⟩))

/-! ### The answer -/

section
variable {uuidOf : String → Option Uuid} {text : String} {scan : List AuditTrail} {id : Uuid}

instance : IsTrans AuditTrail NewestEntryFirst := ⟨fun _ _ _ hab hbc => Int.le_trans hbc hab⟩

instance : Std.Total NewestEntryFirst := ⟨fun a b => Int.le_total b.createdAt a.createdAt⟩

instance : Std.Refl NewestEntryFirst := ⟨fun a => Int.le_refl a.createdAt⟩

theorem auditTrail_of_booking (htext : text ≠ "") (hid : uuidOf text = some id) (hlimit : 0 ≤ limit) :
    auditTrail uuidOf scan (some text) limit =
      .ok ((((scan.filter (·.bookingId = id)).insertionSort NewestEntryFirst).take limit.toNat).map adminAudit) := by
  simp only [auditTrail, if_neg htext, hid]
  exact if_neg (Int.not_lt.mpr hlimit)

/-- All scans put an entry of the status first exactly when the newest entries tell it. -/
theorem forall_scans_iff (htext : text ≠ "") (hid : uuidOf text = some b.id) (hlimit : 1 ≤ limit)
    (hne : (d.ledger b.id).auditTrail ≠ []) :
    (∀ scan : List AuditTrail, scan.Perm d.auditTrail →
      ∃ e es, auditTrail uuidOf scan (some text) limit = .ok (e :: es) ∧ e.newStatus = b.status) ↔ d.NewestTells b := by
  obtain ⟨n, hn⟩ : ∃ n, limit.toNat = n + 1 := ⟨limit.toNat - 1, by omega⟩
  have hsorted := List.pairwise_insertionSort NewestEntryFirst (d.ledger b.id).auditTrail
  have hperm := List.perm_insertionSort NewestEntryFirst (d.ledger b.id).auditTrail
  have hfirst := forall_first_iff (P := fun a => a.newStatus = b.status) hsorted fun h => hne ((h ▸ hperm).nil_eq.symm)
  have hpage : ∀ scan, auditTrail uuidOf scan (some text) limit =
      .ok ((((scan.filter (·.bookingId = b.id)).insertionSort NewestEntryFirst).take (n + 1)).map adminAudit) :=
        fun scan => by
    rw [auditTrail_of_booking htext hid (Int.le_trans Int.one_nonneg hlimit), hn]
  constructor
  · intro all
    have htells := hfirst.mp fun l' hl' hp' => by
      obtain ⟨scan, hscan, hrows⟩ := exists_scan (hp'.trans hperm)
      obtain ⟨e, es, hans, hst⟩ := all scan hscan
      rw [hpage, hrows, hl'.insertionSort_eq] at hans
      cases l' with
      | nil => cases hans
      | cons x rest =>
        cases hans
        exact ⟨x, rfl, hst⟩
    exact fun a ha newest => htells a (hperm.mem_iff.mpr ha) fun y hy => newest y (hperm.mem_iff.mp hy)
  · intro tells scan hscan
    have hrows := List.pairwise_insertionSort NewestEntryFirst (scan.filter (·.bookingId = b.id))
    have hp' := (List.perm_insertionSort NewestEntryFirst (scan.filter (·.bookingId = b.id))).trans (hscan.filter _)
    obtain ⟨x, hx, hst⟩ := hfirst.mpr (fun a ha newest => tells a (hperm.mem_iff.mp ha) fun y hy =>
      newest y (hperm.mem_iff.mpr hy)) _ hrows (hp'.trans hperm.symm)
    obtain ⟨rest, hrest⟩ := List.head?_eq_some_iff.mp hx
    exact ⟨adminAudit x, (rest.take n).map adminAudit, by rw [hpage, hrest]; rfl, hst⟩

/-- `GET /admin/audit` of a booking. With a limit of four or more the answer is the whole life of the booking: read in
    the order of its ids, it is the trail of exactly the phase that the booking is in. In the order in which it comes,
    its first entry tells the status of the booking whatever the scan unless the last transaction of the booking is a
    payment, or a refund that did not begin after both the reservation and the payment. -/
theorem audit_tells_life (hr : Reachable cat σ) (hb : b ∈ σ.db.bookings) (htext : text ≠ "")
    (hid : uuidOf text = some b.id) :
    (∀ limit, 4 ≤ limit → ∀ scan : List AuditTrail, scan.Perm σ.db.auditTrail → ∃ entries life : List AdminAudit,
      auditTrail uuidOf scan (some text) limit = .ok entries ∧
        entries.Pairwise (fun e e' => e'.createdAt ≤ e.createdAt) ∧
        entries.Perm life ∧ (life.map (·.id)).Pairwise (· < ·) ∧
          ∃ ph ∈ Phase.committed, b.status = ph.status ∧ life.map AdminAudit.entry = ph.trail b.userId) ∧
    ∀ limit, 1 ≤ limit → ((∀ scan : List AuditTrail, scan.Perm σ.db.auditTrail →
      ∃ e es, auditTrail uuidOf scan (some text) limit = .ok (e :: es) ∧ e.newStatus = b.status) ↔
        b.status = .reserved ∨ σ.db.Logged b.id .expiredCleanup ∨ σ.db.RefundedLater b) := by
  obtain ⟨ph, hph, hc⟩ := (inv_of_reachableBy hr).conforms_of_mem hb
  refine ⟨fun limit hlimit scan hscan => ?_, fun limit hlimit => ?_⟩
  · have hlen : (σ.db.ledger b.id).auditTrail.length ≤ 4 := by
      rw [← List.length_map AuditTrail.entry, hc.trail]
      cases ph <;> simp [Phase.trail]
    have hperm := (List.perm_insertionSort NewestEntryFirst (scan.filter (·.bookingId = b.id))).trans (hscan.filter _)
    have hall : ((scan.filter (·.bookingId = b.id)).insertionSort NewestEntryFirst).length ≤ limit.toNat := by
      rw [hperm.length_eq]
      exact Nat.le_trans hlen (by omega)
    refine ⟨_, (σ.db.ledger b.id).auditTrail.map adminAudit, auditTrail_of_booking htext hid (by omega), ?_, ?_, ?_,
      ph, hph, hc.status, ?_⟩
    · rw [List.take_of_length_le hall]
      exact List.pairwise_map.mpr (List.pairwise_insertionSort _ _)
    · rw [List.take_of_length_le hall]
      exact hperm.map _
    · rw [List.map_map]
      exact hc.sorted
    · rw [List.map_map]
      exact hc.trail
  · have hne : ph ≠ .inserted := by
      rintro rfl
      simp [Phase.committed] at hph
    rw [forall_scans_iff htext hid hlimit (hc.trail_ne_nil hne), newestTells_iff hr hb]

end

/-- A booking that is paid for. -/
theorem audit_tells_life_paid : ∃ (σ : State) (b : Booking), b ∈ σ.db.bookings ∧ b.status = .confirmed ∧
    ¬∀ scan : List AuditTrail, scan.Perm σ.db.auditTrail → ∃ e es,
      auditTrail (fun text => if text = "00000000-0000-0000-0000-00000000003c" then some 60 else none) scan
        (some "00000000-0000-0000-0000-00000000003c") 50 = .ok (e :: es) ∧ e.newStatus = b.status := by
  have hrun : (exec (step sampleCatalog) (.seeded 0)
    (.request (.create ⟨1, 20, 40, 50, none⟩) :: runs 0 9 60 ++ .tick 1 ::
      .request (.pay ⟨60, 1, 70, none⟩) :: runs 1 9 80)).any (fun σ : State =>
        decide (∃ b ∈ σ.db.bookings, b.id = 60 ∧ b.status = .confirmed ∧
          ∀ a ∈ σ.db.auditTrail, a.action ≠ .expiredCleanup ∧ a.action ≠ .refunded)) = true := by decide
  obtain ⟨σ, hσ, htest⟩ := reachable_of_run hrun
  obtain ⟨b, hb, hid, hst, hnone⟩ := of_decide_eq_true htest
  refine ⟨σ, b, hb, hst, fun all => ?_⟩
  rcases ((audit_tells_life hσ hb (by decide) (if_pos rfl |>.trans (congrArg some hid.symm))).2 50
    (by decide)).mp all with h | ⟨a, ha, -, hact⟩ | ⟨a, ha, -, hact, -⟩
  · rw [hst] at h
    cases h
  · exact (hnone a ha).1 hact
  · exact (hnone a ha).2 hact

end

end Railbook
