import Railbook.Session

/-! The operations of `app/bookings/service.py` and one pass of `app/bookings/cleanup.py`, statement by statement.
    Each function gives what the statement at a program counter does and where the session goes on; it gives
    `none` while the statement waits for another session. A `SELECT .. FOR UPDATE` is two steps: its snapshot
    names the row, and once nobody else owns the row it is read again. -/

namespace Railbook

/-- `_calculate_price`. -/
def calculatePrice : CompType → Amount
  | .ac => 150000
  | .nonAc => 80000

/-- `log_audit` of `app/audit/service.py`, with the id and the time that the database fills in. -/
def logAudit (id : Nat) (createdAt : Time) (bookingId userId : Uuid) (action : AuditAction)
    (previousStatus : Option BookingStatus) (newStatus : BookingStatus) (metadata : AuditMetadata)
    (ipAddress : Option String) : AuditTrail :=
  ⟨id, bookingId, userId, action, previousStatus, newStatus, metadata, ipAddress, createdAt⟩

@[simp] theorem logAudit_id {id n : Nat} {t : Time} {u : Uuid} {x : AuditAction} {s : Option BookingStatus}
    {s' : BookingStatus} {m : AuditMetadata} {ip : Option String} : (logAudit id t n u x s s' m ip).id = id := rfl

theorem logAudit_bookingId (id n : Nat) (t : Time) (u : Uuid) (x : AuditAction) (s : Option BookingStatus)
    (s' : BookingStatus) (m : AuditMetadata) (ip : Option String) : (logAudit id t n u x s s' m ip).bookingId = n := rfl

section
variable (cat : Catalog) (σ : State) (i : Sid) (began : Time)

/-! ### create_booking -/

/-- The where clause of the overlap query for one booking. -/
def overlaps (schedule : Schedule) (userId : Uuid) (b : Booking) : Bool :=
  b.userId == userId && b.status.isActive &&
    match cat.schedule? b.scheduleId with
    | some other =>
      decide (other.departureTime < schedule.arrivalTime) && decide (other.arrivalTime > schedule.departureTime)
    | none => false

/-- The object that `Booking(..)` builds. Its id is a column default and `reserved_at` a server default. -/
def newBooking (q : CreateRequest) (price : Amount) : Booking where
  id := 0
  userId := q.userId
  scheduleId := q.scheduleId
  seatId := q.seatId
  status := .reserved
  idempotencyKey := q.idempotencyKey
  reservedAt := began
  expiresAt := some (σ.now + timedeltaMinutes 5)
  confirmedAt := none
  cancelledAt := none
  totalAmount := price

/-- `uuid4` gives an id that no stored or pending row has. -/
def State.FreshId (id : Uuid) : Prop := (∀ b ∈ σ.db.bookings, b.id ≠ id) ∧ σ.store.owner (.bookingRow id) = none

instance (id : Uuid) : Decidable (σ.FreshId id) := inferInstanceAs (Decidable (_ ∧ _))

/-- The next statement of `create_booking`. -/
def createBooking (q : CreateRequest) (c : Choice) : CreatePc → Option (Effect × CreatePc)
  | .checkKey =>
    match scalarOneOrNone ((σ.view i).bookings.filter (·.idempotencyKey = q.idempotencyKey)) with
    | .error e => some (.close, .finished (.error e))
    | .ok (some found) => some (.close, .finished (.ok found))
    | .ok none => some (.read, .lockSeat)
  | .lockSeat =>
    match (σ.view i).bookings.find? fun b => b.scheduleId = q.scheduleId ∧ b.seatId = q.seatId with
    | some b => some (.read, .awaitSeat b.id)
    | none => some (.read, .checkOverlap none)
  | .awaitSeat id =>
    if σ.store.Free i (.bookingRow id) then
      match (σ.view i).booking? id with
      | none => some (.read, .checkOverlap none)
      | some b =>
        if b.status.isActive then
          some (.close, .finished (.error (httpError 409 "Seat already booked for this schedule")))
        else some (.lock [.bookingRow id], .checkOverlap (some b))
    else none
  | .checkOverlap existing =>
    match cat.schedule? q.scheduleId with
    | none => some (.close, .finished (.error (httpError 404 "Schedule not found")))
    | some schedule =>
      match scalarOneOrNone ((σ.view i).bookings.filter (overlaps cat schedule q.userId)) with
      | .error e => some (.close, .finished (.error e))
      | .ok (some _) => some (.close, .finished (.error (httpError 409 "You have an overlapping journey")))
      | .ok none => some (.read, .getSeat existing)
  | .getSeat existing =>
    match cat.seat? q.seatId with
    | none => some (.close, .finished (.error (httpError 404 "Seat not found")))
    | some seat =>
      match cat.compartment? seat.compartmentId with
      | none => some (.close, .finished (.error .attributeError))
      | some compartment =>
        match existing with
        | some e => some (.read, .delete e (calculatePrice compartment.compType))
        | none => some (.read, .insertKey (newBooking σ began q (calculatePrice compartment.compType)))
  | .delete existing price =>
    -- The relationships have no delete cascade, so the flush sets the foreign key of every dependant row to
    -- NULL before it deletes the parent, and the columns are NOT NULL.
    if ((σ.view i).payments.any (·.bookingId = existing.id)) ||
      ((σ.view i).auditTrail.any (·.bookingId = existing.id)) then
      some (.close, .finished (.error .integrityError))
    else some (.flush existing.resources [.deleteBooking existing] 0, .insertKey (newBooking σ began q price))
  | .insertKey booking =>
    if σ.FreshId c.uuid ∧ σ.store.Free i (.bookingKey q.idempotencyKey) then
      if (σ.view i).bookings.any (·.idempotencyKey = q.idempotencyKey) then
        some (.close, .finished (.error .integrityError))
      else some (.lock [.bookingRow c.uuid, .bookingKey q.idempotencyKey], .insertSeat { booking with id := c.uuid })
    else none
  | .insertSeat booking =>
    if σ.store.Free i (.bookingSeat q.scheduleId q.seatId) then
      if (σ.view i).bookings.any fun b => b.scheduleId = q.scheduleId ∧ b.seatId = q.seatId then
        some (.close, .finished (.error .integrityError))
      else if (cat.user? q.userId).isNone || (cat.schedule? q.scheduleId).isNone || (cat.seat? q.seatId).isNone then
        some (.close, .finished (.error .integrityError))
      else
        some (.flush [.bookingSeat q.scheduleId q.seatId] [.insertBooking booking] 0, .audit booking)
    else none
  | .audit booking =>
    some (.flush [] [.insertAudit (logAudit σ.nextAuditId began booking.id q.userId .reserved none .reserved
      (.reserved q.scheduleId q.seatId) q.ipAddress)] 1, .commit booking)
  | .commit booking => some (.commit, .invalidate booking)
  | .invalidate booking => some (.close, .finished (.ok booking))
  | .finished _ => none

/-! ### pay_booking -/

/-- The booking object after the branch on the charge result. -/
def PaymentResult.book (result : PaymentResult) (booking : Booking) (time : Time) : Booking :=
  if result.status = .success then { booking with status := .confirmed, confirmedAt := some time }
  else { booking with status := .cancelled, cancelledAt := some time }

/-- The statements of the flush that `session.commit()` makes in `pay_booking`. -/
def payWrites (auditId : Nat) (q : PayRequest) (booking : Booking) (result : PaymentResult)
    (time : Time) : List Write :=
  if result.status = .success then
    [.setBooking booking.id .confirmed (some time) none,
     .insertPayment ⟨booking.id, q.idempotencyKey, booking.totalAmount, .success, result.gatewayRef, began,
       some time, none⟩,
     .insertAudit (logAudit auditId began booking.id q.userId .confirmed (some .reserved) .confirmed
       (.gatewayRef result.gatewayRef) q.ipAddress)]
  else
    [.setBooking booking.id .cancelled none (some time),
     .insertPayment ⟨booking.id, q.idempotencyKey, booking.totalAmount, .failed, none, began, some time,
       result.failureReason⟩,
     .insertAudit (logAudit auditId began booking.id q.userId .paymentFailed (some .reserved) .cancelled
       (.failureReason result.failureReason) q.ipAddress)]

/-- The next statement of `pay_booking`. -/
def payBooking (q : PayRequest) (c : Choice) : PayPc → Option (Effect × PayPc)
  | .lockBooking =>
    match (σ.view i).booking? q.bookingId with
    | none => some (.close, .finished (.error (httpError 404 "Booking not found")))
    | some _ => some (.read, .awaitBooking)
  | .awaitBooking =>
    if σ.store.Free i (.bookingRow q.bookingId) then
      match (σ.view i).booking? q.bookingId with
      | none => some (.close, .finished (.error (httpError 404 "Booking not found")))
      | some booking =>
        if booking.userId ≠ q.userId then some (.close, .finished (.error (httpError 403 "Not your booking")))
        else if booking.status ≠ .reserved then
          some (.close, .finished (.error (httpError 400 ("Booking is " ++ booking.status.value ++ ", not reserved"))))
        else if booking.expiresAt.any (· < σ.now) then
          some (.close, .finished (.error (httpError 400 "Reservation expired")))
        else some (.lock [.bookingRow q.bookingId], .checkPayment booking)
    else none
  | .checkPayment booking =>
    match scalarOneOrNone ((σ.view i).payments.filter (·.idempotencyKey = q.idempotencyKey)) with
    | .error e => some (.close, .finished (.error e))
    | .ok (some _) => some (.close, .finished (.ok booking))
    | .ok none => some (.read, .attempt booking)
  | .attempt booking =>
    some (.flush [] [.insertAudit (logAudit σ.nextAuditId began booking.id q.userId .paymentAttempted (some .reserved)
      .reserved .empty q.ipAddress)] 1, .charge booking)
  | .charge booking => some (.call ⟨i, booking.id, q.idempotencyKey, booking.totalAmount⟩, .charging booking)
  | .charging booking =>
    let (result, gw) := σ.gateway.charge booking.totalAmount q.idempotencyKey c
    some (.answer ⟨⟨i, booking.id, q.idempotencyKey, booking.totalAmount⟩, result,
      (σ.gateway.processed.lookup q.idempotencyKey).isNone⟩ gw, .record booking result σ.now)
  | .record booking result time =>
    if σ.store.Free i (.paymentKey q.idempotencyKey) then
      if (σ.view i).payments.any (·.idempotencyKey = q.idempotencyKey) then
        some (.close, .finished (.error .integrityError))
      else
        some (.flush [.paymentKey q.idempotencyKey] (payWrites began σ.nextAuditId q booking result time) 1,
          .commit (result.book booking time))
    else none
  | .commit booking => some (.commit, .invalidate booking)
  | .invalidate booking => some (.close, .finished (.ok booking))
  | .finished _ => none

/-! ### refund_booking -/

/-- The statements of the flush that `session.commit()` makes in `refund_booking`. -/
def refundWrites (auditId : Nat) (q : RefundRequest) (booking : Booking) (time : Time) : List Write :=
  [.setBooking booking.id .refunded none (some time),
   .insertAudit (logAudit auditId began booking.id q.userId .refunded (some .confirmed) .refunded .empty q.ipAddress)]

/-- The next statement of `refund_booking`. -/
def refundBooking (q : RefundRequest) : RefundPc → Option (Effect × RefundPc)
  | .lockBooking =>
    match (σ.view i).booking? q.bookingId with
    | none => some (.close, .finished (.error (httpError 404 "Booking not found")))
    | some _ => some (.read, .awaitBooking)
  | .awaitBooking =>
    if σ.store.Free i (.bookingRow q.bookingId) then
      match (σ.view i).booking? q.bookingId with
      | none => some (.close, .finished (.error (httpError 404 "Booking not found")))
      | some booking =>
        if booking.userId ≠ q.userId then some (.close, .finished (.error (httpError 403 "Not your booking")))
        else if booking.status ≠ .confirmed then
          some (.close, .finished (.error (httpError 400 ("Booking is " ++ booking.status.value ++ ", not confirmed"))))
        else some (.lock [.bookingRow q.bookingId], .checkDeparture booking)
    else none
  | .checkDeparture booking =>
    match cat.schedule? booking.scheduleId with
    | none => some (.close, .finished (.error .attributeError))
    | some schedule =>
      if schedule.departureTime < σ.now + timedeltaHours 1 then
        some (.close, .finished (.error (httpError 400 "Cannot refund within 1 hour of departure")))
      else some (.read, .findPayment booking)
  | .findPayment booking =>
    match scalarOneOrNone ((σ.view i).payments.filter fun p => p.bookingId = booking.id ∧ p.status = .success) with
    | .error e => some (.close, .finished (.error e))
    | .ok (some p) => some (.read, .refund booking p.gatewayRef)
    | .ok none => some (.read, .record booking σ.now)
  | .refund booking ref => some (.callRefund ⟨i, booking.id, ref⟩, .refunding booking ref)
  | .refunding booking ref => some (.refunded ⟨i, booking.id, ref⟩, .record booking σ.now)
  | .record booking time =>
    some (.flush [] (refundWrites began σ.nextAuditId q booking time) 1,
      .commit { booking with status := .refunded, cancelledAt := some time })
  | .commit booking => some (.commit, .invalidate booking)
  | .invalidate booking => some (.close, .finished (.ok booking))
  | .finished _ => none

/-! ### cleanup_expired_reservations -/

/-- The rows of the cleanup query that no other session holds (`SKIP LOCKED`). -/
def expiredReservations : List Booking :=
  (σ.view i).bookings.filter fun b =>
    b.status = .reserved ∧ b.expiresAt.any (· < began) ∧ σ.store.Free i (.bookingRow b.id)

/-- The statements of the flush that `session.commit()` makes in a cleanup pass. -/
def cleanupWrites (auditId : Nat) (expired : List Booking) : List Write :=
  (expired.map fun b => .setBooking b.id .cancelled none (some began)) ++
    expired.zipIdx.map fun (b, k) => .insertAudit (logAudit (auditId + k) began b.id systemUserId .expiredCleanup
      (some .reserved) .cancelled (.expired b.expiresAt 300) none)

/-- The next statement of a pass of `cleanup_expired_reservations`. -/
def cleanupExpiredReservations : CleanupPc → Option (Effect × CleanupPc)
  | .scan =>
    let expired := expiredReservations σ i began
    some (.lock (expired.map fun b => .bookingRow b.id), .flush expired)
  | .flush expired =>
    some (.flush [] (cleanupWrites began σ.nextAuditId expired) expired.length,
      .commit (expired.map fun b => { b with status := .cancelled, cancelledAt := some began }))
  | .commit _ => some (.commit, .finished (.ok ()))
  | .finished _ => none

end

end Railbook
