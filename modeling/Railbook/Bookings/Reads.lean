import Railbook.Session
import Railbook.Library.Table

/-! The read side of `app/bookings/service.py` and the two `GET` routes of `app/bookings/router.py`. Rows that
    `ORDER BY` does not separate come in the order in which the database scans the table, so a query that sorts is given
    the rows in that order. -/

namespace Railbook

/-- `BookingResponse`. -/
structure BookingResponse where
  id : Uuid
  userId : Uuid
  scheduleId : Uuid
  seatId : Uuid
  status : BookingStatus
  totalAmount : Amount
  reservedAt : Time
  expiresAt : Option Time
  confirmedAt : Option Time
  cancelledAt : Option Time
  idempotencyKey : Uuid
  trainName : String
  trainNumber : String
  origin : String
  destination : String
  compartmentName : String
  compType : CompType
  seatNumber : Int
  departureTime : Time
  arrivalTime : Time
  deriving DecidableEq, Repr

/-- An attribute is read of an object that may be `None`. -/
def ofNone {α : Type} : Option α → Except Exc α
  | none => .error .attributeError
  | some x => .ok x

/-- The dictionary that `enrich_booking` returns. -/
def bookingResponse (booking : Booking) (schedule : Schedule) (train : Train) (seat : Seat)
    (compartment : Compartment) : BookingResponse where
  id := booking.id
  userId := booking.userId
  scheduleId := booking.scheduleId
  seatId := booking.seatId
  status := booking.status
  totalAmount := booking.totalAmount
  reservedAt := booking.reservedAt
  expiresAt := booking.expiresAt
  confirmedAt := booking.confirmedAt
  cancelledAt := booking.cancelledAt
  idempotencyKey := booking.idempotencyKey
  trainName := train.name
  trainNumber := train.trainNumber
  origin := train.origin
  destination := train.destination
  compartmentName := compartment.name
  compType := compartment.compType
  seatNumber := seat.seatNumber
  departureTime := schedule.departureTime
  arrivalTime := schedule.arrivalTime

/-- `enrich_booking`. A missing object raises where the first attribute of it is read, which is in this order. -/
def enrichBooking (cat : Catalog) (booking : Option Booking) : Except Exc BookingResponse := do
  let booking ← ofNone booking
  let schedule ← ofNone (cat.schedule? booking.scheduleId)
  let seat ← ofNone (cat.seat? booking.seatId)
  let train ← ofNone (cat.train? schedule.trainId)
  let compartment ← ofNone (cat.compartment? seat.compartmentId)
  return bookingResponse booking schedule train seat compartment

/-- `list_user_bookings`. An empty filter is none, and the database accepts no filter that is no text. -/
def listUserBookings (scan : List Booking) (userId : Uuid) (statusFilter : Option String) : Except Exc (List Booking) :=
  if statusFilter.all isText = false then .error .databaseError
  else
    let rows := scan.filter (·.userId == userId)
    let rows := match statusFilter with
      | none => rows
      | some status => if status = "" then rows else rows.filter (·.status.value == status)
    .ok (rows.insertionSort fun a b => b.reservedAt ≤ a.reservedAt)

/-- `get_booking`. -/
def getBooking (d : Db) (bookingId : Uuid) : Except Exc (Option Booking) :=
  scalarOneOrNone (d.bookings.filter (·.id == bookingId))

namespace Router

/-- `GET /bookings` for the user. -/
def listBookings (cat : Catalog) (scan : List Booking) (user : Uuid) (status : Option String) :
    Except Exc (List BookingResponse) := do
  (← listUserBookings scan user status).mapM fun b => enrichBooking cat (some b)

/-- `GET /bookings/{id}` for the user. -/
def get (cat : Catalog) (d : Db) (_user : Uuid) (bookingId : Uuid) : Except Exc BookingResponse := do
  enrichBooking cat (← getBooking d bookingId)

end Router

section
variable {cat : Catalog} {d : Db} {b : Booking} {user : Uuid} {statusFilter : Option String} {scan : List Booking}

@[simp] theorem ofNone_some_bind {α β : Type} (x : α) (f : α → Except Exc β) : (ofNone (some x) >>= f) = f x := rfl

/-- A booking whose foreign keys are stored is shown. -/
theorem enrichBooking_stored (hs : (cat.schedule? b.scheduleId).isSome = true)
    (hx : (cat.seat? b.seatId).isSome = true) :
    ∃ r, enrichBooking cat (some b) = .ok r ∧ r.id = b.id ∧ r.userId = b.userId := by
  obtain ⟨schedule, hs⟩ := Option.isSome_iff_exists.mp hs
  obtain ⟨seat, hx⟩ := Option.isSome_iff_exists.mp hx
  obtain ⟨train, ht⟩ := Catalog.train?_of_schedule (find?_key_eq_some hs).1
  obtain ⟨compartment, hc⟩ := Catalog.compartment?_of_seat (find?_key_eq_some hx).1
  refine ⟨bookingResponse b schedule train seat compartment, ?_, rfl, rfl⟩
  calc enrichBooking cat (some b)
    _ = ofNone (cat.schedule? b.scheduleId) >>= fun schedule => ofNone (cat.seat? b.seatId) >>= fun seat =>
        ofNone (cat.train? schedule.trainId) >>= fun train =>
        ofNone (cat.compartment? seat.compartmentId) >>= fun compartment =>
        pure (bookingResponse b schedule train seat compartment) := rfl
    _ = .ok (bookingResponse b schedule train seat compartment) := by
      rw [hs, ofNone_some_bind, hx, ofNone_some_bind, ht, ofNone_some_bind, hc, ofNone_some_bind]
      rfl

theorem mem_listUserBookings {rows : List Booking} (h : listUserBookings scan user statusFilter = .ok rows)
    (hb : b ∈ rows) : b ∈ scan ∧ b.userId = user := by
  rw [listUserBookings] at h
  split at h
  · cases h
  · cases h
    rw [List.mem_insertionSort] at hb
    have hrow : b ∈ scan.filter (·.userId == user) := by
      split at hb
      · exact hb
      · split at hb
        · exact hb
        · exact List.mem_of_mem_filter hb
    simpa using hrow

/-- The query fails only for a filter that is no text. -/
theorem listUserBookings_text (text : statusFilter.all isText = true) :
    ∃ rows, listUserBookings scan user statusFilter = .ok rows := by
  rw [listUserBookings, if_neg (by rw [text]; decide)]
  exact ⟨_, rfl⟩

/-- The list is made of the rows of the user. -/
theorem listUserBookings_congr {scan' : List Booking}
    (h : scan.filter (·.userId == user) = scan'.filter (·.userId == user)) :
    listUserBookings scan user statusFilter = listUserBookings scan' user statusFilter := by
  simp only [listUserBookings, h]

end

end Railbook
