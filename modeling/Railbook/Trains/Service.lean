import Railbook.Session
import Railbook.Library.Table

/-! `app/trains/service.py`: the schedules of a train and the seat map of a schedule. -/

namespace Railbook
open Table

/-- `seat_dict`. -/
structure SeatDict where
  id : Uuid
  seatNumber : Int
  position : String
  compartmentName : String
  compType : CompType
  bookingStatus : Option BookingStatus
  deriving DecidableEq, Repr

/-- `payload`. -/
structure SeatAvailability where
  scheduleId : Uuid
  trainName : String
  totalSeats : Nat
  availableSeats : Nat
  seats : List SeatDict
  deriving DecidableEq, Repr

section
variable (coll : Collation) (cat : Catalog) (d : Db)

/-- `list_schedules`, for which `now()` gives `now`. -/
def listSchedules (now : Time) (trainId : Uuid) : List Schedule :=
  (cat.schedules.filter fun s => s.trainId == trainId && now < s.departureTime).insertionSort fun a b =>
    a.departureTime ≤ b.departureTime

/-- The condition of the outer join with `bookings`. -/
def onBooking (scheduleId : Uuid) (seat : Seat) (b : Booking) : Bool :=
  b.seatId == seat.id && b.scheduleId == scheduleId && b.status.isActive

/-- The condition of the join with `compartments`. -/
def onCompartment (row : Seat × Option Booking) (c : Compartment) : Bool := row.1.compartmentId == c.id

/-- The rows of the query, before they are sorted. -/
def seatRows (scheduleId : Uuid) (schedule : Schedule) : List SeatDict :=
  let joined := join onCompartment (leftJoin (onBooking scheduleId) cat.seats d.bookings) cat.compartments
  (joined.filter fun row => row.2.trainId == schedule.trainId).map fun ((seat, b), c) =>
    ⟨seat.id, seat.seatNumber, seat.position, c.name, c.compType, b.map (·.status)⟩

/-- `order_by(Compartment.name, Seat.seat_number)`. -/
def SeatDict.le : SeatDict → SeatDict → Bool :=
  thenBy (fun a b => coll.le a.compartmentName b.compartmentName) fun a b => a.seatNumber ≤ b.seatNumber

/-- `get_seat_availability` without a cache. -/
def getSeatAvailability (scheduleId : Uuid) : Except Exc (Option SeatAvailability) :=
  match cat.schedule? scheduleId with
  | none => .ok none
  | some schedule =>
    let seats := (seatRows cat d scheduleId schedule).insertionSort fun a b => SeatDict.le coll a b
    match cat.train? schedule.trainId with
    | none => .error .attributeError
    | some train =>
      .ok (some ⟨scheduleId, train.name, seats.length, seats.countP (·.bookingStatus.isNone), seats⟩)

end

/-- The seat map reports seat `seatId` with no booking status. -/
def SeatAvailability.Offers (payload : SeatAvailability) (seatId : Uuid) : Prop :=
  ∃ row ∈ payload.seats, row.id = seatId ∧ row.bookingStatus = none

section
variable {coll : Collation} {cat : Catalog} {d : Db} {scheduleId seatId : Uuid} {schedule : Schedule}
  {payload : SeatAvailability}

theorem mem_listSchedules {now : Time} {trainId : Uuid} : schedule ∈ listSchedules cat now trainId ↔
    schedule ∈ cat.schedules ∧ schedule.trainId = trainId ∧ now < schedule.departureTime := by
  simp [listSchedules]

/-- A stored schedule has a seat map. -/
theorem getSeatAvailability_isSome (coll : Collation) (d : Db) (hs : cat.schedule? scheduleId = some schedule) :
    ∃ payload, getSeatAvailability coll cat d scheduleId = .ok (some payload) := by
  obtain ⟨train, ht⟩ := Catalog.train?_of_schedule (find?_key_eq_some hs).1
  simp only [getSeatAvailability, hs, ht]
  exact ⟨_, rfl⟩

theorem getSeatAvailability_some (h : getSeatAvailability coll cat d scheduleId = .ok (some payload)) :
    ∃ schedule, cat.schedule? scheduleId = some schedule ∧
      payload.seats = (seatRows cat d scheduleId schedule).insertionSort fun a b => SeatDict.le coll a b := by
  simp only [getSeatAvailability] at h
  split at h
  · cases h
  · rename_i schedule hs
    split at h
    · cases h
    · cases h
      exact ⟨schedule, hs, rfl⟩

theorem getSeatAvailability_counts (h : getSeatAvailability coll cat d scheduleId = .ok (some payload))
    (hs : cat.schedule? scheduleId = some schedule) : payload.totalSeats = (seatRows cat d scheduleId schedule).length ∧
      payload.availableSeats = (seatRows cat d scheduleId schedule).countP fun row => row.bookingStatus.isNone := by
  simp only [getSeatAvailability, hs] at h
  split at h
  · cases h
  · cases h
    exact ⟨List.length_insertionSort _ _, (List.perm_insertionSort _ _).countP_eq _⟩

/-- A row without a status stands for a seat of the train that no active booking of the schedule names. -/
theorem seatRows_none : (∃ row ∈ seatRows cat d scheduleId schedule, row.id = seatId ∧ row.bookingStatus = none) ↔
    (∃ seat ∈ cat.seats, seat.id = seatId ∧ ∃ c ∈ cat.compartments, c.id = seat.compartmentId ∧
        c.trainId = schedule.trainId) ∧
      ∀ b ∈ d.bookings, b.scheduleId = scheduleId → b.seatId = seatId → b.status.isActive = false := by
  simp only [seatRows, List.mem_map, List.mem_filter, Prod.exists, beq_iff_eq]
  constructor
  · rintro ⟨_, ⟨seat, b, c, ⟨hjoin, htrain⟩, rfl⟩, rfl, hst⟩
    obtain rfl : b = none := by simpa using hst
    obtain ⟨hrow, hc, hid⟩ := mem_join.mp hjoin
    obtain ⟨hseat, hfree⟩ := mem_leftJoin_none.mp hrow
    refine ⟨⟨seat, hseat, rfl, c, hc, (beq_iff_eq.mp hid).symm, htrain⟩, fun b hb hs hx => ?_⟩
    simpa [onBooking, hs, hx] using hfree b hb
  · rintro ⟨⟨seat, hseat, rfl, c, hc, hid, htrain⟩, hfree⟩
    have hrow : (seat, none) ∈ leftJoin (onBooking scheduleId) cat.seats d.bookings := by
      refine mem_leftJoin_none.mpr ⟨hseat, fun b hb => ?_⟩
      by_cases hpair : b.scheduleId = scheduleId ∧ b.seatId = seat.id
      · simp [onBooking, hfree b hb hpair.1 hpair.2]
      · rcases not_and_or.mp hpair with hs | hx
        · simp [onBooking, hs]
        · simp [onBooking, hx]
    have hon : onCompartment (seat, none) c = true := beq_iff_eq.mpr hid.symm
    exact ⟨_, ⟨seat, none, c, ⟨mem_join.mpr ⟨hrow, hc, hon⟩, htrain⟩, rfl⟩, rfl, rfl⟩

theorem offers_iff (h : getSeatAvailability coll cat d scheduleId = .ok (some payload))
    (hs : cat.schedule? scheduleId = some schedule) : payload.Offers seatId ↔
      (∃ seat ∈ cat.seats, seat.id = seatId ∧ ∃ c ∈ cat.compartments, c.id = seat.compartmentId ∧
          c.trainId = schedule.trainId) ∧
        ∀ b ∈ d.bookings, b.scheduleId = scheduleId → b.seatId = seatId → b.status.isActive = false := by
  obtain ⟨schedule', hs', hseats⟩ := getSeatAvailability_some h
  obtain rfl : schedule = schedule' := Option.some.inj (hs.symm.trans hs')
  simp only [SeatAvailability.Offers, hseats, List.mem_insertionSort, seatRows_none]

theorem SeatAvailability.Offers.stored (h : payload.Offers seatId)
    (hp : getSeatAvailability coll cat d scheduleId = .ok (some payload)) :
    (∃ schedule, cat.schedule? scheduleId = some schedule) ∧ (cat.seat? seatId).isSome = true := by
  obtain ⟨schedule, hs, -⟩ := getSeatAvailability_some hp
  obtain ⟨⟨seat, hseat, rfl, -⟩, -⟩ := (offers_iff hp hs).mp h
  exact ⟨⟨schedule, hs⟩, by rw [Catalog.seat?_of_mem hseat, Option.isSome_some]⟩

end

end Railbook
