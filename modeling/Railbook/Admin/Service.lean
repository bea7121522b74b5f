import Railbook.Session
import Railbook.Library.Table
import Mathlib.Algebra.Order.Floor.Ring
import Mathlib.Data.Rat.Floor

/-! `app/admin/service.py`: the totals over all bookings, and the occupancy of every schedule. -/

namespace Railbook
open Table

/-- The answer of `get_stats`, its revenue before the conversion to a float. -/
structure Stats where
  totalBookings : Nat
  confirmedBookings : Nat
  cancelledBookings : Nat
  refundedBookings : Nat
  totalRevenue : Amount
  deriving DecidableEq, Repr

/-- `get_stats`. -/
def getStats (d : Db) : Stats where
  totalBookings := d.bookings.length
  confirmedBookings := d.bookings.countP (·.status = .confirmed)
  cancelledBookings := d.bookings.countP (·.status = .cancelled)
  refundedBookings := d.bookings.countP (·.status = .refunded)
  totalRevenue := ((d.payments.filter (·.status = .success)).map (·.amount)).sum

/-- `get_stats` between its statements, with what those before have given. Each statement reads the tables as they are
    when it runs. -/
inductive StatsPc where
  | countTotal
  | countConfirmed (total : Nat)
  | sumRevenue (total confirmed : Nat)
  | countCancelled (total confirmed : Nat) (revenue : Amount)
  | countRefunded (total confirmed : Nat) (revenue : Amount) (cancelled : Nat)
  | finished (answer : Except Exc Stats)
  deriving DecidableEq, Repr

/-- The next statement of `get_stats`. -/
def getStatsStatement (d : Db) : StatsPc → Option StatsPc
  | .countTotal => some (.countConfirmed d.bookings.length)
  | .countConfirmed total => some (.sumRevenue total (d.bookings.countP (·.status = .confirmed)))
  | .sumRevenue total confirmed =>
    some (.countCancelled total confirmed ((d.payments.filter (·.status = .success)).map (·.amount)).sum)
  | .countCancelled total confirmed revenue =>
    some (.countRefunded total confirmed revenue (d.bookings.countP (·.status = .cancelled)))
  | .countRefunded total confirmed revenue cancelled =>
    some (.finished (.ok ⟨total, confirmed, cancelled, d.bookings.countP (·.status = .refunded), revenue⟩))
  | .finished _ => none

/-- Python's `round` to an integer: the nearest one, and between two the even one. -/
def roundHalfEven (x : ℚ) : ℤ :=
  let r := x - ⌊x⌋
  if r < 1 / 2 ∨ r = 1 / 2 ∧ ⌊x⌋ % 2 = 0 then ⌊x⌋ else ⌊x⌋ + 1

/-- An entry of `get_occupancy`. -/
structure Occupancy where
  scheduleId : Uuid
  departureTime : Time
  trainId : Uuid
  bookedSeats : Nat
  totalSeats : Nat
  occupancyPct : ℚ
  deriving DecidableEq, Repr

section
variable (cat : Catalog) (d : Db)

/-- `round(booked / total_seats * 100, 1)`, over the rationals. The two roundings of the floats in it move the value by
    less than makes a difference to the tenth. -/
def occupancyPct (booked totalSeats : Nat) : ℚ := roundHalfEven ((booked : ℚ) / totalSeats * 100 * 10) / 10

/-- The entry of one group of the query. -/
def occupancyOf (schedule : Schedule) : Occupancy :=
  let rows := leftJoin (fun (s : Schedule) (b : Booking) => b.scheduleId == s.id) cat.schedules d.bookings
  let booked := (rows.filter fun row => row.1.id == schedule.id).countP fun row => row.2.any (·.status.isActive)
  let totalSeats := 50
  ⟨schedule.id, schedule.departureTime, schedule.trainId, booked, totalSeats, occupancyPct booked totalSeats⟩

/-- `get_occupancy`. The groups are the schedules, since `schedules.id` is a primary key. -/
def getOccupancy : List Occupancy :=
  (cat.schedules.insertionSort fun a b => a.departureTime ≤ b.departureTime).map (occupancyOf cat d)

end

section
variable {cat : Catalog} {d : Db} {schedule : Schedule}

/-- The entry counts the active bookings of the schedule. -/
theorem occupancyOf_bookedSeats (hs : schedule ∈ cat.schedules) : (occupancyOf cat d schedule).bookedSeats =
    d.bookings.countP fun b => b.scheduleId == schedule.id && b.status.isActive := by
  have hself : (cat.schedules.filter fun s => s.id == schedule.id) = [schedule] := by
    refine eq_singleton_of_mem (length_filter_le_one cat.schedulesKey fun s _ h => beq_iff_eq.mp h) ?_
    exact List.mem_filter.mpr ⟨hs, beq_self_eq_true _⟩
  have hgroup : (leftJoin (fun (s : Schedule) (b : Booking) => b.scheduleId == s.id) cat.schedules d.bookings).filter
      (fun row => row.1.id == schedule.id) =
        leftJoin (fun (s : Schedule) (b : Booking) => b.scheduleId == s.id) [schedule] d.bookings := by
    rw [← hself]
    exact filter_leftJoin (q := fun s : Schedule => s.id == schedule.id)
  rw [occupancyOf, hgroup]
  exact countP_leftJoin_singleton (p := fun b : Booking => b.status.isActive)

theorem mem_getOccupancy {occ : Occupancy} : occ ∈ getOccupancy cat d ↔
    ∃ s ∈ cat.schedules, occupancyOf cat d s = occ := by
  simp only [getOccupancy, List.mem_map, List.mem_insertionSort]

theorem occupancyPct_fifty (booked : Nat) : occupancyPct booked 50 = 2 * booked := by
  have hx : (booked : ℚ) / (50 : Nat) * 100 * 10 = ((20 * booked : ℤ) : ℚ) := by
    push_cast
    ring
  rw [occupancyPct, hx, roundHalfEven, Int.floor_intCast]
  simp
  ring

end

end Railbook
