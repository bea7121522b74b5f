import Mathlib.Data.List.Nodup

/-! The tables of the railway booking service (`app/models.py`). A column that no modelled function reads or
    writes is left out. Times are microseconds on one clock, amounts are hundredths (`Numeric(10, 2)`). -/

namespace Railbook

/-- The ids and keys of the tables. -/
abbrev Uuid := Nat
/-- Microseconds on one clock. -/
abbrev Time := Int
/-- Hundredths. -/
abbrev Amount := Nat

/-- The hexadecimal digits of `MOCK-xxxxxxxx`. -/
abbrev GatewayRef := Nat

/-- `timedelta(minutes=n)`. -/
def timedeltaMinutes (n : Int) : Time := n * 60000000
/-- `timedelta(hours=n)`. -/
def timedeltaHours (n : Int) : Time := n * 3600000000

/-- `SYSTEM_USER_ID` of `app/seed.py`. -/
def systemUserId : Uuid := 0

/-- The values of `bookings.status`. -/
inductive BookingStatus where
  | reserved | confirmed | cancelled | refunded
  deriving DecidableEq, Repr

namespace BookingStatus

/-- The text stored in the column. -/
def value : BookingStatus → String
  | reserved => "reserved"
  | confirmed => "confirmed"
  | cancelled => "cancelled"
  | refunded => "refunded"

/-- The statuses of `status.in_(["reserved", "confirmed"])`. -/
def isActive : BookingStatus → Bool
  | reserved | confirmed => true
  | cancelled | refunded => false

end BookingStatus

/-- The values of `payments.status`. -/
inductive PaymentStatus where
  | pending | success | failed
  deriving DecidableEq, Repr

/-- The values of `audit_trail.action`. -/
inductive AuditAction where
  | reserved | paymentAttempted | confirmed | paymentFailed | refunded | expiredCleanup
  deriving DecidableEq, Repr

/-- The values of `compartments.comp_type`. -/
inductive CompType where
  | ac | nonAc
  deriving DecidableEq, Repr

/-- A row of `users`. -/
structure User where
  id : Uuid
  deriving DecidableEq, Repr

/-- A row of `trains`. -/
structure Train where
  id : Uuid
  name : String
  trainNumber : String
  origin : String
  destination : String
  deriving DecidableEq, Repr

/-- A row of `schedules`. -/
structure Schedule where
  id : Uuid
  trainId : Uuid
  departureTime : Time
  arrivalTime : Time
  deriving DecidableEq, Repr

/-- A row of `compartments`. -/
structure Compartment where
  id : Uuid
  trainId : Uuid
  name : String
  compType : CompType
  deriving DecidableEq, Repr

/-- A row of `seats`. -/
structure Seat where
  id : Uuid
  compartmentId : Uuid
  seatNumber : Int
  position : String
  deriving DecidableEq, Repr

/-- A row of `bookings`. -/
structure Booking where
  id : Uuid
  userId : Uuid
  scheduleId : Uuid
  seatId : Uuid
  status : BookingStatus
  idempotencyKey : Uuid
  reservedAt : Time
  expiresAt : Option Time
  confirmedAt : Option Time
  cancelledAt : Option Time
  totalAmount : Amount
  deriving DecidableEq, Repr

/-- A row of `payments`, but for its primary key, which nothing reads. -/
structure Payment where
  bookingId : Uuid
  idempotencyKey : Uuid
  amount : Amount
  status : PaymentStatus
  gatewayRef : Option GatewayRef
  attemptedAt : Time
  completedAt : Option Time
  failureReason : Option String
  deriving DecidableEq, Repr

/-- The JSON objects that `log_audit` is given. -/
inductive AuditMetadata where
  | empty
  | reserved (scheduleId seatId : Uuid)
  | gatewayRef (ref : Option GatewayRef)
  | failureReason (reason : Option String)
  | expired (expiredAt : Option Time) (ttlSeconds : Nat)
  deriving DecidableEq, Repr

/-- A row of `audit_trail`. -/
structure AuditTrail where
  id : Nat
  bookingId : Uuid
  userId : Uuid
  action : AuditAction
  previousStatus : Option BookingStatus
  newStatus : BookingStatus
  metadata : AuditMetadata
  ipAddress : Option String
  createdAt : Time
  deriving DecidableEq, Repr

/-! ### The catalog -/

/-- The tables that no booking operation writes, with their primary and foreign keys. -/
structure Catalog where
  users : List User
  trains : List Train
  schedules : List Schedule
  compartments : List Compartment
  seats : List Seat
  usersKey : (users.map (·.id)).Nodup
  trainsKey : (trains.map (·.id)).Nodup
  schedulesKey : (schedules.map (·.id)).Nodup
  compartmentsKey : (compartments.map (·.id)).Nodup
  seatsKey : (seats.map (·.id)).Nodup
  schedulesTrain : ∀ s ∈ schedules, ∃ t ∈ trains, t.id = s.trainId
  compartmentsTrain : ∀ c ∈ compartments, ∃ t ∈ trains, t.id = c.trainId
  seatsCompartment : ∀ x ∈ seats, ∃ c ∈ compartments, c.id = x.compartmentId
  systemUser : ∃ u ∈ users, u.id = systemUserId

namespace Catalog
variable (cat : Catalog)

/-- `session.get(User, id)`, and in the same way for the other tables. -/
def user? (id : Uuid) : Option User := cat.users.find? (·.id == id)
/-- `session.get(Train, id)`. -/
def train? (id : Uuid) : Option Train := cat.trains.find? (·.id == id)
/-- `session.get(Schedule, id)`. -/
def schedule? (id : Uuid) : Option Schedule := cat.schedules.find? (·.id == id)
/-- `session.get(Compartment, id)`. -/
def compartment? (id : Uuid) : Option Compartment := cat.compartments.find? (·.id == id)
/-- `session.get(Seat, id)`. -/
def seat? (id : Uuid) : Option Seat := cat.seats.find? (·.id == id)

end Catalog

/-- In a table with distinct keys, looking a key up finds the row that has it. -/
theorem find?_of_key {α : Type} {f : α → Uuid} {l : List α} (key : (l.map f).Nodup) {x : α} (hx : x ∈ l) :
    l.find? (fun y => f y == f x) = some x := by
  induction l with
  | nil => cases hx
  | cons y l ih =>
    rw [List.map_cons, List.nodup_cons] at key
    rcases List.mem_cons.mp hx with rfl | hx
    · simp
    · have hne : f y ≠ f x := fun e => key.1 (e ▸ List.mem_map_of_mem hx)
      rw [List.find?_cons_of_neg (by simpa using hne)]
      exact ih key.2 hx

theorem find?_key_eq_some {α : Type} {f : α → Uuid} {l : List α} {id : Uuid} {x : α}
    (h : l.find? (fun y => f y == id) = some x) : x ∈ l ∧ f x = id :=
  ⟨List.mem_of_find?_eq_some h, by simpa using List.find?_some h⟩

theorem find?_key_eq_none {α : Type} {f : α → Uuid} {l : List α} {id : Uuid} :
    l.find? (fun y => f y == id) = none ↔ ∀ x ∈ l, f x ≠ id := by
  simp

namespace Catalog
variable {cat : Catalog}

theorem schedule?_of_mem {s : Schedule} (h : s ∈ cat.schedules) : cat.schedule? s.id = some s :=
  find?_of_key cat.schedulesKey h

theorem seat?_of_mem {x : Seat} (h : x ∈ cat.seats) : cat.seat? x.id = some x :=
  find?_of_key cat.seatsKey h

theorem train?_of_schedule {s : Schedule} (h : s ∈ cat.schedules) : ∃ t, cat.train? s.trainId = some t := by
  obtain ⟨t, ht, hid⟩ := cat.schedulesTrain s h
  exact ⟨t, hid ▸ find?_of_key cat.trainsKey ht⟩

theorem compartment?_of_seat {x : Seat} (h : x ∈ cat.seats) : ∃ c, cat.compartment? x.compartmentId = some c := by
  obtain ⟨c, hc, hid⟩ := cat.seatsCompartment x h
  exact ⟨c, hid ▸ find?_of_key cat.compartmentsKey hc⟩

end Catalog

end Railbook
