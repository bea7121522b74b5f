import Railbook.Admin.Service
import Railbook.Offers
import Railbook.Seed

/-! Two reports on one schedule. `get_occupancy` counts the active bookings that name the schedule,
    `get_seat_availability` the seats of its train that no such booking names. A booking of a seat of another train is
    in the first count only. -/

namespace Railbook
open ReadCommitted Transition Table

/-- The two reports on a schedule agree, and the percentage is one. -/
def ReportsAgree (coll : Collation) (cat : Catalog) (d : Db) (schedule : Schedule) : Prop :=
  ∃ occ ∈ getOccupancy cat d, occ.scheduleId = schedule.id ∧
    ∃ payload, getSeatAvailability coll cat d schedule.id = .ok (some payload) ∧
      occ.bookedSeats = payload.totalSeats - payload.availableSeats ∧ occ.totalSeats = payload.totalSeats ∧
      0 ≤ occ.occupancyPct ∧ occ.occupancyPct ≤ 100

/-- The seat is in a compartment of the train of the schedule. -/
def trainSeat (cat : Catalog) (schedule : Schedule) (seat : Seat) : Bool :=
  (cat.compartment? seat.compartmentId).any fun c => c.trainId == schedule.trainId

/-- Every active booking of the schedule is of a seat of its train. -/
def Db.ActiveSeatsOfTrain (cat : Catalog) (d : Db) (scheduleId : Uuid) : Prop :=
  ∀ b ∈ d.bookings, b.scheduleId = scheduleId → b.status.isActive = true → SeatOfTrain cat scheduleId b.seatId

/-- Every booking that the step inserts is for a seat of the train of its schedule. -/
def InsertsOfTrain (cat : Catalog) : State → Act → Prop :=
  EveryInsert cat fun _ b => SeatOfTrain cat b.scheduleId b.seatId

instance (cat : Catalog) (σ : State) (a : Act) : Decidable (InsertsOfTrain cat σ a) :=
  inferInstanceAs (Decidable (EveryInsert cat _ σ a))

section
variable {coll : Collation} {cat : Catalog} {σ τ : State} {d : Db} {schedule : Schedule} {payload : SeatAvailability}
  {acts : List Act}

/-! ### The seat map -/

/-- At most one active booking of the schedule names a seat. -/
theorem Inv.onBooking_unique (inv : Inv σ) (scheduleId : Uuid) (seat : Seat) :
    (σ.db.bookings.filter (onBooking scheduleId seat)).length ≤ 1 := by
  have hlen : (σ.db.holders (.bookingSeat scheduleId seat.id)).length ≤ 1 :=
    (inv.holders (.bookingSeat scheduleId seat.id)).1
  rw [Db.holders, List.length_map, ← List.countP_eq_length_filter] at hlen
  rw [← List.countP_eq_length_filter]
  refine Nat.le_trans (List.countP_mono_left fun b _ h => ?_) hlen
  simp only [onBooking, Bool.and_eq_true, beq_iff_eq] at h
  simp [Booking.resources, h.1.1, h.1.2]

/-- The row of a seat on the map of a schedule, if its compartment is one of the train. -/
def seatRow? (cat : Catalog) (d : Db) (scheduleId : Uuid) (schedule : Schedule) (seat : Seat) : Option SeatDict :=
  ((cat.compartment? seat.compartmentId).filter fun c => c.trainId == schedule.trainId).map fun c =>
    ⟨seat.id, seat.seatNumber, seat.position, c.name, c.compType,
      (d.bookings.find? (onBooking scheduleId seat)).map (·.status)⟩

/-- The rows of the seat map are one for each seat of the train. -/
theorem seatRows_eq {scheduleId : Uuid} (unique : ∀ seat, (d.bookings.filter (onBooking scheduleId seat)).length ≤ 1) :
    seatRows cat d scheduleId schedule = cat.seats.filterMap (seatRow? cat d scheduleId schedule) := by
  have hcomp : ∀ row : Seat × Option Booking, (cat.compartments.filter (onCompartment row)).length ≤ 1 := fun row =>
    length_filter_le_one cat.compartmentsKey fun c _ h => (beq_iff_eq.mp h).symm
  rw [seatRows, leftJoin_eq_map fun seat _ => unique seat, join_eq_filterMap fun row _ => hcomp row, List.filterMap_map,
    List.filter_filterMap, List.map_filterMap]
  refine List.filterMap_congr fun seat _ => ?_
  have hfind : cat.compartments.find? (onCompartment (seat, d.bookings.find? (onBooking scheduleId seat))) =
      cat.compartment? seat.compartmentId := by
    refine congrArg (cat.compartments.find? ·) (funext fun c => ?_)
    exact Bool.beq_comm
  simp only [Function.comp, hfind, seatRow?]
  cases cat.compartment? seat.compartmentId with
  | none => rfl
  | some c => by_cases htrain : c.trainId = schedule.trainId <;> simp [Option.filter, htrain]

theorem countP_seatRows {scheduleId : Uuid}
    (unique : ∀ seat, (d.bookings.filter (onBooking scheduleId seat)).length ≤ 1)
    (p : Option BookingStatus → Bool) : ((seatRows cat d scheduleId schedule).countP fun row => p row.bookingStatus) =
      cat.seats.countP fun seat =>
        trainSeat cat schedule seat && p ((d.bookings.find? (onBooking scheduleId seat)).map (·.status)) := by
  rw [seatRows_eq unique, List.countP_filterMap]
  refine List.countP_congr fun seat _ => ?_
  simp only [seatRow?, trainSeat]
  cases cat.compartment? seat.compartmentId with
  | none => rfl
  | some c => by_cases htrain : c.trainId = schedule.trainId <;> simp [Option.filter, htrain]

theorem seatMap_counts (unique : ∀ seat, (d.bookings.filter (onBooking schedule.id seat)).length ≤ 1)
    (hs : cat.schedule? schedule.id = some schedule)
    (hp : getSeatAvailability coll cat d schedule.id = .ok (some payload)) :
    payload.totalSeats = cat.seats.countP (trainSeat cat schedule) ∧
      payload.totalSeats - payload.availableSeats =
        d.bookings.countP fun b => (b.scheduleId == schedule.id && b.status.isActive) &&
          cat.seats.any fun seat => trainSeat cat schedule seat && b.seatId == seat.id := by
  obtain ⟨htotal, havail⟩ := getSeatAvailability_counts hp hs
  have hall : (seatRows cat d schedule.id schedule).countP (fun _ => true) =
      cat.seats.countP fun seat => trainSeat cat schedule seat && true := countP_seatRows unique fun _ => true
  have htotal : payload.totalSeats = (cat.seats.filter (trainSeat cat schedule)).length := by
    rw [htotal, ← List.countP_true, hall, ← List.countP_eq_length_filter]
    simp only [Bool.and_true]
  have hfree : payload.availableSeats = (cat.seats.filter (trainSeat cat schedule)).countP fun seat =>
      !d.bookings.any (onBooking schedule.id seat) := by
    rw [havail, countP_seatRows unique, List.countP_filter]
    refine List.countP_congr fun seat _ => ?_
    rw [Bool.and_comm, Option.isNone_map, ← Option.not_isSome, List.isSome_find?]
  refine ⟨by rw [htotal, List.countP_eq_length_filter], ?_⟩
  -- The seats that are not free are those with an active booking, and each has one.
  have hsplit := List.length_eq_countP_add_countP (fun seat => d.bookings.any (onBooking schedule.id seat))
    (l := cat.seats.filter (trainSeat cat schedule))
  have hcomm : (cat.seats.filter (trainSeat cat schedule)).countP (fun seat =>
    d.bookings.any (onBooking schedule.id seat)) =
      d.bookings.countP fun b => (cat.seats.filter (trainSeat cat schedule)).any fun seat =>
        onBooking schedule.id seat b := by
    refine countP_any_comm (fun seat _ => unique seat) fun b _ => ?_
    refine length_filter_le_one (k := b.seatId) (cat.seatsKey.sublist (List.filter_sublist.map _)) fun seat _ h => ?_
    simp only [onBooking, Bool.and_eq_true, beq_iff_eq] at h
    exact h.1.1.symm
  have hpair : ∀ b : Booking, ((cat.seats.filter (trainSeat cat schedule)).any fun seat =>
    onBooking schedule.id seat b) =
      ((b.scheduleId == schedule.id && b.status.isActive) &&
        cat.seats.any fun seat => trainSeat cat schedule seat && b.seatId == seat.id) := by
    intro b
    rw [List.any_filter, List.and_any_distrib_left]
    refine congrArg (cat.seats.any ·) (funext fun seat => ?_)
    simp only [onBooking]
    ac_rfl
  have hnot : (cat.seats.filter (trainSeat cat schedule)).countP (fun seat =>
    !d.bookings.any (onBooking schedule.id seat)) =
      (cat.seats.filter (trainSeat cat schedule)).countP fun seat =>
        ¬d.bookings.any (onBooking schedule.id seat) = true :=
    List.countP_congr fun seat _ => by simp
  rw [htotal, hfree, hsplit, hnot, Nat.add_sub_cancel, hcomm]
  exact List.countP_congr fun b _ => by rw [hpair]

/-! ### The two counts -/

theorem any_trainSeat_iff (hs : cat.schedule? schedule.id = some schedule) {seatId : Uuid} :
    (cat.seats.any fun seat => trainSeat cat schedule seat && seatId == seat.id) = true ↔
      SeatOfTrain cat schedule.id seatId := by
  simp only [List.any_eq_true, Bool.and_eq_true, beq_iff_eq, trainSeat, Option.any_eq_true]
  constructor
  · rintro ⟨seat, hseat, ⟨c, hc, htrain⟩, rfl⟩
    exact ⟨schedule, seat, c, hs, Catalog.seat?_of_mem hseat, hc, htrain⟩
  · rintro ⟨schedule', seat, c, hs', hx, hc, htrain⟩
    obtain rfl := Option.some.inj (hs.symm.trans hs')
    obtain ⟨hseat, hid⟩ := find?_key_eq_some hx
    exact ⟨seat, hseat, ⟨c, hc, htrain⟩, hid.symm⟩

/-- The two counts of booked seats are equal when every booking that is counted has a seat on the map. -/
theorem booked_eq_iff (inv : Inv σ) (hs : schedule ∈ cat.schedules)
    (hp : getSeatAvailability coll cat σ.db schedule.id = .ok (some payload)) :
    (occupancyOf cat σ.db schedule).bookedSeats = payload.totalSeats - payload.availableSeats ↔
      σ.db.ActiveSeatsOfTrain cat schedule.id := by
  have hfind := Catalog.schedule?_of_mem hs
  rw [occupancyOf_bookedSeats hs, (seatMap_counts (inv.onBooking_unique schedule.id) hfind hp).2, countP_and_eq_iff]
  refine forall_congr' fun b => forall_congr' fun _ => ?_
  rw [any_trainSeat_iff hfind, Bool.and_eq_true, beq_iff_eq, and_imp]

/-! ### The seeded catalog -/

theorem trainSeat_seed {ids : SeedIds} {now : Time} {seat : Seat} {t t' : Fin 3} {c : Fin 2}
    (ht : schedule.trainId = ids.id (.train t)) (hc : seat.compartmentId = ids.id (.compartment t' c)) :
    trainSeat (seedDatabase ids now) schedule seat = (t' == t) := by
  obtain ⟨x, hx, hid, htrain⟩ : ∃ x ∈ seedCompartments ids, x.id = ids.id (.compartment t' c) ∧
    x.trainId = ids.id (.train t') :=
    mem_seedCompartments t' c
  have hfind : (seedDatabase ids now).compartment? seat.compartmentId = some x := by
    rw [hc, ← hid]
    exact find?_of_key (seedDatabase ids now).compartmentsKey hx
  rw [trainSeat, hfind, Option.any_some, htrain, ht, Bool.eq_iff_iff, beq_iff_eq, beq_iff_eq]
  exact ⟨fun h => SeedRow.train.inj (ids.injective h), fun h => by rw [h]⟩

theorem seed_trainSeats {ids : SeedIds} {now : Time} (hs : schedule ∈ (seedDatabase ids now).schedules) :
    (seedDatabase ids now).seats.countP (trainSeat (seedDatabase ids now) schedule) = 50 := by
  obtain ⟨⟨t, day⟩, -, hx⟩ := List.mem_map.mp hs
  have ht : schedule.trainId = ids.id (.train t) := hx ▸ rfl
  have hcount : (seedDatabase ids now).seats.countP (trainSeat (seedDatabase ids now) schedule) =
      (List.finRange 3 ×ˢ List.finRange 2 ×ˢ List.finRange 25).countP fun x => x.1 == t := by
    refine List.countP_map.trans (List.countP_congr fun x _ => ?_)
    rw [Function.comp, trainSeat_seed ht rfl]
  rw [hcount]
  clear ht hx hcount
  revert t
  decide

/-- On the seeded catalog the reports on a schedule agree exactly in the states in which its active bookings are of
    seats of its train. -/
theorem reportsAgree_iff {ids : SeedIds} {now : Time} (inv : Inv σ) (hs : schedule ∈ (seedDatabase ids now).schedules) :
    ReportsAgree coll (seedDatabase ids now) σ.db schedule ↔
      σ.db.ActiveSeatsOfTrain (seedDatabase ids now) schedule.id := by
  have hfind := Catalog.schedule?_of_mem hs
  constructor
  · rintro ⟨occ, hocc, hid, payload, hp, hbooked, -⟩
    obtain ⟨s, hs', rfl⟩ := mem_getOccupancy.mp hocc
    have hsame : (seedDatabase ids now).schedule? schedule.id = some s := by
      rw [← hid]
      exact Catalog.schedule?_of_mem hs'
    obtain rfl := Option.some.inj (hsame.symm.trans hfind)
    exact (booked_eq_iff inv hs hp).mp hbooked
  · intro hall
    obtain ⟨payload, hp⟩ := getSeatAvailability_isSome coll σ.db hfind
    have hbooked := (booked_eq_iff inv hs hp).mpr hall
    have htotal : payload.totalSeats = 50 :=
      (seatMap_counts (inv.onBooking_unique schedule.id) hfind hp).1.trans (seed_trainSeats hs)
    refine ⟨_, mem_getOccupancy.mpr ⟨schedule, hs, rfl⟩, rfl, payload, hp, hbooked, htotal.symm, ?_⟩
    -- Half as many seats as the percentage says are booked, of fifty.
    have hle : (occupancyOf (seedDatabase ids now) σ.db schedule).bookedSeats ≤ 50 := by omega
    have hpct : (occupancyOf (seedDatabase ids now) σ.db schedule).occupancyPct =
        2 * (occupancyOf (seedDatabase ids now) σ.db schedule).bookedSeats := occupancyPct_fifty _
    rw [hpct]
    have hle : ((occupancyOf (seedDatabase ids now) σ.db schedule).bookedSeats : ℚ) ≤ 50 := by exact_mod_cast hle
    constructor
    · positivity
    · linarith

/-- The two reports agree on a schedule in a reachable state of the seeded service exactly when every active booking
    of the schedule is of a seat of its train; in every state that is reached by inserts of such seats only they agree
    on every schedule. -/
theorem occupancy_agrees_iff (coll : Collation) (ids : SeedIds) (now : Time) :
    (∀ σ, Reachable (seedDatabase ids now) σ → ∀ schedule ∈ (seedDatabase ids now).schedules,
        (ReportsAgree coll (seedDatabase ids now) σ.db schedule ↔
          σ.db.ActiveSeatsOfTrain (seedDatabase ids now) schedule.id)) ∧
      ∀ start acts τ, exec (step (seedDatabase ids now)) (.seeded start) acts = some τ →
        Along (step (seedDatabase ids now)) (InsertsOfTrain (seedDatabase ids now)) (.seeded start) acts →
        ∀ schedule ∈ (seedDatabase ids now).schedules, ReportsAgree coll (seedDatabase ids now) τ.db schedule := by
  refine ⟨fun σ hr schedule hs => reportsAgree_iff (inv_of_reachableBy hr) hs,
    fun start acts τ run along schedule hs => ?_⟩
  have hτ : Reachable (seedDatabase ids now) τ := reachable_exec (.start ⟨start, rfl⟩) run
  have hall : τ.AllBookings fun b => SeatOfTrain (seedDatabase ids now) b.scheduleId b.seatId :=
    (allBookings_seeded start).exec SeatOfTrain.fixed (fun h => h) along run
  refine (reportsAgree_iff (inv_of_reachableBy hτ) hs).mpr fun b hb hid _ => ?_
  exact hid ▸ hall.stored b hb

/-- A seat of the first train and one of the second are booked for schedules of their trains. -/
theorem occupancy_agrees_run : ∃ τ, exec (step (seedDatabase sampleIds 0)) (.seeded 0)
      (.request (.create ⟨2, 30, 100, 50, none⟩) :: runs 0 9 60 ++ .request (.create ⟨3, 37, 150, 51, none⟩) ::
        runs 1 9 61) =
        some τ ∧ τ.db.bookings.length = 2 ∧
    ∀ schedule ∈ (seedDatabase sampleIds 0).schedules,
      ReportsAgree .codePoints (seedDatabase sampleIds 0) τ.db schedule := by
  have hrun : (exec (step (seedDatabase sampleIds 0)) (.seeded 0)
    (.request (.create ⟨2, 30, 100, 50, none⟩) :: runs 0 9 60 ++
      .request (.create ⟨3, 37, 150, 51, none⟩) :: runs 1 9 61)).any (fun τ : State => τ.db.bookings.length = 2) =
        true := by
    decide
  have along : Along (step (seedDatabase sampleIds 0)) (InsertsOfTrain (seedDatabase sampleIds 0)) (.seeded 0)
      (.request (.create ⟨2, 30, 100, 50, none⟩) :: runs 0 9 60 ++ .request (.create ⟨3, 37, 150, 51, none⟩) ::
        runs 1 9 61) := by
    decide
  obtain ⟨τ, hτ, hlen⟩ := (Option.any_eq_true _ _).mp hrun
  exact ⟨τ, hτ, of_decide_eq_true hlen, (occupancy_agrees_iff .codePoints sampleIds 0).2 0 _ τ hτ along⟩

/-- A seat of the second train is booked for a schedule of the first: one seat is booked, and all fifty
    are available. -/
theorem foreign_seat_counted : ¬∀ (coll : Collation) (ids : SeedIds) (now : Time) (σ : State),
    Reachable (seedDatabase ids now) σ → ∀ schedule ∈ (seedDatabase ids now).schedules,
      ReportsAgree coll (seedDatabase ids now) σ.db schedule := by
  intro h
  have hrun : (exec (step (seedDatabase sampleIds 0)) (.seeded 0)
      (.request (.create ⟨2, 30, 150, 50, none⟩) :: runs 0 9 60)).any (fun σ : State =>
        (∃ b ∈ σ.db.bookings, b.scheduleId = 30 ∧ b.status.isActive = true ∧
          ¬SeatOfTrain (seedDatabase sampleIds 0) 30 b.seatId) ∧
        ∃ s ∈ (seedDatabase sampleIds 0).schedules, s.id = 30) = true := by decide
  obtain ⟨σ, hσ, htest⟩ := reachable_of_run hrun
  obtain ⟨⟨b, hb, hid, hact, hseat⟩, s, hs, hsid⟩ := of_decide_eq_true htest
  have hall := (reportsAgree_iff (inv_of_reachableBy hσ) hs).mp (h .codePoints sampleIds 0 σ hσ s hs)
  rw [hsid] at hall
  exact hseat (hall b hb hid hact)

end

end Railbook
