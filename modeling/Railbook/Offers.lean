import Railbook.Inserts
import Railbook.Trains.Service

/-! What is booked against what is offered. A passenger finds a seat by way of its train: `list_schedules`
    shows the departures that are still to come, `get_seat_availability` the seats of the compartments of the
    train. `create_booking` takes the two ids as they are sent, and finds out that they are stored and that the
    pair is free. -/

namespace Railbook
open ReadCommitted Transition Table

/-- The pair is on offer at time `now`: the schedule is listed for its train, and its seat map shows the seat with no
    booking. -/
def OnOffer (coll : Collation) (cat : Catalog) (d : Db) (now : Time) (scheduleId seatId : Uuid) : Prop :=
  (∃ schedule, cat.schedule? scheduleId = some schedule ∧ schedule ∈ listSchedules cat now schedule.trainId) ∧
    ∃ payload, getSeatAvailability coll cat d scheduleId = .ok (some payload) ∧ payload.Offers seatId

/-- The seat is one of the train that runs the schedule. -/
def SeatOfTrain (cat : Catalog) (scheduleId seatId : Uuid) : Prop :=
  ∃ schedule seat c, cat.schedule? scheduleId = some schedule ∧ cat.seat? seatId = some seat ∧
    cat.compartment? seat.compartmentId = some c ∧ c.trainId = schedule.trainId

/-- The schedule has not departed. -/
def Departs (cat : Catalog) (now : Time) (scheduleId : Uuid) : Prop :=
  ∃ schedule, cat.schedule? scheduleId = some schedule ∧ now < schedule.departureTime

instance (cat : Catalog) (scheduleId seatId : Uuid) : Decidable (SeatOfTrain cat scheduleId seatId) :=
  decidable_of_iff ((cat.schedule? scheduleId).any (fun schedule => (cat.seat? seatId).any fun seat =>
    (cat.compartment? seat.compartmentId).any fun c => c.trainId = schedule.trainId) = true) (by
      simp only [Option.any_eq_true, decide_eq_true_eq, SeatOfTrain]
      exact ⟨fun ⟨schedule, hs, seat, hx, c, hc, h⟩ => ⟨schedule, seat, c, hs, hx, hc, h⟩,
        fun ⟨schedule, seat, c, hs, hx, hc, h⟩ => ⟨schedule, hs, seat, hx, c, hc, h⟩⟩)

instance (cat : Catalog) (now : Time) (scheduleId : Uuid) : Decidable (Departs cat now scheduleId) :=
  decidable_of_iff ((cat.schedule? scheduleId).any (fun schedule => now < schedule.departureTime) = true) (by
    simp [Departs, Option.any_eq_true])

/-- Every booking that the step inserts was on offer when it was inserted. -/
def InsertsOffered (coll : Collation) (cat : Catalog) : State → Act → Prop :=
  EveryInsert cat fun σ b => OnOffer coll cat σ.db σ.now b.scheduleId b.seatId

/-- Every booking that the step inserts is for a schedule that departs later, and a seat of its train. -/
def InsertsDeparting (cat : Catalog) : State → Act → Prop :=
  EveryInsert cat fun σ b => Departs cat σ.now b.scheduleId ∧ SeatOfTrain cat b.scheduleId b.seatId

instance (cat : Catalog) (σ : State) (a : Act) : Decidable (InsertsDeparting cat σ a) :=
  inferInstanceAs (Decidable (EveryInsert cat _ σ a))

/-- The seat of every booking is one of the train of its schedule. -/
def Db.SeatsOfTrain (cat : Catalog) (d : Db) : Prop := ∀ b ∈ d.bookings, SeatOfTrain cat b.scheduleId b.seatId

instance (cat : Catalog) (d : Db) : Decidable (d.SeatsOfTrain cat) := inferInstanceAs (Decidable (∀ _ ∈ _, _))

section
variable {coll : Collation} {cat : Catalog} {σ τ : State} {d : Db} {now : Time} {scheduleId seatId : Uuid}
  {acts : List Act} {a : Act}

/-- What the catalog has to say of a seat on the map of a schedule. -/
theorem seatOfTrain_iff {schedule : Schedule} (hs : cat.schedule? scheduleId = some schedule) :
    SeatOfTrain cat scheduleId seatId ↔ ∃ seat ∈ cat.seats, seat.id = seatId ∧
      ∃ c ∈ cat.compartments, c.id = seat.compartmentId ∧ c.trainId = schedule.trainId := by
  constructor
  · rintro ⟨schedule', seat, c, hs', hx, hc, htrain⟩
    obtain rfl := Option.some.inj (hs.symm.trans hs')
    obtain ⟨hseat, hid⟩ := find?_key_eq_some hx
    obtain ⟨hcomp, hcid⟩ := find?_key_eq_some hc
    exact ⟨seat, hseat, hid, c, hcomp, hcid, htrain⟩
  · rintro ⟨seat, hseat, rfl, c, hc, hid, htrain⟩
    exact ⟨schedule, seat, c, hs, Catalog.seat?_of_mem hseat, hid ▸ find?_of_key cat.compartmentsKey hc, htrain⟩

theorem onOffer_iff : OnOffer coll cat d now scheduleId seatId ↔
    Departs cat now scheduleId ∧ SeatOfTrain cat scheduleId seatId ∧
      ∀ b ∈ d.bookings, b.scheduleId = scheduleId → b.seatId = seatId → b.status.isActive = false := by
  constructor
  · rintro ⟨⟨schedule, hs, hlist⟩, payload, hp, hoffer⟩
    obtain ⟨hseat, hfree⟩ := (offers_iff hp hs).mp hoffer
    exact ⟨⟨schedule, hs, (mem_listSchedules.mp hlist).2.2⟩, (seatOfTrain_iff hs).mpr hseat, hfree⟩
  · rintro ⟨⟨schedule, hs, hdep⟩, hseat, hfree⟩
    obtain ⟨payload, hp⟩ := getSeatAvailability_isSome coll d hs
    refine ⟨⟨schedule, hs, mem_listSchedules.mpr ⟨(find?_key_eq_some hs).1, rfl, hdep⟩⟩, payload, hp, ?_⟩
    exact (offers_iff hp hs).mpr ⟨(seatOfTrain_iff hs).mp hseat, hfree⟩

/-- An insert that passes finds the pair free; what is left of the offer is the departure and the train. -/
theorem insertsOffered_iff (hr : Reachable cat σ) : InsertsOffered coll cat σ a ↔ InsertsDeparting cat σ a := by
  refine forall_congr' fun b => forall_congr' fun hb => onOffer_iff.trans ?_
  obtain ⟨-, -, q, -, ins⟩ := inserted_of_mem hr hb
  refine and_congr_right fun _ => and_iff_left fun b' hb' hs hx => ?_
  exact absurd ⟨hs, hx⟩ (ins.vacant b' hb')

theorem SeatOfTrain.fixed {b b' : Booking} (hf : b'.fixed = b.fixed) (h : SeatOfTrain cat b.scheduleId b.seatId) :
    SeatOfTrain cat b'.scheduleId b'.seatId := by
  rwa [Booking.scheduleId_of_fixed hf, Booking.seatId_of_fixed hf]

/-- A run books offered seats only, and every booking in every state that it passes has a seat of its train,
    exactly when every `create_booking` that inserts in it asks for a schedule that departs later and for a seat of
    its train. -/
theorem booked_offered_iff {now : Time} (run : exec (step cat) (.seeded now) acts = some τ) :
    (Along (step cat) (fun σ a => InsertsOffered coll cat σ a ∧ σ.db.SeatsOfTrain cat) (.seeded now) acts ∧
        τ.db.SeatsOfTrain cat) ↔
      Along (step cat) (InsertsDeparting cat) (.seeded now) acts := by
  refine ⟨fun h => h.1.mono fun σ a hstep b hb => ?_, fun along => ?_⟩
  · obtain ⟨hdep, hseat, -⟩ := onOffer_iff.mp (hstep.1 b hb)
    exact ⟨hdep, hseat⟩
  · have keep : ∀ (σ : State) (a : Act) (τ : State),
      (Reachable cat σ ∧ σ.AllBookings fun b => SeatOfTrain cat b.scheduleId b.seatId) →
        InsertsDeparting cat σ a → step cat σ a = some τ →
        Reachable cat τ ∧ τ.AllBookings fun b => SeatOfTrain cat b.scheduleId b.seatId :=
          fun σ a τ ⟨hr, hall⟩ ha hstep =>
      ⟨hr.next trivial hstep, hall.step SeatOfTrain.fixed (fun b hb => (ha b hb).2) hstep⟩
    have start := And.intro (Reach.start ⟨now, rfl⟩ : Reachable cat (.seeded now))
      (allBookings_seeded (P := fun b => SeatOfTrain cat b.scheduleId b.seatId) now)
    refine ⟨along.of_invariant keep (fun σ a hσ ha => ⟨(insertsOffered_iff hσ.1).mpr ha, hσ.2.stored⟩) start, ?_⟩
    exact (exec_invariant keep start along run).2.stored

/-- Two trains with one schedule and one seat each. -/
def twoTrains : Catalog where
  users := [⟨systemUserId⟩, ⟨1⟩]
  trains := [⟨10, "Subarna Express", "SE-701", "Dhaka", "Chittagong"⟩,
    ⟨11, "Ekota Express", "EE-501", "Dhaka", "Rajshahi"⟩]
  schedules := [⟨20, 10, timedeltaHours 6, timedeltaHours 12⟩, ⟨21, 11, timedeltaHours 10, timedeltaHours 16⟩]
  compartments := [⟨30, 10, "AC-1", .ac⟩, ⟨31, 11, "AC-1", .ac⟩]
  seats := [⟨40, 30, 1, "window"⟩, ⟨41, 31, 1, "window"⟩]
  usersKey := by decide
  trainsKey := by decide
  schedulesKey := by decide
  compartmentsKey := by decide
  seatsKey := by decide
  schedulesTrain := by decide
  compartmentsTrain := by decide
  seatsCompartment := by decide
  systemUser := by decide

/-- A seat of its own train is booked for the schedule. -/
theorem booked_offered_run :
    ∃ τ, exec (step twoTrains) (.seeded 0) (.request (.create ⟨1, 20, 40, 50, none⟩) :: runs 0 9 60) =
      some τ ∧ τ.db.bookings ≠ [] ∧
    Along (step twoTrains) (fun σ a => InsertsOffered .codePoints twoTrains σ a ∧ σ.db.SeatsOfTrain twoTrains)
      (.seeded 0) (.request (.create ⟨1, 20, 40, 50, none⟩) :: runs 0 9 60) ∧ τ.db.SeatsOfTrain twoTrains := by
  have hrun : (exec (step twoTrains) (.seeded 0) (.request (.create ⟨1, 20, 40, 50, none⟩) :: runs 0 9 60)).any
      (fun τ : State => !τ.db.bookings.isEmpty) = true := by decide
  have along : Along (step twoTrains) (InsertsDeparting twoTrains) (.seeded 0)
      (.request (.create ⟨1, 20, 40, 50, none⟩) :: runs 0 9 60) := by decide
  obtain ⟨τ, hτ, hb⟩ := (Option.any_eq_true _ _).mp hrun
  exact ⟨τ, hτ, by simpa using hb, (booked_offered_iff hτ).mpr along⟩

/-- Seven hours later, when the schedule has departed, it is booked with the seat of the other train. -/
theorem departed_foreign_booked : ¬∀ (coll : Collation) (cat : Catalog) (now : Time) acts τ,
    exec (step cat) (.seeded now) acts = some τ →
      Along (step cat) (fun σ a => InsertsOffered coll cat σ a ∧ σ.db.SeatsOfTrain cat) (.seeded now) acts ∧
        τ.db.SeatsOfTrain cat := by
  intro h
  have hrun : (exec (step twoTrains) (.seeded 0) (.tick (7 * 3600000000) :: .request (.create ⟨1, 20, 41, 50, none⟩) ::
      runs 0 9 60)).any (fun τ : State => τ.now > timedeltaHours 6 ∧ ¬τ.db.SeatsOfTrain twoTrains) = true := by decide
  obtain ⟨τ, hτ, htest⟩ := (Option.any_eq_true _ _).mp hrun
  exact (of_decide_eq_true htest).2 (h .codePoints _ _ _ τ hτ).2

end

end Railbook
