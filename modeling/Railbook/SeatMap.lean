import Railbook.Occupancy

/-! The seat map against the tables: which seats it lists, in which order, and with which status. -/

namespace Railbook
open ReadCommitted Transition Table

/-- The row shows the seat as it is stored, with the status of the booking of the pair if that is active. -/
structure SeatDict.Shows (d : Db) (scheduleId : Uuid) (row : SeatDict) (seat : Seat) (c : Compartment) : Prop where
  id : row.id = seat.id
  seatNumber : row.seatNumber = seat.seatNumber
  position : row.position = seat.position
  compartmentName : row.compartmentName = c.name
  compType : row.compType = c.compType
  booked : ∀ b ∈ d.bookings, b.scheduleId = scheduleId → b.seatId = seat.id →
    row.bookingStatus = if b.status.isActive = true then some b.status else none
  vacant : (∀ b ∈ d.bookings, ¬(b.scheduleId = scheduleId ∧ b.seatId = seat.id)) → row.bookingStatus = none

/-- The map of a schedule: the seats of its train, each of them once, by compartment and number. -/
structure SeatAvailability.Correct (coll : Collation) (cat : Catalog) (d : Db) (schedule : Schedule)
    (payload : SeatAvailability) : Prop where
  scheduleId : payload.scheduleId = schedule.id
  train : ∃ t ∈ cat.trains, t.id = schedule.trainId ∧ payload.trainName = t.name
  rows : ∀ row ∈ payload.seats, ∃ seat ∈ cat.seats, ∃ c ∈ cat.compartments, c.id = seat.compartmentId ∧
    c.trainId = schedule.trainId ∧ row.Shows d schedule.id seat c
  once : ∀ seat ∈ cat.seats, trainSeat cat schedule seat = true →
    (payload.seats.countP fun row => row.id == seat.id) = 1
  sorted : payload.seats.Pairwise fun a b => coll.le a.compartmentName b.compartmentName = true ∧
    (coll.le b.compartmentName a.compartmentName = true → a.seatNumber ≤ b.seatNumber)
  totalSeats : payload.totalSeats = payload.seats.length
  availableSeats : payload.availableSeats = payload.seats.countP fun row => row.bookingStatus.isNone
  balance : payload.availableSeats + (d.bookings.countP fun b => (b.scheduleId == schedule.id && b.status.isActive) &&
    cat.seats.any fun seat => trainSeat cat schedule seat && b.seatId == seat.id) = payload.totalSeats

section
variable {coll : Collation} {cat : Catalog} {σ : State} {d : Db} {schedule : Schedule} {payload : SeatAvailability}
  {scheduleId : Uuid} {row : SeatDict} {seat : Seat}

/-! ### Rows -/

theorem seatRow?_eq_some : seatRow? cat d scheduleId schedule seat = some row ↔
    ∃ c, cat.compartment? seat.compartmentId = some c ∧ c.trainId = schedule.trainId ∧
      row = ⟨seat.id, seat.seatNumber, seat.position, c.name, c.compType,
        (d.bookings.find? (onBooking scheduleId seat)).map (·.status)⟩ := by
  simp only [seatRow?, Option.map_eq_some_iff, Option.filter_eq_some_iff, beq_iff_eq, and_assoc]
  exact exists_congr fun c => and_congr_right fun _ => and_congr_right fun _ => eq_comm

theorem seatRow?_id {id : Uuid} : ((seatRow? cat d scheduleId schedule seat).map (fun row => row.id == id)).getD false =
    (trainSeat cat schedule seat && seat.id == id) := by
  simp only [seatRow?, trainSeat, Option.map_map]
  cases cat.compartment? seat.compartmentId with
  | none => rfl
  | some c => by_cases htrain : c.trainId = schedule.trainId <;> simp [Option.filter, htrain]

/-- The active booking of a pair is the booking of the pair, if that is active. -/
theorem status_of_pair {b : Booking}
    (pair : (d.bookings.filter fun b => b.scheduleId == scheduleId && b.seatId == seat.id).length ≤ 1)
    (hb : b ∈ d.bookings) (hs : b.scheduleId = scheduleId) (hx : b.seatId = seat.id) :
    (d.bookings.find? (onBooking scheduleId seat)).map (·.status) = if b.status.isActive = true then some b.status
    else none := by
  have hpair : (d.bookings.filter fun b => b.scheduleId == scheduleId && b.seatId == seat.id) = [b] :=
    eq_singleton_of_mem pair (List.mem_filter.mpr ⟨hb, by simp [hs, hx]⟩)
  have hfilter : d.bookings.filter (onBooking scheduleId seat) = [b].filter (·.status.isActive) := by
    rw [← hpair, List.filter_filter]
    refine List.filter_congr fun b' _ => ?_
    simp only [onBooking]
    ac_rfl
  rw [← List.head?_filter, hfilter]
  cases hact : b.status.isActive <;> simp [hact]

theorem status_of_vacant (h : ∀ b ∈ d.bookings, ¬(b.scheduleId = scheduleId ∧ b.seatId = seat.id)) :
    (d.bookings.find? (onBooking scheduleId seat)).map (·.status) = none := by
  rw [Option.map_eq_none_iff, List.find?_eq_none]
  intro b hb hon
  simp only [onBooking, Bool.and_eq_true, beq_iff_eq] at hon
  exact h b hb ⟨hon.1.2, hon.1.1⟩

theorem Inv.pair_unique (inv : Inv σ) (scheduleId seatId : Uuid) :
    (σ.db.bookings.filter fun b => b.scheduleId == scheduleId && b.seatId == seatId).length ≤ 1 := by
  have hlen : (σ.db.holders (.bookingSeat scheduleId seatId)).length ≤ 1 :=
    (inv.holders (.bookingSeat scheduleId seatId)).1
  rw [Db.holders, List.length_map, ← List.countP_eq_length_filter] at hlen
  rw [← List.countP_eq_length_filter]
  refine Nat.le_trans (List.countP_mono_left fun b _ h => ?_) hlen
  simp only [Bool.and_eq_true, beq_iff_eq] at h
  simp [Booking.resources, h.1, h.2]

/-! ### The map -/

theorem countP_seatRows_id (unique : ∀ seat, (d.bookings.filter (onBooking scheduleId seat)).length ≤ 1)
    (hseat : seat ∈ cat.seats) (htrain : trainSeat cat schedule seat = true) :
    ((seatRows cat d scheduleId schedule).countP fun row => row.id == seat.id) = 1 := by
  have hself : (cat.seats.filter fun x => x.id == seat.id) = [seat] :=
    eq_singleton_of_mem (length_filter_le_one cat.seatsKey fun x _ h => beq_iff_eq.mp h)
      (List.mem_filter.mpr ⟨hseat, beq_self_eq_true _⟩)
  have hcount : ((seatRows cat d scheduleId schedule).countP fun row => row.id == seat.id) =
      cat.seats.countP fun x => trainSeat cat schedule x && x.id == seat.id := by
    rw [seatRows_eq unique, List.countP_filterMap]
    exact List.countP_congr fun x _ => by rw [seatRow?_id]
  rw [hcount, ← List.countP_filter, hself, List.countP_singleton, if_pos htrain]

theorem SeatDict.le_total (a b : SeatDict) : SeatDict.le coll a b || SeatDict.le coll b a := by
  unfold SeatDict.le
  refine thenBy_total (fun a b => coll.total a.compartmentName b.compartmentName) (fun a b => ?_) a b
  simpa using Int.le_total a.seatNumber b.seatNumber

theorem SeatDict.le_trans (a b c : SeatDict) : SeatDict.le coll a b → SeatDict.le coll b c → SeatDict.le coll a c := by
  unfold SeatDict.le
  refine thenBy_trans (fun a b c => coll.trans a.compartmentName b.compartmentName c.compartmentName)
    fun a b c hab hbc => ?_
  simp only [decide_eq_true_eq] at hab hbc ⊢
  exact Int.le_trans hab hbc

/-- In every reachable state the seat map of every stored schedule is computed, and it is correct. -/
theorem seatMap_correct (hr : Reachable cat σ) (hs : schedule ∈ cat.schedules) :
    ∃ payload, getSeatAvailability coll cat σ.db schedule.id = .ok (some payload) ∧
      payload.Correct coll cat σ.db schedule := by
  have inv := inv_of_reachableBy hr
  have unique := inv.onBooking_unique schedule.id
  have hfind := Catalog.schedule?_of_mem hs
  obtain ⟨train, htrain⟩ := Catalog.train?_of_schedule hs
  obtain ⟨payload, hp⟩ := getSeatAvailability_isSome coll σ.db hfind
  obtain ⟨htotal, hbooked⟩ := seatMap_counts unique hfind hp
  have hpayload := hp
  simp only [getSeatAvailability, hfind, htrain, Except.ok.injEq, Option.some.injEq] at hpayload
  refine ⟨payload, hp, ?_⟩
  have hle : payload.availableSeats ≤ payload.totalSeats := by
    rw [← hpayload]
    exact List.countP_le_length
  exact {
    scheduleId := by rw [← hpayload]
    train := ⟨train, (find?_key_eq_some htrain).1, (find?_key_eq_some htrain).2, by rw [← hpayload]⟩
    rows := fun row hrow => by
      rw [← hpayload, List.mem_insertionSort, seatRows_eq unique, List.mem_filterMap] at hrow
      obtain ⟨seat, hseat, hrow⟩ := hrow
      obtain ⟨c, hc, hid, rfl⟩ := seatRow?_eq_some.mp hrow
      obtain ⟨hmem, hcid⟩ := find?_key_eq_some hc
      refine ⟨seat, hseat, c, hmem, hcid, hid, rfl, rfl, rfl, rfl, rfl, fun b hb hs hx => ?_, status_of_vacant⟩
      exact status_of_pair (inv.pair_unique schedule.id seat.id) hb hs hx
    once := fun seat hseat htr => by
      rw [← hpayload, (List.perm_insertionSort _ _).countP_eq]
      exact countP_seatRows_id unique hseat htr
    sorted := by
      rw [← hpayload]
      exact (pairwise_insertionSort_of SeatDict.le_total SeatDict.le_trans).imp fun h => by
        simpa [SeatDict.le, thenBy_iff] using h
    totalSeats := by rw [← hpayload]
    availableSeats := by rw [← hpayload]
    balance := by
      rw [← hbooked]
      omega }

/-- A seat is booked on the first schedule: the map of that one shows it, and the map of the other shows both
    seats free. -/
theorem seatMap_booked : ∃ σ : State, (∃ b ∈ σ.db.bookings, b.seatId = 40) ∧
    (∃ payload, getSeatAvailability .codePoints sampleCatalog σ.db 20 = .ok (some payload) ∧
      payload.seats.map (·.bookingStatus) = [some .reserved, none] ∧
      payload.Correct .codePoints sampleCatalog σ.db ⟨20, 10, timedeltaHours 6, timedeltaHours 12⟩) ∧
    ∃ payload, getSeatAvailability .codePoints sampleCatalog σ.db 21 = .ok (some payload) ∧
      payload.seats.map (·.bookingStatus) = [none, none] ∧
      payload.Correct .codePoints sampleCatalog σ.db ⟨21, 10, timedeltaHours 10, timedeltaHours 16⟩ := by
  have hrun : (exec (step sampleCatalog) (.seeded 0) (.request (.create ⟨1, 20, 40, 50, none⟩) :: runs 0 9 60)).any
      (fun σ : State => (σ.db.bookings.any fun b => b.seatId = 40) &&
        decide (((getSeatAvailability .codePoints sampleCatalog σ.db 20).toOption.join.map fun p =>
          p.seats.map (·.bookingStatus)) =
          some [some .reserved, none]) &&
        decide (((getSeatAvailability .codePoints sampleCatalog σ.db 21).toOption.join.map fun p =>
          p.seats.map (·.bookingStatus)) =
          some [none, none])) = true := by
    decide
  obtain ⟨σ, hσ, htest⟩ := reachable_of_run hrun
  simp only [Bool.and_eq_true, decide_eq_true_eq, List.any_eq_true] at htest
  obtain ⟨⟨hb, h20⟩, h21⟩ := htest
  have first : (⟨20, 10, timedeltaHours 6, timedeltaHours 12⟩ : Schedule) ∈ sampleCatalog.schedules := by decide
  have second : (⟨21, 10, timedeltaHours 10, timedeltaHours 16⟩ : Schedule) ∈ sampleCatalog.schedules := by decide
  obtain ⟨p, hp, hcorrect⟩ : ∃ payload, getSeatAvailability .codePoints sampleCatalog σ.db 20 = .ok (some payload) ∧
    payload.Correct .codePoints sampleCatalog σ.db ⟨20, 10, timedeltaHours 6, timedeltaHours 12⟩ :=
      seatMap_correct hσ first
  obtain ⟨p', hp', hcorrect'⟩ : ∃ payload, getSeatAvailability .codePoints sampleCatalog σ.db 21 = .ok (some payload) ∧
    payload.Correct .codePoints sampleCatalog σ.db ⟨21, 10, timedeltaHours 10, timedeltaHours 16⟩ :=
      seatMap_correct hσ second
  rw [hp] at h20
  rw [hp'] at h21
  exact ⟨σ, hb, ⟨p, hp, Option.some.inj h20, hcorrect⟩, ⟨p', hp', Option.some.inj h21, hcorrect'⟩⟩

end

end Railbook
