import Railbook.Races
import Railbook.Trains.Service

/-! A seat that the seat map offers, and one request for it that runs on its own (`docs/architecture/CONCURRENCY.md`,
    re-booking a cancelled seat). A request for a seat without a row runs to its end and books it. A row that is
    there has an audit row, and deleting it would set that row's booking to `NULL`. -/

namespace Railbook
open ReadCommitted Transition

/-- No booking of the user that is reserved or confirmed is for a journey at the time of the schedule. -/
def Db.JourneyFree (cat : Catalog) (d : Db) (userId scheduleId : Uuid) : Prop :=
  ∀ schedule, cat.schedule? scheduleId = some schedule → ∀ b ∈ d.bookings, overlaps cat schedule userId b = false

/-- A user asks under a new key for a seat that the seat map of the schedule offers. -/
structure Offered (coll : Table.Collation) (cat : Catalog) (d : Db) (q : CreateRequest) : Prop where
  offer : ∃ payload, getSeatAvailability coll cat d q.scheduleId = .ok (some payload) ∧ payload.Offers q.seatId
  user : (cat.user? q.userId).isSome = true
  unused : ∀ b ∈ d.bookings, b.idempotencyKey ≠ q.idempotencyKey
  journey : d.JourneyFree cat q.userId q.scheduleId

/-- The request has returned a booking that is the only row for its pair, reserved, and owned by its user. -/
def State.Booked (σ : State) (q : CreateRequest) : Prop :=
  ∃ began b, σ.sessions[0]? = some ⟨began, .create q (.finished (.ok b))⟩ ∧
    (σ.db.bookings.filter fun b => b.scheduleId = q.scheduleId ∧ b.seatId = q.seatId) = [b] ∧
    b.status = .reserved ∧ b.userId = q.userId

/-- `create_booking` on its own succeeds: every run of it can go on to its end, and at the end of every run the seat is
    booked. -/
structure Rebooks (cat : Catalog) (σ : State) (q : CreateRequest) : Prop where
  ends : ∀ acts τ, exec (step cat) (σ.alone [.create q]) acts = some τ → (∀ a ∈ acts, a.isQuiet = true) →
    ∃ more υ, exec (step cat) τ more = some υ ∧ (∀ a ∈ more, a.isQuiet = true) ∧ υ.AllFinished
  books : ∀ acts τ, exec (step cat) (σ.alone [.create q]) acts = some τ → (∀ a ∈ acts, a.isQuiet = true) →
    τ.AllFinished →
    τ.Booked q

/-- How many statements `create_booking` has left at most. -/
def CreatePc.left : CreatePc → Nat
  | checkKey => 11
  | lockSeat => 10
  | awaitSeat _ => 9
  | checkOverlap _ => 8
  | getSeat _ => 7
  | delete _ _ => 6
  | insertKey _ => 5
  | insertSeat _ => 4
  | audit _ => 3
  | commit _ => 2
  | invalidate _ => 1
  | finished _ => 0

section
variable {coll : Table.Collation} {cat : Catalog} {σ : State} {i : Sid} {began : Time} {e : Effect} {q : CreateRequest}
  {pc pc' : CreatePc} {d : Db} {acts : List Act} {τ : State}

/-! ### A request runs to its end -/

theorem CreateMove.left_lt (m : CreateMove cat σ i began q pc e pc') : pc'.left < pc.left := by
  cases m with
  | failed x hx => cases pc <;> simp_all [CreatePc.left, CreatePc.isStatement]
  | _ => simp [CreatePc.left]

theorem contest_singleton (book : Bookable cat d q) : Contest cat d [q] := by
  refine ⟨fun q' hq' => ?_, fun q' hq' q'' hq'' => ?_⟩
  · rwa [List.mem_singleton.mp hq']
  · rw [List.mem_singleton.mp hq', List.mem_singleton.mp hq'']
    exact ⟨rfl, rfl⟩

theorem State.Racing.length (h : σ.Racing d [q]) : σ.sessions.length = 1 := by
  have := congrArg List.length h.requests
  simpa using this

theorem State.Racing.enabled (book : Bookable cat d q) (h : σ.Racing d [q])
    (hs : σ.sessions[0]? = some ⟨began, .create q pc⟩) (hpc : 0 < pc.left) :
    ∃ x e pc', createBooking cat σ 0 began q x pc = some (e, pc') := by
  obtain ⟨id, fresh⟩ := h.inv.exists_freshId
  have free := h.inv.free_of_length h.length
  rcases h.stage with vacant | ⟨w, b, taken⟩
  · have hview : pc.inserted = none → σ.view 0 = d := fun hpc => (h.own.view hs hpc).trans vacant.db
    have hracing := vacant.racing 0 began q pc hs
    obtain ⟨schedule, hsch, hov⟩ := book.journey
    cases pc with
    | checkKey => exact ⟨⟨id, 0, 0⟩, _, _, create_unused (hview rfl ▸ book.unused)⟩
    | lockSeat => exact ⟨⟨id, 0, 0⟩, _, _, create_vacant (hview rfl ▸ book.vacant)⟩
    | checkOverlap existing => exact ⟨⟨id, 0, 0⟩, _, _, create_disjoint hsch (hview rfl ▸ hov)⟩
    | getSeat existing =>
      obtain ⟨price, hprice, hreplace⟩ := create_priced σ 0 began ⟨id, 0, 0⟩ book.seat
      cases existing with
      | none => exact ⟨_, _, _, hprice⟩
      | some e => exact ⟨_, _, _, hreplace e⟩
    | insertKey b => exact ⟨⟨id, 0, 0⟩, _, _, create_keyed fresh (free _) (hview rfl ▸ book.unused)⟩
    | insertSeat b =>
      exact ⟨⟨id, 0, 0⟩, _, _,
        create_seated (free _) (hview rfl ▸ book.vacant) book.user (Option.isSome_of_mem hsch) book.seat⟩
    | audit b => exact ⟨⟨id, 0, 0⟩, _, _, rfl⟩
    | commit b => exact ⟨⟨id, 0, 0⟩, _, _, rfl⟩
    | _ => cases hracing
  · have hw : w = 0 := by
      obtain ⟨began', q', -, hw⟩ := taken.winner
      have hlt : w < σ.sessions.length := hw.elim (fun h => (List.getElem?_eq_some_iff.mp h).1) fun h =>
        (List.getElem?_eq_some_iff.mp h).1
      rw [h.length] at hlt
      exact Nat.lt_one_iff.mp hlt
    subst hw
    obtain ⟨began', q', -, hw | hw⟩ := taken.winner
    · rw [hs] at hw
      cases hw
      exact ⟨⟨id, 0, 0⟩, _, _, rfl⟩
    · rw [hs] at hw
      cases hw
      cases hpc

/-- A request on its own can always go on to its end. -/
theorem State.Racing.exists_finish (book : Bookable cat d q) (h : σ.Racing d [q])
    (hs : σ.sessions[0]? = some ⟨began, .create q pc⟩) :
    ∃ acts τ, Transition.exec (Railbook.step cat) σ acts = some τ ∧ (∀ a ∈ acts, a.isQuiet = true) ∧ τ.AllFinished := by
  induction hn : pc.left using Nat.strong_induction_on generalizing σ pc with
  | _ n ih =>
    by_cases hpc : 0 < pc.left
    · obtain ⟨x, e, pc', hc⟩ := h.enabled book hs hpc
      have hstep : Railbook.step cat σ (.run 0 x) =
        some ((σ.perform 0 e).goto 0 ⟨began, .create q pc⟩ (.create q pc')) :=
        step_run hs (by simp only [Session.statement, hc, Option.map_some])
      obtain ⟨acts, τ, run, quiet, done⟩ := ih pc'.left (hn ▸ (createBooking_move hc).left_lt)
        (h.step (contest_singleton book) rfl hstep) (goto_sessions_self hs) rfl
      refine ⟨.run 0 x :: acts, τ, ?_, ?_, done⟩
      · simp only [Transition.exec, hstep, Option.bind_some, run]
      · intro a ha
        rcases List.mem_cons.mp ha with rfl | ha
        · rfl
        · exact quiet a ha
    · refine ⟨[], σ, rfl, fun a ha => (by cases ha), fun s hmem => ?_⟩
      obtain ⟨j, hj⟩ := List.mem_iff_getElem?.mp hmem
      have hlt := (List.getElem?_eq_some_iff.mp hj).1
      obtain rfl : j = 0 := by
        have := h.length
        omega
      rw [hs] at hj
      cases hj
      cases pc with
      | finished r => rfl
      | _ => exact absurd (by simp [CreatePc.left]) hpc

/-! ### A seat without a row -/

theorem State.Racing.booked (book : Bookable cat d q) (h : σ.Racing d [q]) (done : σ.AllFinished) : σ.Booked q := by
  obtain ⟨w, b, taken⟩ := h.taken_of_finished (List.cons_ne_nil _ _) done
  obtain ⟨began, q', builds, hw⟩ := taken.finished done
  have hlt := (List.getElem?_eq_some_iff.mp hw).1
  rw [h.length] at hlt
  obtain rfl : w = 0 := Nat.lt_one_iff.mp hlt
  obtain ⟨q'', pc, hq, htask⟩ := h.session hw
  cases hq
  cases htask
  refine ⟨began, b, hw, ?_, builds.status, builds.userId⟩
  rw [taken.bookings]
  exact filter_snoc (fun b' hb' => decide_eq_false (book.vacant b' hb'))
    (decide_eq_true ⟨builds.scheduleId, builds.seatId⟩)

theorem State.Racing.of_run (hr : Reachable cat σ) (book : Bookable cat σ.db q)
    (run : Transition.exec (Railbook.step cat) (σ.alone [.create q]) acts = some τ)
    (quiet : ∀ a ∈ acts, a.isQuiet = true) :
    τ.Racing σ.db [q] := by
  have start : (σ.alone ([q].map .create)).Racing σ.db [q] := .start hr
  exact start.exec (contest_singleton book) run quiet

theorem rebooks_of_vacant (hr : Reachable cat σ) (book : Bookable cat σ.db q) : Rebooks cat σ q where
  ends acts τ run quiet := by
    have racing := State.Racing.of_run hr book run quiet
    have hlt : 0 < τ.sessions.length := by rw [racing.length]; exact Nat.one_pos
    obtain ⟨q', pc, hq, htask⟩ := racing.session (List.getElem?_eq_getElem hlt)
    cases hq
    have hs : τ.sessions[0]? = some ⟨τ.sessions[0].began, .create q pc⟩ := by
      rw [List.getElem?_eq_getElem hlt, ← htask]
    exact racing.exists_finish book hs
  books acts τ run quiet done := (State.Racing.of_run hr book run quiet).booked book done

/-! ### A seat with a row -/

theorem Rebooks.succeeds (h : Rebooks cat σ q) : Succeeds cat σ q := by
  obtain ⟨acts, τ, run, quiet, done⟩ := h.ends [] _ rfl fun a ha => (nomatch ha)
  obtain ⟨began, b, hs, -⟩ := h.books acts τ run quiet done
  exact ⟨acts, τ, began, b, run, quiet, hs⟩

theorem Offered.bookable (h : Offered coll cat d q)
    (vacant : ∀ b ∈ d.bookings, ¬(b.scheduleId = q.scheduleId ∧ b.seatId = q.seatId)) : Bookable cat d q := by
  obtain ⟨payload, hp, offer⟩ := h.offer
  obtain ⟨⟨schedule, hs⟩, hx⟩ := offer.stored hp
  exact ⟨h.unused, vacant, ⟨schedule, hs, h.journey schedule hs⟩, hx, h.user⟩

/-- A seat that the seat map offers can be booked if and only if no booking is stored for it, neither a cancelled nor a
    refunded one. -/
theorem rebooks_iff (hr : Reachable cat σ) (offered : Offered coll cat σ.db q) :
    Rebooks cat σ q ↔ ∀ b ∈ σ.db.bookings, ¬(b.scheduleId = q.scheduleId ∧ b.seatId = q.seatId) := by
  constructor
  · intro h
    rcases succeeds_inv hr h.succeeds with ⟨b, hb, hkey⟩ | book
    · exact absurd hkey (offered.unused b hb)
    · exact book.vacant
  · intro vacant
    exact rebooks_of_vacant hr (offered.bookable vacant)

/-- The second user asks for seat 40 of schedule 20. -/
def secondRequest : CreateRequest := ⟨2, 20, 40, 51, none⟩

/-- The seat map of schedule 20 when both seats are free. -/
def freeSeats : SeatAvailability :=
  ⟨20, "Subarna Express", 2, 2, [⟨40, 1, "window", "AC-1", .ac, none⟩, ⟨41, 1, "aisle", "NonAC-1", .nonAc, none⟩]⟩

theorem rebooks_first : Rebooks sampleCatalog (.seeded 0) secondRequest := by
  have offered : Offered .codePoints sampleCatalog (State.seeded 0).db secondRequest :=
    ⟨⟨freeSeats, by decide, _, .head _, rfl, rfl⟩, rfl, fun _ hb => (nomatch hb), fun _ _ _ hb => (nomatch hb)⟩
  exact (rebooks_iff (.start ⟨0, rfl⟩) offered).mpr fun _ hb => (nomatch hb)

/-- The first user reserves seat 40 and does not pay, and a pass of the cleanup cancels the reservation. -/
def expiredRun : List Act :=
  .request (.create ⟨1, 20, 40, 50, none⟩) :: runs 0 9 60 ++ .tick 600000000 :: .request .cleanup :: runs 1 3 0

/-- The seat is offered again, and the request of the second user fails when it deletes the cancelled booking. -/
theorem rebooking_fails : ¬∀ (coll : Table.Collation) (cat : Catalog) (σ : State) (q : CreateRequest),
    Reachable cat σ → Offered coll cat σ.db q → Rebooks cat σ q := by
  intro h
  have hrun : (exec (step sampleCatalog) (.seeded 0) expiredRun).any (fun σ : State =>
      decide (getSeatAvailability .codePoints sampleCatalog σ.db 20 = .ok (some freeSeats)) &&
      (σ.db.bookings.all fun b => b.idempotencyKey ≠ 51 ∧ b.status.isActive = false) &&
      (exec (step sampleCatalog) (σ.alone [.create secondRequest]) (runs 0 6 61)).any fun τ : State =>
        τ.sessions.map (·.task) = [.create secondRequest (.finished (.error .integrityError))]) = true := by
    decide
  obtain ⟨σ, hr, htest⟩ := reachable_of_run hrun
  simp only [Bool.and_eq_true, List.all_eq_true, decide_eq_true_eq] at htest
  obtain ⟨⟨hmap, hrows⟩, hfail⟩ := htest
  have offered : Offered .codePoints sampleCatalog σ.db secondRequest := by
    refine ⟨⟨freeSeats, hmap, _, .head _, rfl, rfl⟩, rfl, fun b hb => (hrows b hb).1, fun schedule _ b hb => ?_⟩
    simp [overlaps, (hrows b hb).2]
  obtain ⟨τ, run, htask⟩ := (Option.any_eq_true _ _).mp hfail
  have htask := of_decide_eq_true htask
  have done : τ.AllFinished := fun s hs => by
    have hmem := List.mem_map_of_mem (f := Session.task) hs
    rw [htask] at hmem
    rw [List.mem_singleton.mp hmem]
    rfl
  obtain ⟨began, b, hs, -⟩ := (h _ _ σ _ hr offered).books _ τ run (by decide) done
  have hmem := List.mem_map_of_mem (f := Session.task) (List.mem_of_getElem? hs)
  rw [htask] at hmem
  cases List.mem_singleton.mp hmem

end

end Railbook
