import Railbook.Admin.Service
import Railbook.Bookings.Service

/-! `app/demo/service.py`: two attempts to book one seat, and the report of the race. -/

namespace Railbook

/-- What `getattr(e, "detail", ..)` gives: a text, or the lines that an exception of the database driver collects. -/
inductive Detail where
  | text (s : String)
  | lines (l : List String)
  deriving DecidableEq, Repr

/-- The dataclass `AttemptResult`. -/
structure AttemptResult where
  userLabel : String
  statusCode : Nat
  detail : Detail
  elapsedMs : ℚ

/-- The dataclass `RaceResult`. -/
structure RaceResult where
  attemptA : AttemptResult
  attemptB : AttemptResult
  winner : Option String

/-- `getattr(e, "status_code", 500)`. -/
def Exc.statusCode : Exc → Nat
  | .http e => e.statusCode
  | _ => 500

/-- `getattr(e, "detail", str(e))`, where `errorDetail` gives it for the exceptions of the libraries. -/
def Exc.detail (errorDetail : Exc → Detail) : Exc → Detail
  | .http e => .text e.detail
  | e => errorDetail e

/-- `create_booking` as `_attempt_booking` calls it. -/
def attemptRequest (userId scheduleId seatId idempotencyKey : Uuid) : CreateRequest :=
  ⟨userId, scheduleId, seatId, idempotencyKey, some "demo"⟩

/-- `_attempt_booking`, when `create_booking` has ended with `answer`. The clock gives `startTime` and `endTime`
    in seconds. -/
def attemptBooking (errorDetail : Exc → Detail) (answer : Except Exc Booking) (userLabel : String)
    (startTime endTime : ℚ) :
    AttemptResult :=
  let elapsedMs : ℚ := roundHalfEven ((endTime - startTime) * 1000 * 10) / 10
  match answer with
  | .ok _ => ⟨userLabel, 201, .text "Booking created", elapsedMs⟩
  | .error e => ⟨userLabel, e.statusCode, e.detail errorDetail, elapsedMs⟩

/-- `run_race`, when both attempts have returned. -/
def runRace (resultA resultB : AttemptResult) : RaceResult :=
  let winner :=
    if resultA.statusCode = 201 ∧ resultB.statusCode ≠ 201 then some "A"
    else if resultB.statusCode = 201 ∧ resultA.statusCode ≠ 201 then some "B"
    else none
  ⟨resultA, resultB, winner⟩

section
variable {errorDetail : Exc → Detail} {answer : Except Exc Booking} {userLabel : String} {startTime endTime : ℚ}
  {resultA resultB : AttemptResult}

/-- The statements of `create_booking` raise nothing with the status that a booking has. -/
theorem createBooking_statusCode {cat : Catalog} {σ : State} {i : Sid} {began : Time} {q : CreateRequest} {c : Choice}
    {pc : CreatePc} {eff : Effect} {e : Exc}
    (h : createBooking cat σ i began q c pc = some (eff, .finished (.error e))) :
    e.statusCode ≠ 201 := by
  have multiple : ∀ {l : List Booking} {x : Exc}, scalarOneOrNone l = .error x → x.statusCode ≠ 201 := by
    intro l x hx
    rw [scalarOneOrNone_error hx]
    decide
  cases pc with
  | checkKey =>
    simp only [createBooking] at h
    split at h <;> cases h
    exact multiple ‹_›
  | checkOverlap existing =>
    simp only [createBooking] at h
    split at h
    · cases h
      decide
    · split at h <;> cases h
      · exact multiple ‹_›
      · decide
  | _ =>
    simp only [createBooking] at h
    repeat' split at h
    all_goals cases h
    all_goals decide

theorem attemptBooking_ok (h : ∀ e, answer = .error e → e.statusCode ≠ 201) :
    (attemptBooking errorDetail answer userLabel startTime endTime).statusCode = 201 ↔ ∃ b, answer = .ok b := by
  cases answer with
  | ok b => exact ⟨fun _ => ⟨b, rfl⟩, fun _ => rfl⟩
  | error e =>
    refine ⟨fun hst => absurd hst (h e rfl), ?_⟩
    rintro ⟨b, hb⟩
    cases hb

theorem winner_eq_A : (runRace resultA resultB).winner = some "A" ↔ resultA.statusCode = 201 ∧
    resultB.statusCode ≠ 201 := by
  rw [runRace]
  dsimp only
  split
  next h => simp only [h, true_and, not_false_eq_true, ne_eq]
  next h => split <;> simp [h]

theorem winner_eq_B : (runRace resultA resultB).winner = some "B" ↔ resultB.statusCode = 201 ∧
    resultA.statusCode ≠ 201 := by
  rw [runRace]
  dsimp only
  split
  next h => simp [h]
  next h =>
    split
    next h' => simp only [h', true_and, not_false_eq_true, ne_eq]
    next h' => simp only [reduceCtorEq, h']

theorem winner_eq_none : (runRace resultA resultB).winner = none ↔
    (resultA.statusCode = 201 ↔ resultB.statusCode = 201) := by
  rw [runRace]
  dsimp only
  split
  next h => simp [h]
  next h =>
    split
    next h' => simp [h']
    next h' => simp only [true_iff]; tauto

end

end Railbook
