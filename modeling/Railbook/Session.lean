import Railbook.Database
import Railbook.Gateway

/-! Sessions, and the state they share. A session runs one request, or one pass of the cleanup loop, as a
    sequence of database statements and calls of the gateway; its program counter names the next one and
    carries the local variables that are still read. Reads of the catalog tables, which nobody writes, are made
    by the statement that uses them. -/

namespace Railbook
open ReadCommitted

/-- Sessions are numbered in the order in which they begin. -/
abbrev Sid := Nat

/-! ### Requests and answers -/

/-- The arguments of `create_booking`. -/
structure CreateRequest where
  userId : Uuid
  scheduleId : Uuid
  seatId : Uuid
  idempotencyKey : Uuid
  ipAddress : Option String
  deriving DecidableEq, Repr

/-- The arguments of `pay_booking`. -/
structure PayRequest where
  bookingId : Uuid
  userId : Uuid
  idempotencyKey : Uuid
  ipAddress : Option String
  deriving DecidableEq, Repr

/-- The arguments of `refund_booking`. -/
structure RefundRequest where
  bookingId : Uuid
  userId : Uuid
  ipAddress : Option String
  deriving DecidableEq, Repr

/-- The exception that FastAPI answers with its status and detail. -/
structure HTTPException where
  statusCode : Nat
  detail : String
  deriving DecidableEq, Repr

/-- What can leave a request. Only an `HTTPException` has a handler; the others end as an internal server error.
    `databaseError` is a statement or commit that fails for a reason outside the service, or for a text in it that the
    database does not have. -/
inductive Exc where
  | http (e : HTTPException)
  | integrityError
  | multipleResultsFound
  | attributeError
  | databaseError
  deriving DecidableEq, Repr

/-- PostgreSQL has no text with the character of code zero, and rejects a statement that is given one. -/
def isText (s : String) : Bool := s.toList.all (· ≠ Char.ofNat 0)

/-- The exception is answered with an internal server error. -/
def Exc.isServerError : Exc → Bool
  | .http _ => false
  | _ => true

/-- The exception of `raise HTTPException(status_code=.., detail=..)`. -/
def httpError (statusCode : Nat) (detail : String) : Exc := .http ⟨statusCode, detail⟩

/-- `Result.scalar_one_or_none`. -/
def scalarOneOrNone {α : Type} : List α → Except Exc (Option α)
  | [] => .ok none
  | [x] => .ok (some x)
  | _ => .error .multipleResultsFound

theorem scalarOneOrNone_none {α : Type} {p : α → Bool} {l : List α} (h : scalarOneOrNone (l.filter p) = .ok none) :
    ∀ x ∈ l, p x = false := by
  intro x hx
  cases hf : l.filter p with
  | nil => exact Bool.eq_false_iff.mpr (List.filter_eq_nil_iff.mp hf x hx)
  | cons y ys =>
    rw [hf] at h
    cases ys <;> cases h

theorem scalarOneOrNone_some {α : Type} {p : α → Bool} {l : List α} {x : α}
    (h : scalarOneOrNone (l.filter p) = .ok (some x)) :
    l.filter p = [x] := by
  cases hf : l.filter p with
  | nil => rw [hf] at h; cases h
  | cons y ys =>
    rw [hf] at h
    cases ys
    · cases h
      rfl
    · cases h

theorem scalarOneOrNone_mem {α : Type} {p : α → Bool} {l : List α} {x : α}
    (h : scalarOneOrNone (l.filter p) = .ok (some x)) :
    x ∈ l ∧ p x = true :=
  List.mem_filter.mp (scalarOneOrNone_some h ▸ List.mem_singleton_self x)

theorem scalarOneOrNone_error {α : Type} {l : List α} {x : Exc} (h : scalarOneOrNone l = .error x) :
    x = .multipleResultsFound := by
  rcases l with _ | ⟨y, _ | ⟨z, l⟩⟩ <;> cases h
  rfl

/-! ### Program counters -/

/-- `create_booking`. The `INSERT` enters the unique indexes of `bookings` one after the other:
    `insertKey` the primary key and `idempotency_key`, `insertSeat` `uq_booking_schedule_seat`. -/
inductive CreatePc where
  | checkKey
  | lockSeat
  | awaitSeat (id : Uuid)
  | checkOverlap (existing : Option Booking)
  | getSeat (existing : Option Booking)
  | delete (existing : Booking) (price : Amount)
  | insertKey (booking : Booking)
  | insertSeat (booking : Booking)
  | audit (booking : Booking)
  | commit (booking : Booking)
  | invalidate (booking : Booking)
  | finished (answer : Except Exc Booking)
  deriving DecidableEq, Repr

/-- `pay_booking`. At `charging` the call of the gateway sleeps. -/
inductive PayPc where
  | lockBooking
  | awaitBooking
  | checkPayment (booking : Booking)
  | attempt (booking : Booking)
  | charge (booking : Booking)
  | charging (booking : Booking)
  | record (booking : Booking) (result : PaymentResult) (time : Time)
  | commit (booking : Booking)
  | invalidate (booking : Booking)
  | finished (answer : Except Exc Booking)
  deriving DecidableEq, Repr

/-- `refund_booking`. At `refunding` the call of the gateway sleeps. -/
inductive RefundPc where
  | lockBooking
  | awaitBooking
  | checkDeparture (booking : Booking)
  | findPayment (booking : Booking)
  | refund (booking : Booking) (ref : Option GatewayRef)
  | refunding (booking : Booking) (ref : Option GatewayRef)
  | record (booking : Booking) (time : Time)
  | commit (booking : Booking)
  | invalidate (booking : Booking)
  | finished (answer : Except Exc Booking)
  deriving DecidableEq, Repr

/-- One pass of `cleanup_expired_reservations`. -/
inductive CleanupPc where
  | scan
  | flush (expired : List Booking)
  | commit (expired : List Booking)
  | finished (answer : Except Exc Unit)
  deriving DecidableEq, Repr

/-- The program counters at which a database statement runs next. A session that sleeps in the gateway or deletes a
    cache entry runs none. -/
def CreatePc.isStatement : CreatePc → Bool
  | invalidate _ | finished _ => false
  | _ => true

/-- The same for `pay_booking`. -/
def PayPc.isStatement : PayPc → Bool
  | charge _ | charging _ | invalidate _ | finished _ => false
  | _ => true

/-- The same for `refund_booking`. -/
def RefundPc.isStatement : RefundPc → Bool
  | refund _ _ | refunding _ _ | invalidate _ | finished _ => false
  | _ => true

/-- The same for a cleanup pass. -/
def CleanupPc.isStatement : CleanupPc → Bool
  | finished _ => false
  | _ => true

/-- What a session runs, and how far it has come. -/
inductive Task where
  | create (request : CreateRequest) (pc : CreatePc)
  | pay (request : PayRequest) (pc : PayPc)
  | refund (request : RefundRequest) (pc : RefundPc)
  | cleanup (pc : CleanupPc)
  deriving DecidableEq, Repr

/-- What a session is asked to run. -/
inductive Request where
  | create (request : CreateRequest)
  | pay (request : PayRequest)
  | refund (request : RefundRequest)
  | cleanup
  deriving DecidableEq, Repr

/-- Where a request begins. -/
def Request.task : Request → Task
  | create q => .create q .checkKey
  | pay q => .pay q .lockBooking
  | refund q => .refund q .lockBooking
  | cleanup => .cleanup .scan

/-- The request that a session runs. -/
def Task.request : Task → Request
  | create q _ => .create q
  | pay q _ => .pay q
  | refund q _ => .refund q
  | cleanup _ => .cleanup

/-- `began` is what `now()` gives in the session's transaction: the time of its first statement, which for a
    request is the look-up of the user. -/
structure Session where
  began : Time
  task : Task
  deriving DecidableEq, Repr

/-! ### What the gateway was asked to do

    History of the run, read by no statement. -/

/-- `payment_gateway.charge` is called. -/
structure ChargeCall where
  session : Sid
  bookingId : Uuid
  idempotencyKey : Uuid
  amount : Amount
  deriving DecidableEq, Repr

/-- A call of `charge` returns. It is `executed` when its key was not in the cache, so that this call decided the
    outcome. -/
structure ChargeAnswer where
  call : ChargeCall
  result : PaymentResult
  executed : Bool
  deriving DecidableEq, Repr

/-- `payment_gateway.refund` is called. -/
structure RefundCall where
  session : Sid
  bookingId : Uuid
  ref : Option GatewayRef
  deriving DecidableEq, Repr

/-- `refunds` are the calls of `refund` that the gateway has executed. -/
structure History where
  calls : List ChargeCall
  answers : List ChargeAnswer
  refundCalls : List RefundCall
  refunds : List RefundCall
  deriving DecidableEq, Repr

/-! ### The shared state -/

/-- `nextAuditId` is the sequence of `audit_trail.id`. -/
structure State where
  store : Store Sid Db Write Resource
  sessions : List Session
  now : Time
  nextAuditId : Nat
  gateway : MockPaymentGateway
  history : History

/-- What a statement does to the shared state. `flush` writes under the index entries that it acquires and draws
    audit ids; `close` ends the session and its transaction. -/
inductive Effect where
  | read
  | lock (rs : List Resource)
  | flush (rs : List Resource) (ws : List Write) (drawn : Nat)
  | call (c : ChargeCall)
  | answer (a : ChargeAnswer) (gw : MockPaymentGateway)
  | callRefund (c : RefundCall)
  | refunded (c : RefundCall)
  | commit
  | close

namespace State
variable (σ : State)

/-- The committed tables. -/
def db : Db := σ.store.data

/-- What a statement of session `i` sees. -/
def view (i : Sid) : Db := σ.store.view i

/-- The state after the effect of a statement of session `i`. -/
def perform (i : Sid) : Effect → State
  | .read => σ
  | .lock rs => { σ with store := σ.store.acquire i rs }
  | .flush rs ws drawn =>
    { σ with store := (σ.store.acquire i rs).write i ws, nextAuditId := σ.nextAuditId + drawn }
  | .call c => { σ with history := { σ.history with calls := σ.history.calls ++ [c] } }
  | .answer a gw => { σ with gateway := gw, history := { σ.history with answers := σ.history.answers ++ [a] } }
  | .callRefund c => { σ with history := { σ.history with refundCalls := σ.history.refundCalls ++ [c] } }
  | .refunded c => { σ with history := { σ.history with refunds := σ.history.refunds ++ [c] } }
  | .commit => { σ with store := σ.store.commit i }
  | .close => { σ with store := σ.store.rollback i }

/-- Session `i` goes on at `task`. -/
def goto (i : Sid) (s : Session) (task : Task) : State :=
  { σ with sessions := σ.sessions.set i { s with task := task } }

end State

end Railbook
