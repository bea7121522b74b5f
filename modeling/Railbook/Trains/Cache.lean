import Railbook.Creates
import Railbook.Trains.Service
import Railbook.Library.LookAside

/-! The seat map with its cache in Redis, of which no command fails. `get_seat_availability` serves the entry of the
    schedule, or else reads the tables and stores what it has read for five seconds; `_invalidate_seat_cache` deletes
    the entry, after the commit. `json.loads` gives back what `json.dumps` was given. -/

namespace Railbook
open ReadCommitted Transition LookAside

/-! ### The seat map -/

/-- The program counters of `get_seat_availability`. A payload goes with the number of changes that were committed when
    its rows were read; this is history, read by no statement. -/
inductive SeatsPc where
  | getCached
  | query
  | setCached (payload : SeatAvailability) (asOf : Nat)
  | finished (answer : Except Exc (Option SeatAvailability)) (asOf : Nat)
  deriving DecidableEq, Repr

/-- A call of `get_seat_availability`. `completed` are the changes of the schedule that were complete when the call
    began. -/
structure SeatsCall where
  scheduleId : Uuid
  pc : SeatsPc
  completed : List Nat
  deriving DecidableEq, Repr

/-- `ex=5`. -/
def cacheExpiry : Time := 5 * 1000000

/-- The keys are `seats:{schedule_id}`. `changes` is history. -/
structure Cached where
  service : State
  entries : Uuid → Option (CacheEntry Time SeatAvailability)
  calls : List SeatsCall
  changes : List (Change Uuid Sid)

/-- The operation has run its last statement. -/
def Cached.done (σ : Cached) (i : Sid) : Bool := (σ.service.sessions[i]?).any (·.task.isFinished)

/-- The next statement of `get_seat_availability`: what becomes of the entries, and how the call goes on. -/
def getSeatsStatement (coll : Table.Collation) (cat : Catalog) (σ : Cached) (scheduleId : Uuid) :
    SeatsPc → Option ((Uuid → Option (CacheEntry Time SeatAvailability)) × SeatsPc)
  | .getCached =>
    match served σ.entries σ.service.now scheduleId with
    | some cached => some (σ.entries, .finished (.ok (some cached.value)) cached.asOf)
    | none => some (σ.entries, .query)
  | .query =>
    match getSeatAvailability coll cat σ.service.db scheduleId with
    | .error e => some (σ.entries, .finished (.error e) σ.changes.length)
    | .ok none => some (σ.entries, .finished (.ok none) σ.changes.length)
    | .ok (some payload) => some (σ.entries, .setCached payload σ.changes.length)
  | .setCached payload asOf =>
    some (Function.update σ.entries scheduleId (some ⟨payload, σ.service.now + cacheExpiry, asOf⟩),
      .finished (.ok (some payload)) asOf)
  | .finished _ _ => none

/-! ### The writers -/

/-- What the seat maps show of the bookings: the seats that are reserved or confirmed. -/
def Db.occupied (d : Db) : List (Uuid × Uuid × BookingStatus) :=
  (d.bookings.filter (·.status.isActive)).map fun b => (b.scheduleId, b.seatId, b.status)

/-- The schedules on which some seat has another reserved or confirmed status in the one state than in the other. -/
def Db.changed (d d' : Db) : List Uuid :=
  ((d.occupied.filter (· ∉ d'.occupied) ++ d'.occupied.filter (· ∉ d.occupied)).map (·.1)).dedup

/-- `_invalidate_seat_cache`: the schedule whose entry the next statement of a task deletes. A cleanup pass has no such
    statement. -/
def Task.invalidates : Task → Option Uuid
  | .create _ (.invalidate b) | .pay _ (.invalidate b) | .refund _ (.invalidate b) => some b.scheduleId
  | _ => none

/-- The entries after the next statement of session `i`. -/
def Cached.entriesAfter (σ : Cached) (i : Sid) : Uuid → Option (CacheEntry Time SeatAvailability) :=
  match (σ.service.sessions[i]?).bind fun s => s.task.invalidates with
  | some scheduleId => Function.update σ.entries scheduleId none
  | none => σ.entries

/-! ### The interleaving -/

/-- What happens next: a step of the service, a call of `get_seat_availability`, or its next statement, which
    may fail. -/
inductive CachedAct where
  | service (a : Act)
  | getSeats (scheduleId : Uuid)
  | read (k : Nat)
  | readRaises (k : Nat)
  deriving DecidableEq, Repr

/-- Session `i` has run its next statement. -/
def Cached.afterRun (σ : Cached) (i : Sid) (service : State) : Cached :=
  { σ with
    service := service
    entries := σ.entriesAfter i
    changes := σ.changes ++ (σ.service.db.changed service.db).map fun scheduleId => ⟨scheduleId, i⟩ }

/-- A call begins. -/
def Cached.begin (σ : Cached) (scheduleId : Uuid) : Cached :=
  { σ with calls := σ.calls ++ [⟨scheduleId, .getCached, completed σ.changes σ.done scheduleId⟩] }

/-- The step relation of the service with its cache. -/
def cachedStep (coll : Table.Collation) (cat : Catalog) (σ : Cached) : CachedAct → Option Cached
  | .service (.run i c) => do
    let service ← step cat σ.service (.run i c)
    some (σ.afterRun i service)
  | .service a => do
    let service ← step cat σ.service a
    some { σ with service := service }
  | .getSeats scheduleId => some (σ.begin scheduleId)
  | .read k => do
    let call ← σ.calls[k]?
    let (entries, pc) ← getSeatsStatement coll cat σ call.scheduleId call.pc
    some { σ with entries := entries, calls := σ.calls.set k { call with pc := pc } }
  | .readRaises k => do
    let call ← σ.calls[k]?
    if call.pc = .query then
      some { σ with calls := σ.calls.set k { call with pc := .finished (.error .databaseError) σ.changes.length } }
    else none

/-- The seeded service with an empty cache. -/
def Cached.seeded (now : Time) : Cached := ⟨.seeded now, fun _ => none, [], []⟩

/-! ### Inversion -/

/-- A statement of a call: it is served an entry, it reads the tables, or it stores what it has read. -/
inductive SeatsMove (coll : Table.Collation) (cat : Catalog) (σ : Cached) (k : Uuid) :
    SeatsPc → (Uuid → Option (CacheEntry Time SeatAvailability)) → SeatsPc → Prop
  | hit {cached : CacheEntry Time SeatAvailability} (h : served σ.entries σ.service.now k = some cached) :
    SeatsMove coll cat σ k .getCached σ.entries (.finished (.ok (some cached.value)) cached.asOf)
  | missed (h : served σ.entries σ.service.now k = none) : SeatsMove coll cat σ k .getCached σ.entries .query
  | failed {answer : Except Exc (Option SeatAvailability)} (h : ∀ payload, answer ≠ .ok (some payload)) :
    SeatsMove coll cat σ k .query σ.entries (.finished answer σ.changes.length)
  | queried {payload : SeatAvailability} (h : getSeatAvailability coll cat σ.service.db k = .ok (some payload)) :
    SeatsMove coll cat σ k .query σ.entries (.setCached payload σ.changes.length)
  | stored {payload : SeatAvailability} {asOf : Nat} : SeatsMove coll cat σ k (.setCached payload asOf)
      (Function.update σ.entries k (some ⟨payload, σ.service.now + cacheExpiry, asOf⟩))
      (.finished (.ok (some payload)) asOf)

/-- The outcomes of a step. -/
inductive CachedStepped (coll : Table.Collation) (cat : Catalog) (σ : Cached) : CachedAct → Cached → Prop
  | run {i : Sid} {c : Choice} {τ : State} (h : step cat σ.service (.run i c) = some τ) :
    CachedStepped coll cat σ (.service (.run i c)) (σ.afterRun i τ)
  | service {a : Act} {τ : State} (hrun : ∀ i c, a ≠ .run i c) (h : step cat σ.service a = some τ) :
    CachedStepped coll cat σ (.service a) { σ with service := τ }
  | getSeats (scheduleId : Uuid) : CachedStepped coll cat σ (.getSeats scheduleId) (σ.begin scheduleId)
  | read {k : Nat} {call : SeatsCall} {pc : SeatsPc} {entries : Uuid → Option (CacheEntry Time SeatAvailability)}
      (hcall : σ.calls[k]? = some call) (m : SeatsMove coll cat σ call.scheduleId call.pc entries pc) :
    CachedStepped coll cat σ (.read k) { σ with entries := entries, calls := σ.calls.set k { call with pc := pc } }
  | readRaises {k : Nat} {call : SeatsCall} (hcall : σ.calls[k]? = some call) :
    CachedStepped coll cat σ (.readRaises k)
      { σ with calls := σ.calls.set k { call with pc := .finished (.error .databaseError) σ.changes.length } }

section
variable {coll : Table.Collation} {cat : Catalog} {σ τ : Cached} {k : Uuid}

theorem getSeatsStatement_move {pc pc' : SeatsPc} {entries : Uuid → Option (CacheEntry Time SeatAvailability)}
    (h : getSeatsStatement coll cat σ k pc = some (entries, pc')) : SeatsMove coll cat σ k pc entries pc' := by
  cases pc with
  | getCached =>
    simp only [getSeatsStatement] at h
    split at h <;> cases h
    · rename_i hserved
      exact .hit hserved
    · rename_i hserved
      exact .missed hserved
  | query =>
    simp only [getSeatsStatement] at h
    split at h <;> cases h
    · exact .failed nofun
    · exact .failed nofun
    · rename_i hq
      exact .queried hq
  | setCached payload asOf =>
    cases h
    exact .stored
  | finished answer asOf => cases h

theorem cachedStep_stepped {act : CachedAct} (h : cachedStep coll cat σ act = some τ) :
    CachedStepped coll cat σ act τ := by
  cases act with
  | service a =>
    cases a with
    | run i c =>
      simp only [cachedStep, Option.bind_eq_bind, Option.bind_eq_some_iff, Option.some.injEq] at h
      obtain ⟨service, hservice, rfl⟩ := h
      exact .run hservice
    | _ =>
      simp only [cachedStep, Option.bind_eq_bind, Option.bind_eq_some_iff, Option.some.injEq] at h
      obtain ⟨service, hservice, rfl⟩ := h
      exact .service (fun _ _ he => by cases he) hservice
  | getSeats scheduleId =>
    cases h
    exact .getSeats scheduleId
  | read n =>
    simp only [cachedStep, Option.bind_eq_bind, Option.bind_eq_some_iff, Option.some.injEq, Prod.exists] at h
    obtain ⟨call, hcall, entries, pc, hmove, rfl⟩ := h
    exact .read hcall (getSeatsStatement_move hmove)
  | readRaises n =>
    simp only [cachedStep, Option.bind_eq_bind, Option.bind_eq_some_iff, Option.ite_none_right_eq_some,
      Option.some.injEq] at h
    obtain ⟨call, hcall, -, rfl⟩ := h
    exact .readRaises hcall

end

end Railbook
