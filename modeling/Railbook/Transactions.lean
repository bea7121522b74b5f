import Railbook.Chronology
import Railbook.Cleanup
import Railbook.Library.Refinement

/-! The service as a machine whose every request is one indivisible transaction on the tables. The engine refines it:
    a run of interleaved statements leaves the tables that the transactions leave, taken one after the other in the
    order of their commits. Only the overlap query is not among the conditions of a transaction. -/

namespace Railbook
open ReadCommitted Transition

/-- A request that went through: its session, what was asked, and the rows of `bookings` as the transaction
    leaves them. -/
structure Commit where
  session : Sid
  request : Request
  rows : List Booking
  deriving DecidableEq, Repr

/-- The price of a seat. -/
def Catalog.price? (cat : Catalog) (seatId : Uuid) : Option Amount := do
  let seat ← cat.seat? seatId
  let compartment ← cat.compartment? seat.compartmentId
  some (calculatePrice compartment.compType)

/-- The row of a reservation that is made at `t` in a transaction that began at `began`. -/
def CreateRequest.row (q : CreateRequest) (id : Uuid) (began t : Time) (price : Amount) : Booking where
  id := id
  userId := q.userId
  scheduleId := q.scheduleId
  seatId := q.seatId
  status := .reserved
  idempotencyKey := q.idempotencyKey
  reservedAt := began
  expiresAt := some (t + timedeltaMinutes 5)
  confirmedAt := none
  cancelledAt := none
  totalAmount := price

namespace Db
variable (d : Db)

/-- A new reservation, and its audit entry. -/
def reserve (q : CreateRequest) (b : Booking) (began : Time) (n : Nat) : Db where
  bookings := d.bookings ++ [b]
  payments := d.payments
  auditTrail := d.auditTrail ++
    [⟨n, b.id, q.userId, .reserved, none, .reserved, .reserved q.scheduleId q.seatId, q.ipAddress, began⟩]

/-- `b` is put in the place of the row with its id. -/
def replace (b : Booking) : List Booking := d.bookings.map fun x => if x.id = b.id then b else x

/-- The outcome of a charge: the row, its payment, and the two audit entries. -/
def settle (q : PayRequest) (b : Booking) (r : PaymentResult) (began t : Time) (n n' : Nat) : Db where
  bookings := d.replace (r.book b t)
  payments := d.payments ++ [{
    bookingId := b.id
    idempotencyKey := q.idempotencyKey
    amount := b.totalAmount
    status := r.status
    gatewayRef := r.gatewayRef
    attemptedAt := began
    completedAt := some t
    failureReason := if r.status = .success then none else r.failureReason }]
  auditTrail := d.auditTrail ++
    [⟨n, b.id, q.userId, .paymentAttempted, some .reserved, .reserved, .empty, q.ipAddress, began⟩,
     if r.status = .success then
       ⟨n', b.id, q.userId, .confirmed, some .reserved, .confirmed, .gatewayRef r.gatewayRef, q.ipAddress, began⟩
     else
       ⟨n', b.id, q.userId, .paymentFailed, some .reserved, .cancelled, .failureReason r.failureReason,
         q.ipAddress, began⟩]

/-- A refund: the row, and its audit entry. -/
def refund (q : RefundRequest) (b : Booking) (began t : Time) (n : Nat) : Db where
  bookings := d.replace { b with status := .refunded, cancelledAt := some t }
  payments := d.payments
  auditTrail := d.auditTrail ++
    [⟨n, b.id, q.userId, .refunded, some .confirmed, .refunded, .empty, q.ipAddress, began⟩]

/-- No audit entry has the id. -/
def FreshEntry (n : Nat) : Prop := ∀ a ∈ d.auditTrail, a.id ≠ n

end Db

/-- What `pay_booking` checks of the row `b`. -/
structure PayRequest.Admits (q : PayRequest) (d : Db) (b : Booking) (began : Time) : Prop where
  stored : b ∈ d.bookings
  asked : b.id = q.bookingId
  own : b.userId = q.userId
  reserved : b.status = .reserved
  unexpired : ∀ t, b.expiresAt = some t → began ≤ t

/-- What `refund_booking` checks of the row `b`. -/
structure RefundRequest.Admits (cat : Catalog) (q : RefundRequest) (d : Db) (b : Booking) (began : Time) : Prop where
  stored : b ∈ d.bookings
  asked : b.id = q.bookingId
  own : b.userId = q.userId
  confirmed : b.status = .confirmed
  early : ∃ schedule, cat.schedule? b.scheduleId = some schedule ∧ began + timedeltaHours 1 ≤ schedule.departureTime

/-- A transaction that begins at `began` takes the tables from one state to the next, all at once. What it reads is
    the state before it, whatever the clock, the gateway and the sequences give. -/
inductive Transact (cat : Catalog) : Db → Commit → Db → Prop
  | reserve {d : Db} {i : Sid} {q : CreateRequest} {id : Uuid} {price : Amount} {began t : Time} {n : Nat}
      (time : began ≤ t) (fresh : ∀ b ∈ d.bookings, b.id ≠ id)
      (unused : ∀ b ∈ d.bookings, b.idempotencyKey ≠ q.idempotencyKey)
      (vacant : ∀ b ∈ d.bookings, ¬(b.scheduleId = q.scheduleId ∧ b.seatId = q.seatId))
      (user : (cat.user? q.userId).isSome = true) (schedule : (cat.schedule? q.scheduleId).isSome = true)
      (priced : cat.price? q.seatId = some price) (entry : d.FreshEntry n) :
    Transact cat d ⟨i, .create q, [q.row id began t price]⟩ (d.reserve q (q.row id began t price) began n)
  | settle {d : Db} {i : Sid} {q : PayRequest} {b : Booking} {r : PaymentResult} {began t : Time} {n n' : Nat}
      (admits : q.Admits d b began) (unpaid : ∀ p ∈ d.payments, p.bookingId ≠ b.id)
      (unused : ∀ p ∈ d.payments, p.idempotencyKey ≠ q.idempotencyKey) (sound : r.Sound)
      (entries : d.FreshEntry n ∧ d.FreshEntry n' ∧ n < n') :
    Transact cat d ⟨i, .pay q, [r.book b t]⟩ (d.settle q b r began t n n')
  | refund {d : Db} {i : Sid} {q : RefundRequest} {b : Booking} {began t : Time} {n : Nat}
      (admits : q.Admits cat d b began) (entry : d.FreshEntry n) :
    Transact cat d ⟨i, .refund q, [{ b with status := .refunded, cancelledAt := some t }]⟩ (d.refund q b began t n)
  | expire {d : Db} {i : Sid} {es : List Booking} {began : Time} {n : Nat} (stored : ∀ b ∈ es, b ∈ d.bookings)
      (expired : ∀ b ∈ es, b.isExpired began = true) (distinct : (es.map (·.id)).Nodup)
      (entries : ∀ k < es.length, d.FreshEntry (n + k)) :
    Transact cat d ⟨i, .cleanup, es.map fun b => { b with status := .cancelled, cancelledAt := some began }⟩
      (d.expire began n es)

/-- The transaction that session `i` is about to commit. -/
def Task.commits (i : Sid) : Task → Option Commit
  | .create q (.commit b) => some ⟨i, .create q, [b]⟩
  | .pay q (.commit b) => some ⟨i, .pay q, [b]⟩
  | .refund q (.commit b) => some ⟨i, .refund q, [b]⟩
  | .cleanup (.commit es) => some ⟨i, .cleanup, es⟩
  | _ => none

/-- The transaction that a step commits. -/
def commits (σ : State) : Act → Option Commit
  | .run i _ => (σ.sessions[i]?).bind fun s => s.task.commits i
  | _ => none

/-- What a run has committed, in the order of the commits. -/
def commitLog (cat : Catalog) : State → List Act → List Commit := trace (step cat) commits

/-- The session has committed these rows, and answers with them. -/
def Task.Answers (rows : List Booking) : Task → Prop
  | .create _ (.invalidate b) | .create _ (.finished (.ok b)) => rows = [b]
  | .pay _ (.invalidate b) | .pay _ (.finished (.ok b)) => rows = [b]
  | .refund _ (.invalidate b) | .refund _ (.finished (.ok b)) => rows = [b]
  | .cleanup (.finished (.ok _)) => True
  | _ => False

/-- The session has not committed. If it has ended then with an error, or with the booking or the payment that it
    found under its key. -/
def Task.Uncommitted (d : Db) : Task → Prop
  | .create q (.finished (.ok b)) => b.idempotencyKey = q.idempotencyKey ∧ ∃ b' ∈ d.bookings, b'.fixed = b.fixed
  | .pay q (.finished (.ok _)) => ∃ p ∈ d.payments, p.idempotencyKey = q.idempotencyKey
  | .create _ (.invalidate _) | .pay _ (.invalidate _) | .refund _ (.invalidate _) | .refund _ (.finished (.ok _))
  | .cleanup (.finished (.ok _)) => False
  | _ => True

/-- The log names every session that has committed, once, with the answer that it gives. -/
structure State.Logged (σ : State) (log : List Commit) : Prop where
  once : (log.map (·.session)).Nodup
  committed : ∀ c ∈ log, ∃ s, σ.sessions[c.session]? = some s ∧ s.task.request = c.request ∧ s.task.Answers c.rows
  uncommitted : ∀ (i : Sid) s, σ.sessions[i]? = some s → (∀ c ∈ log, c.session ≠ i) → s.task.Uncommitted σ.db

/-- The audit entry of the attempt that `pay_booking` flushes before it calls the gateway. -/
def PayRequest.attempt (q : PayRequest) (b : Booking) (began : Time) (n : Nat) : Write :=
  .insertAudit (logAudit n began b.id q.userId .paymentAttempted (some .reserved) .reserved .empty q.ipAddress)

/-- The entry of a reservation. -/
def CreateRequest.entry (q : CreateRequest) (b : Booking) (began : Time) (n : Nat) : Write :=
  .insertAudit (logAudit n began b.id q.userId .reserved none .reserved (.reserved q.scheduleId q.seatId) q.ipAddress)

/-- `create_booking` has built `b` for a schedule that exists. -/
def CreateRequest.Built (cat : Catalog) (q : CreateRequest) (b : Booking) (began : Time) : Prop :=
  (cat.schedule? q.scheduleId).isSome = true ∧ ∃ t, began ≤ t ∧ b = q.row b.id began t b.totalAmount

/-- What a session has checked of the committed tables `d`, and all that it has written, when it is at a
    program counter. -/
def Task.Ready (cat : Catalog) (d : Db) (ws : List Write) (began : Time) : Task → Prop
  | .create q (.getSeat _) | .create q (.delete _ _) => (cat.schedule? q.scheduleId).isSome = true
  | .create q (.insertKey b) | .create q (.insertSeat b) => q.Built cat b began
  | .create q (.audit b) => q.Built cat b began ∧ (cat.user? q.userId).isSome = true ∧ ws = [.insertBooking b]
  | .create q (.commit b) =>
    q.Built cat b began ∧ (cat.user? q.userId).isSome = true ∧ ∃ n, ws = [.insertBooking b, q.entry b began n]
  | .pay q (.checkPayment b) | .pay q (.attempt b) => q.Admits d b began
  | .pay q (.charge b) | .pay q (.charging b) | .pay q (.record b _ _) =>
    q.Admits d b began ∧ ∃ n, ws = [q.attempt b began n]
  | .pay q (.commit b') => ∃ b r t n n', q.Admits d b began ∧ b' = r.book b t ∧ r.Sound ∧ n < n' ∧
    ws = q.attempt b began n :: payWrites began n' q b r t
  | .refund q (.checkDeparture b) => b ∈ d.bookings ∧ b.id = q.bookingId ∧ b.userId = q.userId ∧ b.status = .confirmed
  | .refund q (.findPayment b) | .refund q (.refund b _) | .refund q (.refunding b _) | .refund q (.record b _) =>
    q.Admits cat d b began
  | .refund q (.commit b') =>
    ∃ b t n, q.Admits cat d b began ∧ b' = { b with status := .refunded, cancelledAt := some t } ∧
    ws = refundWrites began n q b t
  | .cleanup (.flush es) => ∀ b ∈ es, b ∈ d.bookings ∧ b.isExpired began = true
  | .cleanup (.commit es') => ∃ es n, (∀ b ∈ es, b ∈ d.bookings ∧ b.isExpired began = true) ∧ (es.map (·.id)).Nodup ∧
    es' = (es.map fun b => { b with status := .cancelled, cancelledAt := some began }) ∧ ws = cleanupWrites began n es
  | _ => True

/-- The price of the booking that a session builds is that of the seat asked for. -/
def Task.Costs (cat : Catalog) : Task → Prop
  | .create q (.delete _ price) => cat.price? q.seatId = some price
  | .create q (.insertKey b) | .create q (.insertSeat b) | .create q (.audit b) | .create q (.commit b) =>
    cat.price? q.seatId = some b.totalAmount
  | _ => True

/-- The entry that a session writes has an id that no committed entry has, and no entry that another session writes. -/
structure State.EntriesApart (σ : State) : Prop where
  committed : ∀ i a, .insertAudit a ∈ σ.store.pending i → σ.db.FreshEntry a.id
  others : ∀ i j, i ≠ j → ∀ a a', .insertAudit a ∈ σ.store.pending i → .insertAudit a' ∈ σ.store.pending j →
    a.id ≠ a'.id

section
variable {cat : Catalog} {σ τ : State} {i j : Sid} {s : Session} {t : Task} {e : Effect} {began : Time} {b : Booking}
  {d d' : Db} {ws : List Write}

/-! ### What a session is ready to commit -/

theorem flush_pending {rs : List Resource} {n : Nat} :
    (σ.perform i (.flush rs ws n)).store.pending i = σ.store.pending i ++ ws := write_pending_self

theorem CreateMove.ready {q : CreateRequest} {pc pc' : CreatePc} (hr : Reachable cat σ)
    (hs : σ.sessions[i]? = some ⟨began, .create q pc⟩) (h : (Task.create q pc).Ready cat σ.db (σ.store.pending i) began)
    (m : CreateMove cat σ i began q pc e pc') :
    (Task.create q pc').Ready cat (σ.perform i e).db ((σ.perform i e).store.pending i) began := by
  have hnow : began ≤ σ.now := began_le_now hr _ (List.mem_of_getElem? hs)
  cases m with
  | disjoint hsch hov => exact Option.isSome_iff_exists.mpr ⟨_, hsch⟩
  | priced compType hx => exact ⟨h, σ.now, hnow, rfl⟩
  | replace compType => exact h
  | deleted hp ha => exact ⟨h, σ.now, hnow, rfl⟩
  | @keyed b id fresh free hk =>
    obtain ⟨hsch, t, ht, hb⟩ := h
    refine ⟨hsch, t, ht, ?_⟩
    rw [hb]
    rfl
  | seated free hx hu =>
    refine ⟨h, hu, ?_⟩
    rw [flush_pending, unwritten_of_reachable hr i _ hs rfl, List.nil_append]
  | audited =>
    obtain ⟨hb, hu, hws⟩ := h
    refine ⟨hb, hu, σ.nextAuditId, ?_⟩
    rw [flush_pending, hws]
    rfl
  | _ => trivial

theorem PayMove.ready {q : PayRequest} {pc pc' : PayPc} (hr : Reachable cat σ)
    (hs : σ.sessions[i]? = some ⟨began, .pay q pc⟩) (h : (Task.pay q pc).Ready cat σ.db (σ.store.pending i) began)
    (m : PayMove σ i began q pc e pc') :
    (Task.pay q pc').Ready cat (σ.perform i e).db ((σ.perform i e).store.pending i) began := by
  cases m with
  | admitted free hb hid hu hst hexp =>
    have hnow : began ≤ σ.now := began_le_now hr _ (List.mem_of_getElem? hs)
    rw [view_of_unwritten hr hs rfl] at hb
    exact ⟨hb, hid, hu, hst, fun t ht => Int.le_trans hnow (hexp t ht)⟩
  | unpaid hp => exact h
  | attempted =>
    refine ⟨h, σ.nextAuditId, ?_⟩
    rw [flush_pending, unwritten_of_reachable hr i _ hs rfl]
    rfl
  | called => exact h
  | answered c => exact h
  | @recorded b r t free hk =>
    obtain ⟨hadm, n, hws⟩ := h
    have hn : n < σ.nextAuditId :=
      (inv_of_reachableBy hr).pendingIds i
      (logAudit n began b.id q.userId .paymentAttempted (some .reserved) .reserved .empty
        q.ipAddress) (hws ▸ List.mem_singleton_self _)
    refine ⟨b, r, t, n, σ.nextAuditId, hadm, rfl, ((inv_of_reachableBy hr).taskOk hs).sound.2, hn, ?_⟩
    rw [flush_pending, hws]
    rfl
  | _ => trivial

theorem RefundMove.ready {q : RefundRequest} {pc pc' : RefundPc} (hr : Reachable cat σ)
    (hs : σ.sessions[i]? = some ⟨began, .refund q pc⟩) (h : (Task.refund q pc).Ready cat σ.db (σ.store.pending i) began)
    (m : RefundMove cat σ i began q pc e pc') :
    (Task.refund q pc').Ready cat (σ.perform i e).db ((σ.perform i e).store.pending i) began := by
  cases m with
  | admitted free hb hid hu hst =>
    rw [view_of_unwritten hr hs rfl] at hb
    exact ⟨hb, hid, hu, hst⟩
  | inTime hsch hdep =>
    have hnow : began ≤ σ.now := began_le_now hr _ (List.mem_of_getElem? hs)
    obtain ⟨hb, hid, hu, hst⟩ := h
    exact ⟨hb, hid, hu, hst, _, hsch, Int.le_trans (Int.add_le_add_right hnow _) hdep⟩
  | paid hp hid hst => exact h
  | unpaid hp => exact h
  | called => exact h
  | answered => exact h
  | @recorded b t =>
    refine ⟨b, t, σ.nextAuditId, h, rfl, ?_⟩
    rw [flush_pending, unwritten_of_reachable hr i _ hs rfl, List.nil_append]
  | _ => trivial

theorem CleanupMove.ready {pc pc' : CleanupPc} (hr : Reachable cat σ)
    (hs : σ.sessions[i]? = some ⟨began, .cleanup pc⟩) (h : (Task.cleanup pc).Ready cat σ.db (σ.store.pending i) began)
    (m : CleanupMove σ i began pc e pc') :
    (Task.cleanup pc').Ready cat (σ.perform i e).db ((σ.perform i e).store.pending i) began := by
  cases m with
  | scanned =>
    intro b hb
    obtain ⟨hb, hcond⟩ := List.mem_filter.mp hb
    obtain ⟨hst, hexp, -⟩ := of_decide_eq_true hcond
    rw [view_of_unwritten hr hs rfl] at hb
    exact ⟨hb, decide_eq_true ⟨hst, hexp⟩⟩
  | @flushed es =>
    refine ⟨es, σ.nextAuditId, h, ((inv_of_reachableBy hr).taskOk hs).sound, rfl, ?_⟩
    rw [flush_pending, unwritten_of_reachable hr i _ hs rfl, List.nil_append]
  | _ => trivial

/-- The rows that a session has checked are those that it holds. -/
theorem Task.Ready.congr {t : Task} (h : t.Ready cat d ws began)
    (hd : ∀ b ∈ d.bookings, .bookingRow b.id ∈ t.owned → b ∈ d'.bookings) : t.Ready cat d' ws began := by
  have pays : ∀ {q : PayRequest} {b : Booking}, .bookingRow b.id ∈ t.owned → q.Admits d b began → q.Admits d' b began :=
    fun hrow h => { h with stored := hd _ h.stored hrow }
  have refunds : ∀ {q : RefundRequest} {b : Booking}, .bookingRow b.id ∈ t.owned → q.Admits cat d b began →
      q.Admits cat d' b began := fun hrow h => { h with stored := hd _ h.stored hrow }
  cases t with
  | create q pc => cases pc <;> exact h
  | pay q pc =>
    cases pc with
    | checkPayment b => exact pays (by simp [Task.owned]) h
    | attempt b => exact pays (by simp [Task.owned]) h
    | charge b => exact ⟨pays (by simp [Task.owned]) h.1, h.2⟩
    | charging b => exact ⟨pays (by simp [Task.owned]) h.1, h.2⟩
    | record b r y => exact ⟨pays (by simp [Task.owned]) h.1, h.2⟩
    | commit b' =>
      obtain ⟨b, r, y, n, n', hadm, rfl, hrest⟩ := h
      exact ⟨b, r, y, n, n', pays (by simp [Task.owned, r.book_id]) hadm, rfl, hrest⟩
    | _ => trivial
  | refund q pc =>
    cases pc with
    | checkDeparture b => exact ⟨hd b h.1 (by simp [Task.owned]), h.2⟩
    | findPayment b => exact refunds (by simp [Task.owned]) h
    | refund b ref => exact refunds (by simp [Task.owned]) h
    | refunding b ref => exact refunds (by simp [Task.owned]) h
    | record b y => exact refunds (by simp [Task.owned]) h
    | commit b' =>
      obtain ⟨b, y, n, hadm, rfl, hws⟩ := h
      exact ⟨b, y, n, refunds (by simp [Task.owned]) hadm, rfl, hws⟩
    | _ => trivial
  | cleanup pc =>
    cases pc with
    | flush es =>
      exact fun b hb => ⟨hd b (h b hb).1 (List.mem_map.mpr ⟨b, hb, rfl⟩), (h b hb).2⟩
    | commit es' =>
      obtain ⟨es, n, hes, hnodup, rfl, hws⟩ := h
      refine ⟨es, n, fun b hb => ⟨hd b (hes b hb).1 ?_, (hes b hb).2⟩, hnodup, rfl, hws⟩
      simp only [Task.owned, List.map_map]
      exact List.mem_map.mpr ⟨b, hb, rfl⟩
    | _ => trivial

theorem ready_of_reachable (hr : Reachable cat σ) : ∀ (i : Sid) s, σ.sessions[i]? = some s →
    s.task.Ready cat σ.db (σ.store.pending i) s.began := by
  refine sessions_of_reachable (P := fun σ i s => s.task.Ready cat σ.db (σ.store.pending i) s.began) hr ?_ ?_ ?_ ?_
  · intro σ i r _ _
    cases r <;> trivial
  · intro σ i s e t hr hs h m
    cases m with
    | create m => exact m.ready hr hs h
    | pay m => exact m.ready hr hs h
    | refund m => exact m.ready hr hs h
    | cleanup m => exact m.ready hr hs h
  · intro σ i j s s' e t hr hs m hji hs' h
    rw [goto_store, goto_db, perform_pending_ne e hji]
    refine h.congr fun b hb hrow => ?_
    have hledger := perform_ledger_of_owner (e := e) (inv_of_reachableBy hr) hs hs' hji hrow
    exact (mem_ledger_bookings.mp (hledger ▸ mem_ledger_bookings.mpr ⟨hb, rfl⟩)).1
  · intro σ τ i s h hstore _ _
    have hdb : τ.db = σ.db := congrArg (·.data) hstore
    rw [hdb, hstore]
    exact h

/-! ### Prices and ids -/

theorem CreateMove.costs_of_ne {q : CreateRequest} {pc pc' : CreatePc} (h : (Task.create q pc).Costs cat)
    (hpc : ∀ existing, pc ≠ .getSeat existing) (m : CreateMove cat σ i began q pc e pc') :
    (Task.create q pc').Costs cat := by
  cases m with
  | priced compType hx => exact absurd rfl (hpc _)
  | replace compType => exact absurd rfl (hpc _)
  | deleted hp ha => exact h
  | keyed fresh free hk => exact h
  | seated free hx hu => exact h
  | audited => exact h
  | _ => trivial

theorem createBooking_costs {q : CreateRequest} {x : Choice} {pc pc' : CreatePc} (h : (Task.create q pc).Costs cat)
    (hc : createBooking cat σ i began q x pc = some (e, pc')) : (Task.create q pc').Costs cat := by
  by_cases hpc : ∃ existing, pc = .getSeat existing
  · obtain ⟨existing, rfl⟩ := hpc
    simp only [createBooking] at hc
    split at hc
    · cases hc
      trivial
    · rename_i seat hseat
      split at hc
      · cases hc
        trivial
      · rename_i compartment hcomp
        have hprice : cat.price? q.seatId = some (calculatePrice compartment.compType) := by
          simp [Catalog.price?, hseat, hcomp]
        split at hc <;> cases hc <;> exact hprice
  · exact (createBooking_move hc).costs_of_ne h fun existing hex => hpc ⟨existing, hex⟩

theorem costs_of_reachable (hr : Reachable cat σ) : ∀ s ∈ σ.sessions, s.task.Costs cat := by
  refine hr.invariant (I := fun σ => ∀ s ∈ σ.sessions, s.task.Costs cat) ?_ ?_
  · rintro σ ⟨now, rfl⟩ s hs
    cases hs
  · intro σ a τ _ hp _ hstep s' hs'
    obtain ⟨j, hj⟩ := List.mem_iff_getElem?.mp hs'
    cases step_stepped hstep with
    | request r =>
      rcases session_of_request hj with hj | ⟨-, rfl⟩
      · exact hp s' (List.mem_of_getElem? hj)
      · cases r <;> trivial
    | @run i c s e t hs hc m =>
      rcases session_of_goto hs hj with ⟨-, rfl⟩ | ⟨-, hj⟩
      · have h := hp s (List.mem_of_getElem? hs)
        obtain ⟨began, task⟩ := s
        cases task with
        | create q pc =>
          simp only [Session.statement, Option.map_eq_some_iff, Prod.mk.injEq, Prod.exists] at hc
          obtain ⟨e', pc', hc, -, rfl⟩ := hc
          exact createBooking_costs h hc
        | _ =>
          cases m
          trivial
      · exact hp s' (List.mem_of_getElem? hj)
    | @raise i s t hs hraise m =>
      rcases session_of_goto hs hj with ⟨-, rfl⟩ | ⟨-, hj⟩
      · rcases s with ⟨began, _ | _ | _ | _⟩ <;> simp only [Task.raise, Option.ite_none_right_eq_some,
          Option.some.injEq] at hraise <;>
          obtain ⟨-, rfl⟩ := hraise <;> trivial
      · exact hp s' (List.mem_of_getElem? hj)
    | tick d => exact hp s' (List.mem_of_getElem? hj)
    | updateConfig failureRate latencyMs => exact hp s' (List.mem_of_getElem? hj)

/-- The entries of a flush have the ids that it draws. -/
theorem Move.entries_new {rs : List Resource} {n : Nat} (m : Move cat σ i s (.flush rs ws n) t) {a : AuditTrail}
    (ha : .insertAudit a ∈ ws) : σ.nextAuditId ≤ a.id := by
  cases m with
  | create m =>
    cases m with
    | audited =>
      cases List.mem_singleton.mp ha
      exact Nat.le_refl _
    | deleted hp hx => simp at ha
    | seated free hx hu => simp at ha
  | pay m =>
    cases m with
    | attempted =>
      cases List.mem_singleton.mp ha
      exact Nat.le_refl _
    | recorded free hk => exact Nat.le_of_eq (payWrites_audit ha).symm
  | refund m =>
    cases m with
    | recorded =>
      simp only [refundWrites, List.mem_cons, reduceCtorEq, Write.insertAudit.injEq, List.not_mem_nil, or_false,
        false_or] at ha
      rw [ha]
      exact Nat.le_refl _
  | cleanup m =>
    cases m with
    | flushed =>
      simp only [cleanupWrites, List.mem_append, List.mem_map, reduceCtorEq, and_false, exists_false, false_or] at ha
      obtain ⟨⟨b, k⟩, -, ha⟩ := ha
      cases ha
      exact Nat.le_add_right _ _

theorem State.EntriesApart.move (h : σ.EntriesApart) (inv : Inv σ) (m : Move cat σ i s e t) :
    ((σ.perform i e).goto i s t).EntriesApart := by
  -- An entry that a session has pending after the move was pending before, or its id is one that the move draws.
  have old : ∀ j a, .insertAudit a ∈ (σ.perform i e).store.pending j → .insertAudit a ∈ σ.store.pending j ∨
      (j = i ∧ σ.nextAuditId ≤ a.id ∧ (σ.perform i e).db = σ.db) := by
    intro j a ha
    rcases pending_of_perform ha with hold | ⟨rfl, rs, ws, n, rfl, hnew⟩
    · exact Or.inl hold
    · exact Or.inr ⟨rfl, m.entries_new hnew, rfl⟩
  constructor
  · intro j a ha
    rw [goto_db]
    rcases old j a ha with ha' | ⟨-, hn, hdb⟩
    · rcases perform_db σ i e with hdb | ⟨rfl, hdb⟩
      · rw [hdb]
        exact h.committed j a ha'
      · rw [hdb]
        intro a' ha''
        rcases mem_auditTrail_foldl.mp ha'' with ha'' | ha''
        · exact h.committed j a ha' a' ha''
        · have hji : j ≠ i := by
            rintro rfl
            have hnil : (σ.perform j .commit).store.pending j = [] := rollback_pending_self
            rw [goto_store, hnil] at ha
            cases ha
          exact h.others i j (Ne.symm hji) a' a ha'' ha'
    · rw [hdb]
      exact fun a' ha' => Nat.ne_of_lt (Nat.lt_of_lt_of_le (inv.auditIds a' ha') hn)
  · intro j k hjk a a' ha ha'
    rcases old j a ha with hj | ⟨rfl, hn, -⟩
    · rcases old k a' ha' with hk | ⟨rfl, hn, -⟩
      · exact h.others j k hjk a a' hj hk
      · exact Nat.ne_of_lt (Nat.lt_of_lt_of_le (inv.pendingIds j a hj) hn)
    · rcases old k a' ha' with hk | ⟨rfl, -, -⟩
      · exact Nat.ne_of_gt (Nat.lt_of_lt_of_le (inv.pendingIds k a' hk) hn)
      · exact absurd rfl hjk

theorem entriesApart_of_reachable (hr : Reachable cat σ) : σ.EntriesApart := by
  refine hr.invariant (I := State.EntriesApart) ?_ ?_
  · rintro σ ⟨now, rfl⟩
    refine ⟨fun i a ha => ?_, fun i j _ a a' ha => ?_⟩ <;> cases ha
  · intro σ a τ hr h _ hstep
    have inv := inv_of_reachableBy hr
    cases step_stepped hstep with
    | run hs hc m => exact h.move inv m
    | raise hs hraise m => exact h.move inv m
    | request r => exact ⟨h.committed, h.others⟩
    | tick d => exact ⟨h.committed, h.others⟩
    | updateConfig failureRate latencyMs => exact ⟨h.committed, h.others⟩

/-! ### A commit is a transaction -/

theorem view_of_pending (h : σ.store.pending i = ws) : σ.view i = ws.foldl (fun d w => w.apply d) σ.db := by
  rw [← h]
  rfl

/-- No other row has an index entry of a booking that is inserted. -/
theorem Inv.holders_eq_nil {q : CreateRequest} {n : Nat} (inv : Inv σ) (hv : σ.view i = σ.db.reserve q b began n)
    {r : Resource} (hr : r ∈ b.resources) :
    σ.db.holders r = [] := by
  have hle : ((σ.view i).holders r).length ≤ 1 := (inv.holders r).2 i
  have heq : (σ.view i).holders r = σ.db.holders r ++ [b.unique] := by
    rw [hv]
    simp [Db.holders, Db.reserve, hr]
  rw [heq, List.length_append, List.length_singleton] at hle
  exact List.eq_nil_of_length_eq_zero (by omega)

/-- Under the primary key, an update of the row `b` puts the new row in its place. -/
theorem map_update_eq_replace {b' : Booking} {st : BookingStatus} {c x : Option Time}
    (key : (d.bookings.map (·.id)).Nodup) (hb : b ∈ d.bookings) (hb' : b' = b.update st c x) :
    (d.bookings.map fun r => if r.id = b.id then r.update st c x else r) = d.replace b' := by
  refine List.map_congr_left fun r hr => ?_
  have hid' : b'.id = b.id := by rw [hb', Booking.update_id]
  rw [hid']
  by_cases hid : r.id = b.id
  · rw [if_pos hid, if_pos hid, hb', List.inj_on_of_nodup_map key hr hb hid]
  · rw [if_neg hid, if_neg hid]

theorem PaymentResult.book_eq_update (r : PaymentResult) (b : Booking) (t : Time) : r.book b t =
    if r.status = .success then b.update .confirmed (some t) none else b.update .cancelled none (some t) := by
  unfold PaymentResult.book
  split <;> rfl

theorem foldl_payWrites {q : PayRequest} {r : PaymentResult} {t : Time} {n n' : Nat}
    (key : (d.bookings.map (·.id)).Nodup) (hb : b ∈ d.bookings) (hr : r.Sound) :
    (q.attempt b began n :: payWrites began n' q b r t).foldl (fun d w => w.apply d) d =
      d.settle q b r began t n n' := by
  have hbook := r.book_eq_update b t
  rw [Db.settle]
  rcases hr with ⟨hst, -⟩ | ⟨hst, href⟩
  · rw [hst, if_pos rfl] at hbook
    simp only [payWrites, hst, if_true, PayRequest.attempt, List.foldl_cons, List.foldl_nil, Write.apply, Db.mk.injEq,
      List.append_assoc, List.cons_append, List.nil_append]
    exact ⟨map_update_eq_replace key hb hbook, trivial, rfl⟩
  · rw [hst, if_neg (by decide)] at hbook
    simp only [payWrites, hst, reduceCtorEq, if_false, PayRequest.attempt, List.foldl_cons, List.foldl_nil, Write.apply,
      Db.mk.injEq, List.append_assoc, List.cons_append, List.nil_append, href]
    exact ⟨map_update_eq_replace key hb hbook, trivial, rfl⟩

theorem foldl_refundWrites {q : RefundRequest} {t : Time} {n : Nat} (key : (d.bookings.map (·.id)).Nodup)
    (hb : b ∈ d.bookings) : (refundWrites began n q b t).foldl (fun d w => w.apply d) d = d.refund q b began t n := by
  simp only [refundWrites, List.foldl_cons, List.foldl_nil, Write.apply, Db.refund, Db.mk.injEq]
  exact ⟨map_update_eq_replace key hb rfl, trivial, rfl⟩

/-- A reserved booking has no payment. -/
theorem Inv.unpaid_of_reserved (inv : Inv σ) (hb : b ∈ σ.db.bookings) (hst : b.status = .reserved) :
    ∀ p ∈ σ.db.payments, p.bookingId ≠ b.id := by
  obtain ⟨ph, hph, hconf⟩ := inv.conforms_of_mem hb
  cases phase_of_reserved hconf hph hst
  have hnil : (σ.db.ledger b.id).payments = [] := hconf.payments
  intro p hp hid
  have hmem := mem_ledger_payments.mpr ⟨hp, hid⟩
  rw [hnil] at hmem
  cases hmem

/-- What a session commits is one transaction on the committed tables. -/
theorem commit_transacts {c : Commit} (hr : Reachable cat σ) (hs : σ.sessions[i]? = some s)
    (hc : s.task.commits i = some c) :
    Transact cat σ.db c (σ.view i) := by
  obtain ⟨began, t⟩ := s
  have inv := inv_of_reachableBy hr
  have ready : t.Ready cat σ.db (σ.store.pending i) began := ready_of_reachable hr i _ hs
  have fresh : ∀ a, .insertAudit a ∈ σ.store.pending i → σ.db.FreshEntry a.id :=
    (entriesApart_of_reachable hr).committed i
  cases t with
  | create q pc =>
    cases pc with
    | commit b =>
      cases hc
      obtain ⟨⟨hsch, t, ht, hb⟩, hu, n, hws⟩ := ready
      have hv : σ.view i = σ.db.reserve q b began n := view_of_pending hws
      have hprice : cat.price? q.seatId = some b.totalAmount := costs_of_reachable hr _ (List.mem_of_getElem? hs)
      have hnil : ∀ r ∈ b.resources, σ.db.holders r = [] := fun r hr => inv.holders_eq_nil hv hr
      have hn : σ.db.FreshEntry n :=
        fresh (logAudit n began b.id q.userId .reserved none .reserved (.reserved q.scheduleId q.seatId) q.ipAddress)
          (hws ▸ List.mem_cons_of_mem _ (List.mem_singleton_self _))
      rw [hb] at hnil
      rw [hv, hb]
      exact .reserve ht (holders_row_eq_nil.mp (hnil _ (by simp [Booking.resources, CreateRequest.row])))
        (holders_key_eq_nil.mp (hnil _ (by simp [Booking.resources, CreateRequest.row])))
        (holders_seat_eq_nil.mp (hnil _ (by simp [Booking.resources, CreateRequest.row]))) hu hsch hprice hn
    | _ => cases hc
  | pay q pc =>
    cases pc with
    | commit b' =>
      cases hc
      obtain ⟨b, r, t, n, n', hadm, rfl, hr', hlt, hws⟩ := ready
      have hv : σ.view i = σ.db.settle q b r began t n n' :=
        (view_of_pending hws).trans (foldl_payWrites inv.ids_nodup hadm.stored hr')
      have hunpaid : ∀ p ∈ σ.db.payments, p.bookingId ≠ b.id := inv.unpaid_of_reserved hadm.stored hadm.reserved
      have hunused : ∀ p ∈ σ.db.payments, p.idempotencyKey ≠ q.idempotencyKey := by
        have hle : ((σ.view i).paymentsUnder q.idempotencyKey).length ≤ 1 := (inv.payments _).2 i
        rw [hv] at hle
        simp only [Db.paymentsUnder, Db.settle, List.filter_append, List.length_append, decide_true, List.filter_cons,
          if_true, List.length_cons, List.filter_nil, List.length_nil] at hle
        exact paymentsUnder_eq_nil.mp (List.eq_nil_of_length_eq_zero (by rw [Db.paymentsUnder]; omega))
      have hn : σ.db.FreshEntry n :=
        fresh (logAudit n began b.id q.userId .paymentAttempted (some .reserved) .reserved .empty q.ipAddress)
          (hws ▸ List.mem_cons_self)
      have hn' : σ.db.FreshEntry n' := by
        obtain ⟨a, ha, hid⟩ : ∃ a, .insertAudit a ∈ payWrites began n' q b r t ∧ a.id = n' := by
          unfold payWrites
          split <;> exact ⟨_, List.mem_cons_of_mem _ (List.mem_cons_of_mem _ List.mem_cons_self), rfl⟩
        exact hid ▸ fresh a (hws ▸ List.mem_cons_of_mem _ ha)
      rw [hv]
      exact .settle hadm hunpaid hunused hr' ⟨hn, hn', hlt⟩
    | _ => cases hc
  | refund q pc =>
    cases pc with
    | commit b' =>
      cases hc
      obtain ⟨b, t, n, hadm, rfl, hws⟩ := ready
      have hn : σ.db.FreshEntry n :=
        fresh (logAudit n began b.id q.userId .refunded (some .confirmed) .refunded .empty q.ipAddress)
          (hws ▸ List.mem_cons_of_mem _ (List.mem_singleton_self _))
      rw [(view_of_pending hws).trans (foldl_refundWrites inv.ids_nodup hadm.stored)]
      exact .refund hadm hn
    | _ => cases hc
  | cleanup pc =>
    cases pc with
    | commit es' =>
      cases hc
      obtain ⟨es, n, hes, hnodup, rfl, hws⟩ := ready
      rw [(view_of_pending hws).trans (foldl_cleanupWrites inv.ids_nodup fun b hb => (hes b hb).1)]
      refine .expire (fun b hb => (hes b hb).1) (fun b hb => (hes b hb).2) hnodup fun k hk => ?_
      have hmem : .insertAudit (logAudit (n + k) began es[k].id systemUserId .expiredCleanup (some .reserved) .cancelled
          (.expired es[k].expiresAt 300) none) ∈ cleanupWrites began n es := by
        refine List.mem_append_right _ (List.mem_map.mpr ⟨(es[k], k), ?_, rfl⟩)
        simp [List.mem_zipIdx_iff_getElem?]
      exact fresh _ (hws ▸ hmem)
    | _ => cases hc

theorem commits_session {c : Commit} (h : t.commits i = some c) : c.session = i ∧ c.request = t.request := by
  unfold Task.commits at h
  split at h <;> cases h <;> exact ⟨rfl, rfl⟩

theorem commits_of_finished (h : t.isFinished = true) : t.commits i = none := by
  unfold Task.isFinished at h
  split at h
  · rfl
  · rfl
  · rfl
  · rfl
  · cases h

theorem commits_eq_some {a : Act} {c : Commit} (h : commits σ a = some c) :
    ∃ x s, a = .run c.session x ∧ σ.sessions[c.session]? = some s ∧ s.task.commits c.session = some c := by
  cases a with
  | run i x =>
    obtain ⟨s, hs, hc⟩ := Option.bind_eq_some_iff.mp h
    obtain ⟨rfl, -⟩ := commits_session hc
    exact ⟨x, s, rfl, hs, hc⟩
  | _ => cases h

theorem commits_run {x : Choice} (hs : σ.sessions[i]? = some s) : commits σ (.run i x) = s.task.commits i := by
  rw [commits, hs, Option.bind_some]

/-- The statement at a commit commits. -/
theorem statement_of_commits {x : Choice} {c : Commit} (hc : s.task.commits i = some c)
    (h : s.statement cat σ i x = some (e, t)) : e = .commit ∧ t.request = s.task.request ∧ t.Answers c.rows := by
  obtain ⟨began, task⟩ := s
  cases task with
  | create q pc => cases pc <;> cases hc; cases h; exact ⟨rfl, rfl, rfl⟩
  | pay q pc => cases pc <;> cases hc; cases h; exact ⟨rfl, rfl, rfl⟩
  | refund q pc => cases pc <;> cases hc; cases h; exact ⟨rfl, rfl, rfl⟩
  | cleanup pc => cases pc <;> cases hc; cases h; exact ⟨rfl, rfl, trivial⟩

theorem Move.commits_of_commit (m : Move cat σ i s .commit t) : ∃ c, s.task.commits i = some c := by
  cases m with
  | create m => cases m; exact ⟨_, rfl⟩
  | pay m => cases m; exact ⟨_, rfl⟩
  | refund m => cases m; exact ⟨_, rfl⟩
  | cleanup m => cases m; exact ⟨_, rfl⟩

/-- Every step of the service is one transaction on the committed tables, or leaves them as they are. -/
theorem refines_transact (cat : Catalog) : Refines (step cat) (Reachable cat) commits (Transact cat) State.db where
  keep hr hstep := hr.next trivial hstep
  invisible := by
    intro σ a τ _ hstep hnone
    cases step_stepped hstep with
    | @run i x s e t hs hc m =>
      rw [goto_db]
      rcases perform_db σ i e with hdb | ⟨rfl, -⟩
      · exact hdb
      · obtain ⟨c, hc⟩ := m.commits_of_commit
        rw [commits_run hs, hc] at hnone
        cases hnone
    | _ => rfl
  matched := by
    intro σ a τ c hr hstep hsome
    obtain ⟨x, s, rfl, hs, hc⟩ := commits_eq_some hsome
    cases step_stepped hstep with
    | run hs' hst m =>
      cases hs.symm.trans hs'
      obtain ⟨rfl, -, -⟩ := statement_of_commits hc hst
      exact commit_transacts hr hs hc

/-! ### Answers -/

theorem Task.Answers.not_commits {rows : List Booking} (h : t.Answers rows) : t.commits i = none := by
  unfold Task.Answers at h
  split at h
  all_goals first | rfl | cases h

theorem Task.Answers.move {rows : List Booking} (h : s.task.Answers rows) (m : Move cat σ i s e t) :
    t.Answers rows := by
  cases m with
  | @create began q pc pc' e m =>
    cases m with
    | invalidated => exact h
    | failed x hx =>
      cases pc with
      | invalidate b => cases hx
      | finished r => cases hx
      | _ => cases h
    | _ => cases h
  | @pay began q pc pc' e m =>
    cases m with
    | invalidated => exact h
    | failed x hx server =>
      cases pc with
      | invalidate b => cases hx
      | finished r => cases hx
      | _ => cases h
    | _ => cases h
  | @refund began q pc pc' e m =>
    cases m with
    | invalidated => exact h
    | failed x hx server =>
      cases pc with
      | invalidate b => cases hx
      | finished r => cases hx
      | _ => cases h
    | _ => cases h
  | @cleanup began pc pc' e m =>
    cases m with
    | failed x hx =>
      cases pc with
      | finished r => cases hx
      | _ => cases h
    | _ => cases h

theorem Task.Answers.not_raise {rows : List Booking} {t' : Task} (h : t.Answers rows) (hraise : t.raise = some t') :
    False := by
  unfold Task.Answers at h
  split at h <;> first | cases hraise | cases h

theorem uncommitted_of_raise {t' : Task} (h : t.raise = some t') : t'.Uncommitted d := by
  cases t <;> simp only [Task.raise, Option.ite_none_right_eq_some, Option.some.injEq] at h <;> obtain ⟨-, rfl⟩ :=
    h <;> trivial

theorem Task.Uncommitted.mono (h : t.Uncommitted d) (kept : d.Kept d') : t.Uncommitted d' := by
  unfold Task.Uncommitted at h ⊢
  split at h
  · obtain ⟨hkey, b', hb', hfix⟩ := h
    obtain ⟨b'', hb'', hfix'⟩ := kept.bookings b' hb'
    exact ⟨hkey, b'', hb'', hfix'.trans hfix⟩
  · obtain ⟨p, hp, hkey⟩ := h
    exact ⟨p, kept.payments p hp, hkey⟩
  all_goals exact h

/-- A session that goes on without a commit finds what it returns. -/
theorem Task.Uncommitted.move (hr : Reachable cat σ) (hs : σ.sessions[i]? = some s) (h : s.task.Uncommitted σ.db)
    (m : Move cat σ i s e t) (he : e ≠ .commit) : t.Uncommitted σ.db := by
  cases m with
  | create m =>
    cases m with
    | found hb hkey =>
      rw [view_of_unwritten hr hs rfl] at hb
      exact ⟨hkey, _, hb, rfl⟩
    | committed => exact absurd rfl he
    | invalidated => exact h.elim
    | _ => trivial
  | pay m =>
    cases m with
    | replayed hp hkey =>
      rw [view_of_unwritten hr hs rfl] at hp
      exact ⟨_, hp, hkey⟩
    | committed => exact absurd rfl he
    | invalidated => exact h.elim
    | _ => trivial
  | refund m =>
    cases m with
    | committed => exact absurd rfl he
    | invalidated => exact h.elim
    | _ => trivial
  | cleanup m =>
    cases m with
    | committed => exact absurd rfl he
    | _ => trivial

theorem State.Logged.step {log : List Commit} {a : Act} (hr : Reachable cat σ) (h : σ.Logged log)
    (hstep : step cat σ a = some τ) : τ.Logged (log ++ (commits σ a).toList) := by
  have kept : σ.db.Kept τ.db := kept_step (noDelete_of_reachable hr) hstep
  constructor
  · -- A session in the log is past its commit.
    rw [List.map_append, List.nodup_append]
    refine ⟨h.once, ?_, ?_⟩
    · cases commits σ a <;> simp
    · intro i hi j hj hij
      obtain ⟨c, hc, rfl⟩ := List.mem_map.mp hi
      obtain ⟨c', hc', rfl⟩ := List.mem_map.mp hj
      obtain ⟨x, s', -, hs', hcom⟩ := commits_eq_some (Option.mem_toList.mp hc')
      obtain ⟨s, hs, -, hans⟩ := h.committed c hc
      rw [hij] at hs
      cases hs.symm.trans hs'
      rw [hans.not_commits] at hcom
      cases hcom
  · intro c hc
    rcases List.mem_append.mp hc with hc | hc
    · obtain ⟨s, hs, hreq, hans⟩ := h.committed c hc
      rcases session_step hstep hs with hs' | ⟨x, e, t, rfl, -, m, rfl⟩ | ⟨t, rfl, hraise, rfl⟩
      · exact ⟨s, hs', hreq, hans⟩
      · exact ⟨_, goto_sessions_self hs, m.request.trans hreq, hans.move m⟩
      · exact ⟨_, goto_sessions_self hs, (raise_request hraise).trans hreq, (hans.not_raise hraise).elim⟩
    · obtain ⟨x, s, rfl, hs, hcom⟩ := commits_eq_some (Option.mem_toList.mp hc)
      cases step_stepped hstep with
      | run hs' hst m =>
        cases hs.symm.trans hs'
        obtain ⟨rfl, hreq, hans⟩ := statement_of_commits hcom hst
        exact ⟨_, goto_sessions_self hs, hreq.trans (commits_session hcom).2.symm, hans⟩
  · intro i s' hs' hnot
    have hold : ∀ c ∈ log, c.session ≠ i := fun c hc => hnot c (List.mem_append_left _ hc)
    cases hs : σ.sessions[i]? with
    | none =>
      cases step_stepped hstep with
      | request r =>
        rcases session_of_request hs' with hs' | ⟨-, rfl⟩
        · cases hs.symm.trans hs'
        · cases r <;> trivial
      | run hsj hc m =>
        rcases session_of_goto hsj hs' with ⟨rfl, -⟩ | ⟨-, hs'⟩
        · cases hs.symm.trans hsj
        · cases hs.symm.trans hs'
      | raise hsj hraise m =>
        rcases session_of_goto hsj hs' with ⟨rfl, -⟩ | ⟨-, hs'⟩
        · cases hs.symm.trans hsj
        · cases hs.symm.trans hs'
      | tick d => cases hs.symm.trans hs'
      | updateConfig failureRate latencyMs => cases hs.symm.trans hs'
    | some s =>
      have hunc := h.uncommitted i s hs hold
      rcases session_step hstep hs with hs₁ | ⟨x, e, t, rfl, -, m, rfl⟩ | ⟨t, rfl, hraise, rfl⟩
      · cases hs₁.symm.trans hs'
        exact hunc.mono kept
      · cases (goto_sessions_self hs).symm.trans hs'
        refine (hunc.move hr hs m ?_).mono kept
        rintro rfl
        obtain ⟨c, hc⟩ := m.commits_of_commit
        refine hnot c (List.mem_append_right _ ?_) (commits_session hc).1
        rw [commits_run hs, hc]
        exact List.mem_singleton_self c
      · cases (goto_sessions_self hs).symm.trans hs'
        exact uncommitted_of_raise hraise

theorem logged_of_run {now : Time} {acts : List Act} (run : exec (step cat) (.seeded now) acts = some σ) :
    σ.Logged (commitLog cat (.seeded now) acts) := by
  have start : State.Logged (.seeded now) [] :=
    ⟨List.nodup_nil, fun c hc => by simp at hc, fun i s hs => by simp [State.seeded] at hs⟩
  exact (trace_invariant (I := fun σ log => Reachable cat σ ∧ σ.Logged log)
    (fun h hstep => ⟨h.1.next trivial hstep, h.2.step h.1 hstep⟩) ⟨.start ⟨now, rfl⟩, start⟩ run).2

/-- The committed tables after any run are those after the transactions of its log, one after the other, each of
    them all at once. The log names the sessions that went through, once, with the rows that they answer with; all
    others have changed nothing. A transaction comes after everything that had been committed when its session had
    not ended yet. -/
theorem runs_as_transactions {now : Time} {acts : List Act} (run : exec (step cat) (.seeded now) acts = some σ) :
    Run (Transact cat) .empty (commitLog cat (.seeded now) acts) σ.db ∧ σ.Logged (commitLog cat (.seeded now) acts) ∧
      ∀ pre post υ, acts = pre ++ post → exec (step cat) (.seeded now) pre = some υ →
        ∃ later, commitLog cat (.seeded now) acts = commitLog cat (.seeded now) pre ++ later ∧
          ∀ c ∈ later, ∀ s, υ.sessions[c.session]? = some s → s.task.isFinished = false := by
  refine ⟨(refines_transact cat).run (.start ⟨now, rfl⟩) run, logged_of_run run, ?_⟩
  rintro pre post υ rfl hpre
  refine ⟨commitLog cat υ post, trace_append hpre, fun c hc s hs => ?_⟩
  rw [exec_append, hpre] at run
  obtain ⟨pre', a, -, w, -, -, hpre', hcom, -, -⟩ := exists_step_of_mem_trace run hc
  obtain ⟨x, s', -, hs', hcom⟩ := commits_eq_some hcom
  refine Bool.eq_false_iff.mpr fun hf => ?_
  cases (finished_exec hpre' hs hf).symm.trans hs'
  rw [commits_of_finished hf] at hcom
  cases hcom

/-- Two requests race for a seat, and the winner pays: the log has the winner and its payment. -/
theorem runs_as_transactions_race : ∃ (σ : State) (log : List Commit), Run (Transact sampleCatalog) .empty log σ.db ∧
    σ.Logged log ∧
    log.map (·.session) = [0, 2] := by
  have hrun : (exec (step sampleCatalog) (.seeded 0) (.request (.create ⟨1, 20, 40, 50, none⟩) ::
      .request (.create ⟨2, 20, 40, 51, none⟩) :: runs 1 5 61 ++ runs 0 9 60 ++ runs 1 1 61 ++
      .request (.pay ⟨60, 1, 70, none⟩) :: runs 2 9 80)).any (fun _ => true) = true := by decide
  obtain ⟨σ, run, -⟩ := (Option.any_eq_true _ _).mp hrun
  obtain ⟨transactions, logged, -⟩ := runs_as_transactions run
  exact ⟨σ, _, transactions, logged, by decide⟩

end

end Railbook
