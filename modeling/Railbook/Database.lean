import Railbook.Models
import Railbook.Library.Store

/-! The three tables that booking operations write, the statements that write them, and what a row or an entry
    of a unique index shows of them. -/

namespace Railbook
open ReadCommitted

/-- The tables that the operations write. -/
structure Db where
  bookings : List Booking
  payments : List Payment
  auditTrail : List AuditTrail
  deriving DecidableEq, Repr

/-- The tables after `seed_database`. -/
def Db.empty : Db := ⟨[], [], []⟩

/-- What a session can hold: a row of `bookings`, or an entry of a unique index of `bookings` or `payments`. -/
inductive Resource where
  | bookingRow (id : Uuid)
  | bookingKey (idempotencyKey : Uuid)
  | bookingSeat (scheduleId seatId : Uuid)
  | paymentKey (idempotencyKey : Uuid)
  deriving DecidableEq, Repr

/-- The statements that a flush emits. `setBooking` is `UPDATE bookings SET .. WHERE id = ..`: a time that is
    `none` is not among the columns set. -/
inductive Write where
  | insertBooking (b : Booking)
  | setBooking (id : Uuid) (status : BookingStatus) (confirmedAt cancelledAt : Option Time)
  | deleteBooking (b : Booking)
  | insertPayment (p : Payment)
  | insertAudit (a : AuditTrail)
  deriving DecidableEq, Repr

namespace Booking

/-- The columns under a primary key or unique constraint. No statement changes them. -/
def unique (b : Booking) : Uuid × Uuid × Uuid × Uuid := (b.id, b.idempotencyKey, b.scheduleId, b.seatId)

/-- The row and the index entries of a booking. -/
def resources (b : Booking) : List Resource :=
  [.bookingRow b.id, .bookingKey b.idempotencyKey, .bookingSeat b.scheduleId b.seatId]

/-- The `UPDATE` of a booking: the status, and the times that are given. -/
def update (b : Booking) (status : BookingStatus) (confirmedAt cancelledAt : Option Time) : Booking :=
  { b with
    status := status
    confirmedAt := confirmedAt.or b.confirmedAt
    cancelledAt := cancelledAt.or b.cancelledAt }

@[simp] theorem update_id {b : Booking} {st : BookingStatus} {c x : Option Time} : (b.update st c x).id = b.id := rfl

@[simp] theorem update_unique {b : Booking} {st : BookingStatus} {c x : Option Time} :
    (b.update st c x).unique = b.unique := rfl

@[simp] theorem update_resources {b : Booking} {st : BookingStatus} {c x : Option Time} :
    (b.update st c x).resources = b.resources := rfl

theorem resources_of_unique {a b : Booking} (h : a.unique = b.unique) : a.resources = b.resources := by
  simp only [unique, Prod.mk.injEq] at h
  simp only [resources, h]

end Booking

namespace Write

/-- The booking a statement is about. -/
def row : Write → Uuid
  | insertBooking b => b.id
  | setBooking id _ _ _ => id
  | deleteBooking b => b.id
  | insertPayment p => p.bookingId
  | insertAudit a => a.bookingId

/-- The rows and index entries that the write touches. -/
def resources : Write → List Resource
  | insertBooking b => b.resources
  | setBooking id _ _ _ => [.bookingRow id]
  | deleteBooking b => b.resources
  | insertPayment p => [.bookingRow p.bookingId, .paymentKey p.idempotencyKey]
  | insertAudit a => [.bookingRow a.bookingId]

/-- Only the row with exactly these unique columns is deleted: its session holds the row, so this is the row
    stored under the id. -/
def apply : Write → Db → Db
  | insertBooking b, d => { d with bookings := d.bookings ++ [b] }
  | setBooking id st c x, d =>
    { d with bookings := d.bookings.map fun b => if b.id = id then b.update st c x else b }
  | deleteBooking b, d => { d with bookings := d.bookings.filter fun r => r.unique ≠ b.unique }
  | insertPayment p, d => { d with payments := d.payments ++ [p] }
  | insertAudit a, d => { d with auditTrail := d.auditTrail ++ [a] }

instance : Writes Write Db Resource where
  apply := Write.apply
  touches w r := r ∈ w.resources

theorem bookingRow_mem_resources {w : Write} {id : Uuid} : .bookingRow id ∈ w.resources ↔ w.row = id := by
  cases w <;> simp [row, resources, Booking.resources, eq_comm]

end Write

instance (r : Resource) : DecidablePred fun w : Write => touches w r := fun w =>
  inferInstanceAs (Decidable (r ∈ w.resources))

@[simp] theorem apply_def (w : Write) (d : Db) : ReadCommitted.apply w d = w.apply d := rfl

@[simp] theorem touches_def (w : Write) (r : Resource) : touches w r ↔ r ∈ w.resources := Iff.rfl

namespace Db

/-- `session.get(Booking, id)` and `select(Booking).where(Booking.id == id)`. -/
def booking? (d : Db) (id : Uuid) : Option Booking := d.bookings.find? (·.id == id)

/-- The bookings that hold a row or an index entry, by their unique columns. -/
def holders (r : Resource) (d : Db) : List (Uuid × Uuid × Uuid × Uuid) :=
  (d.bookings.filter fun b => r ∈ b.resources).map Booking.unique

/-- The payments under an idempotency key. -/
def paymentsUnder (key : Uuid) (d : Db) : List Payment := d.payments.filter (·.idempotencyKey = key)

end Db

/-- Everything the tables hold on one booking. -/
structure Ledger where
  bookings : List Booking
  payments : List Payment
  auditTrail : List AuditTrail
  deriving DecidableEq, Repr

/-- No row is about the booking. -/
def Ledger.empty : Ledger := ⟨[], [], []⟩

/-- The rows about booking `id`. -/
def Db.ledger (id : Uuid) (d : Db) : Ledger where
  bookings := d.bookings.filter (·.id = id)
  payments := d.payments.filter (·.bookingId = id)
  auditTrail := d.auditTrail.filter (·.bookingId = id)

/-! ### Views -/

theorem filter_update {d : Db} {id : Uuid} {st : BookingStatus} {c x : Option Time} {p : Booking → Bool}
    (hp : ∀ b, p (b.update st c x) = p b) :
    ((d.bookings.map fun b => if b.id = id then b.update st c x else b).filter p) =
      (d.bookings.filter p).map fun b => if b.id = id then b.update st c x else b := by
  rw [List.filter_map]
  congr 2
  funext b
  simp only [Function.comp_apply]
  split
  · exact hp b
  · rfl

theorem ledger_viewAt (id : Uuid) : ViewAt Write (.bookingRow id) (Db.ledger id) where
  frame w d h := by
    have hrow : w.row ≠ id := fun e => h (Write.bookingRow_mem_resources.mpr e)
    cases w with
    | insertBooking b => simp [Db.ledger, Write.apply, Write.row] at hrow ⊢; exact hrow
    | setBooking id' st c x =>
      simp only [Db.ledger, apply_def, Write.apply, Ledger.mk.injEq, and_true]
      rw [filter_update fun _ => rfl]
      refine (List.map_congr_left fun b hb => ?_).trans (List.map_id _)
      have hb : b.id = id := by simpa using (List.mem_filter.mp hb).2
      exact if_neg fun e => hrow (e.symm.trans hb)
    | deleteBooking b =>
      simp only [Db.ledger, apply_def, Write.apply, Ledger.mk.injEq, and_true, List.filter_filter]
      refine List.filter_congr fun r _ => ?_
      by_cases hr : r.id = id
      · have : r.unique ≠ b.unique := fun e => hrow (by rw [← hr]; exact (congrArg Prod.fst e).symm)
        simp [hr, this]
      · simp [hr]
    | insertPayment p => simp [Db.ledger, Write.apply, Write.row] at hrow ⊢; exact hrow
    | insertAudit a => simp [Db.ledger, Write.apply, Write.row] at hrow ⊢; exact hrow
  congr w d d' h := by
    simp only [Db.ledger, Ledger.mk.injEq] at h
    obtain ⟨hb, hp, ha⟩ := h
    cases w with
    | insertBooking b => simp [Db.ledger, Write.apply, hb, hp, ha]
    | setBooking id' st c x =>
      simp only [Db.ledger, apply_def, Write.apply, hp, ha]
      rw [filter_update fun _ => rfl, filter_update fun _ => rfl, hb]
    | deleteBooking b =>
      simp only [Db.ledger, apply_def, Write.apply, hp, ha, List.filter_filter, Ledger.mk.injEq, and_true]
      have comm : ∀ l : List Booking, l.filter (fun r => decide (r.id = id) && decide (r.unique ≠ b.unique)) =
          (l.filter (·.id = id)).filter fun r => r.unique ≠ b.unique := fun l => by
        rw [List.filter_filter]
        exact List.filter_congr fun r _ => Bool.and_comm ..
      rw [comm, comm, hb]
    | insertPayment p => simp [Db.ledger, Write.apply, hb, hp, ha]
    | insertAudit a => simp [Db.ledger, Write.apply, hb, hp, ha]

theorem holders_viewAt (r : Resource) : ViewAt Write r (Db.holders r) where
  frame w d h := by
    have h : r ∉ w.resources := h
    cases w with
    | insertBooking b => simp [Db.holders, Write.apply, Write.resources] at h ⊢; exact h
    | setBooking id' st c x =>
      simp only [Db.holders, apply_def, Write.apply]
      rw [filter_update fun _ => rfl, List.map_map]
      refine List.map_congr_left fun b _ => ?_
      simp only [Function.comp_apply]
      split <;> simp
    | deleteBooking b =>
      simp only [Db.holders, apply_def, Write.apply, List.filter_filter]
      congr 1
      refine List.filter_congr fun a _ => ?_
      by_cases ha : a.unique = b.unique
      · have hr : r ∉ a.resources := fun hr => h (by rw [Booking.resources_of_unique ha] at hr; exact hr)
        simp [hr]
      · simp [ha]
    | insertPayment p => rfl
    | insertAudit a => rfl
  congr w d d' h := by
    cases w with
    | insertBooking b =>
      simp only [Db.holders, apply_def, Write.apply, List.filter_append, List.map_append] at h ⊢
      rw [h]
    | setBooking id' st c x =>
      simp only [Db.holders, apply_def, Write.apply] at h ⊢
      rw [filter_update fun _ => rfl, filter_update fun _ => rfl, List.map_map, List.map_map]
      have : (Booking.unique ∘ fun b : Booking => if b.id = id' then b.update st c x else b) = Booking.unique := by
        funext b
        simp only [Function.comp_apply]
        split <;> simp
      rw [this, h]
    | deleteBooking b =>
      have drop : ∀ l : List Booking, ((l.filter fun a => a.unique ≠ b.unique).filter fun a => r ∈ a.resources).map
          Booking.unique = ((l.filter fun a => r ∈ a.resources).map Booking.unique).filter (· ≠ b.unique) := fun l => by
        rw [List.filter_map, List.filter_filter, List.filter_filter]
        exact congrArg _ (List.filter_congr fun a _ => Bool.and_comm ..)
      simp only [Db.holders, apply_def, Write.apply] at h ⊢
      rw [drop, drop, h]
    | insertPayment p => exact h
    | insertAudit a => exact h

theorem paymentsUnder_viewAt (key : Uuid) : ViewAt Write (.paymentKey key) (Db.paymentsUnder key) where
  frame w d h := by
    have h : .paymentKey key ∉ w.resources := h
    cases w with
    | insertPayment p =>
      simp only [Write.resources, List.mem_cons, reduceCtorEq, Resource.paymentKey.injEq, List.not_mem_nil, or_false,
        false_or] at h
      simp [Db.paymentsUnder, Write.apply, Ne.symm h]
    | _ => rfl
  congr w d d' h := by
    cases w with
    | insertPayment p =>
      simp only [Db.paymentsUnder, apply_def, Write.apply, List.filter_append] at h ⊢
      rw [h]
    | _ => exact h

end Railbook
