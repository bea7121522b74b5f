import Railbook.Engine

/-! What a step can do, said once. Each statement of an operation is inverted into its moves: the effect, the
    next program counter, and what the statement read. Every exit by an exception is the one move `failed`. -/

namespace Railbook
open ReadCommitted Transition

/-- The program counters at which the gateway has answered. -/
def PayPc.isAnswered : PayPc → Bool
  | record _ _ _ | commit _ => true
  | _ => false

/-- The same for a refund. -/
def RefundPc.isAnswered : RefundPc → Bool
  | record _ _ | commit _ => true
  | _ => false

section
variable (cat : Catalog) (σ : State) (i : Sid) (began : Time)

/-- The moves of `create_booking`. -/
inductive CreateMove (q : CreateRequest) : CreatePc → Effect → CreatePc → Prop
  | found {b : Booking} (hb : b ∈ (σ.view i).bookings) (hkey : b.idempotencyKey = q.idempotencyKey) :
    CreateMove q .checkKey .close (.finished (.ok b))
  | unused (h : ∀ b ∈ (σ.view i).bookings, b.idempotencyKey ≠ q.idempotencyKey) : CreateMove q .checkKey .read .lockSeat
  | stored {b : Booking} (hb : b ∈ (σ.view i).bookings) (hs : b.scheduleId = q.scheduleId) (hx : b.seatId = q.seatId) :
    CreateMove q .lockSeat .read (.awaitSeat b.id)
  | vacant (h : ∀ b ∈ (σ.view i).bookings, ¬(b.scheduleId = q.scheduleId ∧ b.seatId = q.seatId)) :
    CreateMove q .lockSeat .read (.checkOverlap none)
  | gone {id : Uuid} (h : ∀ b ∈ (σ.view i).bookings, b.id ≠ id) :
    CreateMove q (.awaitSeat id) .read (.checkOverlap none)
  | released {b : Booking} (free : σ.store.Free i (.bookingRow b.id)) (hb : b ∈ (σ.view i).bookings)
      (hst : b.status.isActive = false) :
    CreateMove q (.awaitSeat b.id) (.lock [.bookingRow b.id]) (.checkOverlap (some b))
  | disjoint {existing : Option Booking} {schedule : Schedule} (hs : cat.schedule? q.scheduleId = some schedule)
      (h : ∀ b ∈ (σ.view i).bookings, overlaps cat schedule q.userId b = false) :
    CreateMove q (.checkOverlap existing) .read (.getSeat existing)
  | priced (compType : CompType) (hx : (cat.seat? q.seatId).isSome = true) :
    CreateMove q (.getSeat none) .read (.insertKey (newBooking σ began q (calculatePrice compType)))
  | replace {e : Booking} (compType : CompType) :
    CreateMove q (.getSeat (some e)) .read (.delete e (calculatePrice compType))
  | deleted {e : Booking} {price : Amount} (hp : ∀ p ∈ (σ.view i).payments, p.bookingId ≠ e.id)
      (ha : ∀ a ∈ (σ.view i).auditTrail, a.bookingId ≠ e.id) :
    CreateMove q (.delete e price) (.flush e.resources [.deleteBooking e] 0) (.insertKey (newBooking σ began q price))
  | keyed {b : Booking} {id : Uuid} (fresh : σ.FreshId id) (free : σ.store.Free i (.bookingKey q.idempotencyKey))
      (h : ∀ b ∈ (σ.view i).bookings, b.idempotencyKey ≠ q.idempotencyKey) :
    CreateMove q (.insertKey b) (.lock [.bookingRow id, .bookingKey q.idempotencyKey]) (.insertSeat { b with id := id })
  | seated {b : Booking} (free : σ.store.Free i (.bookingSeat q.scheduleId q.seatId))
      (h : ∀ b ∈ (σ.view i).bookings, ¬(b.scheduleId = q.scheduleId ∧ b.seatId = q.seatId))
      (hu : (cat.user? q.userId).isSome = true) :
    CreateMove q (.insertSeat b) (.flush [.bookingSeat q.scheduleId q.seatId] [.insertBooking b] 0) (.audit b)
  | audited {b : Booking} :
    CreateMove q (.audit b)
    (.flush [] [.insertAudit (logAudit σ.nextAuditId began b.id q.userId .reserved none .reserved
      (.reserved q.scheduleId q.seatId) q.ipAddress)] 1) (.commit b)
  | committed {b : Booking} : CreateMove q (.commit b) .commit (.invalidate b)
  | invalidated {b : Booking} : CreateMove q (.invalidate b) .close (.finished (.ok b))
  | failed {pc : CreatePc} (e : Exc) (h : pc.isStatement = true) : CreateMove q pc .close (.finished (.error e))

/-- The moves of `pay_booking`. -/
inductive PayMove (q : PayRequest) : PayPc → Effect → PayPc → Prop
  | located : PayMove q .lockBooking .read .awaitBooking
  | admitted {b : Booking} (free : σ.store.Free i (.bookingRow b.id)) (hb : b ∈ (σ.view i).bookings)
      (hid : b.id = q.bookingId) (hu : b.userId = q.userId) (hst : b.status = .reserved)
      (hexp : ∀ t, b.expiresAt = some t → σ.now ≤ t) :
    PayMove q .awaitBooking (.lock [.bookingRow b.id]) (.checkPayment b)
  | replayed {b : Booking} {p : Payment} (hp : p ∈ (σ.view i).payments) (hkey : p.idempotencyKey = q.idempotencyKey) :
    PayMove q (.checkPayment b) .close (.finished (.ok b))
  | unpaid {b : Booking} (h : ∀ p ∈ (σ.view i).payments, p.idempotencyKey ≠ q.idempotencyKey) :
    PayMove q (.checkPayment b) .read (.attempt b)
  | attempted {b : Booking} :
    PayMove q (.attempt b) (.flush [] [.insertAudit (logAudit σ.nextAuditId began b.id q.userId .paymentAttempted
      (some .reserved) .reserved .empty q.ipAddress)] 1) (.charge b)
  | called {b : Booking} :
    PayMove q (.charge b) (.call ⟨i, b.id, q.idempotencyKey, b.totalAmount⟩) (.charging b)
  | answered {b : Booking} (c : Choice) :
    PayMove q (.charging b)
      (.answer ⟨⟨i, b.id, q.idempotencyKey, b.totalAmount⟩, (σ.gateway.charge b.totalAmount q.idempotencyKey c).1,
        (σ.gateway.processed.lookup q.idempotencyKey).isNone⟩ (σ.gateway.charge b.totalAmount q.idempotencyKey c).2)
      (.record b (σ.gateway.charge b.totalAmount q.idempotencyKey c).1 σ.now)
  | recorded {b : Booking} {r : PaymentResult} {t : Time} (free : σ.store.Free i (.paymentKey q.idempotencyKey))
      (h : ∀ p ∈ (σ.view i).payments, p.idempotencyKey ≠ q.idempotencyKey) :
    PayMove q (.record b r t) (.flush [.paymentKey q.idempotencyKey] (payWrites began σ.nextAuditId q b r t) 1)
      (.commit (r.book b t))
  | committed {b : Booking} : PayMove q (.commit b) .commit (.invalidate b)
  | invalidated {b : Booking} : PayMove q (.invalidate b) .close (.finished (.ok b))
  | failed {pc : PayPc} (e : Exc) (h : pc.isStatement = true) (server : pc.isAnswered = true → e.isServerError = true) :
    PayMove q pc .close (.finished (.error e))

/-- The moves of `refund_booking`. -/
inductive RefundMove (q : RefundRequest) : RefundPc → Effect → RefundPc → Prop
  | located : RefundMove q .lockBooking .read .awaitBooking
  | admitted {b : Booking} (free : σ.store.Free i (.bookingRow b.id)) (hb : b ∈ (σ.view i).bookings)
      (hid : b.id = q.bookingId) (hu : b.userId = q.userId) (hst : b.status = .confirmed) :
    RefundMove q .awaitBooking (.lock [.bookingRow b.id]) (.checkDeparture b)
  | inTime {b : Booking} {schedule : Schedule} (hs : cat.schedule? b.scheduleId = some schedule)
      (h : σ.now + timedeltaHours 1 ≤ schedule.departureTime) : RefundMove q (.checkDeparture b) .read (.findPayment b)
  | paid {b : Booking} {p : Payment} (hp : p ∈ (σ.view i).payments) (hid : p.bookingId = b.id)
      (hst : p.status = .success) :
    RefundMove q (.findPayment b) .read (.refund b p.gatewayRef)
  | unpaid {b : Booking} (h : ∀ p ∈ (σ.view i).payments, ¬(p.bookingId = b.id ∧ p.status = .success)) :
    RefundMove q (.findPayment b) .read (.record b σ.now)
  | called {b : Booking} {ref : Option GatewayRef} :
    RefundMove q (.refund b ref) (.callRefund ⟨i, b.id, ref⟩) (.refunding b ref)
  | answered {b : Booking} {ref : Option GatewayRef} :
    RefundMove q (.refunding b ref) (.refunded ⟨i, b.id, ref⟩) (.record b σ.now)
  | recorded {b : Booking} {t : Time} :
    RefundMove q (.record b t) (.flush [] (refundWrites began σ.nextAuditId q b t) 1)
      (.commit { b with status := .refunded, cancelledAt := some t })
  | committed {b : Booking} : RefundMove q (.commit b) .commit (.invalidate b)
  | invalidated {b : Booking} : RefundMove q (.invalidate b) .close (.finished (.ok b))
  | failed {pc : RefundPc} (e : Exc) (h : pc.isStatement = true)
      (server : pc.isAnswered = true → e.isServerError = true) :
    RefundMove q pc .close (.finished (.error e))

/-- The moves of a cleanup pass. -/
inductive CleanupMove : CleanupPc → Effect → CleanupPc → Prop
  | scanned : CleanupMove .scan (.lock ((expiredReservations σ i began).map fun b => .bookingRow b.id))
      (.flush (expiredReservations σ i began))
  | flushed {expired : List Booking} :
    CleanupMove (.flush expired) (.flush [] (cleanupWrites began σ.nextAuditId expired) expired.length)
      (.commit (expired.map fun b => { b with status := .cancelled, cancelledAt := some began }))
  | committed {expired : List Booking} : CleanupMove (.commit expired) .commit (.finished (.ok ()))
  | failed {pc : CleanupPc} (e : Exc) (h : pc.isStatement = true) : CleanupMove pc .close (.finished (.error e))

end

/-- A move of session `i`. -/
inductive Move (cat : Catalog) (σ : State) (i : Sid) : Session → Effect → Task → Prop
  | create {began : Time} {q : CreateRequest} {pc pc' : CreatePc} {eff : Effect}
      (m : CreateMove cat σ i began q pc eff pc') :
    Move cat σ i ⟨began, .create q pc⟩ eff (.create q pc')
  | pay {began : Time} {q : PayRequest} {pc pc' : PayPc} {eff : Effect} (m : PayMove σ i began q pc eff pc') :
    Move cat σ i ⟨began, .pay q pc⟩ eff (.pay q pc')
  | refund {began : Time} {q : RefundRequest} {pc pc' : RefundPc} {eff : Effect}
      (m : RefundMove cat σ i began q pc eff pc') :
    Move cat σ i ⟨began, .refund q pc⟩ eff (.refund q pc')
  | cleanup {began : Time} {pc pc' : CleanupPc} {eff : Effect} (m : CleanupMove σ i began pc eff pc') :
    Move cat σ i ⟨began, .cleanup pc⟩ eff (.cleanup pc')

/-- The outcomes of a step. -/
inductive Stepped (cat : Catalog) (σ : State) : Act → State → Prop
  | request (r : Request) : Stepped cat σ (.request r) { σ with sessions := σ.sessions ++ [⟨σ.now, r.task⟩] }
  | run {i : Sid} {c : Choice} {s : Session} {eff : Effect} {task : Task} (hs : σ.sessions[i]? = some s)
      (hc : s.statement cat σ i c = some (eff, task)) (m : Move cat σ i s eff task) :
    Stepped cat σ (.run i c) ((σ.perform i eff).goto i s task)
  | raise {i : Sid} {s : Session} {task : Task} (hs : σ.sessions[i]? = some s) (hr : s.task.raise = some task)
      (m : Move cat σ i s .close task) : Stepped cat σ (.raise i) ((σ.perform i .close).goto i s task)
  | tick (d : Nat) : Stepped cat σ (.tick d) { σ with now := σ.now + d }
  | updateConfig (failureRate : Option ℚ) (latencyMs : Option Int) : Stepped cat σ (.updateConfig failureRate latencyMs)
      { σ with gateway := σ.gateway.updateConfig failureRate latencyMs }

/-! ### Inversion -/

section
variable {cat : Catalog} {σ τ : State} {i : Sid} {began : Time} {eff : Effect}

theorem booking?_eq_some {d : Db} {id : Uuid} {b : Booking} (h : d.booking? id = some b) : b ∈ d.bookings ∧ b.id = id :=
  find?_key_eq_some h

theorem booking?_eq_none {d : Db} {id : Uuid} (h : d.booking? id = none) : ∀ b ∈ d.bookings, b.id ≠ id :=
  find?_key_eq_none.mp h

theorem createBooking_move {q : CreateRequest} {c : Choice} {pc pc' : CreatePc}
    (h : createBooking cat σ i began q c pc = some (eff, pc')) : CreateMove cat σ i began q pc eff pc' := by
  cases pc with
  | checkKey =>
    simp only [createBooking] at h
    split at h <;> cases h
    · exact .failed _ rfl
    · rename_i found hf
      obtain ⟨hb, hk⟩ := scalarOneOrNone_mem hf
      exact .found hb (by simpa using hk)
    · rename_i hf
      exact .unused fun b hb => by simpa using scalarOneOrNone_none hf b hb
  | lockSeat =>
    simp only [createBooking] at h
    split at h <;> cases h
    · rename_i b hf
      have hp := List.find?_some hf
      simp only [decide_eq_true_eq] at hp
      exact .stored (List.mem_of_find?_eq_some hf) hp.1 hp.2
    · rename_i hf
      exact .vacant fun b hb => by simpa using List.find?_eq_none.mp hf b hb
  | awaitSeat id =>
    simp only [createBooking] at h
    split at h
    · rename_i free
      split at h
      · rename_i hf
        cases h
        exact .gone (booking?_eq_none hf)
      · rename_i b hf
        obtain ⟨hb, rfl⟩ := booking?_eq_some hf
        split at h <;> cases h
        · exact .failed _ rfl
        · rename_i hst
          exact .released free hb (by simpa using hst)
    · cases h
  | checkOverlap existing =>
    simp only [createBooking] at h
    split at h
    · cases h
      exact .failed _ rfl
    · rename_i schedule hs
      split at h <;> cases h
      · exact .failed _ rfl
      · exact .failed _ rfl
      · rename_i hf
        exact .disjoint hs (scalarOneOrNone_none hf)
  | getSeat existing =>
    simp only [createBooking] at h
    split at h
    · cases h
      exact .failed _ rfl
    · split at h
      · cases h
        exact .failed _ rfl
      · split at h <;> cases h
        · exact .replace _
        · rename_i seat hx _ _ _ _
          exact .priced _ (Option.isSome_iff_exists.mpr ⟨seat, hx⟩)
  | delete e price =>
    simp only [createBooking] at h
    split at h <;> cases h
    · exact .failed _ rfl
    · rename_i hf
      simp only [Bool.or_eq_true, List.any_eq_true, decide_eq_true_eq, not_or, not_exists, not_and] at hf
      exact .deleted hf.1 hf.2
  | insertKey b =>
    simp only [createBooking] at h
    split at h
    · rename_i hf
      split at h <;> cases h
      · exact .failed _ rfl
      · rename_i hk
        exact .keyed hf.1 hf.2 (by simpa using hk)
    · cases h
  | insertSeat b =>
    simp only [createBooking] at h
    split at h
    · rename_i free
      split at h
      · cases h
        exact .failed _ rfl
      · rename_i hk
        split at h <;> cases h
        · exact .failed _ rfl
        · rename_i hf
          simp only [Bool.or_eq_true, not_or, Bool.not_eq_true, Option.isNone_eq_false_iff] at hf
          exact .seated free (by simpa using hk) hf.1.1
    · cases h
  | audit b => cases h; exact .audited
  | commit b => cases h; exact .committed
  | invalidate b => cases h; exact .invalidated
  | finished r => cases h

theorem payBooking_move {q : PayRequest} {c : Choice} {pc pc' : PayPc}
    (h : payBooking σ i began q c pc = some (eff, pc')) : PayMove σ i began q pc eff pc' := by
  cases pc with
  | lockBooking =>
    simp only [payBooking] at h
    split at h <;> cases h
    · exact .failed _ rfl nofun
    · exact .located
  | awaitBooking =>
    simp only [payBooking] at h
    split at h
    · rename_i free
      split at h
      · cases h
        exact .failed _ rfl nofun
      · rename_i b hf
        obtain ⟨hb, hid⟩ := booking?_eq_some hf
        split at h
        · cases h
          exact .failed _ rfl nofun
        · rename_i hu
          split at h
          · cases h
            exact .failed _ rfl nofun
          · rename_i hst
            split at h <;> cases h
            · exact .failed _ rfl nofun
            · rename_i hexp
              rw [← hid] at free ⊢
              refine .admitted free hb hid (by simpa using hu) (by simpa using hst) fun t ht => ?_
              simpa [ht] using hexp
    · cases h
  | checkPayment b =>
    simp only [payBooking] at h
    split at h <;> cases h
    · exact .failed _ rfl nofun
    · rename_i p hf
      obtain ⟨hp, hk⟩ := scalarOneOrNone_mem hf
      exact .replayed hp (by simpa using hk)
    · rename_i hf
      exact .unpaid fun p hp => by simpa using scalarOneOrNone_none hf p hp
  | attempt b => cases h; exact .attempted
  | charge b => cases h; exact .called
  | charging b => cases h; exact .answered c
  | record b r t =>
    simp only [payBooking] at h
    split at h
    · rename_i free
      split at h <;> cases h
      · exact .failed _ rfl fun _ => rfl
      · rename_i hk
        exact .recorded free (by simpa using hk)
    · cases h
  | commit b => cases h; exact .committed
  | invalidate b => cases h; exact .invalidated
  | finished r => cases h

theorem refundBooking_move {q : RefundRequest} {pc pc' : RefundPc}
    (h : refundBooking cat σ i began q pc = some (eff, pc')) : RefundMove cat σ i began q pc eff pc' := by
  cases pc with
  | lockBooking =>
    simp only [refundBooking] at h
    split at h <;> cases h
    · exact .failed _ rfl nofun
    · exact .located
  | awaitBooking =>
    simp only [refundBooking] at h
    split at h
    · rename_i free
      split at h
      · cases h
        exact .failed _ rfl nofun
      · rename_i b hf
        obtain ⟨hb, hid⟩ := booking?_eq_some hf
        split at h
        · cases h
          exact .failed _ rfl nofun
        · rename_i hu
          split at h <;> cases h
          · exact .failed _ rfl nofun
          · rename_i hst
            rw [← hid] at free ⊢
            exact .admitted free hb hid (by simpa using hu) (by simpa using hst)
    · cases h
  | checkDeparture b =>
    simp only [refundBooking] at h
    split at h
    · cases h
      exact .failed _ rfl nofun
    · rename_i schedule hs
      split at h <;> cases h
      · exact .failed _ rfl nofun
      · rename_i ht
        exact .inTime hs (by simpa using ht)
  | findPayment b =>
    simp only [refundBooking] at h
    split at h <;> cases h
    · exact .failed _ rfl nofun
    · rename_i p hf
      obtain ⟨hp, hk⟩ := scalarOneOrNone_mem hf
      simp only [decide_eq_true_eq] at hk
      exact .paid hp hk.1 hk.2
    · rename_i hf
      exact .unpaid fun p hp => by simpa using scalarOneOrNone_none hf p hp
  | refund b ref => cases h; exact .called
  | refunding b ref => cases h; exact .answered
  | record b t => cases h; exact .recorded
  | commit b => cases h; exact .committed
  | invalidate b => cases h; exact .invalidated
  | finished r => cases h

theorem cleanupExpiredReservations_move {pc pc' : CleanupPc}
    (h : cleanupExpiredReservations σ i began pc = some (eff, pc')) : CleanupMove σ i began pc eff pc' := by
  cases pc <;> cases h
  · exact .scanned
  · exact .flushed
  · exact .committed

theorem statement_move {s : Session} {c : Choice} {task : Task} (h : s.statement cat σ i c = some (eff, task)) :
    Move cat σ i s eff task := by
  obtain ⟨began, t⟩ := s
  cases t <;> simp only [Session.statement, Option.map_eq_some_iff, Prod.mk.injEq, Prod.exists] at h <;>
    obtain ⟨_, _, h, rfl, rfl⟩ := h
  · exact .create (createBooking_move h)
  · exact .pay (payBooking_move h)
  · exact .refund (refundBooking_move h)
  · exact .cleanup (cleanupExpiredReservations_move h)

theorem raise_move {s : Session} {task : Task} (h : s.task.raise = some task) : Move cat σ i s .close task := by
  obtain ⟨began, t⟩ := s
  cases t <;> simp only [Task.raise, Option.ite_none_right_eq_some, Option.some.injEq] at h <;>
    obtain ⟨h, rfl⟩ := h
  · exact .create (.failed _ h)
  · exact .pay (.failed _ h fun _ => rfl)
  · exact .refund (.failed _ h fun _ => rfl)
  · exact .cleanup (.failed _ h)

theorem step_stepped {a : Act} (h : step cat σ a = some τ) : Stepped cat σ a τ := by
  cases a with
  | request r => cases h; exact .request r
  | run i c =>
    simp only [step, Option.bind_eq_bind, Option.bind_eq_some_iff, Option.some.injEq] at h
    obtain ⟨s, hs, ⟨eff, task⟩, hc, rfl⟩ := h
    exact .run hs hc (statement_move hc)
  | raise i =>
    simp only [step, Option.bind_eq_bind, Option.bind_eq_some_iff, Option.some.injEq] at h
    obtain ⟨s, hs, task, hr, rfl⟩ := h
    exact .raise hs hr (raise_move hr)
  | tick d => cases h; exact .tick d
  | updateConfig failureRate latencyMs => cases h; exact .updateConfig failureRate latencyMs

end

end Railbook
