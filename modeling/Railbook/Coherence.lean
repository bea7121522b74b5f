import Railbook.Invariant

/-! Every step keeps the invariant of the engine. -/

namespace Railbook
open ReadCommitted Transition

section
variable {cat : Catalog} {σ τ : State} {i : Sid} {began : Time} {l : Ledger} {b : Booking} {ph : Phase} {d : Db}

/-! ### Phases of committed rows -/

theorem phase_of_reserved (h : Conforms l b ph) (hph : ph ∈ Phase.committed) (hst : b.status = .reserved) :
    ph = .reserved := by
  have := h.status.symm.trans hst
  cases ph <;> simp [Phase.status, Phase.committed] at this hph ⊢

theorem phase_of_confirmed (h : Conforms l b ph) (hph : ph ∈ Phase.committed) (hst : b.status = .confirmed) :
    ph = .confirmed := by
  have := h.status.symm.trans hst
  cases ph <;> simp [Phase.status, Phase.committed] at this hph ⊢

theorem phase_of_released (h : Conforms l b ph) (hph : ph ∈ Phase.committed) (hst : b.status.isActive = false) :
    ph ∈ Phase.released := by
  rw [h.status] at hst
  cases ph <;> simp [Phase.status, Phase.committed, Phase.released, BookingStatus.isActive] at hst hph ⊢

theorem inserted_not_released : Phase.inserted ∉ Phase.released := by decide

theorem Inv.conforms_of_mem (h : Inv σ) (hb : b ∈ σ.db.bookings) :
    ∃ ph ∈ Phase.committed, Conforms (σ.db.ledger b.id) b ph :=
  (h.settled b.id).of_row (mem_ledger_bookings.mpr ⟨hb, rfl⟩)

theorem Inv.ids_nodup (h : Inv σ) : (σ.db.bookings.map (·.id)).Nodup := by
  rw [List.nodup_iff_count_le_one]
  intro id
  have hl : (σ.db.ledger id).bookings.length ≤ 1 := by
    rcases h.settled id with he | ⟨b, ph, -, hc⟩
    · rw [he]
      exact Nat.zero_le 1
    · rw [hc.row]
      exact Nat.le_refl 1
  rw [List.count_eq_countP, List.countP_map, List.countP_eq_length_filter]
  exact hl

/-! ### Index entries without a row -/

theorem Inv.booking?_eq (h : Inv σ) (hb : b ∈ σ.db.bookings) : σ.db.booking? b.id = some b :=
  find?_of_key h.ids_nodup hb

theorem holders_eq_nil {r : Resource} : d.holders r = [] ↔ ∀ b ∈ d.bookings, r ∉ b.resources := by
  simp [Db.holders, List.filter_eq_nil_iff]

theorem holders_row_eq_nil {id : Uuid} : d.holders (.bookingRow id) = [] ↔ ∀ b ∈ d.bookings, b.id ≠ id := by
  simp only [holders_eq_nil, Booking.resources, List.mem_cons, Resource.bookingRow.injEq, reduceCtorEq,
    List.not_mem_nil, or_false, ne_eq, @eq_comm _ id]

theorem holders_key_eq_nil {key : Uuid} : d.holders (.bookingKey key) = [] ↔
    ∀ b ∈ d.bookings, b.idempotencyKey ≠ key := by
  simp only [holders_eq_nil, Booking.resources, List.mem_cons, Resource.bookingKey.injEq, reduceCtorEq,
    List.not_mem_nil, or_false, false_or, ne_eq, @eq_comm _ key]

theorem holders_seat_eq_nil {s x : Uuid} :
    d.holders (.bookingSeat s x) = [] ↔ ∀ b ∈ d.bookings, ¬(b.scheduleId = s ∧ b.seatId = x) := by
  simp only [holders_eq_nil, Booking.resources, List.mem_cons, Resource.bookingSeat.injEq, reduceCtorEq,
    List.not_mem_nil, or_false, false_or, @eq_comm _ s, @eq_comm _ x]

theorem paymentsUnder_eq_nil {key : Uuid} : d.paymentsUnder key = [] ↔ ∀ p ∈ d.payments, p.idempotencyKey ≠ key := by
  simp [Db.paymentsUnder, List.filter_eq_nil_iff]

theorem ledger_bookings_eq_nil {id : Uuid} (h : d.holders (.bookingRow id) = []) : (d.ledger id).bookings = [] := by
  simpa [Db.ledger, List.filter_eq_nil_iff] using holders_row_eq_nil.mp h

/-- A flush about the one booking that the session holds. -/
theorem Inv.flushRow (h : Inv σ) {s : Session} {t : Task} {b' : Booking} {phs phs' : List Phase} {rs : List Resource}
    {ws : List Write} {drawn : Nat} (hs : σ.sessions[i]? = some s) (hheld : s.task.held = [(b, phs)])
    (hheld' : t.held = [(b', phs')]) (hid : b'.id = b.id) (free : ∀ r ∈ rs, σ.store.Free i r)
    (ho : ∀ r, r ∈ t.owned ↔ r ∈ s.task.owned ∨ r ∈ rs) (hrow : ∀ w ∈ ws, w.row = b.id)
    (hw : ∀ w ∈ ws, ∀ r ∈ w.resources, r ∈ t.owned) (ha : ∀ a, .insertAudit a ∈ ws → a.id < σ.nextAuditId + drawn)
    (hh : ∀ r (d : Db), (ws.foldl (fun d w => w.apply d) d).holders r = d.holders r)
    (hp : ∀ k, ((ws.foldl (fun d w => w.apply d) (σ.view i)).paymentsUnder k).length ≤ 1)
    (hl : ∃ ph ∈ phs', Conforms ((ws.foldl (fun d w => w.apply d) (σ.view i)).ledger b'.id) b' ph)
    (hv : t.vacant = []) (hsound : t.Sound) : Inv ((σ.perform i (.flush rs ws drawn)).goto i s t) := by
  refine h.flush hs free ho hw ha (fun r => ?_) hp ?_ ?_ ?_ hv hsound
  · rw [hh]
    exact (h.holders r).2 i
  · intro p hp
    rw [hheld, List.mem_singleton] at hp
    exact ⟨_, hheld' ▸ List.mem_singleton_self _, by rw [hp]; exact hid⟩
  · intro w hw
    exact ⟨_, hheld' ▸ List.mem_singleton_self _, hid.trans (hrow w hw).symm⟩
  · intro p hp
    rw [hheld', List.mem_singleton] at hp
    rw [hp]
    exact hl

/-! ### create_booking -/

theorem CreateRequest.builds_newBooking (q : CreateRequest) (price : Amount) : q.Builds (newBooking σ began q price) :=
  ⟨rfl, rfl, rfl, rfl, rfl, rfl, rfl⟩

theorem CreateRequest.Builds.with_id {q : CreateRequest} (h : q.Builds b) (id : Uuid) : q.Builds { b with id := id } :=
  ⟨h.userId, h.scheduleId, h.seatId, h.idempotencyKey, h.status, h.confirmedAt, h.cancelledAt⟩

theorem CreateRequest.Builds.resources {q : CreateRequest} (h : q.Builds b) :
    b.resources = [.bookingRow b.id, .bookingKey q.idempotencyKey, .bookingSeat q.scheduleId q.seatId] := by
  rw [Booking.resources, h.idempotencyKey, h.scheduleId, h.seatId]

/-- The ledger of a row that has just been inserted under an unused id. -/
theorem CreateRequest.Builds.conforms {q : CreateRequest} (h : q.Builds b) (hl : d.ledger b.id = .empty) :
    Conforms ((Write.apply (.insertBooking b) d).ledger b.id) b .inserted := by
  rw [ledger_insertBooking, hl]
  exact ⟨rfl, h.status, by rw [h.confirmedAt]; rfl, by rw [h.cancelledAt]; rfl, rfl, rfl, .nil⟩

theorem Inv.not_deleted (h : Inv σ) {q : CreateRequest} {e : Booking} {price : Amount}
    (hs : σ.sessions[i]? = some ⟨began, .create q (.delete e price)⟩)
    (ha : ∀ a ∈ (σ.view i).auditTrail, a.bookingId ≠ e.id) : False := by
  obtain ⟨ph, hph, hc⟩ := (h.taskOk hs).held (e, Phase.released) (List.mem_singleton_self _)
  have hne : ph ≠ .inserted := fun e => inserted_not_released (e ▸ hph)
  obtain ⟨a, hmem⟩ := List.exists_mem_of_ne_nil _ (hc.trail_ne_nil hne)
  obtain ⟨hmem, hid⟩ := mem_ledger_auditTrail.mp hmem
  exact ha a hmem hid

theorem Inv.create (h : Inv σ) {q : CreateRequest} {pc pc' : CreatePc} {e : Effect}
    (hs : σ.sessions[i]? = some ⟨began, .create q pc⟩) (m : CreateMove cat σ i began q pc e pc') :
    Inv ((σ.perform i e).goto i ⟨began, .create q pc⟩ (.create q pc')) := by
  have ok := h.taskOk hs
  cases m with
  | found hb hkey => exact h.close hs ⟨rfl, rfl, rfl, trivial⟩
  | unused hk => exact h.read hs rfl (Task.Idle.ok ⟨rfl, rfl, rfl, trivial⟩ (ok.pending_nil rfl))
  | stored hb hsch hx => exact h.read hs rfl (Task.Idle.ok ⟨rfl, rfl, rfl, trivial⟩ (ok.pending_nil rfl))
  | vacant hv => exact h.read hs rfl (Task.Idle.ok ⟨rfl, rfl, rfl, trivial⟩ (ok.pending_nil rfl))
  | gone hg => exact h.read hs rfl (Task.Idle.ok ⟨rfl, rfl, rfl, trivial⟩ (ok.pending_nil rfl))
  | @released b free hb hst =>
    have hview : σ.view i = σ.db := view_of_pending_nil (ok.pending_nil rfl)
    rw [hview] at hb
    obtain ⟨ph, hph, hc⟩ := h.conforms_of_mem hb
    refine h.lock hs (by simpa using free) (by simp [Task.owned]) ?_
    refine TaskOk.of_pending_nil (ok.pending_nil rfl) (fun p hp => ?_) (fun r hr => by cases hr) trivial
    rw [List.mem_singleton.mp hp]
    exact ⟨ph, phase_of_released hc hph hst, hc⟩
  | @disjoint existing schedule hsch hd =>
    cases existing with
    | none => exact h.read hs rfl (Task.Idle.ok ⟨rfl, rfl, rfl, trivial⟩ (ok.pending_nil rfl))
    | some e => exact h.read hs rfl ⟨ok.quiet, ok.held, ok.vacant, trivial⟩
  | priced compType =>
    exact h.read hs rfl (Task.Idle.ok ⟨rfl, rfl, rfl, q.builds_newBooking _⟩ (ok.pending_nil rfl))
  | replace compType => exact h.read hs rfl ⟨ok.quiet, ok.held, ok.vacant, trivial⟩
  | deleted hp ha => exact (h.not_deleted hs ha).elim
  | @keyed b id fresh free hk =>
    have hview : σ.view i = σ.db := view_of_pending_nil (ok.pending_nil rfl)
    refine h.lock hs ?_ (by simp [Task.owned]) ?_
    · intro r hr
      rcases List.mem_cons.mp hr with rfl | hr
      · exact Or.inl fresh.2
      · exact List.mem_singleton.mp hr ▸ free
    · refine TaskOk.of_pending_nil (ok.pending_nil rfl) (fun p hp => by cases hp) (fun r hr => ?_)
        (CreateRequest.Builds.with_id ok.sound id)
      rcases List.mem_cons.mp hr with rfl | hr
      · exact holders_row_eq_nil.mpr fresh.1
      · rw [List.mem_singleton.mp hr]
        exact holders_key_eq_nil.mpr fun b hb => hk b (hview ▸ hb)
  | @seated b free hx =>
    have builds : q.Builds b := ok.sound
    have hview : σ.view i = σ.db := view_of_pending_nil (ok.pending_nil rfl)
    have hvac : ∀ r ∈ b.resources, (σ.view i).holders r = [] := by
      intro r hr
      rw [builds.resources] at hr
      simp only [List.mem_cons, List.not_mem_nil, or_false] at hr
      rcases hr with rfl | rfl | rfl
      · exact ok.vacant _ List.mem_cons_self
      · exact ok.vacant _ (List.mem_cons_of_mem _ List.mem_cons_self)
      · exact holders_seat_eq_nil.mpr hx
    refine h.flush hs (by simpa using free) (by simp [Task.owned, or_assoc]) ?_ ?_ ?_ ?_ ?_ ?_ ?_ rfl builds
    · intro w hw r hr
      rw [List.mem_singleton.mp hw] at hr
      rw [Write.resources, builds.resources] at hr
      exact hr
    · intro a ha
      cases List.mem_singleton.mp ha
    · intro r
      simp only [List.foldl_cons, List.foldl_nil, holders_insertBooking]
      split
      · rename_i hr
        rw [hvac r hr]
        exact Nat.le_refl 1
      · rw [List.append_nil]
        exact (h.holders r).2 i
    · exact fun k => (h.payments k).2 i
    · intro w hw
      cases hw
    · intro w hw
      exact ⟨(b, [.inserted]), List.mem_singleton_self _, by rw [List.mem_singleton.mp hw]; rfl⟩
    · intro p hp
      rw [List.mem_singleton.mp hp]
      refine ⟨.inserted, List.mem_singleton_self _, builds.conforms ?_⟩
      rw [hview]
      refine (h.settled b.id).eq_empty (ledger_bookings_eq_nil ?_)
      rw [← hview]
      exact hvac _ (by simp [builds.resources])
  | @audited b =>
    have builds : q.Builds b := ok.sound
    obtain ⟨ph, hph, hc⟩ := ok.held (b, [.inserted]) (List.mem_singleton_self _)
    rw [List.mem_singleton.mp hph] at hc
    refine h.flushRow hs rfl rfl rfl (by simp) (by simp [Task.owned]) (by simp [Write.row, logAudit_bookingId]) ?_
      (by simp) (by simp) (fun k => (h.payments k).2 i) ⟨.reserved, List.mem_singleton_self _, ?_⟩ rfl builds
    · simp [Write.resources, logAudit_bookingId, Task.owned]
    · simp only [List.foldl_cons, List.foldl_nil]
      rw [ledger_insertAudit (logAudit_bookingId ..)]
      refine hc.log rfl rfl rfl rfl ?_ fun a ha => ?_
      · simp [Phase.trail, AuditTrail.entry, logAudit, builds.userId]
      · exact h.auditIds_view i a (mem_ledger_auditTrail.mp ha).1
  | committed =>
    refine h.commit hs ?_ ⟨rfl, rfl, rfl, trivial⟩
    simp [Task.held, Phase.committed]
  | invalidated => exact h.close hs ⟨rfl, rfl, rfl, trivial⟩
  | failed e he => exact h.close hs ⟨rfl, rfl, rfl, trivial⟩

/-! ### pay_booking -/

theorem PaymentResult.book_id (r : PaymentResult) (b : Booking) (t : Time) : (r.book b t).id = b.id := by
  unfold PaymentResult.book
  split <;> rfl

theorem PaymentResult.book_userId (r : PaymentResult) (b : Booking) (t : Time) : (r.book b t).userId = b.userId := by
  unfold PaymentResult.book
  split <;> rfl

theorem payWrites_row {id : Nat} {q : PayRequest} {r : PaymentResult} {t : Time} :
    ∀ w ∈ payWrites began id q b r t, w.row = b.id ∧
      ∀ x ∈ w.resources, x = .bookingRow b.id ∨ x = .paymentKey q.idempotencyKey := by
  unfold payWrites
  split <;> simp [Write.row, Write.resources, logAudit_bookingId]

theorem payWrites_audit {id : Nat} {q : PayRequest} {r : PaymentResult} {t : Time} {a : AuditTrail}
    (h : .insertAudit a ∈ payWrites began id q b r t) : a.id = id := by
  unfold payWrites at h
  split at h <;> simp at h <;> rw [h, logAudit_id]

theorem payWrites_holders {id : Nat} {q : PayRequest} {r : PaymentResult} {t : Time} (x : Resource) (d : Db) :
    ((payWrites began id q b r t).foldl (fun d w => w.apply d) d).holders x = d.holders x := by
  unfold payWrites
  split <;> simp

theorem payWrites_paymentsUnder {id : Nat} {q : PayRequest} {r : PaymentResult} {t : Time} (k : Uuid) (d : Db) :
    (((payWrites began id q b r t).foldl (fun d w => w.apply d) d).paymentsUnder k).length =
      (d.paymentsUnder k).length + if q.idempotencyKey = k then 1 else 0 := by
  unfold payWrites
  split <;> by_cases hk : q.idempotencyKey = k <;> simp [hk]

/-- Recording the answer of the gateway takes an attempted booking to its outcome. -/
theorem Conforms.pay {id : Nat} {q : PayRequest} {r : PaymentResult} {t : Time}
    (hc : Conforms (d.ledger b.id) b .attempted) (hu : b.userId = q.userId) (hr : r.Sound)
    (hid : ∀ a ∈ d.auditTrail, a.id < id) :
    ∃ ph ∈ [Phase.confirmed, Phase.paymentFailed],
      Conforms (((payWrites began id q b r t).foldl (fun d w => w.apply d) d).ledger b.id) (r.book b t) ph := by
  have hps : (d.ledger b.id).payments = [] := hc.payments
  have hcn : b.confirmedAt = none := by simpa [Phase.hasConfirmedAt] using hc.confirmedAt
  have hxn : b.cancelledAt = none := by simpa [Phase.hasCancelledAt] using hc.cancelledAt
  have hid : ∀ a ∈ (d.ledger b.id).auditTrail, a.id < id := fun a ha => hid a (mem_ledger_auditTrail.mp ha).1
  rcases hr with ⟨hst, href⟩ | ⟨hst, href⟩
  · refine ⟨.confirmed, List.mem_cons_self, ?_⟩
    have hb : r.book b t = b.update .confirmed (some t) none := by
      simp [PaymentResult.book, hst, Booking.update, hxn]
    simp only [payWrites, hst, if_true, List.foldl_cons, List.foldl_nil]
    rw [hb, ledger_insertAudit (logAudit_bookingId ..), ledger_insertPayment (p := ⟨b.id, _, _, _, _, _, _, _⟩) rfl,
      ledger_setBooking, hc.row, hps]
    refine hc.advance rfl rfl (by simp [hxn, Phase.hasCancelledAt]) ?_ ?_ hid
    · exact ⟨_, rfl, rfl, rfl, by simpa using href⟩
    · simp [Phase.trail, AuditTrail.entry, logAudit, hu]
  · refine ⟨.paymentFailed, List.mem_cons_of_mem _ List.mem_cons_self, ?_⟩
    have hb : r.book b t = b.update .cancelled none (some t) := by
      simp [PaymentResult.book, hst, Booking.update, hcn]
    simp only [payWrites, hst, reduceCtorEq, if_false, List.foldl_cons, List.foldl_nil]
    rw [hb, ledger_insertAudit (logAudit_bookingId ..), ledger_insertPayment (p := ⟨b.id, _, _, _, _, _, _, _⟩) rfl,
      ledger_setBooking, hc.row, hps]
    refine hc.advance rfl (by simp [hcn, Phase.hasConfirmedAt]) rfl ?_ ?_ hid
    · exact ⟨_, rfl, rfl, rfl, by simp⟩
    · simp [Phase.trail, AuditTrail.entry, logAudit, hu]

theorem Inv.pay (h : Inv σ) {q : PayRequest} {pc pc' : PayPc} {e : Effect}
    (hs : σ.sessions[i]? = some ⟨began, .pay q pc⟩) (m : PayMove σ i began q pc e pc') :
    Inv ((σ.perform i e).goto i ⟨began, .pay q pc⟩ (.pay q pc')) := by
  have ok := h.taskOk hs
  cases m with
  | located => exact h.read hs rfl (Task.Idle.ok ⟨rfl, rfl, rfl, trivial⟩ (ok.pending_nil rfl))
  | @admitted b free hb hid hu hst hexp =>
    have hview : σ.view i = σ.db := view_of_pending_nil (ok.pending_nil rfl)
    rw [hview] at hb
    obtain ⟨ph, hph, hc⟩ := h.conforms_of_mem hb
    refine h.lock hs (by simpa using free) (by simp [Task.owned]) ?_
    refine TaskOk.of_pending_nil (ok.pending_nil rfl) (fun p hp => ?_) (fun r hr => by cases hr) ⟨hid, hu⟩
    rw [List.mem_singleton.mp hp]
    exact ⟨ph, List.mem_singleton.mpr (phase_of_reserved hc hph hst), hc⟩
  | replayed hp hkey => exact h.close hs ⟨rfl, rfl, rfl, trivial⟩
  | unpaid hk => exact h.read hs rfl ⟨ok.quiet, ok.held, ok.vacant, ok.sound⟩
  | @attempted b =>
    have hbq : b.id = q.bookingId ∧ b.userId = q.userId := ok.sound
    obtain ⟨ph, hph, hc⟩ := ok.held (b, [.reserved]) (List.mem_singleton_self _)
    rw [List.mem_singleton.mp hph] at hc
    refine h.flushRow hs rfl rfl rfl (by simp) (by simp [Task.owned]) (by simp [Write.row, logAudit_bookingId]) ?_
      (by simp) (by simp) (fun k => (h.payments k).2 i) ⟨.attempted, List.mem_singleton_self _, ?_⟩ rfl ok.sound
    · simp [Write.resources, logAudit_bookingId, Task.owned]
    · simp only [List.foldl_cons, List.foldl_nil]
      rw [ledger_insertAudit (logAudit_bookingId ..)]
      refine hc.log rfl rfl rfl rfl ?_ fun a ha => ?_
      · simp [Phase.trail, AuditTrail.entry, logAudit, hbq.2]
      · exact h.auditIds_view i a (mem_ledger_auditTrail.mp ha).1
  | called => exact h.still hs rfl rfl h.gateway rfl ⟨ok.quiet, ok.held, ok.vacant, ok.sound⟩
  | @answered b c =>
    have hg : (σ.gateway.charge b.totalAmount q.idempotencyKey c).1.Sound ∧
        (σ.gateway.charge b.totalAmount q.idempotencyKey c).2.Sound := MockPaymentGateway.charge_sound h.gateway
    exact h.still hs rfl rfl hg.2 rfl ⟨ok.quiet, ok.held, ok.vacant, ok.sound, hg.1⟩
  | @recorded b r t free hk =>
    have sound : (b.id = q.bookingId ∧ b.userId = q.userId) ∧ r.Sound := ok.sound
    obtain ⟨ph, hph, hc⟩ := ok.held (b, [.attempted]) (List.mem_singleton_self _)
    rw [List.mem_singleton.mp hph] at hc
    refine h.flushRow hs rfl rfl (r.book_id b t) (by simpa using free) (by simp [Task.owned, r.book_id])
      (fun w hw => (payWrites_row w hw).1) ?_ ?_ payWrites_holders ?_ ?_ rfl ?_
    · intro w hw x hx
      simpa [Task.owned, r.book_id] using (payWrites_row w hw).2 x hx
    · intro a ha
      rw [payWrites_audit ha]
      exact Nat.lt_succ_self _
    · intro k
      rw [payWrites_paymentsUnder]
      split
      · rename_i hkey
        rw [← hkey, paymentsUnder_eq_nil.mpr hk]
        exact Nat.le_refl 1
      · exact (h.payments k).2 i
    · rw [r.book_id]
      exact hc.pay sound.1.2 sound.2 (h.auditIds_view i)
    · exact ⟨(r.book_id b t).trans sound.1.1, (r.book_userId b t).trans sound.1.2⟩
  | committed =>
    refine h.commit hs ?_ ⟨rfl, rfl, rfl, trivial⟩
    simp [Task.held, Phase.committed]
  | invalidated => exact h.close hs ⟨rfl, rfl, rfl, trivial⟩
  | failed e he hx => exact h.close hs ⟨rfl, rfl, rfl, trivial⟩

/-! ### refund_booking -/

/-- Recording a refund takes a confirmed booking to its last phase. -/
theorem Conforms.refund {id : Nat} {q : RefundRequest} {t : Time} (hc : Conforms (d.ledger b.id) b .confirmed)
    (hu : b.userId = q.userId) (hid : ∀ a ∈ d.auditTrail, a.id < id) :
    Conforms (((refundWrites began id q b t).foldl (fun d w => w.apply d) d).ledger b.id)
      { b with status := .refunded, cancelledAt := some t } .refunded := by
  have hcs : b.confirmedAt.isSome = true := hc.confirmedAt
  have hid : ∀ a ∈ (d.ledger b.id).auditTrail, a.id < id := fun a ha => hid a (mem_ledger_auditTrail.mp ha).1
  have hb : { b with status := .refunded, cancelledAt := some t } = b.update .refunded none (some t) := by
    simp [Booking.update]
  simp only [refundWrites, List.foldl_cons, List.foldl_nil]
  rw [hb, ledger_insertAudit (logAudit_bookingId ..), ledger_setBooking, hc.row]
  refine hc.advance rfl hcs rfl hc.payments ?_ hid
  simp [Phase.trail, AuditTrail.entry, logAudit, hu]

theorem Inv.refund (h : Inv σ) {q : RefundRequest} {pc pc' : RefundPc} {e : Effect}
    (hs : σ.sessions[i]? = some ⟨began, .refund q pc⟩) (m : RefundMove cat σ i began q pc e pc') :
    Inv ((σ.perform i e).goto i ⟨began, .refund q pc⟩ (.refund q pc')) := by
  have ok := h.taskOk hs
  cases m with
  | located => exact h.read hs rfl (Task.Idle.ok ⟨rfl, rfl, rfl, trivial⟩ (ok.pending_nil rfl))
  | @admitted b free hb hid hu hst =>
    have hview : σ.view i = σ.db := view_of_pending_nil (ok.pending_nil rfl)
    rw [hview] at hb
    obtain ⟨ph, hph, hc⟩ := h.conforms_of_mem hb
    refine h.lock hs (by simpa using free) (by simp [Task.owned]) ?_
    refine TaskOk.of_pending_nil (ok.pending_nil rfl) (fun p hp => ?_) (fun r hr => by cases hr) ⟨hid, hu⟩
    rw [List.mem_singleton.mp hp]
    exact ⟨ph, List.mem_singleton.mpr (phase_of_confirmed hc hph hst), hc⟩
  | inTime hsch ht => exact h.read hs rfl ⟨ok.quiet, ok.held, ok.vacant, ok.sound⟩
  | paid hp hid hst => exact h.read hs rfl ⟨ok.quiet, ok.held, ok.vacant, ok.sound⟩
  | unpaid hp => exact h.read hs rfl ⟨ok.quiet, ok.held, ok.vacant, ok.sound⟩
  | called => exact h.still hs rfl rfl h.gateway rfl ⟨ok.quiet, ok.held, ok.vacant, ok.sound⟩
  | answered => exact h.still hs rfl rfl h.gateway rfl ⟨ok.quiet, ok.held, ok.vacant, ok.sound⟩
  | @recorded b t =>
    have hbq : b.id = q.bookingId ∧ b.userId = q.userId := ok.sound
    obtain ⟨ph, hph, hc⟩ := ok.held (b, [.confirmed]) (List.mem_singleton_self _)
    rw [List.mem_singleton.mp hph] at hc
    refine h.flushRow hs rfl rfl rfl (by simp) (by simp [Task.owned]) ?_ ?_ ?_ ?_ (fun k => (h.payments k).2 i)
      ⟨.refunded, List.mem_singleton_self _, hc.refund hbq.2 (h.auditIds_view i)⟩ rfl ok.sound
    · simp [refundWrites, Write.row, logAudit_bookingId]
    · simp [refundWrites, Write.resources, logAudit_bookingId, Task.owned]
    · simp [refundWrites]
    · simp [refundWrites]
  | committed =>
    refine h.commit hs ?_ ⟨rfl, rfl, rfl, trivial⟩
    simp [Task.held, Phase.committed]
  | invalidated => exact h.close hs ⟨rfl, rfl, rfl, trivial⟩
  | failed e he hx => exact h.close hs ⟨rfl, rfl, rfl, trivial⟩

/-! ### cleanup_expired_reservations -/

theorem filter_key {α : Type} {f : α → Uuid} {l : List α} (key : (l.map f).Nodup) {x : α} (hx : x ∈ l) :
    l.filter (fun y => f y = f x) = [x] := by
  induction l with
  | nil => cases hx
  | cons y l ih =>
    rw [List.map_cons, List.nodup_cons] at key
    rcases List.mem_cons.mp hx with rfl | hx
    · rw [List.filter_cons_of_pos (by simp), List.filter_eq_nil_iff.mpr]
      intro z hz hf
      exact key.1 (of_decide_eq_true hf ▸ List.mem_map_of_mem hz)
    · have hne : f y ≠ f x := fun e => key.1 (e ▸ List.mem_map_of_mem hx)
      rw [List.filter_cons_of_neg (by simpa using hne)]
      exact ih key.2 hx

/-- Of one write for every element of a list with distinct keys, one is about the row of a given element. -/
theorem filter_map_key {α : Type} {f : α → Uuid} {g : α → Write} {l : List α} (key : (l.map f).Nodup)
    {x : α} (hx : x ∈ l) (hg : ∀ y, (g y).resources = [.bookingRow (f y)]) :
    (l.map g).filter (fun w => touches w (.bookingRow (f x))) = [g x] := by
  have hp : (fun w => decide (touches w (Resource.bookingRow (f x)))) ∘ g = fun y => decide (f y = f x) := by
    funext y
    simp [hg, eq_comm]
  rw [List.filter_map, hp, filter_key key hx, List.map_singleton]

theorem cleanupWrites_row {id : Nat} {es : List Booking} {w : Write} (hw : w ∈ cleanupWrites began id es) :
    w.resources = [.bookingRow w.row] ∧ ∃ b ∈ es, w.row = b.id := by
  rcases List.mem_append.mp hw with hw | hw
  · obtain ⟨b, hb, rfl⟩ := List.mem_map.mp hw
    exact ⟨rfl, b, hb, rfl⟩
  · obtain ⟨⟨b, k⟩, hb, rfl⟩ := List.mem_map.mp hw
    exact ⟨rfl, b, (List.mem_zipIdx' hb).2 ▸ List.getElem_mem _, rfl⟩

theorem cleanupWrites_audit {id : Nat} {es : List Booking} {a : AuditTrail}
    (h : .insertAudit a ∈ cleanupWrites began id es) :
    a.id < id + es.length := by
  rcases List.mem_append.mp h with h | h
  · obtain ⟨b, -, hb⟩ := List.mem_map.mp h
    cases hb
  · obtain ⟨⟨b, k⟩, hb, h⟩ := List.mem_map.mp h
    cases h
    exact Nat.add_lt_add_left (List.mem_zipIdx' hb).1 _

theorem foldl_holders {ws : List Write} {x : Resource} (h : ∀ w ∈ ws, ∀ d : Db, (w.apply d).holders x = d.holders x)
    (d : Db) : (ws.foldl (fun d w => w.apply d) d).holders x = d.holders x := by
  induction ws generalizing d with
  | nil => rfl
  | cons w ws ih =>
    rw [List.foldl_cons, ih fun w hw => h w (List.mem_cons_of_mem _ hw)]
    exact h w List.mem_cons_self d

theorem foldl_paymentsUnder {ws : List Write} {k : Uuid}
    (h : ∀ w ∈ ws, ∀ d : Db, (w.apply d).paymentsUnder k = d.paymentsUnder k)
    (d : Db) : (ws.foldl (fun d w => w.apply d) d).paymentsUnder k = d.paymentsUnder k := by
  induction ws generalizing d with
  | nil => rfl
  | cons w ws ih =>
    rw [List.foldl_cons, ih fun w hw => h w (List.mem_cons_of_mem _ hw)]
    exact h w List.mem_cons_self d

/-- Of the writes of a cleanup pass, one update and one audit entry are about an expired booking. -/
theorem cleanupWrites_filter (began : Time) (id : Nat) {es : List Booking} (key : (es.map (·.id)).Nodup) (hb : b ∈ es) :
    ∃ k, (cleanupWrites began id es).filter (fun w => touches w (.bookingRow b.id)) =
      [.setBooking b.id .cancelled none (some began),
       .insertAudit (logAudit (id + k) began b.id systemUserId .expiredCleanup (some .reserved) .cancelled
        (.expired b.expiresAt 300) none)] := by
  obtain ⟨k, hk, hget⟩ := List.mem_iff_getElem.mp hb
  have hz : (b, k) ∈ es.zipIdx := by
    rw [List.mem_zipIdx_iff_getElem?, List.getElem?_eq_getElem hk, hget]
  have key' : (es.zipIdx.map fun p => p.1.id).Nodup := by
    have : (es.zipIdx.map fun p => p.1.id) = (es.zipIdx.map Prod.fst).map (·.id) := by rw [List.map_map]; rfl
    rwa [this, List.zipIdx_map_fst]
  refine ⟨k, ?_⟩
  rw [cleanupWrites, List.filter_append, filter_map_key key hb fun _ => rfl, filter_map_key key' hz fun _ => rfl]
  rfl

/-- A cleanup pass takes each of its reservations to the end of its life. -/
theorem Conforms.expire {id : Nat} {es : List Booking} (key : (es.map (·.id)).Nodup) (hb : b ∈ es)
    (hc : Conforms (d.ledger b.id) b .reserved) (hid : ∀ a ∈ d.auditTrail, a.id < id) :
    Conforms (((cleanupWrites began id es).foldl (fun d w => w.apply d) d).ledger b.id)
      { b with status := .cancelled, cancelledAt := some began } .expired := by
  have hcn : b.confirmedAt = none := by simpa [Phase.hasConfirmedAt] using hc.confirmedAt
  have hb' : { b with status := .cancelled, cancelledAt := some began } = b.update .cancelled none (some began) := by
    simp [Booking.update]
  obtain ⟨k, hk⟩ := cleanupWrites_filter began id key hb
  have hl : ((cleanupWrites began id es).foldl (fun d w => ReadCommitted.apply w d) d).ledger b.id = _ :=
    (ledger_viewAt b.id).foldl_filter d
  rw [hk, List.foldl_cons, List.foldl_cons, List.foldl_nil] at hl
  refine cast (congrArg (Conforms · _ _) hl.symm) ?_
  rw [hb', apply_def, apply_def, ledger_insertAudit (logAudit_bookingId ..), ledger_setBooking, hc.row]
  refine hc.advance rfl (by simp [hcn, Phase.hasConfirmedAt]) rfl hc.payments ?_ fun a ha => ?_
  · simp [Phase.trail, AuditTrail.entry, logAudit]
  · exact Nat.lt_add_right _ (hid a (mem_ledger_auditTrail.mp ha).1)

theorem Inv.cleanup (h : Inv σ) {pc pc' : CleanupPc} {e : Effect}
    (hs : σ.sessions[i]? = some ⟨began, .cleanup pc⟩) (m : CleanupMove σ i began pc e pc') :
    Inv ((σ.perform i e).goto i ⟨began, .cleanup pc⟩ (.cleanup pc')) := by
  have ok := h.taskOk hs
  cases m with
  | scanned =>
    have hview : σ.view i = σ.db := view_of_pending_nil (ok.pending_nil rfl)
    have hmem : ∀ b ∈ expiredReservations σ i began, b ∈ σ.db.bookings ∧ b.status = .reserved ∧
        σ.store.Free i (.bookingRow b.id) := fun b hb => by
      simp only [expiredReservations, List.mem_filter, decide_eq_true_eq, hview] at hb
      exact ⟨hb.1, hb.2.1, hb.2.2.2⟩
    refine h.lock hs (fun r hr => ?_) (by simp [Task.owned]) ?_
    · obtain ⟨b, hb, rfl⟩ := List.mem_map.mp hr
      exact (hmem b hb).2.2
    · refine TaskOk.of_pending_nil (ok.pending_nil rfl) (fun p hp => ?_) (fun r hr => by cases hr) ?_
      · obtain ⟨b, hb, rfl⟩ := List.mem_map.mp hp
        obtain ⟨ph, hph, hc⟩ := h.conforms_of_mem (hmem b hb).1
        exact ⟨ph, List.mem_singleton.mpr (phase_of_reserved hc hph (hmem b hb).2.1), hc⟩
      · rw [expiredReservations, hview]
        exact h.ids_nodup.sublist (List.filter_sublist.map _)
  | @flushed es =>
    have key : (es.map (·.id)).Nodup := ok.sound
    refine h.flush hs (by simp) (by simp [Task.owned]) ?_ (fun a ha => cleanupWrites_audit ha)
      (fun r => ?_) (fun k => ?_) (fun p hp => ?_) (fun w hw => ?_) (fun p hp => ?_) rfl trivial
    · intro w hw r hr
      obtain ⟨hrs, b, hb, hrow⟩ := cleanupWrites_row hw
      rw [hrs, List.mem_singleton, hrow] at hr
      simp only [Task.owned, List.map_map, List.mem_map]
      exact ⟨b, hb, hr.symm⟩
    · rw [foldl_holders fun w hw d => ?_]
      · exact (h.holders r).2 i
      · rcases List.mem_append.mp hw with hw | hw <;> obtain ⟨_, -, rfl⟩ := List.mem_map.mp hw
        · exact holders_setBooking
        · rfl
    · rw [foldl_paymentsUnder fun w hw d => ?_]
      · exact (h.payments k).2 i
      · rcases List.mem_append.mp hw with hw | hw <;> obtain ⟨_, -, rfl⟩ := List.mem_map.mp hw <;> rfl
    · obtain ⟨b, hb, rfl⟩ := List.mem_map.mp hp
      exact ⟨_, List.mem_map_of_mem (List.mem_map_of_mem hb), rfl⟩
    · obtain ⟨-, b, hb, hrow⟩ := cleanupWrites_row hw
      exact ⟨_, List.mem_map_of_mem (List.mem_map_of_mem hb), hrow.symm⟩
    · simp only [Task.held, List.map_map, List.mem_map] at hp
      obtain ⟨b, hb, rfl⟩ := hp
      obtain ⟨ph, hph, hc⟩ := ok.held (b, [.reserved]) (List.mem_map_of_mem hb)
      rw [List.mem_singleton.mp hph] at hc
      exact ⟨.expired, List.mem_singleton_self _, Conforms.expire (b := b) key hb hc (h.auditIds_view i)⟩
  | committed =>
    refine h.commit hs ?_ ⟨rfl, rfl, rfl, trivial⟩
    simp [Task.held, Phase.committed]
  | failed e he => exact h.close hs ⟨rfl, rfl, rfl, trivial⟩

/-! ### Steps and runs -/

theorem Inv.move (h : Inv σ) {s : Session} {t : Task} {e : Effect} (hs : σ.sessions[i]? = some s)
    (m : Move cat σ i s e t) :
    Inv ((σ.perform i e).goto i s t) := by
  cases m with
  | create m => exact h.create hs m
  | pay m => exact h.pay hs m
  | refund m => exact h.refund hs m
  | cleanup m => exact h.cleanup hs m

theorem Request.idle (r : Request) : r.task.Idle := by
  cases r <;> exact ⟨rfl, rfl, rfl, trivial⟩

theorem getElem?_snoc {α : Type} (l : List α) (x : α) (j : Nat) :
    (l ++ [x])[j]? = l[j]? ∨ l[j]? = none ∧ (l ++ [x])[j]? = some x := by
  rcases Nat.lt_trichotomy j l.length with hj | rfl | hj
  · exact Or.inl (List.getElem?_append_left hj)
  · exact Or.inr ⟨by simp, by simp⟩
  · refine Or.inl ?_
    rw [List.getElem?_eq_none (by rw [List.length_append]; exact hj), List.getElem?_eq_none hj.le]

/-- What holds of session `j`, or without one, holds when a session arrives that fits what held without one. -/
theorem elim_snoc {α : Type} {l : List α} {x : α} {j : Nat} {P : Prop} {Q : α → Prop} (h : (l[j]?).elim P Q)
    (hx : P → Q x) : ((l ++ [x])[j]?).elim P Q := by
  rcases getElem?_snoc l x j with hj | ⟨hnone, hj⟩
  · rwa [hj]
  · rw [hnone] at h
    rw [hj]
    exact hx h

theorem session_of_request {r : Request} {s : Session} {j : Sid} (hj : (σ.sessions ++ [⟨σ.now, r.task⟩])[j]? = some s) :
    σ.sessions[j]? = some s ∨ (σ.sessions[j]? = none ∧ ⟨σ.now, r.task⟩ = s) := by
  rcases getElem?_snoc σ.sessions ⟨σ.now, r.task⟩ j with hj' | ⟨hnone, hj'⟩
  · exact Or.inl (hj' ▸ hj)
  · exact Or.inr ⟨hnone, Option.some.inj (hj'.symm.trans hj)⟩

/-- A session arrives at a program counter that owns nothing. -/
theorem Inv.request (h : Inv σ) (r : Request) : Inv { σ with sessions := σ.sessions ++ [⟨σ.now, r.task⟩] } := by
  refine { h with own := fun j x => ?_, sessions := fun j => ?_ }
  · rw [h.own, State.owned, State.owned]
    rcases getElem?_snoc σ.sessions ⟨σ.now, r.task⟩ j with hj | ⟨hj, hj'⟩
    · simp only [hj]
    · simp only [hj, hj', Option.elim_none, Option.elim_some, r.idle.owned]
  · exact elim_snoc (h.sessions j) fun hok => r.idle.ok hok

theorem Inv.step (h : Inv σ) {a : Act} (hstep : step cat σ a = some τ) : Inv τ := by
  cases step_stepped hstep with
  | request r => exact h.request r
  | run hs hc m => exact h.move hs m
  | raise hs hr m => exact h.move hs m
  | tick d => exact { h with }
  | updateConfig failureRate latencyMs => exact { h with }

theorem Inv.seeded (now : Time) : Inv (.seeded now) where
  covered := .fresh _
  own i r := by simp [State.seeded, State.owned]
  holders r := ⟨Nat.zero_le 1, fun _ => Nat.zero_le 1⟩
  payments k := ⟨Nat.zero_le 1, fun _ => Nat.zero_le 1⟩
  settled id := Or.inl rfl
  auditIds a ha := nomatch ha
  pendingIds i a ha := nomatch ha
  sessions i := rfl
  gateway := MockPaymentGateway.init_sound

/-- Only requests at their first statement, on the committed tables of a state. -/
theorem Inv.alone (h : Inv σ) (rs : List Request) : Inv (σ.alone rs) where
  covered := .fresh _
  own i r := by
    simp only [State.alone, fresh_owner, reduceCtorEq, State.owned, List.getElem?_map, false_iff]
    cases rs[i]? with
    | none => exact List.not_mem_nil
    | some q => simp [q.idle.owned]
  holders r := ⟨(h.holders r).1, fun _ => (h.holders r).1⟩
  payments k := ⟨(h.payments k).1, fun _ => (h.payments k).1⟩
  settled := h.settled
  auditIds := h.auditIds
  pendingIds i a ha := nomatch ha
  sessions i := by
    simp only [State.SessionOk, State.alone, List.getElem?_map]
    cases rs[i]? with
    | none => rfl
    | some q => exact q.idle.ok rfl
  gateway := h.gateway

theorem Inv.of_reach {allow : State → Act → Prop} {init : State → Prop} (base : ∀ σ, init σ → Inv σ)
    (h : Reach (Railbook.step cat) allow init σ) : Inv σ :=
  h.invariant base fun _ _ _ _ hi _ hstep => hi.step hstep

theorem inv_of_reachableBy {allow : State → Act → Prop} (h : ReachableBy cat allow σ) : Inv σ :=
  Inv.of_reach (fun _ ⟨now, hσ⟩ => hσ ▸ Inv.seeded now) h

/-! ### Requests -/

theorem Move.request {s : Session} {t : Task} {e : Effect} (m : Move cat σ i s e t) : t.request = s.task.request := by
  cases m <;> rfl

theorem goto_requests {s : Session} {t : Task} {e : Effect} (hs : σ.sessions[i]? = some s) (m : Move cat σ i s e t) :
    ((σ.perform i e).goto i s t).sessions.map (·.task.request) = σ.sessions.map (·.task.request) := by
  refine List.ext_getElem? fun j => ?_
  rw [List.getElem?_map, List.getElem?_map]
  by_cases hj : j = i
  · subst hj
    rw [goto_sessions_self hs, hs, Option.map_some, Option.map_some, m.request]
  · rw [goto_sessions_ne hj]

theorem Request.task_request (r : Request) : r.task.request = r := by
  cases r <;> rfl

/-- Every session runs a request that ran before, or the one that has just arrived. -/
theorem step_origin {a : Act} (hstep : step cat σ a = some τ) : ∀ s' ∈ τ.sessions,
    (∃ s ∈ σ.sessions, s.task.request = s'.task.request) ∨ a = .request s'.task.request := by
  have moved : ∀ {i s e t}, σ.sessions[i]? = some s → Move cat σ i s e t →
      ∀ s' ∈ ((σ.perform i e).goto i s t).sessions, ∃ s ∈ σ.sessions, s.task.request = s'.task.request := by
    intro i s e t hs m s' hs'
    obtain ⟨j, hj⟩ := List.mem_iff_getElem?.mp hs'
    rcases session_of_goto hs hj with ⟨-, rfl⟩ | ⟨-, hj⟩
    · exact ⟨s, List.mem_of_getElem? hs, m.request.symm⟩
    · exact ⟨s', List.mem_of_getElem? hj, rfl⟩
  intro s' hs'
  cases step_stepped hstep with
  | request r =>
    rcases List.mem_append.mp hs' with hs' | hs'
    · exact Or.inl ⟨s', hs', rfl⟩
    · rw [List.mem_singleton.mp hs', r.task_request]
      exact Or.inr rfl
  | run hs hc m => exact Or.inl (moved hs m s' hs')
  | raise hs hr m => exact Or.inl (moved hs m s' hs')
  | tick d => exact Or.inl ⟨s', hs', rfl⟩
  | updateConfig failureRate latencyMs => exact Or.inl ⟨s', hs', rfl⟩

/-- What holds of every request that is admitted holds of every session. -/
theorem requests_of_reachable {allow : State → Act → Prop} {P : Request → Prop} (h : ReachableBy cat allow σ)
    (hP : ∀ σ r, allow σ (.request r) → P r) : ∀ s ∈ σ.sessions, P s.task.request := by
  refine h.invariant (I := fun σ => ∀ s ∈ σ.sessions, P s.task.request) ?_ ?_
  · rintro σ ⟨now, rfl⟩ s hs
    cases hs
  · intro σ a τ _ hp allow hstep s hs
    rcases step_origin hstep s hs with ⟨s', hs', hreq⟩ | rfl
    · exact hreq ▸ hp s' hs'
    · exact hP σ _ allow

/-! ### Invariants of the sessions -/

theorem sessions_of_reachable {P : State → Sid → Session → Prop} (h : Reachable cat σ)
    (begins : ∀ {σ : State} {i : Sid} (r : Request), Reachable cat σ → σ.sessions[i]? = none → P σ i ⟨σ.now, r.task⟩)
    (moves : ∀ {σ : State} {i : Sid} {s : Session} {e : Effect} {t : Task}, Reachable cat σ →
      σ.sessions[i]? = some s → P σ i s →
      Move cat σ i s e t → P ((σ.perform i e).goto i s t) i { s with task := t })
    (others : ∀ {σ : State} {i j : Sid} {s s' : Session} {e : Effect} {t : Task}, Reachable cat σ →
      σ.sessions[i]? = some s →
      Move cat σ i s e t → j ≠ i → σ.sessions[j]? = some s' → P σ j s' → P ((σ.perform i e).goto i s t) j s')
    (still : ∀ {σ τ : State} {i : Sid} {s : Session}, P σ i s → τ.store = σ.store → τ.history = σ.history →
      σ.now ≤ τ.now → P τ i s) :
    ∀ (i : Sid) s, σ.sessions[i]? = some s → P σ i s := by
  refine h.invariant (I := fun σ : State => ∀ (i : Sid) s, σ.sessions[i]? = some s → P σ i s) ?_ ?_
  · rintro σ ⟨now, rfl⟩ i s hs
    cases hs
  · intro σ a τ hr hp _ hstep j s' hj
    have moved : ∀ {i s e t}, σ.sessions[i]? = some s → Move cat σ i s e t →
        ((σ.perform i e).goto i s t).sessions[j]? = some s' → P ((σ.perform i e).goto i s t) j s' := by
      intro i s e t hs m hj
      rcases session_of_goto hs hj with ⟨rfl, rfl⟩ | ⟨hji, hj⟩
      · exact moves hr hs (hp _ s hs) m
      · exact others hr hs m hji hj (hp j s' hj)
    cases step_stepped hstep with
    | request r =>
      rcases session_of_request hj with hj | ⟨hnone, rfl⟩
      · exact still (hp j s' hj) rfl rfl (Int.le_refl _)
      · exact still (begins r hr hnone) rfl rfl (Int.le_refl _)
    | run hs hc m => exact moved hs m hj
    | raise hs hraise m => exact moved hs m hj
    | tick d => exact still (hp j s' hj) rfl rfl (Int.le_add_of_nonneg_right (Int.natCast_nonneg d))
    | updateConfig failureRate latencyMs => exact still (hp j s' hj) rfl rfl (Int.le_refl _)

end

end Railbook
