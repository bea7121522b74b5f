import Railbook.Sessions

/-! What the times in the tables say. A server default is `now()`, the time at which its transaction began: the
    `reserved_at` of a booking, the `attempted_at` of a payment and the `created_at` of an audit entry are those of the
    transaction that inserted the row. -/

namespace Railbook
open ReadCommitted Transition

/-- The booking that `create_booking` has built. -/
def CreatePc.built : CreatePc → Option Booking
  | insertKey b | insertSeat b | audit b | commit b => some b
  | _ => none

/-- The booking was built in a transaction that began at `began`, and expires later. -/
structure Booking.BuiltAt (b : Booking) (began : Time) : Prop where
  reservedAt : b.reservedAt = began
  expiresAt : ∃ t, b.expiresAt = some t ∧ began ≤ t

/-- What one of the writes of a transaction that began at `began` records of its time. -/
def Write.RecordedAt (began : Time) (ws : List Write) : Write → Prop
  | insertBooking b => b.BuiltAt began
  | insertPayment p =>
    p.attemptedAt = began ∧ ∃ a, .insertAudit a ∈ ws ∧ a.bookingId = p.bookingId ∧ a.newStatus ≠ .reserved
  | insertAudit a => a.createdAt = began
  | _ => True

/-- So it is with each of the writes. -/
def RecordedAt (began : Time) (ws : List Write) : Prop := ∀ w ∈ ws, w.RecordedAt began ws

/-- What a session has written, and the booking that it has built, are of the time at which it began. -/
structure Session.RecordsTime (σ : State) (i : Sid) (s : Session) : Prop where
  pending : RecordedAt s.began (σ.store.pending i)
  built : ∀ q pc, s.task = .create q pc → ∀ b ∈ pc.built, b.BuiltAt s.began

/-- The rows that a session holds, and the phase that each of them is in until the session commits. -/
def Task.base : Task → List (Uuid × Phase)
  | .pay _ (.checkPayment b) | .pay _ (.attempt b) | .pay _ (.charge b) | .pay _ (.charging b) | .pay _ (.record b _ _)
  | .pay _ (.commit b) => [(b.id, .reserved)]
  | .refund _ (.checkDeparture b) | .refund _ (.findPayment b) | .refund _ (.refund b _) | .refund _ (.refunding b _)
  | .refund _ (.record b _) | .refund _ (.commit b) => [(b.id, .confirmed)]
  | .cleanup (.flush es) | .cleanup (.commit es) => es.map fun b => (b.id, .reserved)
  | _ => []

/-- The task is a cleanup pass. -/
def Task.isCleanup : Task → Bool
  | .cleanup _ => true
  | _ => false

/-- The committed rows that a session holds are in their phase, and those of a cleanup pass had expired when
    it began. -/
def Session.BaseOk (d : Db) (s : Session) : Prop :=
  ∀ x ∈ s.task.base, ∃ b, Conforms (d.ledger x.1) b x.2 ∧
  (s.task.isCleanup = true → b.expiresAt.any (· < s.began) = true)

/-- The committed rows agree on when they were inserted. -/
structure Db.Timed (d : Db) : Prop where
  expires : ∀ b ∈ d.bookings, ∃ t, b.expiresAt = some t ∧ b.reservedAt ≤ t
  reserved : ∀ b ∈ d.bookings, ∃ a ∈ d.auditTrail, a.bookingId = b.id ∧ a.createdAt = b.reservedAt
  paid : ∀ p ∈ d.payments, ∃ a ∈ d.auditTrail, a.bookingId = p.bookingId ∧ a.newStatus ≠ .reserved ∧
    a.createdAt = p.attemptedAt

section
variable {cat : Catalog} {σ τ : State} {i j : Sid} {s : Session} {t : Task} {e : Effect} {began : Time}
  {ws ws' : List Write} {b b' : Booking} {d : Db} {a : Act}

/-! ### Sessions begin in the past -/

theorem began_le_now (hr : Reachable cat σ) : ∀ s ∈ σ.sessions, s.began ≤ σ.now := by
  refine hr.invariant (I := fun σ => ∀ s ∈ σ.sessions, s.began ≤ σ.now) ?_ ?_
  · rintro σ ⟨now, rfl⟩ s hs
    cases hs
  · intro σ a τ _ h _ hstep s' hs'
    have moved {i : Sid} {s : Session} {e : Effect} {t : Task} (hs : σ.sessions[i]? = some s)
        (hs' : s' ∈ ((σ.perform i e).goto i s t).sessions) : s'.began ≤ σ.now := by
      obtain ⟨j, hj⟩ := List.mem_iff_getElem?.mp hs'
      rcases session_of_goto hs hj with ⟨-, rfl⟩ | ⟨-, hj⟩
      · exact h s (List.mem_of_getElem? hs)
      · exact h s' (List.mem_of_getElem? hj)
    cases step_stepped hstep with
    | request r =>
      rcases List.mem_append.mp hs' with hs' | hs'
      · exact h s' hs'
      · rw [List.mem_singleton.mp hs']
    | @run i c s e t hs hc m =>
      rw [goto_now, perform_now]
      exact moved hs hs'
    | @raise i s t hs hr m => exact moved hs hs'
    | tick n => exact Int.le_trans (h s' hs') (Int.le_add_of_nonneg_right (Int.natCast_nonneg n))
    | updateConfig failureRate latencyMs => exact h s' hs'

/-! ### What is written -/

theorem recordedAt_nil : RecordedAt began [] := by
  intro w hw
  cases hw

theorem RecordedAt.append (h : RecordedAt began ws) (h' : RecordedAt began ws') : RecordedAt began (ws ++ ws') := by
  have mono {w : Write} {vs : List Write} (hw : w.RecordedAt began vs) (hsub : ∀ v ∈ vs, v ∈ ws ++ ws') :
      w.RecordedAt began (ws ++ ws') := by
    cases w with
    | insertPayment p =>
      obtain ⟨hp, a, ha, hid, hst⟩ := hw
      exact ⟨hp, a, hsub _ ha, hid, hst⟩
    | _ => exact hw
  intro w hw
  rcases List.mem_append.mp hw with hw | hw
  · exact mono (h w hw) fun v hv => List.mem_append_left _ hv
  · exact mono (h' w hw) fun v hv => List.mem_append_right _ hv

theorem recordedAt_payWrites {id : Nat} {q : PayRequest} {r : PaymentResult} {t : Time} :
    RecordedAt began (payWrites began id q b r t) := by
  unfold payWrites
  split <;> intro w hw <;> simp only [List.mem_cons, List.not_mem_nil, or_false] at hw
  · rcases hw with rfl | rfl | rfl
    · trivial
    · exact ⟨rfl, _, List.mem_cons_of_mem _ (List.mem_cons_of_mem _ List.mem_cons_self), rfl, by simp [logAudit]⟩
    · rfl
  · rcases hw with rfl | rfl | rfl
    · trivial
    · exact ⟨rfl, _, List.mem_cons_of_mem _ (List.mem_cons_of_mem _ List.mem_cons_self), rfl, by simp [logAudit]⟩
    · rfl

theorem recordedAt_refundWrites {id : Nat} {q : RefundRequest} {t : Time} :
    RecordedAt began (refundWrites began id q b t) := by
  intro w hw
  simp only [refundWrites, List.mem_cons, List.not_mem_nil, or_false] at hw
  rcases hw with rfl | rfl
  · trivial
  · rfl

theorem recordedAt_cleanupWrites {id : Nat} {es : List Booking} : RecordedAt began (cleanupWrites began id es) := by
  intro w hw
  rcases List.mem_append.mp hw with hw | hw
  · obtain ⟨b, -, rfl⟩ := List.mem_map.mp hw
    trivial
  · obtain ⟨x, -, rfl⟩ := List.mem_map.mp hw
    rfl

/-- What the flush of a move records. -/
theorem Move.recordedAt {rs : List Resource} {n : Nat} (h : s.RecordsTime σ i) (m : Move cat σ i s (.flush rs ws n) t) :
    RecordedAt s.began ws := by
  cases m with
  | create m =>
    cases m with
    | deleted hp ha => simp [RecordedAt, Write.RecordedAt]
    | seated free hx hu => simpa [RecordedAt, Write.RecordedAt] using h.built _ _ rfl _ rfl
    | audited => simp [RecordedAt, Write.RecordedAt, logAudit]
  | pay m =>
    cases m with
    | attempted => simp [RecordedAt, Write.RecordedAt, logAudit]
    | recorded free hk => exact recordedAt_payWrites
  | refund m => cases m with | recorded => exact recordedAt_refundWrites
  | cleanup m => cases m with | flushed => exact recordedAt_cleanupWrites

theorem Move.pending_recordedAt (h : s.RecordsTime σ i) (m : Move cat σ i s e t) :
    RecordedAt s.began ((σ.perform i e).store.pending i) := by
  cases e with
  | flush rs ws n =>
    simp only [State.perform, write_pending_self, acquire_pending]
    exact h.pending.append (m.recordedAt h)
  | commit =>
    simp only [State.perform, commit_pending, rollback_pending_self]
    exact recordedAt_nil
  | close =>
    simp only [State.perform, rollback_pending_self]
    exact recordedAt_nil
  | _ => exact h.pending

/-- What is true of a booking when it is built, and does not depend on its id, stays true until it is inserted. -/
theorem CreateMove.forall_built {q : CreateRequest} {pc pc' : CreatePc} {P : Booking → Prop}
    (new : ∀ price, P (newBooking σ began q price)) (named : ∀ b id, P b → P { b with id := id })
    (h : ∀ b ∈ pc.built, P b) (m : CreateMove cat σ i began q pc e pc') : ∀ b ∈ pc'.built, P b := by
  intro b hb
  cases m with
  | priced compType hx =>
    cases hb
    exact new _
  | deleted hp ha =>
    cases hb
    exact new _
  | @keyed b₀ id fresh free hk =>
    cases hb
    exact named b₀ id (h b₀ rfl)
  | seated free hx hu => exact h b hb
  | audited => exact h b hb
  | _ => cases hb

theorem CreateMove.builtAt {q : CreateRequest} {pc pc' : CreatePc} (hnow : began ≤ σ.now)
    (h : ∀ b ∈ pc.built, b.BuiltAt began) (m : CreateMove cat σ i began q pc e pc') :
    ∀ b ∈ pc'.built, b.BuiltAt began :=
  m.forall_built (fun _ => ⟨rfl, _, rfl, Int.le_trans hnow (Int.le_add_of_nonneg_right (by decide))⟩)
    (fun _ _ hb => ⟨hb.reservedAt, hb.expiresAt⟩) h

theorem recordsTime_of_reachable (hr : Reachable cat σ) : ∀ (i : Sid) s, σ.sessions[i]? = some s →
    s.RecordsTime σ i := by
  refine sessions_of_reachable (P := fun σ i s => s.RecordsTime σ i) hr ?_ ?_ ?_ ?_
  · intro σ i r hr hnone
    have hok := (inv_of_reachableBy hr).sessions i
    rw [State.SessionOk, hnone] at hok
    refine ⟨?_, fun q pc h b hb => ?_⟩
    · rw [show σ.store.pending i = [] from hok]
      exact recordedAt_nil
    · cases r <;> cases h
      cases hb
  · intro σ i s e t hr hs h m
    have hpending : RecordedAt s.began ((σ.perform i e).store.pending i) := m.pending_recordedAt h
    refine ⟨hpending, fun q pc' hpc => ?_⟩
    have hnow := began_le_now hr s (List.mem_of_getElem? hs)
    cases m with
    | create m =>
      cases hpc
      exact m.builtAt hnow (h.built _ _ rfl)
    | _ => cases hpc
  · intro σ i j s s' e t _ _ _ hji _ h
    refine ⟨?_, h.built⟩
    rw [goto_store, perform_pending_ne e hji]
    exact h.pending
  · intro σ τ i s h hstore _ _
    exact ⟨hstore ▸ h.pending, h.built⟩

/-! ### The committed rows -/

theorem Booking.reservedAt_of_fixed (h : b'.fixed = b.fixed) : b'.reservedAt = b.reservedAt := by
  have h := congrArg Booking.reservedAt h
  exact h

theorem Booking.expiresAt_of_fixed (h : b'.fixed = b.fixed) : b'.expiresAt = b.expiresAt := by
  have h := congrArg Booking.expiresAt h
  exact h

theorem create_fresh {q : CreateRequest} (hr : Reachable cat σ)
    (hs : σ.sessions[i]? = some ⟨began, .create q (.commit b)⟩) :
    ∀ a ∈ σ.db.auditTrail, a.bookingId ≠ b.id := by
  intro a ha hid
  have inv := inv_of_reachableBy hr
  obtain ⟨ph, -, hc⟩ := (inv.taskOk hs).held (b, [.reserved]) (List.mem_singleton_self _)
  have hview : (σ.view i).bookings = σ.db.bookings ++ [b] := (insertsOwn_of_reachable hr).view_bookings hs rfl
  have hrow : (σ.view i).bookings.filter (·.id = b.id) = [b] := hc.row
  rw [hview, List.filter_append, List.filter_cons_of_pos (by simp), List.filter_nil] at hrow
  have hnone : (σ.db.ledger b.id).bookings = [] := List.append_left_eq_self.mp hrow
  have hempty := (inv.settled b.id).eq_empty hnone
  have hmem : a ∈ (σ.db.ledger b.id).auditTrail := mem_ledger_auditTrail.mpr ⟨ha, hid⟩
  rw [hempty] at hmem
  cases hmem

theorem create_logged {q : CreateRequest} (hr : Reachable cat σ)
    (hs : σ.sessions[i]? = some ⟨began, .create q (.commit b)⟩) :
    ∃ a, .insertAudit a ∈ σ.store.pending i ∧ a.bookingId = b.id := by
  obtain ⟨ph, hph, hc⟩ := ((inv_of_reachableBy hr).taskOk hs).held (b, [.reserved]) (List.mem_singleton_self _)
  obtain rfl := List.mem_singleton.mp hph
  obtain ⟨a, ha⟩ := List.exists_mem_of_ne_nil _ (hc.trail_ne_nil nofun)
  obtain ⟨ha, hid⟩ := mem_ledger_auditTrail.mp ha
  rcases mem_auditTrail_foldl.mp ha with ha | ha
  · exact absurd hid (create_fresh hr hs a ha)
  · exact ⟨a, ha, hid⟩

/-- What a session commits. -/
theorem Db.Timed.view (hr : Reachable cat σ) (h : σ.db.Timed) (hs : σ.sessions[i]? = some s)
    (m : Move cat σ i s .commit t) : (σ.view i).Timed := by
  have records := recordsTime_of_reachable hr i s hs
  have old {a : AuditTrail} (ha : a ∈ σ.db.auditTrail) : a ∈ (σ.view i).auditTrail :=
    mem_auditTrail_foldl.mpr (Or.inl ha)
  have new {a : AuditTrail} (ha : .insertAudit a ∈ σ.store.pending i) : a ∈ (σ.view i).auditTrail :=
    mem_auditTrail_foldl.mpr (Or.inr ha)
  constructor
  case expires =>
    intro b hb
    rcases origin_foldl hb with ⟨b₀, hb₀, hf⟩ | ⟨b₀, hb₀, hf⟩
    · obtain ⟨t, ht, hle⟩ := h.expires b₀ hb₀
      exact ⟨t, (Booking.expiresAt_of_fixed hf).symm.trans ht, Booking.reservedAt_of_fixed hf ▸ hle⟩
    · have hat : b₀.BuiltAt s.began := records.pending _ hb₀
      obtain ⟨t, ht, hle⟩ := hat.expiresAt
      exact ⟨t, (Booking.expiresAt_of_fixed hf).symm.trans ht,
        by rw [← Booking.reservedAt_of_fixed hf, hat.reservedAt]; exact hle⟩
  case reserved =>
    intro b hb
    rcases origin_foldl hb with ⟨b₀, hb₀, hf⟩ | ⟨b₀, hb₀, hf⟩
    · obtain ⟨a, ha, hid, hat⟩ := h.reserved b₀ hb₀
      exact ⟨a, old ha, hid.trans (Booking.id_of_fixed hf), hat.trans (Booking.reservedAt_of_fixed hf)⟩
    · have hat : b₀.BuiltAt s.began := records.pending _ hb₀
      obtain ⟨began, q, pc, hs', -⟩ := (insertsOwn_of_reachable hr).inserts i b₀ hb₀
      obtain rfl := Option.some.inj (hs.symm.trans hs')
      cases m with
      | create m =>
        cases m with
        | @committed b₁ =>
          obtain ⟨a, ha, hid⟩ := create_logged hr hs
          obtain ⟨as, has⟩ := (insertsOwn_of_reachable hr).written i began q _ b₁ hs rfl
          obtain rfl : b₀ = b₁ := by
            rw [has] at hb₀
            simpa using hb₀
          exact ⟨a, new ha, hid.trans (Booking.id_of_fixed hf),
            ((records.pending _ ha).trans hat.reservedAt.symm).trans (Booking.reservedAt_of_fixed hf)⟩
  case paid =>
    intro p hp
    rcases mem_payments_foldl.mp hp with hp | hp
    · obtain ⟨a, ha, hwhat⟩ := h.paid p hp
      exact ⟨a, old ha, hwhat⟩
    · obtain ⟨hat, a, ha, hid, hst⟩ := records.pending _ hp
      exact ⟨a, new ha, hid, hst, Eq.trans (records.pending _ ha) hat.symm⟩

theorem timed_of_reachable (hr : Reachable cat σ) : σ.db.Timed := by
  refine hr.invariant (I := fun σ => σ.db.Timed) ?_ ?_
  · rintro σ ⟨now, rfl⟩
    exact ⟨nofun, nofun, nofun⟩
  · intro σ a τ hr h _ hstep
    cases step_stepped hstep with
    | @run i c s e t hs hc m =>
      rcases perform_db σ i e with he | ⟨rfl, he⟩
      · rw [goto_db, he]
        exact h
      · rw [goto_db, he]
        exact h.view hr hs m
    | _ => exact h

/-! ### The rows that a session holds -/

theorem Task.owned_of_base {x : Uuid × Phase} (h : x ∈ t.base) : .bookingRow x.1 ∈ t.owned := by
  unfold Task.base at h
  split at h
  all_goals first
    | cases h; done
    | (obtain rfl := List.mem_singleton.mp h; simp [Task.owned])
    | (obtain ⟨b, hb, rfl⟩ := List.mem_map.mp h; exact List.mem_map_of_mem hb)

theorem baseOk_of_nil (h : s.task.base = []) : s.BaseOk d := by
  intro x hx
  rw [h] at hx
  cases hx

/-- A move that keeps the rows of its session, and the tables. -/
theorem Session.BaseOk.keep {d' : Db} (h : s.BaseOk d) (ht : t.base = s.task.base) (hc : t.isCleanup = s.task.isCleanup)
    (hdb : d' = d) : Session.BaseOk d' { s with task := t } := by
  intro x hx
  obtain ⟨b, hb, hexp⟩ := h x (ht ▸ hx)
  exact ⟨b, hdb ▸ hb, fun ht => hexp (hc ▸ ht)⟩

theorem conforms_of_status {ph : Phase} (hr : Reachable cat σ) (hs : σ.sessions[i]? = some s)
    (hw : s.task.isWritten = false) (hb : b ∈ (σ.view i).bookings)
    (hph : ∀ ph', Conforms (σ.db.ledger b.id) b ph' → ph' ∈ Phase.committed → ph' = ph) :
    Conforms (σ.db.ledger b.id) b ph := by
  rw [view_of_unwritten hr hs hw] at hb
  obtain ⟨ph', hph', hc⟩ := (inv_of_reachableBy hr).conforms_of_mem hb
  exact hph ph' hc hph' ▸ hc

theorem PayMove.baseOk {q : PayRequest} {pc pc' : PayPc} (hr : Reachable cat σ)
    (hs : σ.sessions[i]? = some ⟨began, .pay q pc⟩) (h : Session.BaseOk σ.db ⟨began, .pay q pc⟩)
    (m : PayMove σ i began q pc e pc') :
    Session.BaseOk (σ.perform i e).db ⟨began, .pay q pc'⟩ := by
  cases m with
  | @admitted b free hb hid hu hst hexp =>
    intro x hx
    obtain rfl := List.mem_singleton.mp hx
    have hc : Conforms (σ.db.ledger b.id) b .reserved :=
      conforms_of_status hr hs rfl hb fun _ hc hph => phase_of_reserved hc hph hst
    exact ⟨b, hc, fun h => by cases h⟩
  | @recorded b r t free hk => exact h.keep (by simp only [Task.base, r.book_id]) rfl rfl
  | unpaid hp => exact h.keep rfl rfl rfl
  | attempted => exact h.keep rfl rfl rfl
  | called => exact h.keep rfl rfl rfl
  | answered c => exact h.keep rfl rfl rfl
  | _ => exact baseOk_of_nil rfl

theorem RefundMove.baseOk {q : RefundRequest} {pc pc' : RefundPc} (hr : Reachable cat σ)
    (hs : σ.sessions[i]? = some ⟨began, .refund q pc⟩) (h : Session.BaseOk σ.db ⟨began, .refund q pc⟩)
    (m : RefundMove cat σ i began q pc e pc') : Session.BaseOk (σ.perform i e).db ⟨began, .refund q pc'⟩ := by
  cases m with
  | @admitted b free hb hid hu hst =>
    intro x hx
    obtain rfl := List.mem_singleton.mp hx
    have hc : Conforms (σ.db.ledger b.id) b .confirmed :=
      conforms_of_status hr hs rfl hb fun _ hc hph => phase_of_confirmed hc hph hst
    exact ⟨b, hc, fun h => by cases h⟩
  | inTime hsch hdep => exact h.keep rfl rfl rfl
  | paid hp hid hst => exact h.keep rfl rfl rfl
  | unpaid hp => exact h.keep rfl rfl rfl
  | called => exact h.keep rfl rfl rfl
  | answered => exact h.keep rfl rfl rfl
  | recorded => exact h.keep rfl rfl rfl
  | _ => exact baseOk_of_nil rfl

theorem CleanupMove.baseOk {pc pc' : CleanupPc} (hr : Reachable cat σ) (hs : σ.sessions[i]? = some ⟨began, .cleanup pc⟩)
    (h : Session.BaseOk σ.db ⟨began, .cleanup pc⟩) (m : CleanupMove σ i began pc e pc') :
    Session.BaseOk (σ.perform i e).db ⟨began, .cleanup pc'⟩ := by
  cases m with
  | scanned =>
    intro x hx
    obtain ⟨b, hb, rfl⟩ := List.mem_map.mp hx
    obtain ⟨hb, hcond⟩ := List.mem_filter.mp hb
    obtain ⟨hst, hexp, -⟩ := of_decide_eq_true hcond
    have hc : Conforms (σ.db.ledger b.id) b .reserved :=
      conforms_of_status hr hs rfl hb fun _ hc hph => phase_of_reserved hc hph hst
    exact ⟨b, hc, fun _ => hexp⟩
  | flushed => exact h.keep (by simp [Task.base]) rfl rfl
  | _ => exact baseOk_of_nil rfl

/-- A move takes its rows from the committed tables, or it leaves them and the tables as they are. -/
theorem Move.baseOk (hr : Reachable cat σ) (hs : σ.sessions[i]? = some s) (h : s.BaseOk σ.db) (m : Move cat σ i s e t) :
    Session.BaseOk (σ.perform i e).db { s with task := t } := by
  cases m with
  | create m => exact baseOk_of_nil (by cases m <;> rfl)
  | pay m => exact m.baseOk hr hs h
  | refund m => exact m.baseOk hr hs h
  | cleanup m => exact m.baseOk hr hs h

theorem baseOk_of_reachable (hr : Reachable cat σ) : ∀ (i : Sid) s, σ.sessions[i]? = some s → s.BaseOk σ.db := by
  refine sessions_of_reachable (P := fun σ _ s => s.BaseOk σ.db) hr ?_ ?_ ?_ ?_
  · intro σ i r _ _ x hx
    cases r <;> cases hx
  · intro σ i s e t hr hs h m
    exact m.baseOk hr hs h
  · intro σ i j s s' e t hr hs m hji hs' h x hx
    obtain ⟨b, hb, hexp⟩ := h x hx
    have hledger := perform_ledger_of_owner (e := e) (inv_of_reachableBy hr) hs hs' hji (Task.owned_of_base hx)
    exact ⟨b, cast (congrArg (Conforms · b x.2) hledger.symm) hb, hexp⟩
  · intro σ τ i s h hstore _ _
    have hdb : τ.db = σ.db := congrArg (·.data) hstore
    rw [hdb]
    exact h

end

end Railbook
