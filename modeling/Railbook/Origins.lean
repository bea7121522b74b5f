import Railbook.Times

/-! Which request wrote a row. Every audit entry and every payment, committed or pending, is one that the request of
    some session writes, and this session has left its first statement. -/

namespace Railbook
open ReadCommitted Transition

/-- The audit entries that a request can write. -/
def Request.Logs : Request → AuditTrail → Prop
  | .create q, a =>
    a.userId = q.userId ∧ a.ipAddress = q.ipAddress ∧ a.action = .reserved ∧
    a.metadata = .reserved q.scheduleId q.seatId
  | .pay q, a =>
    a.userId = q.userId ∧ a.ipAddress = q.ipAddress ∧ a.bookingId = q.bookingId ∧
      a.action ∈ [.paymentAttempted, .confirmed, .paymentFailed]
  | .refund q, a => a.userId = q.userId ∧ a.ipAddress = q.ipAddress ∧ a.bookingId = q.bookingId ∧ a.action = .refunded
  | .cleanup, a => a.userId = systemUserId ∧ a.ipAddress = none ∧ a.action = .expiredCleanup

/-- The payments that a request can write. -/
def Request.Pays : Request → Payment → Prop
  | .pay q, p => p.bookingId = q.bookingId ∧ p.idempotencyKey = q.idempotencyKey
  | _, _ => False

/-- The write is one that the request may make. -/
def Request.Writes (r : Request) : Write → Prop
  | .insertAudit a => r.Logs a
  | .insertPayment p => r.Pays p
  | _ => True

/-- Session `i` has left its first statement, and its request writes `w`. -/
def State.Wrote (σ : State) (i : Sid) (w : Write) : Prop :=
  ∃ s, σ.sessions[i]? = some s ∧ s.task ≠ s.task.request.task ∧ s.task.request.Writes w

/-- Every row has the session that wrote it, and a payment was written with an entry about its booking. -/
structure State.Signed (σ : State) : Prop where
  auditTrail : ∀ a ∈ σ.db.auditTrail, ∃ i, σ.Wrote i (.insertAudit a)
  payments : ∀ p ∈ σ.db.payments, ∃ i, σ.Wrote i (.insertPayment p) ∧
    ∃ a ∈ σ.db.auditTrail, a.bookingId = p.bookingId ∧ σ.Wrote i (.insertAudit a)
  pending : ∀ i, ∀ w ∈ σ.store.pending i, σ.Wrote i w

section
variable {cat : Catalog} {σ τ : State} {i j : Sid} {s : Session} {t : Task} {e : Effect} {w : Write}

theorem Request.Logs.cleanup {r : Request} {a : AuditTrail} (h : r.Logs a) (hact : a.action = .expiredCleanup) :
    r = .cleanup ∧ a.userId = systemUserId := by
  cases r with
  | create q => exact absurd (h.2.2.1.symm.trans hact) (by decide)
  | pay q => exact absurd (hact ▸ h.2.2.2) (by decide)
  | refund q => exact absurd (h.2.2.2.symm.trans hact) (by decide)
  | cleanup => exact ⟨rfl, h.1⟩

/-- No statement leads back to the first one. -/
theorem Move.left_first (m : Move cat σ i s e t) : t ≠ t.request.task := by
  cases m with
  | create m => cases m <;> exact nofun
  | pay m => cases m <;> exact nofun
  | refund m => cases m <;> exact nofun
  | cleanup m => cases m <;> exact nofun

theorem payWrites_writes {began : Time} {n : Nat} {q : PayRequest} {b : Booking} {r : PaymentResult} {x : Time}
    (hid : b.id = q.bookingId) : ∀ w ∈ payWrites began n q b r x, (Request.pay q).Writes w := by
  intro w hw
  unfold payWrites at hw
  split at hw <;> simp only [List.mem_cons, List.not_mem_nil, or_false] at hw <;> rcases hw with rfl | rfl | rfl
  · trivial
  · exact ⟨hid, rfl⟩
  · exact ⟨rfl, rfl, hid, by simp [logAudit]⟩
  · trivial
  · exact ⟨hid, rfl⟩
  · exact ⟨rfl, rfl, hid, by simp [logAudit]⟩

/-- What a session flushes is of its request. -/
theorem Move.writes {rs : List Resource} {ws : List Write} {n : Nat} (inv : Inv σ) (hs : σ.sessions[i]? = some s)
    (m : Move cat σ i s (.flush rs ws n) t) (hw : w ∈ ws) : t.request.Writes w := by
  have sound : s.task.Sound := (inv.taskOk hs).sound
  cases m with
  | create m =>
    cases m with
    | deleted => exact List.mem_singleton.mp hw ▸ trivial
    | seated => exact List.mem_singleton.mp hw ▸ trivial
    | audited => exact List.mem_singleton.mp hw ▸ ⟨rfl, rfl, rfl, rfl⟩
  | pay m =>
    cases m with
    | attempted => exact List.mem_singleton.mp hw ▸ ⟨rfl, rfl, sound.1, by simp [logAudit]⟩
    | recorded => exact payWrites_writes sound.1.1 w hw
  | refund m =>
    cases m with
    | recorded =>
      rcases List.mem_cons.mp hw with rfl | hw
      · trivial
      · exact List.mem_singleton.mp hw ▸ ⟨rfl, rfl, sound.1, rfl⟩
  | cleanup m =>
    cases m with
    | flushed =>
      rcases List.mem_append.mp hw with hw | hw <;> obtain ⟨_, -, rfl⟩ := List.mem_map.mp hw
      · trivial
      · exact ⟨rfl, rfl, rfl⟩

theorem State.Wrote.step {a : Act} (h : σ.Wrote i w) (hstep : step cat σ a = some τ) : τ.Wrote i w := by
  obtain ⟨s, hs, hleft, hw⟩ := h
  have moved : ∀ {k x e t}, σ.sessions[k]? = some x → Move cat σ k x e t → ((σ.perform k e).goto k x t).Wrote i w := by
    intro k x e t hx m
    by_cases hik : i = k
    · subst hik
      cases hx.symm.trans hs
      exact ⟨_, goto_sessions_self hx, m.left_first, m.request ▸ hw⟩
    · exact ⟨s, (goto_sessions_ne hik).trans hs, hleft, hw⟩
  cases step_stepped hstep with
  | request r => exact ⟨s, (List.getElem?_append_left (List.getElem?_eq_some_iff.mp hs).1).trans hs, hleft, hw⟩
  | run hx hc m => exact moved hx m
  | raise hx hr m => exact moved hx m
  | tick d => exact ⟨s, hs, hleft, hw⟩
  | updateConfig failureRate latencyMs => exact ⟨s, hs, hleft, hw⟩

theorem State.Signed.move (h : σ.Signed) (hr : Reachable cat σ) (hs : σ.sessions[i]? = some s) (m : Move cat σ i s e t)
    (kept : ∀ {j w}, σ.Wrote j w → ((σ.perform i e).goto i s t).Wrote j w) : ((σ.perform i e).goto i s t).Signed where
  auditTrail a ha := by
    have ha : a ∈ (σ.perform i e).db.auditTrail := ha
    rcases perform_db σ i e with he | ⟨-, he⟩ <;> rw [he] at ha
    · exact (h.auditTrail a ha).imp fun _ => kept
    · rcases mem_auditTrail_foldl.mp ha with ha | ha
      · exact (h.auditTrail a ha).imp fun _ => kept
      · exact ⟨i, kept (h.pending i _ ha)⟩
  payments p hp := by
    show ∃ j, _ ∧ ∃ a ∈ (σ.perform i e).db.auditTrail, _
    have hp : p ∈ (σ.perform i e).db.payments := hp
    rcases perform_db σ i e with he | ⟨-, he⟩ <;> rw [he] at hp ⊢
    · obtain ⟨j, hj, a, ha, hid, hw⟩ := h.payments p hp
      exact ⟨j, kept hj, a, ha, hid, kept hw⟩
    · rcases mem_payments_foldl.mp hp with hp | hp
      · obtain ⟨j, hj, a, ha, hid, hw⟩ := h.payments p hp
        exact ⟨j, kept hj, a, mem_auditTrail_foldl.mpr (Or.inl ha), hid, kept hw⟩
      · obtain ⟨-, a, ha, hid, -⟩ := (recordsTime_of_reachable hr i s hs).pending _ hp
        exact ⟨i, kept (h.pending i _ hp), a, mem_auditTrail_foldl.mpr (Or.inr ha), hid, kept (h.pending i _ ha)⟩
  pending j w hw := by
    rcases pending_of_perform hw with hold | ⟨rfl, rs, ws, n, rfl, hnew⟩
    · exact kept (h.pending j w hold)
    · exact ⟨_, goto_sessions_self hs, m.left_first, m.writes (inv_of_reachableBy hr) hs hnew⟩

theorem signed_of_reachable (h : Reachable cat σ) : σ.Signed := by
  refine h.invariant (I := State.Signed) ?_ ?_
  · rintro σ ⟨now, rfl⟩
    refine ⟨fun a ha => ?_, fun p hp => ?_, fun i w hw => ?_⟩
    · cases ha
    · cases hp
    · cases hw
  · intro σ a τ hr hsigned _ hstep
    have kept : ∀ {j w}, σ.Wrote j w → τ.Wrote j w := fun h => h.step hstep
    have still : τ.store = σ.store → τ.Signed := fun heq =>
      ⟨fun a ha => (hsigned.auditTrail a (by rwa [State.db, heq] at ha)).imp fun _ => kept,
        fun p hp => by
          obtain ⟨j, hj, a, ha, hid, hw⟩ := hsigned.payments p (by rwa [State.db, heq] at hp)
          exact ⟨j, kept hj, a, by rwa [State.db, heq], hid, kept hw⟩,
        fun i w hw => kept (hsigned.pending i w (heq ▸ hw))⟩
    cases step_stepped hstep with
    | request r => exact still rfl
    | run hs hc m => exact hsigned.move hr hs m kept
    | raise hs hraise m => exact hsigned.move hr hs m kept
    | tick d => exact still rfl
    | updateConfig failureRate latencyMs => exact still rfl

end

end Railbook
