import Railbook.Charges

/-! A charge that succeeded at the gateway while its commit was lost (`docs/architecture/CONCURRENCY.md`, problem 5):
    a client that retries with the same key, the expiry check, the cleanup pass and the cache of the gateway. -/

namespace Railbook
open ReadCommitted Transition

/-- The gateway holds a successful charge made for booking `id`. -/
def State.Holds (σ : State) (id : Uuid) : Prop :=
  ∃ a ∈ σ.history.answers, a.call.bookingId = id ∧ a.result.status = .success

/-- User `u` pays for booking `id` with key `k`, at every attempt. -/
def RetriesWith (id u k : Uuid) (_ : State) : Act → Prop
  | .request (.pay q) => q.bookingId = id → q.userId = u → q.idempotencyKey = k
  | _ => True

/-- What the next statement of session `i` finds when it decides about booking `id` of user `u`: the expiry check of
    `pay_booking` a reservation that is not expired, its payment check no payment for another booking, and the cleanup
    query not this booking. -/
def Session.FindsInTime (id u : Uuid) (σ : State) (i : Sid) (s : Session) : Prop :=
  match s.task with
  | .pay q .awaitBooking => q.bookingId = id → q.userId = u →
    ∀ b ∈ σ.db.bookings, b.id = id → b.status = .reserved → b.expiresAt.any (· < σ.now) = false
  | .pay q (.checkPayment _) => q.bookingId = id → q.userId = u →
    ∀ p ∈ σ.db.payments, p.idempotencyKey = q.idempotencyKey → p.bookingId = id
  | .cleanup .scan => ∀ b ∈ expiredReservations σ i s.began, b.id ≠ id
  | _ => True

/-- While the gateway holds a successful charge for the booking, every decision about it is in time. -/
def InTime (id u : Uuid) (σ : State) : Act → Prop
  | .run i _ => σ.Holds id → ∀ s, σ.sessions[i]? = some s → s.FindsInTime id u σ i
  | _ => True

/-- A refund of the booking was requested. -/
def State.RefundRequested (σ : State) (id : Uuid) : Prop :=
  ∃ s ∈ σ.sessions, ∃ q, s.task.request = .refund q ∧ q.bookingId = id

/-- Booking `id` is confirmed, unless a refund was requested for it, and has a success payment under `k`. -/
def State.ConfirmedUnder (σ : State) (id k : Uuid) : Prop :=
  (∃ b ∈ σ.db.bookings, b.id = id ∧ (b.status = .confirmed ∨ (b.status = .refunded ∧ σ.RefundRequested id))) ∧
    ∃ p ∈ σ.db.payments, p.bookingId = id ∧ p.idempotencyKey = k ∧ p.status = .success

/-- The answer to the client is not a server error. -/
def IsAnswer : Except Exc Booking → Prop
  | .ok _ => True
  | .error e => e.isServerError = false

/-- A step of a run that strands no charge for booking `id`: it does not leave the booking cancelled while the gateway
    holds a successful charge for it, and if it answers an attempt of the client while the gateway holds one, it leaves
    the booking confirmed. -/
structure NotStranding (id u k : Uuid) (σ : State) (a : Act) (τ : State) : Prop where
  notCancelled : τ.Holds id → ∀ b ∈ τ.db.bookings, b.id = id → b.status ≠ .cancelled
  confirmed : ∀ i x s began q r, a = .run i x → σ.sessions[i]? = some s →
    τ.sessions[i]? = some ⟨began, .pay q (.finished r)⟩ → q.bookingId = id → q.userId = u → σ.Holds id → IsAnswer r →
    τ.ConfirmedUnder id k

/-- No step of the run strands a charge for booking `id`. -/
def StrandsNothing (cat : Catalog) (id u k : Uuid) (σ : State) (acts : List Act) : Prop :=
  ∀ pre a post ρ τ, acts = pre ++ a :: post → exec (step cat) σ pre = some ρ → step cat ρ a = some τ →
    NotStranding id u k ρ a τ

/-- Booking `id`, if it is stored, is the booking of user `u`. -/
def State.OwnedBy (σ : State) (id u : Uuid) : Prop := ∀ b ∈ σ.db.bookings, b.id = id → b.userId = u

/-- Sessions that are past the ownership check of `pay_booking`. -/
def PayPc.isAdmitted : PayPc → Bool
  | .lockBooking | .awaitBooking | .finished _ => false
  | _ => true

/-- Who is admitted to pay for a booking, or has called the gateway for it, owns it. -/
def State.Admitted (σ : State) : Prop :=
  ∀ i began q pc, σ.sessions[i]? = some ⟨began, .pay q pc⟩ → pc.isAdmitted = true ∨ σ.history.callsOf i ≠ [] →
    ∃ b ∈ σ.db.bookings, b.id = q.bookingId ∧ b.userId = q.userId

section
variable {cat : Catalog} {σ τ υ : State} {i j : Sid} {began now : Time} {s : Session} {t : Task} {e : Effect}
  {id u k : Uuid} {d d' : Db} {acts : List Act}

theorem PayMove.admitted_owner {q : PayRequest} {pc pc' : PayPc} (inv : Inv σ)
    (hs : σ.sessions[i]? = some ⟨began, .pay q pc⟩) (m : PayMove σ i began q pc e pc')
    (hadm : pc.isAdmitted = true ∨ σ.history.callsOf i ≠ [] → ∃ b ∈ σ.db.bookings, b.id = q.bookingId ∧
      b.userId = q.userId)
    (h : pc'.isAdmitted = true ∨ (σ.perform i e).history.callsOf i ≠ []) :
    ∃ b ∈ σ.db.bookings, b.id = q.bookingId ∧ b.userId = q.userId := by
  cases m with
  | located => exact hadm h
  | @admitted b free hb hid hu hst hexp =>
    have hview : σ.view i = σ.db := view_of_pending_nil ((inv.taskOk hs).pending_nil rfl)
    exact ⟨b, hview ▸ hb, hid, hu⟩
  | failed x he server =>
    refine hadm (Or.inr (h.resolve_left ?_))
    simp [PayPc.isAdmitted]
  | _ => exact hadm (Or.inl rfl)

theorem admitted_of_reachable (h : Reachable cat σ) : σ.Admitted := by
  have admitted : ∀ (i : Sid) s, σ.sessions[i]? = some s → ∀ began q pc, s = ⟨began, .pay q pc⟩ →
      pc.isAdmitted = true ∨ σ.history.callsOf i ≠ [] → ∃ b ∈ σ.db.bookings, b.id = q.bookingId ∧
      b.userId = q.userId := by
    refine sessions_of_reachable (P := fun σ i s => ∀ began q pc, s = ⟨began, .pay q pc⟩ →
      pc.isAdmitted = true ∨ σ.history.callsOf i ≠ [] → ∃ b ∈ σ.db.bookings, b.id = q.bookingId ∧
      b.userId = q.userId) h ?_ ?_ ?_ ?_
    · intro σ i r hr hnone began q pc hs hadm
      have silent := accounts_of_reachable hr i
      rw [State.AccountOk, hnone] at silent
      cases r <;> cases hs
      exact absurd silent.1 (hadm.resolve_left (by decide))
    · intro σ i s e t hr hs hp m began q pc ht hadm
      have kept := kept_perform (noDelete_of_reachable hr) i e
      cases ht
      cases m with
      | pay m => exact kept.owner (m.admitted_owner (inv_of_reachableBy hr) hs (hp _ _ _ rfl) hadm)
    · intro σ i j s s' e t hr _ m hji _ hp began q pc hs' hadm
      have kept := kept_perform (noDelete_of_reachable hr) i e
      refine kept.owner (hp began q pc hs' (hadm.imp_right fun hc => ?_))
      rwa [goto_history, perform_callsOf, filter_eq_nil_of_ne m.own_call hji, List.append_nil] at hc
    · intro σ τ i s hp hstore hhistory _
      rw [State.db, hstore, hhistory]
      exact hp
  exact fun i began q pc hs => admitted i _ hs began q pc rfl

/-! ### One result for the booking -/

/-- The hypotheses on a run. -/
def Retrying (id u k : Uuid) (σ : State) (a : Act) : Prop := RetriesWith id u k σ a ∧ InTime id u σ a

theorem State.OwnedBy.of_kept (h : τ.OwnedBy id u) (kept : σ.db.Kept τ.db) : σ.OwnedBy id u := by
  intro b hb hid
  obtain ⟨b', hb', hf⟩ := kept.bookings b hb
  rw [← Booking.userId_of_fixed hf]
  exact h b' hb' ((Booking.id_of_fixed hf).trans hid)

theorem Retrying.reachable (h : ReachableBy cat (Retrying id u k) σ) : Reachable cat σ := h.mono fun _ _ _ => trivial

/-- Every charge for the booking carries the key of the client. -/
theorem Retrying.key (h : ReachableBy cat (Retrying id u k) σ) (owned : σ.OwnedBy id u) {a : ChargeAnswer}
    (ha : a ∈ σ.history.answers) (hid : a.call.bookingId = id) : a.call.idempotencyKey = k := by
  have hr := Retrying.reachable h
  obtain ⟨began, q, pc, hs, hx⟩ := answered_of_mem (accounts_of_reachable hr) ha
  have hcalls : σ.history.callsOf a.call.session ≠ [] := by
    rw [hx.calls]
    exact List.cons_ne_nil _ _
  obtain ⟨b, hb, hbid, hbu⟩ := admitted_of_reachable hr _ _ _ _ hs (Or.inr hcalls)
  have hq : q.bookingId = id := hx.bookingId.symm.trans hid
  have keys := requests_of_reachable (P := fun r => ∀ q, r = .pay q → q.bookingId = id → q.userId = u →
    q.idempotencyKey = k) h (fun σ r allow q hq hid hu => by rw [hq] at allow; exact allow.1 hid hu)
  rw [hx.idempotencyKey]
  exact keys _ (List.mem_of_getElem? hs) q rfl hq (hbu.symm.trans (owned b hb (hbid.trans hq)))

/-- Every answer for the booking is the same one. -/
theorem Retrying.success (h : ReachableBy cat (Retrying id u k) σ) (owned : σ.OwnedBy id u) (holds : σ.Holds id)
    {a : ChargeAnswer} (ha : a ∈ σ.history.answers) (hid : a.call.bookingId = id) : a.result.status = .success := by
  obtain ⟨a', ha', hid', hst⟩ := holds
  have log := gatewayLog_of_reachable (Retrying.reachable h)
  have hl := log.cached a ha
  have hl' := log.cached a' ha'
  rw [Retrying.key h owned ha hid] at hl
  rw [Retrying.key h owned ha' hid', hl] at hl'
  rw [Option.some.inj hl']
  exact hst

/-! ### The booking is not cancelled -/

theorem not_cancelled_of_attempted {b : Booking} (inv : Inv σ) (hn : σ.NoDelete)
    (hc : Conforms ((σ.view i).ledger id) b .attempted) : ∀ b' ∈ σ.db.bookings, b'.id = id →
      b'.status ≠ .cancelled := by
  rintro b' hb' rfl hst
  obtain ⟨ph, -, hconf⟩ := inv.conforms_of_mem hb'
  have hview := hn.view i
  rcases hconf.cancelled_logged hst with hl | hl
  · obtain ⟨x, hx, hact⟩ := hc.trail_of_logged (hview.logged hl)
    simp only [Phase.trail, List.mem_cons, List.not_mem_nil, or_false] at hx
    rcases hx with rfl | rfl <;> cases hact
  · obtain ⟨x, hx, hact⟩ := hc.trail_of_logged (hview.logged hl)
    simp only [Phase.trail, List.mem_cons, List.not_mem_nil, or_false] at hx
    rcases hx with rfl | rfl <;> cases hact

/-- While the gateway holds a successful charge for the booking, it is not cancelled and no cleanup pass has selected
    it. -/
structure State.Safe (σ : State) (id : Uuid) : Prop where
  notCancelled : ∀ b ∈ σ.db.bookings, b.id = id → b.status ≠ .cancelled
  notSelected : ∀ (i : Sid) began pc, σ.sessions[i]? = some ⟨began, .cleanup pc⟩ →
    ∀ p ∈ (Task.cleanup pc).held, p.1.id ≠ id

/-- The call that brings the first success finds the booking safe: its session owns the row. -/
theorem safe_of_answer {q : PayRequest} {b : Booking} (inv : Inv σ) (hn : σ.NoDelete)
    (hs : σ.sessions[i]? = some ⟨began, .pay q (.charging b)⟩) : σ.Safe b.id where
  notCancelled := by
    obtain ⟨ph, hph, hc⟩ := (inv.taskOk hs).held (b, [.attempted]) (List.mem_singleton_self _)
    rw [List.mem_singleton.mp hph] at hc
    exact not_cancelled_of_attempted inv hn hc
  notSelected j began' pc hs' p hp hid := by
    have hown := Task.owned_of_held hp
    rw [hid] at hown
    have hij := inv.owner_unique hs hs' (List.mem_singleton_self _) hown
    rw [← hij, hs] at hs'
    cases hs'

/-- A commit leaves the booking as it was, or in a phase in which its session holds it. -/
theorem commit_status {b : Booking} (inv : Inv σ) (hs : σ.sessions[i]? = some s) (hb : b ∈ (σ.view i).bookings) :
    b ∈ σ.db.bookings ∨ ∃ p ∈ s.task.held, p.1 = b ∧ ∃ ph ∈ p.2, Conforms ((σ.view i).ledger b.id) b ph := by
  by_cases hheld : ∃ p ∈ s.task.held, p.1.id = b.id
  · obtain ⟨p, hp, hid⟩ := hheld
    obtain ⟨ph, hph, hc⟩ := (inv.taskOk hs).held p hp
    rw [hid] at hc
    obtain rfl := hc.eq_of_mem hb rfl
    exact Or.inr ⟨p, hp, rfl, ph, hph, hc⟩
  · have hledger := (inv.taskOk hs).ledger_view fun p hp hid => hheld ⟨p, hp, hid⟩
    have hmem : b ∈ ((σ.view i).ledger b.id).bookings := mem_ledger_bookings.mpr ⟨hb, rfl⟩
    rw [show (σ.view i).ledger b.id = σ.db.ledger b.id from hledger] at hmem
    exact Or.inl (mem_ledger_bookings.mp hmem).1

theorem confirmed_at_commit {q : PayRequest} {b : Booking} (inv : Inv σ) (acc : σ.AccountOk i)
    (hs : σ.sessions[i]? = some ⟨began, .pay q (.commit b)⟩)
    (success : ∀ a ∈ σ.history.answersOf i, a.result.status = .success) :
    Conforms ((σ.view i).ledger b.id) b .confirmed := by
  have hbq : b.id = q.bookingId ∧ b.userId = q.userId := (inv.taskOk hs).sound
  obtain ⟨a, hx, p, hp, hrec⟩ := acc.task hs
  obtain ⟨ph, hph, hc⟩ := (inv.taskOk hs).held (b, [.confirmed, .paymentFailed]) (List.mem_singleton_self _)
  simp only [List.mem_cons, List.not_mem_nil, or_false] at hph
  rcases hph with rfl | rfl
  · exact hc
  · obtain ⟨p', hps, hst, -, -⟩ : PaysFor b _ (some .failed) := hc.payments
    have hmem : p ∈ ((σ.view i).ledger b.id).payments := by
      refine mem_ledger_payments.mpr ⟨mem_payments_foldl.mpr (Or.inr hp), ?_⟩
      rw [hrec.bookingId, hx.bookingId, hbq.1]
    rw [show ((σ.view i).ledger b.id).payments = [p'] from hps, List.mem_singleton] at hmem
    have hsuccess := success a (hx.answers ▸ List.mem_singleton_self a)
    rw [← hrec.status, hmem, hst] at hsuccess
    cases hsuccess

theorem State.Safe.commit (h : σ.Safe id) (inv : Inv σ) (acc : σ.AccountOk i) (hs : σ.sessions[i]? = some s)
    (m : Move cat σ i s .commit t)
    (success : ∀ a ∈ σ.history.answers, a.call.bookingId = id → a.result.status = .success) :
    ∀ b ∈ (σ.view i).bookings, b.id = id → b.status ≠ .cancelled := by
  rintro b hb hid
  rcases commit_status inv hs hb with hb | ⟨p, hp, rfl, ph, hph, hc⟩
  · exact h.notCancelled b hb hid
  · rw [hc.status]
    cases m with
    | create m =>
      cases m with
      | committed =>
        rw [List.mem_singleton.mp hp, List.mem_singleton] at hph
        rw [hph]
        decide
    | pay m =>
      cases m with
      | @committed b =>
        obtain rfl := List.mem_singleton.mp hp
        have hbq : b.id = _ ∧ b.userId = _ := (inv.taskOk hs).sound
        have hconf := confirmed_at_commit inv acc hs fun a ha => by
          obtain ⟨a', hx, -⟩ := acc.task hs
          rw [hx.answers, List.mem_singleton] at ha
          rw [ha]
          exact success a' hx.mem (hx.bookingId.trans (hbq.1.symm.trans hid))
        rw [hc.phase_unique hconf]
        decide
    | refund m =>
      cases m with
      | committed =>
        rw [List.mem_singleton.mp hp, List.mem_singleton] at hph
        rw [hph]
        decide
    | cleanup m => exact absurd hid (h.notSelected i _ _ hs p hp)

/-- No statement of a cleanup pass selects a booking that is safe, as long as the pass finds it in time. -/
theorem State.Safe.selected {pc pc' : CleanupPc} (h : σ.Safe id) (hs : σ.sessions[i]? = some ⟨began, .cleanup pc⟩)
    (inTime : Session.FindsInTime id u σ i ⟨began, .cleanup pc⟩ ∨ e = .close) (m : CleanupMove σ i began pc e pc') :
    ∀ p ∈ (Task.cleanup pc').held, p.1.id ≠ id := by
  intro p hp
  cases m with
  | scanned =>
    obtain ⟨b, hb, rfl⟩ := List.mem_map.mp hp
    rcases inTime with inTime | he
    · exact inTime b hb
    · cases he
  | @flushed es =>
    obtain ⟨b', hb', rfl⟩ := List.mem_map.mp hp
    obtain ⟨b, hb, rfl⟩ := List.mem_map.mp hb'
    exact h.notSelected i _ _ hs (b, [.reserved]) (List.mem_map_of_mem hb)
  | committed => cases hp
  | failed e he => cases hp

theorem Retrying.safe (h : ReachableBy cat (Retrying id u k) σ) : σ.OwnedBy id u → σ.Holds id → σ.Safe id := by
  refine h.invariant (I := fun σ => σ.OwnedBy id u → σ.Holds id → σ.Safe id) ?_ ?_
  · rintro σ ⟨now, rfl⟩ - ⟨a, ha, -⟩
    cases ha
  · intro σ a τ hr hsafe allow hstep owned holds
    have hreach := Retrying.reachable hr
    have inv := inv_of_reachableBy hr
    have acc := accounts_of_reachable hreach
    have hn := noDelete_of_reachable hreach
    have owned := owned.of_kept (kept_step hn hstep)
    -- A move keeps the booking safe, and the move that brings the first success finds it safe.
    have moved : ∀ {i s e t}, σ.sessions[i]? = some s → Move cat σ i s e t →
        (σ.Holds id → s.FindsInTime id u σ i ∨ e = .close) → ((σ.perform i e).goto i s t).Holds id →
        ((σ.perform i e).goto i s t).Safe id := by
      intro i s e t hs m inTime ⟨x, hx, hid, hst⟩
      rw [goto_history, perform_answers] at hx
      by_cases held : σ.Holds id
      · have safe := hsafe owned held
        refine ⟨fun b hb hbid => ?_, fun j began pc hj p hp => ?_⟩
        · have hb : b ∈ (σ.perform i e).db.bookings := hb
          rcases perform_db σ i e with he | ⟨rfl, he⟩ <;> rw [he] at hb
          · exact safe.notCancelled b hb hbid
          · exact safe.commit inv (acc i) hs m (fun a ha hid => Retrying.success hr owned held ha hid) b hb hbid
        · rcases session_of_goto hs hj with ⟨rfl, ht⟩ | ⟨-, hj⟩
          · cases ht
            cases m with
            | cleanup m => exact safe.selected hs (inTime held) m p hp
          · exact safe.notSelected j began pc hj p hp
      · rcases List.mem_append.mp hx with hx | hx
        · exact absurd ⟨x, hx, hid, hst⟩ held
        · cases m with
          | pay m =>
            cases m with
            | @answered b c =>
              obtain rfl := List.mem_singleton.mp hx
              obtain rfl : b.id = id := hid
              have safe := safe_of_answer inv hn hs
              refine ⟨safe.notCancelled, fun j began' pc hj p hp => ?_⟩
              rcases session_of_goto hs hj with ⟨-, ht⟩ | ⟨-, hj⟩
              · cases ht
              · exact safe.notSelected j began' pc hj p hp
            | _ => cases hx
          | create m => cases m <;> cases hx
          | refund m => cases m <;> cases hx
          | cleanup m => cases m <;> cases hx
    cases step_stepped hstep with
    | request r =>
      refine ⟨(hsafe owned holds).notCancelled, fun j began pc hj p hp => ?_⟩
      rcases session_of_request hj with hj | ⟨-, ht⟩
      · exact (hsafe owned holds).notSelected j began pc hj p hp
      · cases r <;> cases ht
        cases hp
    | run hs hc m => exact moved hs m (fun holds => Or.inl (allow.2 holds _ hs)) holds
    | raise hs hr m => exact moved hs m (fun _ => Or.inr rfl) holds
    | tick d => exact ⟨(hsafe owned holds).notCancelled, (hsafe owned holds).notSelected⟩
    | updateConfig failureRate latencyMs =>
      exact ⟨(hsafe owned holds).notCancelled, (hsafe owned holds).notSelected⟩

/-! ### Refunds are requested -/

/-- Every audit entry of a refund, committed or pending, is about a booking for which a refund was requested. -/
structure State.RefundsTraced (σ : State) : Prop where
  committed : ∀ a ∈ σ.db.auditTrail, a.action = .refunded → σ.RefundRequested a.bookingId
  pending : ∀ i a, .insertAudit a ∈ σ.store.pending i → a.action = .refunded → σ.RefundRequested a.bookingId

theorem Move.refund_requested {rs : List Resource} {ws : List Write} {n : Nat} {a : AuditTrail} (inv : Inv σ)
    (hs : σ.sessions[i]? = some s) (m : Move cat σ i s (.flush rs ws n) t) (ha : .insertAudit a ∈ ws)
    (hact : a.action = .refunded) : σ.RefundRequested a.bookingId := by
  cases m with
  | create m =>
    cases m with
    | audited =>
      simp only [List.mem_singleton, Write.insertAudit.injEq] at ha
      rw [ha] at hact
      cases hact
    | _ => simp at ha
  | pay m =>
    cases m with
    | attempted =>
      simp only [List.mem_singleton, Write.insertAudit.injEq] at ha
      rw [ha] at hact
      cases hact
    | recorded free hk =>
      unfold payWrites at ha
      split at ha <;> simp at ha <;> rw [ha] at hact <;> cases hact
  | refund m =>
    cases m with
    | @recorded b x =>
      have hbq : b.id = _ ∧ b.userId = _ := (inv.taskOk hs).sound
      simp only [refundWrites, List.mem_cons, reduceCtorEq, Write.insertAudit.injEq, List.not_mem_nil, or_false,
        false_or] at ha
      rw [ha]
      exact ⟨_, List.mem_of_getElem? hs, _, rfl, hbq.1.symm⟩
  | cleanup m =>
    cases m with
    | flushed =>
      rcases List.mem_append.mp ha with ha | ha <;> obtain ⟨_, -, ha⟩ := List.mem_map.mp ha <;> cases ha
      cases hact

theorem State.RefundRequested.step {a : Act} (h : σ.RefundRequested id) (hstep : step cat σ a = some τ) :
    τ.RefundRequested id := by
  obtain ⟨s, hs, q, hq, hid⟩ := h
  have moved : ∀ {i x e t}, σ.sessions[i]? = some x → Move cat σ i x e t →
      ∃ s' ∈ ((σ.perform i e).goto i x t).sessions, s'.task.request = s.task.request := by
    intro i x e t hx m
    obtain ⟨j, hj⟩ := List.mem_iff_getElem?.mp hs
    by_cases hji : j = i
    · subst hji
      rw [hx] at hj
      cases hj
      exact ⟨_, List.mem_of_getElem? (goto_sessions_self hx), m.request⟩
    · exact ⟨s, List.mem_of_getElem? ((goto_sessions_ne hji).trans hj), rfl⟩
  have kept : ∃ s' ∈ τ.sessions, s'.task.request = s.task.request := by
    cases step_stepped hstep with
    | request r => exact ⟨s, List.mem_append_left _ hs, rfl⟩
    | run hs hc m => exact moved hs m
    | raise hs hr m => exact moved hs m
    | tick d => exact ⟨s, hs, rfl⟩
    | updateConfig failureRate latencyMs => exact ⟨s, hs, rfl⟩
  obtain ⟨s', hs', hreq⟩ := kept
  exact ⟨s', hs', q, hreq.trans hq, hid⟩

theorem refundsTraced_of_reachable (h : Reachable cat σ) : σ.RefundsTraced := by
  refine h.invariant ?_ ?_
  · rintro σ ⟨now, rfl⟩
    refine ⟨fun a ha => ?_, fun i a ha => ?_⟩ <;> cases ha
  · intro σ a τ hr ht _ hstep
    have inv := inv_of_reachableBy hr
    have moved : ∀ {i s e t}, σ.sessions[i]? = some s → Move cat σ i s e t → τ = (σ.perform i e).goto i s t →
        τ.RefundsTraced := by
      rintro i s e t hs m rfl
      refine ⟨fun x hx hact => ?_, fun j x hx hact => ?_⟩
      · have hx : x ∈ (σ.perform i e).db.auditTrail := hx
        rcases perform_db σ i e with he | ⟨-, he⟩ <;> rw [he] at hx
        · exact (ht.committed x hx hact).step hstep
        · rcases mem_auditTrail_foldl.mp hx with hx | hx
          · exact (ht.committed x hx hact).step hstep
          · exact (ht.pending i x hx hact).step hstep
      · rcases pending_of_perform hx with hold | ⟨rfl, rs, ws, n, rfl, hnew⟩
        · exact (ht.pending j x hold hact).step hstep
        · exact (m.refund_requested inv hs hnew hact).step hstep
    have still : τ.db = σ.db → τ.store.pending = σ.store.pending → τ.RefundsTraced := fun hd hp =>
      ⟨fun x hx hact => (ht.committed x (hd ▸ hx) hact).step hstep,
       fun j x hx hact => (ht.pending j x (hp ▸ hx) hact).step hstep⟩
    cases step_stepped hstep with
    | request r => exact still rfl rfl
    | run hs hc m => exact moved hs m rfl
    | raise hs hr m => exact moved hs m rfl
    | tick d => exact still rfl rfl
    | updateConfig failureRate latencyMs => exact still rfl rfl

/-! ### Answers to the client -/

/-- A booking that is past its payment, under the key of the client. -/
theorem Retrying.confirmedUnder {b : Booking} (h : ReachableBy cat (Retrying id u k) σ) (owned : σ.OwnedBy id u)
    (hb : b ∈ σ.db.bookings) (hid : b.id = id) (hst : b.status = .confirmed ∨ b.status = .refunded) :
    σ.ConfirmedUnder id k := by
  have hr := Retrying.reachable h
  obtain ⟨ph, hph, hc⟩ := (inv_of_reachableBy h).conforms_of_mem hb
  rw [hid] at hc
  have hpay : ph.payment = some .success := by
    rw [hc.status] at hst
    cases ph <;> simp [Phase.status, Phase.payment] at hst ⊢
  have hps := hc.payments
  rw [hpay] at hps
  obtain ⟨p, hps, hpst, -, -⟩ := hps
  obtain ⟨hp, hpid⟩ := mem_ledger_payments.mp (hps ▸ List.mem_singleton_self p)
  obtain ⟨a, ha, hrec⟩ := (traced_of_reachable hr).committed p hp
  have hkey := Retrying.key h owned ha (hrec.bookingId.symm.trans hpid)
  refine ⟨⟨b, hb, hid, hst.imp_right fun hst => ⟨hst, ?_⟩⟩, p, hp, hpid, hrec.idempotencyKey.trans hkey, hpst⟩
  -- A refunded booking has an audit entry that says so, and a refund wrote it.
  have hphase : ph = .refunded := by
    have := hc.status.symm.trans hst
    cases ph <;> simp [Phase.status] at this ⊢
  subst hphase
  obtain ⟨x, hx, hxid, hact⟩ := hc.logged (x := ⟨.refunded, some .confirmed, .refunded, b.userId⟩)
    (by simp [Phase.trail])
  exact hxid ▸ (refundsTraced_of_reachable hr).committed x hx hact

/-- How `pay_booking` answers with an error that is not a server error. -/
theorem payBooking_http {q : PayRequest} {x : Choice} {pc : PayPc} {y : Exc}
    (h : payBooking σ i began q x pc = some (e, .finished (.error y))) (hy : y.isServerError = false) :
    (pc = .lockBooking ∨ pc = .awaitBooking) ∧ (σ.view i).booking? q.bookingId = none ∨
      pc = .awaitBooking ∧ ∃ b, (σ.view i).booking? q.bookingId = some b ∧
        (b.userId ≠ q.userId ∨ b.status ≠ .reserved ∨ (b.status = .reserved ∧ b.expiresAt.any (· < σ.now) = true)) := by
  cases pc with
  | lockBooking =>
    simp only [payBooking] at h
    split at h <;> cases h
    rename_i hnone
    exact Or.inl ⟨Or.inl rfl, hnone⟩
  | awaitBooking =>
    simp only [payBooking] at h
    split at h
    · split at h
      · rename_i hnone
        exact Or.inl ⟨Or.inr rfl, hnone⟩
      · rename_i b hsome
        refine Or.inr ⟨rfl, b, hsome, ?_⟩
        split at h
        · rename_i hu
          exact Or.inl hu
        · split at h
          · rename_i hst
            exact Or.inr (Or.inl hst)
          · rename_i hst
            split at h
            · rename_i hexp
              exact Or.inr (Or.inr ⟨not_not.mp hst, hexp⟩)
            · cases h
    · cases h
  | checkPayment b =>
    simp only [payBooking] at h
    split at h <;> cases h
    rename_i herr
    rw [scalarOneOrNone_error herr] at hy
    cases hy
  | record b r t =>
    simp only [payBooking] at h
    split at h
    · split at h <;> cases h
      cases hy
    · cases h
  | _ => cases h

theorem stored_of_holds (hr : Reachable cat σ) (holds : σ.Holds id) : ∃ b ∈ σ.db.bookings, b.id = id := by
  obtain ⟨a, ha, rfl, -⟩ := holds
  obtain ⟨began, q, pc, hs, hx⟩ := answered_of_mem (accounts_of_reachable hr) ha
  have hcalls : σ.history.callsOf a.call.session ≠ [] := by
    rw [hx.calls]
    exact List.cons_ne_nil _ _
  obtain ⟨b, hb, hbid, -⟩ := admitted_of_reachable hr _ _ _ _ hs (Or.inr hcalls)
  exact ⟨b, hb, hbid.trans hx.bookingId.symm⟩

/-- An attempt that is answered while the gateway holds a success finds the booking past its payment. -/
theorem Retrying.answered {q : PayRequest} {pc : PayPc} {r : Except Exc Booking} {x : Choice}
    (h : ReachableBy cat (Retrying id u k) σ) (owned : σ.OwnedBy id u) (holds : σ.Holds id)
    (hs : σ.sessions[i]? = some ⟨began, .pay q pc⟩) (inTime : Session.FindsInTime id u σ i ⟨began, .pay q pc⟩)
    (hc : payBooking σ i began q x pc = some (e, .finished r)) (hq : q.bookingId = id) (hu : q.userId = u)
    (hans : IsAnswer r) : ∃ b ∈ σ.db.bookings, b.id = id ∧ (b.status = .confirmed ∨ b.status = .refunded) := by
  have hr := Retrying.reachable h
  have inv := inv_of_reachableBy h
  have ok := inv.taskOk hs
  have acc := accounts_of_reachable hr
  obtain ⟨b, hb, hid⟩ := stored_of_holds hr holds
  have hfound : σ.db.booking? q.bookingId = some b := by
    rw [hq, ← hid]
    exact inv.booking?_eq hb
  cases payBooking_move hc with
  | @replayed b' p hp hkey =>
    -- The payment under the key is one for this booking, and the session holds the booking unpaid.
    have silent : σ.history.Silent i := (acc i).task hs
    have hp : p ∈ σ.db.payments := by
      rcases mem_payments_foldl.mp hp with hp | hp
      · exact hp
      · obtain ⟨a, ha, -⟩ := (traced_of_reachable hr).pending i p hp
        rw [silent.2] at ha
        cases ha
    have hbq : b'.id = q.bookingId ∧ b'.userId = q.userId := ok.sound
    obtain ⟨ph, hph, hconf⟩ := ok.held (b', [.reserved]) (List.mem_singleton_self _)
    rw [List.mem_singleton.mp hph] at hconf
    have hnil : ((σ.view i).ledger b'.id).payments = [] := hconf.payments
    have hmem : p ∈ ((σ.view i).ledger b'.id).payments :=
      mem_ledger_payments.mpr ⟨view_payments hp, (inTime hq hu p hp hkey).trans (hq.symm.trans hbq.1.symm)⟩
    rw [hnil] at hmem
    cases hmem
  | invalidated =>
    obtain ⟨a, hx, p, hp, hrec⟩ := (acc i).task hs
    have hsuccess := Retrying.success h owned holds hx.mem (hx.bookingId.trans hq)
    obtain ⟨b', hb', hid', hst, -⟩ := inv.paid_success hp (hrec.status.trans hsuccess)
    exact ⟨b', hb', hid'.trans (hrec.bookingId.trans (hx.bookingId.trans hq)), hst⟩
  | failed y hst server =>
    have view : (pc = .lockBooking ∨ pc = .awaitBooking) → σ.view i = σ.db := by
      rintro (rfl | rfl) <;> exact view_of_pending_nil (ok.pending_nil rfl)
    rcases payBooking_http hc hans with ⟨hpc, hnone⟩ | ⟨rfl, b', hsome, hwhy⟩
    · rw [view hpc, hfound] at hnone
      cases hnone
    · rw [view (Or.inr rfl), hfound] at hsome
      obtain rfl := Option.some.inj hsome
      rcases hwhy with hwho | hst | ⟨hst, hexp⟩
      · exact absurd ((owned b hb hid).trans hu.symm) hwho
      · have hsafe := (Retrying.safe h owned holds).notCancelled b hb hid
        refine ⟨b, hb, hid, ?_⟩
        cases hb' : b.status with
        | reserved => exact absurd hb' hst
        | confirmed => exact Or.inl rfl
        | cancelled => exact absurd hb' hsafe
        | refunded => exact Or.inr rfl
      · rw [inTime hq hu b hb hid hst] at hexp
        cases hexp

theorem State.ConfirmedUnder.step {a : Act} (h : σ.ConfirmedUnder id k) (hstep : step cat σ a = some τ)
    (hdb : τ.db = σ.db) :
    τ.ConfirmedUnder id k := by
  obtain ⟨⟨b, hb, hid, hst⟩, hp⟩ := h
  rw [State.ConfirmedUnder, hdb]
  exact ⟨⟨b, hb, hid, hst.imp_right (And.imp_right fun hreq => hreq.step hstep)⟩, hp⟩

theorem PayMove.closes {q : PayRequest} {pc : PayPc} {r : Except Exc Booking}
    (m : PayMove σ i began q pc e (.finished r)) :
    e = .close := by
  cases m <;> rfl

theorem Retrying.notStranding (h : ReachableBy cat (Retrying id u k) σ) {a : Act} (allow : Retrying id u k σ a)
    (hstep : step cat σ a = some τ) (owned : τ.OwnedBy id u) : NotStranding id u k σ a τ where
  notCancelled holds := (Retrying.safe (h.next allow hstep) owned holds).notCancelled
  confirmed i x s began q r ha hs hτ hq hu holds hans := by
    subst ha
    have hn := noDelete_of_reachable (Retrying.reachable h)
    have before := owned.of_kept (kept_step hn hstep)
    obtain ⟨s', hs', hrun⟩ := Option.bind_eq_some_iff.mp hstep
    obtain ⟨⟨e, t⟩, hc, hrun⟩ := Option.bind_eq_some_iff.mp hrun
    obtain rfl := Option.some.inj (hs'.symm.trans hs)
    obtain rfl := Option.some.inj hrun
    rw [goto_sessions_self hs] at hτ
    cases hτ
    have inTime := allow.2 holds _ hs
    cases statement_move hc with
    | pay m =>
      simp only [Session.statement, Option.map_eq_some_iff, Prod.mk.injEq, Prod.exists] at hc
      obtain ⟨_, _, hc, rfl, he⟩ := hc
      cases he
      obtain ⟨b, hb, hid, hst⟩ := Retrying.answered h before holds hs inTime hc hq hu hans
      obtain rfl := m.closes
      exact (Retrying.confirmedUnder h before hb hid hst).step hstep rfl

/-- In every run in which a client retries with one key, and every decision about the booking is in time while the
    gateway holds a successful charge for it, no step strands a charge. -/
theorem never_strands (along : Along (step cat) (Retrying id u k) (.seeded now) acts)
    (run : exec (step cat) (.seeded now) acts = some υ) (owned : υ.OwnedBy id u) :
    StrandsNothing cat id u k (.seeded now) acts := by
  rintro pre a post ρ τ rfl hpre hstep
  obtain ⟨along, allow⟩ := along.split hpre
  have hρ : ReachableBy cat (Retrying id u k) ρ := (Reach.start ⟨now, rfl⟩).exec along hpre
  have hτ : Reachable cat τ := (Retrying.reachable hρ).next trivial hstep
  have hpost : exec (step cat) τ post = some υ := by
    rw [exec_append, hpre, Option.bind_some, exec_cons, hstep, Option.bind_some] at run
    exact run
  exact Retrying.notStranding hρ allow hstep (owned.of_kept (kept_exec hτ hpost))

/-! ### Runs with a lost commit -/

instance (id u k : Uuid) (σ : State) : (a : Act) → Decidable (RetriesWith id u k σ a)
  | .request (.pay _) => inferInstanceAs (Decidable (_ → _ → _))
  | .request (.create _) | .request (.refund _) | .request .cleanup => isTrue trivial
  | .raise _ | .run _ _ | .tick _ | .updateConfig _ _ => isTrue trivial

instance (σ : State) (id : Uuid) : Decidable (σ.Holds id) := inferInstanceAs (Decidable (∃ _ ∈ _, _))

instance (id u : Uuid) (σ : State) (i : Sid) : (s : Session) → Decidable (s.FindsInTime id u σ i)
  | ⟨_, .pay _ .awaitBooking⟩ | ⟨_, .pay _ (.checkPayment _)⟩ => inferInstanceAs (Decidable (_ → _ → _))
  | ⟨_, .cleanup .scan⟩ => inferInstanceAs (Decidable (∀ _ ∈ _, _))
  | ⟨_, .pay _ .lockBooking⟩ | ⟨_, .pay _ (.attempt _)⟩ | ⟨_, .pay _ (.charge _)⟩ | ⟨_, .pay _ (.charging _)⟩
  | ⟨_, .pay _ (.record _ _ _)⟩ | ⟨_, .pay _ (.commit _)⟩ | ⟨_, .pay _ (.invalidate _)⟩ | ⟨_, .pay _ (.finished _)⟩
  | ⟨_, .cleanup (.flush _)⟩ | ⟨_, .cleanup (.commit _)⟩ | ⟨_, .cleanup (.finished _)⟩
  | ⟨_, .create _ _⟩ | ⟨_, .refund _ _⟩ => isTrue trivial

instance (id u : Uuid) (σ : State) : (a : Act) → Decidable (InTime id u σ a)
  | .run i _ =>
    match h : σ.sessions[i]? with
    | none => isTrue fun _ s hs => by cases h.symm.trans hs
    | some s => decidable_of_iff (σ.Holds id → s.FindsInTime id u σ i) (by simp [InTime, h])
  | .request _ | .raise _ | .tick _ | .updateConfig _ _ => isTrue trivial

instance (id u k : Uuid) (σ : State) (a : Act) : Decidable (Retrying id u k σ a) := inferInstanceAs (Decidable (_ ∧ _))

/-- The first attempt to pay is charged and loses its commit. -/
def lostCommitRun : List Act :=
  .request (.create ⟨1, 20, 40, 50, none⟩) :: runs 0 9 60 ++ .request (.pay ⟨60, 1, 70, none⟩) :: runs 1 7 80 ++
  [.raise 1]

/-- The client retries at once. -/
def retryRun : List Act := lostCommitRun ++ .request (.pay ⟨60, 1, 70, none⟩) :: runs 2 9 80

theorem never_strands_retry : ∃ υ : State, exec (step sampleCatalog) (.seeded 0) retryRun = some υ ∧
    υ.ConfirmedUnder 60 70 ∧
    StrandsNothing sampleCatalog 60 1 70 (.seeded 0) retryRun := by
  have along : Along (step sampleCatalog) (Retrying 60 1 70) (.seeded 0) retryRun := by decide
  have hrun : (exec (step sampleCatalog) (.seeded 0) retryRun).any (fun υ : State =>
      (υ.db.bookings.all fun b => b.userId = 1) && (υ.db.bookings.any fun b => b.id = 60 ∧ b.status = .confirmed) &&
        υ.db.payments.any fun p => p.bookingId = 60 ∧ p.idempotencyKey = 70 ∧ p.status = .success) = true := by decide
  obtain ⟨υ, run, htest⟩ := (Option.any_eq_true _ _).mp hrun
  simp only [Bool.and_eq_true, List.all_eq_true, List.any_eq_true, decide_eq_true_eq] at htest
  obtain ⟨⟨howned, b, hb, hid, hst⟩, hp⟩ := htest
  exact ⟨υ, run, ⟨⟨b, hb, hid, Or.inl hst⟩, hp⟩, never_strands along run fun b hb _ => howned b hb⟩

/-- The reservation expires, a cleanup pass runs, and the client retries with the same key. -/
def strandedRun : List Act :=
  lostCommitRun ++ [.tick 600000000, .request .cleanup] ++ runs 2 3 80 ++
  .request (.pay ⟨60, 1, 70, none⟩) :: runs 3 2 80

/-- The booking is cancelled while the gateway holds the charge. -/
theorem charge_stranded : ¬∀ (cat : Catalog) (id u k : Uuid) (now : Time) (acts : List Act) (υ : State),
    Along (step cat) (RetriesWith id u k) (.seeded now) acts → exec (step cat) (.seeded now) acts = some υ →
    υ.OwnedBy id u → StrandsNothing cat id u k (.seeded now) acts := by
  intro h
  have along : Along (step sampleCatalog) (RetriesWith 60 1 70) (.seeded 0) strandedRun := by decide
  have hrun : (exec (step sampleCatalog) (.seeded 0) strandedRun).any (fun υ : State =>
      decide (υ.Holds 60) && (υ.db.bookings.all fun b => b.userId = 1) &&
        υ.db.bookings.any fun b => b.id = 60 ∧ b.status = .cancelled) = true := by decide
  obtain ⟨υ, run, htest⟩ := (Option.any_eq_true _ _).mp hrun
  simp only [Bool.and_eq_true, List.all_eq_true, List.any_eq_true, decide_eq_true_eq] at htest
  obtain ⟨⟨holds, howned⟩, b, hb, hid, hst⟩ := htest
  have strands := h sampleCatalog 60 1 70 0 strandedRun υ along run fun b hb _ => howned b hb
  obtain ⟨pre, a, hacts⟩ : ∃ pre a, strandedRun = pre ++ [a] := ⟨strandedRun.dropLast, .run 3 ⟨80, 0, 80⟩, by decide⟩
  rw [hacts, exec_append] at run
  obtain ⟨ρ, hpre, hlast⟩ := Option.bind_eq_some_iff.mp run
  rw [exec_cons] at hlast
  obtain ⟨τ, hstep, hlast⟩ := Option.bind_eq_some_iff.mp hlast
  obtain rfl := Option.some.inj hlast
  exact (strands pre a [] ρ τ hacts hpre hstep).notCancelled holds b hb hid hst

end

end Railbook
