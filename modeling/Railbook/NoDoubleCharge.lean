import Railbook.Charges

/-! A booking is charged once, and what the gateway answered is what becomes of it, as long as commits succeed and
    no payment key is used for two bookings. -/

namespace Railbook
open ReadCommitted Transition

/-- `session.commit()` of `pay_booking` is under way, with the flush that it makes. -/
def Task.isCommittingPay : Task → Bool
  | .pay _ (.record _ _ _) | .pay _ (.commit _) => true
  | _ => false

/-- Commits of `pay_booking` succeed. -/
def CommitSucceeds (σ : State) : Act → Prop
  | .raise i => (σ.sessions[i]?).all fun s => !s.task.isCommittingPay
  | _ => True

/-- If `q'` pays with the key of `q`, it pays for the booking of `q`. -/
def Request.Agrees (q : PayRequest) : Request → Prop
  | .pay q' => q'.idempotencyKey = q.idempotencyKey → q'.bookingId = q.bookingId
  | _ => True

/-- A payment key is sent for one booking only. -/
def KeyOfOneBooking (σ : State) : Act → Prop
  | .request (.pay q) => ∀ s ∈ σ.sessions, s.task.request.Agrees q
  | _ => True

/-- Commits of payments succeed, and every payment key is for one booking. -/
def Charging (σ : State) (a : Act) : Prop := CommitSucceeds σ a ∧ KeyOfOneBooking σ a

instance (q : PayRequest) : (r : Request) → Decidable (r.Agrees q)
  | .pay _ => inferInstanceAs (Decidable (_ → _))
  | .create _ | .refund _ | .cleanup => isTrue trivial

instance (σ : State) : (a : Act) → Decidable (CommitSucceeds σ a)
  | .raise _ => inferInstanceAs (Decidable (_ = true))
  | .request _ | .run _ _ | .tick _ | .updateConfig _ _ => isTrue trivial

instance (σ : State) : (a : Act) → Decidable (KeyOfOneBooking σ a)
  | .request (.pay _) => inferInstanceAs (Decidable (∀ s ∈ σ.sessions, _))
  | .request (.create _) | .request (.refund _) | .request .cleanup => isTrue trivial
  | .raise _ | .run _ _ | .tick _ | .updateConfig _ _ => isTrue trivial

instance (σ : State) (a : Act) : Decidable (Charging σ a) := inferInstanceAs (Decidable (_ ∧ _))

/-- Booking `id` is in the tables with `P`, or it will be after at most two more statements of session `i`, which no
    other session delays. -/
def State.Becomes (cat : Catalog) (σ : State) (i : Sid) (id : Uuid) (P : Db → Booking → Prop) : Prop :=
  ∃ n ≤ 2, ∀ x : Choice, ∃ τ, exec (step cat) σ (List.replicate n (.run i x)) = some τ ∧
    ∃ b ∈ τ.db.bookings, b.id = id ∧ P τ.db b

/-- What a booking and its charges have to do with each other. -/
structure ChargeLaw (cat : Catalog) (σ : State) (id : Uuid) : Prop where
  once : (σ.history.calls.filter (·.bookingId = id)).length ≤ 1
  success : ∀ a ∈ σ.history.answers, a.call.bookingId = id → a.result.status = .success →
    σ.Becomes cat a.call.session id fun d b => (b.status = .confirmed ∨ b.status = .refunded) ∧ d.Logged id .confirmed
  failed : ∀ a ∈ σ.history.answers, a.call.bookingId = id → a.result.status = .failed →
    σ.Becomes cat a.call.session id fun d b => b.status = .cancelled ∧ d.Logged id .paymentFailed
  kept : ∀ acts τ, exec (step cat) σ acts = some τ → ∀ b ∈ σ.db.bookings, b.id = id → ∃ b' ∈ τ.db.bookings, b'.id = id ∧
    (b.status = .confirmed → b'.status = .confirmed ∨ b'.status = .refunded) ∧
    (b.status = .refunded → b'.status = .refunded) ∧ (b.status = .cancelled → b'.status = .cancelled)
  expired : σ.db.Logged id .expiredCleanup → ∀ c ∈ σ.history.calls, c.bookingId ≠ id

section
variable {cat : Catalog} {σ τ : State} {i j : Sid} {began : Time} {s : Session} {t : Task} {e : Effect} {c : ChargeCall}
  {q q' : PayRequest} {b : Booking}

/-! ### One booking for every key -/

/-- Sessions that pay with one key pay for one booking. -/
def State.Keyed (σ : State) : Prop :=
  ∀ s ∈ σ.sessions, ∀ s' ∈ σ.sessions, ∀ q q', s.task.request = .pay q → s'.task.request = .pay q' →
    q.idempotencyKey = q'.idempotencyKey → q.bookingId = q'.bookingId

theorem keyed_of_reachable (h : ReachableBy cat KeyOfOneBooking σ) : σ.Keyed := by
  refine h.invariant (I := State.Keyed) ?_ ?_
  · rintro σ ⟨now, rfl⟩ s hs
    cases hs
  · intro σ a τ _ hk allow hstep s hs s' hs' q q' hq hq' hkey
    rcases step_origin hstep s hs with ⟨r, hr, hreq⟩ | rfl <;> rcases step_origin hstep s' hs' with ⟨r', hr', hreq'⟩
      | ha
    · exact hk r hr r' hr' q q' (hreq.trans hq) (hreq'.trans hq') hkey
    · rw [ha, hq'] at allow
      have hagree := allow r hr
      rw [hreq, hq] at hagree
      exact hagree hkey
    · rw [hq] at allow
      have hagree := allow r' hr'
      rw [hreq', hq'] at hagree
      exact (hagree hkey.symm).symm
    · rw [Act.request.injEq, hq, hq', Request.pay.injEq] at ha
      rw [ha]

/-! ### Commits of payments pass -/

/-- No payment is stored under the key with which a session is about to insert one: it would be a payment for the
    booking that the session holds as reserved. -/
theorem unpaid_at_record {r : PaymentResult} {x : Time} (inv : Inv σ) (acc : ∀ i, σ.AccountOk i) (traced : σ.Traced)
    (keyed : σ.Keyed) (hs : σ.sessions[i]? = some ⟨began, .pay q (.record b r x)⟩) :
    ∀ p ∈ (σ.view i).payments, p.idempotencyKey ≠ q.idempotencyKey := by
  intro p hp hkey
  have ok := inv.taskOk hs
  have hbq : (b.id = q.bookingId ∧ b.userId = q.userId) ∧ r.Sound := ok.sound
  have htraced : ∃ a ∈ σ.history.answers, p.Records a.call a.result := by
    rcases mem_payments_foldl.mp hp with hp | hp
    · exact traced.committed p hp
    · obtain ⟨a, ha, hr⟩ := traced.pending i p hp
      exact ⟨a, (mem_answersOf.mp ha).1, hr⟩
  obtain ⟨a, ha, hr⟩ := htraced
  obtain ⟨began', q', pc, hs', hx⟩ := answered_of_mem acc ha
  have hsame : q'.bookingId = q.bookingId := by
    refine keyed _ (List.mem_of_getElem? hs') _ (List.mem_of_getElem? hs) q' q rfl rfl ?_
    rw [← hx.idempotencyKey, ← hr.idempotencyKey, hkey]
  have hid : p.bookingId = b.id := by rw [hr.bookingId, hx.bookingId, hsame, hbq.1.1]
  obtain ⟨ph, hph, hconf⟩ := ok.held (b, [.attempted]) (List.mem_singleton_self _)
  rw [List.mem_singleton.mp hph] at hconf
  have hnil : ((σ.view i).ledger b.id).payments = [] := hconf.payments
  have hmem : p ∈ ((σ.view i).ledger b.id).payments := mem_ledger_payments.mpr ⟨hp, hid⟩
  rw [hnil] at hmem
  cases hmem

theorem owned_paymentKey {k : Uuid} (h : .paymentKey k ∈ t.owned) : ∃ q b, t = .pay q (.commit b) ∧
    q.idempotencyKey = k := by
  unfold Task.owned at h
  split at h <;> simp at h
  exact ⟨_, _, rfl, h.symm⟩

theorem free_at_record {r : PaymentResult} {x : Time} (inv : Inv σ) (keyed : σ.Keyed)
    (hs : σ.sessions[i]? = some ⟨began, .pay q (.record b r x)⟩) : σ.store.Free i (.paymentKey q.idempotencyKey) := by
  cases ho : σ.store.owner (.paymentKey q.idempotencyKey) with
  | none => exact Or.inl ho
  | some j =>
    have hown := (inv.own j _).mp ho
    unfold State.owned at hown
    cases hs' : σ.sessions[j]? with
    | none =>
      rw [hs'] at hown
      cases hown
    | some s' =>
      rw [hs'] at hown
      obtain ⟨began', t'⟩ := s'
      obtain ⟨q', b', rfl, hkey⟩ := owned_paymentKey hown
      have hb' : b'.id = q'.bookingId ∧ b'.userId = q'.userId := (inv.taskOk hs').sound
      have hb : (b.id = q.bookingId ∧ b.userId = q.userId) ∧ r.Sound := (inv.taskOk hs).sound
      have hsame : q'.bookingId = q.bookingId :=
        keyed _ (List.mem_of_getElem? hs') _ (List.mem_of_getElem? hs) q' q rfl rfl hkey
      have hji : j = i := by
        refine inv.owner_unique hs' hs (r := .bookingRow b.id) ?_ (List.mem_singleton_self _)
        simp [Task.owned, hb'.1, hb.1.1, hsame]
      exact Or.inr (hji ▸ ho)

theorem record_passes {r : PaymentResult} {x : Time} (inv : Inv σ) (acc : ∀ i, σ.AccountOk i) (traced : σ.Traced)
    (keyed : σ.Keyed) (hs : σ.sessions[i]? = some ⟨began, .pay q (.record b r x)⟩) (y : Choice) :
    payBooking σ i began q y (.record b r x) = some (.flush [.paymentKey q.idempotencyKey]
      (payWrites began σ.nextAuditId q b r x) 1, .commit (r.book b x)) := by
  have hfree := free_at_record inv keyed hs
  have hany : ((σ.view i).payments.any fun p => p.idempotencyKey = q.idempotencyKey) = false := by
    rw [List.any_eq_false]
    intro p hp
    simpa using unpaid_at_record inv acc traced keyed hs p hp
  simp only [payBooking, hfree, if_true, hany, Bool.false_eq_true, if_false]

theorem Charging.keyed (h : ReachableBy cat Charging σ) : σ.Keyed := keyed_of_reachable (h.mono fun _ _ => And.right)

theorem Charging.reachable (h : ReachableBy cat Charging σ) : Reachable cat σ := h.mono fun _ _ _ => trivial

/-- A move that loses a charge is a failure of the flush or of the commit of `pay_booking`. -/
theorem Move.loses {x : Exc} {a : ChargeAnswer} (hs : σ.sessions[i]? = some s) (acc : σ.AccountOk i)
    (m : Move cat σ i s e (.pay q (.finished (.error x)))) (ha : a ∈ σ.history.answersOf i) :
    e = .close ∧ s.task.isCommittingPay = true := by
  have hok := acc.task hs
  have loud : ¬σ.history.Silent i := fun h => by
    rw [h.2] at ha
    cases ha
  cases m with
  | pay m =>
    cases m with
    | failed _ he server =>
      rename_i pc
      refine ⟨rfl, ?_⟩
      cases pc with
      | record b r t => rfl
      | commit b => rfl
      | charge b => cases he
      | charging b => cases he
      | invalidate b => cases he
      | finished r => cases he
      | _ => exact absurd hok loud

theorem Charging.no_loss (h : ReachableBy cat Charging σ) : ∀ c, ¬σ.Lost c := by
  refine h.invariant (I := fun σ => ∀ c, ¬σ.Lost c) ?_ ?_
  · rintro σ ⟨now, rfl⟩ c ⟨⟨a, ha, -⟩, -⟩
    cases ha
  · intro σ a τ hr hn allow hstep c hl
    have inv := inv_of_reachableBy hr
    have acc := accounts_of_reachable (Charging.reachable hr)
    -- A charge that is lost now and was not before is one of the session that moved.
    have moved : ∀ {i s e t}, σ.sessions[i]? = some s → Move cat σ i s e t → ((σ.perform i e).goto i s t).Lost c →
        e = .close ∧ s.task.isCommittingPay = true ∧ ∃ q x, t = .pay q (.finished (.error x)) := by
      rintro i s e t hs m ⟨⟨a, ha, hcall⟩, began, q, x, hs', hx⟩
      rw [goto_history, perform_answers] at ha
      rcases session_of_goto hs hs' with ⟨rfl, ht⟩ | ⟨hi, hs'⟩
      · cases ht
        have ha : a ∈ σ.history.answers := by
          cases m with
          | pay m => cases m with | failed e he server => simpa [Effect.answers] using ha
        have hmem : a ∈ σ.history.answersOf c.session := mem_answersOf.mpr ⟨ha, by rw [hcall]⟩
        obtain ⟨he, hp⟩ := m.loses hs (acc _) hmem
        exact ⟨he, hp, q, x, rfl⟩
      · refine absurd ⟨⟨a, ?_, hcall⟩, began, q, x, hs', hx⟩ (hn c)
        rcases List.mem_append.mp ha with ha | ha
        · exact ha
        · exact absurd (hcall ▸ m.own_answer a ha) hi
    cases step_stepped hstep with
    | request r =>
      obtain ⟨ha, began, q, x, hs', hx⟩ := hl
      rcases session_of_request hs' with hs' | ⟨-, ht⟩
      · exact hn c ⟨ha, began, q, x, hs', hx⟩
      · cases r <;> cases ht
    | @run i y s e t hs hc m =>
      obtain ⟨rfl, hp, q, x, rfl⟩ := moved hs m hl
      obtain ⟨began, t⟩ := s
      cases t with
      | pay q' pc =>
        cases pc with
        | record b r z =>
          simp only [Session.statement, record_passes inv acc (traced_of_reachable (Charging.reachable hr))
            (Charging.keyed hr) hs y] at hc
          cases hc
        | commit b => cases hc
        | _ => cases hp
      | _ => cases hp
    | raise hs hrs m =>
      obtain ⟨-, hp, -⟩ := moved hs m hl
      have hall := allow.1
      simp only [CommitSucceeds, hs, Option.all_some, hp, Bool.not_true, Bool.false_eq_true] at hall
    | tick d => exact hn c hl
    | updateConfig failureRate latencyMs => exact hn c hl

/-! ### What the answer makes of the booking -/

/-- After at most two more statements of its session the answer of a charge is recorded. -/
theorem Charging.becomes_paid {a : ChargeAnswer} (h : ReachableBy cat Charging σ) (ha : a ∈ σ.history.answers) :
    ∃ n ≤ 2, ∀ y : Choice, ∃ τ, exec (step cat) σ (List.replicate n (.run a.call.session y)) = some τ ∧
      ∃ p ∈ τ.db.payments, p.Records a.call a.result := by
  have hr := Charging.reachable h
  have inv := inv_of_reachableBy hr
  have acc := accounts_of_reachable hr
  have hmem : a ∈ σ.history.answersOf a.call.session := mem_answersOf.mpr ⟨ha, rfl⟩
  obtain ⟨began, q, pc, hs, hx⟩ := answered_of_mem acc ha
  have hcall : a.call ∈ σ.history.calls := (mem_callsOf.mp (hx.calls ▸ List.mem_singleton_self _)).1
  rcases call_fate inv acc hcall with ⟨began', q', pc', hs', -, hpc⟩ | ⟨a', ha', hcall', p, hp, hrec⟩ | hl
  · rcases hpc with ⟨b, rfl⟩ | ⟨b, r, t, rfl⟩ | ⟨b, rfl⟩
    · have hnil : _ ∧ σ.history.answersOf a.call.session = [] := (acc a.call.session).task hs'
      rw [hnil.2] at hmem
      cases hmem
    · refine ⟨2, Nat.le_refl 2, fun y => ?_⟩
      have hrun := record_passes inv acc (traced_of_reachable hr) (Charging.keyed h) hs' y
      have hstep : step cat σ (.run a.call.session y) = _ :=
        step_run hs' (by simp only [Session.statement, hrun, Option.map_some]; rfl)
      obtain ⟨τ, hτ, hp⟩ := paid_of_commit (hr.next trivial hstep) (goto_sessions_self hs') (a := a)
        (by rw [goto_history, perform_answersOf]; exact List.mem_append_left _ hmem) y
      exact ⟨τ, by simp [List.replicate, hstep, hτ], hp⟩
    · refine ⟨1, by decide, fun y => ?_⟩
      obtain ⟨τ, hτ, hp⟩ := paid_of_commit hr hs' hmem y
      exact ⟨τ, by simp [List.replicate, hτ], hp⟩
  · refine ⟨0, by decide, fun y => ⟨σ, rfl, p, hp, ?_⟩⟩
    have hmem' : a' ∈ σ.history.answersOf a.call.session := mem_answersOf.mpr ⟨ha', by rw [hcall']⟩
    rw [hx.answers, List.mem_singleton] at hmem'
    rw [← hmem']
    exact hcall' ▸ hrec
  · exact absurd hl (Charging.no_loss h _)

theorem Charging.becomes {a : ChargeAnswer} (h : ReachableBy cat Charging σ) (ha : a ∈ σ.history.answers)
    {P : Db → Booking → Prop} (outcome : ∀ τ, Inv τ → ∀ p ∈ τ.db.payments, p.Records a.call a.result →
      ∃ b ∈ τ.db.bookings, b.id = p.bookingId ∧ P τ.db b) :
    σ.Becomes cat a.call.session a.call.bookingId P := by
  obtain ⟨n, hn, hrun⟩ := Charging.becomes_paid h ha
  refine ⟨n, hn, fun y => ?_⟩
  obtain ⟨τ, hτ, p, hp, hrec⟩ := hrun y
  have hreach : Reachable cat τ := reachable_exec (Charging.reachable h) hτ
  obtain ⟨b, hb, hid, hP⟩ := outcome τ (inv_of_reachableBy hreach) p hp hrec
  exact ⟨τ, hτ, b, hb, hid.trans hrec.bookingId, hP⟩

/-- A booking that is confirmed can only be refunded later, and one that is refunded or cancelled stays so. -/
theorem status_kept {acts : List Act} (hr : Reachable cat σ) (run : exec (step cat) σ acts = some τ)
    (hb : b ∈ σ.db.bookings) :
    ∃ b' ∈ τ.db.bookings, b'.id = b.id ∧ (b.status = .confirmed → b'.status = .confirmed ∨ b'.status = .refunded) ∧
      (b.status = .refunded → b'.status = .refunded) ∧ (b.status = .cancelled → b'.status = .cancelled) := by
  have kept := kept_exec hr run
  obtain ⟨b', hb', hf⟩ := kept.bookings b hb
  have hid := Booking.id_of_fixed hf
  obtain ⟨ph, hph, hc⟩ := (inv_of_reachableBy hr).conforms_of_mem hb
  obtain ⟨ph', hph', hc'⟩ := (inv_of_reachableBy (reachable_exec hr run)).conforms_of_mem hb'
  rw [hid] at hc'
  have hleads := kept.leads hc hph hc' hph' hf
  refine ⟨b', hb', hid, ?_⟩
  rw [hc.status, hc'.status]
  cases ph <;> simp [Phase.leads, Phase.status] at hleads ⊢ <;> rcases hleads with rfl | rfl <;> simp

theorem Phase.expired_of_trail {ph : Phase} {owner : Uuid} {x : Entry} (h : x ∈ ph.trail owner)
    (hx : x.action = .expiredCleanup) : ph = .expired := by
  obtain ⟨action, prev, new, user⟩ := x
  subst hx
  cases ph <;> simp [Phase.trail] at h ⊢

/-- A charge in flight: the phases in which its session sees the booking. -/
theorem State.InFlight.conforms (h : σ.InFlight c) (inv : Inv σ) :
    ∃ b, ∃ ph ∈ [Phase.attempted, .confirmed, .paymentFailed],
    Conforms ((σ.view c.session).ledger c.bookingId) b ph := by
  obtain ⟨began, q, pc, hs, hid, hpc⟩ := h
  have ok := inv.taskOk hs
  rcases hpc with ⟨b, rfl⟩ | ⟨b, r, t, rfl⟩ | ⟨b, rfl⟩
  · have hb : b.id = q.bookingId ∧ _ := ok.sound
    obtain ⟨ph, hph, hc⟩ := ok.held (b, [.attempted]) (List.mem_singleton_self _)
    rw [hb.1, hid, List.mem_singleton.mp hph] at hc
    exact ⟨b, .attempted, List.mem_cons_self, hc⟩
  · have hb : (b.id = q.bookingId ∧ _) ∧ _ := ok.sound
    obtain ⟨ph, hph, hc⟩ := ok.held (b, [.attempted]) (List.mem_singleton_self _)
    rw [hb.1.1, hid, List.mem_singleton.mp hph] at hc
    exact ⟨b, .attempted, List.mem_cons_self, hc⟩
  · have hb : b.id = q.bookingId ∧ _ := ok.sound
    obtain ⟨ph, hph, hc⟩ := ok.held (b, [.confirmed, .paymentFailed]) (List.mem_singleton_self _)
    rw [hb.1, hid] at hc
    exact ⟨b, ph, List.mem_cons_of_mem _ hph, hc⟩

/-- A booking that `cleanup_expired_reservations` cancelled was never charged. -/
theorem Charging.expired {id : Uuid} (h : ReachableBy cat Charging σ) (hl : σ.db.Logged id .expiredCleanup)
    (hc : c ∈ σ.history.calls) : c.bookingId ≠ id := by
  rintro rfl
  have hr := Charging.reachable h
  have inv := inv_of_reachableBy hr
  rcases call_fate inv (accounts_of_reachable hr) hc with hf | ⟨a, -, -, p, hp, hrec⟩ | hlost
  · obtain ⟨b, ph, hph, hconf⟩ := hf.conforms inv
    obtain ⟨a, ha, hid, hact⟩ := hl
    have hview : (σ.view c.session).Logged c.bookingId .expiredCleanup :=
      ⟨a, ((noDelete_of_reachable hr).view c.session).auditTrail a ha, hid, hact⟩
    obtain ⟨x, hx, hact⟩ := hconf.trail_of_logged hview
    obtain rfl := Phase.expired_of_trail hx hact
    simp at hph
  · obtain ⟨b, -, -, ph, -, hconf, hpay⟩ := inv.paid hp
    rw [hrec.bookingId] at hconf
    obtain ⟨x, hx, hact⟩ := hconf.trail_of_logged hl
    obtain rfl := Phase.expired_of_trail hx hact
    cases hpay
  · exact Charging.no_loss h c hlost

/-- While commits of payments succeed and a payment key is for one booking only, every booking is charged at most once,
    the answer of the gateway is what becomes of it, and a booking that expired was never charged. -/
theorem charge_law (h : ReachableBy cat Charging σ) (id : Uuid) : ChargeLaw cat σ id where
  once := by
    refine length_le_one_of_pairwise ((inTurn_of_reachable (Charging.reachable h)).filter _) fun c hc c' hc' hlost => ?_
    have hid : c.bookingId = id := of_decide_eq_true (List.mem_filter.mp hc).2
    have hid' : c'.bookingId = id := of_decide_eq_true (List.mem_filter.mp hc').2
    exact Charging.no_loss h c (hlost (hid.trans hid'.symm))
  success a ha hid hst := by
    rw [← hid]
    refine Charging.becomes h ha fun τ inv p hp hrec => ?_
    rw [← hrec.bookingId]
    exact inv.paid_success hp (hrec.status.trans hst)
  failed a ha hid hst := by
    rw [← hid]
    refine Charging.becomes h ha fun τ inv p hp hrec => ?_
    rw [← hrec.bookingId]
    exact inv.paid_failed hp (hrec.status.trans hst)
  kept acts τ run b hb hid := by
    rw [← hid]
    exact status_kept (Charging.reachable h) run hb
  expired hl c hc := Charging.expired h hl hc

/-- Two requests pay for one booking, and while the first is being charged the reservation expires and a cleanup pass
    runs. -/
def chargeRun : List Act :=
  .request (.create ⟨1, 20, 40, 50, none⟩) :: runs 0 9 60 ++
    [.request (.pay ⟨60, 1, 70, none⟩), .request (.pay ⟨60, 1, 71, none⟩)] ++ runs 1 5 80 ++ runs 2 1 80 ++
    [.tick 600000000, .request .cleanup] ++ runs 3 3 90 ++ runs 1 4 80 ++ runs 2 1 80

theorem charge_law_run : ∃ σ : State, σ.history.answers ≠ [] ∧ ChargeLaw sampleCatalog σ 60 := by
  have halong : Along (step sampleCatalog) Charging (.seeded 0) chargeRun := by decide
  have hrun : (exec (step sampleCatalog) (.seeded 0) chargeRun).any
      (fun σ : State => !σ.history.answers.isEmpty) = true := by decide
  obtain ⟨σ, hσ, htest⟩ := reachableBy_of_run halong hrun
  exact ⟨σ, by simpa using htest, charge_law hσ 60⟩

end

end Railbook
