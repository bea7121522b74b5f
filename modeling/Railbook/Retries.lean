import Railbook.Charges
import Railbook.Growth

/-! Money that moves before the commit that records it. `handlePay` of `Booking.jsx` sends a new payment key at every
    call and `handleRefund` of `MyTickets.jsx` sends none, so whether a retry moves money twice is decided by what
    became of the request before it. -/

namespace Railbook
open ReadCommitted Transition

/-- The payment key that a request carries. -/
def Request.paymentKey : Request → Option Uuid
  | .pay q => some q.idempotencyKey
  | _ => none

/-- The client sends every payment with a new key. -/
def HandlePay (σ : State) : Act → Prop
  | .request (.pay q) => ∀ s ∈ σ.sessions, s.task.request.paymentKey ≠ some q.idempotencyKey
  | _ => True

/-- The answer is a successful charge for booking `id` that this call executed. -/
def ChargeAnswer.Charges (a : ChargeAnswer) (id : Uuid) : Prop :=
  a.call.bookingId = id ∧ a.executed = true ∧ a.result.status = .success

instance (a : ChargeAnswer) (id : Uuid) : Decidable (a.Charges id) := inferInstanceAs (Decidable (_ ∧ _))

namespace History
variable (h : History)

/-- The successful charges for booking `id` that the gateway has executed. -/
def chargesFor (id : Uuid) : List ChargeAnswer := h.answers.filter (·.Charges id)

/-- The refunds of booking `id` that the gateway has executed. -/
def refundsFor (id : Uuid) : List RefundCall := h.refunds.filter (·.bookingId = id)

/-- The refunds that the gateway has executed for session `i`. -/
def refundsOf (i : Sid) : List RefundCall := h.refunds.filter (·.session = i)

end History

/-- For every booking the gateway has executed at most one successful charge and at most one refund. -/
structure State.MovesOnce (σ : State) : Prop where
  charged : ∀ id, (σ.history.chargesFor id).length ≤ 1
  refunded : ∀ id, (σ.history.refundsFor id).length ≤ 1

/-- The request ended in a server error. -/
def Task.serverError : Task → Bool
  | .create _ (.finished (.error e)) | .pay _ (.finished (.error e)) | .refund _ (.finished (.error e))
  | .cleanup (.finished (.error e)) => e.isServerError
  | _ => false

namespace State
variable (σ : State)

/-- Session `i` ended in a server error. -/
def Failed (i : Sid) : Prop := (σ.sessions[i]?).any (·.task.serverError) = true

/-- A successful charge for booking `id` was executed, and the request that asked for it then lost its commit. -/
def ChargeLost (id : Uuid) : Prop := ∃ a ∈ σ.history.answers, a.Charges id ∧ σ.Failed a.call.session

/-- A refund of booking `id` was executed, and the request that asked for it then lost its commit. -/
def RefundLost (id : Uuid) : Prop := ∃ c ∈ σ.history.refunds, c.bookingId = id ∧ σ.Failed c.session

instance (i : Sid) : Decidable (σ.Failed i) := inferInstanceAs (Decidable (_ = true))

instance (id : Uuid) : Decidable (σ.ChargeLost id) := inferInstanceAs (Decidable (∃ _ ∈ _, _))

instance (id : Uuid) : Decidable (σ.RefundLost id) := inferInstanceAs (Decidable (∃ _ ∈ _, _))

end State

/-- The session repeats a lost call of the gateway: it asks for a charge under a key that the gateway does not know, and
    the gateway accepts it, or it asks for a refund. -/
def Session.Repeats (σ : State) (x : Choice) (s : Session) : Prop :=
  match s.task with
  | .pay q (.charging b) => σ.ChargeLost b.id ∧ (σ.gateway.processed.lookup q.idempotencyKey).isNone = true ∧
      (σ.gateway.draw x).status = .success
  | .refund _ (.refunding b _) => σ.RefundLost b.id
  | _ => False

/-- No step repeats a lost call of the gateway. -/
def RepeatsNothing (σ : State) : Act → Prop
  | .run i x => ∀ s, σ.sessions[i]? = some s → ¬s.Repeats σ x
  | _ => True

/-- What session `i` at a program counter of `refund_booking` has to show for its refunds. -/
def RefundPc.Account (h : History) (d : Db) (i : Sid) (q : RefundRequest) : RefundPc → Prop
  | .record _ _ | .commit _ => ∀ c ∈ h.refundsOf i, c.bookingId = q.bookingId
  | .invalidate _ | .finished (.ok _) => ∀ c ∈ h.refundsOf i, d.Logged c.bookingId .refunded
  | .finished (.error e) => ∀ c ∈ h.refundsOf i, e.isServerError = true
  | _ => h.refundsOf i = []

/-- The same for any task: only `refund_booking` refunds. -/
def Task.RefundAccount (h : History) (d : Db) (i : Sid) : Task → Prop
  | .refund q pc => pc.Account h d i q
  | _ => h.refundsOf i = []

/-- Session `i` has to show for its refunds what its program counter says. -/
def State.RefundAccountOk (σ : State) (i : Sid) : Prop :=
  (σ.sessions[i]?).elim (σ.history.refundsOf i = []) fun s => s.task.RefundAccount σ.history σ.db i

namespace Effect

/-- The refund that the gateway executes in the effect. -/
def refunds : Effect → List RefundCall
  | refunded c => [c]
  | _ => []

end Effect

section
variable {cat : Catalog} {σ τ : State} {i j : Sid} {began : Time} {s : Session} {t : Task} {e : Effect} {id : Uuid}
  {d d' : Db} {now : Time} {acts : List Act}

theorem perform_refunds (σ : State) (i : Sid) (e : Effect) :
    (σ.perform i e).history.refunds = σ.history.refunds ++ e.refunds := by
  cases e <;> simp [State.perform, Effect.refunds]

theorem perform_refundsOf (σ : State) (i j : Sid) (e : Effect) :
    (σ.perform i e).history.refundsOf j = σ.history.refundsOf j ++ e.refunds.filter (·.session = j) := by
  rw [History.refundsOf, perform_refunds, List.filter_append]
  rfl

theorem Move.own_refund (m : Move cat σ i s e t) : ∀ c ∈ e.refunds, c.session = i := by
  intro c hc
  cases m with
  | create m => cases m <;> cases hc
  | pay m => cases m <;> cases hc
  | refund m =>
    cases m with
    | answered => rw [List.mem_singleton.mp hc]
    | _ => cases hc
  | cleanup m => cases m <;> cases hc

theorem mem_refundsOf {h : History} {c : RefundCall} : c ∈ h.refundsOf i ↔ c ∈ h.refunds ∧ c.session = i := by
  simp [History.refundsOf]

/-! ### What becomes of a refund -/

/-- An account depends on the refunds of its own session and on the audit trail, which only grows. -/
theorem RefundPc.Account.congr {h h' : History} {q : RefundRequest} {pc : RefundPc} (hx : pc.Account h d i q)
    (hc : h'.refundsOf i = h.refundsOf i) (hd : d.Kept d') : pc.Account h' d' i q := by
  cases pc with
  | invalidate b => exact fun c hmem => hd.logged (hx c (hc ▸ hmem))
  | finished r =>
    cases r with
    | ok b => exact fun c hmem => hd.logged (hx c (hc ▸ hmem))
    | error x => exact fun c hmem => hx c (hc ▸ hmem)
  | record b x => exact fun c hmem => hx c (hc ▸ hmem)
  | commit b => exact fun c hmem => hx c (hc ▸ hmem)
  | _ => exact hc.trans hx

theorem Task.RefundAccount.congr {h h' : History} (hx : t.RefundAccount h d i) (hc : h'.refundsOf i = h.refundsOf i)
    (hd : d.Kept d') : t.RefundAccount h' d' i := by
  cases t with
  | refund q pc => exact RefundPc.Account.congr hx hc hd
  | _ => exact hc.trans hx

theorem State.RefundAccountOk.task (h : σ.RefundAccountOk i) (hs : σ.sessions[i]? = some s) :
    s.task.RefundAccount σ.history σ.db i := by
  rwa [State.RefundAccountOk, hs] at h

/-- A statement of `refund_booking` keeps the account of its session. -/
theorem RefundMove.account {q : RefundRequest} {pc pc' : RefundPc} (inv : Inv σ)
    (hs : σ.sessions[i]? = some ⟨began, .refund q pc⟩) (ha : pc.Account σ.history σ.db i q)
    (m : RefundMove cat σ i began q pc e pc') : pc'.Account (σ.perform i e).history (σ.perform i e).db i q := by
  have ok := inv.taskOk hs
  cases m with
  | located => exact ha
  | admitted free hb hid hu hst => exact ha
  | inTime hsch hle => exact ha
  | paid hp hid hst => exact ha
  | unpaid hp =>
    intro c hc
    have hc : c ∈ σ.history.refundsOf i := hc
    rw [show σ.history.refundsOf i = [] from ha] at hc
    cases hc
  | called => exact ha
  | @answered b ref =>
    intro c hc
    have hbq : b.id = q.bookingId ∧ b.userId = q.userId := ok.sound
    rw [perform_refundsOf, show σ.history.refundsOf i = [] from ha] at hc
    simp only [Effect.refunds, List.nil_append, List.mem_filter, List.mem_singleton] at hc
    rw [hc.1]
    exact hbq.1
  | recorded => exact ha
  | @committed b =>
    -- What the session commits has the audit entry of the refund.
    intro c hc
    have hbq : b.id = q.bookingId ∧ b.userId = q.userId := ok.sound
    obtain ⟨ph, hph, hconf⟩ := ok.held (b, [.refunded]) (List.mem_singleton_self _)
    rw [List.mem_singleton.mp hph, hbq.1, ← ha c hc] at hconf
    exact hconf.logged (x := ⟨.refunded, some .confirmed, .refunded, b.userId⟩) (by simp [Phase.trail])
  | invalidated => exact ha
  | failed x he server =>
    intro c hc
    cases pc with
    | record b y => exact server rfl
    | commit b => exact server rfl
    | refund b ref => cases he
    | refunding b ref => cases he
    | invalidate b => cases he
    | finished r => cases he
    | _ =>
      have hc : c ∈ σ.history.refundsOf i := hc
      rw [show σ.history.refundsOf i = [] from ha] at hc
      cases hc

theorem Move.refundAccount (inv : Inv σ) (hs : σ.sessions[i]? = some s) (ha : σ.RefundAccountOk i)
    (m : Move cat σ i s e t) : t.RefundAccount (σ.perform i e).history (σ.perform i e).db i := by
  have ha := ha.task hs
  cases m with
  | create m => cases m <;> exact ha
  | pay m => cases m <;> exact ha
  | refund m => exact m.account inv hs ha
  | cleanup m => cases m <;> exact ha

theorem Move.refundAccounts (inv : Inv σ) (hn : σ.NoDelete) (hs : σ.sessions[i]? = some s)
    (ha : ∀ j, σ.RefundAccountOk j) (m : Move cat σ i s e t) : ∀ j, ((σ.perform i e).goto i s t).RefundAccountOk j := by
  intro j
  refine elim_goto hs (ha j) ?_ fun hj => ?_
  · rintro rfl
    exact m.refundAccount inv hs (ha j)
  · have hrefunds : (σ.perform i e).history.refundsOf j = σ.history.refundsOf j := by
      rw [perform_refundsOf, filter_eq_nil_of_ne m.own_refund hj, List.append_nil]
    rw [goto_history, goto_db]
    exact ⟨fun hok => hrefunds.trans hok, fun s' _ hok => Task.RefundAccount.congr hok hrefunds (kept_perform hn i e)⟩

theorem refundAccounts_of_reachable (h : Reachable cat σ) : ∀ i, σ.RefundAccountOk i := by
  refine h.invariant (I := fun σ => ∀ i, σ.RefundAccountOk i) ?_ ?_
  · rintro σ ⟨now, rfl⟩ i
    exact rfl
  · intro σ a τ hr ha _ hstep
    have inv := inv_of_reachableBy hr
    have hn := noDelete_of_reachable hr
    cases step_stepped hstep with
    | request r => exact fun j => elim_snoc (ha j) fun hok => by cases r <;> exact hok
    | run hs hc m => exact m.refundAccounts inv hn hs ha
    | raise hs hr m => exact m.refundAccounts inv hn hs ha
    | tick d => exact ha
    | updateConfig failureRate latencyMs => exact ha

theorem State.Failed.of_task {s : Session} (hs : σ.sessions[i]? = some s) (h : s.task.serverError = true) :
    σ.Failed i := by
  rw [State.Failed, hs]
  exact h

/-- Every executed refund is by a session that still holds the booking, or it is in the audit trail, or its commit was
    lost. -/
theorem refund_fate {c : RefundCall} (acc : ∀ i, σ.RefundAccountOk i) (hc : c ∈ σ.history.refunds) :
    (∃ began q pc, σ.sessions[c.session]? = some ⟨began, .refund q pc⟩ ∧ pc.isAnswered = true ∧
      c.bookingId = q.bookingId) ∨
      σ.db.Logged c.bookingId .refunded ∨ σ.Failed c.session := by
  have hmem : c ∈ σ.history.refundsOf c.session := mem_refundsOf.mpr ⟨hc, rfl⟩
  have loud : σ.history.refundsOf c.session ≠ [] := List.ne_nil_of_mem hmem
  have hok := acc c.session
  unfold State.RefundAccountOk at hok
  cases hs : σ.sessions[c.session]? with
  | none =>
    rw [hs] at hok
    exact absurd hok loud
  | some s =>
    rw [hs] at hok
    obtain ⟨began, t⟩ := s
    cases t with
    | refund q pc =>
      cases pc with
      | record b x => exact Or.inl ⟨began, q, _, rfl, rfl, hok c hmem⟩
      | commit b => exact Or.inl ⟨began, q, _, rfl, rfl, hok c hmem⟩
      | invalidate b => exact Or.inr (Or.inl (hok c hmem))
      | finished r =>
        cases r with
        | ok b => exact Or.inr (Or.inl (hok c hmem))
        | error x => exact Or.inr (Or.inr (.of_task hs (hok c hmem)))
      | _ => exact absurd hok loud
    | _ => exact absurd hok loud

theorem owned_of_refunded {q : RefundRequest} {pc : RefundPc} (inv : Inv σ)
    (hs : σ.sessions[i]? = some ⟨began, .refund q pc⟩) (hpc : pc.isAnswered = true) :
    .bookingRow q.bookingId ∈ (Task.refund q pc).owned := by
  have hsound := (inv.taskOk hs).sound
  cases pc with
  | record b x =>
    have hsound : b.id = q.bookingId ∧ _ := hsound
    simp [Task.owned, hsound.1]
  | commit b =>
    have hsound : b.id = q.bookingId ∧ _ := hsound
    simp [Task.owned, hsound.1]
  | _ => cases hpc

/-! ### A second time only after a lost commit -/

theorem State.Lost.failed {c : ChargeCall} (h : σ.Lost c) : σ.Failed c.session := by
  obtain ⟨-, began, q, x, hs, hx⟩ := h
  exact .of_task hs hx

/-- When the gateway charges for a booking, every successful charge that it executed for it before was lost. -/
theorem chargeLost_of_charged {q : PayRequest} {b : Booking} (inv : Inv σ) (acc : ∀ i, σ.AccountOk i)
    (hs : σ.sessions[i]? = some ⟨began, .pay q (.charging b)⟩) {a : ChargeAnswer} (ha : a ∈ σ.history.answers)
    (hx : a.Charges b.id) : σ.ChargeLost b.id := by
  have ok := inv.taskOk hs
  have silent : σ.history.callsOf i = [q.call i b] ∧ σ.history.answersOf i = [] := (acc i).task hs
  obtain ⟨began', q', pc, hs', hans⟩ := answered_of_mem acc ha
  have hcall : a.call ∈ σ.history.calls := (mem_callsOf.mp (hans.calls ▸ List.mem_singleton_self _)).1
  rcases call_fate inv acc hcall with hf | ⟨a', -, -, p, hp, hr⟩ | hl
  · obtain ⟨s, hs'', hown⟩ := hf.owned inv
    have hi : i = a.call.session := by
      refine inv.owner_unique hs hs'' (r := .bookingRow b.id) (List.mem_singleton_self _) ?_
      rwa [hx.1] at hown
    have hmem := mem_answersOf.mpr ⟨ha, hi.symm⟩
    rw [silent.2] at hmem
    cases hmem
  · obtain ⟨ph, hph, hconf⟩ := ok.held (b, [.attempted]) (List.mem_singleton_self _)
    rw [List.mem_singleton.mp hph] at hconf
    have hnil : ((σ.view i).ledger b.id).payments = [] := hconf.payments
    have hmem : p ∈ ((σ.view i).ledger b.id).payments :=
      mem_ledger_payments.mpr ⟨view_payments hp, hr.bookingId.trans hx.1⟩
    rw [hnil] at hmem
    cases hmem
  · exact ⟨a, ha, hx, hl.failed⟩

/-- When the gateway refunds a booking, every refund of it before was lost. -/
theorem refundLost_of_refunded {q : RefundRequest} {b : Booking} {ref : Option GatewayRef} (inv : Inv σ)
    (hn : σ.NoDelete) (acc : ∀ i, σ.RefundAccountOk i)
    (hs : σ.sessions[i]? = some ⟨began, .refund q (.refunding b ref)⟩) {c : RefundCall} (hc : c ∈ σ.history.refunds)
    (hid : c.bookingId = b.id) : σ.RefundLost b.id := by
  have ok := inv.taskOk hs
  have silent : σ.history.refundsOf i = [] := (acc i).task hs
  rcases refund_fate acc hc with ⟨began', q', pc, hs', hpc, hq'⟩ | hl | hf
  · have hown := owned_of_refunded inv hs' hpc
    rw [← hq', hid] at hown
    have hi : i = c.session := inv.owner_unique hs hs' (r := .bookingRow b.id) (List.mem_singleton_self _) hown
    have hmem := mem_refundsOf.mpr ⟨hc, hi.symm⟩
    rw [silent] at hmem
    cases hmem
  · obtain ⟨ph, hph, hconf⟩ := ok.held (b, [.confirmed]) (List.mem_singleton_self _)
    rw [List.mem_singleton.mp hph] at hconf
    obtain ⟨x, hx, hact⟩ := hconf.trail_of_logged (hid ▸ (hn.view i).logged hl)
    simp only [Phase.trail, List.mem_cons, List.not_mem_nil, or_false] at hx
    rcases hx with rfl | rfl | rfl <;> cases hact
  · exact ⟨c, hc, hid, hf⟩

/-! ### The gateway's ledger along a run -/

/-- What a step adds to the charges and the refunds that the gateway executed for booking `id`. -/
theorem chargesFor_perform (σ : State) (i : Sid) (e : Effect) (id : Uuid) :
    (σ.perform i e).history.chargesFor id = σ.history.chargesFor id ++ e.answers.filter (·.Charges id) := by
  rw [History.chargesFor, perform_answers, List.filter_append]
  rfl

theorem refundsFor_perform (σ : State) (i : Sid) (e : Effect) (id : Uuid) :
    (σ.perform i e).history.refundsFor id = σ.history.refundsFor id ++ e.refunds.filter (·.bookingId = id) := by
  rw [History.refundsFor, perform_refunds, List.filter_append]
  rfl

theorem State.MovesOnce.of_step {a : Act} (h : τ.MovesOnce) (hstep : step cat σ a = some τ) : σ.MovesOnce := by
  have moved : ∀ {i e}, τ.history = (σ.perform i e).history → σ.MovesOnce := by
    intro i e hh
    refine ⟨fun id => ?_, fun id => ?_⟩
    · have hle := h.charged id
      rw [hh, chargesFor_perform, List.length_append] at hle
      omega
    · have hle := h.refunded id
      rw [hh, refundsFor_perform, List.length_append] at hle
      omega
  cases step_stepped hstep with
  | request r => exact ⟨h.charged, h.refunded⟩
  | run hs hc m => exact moved rfl
  | raise hs hr m => exact moved rfl
  | tick d => exact ⟨h.charged, h.refunded⟩
  | updateConfig failureRate latencyMs => exact ⟨h.charged, h.refunded⟩

theorem State.MovesOnce.of_exec (h : τ.MovesOnce) (run : exec (step cat) σ acts = some τ) : σ.MovesOnce := by
  induction acts generalizing σ with
  | nil =>
    cases run
    exact h
  | cons a as ih =>
    obtain ⟨υ, hstep, run⟩ := Option.bind_eq_some_iff.mp run
    exact (ih run).of_step hstep

theorem statement_charging {q : PayRequest} {b : Booking} (x : Choice) :
    Session.statement cat σ i ⟨began, .pay q (.charging b)⟩ x =
      some (.answer ⟨q.call i b, (σ.gateway.charge b.totalAmount q.idempotencyKey x).1,
        (σ.gateway.processed.lookup q.idempotencyKey).isNone⟩ (σ.gateway.charge b.totalAmount q.idempotencyKey x).2,
        .pay q (.record b (σ.gateway.charge b.totalAmount q.idempotencyKey x).1 σ.now)) := rfl

theorem executed_success_iff {gw : MockPaymentGateway} {n : Amount} {k : Uuid} {x : Choice} :
    ((gw.processed.lookup k).isNone = true ∧ (gw.charge n k x).1.status = .success) ↔
      (gw.processed.lookup k).isNone = true ∧ (gw.draw x).status = .success := by
  refine and_congr_right fun hk => ?_
  rw [MockPaymentGateway.charge_fresh (Option.isNone_iff_eq_none.mp hk)]

/-- A statement that charges for booking `id` is at the call of the gateway, which does not know the key and accepts. -/
theorem charging_of_charges {x : Choice} {a : ChargeAnswer} (hc : s.statement cat σ i x = some (e, t))
    (ha : a ∈ e.answers) (hx : a.Charges id) : ∃ began q b, s = ⟨began, .pay q (.charging b)⟩ ∧ b.id = id ∧
      (σ.gateway.processed.lookup q.idempotencyKey).isNone = true ∧ (σ.gateway.draw x).status = .success := by
  cases statement_move hc with
  | pay m =>
    cases m with
    | @answered b y =>
      rw [statement_charging] at hc
      simp only [Option.some.injEq, Prod.mk.injEq] at hc
      rw [← hc.1, Effect.answers, List.mem_singleton] at ha
      obtain ⟨hid, hexec, hst⟩ := hx
      subst ha
      exact ⟨_, _, b, rfl, hid, executed_success_iff.mp ⟨hexec, hst⟩⟩
    | _ => cases ha
  | create m => cases m <;> cases ha
  | refund m => cases m <;> cases ha
  | cleanup m => cases m <;> cases ha

theorem refunding_of_refunds {c : RefundCall} (m : Move cat σ i s e t) (hc : c ∈ e.refunds) :
    ∃ began q b ref, s = ⟨began, .refund q (.refunding b ref)⟩ ∧ b.id = c.bookingId := by
  cases m with
  | refund m =>
    cases m with
    | @answered b ref =>
      rw [List.mem_singleton.mp hc]
      exact ⟨_, _, b, ref, rfl, rfl⟩
    | _ => cases hc
  | create m => cases m <;> cases hc
  | pay m => cases m <;> cases hc
  | cleanup m => cases m <;> cases hc

/-- A step that repeats a lost call moves the money a second time. -/
theorem not_movesOnce_of_repeats {x : Choice} (hs : σ.sessions[i]? = some s) (hrep : s.Repeats σ x)
    (hstep : step cat σ (.run i x) = some τ) : ¬τ.MovesOnce := by
  intro once
  obtain ⟨began, t⟩ := s
  cases t with
  | pay q pc =>
    cases pc with
    | charging b =>
      obtain ⟨⟨a, ha, hx, -⟩, hk⟩ := hrep
      obtain rfl := Option.some.inj ((step_run hs (statement_charging x)).symm.trans hstep)
      have hle := once.charged b.id
      rw [goto_history, chargesFor_perform, List.length_append] at hle
      have hold : 0 < (σ.history.chargesFor b.id).length :=
        List.length_pos_of_mem (List.mem_filter.mpr ⟨ha, decide_eq_true hx⟩)
      have hnew : (⟨q.call i b, (σ.gateway.charge b.totalAmount q.idempotencyKey x).1,
          (σ.gateway.processed.lookup q.idempotencyKey).isNone⟩ : ChargeAnswer).Charges b.id :=
        ⟨rfl, executed_success_iff.mpr hk⟩
      rw [Effect.answers, List.filter_eq_self.mpr (by simpa using hnew), List.length_singleton] at hle
      omega
    | _ => exact hrep
  | refund q pc =>
    cases pc with
    | refunding b ref =>
      obtain ⟨c, hc, hid, -⟩ := hrep
      obtain rfl := Option.some.inj ((step_run hs rfl).symm.trans hstep)
      have hle := once.refunded b.id
      rw [goto_history, refundsFor_perform, List.length_append] at hle
      have hold : 0 < (σ.history.refundsFor b.id).length :=
        List.length_pos_of_mem (List.mem_filter.mpr ⟨hc, decide_eq_true hid⟩)
      rw [Effect.refunds, List.filter_eq_self.mpr (by simp), List.length_singleton] at hle
      omega
    | _ => exact hrep
  | _ => exact hrep

theorem length_append_le_one {α : Type} {l l' : List α} (h : l.length ≤ 1) (h' : l'.length ≤ 1)
    (hx : l' ≠ [] → l = []) : (l ++ l').length ≤ 1 := by
  by_cases hl : l' = []
  · rwa [hl, List.append_nil]
  · rwa [hx hl, List.nil_append]

/-- A statement that repeats nothing moves the money of a booking only if it did not move before. -/
theorem State.MovesOnce.run {x : Choice} (h : σ.MovesOnce) (hr : Reachable cat σ) (hs : σ.sessions[i]? = some s)
    (hc : s.statement cat σ i x = some (e, t)) (hrep : ¬s.Repeats σ x) : ((σ.perform i e).goto i s t).MovesOnce := by
  have inv := inv_of_reachableBy hr
  have one : e.answers.length ≤ 1 ∧ e.refunds.length ≤ 1 := by
    cases e <;> simp [Effect.answers, Effect.refunds]
  refine ⟨fun id => ?_, fun id => ?_⟩
  · rw [goto_history, chargesFor_perform]
    refine length_append_le_one (h.charged id) ((List.length_filter_le _ _).trans one.1) fun hne => ?_
    obtain ⟨a, ha⟩ := List.exists_mem_of_ne_nil _ hne
    obtain ⟨ha, hx⟩ := List.mem_filter.mp ha
    obtain ⟨began, q, b, rfl, rfl, hk⟩ := charging_of_charges hc ha (of_decide_eq_true hx)
    refine List.eq_nil_iff_forall_not_mem.mpr fun a' ha' => hrep ⟨?_, hk⟩
    obtain ⟨ha', hx'⟩ := List.mem_filter.mp ha'
    exact chargeLost_of_charged inv (accounts_of_reachable hr) hs ha' (of_decide_eq_true hx')
  · rw [goto_history, refundsFor_perform]
    refine length_append_le_one (h.refunded id) ((List.length_filter_le _ _).trans one.2) fun hne => ?_
    obtain ⟨c, hmem⟩ := List.exists_mem_of_ne_nil _ hne
    obtain ⟨hmem, hid⟩ := List.mem_filter.mp hmem
    obtain ⟨began, q, b, ref, rfl, hb⟩ := refunding_of_refunds (statement_move hc) hmem
    obtain rfl := hb.trans (of_decide_eq_true hid)
    refine List.eq_nil_iff_forall_not_mem.mpr fun c' hc' => hrep ?_
    obtain ⟨hc', hid'⟩ := List.mem_filter.mp hc'
    exact refundLost_of_refunded inv (noDelete_of_reachable hr) (refundAccounts_of_reachable hr) hs hc'
      (of_decide_eq_true hid')

theorem State.MovesOnce.step {a : Act} (h : σ.MovesOnce) (hr : Reachable cat σ) (allow : RepeatsNothing σ a)
    (hstep : step cat σ a = some τ) : τ.MovesOnce := by
  cases step_stepped hstep with
  | request r => exact ⟨h.charged, h.refunded⟩
  | run hs hc m => exact h.run hr hs hc (allow _ hs)
  | raise hs hr m => exact ⟨by simpa [State.perform] using h.charged, by simpa [State.perform] using h.refunded⟩
  | tick d => exact ⟨h.charged, h.refunded⟩
  | updateConfig failureRate latencyMs => exact ⟨h.charged, h.refunded⟩

instance (σ : State) (x : Choice) : (s : Session) → Decidable (s.Repeats σ x)
  | ⟨_, .pay _ (.charging _)⟩ => inferInstanceAs (Decidable (_ ∧ _ ∧ _))
  | ⟨_, .refund _ (.refunding b _)⟩ => inferInstanceAs (Decidable (σ.RefundLost b.id))
  | ⟨_, .pay _ .lockBooking⟩ | ⟨_, .pay _ .awaitBooking⟩ | ⟨_, .pay _ (.checkPayment _)⟩ | ⟨_, .pay _ (.attempt _)⟩
  | ⟨_, .pay _ (.charge _)⟩ | ⟨_, .pay _ (.record _ _ _)⟩ | ⟨_, .pay _ (.commit _)⟩ | ⟨_, .pay _ (.invalidate _)⟩
  | ⟨_, .pay _ (.finished _)⟩ | ⟨_, .refund _ .lockBooking⟩ | ⟨_, .refund _ .awaitBooking⟩
  | ⟨_, .refund _ (.checkDeparture _)⟩ | ⟨_, .refund _ (.findPayment _)⟩ | ⟨_, .refund _ (.refund _ _)⟩
  | ⟨_, .refund _ (.record _ _)⟩ | ⟨_, .refund _ (.commit _)⟩ | ⟨_, .refund _ (.invalidate _)⟩
  | ⟨_, .refund _ (.finished _)⟩ | ⟨_, .create _ _⟩ | ⟨_, .cleanup _⟩ => isFalse fun h => h

instance (σ : State) : (a : Act) → Decidable (RepeatsNothing σ a)
  | .run i x =>
    match h : σ.sessions[i]? with
    | none => isTrue fun s hs => by cases h.symm.trans hs
    | some s => decidable_of_iff (¬s.Repeats σ x) (by simp [RepeatsNothing, h])
  | .request _ | .raise _ | .tick _ | .updateConfig _ _ => isTrue trivial

instance (σ : State) : (a : Act) → Decidable (HandlePay σ a)
  | .request (.pay _) => inferInstanceAs (Decidable (∀ s ∈ σ.sessions, _))
  | .request (.create _) | .request (.refund _) | .request .cleanup => isTrue trivial
  | .raise _ | .run _ _ | .tick _ | .updateConfig _ _ => isTrue trivial

/-- In every run the gateway has moved the money of no booking twice at the end if and only if no step repeats a call
    whose commit was lost. -/
theorem moves_once_iff (run : exec (step cat) (.seeded now) acts = some σ) :
    σ.MovesOnce ↔ Along (step cat) RepeatsNothing (.seeded now) acts := by
  have start : Reachable cat (.seeded now) := .start ⟨now, rfl⟩
  constructor
  · intro once
    by_contra hnot
    obtain ⟨pre, a, post, u, v, rfl, hpre, hfail, hstep, hpost⟩ := exists_step_of_not_along run hnot
    cases a with
    | run i x =>
      simp only [RepeatsNothing, not_forall, not_not] at hfail
      obtain ⟨s, hs, hrep⟩ := hfail
      exact not_movesOnce_of_repeats hs hrep hstep (once.of_exec hpost)
    | _ => exact hfail trivial
  · intro along
    have keep : ∀ (υ : State) (a : Act) (υ' : State), Reachable cat υ ∧ υ.MovesOnce → RepeatsNothing υ a →
        step cat υ a = some υ' → Reachable cat υ' ∧ υ'.MovesOnce := fun υ a υ' ⟨hr, h⟩ allow hstep =>
      ⟨hr.next trivial hstep, h.step hr allow hstep⟩
    have base : (State.seeded now).MovesOnce := ⟨fun _ => Nat.zero_le 1, fun _ => Nat.zero_le 1⟩
    exact (exec_invariant keep ⟨start, base⟩ along run).2

/-- A payment and a refund that lose nothing after their calls of the gateway, each at the second attempt: the first
    payment fails before its charge, the first refund before the refund. -/
def retriedRun : List Act :=
  .request (.create ⟨1, 20, 40, 50, none⟩) :: runs 0 9 60 ++ .request (.pay ⟨60, 1, 70, none⟩) :: runs 1 3 80 ++
    .raise 1 :: .request (.pay ⟨60, 1, 71, none⟩) :: runs 2 9 80 ++ .request (.refund ⟨60, 1, none⟩) :: runs 3 3 80 ++
    .raise 3 :: .request (.refund ⟨60, 1, none⟩) :: runs 4 8 80

theorem moves_once_retried : ∃ σ : State, exec (step sampleCatalog) (.seeded 0) retriedRun = some σ ∧ σ.MovesOnce ∧
    σ.history.chargesFor 60 ≠ [] ∧ σ.history.refundsFor 60 ≠ [] := by
  have along : Along (step sampleCatalog) RepeatsNothing (.seeded 0) retriedRun := by decide
  have hrun : (exec (step sampleCatalog) (.seeded 0) retriedRun).any (fun σ : State =>
      !(σ.history.chargesFor 60).isEmpty && !(σ.history.refundsFor 60).isEmpty) = true := by decide
  obtain ⟨σ, hσ, htest⟩ := (Option.any_eq_true _ _).mp hrun
  obtain ⟨hcharges, hrefunds⟩ := Bool.and_eq_true_iff.mp htest
  exact ⟨σ, hσ, (moves_once_iff hσ).mpr along, by simpa using hcharges, by simpa using hrefunds⟩

/-- The payment and then the refund lose their commits, and the client calls `handlePay` and `handleRefund` again. -/
def repeatedRun : List Act :=
  .request (.create ⟨1, 20, 40, 50, none⟩) :: runs 0 9 60 ++ .request (.pay ⟨60, 1, 70, none⟩) :: runs 1 7 80 ++
    .raise 1 :: .request (.pay ⟨60, 1, 71, none⟩) :: runs 2 9 80 ++ .request (.refund ⟨60, 1, none⟩) :: runs 3 7 80 ++
    .raise 3 :: .request (.refund ⟨60, 1, none⟩) :: runs 4 8 80

/-- The customer is charged twice, and the booking is refunded twice. -/
theorem money_moves_twice :
    (¬∀ (cat : Catalog) (σ : State), ReachableBy cat HandlePay σ → ∀ id, (σ.history.chargesFor id).length ≤ 1) ∧
      ¬∀ (cat : Catalog) (σ : State), ReachableBy cat HandlePay σ → ∀ id, (σ.history.refundsFor id).length ≤ 1 := by
  have along : Along (step sampleCatalog) HandlePay (.seeded 0) repeatedRun := by decide
  have hrun : (exec (step sampleCatalog) (.seeded 0) repeatedRun).any (fun σ : State =>
      decide ((σ.history.chargesFor 60).length = 2) && decide ((σ.history.refundsFor 60).length = 2)) = true := by
        decide
  obtain ⟨σ, hσ, htest⟩ := reachableBy_of_run along hrun
  obtain ⟨hcharges, hrefunds⟩ := Bool.and_eq_true_iff.mp htest
  refine ⟨fun h => ?_, fun h => ?_⟩
  · have := h _ σ hσ 60
    rw [of_decide_eq_true hcharges] at this
    omega
  · have := h _ σ hσ 60
    rw [of_decide_eq_true hrefunds] at this
    omega

end

end Railbook
