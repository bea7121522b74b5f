import Railbook.Charges
import Railbook.Library.Table

/-! What an answer of `pay_booking` says about the booking. The payment key is looked up last, behind the checks of the
    status and of the expiry, and by itself: it answers a request for a reserved booking whose key was used for another
    one, and it never sees the retry that it is there for. -/

namespace Railbook
open ReadCommitted Transition

/-! ### The answer and the payment -/

/-- A payment for the booking is stored under the key of the request. -/
def Db.Charged (d : Db) (q : PayRequest) : Prop :=
  ∃ p ∈ d.payments, p.bookingId = q.bookingId ∧ p.idempotencyKey = q.idempotencyKey

/-- A success that leaves the booking confirmed, unless it was refunded afterwards, or a failure that leaves it
    cancelled. -/
def Payment.Leaves (p : Payment) (status : BookingStatus) : Prop :=
  (p.status = .success ∧ (status = .confirmed ∨ status = .refunded)) ∨ (p.status = .failed ∧ status = .cancelled)

/-- A payment for the booking is stored under the key of the request, and the booking is no longer reserved. -/
def Db.Settles (d : Db) (q : PayRequest) : Prop :=
  ∃ p ∈ d.payments, p.bookingId = q.bookingId ∧ p.idempotencyKey = q.idempotencyKey ∧
    ∃ b ∈ d.bookings, b.id = q.bookingId ∧ p.Leaves b.status

/-- If session `i` has returned a booking, the payment that it was asked for is settled. -/
def State.ReturnsSettled (σ : State) (i : Sid) (q : PayRequest) : Prop :=
  ∀ began b, σ.sessions[i]? = some ⟨began, .pay q (.finished (.ok b))⟩ → σ.db.Settles q

/-- A session that looks its payment key up finds no payment of another booking. -/
def Session.FindsOwnPayment (σ : State) (s : Session) : Prop :=
  match s.task with
  | .pay q (.checkPayment _) => ∀ p ∈ σ.db.payments, p.idempotencyKey = q.idempotencyKey → p.bookingId = q.bookingId
  | _ => True

/-- The payment check of session `i` finds no payment of another booking under the key. -/
abbrev ChecksOwnPayment (i : Sid) : State → Act → Prop := AtStatement i fun σ s => s.FindsOwnPayment σ

/-- A session that has returned a booking has its payment stored. -/
def Task.ReturnsCharged (d : Db) : Task → Prop
  | .pay q (.finished (.ok _)) => d.Charged q
  | _ => True

/-! ### The retry with the same key -/

/-- The answer for a booking that is not reserved. -/
def notReserved (status : BookingStatus) : Exc := httpError 400 ("Booking is " ++ status.value ++ ", not reserved")

/-- A request on its own that ends returns its booking, changes no row and asks the gateway for no charge. -/
def Replays (cat : Catalog) (σ : State) (q : PayRequest) : Prop :=
  ∀ acts τ, exec (step cat) (σ.alone [.pay q]) acts = some τ → (∀ a ∈ acts, a.isQuiet = true) → ∀ began r,
    τ.sessions[0]? = some ⟨began, .pay q (.finished r)⟩ →
      (∃ b, r = .ok b ∧ b.id = q.bookingId) ∧ τ.db = σ.db ∧ τ.history.calls = σ.history.calls

/-- A request that has not passed the check of the status, or was refused by it. -/
def Task.Refused : Task → Prop
  | .pay _ .lockBooking | .pay _ .awaitBooking => True
  | .pay _ (.finished r) => r = .error .databaseError ∨ ∃ st, st ≠ .reserved ∧ r = .error (notReserved st)
  | _ => False

section
variable {cat : Catalog} {σ τ : State} {i : Sid} {began : Time} {q : PayRequest} {acts : List Act} {d d' : Db}
  {p p' : Payment}

theorem Db.Charged.kept (h : d.Charged q) (kept : d.Kept d') : d'.Charged q := by
  obtain ⟨p, hp, hid, hkey⟩ := h
  exact ⟨p, kept.payments p hp, hid, hkey⟩

/-- A stored payment has left its booking confirmed, refunded or cancelled. -/
theorem Inv.settles (inv : Inv σ) (h : σ.db.Charged q) : σ.db.Settles q := by
  obtain ⟨p, hp, hid, hkey⟩ := h
  obtain ⟨b, hb, hbid, ph, -, hc, hpay⟩ := inv.paid hp
  refine ⟨p, hp, hid, hkey, b, hb, hbid.trans hid, ?_⟩
  rw [Payment.Leaves, hc.status]
  cases ph <;> simp [Phase.payment, Phase.status] at hpay ⊢ <;> exact hpay.symm

theorem Inv.paymentsUnder_eq (inv : Inv σ) (hp : p ∈ σ.db.payments) :
    σ.db.paymentsUnder p.idempotencyKey = [p] ∧ ∀ i, (σ.view i).paymentsUnder p.idempotencyKey = [p] := by
  have hlen := inv.payments p.idempotencyKey
  exact ⟨Table.eq_singleton_of_mem hlen.1 (List.mem_filter.mpr ⟨hp, decide_eq_true rfl⟩), fun i =>
    Table.eq_singleton_of_mem (hlen.2 i) (List.mem_filter.mpr ⟨view_payments hp, decide_eq_true rfl⟩)⟩

/-- A session that checks its payment key sees the stored payments, and none of them is for its booking. -/
theorem stored_of_checked {b : Booking} (hr : Reachable cat σ)
    (hs : σ.sessions[i]? = some ⟨began, .pay q (.checkPayment b)⟩) (hp : p ∈ (σ.view i).payments) :
    p ∈ σ.db.payments ∧ p.bookingId ≠ q.bookingId := by
  have hview : σ.view i = σ.db := view_of_unwritten hr hs rfl
  have ok := (inv_of_reachableBy hr).taskOk hs
  have hbq : b.id = q.bookingId ∧ b.userId = q.userId := ok.sound
  obtain ⟨ph, hph, hconf⟩ := ok.held (b, [.reserved]) (List.mem_singleton_self _)
  rw [List.mem_singleton.mp hph] at hconf
  have hnil : ((σ.view i).ledger b.id).payments = [] := hconf.payments
  refine ⟨hview ▸ hp, fun hid => ?_⟩
  have hmem : p ∈ ((σ.view i).ledger b.id).payments := mem_ledger_payments.mpr ⟨hp, hid.trans hbq.1.symm⟩
  rw [hnil] at hmem
  cases hmem

theorem Move.returnsCharged {s : Session} {t : Task} {e : Effect} (hr : Reachable cat σ) (hs : σ.sessions[i]? = some s)
    (finds : s.FindsOwnPayment σ) (m : Move cat σ i s e t) : t.ReturnsCharged (σ.perform i e).db := by
  cases m with
  | pay m =>
    cases m with
    | replayed hp hkey =>
      obtain ⟨hp, hne⟩ := stored_of_checked hr hs hp
      exact absurd (finds _ hp hkey) hne
    | invalidated =>
      obtain ⟨a, ha, p, hp, hrec⟩ := (accounts_of_reachable hr i).task hs
      exact ⟨p, hp, hrec.bookingId.trans ha.bookingId, hrec.idempotencyKey.trans ha.idempotencyKey⟩
    | _ => trivial
  | _ => trivial

theorem raise_returnsCharged {t t' : Task} (_ : t.ReturnsCharged d) (h : t.raise = some t') : t'.ReturnsCharged d := by
  cases t <;> simp only [Task.raise, Option.ite_none_right_eq_some, Option.some.injEq] at h <;> obtain ⟨-, rfl⟩ := h <;>
    trivial

theorem Task.ReturnsCharged.kept {t : Task} (kept : d.Kept d') (h : t.ReturnsCharged d) : t.ReturnsCharged d' := by
  unfold Task.ReturnsCharged at h ⊢
  split at h
  · exact h.kept kept
  · trivial

/-- A payment check that finds a payment of another booking answers the request with its reserved booking. -/
theorem replayed_of_payment {b : Booking} {x : Choice} {e : Effect} {t : Task} (inv : Inv σ) (hp : p ∈ σ.db.payments)
    (hkey : p.idempotencyKey = q.idempotencyKey)
    (hc : Session.statement cat σ i ⟨began, .pay q (.checkPayment b)⟩ x = some (e, t)) :
    t = .pay q (.finished (.ok b)) := by
  have hfound : (σ.view i).payments.filter (·.idempotencyKey = q.idempotencyKey) = [p] :=
    hkey ▸ (inv.paymentsUnder_eq hp).2 i
  simp only [Session.statement, payBooking, hfound, scalarOneOrNone, Option.map_some, Option.some.injEq,
    Prod.mk.injEq] at hc
  exact hc.2.symm

/-- In every run, a request that returns a booking has its payment stored and settled if and only if its payment check
    finds no payment of another booking under the key. -/
theorem returns_settled_iff (hr : Reachable cat σ) (run : exec (step cat) σ (.request (.pay q) :: acts) = some τ) :
    τ.ReturnsSettled σ.sessions.length q ↔
      Along (step cat) (ChecksOwnPayment σ.sessions.length) σ (.request (.pay q) :: acts) := by
  have hτ : Reachable cat τ := reachable_exec hr run
  refine ⟨fun returns => ?_, fun along began b hs => ?_⟩
  · by_contra hnot
    obtain ⟨υ, x, s, e, t, post, hυ, hs, hq, hfail, hc, hpost⟩ := exists_failing_statement hr run hnot
    obtain ⟨began, t'⟩ := s
    unfold Session.FindsOwnPayment at hfail
    split at hfail
    · rename_i q' b ht
      obtain rfl : t' = .pay q' (.checkPayment b) := ht
      obtain rfl : q' = q := Request.pay.inj hq
      simp only [not_forall] at hfail
      obtain ⟨p, hp, hkey, hother⟩ := hfail
      obtain rfl := replayed_of_payment (inv_of_reachableBy hυ) hp hkey hc
      -- The payment under the key stays that of the other booking.
      have hstep := step_run hs hc
      have kept : υ.db.Kept τ.db := (kept_step (noDelete_of_reachable hυ) hstep).trans
        (kept_exec (hυ.next trivial hstep) hpost)
      obtain ⟨p', hp', hid', hkey', -⟩ := returns began b (finished_exec hpost (goto_sessions_self hs) rfl)
      have hmem : p' ∈ τ.db.paymentsUnder p.idempotencyKey :=
        List.mem_filter.mpr ⟨hp', decide_eq_true (hkey'.trans hkey.symm)⟩
      rw [((inv_of_reachableBy hτ).paymentsUnder_eq (kept.payments p hp)).1, List.mem_singleton] at hmem
      exact hother (hmem ▸ hid')
    · exact hfail trivial
  · have start : (Request.pay q).task.ReturnsCharged σ.db := trivial
    obtain ⟨s', hs', -, hret⟩ := request_run (P := fun d t => t.ReturnsCharged d) hr start
      (fun hr hs _ allow _ m => m.returnsCharged hr hs (allow rfl _ hs)) raise_returnsCharged
      Task.ReturnsCharged.kept along run
    rw [hs] at hs'
    cases hs'
    exact (inv_of_reachableBy hτ).settles hret

/-! ### Retries -/

theorem Inv.paid_booking (inv : Inv σ) (hp : σ.db.Charged q)
    (hu : ∃ b ∈ σ.db.bookings, b.id = q.bookingId ∧ b.userId = q.userId) :
    ∃ b, σ.db.booking? q.bookingId = some b ∧ b.userId = q.userId ∧ b.status ≠ .reserved := by
  obtain ⟨b, hb, hid, huser⟩ := hu
  obtain ⟨p, hp, hpid, -⟩ := hp
  obtain ⟨b', hb', hid', ph, -, hc, hpay⟩ := inv.paid hp
  rw [hpid] at hc hid'
  obtain rfl := hc.eq_of_mem hb hid
  refine ⟨b, hid ▸ inv.booking?_eq hb, huser, fun hst => ?_⟩
  rw [hc.status] at hst
  cases ph <;> simp [Phase.payment, Phase.status] at hpay hst

theorem pay_refused {b : Booking} {x : Choice} (hview : σ.view i = σ.db) (hb : σ.db.booking? q.bookingId = some b)
    (hu : b.userId = q.userId) (hst : b.status ≠ .reserved) (free : σ.store.Free i (.bookingRow q.bookingId)) :
    payBooking σ i began q x .awaitBooking = some (.close, .finished (.error (notReserved b.status))) := by
  simp [payBooking, free, hview, hb, hu, hst, notReserved]

theorem pay_located {b : Booking} {x : Choice} (hview : σ.view i = σ.db) (hb : σ.db.booking? q.bookingId = some b) :
    payBooking σ i began q x .lockBooking = some (.read, .awaitBooking) := by
  simp only [payBooking, hview, hb]

theorem refused_statement {s : Session} {t : Task} {x : Choice} {e : Effect} (inv : Inv σ)
    (hs : σ.sessions[i]? = some s) (hq : s.task.request = .pay q) (hp : σ.db.Charged q)
    (hu : ∃ b ∈ σ.db.bookings, b.id = q.bookingId ∧ b.userId = q.userId) (h : s.task.Refused)
    (hc : s.statement cat σ i x = some (e, t)) : t.Refused := by
  obtain ⟨b, hb, huser, hst⟩ := inv.paid_booking hp hu
  obtain ⟨began, t'⟩ := s
  have ok := inv.taskOk hs
  unfold Task.Refused at h
  split at h
  · rename_i q' ht
    obtain rfl : t' = .pay q' .lockBooking := ht
    obtain rfl : q' = q := Request.pay.inj hq
    have hview : σ.view i = σ.db := view_of_pending_nil (ok.pending_nil rfl)
    simp only [Session.statement, pay_located hview hb, Option.map_some, Option.some.injEq, Prod.mk.injEq] at hc
    rw [← hc.2]
    trivial
  · rename_i q' ht
    obtain rfl : t' = .pay q' .awaitBooking := ht
    obtain rfl : q' = q := Request.pay.inj hq
    have hview : σ.view i = σ.db := view_of_pending_nil (ok.pending_nil rfl)
    by_cases free : σ.store.Free i (.bookingRow q'.bookingId)
    · simp only [Session.statement, pay_refused hview hb huser hst free, Option.map_some, Option.some.injEq,
        Prod.mk.injEq] at hc
      rw [← hc.2]
      exact Or.inr ⟨b.status, hst, rfl⟩
    · simp only [Session.statement, payBooking, free, if_false, Option.map_none] at hc
      cases hc
  · rename_i q' r ht
    obtain rfl : t' = .pay q' (.finished r) := ht
    cases (statement_move hc).not_finished
  · exact h.elim

theorem raise_refused {t t' : Task} (h : t.Refused) (hraise : t.raise = some t') : t'.Refused := by
  cases t with
  | pay q pc =>
    simp only [Task.raise, Option.ite_none_right_eq_some, Option.some.injEq] at hraise
    obtain ⟨-, rfl⟩ := hraise
    exact Or.inl rfl
  | _ => exact h.elim

/-- On its own the request is refused by its second statement. -/
theorem not_replays (inv : Inv σ) (hp : σ.db.Charged q)
    (hu : ∃ b ∈ σ.db.bookings, b.id = q.bookingId ∧ b.userId = q.userId) :
    ¬Replays cat σ q := by
  intro h
  obtain ⟨b, hb, huser, hst⟩ := inv.paid_booking hp hu
  have hs : (σ.alone [.pay q]).sessions[0]? = some ⟨σ.now, .pay q .lockBooking⟩ := rfl
  have hview : (σ.alone [.pay q]).view 0 = (σ.alone [.pay q]).db := rfl
  have hb' : (σ.alone [.pay q]).db.booking? q.bookingId = some b := hb
  have hfirst : Session.statement cat (σ.alone [.pay q]) 0 ⟨σ.now, .pay q .lockBooking⟩ ⟨0, 0, 0⟩ =
      some (.read, .pay q .awaitBooking) := by
    simp only [Session.statement, pay_located hview hb', Option.map_some]
  obtain ⟨τ, hτ⟩ : ∃ τ, τ = ((σ.alone [.pay q]).perform 0 .read).goto 0 ⟨σ.now, .pay q .lockBooking⟩
    (.pay q .awaitBooking) :=
    ⟨_, rfl⟩
  have hsτ : τ.sessions[0]? = some ⟨σ.now, .pay q .awaitBooking⟩ := hτ ▸ goto_sessions_self hs
  have hsecond : Session.statement cat τ 0 ⟨σ.now, .pay q .awaitBooking⟩ ⟨0, 0, 0⟩ =
      some (.close, .pay q (.finished (.error (notReserved b.status)))) := by
    have free : τ.store.Free 0 (.bookingRow q.bookingId) := by
      rw [hτ]
      exact Or.inl rfl
    have hviewτ : τ.view 0 = τ.db := by rw [hτ]; exact hview
    have hbτ : τ.db.booking? q.bookingId = some b := by rw [hτ]; exact hb
    simp only [Session.statement, pay_refused hviewτ hbτ huser hst free, Option.map_some]
  have run : exec (step cat) (σ.alone [.pay q]) (runs 0 2 0) =
      some ((τ.perform 0 .close).goto 0 ⟨σ.now, .pay q .awaitBooking⟩
        (.pay q (.finished (.error (notReserved b.status))))) := by
    show exec (step cat) (σ.alone [.pay q]) [.run 0 ⟨0, 0, 0⟩, .run 0 ⟨0, 0, 0⟩] = _
    rw [exec_cons, step_run hs hfirst, Option.bind_some, ← hτ, exec_cons, step_run hsτ hsecond,
      Option.bind_some, exec_nil]
  obtain ⟨⟨b', hok, -⟩, -⟩ := h _ _ run (by decide) _ _ (goto_sessions_self hsτ)
  cases hok

/-- A request for a booking that is paid under its own key never returns: on its own, and among whatever other requests,
    it is refused by the check of the status. -/
theorem replay_refused (hr : Reachable cat σ) (hp : σ.db.Charged q)
    (hu : ∃ b ∈ σ.db.bookings, b.id = q.bookingId ∧ b.userId = q.userId) :
    ¬Replays cat σ q ∧ ∀ acts τ, exec (step cat) σ (.request (.pay q) :: acts) = some τ → ∀ began r,
      τ.sessions[σ.sessions.length]? = some ⟨began, .pay q (.finished r)⟩ →
        r = .error .databaseError ∨ ∃ st, st ≠ .reserved ∧ r = .error (notReserved st) := by
  refine ⟨not_replays (inv_of_reachableBy hr) hp hu, fun acts τ run began r hs => ?_⟩
  have along : Along (step cat) (fun _ _ => True) σ (.request (.pay q) :: acts) := along_of_forall fun _ _ => trivial
  have start : (Request.pay q).task.Refused := trivial
  obtain ⟨s', hs', -, -, -, -, href⟩ := request_run
    (P := fun d t => d.Charged q ∧ (∃ b ∈ d.bookings, b.id = q.bookingId ∧ b.userId = q.userId) ∧
      t.request = .pay q ∧ t.Refused)
    hr ⟨hp, hu, rfl, start⟩
    (fun {υ x e s t} hr hs ⟨hp, hu, hq, h⟩ _ hc m => by
      have kept := kept_perform (noDelete_of_reachable hr) σ.sessions.length e
      exact ⟨hp.kept kept, kept.owner hu, m.request.trans hq,
        refused_statement (inv_of_reachableBy hr) hs hq hp hu h hc⟩)
    (fun ⟨hp, hu, hq, h⟩ hraise => ⟨hp, hu, (raise_request hraise).trans hq, raise_refused h hraise⟩)
    (fun kept ⟨hp, hu, hq, h⟩ => ⟨hp.kept kept, kept.owner hu, hq, h⟩) along run
  rw [hs] at hs'
  cases hs'
  exact href

instance (σ : State) : (s : Session) → Decidable (s.FindsOwnPayment σ)
  | ⟨_, .pay _ (.checkPayment _)⟩ => inferInstanceAs (Decidable (∀ _ ∈ _, _))
  | ⟨_, .pay _ .lockBooking⟩ | ⟨_, .pay _ .awaitBooking⟩ | ⟨_, .pay _ (.attempt _)⟩ | ⟨_, .pay _ (.charge _)⟩
  | ⟨_, .pay _ (.charging _)⟩ | ⟨_, .pay _ (.record _ _ _)⟩ | ⟨_, .pay _ (.commit _)⟩ | ⟨_, .pay _ (.invalidate _)⟩
  | ⟨_, .pay _ (.finished _)⟩ | ⟨_, .create _ _⟩ | ⟨_, .refund _ _⟩ | ⟨_, .cleanup _⟩ => isTrue trivial

instance (d : Db) (q : PayRequest) : Decidable (d.Charged q) := inferInstanceAs (Decidable (∃ _ ∈ _, _))

/-- User 1 pays for a booking with key 70, and user 2 has a reservation. -/
def paidRun : List Act :=
  .request (.create ⟨1, 20, 40, 50, none⟩) :: runs 0 9 60 ++ .request (.pay ⟨60, 1, 70, none⟩) :: runs 1 9 80 ++
    .request (.create ⟨2, 20, 41, 51, none⟩) :: runs 2 9 61

/-- User 1 sends the paid request again. -/
theorem replay_refused_paid : ∃ σ, Reachable sampleCatalog σ ∧ ¬Replays sampleCatalog σ ⟨60, 1, 70, none⟩ ∧
    ∀ acts τ, exec (step sampleCatalog) σ (.request (.pay ⟨60, 1, 70, none⟩) :: acts) = some τ → ∀ began r,
      τ.sessions[σ.sessions.length]? = some ⟨began, .pay ⟨60, 1, 70, none⟩ (.finished r)⟩ →
        r = .error .databaseError ∨ ∃ st, st ≠ .reserved ∧ r = .error (notReserved st) := by
  have hrun : (exec (step sampleCatalog) (.seeded 0) paidRun).any (fun σ : State =>
      decide (σ.db.Charged ⟨60, 1, 70, none⟩) && decide (∃ b ∈ σ.db.bookings, b.id = 60 ∧ b.userId = 1)) = true := by
        decide
  obtain ⟨σ, hσ, htest⟩ := reachable_of_run hrun
  obtain ⟨hp, hu⟩ := Bool.and_eq_true_iff.mp htest
  exact ⟨σ, hσ, replay_refused hσ (of_decide_eq_true hp) (of_decide_eq_true hu)⟩

/-- The retry that the key is there for is refused. -/
theorem replay_fails : ¬∀ (cat : Catalog) (σ : State) (q : PayRequest), Reachable cat σ → σ.db.Charged q →
    (∃ b ∈ σ.db.bookings, b.id = q.bookingId ∧ b.userId = q.userId) → Replays cat σ q := by
  intro h
  have hrun : (exec (step sampleCatalog) (.seeded 0) paidRun).any (fun σ : State =>
      decide (σ.db.Charged ⟨60, 1, 70, none⟩) && decide (∃ b ∈ σ.db.bookings, b.id = 60 ∧ b.userId = 1)) = true := by
        decide
  obtain ⟨σ, hσ, htest⟩ := reachable_of_run hrun
  obtain ⟨hp, hu⟩ := Bool.and_eq_true_iff.mp htest
  have hp : σ.db.Charged ⟨60, 1, 70, none⟩ := of_decide_eq_true hp
  have hu : ∃ b ∈ σ.db.bookings, b.id = 60 ∧ b.userId = 1 := of_decide_eq_true hu
  exact not_replays (inv_of_reachableBy hσ) hp hu (h _ σ _ hσ hp hu)

/-- User 2 pays with a key of their own. -/
theorem returns_settled_ownKey : ∃ σ τ, Reachable sampleCatalog σ ∧ exec (step sampleCatalog) σ
    (.request (.pay ⟨61, 2, 71, none⟩) :: runs 3 9 81) = some τ ∧ (∀ s ∈ τ.sessions, s.task.isFinished = true) ∧
      τ.ReturnsSettled σ.sessions.length ⟨61, 2, 71, none⟩ := by
  have hrun : (exec (step sampleCatalog) (.seeded 0) paidRun).any (fun σ : State =>
      (exec (step sampleCatalog) σ (.request (.pay ⟨61, 2, 71, none⟩) :: runs 3 9 81)).any
        (fun τ : State => τ.sessions.all (·.task.isFinished)) &&
      decide (Along (step sampleCatalog) (ChecksOwnPayment σ.sessions.length) σ
        (.request (.pay ⟨61, 2, 71, none⟩) :: runs 3 9 81))) = true := by decide
  obtain ⟨σ, hσ, htest⟩ := reachable_of_run hrun
  obtain ⟨hτ, along⟩ := Bool.and_eq_true_iff.mp htest
  obtain ⟨τ, hτ, hfin⟩ := (Option.any_eq_true _ _).mp hτ
  exact ⟨σ, τ, hσ, hτ, by simpa using hfin, (returns_settled_iff hσ hτ).mpr (of_decide_eq_true along)⟩

/-- User 2 pays with the key of user 1, and the reserved booking is returned as if it were paid. -/
theorem unpaid_booking_returned : ¬∀ (cat : Catalog) (σ : State), Reachable cat σ → ∀ (q : PayRequest) acts τ,
    exec (step cat) σ (.request (.pay q) :: acts) = some τ → τ.ReturnsSettled σ.sessions.length q := by
  intro h
  have hrun : (exec (step sampleCatalog) (.seeded 0) paidRun).any (fun σ : State =>
      (exec (step sampleCatalog) σ (.request (.pay ⟨61, 2, 70, none⟩) :: runs 3 3 81)).any (fun τ : State =>
        (τ.sessions[σ.sessions.length]?).any (fun s => decide (s.task =
          .pay ⟨61, 2, 70,
            none⟩ (.finished (.ok ⟨61, 2, 20, 41, .reserved, 51, 0, some (timedeltaMinutes 5), none, none,
            80000⟩)))) && decide (¬τ.db.Charged ⟨61, 2, 70, none⟩))) = true := by decide
  obtain ⟨σ, hσ, hτ⟩ := reachable_of_run hrun
  obtain ⟨τ, hτ, htest⟩ := (Option.any_eq_true _ _).mp hτ
  obtain ⟨hs, hnot⟩ := Bool.and_eq_true_iff.mp htest
  obtain ⟨⟨began, t⟩, hs, ht⟩ := (Option.any_eq_true _ _).mp hs
  obtain rfl := of_decide_eq_true ht
  obtain ⟨p, hp, hid, hkey, -⟩ := h _ σ hσ _ _ τ hτ began _ hs
  exact of_decide_eq_true hnot ⟨p, hp, hid, hkey⟩

end

end Railbook
