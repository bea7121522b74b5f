import Railbook.Charges

/-! Payments against the charges that the gateway executed. The gateway looks a key up without the amount, so a
    payment can record the cached result of a charge over another amount. -/

namespace Railbook
open ReadCommitted Transition

/-- The charge `a`, which the gateway executed, is what payment `p` records: same key, same amount, same reference. -/
structure Payment.BackedBy (p : Payment) (a : ChargeAnswer) : Prop where
  executed : a.executed = true
  idempotencyKey : a.call.idempotencyKey = p.idempotencyKey
  amount : a.call.amount = p.amount
  status : a.result.status = .success
  gatewayRef : a.result.gatewayRef = p.gatewayRef

/-- The executed charge `a` confirms booking `id`. -/
def State.ConfirmsBooking (σ : State) (a : ChargeAnswer) (id : Uuid) : Prop :=
  ∃ p ∈ σ.db.payments, p.status = .success ∧ p.bookingId = id ∧ p.idempotencyKey = a.call.idempotencyKey ∧
    p.gatewayRef = a.result.gatewayRef

/-- Every success payment is backed by an answer of the gateway, and an executed charge confirms one booking at most. -/
structure ChargesAgree (σ : State) : Prop where
  backed : ∀ p ∈ σ.db.payments, p.status = .success → ∃ a ∈ σ.history.answers, p.BackedBy a
  oneBooking : ∀ a ∈ σ.history.answers, a.executed = true → ∀ id id',
    σ.ConfirmsBooking a id → σ.ConfirmsBooking a id' → id = id'

/-- The gateway answered `a` from its cache, and the charge executed under the key of `a` was over the same amount. -/
def State.SameAmount (σ : State) (a : ChargeAnswer) : Prop :=
  a.result.status = .success → a.executed = false → ∀ x ∈ σ.history.answers, x.executed = true →
    x.call.idempotencyKey = a.call.idempotencyKey → x.call.amount = a.call.amount

/-- The next statement is the commit of `pay_booking`. -/
def Task.atPayCommit : Task → Bool
  | .pay _ (.commit _) => true
  | _ => false

/-- `pay_booking` commits no success that the gateway had executed for another amount. -/
def CommitsSameAmount (σ : State) : Act → Prop
  | .run i _ => (σ.sessions[i]?).any (·.task.atPayCommit) = true → ∀ a ∈ σ.history.answersOf i, σ.SameAmount a
  | _ => True

instance (σ : State) (a : ChargeAnswer) : Decidable (σ.SameAmount a) :=
  inferInstanceAs (Decidable (_ → _ → ∀ x ∈ σ.history.answers, _))

instance (σ : State) : (a : Act) → Decidable (CommitsSameAmount σ a)
  | .run i _ => inferInstanceAs (Decidable (_ → ∀ a ∈ σ.history.answersOf i, _))
  | .request _ | .raise _ | .tick _ | .updateConfig _ _ => isTrue trivial

section
variable {cat : Catalog} {σ τ υ : State} {i : Sid} {began : Time} {s : Session} {t : Task} {e : Effect} {now : Time}
  {acts : List Act}

/-- A payment has its key for itself. -/
theorem Inv.payment_unique (h : Inv σ) {p p' : Payment} (hp : p ∈ σ.db.payments) (hp' : p' ∈ σ.db.payments)
    (hkey : p.idempotencyKey = p'.idempotencyKey) : p = p' := by
  have hlen := (h.payments p'.idempotencyKey).1
  have hmem : p ∈ σ.db.paymentsUnder p'.idempotencyKey := List.mem_filter.mpr ⟨hp, decide_eq_true hkey⟩
  have hmem' : p' ∈ σ.db.paymentsUnder p'.idempotencyKey := List.mem_filter.mpr ⟨hp', decide_eq_true rfl⟩
  change (σ.db.paymentsUnder p'.idempotencyKey).length ≤ 1 at hlen
  rcases hl : σ.db.paymentsUnder p'.idempotencyKey with _ | ⟨y, _ | ⟨z, l⟩⟩
  · rw [hl] at hmem
    cases hmem
  · rw [hl, List.mem_singleton] at hmem hmem'
    rw [hmem, hmem']
  · rw [hl] at hlen
    simp at hlen

/-- No executed charge confirms two bookings, in any run. -/
theorem confirms_one_booking (inv : Inv σ) {a : ChargeAnswer} {id id' : Uuid} (h : σ.ConfirmsBooking a id)
    (h' : σ.ConfirmsBooking a id') : id = id' := by
  obtain ⟨p, hp, -, rfl, hkey, -⟩ := h
  obtain ⟨p', hp', -, rfl, hkey', -⟩ := h'
  rw [inv.payment_unique hp hp' (hkey.trans hkey'.symm)]

/-- The charge that the gateway executed under the key of an answer, if the answer is for the same amount. -/
theorem backed_of_answer {a : ChargeAnswer} {p : Payment} (log : σ.GatewayLog) (ha : a ∈ σ.history.answers)
    (hrec : p.Records a.call a.result) (hst : p.status = .success) (same : σ.SameAmount a) :
    ∃ x ∈ σ.history.answers, p.BackedBy x := by
  have hsuccess : a.result.status = .success := hrec.status.symm.trans hst
  by_cases hx : a.executed = true
  · exact ⟨a, ha, hx, hrec.idempotencyKey.symm, hrec.amount.symm, hsuccess, hrec.gatewayRef.symm⟩
  · obtain ⟨x, hmem, hex, hkey, hres⟩ := log.executed _ _ (log.cached a ha)
    have hamount := same hsuccess (by simpa using hx) x hmem hex hkey
    exact ⟨x, hmem, hex, hkey.trans hrec.idempotencyKey.symm, hamount.trans hrec.amount.symm, hres ▸ hsuccess,
      hres ▸ hrec.gatewayRef.symm⟩

theorem atPayCommit_of_move (acc : σ.AccountOk i) (hs : σ.sessions[i]? = some s) (m : Move cat σ i s .commit t)
    {a : ChargeAnswer} (ha : a ∈ σ.history.answersOf i) : s.task.atPayCommit = true := by
  have hok := acc.task hs
  have loud : ¬σ.history.Silent i := fun h => by
    rw [h.2] at ha
    cases ha
  cases m with
  | pay m => cases m with | committed => rfl
  | create m => exact absurd hok loud
  | refund m => exact absurd hok loud
  | cleanup m => exact absurd hok loud

theorem backed_of_reachable (h : ReachableBy cat CommitsSameAmount σ) :
    ∀ p ∈ σ.db.payments, p.status = .success → ∃ a ∈ σ.history.answers, p.BackedBy a := by
  refine h.invariant (I := fun σ => ∀ p ∈ σ.db.payments, p.status = .success → ∃ a ∈ σ.history.answers, p.BackedBy a)
    ?_ ?_
  · rintro σ ⟨now, rfl⟩ p hp
    cases hp
  · intro σ a τ hr hb allow hstep p hp hst
    have hreach : Reachable cat σ := hr.mono fun _ _ _ => trivial
    have hbacked : ∃ x ∈ σ.history.answers, p.BackedBy x := by
      by_cases hold : p ∈ σ.db.payments
      · exact hb p hold hst
      · obtain ⟨i, x, s, t, rfl, hs, m, y, hy, hrec⟩ := committed_payment hreach hstep hp hold
        have hat := atPayCommit_of_move (accounts_of_reachable hreach i) hs m hy
        have hsame := allow (by rw [hs]; exact hat) y hy
        exact backed_of_answer (gatewayLog_of_reachable hreach) (mem_answersOf.mp hy).1 hrec hst hsame
    obtain ⟨x, hx, hbacked⟩ := hbacked
    exact ⟨x, answers_step hx hstep, hbacked⟩

/-- A commit of a success that was executed for another amount leaves a payment that nothing backs. -/
theorem not_backed_of_commit {x : Choice} (hr : Reachable cat σ) (hstep : step cat σ (.run i x) = some τ)
    (h : ¬CommitsSameAmount σ (.run i x)) (run : exec (step cat) τ acts = some υ) : ¬ChargesAgree υ := by
  simp only [CommitsSameAmount, Classical.not_imp, not_forall] at h
  obtain ⟨hat, a, ha, hdiff⟩ := h
  simp only [State.SameAmount, Classical.not_imp, not_forall] at hdiff
  obtain ⟨hst, hx, y, hy, hey, hkey, hamount⟩ := hdiff
  obtain ⟨s, hs, hat⟩ := (Option.any_eq_true _ _).mp hat
  obtain ⟨began, t⟩ := s
  cases t with
  | pay q pc =>
    cases pc with
    | commit b =>
      obtain ⟨τ', hτ, p, hp, hrec⟩ := paid_of_commit hr hs ha x
      obtain rfl : τ = τ' := Option.some.inj (hstep.symm.trans hτ)
      have hrτ : Reachable cat τ := hr.next trivial hstep
      intro hagree
      obtain ⟨z, hz, hbacked⟩ := hagree.backed p ((kept_exec hrτ run).payments p hp) (hrec.status.trans hst)
      have hy' : y ∈ υ.history.answers := answers_exec (answers_step hy hstep) run
      have hlog := gatewayLog_of_reachable (reachable_exec hrτ run)
      have hzkey : z.call.idempotencyKey = y.call.idempotencyKey := by
        rw [hbacked.idempotencyKey, hrec.idempotencyKey, hkey]
      obtain rfl := hlog.executed_unique hz hy' hbacked.executed hey hzkey
      exact hamount (hbacked.amount.trans hrec.amount)
    | _ => cases hat
  | _ => cases hat

/-- In every run, payments and executed charges agree at the end if and only if no success is committed that the gateway
    had executed for another amount. -/
theorem charges_agree_iff (run : exec (step cat) (.seeded now) acts = some σ) :
    ChargesAgree σ ↔ Along (step cat) CommitsSameAmount (.seeded now) acts := by
  have start : Reachable cat (.seeded now) := .start ⟨now, rfl⟩
  constructor
  · intro hagree
    by_contra hnot
    obtain ⟨pre, a, post, u, v, rfl, hpre, hfail, hstep, hpost⟩ := exists_step_of_not_along run hnot
    have hu : Reachable cat u := reachable_exec start hpre
    cases a with
    | run i x => exact not_backed_of_commit hu hstep hfail hpost hagree
    | _ => exact hfail trivial
  · intro along
    have hσ : ReachableBy cat CommitsSameAmount σ := (Reach.start ⟨now, rfl⟩).exec along run
    have inv := inv_of_reachableBy hσ
    exact ⟨backed_of_reachable hσ, fun a _ _ id id' h h' => confirms_one_booking inv h h'⟩

/-- Two bookings of different prices are paid under one key at the same time. The second one records its payment
    before the first one does. -/
def sharedKeyRun : List Act :=
  [.request (.create ⟨1, 20, 40, 50, none⟩), .request (.create ⟨2, 20, 41, 51, none⟩)] ++ runs 0 9 60 ++ runs 1 9 61 ++
    [.request (.pay ⟨60, 1, 70, none⟩), .request (.pay ⟨61, 2, 70, none⟩)] ++ runs 2 6 80 ++ runs 3 9 81

/-- The two bookings are paid under different keys. -/
def ownKeysRun : List Act :=
  [.request (.create ⟨1, 20, 40, 50, none⟩), .request (.create ⟨2, 20, 41, 51, none⟩)] ++ runs 0 9 60 ++ runs 1 9 61 ++
    [.request (.pay ⟨60, 1, 70, none⟩), .request (.pay ⟨61, 2, 71, none⟩)] ++ runs 2 6 80 ++ runs 3 9 81

theorem charges_agree_ownKeys : ∃ σ : State, exec (step sampleCatalog) (.seeded 0) ownKeysRun = some σ ∧
    ChargesAgree σ := by
  have along : Along (step sampleCatalog) CommitsSameAmount (.seeded 0) ownKeysRun := by decide
  have hsome : (exec (step sampleCatalog) (.seeded 0) ownKeysRun).isSome = true := by decide
  obtain ⟨σ, hσ⟩ := Option.isSome_iff_exists.mp hsome
  exact ⟨σ, hσ, (charges_agree_iff hσ).mpr along⟩

/-- A payment of 800.00 is committed as a success, and the one charge that the gateway executed was over 1500.00. -/
theorem charges_disagree : ¬∀ (cat : Catalog) (σ : State), Reachable cat σ → ChargesAgree σ := by
  intro agree
  have hrun : (exec (step sampleCatalog) (.seeded 0) sharedKeyRun).any (fun σ : State => σ.db.payments.any fun p =>
      p.status = .success && σ.history.answers.all fun a => a.call.amount ≠ p.amount || !a.executed) = true := by decide
  obtain ⟨σ, hσ, htest⟩ := reachable_of_run hrun
  obtain ⟨p, hp, htest⟩ := List.any_eq_true.mp htest
  obtain ⟨hst, hall⟩ := Bool.and_eq_true_iff.mp htest
  obtain ⟨a, ha, hbacked⟩ := (agree _ σ hσ).backed p hp (of_decide_eq_true hst)
  have := List.all_eq_true.mp hall a ha
  simp [hbacked.amount, hbacked.executed] at this

end

end Railbook
