import Railbook.ChargeLedger
import Railbook.NoDoubleCharge
import Railbook.Revenue
import Railbook.Transactions

/-! The money of the gateway against the tables. As long as the commits of payments and refunds succeed and a payment
    key is for one booking, what the gateway has taken is the reported revenue and what sessions have charged and not
    committed, and what it has paid back is what the refunded bookings cost. -/

namespace Railbook
open ReadCommitted Transition Table

/-- The money that the gateway took with an answer. -/
def ChargeAnswer.taken (a : ChargeAnswer) : Amount :=
  if a.executed = true ∧ a.result.status = .success then a.call.amount else 0

namespace History
variable (h : History)

/-- The money that the gateway has taken. -/
def charged : Amount := (h.answers.map (·.taken)).sum

/-- The money that a refund is about: that of the charges for its booking with its reference. -/
def moneyOf (c : RefundCall) : Amount :=
  ((h.answers.filter fun a => a.call.bookingId = c.bookingId ∧ a.result.gatewayRef = c.ref).map (·.taken)).sum

/-- The money that the gateway has paid back. -/
def paidBack : Amount := (h.refunds.map h.moneyOf).sum

end History

/-- What a session has charged and not committed. -/
def Task.unsettled : Task → Amount
  | .pay _ (.record b r _) => if r.status = .success then b.totalAmount else 0
  | .pay _ (.commit b) => if b.status = .confirmed then b.totalAmount else 0
  | _ => 0

/-- What all sessions have charged and not committed. -/
def State.unsettled (σ : State) : Amount := (σ.sessions.map (·.task.unsettled)).sum

/-- The call of `refund` that session `i` is waiting for. -/
def Task.awaits (i : Sid) : Task → List RefundCall
  | .refund _ (.refunding b ref) => [⟨i, b.id, ref⟩]
  | _ => []

/-- The gateway has executed every refund that session `i` has called, but the one that the session is waiting for. -/
def State.RefundsExecuted (σ : State) (i : Sid) : Prop :=
  (σ.sessions[i]?).elim (σ.history.refundCallsOf i = σ.history.refundsOf i) fun s =>
    σ.history.refundCallsOf i = σ.history.refundsOf i ++ s.task.awaits i

/-- What a transaction earns. -/
def Commit.revenue (c : Commit) : Amount :=
  match c.request with
  | .pay _ => ((c.rows.filter (·.status = .confirmed)).map (·.totalAmount)).sum
  | _ => 0

/-- Commits of payments and of refunds succeed, and every payment key is for one booking. -/
def Settling (σ : State) (a : Act) : Prop := Charging σ a ∧ RefundCommits σ a

instance (σ : State) (a : Act) : Decidable (Settling σ a) := inferInstanceAs (Decidable (_ ∧ _))

section
variable {cat : Catalog} {σ τ : State} {i : Sid} {began : Time} {s : Session} {t : Task} {e : Effect} {c : Commit}
  {b : Booking} {d d' : Db} {a a' : ChargeAnswer}

theorem taken_of_executed (h : a.executed = true) :
    a.taken = if a.result.status = .success then a.call.amount else 0 :=
  if_congr (and_iff_right h) rfl rfl

/-! ### One charge for a booking -/

theorem Charging.call_unique {x y : ChargeCall} (h : ReachableBy cat Charging σ) (hx : x ∈ σ.history.calls)
    (hy : y ∈ σ.history.calls) (hid : x.bookingId = y.bookingId) : x = y := by
  have hle : (σ.history.calls.filter (·.bookingId = y.bookingId)).length ≤ 1 := by
    refine length_le_one_of_pairwise ((inTurn_of_reachable (Charging.reachable h)).filter _) fun c hc c' hc' hlost => ?_
    have hc : c.bookingId = y.bookingId := of_decide_eq_true (List.mem_filter.mp hc).2
    have hc' : c'.bookingId = y.bookingId := of_decide_eq_true (List.mem_filter.mp hc').2
    exact Charging.no_loss h c (hlost (hc.trans hc'.symm))
  have hsingle := eq_singleton_of_mem hle (List.mem_filter.mpr ⟨hy, decide_eq_true rfl⟩)
  exact List.mem_singleton.mp (hsingle ▸ List.mem_filter.mpr ⟨hx, decide_eq_true hid⟩)

theorem Charging.answer_unique (h : ReachableBy cat Charging σ) (ha : a ∈ σ.history.answers)
    (ha' : a' ∈ σ.history.answers) (hid : a.call.bookingId = a'.call.bookingId) : a = a' := by
  have acc := accounts_of_reachable (Charging.reachable h)
  obtain ⟨_, _, _, -, hx⟩ := answered_of_mem acc ha
  obtain ⟨_, _, _, -, hx'⟩ := answered_of_mem acc ha'
  have hcall : ∀ {x : ChargeAnswer}, σ.history.callsOf x.call.session = [x.call] → x.call ∈ σ.history.calls :=
    fun hcalls => (mem_callsOf.mp (hcalls ▸ List.mem_singleton_self _)).1
  have heq := Charging.call_unique h (hcall hx.calls) (hcall hx'.calls) hid
  have hone := hx'.answers
  rw [← heq, hx.answers] at hone
  exact List.singleton_inj.mp hone

/-- The gateway never answers from its cache. -/
theorem Charging.executed (h : ReachableBy cat Charging σ) (ha : a ∈ σ.history.answers) : a.executed = true := by
  have hr := Charging.reachable h
  have acc := accounts_of_reachable hr
  have log := gatewayLog_of_reachable hr
  obtain ⟨a', ha', hx, hkey, -⟩ := log.executed _ _ (log.cached a ha)
  obtain ⟨_, q, pc, hs, hq⟩ := answered_of_mem acc ha
  obtain ⟨_, q', pc', hs', hq'⟩ := answered_of_mem acc ha'
  have hbooking : q'.bookingId = q.bookingId :=
    Charging.keyed h _ (List.mem_of_getElem? hs') _ (List.mem_of_getElem? hs) q' q rfl rfl
      (hq'.idempotencyKey.symm.trans (hkey.trans hq.idempotencyKey))
  rw [Charging.answer_unique h ha ha' (hq.bookingId.trans (hbooking.symm.trans hq'.bookingId.symm))]
  exact hx

/-! ### What a step charges and what it earns -/

theorem Transact.totalRevenue (m : Transact cat d c d') :
    (getStats d').totalRevenue = (getStats d).totalRevenue + c.revenue := by
  cases m with
  | reserve time fresh unused vacant user schedule priced entry => rfl
  | @settle i q b r began t n n' admits unpaid unused sound entries =>
    by_cases hst : r.status = .success <;>
      simp [getStats, Db.settle, Commit.revenue, PaymentResult.book, hst]
  | refund admits entry => rfl
  | expire stored expired distinct entries => rfl

theorem revenue_of_commits (h : t.commits i = some c) : c.revenue = t.unsettled := by
  unfold Task.commits at h
  split at h <;> cases h
  · rfl
  · rename_i q b
    by_cases hst : b.status = .confirmed <;> simp [Commit.revenue, Task.unsettled, hst]
  · rfl
  · rfl

/-- What the gateway has taken and the report has not, on the one side, and what the session has charged, on the
    other, change by the same amount. -/
theorem Move.settles (hr : Reachable cat σ) (hs : σ.sessions[i]? = some s) (m : Move cat σ i s e t)
    (executed : ∀ a ∈ e.answers, a.executed = true)
    (passes : s.task.isCommittingPay = true → ∀ q x, t ≠ .pay q (.finished (.error x))) :
    (σ.perform i e).history.charged + s.task.unsettled + (getStats σ.db).totalRevenue =
      σ.history.charged + t.unsettled + (getStats (σ.perform i e).db).totalRevenue := by
  have hcharged : (σ.perform i e).history.charged = σ.history.charged + (e.answers.map (·.taken)).sum := by
    rw [History.charged, perform_answers, List.map_append, List.sum_append, ← History.charged]
  by_cases he : e = .commit
  · subst he
    obtain ⟨c, hc⟩ := m.commits_of_commit
    have hrevenue := (commit_transacts hr hs hc).totalRevenue
    have ht : t.unsettled = 0 := by
      cases m with
      | create m => rfl
      | pay m => cases m; rfl
      | refund m => rfl
      | cleanup m => rfl
    rw [hcharged, ht, show (σ.perform i .commit).db = σ.view i from rfl, hrevenue, revenue_of_commits hc]
    simp only [Effect.answers, List.map_nil, List.sum_nil]
    ring
  · have hdb : (σ.perform i e).db = σ.db := (perform_db σ i e).resolve_right fun h => he h.1
    have htask : (e.answers.map (·.taken)).sum + s.task.unsettled = t.unsettled := by
      cases m with
      | create m => cases m <;> rfl
      | @pay began q pc pc' e m =>
        cases m with
        | committed => exact absurd rfl he
        | answered x =>
          have hexec := executed _ (List.mem_singleton_self _)
          exact taken_of_executed hexec
        | @recorded b r y free hp =>
          by_cases hst : r.status = .success <;>
            simp [Effect.answers, Task.unsettled, PaymentResult.book, hst]
        | failed x hpc server =>
          cases pc with
          | record b r y => exact absurd rfl (passes rfl _ x)
          | commit b => exact absurd rfl (passes rfl _ x)
          | _ => rfl
        | _ => rfl
      | refund m => cases m <;> rfl
      | cleanup m => cases m <;> rfl
    rw [hcharged, hdb, ← htask]
    ring

/-- What the gateway has taken is in the report, or some session has charged it and not committed. -/
theorem Charging.charged_eq (h : ReachableBy cat Charging σ) :
    σ.history.charged = (getStats σ.db).totalRevenue + σ.unsettled := by
  refine h.invariant (I := fun σ => σ.history.charged = (getStats σ.db).totalRevenue + σ.unsettled) ?_ ?_
  · rintro σ ⟨now, rfl⟩
    rfl
  · intro σ a τ hch hsum allow hstep
    have hr := Charging.reachable hch
    have executed : ∀ x ∈ τ.history.answers, x.executed = true :=
      fun x hx => Charging.executed (hch.next allow hstep) hx
    have moved : ∀ {i s e t}, σ.sessions[i]? = some s → Move cat σ i s e t →
        (∀ x ∈ (σ.perform i e).history.answers, x.executed = true) →
        (s.task.isCommittingPay = true → ∀ q x, t ≠ .pay q (.finished (.error x))) →
        (σ.perform i e).history.charged =
          (getStats (σ.perform i e).db).totalRevenue + ((σ.perform i e).goto i s t).unsettled := by
      intro i s e t hs m hexec passes
      have hnew : ∀ x ∈ e.answers, x.executed = true := fun x hx =>
        hexec x (by rw [perform_answers]; exact List.mem_append_right _ hx)
      have hmove := m.settles hr hs hnew passes
      have hgoto := sum_goto (fun s : Session => s.task.unsettled) (e := e) (t := t) hs
      have balance : ∀ {x x' u u' v v' r r' : Nat}, x' + u + r = x + v + r' → u' + u = v' + v → x = r + v' →
        x' = r' + u' := by
        omega
      exact balance hmove hgoto hsum
    cases step_stepped hstep with
    | request r =>
      have hnew : r.task.unsettled = 0 := by cases r <;> rfl
      rw [hsum, State.unsettled, State.unsettled, List.map_append, List.sum_append, List.map_singleton,
        List.sum_singleton, hnew]
      rfl
    | @run i y s e t hs hc m =>
      refine moved hs m executed fun hp q x ht => ?_
      obtain ⟨began, t'⟩ := s
      cases t' with
      | pay q' pc =>
        cases pc with
        | record b r z =>
          simp only [Session.statement, record_passes (inv_of_reachableBy hr) (accounts_of_reachable hr)
            (traced_of_reachable hr) (Charging.keyed hch) hs y, Option.map_some, Option.some.injEq, Prod.mk.injEq] at hc
          rw [← hc.2] at ht
          cases ht
        | commit b =>
          cases hc
          cases ht
        | _ => cases hp
      | _ => cases hp
    | raise hs hraise m =>
      refine moved hs m executed fun hp => ?_
      have hall := allow.1
      simp only [CommitSucceeds, hs, Option.all_some, hp, Bool.not_true, Bool.false_eq_true] at hall
    | tick d => exact hsum
    | updateConfig failureRate latencyMs => exact hsum

/-! ### What is paid back -/

/-- A call is waited for until it is executed. -/
theorem Move.awaits (m : Move cat σ i s e t) : s.task.awaits i ++ e.refundCalls = e.refunds ++ t.awaits i := by
  cases m with
  | create m => cases m <;> rfl
  | pay m => cases m <;> rfl
  | @refund began q pc pc' e m =>
    cases m with
    | failed x hx server =>
      cases pc with
      | refunding b ref => cases hx
      | _ => rfl
    | _ => rfl
  | cleanup m => cases m <;> rfl

theorem Move.refundsExecuted (hs : σ.sessions[i]? = some s) (h : ∀ j, σ.RefundsExecuted j) (m : Move cat σ i s e t) :
    ∀ j, ((σ.perform i e).goto i s t).RefundsExecuted j := by
  intro j
  refine elim_goto hs (h j) ?_ fun hj => ?_
  · rintro rfl
    have hself := h j
    rw [State.RefundsExecuted, hs, Option.elim_some] at hself
    have hcalls : e.refundCalls.filter (·.session = j) = e.refundCalls :=
      List.filter_eq_self.mpr fun c hc => decide_eq_true (m.own_refundCall c hc)
    have hrefunds : e.refunds.filter (·.session = j) = e.refunds :=
      List.filter_eq_self.mpr fun c hc => decide_eq_true (m.own_refund c hc)
    rw [goto_history, perform_refundCallsOf, perform_refundsOf, hcalls, hrefunds, hself, List.append_assoc, m.awaits,
      List.append_assoc]
  · have hcalls : (σ.perform i e).history.refundCallsOf j = σ.history.refundCallsOf j := by
      rw [perform_refundCallsOf, filter_eq_nil_of_ne m.own_refundCall hj, List.append_nil]
    have hrefunds : (σ.perform i e).history.refundsOf j = σ.history.refundsOf j := by
      rw [perform_refundsOf, filter_eq_nil_of_ne m.own_refund hj, List.append_nil]
    rw [goto_history, hcalls, hrefunds]
    exact ⟨id, fun _ _ => id⟩

theorem refundsExecuted_of_reachable (hr : Reachable cat σ) : ∀ i, σ.RefundsExecuted i := by
  refine hr.invariant (I := fun σ => ∀ i, σ.RefundsExecuted i) ?_ ?_
  · rintro σ ⟨now, rfl⟩ i
    rfl
  · intro σ a τ _ h _ hstep
    cases step_stepped hstep with
    | request r =>
      exact fun j => elim_snoc (h j) fun hsame => by cases r <;> simpa [Request.task, Task.awaits] using hsame
    | run hs hc m => exact m.refundsExecuted hs h
    | raise hs hraise m => exact m.refundsExecuted hs h
    | tick d => exact h
    | updateConfig failureRate latencyMs => exact h

/-- When every request has ended the gateway has executed the refunds that it was asked for. -/
theorem refunds_perm (hr : Reachable cat σ) (hend : σ.AllFinished) : σ.history.refunds.Perm σ.history.refundCalls := by
  refine List.perm_iff_count.mpr fun c => ?_
  have hsame : σ.history.refundCallsOf c.session = σ.history.refundsOf c.session := by
    have h := refundsExecuted_of_reachable hr c.session
    unfold State.RefundsExecuted at h
    cases hs : σ.sessions[c.session]? with
    | none =>
      rw [hs] at h
      exact h
    | some s =>
      have hfinished := hend s (List.mem_of_getElem? hs)
      have hnone : s.task.awaits c.session = [] := by
        unfold Task.awaits
        split
        · rename_i htask
          rw [htask] at hfinished
          cases hfinished
        · rfl
      rw [hs, Option.elim_some, hnone, List.append_nil] at h
      exact h
  have hcount : ∀ l : List RefundCall, l.count c = (l.filter (·.session = c.session)).count c := fun l =>
    (List.count_filter (p := fun x : RefundCall => decide (x.session = c.session)) (decide_eq_true rfl)).symm
  rw [hcount, hcount σ.history.refundCalls]
  exact congrArg (List.count c) hsame.symm

theorem Settling.charging (h : ReachableBy cat Settling σ) : ReachableBy cat Charging σ := h.mono fun _ _ h => h.1

theorem Settling.refunding (h : ReachableBy cat Settling σ) : ReachableBy cat RefundCommits σ := h.mono fun _ _ h => h.2

/-- The money of a refund is what its booking cost. -/
theorem Settling.moneyOf_eq {c : RefundCall} (h : ReachableBy cat Settling σ) (hc : c ∈ σ.history.refundCalls)
    (hb : b ∈ σ.db.bookings) (hid : b.id = c.bookingId) (hst : b.status = .refunded) :
    σ.history.moneyOf c = b.totalAmount := by
  have hch := Settling.charging h
  have hr := Charging.reachable hch
  obtain ⟨p, hps, hsuccess, href, -⟩ := (refundLaw_of_reachable (Settling.refunding h) c.bookingId).ref c hc rfl
  obtain ⟨ph, hph, hconf⟩ := (inv_of_reachableBy hr).conforms_of_mem hb
  obtain ⟨p', hps', -, hamount, -⟩ := ((hconf.ledgerCoherent hph).refunded hst).1
  rw [hid, hps] at hps'
  obtain rfl := List.singleton_inj.mp hps'
  obtain ⟨hp, hpid⟩ := List.mem_filter.mp (show p ∈ σ.db.paymentsOf c.bookingId from hps ▸ List.mem_singleton_self p)
  obtain ⟨a, ha, hrec⟩ := (traced_of_reachable hr).committed p hp
  have haid : a.call.bookingId = c.bookingId := hrec.bookingId.symm.trans (of_decide_eq_true hpid)
  have hfilter : (σ.history.answers.filter fun a => a.call.bookingId = c.bookingId ∧ a.result.gatewayRef = c.ref) =
    [a] := by
    refine eq_singleton_of_mem (length_le_one_of_pairwise ((gatewayLog_of_reachable hr).first.filter _) ?_) ?_
    · intro x hx y hy hne
      obtain ⟨hx, hxc⟩ := List.mem_filter.mp hx
      obtain ⟨hy, hyc⟩ := List.mem_filter.mp hy
      have hxid := (of_decide_eq_true hxc).1
      have hyid := (of_decide_eq_true hyc).1
      exact hne (Charging.executed hch hy) (by rw [Charging.answer_unique hch hx hy (hxid.trans hyid.symm)])
    · exact List.mem_filter.mpr ⟨ha, decide_eq_true ⟨haid, hrec.gatewayRef.symm.trans href⟩⟩
  have htaken : a.taken = a.call.amount :=
    (taken_of_executed (Charging.executed hch ha)).trans (if_pos (hrec.status.symm.trans hsuccess))
  rw [History.moneyOf, hfilter, List.map_singleton, List.sum_singleton, htaken, ← hrec.amount, hamount]

/-- A call that is over has refunded its booking. -/
theorem Settling.refunded_of_call {c : RefundCall} (h : ReachableBy cat Settling σ) (hend : σ.AllFinished)
    (hc : c ∈ σ.history.refundCalls) : ∃ b ∈ σ.db.bookings, b.id = c.bookingId ∧ b.status = .refunded := by
  have inv := inv_of_reachableBy h
  obtain ⟨-, -, ⟨s, hs, hrefunding⟩ | hl⟩ := refundCall_fate inv (callAccounts_of_reachable (Settling.refunding h)) hc
  · have hfinished := hend s (List.mem_of_getElem? hs)
    unfold Task.Refunding at hrefunding
    split at hrefunding <;> simp_all [Task.isFinished]
  · exact inv.refunded_of_logged hl

theorem Settling.paidBack_eq (h : ReachableBy cat Settling σ) (hend : σ.AllFinished) :
    σ.history.paidBack = σ.db.amountOf .refunded := by
  have inv := inv_of_reachableBy h
  have law := fun id => refundLaw_of_reachable (Settling.refunding h) id
  let refunded := σ.db.bookings.filter (·.status = .refunded)
  have hmoney : ∀ c ∈ σ.history.refundCalls,
      σ.history.moneyOf c = ((refunded.filter fun b => c.bookingId == b.id).map (·.totalAmount)).sum := by
    intro c hc
    obtain ⟨b, hb, hid, hst⟩ := Settling.refunded_of_call h hend hc
    have hone : refunded.filter (fun b => c.bookingId == b.id) = [b] := by
      refine eq_singleton_of_mem
        (length_filter_le_one (k := c.bookingId) (inv.ids_nodup.sublist (List.filter_sublist.map _))
        fun x _ hx => (beq_iff_eq.mp hx).symm) ?_
      exact List.mem_filter.mpr ⟨List.mem_filter.mpr ⟨hb, decide_eq_true hst⟩, beq_iff_eq.mpr hid.symm⟩
    rw [Settling.moneyOf_eq h hc hb hid hst, hone, List.map_singleton, List.sum_singleton]
  have honce : ∀ b ∈ refunded, (σ.history.refundCalls.countP fun c => c.bookingId == b.id) = 1 := by
    intro b hb
    obtain ⟨hb, hst⟩ := List.mem_filter.mp hb
    obtain ⟨c, hc, hid⟩ := (law b.id).called b hb rfl (of_decide_eq_true hst)
    have hle := (law b.id).once
    have hpos : 0 < σ.history.refundCalls.countP fun c => c.bookingId == b.id :=
      List.countP_pos_iff.mpr ⟨c, hc, beq_iff_eq.mpr hid⟩
    rw [History.refundCallsFor, ← List.countP_eq_length_filter] at hle
    exact Nat.le_antisymm hle hpos
  have hperm := refunds_perm (Charging.reachable (Settling.charging h)) hend
  rw [History.paidBack, (hperm.map _).sum_eq, List.map_congr_left hmoney, sum_fibers honce, Db.amountOf]

/-- As long as the commits of payments and refunds succeed and a payment key is for one booking, the money that the
    gateway has taken is at every moment the reported revenue and what sessions have charged and not committed yet.
    When all requests have been answered, the gateway has paid back what the refunded bookings cost, and has kept what
    the confirmed ones do. -/
theorem money_reconciles (h : ReachableBy cat Settling σ) :
    σ.history.charged = (getStats σ.db).totalRevenue + σ.unsettled ∧
      (σ.AllFinished → σ.history.paidBack = σ.db.amountOf .refunded ∧
        σ.history.charged = σ.db.amountOf .confirmed + σ.history.paidBack) := by
  have hcharged := Charging.charged_eq (Settling.charging h)
  refine ⟨hcharged, fun hend => ?_⟩
  have hpaid := Settling.paidBack_eq h hend
  have hzero : σ.unsettled = 0 := by
    refine List.sum_eq_zero_iff_forall_eq_nat.mpr fun n hn => ?_
    obtain ⟨s, hs, rfl⟩ := List.mem_map.mp hn
    have hfinished := hend s hs
    unfold Task.unsettled
    split <;> simp_all [Task.isFinished]
  refine ⟨hpaid, ?_⟩
  rw [hcharged, hzero, (inv_of_reachableBy h).totalRevenue_eq, hpaid, Nat.add_zero]

/-- Two seats are booked and paid, and the first one is refunded. -/
def settledRun : List Act :=
  [.request (.create ⟨1, 20, 40, 50, none⟩), .request (.create ⟨2, 20, 41, 51, none⟩)] ++ runs 0 9 60 ++ runs 1 9 61 ++
    [.request (.pay ⟨60, 1, 70, none⟩), .request (.pay ⟨61, 2, 71, none⟩)] ++ runs 2 9 80 ++ runs 3 9 81 ++
    .request (.refund ⟨60, 1, none⟩) :: runs 4 9 82

theorem money_reconciles_run : ∃ σ : State, σ.history.paidBack = 150000 ∧
    σ.history.charged = (getStats σ.db).totalRevenue + σ.unsettled ∧
    σ.history.charged = σ.db.amountOf .confirmed + σ.history.paidBack := by
  have halong : Along (step sampleCatalog) Settling (.seeded 0) settledRun := by decide
  have hrun : (exec (step sampleCatalog) (.seeded 0) settledRun).any (fun σ : State =>
      decide ((∀ s ∈ σ.sessions, s.task.isFinished = true) ∧ σ.history.paidBack = 150000)) = true := by decide
  obtain ⟨σ, hσ, htest⟩ := reachableBy_of_run halong hrun
  obtain ⟨hend, hpaid⟩ := of_decide_eq_true htest
  exact ⟨σ, hpaid, (money_reconciles hσ).1, ((money_reconciles hσ).2 hend).2⟩

end

end Railbook
