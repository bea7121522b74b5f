import Railbook.Retries

/-! A refund is asked for once, as long as the commits of `refund_booking` succeed. The call of the gateway comes before
    the commit, under the lock of the booking, so until the commit nobody else finds the booking confirmed, and after it
    nobody does. -/

namespace Railbook
open ReadCommitted Transition

/-- The calls of `refund` that session `i` has made. -/
def History.refundCallsOf (h : History) (i : Sid) : List RefundCall := h.refundCalls.filter (·.session = i)

/-- The calls of `refund` for booking `id`. -/
def History.refundCallsFor (h : History) (id : Uuid) : List RefundCall := h.refundCalls.filter (·.bookingId = id)

/-- `session.commit()` of `refund_booking` is under way, with the flush that it makes. -/
def Task.isCommittingRefund : Task → Bool
  | .refund _ pc => pc.isAnswered
  | _ => false

/-- Commits of `refund_booking` succeed. -/
def RefundCommits (σ : State) : Act → Prop
  | .raise i => (σ.sessions[i]?).all fun s => !s.task.isCommittingRefund
  | _ => True

instance (σ : State) : (a : Act) → Decidable (RefundCommits σ a)
  | .raise _ => inferInstanceAs (Decidable (_ = true))
  | .request _ | .run _ _ | .tick _ | .updateConfig _ _ => isTrue trivial

/-- A success payment for the booking carries the reference. -/
def Db.RefundsTo (d : Db) (id : Uuid) (ref : Option GatewayRef) : Prop :=
  ∃ p ∈ d.payments, p.bookingId = id ∧ p.status = .success ∧ p.gatewayRef = ref

/-- The session has called `refund` for booking `id` and not finished its commit. -/
def Task.Refunding (id : Uuid) : Task → Prop
  | .refund q (.refunding _ _) | .refund q (.record _ _) | .refund q (.commit _) => q.bookingId = id
  | _ => False

/-- What session `i` at a program counter of `refund_booking` has to show for its calls. -/
def RefundPc.CallAccount (h : History) (d : Db) (i : Sid) (q : RefundRequest) : RefundPc → Prop
  | .refund b ref => h.refundCallsOf i = [] ∧ d.RefundsTo b.id ref
  | .refunding b ref => h.refundCallsOf i = [⟨i, b.id, ref⟩] ∧ d.RefundsTo b.id ref
  | .record b _ | .commit b => ∃ ref, h.refundCallsOf i = [⟨i, b.id, ref⟩] ∧ d.RefundsTo b.id ref
  | .invalidate _ | .finished (.ok _) =>
    ∃ ref, h.refundCallsOf i = [⟨i, q.bookingId, ref⟩] ∧ d.RefundsTo q.bookingId ref ∧ d.Logged q.bookingId .refunded
  | _ => h.refundCallsOf i = []

/-- The same for any task: only `refund_booking` calls `refund`. -/
def Task.CallAccount (h : History) (d : Db) (i : Sid) : Task → Prop
  | .refund q pc => pc.CallAccount h d i q
  | _ => h.refundCallsOf i = []

/-- Session `i` has to show for its calls what its program counter says. -/
def State.CallAccountOk (σ : State) (i : Sid) : Prop :=
  (σ.sessions[i]?).elim (σ.history.refundCallsOf i = []) fun s => s.task.CallAccount σ.history σ.db i

/-- Booking `id` is refunded, or it will be after at most three more statements of session `i`, which no other session
    delays. -/
def State.BecomesRefunded (cat : Catalog) (σ : State) (i : Sid) (id : Uuid) : Prop :=
  ∃ n ≤ 3, ∀ x : Choice, ∃ τ, exec (step cat) σ (List.replicate n (.run i x)) = some τ ∧
    ∃ b ∈ τ.db.bookings, b.id = id ∧ b.status = .refunded

/-- What a booking and its refunds have to do with each other. -/
structure RefundLaw (cat : Catalog) (σ : State) (id : Uuid) : Prop where
  once : (σ.history.refundCallsFor id).length ≤ 1
  ref : ∀ c ∈ σ.history.refundCalls, c.bookingId = id →
    ∃ p, σ.db.paymentsOf id = [p] ∧ p.status = .success ∧ p.gatewayRef = c.ref ∧ c.ref ≠ none
  called : ∀ b ∈ σ.db.bookings, b.id = id → b.status = .refunded → ∃ c ∈ σ.history.refundCalls, c.bookingId = id
  refunded : ∀ c ∈ σ.history.refundCalls, c.bookingId = id → σ.BecomesRefunded cat c.session id
  settled : (∀ s ∈ σ.sessions, ¬s.task.Refunding id) →
    ∀ b ∈ σ.db.bookings, b.id = id → (b.status = .refunded ↔ ∃ c ∈ σ.history.refundCalls, c.bookingId = id)
  lookup : ∀ (i : Sid) began q b, σ.sessions[i]? = some ⟨began, .refund q (.findPayment b)⟩ → b.id = id →
    ∃ p, scalarOneOrNone ((σ.view i).payments.filter fun p => p.bookingId = b.id ∧ p.status = .success) = .ok (some p)

/-- The step, if it is one of session `i`, leaves the committed tables as they are. -/
def LeavesTables (cat : Catalog) (i : Sid) (σ : State) : Act → Prop
  | .run j x => j = i → ∀ τ, step cat σ (.run j x) = some τ → τ.db = σ.db
  | .raise j => j = i → ∀ τ, step cat σ (.raise j) = some τ → τ.db = σ.db
  | _ => True

namespace Effect

/-- The call of `refund` that the effect makes. -/
def refundCalls : Effect → List RefundCall
  | callRefund c => [c]
  | _ => []

end Effect

section
variable {cat : Catalog} {σ τ : State} {i j : Sid} {began : Time} {s : Session} {t : Task} {e : Effect} {id : Uuid}
  {d d' : Db} {acts : List Act}

theorem perform_refundCalls (σ : State) (i : Sid) (e : Effect) :
    (σ.perform i e).history.refundCalls = σ.history.refundCalls ++ e.refundCalls := by
  cases e <;> simp [State.perform, Effect.refundCalls]

theorem perform_refundCallsOf (σ : State) (i j : Sid) (e : Effect) :
    (σ.perform i e).history.refundCallsOf j = σ.history.refundCallsOf j ++ e.refundCalls.filter (·.session = j) := by
  rw [History.refundCallsOf, perform_refundCalls, List.filter_append]
  rfl

theorem Move.own_refundCall (m : Move cat σ i s e t) : ∀ c ∈ e.refundCalls, c.session = i := by
  intro c hc
  cases m with
  | create m => cases m <;> cases hc
  | pay m => cases m <;> cases hc
  | refund m =>
    cases m with
    | called => rw [List.mem_singleton.mp hc]
    | _ => cases hc
  | cleanup m => cases m <;> cases hc

theorem mem_refundCallsOf {h : History} {c : RefundCall} : c ∈ h.refundCallsOf i ↔ c ∈ h.refundCalls ∧
    c.session = i := by
  simp [History.refundCallsOf]

/-! ### The payment that is looked up -/

theorem Db.RefundsTo.kept {ref : Option GatewayRef} (kept : d.Kept d') (h : d.RefundsTo id ref) :
    d'.RefundsTo id ref := by
  obtain ⟨p, hp, hid, hst, href⟩ := h
  exact ⟨p, kept.payments p hp, hid, hst, href⟩

/-- The look-up of the success payment of a confirmed booking finds the only payment that the booking has. -/
theorem Inv.success_payment (inv : Inv σ) {q : RefundRequest} {b : Booking}
    (hs : σ.sessions[i]? = some ⟨began, .refund q (.findPayment b)⟩) :
    ∃ p, ((σ.view i).payments.filter fun p => p.bookingId = b.id ∧ p.status = .success) = [p] ∧
      (σ.view i).paymentsOf b.id = [p] ∧ p.gatewayRef ≠ none := by
  obtain ⟨ph, hph, hconf⟩ := (inv.taskOk hs).held (b, [.confirmed]) (List.mem_singleton_self _)
  rw [List.mem_singleton.mp hph] at hconf
  obtain ⟨p, hps, hst, -, href⟩ := PaysFor.success hconf.payments
  have hof : (σ.view i).payments.filter (fun p => decide (p.bookingId = b.id)) = [p] := hps
  refine ⟨p, ?_, hof, href⟩
  have hand : ((σ.view i).payments.filter fun p => p.bookingId = b.id ∧ p.status = .success) =
      ((σ.view i).payments.filter fun p => decide (p.bookingId = b.id)).filter fun p =>
        decide (p.status = .success) := by
    rw [List.filter_filter]
    exact List.filter_congr fun p _ => by rw [Bool.decide_and, Bool.and_comm]
  rw [hand, hof]
  simp [hst]

/-! ### What becomes of a call -/

theorem RefundPc.CallAccount.congr {h h' : History} {q : RefundRequest} {pc : RefundPc} (hx : pc.CallAccount h d i q)
    (hc : h'.refundCallsOf i = h.refundCallsOf i) (hd : d.Kept d') : pc.CallAccount h' d' i q := by
  have stored : ∀ {b : Booking}, (∃ ref, h.refundCallsOf i = [⟨i, b.id, ref⟩] ∧ d.RefundsTo b.id ref) →
      ∃ ref, h'.refundCallsOf i = [⟨i, b.id, ref⟩] ∧ d'.RefundsTo b.id ref := fun ⟨ref, hcalls, hp⟩ =>
    ⟨ref, hc.trans hcalls, hp.kept hd⟩
  have logged : (∃ ref, h.refundCallsOf i = [⟨i, q.bookingId, ref⟩] ∧ d.RefundsTo q.bookingId ref ∧
    d.Logged q.bookingId .refunded) →
      ∃ ref, h'.refundCallsOf i = [⟨i, q.bookingId, ref⟩] ∧ d'.RefundsTo q.bookingId ref ∧
      d'.Logged q.bookingId .refunded :=
    fun ⟨ref, hcalls, hp, hl⟩ => ⟨ref, hc.trans hcalls, hp.kept hd, hd.logged hl⟩
  cases pc with
  | refund b ref => exact ⟨hc.trans hx.1, hx.2.kept hd⟩
  | refunding b ref => exact ⟨hc.trans hx.1, hx.2.kept hd⟩
  | record b x => exact stored hx
  | commit b => exact stored hx
  | invalidate b => exact logged hx
  | finished r =>
    cases r with
    | ok b => exact logged hx
    | error x => exact hc.trans hx
  | _ => exact hc.trans hx

theorem Task.CallAccount.congr {h h' : History} (hx : t.CallAccount h d i) (hc : h'.refundCallsOf i = h.refundCallsOf i)
    (hd : d.Kept d') : t.CallAccount h' d' i := by
  cases t with
  | refund q pc => exact RefundPc.CallAccount.congr hx hc hd
  | _ => exact hc.trans hx

theorem State.CallAccountOk.task (h : σ.CallAccountOk i) (hs : σ.sessions[i]? = some s) :
    s.task.CallAccount σ.history σ.db i := by
  rwa [State.CallAccountOk, hs] at h

/-- A statement of `refund_booking` keeps the account of its session, unless it is a commit that fails. -/
theorem RefundMove.callAccount {q : RefundRequest} {pc pc' : RefundPc} (hr : Reachable cat σ)
    (hs : σ.sessions[i]? = some ⟨began, .refund q pc⟩) (ha : pc.CallAccount σ.history σ.db i q)
    (m : RefundMove cat σ i began q pc e pc') (hfail : pc.isAnswered = true → ∀ x, pc' ≠ .finished (.error x)) :
    pc'.CallAccount (σ.perform i e).history (σ.perform i e).db i q := by
  have inv := inv_of_reachableBy hr
  have ok := inv.taskOk hs
  cases m with
  | located => exact ha
  | admitted free hb hid hu hst => exact ha
  | inTime hsch hle => exact ha
  | @paid b p hp hid hst =>
    have hview : σ.view i = σ.db := view_of_unwritten hr hs rfl
    exact ⟨ha, p, hview ▸ hp, hid, hst, rfl⟩
  | unpaid hp =>
    -- A confirmed booking has its success payment.
    obtain ⟨p, hfind, -, -⟩ := inv.success_payment hs
    obtain ⟨hmem, hk⟩ := List.mem_filter.mp (hfind ▸ List.mem_singleton_self p)
    exact absurd (of_decide_eq_true hk) (hp p hmem)
  | @called b ref =>
    refine ⟨?_, ha.2⟩
    rw [perform_refundCallsOf, ha.1]
    simp [Effect.refundCalls]
  | answered => exact ⟨_, ha⟩
  | recorded => exact ha
  | @committed b =>
    have hbq : b.id = q.bookingId ∧ b.userId = q.userId := ok.sound
    obtain ⟨ref, hcalls, hp⟩ := ha
    obtain ⟨ph, hph, hconf⟩ := ok.held (b, [.refunded]) (List.mem_singleton_self _)
    rw [List.mem_singleton.mp hph] at hconf
    rw [hbq.1] at hcalls hp hconf
    have kept := (noDelete_of_reachable hr).view i
    exact ⟨ref, hcalls, hp.kept kept,
      hconf.logged (x := ⟨.refunded, some .confirmed, .refunded, b.userId⟩) (by simp [Phase.trail])⟩
  | invalidated => exact ha
  | failed x hst server =>
    cases pc with
    | record b y => exact absurd rfl (hfail rfl x)
    | commit b => exact absurd rfl (hfail rfl x)
    | refund b ref => cases hst
    | refunding b ref => cases hst
    | invalidate b => cases hst
    | finished r => cases hst
    | _ => exact ha

theorem Move.callAccount (hr : Reachable cat σ) (hs : σ.sessions[i]? = some s) (ha : σ.CallAccountOk i)
    (m : Move cat σ i s e t)
    (hfail : s.task.isCommittingRefund = true → ∀ q x, t ≠ .refund q (.finished (.error x))) :
    t.CallAccount (σ.perform i e).history (σ.perform i e).db i := by
  have ha := ha.task hs
  cases m with
  | create m => cases m <;> exact ha
  | pay m => cases m <;> exact ha
  | refund m => exact m.callAccount hr hs ha fun hpc x hx => hfail hpc _ x (congrArg _ hx)
  | cleanup m => cases m <;> exact ha

theorem Move.callAccounts (hr : Reachable cat σ) (hs : σ.sessions[i]? = some s) (ha : ∀ j, σ.CallAccountOk j)
    (m : Move cat σ i s e t) (hfail : s.task.isCommittingRefund = true → ∀ q x, t ≠ .refund q (.finished (.error x))) :
    ∀ j, ((σ.perform i e).goto i s t).CallAccountOk j := by
  intro j
  refine elim_goto hs (ha j) ?_ fun hj => ?_
  · rintro rfl
    exact m.callAccount hr hs (ha j) hfail
  · have hcalls : (σ.perform i e).history.refundCallsOf j = σ.history.refundCallsOf j := by
      rw [perform_refundCallsOf, filter_eq_nil_of_ne m.own_refundCall hj, List.append_nil]
    rw [goto_history, goto_db]
    have kept := kept_perform (noDelete_of_reachable hr) i e
    exact ⟨fun hok => hcalls.trans hok, fun s' _ hok => Task.CallAccount.congr hok hcalls kept⟩

theorem refundBooking_passes {q : RefundRequest} {pc pc' : RefundPc}
    (h : refundBooking cat σ i began q pc = some (e, pc')) (ha : pc.isAnswered = true) (x : Exc) :
    pc' ≠ .finished (.error x) := by
  cases pc with
  | record b y =>
    cases h
    exact nofun
  | commit b =>
    cases h
    exact nofun
  | _ => cases ha

theorem callAccounts_of_reachable (h : ReachableBy cat RefundCommits σ) : ∀ i, σ.CallAccountOk i := by
  refine h.invariant (I := fun σ => ∀ i, σ.CallAccountOk i) ?_ ?_
  · rintro σ ⟨now, rfl⟩ i
    exact rfl
  · intro σ a τ hr ha allow hstep
    have hr : Reachable cat σ := hr.mono fun _ _ _ => trivial
    cases step_stepped hstep with
    | request r => exact fun j => elim_snoc (ha j) fun hok => by cases r <;> exact hok
    | @run i y s e t hs hc m =>
      refine m.callAccounts hr hs ha fun hcommit q x ht => ?_
      obtain ⟨began, task⟩ := s
      cases task with
      | refund q' pc =>
        simp only [Session.statement, Option.map_eq_some_iff, Prod.mk.injEq, Prod.exists] at hc
        obtain ⟨e', pc', hc, rfl, rfl⟩ := hc
        cases ht
        exact refundBooking_passes hc hcommit x rfl
      | _ => cases hcommit
    | raise hs hraise m =>
      refine m.callAccounts hr hs ha fun hcommit => ?_
      simp only [RefundCommits, hs, Option.all_some, hcommit, Bool.not_true, Bool.false_eq_true] at allow
    | tick d => exact ha
    | updateConfig failureRate latencyMs => exact ha

/-- Every call is by a session that refunds the booking, or the refund is in the audit trail. -/
theorem refundCall_fate {c : RefundCall} (inv : Inv σ) (acc : ∀ i, σ.CallAccountOk i) (hc : c ∈ σ.history.refundCalls) :
    σ.history.refundCallsOf c.session = [c] ∧ σ.db.RefundsTo c.bookingId c.ref ∧
      ((∃ s, σ.sessions[c.session]? = some s ∧ s.task.Refunding c.bookingId) ∨ σ.db.Logged c.bookingId .refunded) := by
  have hmem : c ∈ σ.history.refundCallsOf c.session := mem_refundCallsOf.mpr ⟨hc, rfl⟩
  have loud : σ.history.refundCallsOf c.session ≠ [] := List.ne_nil_of_mem hmem
  have hok := acc c.session
  unfold State.CallAccountOk at hok
  cases hs : σ.sessions[c.session]? with
  | none =>
    rw [hs] at hok
    exact absurd hok loud
  | some s =>
    rw [hs] at hok
    have hsound := (inv.taskOk hs).sound
    obtain ⟨began, t⟩ := s
    cases t with
    | refund q pc =>
      -- The one call that the session has to show is this one.
      have own : ∀ {id ref}, σ.history.refundCallsOf c.session = [⟨c.session, id, ref⟩] → c = ⟨c.session, id, ref⟩ :=
        fun h => List.mem_singleton.mp (h ▸ hmem)
      cases pc with
      | refunding b ref =>
        have hb : b.id = q.bookingId ∧ _ := hsound
        have hcall := own hok.1
        refine ⟨hcall ▸ hok.1, hcall ▸ hok.2, Or.inl ⟨_, rfl, ?_⟩⟩
        rw [hcall]
        exact hb.1.symm
      | record b y =>
        have hb : b.id = q.bookingId ∧ _ := hsound
        obtain ⟨ref, hcalls, hp⟩ := hok
        have hcall := own hcalls
        refine ⟨hcall ▸ hcalls, hcall ▸ hp, Or.inl ⟨_, rfl, ?_⟩⟩
        rw [hcall]
        exact hb.1.symm
      | commit b =>
        have hb : b.id = q.bookingId ∧ _ := hsound
        obtain ⟨ref, hcalls, hp⟩ := hok
        have hcall := own hcalls
        refine ⟨hcall ▸ hcalls, hcall ▸ hp, Or.inl ⟨_, rfl, ?_⟩⟩
        rw [hcall]
        exact hb.1.symm
      | invalidate b =>
        obtain ⟨ref, hcalls, hp, hl⟩ := hok
        have hcall := own hcalls
        exact ⟨hcall ▸ hcalls, hcall ▸ hp, Or.inr (hcall ▸ hl)⟩
      | finished r =>
        cases r with
        | ok b =>
          obtain ⟨ref, hcalls, hp, hl⟩ := hok
          have hcall := own hcalls
          exact ⟨hcall ▸ hcalls, hcall ▸ hp, Or.inr (hcall ▸ hl)⟩
        | error x => exact absurd hok loud
      | refund b ref => exact absurd hok.1 loud
      | _ => exact absurd hok loud
    | _ => exact absurd hok loud

theorem Task.Refunding.owned (h : t.Refunding id) (sound : t.Sound) : .bookingRow id ∈ t.owned := by
  cases t with
  | refund q pc =>
    cases pc with
    | refunding b ref =>
      have hb : b.id = q.bookingId ∧ _ := sound
      simp [Task.owned, hb.1, show q.bookingId = id from h]
    | record b y =>
      have hb : b.id = q.bookingId ∧ _ := sound
      simp [Task.owned, hb.1, show q.bookingId = id from h]
    | commit b =>
      have hb : b.id = q.bookingId ∧ _ := sound
      simp [Task.owned, hb.1, show q.bookingId = id from h]
    | _ => exact h.elim
  | _ => exact h.elim

/-! ### At most one call -/

theorem not_called_of_refund {q : RefundRequest} {b : Booking} {ref : Option GatewayRef} (hr : Reachable cat σ)
    (acc : ∀ i, σ.CallAccountOk i) (hs : σ.sessions[i]? = some ⟨began, .refund q (.refund b ref)⟩) :
    ∀ c ∈ σ.history.refundCalls, c.bookingId ≠ b.id := by
  intro c hc hid
  have inv := inv_of_reachableBy hr
  obtain ⟨hcalls, -, ⟨s, hs', hx⟩ | hl⟩ := refundCall_fate inv acc hc
  · have hown := hx.owned (inv.taskOk hs').sound
    rw [hid] at hown
    obtain rfl : i = c.session := inv.owner_unique hs hs' (r := .bookingRow b.id) (List.mem_singleton_self _) hown
    have silent : σ.history.refundCallsOf c.session = [] ∧ _ := (acc c.session).task hs
    rw [silent.1] at hcalls
    cases hcalls
  · obtain ⟨ph, hph, hconf⟩ := (inv.taskOk hs).held (b, [.confirmed]) (List.mem_singleton_self _)
    rw [List.mem_singleton.mp hph] at hconf
    obtain ⟨x, hx, hact⟩ := hconf.trail_of_logged (hid ▸ ((noDelete_of_reachable hr).view i).logged hl)
    simp only [Phase.trail, List.mem_cons, List.not_mem_nil, or_false] at hx
    rcases hx with rfl | rfl | rfl <;> cases hact

theorem Move.refund_of_call {c : RefundCall} (m : Move cat σ i s e t) (hc : c ∈ e.refundCalls) :
    ∃ began q b ref, s = ⟨began, .refund q (.refund b ref)⟩ ∧ c = ⟨i, b.id, ref⟩ := by
  cases m with
  | refund m =>
    cases m with
    | @called b ref => exact ⟨_, _, b, ref, rfl, List.mem_singleton.mp hc⟩
    | _ => cases hc
  | create m => cases m <;> cases hc
  | pay m => cases m <;> cases hc
  | cleanup m => cases m <;> cases hc

/-- No booking is called for twice. -/
def State.CallsOnce (σ : State) : Prop := σ.history.refundCalls.Pairwise fun c c' => c.bookingId ≠ c'.bookingId

theorem callsOnce_of_reachable (h : ReachableBy cat RefundCommits σ) : σ.CallsOnce := by
  refine h.invariant ?_ ?_
  · rintro σ ⟨now, rfl⟩
    exact .nil
  · intro σ a τ hr honce _ hstep
    have acc := callAccounts_of_reachable hr
    have hr : Reachable cat σ := hr.mono fun _ _ _ => trivial
    have moved : ∀ {i s e t}, σ.sessions[i]? = some s → Move cat σ i s e t →
      ((σ.perform i e).goto i s t).CallsOnce := by
      intro i s e t hs m
      unfold State.CallsOnce
      rw [goto_history, perform_refundCalls, List.pairwise_append]
      refine ⟨honce, ?_, fun c hc c' hc' => ?_⟩
      · cases e <;> simp [Effect.refundCalls]
      · obtain ⟨began, q, b, ref, rfl, rfl⟩ := m.refund_of_call hc'
        exact not_called_of_refund hr acc hs c hc
    cases step_stepped hstep with
    | request r => exact honce
    | run hs hc m => exact moved hs m
    | raise hs hraise m => exact moved hs m
    | tick d => exact honce
    | updateConfig failureRate latencyMs => exact honce

/-! ### The call and the status -/

/-- What a commit adds to the audit trail is about a booking that its session holds. -/
theorem logged_of_view {st : Store Sid Db Write Resource} {action : AuditAction} (ok : TaskOk st i t)
    (h : (st.view i).Logged id action) : st.data.Logged id action ∨ ∃ p ∈ t.held, p.1.id = id := by
  by_cases hheld : ∃ p ∈ t.held, p.1.id = id
  · exact Or.inr hheld
  · refine Or.inl ?_
    obtain ⟨a, ha, hid, hact⟩ := h
    have hmem : a ∈ ((st.view i).ledger id).auditTrail := mem_ledger_auditTrail.mpr ⟨ha, hid⟩
    rw [ok.ledger_view fun p hp hpid => hheld ⟨p, hp, hpid⟩] at hmem
    exact ⟨a, (mem_ledger_auditTrail.mp hmem).1, hid, hact⟩

theorem Phase.refunded_of_trail {ph : Phase} {owner : Uuid} {x : Entry} (h : x ∈ ph.trail owner)
    (hx : x.action = .refunded) :
    ph = .refunded := by
  obtain ⟨action, prev, new, user⟩ := x
  subst hx
  cases ph <;> simp [Phase.trail] at h ⊢

theorem Move.refund_of_logged (inv : Inv σ) (hs : σ.sessions[i]? = some s) (m : Move cat σ i s .commit t)
    (hl : (σ.view i).Logged id .refunded) :
    σ.db.Logged id .refunded ∨ ∃ began q b, s = ⟨began, .refund q (.commit b)⟩ ∧ b.id = id := by
  have ok := inv.taskOk hs
  rcases logged_of_view ok hl with hold | ⟨p, hp, hid⟩
  · exact Or.inl hold
  · obtain ⟨ph, hph, hconf⟩ := ok.held p hp
    rw [hid] at hconf
    obtain ⟨x, hx, hact⟩ := hconf.trail_of_logged hl
    obtain rfl := Phase.refunded_of_trail hx hact
    cases m with
    | create m =>
      cases m with
      | committed =>
        rw [List.mem_singleton.mp hp] at hph
        simp at hph
    | pay m =>
      cases m with
      | committed =>
        rw [List.mem_singleton.mp hp] at hph
        simp at hph
    | refund m =>
      cases m with
      | @committed b =>
        rw [List.mem_singleton.mp hp] at hid
        exact Or.inr ⟨_, _, b, rfl, hid⟩
    | cleanup m =>
      cases m with
      | committed =>
        obtain ⟨b, -, rfl⟩ := List.mem_map.mp hp
        simp at hph

theorem called_of_logged (h : ReachableBy cat RefundCommits σ) :
    ∀ id, σ.db.Logged id .refunded → ∃ c ∈ σ.history.refundCalls, c.bookingId = id := by
  refine h.invariant (I := fun σ => ∀ id, σ.db.Logged id .refunded → ∃ c ∈ σ.history.refundCalls, c.bookingId = id)
    ?_ ?_
  · rintro σ ⟨now, rfl⟩ id ⟨a, ha, -⟩
    cases ha
  · intro σ a τ hr hcalled _ hstep id hl
    have acc := callAccounts_of_reachable hr
    have inv := inv_of_reachableBy hr
    have moved : ∀ {i s e t}, σ.sessions[i]? = some s → Move cat σ i s e t → (σ.perform i e).db.Logged id .refunded →
        ∃ c ∈ (σ.perform i e).history.refundCalls, c.bookingId = id := by
      intro i s e t hs m hl
      have before : (∃ c ∈ σ.history.refundCalls, c.bookingId = id) →
          ∃ c ∈ (σ.perform i e).history.refundCalls, c.bookingId = id := by
        rintro ⟨c, hc, hid⟩
        rw [perform_refundCalls]
        exact ⟨c, List.mem_append_left _ hc, hid⟩
      rcases perform_db σ i e with he | ⟨rfl, he⟩ <;> rw [he] at hl
      · exact before (hcalled id hl)
      · rcases m.refund_of_logged inv hs hl with hold | ⟨began, q, b, rfl, hid⟩
        · exact before (hcalled id hold)
        · -- The session that commits the refund has its call.
          obtain ⟨ref, hcalls, -⟩ := (acc i).task hs
          refine before ⟨_, (mem_refundCallsOf.mp (hcalls ▸ List.mem_singleton_self _)).1, hid⟩
    cases step_stepped hstep with
    | request r => exact hcalled id hl
    | run hs hc m => exact moved hs m hl
    | raise hs hraise m => exact moved hs m hl
    | tick d => exact hcalled id hl
    | updateConfig failureRate latencyMs => exact hcalled id hl

theorem Inv.refunded_iff (inv : Inv σ) {b : Booking} (hb : b ∈ σ.db.bookings) :
    b.status = .refunded ↔ σ.db.Logged b.id .refunded := by
  obtain ⟨ph, hph, hconf⟩ := inv.conforms_of_mem hb
  refine ⟨fun hst => ?_, fun hl => ?_⟩
  · obtain rfl := phase_of_refunded hconf hst
    exact hconf.logged (x := ⟨.refunded, some .confirmed, .refunded, b.userId⟩) (by simp [Phase.trail])
  · obtain ⟨x, hx, hact⟩ := hconf.trail_of_logged hl
    obtain rfl := Phase.refunded_of_trail hx hact
    exact hconf.status

theorem Inv.refunded_of_logged (inv : Inv σ) (hl : σ.db.Logged id .refunded) :
    ∃ b ∈ σ.db.bookings, b.id = id ∧ b.status = .refunded := by
  rcases inv.settled id with he | ⟨b, ph, -, hconf⟩
  · obtain ⟨a, ha, hid, -⟩ := hl
    have hmem : a ∈ (σ.db.ledger id).auditTrail := mem_ledger_auditTrail.mpr ⟨ha, hid⟩
    rw [he] at hmem
    cases hmem
  · obtain ⟨hb, hid⟩ := hconf.mem_bookings
    exact ⟨b, hb, hid, (inv.refunded_iff hb).mpr (hid ▸ hl)⟩

/-! ### From the call to the refund -/

theorem refunded_of_commit {q : RefundRequest} {b : Booking} (inv : Inv σ)
    (hs : σ.sessions[i]? = some ⟨began, .refund q (.commit b)⟩) (x : Choice) :
    ∃ τ, exec (step cat) σ (List.replicate 1 (.run i x)) = some τ ∧
      ∃ b' ∈ τ.db.bookings, b'.id = b.id ∧ b'.status = .refunded := by
  obtain ⟨ph, hph, hconf⟩ := (inv.taskOk hs).held (b, [.refunded]) (List.mem_singleton_self _)
  rw [List.mem_singleton.mp hph] at hconf
  have hstep : step cat σ (.run i x) = some _ := step_run hs rfl
  refine ⟨_, by rw [List.replicate_one, exec_cons, hstep, Option.bind_some, exec_nil], b, ?_, rfl, hconf.status⟩
  exact hconf.mem_bookings.1

/-- The run to the refund, one statement earlier. -/
theorem refunded_of_next {n : Nat} (hstep : ∀ x, step cat σ (.run i x) = some τ)
    (h : ∀ x, ∃ υ, exec (step cat) τ (List.replicate n (.run i x)) = some υ ∧ ∃ b ∈ υ.db.bookings, b.id = id ∧
      b.status = .refunded)
    (x : Choice) : ∃ υ, exec (step cat) σ (List.replicate (n + 1) (.run i x)) = some υ ∧
      ∃ b ∈ υ.db.bookings, b.id = id ∧ b.status = .refunded := by
  obtain ⟨υ, hυ, hb⟩ := h x
  refine ⟨υ, ?_, hb⟩
  rw [List.replicate_succ, exec_cons, hstep x, Option.bind_some]
  exact hυ

theorem refunded_of_record {q : RefundRequest} {b : Booking} {y : Time} (inv : Inv σ)
    (hs : σ.sessions[i]? = some ⟨began, .refund q (.record b y)⟩) (x : Choice) :
    ∃ τ, exec (step cat) σ (List.replicate 2 (.run i x)) = some τ ∧ ∃ b' ∈ τ.db.bookings, b'.id = b.id ∧
      b'.status = .refunded := by
  have hstep : ∀ x, step cat σ (.run i x) = some _ := fun x => step_run hs rfl
  exact refunded_of_next hstep (refunded_of_commit (inv.step (hstep x)) (goto_sessions_self hs)) x

theorem refunded_of_refunding {q : RefundRequest} {b : Booking} {ref : Option GatewayRef} (inv : Inv σ)
    (hs : σ.sessions[i]? = some ⟨began, .refund q (.refunding b ref)⟩) (x : Choice) :
    ∃ τ, exec (step cat) σ (List.replicate 3 (.run i x)) = some τ ∧ ∃ b' ∈ τ.db.bookings, b'.id = b.id ∧
      b'.status = .refunded := by
  have hstep : ∀ x, step cat σ (.run i x) = some _ := fun x => step_run hs rfl
  exact refunded_of_next hstep (refunded_of_record (inv.step (hstep x)) (goto_sessions_self hs)) x

/-- A session that refunds a booking brings it to its end. -/
theorem Task.Refunding.becomes (h : s.task.Refunding id) (inv : Inv σ) (hs : σ.sessions[i]? = some s) :
    σ.BecomesRefunded cat i id := by
  have hsound := (inv.taskOk hs).sound
  obtain ⟨began, t⟩ := s
  cases t with
  | refund q pc =>
    cases pc with
    | refunding b ref =>
      have hb : b.id = q.bookingId ∧ _ := hsound
      have hid : b.id = id := hb.1.trans h
      exact ⟨3, Nat.le_refl 3, hid ▸ refunded_of_refunding inv hs⟩
    | record b y =>
      have hb : b.id = q.bookingId ∧ _ := hsound
      have hid : b.id = id := hb.1.trans h
      exact ⟨2, by decide, hid ▸ refunded_of_record inv hs⟩
    | commit b =>
      have hb : b.id = q.bookingId ∧ _ := hsound
      have hid : b.id = id := hb.1.trans h
      exact ⟨1, by decide, hid ▸ refunded_of_commit inv hs⟩
    | _ => exact h.elim
  | _ => exact h.elim

theorem refundLaw_of_reachable (h : ReachableBy cat RefundCommits σ) (id : Uuid) : RefundLaw cat σ id := by
  have hr : Reachable cat σ := h.mono fun _ _ _ => trivial
  have inv := inv_of_reachableBy hr
  have acc := callAccounts_of_reachable h
  have called : ∀ b ∈ σ.db.bookings, b.id = id → b.status = .refunded →
    ∃ c ∈ σ.history.refundCalls, c.bookingId = id := by
    rintro b hb rfl hst
    exact called_of_logged h b.id ((inv.refunded_iff hb).mp hst)
  constructor
  case once =>
    refine length_le_one_of_pairwise ((callsOnce_of_reachable h).filter _) fun c hc c' hc' hne => hne ?_
    have hid : c.bookingId = id := of_decide_eq_true (List.mem_filter.mp hc).2
    have hid' : c'.bookingId = id := of_decide_eq_true (List.mem_filter.mp hc').2
    exact hid.trans hid'.symm
  case ref =>
    rintro c hc rfl
    obtain ⟨-, ⟨p, hp, hid, hst, href⟩, -⟩ := refundCall_fate inv acc hc
    obtain ⟨b, -, -, ph, -, hconf, hpay⟩ := inv.paid hp
    have hps := hconf.payments
    rw [hpay, hst] at hps
    obtain ⟨p', hps, -, -, href'⟩ := hps.success
    rw [hid] at hps
    have hof : σ.db.paymentsOf c.bookingId = [p'] := hps
    have hmem : p ∈ σ.db.paymentsOf c.bookingId := List.mem_filter.mpr ⟨hp, decide_eq_true hid⟩
    rw [hof, List.mem_singleton] at hmem
    subst hmem
    exact ⟨p, hof, hst, href, href ▸ href'⟩
  case called => exact called
  case refunded =>
    rintro c hc rfl
    obtain ⟨-, -, ⟨s, hs, hx⟩ | hl⟩ := refundCall_fate inv acc hc
    · exact hx.becomes inv hs
    · exact ⟨0, by decide, fun x => ⟨σ, rfl, inv.refunded_of_logged hl⟩⟩
  case settled =>
    intro quiet b hb hid
    refine ⟨called b hb hid, fun ⟨c, hc, hcid⟩ => ?_⟩
    obtain ⟨-, -, ⟨s, hs, hx⟩ | hl⟩ := refundCall_fate inv acc hc
    · exact absurd (hcid ▸ hx) (quiet s (List.mem_of_getElem? hs))
    · rw [inv.refunded_iff hb, hid, ← hcid]
      exact hl
  case lookup =>
    intro i began q b hs _
    obtain ⟨p, hfind, -, -⟩ := inv.success_payment hs
    exact ⟨p, by rw [hfind]; rfl⟩

/-! ### A refund that is rejected -/

/-- A step of a refund that changes the committed tables is its commit. -/
theorem commit_of_not_leavesTables {q : RefundRequest} {a : Act} (hstep : step cat σ a = some τ)
    (hs : σ.sessions[i]? = some s) (hq : s.task.request = .refund q) (h : ¬LeavesTables cat i σ a) :
    ∃ b, τ.sessions[i]? = some ⟨s.began, .refund q (.invalidate b)⟩ := by
  cases step_stepped hstep with
  | @run j x s' e t hs' hc m =>
    simp only [LeavesTables, not_forall] at h
    obtain ⟨rfl, υ, hυ, hdb⟩ := h
    obtain rfl := Option.some.inj (hstep.symm.trans hυ)
    obtain rfl : s = s' := Option.some.inj (hs.symm.trans hs')
    rcases perform_db σ j e with he | ⟨rfl, -⟩
    · exact absurd he hdb
    · cases m with
      | refund m =>
        cases m with
        | @committed b =>
          cases hq
          exact ⟨b, goto_sessions_self hs⟩
      | create m => cases hq
      | pay m => cases hq
      | cleanup m => cases hq
  | @raise j s' t hs' hr m =>
    simp only [LeavesTables, not_forall] at h
    obtain ⟨rfl, υ, hυ, hdb⟩ := h
    obtain rfl := Option.some.inj (hstep.symm.trans hυ)
    exact absurd rfl hdb
  | _ => exact absurd trivial h

/-- The refund is committed. -/
def Task.isRefunded : Task → Bool
  | .refund _ (.invalidate _) | .refund _ (.finished (.ok _)) => true
  | _ => false

theorem Move.isRefunded (m : Move cat σ i s e t) (h : s.task.isRefunded = true) : t.isRefunded = true := by
  cases m with
  | refund m =>
    cases m with
    | invalidated => rfl
    | failed y hpc server =>
      rename_i pc
      cases pc with
      | invalidate b => cases hpc
      | finished r => cases hpc
      | _ => cases h
    | _ => cases h
  | create m => cases h
  | pay m => cases h
  | cleanup m => cases h

theorem isRefunded_raise {t' : Task} (h : t.isRefunded = true) (hraise : t.raise = some t') : t'.isRefunded = true := by
  cases t with
  | refund q pc =>
    cases pc with
    | invalidate b => cases hraise
    | finished r => cases hraise
    | _ => cases h
  | _ => cases h

theorem isRefunded_exec {acts : List Act} (hr : Reachable cat σ) (hs : σ.sessions[i]? = some s)
    (h : s.task.isRefunded = true) (run : exec (step cat) σ acts = some τ) :
    ∃ s', τ.sessions[i]? = some s' ∧ s'.task.isRefunded = true := by
  have along : Along (step cat) (fun _ _ => True) σ acts := along_of_forall fun _ _ => trivial
  obtain ⟨s', hs', -, hx⟩ := session_run (P := fun _ t => t.isRefunded = true) hr hs h
    (fun _ _ hx _ _ m => m.isRefunded hx) isRefunded_raise (fun _ hx => hx) along run
  exact ⟨s', hs', hx⟩

theorem rejected_leavesTables {q : RefundRequest} {x : Exc} (hr : Reachable cat σ)
    (run : exec (step cat) σ (.request (.refund q) :: acts) = some τ)
    (hs : τ.sessions[σ.sessions.length]? = some ⟨began, .refund q (.finished (.error x))⟩) :
    Along (step cat) (LeavesTables cat σ.sessions.length) σ (.request (.refund q) :: acts) := by
  classical
  by_contra hnot
  obtain ⟨pre, a, post, υ, υ', hacts, hpre, hfail, hstep, hpost⟩ := exists_step_of_not_along run hnot
  cases pre with
  | nil =>
    obtain ⟨rfl, -⟩ := List.cons_eq_cons.mp hacts
    exact hfail trivial
  | cons b pre =>
    obtain ⟨rfl, -⟩ := List.cons_eq_cons.mp hacts
    have along : Along (step cat) (fun _ _ => True) σ (.request (.refund q) :: pre) :=
      along_of_forall fun _ _ => trivial
    obtain ⟨s, hs', hreq, -⟩ := request_run (P := fun _ _ => True) hr trivial (fun _ _ _ _ _ _ => trivial)
      (fun _ _ => trivial) (fun _ _ => trivial) along hpre
    obtain ⟨b, hcommitted⟩ := commit_of_not_leavesTables hstep hs' hreq hfail
    obtain ⟨s', hs'', hx⟩ := isRefunded_exec ((reachable_exec hr hpre).next trivial hstep) hcommitted rfl hpost
    obtain rfl := Option.some.inj (hs.symm.trans hs'')
    cases hx

/-- While commits of refunds succeed, the gateway is asked at most once to refund a booking, with the reference of its
    one payment, and the booking is refunded if and only if it was asked. A refund that is rejected, whatever the other
    sessions do meanwhile, changes no table. -/
theorem refund_once (h : ReachableBy cat RefundCommits σ) :
    (∀ id, RefundLaw cat σ id) ∧
      ∀ q acts τ began x, exec (step cat) σ (.request (.refund q) :: acts) = some τ →
        τ.sessions[σ.sessions.length]? = some ⟨began, .refund q (.finished (.error x))⟩ →
        Along (step cat) (LeavesTables cat σ.sessions.length) σ (.request (.refund q) :: acts) :=
  ⟨refundLaw_of_reachable h, fun _ _ _ _ _ run hs => rejected_leavesTables (h.mono fun _ _ _ => trivial) run hs⟩

/-- A booking is paid, and two requests refund it; the second waits for the first. -/
def refundRun : List Act :=
  .request (.create ⟨1, 20, 40, 50, none⟩) :: runs 0 9 60 ++ .request (.pay ⟨60, 1, 70, none⟩) :: runs 1 9 80 ++
    [.request (.refund ⟨60, 1, none⟩), .request (.refund ⟨60, 1, none⟩)] ++ runs 2 2 80 ++ runs 3 1 80 ++ runs 2 6 80 ++
    runs 3 1 80 ++ runs 2 1 80

/-- User 2 then asks for a refund of the booking. -/
theorem refund_once_run : ∃ σ τ : State, σ.history.refundCalls ≠ [] ∧ RefundLaw sampleCatalog σ 60 ∧
    exec (step sampleCatalog) σ (.request (.refund ⟨60, 2, none⟩) :: runs 4 2 80) = some τ ∧
    Along (step sampleCatalog) (LeavesTables sampleCatalog σ.sessions.length) σ
      (.request (.refund ⟨60, 2, none⟩) :: runs 4 2 80) := by
  have halong : Along (step sampleCatalog) RefundCommits (.seeded 0) refundRun := by decide
  have hrun : (exec (step sampleCatalog) (.seeded 0) refundRun).any (fun σ : State =>
      !σ.history.refundCalls.isEmpty &&
      (exec (step sampleCatalog) σ (.request (.refund ⟨60, 2, none⟩) :: runs 4 2 80)).any (fun τ : State =>
        (τ.sessions[σ.sessions.length]?).any fun s => decide (s.task =
          .refund ⟨60, 2, none⟩ (.finished (.error (httpError 403 "Not your booking")))))) = true := by decide
  obtain ⟨σ, hσ, htest⟩ := reachableBy_of_run halong hrun
  obtain ⟨hcalled, hτ⟩ := Bool.and_eq_true_iff.mp htest
  obtain ⟨τ, hτ, hs⟩ := (Option.any_eq_true _ _).mp hτ
  obtain ⟨⟨began, t⟩, hs, ht⟩ := (Option.any_eq_true _ _).mp hs
  obtain rfl := of_decide_eq_true ht
  exact ⟨σ, τ, by simpa using hcalled, (refund_once hσ).1 60, hτ, (refund_once hσ).2 _ _ _ _ _ hτ hs⟩

end

end Railbook
