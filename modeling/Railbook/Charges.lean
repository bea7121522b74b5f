import Railbook.Payments
import Railbook.Sessions

/-! What becomes of a charge. Between the call of the gateway and the end of its session a charge is in flight,
    and the session owns the row of the booking. Afterwards it is recorded, by a payment that is committed, or it
    is lost: the session ended with a server error after the gateway had answered. -/

namespace Railbook
open ReadCommitted Transition

namespace History
variable (h : History)

/-- The calls of session `i`. -/
def callsOf (i : Sid) : List ChargeCall := h.calls.filter (·.session = i)

/-- The answers to the calls of session `i`. -/
def answersOf (i : Sid) : List ChargeAnswer := h.answers.filter (·.call.session = i)

end History

/-- The payment row that records the answer `r` to the call `c`. -/
structure Payment.Records (p : Payment) (c : ChargeCall) (r : PaymentResult) : Prop where
  bookingId : p.bookingId = c.bookingId
  idempotencyKey : p.idempotencyKey = c.idempotencyKey
  amount : p.amount = c.amount
  status : p.status = r.status
  gatewayRef : p.gatewayRef = r.gatewayRef

/-- The call that `pay_booking` makes for `b`. -/
def PayRequest.call (q : PayRequest) (i : Sid) (b : Booking) : ChargeCall := ⟨i, b.id, q.idempotencyKey, b.totalAmount⟩

/-- Session `i` has called nothing. -/
def History.Silent (h : History) (i : Sid) : Prop := h.callsOf i = [] ∧ h.answersOf i = []

/-- Session `i`, running `q`, has made one call and its answer is `a`. -/
structure History.Answered (h : History) (i : Sid) (q : PayRequest) (a : ChargeAnswer) : Prop where
  calls : h.callsOf i = [a.call]
  answers : h.answersOf i = [a]
  bookingId : a.call.bookingId = q.bookingId
  idempotencyKey : a.call.idempotencyKey = q.idempotencyKey

/-- What session `i` at a program counter of `pay_booking` has to show for its calls, given the payments that are
    committed and the writes that it has pending. -/
def PayPc.Account (h : History) (payments : List Payment) (ws : List Write) (i : Sid) (q : PayRequest) : PayPc → Prop
  | .charging b => h.callsOf i = [q.call i b] ∧ h.answersOf i = []
  | .record b r _ => ∃ x, h.Answered i q ⟨q.call i b, r, x⟩
  | .commit _ => ∃ a, h.Answered i q a ∧ ∃ p, .insertPayment p ∈ ws ∧ p.Records a.call a.result
  | .invalidate _ => ∃ a, h.Answered i q a ∧ ∃ p ∈ payments, p.Records a.call a.result
  | .finished (.ok _) => h.Silent i ∨ ∃ a, h.Answered i q a ∧ ∃ p ∈ payments, p.Records a.call a.result
  | .finished (.error e) => h.Silent i ∨ (e.isServerError = true ∧ ∃ a, h.Answered i q a)
  | _ => h.Silent i

/-- The same for any task: only `pay_booking` calls `charge`. -/
def Task.Account (h : History) (payments : List Payment) (ws : List Write) (i : Sid) : Task → Prop
  | .pay q pc => pc.Account h payments ws i q
  | _ => h.Silent i

namespace State
variable (σ : State)

/-- Session `i` has to show for its calls what its program counter says. -/
def AccountOk (i : Sid) : Prop :=
  (σ.sessions[i]?).elim (σ.history.Silent i) fun s => s.task.Account σ.history σ.db.payments (σ.store.pending i) i

/-- The session of the call is between the call and the end of its commit. -/
def InFlight (c : ChargeCall) : Prop :=
  ∃ began q pc, σ.sessions[c.session]? = some ⟨began, .pay q pc⟩ ∧ q.bookingId = c.bookingId ∧
    ((∃ b, pc = .charging b) ∨ (∃ b r t, pc = .record b r t) ∨ ∃ b, pc = .commit b)

/-- The call has been answered, and a committed payment records the answer. -/
def Recorded (c : ChargeCall) : Prop :=
  ∃ a ∈ σ.history.answers, a.call = c ∧ ∃ p ∈ σ.db.payments, p.Records c a.result

/-- The call has been answered, and its session has ended in a server error. -/
def Lost (c : ChargeCall) : Prop :=
  (∃ a ∈ σ.history.answers, a.call = c) ∧
    ∃ began q e, σ.sessions[c.session]? = some ⟨began, .pay q (.finished (.error e))⟩ ∧ e.isServerError = true

end State

/-! ### What a step does to the history -/

namespace Effect

/-- The call of `charge` that the effect makes. -/
def calls : Effect → List ChargeCall
  | call c => [c]
  | _ => []

/-- The answer of `charge` that the effect brings. -/
def answers : Effect → List ChargeAnswer
  | answer a _ => [a]
  | _ => []

end Effect

section
variable {cat : Catalog} {σ τ : State} {i j : Sid} {began : Time} {s : Session} {t : Task} {e : Effect} {c : ChargeCall}

theorem perform_calls (σ : State) (i : Sid) (e : Effect) :
    (σ.perform i e).history.calls = σ.history.calls ++ e.calls := by
  cases e <;> simp [State.perform, Effect.calls]

theorem perform_answers (σ : State) (i : Sid) (e : Effect) :
    (σ.perform i e).history.answers = σ.history.answers ++ e.answers := by
  cases e <;> simp [State.perform, Effect.answers]

theorem perform_callsOf (σ : State) (i j : Sid) (e : Effect) :
    (σ.perform i e).history.callsOf j = σ.history.callsOf j ++ e.calls.filter (·.session = j) := by
  rw [History.callsOf, perform_calls, List.filter_append]
  rfl

theorem perform_answersOf (σ : State) (i j : Sid) (e : Effect) :
    (σ.perform i e).history.answersOf j = σ.history.answersOf j ++ e.answers.filter (·.call.session = j) := by
  rw [History.answersOf, perform_answers, List.filter_append]
  rfl

/-- A session speaks to the gateway in its own name. -/
theorem Move.own_call (m : Move cat σ i s e t) : ∀ c ∈ e.calls, c.session = i := by
  intro c hc
  cases m with
  | create m => cases m <;> cases hc
  | pay m =>
    cases m with
    | called => rw [List.mem_singleton.mp hc]
    | _ => cases hc
  | refund m => cases m <;> cases hc
  | cleanup m => cases m <;> cases hc

theorem Move.own_answer (m : Move cat σ i s e t) : ∀ a ∈ e.answers, a.call.session = i := by
  intro a ha
  cases m with
  | create m => cases m <;> cases ha
  | pay m =>
    cases m with
    | answered c => rw [List.mem_singleton.mp ha]
    | _ => cases ha
  | refund m => cases m <;> cases ha
  | cleanup m => cases m <;> cases ha

theorem filter_eq_nil_of_ne {α : Type} {f : α → Sid} {l : List α} (h : ∀ x ∈ l, f x = i) (hj : j ≠ i) :
    l.filter (fun x => f x = j) = [] := by
  rw [List.filter_eq_nil_iff]
  intro x hx hf
  exact hj ((of_decide_eq_true hf).symm.trans (h x hx))

theorem view_payments {p : Payment} (hp : p ∈ σ.db.payments) : p ∈ (σ.view i).payments :=
  mem_payments_foldl.mpr (Or.inl hp)

theorem perform_db_payments (σ : State) (i : Sid) (e : Effect) :
    ∀ p ∈ σ.db.payments, p ∈ (σ.perform i e).db.payments := by
  intro p hp
  rcases perform_db σ i e with he | ⟨-, he⟩ <;> rw [he]
  · exact hp
  · exact view_payments hp

/-! ### Accounts -/

theorem History.Silent.congr {h h' : History} (hs : h.Silent i) (hc : h'.callsOf i = h.callsOf i)
    (ha : h'.answersOf i = h.answersOf i) : h'.Silent i :=
  ⟨hc.trans hs.1, ha.trans hs.2⟩

theorem History.Answered.congr {h h' : History} {q : PayRequest} {a : ChargeAnswer} (hx : h.Answered i q a)
    (hc : h'.callsOf i = h.callsOf i) (ha : h'.answersOf i = h.answersOf i) : h'.Answered i q a :=
  ⟨hc.trans hx.calls, ha.trans hx.answers, hx.bookingId, hx.idempotencyKey⟩

/-- An account depends on the calls of its own session, and committed payments can only be added to it. -/
theorem PayPc.Account.congr {h h' : History} {ps ps' : List Payment} {ws : List Write} {q : PayRequest} {pc : PayPc}
    (hx : pc.Account h ps ws i q) (hc : h'.callsOf i = h.callsOf i) (ha : h'.answersOf i = h.answersOf i)
    (hps : ∀ p ∈ ps, p ∈ ps') : pc.Account h' ps' ws i q := by
  have recorded : (∃ a, h.Answered i q a ∧ ∃ p ∈ ps, p.Records a.call a.result) →
      ∃ a, h'.Answered i q a ∧ ∃ p ∈ ps', p.Records a.call a.result := by
    rintro ⟨a, hx, p, hp, hr⟩
    exact ⟨a, hx.congr hc ha, p, hps p hp, hr⟩
  cases pc with
  | charging b => exact ⟨hc.trans hx.1, ha.trans hx.2⟩
  | record b r t =>
    obtain ⟨x, hx⟩ := hx
    exact ⟨x, hx.congr hc ha⟩
  | commit b =>
    obtain ⟨a, hx, hp⟩ := hx
    exact ⟨a, hx.congr hc ha, hp⟩
  | invalidate b => exact recorded hx
  | finished r =>
    cases r with
    | ok b => exact hx.imp (fun hs => hs.congr hc ha) recorded
    | error e =>
      rcases hx with hs | ⟨he, a, hx⟩
      · exact Or.inl (hs.congr hc ha)
      · exact Or.inr ⟨he, a, hx.congr hc ha⟩
  | _ => exact History.Silent.congr hx hc ha

theorem Task.Account.congr {h h' : History} {ps ps' : List Payment} {ws : List Write} (hx : t.Account h ps ws i)
    (hc : h'.callsOf i = h.callsOf i) (ha : h'.answersOf i = h.answersOf i) (hps : ∀ p ∈ ps, p ∈ ps') :
    t.Account h' ps' ws i := by
  cases t with
  | pay q pc => exact PayPc.Account.congr hx hc ha hps
  | _ => exact History.Silent.congr hx hc ha

theorem payWrites_records {n : Nat} {b : Booking} {q : PayRequest} {r : PaymentResult} {x : Time} (hr : r.Sound) :
    ∃ p, .insertPayment p ∈ payWrites began n q b r x ∧ p.Records (q.call i b) r := by
  rcases hr with ⟨hst, href⟩ | ⟨hst, href⟩
  · refine ⟨⟨b.id, q.idempotencyKey, b.totalAmount, .success, r.gatewayRef, began, some x, none⟩, ?_, rfl, rfl, rfl,
      hst.symm, rfl⟩
    simp [payWrites, hst]
  · refine ⟨⟨b.id, q.idempotencyKey, b.totalAmount, .failed, none, began, some x, r.failureReason⟩, ?_, rfl, rfl, rfl,
      hst.symm, href.symm⟩
    simp [payWrites, hst]

theorem State.AccountOk.task (h : σ.AccountOk i) (hs : σ.sessions[i]? = some s) :
    s.task.Account σ.history σ.db.payments (σ.store.pending i) i := by
  rwa [State.AccountOk, hs] at h

/-- A statement of `pay_booking` keeps the account of its session. -/
theorem PayMove.account {q : PayRequest} {pc pc' : PayPc} (inv : Inv σ) (hs : σ.sessions[i]? = some ⟨began, .pay q pc⟩)
    (ha : pc.Account σ.history σ.db.payments (σ.store.pending i) i q) (m : PayMove σ i began q pc e pc') :
    pc'.Account (σ.perform i e).history (σ.perform i e).db.payments ((σ.perform i e).store.pending i) i q := by
  have ok := inv.taskOk hs
  cases m with
  | located => exact ha
  | admitted free hb hid hu hst hexp => exact ha
  | replayed hp hkey => exact Or.inl ha
  | unpaid hk => exact ha
  | attempted => exact ha
  | @called b =>
    refine ⟨?_, ha.2⟩
    rw [perform_callsOf, show σ.history.callsOf i = [] from ha.1]
    simp [Effect.calls, PayRequest.call]
  | @answered b c =>
    have hbq : b.id = q.bookingId ∧ b.userId = q.userId := ok.sound
    refine ⟨(σ.gateway.processed.lookup q.idempotencyKey).isNone, ha.1, ?_, hbq.1, rfl⟩
    rw [perform_answersOf, show σ.history.answersOf i = [] from ha.2]
    simp [Effect.answers, PayRequest.call]
  | @recorded b r t free hk =>
    have sound : (b.id = q.bookingId ∧ b.userId = q.userId) ∧ r.Sound := ok.sound
    obtain ⟨x, hx⟩ := ha
    obtain ⟨p, hp, hr⟩ := payWrites_records sound.2
    refine ⟨_, hx, p, ?_, hr⟩
    show _ ∈ ((σ.store.acquire i _).write i _).pending i
    rw [write_pending_self]
    exact List.mem_append_right _ hp
  | committed =>
    obtain ⟨a, hx, p, hp, hr⟩ := ha
    exact ⟨a, hx, p, mem_payments_foldl.mpr (Or.inr hp), hr⟩
  | invalidated => exact Or.inr ha
  | failed e he server =>
    cases pc with
    | record b r t =>
      obtain ⟨x, hx⟩ := ha
      exact Or.inr ⟨server rfl, _, hx⟩
    | commit b =>
      obtain ⟨a, hx, -⟩ := ha
      exact Or.inr ⟨server rfl, a, hx⟩
    | charge b => cases he
    | charging b => cases he
    | invalidate b => cases he
    | finished r => cases he
    | _ => exact Or.inl ha

theorem Move.account (inv : Inv σ) (hs : σ.sessions[i]? = some s) (ha : σ.AccountOk i) (m : Move cat σ i s e t) :
    t.Account (σ.perform i e).history (σ.perform i e).db.payments ((σ.perform i e).store.pending i) i := by
  have ha := ha.task hs
  cases m with
  | create m => cases m <;> exact ha
  | pay m => exact m.account inv hs ha
  | refund m => cases m <;> exact ha
  | cleanup m => cases m <;> exact ha

/-- A move of session `i` keeps the accounts of all sessions. -/
theorem Move.accounts (inv : Inv σ) (hs : σ.sessions[i]? = some s) (ha : ∀ j, σ.AccountOk j) (m : Move cat σ i s e t) :
    ∀ j, ((σ.perform i e).goto i s t).AccountOk j := by
  intro j
  refine elim_goto hs (ha j) ?_ fun hj => ?_
  · rintro rfl
    exact m.account inv hs (ha j)
  · have hcalls : (σ.perform i e).history.callsOf j = σ.history.callsOf j := by
      rw [perform_callsOf, filter_eq_nil_of_ne m.own_call hj, List.append_nil]
    have hanswers : (σ.perform i e).history.answersOf j = σ.history.answersOf j := by
      rw [perform_answersOf, filter_eq_nil_of_ne m.own_answer hj, List.append_nil]
    rw [goto_history, goto_store, perform_pending_ne e hj]
    exact ⟨fun hok => ⟨hcalls.trans hok.1, hanswers.trans hok.2⟩,
      fun s' _ hok => Task.Account.congr hok hcalls hanswers (perform_db_payments σ i e)⟩

theorem accounts_of_reachable (h : Reachable cat σ) : ∀ i, σ.AccountOk i := by
  refine h.invariant (I := fun σ => ∀ i, σ.AccountOk i) ?_ ?_
  · rintro σ ⟨now, rfl⟩ i
    exact ⟨rfl, rfl⟩
  · intro σ a τ hr ha _ hstep
    have inv := inv_of_reachableBy hr
    cases step_stepped hstep with
    | request r => exact fun j => elim_snoc (ha j) fun hok => by cases r <;> exact hok
    | run hs hc m => exact m.accounts inv hs ha
    | raise hs hr m => exact m.accounts inv hs ha
    | tick d => exact ha
    | updateConfig failureRate latencyMs => exact ha

/-! ### The fate of a call -/

theorem mem_callsOf {h : History} : c ∈ h.callsOf i ↔ c ∈ h.calls ∧ c.session = i := by
  simp [History.callsOf]

theorem mem_answersOf {h : History} {a : ChargeAnswer} : a ∈ h.answersOf i ↔ a ∈ h.answers ∧ a.call.session = i := by
  simp [History.answersOf]

theorem History.Answered.mem {h : History} {q : PayRequest} {a : ChargeAnswer} (hx : h.Answered i q a) :
    a ∈ h.answers :=
  (mem_answersOf.mp (hx.answers ▸ List.mem_singleton_self a)).1

theorem History.Answered.call_eq {h : History} {q : PayRequest} {a : ChargeAnswer} (hx : h.Answered i q a)
    (hc : c ∈ h.callsOf i) : a.call = c :=
  (List.mem_singleton.mp (hx.calls ▸ hc)).symm

/-- Every answer is the one answer to the one call of a session that pays. -/
theorem answered_of_mem {a : ChargeAnswer} (acc : ∀ i, σ.AccountOk i) (ha : a ∈ σ.history.answers) :
    ∃ began q pc, σ.sessions[a.call.session]? = some ⟨began, .pay q pc⟩ ∧ σ.history.Answered a.call.session q a := by
  have hmem : a ∈ σ.history.answersOf a.call.session := mem_answersOf.mpr ⟨ha, rfl⟩
  have loud : ¬σ.history.Silent a.call.session := fun h => by
    rw [h.2] at hmem
    cases hmem
  have hok := acc a.call.session
  unfold State.AccountOk at hok
  cases hs : σ.sessions[a.call.session]? with
  | none =>
    rw [hs] at hok
    exact absurd hok loud
  | some s =>
    rw [hs] at hok
    obtain ⟨began, t⟩ := s
    cases t with
    | pay q pc =>
      refine ⟨began, q, pc, rfl, ?_⟩
      have own : ∀ {a'}, σ.history.Answered a.call.session q a' → σ.history.Answered a.call.session q a :=
        fun {a'} hx => by
        obtain rfl : a = a' := List.mem_singleton.mp (hx.answers ▸ hmem)
        exact hx
      cases pc with
      | charging b =>
        rw [hok.2] at hmem
        cases hmem
      | record b r x =>
        obtain ⟨y, hx⟩ := hok
        exact own hx
      | commit b =>
        obtain ⟨a', hx, -⟩ := hok
        exact own hx
      | invalidate b =>
        obtain ⟨a', hx, -⟩ := hok
        exact own hx
      | finished r =>
        cases r with
        | ok b =>
          rcases hok with h | ⟨a', hx, -⟩
          · exact absurd h loud
          · exact own hx
        | error e =>
          rcases hok with h | ⟨-, a', hx⟩
          · exact absurd h loud
          · exact own hx
      | _ => exact absurd hok loud
    | _ => exact absurd hok loud

/-- Every call is in flight, recorded or lost. -/
theorem call_fate (inv : Inv σ) (ha : ∀ i, σ.AccountOk i) (hc : c ∈ σ.history.calls) :
    σ.InFlight c ∨ σ.Recorded c ∨ σ.Lost c := by
  have hmem : c ∈ σ.history.callsOf c.session := mem_callsOf.mpr ⟨hc, rfl⟩
  have loud : ¬σ.history.Silent c.session := fun h => by
    rw [h.1] at hmem
    cases hmem
  have hok := ha c.session
  unfold State.AccountOk at hok
  cases hs : σ.sessions[c.session]? with
  | none =>
    rw [hs] at hok
    exact absurd hok loud
  | some s =>
    rw [hs] at hok
    have hsound := (inv.taskOk hs).sound
    obtain ⟨began, t⟩ := s
    cases t with
    | pay q pc =>
      have recorded : (∃ a, σ.history.Answered c.session q a ∧ ∃ p ∈ σ.db.payments, p.Records a.call a.result) →
          σ.InFlight c ∨ σ.Recorded c ∨ σ.Lost c := by
        rintro ⟨a, hx, p, hp, hr⟩
        have hcall := hx.call_eq hmem
        exact Or.inr (Or.inl ⟨a, hx.mem, hcall, p, hp, hcall ▸ hr⟩)
      cases pc with
      | charging b =>
        have hcall : c = q.call c.session b := List.mem_singleton.mp (hok.1 ▸ hmem)
        exact Or.inl ⟨began, q, _, hs, (congrArg ChargeCall.bookingId hcall).trans hsound.1 |>.symm, Or.inl ⟨b, rfl⟩⟩
      | record b r x =>
        obtain ⟨y, hx⟩ := hok
        refine Or.inl ⟨began, q, _, hs, ?_, Or.inr (Or.inl ⟨b, r, x, rfl⟩)⟩
        rw [← hx.call_eq hmem, hx.bookingId]
      | commit b =>
        obtain ⟨a, hx, -⟩ := hok
        refine Or.inl ⟨began, q, _, hs, ?_, Or.inr (Or.inr ⟨b, rfl⟩)⟩
        rw [← hx.call_eq hmem, hx.bookingId]
      | invalidate b => exact recorded hok
      | finished r =>
        cases r with
        | ok b => exact recorded (hok.resolve_left loud)
        | error e =>
          rcases hok with h | ⟨he, a, hx⟩
          · exact absurd h loud
          · exact Or.inr (Or.inr ⟨⟨a, hx.mem, hx.call_eq hmem⟩, began, q, e, hs, he⟩)
      | _ => exact absurd hok loud
    | _ => exact absurd hok loud

theorem State.InFlight.owned (h : σ.InFlight c) (inv : Inv σ) :
    ∃ s, σ.sessions[c.session]? = some s ∧ .bookingRow c.bookingId ∈ s.task.owned := by
  obtain ⟨began, q, pc, hs, hid, hpc⟩ := h
  refine ⟨_, hs, ?_⟩
  have hsound := (inv.taskOk hs).sound
  rcases hpc with ⟨b, rfl⟩ | ⟨b, r, t, rfl⟩ | ⟨b, rfl⟩
  · have hsound : b.id = q.bookingId ∧ _ := hsound
    simp [Task.owned, hsound.1, hid]
  · have hsound : (b.id = q.bookingId ∧ _) ∧ _ := hsound
    simp [Task.owned, hsound.1.1, hid]
  · have hsound : b.id = q.bookingId ∧ _ := hsound
    simp [Task.owned, hsound.1, hid]

theorem State.Lost.move (h : σ.Lost c) (hs : σ.sessions[i]? = some s) (m : Move cat σ i s e t) :
    ((σ.perform i e).goto i s t).Lost c := by
  obtain ⟨⟨a, ha, hc⟩, began, q, x, hs', hx⟩ := h
  refine ⟨⟨a, ?_, hc⟩, began, q, x, ?_, hx⟩
  · rw [goto_history, perform_answers]
    exact List.mem_append_left _ ha
  · rw [goto_sessions_ne, hs']
    rintro rfl
    rw [hs] at hs'
    cases hs'
    cases m.not_finished

theorem State.Lost.congr {τ : State} (h : σ.Lost c) (hh : τ.history = σ.history)
    (hs : ∀ x, σ.sessions[c.session]? = some x → τ.sessions[c.session]? = some x) : τ.Lost c := by
  obtain ⟨ha, began, q, x, hs', hx⟩ := h
  exact ⟨by rwa [hh], began, q, x, hs _ hs', hx⟩

theorem getElem?_snoc_of_some {α : Type} {l : List α} {x y : α} (h : l[j]? = some y) : (l ++ [x])[j]? = some y := by
  rw [List.getElem?_append_left (List.getElem?_eq_some_iff.mp h).1, h]

theorem State.Lost.step {a : Act} (h : σ.Lost c) (hstep : step cat σ a = some τ) : τ.Lost c := by
  cases step_stepped hstep with
  | request r => exact h.congr rfl fun x hx => getElem?_snoc_of_some hx
  | run hs hc m => exact h.move hs m
  | raise hs hr m => exact h.move hs m
  | tick d => exact h.congr rfl fun _ hx => hx
  | updateConfig failureRate latencyMs => exact h.congr rfl fun _ hx => hx

/-- When a booking is called for, every earlier call for it is lost: one in flight would own the row that the caller
    owns, and one recorded would have left a payment that the caller would see. -/
theorem lost_of_called {q : PayRequest} {b : Booking} (inv : Inv σ) (ha : ∀ i, σ.AccountOk i)
    (hs : σ.sessions[i]? = some ⟨began, .pay q (.charge b)⟩) (hc : c ∈ σ.history.calls) (hid : c.bookingId = b.id) :
    σ.Lost c := by
  have ok := inv.taskOk hs
  have silent : σ.history.Silent i := (ha i).task hs
  rcases call_fate inv ha hc with hf | ⟨a, -, -, p, hp, hr⟩ | hl
  · obtain ⟨s, hs', hown⟩ := hf.owned inv
    have hi : i = c.session := by
      refine inv.owner_unique hs hs' (r := .bookingRow b.id) (List.mem_singleton_self _) ?_
      rwa [hid] at hown
    have hmem := mem_callsOf.mpr ⟨hc, hi.symm⟩
    rw [silent.1] at hmem
    cases hmem
  · obtain ⟨ph, hph, hconf⟩ := ok.held (b, [.attempted]) (List.mem_singleton_self _)
    rw [List.mem_singleton.mp hph] at hconf
    have hnil : ((σ.view i).ledger b.id).payments = [] := hconf.payments
    have hmem : p ∈ ((σ.view i).ledger b.id).payments :=
      mem_ledger_payments.mpr ⟨view_payments hp, hr.bookingId.trans hid⟩
    rw [hnil] at hmem
    cases hmem
  · exact hl

theorem length_le_one_of_pairwise {α : Type} {R : α → α → Prop} {l : List α} (h : l.Pairwise R)
    (hR : ∀ x ∈ l, ∀ y ∈ l, ¬R x y) : l.length ≤ 1 := by
  rcases l with _ | ⟨x, _ | ⟨y, l⟩⟩
  · exact Nat.zero_le 1
  · exact Nat.le_refl 1
  · refine absurd ((List.pairwise_cons.mp h).1 y List.mem_cons_self) (hR x List.mem_cons_self y ?_)
    exact List.mem_cons_of_mem _ List.mem_cons_self

/-- A booking is called for again only after the earlier call was lost. -/
def State.InTurn (σ : State) : Prop :=
  σ.history.calls.Pairwise fun c c' => c.bookingId = c'.bookingId → σ.Lost c

theorem inTurn_of_reachable (h : Reachable cat σ) : σ.InTurn := by
  refine h.invariant ?_ ?_
  · rintro σ ⟨now, rfl⟩
    exact .nil
  · intro σ a τ hr hturn _ hstep
    have inv := inv_of_reachableBy hr
    have acc := accounts_of_reachable hr
    have kept : σ.history.calls.Pairwise fun c c' => c.bookingId = c'.bookingId → τ.Lost c :=
      List.Pairwise.imp (fun hl hid => (hl hid).step hstep) hturn
    have moved : ∀ {i s e t}, σ.sessions[i]? = some s → Move cat σ i s e t → τ = (σ.perform i e).goto i s t →
        τ.InTurn := by
      rintro i s e t hs m rfl
      unfold State.InTurn
      rw [goto_history, perform_calls, List.pairwise_append]
      refine ⟨kept, ?_, fun c hc c' hc' hid => ?_⟩
      · cases e <;> simp [Effect.calls]
      · cases m with
        | pay m =>
          cases m with
          | called =>
            rw [Effect.calls, List.mem_singleton] at hc'
            rw [hc'] at hid
            exact (lost_of_called inv acc hs hc hid).step hstep
          | _ => cases hc'
        | create m => cases m <;> cases hc'
        | refund m => cases m <;> cases hc'
        | cleanup m => cases m <;> cases hc'
    cases step_stepped hstep with
    | request r => exact kept
    | run hs hc m => exact moved hs m rfl
    | raise hs hr m => exact moved hs m rfl
    | tick d => exact kept
    | updateConfig failureRate latencyMs => exact kept

/-! ### The gateway and its answers -/

/-- The cache of the gateway against the history of its answers: a key is executed once, by the first call under it,
    and every call under the key gets the result of that one. -/
structure State.GatewayLog (σ : State) : Prop where
  cached : ∀ a ∈ σ.history.answers, σ.gateway.processed.lookup a.call.idempotencyKey = some a.result
  executed : ∀ k r, σ.gateway.processed.lookup k = some r →
    ∃ a ∈ σ.history.answers, a.executed = true ∧ a.call.idempotencyKey = k ∧ a.result = r
  first : σ.history.answers.Pairwise fun a a' => a'.executed = true → a.call.idempotencyKey ≠ a'.call.idempotencyKey

theorem State.GatewayLog.congr {τ : State} (h : σ.GatewayLog) (ha : τ.history.answers = σ.history.answers)
    (hp : τ.gateway.processed = σ.gateway.processed) : τ.GatewayLog := by
  refine ⟨?_, ?_, ?_⟩ <;> simp only [ha, hp]
  exacts [h.cached, h.executed, h.first]

/-- An answer of the gateway is logged. -/
theorem State.GatewayLog.answer {b : Booking} {q : PayRequest} {x : Choice} (h : σ.GatewayLog)
    (ha : τ.history.answers = σ.history.answers ++ [⟨q.call i b, (σ.gateway.charge b.totalAmount q.idempotencyKey x).1,
      (σ.gateway.processed.lookup q.idempotencyKey).isNone⟩])
    (hp : τ.gateway = (σ.gateway.charge b.totalAmount q.idempotencyKey x).2) : τ.GatewayLog := by
  refine ⟨fun a hmem => ?_, fun k r hl => ?_, ?_⟩
  · rw [ha] at hmem
    rw [hp]
    rcases List.mem_append.mp hmem with hmem | hmem
    · exact MockPaymentGateway.charge_lookup_mono (h.cached a hmem)
    · rw [List.mem_singleton.mp hmem]
      exact MockPaymentGateway.charge_lookup
  · rw [hp] at hl
    rw [ha]
    cases hk : σ.gateway.processed.lookup q.idempotencyKey with
    | some r' =>
      rw [MockPaymentGateway.charge_cached hk] at hl
      obtain ⟨a, hmem, ha⟩ := h.executed k r hl
      exact ⟨a, List.mem_append_left _ hmem, ha⟩
    | none =>
      rw [MockPaymentGateway.charge_fresh hk] at hl ⊢
      by_cases he : k = q.idempotencyKey
      · subst he
        simp only [List.lookup_cons_self, Option.some.injEq] at hl
        exact ⟨_, List.mem_append_right _ (List.mem_singleton_self _), rfl, rfl, hl⟩
      · rw [List.lookup_cons, beq_false_of_ne he] at hl
        obtain ⟨a, hmem, ha⟩ := h.executed k r hl
        exact ⟨a, List.mem_append_left _ hmem, ha⟩
  · rw [ha, List.pairwise_append]
    refine ⟨h.first, List.pairwise_singleton _ _, fun a hmem a' hmem' hx => ?_⟩
    rw [List.mem_singleton] at hmem'
    subst hmem'
    intro hkey
    have hnone : σ.gateway.processed.lookup q.idempotencyKey = none := Option.isNone_iff_eq_none.mp hx
    have hsome := h.cached a hmem
    rw [show a.call.idempotencyKey = q.idempotencyKey from hkey, hnone] at hsome
    cases hsome

theorem State.GatewayLog.move (h : σ.GatewayLog) (m : Move cat σ i s e t) :
    ((σ.perform i e).goto i s t).GatewayLog := by
  cases m with
  | pay m =>
    cases m with
    | answered c => exact h.answer rfl rfl
    | _ => exact h.congr rfl rfl
  | create m => cases m <;> exact h.congr rfl rfl
  | refund m => cases m <;> exact h.congr rfl rfl
  | cleanup m => cases m <;> exact h.congr rfl rfl

theorem State.GatewayLog.step {a : Act} (h : σ.GatewayLog) (hstep : step cat σ a = some τ) : τ.GatewayLog := by
  cases step_stepped hstep with
  | request r => exact h.congr rfl rfl
  | run hs hc m => exact h.move m
  | raise hs hr m => exact h.move m
  | tick d => exact h.congr rfl rfl
  | updateConfig failureRate latencyMs => exact h.congr rfl rfl

theorem gatewayLog_of_reachable (h : Reachable cat σ) : σ.GatewayLog := by
  refine h.invariant ?_ fun _ _ _ _ hg _ hstep => hg.step hstep
  rintro σ ⟨now, rfl⟩
  exact ⟨nofun, nofun, .nil⟩

theorem State.GatewayLog.executed_unique {a a' : ChargeAnswer} (h : σ.GatewayLog) (ha : a ∈ σ.history.answers)
    (ha' : a' ∈ σ.history.answers) (hx : a.executed = true) (hx' : a'.executed = true)
    (hkey : a.call.idempotencyKey = a'.call.idempotencyKey) : a = a' := by
  let R : ChargeAnswer → ChargeAnswer → Prop := fun a a' =>
    a.executed = true → a'.executed = true → a.call.idempotencyKey = a'.call.idempotencyKey → a = a'
  have forward : σ.history.answers.Pairwise R := h.first.imp fun hne _ hx' hkey => absurd hkey (hne hx')
  have backward : σ.history.answers.Pairwise (flip R) := h.first.imp fun hne hx _ hkey => absurd hkey.symm (hne hx)
  exact List.Pairwise.forall_of_forall_of_flip (fun _ _ _ _ _ => rfl) forward backward ha ha' hx hx' hkey

/-! ### Where payments come from -/

theorem records_of_payWrites {n : Nat} {b : Booking} {q : PayRequest} {r : PaymentResult} {x : Time} {p : Payment}
    (hr : r.Sound) (hp : .insertPayment p ∈ payWrites began n q b r x) : p.Records (q.call i b) r := by
  unfold payWrites at hp
  rcases hr with ⟨hst, href⟩ | ⟨hst, href⟩
  · simp only [hst, if_true, List.mem_cons, reduceCtorEq, Write.insertPayment.injEq, List.not_mem_nil, or_false,
      false_or] at hp
    subst hp
    exact ⟨rfl, rfl, rfl, hst.symm, rfl⟩
  · simp only [hst, reduceCtorEq, if_false, List.mem_cons, Write.insertPayment.injEq, List.not_mem_nil, or_false,
      false_or] at hp
    subst hp
    exact ⟨rfl, rfl, rfl, hst.symm, href.symm⟩

/-- Every payment, committed or pending, records an answer of the gateway. -/
structure State.Traced (σ : State) : Prop where
  committed : ∀ p ∈ σ.db.payments, ∃ a ∈ σ.history.answers, p.Records a.call a.result
  pending : ∀ i p, .insertPayment p ∈ σ.store.pending i → ∃ a ∈ σ.history.answersOf i, p.Records a.call a.result

/-- Only the flush of `pay_booking` inserts a payment, and it records the answer that the session got. -/
theorem Move.traced {rs : List Resource} {ws : List Write} {n : Nat} {p : Payment} (inv : Inv σ)
    (hs : σ.sessions[i]? = some s) (ha : σ.AccountOk i) (m : Move cat σ i s (.flush rs ws n) t)
    (hp : .insertPayment p ∈ ws) : ∃ a ∈ σ.history.answersOf i, p.Records a.call a.result := by
  cases m with
  | create m => cases m <;> simp at hp
  | pay m =>
    cases m with
    | attempted => simp at hp
    | @recorded b r x free hk =>
      have sound : _ ∧ r.Sound := (inv.taskOk hs).sound
      obtain ⟨y, hx⟩ := ha.task hs
      exact ⟨_, hx.answers ▸ List.mem_singleton_self _, records_of_payWrites sound.2 hp⟩
  | refund m => cases m with | recorded => simp [refundWrites] at hp
  | cleanup m =>
    cases m with
    | flushed =>
      rcases List.mem_append.mp hp with hp | hp <;> obtain ⟨_, -, hp⟩ := List.mem_map.mp hp <;> cases hp

theorem State.Traced.move (h : σ.Traced) (inv : Inv σ) (hs : σ.sessions[i]? = some s) (ha : σ.AccountOk i)
    (m : Move cat σ i s e t) : ((σ.perform i e).goto i s t).Traced := by
  have answers : ∀ a ∈ σ.history.answers, a ∈ (σ.perform i e).history.answers := fun a ha => by
    rw [perform_answers]
    exact List.mem_append_left _ ha
  have answersOf : ∀ j, ∀ a ∈ σ.history.answersOf j, a ∈ (σ.perform i e).history.answersOf j := fun j a ha => by
    rw [perform_answersOf]
    exact List.mem_append_left _ ha
  have old : ∀ {j p}, .insertPayment p ∈ σ.store.pending j →
      ∃ a ∈ (σ.perform i e).history.answersOf j, p.Records a.call a.result := fun hp => by
    obtain ⟨a, ha, hr⟩ := h.pending _ _ hp
    exact ⟨a, answersOf _ a ha, hr⟩
  refine ⟨fun p hp => ?_, fun j p hp => ?_⟩
  · have hp : p ∈ (σ.perform i e).db.payments := hp
    have stored : p ∈ σ.db.payments → ∃ a ∈ (σ.perform i e).history.answers, p.Records a.call a.result := fun hp => by
      obtain ⟨a, ha, hr⟩ := h.committed p hp
      exact ⟨a, answers a ha, hr⟩
    rcases perform_db σ i e with he | ⟨-, he⟩ <;> rw [he] at hp
    · exact stored hp
    · rcases mem_payments_foldl.mp hp with hp | hp
      · exact stored hp
      · obtain ⟨a, ha, hr⟩ := old hp
        exact ⟨a, (mem_answersOf.mp ha).1, hr⟩
  · rcases pending_of_perform hp with hold | ⟨rfl, rs, ws, n, rfl, hnew⟩
    · exact old hold
    · obtain ⟨a, ha, hr⟩ := m.traced inv hs ha hnew
      exact ⟨a, answersOf j a ha, hr⟩

theorem traced_of_reachable (h : Reachable cat σ) : σ.Traced := by
  refine h.invariant ?_ ?_
  · rintro σ ⟨now, rfl⟩
    exact ⟨nofun, nofun⟩
  · intro σ a τ hr ht _ hstep
    have inv := inv_of_reachableBy hr
    have acc := accounts_of_reachable hr
    cases step_stepped hstep with
    | request r => exact ⟨ht.committed, ht.pending⟩
    | run hs hc m => exact ht.move inv hs (acc _) m
    | raise hs hr m => exact ht.move inv hs (acc _) m
    | tick d => exact ⟨ht.committed, ht.pending⟩
    | updateConfig failureRate latencyMs => exact ⟨ht.committed, ht.pending⟩

theorem answers_step {x : ChargeAnswer} {a : Act} (hx : x ∈ σ.history.answers) (hstep : step cat σ a = some τ) :
    x ∈ τ.history.answers := by
  have perform : ∀ i e, x ∈ (σ.perform i e).history.answers := fun i e => by
    rw [perform_answers]
    exact List.mem_append_left _ hx
  cases step_stepped hstep with
  | request r => exact hx
  | run hs hc m => exact perform _ _
  | raise hs hr m => exact perform _ _
  | tick d => exact hx
  | updateConfig failureRate latencyMs => exact hx

theorem answers_exec {x : ChargeAnswer} {acts : List Act} (hx : x ∈ σ.history.answers)
    (run : exec (step cat) σ acts = some τ) : x ∈ τ.history.answers :=
  exec_invariant_of_step (I := fun υ : State => x ∈ υ.history.answers)
    (fun _ _ _ hx hstep => answers_step hx hstep) hx run

/-- A payment that a step commits is one of the session that moved, and records the answer that this session got. -/
theorem committed_payment {a : Act} {p : Payment} (hr : Reachable cat σ) (hstep : step cat σ a = some τ)
    (hp : p ∈ τ.db.payments) (hnew : p ∉ σ.db.payments) : ∃ i x s t, a = .run i x ∧ σ.sessions[i]? = some s ∧
      Move cat σ i s .commit t ∧ ∃ y ∈ σ.history.answersOf i, p.Records y.call y.result := by
  have moved : ∀ {i e}, p ∈ (σ.perform i e).db.payments → e = .commit ∧
      ∃ y ∈ σ.history.answersOf i, p.Records y.call y.result := by
    intro i e hp
    rcases perform_db σ i e with he | ⟨rfl, he⟩ <;> rw [he] at hp
    · exact absurd hp hnew
    · rcases mem_payments_foldl.mp hp with hp | hp
      · exact absurd hp hnew
      · exact ⟨rfl, (traced_of_reachable hr).pending i p hp⟩
  cases step_stepped hstep with
  | request r => exact absurd hp hnew
  | @run i x s e t hs hc m =>
    obtain ⟨rfl, hy⟩ := moved hp
    exact ⟨i, x, s, t, rfl, hs, m, hy⟩
  | raise hs hr m =>
    obtain ⟨he, -⟩ := moved hp
    cases he
  | tick d => exact absurd hp hnew
  | updateConfig failureRate latencyMs => exact absurd hp hnew

/-- A session at its commit records the answer that it got. -/
theorem paid_of_commit {q : PayRequest} {b : Booking} {a : ChargeAnswer} (hr : Reachable cat σ)
    (hs : σ.sessions[i]? = some ⟨began, .pay q (.commit b)⟩)
    (ha : a ∈ σ.history.answersOf i) (y : Choice) :
    ∃ τ, step cat σ (.run i y) = some τ ∧ ∃ p ∈ τ.db.payments, p.Records a.call a.result := by
  obtain ⟨a', hx, p, hp, hrec⟩ := (accounts_of_reachable hr i).task hs
  obtain rfl : a = a' := List.mem_singleton.mp (hx.answers ▸ ha)
  exact ⟨_, step_run hs rfl, p, mem_payments_foldl.mpr (Or.inr hp), hrec⟩

end

end Railbook
