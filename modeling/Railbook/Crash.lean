import Railbook.Termination
import Railbook.Retries
import Railbook.Library.Refinement

/-! Crashes. What the server holds in memory is lost: its sessions, whose transactions the database rolls back, and
    the cache and the settings of the payment gateway, which `app/payments/gateway.py` makes anew. What it has
    committed stays, and `lifespan` of `app/main.py` starts it again over these tables, which are already seeded. -/

namespace Railbook
open ReadCommitted Transition

/-- The request is cut off, and has no answer but the end of its connection. -/
def Task.cut (t : Task) : Task :=
  if t.isFinished then t
  else
    match t with
    | .create q _ => .create q (.finished (.error .databaseError))
    | .pay q _ => .pay q (.finished (.error .databaseError))
    | .refund q _ => .refund q (.finished (.error .databaseError))
    | .cleanup _ => .cleanup (.finished (.error .databaseError))

/-- The service after a crash and the start that follows it. -/
def State.restart (σ : State) : State where
  store := .fresh σ.db
  sessions := σ.sessions.map fun s => { s with task := s.task.cut }
  now := σ.now
  nextAuditId := σ.nextAuditId
  gateway := .init
  history := σ.history

/-- `before` is how many of the sessions began before the last crash. -/
structure Crashing where
  service : State
  before : Nat

/-- What happens next: a step of the service, or a crash. -/
inductive CrashAct where
  | service (a : Act)
  | crash
  deriving DecidableEq, Repr

/-- A step of the service that may crash. -/
def crashStep (cat : Catalog) (ρ : Crashing) : CrashAct → Option Crashing
  | .service a => (step cat ρ.service a).map fun service => { ρ with service := service }
  | .crash => some ⟨ρ.service.restart, ρ.service.sessions.length⟩

/-- The seeded service, which has not crashed yet. -/
def Crashing.start (now : Time) : Crashing := ⟨.seeded now, 0⟩

/-- The requests of all sessions. -/
def State.requests (σ : State) : List Request := σ.sessions.map (·.task.request)

/-- The key is that of a payment asked for before the last crash. -/
def Crashing.Asked (ρ : Crashing) (key : Uuid) : Prop :=
  ∃ r ∈ ρ.service.requests.take ρ.before, r.paymentKey = some key

instance (ρ : Crashing) (key : Uuid) : Decidable (ρ.Asked key) := inferInstanceAs (Decidable (∃ _ ∈ _, _))

/-- No payment that arrives has the key of one asked for before the last crash. `handlePay` of `Booking.jsx` draws a
    key at every call. -/
def NewKeys (ρ : Crashing) : CrashAct → Prop
  | .service (.request (.pay q)) => ¬ρ.Asked q.idempotencyKey
  | _ => True

instance (ρ : Crashing) : (a : CrashAct) → Decidable (NewKeys ρ a)
  | .service (.request (.pay q)) => inferInstanceAs (Decidable (¬ρ.Asked q.idempotencyKey))
  | .service (.request (.create _)) | .service (.request (.refund _)) | .service (.request .cleanup) => isTrue trivial
  | .service (.run _ _) | .service (.raise _) | .service (.tick _) | .service (.updateConfig _ _) | .crash =>
    isTrue trivial

/-- The service in a state that a run without crashes reaches too, as far as the tables, the locks and the sessions
    since the last crash go. -/
structure Crashing.Resembles (ρ : Crashing) (σ : State) : Prop where
  store : σ.store = ρ.service.store
  now : σ.now = ρ.service.now
  sessions : ∀ i ≥ ρ.before, σ.sessions[i]? = ρ.service.sessions[i]?
  ended : ∀ i < ρ.before, ∀ s, ρ.service.sessions[i]? = some s → s.task.isFinished = true

/-! ### States that agree -/

/-- The two gateways have the same settings, and the same results for all keys but those in `asked`. -/
structure MockPaymentGateway.Agrees (asked : Uuid → Prop) (gw gw' : MockPaymentGateway) : Prop where
  failureRate : gw.failureRate = gw'.failureRate
  latencyMs : gw.latencyMs = gw'.latencyMs
  processed : ∀ key, ¬asked key → gw.processed.lookup key = gw'.processed.lookup key

/-- The two states look the same to every session that does not pay under one of the keys in `asked`. -/
structure State.Agrees (asked : Uuid → Prop) (σ τ : State) : Prop where
  store : σ.store = τ.store
  now : σ.now = τ.now
  nextAuditId : σ.nextAuditId = τ.nextAuditId
  gateway : σ.gateway.Agrees asked τ.gateway

/-- The steps from the one state to the other have committed nothing. -/
structure State.SameTables (σ τ : State) : Prop where
  db : σ.db = τ.db
  now : σ.now = τ.now
  nextAuditId : σ.nextAuditId = τ.nextAuditId
  requests : σ.requests = τ.requests

/-- A run without crashes has had the same requests. Its gateway has kept the keys from before the last crash, but no
    session since then has one of them. -/
structure Crashing.Simulated (ρ : Crashing) (σ : State) : Prop where
  agrees : σ.Agrees ρ.Asked ρ.service
  sessions : ∀ i ≥ ρ.before, σ.sessions[i]? = ρ.service.sessions[i]?
  ended : ∀ i < ρ.before, ∀ s, ρ.service.sessions[i]? = some s → s.task.isFinished = true
  requests : σ.requests = ρ.service.requests
  before : ρ.before ≤ ρ.service.requests.length
  keys : ∀ r ∈ ρ.service.requests.drop ρ.before, ∀ key, r.paymentKey = some key → ¬ρ.Asked key

section
variable {cat : Catalog} {σ τ υ : State} {ρ ρ' : Crashing} {asked : Uuid → Prop} {i : Sid} {s : Session} {t : Task}
  {e e' : Effect} {x : Choice} {a : Act} {key : Uuid}

theorem Crashing.Simulated.resembles (h : ρ.Simulated σ) : ρ.Resembles σ :=
  ⟨h.agrees.store, h.agrees.now, h.sessions, h.ended⟩

theorem MockPaymentGateway.Agrees.charge {gw gw' : MockPaymentGateway} {n : Amount} (h : gw.Agrees asked gw')
    (hkey : ¬asked key) :
    (gw.charge n key x).1 = (gw'.charge n key x).1 ∧ (gw.charge n key x).2.Agrees asked (gw'.charge n key x).2 := by
  have hdraw : gw.draw x = gw'.draw x := by rw [draw, draw, h.failureRate]
  cases hl : gw.processed.lookup key with
  | some r =>
    rw [charge_cached hl, charge_cached ((h.processed key hkey).symm.trans hl)]
    exact ⟨rfl, h⟩
  | none =>
    rw [charge_fresh hl, charge_fresh ((h.processed key hkey).symm.trans hl), hdraw]
    refine ⟨rfl, h.failureRate, h.latencyMs, fun key' hkey' => ?_⟩
    simp only [List.lookup_cons, h.processed key' hkey']

theorem MockPaymentGateway.Agrees.updateConfig {gw gw' : MockPaymentGateway} {f : Option ℚ} {l : Option Int}
    (h : gw.Agrees asked gw') : (gw.updateConfig f l).Agrees asked (gw'.updateConfig f l) where
  failureRate := by simp only [MockPaymentGateway.updateConfig, h.failureRate]
  latencyMs := by simp only [MockPaymentGateway.updateConfig, h.latencyMs]
  processed := h.processed

theorem State.Agrees.perform (h : σ.Agrees asked τ) (i : Sid) (e : Effect) :
    (σ.perform i e).Agrees asked (τ.perform i e) := by
  obtain ⟨store, sessions, now, nextAuditId, gateway, history⟩ := σ
  obtain ⟨store', sessions', now', nextAuditId', gateway', history'⟩ := τ
  obtain ⟨rfl, rfl, rfl, hgw⟩ := h
  cases e with
  | answer a gw => exact ⟨rfl, rfl, rfl, rfl, rfl, fun _ _ => rfl⟩
  | _ => exact ⟨rfl, rfl, rfl, hgw⟩

/-- Only `charge` reads the gateway. -/
theorem State.Agrees.statement_eq (h : σ.Agrees asked τ) (hcharging : ∀ q b, s.task ≠ .pay q (.charging b)) :
    s.statement cat σ i x = s.statement cat τ i x := by
  obtain ⟨store, sessions, now, nextAuditId, gateway, history⟩ := σ
  obtain ⟨store', sessions', now', nextAuditId', gateway', history'⟩ := τ
  obtain ⟨rfl, rfl, rfl, -⟩ := h
  obtain ⟨began, task⟩ := s
  cases task with
  | create q pc => cases pc <;> rfl
  | pay q pc =>
    cases pc with
    | charging b => exact absurd rfl (hcharging q b)
    | _ => rfl
  | refund q pc => cases pc <;> rfl
  | cleanup pc => cases pc <;> rfl

/-- A session that pays under no key in `asked` goes the same way in both states, and leaves them in agreement. -/
theorem State.Agrees.statement (h : σ.Agrees asked τ) (hkey : ∀ key, s.task.request.paymentKey = some key → ¬asked key)
    (hc : s.statement cat τ i x = some (e, t)) :
    ∃ e', s.statement cat σ i x = some (e', t) ∧ (σ.perform i e').Agrees asked (τ.perform i e) := by
  by_cases hcharging : ∃ q b, s.task = .pay q (.charging b)
  · obtain ⟨q, b, hs⟩ := hcharging
    obtain ⟨began, task⟩ := s
    obtain rfl : task = .pay q (.charging b) := hs
    cases hc
    obtain ⟨hresult, hgw⟩ := h.gateway.charge (n := b.totalAmount) (x := x) (hkey q.idempotencyKey rfl)
    have hanswer : Session.statement cat σ i ⟨began, .pay q (.charging b)⟩ x =
        some (.answer ⟨q.call i b, (σ.gateway.charge b.totalAmount q.idempotencyKey x).1,
          (σ.gateway.processed.lookup q.idempotencyKey).isNone⟩ (σ.gateway.charge b.totalAmount q.idempotencyKey x).2,
          .pay q (.record b (σ.gateway.charge b.totalAmount q.idempotencyKey x).1 σ.now)) := rfl
    rw [hresult, h.now] at hanswer
    exact ⟨_, hanswer, h.store, h.now, h.nextAuditId, hgw⟩
  · simp only [not_exists] at hcharging
    exact ⟨e, (h.statement_eq hcharging).trans hc, h.perform i e⟩

/-! ### A step of the service -/

theorem Crashing.asked_congr (h : ρ'.service.requests.take ρ'.before = ρ.service.requests.take ρ.before) :
    ρ'.Asked = ρ.Asked := by
  funext key
  simp only [Crashing.Asked, h]

/-- What both states go on with. -/
theorem Crashing.Simulated.next (h : ρ.Simulated σ) (rs : List Request) (hreq : υ.requests = ρ.service.requests ++ rs)
    (hreq' : τ.requests = σ.requests ++ rs) (hkeys : ∀ r ∈ rs, ∀ key, r.paymentKey = some key → ¬ρ.Asked key)
    (agrees : τ.Agrees ρ.Asked υ) (sessions : ∀ i ≥ ρ.before, τ.sessions[i]? = υ.sessions[i]?)
    (ended : ∀ i < ρ.before, υ.sessions[i]? = ρ.service.sessions[i]?) : Crashing.Simulated ⟨υ, ρ.before⟩ τ := by
  have hasked : Crashing.Asked ⟨υ, ρ.before⟩ = ρ.Asked :=
    Crashing.asked_congr (by rw [hreq, List.take_append_of_le_length h.before])
  refine ⟨hasked ▸ agrees, sessions, fun i hi s hs => h.ended i hi s ((ended i hi).symm.trans hs), ?_, ?_, ?_⟩
  · rw [hreq', hreq, h.requests]
  · rw [hreq, List.length_append]
    exact Nat.le_add_right_of_le h.before
  · rw [hasked, hreq, List.drop_append_of_le_length h.before]
    intro r hr
    rcases List.mem_append.mp hr with hr | hr
    · exact h.keys r hr
    · exact hkeys r hr

theorem Crashing.Simulated.goto (h : ρ.Simulated σ) (hi : ρ.before ≤ i) (hs : ρ.service.sessions[i]? = some s)
    (m : Move cat ρ.service i s e t) (m' : Move cat σ i s e' t)
    (agrees : (σ.perform i e').Agrees ρ.Asked (ρ.service.perform i e)) :
    Crashing.Simulated ⟨(ρ.service.perform i e).goto i s t, ρ.before⟩ ((σ.perform i e').goto i s t) := by
  have hs' : σ.sessions[i]? = some s := (h.sessions i hi).trans hs
  refine h.next [] ?_ ?_ (fun _ hr => by cases hr) ⟨agrees.store, agrees.now, agrees.nextAuditId, agrees.gateway⟩
    (fun j hj => ?_) fun j hj => ?_
  · rw [List.append_nil]
    exact goto_requests hs m
  · rw [List.append_nil]
    exact goto_requests hs' m'
  · by_cases hji : j = i
    · subst hji
      rw [goto_sessions_self hs, goto_sessions_self hs']
    · rw [goto_sessions_ne hji, goto_sessions_ne hji, h.sessions j hj]
  · exact goto_sessions_ne (Nat.ne_of_lt (Nat.lt_of_lt_of_le hj hi))

/-- A session that still moves began after the last crash, and its key is new. -/
theorem Crashing.Simulated.moving (h : ρ.Simulated σ) (hs : ρ.service.sessions[i]? = some s)
    (hf : s.task.isFinished = false) :
    ρ.before ≤ i ∧ ∀ key, s.task.request.paymentKey = some key → ¬ρ.Asked key := by
  have hi : ρ.before ≤ i := by
    by_contra hlt
    rw [h.ended i (Nat.lt_of_not_le hlt) s hs] at hf
    cases hf
  refine ⟨hi, h.keys _ (List.mem_iff_getElem?.mpr ⟨i - ρ.before, ?_⟩)⟩
  rw [List.getElem?_drop, Nat.add_sub_cancel' hi, State.requests, List.getElem?_map, hs, Option.map_some]

theorem Crashing.Simulated.step (h : ρ.Simulated σ) (hnew : NewKeys ρ (.service a))
    (hstep : step cat ρ.service a = some υ) :
    ∃ τ, step cat σ a = some τ ∧ Crashing.Simulated ⟨υ, ρ.before⟩ τ := by
  cases step_stepped hstep with
  | request r =>
    refine ⟨_, rfl, h.next [r] ?_ ?_ ?_ ?_ (fun i hi => ?_) fun i hi => ?_⟩
    · simp [State.requests, r.task_request]
    · simp [State.requests, r.task_request]
    · intro r' hr' key hkey
      obtain rfl : r' = r := List.mem_singleton.mp hr'
      cases r' with
      | pay q => exact Option.some.inj hkey ▸ hnew
      | _ => cases hkey
    · exact ⟨h.agrees.store, h.agrees.now, h.agrees.nextAuditId, h.agrees.gateway⟩
    · have hlen : σ.sessions.length = ρ.service.sessions.length := by
        simpa [State.requests] using congrArg List.length h.requests
      simp only [List.getElem?_append, hlen, h.sessions i hi, h.agrees.now]
    · rw [List.getElem?_append_left]
      have hbefore := h.before
      rw [State.requests, List.length_map] at hbefore
      exact Nat.lt_of_lt_of_le hi hbefore
  | run hs hc m =>
    obtain ⟨hi, hkey⟩ := h.moving hs m.not_finished
    obtain ⟨e', hc', agrees⟩ := h.agrees.statement hkey hc
    exact ⟨_, step_run ((h.sessions _ hi).trans hs) hc', h.goto hi hs m (statement_move hc') agrees⟩
  | @raise i s t hs hraise m =>
    obtain ⟨hi, -⟩ := h.moving hs m.not_finished
    refine ⟨_, ?_, h.goto hi hs m (raise_move hraise) (h.agrees.perform i .close)⟩
    simp only [Railbook.step, (h.sessions i hi).trans hs, hraise, Option.bind_eq_bind, Option.bind_some]
  | tick d =>
    exact ⟨_, rfl, h.next [] (List.append_nil _).symm (List.append_nil _).symm (fun _ hr => by cases hr)
      ⟨h.agrees.store, congrArg (· + (d : Int)) h.agrees.now, h.agrees.nextAuditId, h.agrees.gateway⟩ h.sessions
      fun _ _ => rfl⟩
  | updateConfig failureRate latencyMs =>
    exact ⟨_, rfl, h.next [] (List.append_nil _).symm (List.append_nil _).symm (fun _ hr => by cases hr)
      ⟨h.agrees.store, h.agrees.now, h.agrees.nextAuditId, h.agrees.gateway.updateConfig⟩ h.sessions fun _ _ => rfl⟩

/-! ### A run that ends every session -/

/-- A session whose next step is no statement of the database goes on at once, and leaves the tables as they are. -/
theorem statement_of_waiting (cat : Catalog) (σ : State) (i : Sid) (x : Choice) (hf : s.task.isFinished = false)
    (hr : s.task.raise = none) :
    ∃ e t, s.statement cat σ i x = some (e, t) ∧ (σ.perform i e).db = σ.db ∧
      (σ.perform i e).nextAuditId = σ.nextAuditId := by
  obtain ⟨began, task⟩ := s
  cases task with
  | create q pc =>
    cases pc with
    | invalidate b => exact ⟨_, _, rfl, rfl, rfl⟩
    | finished r => cases hf
    | _ => cases hr
  | pay q pc =>
    cases pc with
    | charge b => exact ⟨_, _, rfl, rfl, rfl⟩
    | charging b => exact ⟨_, _, rfl, rfl, rfl⟩
    | invalidate b => exact ⟨_, _, rfl, rfl, rfl⟩
    | finished r => cases hf
    | _ => cases hr
  | refund q pc =>
    cases pc with
    | refund b ref => exact ⟨_, _, rfl, rfl, rfl⟩
    | refunding b ref => exact ⟨_, _, rfl, rfl, rfl⟩
    | invalidate b => exact ⟨_, _, rfl, rfl, rfl⟩
    | finished r => cases hf
    | _ => cases hr
  | cleanup pc =>
    cases pc with
    | finished r => cases hf
    | _ => cases hr

/-- An unfinished session can take a step that commits nothing: its statement fails, or it has none. -/
theorem exists_step_committing_nothing (cat : Catalog) (hs : σ.sessions[i]? = some s) (hf : s.task.isFinished = false) :
    ∃ a τ, step cat σ a = some τ ∧ τ.work < σ.work ∧ τ.SameTables σ := by
  cases hraise : s.task.raise with
  | some t =>
    have m : Move cat σ i s .close t := raise_move hraise
    refine ⟨.raise i, (σ.perform i .close).goto i s t, ?_, work_goto hs m, rfl, rfl, rfl, goto_requests hs m⟩
    simp only [step, hs, hraise, Option.bind_eq_bind, Option.bind_some]
  | none =>
    obtain ⟨e, t, hc, hdb, hid⟩ := statement_of_waiting cat σ i ⟨0, 0, 0⟩ hf hraise
    have m := statement_move hc
    exact ⟨.run i ⟨0, 0, 0⟩, _, step_run hs hc, work_goto hs m, hdb, perform_now σ i e, hid, goto_requests hs m⟩

theorem State.SameTables.refl (σ : State) : σ.SameTables σ := ⟨rfl, rfl, rfl, rfl⟩

theorem State.SameTables.trans (h : σ.SameTables τ) (h' : τ.SameTables υ) : σ.SameTables υ :=
  ⟨h.db.trans h'.db, h.now.trans h'.now, h.nextAuditId.trans h'.nextAuditId, h.requests.trans h'.requests⟩

/-- From every state all sessions can end at once, without anything committed. -/
theorem exists_drain (cat : Catalog) (σ : State) : ∃ acts τ, exec (step cat) σ acts = some τ ∧ τ.AllFinished ∧
    τ.SameTables σ := by
  induction hn : σ.work using Nat.strong_induction_on generalizing σ with
  | h n ih =>
    by_cases hend : σ.AllFinished
    · exact ⟨[], σ, rfl, hend, .refl σ⟩
    · simp only [State.AllFinished, not_forall, Bool.not_eq_true] at hend
      obtain ⟨s, hs, hf⟩ := hend
      obtain ⟨i, hs⟩ := List.mem_iff_getElem?.mp hs
      obtain ⟨a, τ, hstep, hless, hsame⟩ := exists_step_committing_nothing cat hs hf
      obtain ⟨acts, υ, run, hυ, hsame'⟩ := ih τ.work (hn ▸ hless) τ rfl
      refine ⟨a :: acts, υ, ?_, hυ, hsame'.trans hsame⟩
      rw [exec_cons, hstep, Option.bind_some, run]

/-- Once every session has ended nothing is locked or uncommitted. -/
theorem Inv.store_of_allFinished (inv : Inv σ) (h : σ.AllFinished) : σ.store = .fresh σ.db := by
  have hpending : σ.store.pending = fun _ => [] := by
    funext i
    have hok := inv.sessions i
    unfold State.SessionOk at hok
    cases hs : σ.sessions[i]? with
    | none =>
      rw [hs] at hok
      exact hok
    | some s =>
      rw [hs] at hok
      refine List.eq_nil_iff_forall_not_mem.mpr fun w hw => ?_
      obtain ⟨p, hp, -⟩ := hok.quiet w hw
      have hown := Task.owned_of_held hp
      rw [Task.owned_of_finished (h s (List.mem_of_getElem? hs))] at hown
      cases hown
  have howner : σ.store.owner = fun _ => none := by
    funext r
    by_contra hr
    obtain ⟨j, ho⟩ := Option.ne_none_iff_exists'.mp hr
    obtain ⟨s, hs, hown⟩ := inv.session_of_owner ho
    rw [Task.owned_of_finished (h s (List.mem_of_getElem? hs))] at hown
    cases hown
  show σ.store = ⟨σ.store.data, _, _⟩
  rw [← hpending, ← howner]

/-! ### A crash -/

theorem Task.cut_isFinished (t : Task) : t.cut.isFinished = true := by
  unfold Task.cut
  split
  · assumption
  · cases t <;> rfl

theorem Task.cut_request (t : Task) : t.cut.request = t.request := by
  unfold Task.cut
  split
  · rfl
  · cases t <;> rfl

theorem State.restart_requests (σ : State) : σ.restart.requests = σ.requests := by
  simp only [State.requests, State.restart, List.map_map, Function.comp_def, Task.cut_request]

/-- The gateway knows only keys of payments that were asked for. -/
theorem exists_request_of_processed {r : PaymentResult} (hr : Reachable cat σ)
    (h : σ.gateway.processed.lookup key = some r) :
    ∃ q ∈ σ.requests, q.paymentKey = some key := by
  obtain ⟨a, ha, -, hkey, -⟩ := (gatewayLog_of_reachable hr).executed key r h
  obtain ⟨began, q, pc, hs, answered⟩ := answered_of_mem (accounts_of_reachable hr) ha
  refine ⟨.pay q, List.mem_map.mpr ⟨_, List.mem_of_getElem? hs, rfl⟩, ?_⟩
  rw [← hkey, answered.idempotencyKey]
  rfl

/-- The run without crashes lets every session end and resets the gateway. -/
theorem Crashing.Simulated.crash (hr : Reachable cat σ) (h : ρ.Simulated σ) :
    ∃ acts τ, exec (Railbook.step cat) σ acts = some τ ∧
      Crashing.Simulated ⟨ρ.service.restart, ρ.service.sessions.length⟩ τ := by
  obtain ⟨acts, τ, run, hend, hsame⟩ := exists_drain cat σ
  have hr' := reachable_exec hr run
  have hreq : τ.requests = ρ.service.requests := hsame.requests.trans h.requests
  have hlen : ρ.service.requests.length = ρ.service.sessions.length := List.length_map ..
  have hasked : ∀ key, Crashing.Asked ⟨ρ.service.restart, ρ.service.sessions.length⟩ key ↔
      ∃ r ∈ τ.requests, r.paymentKey = some key := by
    intro key
    rw [Crashing.Asked, State.restart_requests, List.take_of_length_le (le_of_eq hlen), hreq]
  refine ⟨acts ++ [.updateConfig (some 0) (some 500)],
    { τ with gateway := τ.gateway.updateConfig (some 0) (some 500) }, ?_, ?_⟩
  · rw [exec_append, run]
    rfl
  · refine ⟨⟨?_, ?_, ?_, rfl, rfl, fun key hkey => ?_⟩, fun i hi => ?_, fun i _ s hs => ?_, ?_, ?_, ?_⟩
    · have hdb : τ.db = ρ.service.db := hsame.db.trans (congrArg Store.data h.agrees.store)
      exact ((inv_of_reachableBy hr').store_of_allFinished hend).trans (congrArg Store.fresh hdb)
    · exact hsame.now.trans h.agrees.now
    · exact hsame.nextAuditId.trans h.agrees.nextAuditId
    · show τ.gateway.processed.lookup key = none
      by_contra hne
      obtain ⟨r, hr⟩ := Option.ne_none_iff_exists'.mp hne
      exact hkey ((hasked key).mpr (exists_request_of_processed hr' hr))
    · have hτ : τ.sessions.length = ρ.service.sessions.length := by
        simpa [State.requests] using congrArg List.length hreq
      rw [List.getElem?_eq_none (hτ.trans_le hi), List.getElem?_eq_none]
      exact (List.length_map ..).trans_le hi
    · obtain ⟨s', -, rfl⟩ := List.mem_map.mp (List.mem_of_getElem? hs)
      exact s'.task.cut_isFinished
    · rw [State.restart_requests, ← hreq]
      rfl
    · rw [State.restart_requests]
      exact hlen.ge
    · rw [State.restart_requests, List.drop_eq_nil_of_le (le_of_eq hlen)]
      exact fun _ hr => by cases hr

/-! ### Runs with crashes -/

theorem Crashing.Simulated.start (now : Time) : (Crashing.start now).Simulated (.seeded now) where
  agrees := ⟨rfl, rfl, rfl, rfl, rfl, fun _ _ => rfl⟩
  sessions _ _ := rfl
  ended _ h := absurd h (Nat.not_lt_zero _)
  requests := rfl
  before := Nat.le_refl _
  keys _ h := by cases h

/-- Every run with crashes goes on in step with a run without them. -/
theorem Crashing.Simulated.exec {acts : List CrashAct} (hr : Reachable cat σ) (h : ρ.Simulated σ)
    (along : Along (crashStep cat) NewKeys ρ acts) (run : exec (crashStep cat) ρ acts = some ρ') :
    ∃ bs τ, Transition.exec (Railbook.step cat) σ bs = some τ ∧ Reachable cat τ ∧ ρ'.Simulated τ := by
  refine matched_exec (R := fun ρ σ => Reachable cat σ ∧ ρ.Simulated σ) ?_ ⟨hr, h⟩ along run
  rintro ρ a ρ' σ ⟨hr, h⟩ hnew hstep
  cases a with
  | service a =>
    obtain ⟨υ, hυ, rfl⟩ := Option.map_eq_some_iff.mp hstep
    obtain ⟨τ, hτ, h'⟩ := h.step hnew hυ
    exact ⟨[a], τ, by simpa using hτ, hr.next trivial hτ, h'⟩
  | crash =>
    cases hstep
    obtain ⟨bs, τ, hτ, h'⟩ := h.crash hr
    exact ⟨bs, τ, hτ, reachable_exec hr hτ, h'⟩

/-- Where no payment that arrives has the key of one asked for before a crash, the tables, the locks and the sessions
    since the last crash are, after every run with crashes, those that a run without crashes leads to, and what is
    committed stays. -/
theorem crashes_simulated {now : Time} {acts acts' : List CrashAct}
    (along : Along (crashStep cat) NewKeys (.start now) acts) (run : exec (crashStep cat) (.start now) acts = some ρ)
    (along' : Along (crashStep cat) NewKeys ρ acts') (run' : exec (crashStep cat) ρ acts' = some ρ') :
    ∃ bs bs' σ σ', exec (step cat) (.seeded now) bs = some σ ∧ exec (step cat) σ bs' = some σ' ∧ ρ.Resembles σ ∧
      ρ'.Resembles σ' ∧
      ρ.service.db.Kept ρ'.service.db := by
  have hstart : Reachable cat (.seeded now) := .start ⟨now, rfl⟩
  obtain ⟨bs, σ, hσ, hr, h⟩ := (Crashing.Simulated.start now).exec hstart along run
  obtain ⟨bs', σ', hσ', -, h'⟩ := h.exec hr along' run'
  refine ⟨bs, bs', σ, σ', hσ, hσ', h.resembles, h'.resembles, ?_⟩
  have hkept := kept_exec hr hσ'
  rwa [State.db, State.db, h.agrees.store, h'.agrees.store] at hkept

/-- A booking is made, and the server crashes when the gateway has answered to the payment for it. -/
def crashRun : List CrashAct :=
  (.request (.create ⟨1, 20, 40, 50, none⟩) :: runs 0 9 60 ++
    .request (.pay ⟨60, 1, 70, none⟩) :: runs 1 6 80).map .service ++ [.crash]

/-- The client pays again. -/
def repayRun (key : Uuid) : List CrashAct := (.request (.pay ⟨60, 1, key, none⟩) :: runs 2 9 81).map .service

theorem crashes_simulated_repaid : ∃ (ρ ρ' : Crashing) (bs bs' : List Act) (σ σ' : State),
    ρ'.service.db.bookings.all (·.status = .confirmed) = true ∧ exec (step sampleCatalog) (.seeded 0) bs = some σ ∧
      exec (step sampleCatalog) σ bs' = some σ' ∧ ρ.Resembles σ ∧ ρ'.Resembles σ' ∧
        ρ.service.db.Kept ρ'.service.db := by
  have along : Along (crashStep sampleCatalog) NewKeys (.start 0) crashRun := by decide
  have hrun : (exec (crashStep sampleCatalog) (.start 0) crashRun).any (fun ρ =>
      decide (Along (crashStep sampleCatalog) NewKeys ρ (repayRun 71)) &&
        (exec (crashStep sampleCatalog) ρ (repayRun 71)).any fun ρ' => ρ'.service.db.bookings.all
        (·.status = .confirmed)) = true := by
    decide
  obtain ⟨ρ, run, htest⟩ := (Option.any_eq_true _ _).mp hrun
  simp only [Bool.and_eq_true, decide_eq_true_eq] at htest
  obtain ⟨ρ', run', hconf⟩ := (Option.any_eq_true _ _).mp htest.2
  obtain ⟨bs, bs', σ, σ', h⟩ := crashes_simulated along run htest.1 run'
  exact ⟨ρ, ρ', bs, bs', σ, σ', hconf, h⟩

/-- Under the key of the payment that was cut off the new gateway charges a second time. -/
example : (exec (crashStep sampleCatalog) (.start 0) (crashRun ++ repayRun 70)).map (fun ρ =>
    ρ.service.history.answers.map fun a => (a.call.idempotencyKey, a.executed)) = some [(70, true), (70, true)] := by
  decide

end

end Railbook
