import Railbook.Moves
import Railbook.Lifecycle

/-! The invariant of the engine. The program counter of a session determines what it owns, which bookings it holds
    and in which phases it sees them; what a session owns nobody else changes (`Covered.commit_view`), so each
    move has to account for its own session only. -/

namespace Railbook
open ReadCommitted Transition

/-! ### What a program counter says -/

/-- The rows and index entries that a session owns. -/
def Task.owned : Task → List Resource
  | .create _ (.checkOverlap (some e)) | .create _ (.getSeat (some e)) | .create _ (.delete e _) => [.bookingRow e.id]
  | .create q (.insertSeat b) => [.bookingRow b.id, .bookingKey q.idempotencyKey]
  | .create q (.audit b) | .create q (.commit b) =>
    [.bookingRow b.id, .bookingKey q.idempotencyKey, .bookingSeat q.scheduleId q.seatId]
  | .pay _ (.checkPayment b) | .pay _ (.attempt b) | .pay _ (.charge b) | .pay _ (.charging b)
    | .pay _ (.record b _ _) =>
    [.bookingRow b.id]
  | .pay q (.commit b) => [.bookingRow b.id, .paymentKey q.idempotencyKey]
  | .refund _ (.checkDeparture b) | .refund _ (.findPayment b) | .refund _ (.refund b _) | .refund _ (.refunding b _)
  | .refund _ (.record b _) | .refund _ (.commit b) => [.bookingRow b.id]
  | .cleanup (.flush es) | .cleanup (.commit es) => es.map fun b => .bookingRow b.id
  | _ => []

/-- The bookings that a session holds, each with the phases it may see it in. -/
def Task.held : Task → List (Booking × List Phase)
  | .create _ (.checkOverlap (some e)) | .create _ (.getSeat (some e)) | .create _ (.delete e _) =>
    [(e, Phase.released)]
  | .create _ (.audit b) => [(b, [.inserted])]
  | .create _ (.commit b) => [(b, [.reserved])]
  | .pay _ (.checkPayment b) | .pay _ (.attempt b) => [(b, [.reserved])]
  | .pay _ (.charge b) | .pay _ (.charging b) | .pay _ (.record b _ _) => [(b, [.attempted])]
  | .pay _ (.commit b) => [(b, [.confirmed, .paymentFailed])]
  | .refund _ (.checkDeparture b) | .refund _ (.findPayment b) | .refund _ (.refund b _) | .refund _ (.refunding b _)
  | .refund _ (.record b _) => [(b, [.confirmed])]
  | .refund _ (.commit b) => [(b, [.refunded])]
  | .cleanup (.flush es) => es.map fun b => (b, [.reserved])
  | .cleanup (.commit es) => es.map fun b => (b, [.expired])
  | _ => []

/-- The index entries that a session has entered and still finds without a row. -/
def Task.vacant : Task → List Resource
  | .create q (.insertSeat b) => [.bookingRow b.id, .bookingKey q.idempotencyKey]
  | _ => []

/-- The booking object that `create_booking` has built. -/
structure CreateRequest.Builds (q : CreateRequest) (b : Booking) : Prop where
  userId : b.userId = q.userId
  scheduleId : b.scheduleId = q.scheduleId
  seatId : b.seatId = q.seatId
  idempotencyKey : b.idempotencyKey = q.idempotencyKey
  status : b.status = .reserved
  confirmedAt : b.confirmedAt = none
  cancelledAt : b.cancelledAt = none

/-- The local variables of a session fit its request. -/
def Task.Sound : Task → Prop
  | .create q (.insertKey b) | .create q (.insertSeat b) | .create q (.audit b) | .create q (.commit b) => q.Builds b
  | .pay q (.checkPayment b) | .pay q (.attempt b) | .pay q (.charge b) | .pay q (.charging b) | .pay q (.commit b) =>
    b.id = q.bookingId ∧ b.userId = q.userId
  | .pay q (.record b r _) => (b.id = q.bookingId ∧ b.userId = q.userId) ∧ r.Sound
  | .refund q (.checkDeparture b) | .refund q (.findPayment b) | .refund q (.refund b _) | .refund q (.refunding b _)
  | .refund q (.record b _) | .refund q (.commit b) => b.id = q.bookingId ∧ b.userId = q.userId
  | .cleanup (.flush es) => (es.map (·.id)).Nodup
  | _ => True

theorem Task.owned_of_held {t : Task} {p : Booking × List Phase} (h : p ∈ t.held) : .bookingRow p.1.id ∈ t.owned := by
  unfold Task.held at h
  split at h <;> simp only [List.mem_map, List.mem_cons, List.not_mem_nil, or_false] at h
  all_goals first
    | (obtain ⟨b, hb, rfl⟩ := h; exact List.mem_map_of_mem hb)
    | (subst h; simp [Task.owned])

theorem Task.owned_of_vacant {t : Task} {r : Resource} (h : r ∈ t.vacant) : r ∈ t.owned := by
  unfold Task.vacant at h
  split at h
  · exact h
  · cases h

/-- A session that owns nothing, at a program counter that says nothing about the tables. -/
structure Task.Idle (t : Task) : Prop where
  owned : t.owned = []
  held : t.held = []
  vacant : t.vacant = []
  sound : t.Sound

/-- What session `i` at `t` knows of the tables: it wrote only about the bookings it holds, it sees each of them in
    one of the phases named, and the entries it has entered are still without a row. -/
structure TaskOk (st : Store Sid Db Write Resource) (i : Sid) (t : Task) : Prop where
  quiet : ∀ w ∈ st.pending i, ∃ p ∈ t.held, p.1.id = w.row
  held : ∀ p ∈ t.held, ∃ ph ∈ p.2, Conforms ((st.view i).ledger p.1.id) p.1 ph
  vacant : ∀ r ∈ t.vacant, (st.view i).holders r = []
  sound : t.Sound

namespace State
variable (σ : State)

/-- What session `i` owns by its program counter. -/
def owned (i : Sid) : List Resource := (σ.sessions[i]?).elim [] fun s => s.task.owned

/-- Session `i` knows what its program counter says, and without a session nothing is pending under `i`. -/
def SessionOk (i : Sid) : Prop := (σ.sessions[i]?).elim (σ.store.pending i = []) fun s => TaskOk σ.store i s.task

end State

/-- The invariant of the engine. -/
structure Inv (σ : State) : Prop where
  covered : Covered σ.store
  own : ∀ i r, σ.store.owner r = some i ↔ r ∈ σ.owned i
  holders : ∀ r, Everywhere σ.store (Db.holders r) (·.length ≤ 1)
  payments : ∀ k, Everywhere σ.store (Db.paymentsUnder k) (·.length ≤ 1)
  settled : ∀ id, (σ.db.ledger id).Settled
  auditIds : ∀ a ∈ σ.db.auditTrail, a.id < σ.nextAuditId
  pendingIds : ∀ i a, .insertAudit a ∈ σ.store.pending i → a.id < σ.nextAuditId
  sessions : ∀ i, σ.SessionOk i
  gateway : σ.gateway.Sound

section
variable {st : Store Sid Db Write Resource} {σ : State} {i j : Sid} {s : Session} {t t' : Task} {e : Effect}

theorem Task.Idle.ok (h : t.Idle) (hp : st.pending i = []) : TaskOk st i t where
  quiet w hw := by rw [hp] at hw; cases hw
  held p hp := by rw [h.held] at hp; cases hp
  vacant r hr := by rw [h.vacant] at hr; cases hr
  sound := h.sound

/-- A session that has written nothing sees the committed tables. -/
theorem TaskOk.of_pending_nil (hp : st.pending i = [])
    (held : ∀ p ∈ t.held, ∃ ph ∈ p.2, Conforms (st.data.ledger p.1.id) p.1 ph)
    (vacant : ∀ r ∈ t.vacant, st.data.holders r = []) (sound : t.Sound) : TaskOk st i t where
  quiet w hw := by rw [hp] at hw; cases hw
  held p hp' := by
    rw [view_of_pending_nil hp]
    exact held p hp'
  vacant r hr := by
    rw [view_of_pending_nil hp]
    exact vacant r hr
  sound := sound

theorem TaskOk.pending_nil (h : TaskOk st i t) (hh : t.held = []) : st.pending i = [] := by
  cases hp : st.pending i with
  | nil => rfl
  | cons w ws =>
    obtain ⟨p, hp', -⟩ := h.quiet w (hp ▸ List.mem_cons_self)
    rw [hh] at hp'
    cases hp'

/-- Two stores that look the same to a session at what it owns. -/
theorem TaskOk.congr {st' : Store Sid Db Write Resource} (h : TaskOk st j t) (hp : st'.pending j = st.pending j)
    (hl : ∀ id, .bookingRow id ∈ t.owned → (st'.view j).ledger id = (st.view j).ledger id)
    (hr : ∀ r ∈ t.owned, (st'.view j).holders r = (st.view j).holders r) : TaskOk st' j t where
  quiet w hw := h.quiet w (hp ▸ hw)
  held p hp := by
    rw [hl _ (Task.owned_of_held hp)]
    exact h.held p hp
  vacant r hv := by
    rw [hr r (Task.owned_of_vacant hv)]
    exact h.vacant r hv
  sound := h.sound

theorem Inv.taskOk (h : Inv σ) (hs : σ.sessions[i]? = some s) : TaskOk σ.store i s.task := by
  have := h.sessions i
  rwa [State.SessionOk, hs] at this

theorem State.owned_of (hs : σ.sessions[i]? = some s) : σ.owned i = s.task.owned := by
  rw [State.owned, hs, Option.elim_some]

theorem Inv.owner_iff (h : Inv σ) (hs : σ.sessions[i]? = some s) {r : Resource} :
    σ.store.owner r = some i ↔ r ∈ s.task.owned := by
  rw [h.own, State.owned_of hs]

theorem Inv.owner_unique (h : Inv σ) {s' : Session} (hs : σ.sessions[i]? = some s) (hs' : σ.sessions[j]? = some s')
    {r : Resource} (hr : r ∈ s.task.owned) (hr' : r ∈ s'.task.owned) : i = j := by
  have := (h.owner_iff hs).mpr hr
  rw [(h.owner_iff hs').mpr hr'] at this
  exact (Option.some.inj this).symm

theorem Inv.session_of_owner (h : Inv σ) {r : Resource} (ho : σ.store.owner r = some j) :
    ∃ s, σ.sessions[j]? = some s ∧ r ∈ s.task.owned := by
  have hown := (h.own j r).mp ho
  unfold State.owned at hown
  cases hs : σ.sessions[j]? with
  | none =>
    rw [hs] at hown
    cases hown
  | some s =>
    rw [hs] at hown
    exact ⟨s, rfl, hown⟩

theorem Inv.auditIds_view (h : Inv σ) (i : Sid) : ∀ a ∈ (σ.view i).auditTrail, a.id < σ.nextAuditId := by
  intro a ha
  rcases mem_auditTrail_foldl.mp ha with ha | ha
  · exact h.auditIds a ha
  · exact h.pendingIds i a ha

/-- The ledger of a booking that a session does not hold is, to the session, the committed one. -/
theorem TaskOk.ledger_view (h : TaskOk st i t) {id : Uuid} (hid : ∀ p ∈ t.held, p.1.id ≠ id) :
    (st.view i).ledger id = st.data.ledger id := by
  refine (ledger_viewAt id).foldl_frame _ fun w hw ht => ?_
  obtain ⟨p, hp, hw'⟩ := h.quiet w hw
  exact hid p hp (hw'.trans (Write.bookingRow_mem_resources.mp ht))

/-! ### Performing an effect -/

theorem goto_sessions_self (hs : σ.sessions[i]? = some s) :
    ((σ.perform i e).goto i s t).sessions[i]? = some { s with task := t } := by
  have hlt := (List.getElem?_eq_some_iff.mp hs).1
  cases e <;> simp [State.goto, State.perform, hlt]

theorem goto_sessions_ne (hj : j ≠ i) : ((σ.perform i e).goto i s t).sessions[j]? = σ.sessions[j]? := by
  cases e <;> simp [State.goto, State.perform, Ne.symm hj]

/-- When only session `i` has changed, a session is the changed one, or it is as it was. -/
theorem session_of_others {τ : State} {s₁ s' : Session} (hself : τ.sessions[i]? = some s₁)
    (hothers : ∀ (j : Sid), j ≠ i → τ.sessions[j]? = σ.sessions[j]?) (hj : τ.sessions[j]? = some s') :
    (j = i ∧ s₁ = s') ∨ (j ≠ i ∧ σ.sessions[j]? = some s') := by
  by_cases hji : j = i
  · subst hji
    exact Or.inl ⟨rfl, Option.some.inj (hself.symm.trans hj)⟩
  · exact Or.inr ⟨hji, (hothers j hji).symm.trans hj⟩

theorem session_of_goto {s' : Session} (hs : σ.sessions[i]? = some s)
    (hj : ((σ.perform i e).goto i s t).sessions[j]? = some s') :
    (j = i ∧ { s with task := t } = s') ∨ (j ≠ i ∧ σ.sessions[j]? = some s') :=
  session_of_others (goto_sessions_self hs) (fun _ hj => goto_sessions_ne hj) hj

/-- What holds of session `j`, or without one, after a move of session `i`. -/
theorem elim_goto {P P' : Prop} {Q Q' : Session → Prop} (hs : σ.sessions[i]? = some s) (h : (σ.sessions[j]?).elim P Q)
    (self : j = i → Q' { s with task := t })
    (others : j ≠ i → (P → P') ∧ ∀ s', σ.sessions[j]? = some s' → Q s' → Q' s') :
    (((σ.perform i e).goto i s t).sessions[j]?).elim P' Q' := by
  by_cases hj : j = i
  · subst hj
    rw [goto_sessions_self hs]
    exact self rfl
  · obtain ⟨none, some⟩ := others hj
    rw [goto_sessions_ne hj]
    cases hs' : σ.sessions[j]? with
    | none =>
      rw [hs'] at h
      exact none h
    | some s' =>
      rw [hs'] at h
      exact some s' hs' h

@[simp] theorem goto_store : (σ.goto i s t).store = σ.store := rfl
@[simp] theorem goto_db : (σ.goto i s t).db = σ.db := rfl
@[simp] theorem goto_now : (σ.goto i s t).now = σ.now := rfl
@[simp] theorem goto_nextAuditId : (σ.goto i s t).nextAuditId = σ.nextAuditId := rfl
@[simp] theorem goto_gateway : (σ.goto i s t).gateway = σ.gateway := rfl
@[simp] theorem goto_history : (σ.goto i s t).history = σ.history := rfl

/-- Only a commit changes the committed tables. -/
theorem perform_db (σ : State) (i : Sid) (e : Effect) :
    (σ.perform i e).db = σ.db ∨ (e = .commit ∧ (σ.perform i e).db = σ.view i) := by
  cases e with
  | commit => exact Or.inr ⟨rfl, rfl⟩
  | _ => exact Or.inl rfl

theorem perform_pending_ne (e : Effect) (hj : j ≠ i) : (σ.perform i e).store.pending j = σ.store.pending j := by
  cases e with
  | flush rs ws drawn => exact write_pending_ne hj
  | commit => exact rollback_pending_ne hj
  | close => exact rollback_pending_ne hj
  | _ => rfl

theorem pending_of_perform {w : Write} (h : w ∈ (σ.perform i e).store.pending j) :
    w ∈ σ.store.pending j ∨ (j = i ∧ ∃ rs ws n, e = .flush rs ws n ∧ w ∈ ws) := by
  by_cases hj : j = i
  · subst hj
    cases e with
    | flush rs ws n =>
      have h : w ∈ ((σ.store.acquire j rs).write j ws).pending j := h
      rw [write_pending_self] at h
      exact (List.mem_append.mp h).imp_right fun h => ⟨rfl, rs, ws, n, rfl, h⟩
    | commit =>
      have h : w ∈ (σ.store.rollback j).pending j := h
      rw [rollback_pending_self] at h
      cases h
    | close =>
      have h : w ∈ (σ.store.rollback j).pending j := h
      rw [rollback_pending_self] at h
      cases h
    | _ => exact Or.inl h
  · rw [perform_pending_ne e hj] at h
    exact Or.inl h

/-- The other sessions keep what they know when the step looks the same to them at what they own. -/
theorem Inv.others (h : Inv σ) (hs : σ.sessions[i]? = some s) (hi : TaskOk (σ.perform i e).store i t)
    (hp : ∀ j, j ≠ i → (σ.perform i e).store.pending j = σ.store.pending j)
    (hv : ∀ j, j ≠ i → ∀ r, σ.store.owner r = some j → ∀ {V : Type} {f : Db → V}, ViewAt Write r f →
      f ((σ.perform i e).store.view j) = f (σ.store.view j)) :
    ∀ j, ((σ.perform i e).goto i s t).SessionOk j := by
  intro j
  refine elim_goto hs (h.sessions j) (fun hj => hj ▸ hi) fun hj => ⟨fun hok => (hp j hj).trans hok,
    fun s' hs' hok => ?_⟩
  exact TaskOk.congr hok (hp j hj) (fun id hr => hv j hj _ ((h.owner_iff hs').mpr hr) (ledger_viewAt id))
    fun r hr => hv j hj r ((h.owner_iff hs').mpr hr) (holders_viewAt r)

theorem Inv.own_goto (h : Inv σ) (hs : σ.sessions[i]? = some s)
    (hi : ∀ r, (σ.perform i e).store.owner r = some i ↔ r ∈ t.owned)
    (hne : ∀ j, j ≠ i → ∀ r, (σ.perform i e).store.owner r = some j ↔ σ.store.owner r = some j) :
    ∀ j r, ((σ.perform i e).goto i s t).store.owner r = some j ↔ r ∈ ((σ.perform i e).goto i s t).owned j := by
  intro j r
  rw [goto_store]
  by_cases hj : j = i
  · subst hj
    rw [State.owned_of (goto_sessions_self hs)]
    exact hi r
  · rw [State.owned, goto_sessions_ne hj]
    exact (hne j hj r).trans (h.own j r)

theorem Inv.still (h : Inv σ) (hs : σ.sessions[i]? = some s) (hst : (σ.perform i e).store = σ.store)
    (hn : (σ.perform i e).nextAuditId = σ.nextAuditId) (hg : (σ.perform i e).gateway.Sound)
    (ho : t.owned = s.task.owned) (ht : TaskOk σ.store i t) : Inv ((σ.perform i e).goto i s t) where
  covered := by rw [goto_store, hst]; exact h.covered
  own := h.own_goto hs (fun r => by rw [hst, ho]; exact h.owner_iff hs) fun j _ r => by rw [hst]
  holders r := by rw [goto_store, hst]; exact h.holders r
  payments k := by rw [goto_store, hst]; exact h.payments k
  settled id := by rw [State.db, goto_store, hst]; exact h.settled id
  auditIds := by rw [State.db, goto_store, hst, goto_nextAuditId, hn]; exact h.auditIds
  pendingIds := by rw [goto_store, hst, goto_nextAuditId, hn]; exact h.pendingIds
  sessions := h.others hs (by rw [hst]; exact ht) (fun j _ => by rw [hst]) fun j _ r _ {V f} _ => by rw [hst]
  gateway := hg

theorem Inv.read (h : Inv σ) (hs : σ.sessions[i]? = some s) (ho : t.owned = s.task.owned) (ht : TaskOk σ.store i t) :
    Inv ((σ.perform i .read).goto i s t) :=
  h.still (e := .read) hs rfl rfl h.gateway ho ht

/-- A step that locks rows which nobody else holds. -/
theorem Inv.lock (h : Inv σ) (hs : σ.sessions[i]? = some s) {rs : List Resource} (free : ∀ r ∈ rs, σ.store.Free i r)
    (ho : ∀ r, r ∈ t.owned ↔ r ∈ s.task.owned ∨ r ∈ rs) (ht : TaskOk σ.store i t) :
    Inv ((σ.perform i (.lock rs)).goto i s t) where
  covered := h.covered.acquire free
  own := h.own_goto hs
    (fun r => by
      show (σ.store.acquire i rs).owner r = some i ↔ _
      rw [acquire_owner_eq free, ho, h.owner_iff hs]
      simp)
    fun j hj r => by
      show (σ.store.acquire i rs).owner r = some j ↔ _
      rw [acquire_owner_eq free]
      simp [hj]
  holders r := (h.holders r).acquire
  payments k := (h.payments k).acquire
  settled := h.settled
  auditIds := h.auditIds
  pendingIds := h.pendingIds
  sessions := h.others (e := .lock rs) hs ⟨ht.quiet, ht.held, ht.vacant, ht.sound⟩ (fun _ _ => rfl)
    fun _ _ _ _ {_ _} _ => rfl
  gateway := h.gateway

/-- A step that writes under the index entries it enters. -/
theorem Inv.flush (h : Inv σ) (hs : σ.sessions[i]? = some s) {rs : List Resource} {ws : List Write} {drawn : Nat}
    (free : ∀ r ∈ rs, σ.store.Free i r) (ho : ∀ r, r ∈ t.owned ↔ r ∈ s.task.owned ∨ r ∈ rs)
    (hw : ∀ w ∈ ws, ∀ r ∈ w.resources, r ∈ t.owned)
    (ha : ∀ a, .insertAudit a ∈ ws → a.id < σ.nextAuditId + drawn)
    (hh : ∀ r, ((ws.foldl (fun d w => w.apply d) (σ.view i)).holders r).length ≤ 1)
    (hp : ∀ k, ((ws.foldl (fun d w => w.apply d) (σ.view i)).paymentsUnder k).length ≤ 1)
    (hq : ∀ w ∈ s.task.held, ∃ p ∈ t.held, p.1.id = w.1.id) (hq' : ∀ w ∈ ws, ∃ p ∈ t.held, p.1.id = w.row)
    (hl : ∀ p ∈ t.held, ∃ ph ∈ p.2, Conforms ((ws.foldl (fun d w => w.apply d) (σ.view i)).ledger p.1.id) p.1 ph)
    (hv : t.vacant = []) (hsound : t.Sound) : Inv ((σ.perform i (.flush rs ws drawn)).goto i s t) := by
  have hold := h.taskOk hs
  have howner : ∀ r, (σ.store.acquire i rs).owner r = some i ↔ r ∈ t.owned := fun r => by
    rw [acquire_owner_eq free, ho, h.owner_iff hs]
    simp
  have hview : ((σ.store.acquire i rs).write i ws).view i = ws.foldl (fun d w => w.apply d) (σ.view i) :=
    write_view_self
  have ht : TaskOk ((σ.store.acquire i rs).write i ws) i t := {
    quiet := fun w hw => by
      rw [write_pending_self, acquire_pending] at hw
      rcases List.mem_append.mp hw with hw | hw
      · obtain ⟨p, hp, hrow⟩ := hold.quiet w hw
        obtain ⟨p', hp', hid⟩ := hq p hp
        exact ⟨p', hp', hid.trans hrow⟩
      · exact hq' w hw
    held := fun p hp => by
      rw [hview]
      exact hl p hp
    vacant := fun r hr => by
      rw [hv] at hr
      cases hr
    sound := hsound }
  exact {
    covered := (h.covered.acquire free).write fun w hw' r hr => (howner r).mpr (hw w hw' r hr)
    own := h.own_goto hs howner fun j hj r => by
      show (σ.store.acquire i rs).owner r = some j ↔ _
      rw [acquire_owner_eq free]
      simp [hj]
    holders := fun r => (h.holders r).acquire.write (hh r)
    payments := fun k => (h.payments k).acquire.write (hp k)
    settled := h.settled
    auditIds := fun a ha' => Nat.lt_of_lt_of_le (h.auditIds a ha') (Nat.le_add_right ..)
    pendingIds := fun j a ha' => by
      by_cases hj : j = i
      · subst hj
        rw [goto_store] at ha'
        have ha' : .insertAudit a ∈ ((σ.store.acquire j rs).write j ws).pending j := ha'
        rw [write_pending_self, acquire_pending] at ha'
        rcases List.mem_append.mp ha' with ha' | ha'
        · exact Nat.lt_of_lt_of_le (h.pendingIds j a ha') (Nat.le_add_right ..)
        · exact ha a ha'
      · have ha' : .insertAudit a ∈ ((σ.store.acquire i rs).write i ws).pending j := ha'
        rw [write_pending_ne hj, acquire_pending] at ha'
        exact Nat.lt_of_lt_of_le (h.pendingIds j a ha') (Nat.le_add_right ..)
    sessions := h.others (e := .flush rs ws drawn) hs ht (fun j hj => write_pending_ne hj)
      fun j hj _ _ {V f} _ => congrArg f (write_view_ne hj)
    gateway := h.gateway }

theorem owner_of_rollback (ht : t.owned = []) :
    (∀ r, (σ.store.rollback i).owner r = some i ↔ r ∈ t.owned) ∧
      ∀ j, j ≠ i → ∀ r, (σ.store.rollback i).owner r = some j ↔ σ.store.owner r = some j := by
  refine ⟨fun r => ?_, fun j hj r => ?_⟩
  · rw [rollback_owner_eq, ht]
    simp
  · rw [rollback_owner_eq]
    simp [hj]

theorem pendingIds_rollback (h : Inv σ) (i : Sid) :
    ∀ j a, .insertAudit a ∈ (σ.store.rollback i).pending j → a.id < σ.nextAuditId := by
  intro j a ha
  by_cases hj : j = i
  · subst hj
    rw [rollback_pending_self] at ha
    cases ha
  · rw [rollback_pending_ne hj] at ha
    exact h.pendingIds j a ha

theorem Inv.close (h : Inv σ) (hs : σ.sessions[i]? = some s) (ht : t.Idle) : Inv ((σ.perform i .close).goto i s t) where
  covered := h.covered.rollback i
  own := h.own_goto (e := .close) hs (owner_of_rollback ht.owned).1 (owner_of_rollback ht.owned).2
  holders r := (h.holders r).rollback i
  payments k := (h.payments k).rollback i
  settled := h.settled
  auditIds := h.auditIds
  pendingIds := pendingIds_rollback h i
  sessions := h.others (e := .close) hs (ht.ok rollback_pending_self) (fun _ hj => rollback_pending_ne hj)
    fun _ hj _ _ {_ f} _ => congrArg f (rollback_view_ne hj)
  gateway := h.gateway

/-- A commit: what the session sees of the bookings it holds becomes the committed state of them. -/
theorem Inv.commit (h : Inv σ) (hs : σ.sessions[i]? = some s)
    (hph : ∀ p ∈ s.task.held, ∀ ph ∈ p.2, ph ∈ Phase.committed) (ht : t.Idle) :
    Inv ((σ.perform i .commit).goto i s t) where
  covered := h.covered.commit i
  own := h.own_goto (e := .commit) hs (owner_of_rollback ht.owned).1 (owner_of_rollback ht.owned).2
  holders r := (h.holders r).commit h.covered (holders_viewAt r) i
  payments k := (h.payments k).commit h.covered (paymentsUnder_viewAt k) i
  settled id := by
    show ((σ.store.view i).ledger id).Settled
    by_cases hid : ∃ p ∈ s.task.held, p.1.id = id
    · obtain ⟨p, hp, rfl⟩ := hid
      obtain ⟨ph, hmem, hc⟩ := (h.taskOk hs).held p hp
      exact Or.inr ⟨p.1, ph, hph p hp ph hmem, hc⟩
    · rw [(h.taskOk hs).ledger_view fun p hp e => hid ⟨p, hp, e⟩]
      exact h.settled id
  auditIds := h.auditIds_view i
  pendingIds := pendingIds_rollback h i
  sessions := h.others (e := .commit) hs (ht.ok rollback_pending_self) (fun _ hj => rollback_pending_ne hj)
    fun _ hj _ ho {_ _} hf => h.covered.commit_view hf ho hj
  gateway := h.gateway

end

end Railbook
