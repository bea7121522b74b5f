import Railbook.Coherence

/-! What later states keep. Payments and audit entries are only ever added. No booking is deleted, because a booking
    has an audit entry as soon as it is committed, and its columns other than the status and its two times stay as
    they were inserted. -/

namespace Railbook
open ReadCommitted Transition

namespace Booking

/-- The columns that no `UPDATE` sets. -/
def fixed (b : Booking) : Booking := { b with status := .reserved, confirmedAt := none, cancelledAt := none }

@[simp] theorem fixed_update {b : Booking} {st : BookingStatus} {c x : Option Time} :
    (b.update st c x).fixed = b.fixed := rfl

theorem id_of_fixed {b b' : Booking} (h : b'.fixed = b.fixed) : b'.id = b.id := by
  have h := congrArg Booking.id h
  exact h

theorem userId_of_fixed {b b' : Booking} (h : b'.fixed = b.fixed) : b'.userId = b.userId := by
  have h := congrArg Booking.userId h
  exact h

theorem scheduleId_of_fixed {b b' : Booking} (h : b'.fixed = b.fixed) : b'.scheduleId = b.scheduleId := by
  have h := congrArg Booking.scheduleId h
  exact h

theorem seatId_of_fixed {b b' : Booking} (h : b'.fixed = b.fixed) : b'.seatId = b.seatId := by
  have h := congrArg Booking.seatId h
  exact h

theorem idempotencyKey_of_fixed {b b' : Booking} (h : b'.fixed = b.fixed) : b'.idempotencyKey = b.idempotencyKey := by
  have h := congrArg Booking.idempotencyKey h
  exact h

theorem totalAmount_of_fixed {b b' : Booking} (h : b'.fixed = b.fixed) : b'.totalAmount = b.totalAmount := by
  have h := congrArg Booking.totalAmount h
  exact h

end Booking

/-- The phases that a committed booking can be in later. -/
def Phase.leads : Phase → List Phase
  | .reserved => Phase.committed
  | .confirmed => [.confirmed, .refunded]
  | ph => [ph]

/-- What the tables of one state still hold in another. -/
structure Db.Kept (d d' : Db) : Prop where
  payments : ∀ p ∈ d.payments, p ∈ d'.payments
  auditTrail : ∀ a ∈ d.auditTrail, a ∈ d'.auditTrail
  bookings : ∀ b ∈ d.bookings, ∃ b' ∈ d'.bookings, b'.fixed = b.fixed

/-- The audit trail of the booking has an entry with this action. -/
def Db.Logged (d : Db) (id : Uuid) (action : AuditAction) : Prop := ∃ a ∈ d.auditTrail, a.bookingId = id ∧
    a.action = action

/-- No session is about to delete a booking. -/
def State.NoDelete (σ : State) : Prop := ∀ i b, .deleteBooking b ∉ σ.store.pending i

/-- The booking that `create_booking` has inserted and not yet committed. -/
def CreatePc.inserted : CreatePc → Option Booking
  | audit b | commit b => some b
  | _ => none

/-- Only `create_booking` inserts bookings, the one that it builds, and before that it writes nothing. -/
structure State.InsertsOwn (σ : State) : Prop where
  unwritten : ∀ (i : Sid) began q pc, σ.sessions[i]? = some ⟨began, .create q pc⟩ → pc.inserted = none →
    σ.store.pending i = []
  written : ∀ (i : Sid) began q pc b, σ.sessions[i]? = some ⟨began, .create q pc⟩ → pc.inserted = some b →
    ∃ as : List AuditTrail, σ.store.pending i = .insertBooking b :: as.map .insertAudit
  inserts : ∀ (i : Sid) b, .insertBooking b ∈ σ.store.pending i →
    ∃ began q pc, σ.sessions[i]? = some ⟨began, .create q pc⟩ ∧ q.Builds b

section
variable {cat : Catalog} {σ τ υ : State} {i j : Sid} {s : Session} {t : Task} {e : Effect} {d d' d'' : Db} {b : Booking}

theorem Db.Kept.refl (d : Db) : d.Kept d := ⟨fun _ h => h, fun _ h => h, fun b h => ⟨b, h, rfl⟩⟩

theorem Db.Kept.trans (h : d.Kept d') (h' : d'.Kept d'') : d.Kept d'' where
  payments p hp := h'.payments p (h.payments p hp)
  auditTrail a ha := h'.auditTrail a (h.auditTrail a ha)
  bookings b hb := by
    obtain ⟨b', hb', hf⟩ := h.bookings b hb
    obtain ⟨b'', hb'', hf'⟩ := h'.bookings b' hb'
    exact ⟨b'', hb'', hf'.trans hf⟩

theorem Db.Kept.owner {id u : Uuid} (h : d.Kept d') (hb : ∃ b ∈ d.bookings, b.id = id ∧ b.userId = u) :
    ∃ b ∈ d'.bookings, b.id = id ∧ b.userId = u := by
  obtain ⟨b, hb, hid, hu⟩ := hb
  obtain ⟨b', hb', hf⟩ := h.bookings b hb
  exact ⟨b', hb', (Booking.id_of_fixed hf).trans hid, (Booking.userId_of_fixed hf).trans hu⟩

theorem Write.kept {w : Write} (h : ∀ b, w ≠ .deleteBooking b) (d : Db) : d.Kept (w.apply d) := by
  cases w with
  | insertBooking b => exact ⟨fun _ hp => hp, fun _ ha => ha, fun b' hb => ⟨b', List.mem_append_left _ hb, rfl⟩⟩
  | setBooking id st c x =>
    refine ⟨fun _ hp => hp, fun _ ha => ha, fun b hb => ⟨_, List.mem_map_of_mem hb, ?_⟩⟩
    split
    · exact Booking.fixed_update
    · rfl
  | deleteBooking b => exact absurd rfl (h b)
  | insertPayment p => exact ⟨fun _ hp => List.mem_append_left _ hp, fun _ ha => ha, fun b hb => ⟨b, hb, rfl⟩⟩
  | insertAudit a => exact ⟨fun _ hp => hp, fun _ ha => List.mem_append_left _ ha, fun b hb => ⟨b, hb, rfl⟩⟩

theorem kept_foldl {ws : List Write} (h : ∀ b, .deleteBooking b ∉ ws) (d : Db) :
    d.Kept (ws.foldl (fun d w => w.apply d) d) := by
  induction ws generalizing d with
  | nil => exact .refl d
  | cons w ws ih =>
    have hw : ∀ b, w ≠ .deleteBooking b := fun b hb => h b (hb ▸ List.mem_cons_self)
    exact (Write.kept hw d).trans (ih (fun b hb => h b (List.mem_cons_of_mem _ hb)) _)

/-- A session sees everything that is committed. -/
theorem State.NoDelete.view (h : σ.NoDelete) (i : Sid) : σ.db.Kept (σ.view i) := kept_foldl (h i) _

/-- The delete before a new booking never passes. -/
theorem Move.no_delete {rs : List Resource} {ws : List Write} {n : Nat} (inv : Inv σ) (hs : σ.sessions[i]? = some s)
    (m : Move cat σ i s (.flush rs ws n) t) (b : Booking) : .deleteBooking b ∉ ws := by
  intro hmem
  cases m with
  | create m =>
    cases m with
    | deleted hp ha => exact inv.not_deleted hs ha
    | seated free hx => simp at hmem
    | audited => simp at hmem
  | pay m =>
    cases m with
    | attempted => simp at hmem
    | recorded free hk =>
      unfold payWrites at hmem
      split at hmem <;> simp at hmem
  | refund m => cases m with | recorded => simp [refundWrites] at hmem
  | cleanup m =>
    cases m with
    | flushed => rcases List.mem_append.mp hmem with h | h <;> obtain ⟨_, -, h⟩ := List.mem_map.mp h <;> cases h

theorem State.NoDelete.move (h : σ.NoDelete) (inv : Inv σ) (hs : σ.sessions[i]? = some s) (m : Move cat σ i s e t) :
    ((σ.perform i e).goto i s t).NoDelete := by
  intro j b hmem
  rcases pending_of_perform hmem with hold | ⟨rfl, rs, ws, n, rfl, hnew⟩
  · exact h j b hold
  · exact m.no_delete inv hs b hnew

theorem State.NoDelete.step {a : Act} (h : σ.NoDelete) (inv : Inv σ) (hstep : step cat σ a = some τ) : τ.NoDelete := by
  cases step_stepped hstep with
  | request r => exact h
  | run hs hc m => exact h.move inv hs m
  | raise hs hr m => exact h.move inv hs m
  | tick d => exact h
  | updateConfig failureRate latencyMs => exact h

theorem noDelete_of_reachable (h : Reachable cat σ) : σ.NoDelete := by
  refine h.invariant ?_ fun _ _ _ hr hn _ hstep => hn.step (inv_of_reachableBy hr) hstep
  rintro σ ⟨now, rfl⟩
  exact nofun

theorem kept_perform (h : σ.NoDelete) (i : Sid) (e : Effect) : σ.db.Kept (σ.perform i e).db := by
  rcases perform_db σ i e with he | ⟨-, he⟩ <;> rw [he]
  · exact .refl _
  · exact h.view i

theorem kept_step {a : Act} (h : σ.NoDelete) (hstep : step cat σ a = some τ) : σ.db.Kept τ.db := by
  cases step_stepped hstep with
  | request r => exact .refl _
  | run hs hc m => exact kept_perform h _ _
  | raise hs hr m => exact kept_perform h _ _
  | tick d => exact .refl _
  | updateConfig failureRate latencyMs => exact .refl _

theorem kept_exec {acts : List Act} (h : Reachable cat σ) (run : exec (step cat) σ acts = some τ) : σ.db.Kept τ.db := by
  have keep : ∀ (υ : State) (a : Act) (υ' : State), (Reachable cat υ ∧ σ.db.Kept υ.db) → step cat υ a = some υ' →
      Reachable cat υ' ∧ σ.db.Kept υ'.db := fun υ a υ' ⟨hr, hk⟩ hstep =>
    ⟨hr.next trivial hstep, hk.trans (kept_step (noDelete_of_reachable hr) hstep)⟩
  exact (exec_invariant_of_step keep ⟨h, .refl _⟩ run).2

/-! ### Where bookings come from -/

theorem CreateMove.unwritten {began : Time} {q : CreateRequest} {pc pc' : CreatePc} (inv : Inv σ)
    (hs : σ.sessions[i]? = some ⟨began, .create q pc⟩) (hp : pc.inserted = none → σ.store.pending i = [])
    (m : CreateMove cat σ i began q pc e pc') (h : pc'.inserted = none) : (σ.perform i e).store.pending i = [] := by
  cases m with
  | deleted hp ha => exact (inv.not_deleted hs ha).elim
  | seated free hx => cases h
  | audited => cases h
  | found hb hkey => exact rollback_pending_self
  | committed => exact rollback_pending_self
  | invalidated => exact rollback_pending_self
  | failed x he => exact rollback_pending_self
  | _ => exact hp rfl

theorem CreateMove.written {began : Time} {q : CreateRequest} {pc pc' : CreatePc}
    (hp : pc.inserted = none → σ.store.pending i = [])
    (hw : ∀ b, pc.inserted = some b → ∃ as : List AuditTrail, σ.store.pending i =
      .insertBooking b :: as.map .insertAudit)
    (m : CreateMove cat σ i began q pc e pc') (h : pc'.inserted = some b) :
    ∃ as : List AuditTrail, (σ.perform i e).store.pending i = .insertBooking b :: as.map .insertAudit := by
  cases m with
  | seated free hx =>
    cases h
    refine ⟨[], write_pending_self.trans ?_⟩
    rw [acquire_pending, hp rfl]
    rfl
  | audited =>
    cases h
    obtain ⟨as, has⟩ := hw _ rfl
    refine ⟨as ++ [logAudit σ.nextAuditId began b.id q.userId .reserved none .reserved (.reserved q.scheduleId q.seatId)
      q.ipAddress], write_pending_self.trans ?_⟩
    rw [acquire_pending, has, List.map_append, List.map_singleton]
    rfl
  | _ => cases h

theorem Move.inserts {rs : List Resource} {ws : List Write} {n : Nat} (inv : Inv σ) (hs : σ.sessions[i]? = some s)
    (m : Move cat σ i s (.flush rs ws n) t) (hmem : .insertBooking b ∈ ws) :
    ∃ began q pc, s = ⟨began, .create q pc⟩ ∧ q.Builds b := by
  cases m with
  | create m =>
    cases m with
    | deleted hp ha => simp at hmem
    | seated free hx =>
      simp only [List.mem_singleton, Write.insertBooking.injEq] at hmem
      exact ⟨_, _, _, rfl, hmem ▸ (inv.taskOk hs).sound⟩
    | audited => simp at hmem
  | pay m =>
    cases m with
    | attempted => simp at hmem
    | recorded free hk =>
      unfold payWrites at hmem
      split at hmem <;> simp at hmem
  | refund m => cases m with | recorded => simp [refundWrites] at hmem
  | cleanup m =>
    cases m with
    | flushed => rcases List.mem_append.mp hmem with h | h <;> obtain ⟨_, -, h⟩ := List.mem_map.mp h <;> cases h

theorem State.InsertsOwn.move (h : σ.InsertsOwn) (inv : Inv σ) (hs : σ.sessions[i]? = some s) (m : Move cat σ i s e t) :
    ((σ.perform i e).goto i s t).InsertsOwn where
  unwritten j began q pc hj hpc := by
    rcases session_of_goto hs hj with ⟨rfl, ht⟩ | ⟨hji, hj⟩
    · cases ht
      cases m with
      | create m => exact m.unwritten inv hs (h.unwritten j _ _ _ hs) hpc
    · rw [goto_store, perform_pending_ne e hji]
      exact h.unwritten j began q pc hj hpc
  written j began q pc b hj hpc := by
    rcases session_of_goto hs hj with ⟨rfl, ht⟩ | ⟨hji, hj⟩
    · cases ht
      cases m with
      | create m => exact m.written (h.unwritten j _ _ _ hs) (fun b => h.written j _ _ _ b hs) hpc
    · rw [goto_store, perform_pending_ne e hji]
      exact h.written j began q pc b hj hpc
  inserts j b hmem := by
    have kept : ∀ {began q pc}, σ.sessions[j]? = some ⟨began, .create q pc⟩ →
        ∃ pc', ((σ.perform i e).goto i s t).sessions[j]? = some ⟨began, .create q pc'⟩ := by
      intro began q pc hj
      by_cases hji : j = i
      · subst hji
        rw [hs] at hj
        cases hj
        cases m with
        | create m => exact ⟨_, goto_sessions_self hs⟩
      · exact ⟨pc, (goto_sessions_ne hji).trans hj⟩
    rcases pending_of_perform hmem with hold | ⟨rfl, rs, ws, n, rfl, hnew⟩
    · obtain ⟨began, q, pc, hj, hb⟩ := h.inserts j b hold
      obtain ⟨pc', hj⟩ := kept hj
      exact ⟨began, q, pc', hj, hb⟩
    · obtain ⟨began, q, pc, rfl, hb⟩ := m.inserts inv hs hnew
      obtain ⟨pc', hj⟩ := kept hs
      exact ⟨began, q, pc', hj, hb⟩

theorem State.InsertsOwn.request (h : σ.InsertsOwn) (inv : Inv σ) (r : Request) :
    State.InsertsOwn { σ with sessions := σ.sessions ++ [⟨σ.now, r.task⟩] } where
  unwritten j began q pc hj hpc := by
    rcases session_of_request hj with hj | ⟨hnone, -⟩
    · exact h.unwritten j began q pc hj hpc
    · have hok := inv.sessions j
      rwa [State.SessionOk, hnone] at hok
  written j began q pc b hj hpc := by
    rcases session_of_request hj with hj | ⟨-, ht⟩
    · exact h.written j began q pc b hj hpc
    · cases r <;> cases ht
      cases hpc
  inserts j b hmem := by
    obtain ⟨began, q, pc, hj, hb⟩ := h.inserts j b hmem
    refine ⟨began, q, pc, ?_, hb⟩
    rcases getElem?_snoc σ.sessions ⟨σ.now, r.task⟩ j with hj' | ⟨hnone, -⟩
    · exact hj'.trans hj
    · rw [hnone] at hj
      cases hj

theorem State.InsertsOwn.step {a : Act} (h : σ.InsertsOwn) (inv : Inv σ) (hstep : step cat σ a = some τ) :
    τ.InsertsOwn := by
  cases step_stepped hstep with
  | request r => exact h.request inv r
  | run hs hc m => exact h.move inv hs m
  | raise hs hr m => exact h.move inv hs m
  | tick d => exact ⟨h.unwritten, h.written, h.inserts⟩
  | updateConfig failureRate latencyMs => exact ⟨h.unwritten, h.written, h.inserts⟩

theorem insertsOwn_of_reachable (h : Reachable cat σ) : σ.InsertsOwn := by
  refine h.invariant ?_ fun _ _ _ hr hi _ hstep => hi.step (inv_of_reachableBy hr) hstep
  rintro σ ⟨now, rfl⟩
  exact ⟨fun _ _ _ _ _ _ => rfl, fun _ _ _ _ _ hs => (nomatch hs), fun _ _ hmem => (nomatch hmem)⟩

theorem State.InsertsOwn.view {began : Time} {q : CreateRequest} {pc : CreatePc} (h : σ.InsertsOwn)
    (hs : σ.sessions[i]? = some ⟨began, .create q pc⟩) (hpc : pc.inserted = none) : σ.view i = σ.db :=
  view_of_pending_nil (h.unwritten i began q pc hs hpc)

theorem bookings_insertAudits (as : List AuditTrail) (d : Db) :
    ((as.map Write.insertAudit).foldl (fun d w => w.apply d) d).bookings = d.bookings := by
  induction as generalizing d with
  | nil => rfl
  | cons a as ih => exact ih _

/-- After its insert `create_booking` sees its row behind the committed ones. -/
theorem State.InsertsOwn.view_bookings {began : Time} {q : CreateRequest} {pc : CreatePc} (h : σ.InsertsOwn)
    (hs : σ.sessions[i]? = some ⟨began, .create q pc⟩) (hpc : pc.inserted = some b) :
    (σ.view i).bookings = σ.db.bookings ++ [b] := by
  obtain ⟨as, has⟩ := h.written i began q pc b hs hpc
  show ((σ.store.pending i).foldl (fun d w => Write.apply w d) σ.db).bookings = _
  rw [has, List.foldl_cons, bookings_insertAudits]
  rfl

theorem origin_foldl {ws : List Write} (hb : b ∈ (ws.foldl (fun d w => w.apply d) d).bookings) :
    (∃ b₀ ∈ d.bookings, b₀.fixed = b.fixed) ∨ ∃ b₀, .insertBooking b₀ ∈ ws ∧ b₀.fixed = b.fixed := by
  induction ws generalizing d with
  | nil => exact Or.inl ⟨b, hb, rfl⟩
  | cons w ws ih =>
    rcases ih hb with ⟨b₀, hb₀, hf⟩ | ⟨b₀, hb₀, hf⟩
    · cases w with
      | insertBooking b' =>
        rcases List.mem_append.mp hb₀ with hb₀ | hb₀
        · exact Or.inl ⟨b₀, hb₀, hf⟩
        · exact Or.inr ⟨b', List.mem_cons_self, List.mem_singleton.mp hb₀ ▸ hf⟩
      | setBooking id st c x =>
        obtain ⟨b', hb', rfl⟩ := List.mem_map.mp hb₀
        refine Or.inl ⟨b', hb', ?_⟩
        rw [← hf]
        split
        · exact Booking.fixed_update.symm
        · rfl
      | deleteBooking b' => exact Or.inl ⟨b₀, List.mem_of_mem_filter hb₀, hf⟩
      | insertPayment p => exact Or.inl ⟨b₀, hb₀, hf⟩
      | insertAudit a => exact Or.inl ⟨b₀, hb₀, hf⟩
    · exact Or.inr ⟨b₀, List.mem_cons_of_mem _ hb₀, hf⟩

/-! ### The phases that follow -/

theorem Phase.leads_of_trail {ph ph' : Phase} (owner : Uuid) (hph : ph ∈ Phase.committed) (hph' : ph' ∈ Phase.committed)
    (h : ∀ e ∈ ph.trail owner, e ∈ ph'.trail owner) : ph' ∈ ph.leads := by
  cases ph <;> cases ph' <;> simp [Phase.committed, Phase.trail, Phase.leads] at hph hph' h ⊢

/-- A committed booking in a later state, and the phase it is in then. -/
theorem Db.Kept.leads (h : d.Kept d') {ph ph' : Phase} {b' : Booking} (hc : Conforms (d.ledger b.id) b ph)
    (hph : ph ∈ Phase.committed) (hc' : Conforms (d'.ledger b.id) b' ph') (hph' : ph' ∈ Phase.committed)
    (hf : b'.fixed = b.fixed) : ph' ∈ ph.leads := by
  refine Phase.leads_of_trail b.userId hph hph' fun x hx => ?_
  rw [← hc.trail, List.mem_map] at hx
  obtain ⟨a, ha, rfl⟩ := hx
  obtain ⟨ha, hid⟩ := mem_ledger_auditTrail.mp ha
  have hmem : a ∈ (d'.ledger b.id).auditTrail := mem_ledger_auditTrail.mpr ⟨h.auditTrail a ha, hid⟩
  have huser : b'.userId = b.userId := Booking.userId_of_fixed hf
  rw [← huser, ← hc'.trail]
  exact List.mem_map_of_mem hmem

/-- A booking that is stored after a step was stored before, or the step is the commit of the `create_booking` that
    inserted it. -/
theorem booking_origin {a : Act} (hr : Reachable cat σ) (hstep : step cat σ a = some τ) (hb : b ∈ τ.db.bookings) :
    (∃ b₀ ∈ σ.db.bookings, b₀.fixed = b.fixed) ∨ ∃ i x began q b', a = .run i x ∧
      σ.sessions[i]? = some ⟨began, .create q (.commit b')⟩ ∧ q.Builds b' ∧ b'.fixed = b.fixed := by
  have own := insertsOwn_of_reachable hr
  have moved : ∀ {i s e t}, σ.sessions[i]? = some s → Move cat σ i s e t → b ∈ (σ.perform i e).db.bookings →
      (∃ b₀ ∈ σ.db.bookings, b₀.fixed = b.fixed) ∨ e = .commit ∧ ∃ began q b', s = ⟨began, .create q (.commit b')⟩ ∧
        q.Builds b' ∧ b'.fixed = b.fixed := by
    intro i s e t hs m hb
    rcases perform_db σ i e with he | ⟨rfl, he⟩ <;> rw [he] at hb
    · exact Or.inl ⟨b, hb, rfl⟩
    · rcases origin_foldl hb with h₀ | ⟨b₀, hb₀, hf⟩
      · exact Or.inl h₀
      refine Or.inr ⟨rfl, ?_⟩
      obtain ⟨began, q, pc, hs', builds⟩ := own.inserts i b₀ hb₀
      obtain rfl := Option.some.inj (hs.symm.trans hs')
      cases m with
      | create m =>
        cases m with
        | @committed b' =>
          obtain ⟨as, has⟩ := own.written i began q _ b' hs rfl
          rw [has] at hb₀
          obtain rfl : b₀ = b' := by simpa using hb₀
          exact ⟨began, q, b₀, rfl, builds, hf⟩
  cases step_stepped hstep with
  | request r => exact Or.inl ⟨b, hb, rfl⟩
  | @run i x s e t hs hc m =>
    rcases moved hs m hb with hold | ⟨-, began, q, b', rfl, hwhere⟩
    · exact Or.inl hold
    · exact Or.inr ⟨i, x, began, q, b', rfl, hs, hwhere⟩
  | raise hs hr m =>
    rcases moved hs m hb with hold | ⟨he, -⟩
    · exact Or.inl hold
    · cases he
  | tick d => exact Or.inl ⟨b, hb, rfl⟩
  | updateConfig failureRate latencyMs => exact Or.inl ⟨b, hb, rfl⟩

/-- A booking that is active after a step was active before, or the step is the commit of the `create_booking` that
    inserted it. -/
theorem active_origin {a : Act} (hr : Reachable cat σ) (hstep : step cat σ a = some τ) (hb : b ∈ τ.db.bookings)
    (hact : b.status.isActive = true) : (∃ b₀ ∈ σ.db.bookings, b₀.fixed = b.fixed ∧ b₀.status.isActive = true) ∨
      ∃ i x began q b', a = .run i x ∧ σ.sessions[i]? = some ⟨began, .create q (.commit b')⟩ ∧ b'.id = b.id ∧
        q.userId = b.userId ∧ q.scheduleId = b.scheduleId := by
  have inv := inv_of_reachableBy hr
  have hinv : Inv τ := inv.step hstep
  have kept := kept_step (noDelete_of_reachable hr) hstep
  -- A booking that was there before cannot have been released.
  have old : (∃ b₀ ∈ σ.db.bookings, b₀.fixed = b.fixed) →
      ∃ b₀ ∈ σ.db.bookings, b₀.fixed = b.fixed ∧ b₀.status.isActive = true := by
    rintro ⟨b₀, hb₀, hf⟩
    obtain ⟨ph₀, hph₀, hc₀⟩ := inv.conforms_of_mem hb₀
    obtain ⟨ph, hph, hc⟩ := hinv.conforms_of_mem hb
    rw [← Booking.id_of_fixed hf] at hc
    have hleads := kept.leads hc₀ hph₀ hc hph hf.symm
    refine ⟨b₀, hb₀, hf, ?_⟩
    rw [hc.status] at hact
    rw [hc₀.status]
    cases ph₀ <;> simp [Phase.leads, Phase.status, BookingStatus.isActive] at hleads ⊢ <;> subst hleads <;> cases hact
  rcases booking_origin hr hstep hb with hold | ⟨i, x, began, q, b', rfl, hs, builds, hf⟩
  · exact Or.inl (old hold)
  · refine Or.inr ⟨i, x, began, q, b', rfl, hs, Booking.id_of_fixed hf, ?_, ?_⟩
    · exact builds.userId.symm.trans (Booking.userId_of_fixed hf)
    · exact builds.scheduleId.symm.trans (Booking.scheduleId_of_fixed hf)

/-! ### What the audit trail says of the phase -/

theorem Conforms.logged {ph : Phase} {id : Uuid} {x : Entry} (h : Conforms (d.ledger id) b ph)
    (hx : x ∈ ph.trail b.userId) : d.Logged id x.action := by
  rw [← h.trail, List.mem_map] at hx
  obtain ⟨a, ha, rfl⟩ := hx
  obtain ⟨ha, hid⟩ := mem_ledger_auditTrail.mp ha
  exact ⟨a, ha, hid, rfl⟩

theorem Conforms.trail_of_logged {ph : Phase} {id : Uuid} {action : AuditAction} (h : Conforms (d.ledger id) b ph)
    (hl : d.Logged id action) : ∃ x ∈ ph.trail b.userId, x.action = action := by
  obtain ⟨a, ha, hid, rfl⟩ := hl
  refine ⟨a.entry, ?_, rfl⟩
  rw [← h.trail]
  exact List.mem_map_of_mem (mem_ledger_auditTrail.mpr ⟨ha, hid⟩)

theorem Db.Kept.logged (h : d.Kept d') {id : Uuid} {action : AuditAction} (hl : d.Logged id action) :
    d'.Logged id action := by
  obtain ⟨a, ha, hid, hact⟩ := hl
  exact ⟨a, h.auditTrail a ha, hid, hact⟩

theorem Conforms.cancelled_logged {ph : Phase} {id : Uuid} (h : Conforms (d.ledger id) b ph)
    (hst : b.status = .cancelled) :
    d.Logged id .paymentFailed ∨ d.Logged id .expiredCleanup := by
  rw [h.status] at hst
  cases ph with
  | paymentFailed =>
    exact Or.inl (h.logged (x := ⟨.paymentFailed, some .reserved, .cancelled, b.userId⟩) (by simp [Phase.trail]))
  | expired =>
    exact Or.inr (h.logged (x := ⟨.expiredCleanup, some .reserved, .cancelled, systemUserId⟩) (by simp [Phase.trail]))
  | _ => cases hst

end

end Railbook
