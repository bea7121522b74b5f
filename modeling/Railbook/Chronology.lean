import Railbook.Times

/-! The audit trail of a booking by `created_at` (`app/admin/router.py`). The time of an entry is fixed when its
    transaction begins, and the lock of the row decides later which transaction comes first. -/

namespace Railbook
open ReadCommitted Transition

/-- Of two entries about a booking, the one that was written by an earlier transition has no later time. Entries are
    added at the end, when their transaction commits. -/
def Db.Chronological (d : Db) : Prop := d.auditTrail.Pairwise fun a a' => a.bookingId = a'.bookingId →
    a.createdAt ≤ a'.createdAt

instance (d : Db) : Decidable d.Chronological := inferInstanceAs (Decidable (List.Pairwise _ _))

/-- The booking of a `pay_booking` that commits next. -/
def Task.paying : Task → Option Booking
  | .pay _ (.commit b) => some b
  | _ => none

/-- The booking of a `refund_booking` that commits next. -/
def Task.refunding : Task → Option Booking
  | .refund _ (.commit b) => some b
  | _ => none

/-- A payment that commits belongs to a transaction that began no earlier than the one that reserved the booking, and
    a refund to one that began no earlier than the one that paid for it. -/
def Session.InOrder (d : Db) (s : Session) : Prop :=
  (∀ b ∈ s.task.paying, ∀ b' ∈ d.bookings, b'.id = b.id → b'.reservedAt ≤ s.began) ∧
    ∀ b ∈ s.task.refunding, ∀ p ∈ d.payments, p.bookingId = b.id → p.attemptedAt ≤ s.began

/-- A session that runs its next statement is in order. -/
def CommitsInOrder (σ : State) : Act → Prop
  | .run i _ => ∀ s ∈ σ.sessions[i]?, s.InOrder σ.db
  | _ => True

instance (d : Db) (s : Session) : Decidable (s.InOrder d) := inferInstanceAs (Decidable (_ ∧ _))

instance (σ : State) : (a : Act) → Decidable (CommitsInOrder σ a)
  | .run i _ => inferInstanceAs (Decidable (∀ s ∈ σ.sessions[i]?, s.InOrder σ.db))
  | .request _ | .raise _ | .tick _ | .updateConfig _ _ => isTrue trivial

/-- The audit entry that a write inserts. -/
def Write.audit? : Write → Option AuditTrail
  | insertAudit a => some a
  | _ => none

section
variable {cat : Catalog} {σ τ : State} {i : Sid} {s : Session} {t : Task} {e : Effect} {began now : Time}
  {ws : List Write} {b : Booking} {d : Db} {a : Act} {acts : List Act}

/-! ### The trail grows at its end -/

theorem auditTrail_foldl : (ws.foldl (fun d w => w.apply d) d).auditTrail = d.auditTrail ++
    ws.filterMap Write.audit? := by
  induction ws generalizing d with
  | nil => simp
  | cons w ws ih =>
    rw [List.foldl_cons, ih]
    cases w <;> simp [Write.apply, Write.audit?, List.filterMap_cons]

theorem mem_audits {a : AuditTrail} : a ∈ ws.filterMap Write.audit? ↔ .insertAudit a ∈ ws := by
  rw [List.mem_filterMap]
  constructor
  · rintro ⟨w, hw, ha⟩
    cases w <;> cases ha
    exact hw
  · exact fun ha => ⟨_, ha, rfl⟩

/-- Every committed entry about a booking of the session is from no later than the session began. -/
def Session.Follows (σ : State) (i : Sid) (s : Session) : Prop :=
  ∀ a ∈ σ.db.auditTrail, ∀ a', .insertAudit a' ∈ σ.store.pending i → a.bookingId = a'.bookingId → a.createdAt ≤ s.began

theorem chronological_view (hr : Reachable cat σ) (hs : σ.sessions[i]? = some s) :
    (σ.view i).Chronological ↔ σ.db.Chronological ∧ s.Follows σ i := by
  have at' {a : AuditTrail} (ha : .insertAudit a ∈ σ.store.pending i) : a.createdAt = s.began :=
    (recordsTime_of_reachable hr i s hs).pending (.insertAudit a) ha
  have hview : (σ.view i).auditTrail = σ.db.auditTrail ++ (σ.store.pending i).filterMap Write.audit? := auditTrail_foldl
  rw [Db.Chronological, hview, List.pairwise_append]
  constructor
  · rintro ⟨hold, -, hboth⟩
    refine ⟨hold, fun a ha a' ha' hid => ?_⟩
    rw [← at' ha']
    exact hboth a ha a' (mem_audits.mpr ha') hid
  · rintro ⟨hold, hfollows⟩
    refine ⟨hold, ?_, fun a ha a' ha' hid => ?_⟩
    · refine List.pairwise_of_forall_mem_list fun a ha a' ha' _ => ?_
      rw [at' (mem_audits.mp ha), at' (mem_audits.mp ha')]
    · rw [at' (mem_audits.mp ha')]
      exact hfollows a ha a' (mem_audits.mp ha') hid

/-- A trail that is not chronological stays so. -/
theorem chronological_of_step (hr : Reachable cat σ) (hstep : step cat σ a = some τ) (h : τ.db.Chronological) :
    σ.db.Chronological := by
  cases step_stepped hstep with
  | @run i c s e t hs hc m =>
    rcases perform_db σ i e with he | ⟨rfl, he⟩ <;> rw [goto_db, he] at h
    · exact h
    · exact ((chronological_view hr hs).mp h).1
  | _ => exact h

theorem chronological_of_exec (hr : Reachable cat σ) (run : exec (step cat) σ acts = some τ) (h : τ.db.Chronological) :
    σ.db.Chronological := by
  induction acts generalizing σ with
  | nil =>
    cases run
    exact h
  | cons a acts ih =>
    obtain ⟨υ, hυ, run⟩ := Option.bind_eq_some_iff.mp run
    exact chronological_of_step hr hυ (ih (hr.next trivial hυ) run)

/-! ### What a commit adds -/

/-- The entries of a session are about the bookings that it holds. -/
theorem entry_held (inv : Inv σ) (hs : σ.sessions[i]? = some s) {a : AuditTrail}
    (ha : .insertAudit a ∈ σ.store.pending i) :
    ∃ p ∈ s.task.held, p.1.id = a.bookingId :=
  (inv.taskOk hs).quiet _ ha

theorem exists_own_entry {ph ph₀ : Phase} {b₀ : Booking} {id : Uuid} {x : Entry}
    (hv : Conforms ((σ.view i).ledger id) b ph) (h₀ : Conforms (σ.db.ledger id) b₀ ph₀) (hx : x ∈ ph.trail b.userId)
    (hnot : ∀ y ∈ ph₀.trail b₀.userId, y.action ≠ x.action) :
    ∃ a, .insertAudit a ∈ σ.store.pending i ∧ a.bookingId = id := by
  obtain ⟨a, ha, hid, hact⟩ := hv.logged hx
  rcases mem_auditTrail_foldl.mp ha with ha | ha
  · obtain ⟨y, hy, hyact⟩ := h₀.trail_of_logged ⟨a, ha, hid, hact⟩
    exact absurd hyact (hnot y hy)
  · exact ⟨a, ha, hid⟩

/-- A reserved booking has one entry, which is of the time at which it was reserved. -/
theorem createdAt_of_reserved {a : AuditTrail} {b₀ : Booking} {id : Uuid} (timed : σ.db.Timed)
    (h : Conforms (σ.db.ledger id) b₀ .reserved) (ha : a ∈ σ.db.auditTrail) (hid : a.bookingId = id) :
    a.createdAt = b₀.reservedAt := by
  obtain ⟨hb, rfl⟩ := h.mem_bookings
  obtain ⟨a₀, ha₀, hid₀, hat⟩ := timed.reserved b₀ hb
  have hlen := congrArg List.length h.trail
  simp only [List.length_map, Phase.trail, List.length_cons, List.length_nil] at hlen
  obtain ⟨x, hx⟩ := List.length_eq_one_iff.mp hlen
  have hmem : a ∈ (σ.db.ledger b₀.id).auditTrail := mem_ledger_auditTrail.mpr ⟨ha, hid⟩
  have hmem₀ : a₀ ∈ (σ.db.ledger b₀.id).auditTrail := mem_ledger_auditTrail.mpr ⟨ha₀, hid₀⟩
  rw [hx, List.mem_singleton] at hmem hmem₀
  rw [hmem, ← hmem₀, hat]

/-- The entries of a confirmed booking are from no later than its payment, in a chronological trail. -/
theorem createdAt_le_of_confirmed {a : AuditTrail} {b₀ : Booking} {id : Uuid} (timed : σ.db.Timed)
    (hc : σ.db.Chronological) (h : Conforms (σ.db.ledger id) b₀ .confirmed) (ha : a ∈ σ.db.auditTrail)
    (hid : a.bookingId = id) :
    ∃ p ∈ σ.db.payments, p.bookingId = id ∧ a.createdAt ≤ p.attemptedAt := by
  obtain ⟨p, hp, -⟩ := h.payments
  obtain ⟨hp, hpid⟩ := mem_ledger_payments.mp (hp ▸ List.mem_singleton_self p)
  obtain ⟨a₀, ha₀, hid₀, hst, hat⟩ := timed.paid p hp
  refine ⟨p, hp, hpid, ?_⟩
  rw [← hat]
  have hmem : a ∈ (σ.db.ledger id).auditTrail := mem_ledger_auditTrail.mpr ⟨ha, hid⟩
  have hmem₀ : a₀ ∈ (σ.db.ledger id).auditTrail := mem_ledger_auditTrail.mpr ⟨ha₀, hid₀.trans hpid⟩
  have hsub : (σ.db.ledger id).auditTrail.Pairwise fun a a' => a.bookingId = a'.bookingId →
    a.createdAt ≤ a'.createdAt :=
    hc.sublist List.filter_sublist
  have htrail := h.trail
  have hlen := congrArg List.length htrail
  simp only [List.length_map, Phase.trail, List.length_cons, List.length_nil] at hlen
  obtain ⟨a₁, a₂, a₃, hl⟩ := List.length_eq_three.mp hlen
  rw [hl] at hmem hmem₀ hsub htrail
  simp only [List.map_cons, List.map_nil, Phase.trail, List.cons.injEq, and_true] at htrail
  -- The entry of the payment is the last one: the two before it are still reserved.
  have hlast : a₀ = a₃ := by
    have h₁ : a₁.newStatus = .reserved := congrArg Entry.newStatus htrail.1
    have h₂ : a₂.newStatus = .reserved := congrArg Entry.newStatus htrail.2.1
    simp only [List.mem_cons, List.not_mem_nil, or_false] at hmem₀
    rcases hmem₀ with rfl | rfl | rfl
    · exact absurd h₁ hst
    · exact absurd h₂ hst
    · rfl
  subst hlast
  have hsame : a.bookingId = a₀.bookingId := hid.trans (hid₀.trans hpid).symm
  simp only [List.pairwise_cons, List.mem_cons, List.not_mem_nil, or_false] at hsub
  simp only [List.mem_cons, List.not_mem_nil, or_false] at hmem
  rcases hmem with rfl | rfl | rfl
  · exact hsub.1 a₀ (Or.inr rfl) hsame
  · exact hsub.2.1 a₀ rfl hsame
  · exact Int.le_refl _

theorem inOrder_of_neither (hp : s.task.paying = none) (hr : s.task.refunding = none) : s.InOrder d := by
  rw [Session.InOrder, hp, hr]
  simp

theorem follows_create {q : CreateRequest} (hr : Reachable cat σ)
    (hs : σ.sessions[i]? = some ⟨began, .create q (.commit b)⟩) :
    Session.Follows σ i ⟨began, .create q (.commit b)⟩ := by
  intro a ha a' ha' hid
  obtain ⟨p, hp, hpid⟩ := entry_held (inv_of_reachableBy hr) hs ha'
  obtain rfl := List.mem_singleton.mp hp
  exact absurd (hid.trans hpid.symm) (create_fresh hr hs a ha)

/-- The reservations of a cleanup pass were made before they expired, and it began after that. -/
theorem follows_cleanup {es : List Booking} (hr : Reachable cat σ)
    (hs : σ.sessions[i]? = some ⟨began, .cleanup (.commit es)⟩) :
    Session.Follows σ i ⟨began, .cleanup (.commit es)⟩ := by
  intro a ha a' ha' hid
  have timed := timed_of_reachable hr
  obtain ⟨p, hp, hpid⟩ := entry_held (inv_of_reachableBy hr) hs ha'
  obtain ⟨b, hb, rfl⟩ := List.mem_map.mp hp
  obtain ⟨b₀, h₀, hexp⟩ := baseOk_of_reachable hr i _ hs (b.id, .reserved) (List.mem_map_of_mem hb)
  obtain ⟨t, ht, hle⟩ := timed.expires b₀ h₀.mem_bookings.1
  have hlt : t < began := by simpa [ht] using hexp rfl
  rw [createdAt_of_reserved timed h₀ ha (hid.trans hpid.symm)]
  exact Int.le_of_lt (Int.lt_of_le_of_lt hle hlt)

theorem follows_pay_iff {q : PayRequest} (hr : Reachable cat σ)
    (hs : σ.sessions[i]? = some ⟨began, .pay q (.commit b)⟩) :
    Session.Follows σ i ⟨began, .pay q (.commit b)⟩ ↔ ∀ b' ∈ σ.db.bookings, b'.id = b.id → b'.reservedAt ≤ began := by
  have inv := inv_of_reachableBy hr
  have timed := timed_of_reachable hr
  obtain ⟨b₀, h₀, -⟩ := baseOk_of_reachable hr i _ hs (b.id, .reserved) (List.mem_singleton_self _)
  constructor
  · intro h b' hb' hid
    obtain ⟨a', ha', hid'⟩ : ∃ a, .insertAudit a ∈ σ.store.pending i ∧ a.bookingId = b.id := by
      obtain ⟨ph, hph, hv⟩ := (inv.taskOk hs).held (b, [.confirmed, .paymentFailed]) (List.mem_singleton_self _)
      simp only [List.mem_cons, List.not_mem_nil, or_false] at hph
      rcases hph with rfl | rfl
      · exact exists_own_entry (x := ⟨.confirmed, some .reserved, .confirmed, b.userId⟩) hv h₀ (by simp [Phase.trail])
          (by simp [Phase.trail])
      · exact exists_own_entry (x := ⟨.paymentFailed, some .reserved, .cancelled, b.userId⟩) hv h₀
          (by simp [Phase.trail])
          (by simp [Phase.trail])
    obtain ⟨a, ha, haid, hat⟩ := timed.reserved b' hb'
    rw [← hat]
    exact h a ha a' ha' ((haid.trans hid).trans hid'.symm)
  · intro h a ha a' ha' hid
    obtain ⟨p, hp, hpid⟩ := entry_held inv hs ha'
    obtain rfl := List.mem_singleton.mp hp
    rw [createdAt_of_reserved timed h₀ ha (hid.trans hpid.symm)]
    exact h b₀ h₀.mem_bookings.1 h₀.mem_bookings.2

theorem follows_refund_iff {q : RefundRequest} (hr : Reachable cat σ) (hc : σ.db.Chronological)
    (hs : σ.sessions[i]? = some ⟨began, .refund q (.commit b)⟩) :
    Session.Follows σ i ⟨began, .refund q (.commit b)⟩ ↔ ∀ p ∈ σ.db.payments, p.bookingId = b.id →
      p.attemptedAt ≤ began := by
  have inv := inv_of_reachableBy hr
  have timed := timed_of_reachable hr
  obtain ⟨b₀, h₀, -⟩ := baseOk_of_reachable hr i _ hs (b.id, .confirmed) (List.mem_singleton_self _)
  constructor
  · intro h p hp hid
    obtain ⟨ph, hph, hv⟩ := (inv.taskOk hs).held (b, [.refunded]) (List.mem_singleton_self _)
    obtain rfl := List.mem_singleton.mp hph
    obtain ⟨a', ha', hid'⟩ := exists_own_entry (x := ⟨.refunded, some .confirmed, .refunded, b.userId⟩) hv h₀
      (by simp [Phase.trail]) (by simp [Phase.trail])
    obtain ⟨a, ha, haid, -, hat⟩ := timed.paid p hp
    rw [← hat]
    exact h a ha a' ha' ((haid.trans hid).trans hid'.symm)
  · intro h a ha a' ha' hid
    obtain ⟨x, hx, hxid⟩ := entry_held inv hs ha'
    obtain rfl := List.mem_singleton.mp hx
    obtain ⟨p, hp, hpid, hle⟩ := createdAt_le_of_confirmed timed hc h₀ ha (hid.trans hxid.symm)
    exact Int.le_trans hle (h p hp hpid)

/-- A commit follows what is there exactly when it is in order. -/
theorem follows_iff (hr : Reachable cat σ) (hc : σ.db.Chronological) (hs : σ.sessions[i]? = some s)
    (m : Move cat σ i s .commit t) :
    s.Follows σ i ↔ s.InOrder σ.db := by
  cases m with
  | create m => cases m with | committed => exact iff_of_true (follows_create hr hs) (inOrder_of_neither rfl rfl)
  | pay m =>
    cases m with
    | @committed b =>
      rw [follows_pay_iff hr hs]
      simp [Session.InOrder, Task.paying, Task.refunding]
  | refund m =>
    cases m with
    | @committed b =>
      rw [follows_refund_iff hr hc hs]
      simp [Session.InOrder, Task.paying, Task.refunding]
  | cleanup m => cases m with | committed => exact iff_of_true (follows_cleanup hr hs) (inOrder_of_neither rfl rfl)

/-- Only a commit can be out of order. -/
theorem inOrder_of_ne_commit {c : Choice} (hst : s.statement cat σ i c = some (e, t)) (he : e ≠ .commit) :
    s.InOrder d := by
  obtain ⟨began, task⟩ := s
  cases task with
  | pay q pc =>
    cases pc with
    | commit b =>
      cases hst
      exact absurd rfl he
    | _ => exact inOrder_of_neither rfl rfl
  | refund q pc =>
    cases pc with
    | commit b =>
      cases hst
      exact absurd rfl he
    | _ => exact inOrder_of_neither rfl rfl
  | _ => exact inOrder_of_neither rfl rfl

/-- A step keeps a trail chronological exactly when its commit is in order. -/
theorem chronological_step (hr : Reachable cat σ) (hc : σ.db.Chronological) (hstep : step cat σ a = some τ) :
    τ.db.Chronological ↔ CommitsInOrder σ a := by
  cases step_stepped hstep with
  | @run i c s e t hs hst m =>
    have hrun : CommitsInOrder σ (.run i c) ↔ s.InOrder σ.db := by simp [CommitsInOrder, hs]
    rw [goto_db, hrun]
    by_cases he : e = .commit
    · subst he
      have hdb : (σ.perform i .commit).db = σ.view i := rfl
      rw [hdb, chronological_view hr hs, follows_iff hr hc hs m]
      exact and_iff_right hc
    · rw [(perform_db σ i e).resolve_right fun h => he h.1]
      exact iff_of_true hc (inOrder_of_ne_commit hst he)
  | _ => exact iff_of_true hc trivial

theorem chronological_exec (hr : Reachable cat σ) (hc : σ.db.Chronological) (run : exec (step cat) σ acts = some τ) :
    τ.db.Chronological ↔ Along (step cat) CommitsInOrder σ acts := by
  induction acts generalizing σ with
  | nil =>
    cases run
    exact iff_of_true hc trivial
  | cons a acts ih =>
    obtain ⟨υ, hυ, run⟩ := Option.bind_eq_some_iff.mp run
    have hrυ : Reachable cat υ := hr.next trivial hυ
    rw [along_cons hυ, ← chronological_step hr hc hυ]
    constructor
    · intro h
      have hcυ := chronological_of_exec hrυ run h
      exact ⟨hcυ, (ih hrυ hcυ run).mp h⟩
    · rintro ⟨hcυ, along⟩
      exact (ih hrυ hcυ run).mpr along

/-- In every run, the audit trail is chronological at the end if and only if every payment and every refund that
    commits does so in order. -/
theorem chronological_iff (run : exec (step cat) (.seeded now) acts = some τ) :
    τ.db.Chronological ↔ Along (step cat) CommitsInOrder (.seeded now) acts :=
  chronological_exec (.start ⟨now, rfl⟩) .nil run

/-- A booking is reserved, paid and refunded, each in a transaction that begins after the one before it. -/
def inTurnRun : List Act :=
  .request (.create ⟨1, 20, 40, 50, none⟩) :: runs 0 9 60 ++ .tick 1 :: .request (.pay ⟨60, 1, 70, none⟩) ::
  runs 1 9 80 ++
    .tick 1 :: .request (.refund ⟨60, 1, none⟩) :: runs 2 9 90

theorem chronological_inTurn : ∃ σ : State, exec (step sampleCatalog) (.seeded 0) inTurnRun = some σ ∧
    σ.db.Chronological := by
  have along : Along (step sampleCatalog) CommitsInOrder (.seeded 0) inTurnRun := by decide
  have hsome : (exec (step sampleCatalog) (.seeded 0) inTurnRun).isSome = true := by decide
  obtain ⟨σ, hσ⟩ := Option.isSome_iff_exists.mp hsome
  exact ⟨σ, hσ, (chronological_iff hσ).mpr along⟩

/-- The transaction of the refund begins before that of the payment, and reads the booking after it. -/
theorem refund_shown_first : ¬∀ (cat : Catalog) (σ : State), Reachable cat σ → σ.db.Chronological := by
  intro h
  have hrun : (exec (step sampleCatalog) (.seeded 0) (.request (.create ⟨1, 20, 40, 50, none⟩) :: runs 0 9 60 ++
      .request (.refund ⟨60, 1, none⟩) :: .tick 1 :: .request (.pay ⟨60, 1, 70, none⟩) :: runs 2 9 80 ++
      runs 1 9 90)).any
      (fun σ : State => !decide σ.db.Chronological) = true := by decide
  obtain ⟨σ, hσ, htest⟩ := reachable_of_run hrun
  have hnot : ¬σ.db.Chronological := by simpa using htest
  exact hnot (h _ σ hσ)

end

end Railbook
