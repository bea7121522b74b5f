import Railbook.Constraints

/-! The exceptions without a handler, which end as an internal server error. Of those that the service raises itself,
    `refund_booking` and the cleanup loop raise none; those of `pay_booking` and `create_booking` each have a cause
    that stays in the tables. -/

namespace Railbook
open ReadCommitted Transition

/-- The booking is one of the user's, on a journey that intersects that of the schedule. -/
def Booking.Crosses (cat : Catalog) (schedule : Schedule) (userId : Uuid) (b : Booking) : Prop :=
  b.userId = userId ∧ ∃ other, cat.schedule? b.scheduleId = some other ∧ other.departureTime < schedule.arrivalTime ∧
    schedule.departureTime < other.arrivalTime

/-- Why an insert fails: the key or the seat is taken, or the user does not exist. -/
def CreateRequest.Conflicts (cat : Catalog) (q : CreateRequest) (d : Db) : Prop :=
  (∃ b ∈ d.bookings, b.idempotencyKey = q.idempotencyKey) ∨
    (∃ b ∈ d.bookings, b.scheduleId = q.scheduleId ∧ b.seatId = q.seatId) ∨ cat.user? q.userId = none

/-- Why the overlap query fails: the user has two journeys that intersect the one asked for. -/
def CreateRequest.CrossesTwice (cat : Catalog) (q : CreateRequest) (d : Db) : Prop :=
  ∃ schedule, cat.schedule? q.scheduleId = some schedule ∧ ∃ b ∈ d.bookings, ∃ b' ∈ d.bookings, b.id ≠ b'.id ∧
    b.Crosses cat schedule q.userId ∧ b'.Crosses cat schedule q.userId

/-- Why a payment cannot be recorded: one for another booking has its key. -/
def PayRequest.KeyTaken (q : PayRequest) (d : Db) : Prop :=
  ∃ p ∈ d.payments, p.idempotencyKey = q.idempotencyKey ∧ p.bookingId ≠ q.bookingId

/-- The causes of the exceptions that a session can end with. On the way to one of them, the row that it has found for
    the seat or the booking. -/
def Task.Explained (cat : Catalog) (d : Db) : Task → Prop
  | .create q (.awaitSeat id) => ∃ b ∈ d.bookings, b.id = id ∧ b.scheduleId = q.scheduleId ∧ b.seatId = q.seatId
  | .create q (.checkOverlap (some _)) | .create q (.getSeat (some _)) | .create q (.delete _ _) =>
    ∃ b ∈ d.bookings, b.scheduleId = q.scheduleId ∧ b.seatId = q.seatId
  | .create q (.finished (.error .integrityError)) => q.Conflicts cat d
  | .create q (.finished (.error .multipleResultsFound)) => q.CrossesTwice cat d
  | .pay q (.finished (.error .integrityError)) => q.KeyTaken d
  | .refund _ (.checkDeparture b) => (cat.schedule? b.scheduleId).isSome = true
  | .create _ (.finished (.error e)) | .pay _ (.finished (.error e)) | .refund _ (.finished (.error e))
  | .cleanup (.finished (.error e)) => e.isServerError = true → e = .databaseError
  | _ => True

section
variable {cat : Catalog} {σ τ : State} {i : Sid} {s : Session} {t t' : Task} {e : Effect} {began : Time} {x : Choice}
  {d d' : Db}

theorem valid_of_reachable (hr : Reachable cat σ) : ∀ b ∈ σ.db.bookings, b.Valid cat := by
  refine Db.Constraints.bookings ((refines_transact cat).reach ?_ (fun h m => h.transact m) hr)
  rintro σ ⟨now, rfl⟩
  refine ⟨.start ⟨now, rfl⟩, ?_⟩
  constructor <;> simp [State.db, State.seeded, Db.empty]

/-! ### The causes stay -/

theorem CreateRequest.Conflicts.mono {q : CreateRequest} (h : q.Conflicts cat d) (kept : d.Kept d') :
    q.Conflicts cat d' := by
  rcases h with ⟨b, hb, hkey⟩ | ⟨b, hb, hs, hx⟩ | hu
  · obtain ⟨b', hb', hfix⟩ := kept.bookings b hb
    exact Or.inl ⟨b', hb', (Booking.idempotencyKey_of_fixed hfix).trans hkey⟩
  · obtain ⟨b', hb', hfix⟩ := kept.bookings b hb
    exact Or.inr (Or.inl ⟨b', hb', (Booking.scheduleId_of_fixed hfix).trans hs,
      (Booking.seatId_of_fixed hfix).trans hx⟩)
  · exact Or.inr (Or.inr hu)

theorem Booking.Crosses.of_fixed {b b' : Booking} {schedule : Schedule} {u : Uuid} (h : b.Crosses cat schedule u)
    (hfix : b'.fixed = b.fixed) : b'.Crosses cat schedule u := by
  obtain ⟨hu, other, hs, hlt⟩ := h
  exact ⟨(userId_of_fixed hfix).trans hu, other, by rw [scheduleId_of_fixed hfix]; exact hs, hlt⟩

theorem CreateRequest.CrossesTwice.mono {q : CreateRequest} (h : q.CrossesTwice cat d) (kept : d.Kept d') :
    q.CrossesTwice cat d' := by
  obtain ⟨schedule, hs, b₁, hb₁, b₂, hb₂, hne, h₁, h₂⟩ := h
  obtain ⟨b₁', hb₁', hfix₁⟩ := kept.bookings b₁ hb₁
  obtain ⟨b₂', hb₂', hfix₂⟩ := kept.bookings b₂ hb₂
  refine ⟨schedule, hs, b₁', hb₁', b₂', hb₂', ?_, h₁.of_fixed hfix₁, h₂.of_fixed hfix₂⟩
  rw [Booking.id_of_fixed hfix₁, Booking.id_of_fixed hfix₂]
  exact hne

theorem Task.Explained.mono (h : t.Explained cat d) (kept : d.Kept d') : t.Explained cat d' := by
  have seat : ∀ {q : CreateRequest}, (∃ b ∈ d.bookings, b.scheduleId = q.scheduleId ∧ b.seatId = q.seatId) →
      ∃ b ∈ d'.bookings, b.scheduleId = q.scheduleId ∧ b.seatId = q.seatId := by
    rintro q ⟨b, hb, hs, hx⟩
    obtain ⟨b', hb', hfix⟩ := kept.bookings b hb
    exact ⟨b', hb', (Booking.scheduleId_of_fixed hfix).trans hs, (Booking.seatId_of_fixed hfix).trans hx⟩
  unfold Task.Explained at h ⊢
  split at h
  case h_1 =>
    obtain ⟨b, hb, hid, hs, hx⟩ := h
    obtain ⟨b', hb', hfix⟩ := kept.bookings b hb
    exact ⟨b', hb', (Booking.id_of_fixed hfix).trans hid, (Booking.scheduleId_of_fixed hfix).trans hs,
      (Booking.seatId_of_fixed hfix).trans hx⟩
  case h_2 => exact seat h
  case h_3 => exact seat h
  case h_4 => exact seat h
  case h_5 => exact h.mono kept
  case h_6 => exact h.mono kept
  case h_7 =>
    obtain ⟨p, hp, hkey⟩ := h
    exact ⟨p, kept.payments p hp, hkey⟩
  all_goals exact h

/-! ### The statements that raise -/

theorem two_of_scalarOneOrNone {α : Type} {l : List α} {y : Exc} (h : scalarOneOrNone l = .error y) :
    ∃ a b l', l = a :: b :: l' := by
  rcases l with _ | ⟨a, _ | ⟨b, l⟩⟩
  · cases h
  · cases h
  · exact ⟨a, b, l, rfl⟩

theorem scalarOneOrNone_ne_error {α : Type} {l : List α} {y : Exc} (hl : l.length ≤ 1) :
    scalarOneOrNone l ≠ .error y := by
  intro h
  obtain ⟨a, b, l', rfl⟩ := two_of_scalarOneOrNone h
  simp at hl

theorem Inv.length_key_le_one (inv : Inv σ) (key : Uuid) :
    (σ.db.bookings.filter (·.idempotencyKey = key)).length ≤ 1 := by
  have hle : (σ.db.holders (.bookingKey key)).length ≤ 1 := (inv.holders _).1
  rw [Db.holders, List.length_map, ← List.countP_eq_length_filter] at hle
  rw [← List.countP_eq_length_filter]
  refine Nat.le_trans (List.countP_mono_left fun b _ hb => ?_) hle
  simpa [Booking.resources, eq_comm] using hb

theorem Inv.length_success_le_one {b : Booking} (inv : Inv σ) (hb : b ∈ σ.db.bookings) :
    (σ.db.payments.filter fun p => p.bookingId = b.id ∧ p.status = .success).length ≤ 1 := by
  obtain ⟨ph, -, hc⟩ := inv.conforms_of_mem hb
  have hle : (σ.db.ledger b.id).payments.length ≤ 1 := by
    have hpays := hc.payments
    cases hph : ph.payment with
    | none =>
      rw [hph] at hpays
      simp [show (σ.db.ledger b.id).payments = [] from hpays]
    | some st =>
      rw [hph] at hpays
      obtain ⟨p, hp, -⟩ := hpays
      simp [hp]
  refine Nat.le_trans ?_ hle
  rw [← List.countP_eq_length_filter, Db.ledger, ← List.countP_eq_length_filter]
  exact List.countP_mono_left fun p _ hp => decide_eq_true (of_decide_eq_true hp).1

/-- Two bookings that the overlap query gives. -/
theorem crossesTwice_of_error {q : CreateRequest} {schedule : Schedule} {y : Exc} (inv : Inv σ)
    (hs : cat.schedule? q.scheduleId = some schedule)
    (h : scalarOneOrNone (σ.db.bookings.filter (overlaps cat schedule q.userId)) = .error y) :
    q.CrossesTwice cat σ.db := by
  obtain ⟨b, b', l, hl⟩ := two_of_scalarOneOrNone h
  have hids : ((b :: b' :: l).map (·.id)).Nodup := hl ▸ inv.ids_nodup.sublist (List.filter_sublist.map _)
  have crosses : ∀ x ∈ b :: b' :: l, x ∈ σ.db.bookings ∧ x.Crosses cat schedule q.userId := by
    intro x hx
    obtain ⟨hmem, hov⟩ := List.mem_filter.mp (hl ▸ hx)
    simp only [overlaps, Bool.and_eq_true, beq_iff_eq] at hov
    obtain ⟨⟨hu, -⟩, hov⟩ := hov
    split at hov
    · rename_i other hother
      simp only [Bool.and_eq_true, decide_eq_true_eq] at hov
      exact ⟨hmem, hu, other, hother, hov⟩
    · cases hov
  obtain ⟨hb, hc⟩ := crosses b List.mem_cons_self
  obtain ⟨hb', hc'⟩ := crosses b' (List.mem_cons_of_mem _ List.mem_cons_self)
  refine ⟨schedule, hs, b, hb, b', hb', ?_, hc, hc'⟩
  simp only [List.map_cons, List.nodup_cons, List.mem_cons, not_or] at hids
  exact hids.1.1

theorem createBooking_explained {q : CreateRequest} {pc pc' : CreatePc} (hr : Reachable cat σ)
    (hs : σ.sessions[i]? = some ⟨began, .create q pc⟩) (h : (Task.create q pc).Explained cat σ.db)
    (hc : createBooking cat σ i began q x pc = some (e, pc')) : (Task.create q pc').Explained cat σ.db := by
  have inv := inv_of_reachableBy hr
  cases pc with
  | checkKey =>
    have hv := view_of_unwritten hr hs rfl
    simp only [createBooking, hv] at hc
    split at hc <;> cases hc
    · rename_i herr
      exact absurd herr (scalarOneOrNone_ne_error (inv.length_key_le_one _))
    · trivial
    · trivial
  | lockSeat =>
    have hv := view_of_unwritten hr hs rfl
    simp only [createBooking, hv] at hc
    split at hc <;> cases hc
    · rename_i b hf
      have hp := List.find?_some hf
      simp only [decide_eq_true_eq] at hp
      exact ⟨b, List.mem_of_find?_eq_some hf, rfl, hp⟩
    · trivial
  | awaitSeat id =>
    obtain ⟨b, hb, -, hseat⟩ := h
    simp only [createBooking] at hc
    split at hc
    · split at hc
      · cases hc
        trivial
      · split at hc <;> cases hc
        · exact fun hserver => by cases hserver
        · exact ⟨b, hb, hseat⟩
    · cases hc
  | checkOverlap existing =>
    have hv := view_of_unwritten hr hs (by cases existing <;> rfl)
    simp only [createBooking, hv] at hc
    split at hc
    · cases hc
      exact fun hserver => by cases hserver
    · rename_i schedule hsch
      split at hc <;> cases hc
      · rename_i herr
        cases scalarOneOrNone_error herr
        exact crossesTwice_of_error inv hsch herr
      · exact fun hserver => by cases hserver
      · cases existing <;> exact h
  | getSeat existing =>
    simp only [createBooking] at hc
    split at hc
    · cases hc
      exact fun hserver => by cases hserver
    · rename_i seat hseat
      split at hc
      · rename_i hnone
        obtain ⟨compartment, hcomp⟩ := Catalog.compartment?_of_seat (find?_key_eq_some hseat).1
        cases hnone.symm.trans hcomp
      · split at hc <;> cases hc
        · exact h
        · trivial
  | delete b price =>
    simp only [createBooking] at hc
    split at hc <;> cases hc
    · exact Or.inr (Or.inl h)
    · trivial
  | insertKey b =>
    have hv := view_of_unwritten hr hs rfl
    simp only [createBooking, hv] at hc
    split at hc
    · split at hc <;> cases hc
      · rename_i hkey
        exact Or.inl (by simpa using hkey)
      · trivial
    · cases hc
  | insertSeat b =>
    have hv := view_of_unwritten hr hs rfl
    have hsch : (cat.schedule? q.scheduleId).isSome = true := (ready_of_reachable hr i _ hs).1
    have hseat : (cat.seat? q.seatId).isSome = true := by
      obtain ⟨seat, hseat, -⟩ := Option.bind_eq_some_iff.mp (costs_of_reachable hr _ (List.mem_of_getElem? hs))
      exact Option.isSome_iff_exists.mpr ⟨seat, hseat⟩
    simp only [createBooking, hv] at hc
    split at hc
    · split at hc
      · cases hc
        rename_i hkey
        exact Or.inr (Or.inl (by simpa using hkey))
      · split at hc <;> cases hc
        · rename_i hnone
          rw [← Option.not_isSome, ← Option.not_isSome, ← Option.not_isSome, hsch, hseat] at hnone
          exact Or.inr (Or.inr (by simpa using hnone))
        · trivial
    · cases hc
  | audit b => cases hc; trivial
  | commit b => cases hc; trivial
  | invalidate b => cases hc; trivial
  | finished r => cases hc

theorem payBooking_explained {q : PayRequest} {pc pc' : PayPc} (hr : Reachable cat σ)
    (hs : σ.sessions[i]? = some ⟨began, .pay q pc⟩) (hc : payBooking σ i began q x pc = some (e, pc')) :
    (Task.pay q pc').Explained cat σ.db := by
  have inv := inv_of_reachableBy hr
  cases pc with
  | lockBooking =>
    simp only [payBooking] at hc
    split at hc <;> cases hc
    · exact fun hserver => by cases hserver
    · trivial
  | awaitBooking =>
    simp only [payBooking] at hc
    split at hc
    · split at hc
      · cases hc
        exact fun hserver => by cases hserver
      · split at hc
        · cases hc
          exact fun hserver => by cases hserver
        · split at hc
          · cases hc
            exact fun hserver => by cases hserver
          · split at hc <;> cases hc
            · exact fun hserver => by cases hserver
            · trivial
    · cases hc
  | checkPayment b =>
    simp only [payBooking] at hc
    split at hc <;> cases hc
    · rename_i herr
      exact absurd herr (scalarOneOrNone_ne_error ((inv.payments q.idempotencyKey).2 i))
    · trivial
    · trivial
  | record b r y =>
    simp only [payBooking] at hc
    split at hc
    · split at hc <;> cases hc
      · rename_i hkey
        -- The booking is still reserved in the committed tables, so the payment under the key is for another one.
        obtain ⟨hadm, n, hws⟩ := ready_of_reachable hr i _ hs
        have hv : (σ.view i).payments = σ.db.payments := by
          rw [view_of_pending hws]
          rfl
        rw [hv] at hkey
        obtain ⟨p, hp, hkey⟩ := List.any_eq_true.mp hkey
        refine ⟨p, hp, of_decide_eq_true hkey, ?_⟩
        rw [← hadm.asked]
        exact inv.unpaid_of_reserved hadm.stored hadm.reserved p hp
      · trivial
    · cases hc
  | attempt b => cases hc; trivial
  | charge b => cases hc; trivial
  | charging b => cases hc; trivial
  | commit b => cases hc; trivial
  | invalidate b => cases hc; trivial
  | finished r => cases hc

theorem refundBooking_explained {q : RefundRequest} {pc pc' : RefundPc} (hr : Reachable cat σ)
    (hs : σ.sessions[i]? = some ⟨began, .refund q pc⟩) (h : (Task.refund q pc).Explained cat σ.db)
    (hc : refundBooking cat σ i began q pc = some (e, pc')) : (Task.refund q pc').Explained cat σ.db := by
  have inv := inv_of_reachableBy hr
  cases pc with
  | lockBooking =>
    simp only [refundBooking] at hc
    split at hc <;> cases hc
    · exact fun hserver => by cases hserver
    · trivial
  | awaitBooking =>
    have hv := view_of_unwritten hr hs rfl
    simp only [refundBooking, hv] at hc
    split at hc
    · split at hc
      · cases hc
        exact fun hserver => by cases hserver
      · rename_i b hb
        split at hc
        · cases hc
          exact fun hserver => by cases hserver
        · split at hc <;> cases hc
          · exact fun hserver => by cases hserver
          · exact (valid_of_reachable hr b (booking?_eq_some hb).1).schedule
    · cases hc
  | checkDeparture b =>
    simp only [refundBooking] at hc
    split at hc
    · rename_i hnone
      have hsome : (cat.schedule? b.scheduleId).isSome = true := h
      rw [hnone] at hsome
      cases hsome
    · split at hc <;> cases hc
      · exact fun hserver => by cases hserver
      · trivial
  | findPayment b =>
    have hv := view_of_unwritten hr hs rfl
    have hadm : q.Admits cat σ.db b began := ready_of_reachable hr i _ hs
    simp only [refundBooking, hv] at hc
    split at hc <;> cases hc
    · rename_i herr
      exact absurd herr (scalarOneOrNone_ne_error (inv.length_success_le_one hadm.stored))
    · trivial
    · trivial
  | refund b ref => cases hc; trivial
  | refunding b ref => cases hc; trivial
  | record b y => cases hc; trivial
  | commit b => cases hc; trivial
  | invalidate b => cases hc; trivial
  | finished r => cases hc

theorem explained_of_raise (h : t.raise = some t') : t'.Explained cat d := by
  cases t <;> simp only [Task.raise, Option.ite_none_right_eq_some, Option.some.injEq] at h <;> obtain ⟨-, rfl⟩ := h <;>
    exact fun _ => rfl

theorem explained_of_reachable (hr : Reachable cat σ) : ∀ s ∈ σ.sessions, s.task.Explained cat σ.db := by
  refine hr.invariant (I := fun σ => ∀ s ∈ σ.sessions, s.task.Explained cat σ.db) ?_ ?_
  · rintro σ ⟨now, rfl⟩ s hs
    cases hs
  · intro σ a τ hr h _ hstep s' hs'
    have kept := kept_step (noDelete_of_reachable hr) hstep
    obtain ⟨j, hj⟩ := List.mem_iff_getElem?.mp hs'
    cases step_stepped hstep with
    | request r =>
      rcases session_of_request hj with hj | ⟨-, rfl⟩
      · exact h s' (List.mem_of_getElem? hj)
      · cases r <;> trivial
    | @run i c s e t hs hc m =>
      rcases session_of_goto hs hj with ⟨-, rfl⟩ | ⟨-, hj⟩
      · refine Task.Explained.mono ?_ kept
        have hexp := h s (List.mem_of_getElem? hs)
        obtain ⟨began, task⟩ := s
        cases task with
        | create q pc =>
          simp only [Session.statement, Option.map_eq_some_iff, Prod.mk.injEq, Prod.exists] at hc
          obtain ⟨e', pc', hc, -, rfl⟩ := hc
          exact createBooking_explained hr hs hexp hc
        | pay q pc =>
          simp only [Session.statement, Option.map_eq_some_iff, Prod.mk.injEq, Prod.exists] at hc
          obtain ⟨e', pc', hc, -, rfl⟩ := hc
          exact payBooking_explained hr hs hc
        | refund q pc =>
          simp only [Session.statement, Option.map_eq_some_iff, Prod.mk.injEq, Prod.exists] at hc
          obtain ⟨e', pc', hc, -, rfl⟩ := hc
          exact refundBooking_explained hr hs hexp hc
        | cleanup pc => cases pc <;> cases hc <;> trivial
      · exact (h s' (List.mem_of_getElem? hj)).mono kept
    | raise hs hraise m =>
      rcases session_of_goto hs hj with ⟨-, rfl⟩ | ⟨-, hj⟩
      · exact explained_of_raise hraise
      · exact h s' (List.mem_of_getElem? hj)
    | tick d => exact h s' (List.mem_of_getElem? hj)
    | updateConfig failureRate latencyMs => exact h s' (List.mem_of_getElem? hj)

/-- In every reachable state, a request that has ended in an internal server error, other than by a statement that
    failed for a reason outside the service, is a `create_booking` whose key or seat has a booking, whose user does
    not exist or has two journeys across the one asked for, or a `pay_booking` whose key has a payment for another
    booking. A refund or a cleanup pass does not end so. -/
theorem server_errors_explained {y : Exc} (hr : Reachable cat σ) (hs : s ∈ σ.sessions)
    (hserver : y.isServerError = true) (outside : y ≠ .databaseError) :
    (∀ q, s.task = .create q (.finished (.error y)) → q.Conflicts cat σ.db ∨ q.CrossesTwice cat σ.db) ∧
      (∀ q, s.task = .pay q (.finished (.error y)) → q.KeyTaken σ.db) ∧
      (∀ q, s.task ≠ .refund q (.finished (.error y))) ∧ s.task ≠ .cleanup (.finished (.error y)) := by
  have h := explained_of_reachable hr s hs
  refine ⟨fun q ht => ?_, fun q ht => ?_, fun q ht => ?_, fun ht => ?_⟩
  · rw [ht] at h
    cases y with
    | integrityError => exact Or.inl h
    | multipleResultsFound => exact Or.inr h
    | http x => cases hserver
    | attributeError => exact absurd (h rfl) outside
    | databaseError => exact absurd rfl outside
  · rw [ht] at h
    cases y with
    | integrityError => exact h
    | http x => cases hserver
    | multipleResultsFound => exact absurd (h rfl) outside
    | attributeError => exact absurd (h rfl) outside
    | databaseError => exact absurd rfl outside
  · rw [ht] at h
    exact outside (h hserver)
  · rw [ht] at h
    exact outside (h hserver)

/-- The second of two requests that race for a seat ends in an internal server error. -/
theorem server_errors_explained_race : ∃ (σ : State) (q : CreateRequest), q = ⟨2, 20, 40, 51, none⟩ ∧
    (q.Conflicts sampleCatalog σ.db ∨ q.CrossesTwice sampleCatalog σ.db) := by
  have hrun : (exec (step sampleCatalog) (.seeded 0) (.request (.create ⟨1, 20, 40, 50, none⟩) ::
      .request (.create ⟨2, 20, 40, 51, none⟩) :: runs 1 5 61 ++ runs 0 9 60 ++ runs 1 1 61)).any (fun σ : State =>
        decide (σ.sessions[1]? = some ⟨0, .create ⟨2, 20, 40, 51, none⟩ (.finished (.error .integrityError))⟩)) =
          true := by decide
  obtain ⟨σ, hσ, htest⟩ := reachable_of_run hrun
  have hs := List.mem_of_getElem? (of_decide_eq_true htest)
  exact ⟨σ, _, rfl, (server_errors_explained hσ hs rfl (by decide)).1 _ rfl⟩

end

end Railbook
