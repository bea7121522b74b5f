import Railbook.Cleanup
import Railbook.Times
import Railbook.Library.Table

/-! The checker that runs after a load test (`loadtest/verify_integrity.py`). Its queries are about the committed
    tables, whatever requests are still running. -/

namespace Railbook
open ReadCommitted Transition

/-- `check_no_double_bookings`: the groups of active bookings with more than one member. -/
def checkNoDoubleBookings (d : Db) : Bool :=
  let active := d.bookings.filter (·.status.isActive)
  let groups := (active.map fun b => (b.scheduleId, b.seatId)).dedup
  (groups.filter fun g => 1 < active.countP fun b => (b.scheduleId, b.seatId) = g).isEmpty

/-- `check_audit_trail_completeness`. -/
def checkAuditTrailCompleteness (d : Db) : Bool :=
  ((Table.leftJoin (fun (b : Booking) (a : AuditTrail) => a.bookingId == b.id) d.bookings d.auditTrail).filter
    (·.2.isNone)).isEmpty

/-- `check_no_stale_reservations`, with the clock of the database. -/
def checkNoStaleReservations (d : Db) (now : Time) : Bool :=
  let count := d.bookings.countP fun b => b.status = .reserved ∧ b.expiresAt.any (· < now - timedeltaMinutes 2)
  !decide (0 < count)

/-- `check_payment_consistency`. -/
def checkPaymentConsistency (d : Db) : Bool :=
  ((Table.leftJoin (fun (b : Booking) (p : Payment) => p.bookingId == b.id && p.status == .success) d.bookings
    d.payments).filter
    fun row => row.1.status = .confirmed ∧ row.2.isNone).isEmpty

/-- The exit code of `main`. -/
def verifyIntegrity (d : Db) (now : Time) : Nat :=
  let results := [checkNoDoubleBookings d, checkAuditTrailCompleteness d, checkNoStaleReservations d now,
    checkPaymentConsistency d]
  if results.all id then 0 else 1

section
variable {cat : Catalog} {σ τ υ υ₁ : State} {d : Db} {now began : Time} {b : Booking} {i : Sid}

/-! ### The checks -/

theorem checkNoDoubleBookings_of_inv (inv : Inv σ) : checkNoDoubleBookings σ.db = true := by
  simp only [checkNoDoubleBookings, List.isEmpty_iff, List.filter_eq_nil_iff, decide_eq_true_eq, Nat.not_lt]
  intro g _
  have hle : (σ.db.holders (.bookingSeat g.1 g.2)).length ≤ 1 := (inv.holders _).1
  rw [Db.holders, List.length_map, ← List.countP_eq_length_filter] at hle
  refine Nat.le_trans (List.Sublist.countP_le List.filter_sublist)
    (Nat.le_trans (List.countP_mono_left fun b _ hb => ?_) hle)
  obtain rfl : (b.scheduleId, b.seatId) = g := by simpa using hb
  simp [Booking.resources]

theorem checkAuditTrailCompleteness_of_inv (inv : Inv σ) : checkAuditTrailCompleteness σ.db = true := by
  rw [checkAuditTrailCompleteness, List.isEmpty_iff, List.filter_eq_nil_iff]
  rintro ⟨b, a⟩ hrow hnone
  cases a with
  | some a => cases hnone
  | none =>
    obtain ⟨hb, hno⟩ := Table.mem_leftJoin_none.mp hrow
    obtain ⟨ph, hph, hc⟩ := inv.conforms_of_mem hb
    have hne : (σ.db.ledger b.id).auditTrail ≠ [] := hc.trail_ne_nil (by rintro rfl; simp [Phase.committed] at hph)
    obtain ⟨a, ha⟩ := List.exists_mem_of_ne_nil _ hne
    obtain ⟨ha, hid⟩ := mem_ledger_auditTrail.mp ha
    exact absurd hid (by simpa using hno a ha)

theorem checkPaymentConsistency_of_inv (inv : Inv σ) : checkPaymentConsistency σ.db = true := by
  rw [checkPaymentConsistency, List.isEmpty_iff, List.filter_eq_nil_iff]
  rintro ⟨b, p⟩ hrow hcond
  obtain ⟨hst, hnone⟩ := of_decide_eq_true hcond
  cases p with
  | some p => cases hnone
  | none =>
    obtain ⟨hb, hno⟩ := Table.mem_leftJoin_none.mp hrow
    obtain ⟨ph, hph, hc⟩ := inv.conforms_of_mem hb
    cases phase_of_confirmed hc hph hst
    obtain ⟨p, hp, hpst, -, -⟩ := hc.payments
    obtain ⟨hmem, hid⟩ := mem_ledger_payments.mp (hp ▸ List.mem_singleton_self p)
    have hfalse := hno p hmem
    simp [hid, hpst] at hfalse

theorem checkNoStaleReservations_iff : checkNoStaleReservations d now = true ↔
    ∀ b ∈ d.bookings, b.status = .reserved → ∀ t, b.expiresAt = some t → now ≤ t + timedeltaMinutes 2 := by
  simp only [checkNoStaleReservations, Bool.not_eq_true', decide_eq_false_iff_not, List.countP_pos_iff,
    decide_eq_true_eq, not_exists, not_and]
  refine forall₂_congr fun b _ => forall_congr' fun _ => ?_
  cases b.expiresAt with
  | none => simp
  | some t =>
    simp only [Option.any_some, decide_eq_true_eq, Int.not_lt, Option.some.injEq, forall_eq']
    exact ⟨Int.le_add_of_sub_right_le, Int.sub_right_le_of_le_add⟩

/-- In every reachable state the checker fails on nothing but a reservation that expired more than two minutes ago:
    the exit code is that of its third check alone. -/
theorem integrity_verified (hr : Reachable cat σ) (now : Time) :
    checkNoDoubleBookings σ.db = true ∧ checkAuditTrailCompleteness σ.db = true ∧ checkPaymentConsistency σ.db = true ∧
      (verifyIntegrity σ.db now = 0 ↔
        ∀ b ∈ σ.db.bookings, b.status = .reserved → ∀ t, b.expiresAt = some t → now ≤ t + timedeltaMinutes 2) := by
  have inv := inv_of_reachableBy hr
  have hbookings : checkNoDoubleBookings σ.db = true := checkNoDoubleBookings_of_inv inv
  have haudit := checkAuditTrailCompleteness_of_inv inv
  have hpayments := checkPaymentConsistency_of_inv inv
  refine ⟨hbookings, haudit, hpayments, ?_⟩
  rw [← checkNoStaleReservations_iff]
  simp [verifyIntegrity, hbookings, haudit, hpayments]

/-- A payment keeps an expired reservation from the cleanup loop. -/
theorem integrity_verified_stale : ∃ σ : State, checkPaymentConsistency σ.db = true ∧
    verifyIntegrity σ.db σ.now ≠ 0 := by
  have hrun : (exec (step sampleCatalog) (.seeded 0) (.request (.create ⟨1, 20, 40, 50, none⟩) :: runs 0 9 60 ++
      .request (.pay ⟨60, 1, 70, none⟩) :: runs 1 2 80 ++ .tick 500000000 :: .request .cleanup :: runs 2 3 0)).any
        (fun σ : State =>
        decide (σ.now = 500000000) && σ.db.bookings.any fun b => b.status = .reserved ∧
          b.expiresAt = some 300000000) = true := by
    decide
  obtain ⟨σ, hσ, htest⟩ := reachable_of_run hrun
  simp only [Bool.and_eq_true, decide_eq_true_eq, List.any_eq_true] at htest
  obtain ⟨hnow, b, hb, hst, hexp⟩ := htest
  obtain ⟨-, -, hpayments, hexit⟩ := integrity_verified hσ σ.now
  refine ⟨σ, hpayments, fun h => ?_⟩
  have hle := hexit.mp h b hb hst _ hexp
  rw [hnow] at hle
  exact absurd hle (by decide)

/-! ### Stale reservations -/

/-- A booking that is still reserved later was reserved before. -/
theorem reserved_of_exec {acts : List Act} {b₀ : Booking} (hr : Reachable cat σ) (run : exec (step cat) σ acts = some τ)
    (hb₀ : b₀ ∈ σ.db.bookings) (hb : b ∈ τ.db.bookings) (hid : b₀.id = b.id) (hst : b.status = .reserved) :
    b₀.fixed = b.fixed ∧ b₀.status = .reserved := by
  have hinv := inv_of_reachableBy (reachable_exec hr run)
  have kept := kept_exec hr run
  obtain ⟨b', hb', hfix⟩ := kept.bookings b₀ hb₀
  obtain rfl : b' = b := List.inj_on_of_nodup_map hinv.ids_nodup hb' hb ((Booking.id_of_fixed hfix).trans hid)
  obtain ⟨ph₀, hph₀, hc₀⟩ := (inv_of_reachableBy hr).conforms_of_mem hb₀
  obtain ⟨ph, hph, hc⟩ := hinv.conforms_of_mem hb'
  cases phase_of_reserved hc hph hst
  rw [← hid] at hc
  have hleads := kept.leads hc₀ hph₀ hc hph hfix
  refine ⟨hfix.symm, ?_⟩
  rw [hc₀.status]
  cases ph₀ <;> simp [Phase.leads, Phase.committed] at hleads hph₀ ⊢
  rfl

/-- A pass that has ended without an exception has committed. -/
theorem exists_commit_of_pass {c : Choice} {acts : List Act} (hs : υ.sessions[i]? = some ⟨began, .cleanup .scan⟩)
    (scan : step cat υ (.run i c) = some υ₁) (run : exec (step cat) υ₁ acts = some τ)
    (done : τ.sessions[i]? = some ⟨began, .cleanup (.finished (.ok ()))⟩) :
    ∃ pre c' es post u v, exec (step cat) υ₁ pre = some u ∧ u.sessions[i]? = some ⟨began, .cleanup (.commit es)⟩ ∧
      step cat u (.run i c') = some v ∧ exec (step cat) v post = some τ := by
  have hflush : υ₁.sessions[i]? ≠ some ⟨began, .cleanup (.finished (.ok ()))⟩ := by
    cases step_stepped scan with
    | run hs' hc m =>
      cases hs.symm.trans hs'
      cases hc
      rw [goto_sessions_self hs]
      simp
  obtain ⟨pre, a, post, u, v, -, hpre, hnot, hstep, hend, hpost⟩ :=
    exists_step_begins (I := fun σ : State => σ.sessions[i]? = some ⟨began, .cleanup (.finished (.ok ()))⟩)
      run hflush done
  cases step_stepped hstep with
  | request r =>
    rcases session_of_request hend with hold | ⟨-, hnew⟩
    · exact absurd hold hnot
    · cases r <;> cases hnew
  | run hs' hc m =>
    rcases session_of_goto hs' hend with ⟨rfl, heq⟩ | ⟨-, hold⟩
    · cases m with
      | cleanup m =>
        cases heq
        cases m with
        | committed => exact ⟨pre, _, _, post, u, _, hpre, hs', hstep, hpost⟩
      | _ => cases heq
    · exact absurd hold hnot
  | raise hs' hraise m =>
    rcases session_of_goto hs' hend with ⟨rfl, heq⟩ | ⟨-, hold⟩
    · cases m with
      | cleanup m =>
        cases heq
        cases m
      | _ => cases heq
    · exact absurd hold hnot
  | tick d => exact absurd hend hnot
  | updateConfig failureRate latencyMs => exact absurd hend hnot

/-- A pass cancels what it finds expired and unlocked. -/
theorem cancelled_of_unlocked {c : Choice} {acts : List Act} {b₀ : Booking} (hr : Reachable cat υ)
    (hs : υ.sessions[i]? = some ⟨began, .cleanup .scan⟩) (scan : step cat υ (.run i c) = some υ₁)
    (run : exec (step cat) υ₁ acts = some τ) (done : τ.sessions[i]? = some ⟨began, .cleanup (.finished (.ok ()))⟩)
    (hb₀ : b₀ ∈ υ.unlocked i began) (hb : b ∈ τ.db.bookings) (hid : b₀.id = b.id) : b.status ≠ .reserved := by
  intro hst
  obtain ⟨pre, c', es, post, u, v, hpre, hu, commit, hpost⟩ := exists_commit_of_pass hs scan run done
  obtain ⟨hall, n, hv⟩ := commit_scanned hr hs scan hpre hu commit
  have hcancelled : { b₀ with status := .cancelled, cancelledAt := some began } ∈ v.db.bookings := by
    rw [hv]
    exact List.mem_map.mpr ⟨b₀, hall b₀ hb₀, if_pos hb₀⟩
  have hr' : Reachable cat v := (reachable_exec (hr.next trivial scan) hpre).next trivial commit
  cases (reserved_of_exec hr' hpost hcancelled hb hid hst).2

/-- A row that a session cannot take is owned by another one. -/
theorem Inv.holder (inv : Inv υ) {r : Resource} (h : ¬υ.store.Free i r) :
    ∃ j s, j ≠ i ∧ υ.sessions[j]? = some s ∧ r ∈ s.task.owned := by
  obtain ⟨hnone, hother⟩ := not_or.mp h
  obtain ⟨j, ho⟩ := Option.ne_none_iff_exists'.mp hnone
  obtain ⟨s, hs, hown⟩ := inv.session_of_owner ho
  exact ⟨j, s, fun e => hother (e ▸ ho), hs, hown⟩

/-- What a pass of the cleanup loop that has ended leaves behind: a reservation that had expired when the pass began,
    and is still there, was not committed yet when the pass looked, or another session held its row. -/
theorem stale_was_held {c : Choice} {acts : List Act} (hr : Reachable cat υ)
    (hs : υ.sessions[i]? = some ⟨began, .cleanup .scan⟩) (scan : step cat υ (.run i c) = some υ₁)
    (run : exec (step cat) υ₁ acts = some τ) (done : τ.sessions[i]? = some ⟨began, .cleanup (.finished (.ok ()))⟩)
    (hb : b ∈ τ.db.bookings) (hst : b.status = .reserved) (hexp : b.expiresAt.any (· < began) = true) :
    (∀ b₀ ∈ υ.db.bookings, b₀.id ≠ b.id) ∨ ∃ j s, j ≠ i ∧ υ.sessions[j]? = some s ∧
      .bookingRow b.id ∈ s.task.owned := by
  by_cases hstored : ∃ b₀ ∈ υ.db.bookings, b₀.id = b.id
  swap
  · exact Or.inl fun b₀ hb₀ hid => hstored ⟨b₀, hb₀, hid⟩
  obtain ⟨b₀, hb₀, hid⟩ := hstored
  have whole : exec (step cat) υ (.run i c :: acts) = some τ := by rw [exec_cons, scan, Option.bind_some, run]
  obtain ⟨hfix, hst₀⟩ := reserved_of_exec hr whole hb₀ hb hid hst
  by_cases free : υ.store.Free i (.bookingRow b.id)
  · have hexp₀ : b₀.expiresAt.any (· < began) = true := by rw [Booking.expiresAt_of_fixed hfix]; exact hexp
    have hunlocked : b₀ ∈ υ.unlocked i began :=
      List.mem_filter.mpr ⟨hb₀, decide_eq_true ⟨decide_eq_true ⟨hst₀, hexp₀⟩, hid ▸ free⟩⟩
    exact absurd hst (cancelled_of_unlocked hr hs scan run done hunlocked hb hid)
  · exact Or.inr ((inv_of_reachableBy hr).holder free)

end

end Railbook
