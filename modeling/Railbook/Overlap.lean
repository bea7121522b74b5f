import Railbook.Journeys
import Railbook.Sessions

/-! The decision of the overlap check. Its query can give several bookings, disjoint journeys that a long one spans, and
    its result is read with `scalar_one_or_none`. -/

namespace Railbook
open ReadCommitted Transition

/-- A reserved or confirmed booking of the user whose journey has a time in common with the one asked for. -/
def Booking.Conflicts (cat : Catalog) (q : CreateRequest) (b : Booking) : Prop :=
  b.userId = q.userId ∧ b.status.isActive = true ∧ cat.Intersect q.scheduleId b.scheduleId

/-- A new key, and a seat that is free or released, of a schedule and a seat that exist. -/
structure Asked (cat : Catalog) (d : Db) (q : CreateRequest) : Prop where
  unused : ∀ b ∈ d.bookings, b.idempotencyKey ≠ q.idempotencyKey
  free : ∀ b ∈ d.bookings, b.scheduleId = q.scheduleId → b.seatId = q.seatId → b.status.isActive = false
  schedule : (cat.schedule? q.scheduleId).isSome = true
  seat : (cat.seat? q.seatId).isSome = true

/-- The rejection of the overlap check. -/
def overlapError : Exc := httpError 409 "You have an overlapping journey"

/-- A run of the request on its own, from its first statement. -/
def RunsAlone (cat : Catalog) (σ : State) (q : CreateRequest) (pc : CreatePc) (τ : State) : Prop :=
  ∃ acts began, (∀ a ∈ acts, a.isQuiet = true) ∧ exec (step cat) (σ.alone [.create q]) acts = some τ ∧
    τ.sessions[0]? = some ⟨began, .create q pc⟩

/-- The request is rejected for an overlapping journey exactly when there is one, and nothing else is raised by
    the check. -/
structure OverlapExact (cat : Catalog) (σ : State) (q : CreateRequest) : Prop where
  rejected : ∀ τ r, RunsAlone cat σ q (.finished r) τ →
    (r = .error overlapError ↔ ∃ b ∈ σ.db.bookings, b.Conflicts cat q)
  check : ∀ υ τ existing c pc, RunsAlone cat σ q (.checkOverlap existing) υ → step cat υ (.run 0 c) = some τ →
    (τ.sessions[0]?).map (·.task) = some (.create q pc) → pc = .getSeat existing ∨ pc = .finished (.error overlapError)

/-- The user has one conflict at most. -/
def Db.OneConflict (cat : Catalog) (d : Db) (q : CreateRequest) : Prop :=
  ∀ b ∈ d.bookings, ∀ b' ∈ d.bookings, b.Conflicts cat q → b'.Conflicts cat q → b = b'

/-- The overlap query is the next statement. -/
def CreatePc.isCheck : CreatePc → Bool
  | checkOverlap _ => true
  | _ => false

/-- What the request knows about the conflicts at a program counter. -/
def CreatePc.Decided (cat : Catalog) (d : Db) (q : CreateRequest) : CreatePc → Prop
  | checkKey | lockSeat | checkOverlap _ => True
  | awaitSeat id => ∀ b ∈ d.bookings, b.id = id → b.status.isActive = false
  | finished r => r = .error overlapError ↔ ∃ b ∈ d.bookings, b.Conflicts cat q
  | _ => ¬∃ b ∈ d.bookings, b.Conflicts cat q

section
variable {cat : Catalog} {σ τ υ : State} {i : Sid} {began : Time} {q : CreateRequest} {c : Choice} {b b' : Booking}
  {d : Db} {e : Effect} {pc pc' : CreatePc} {schedule : Schedule} {existing : Option Booking}

/-! ### The query -/

/-- Two intervals with each a time have a time in common when each begins before the other ends. -/
theorem intersect_of_times {s s' : Schedule} (h : s.departureTime < s.arrivalTime)
    (h' : s'.departureTime < s'.arrivalTime) (hd : s'.departureTime < s.arrivalTime)
    (ha : s'.arrivalTime > s.departureTime) :
    ¬Disjoint s.interval s'.interval := by
  refine Set.not_disjoint_iff.mpr ⟨max s.departureTime s'.departureTime, ⟨le_max_left _ _, ?_⟩, ⟨le_max_right _ _, ?_⟩⟩
  · exact max_lt h hd
  · exact max_lt ha h'

theorem overlaps_iff_conflicts (times : ∀ s ∈ cat.schedules, s.departureTime < s.arrivalTime)
    (hs : cat.schedule? q.scheduleId = some schedule) : overlaps cat schedule q.userId b = true ↔
      b.Conflicts cat q := by
  constructor
  · intro h
    unfold overlaps at h
    split at h
    · rename_i other hother
      simp only [Bool.and_eq_true, beq_iff_eq, decide_eq_true_eq] at h
      obtain ⟨⟨hu, hact⟩, hd, ha⟩ := h
      obtain ⟨hmem, hid⟩ := find?_key_eq_some hs
      obtain ⟨hmem', hid'⟩ := find?_key_eq_some hother
      exact ⟨hu, hact, schedule, hmem, other, hmem', hid, hid', intersect_of_times (times _ hmem) (times _ hmem') hd ha⟩
    · rw [Bool.and_false] at h
      cases h
  · rintro ⟨hu, hact, hx⟩
    by_contra hn
    exact not_intersect_of_overlaps hs (Bool.eq_false_iff.mpr hn) hu hact hx

/-- No statement but the overlap check raises its rejection. -/
theorem check_of_overlapError (h : createBooking cat σ i began q c pc = some (e, .finished (.error overlapError))) :
    ∃ existing, pc = .checkOverlap existing := by
  cases pc with
  | checkOverlap existing => exact ⟨existing, rfl⟩
  | checkKey =>
    simp only [createBooking] at h
    split at h
    · rename_i x hx
      rw [scalarOneOrNone_error hx] at h
      cases h
    · cases h
    · cases h
  | lockSeat =>
    simp only [createBooking] at h
    split at h <;> cases h
  | awaitSeat id =>
    simp only [createBooking] at h
    split at h
    · split at h
      · cases h
      · split at h
        · simp [overlapError, httpError] at h
        · cases h
    · cases h
  | getSeat existing =>
    simp only [createBooking] at h
    split at h
    · simp [overlapError, httpError] at h
    · split at h
      · cases h
      · split at h <;> cases h
  | delete existing price =>
    simp only [createBooking] at h
    split at h <;> cases h
  | insertKey booking =>
    simp only [createBooking] at h
    split at h
    · split at h <;> cases h
    · cases h
  | insertSeat booking =>
    simp only [createBooking] at h
    split at h
    · split at h
      · cases h
      · split at h <;> cases h
    · cases h
  | audit booking => cases h
  | commit booking => cases h
  | invalidate booking => cases h
  | finished r => cases h

theorem exists_two_of_error {α : Type} {l : List α} {x : Exc} (key : l.Nodup) (h : scalarOneOrNone l = .error x) :
    ∃ a ∈ l, ∃ b ∈ l, a ≠ b := by
  rcases l with _ | ⟨a, _ | ⟨b, l⟩⟩
  · cases h
  · cases h
  · have hne : a ≠ b := fun hab => (List.nodup_cons.mp key).1 (hab ▸ List.mem_cons_self)
    exact ⟨a, List.mem_cons_self, b, List.mem_cons_of_mem _ List.mem_cons_self, hne⟩

/-! ### The request on its own -/

/-- What the overlap check makes of one conflict at most. -/
theorem check_decided (times : ∀ s ∈ cat.schedules, s.departureTime < s.arrivalTime)
    (hs : cat.schedule? q.scheduleId = some schedule) (key : d.bookings.Nodup) (one : d.OneConflict cat q)
    (hview : υ.view i = d) (h : createBooking cat υ i began q c (.checkOverlap existing) = some (e, pc)) :
    (pc = .getSeat existing ∧ ¬∃ b ∈ d.bookings, b.Conflicts cat q) ∨
      (pc = .finished (.error overlapError) ∧ ∃ b ∈ d.bookings, b.Conflicts cat q) := by
  simp only [createBooking, hs, hview] at h
  split at h
  · rename_i x hx
    obtain ⟨a, ha, b, hb, hne⟩ := exists_two_of_error (key.filter _) hx
    obtain ⟨ha, hac⟩ := List.mem_filter.mp ha
    obtain ⟨hb, hbc⟩ := List.mem_filter.mp hb
    exact absurd (one a ha b hb ((overlaps_iff_conflicts times hs).mp hac)
      ((overlaps_iff_conflicts times hs).mp hbc)) hne
  · rename_i b hb
    obtain ⟨hmem, hov⟩ := scalarOneOrNone_mem hb
    cases h
    exact Or.inr ⟨rfl, b, hmem, (overlaps_iff_conflicts times hs).mp hov⟩
  · rename_i hnone
    cases h
    refine Or.inl ⟨rfl, ?_⟩
    rintro ⟨b, hb, hc⟩
    rw [← overlaps_iff_conflicts times hs, scalarOneOrNone_none hnone b hb] at hc
    cases hc

/-- Before the check, a statement of a request with a new key for a free seat does not fail. -/
theorem not_failed_before_check {x : Exc} (asked : Asked cat d q)
    (hview : pc.inserted = none → pc.isOpen = true → υ.view i = d) (knows : pc.Decided cat d q)
    (h : createBooking cat υ i began q c pc = some (.close, .finished (.error x))) :
    pc ≠ .checkKey ∧ pc ≠ .lockSeat ∧ ∀ id, pc ≠ .awaitSeat id := by
  refine ⟨?_, ?_, fun id => ?_⟩ <;> rintro rfl
  · rw [create_unused (hview rfl rfl ▸ asked.unused)] at h
    cases h
  · simp only [createBooking] at h
    split at h <;> cases h
  · simp only [createBooking, hview rfl rfl] at h
    split at h
    · split at h
      · cases h
      · rename_i b hb
        obtain ⟨hmem, hid⟩ := booking?_eq_some hb
        rw [if_neg (by simp [knows b hmem hid])] at h
        cases h
    · cases h

/-- After the check, a statement that fails is not rejected for an overlap. -/
theorem failed_after_check {x : Exc} (hpc : pc.isCheck = false) (hno : ¬∃ b ∈ d.bookings, b.Conflicts cat q)
    (h : createBooking cat υ i began q c pc = some (e, .finished (.error x))) :
    (CreatePc.finished (.error x)).Decided cat d q := by
  refine iff_of_false (fun hx => ?_) hno
  cases hx
  obtain ⟨existing, rfl⟩ := check_of_overlapError h
  cases hpc

theorem createBooking_decided (times : ∀ s ∈ cat.schedules, s.departureTime < s.arrivalTime) (asked : Asked cat d q)
    (key : (d.bookings.map (·.id)).Nodup) (one : d.OneConflict cat q)
    (hview : pc.inserted = none → pc.isOpen = true → υ.view i = d) (knows : pc.Decided cat d q)
    (h : createBooking cat υ i began q c pc = some (e, pc')) : pc'.Decided cat d q := by
  obtain ⟨schedule, hs⟩ := Option.isSome_iff_exists.mp asked.schedule
  cases createBooking_move h with
  | found hb hkey => exact absurd hkey (asked.unused _ (hview rfl rfl ▸ hb))
  | unused hk => trivial
  | stored hb hsch hx =>
    intro b' hb' hid
    rw [hview rfl rfl] at hb
    rw [List.inj_on_of_nodup_map key hb' hb hid]
    exact asked.free _ hb hsch hx
  | vacant hv => trivial
  | gone hg => trivial
  | released free hb hst => trivial
  | disjoint hs' hov =>
    rcases check_decided times hs (List.Nodup.of_map _ key) one (hview rfl rfl) h with ⟨-, hno⟩ | ⟨hx, -⟩
    · exact hno
    · cases hx
  | priced compType hx => exact knows
  | replace compType => exact knows
  | deleted hp ha => exact knows
  | keyed fresh free hk => exact knows
  | seated free hx hu => exact knows
  | audited => exact knows
  | committed => exact knows
  | invalidated => exact iff_of_false (by simp) knows
  | failed x hx =>
    obtain ⟨hkey, hlock, hawait⟩ := not_failed_before_check asked hview knows h
    cases pc with
    | checkKey => exact absurd rfl hkey
    | lockSeat => exact absurd rfl hlock
    | awaitSeat id => exact absurd rfl (hawait id)
    | checkOverlap existing =>
      rcases check_decided times hs (List.Nodup.of_map _ key) one (hview rfl rfl) h with ⟨he, -⟩ | ⟨he, hyes⟩
      · cases he
      · cases he
        exact iff_of_true rfl hyes
    | finished r => cases hx
    | _ => exact failed_after_check rfl knows h

/-- Where a run of the request on its own has come to. -/
theorem RunsAlone.solo (hr : Reachable cat σ) (h : RunsAlone cat σ q pc τ) : τ.Solo cat σ.db q := by
  obtain ⟨acts, began, quiet, run, hs⟩ := h
  exact exec_invariant_of_mem (I := fun υ : State => υ.Solo cat σ.db q)
    (fun _ _ _ h quiet hstep => State.Solo.step h quiet hstep)
    (.start hr) quiet run

theorem State.Solo.view (h : υ.Solo cat d q) (hs : υ.sessions[0]? = some ⟨began, .create q pc⟩)
    (hpc : pc.inserted = none) (ho : pc.isOpen = true) : υ.view 0 = d := by
  obtain ⟨began', pc', hsessions, -, hdb⟩ := h.session
  rw [hsessions] at hs
  cases hs
  exact (h.own.view (by rw [hsessions]; rfl) hpc).trans (hdb ho)

theorem decided_step {a : Act} (times : ∀ s ∈ cat.schedules, s.departureTime < s.arrivalTime) (asked : Asked cat d q)
    (key : (d.bookings.map (·.id)).Nodup) (one : d.OneConflict cat q) (solo : υ.Solo cat d q) (quiet : a.isQuiet = true)
    (h : ∃ began pc, υ.sessions[0]? = some ⟨began, .create q pc⟩ ∧ pc.Decided cat d q) (hstep : step cat υ a = some τ) :
    ∃ began pc, τ.sessions[0]? = some ⟨began, .create q pc⟩ ∧ pc.Decided cat d q := by
  obtain ⟨began, pc, hs, knows⟩ := h
  rcases session_step hstep hs with hsame | ⟨x, e, t, rfl, hc, m, rfl⟩ | ⟨t, rfl, -, -⟩
  · exact ⟨began, pc, hsame, knows⟩
  · obtain ⟨⟨e', pc'⟩, hst, hx⟩ := Option.map_eq_some_iff.mp hc
    cases hx
    exact ⟨began, pc', goto_sessions_self hs, createBooking_decided times asked key one (solo.view hs) knows hst⟩
  · cases quiet

theorem RunsAlone.decided (hr : Reachable cat σ) (times : ∀ s ∈ cat.schedules, s.departureTime < s.arrivalTime)
    (asked : Asked cat σ.db q) (one : σ.db.OneConflict cat q) (h : RunsAlone cat σ q pc τ) : pc.Decided cat σ.db q := by
  obtain ⟨acts, began, quiet, run, hs⟩ := h
  obtain ⟨-, began', pc', hs', knows⟩ := exec_invariant_of_mem
    (I := fun υ : State => υ.Solo cat σ.db q ∧ ∃ began pc, υ.sessions[0]? = some ⟨began, .create q pc⟩ ∧
      pc.Decided cat σ.db q)
    (fun _ _ _ h quiet hstep => ⟨h.1.step quiet hstep,
      decided_step times asked (inv_of_reachableBy hr).ids_nodup one h.1 quiet h.2 hstep⟩)
    ⟨.start hr, σ.now, .checkKey, rfl, trivial⟩ quiet run
  cases Option.some.inj (hs'.symm.trans hs)
  exact knows

theorem RunsAlone.next (h : RunsAlone cat σ q pc υ)
    (hst : ∀ began, createBooking cat υ 0 began q c pc = some (e, pc')) :
    ∃ τ, step cat υ (.run 0 c) = some τ ∧ (τ.sessions[0]?).map (·.task) = some (.create q pc') ∧
      RunsAlone cat σ q pc' τ := by
  obtain ⟨acts, began, quiet, run, hs⟩ := h
  have hc : Session.statement cat υ 0 ⟨began, .create q pc⟩ c = some (e, .create q pc') := by
    simp only [Session.statement, hst, Option.map_some]
  refine ⟨_, step_run hs hc, by rw [goto_sessions_self hs]; rfl, acts ++ [.run 0 c], began, ?_, ?_,
    goto_sessions_self hs⟩
  · intro a ha
    rcases List.mem_append.mp ha with ha | ha
    · exact quiet a ha
    · rw [List.mem_singleton.mp ha]
      rfl
  · rw [exec_append, run, Option.bind_some, exec_cons, step_run hs hc]
    rfl

theorem RunsAlone.view (hr : Reachable cat σ) (h : RunsAlone cat σ q pc υ) (hpc : pc.inserted = none)
    (ho : pc.isOpen = true) :
    υ.view 0 = σ.db := by
  have solo := h.solo hr
  obtain ⟨acts, began, -, -, hs⟩ := h
  exact solo.view hs hpc ho

theorem exists_check (hr : Reachable cat σ) (asked : Asked cat σ.db q) :
    ∃ existing υ, RunsAlone cat σ q (.checkOverlap existing) υ := by
  have start : RunsAlone cat σ q .checkKey (σ.alone [.create q]) := ⟨[], σ.now, nofun, rfl, rfl⟩
  obtain ⟨υ₁, -, -, h₁⟩ := start.next (c := ⟨0, 0, 0⟩) fun began =>
    create_unused (by rw [start.view hr rfl rfl]; exact asked.unused)
  have hview₁ : υ₁.view 0 = σ.db := h₁.view hr rfl rfl
  cases hfind : σ.db.bookings.find? fun b => b.scheduleId = q.scheduleId ∧ b.seatId = q.seatId with
  | none =>
    obtain ⟨υ₂, -, -, h₂⟩ := h₁.next (c := ⟨0, 0, 0⟩) fun began =>
      create_vacant (by simpa [hview₁, List.find?_eq_none] using hfind)
    exact ⟨none, υ₂, h₂⟩
  | some b =>
    -- The row is released, and nobody else is there to lock it.
    obtain ⟨υ₂, -, -, h₂⟩ := h₁.next (c := ⟨0, 0, 0⟩) fun began => create_stored (by rw [hview₁]; exact hfind)
    have hb : b ∈ σ.db.bookings := List.mem_of_find?_eq_some hfind
    have hpair : b.scheduleId = q.scheduleId ∧ b.seatId = q.seatId := by simpa using List.find?_some hfind
    have hrow : (υ₂.view 0).booking? b.id = some b := by
      rw [h₂.view hr rfl rfl]
      exact (inv_of_reachableBy hr).booking?_eq hb
    have solo := h₂.solo hr
    have hfree : υ₂.store.Free 0 (.bookingRow b.id) := by
      obtain ⟨began, pc, hsessions, -⟩ := solo.session
      exact solo.inv.free_of_length (by rw [hsessions]; rfl) _
    have hst (began : Time) : createBooking cat υ₂ 0 began q ⟨0, 0, 0⟩ (.awaitSeat b.id) =
        some (.lock [.bookingRow b.id], .checkOverlap (some b)) := by
      simp only [createBooking, hfree, if_true, hrow, asked.free b hb hpair.1 hpair.2, Bool.false_eq_true, if_false]
    obtain ⟨υ₃, -, -, h₃⟩ := h₂.next hst
    exact ⟨some b, υ₃, h₃⟩

/-- Several conflicts are an exception of `scalar_one_or_none`. -/
theorem check_multiple (times : ∀ s ∈ cat.schedules, s.departureTime < s.arrivalTime)
    (hs : cat.schedule? q.scheduleId = some schedule) (hview : υ.view i = d) (hb : b ∈ d.bookings)
    (hb' : b' ∈ d.bookings) (hc : b.Conflicts cat q) (hc' : b'.Conflicts cat q) (hne : b ≠ b') :
    createBooking cat υ i began q c (.checkOverlap existing) =
      some (.close, .finished (.error .multipleResultsFound)) := by
  have mem {b : Booking} (hb : b ∈ d.bookings) (hc : b.Conflicts cat q) : b ∈ d.bookings.filter
    (overlaps cat schedule q.userId) :=
    List.mem_filter.mpr ⟨hb, (overlaps_iff_conflicts times hs).mpr hc⟩
  have herr : scalarOneOrNone (d.bookings.filter (overlaps cat schedule q.userId)) = .error .multipleResultsFound := by
    have hmem := mem hb hc
    have hmem' := mem hb' hc'
    generalize d.bookings.filter (overlaps cat schedule q.userId) = l at hmem hmem'
    rcases l with _ | ⟨x, _ | ⟨y, l⟩⟩
    · cases hmem
    · exact absurd ((List.mem_singleton.mp hmem).trans (List.mem_singleton.mp hmem').symm) hne
    · rfl
  simp only [createBooking, hs, hview, herr]

end

/-- A request, in any state that the service reaches: its overlap check decides exactly when the user has one conflict
    at most. -/
theorem overlap_exact_iff {cat : Catalog} {σ : State} {q : CreateRequest} (hr : Reachable cat σ)
    (times : ∀ s ∈ cat.schedules, s.departureTime < s.arrivalTime) (asked : Asked cat σ.db q) :
    OverlapExact cat σ q ↔ σ.db.OneConflict cat q := by
  obtain ⟨schedule, hs⟩ := Option.isSome_iff_exists.mp asked.schedule
  constructor
  · intro h b hb b' hb' hc hc'
    by_contra hne
    obtain ⟨existing, υ, hυ⟩ := exists_check hr asked
    obtain ⟨τ, hstep, htask, -⟩ := hυ.next (c := ⟨0, 0, 0⟩) fun began =>
      check_multiple times hs (hυ.view hr rfl rfl) hb hb' hc hc' hne
    rcases h.check υ τ existing _ _ hυ hstep htask with he | he
    · cases he
    · cases he
  · intro one
    constructor
    case rejected => exact fun τ r h => h.decided hr times asked one
    case check =>
      intro υ τ existing c pc hυ hstep htask
      have hview := hυ.view hr rfl rfl
      obtain ⟨acts, began, -, -, hs'⟩ := hυ
      cases step_stepped hstep with
      | @run i c s e t hsession hst m =>
        cases Option.some.inj (hsession.symm.trans hs')
        obtain ⟨⟨e', pc'⟩, hcreate, hx⟩ := Option.map_eq_some_iff.mp hst
        cases hx
        rw [goto_sessions_self hs'] at htask
        cases htask
        rcases check_decided times hs (List.Nodup.of_map _ (inv_of_reachableBy hr).ids_nodup) one hview hcreate with
          ⟨h, -⟩ | ⟨h, -⟩
        · exact Or.inl h
        · exact Or.inr h

theorem runsAlone_of_runs {cat : Catalog} {σ τ : State} {q : CreateRequest} {pc : CreatePc} {began : Time}
    {n : Nat} {uuid : Uuid} (run : exec (step cat) (σ.alone [.create q]) (runs 0 n uuid) = some τ)
    (hs : τ.sessions[0]? = some ⟨began, .create q pc⟩) :
    RunsAlone cat σ q pc τ :=
  ⟨runs 0 n uuid, began, fun a ha => by rw [List.eq_of_mem_replicate ha]; rfl, run, hs⟩

/-- User 1, who has booked a journey from 6 to 12, asks for one from 10 to 16. -/
theorem overlap_exact_one : ∃ σ, Reachable sampleCatalog σ ∧
    (∃ b ∈ σ.db.bookings, b.Conflicts sampleCatalog ⟨1, 21, 40, 51, none⟩) ∧
    OverlapExact sampleCatalog σ ⟨1, 21, 40, 51, none⟩ := by
  have times : ∀ s ∈ sampleCatalog.schedules, s.departureTime < s.arrivalTime := by decide
  have hrun : (exec (step sampleCatalog) (.seeded 0) (.request (.create ⟨1, 20, 40, 50, none⟩) :: runs 0 9 60)).any
      (fun σ : State => decide (∀ b ∈ σ.db.bookings, b.idempotencyKey ≠ 51 ∧ b.scheduleId ≠ 21) &&
        decide (∀ b ∈ σ.db.bookings, ∀ b' ∈ σ.db.bookings, b = b') &&
        decide (∃ b ∈ σ.db.bookings, overlaps sampleCatalog ⟨21, 10, timedeltaHours 10,
          timedeltaHours 16⟩ 1 b = true)) = true := by
    decide
  obtain ⟨σ, hσ, htest⟩ := reachable_of_run hrun
  simp only [Bool.and_eq_true, decide_eq_true_eq] at htest
  obtain ⟨⟨hnew, hone⟩, b, hb, hov⟩ := htest
  have asked : Asked sampleCatalog σ.db ⟨1, 21, 40, 51, none⟩ :=
    ⟨fun b hb => (hnew b hb).1, fun b hb h => absurd h (hnew b hb).2, by decide, by decide⟩
  exact ⟨σ, hσ, ⟨b, hb, (overlaps_iff_conflicts times (by decide)).mp hov⟩,
    (overlap_exact_iff hσ times asked).mpr fun b hb b' hb' _ _ => hone b hb b' hb'⟩

/-- Two journeys, and one that spans both. -/
def longCatalog : Catalog := { sampleCatalog with
  schedules := [⟨20, 10, timedeltaHours 6, timedeltaHours 9⟩, ⟨21, 10, timedeltaHours 12, timedeltaHours 15⟩,
    ⟨22, 10, timedeltaHours 5, timedeltaHours 18⟩]
  schedulesKey := by decide
  schedulesTrain := by decide }

/-- User 1 has booked both journeys, and the request for the long one ends with an exception that is not handled. -/
theorem overlap_unhandled : ¬∀ (cat : Catalog) (σ : State) (q : CreateRequest), Reachable cat σ →
    (∀ s ∈ cat.schedules, s.departureTime < s.arrivalTime) → Asked cat σ.db q → OverlapExact cat σ q := by
  intro h
  have times : ∀ s ∈ longCatalog.schedules, s.departureTime < s.arrivalTime := by decide
  have hrun : (exec (step longCatalog) (.seeded 0) (.request (.create ⟨1, 20, 40, 50, none⟩) :: runs 0 9 60 ++
      .request (.create ⟨1, 21, 40, 51, none⟩) :: runs 1 9 61)).any (fun σ : State =>
        decide (∀ b ∈ σ.db.bookings, b.idempotencyKey ≠ 52 ∧ b.scheduleId ≠ 22) &&
        decide (∃ b ∈ σ.db.bookings, overlaps longCatalog ⟨22, 10, timedeltaHours 5, timedeltaHours 18⟩ 1 b = true) &&
        (exec (step longCatalog) (σ.alone [.create ⟨1, 22, 40, 52, none⟩]) (runs 0 3 0)).any (fun τ : State =>
          decide (τ.sessions[0]? = some ⟨0, .create ⟨1, 22, 40, 52,
            none⟩ (.finished (.error .multipleResultsFound))⟩))) = true := by
    decide
  obtain ⟨σ, hσ, htest⟩ := reachable_of_run hrun
  simp only [Bool.and_eq_true, decide_eq_true_eq, Option.any_eq_true] at htest
  obtain ⟨⟨hnew, b, hb, hov⟩, τ, hτ, hend⟩ := htest
  have asked : Asked longCatalog σ.db ⟨1, 22, 40, 52, none⟩ :=
    ⟨fun b hb => (hnew b hb).1, fun b hb h => absurd h (hnew b hb).2, by decide, by decide⟩
  have hexact := (h longCatalog σ _ hσ times asked).rejected τ _ (runsAlone_of_runs hτ hend)
  cases hexact.mpr ⟨b, hb, (overlaps_iff_conflicts times (by decide)).mp hov⟩

end Railbook
