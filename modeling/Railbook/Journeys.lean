import Railbook.Growth
import Mathlib

/-! Journeys of one user (`docs/architecture/CONCURRENCY.md`, problem 2). The overlap check is a plain read, so it says
    something about the tables only until another `create_booking` of the same user commits. -/

namespace Railbook
open ReadCommitted Transition

/-- The interval `[departure_time, arrival_time)`. -/
def Schedule.interval (s : Schedule) : Set Time := Set.Ico s.departureTime s.arrivalTime

/-- The intervals of two schedules have a time in common. -/
def Catalog.Intersect (cat : Catalog) (s s' : Uuid) : Prop :=
  ∃ a ∈ cat.schedules, ∃ b ∈ cat.schedules, a.id = s ∧ b.id = s' ∧ ¬Disjoint a.interval b.interval

/-- No user owns two bookings that are reserved or confirmed and whose journeys intersect. -/
def Db.JourneysDisjoint (cat : Catalog) (d : Db) : Prop :=
  ∀ b ∈ d.bookings, ∀ b' ∈ d.bookings, b.id ≠ b'.id → b.userId = b'.userId → b.status.isActive = true →
    b'.status.isActive = true → ¬cat.Intersect b.scheduleId b'.scheduleId

/-- The program counters past the overlap check, up to the commit. -/
def CreatePc.isChecked : CreatePc → Bool
  | getSeat _ | delete _ _ | insertKey _ | insertSeat _ | audit _ | commit _ => true
  | _ => false

/-- The session has passed its overlap check for the user of `q`, and for a schedule that intersects that of `q`. -/
def Session.RacesWith (cat : Catalog) (q : CreateRequest) (s : Session) : Prop :=
  match s.task with
  | .create q' pc => pc.isChecked = true ∧ q'.userId = q.userId ∧ cat.Intersect q'.scheduleId q.scheduleId
  | _ => False

/-- The request of a `create_booking` that commits next. -/
def Task.committing : Task → Option CreateRequest
  | .create q (.commit _) => some q
  | _ => none

/-- When `create_booking` commits, no other one for the same user and an intersecting schedule is past its check. -/
def CommitsUnraced (cat : Catalog) (σ : State) : Act → Prop
  | .run i _ => ∀ q ∈ (σ.sessions[i]?).bind (·.task.committing), ∀ (j : Sid) s, σ.sessions[j]? = some s → j ≠ i →
    ¬s.RacesWith cat q
  | _ => True

/-- The journeys are disjoint, and every session past its overlap check would still pass it. -/
structure State.JourneysOk (cat : Catalog) (σ : State) : Prop where
  disjoint : σ.db.JourneysDisjoint cat
  checked : ∀ (i : Sid) began q pc, σ.sessions[i]? = some ⟨began, .create q pc⟩ → pc.isChecked = true →
    ∀ b ∈ σ.db.bookings, b.userId = q.userId → b.status.isActive = true → ¬cat.Intersect q.scheduleId b.scheduleId

section
variable {cat : Catalog} {σ τ : State} {i j : Sid} {began : Time} {s : Session} {t : Task} {e : Effect} {b b' : Booking}
  {q : CreateRequest}

theorem Catalog.Intersect.symm {x y : Uuid} (h : cat.Intersect x y) : cat.Intersect y x := by
  obtain ⟨a, ha, b, hb, hx, hy, hd⟩ := h
  exact ⟨b, hb, a, ha, hy, hx, fun hd' => hd hd'.symm⟩

/-- Two intervals with a time in common satisfy the where clause of the overlap query. -/
theorem times_of_intersect {a b : Schedule} (h : ¬Disjoint a.interval b.interval) :
    b.departureTime < a.arrivalTime ∧ b.arrivalTime > a.departureTime := by
  obtain ⟨t, ⟨hd, ha⟩, hd', ha'⟩ := Set.not_disjoint_iff.mp h
  exact ⟨lt_of_le_of_lt hd' ha, lt_of_le_of_lt hd ha'⟩

theorem not_intersect_of_overlaps {schedule : Schedule} (hs : cat.schedule? q.scheduleId = some schedule)
    (h : overlaps cat schedule q.userId b = false) (hu : b.userId = q.userId) (hact : b.status.isActive = true) :
    ¬cat.Intersect q.scheduleId b.scheduleId := by
  rintro ⟨x, hx, y, hy, hxid, hyid, hd⟩
  rw [← hxid, Catalog.schedule?_of_mem hx, Option.some.injEq] at hs
  subst hs
  obtain ⟨hdep, harr⟩ := times_of_intersect hd
  rw [overlaps, ← hyid, Catalog.schedule?_of_mem hy] at h
  simp [hu, hact, hdep, harr] at h

/-- A statement that leaves a session past its overlap check changes no table, and the session would still pass it. -/
theorem State.JourneysOk.create {pc pc' : CreatePc} (h : σ.JourneysOk cat) (own : σ.InsertsOwn)
    (hs : σ.sessions[i]? = some ⟨began, .create q pc⟩) (m : CreateMove cat σ i began q pc e pc')
    (hpc : pc'.isChecked = true) :
    (σ.perform i e).db = σ.db ∧ ∀ b ∈ σ.db.bookings, b.userId = q.userId → b.status.isActive = true →
      ¬cat.Intersect q.scheduleId b.scheduleId := by
  have checked := h.checked i began q pc hs
  cases m with
  | @disjoint existing schedule hsch hov =>
    refine ⟨rfl, fun b hb hu hact => not_intersect_of_overlaps hsch (hov b ?_) hu hact⟩
    rwa [own.view hs rfl]
  | priced compType => exact ⟨rfl, checked rfl⟩
  | replace compType => exact ⟨rfl, checked rfl⟩
  | deleted hp ha => exact ⟨rfl, checked rfl⟩
  | keyed fresh free hk => exact ⟨rfl, checked rfl⟩
  | seated free hx => exact ⟨rfl, checked rfl⟩
  | audited => exact ⟨rfl, checked rfl⟩
  | _ => cases hpc

/-- Where an active booking that is new comes from, for the sessions that it could surprise. -/
theorem not_intersect_after {a : Act} (h : σ.JourneysOk cat) (hr : Reachable cat σ) (allow : CommitsUnraced cat σ a)
    (hstep : step cat σ a = some τ) {pc : CreatePc} (hj : σ.sessions[j]? = some ⟨began, .create q pc⟩)
    (hpc : pc.isChecked = true) (hne : ∀ x, a = .run j x → τ.db = σ.db) (hb : b ∈ τ.db.bookings)
    (hu : b.userId = q.userId) (hact : b.status.isActive = true) : ¬cat.Intersect q.scheduleId b.scheduleId := by
  rcases active_origin hr hstep hb hact with ⟨b₀, hb₀, hf, hact₀⟩ | ⟨i, x, began', q', b', rfl, hi, -, hu', hsch⟩
  · have hsch : b₀.scheduleId = b.scheduleId := Booking.scheduleId_of_fixed hf
    rw [← hsch]
    exact h.checked j began q pc hj hpc b₀ hb₀ ((Booking.userId_of_fixed hf).trans hu) hact₀
  · by_cases hji : j = i
    · subst hji
      rw [hne x rfl] at hb
      exact h.checked j began q pc hj hpc b hb hu hact
    · intro hx
      have hq : q' ∈ (σ.sessions[i]?).bind (·.task.committing) := by
        rw [hi]
        rfl
      exact allow q' hq j _ hj hji ⟨hpc, hu.symm.trans hu'.symm, hsch ▸ hx⟩

theorem State.JourneysOk.disjoint_step {a : Act} (h : σ.JourneysOk cat) (hr : Reachable cat σ)
    (hstep : step cat σ a = some τ) : τ.db.JourneysDisjoint cat := by
  intro b hb b' hb' hne hu hact hact'
  rcases active_origin hr hstep hb hact with ⟨b₀, hb₀, hf, hact₀⟩ | ⟨i, x, began, q, c, ha, hi, hid, huq, hsch⟩ <;>
    rcases active_origin hr hstep hb' hact' with ⟨b₁, hb₁, hf', hact₁⟩ | ⟨i', x', began', q', c', ha', hi',
      hid', huq', hsch'⟩
  · have hsch : b₀.scheduleId = b.scheduleId := Booking.scheduleId_of_fixed hf
    have hsch' : b₁.scheduleId = b'.scheduleId := Booking.scheduleId_of_fixed hf'
    rw [← hsch, ← hsch']
    refine h.disjoint b₀ hb₀ b₁ hb₁ ?_ ?_ hact₀ hact₁
    · rwa [← Booking.id_of_fixed hf, ← Booking.id_of_fixed hf'] at hne
    · rwa [← Booking.userId_of_fixed hf, ← Booking.userId_of_fixed hf'] at hu
  · have hsch : b₀.scheduleId = b.scheduleId := Booking.scheduleId_of_fixed hf
    rw [← hsch, ← hsch']
    refine fun hx => h.checked i' began' q' _ hi' rfl b₀ hb₀ ?_ hact₀ hx.symm
    rw [Booking.userId_of_fixed hf, hu, huq']
  · have hsch' : b₁.scheduleId = b'.scheduleId := Booking.scheduleId_of_fixed hf'
    rw [← hsch, ← hsch']
    refine h.checked i began q _ hi rfl b₁ hb₁ ?_ hact₁
    rw [Booking.userId_of_fixed hf', ← hu, huq]
  · -- One step commits one booking.
    rw [ha] at ha'
    cases ha'
    rw [hi] at hi'
    cases hi'
    exact absurd (hid.symm.trans hid') hne

theorem State.JourneysOk.step {a : Act} (h : σ.JourneysOk cat) (hr : Reachable cat σ) (allow : CommitsUnraced cat σ a)
    (hstep : step cat σ a = some τ) : τ.JourneysOk cat where
  disjoint := h.disjoint_step hr hstep
  checked j began q pc hj hpc := by
    have own := insertsOwn_of_reachable hr
    have moved : ∀ {i s e t}, σ.sessions[i]? = some s → Move cat σ i s e t → τ = (σ.perform i e).goto i s t →
        (∀ x, a = .run j x → j = i) → ∀ b ∈ τ.db.bookings, b.userId = q.userId → b.status.isActive = true →
          ¬cat.Intersect q.scheduleId b.scheduleId := by
      rintro i s e t hs m rfl hi b hb hu hact
      rcases session_of_goto hs hj with ⟨rfl, ht⟩ | ⟨hji, hj⟩
      · cases ht
        cases m with
        | create m =>
          obtain ⟨hdb, checked⟩ := h.create own hs m hpc
          rw [goto_db, hdb] at hb
          exact checked b hb hu hact
      · exact not_intersect_after h hr allow hstep hj hpc (fun x hx => absurd (hi x hx) hji) hb hu hact
    cases step_stepped hstep with
    | request r =>
      rcases session_of_request hj with hj | ⟨-, ht⟩
      · exact h.checked j began q pc hj hpc
      · cases r <;> cases ht
        cases hpc
    | run hs hc m => exact moved hs m rfl fun x hx => by cases hx; rfl
    | raise hs hr m => exact moved hs m rfl fun x hx => by cases hx
    | tick d => exact h.checked j began q pc hj hpc
    | updateConfig failureRate latencyMs => exact h.checked j began q pc hj hpc

theorem journeysOk_of_reachable (h : ReachableBy cat (CommitsUnraced cat) σ) : σ.JourneysOk cat := by
  refine h.invariant ?_ fun _ _ _ hr hj allow hstep => hj.step (hr.mono fun _ _ _ => trivial) allow hstep
  rintro σ ⟨now, rfl⟩
  exact ⟨fun b hb => (nomatch hb), fun i began q pc hs => (nomatch hs)⟩

/-- In every run in which no booking is committed while another request of the same user for an intersecting schedule is
    past its overlap check, the journeys of every user are disjoint. -/
theorem journeys_disjoint (h : ReachableBy cat (CommitsUnraced cat) σ) : σ.db.JourneysDisjoint cat :=
  (journeysOk_of_reachable h).disjoint

instance (a b : Schedule) : Decidable (Disjoint a.interval b.interval) :=
  decidable_of_iff _ Set.Ico_disjoint_Ico.symm

instance (cat : Catalog) (s s' : Uuid) : Decidable (cat.Intersect s s') := inferInstanceAs (Decidable (∃ _ ∈ _, _))

instance (cat : Catalog) (q : CreateRequest) : (s : Session) → Decidable (s.RacesWith cat q)
  | ⟨_, .create _ _⟩ => inferInstanceAs (Decidable (_ ∧ _ ∧ _))
  | ⟨_, .pay _ _⟩ | ⟨_, .refund _ _⟩ | ⟨_, .cleanup _⟩ => isFalse fun h => h

instance (cat : Catalog) (σ : State) : (a : Act) → Decidable (CommitsUnraced cat σ a)
  | .run _ _ => inferInstanceAs (Decidable (∀ _ ∈ Option.bind _ _, _))
  | .request _ | .raise _ | .tick _ | .updateConfig _ _ => isTrue trivial

/-- User 1 books schedule 20 and then asks for schedule 21, which intersects it, and user 2 books that one. -/
def disjointRun : List Act :=
  [.request (.create ⟨1, 20, 40, 50, none⟩), .request (.create ⟨2, 21, 40, 51, none⟩)] ++ runs 0 4 60 ++ runs 1 9 61 ++
    runs 0 5 60 ++ .request (.create ⟨1, 21, 41, 52, none⟩) :: runs 2 3 62

theorem journeys_disjoint_run : ∃ σ : State, 2 ≤ σ.db.bookings.length ∧ σ.db.JourneysDisjoint sampleCatalog := by
  have along : Along (step sampleCatalog) (CommitsUnraced sampleCatalog) (.seeded 0) disjointRun := by decide
  have hrun : (exec (step sampleCatalog) (.seeded 0) disjointRun).any
      (fun σ : State => decide (2 ≤ σ.db.bookings.length)) = true := by decide
  obtain ⟨σ, hσ, htest⟩ := reachableBy_of_run along hrun
  exact ⟨σ, of_decide_eq_true htest, journeys_disjoint hσ⟩

/-- One user asks for two schedules that intersect, at the same time. -/
def racingRun : List Act :=
  [.request (.create ⟨1, 20, 40, 50, none⟩), .request (.create ⟨1, 21, 41, 51, none⟩)] ++ runs 0 3 60 ++ runs 1 9 61 ++
    runs 0 6 60

/-- Both requests pass their overlap checks before either of them commits, and both are committed. -/
theorem journeys_intersect : ¬∀ cat : Catalog, (∀ s ∈ cat.schedules, s.departureTime < s.arrivalTime) →
    ∀ σ, Reachable cat σ → σ.db.JourneysDisjoint cat := by
  intro h
  have hrun : (exec (step sampleCatalog) (.seeded 0) racingRun).any (fun σ : State =>
      σ.db.bookings.any fun b => σ.db.bookings.any fun b' => decide (b.id ≠ b'.id ∧ b.userId = b'.userId ∧
        b.status.isActive = true ∧ b'.status.isActive = true ∧ sampleCatalog.Intersect b.scheduleId b'.scheduleId)) =
      true := by decide
  obtain ⟨σ, hσ, htest⟩ := reachable_of_run hrun
  obtain ⟨b, hb, htest⟩ := List.any_eq_true.mp htest
  obtain ⟨b', hb', htest⟩ := List.any_eq_true.mp htest
  obtain ⟨hne, hu, hact, hact', hx⟩ := of_decide_eq_true htest
  exact h sampleCatalog (by decide) σ hσ b hb b' hb' hne hu hact hact' hx

end

end Railbook
