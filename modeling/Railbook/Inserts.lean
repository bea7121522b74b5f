import Railbook.Sessions

/-! What `create_booking` inserts. A column of a stored booking that no `UPDATE` sets is as it was inserted, so what
    every insert of a run satisfies, every booking does. -/

namespace Railbook
open ReadCommitted Transition

/-- The bookings that the effect of a statement inserts. -/
def Effect.inserts : Effect → List Booking
  | .flush _ ws _ => ws.filterMap fun
    | .insertBooking b => some b
    | _ => none
  | _ => []

/-- The bookings that a step inserts. -/
def State.inserts (cat : Catalog) (σ : State) : Act → List Booking
  | .run i x => ((σ.sessions[i]?).bind fun s => s.statement cat σ i x).elim [] fun r => r.1.inserts
  | _ => []

/-- Every insert of the step satisfies `P` in the state before it. -/
def EveryInsert (cat : Catalog) (P : State → Booking → Prop) (σ : State) (a : Act) : Prop :=
  ∀ b ∈ σ.inserts cat a, P σ b

instance (cat : Catalog) (P : State → Booking → Prop) [∀ σ b, Decidable (P σ b)] (σ : State) (a : Act) :
    Decidable (EveryInsert cat P σ a) := inferInstanceAs (Decidable (∀ _ ∈ _, _))

/-- The stored bookings satisfy `P`, and the ones that sessions have inserted and not yet committed. -/
structure State.AllBookings (σ : State) (P : Booking → Prop) : Prop where
  stored : ∀ b ∈ σ.db.bookings, P b
  pending : ∀ i b, .insertBooking b ∈ σ.store.pending i → P b

section
variable {cat : Catalog} {σ τ : State} {i : Sid} {s : Session} {t : Task} {e : Effect} {a : Act} {b : Booking}
  {acts : List Act} {P : Booking → Prop}

/-- The insert that passes: the booking is built from the request, its pair has no row, and its foreign keys
    are stored. -/
structure Inserted (cat : Catalog) (σ : State) (q : CreateRequest) (b : Booking) : Prop where
  builds : q.Builds b
  vacant : ∀ b' ∈ σ.db.bookings, ¬(b'.scheduleId = b.scheduleId ∧ b'.seatId = b.seatId)
  user : (cat.user? b.userId).isSome = true
  schedule : (cat.schedule? b.scheduleId).isSome = true
  seat : (cat.seat? b.seatId).isSome = true

theorem create_seatStored {began : Time} {q : CreateRequest} {x : Choice} {rs : List Resource}
    {ws : List Write} {n : Nat} {pc : CreatePc}
    (h : createBooking cat σ i began q x (.insertSeat b) = some (.flush rs ws n, pc)) :
    (cat.user? q.userId).isSome = true ∧ (cat.schedule? q.scheduleId).isSome = true ∧
      (cat.seat? q.seatId).isSome = true := by
  simp only [createBooking, insertSeat_free h, if_true] at h
  split at h
  · cases h
  · split at h
    · cases h
    · rename_i hfk
      simp only [Bool.or_eq_true, not_or, Bool.not_eq_true, Option.isNone_eq_false_iff] at hfk
      exact ⟨hfk.1.1, hfk.1.2, hfk.2⟩

theorem Effect.mem_inserts : b ∈ e.inserts ↔ ∃ rs ws n, e = .flush rs ws n ∧ .insertBooking b ∈ ws := by
  cases e with
  | flush rs ws n =>
    simp only [Effect.inserts, List.mem_filterMap, Effect.flush.injEq]
    constructor
    · rintro ⟨w, hw, hb⟩
      cases w with
      | insertBooking b' =>
        cases hb
        exact ⟨rs, ws, n, ⟨rfl, rfl, rfl⟩, hw⟩
      | _ => cases hb
    · rintro ⟨rs, ws, n, ⟨rfl, rfl, rfl⟩, hw⟩
      exact ⟨_, hw, rfl⟩
  | _ => simp [Effect.inserts]

theorem State.mem_inserts : b ∈ σ.inserts cat a ↔ ∃ i x s rs ws n t, a = .run i x ∧ σ.sessions[i]? = some s ∧
    s.statement cat σ i x = some (.flush rs ws n, t) ∧ .insertBooking b ∈ ws := by
  constructor
  · intro h
    cases a with
    | run i x =>
      cases hc : (σ.sessions[i]?).bind fun s => s.statement cat σ i x with
      | none =>
        rw [State.inserts, hc] at h
        cases h
      | some r =>
        obtain ⟨e, t⟩ := r
        rw [State.inserts, hc] at h
        obtain ⟨s, hs, hc⟩ := Option.bind_eq_some_iff.mp hc
        obtain ⟨rs, ws, n, rfl, hmem⟩ := Effect.mem_inserts.mp h
        exact ⟨i, x, s, rs, ws, n, t, rfl, hs, hc, hmem⟩
    | _ => cases h
  · rintro ⟨i, x, s, rs, ws, n, t, rfl, hs, hc, hmem⟩
    rw [State.inserts, hs, Option.bind_some, hc]
    exact Effect.mem_inserts.mpr ⟨rs, ws, n, rfl, hmem⟩

theorem inserted_of_mem (hr : Reachable cat σ) (h : b ∈ σ.inserts cat a) :
    ∃ (i : Sid) (began : Time) (q : CreateRequest),
      σ.sessions[i]? = some ⟨began, .create q (.insertSeat b)⟩ ∧ Inserted cat σ q b := by
  obtain ⟨i, x, s, rs, ws, n, t, -, hs, hc, hmem⟩ := State.mem_inserts.mp h
  obtain ⟨began, q, pc, rfl, builds⟩ := (statement_move hc).inserts (inv_of_reachableBy hr) hs hmem
  simp only [Session.statement, Option.map_eq_some_iff, Prod.mk.injEq, Prod.exists] at hc
  obtain ⟨e, pc', hc, rfl, rfl⟩ := hc
  have hview : pc.inserted = none → σ.view i = σ.db := (insertsOwn_of_reachable hr).view hs
  cases createBooking_move hc with
  | @seated b' free hx =>
    obtain rfl : b = b' := by simpa using hmem
    obtain ⟨hu, hsch, hseat⟩ := create_seatStored hc
    refine ⟨i, began, q, hs, builds, fun b' hb' => ?_, builds.userId ▸ hu, builds.scheduleId ▸ hsch,
      builds.seatId ▸ hseat⟩
    rw [builds.scheduleId, builds.seatId]
    exact hx b' (hview rfl ▸ hb')
  | deleted hp ha => simp at hmem
  | audited => simp at hmem

/-- A step keeps what every booking satisfies, if its insert satisfies it. -/
theorem State.AllBookings.step (h : σ.AllBookings P) (fixed : ∀ {b b' : Booking}, b'.fixed = b.fixed → P b → P b')
    (hP : ∀ b ∈ σ.inserts cat a, P b) (hstep : step cat σ a = some τ) : τ.AllBookings P := by
  have stored : ∀ {i e}, ∀ b ∈ (σ.perform i e).db.bookings, P b := by
    intro i e b hb
    rcases perform_db σ i e with he | ⟨-, he⟩ <;> rw [he] at hb
    · exact h.stored b hb
    · rcases origin_foldl hb with ⟨b₀, hb₀, hf⟩ | ⟨b₀, hb₀, hf⟩
      · exact fixed hf.symm (h.stored b₀ hb₀)
      · exact fixed hf.symm (h.pending i b₀ hb₀)
  cases step_stepped hstep with
  | request r => exact ⟨h.stored, h.pending⟩
  | @run i x s e t hs hc m =>
    refine ⟨stored, fun j b hmem => ?_⟩
    rcases pending_of_perform hmem with hold | ⟨rfl, rs, ws, n, rfl, hnew⟩
    · exact h.pending j b hold
    · exact hP b (State.mem_inserts.mpr ⟨j, x, s, rs, ws, n, t, rfl, hs, hc, hnew⟩)
  | @raise i s t hs hr m =>
    refine ⟨stored, fun j b hmem => ?_⟩
    rcases pending_of_perform hmem with hold | ⟨-, rs, ws, n, he, -⟩
    · exact h.pending j b hold
    · cases he
  | tick d => exact ⟨h.stored, h.pending⟩
  | updateConfig failureRate latencyMs => exact ⟨h.stored, h.pending⟩

theorem allBookings_seeded (now : Time) : (State.seeded now).AllBookings P where
  stored _ hb := nomatch hb
  pending _ _ hb := nomatch hb

theorem State.AllBookings.exec {Q : State → Booking → Prop} (h : σ.AllBookings P)
    (fixed : ∀ {b b' : Booking}, b'.fixed = b.fixed → P b → P b') (imp : ∀ {υ b}, Q υ b → P b)
    (along : Along (Railbook.step cat) (EveryInsert cat Q) σ acts) (run : exec (Railbook.step cat) σ acts = some τ) :
    τ.AllBookings P :=
  exec_invariant (I := fun υ : State => υ.AllBookings P) (P := EveryInsert cat Q)
    (fun _ _ _ hυ ha hstep => hυ.step fixed (fun b hb => imp (ha b hb)) hstep) h along run

theorem storedKeys_of_reachable (hr : Reachable cat σ) : σ.AllBookings fun b =>
    (cat.user? b.userId).isSome = true ∧ (cat.schedule? b.scheduleId).isSome = true ∧
      (cat.seat? b.seatId).isSome = true := by
  refine hr.invariant (I := fun σ : State => σ.AllBookings fun b => (cat.user? b.userId).isSome = true ∧
    (cat.schedule? b.scheduleId).isSome = true ∧ (cat.seat? b.seatId).isSome = true) ?_ ?_
  · rintro σ ⟨now, rfl⟩
    exact allBookings_seeded now
  · intro σ a τ hr h _ hstep
    refine h.step ?_ ?_ hstep
    · intro b b' hf hb
      rwa [Booking.userId_of_fixed hf, Booking.scheduleId_of_fixed hf, Booking.seatId_of_fixed hf]
    · intro b hb
      obtain ⟨i, began, q, -, ins⟩ := inserted_of_mem hr hb
      exact ⟨ins.user, ins.schedule, ins.seat⟩

end

end Railbook
