import Railbook.Sessions
import Railbook.IdempotentCreate

/-! What a booking returned by `create_booking` has to do with the request. The key is looked up before anything else
    and by itself, so a key that was used for another booking answers the request with that one. -/

namespace Railbook
open ReadCommitted Transition

/-- The booking is one that the request can ask for: its user, its schedule and its seat. -/
def CreateRequest.AsksFor (q : CreateRequest) (b : Booking) : Prop :=
  b.userId = q.userId ∧ b.scheduleId = q.scheduleId ∧ b.seatId = q.seatId

instance (q : CreateRequest) (b : Booking) : Decidable (q.AsksFor b) := inferInstanceAs (Decidable (_ ∧ _))

/-- A session that looks its key up finds no booking under it but one that its request asks for. -/
def Session.FindsAsked (σ : State) (s : Session) : Prop :=
  match s.task with
  | .create q .checkKey => ∀ b ∈ σ.db.bookings, b.idempotencyKey = q.idempotencyKey → q.AsksFor b
  | _ => True

/-- The key look-up of session `i` finds no booking but one that its request asks for. -/
abbrev LooksUpAsked (i : Sid) : State → Act → Prop := AtStatement i fun σ s => s.FindsAsked σ

/-- Session `i` has returned a booking, if any, that its request asks for. -/
def State.ReturnsAsked (σ : State) (i : Sid) (q : CreateRequest) : Prop :=
  ∀ began b, σ.sessions[i]? = some ⟨began, .create q (.finished (.ok b))⟩ → q.AsksFor b

/-- The booking that a session is about to return, or has returned, is one that its request asks for. -/
def Task.Returns : Task → Prop
  | .create q (.invalidate b) | .create q (.finished (.ok b)) => q.AsksFor b
  | _ => True

section
variable {cat : Catalog} {σ τ : State} {i : Sid} {began : Time} {q : CreateRequest} {acts : List Act}

theorem CreateRequest.Builds.asksFor {b : Booking} (h : q.Builds b) : q.AsksFor b := ⟨h.userId, h.scheduleId, h.seatId⟩

theorem CreateMove.returns {pc pc' : CreatePc} {e : Effect} (inv : Inv σ)
    (hs : σ.sessions[i]? = some ⟨began, .create q pc⟩) (h : (Task.create q pc).Returns)
    (finds : Session.FindsAsked σ ⟨began, .create q pc⟩) (m : CreateMove cat σ i began q pc e pc') :
    (Task.create q pc').Returns := by
  have ok := inv.taskOk hs
  cases m with
  | found hb hkey =>
    have hview : σ.view i = σ.db := view_of_pending_nil (ok.pending_nil rfl)
    exact finds _ (hview ▸ hb) hkey
  | committed =>
    have builds : q.Builds _ := ok.sound
    exact builds.asksFor
  | invalidated => exact h
  | _ => trivial

theorem Move.returns {s : Session} {t : Task} {e : Effect} (inv : Inv σ) (hs : σ.sessions[i]? = some s)
    (h : s.task.Returns) (finds : s.FindsAsked σ) (m : Move cat σ i s e t) : t.Returns := by
  cases m with
  | create m => exact m.returns inv hs h finds
  | _ => trivial

theorem raise_returns {t t' : Task} (_ : t.Returns) (h : t.raise = some t') : t'.Returns := by
  cases t <;> simp only [Task.raise, Option.ite_none_right_eq_some, Option.some.injEq] at h <;> obtain ⟨-, rfl⟩ := h <;>
    trivial

/-- A look-up that finds a booking under the key returns it. -/
theorem found_of_key {x : Choice} {e : Effect} {t : Task} {b : Booking} (inv : Inv σ)
    (hs : σ.sessions[i]? = some ⟨began, .create q .checkKey⟩) (hb : b ∈ σ.db.bookings)
    (hkey : b.idempotencyKey = q.idempotencyKey)
    (hc : Session.statement cat σ i ⟨began, .create q .checkKey⟩ x = some (e, t)) :
    t = .create q (.finished (.ok b)) := by
  have hview : σ.view i = σ.db := view_of_pending_nil ((inv.taskOk hs).pending_nil rfl)
  have hfound : (σ.view i).bookings.filter (·.idempotencyKey = q.idempotencyKey) = [b] :=
    hview ▸ filter_key_eq inv hb hkey
  simp only [Session.statement, create_found hfound, Option.map_some, Option.some.injEq, Prod.mk.injEq] at hc
  exact hc.2.symm

/-- In every run, a request returns no booking but one that it asks for if and only if its key look-up finds no booking
    but one that it asks for. -/
theorem returns_asked_iff (hr : Reachable cat σ) (run : exec (step cat) σ (.request (.create q) :: acts) = some τ) :
    τ.ReturnsAsked σ.sessions.length q ↔
      Along (step cat) (LooksUpAsked σ.sessions.length) σ (.request (.create q) :: acts) := by
  refine ⟨fun returns => ?_, fun along began b hs => ?_⟩
  · by_contra hnot
    obtain ⟨υ, x, s, e, t, post, hυ, hs, hq, hfail, hc, hpost⟩ := exists_failing_statement hr run hnot
    obtain ⟨began, t'⟩ := s
    unfold Session.FindsAsked at hfail
    split at hfail
    · rename_i q' ht
      obtain rfl : t' = .create q' .checkKey := ht
      obtain rfl : q' = q := Request.create.inj hq
      simp only [not_forall] at hfail
      obtain ⟨b, hb, hkey, hother⟩ := hfail
      obtain rfl := found_of_key (inv_of_reachableBy hυ) hs hb hkey hc
      exact hother (returns began b (finished_exec hpost (goto_sessions_self hs) rfl))
    · exact hfail trivial
  · have start : (Request.create q).task.Returns := trivial
    obtain ⟨s', hs', -, hret⟩ := request_run (P := fun _ t => t.Returns) hr start
      (fun hr hs h allow _ m => m.returns (inv_of_reachableBy hr) hs h (allow rfl _ hs)) raise_returns
      (fun _ h => h) along run
    rw [hs] at hs'
    cases hs'
    exact hret

instance (σ : State) : (s : Session) → Decidable (s.FindsAsked σ)
  | ⟨_, .create _ .checkKey⟩ => inferInstanceAs (Decidable (∀ _ ∈ _, _))
  | ⟨_, .create _ .lockSeat⟩ | ⟨_, .create _ (.awaitSeat _)⟩ | ⟨_, .create _ (.checkOverlap _)⟩
  | ⟨_, .create _ (.getSeat _)⟩ | ⟨_, .create _ (.delete _ _)⟩ | ⟨_, .create _ (.insertKey _)⟩
  | ⟨_, .create _ (.insertSeat _)⟩ | ⟨_, .create _ (.audit _)⟩ | ⟨_, .create _ (.commit _)⟩
  | ⟨_, .create _ (.invalidate _)⟩ | ⟨_, .create _ (.finished _)⟩ | ⟨_, .pay _ _⟩ | ⟨_, .refund _ _⟩
    | ⟨_, .cleanup _⟩ =>
    isTrue trivial

/-- User 1 books a seat with key 50. -/
def keyedRun : List Act := .request (.create ⟨1, 20, 40, 50, none⟩) :: runs 0 9 60

/-- The same request again is answered with its booking. -/
theorem returns_asked_repeated : ∃ σ τ, Reachable sampleCatalog σ ∧ exec (step sampleCatalog) σ
    (.request (.create ⟨1, 20, 40, 50, none⟩) :: runs 1 1 61) = some τ ∧ (∀ s ∈ τ.sessions, s.task.isFinished = true) ∧
      τ.ReturnsAsked σ.sessions.length ⟨1, 20, 40, 50, none⟩ := by
  have hrun : (exec (step sampleCatalog) (.seeded 0) keyedRun).any (fun σ : State =>
      (exec (step sampleCatalog) σ (.request (.create ⟨1, 20, 40, 50, none⟩) :: runs 1 1 61)).any
        (fun τ : State => τ.sessions.all (·.task.isFinished)) &&
      decide (Along (step sampleCatalog) (LooksUpAsked σ.sessions.length) σ
        (.request (.create ⟨1, 20, 40, 50, none⟩) :: runs 1 1 61))) = true := by decide
  obtain ⟨σ, hσ, htest⟩ := reachable_of_run hrun
  obtain ⟨hτ, along⟩ := Bool.and_eq_true_iff.mp htest
  obtain ⟨τ, hτ, hfin⟩ := (Option.any_eq_true _ _).mp hτ
  exact ⟨σ, τ, hσ, hτ, by simpa using hfin, (returns_asked_iff hσ hτ).mpr (of_decide_eq_true along)⟩

/-- User 2 uses the key for another seat, and is answered with the booking of user 1. -/
theorem foreign_booking_returned : ¬∀ (cat : Catalog) (σ : State), Reachable cat σ → ∀ (q : CreateRequest) acts τ,
    exec (step cat) σ (.request (.create q) :: acts) = some τ → τ.ReturnsAsked σ.sessions.length q := by
  intro h
  have hrun : (exec (step sampleCatalog) (.seeded 0) keyedRun).any (fun σ : State =>
      (exec (step sampleCatalog) σ (.request (.create ⟨2, 20, 41, 50, none⟩) :: runs 1 1 61)).any
        (fun τ : State => (τ.sessions[σ.sessions.length]?).any fun s => decide (s.task =
          .create ⟨2, 20, 41, 50,
            none⟩ (.finished (.ok ⟨60, 1, 20, 40, .reserved, 50, 0, some (timedeltaMinutes 5), none,
            none, 150000⟩))))) = true := by decide
  obtain ⟨σ, hσ, hτ⟩ := reachable_of_run hrun
  obtain ⟨τ, hτ, hs⟩ := (Option.any_eq_true _ _).mp hτ
  obtain ⟨⟨began, t⟩, hs, ht⟩ := (Option.any_eq_true _ _).mp hs
  obtain rfl := of_decide_eq_true ht
  have := (h _ σ hσ _ _ τ hτ began _ hs).1
  revert this
  decide

end

end Railbook
