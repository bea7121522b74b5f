import Railbook.Growth
import Railbook.Library.Table

/-! What is stored stays, and belongs to its user. The delete before a rebooking cannot pass, since every stored booking
    has dependants, so nothing is ever removed; and a request writes about bookings of its own user only. -/

namespace Railbook
open ReadCommitted Transition

/-- The user that a request is made by. A cleanup pass is made by the system. -/
def Request.userId : Request → Option Uuid
  | .create q => some q.userId
  | .pay q => some q.userId
  | .refund q => some q.userId
  | .cleanup => none

/-- The committed tables only grow: payments and audit entries stay as they are, and of a booking only the status and
    its two times change. -/
structure Db.Retains (d d' : Db) : Prop where
  payments : ∀ p ∈ d.payments, d'.paymentsUnder p.idempotencyKey = [p]
  auditTrail : ∀ a ∈ d.auditTrail, a ∈ d'.auditTrail
  bookings : ∀ b ∈ d.bookings, ∃ b', d'.booking? b.id = some b' ∧ b'.fixed = b.fixed

/-- The session that a step belongs to. -/
def Act.session? : Act → Option Sid
  | .run i _ | .raise i => some i
  | _ => none

/-- The step, if it is made for a user, leaves the rows about every other user's booking as they are. -/
def LeavesOthers (cat : Catalog) (σ : State) (a : Act) : Prop :=
  ∀ i s u τ, a.session? = some i → σ.sessions[i]? = some s → s.task.request.userId = some u → step cat σ a = some τ →
    ∀ b ∈ τ.db.bookings, b.userId ≠ u → τ.db.ledger b.id = σ.db.ledger b.id

section
variable {cat : Catalog} {σ τ : State} {i : Sid} {s : Session} {t : Task} {e : Effect} {u : Uuid} {acts : List Act}

/-- What a request commits is a booking of its user. -/
theorem Move.held_user (inv : Inv σ) (hs : σ.sessions[i]? = some s) (m : Move cat σ i s .commit t)
    (hu : s.task.request.userId = some u) : ∀ p ∈ s.task.held, p.1.userId = u := by
  have hsound := (inv.taskOk hs).sound
  intro p hp
  cases m with
  | create m =>
    cases m with
    | committed =>
      rw [List.mem_singleton.mp hp]
      exact (CreateRequest.Builds.userId hsound).trans (Option.some.inj hu)
  | pay m =>
    cases m with
    | committed =>
      rw [List.mem_singleton.mp hp]
      exact hsound.2.trans (Option.some.inj hu)
  | refund m =>
    cases m with
    | committed =>
      rw [List.mem_singleton.mp hp]
      exact hsound.2.trans (Option.some.inj hu)
  | cleanup m => cases hu

theorem Move.leavesOthers (inv : Inv σ) (hs : σ.sessions[i]? = some s) (m : Move cat σ i s e t)
    (hu : s.task.request.userId = some u) :
    ∀ b ∈ (σ.perform i e).db.bookings, b.userId ≠ u → (σ.perform i e).db.ledger b.id = σ.db.ledger b.id := by
  intro b hb hne
  rcases perform_db σ i e with he | ⟨rfl, he⟩ <;> rw [he] at hb ⊢
  have ok := inv.taskOk hs
  refine ok.ledger_view fun p hp hid => hne ?_
  -- A booking that the session holds is the one that it sees under the id.
  obtain ⟨ph, -, hc⟩ := ok.held p hp
  have hrow : b = p.1 := Conforms.eq_of_mem hc hb hid.symm
  rw [hrow]
  exact m.held_user inv hs hu p hp

theorem leavesOthers_of_inv (inv : Inv σ) (a : Act) : LeavesOthers cat σ a := by
  intro i s u τ ha hs hu hstep
  cases step_stepped hstep with
  | run hs' hc m =>
    cases ha
    obtain rfl := Option.some.inj (hs.symm.trans hs')
    exact m.leavesOthers inv hs hu
  | raise hs' hraise m =>
    cases ha
    obtain rfl := Option.some.inj (hs.symm.trans hs')
    exact m.leavesOthers inv hs hu
  | _ => cases ha

theorem Db.Kept.retains {d : Db} (h : d.Kept τ.db) (inv : Inv τ) : d.Retains τ.db where
  payments p hp :=
    Table.eq_singleton_of_mem (inv.payments p.idempotencyKey).1
    (List.mem_filter.mpr ⟨h.payments p hp, decide_eq_true rfl⟩)
  auditTrail := h.auditTrail
  bookings b hb := by
    obtain ⟨b', hb', hf⟩ := h.bookings b hb
    exact ⟨b', Booking.id_of_fixed hf ▸ inv.booking?_eq hb', hf⟩

/-- Along every run of the service what is committed at some point is retained from there on, and no request changes a
    row about a booking of another user. -/
theorem history_retained {now : Time} {acts acts' : List Act} (run : exec (step cat) (.seeded now) acts = some σ)
    (run' : exec (step cat) σ acts' = some τ) :
    σ.db.Retains τ.db ∧ Along (step cat) (LeavesOthers cat) (.seeded now) acts := by
  have start : Reachable cat (.seeded now) := .start ⟨now, rfl⟩
  have hr := reachable_exec start run
  refine ⟨(kept_exec hr run').retains (inv_of_reachableBy (reachable_exec hr run')), ?_⟩
  exact along_of_invariant (R := fun _ => True) (fun _ _ _ inv _ hstep => Inv.step inv hstep)
    (fun _ a inv => leavesOthers_of_inv inv a) (inv_of_reachableBy start) fun _ _ => trivial

/-- A reservation expires and is cancelled, and its seat is asked for again: the old row stays. -/
theorem history_retained_rebooking : ∃ σ τ : State, (∃ b ∈ σ.db.bookings, b.status = .cancelled) ∧ σ.db.Retains τ.db ∧
    Along (step sampleCatalog) (LeavesOthers sampleCatalog) (.seeded 0)
      (.request (.create ⟨1, 20, 40, 50, none⟩) :: runs 0 9 60 ++ [.tick 600000000, .request .cleanup] ++
        runs 1 3 70) := by
  have hrun : (exec (step sampleCatalog) (.seeded 0) (.request (.create ⟨1, 20, 40, 50, none⟩) :: runs 0 9 60 ++
      [.tick 600000000, .request .cleanup] ++ runs 1 3 70)).any (fun σ : State =>
        (σ.db.bookings.any fun b => decide (b.status = .cancelled)) &&
        (exec (step sampleCatalog) σ (.request (.create ⟨2, 20, 40, 51, none⟩) :: runs 2 6 61)).isSome) = true := by
          decide
  obtain ⟨σ, hσ, htest⟩ := (Option.any_eq_true _ _).mp hrun
  obtain ⟨hb, hτ⟩ := Bool.and_eq_true_iff.mp htest
  obtain ⟨τ, hτ⟩ := Option.isSome_iff_exists.mp hτ
  obtain ⟨hret, along⟩ := history_retained hσ hτ
  exact ⟨σ, τ, by simpa using hb, hret, along⟩

end

end Railbook
