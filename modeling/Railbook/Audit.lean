import Railbook.Coherence

/-! The audit trail of a booking and its status (`app/audit/service.py` and its callers). -/

namespace Railbook
open ReadCommitted Transition

/-- The audit entries of a booking, ordered by id. -/
def Db.auditEntries (d : Db) (id : Uuid) : List Entry :=
  ((d.auditTrail.filter (·.bookingId = id)).mergeSort fun a b => a.id ≤ b.id).map AuditTrail.entry

/-- The sequences of actions that a booking can have. -/
def auditLives : List (List AuditAction) :=
  [[.reserved], [.reserved, .paymentAttempted, .confirmed], [.reserved, .paymentAttempted, .paymentFailed],
   [.reserved, .paymentAttempted, .confirmed, .refunded], [.reserved, .expiredCleanup]]

/-- Every entry starts from the status that the entry before it ended in. -/
def Chained : Option BookingStatus → List Entry → Prop
  | _, [] => True
  | prev, e :: es => e.previousStatus = prev ∧ Chained (some e.newStatus) es

/-- The audit entries of `b` tell one life, which ends in the status that `b` has. -/
structure AuditCoherent (d : Db) (b : Booking) : Prop where
  life : (d.auditEntries b.id).map (·.action) ∈ auditLives
  chained : Chained none (d.auditEntries b.id)
  last : (d.auditEntries b.id).getLast?.map (·.newStatus) = some b.status
  user : ∀ e ∈ d.auditEntries b.id, e.userId = if e.action = .expiredCleanup then systemUserId else b.userId

section
variable {cat : Catalog} {σ : State} {b : Booking} {ph : Phase} {d : Db}

/-- The entries of a conforming ledger are stored in the order of their ids. -/
theorem Conforms.auditEntries_eq (h : Conforms (d.ledger b.id) b ph) : d.auditEntries b.id = ph.trail b.userId := by
  have hsorted : (d.ledger b.id).auditTrail.Pairwise fun a a' => decide (a.id ≤ a'.id) = true := by
    refine (List.pairwise_map.mp h.sorted).imp ?_
    intro a a' hlt
    exact decide_eq_true (Nat.le_of_lt hlt)
  have hsort : (d.ledger b.id).auditTrail.mergeSort (fun a a' => a.id ≤ a'.id) = (d.ledger b.id).auditTrail :=
    List.mergeSort_of_pairwise hsorted
  rw [← h.trail, ← hsort]
  rfl

theorem Phase.trail_actions (hph : ph ∈ Phase.committed) (owner : Uuid) :
    (ph.trail owner).map (·.action) ∈ auditLives := by
  cases ph <;> simp [Phase.committed] at hph <;> simp [Phase.trail, auditLives]

theorem Phase.trail_chained (ph : Phase) (owner : Uuid) : Chained none (ph.trail owner) := by
  cases ph <;> simp [Phase.trail, Chained]

theorem Phase.trail_last (hph : ph ∈ Phase.committed) (owner : Uuid) :
    (ph.trail owner).getLast?.map (·.newStatus) = some ph.status := by
  cases ph <;> simp [Phase.committed] at hph <;> rfl

theorem Phase.trail_user (ph : Phase) (owner : Uuid) :
    ∀ e ∈ ph.trail owner, e.userId = if e.action = .expiredCleanup then systemUserId else owner := by
  cases ph <;> simp [Phase.trail]

/-- In every reachable state the audit entries of every booking agree with its status. -/
theorem audit_coherence (h : Reachable cat σ) (hb : b ∈ σ.db.bookings) : AuditCoherent σ.db b := by
  obtain ⟨ph, hph, hc⟩ := (inv_of_reachableBy h).conforms_of_mem hb
  have hentries := hc.auditEntries_eq
  exact {
    life := by rw [hentries]; exact Phase.trail_actions hph _
    chained := by rw [hentries]; exact ph.trail_chained _
    last := by rw [hentries, hc.status]; exact Phase.trail_last hph _
    user := by rw [hentries]; exact ph.trail_user _ }

/-- A booking that is created, paid and refunded. -/
theorem audit_coherence_refunded : ∃ σ : State, ∃ b ∈ σ.db.bookings, b.status = .refunded ∧ AuditCoherent σ.db b := by
  have hrun : (exec (step sampleCatalog) (.seeded 0) (.request (.create ⟨1, 20, 40, 50, none⟩) :: runs 0 9 60 ++
      .request (.pay ⟨60, 1, 70, none⟩) :: runs 1 9 80 ++ .request (.refund ⟨60, 1, none⟩) :: runs 2 9 90)).any
      (fun σ : State => σ.db.bookings.any fun b => b.status = .refunded) = true := by decide
  obtain ⟨σ, hσ, htest⟩ := reachable_of_run hrun
  obtain ⟨b, hb, hst⟩ := List.any_eq_true.mp htest
  exact ⟨σ, b, hb, of_decide_eq_true hst, audit_coherence hσ hb⟩

end

end Railbook
