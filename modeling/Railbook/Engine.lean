import Railbook.Bookings.Service
import Railbook.Library.Transition

/-! The interleaving of all sessions. A label of the system names what happens next: a request arrives, a session
    runs its next statement, a database statement of a session fails, time passes, or the demo endpoint
    reconfigures the gateway. -/

namespace Railbook
open ReadCommitted Transition

/-- What happens next. -/
inductive Act where
  | request (r : Request)
  | run (i : Sid) (c : Choice)
  | raise (i : Sid)
  | tick (d : Nat)
  | updateConfig (failureRate : Option ℚ) (latencyMs : Option Int)
  deriving DecidableEq, Repr

/-- The next statement of a session. -/
def Session.statement (cat : Catalog) (σ : State) (i : Sid) (s : Session) (c : Choice) : Option (Effect × Task) :=
  match s.task with
  | .create q pc => (createBooking cat σ i s.began q c pc).map fun (eff, pc) => (eff, .create q pc)
  | .pay q pc => (payBooking σ i s.began q c pc).map fun (eff, pc) => (eff, .pay q pc)
  | .refund q pc => (refundBooking cat σ i s.began q pc).map fun (eff, pc) => (eff, .refund q pc)
  | .cleanup pc => (cleanupExpiredReservations σ i s.began pc).map fun (eff, pc) => (eff, .cleanup pc)

/-- Where a session ends when its next database statement raises. -/
def Task.raise : Task → Option Task
  | .create q pc => if pc.isStatement then some (.create q (.finished (.error .databaseError))) else none
  | .pay q pc => if pc.isStatement then some (.pay q (.finished (.error .databaseError))) else none
  | .refund q pc => if pc.isStatement then some (.refund q (.finished (.error .databaseError))) else none
  | .cleanup pc => if pc.isStatement then some (.cleanup (.finished (.error .databaseError))) else none

/-- The step relation: the state after a label, if it is enabled. -/
def step (cat : Catalog) (σ : State) : Act → Option State
  | .request r => some { σ with sessions := σ.sessions ++ [⟨σ.now, r.task⟩] }
  | .run i c => do
    let s ← σ.sessions[i]?
    let (eff, task) ← s.statement cat σ i c
    some ((σ.perform i eff).goto i s task)
  | .raise i => do
    let s ← σ.sessions[i]?
    let task ← s.task.raise
    some ((σ.perform i .close).goto i s task)
  | .tick d => some { σ with now := σ.now + d }
  | .updateConfig failureRate latencyMs =>
    some { σ with gateway := σ.gateway.updateConfig failureRate latencyMs }

theorem step_run {cat : Catalog} {σ : State} {i : Sid} {s : Session} {e : Effect} {t : Task} {x : Choice}
    (hs : σ.sessions[i]? = some s) (hc : s.statement cat σ i x = some (e, t)) :
    step cat σ (.run i x) = some ((σ.perform i e).goto i s t) := by
  simp only [step, hs, hc, Option.bind_eq_bind, Option.bind_some]

/-- The seeded database at some time, with a gateway that was never called. -/
def State.seeded (now : Time) : State where
  store := Store.fresh Db.empty
  sessions := []
  now := now
  nextAuditId := 1
  gateway := .init
  history := ⟨[], [], [], []⟩

/-- The states that the seeded service reaches by steps that `allow` admits. -/
abbrev ReachableBy (cat : Catalog) (allow : State → Act → Prop) : State → Prop :=
  Reach (step cat) allow fun σ => ∃ now, σ = .seeded now

/-- The states that the seeded service reaches. -/
abbrev Reachable (cat : Catalog) : State → Prop := ReachableBy cat fun _ _ => True

theorem reachable_exec {cat : Catalog} {σ τ : State} {acts : List Act} (h : Reachable cat σ)
    (run : exec (step cat) σ acts = some τ) : Reachable cat τ :=
  exec_invariant_of_step (fun _ _ _ hr hstep => hr.next trivial hstep) h run

/-- Only these requests run, all of them from their first statement, on the committed tables of `σ`: every other
    transaction has ended. -/
def State.alone (σ : State) (rs : List Request) : State :=
  { σ with store := Store.fresh σ.db, sessions := rs.map fun r => ⟨σ.now, r.task⟩ }

/-- An admitted run of the seeded service whose end passes a test reaches a state that does. -/
theorem reachableBy_of_run {cat : Catalog} {allow : State → Act → Prop} {now : Time} {acts : List Act}
    {test : State → Bool} (along : Along (step cat) allow (.seeded now) acts)
    (h : (exec (step cat) (.seeded now) acts).any test = true) : ∃ σ, ReachableBy cat allow σ ∧ test σ = true :=
  reach_of_run ⟨now, rfl⟩ along h

theorem reachable_of_run {cat : Catalog} {now : Time} {acts : List Act} {test : State → Bool}
    (h : (exec (step cat) (.seeded now) acts).any test = true) : ∃ σ, Reachable cat σ ∧ test σ = true :=
  reachableBy_of_run (along_of_forall fun _ _ => trivial) h

/-- A check of all entries of a list but one. -/
instance decidableOthers {α : Type} (l : List α) (i : Nat) (P : α → Prop) [DecidablePred P] :
    Decidable (∀ (j : Nat) a, l[j]? = some a → j ≠ i → P a) :=
  decidable_of_iff (∀ x ∈ l.zipIdx, x.2 ≠ i → P x.1) <| by
    simp only [Prod.forall, List.mem_zipIdx_iff_getElem?]
    exact ⟨fun h j a ha => h a j ha, fun h a j ha => h j a ha⟩

/-! ### A small catalog -/

/-- One train with an AC compartment and another one, and two schedules that intersect. -/
def sampleCatalog : Catalog where
  users := [⟨systemUserId⟩, ⟨1⟩, ⟨2⟩]
  trains := [⟨10, "Subarna Express", "SE-701", "Dhaka", "Chittagong"⟩]
  schedules := [⟨20, 10, timedeltaHours 6, timedeltaHours 12⟩, ⟨21, 10, timedeltaHours 10, timedeltaHours 16⟩]
  compartments := [⟨30, 10, "AC-1", .ac⟩, ⟨31, 10, "NonAC-1", .nonAc⟩]
  seats := [⟨40, 30, 1, "window"⟩, ⟨41, 31, 1, "aisle"⟩]
  usersKey := by decide
  trainsKey := by decide
  schedulesKey := by decide
  compartmentsKey := by decide
  seatsKey := by decide
  schedulesTrain := by decide
  compartmentsTrain := by decide
  seatsCompartment := by decide
  systemUser := by decide

/-- Session `i` runs its next `n` statements, with `uuid` for the ids it draws. -/
def runs (i : Sid) (n : Nat) (uuid : Uuid) : List Act := List.replicate n (.run i ⟨uuid, 0, uuid⟩)

end Railbook
