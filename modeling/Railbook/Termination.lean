import Railbook.Deadlock
import Railbook.Retention
import Railbook.Sessions
import Railbook.Library.Progress

/-! Every request ends. A session has at most eleven statements to run, waits for another one only as long as that one
    has some left, and is never sent back, so whatever the interleaving no run of statements goes on for ever. -/

namespace Railbook
open ReadCommitted Transition

/-- The statements that a session has left, at most. -/
def CreatePc.remaining : CreatePc → Nat
  | checkKey => 11
  | lockSeat => 10
  | awaitSeat _ => 9
  | checkOverlap _ => 8
  | getSeat _ => 7
  | delete _ _ => 6
  | insertKey _ => 5
  | insertSeat _ => 4
  | audit _ => 3
  | commit _ => 2
  | invalidate _ => 1
  | finished _ => 0

/-- The same for `pay_booking`. -/
def PayPc.remaining : PayPc → Nat
  | lockBooking => 9
  | awaitBooking => 8
  | checkPayment _ => 7
  | attempt _ => 6
  | charge _ => 5
  | charging _ => 4
  | record _ _ _ => 3
  | commit _ => 2
  | invalidate _ => 1
  | finished _ => 0

/-- The same for `refund_booking`. -/
def RefundPc.remaining : RefundPc → Nat
  | lockBooking => 9
  | awaitBooking => 8
  | checkDeparture _ => 7
  | findPayment _ => 6
  | refund _ _ => 5
  | refunding _ _ => 4
  | record _ _ => 3
  | commit _ => 2
  | invalidate _ => 1
  | finished _ => 0

/-- The same for a cleanup pass. -/
def CleanupPc.remaining : CleanupPc → Nat
  | scan => 3
  | flush _ => 2
  | commit _ => 1
  | finished _ => 0

/-- The same for any task. -/
def Task.remaining : Task → Nat
  | create _ pc => pc.remaining
  | pay _ pc => pc.remaining
  | refund _ pc => pc.remaining
  | cleanup pc => pc.remaining

/-- The statements that all sessions together have left. -/
def State.work (σ : State) : Nat := (σ.sessions.map fun s => s.task.remaining).sum

/-- The step runs a statement of some session, or makes it fail. -/
def Act.isStatement (a : Act) : Bool := a.session?.isSome

/-- The statements of a request that arrives. -/
def Act.brings : Act → Nat
  | request r => r.task.remaining
  | _ => 0

section
variable {cat : Catalog} {σ τ : State} {i : Sid} {s : Session} {t : Task} {e : Effect} {acts : List Act}

theorem CreatePc.remaining_pos {pc : CreatePc} (h : pc.isStatement = true) : 0 < pc.remaining := by
  cases pc <;> first | exact Nat.succ_pos _ | cases h

theorem PayPc.remaining_pos {pc : PayPc} (h : pc.isStatement = true) : 0 < pc.remaining := by
  cases pc <;> first | exact Nat.succ_pos _ | cases h

theorem RefundPc.remaining_pos {pc : RefundPc} (h : pc.isStatement = true) : 0 < pc.remaining := by
  cases pc <;> first | exact Nat.succ_pos _ | cases h

theorem CleanupPc.remaining_pos {pc : CleanupPc} (h : pc.isStatement = true) : 0 < pc.remaining := by
  cases pc <;> first | exact Nat.succ_pos _ | cases h

/-- A session only goes forward. -/
theorem Move.remaining_lt (m : Move cat σ i s e t) : t.remaining < s.task.remaining := by
  cases m with
  | create m =>
    cases m with
    | failed x hx => exact CreatePc.remaining_pos hx
    | _ => simp [Task.remaining, CreatePc.remaining]
  | pay m =>
    cases m with
    | failed x hx server => exact PayPc.remaining_pos hx
    | _ => simp [Task.remaining, PayPc.remaining]
  | refund m =>
    cases m with
    | failed x hx server => exact RefundPc.remaining_pos hx
    | _ => simp [Task.remaining, RefundPc.remaining]
  | cleanup m =>
    cases m with
    | failed x hx => exact CleanupPc.remaining_pos hx
    | _ => simp [Task.remaining, CleanupPc.remaining]

theorem work_goto (hs : σ.sessions[i]? = some s) (m : Move cat σ i s e t) :
    ((σ.perform i e).goto i s t).work + 1 ≤ σ.work := by
  have hsum := sum_goto (fun s : Session => s.task.remaining) (e := e) (t := t) hs
  have hlt := m.remaining_lt
  simp only [State.work]
  simp only at hsum
  omega

theorem spends_statements (cat : Catalog) :
    Spends (step cat) (Reachable cat) Act.isStatement Act.brings State.work where
  keep hr hstep := hr.next trivial hstep
  pay := by
    intro σ a τ _ hstep
    cases step_stepped hstep with
    | request r => simp [State.work, Act.brings, Act.isStatement, Act.session?]
    | run hs hc m => exact work_goto hs m
    | raise hs hraise m => exact work_goto hs m
    | tick d => exact Nat.le_refl _
    | updateConfig failureRate latencyMs => exact Nat.le_refl _

/-- As long as not every request has been answered some session can take its next statement. -/
theorem exists_statement (hr : Reachable cat σ) (h : ¬σ.AllFinished) : ∃ a τ, (∃ i x, a = .run i x) ∧
    step cat σ a = some τ := by
  have inv := inv_of_reachableBy hr
  simp only [State.AllFinished, not_forall, Bool.not_eq_true] at h
  obtain ⟨s, hs, hf⟩ := h
  obtain ⟨i, hs⟩ := List.mem_iff_getElem?.mp hs
  obtain ⟨j, ⟨s', hs', hf'⟩, hw⟩ := inv.ranked.exists_not_waiting
    (P := fun i => ∃ s, σ.sessions[i]? = some s ∧ s.task.isFinished = false) (fun _ _ _ hw => inv.waited_for hw)
    ⟨s, hs, hf⟩
  obtain ⟨x, τ, hstep⟩ := (enabled_iff inv hs' hf').mpr (not_exists.mpr hw)
  exact ⟨_, τ, ⟨j, x, rfl⟩, hstep⟩

/-- A run has no more statements than were left before it and than its requests bring. From every reachable state
    statements alone lead to one in which every request has been answered, and where no statement can run that is
    so already. -/
theorem requests_terminate (hr : Reachable cat σ) :
    (∀ acts τ, exec (step cat) σ acts = some τ →
      τ.work + acts.countP Act.isStatement ≤ σ.work + (acts.map Act.brings).sum) ∧
      (∃ acts τ, (∀ a ∈ acts, ∃ i x, a = .run i x) ∧ exec (step cat) σ acts = some τ ∧ τ.AllFinished) ∧
      ((∀ i x, step cat σ (.run i x) = none) → σ.AllFinished) := by
  refine ⟨fun acts τ run => (spends_statements cat).exec hr run, ?_, fun hstuck => ?_⟩
  · refine (spends_statements cat).finish (P := fun a => ∃ i x, a = .run i x) ?_ exists_statement hr
    rintro a ⟨i, x, rfl⟩
    exact ⟨rfl, rfl⟩
  · by_contra h
    obtain ⟨a, τ, ⟨i, x, rfl⟩, hstep⟩ := exists_statement hr h
    rw [hstuck i x] at hstep
    cases hstep

/-- Two requests for one seat, each before its first statement. -/
theorem requests_terminate_two : ∃ σ : State, σ.work = 22 ∧ ∃ acts τ, (∀ a ∈ acts, ∃ i x, a = .run i x) ∧
    exec (step sampleCatalog) σ acts = some τ ∧ τ.AllFinished := by
  have hrun : (exec (step sampleCatalog) (.seeded 0) [.request (.create ⟨1, 20, 40, 50, none⟩),
      .request (.create ⟨2, 20, 40, 51, none⟩)]).any (fun σ : State => decide (σ.work = 22)) = true := by decide
  obtain ⟨σ, hσ, htest⟩ := reachable_of_run hrun
  exact ⟨σ, of_decide_eq_true htest, (requests_terminate hσ).2.1⟩

/-- In an infinite run in which from some time on no request arrives, and in which again and again some statement runs
    as long as one can, every request is answered. -/
theorem requests_answered {ex : Execution (step cat)} {N : Nat} (start : Reachable cat (ex.states 0))
    (arrivals : ∀ n ≥ N, ∀ r, ex.labels n ≠ .request r)
    (fair : ∀ n, (∃ i x τ, step cat (ex.states n) (.run i x) = some τ) → ∃ m ≥ n, (ex.labels m).isStatement = true) :
    ∃ M, ∀ n ≥ M, (ex.states n).AllFinished := by
  refine (spends_statements cat).completes (N := N) start (fun n hn => ?_) fun n hd => ?_
  · cases ha : ex.labels n with
    | request r => exact absurd ha (arrivals n hn r)
    | _ => rfl
  · obtain ⟨a, τ, ⟨i, x, rfl⟩, hstep⟩ := exists_statement ((spends_statements cat).inv_states start n) hd
    exact fair n ⟨i, x, τ, hstep⟩

/-- One request, and then nothing but the clock, which stands still. -/
theorem requests_answered_one : ∃ ex : Execution (step sampleCatalog),
    ex.labels 0 = .request (.create ⟨1, 20, 40, 50, none⟩) ∧ ∃ M, ∀ n ≥ M, (ex.states n).AllFinished := by
  have hrun : (exec (step sampleCatalog) (.seeded 0) (.request (.create ⟨1, 20, 40, 50, none⟩) :: runs 0 9 60)).any
      (fun σ : State => decide (∀ s ∈ σ.sessions, s.task.isFinished = true)) = true := by decide
  obtain ⟨σ, run, hend⟩ := (Option.any_eq_true _ _).mp hrun
  have hend : ∀ s ∈ σ.sessions, s.task.isFinished = true := of_decide_eq_true hend
  have hidle : step sampleCatalog σ (.tick 0) = some σ := by simp [step]
  refine ⟨.ofRun run (.tick 0) hidle, rfl, requests_answered (N := 1) (.start ⟨0, rfl⟩) ?_ ?_⟩
  · intro n hn r hr
    have hlabel : ∀ a ∈ runs 0 9 60 ++ [.tick 0], a ≠ .request r := by simp [runs]
    obtain ⟨k, rfl⟩ := Nat.exists_eq_add_of_le' hn
    refine hlabel _ ?_ hr
    show (runs 0 9 60).getD k (.tick 0) ∈ _
    rw [List.getD_eq_getElem?_getD]
    cases hk : (runs 0 9 60)[k]? with
    | none => exact List.mem_append_right _ (List.mem_singleton_self _)
    | some a => exact List.mem_append_left _ (List.mem_of_getElem? hk)
  · rintro n ⟨i, x, τ, hstep⟩
    by_cases hn : n ≤ 9
    · exact ⟨9, hn, rfl⟩
    · rw [Execution.ofRun_states (by simp [runs]; omega)] at hstep
      cases step_stepped hstep with
      | run hs hc m =>
        cases m.not_finished.symm.trans (hend _ (List.mem_of_getElem? hs))

end

end Railbook
