import Railbook.Admin.Totals

/-! `get_stats` among the transactions of the service. Each of its five statements reads the tables as they are
    committed at that time, so the totals that it returns are those of one state only when the commits between its
    statements come in the right order. -/

namespace Railbook
open Transition Readings

/-- The statements that the report has made. -/
def StatsPc.made : StatsPc → Nat
  | countTotal => 0
  | countConfirmed _ => 1
  | sumRevenue _ _ => 2
  | countCancelled _ _ _ => 3
  | countRefunded _ _ _ _ => 4
  | finished _ => 5

/-- Between the first statement and the last. -/
def StatsPc.isUnderWay (pc : StatsPc) : Bool := decide (0 < pc.made) && decide (pc.made < 5)

/-- A call of `get_stats`. `changes` are the commits that changed the totals while it was under way, each with the
    number of statements that were made before it; this is history, read by no statement. -/
structure Reporting where
  service : State
  pc : StatsPc
  changes : List (Nat × TotalsChange)

/-- What happens next: a step of the service, or the next statement of the report, which may fail. -/
inductive ReportAct where
  | service (a : Act)
  | statement
  | raise
  deriving DecidableEq, Repr

namespace Reporting
variable (ρ : Reporting)

/-- What a step of the service adds to the history. -/
def logged (a : Act) : List (Nat × TotalsChange) :=
  if ρ.pc.isUnderWay then (ρ.service.totalsChange a).toList.map fun c => (ρ.pc.made, c) else []

/-- The successful payments that committed between the second statement and the third. -/
def paidBetween : Nat := total TotalsChange.paidBookings ((ρ.changes.filter fun x => x.1 = 2).map (·.2))

/-- The refunds that committed after the second statement. -/
def refundedSince : Nat := total TotalsChange.refundedBookings ((ρ.changes.filter fun x => 2 ≤ x.1).map (·.2))

end Reporting

/-- A step of the service beside the report, or of the report. -/
def reportStep (cat : Catalog) (ρ : Reporting) : ReportAct → Option Reporting
  | .service a => do
    let service ← step cat ρ.service a
    some { ρ with service := service, changes := ρ.changes ++ ρ.logged a }
  | .statement => do
    let pc ← getStatsStatement ρ.service.db ρ.pc
    some { ρ with pc := pc }
  | .raise => if ρ.pc.made < 5 then some { ρ with pc := .finished (.error .databaseError) } else none

/-- The report is asked for. -/
def Reporting.start (σ : State) : Reporting := ⟨σ, .countTotal, []⟩

/-- The statement that reads the number of its own that a commit changes: the total for a booking that is created, the
    revenue for a payment, the cancelled and the refunded bookings. -/
def TotalsChange.readBy : TotalsChange → Nat
  | created => 1
  | paid _ => 3
  | cancelled _ => 4
  | refunded => 5

/-- The commit came when its number had been read. -/
def IsLate (x : Nat × TotalsChange) : Prop := x.2.readBy ≤ x.1

instance (x : Nat × TotalsChange) : Decidable (IsLate x) := inferInstanceAs (Decidable (_ ≤ _))

/-- After a commit that came too late for its number no commit came in time for its own, and as many payments committed
    between the second statement and the third as refunds after the second one. -/
structure Reporting.InOrder (ρ : Reporting) : Prop where
  late : ρ.changes.Pairwise fun x y => IsLate x → IsLate y
  balanced : ρ.paidBetween = ρ.refundedSince

instance Reporting.InOrder.decidable (ρ : Reporting) : Decidable ρ.InOrder :=
  decidable_of_iff ((ρ.changes.Pairwise fun x y => IsLate x → IsLate y) ∧ ρ.paidBetween = ρ.refundedSince)
    ⟨fun h => ⟨h.1, h.2⟩, fun h => ⟨h.late, h.balanced⟩⟩

/-- No booking is counted twice. -/
def Stats.Consistent (s : Stats) : Prop :=
  s.confirmedBookings + s.cancelledBookings + s.refundedBookings ≤ s.totalBookings

/-- The totals are consistent, and one state between the first statement of the run and the last has all of them. -/
structure StatsSnapshot (cat : Catalog) (σ : State) (acts : List ReportAct) (stats : Stats) : Prop where
  consistent : stats.Consistent
  snapshot : ∃ pre post υ, acts = pre ++ post ∧ exec (reportStep cat) (.start σ) pre = some υ ∧ υ.pc.isUnderWay = true ∧
    getStats υ.service.db = stats

/-- A number was read by statement `n`: it is that of the totals after the commits that came before. -/
def ReadAs (s₀ : Stats) (changes : List (Nat × TotalsChange)) (n : Nat) (P : Stats → Prop) : Prop :=
  ∃ s, s₀.After (before n changes) s ∧ P s

/-- What the report has read, when its first statement was made at the totals `s₀`. -/
def StatsPc.Read (s₀ : Stats) (changes : List (Nat × TotalsChange)) : StatsPc → Prop
  | countTotal => False
  | countConfirmed total => total = s₀.totalBookings
  | sumRevenue total confirmed => total = s₀.totalBookings ∧ ReadAs s₀ changes 2 (·.confirmedBookings = confirmed)
  | countCancelled total confirmed revenue =>
    total = s₀.totalBookings ∧ ReadAs s₀ changes 2 (·.confirmedBookings = confirmed) ∧
    ReadAs s₀ changes 3 (·.totalRevenue = revenue)
  | countRefunded total confirmed revenue cancelled => total = s₀.totalBookings ∧
    ReadAs s₀ changes 2 (·.confirmedBookings = confirmed) ∧ ReadAs s₀ changes 3 (·.totalRevenue = revenue) ∧
    ReadAs s₀ changes 4 (·.cancelledBookings = cancelled)
  | finished (.ok stats) => stats.totalBookings = s₀.totalBookings ∧
    ReadAs s₀ changes 2 (·.confirmedBookings = stats.confirmedBookings) ∧
    ReadAs s₀ changes 3 (·.totalRevenue = stats.totalRevenue) ∧
    ReadAs s₀ changes 4 (·.cancelledBookings = stats.cancelledBookings) ∧
    ReadAs s₀ changes 5 (·.refundedBookings = stats.refundedBookings)
  | finished (.error _) => True

/-- A commit that changes its own number. -/
def TotalsChange.Changes (c : TotalsChange) : Prop :=
  (∀ amount, c = .paid amount → 0 < amount) ∧ ∀ count, c = .cancelled count → 0 < count

/-- What is known of a report whose first statement was made at the totals `s₀`. -/
structure Reporting.Begun (s₀ : Stats) (ρ : Reporting) : Prop where
  sorted : ρ.changes.Pairwise fun x y => x.1 ≤ y.1
  within : ∀ x ∈ ρ.changes, (1 ≤ x.1 ∧ x.1 ≤ ρ.pc.made ∧ x.1 < 5) ∧ x.2.Changes
  current : ρ.pc.made < 5 → s₀.After (ρ.changes.map (·.2)) (getStats ρ.service.db)
  read : ρ.pc.Read s₀ ρ.changes

/-- What a step does: the service takes a step of its own, the report makes its next statement, or a
    statement raises. -/
inductive ReportStepped (cat : Catalog) (ρ : Reporting) : ReportAct → Reporting → Prop
  | service {x : Act} {σ : State} (h : step cat ρ.service x = some σ) :
    ReportStepped cat ρ (.service x) { ρ with service := σ, changes := ρ.changes ++ ρ.logged x }
  | statement {pc : StatsPc} (hpc : getStatsStatement ρ.service.db ρ.pc = some pc) :
    ReportStepped cat ρ .statement { ρ with pc := pc }
  | raise (hlt : ρ.pc.made < 5) : ReportStepped cat ρ .raise { ρ with pc := .finished (.error .databaseError) }

section
variable {cat : Catalog} {σ : State} {ρ τ υ : Reporting} {a : ReportAct} {acts : List ReportAct} {s₀ s stats : Stats}
  {changes pre post : List (Nat × TotalsChange)} {pc pc' : StatsPc} {n : Nat} {P : Stats → Prop}

theorem getStats_consistent (d : Db) : (getStats d).Consistent := by
  rw [Stats.Consistent, getStats]
  dsimp only
  induction d.bookings with
  | nil => exact Nat.le_refl 0
  | cons b l ih =>
    simp only [List.countP_cons, List.length_cons]
    cases b.status <;> simp <;> omega

theorem StatsPc.isUnderWay_iff : pc.isUnderWay = true ↔ 0 < pc.made ∧ pc.made < 5 := by
  rw [isUnderWay, Bool.and_eq_true, decide_eq_true_eq, decide_eq_true_eq]

/-! ### One step -/

theorem reportStep_stepped (hstep : reportStep cat ρ a = some υ) : ReportStepped cat ρ a υ := by
  cases a with
  | service x =>
    obtain ⟨σ, h, hυ⟩ := Option.bind_eq_some_iff.mp hstep
    cases hυ
    exact .service h
  | statement =>
    obtain ⟨pc, hpc, hυ⟩ := Option.bind_eq_some_iff.mp hstep
    cases hυ
    exact .statement hpc
  | raise =>
    rw [reportStep] at hstep
    split at hstep
    next hlt =>
      cases hstep
      exact .raise hlt
    next => cases hstep

theorem ReadAs.snoc {x : Nat × TotalsChange} (h : ReadAs s₀ changes n P) (hx : n ≤ x.1) :
    ReadAs s₀ (changes ++ [x]) n P := by
  rwa [ReadAs, before_snoc hx]

/-- A commit after the statements that were made leaves what they read. -/
theorem StatsPc.Read.snoc {x : Nat × TotalsChange} (h : pc.Read s₀ changes) (hx : pc.made ≤ x.1) :
    pc.Read s₀ (changes ++ [x]) := by
  cases pc with
  | countTotal => exact h
  | countConfirmed t => exact h
  | sumRevenue t c => exact ⟨h.1, h.2.snoc hx⟩
  | countCancelled t c r => exact ⟨h.1, h.2.1.snoc (Nat.le_of_succ_le hx), h.2.2.snoc hx⟩
  | countRefunded t c r n => exact ⟨h.1, h.2.1.snoc (Nat.le_trans (show 2 ≤ 4 by decide) hx),
      h.2.2.1.snoc (Nat.le_of_succ_le hx), h.2.2.2.snoc hx⟩
  | finished answer =>
    cases answer with
    | error e => trivial
    | ok stats => exact ⟨h.1, h.2.1.snoc (Nat.le_trans (show 2 ≤ 5 by decide) hx),
        h.2.2.1.snoc (Nat.le_trans (show 3 ≤ 5 by decide) hx), h.2.2.2.1.snoc (Nat.le_of_succ_le hx), h.2.2.2.2.snoc hx⟩

theorem getStatsStatement_made {d : Db} (h : getStatsStatement d pc = some pc') :
    pc.made < 5 ∧ pc'.made = pc.made + 1 := by
  cases pc <;> cases h <;> simp [StatsPc.made]

/-- A statement of the report reads the totals of the state that it runs in. -/
theorem Reporting.Begun.statement {d : Db} (h : ρ.Begun s₀) (hd : ρ.service.db = d)
    (hpc : getStatsStatement d ρ.pc = some pc') :
    Reporting.Begun s₀ { ρ with pc := pc' } := by
  obtain ⟨hmade, hmade'⟩ := getStatsStatement_made hpc
  have hnow : s₀.After (before (ρ.pc.made + 1) ρ.changes) (getStats d) := by
    rw [before_eq fun x hx => Nat.lt_succ_of_le (h.within x hx).1.2.1, ← hd]
    exact h.current hmade
  have hread := h.read
  refine ⟨h.sorted, fun x hx => ?_, fun _ => h.current hmade, ?_⟩
  · obtain ⟨⟨hpos, hle, hlt⟩, hchanges⟩ := h.within x hx
    exact ⟨⟨hpos, by rw [hmade']; exact Nat.le_succ_of_le hle, hlt⟩, hchanges⟩
  · cases hρ : ρ.pc with
    | countTotal =>
      rw [hρ] at hread
      exact hread.elim
    | countConfirmed t =>
      rw [hρ] at hpc hread hnow
      cases hpc
      exact ⟨hread, _, hnow, rfl⟩
    | sumRevenue t c =>
      rw [hρ] at hpc hread hnow
      cases hpc
      exact ⟨hread.1, hread.2, _, hnow, rfl⟩
    | countCancelled t c r =>
      rw [hρ] at hpc hread hnow
      cases hpc
      exact ⟨hread.1, hread.2.1, hread.2.2, _, hnow, rfl⟩
    | countRefunded t c r x =>
      rw [hρ] at hpc hread hnow
      cases hpc
      exact ⟨hread.1, hread.2.1, hread.2.2.1, hread.2.2.2, _, hnow, rfl⟩
    | finished answer =>
      rw [hρ] at hpc
      cases hpc

theorem Reporting.Begun.pos (h : ρ.Begun s₀) : 0 < ρ.pc.made := by
  have hread := h.read
  cases hρ : ρ.pc with
  | countTotal =>
    rw [hρ] at hread
    exact hread.elim
  | _ => exact Nat.succ_pos _

/-- A step of the service moves the totals by what it adds to the history. -/
theorem Reporting.Begun.service {x : Act} {υ : State} (h : ρ.Begun s₀) (hr : Reachable cat ρ.service)
    (hstep : step cat ρ.service x = some υ) :
    Reporting.Begun s₀ { ρ with service := υ, changes := ρ.changes ++ ρ.logged x } := by
  have hafter := step_totals hr hstep
  by_cases hway : ρ.pc.isUnderWay = true
  · have hmade := StatsPc.isUnderWay_iff.mp hway
    rw [logged, if_pos hway]
    cases hc : ρ.service.totalsChange x with
    | none =>
      rw [hc] at hafter
      rw [Option.toList_none, List.map_nil, List.append_nil]
      refine ⟨h.sorted, h.within, fun hlt => ?_, h.read⟩
      have hnow := (h.current hlt).trans hafter
      rwa [Option.toList_none, List.append_nil] at hnow
    | some c =>
      rw [hc] at hafter
      refine ⟨?_, ?_, fun hlt => ?_, h.read.snoc (Nat.le_refl _)⟩
      · refine List.pairwise_append.mpr ⟨h.sorted, List.pairwise_singleton _ _, fun y hy z hz => ?_⟩
        obtain rfl := List.mem_singleton.mp hz
        exact (h.within y hy).1.2.1
      · intro y hy
        rcases List.mem_append.mp hy with hy | hy
        · exact h.within y hy
        · obtain rfl := List.mem_singleton.mp hy
          exact ⟨⟨hmade.1, Nat.le_refl _, hmade.2⟩, totalsChange_pos hr hc⟩
      · rw [List.map_append]
        exact (h.current hlt).trans hafter
  · rw [logged, if_neg hway, List.append_nil]
    exact ⟨h.sorted, h.within, fun hlt => absurd (StatsPc.isUnderWay_iff.mpr ⟨h.pos, hlt⟩) hway, h.read⟩

/-- What is known of a report: it has not begun, or it has at some totals. -/
structure Reporting.Known (cat : Catalog) (ρ : Reporting) : Prop where
  reachable : Reachable cat ρ.service
  begun : ρ.pc = .countTotal ∧ ρ.changes = [] ∨ ∃ s₀, ρ.Begun s₀

/-- A report that has begun at some totals goes on from these. -/
theorem Reporting.Begun.step (h : ρ.Begun s₀) (hr : Reachable cat ρ.service) (hstep : reportStep cat ρ a = some υ) :
    υ.Begun s₀ := by
  cases reportStep_stepped hstep with
  | service hs => exact h.service hr hs
  | statement hpc => exact h.statement rfl hpc
  | raise hlt =>
    refine ⟨h.sorted, fun x hx => ?_, fun hlt => absurd hlt (Nat.lt_irrefl 5), trivial⟩
    obtain ⟨⟨hpos, -, hx5⟩, hchanges⟩ := h.within x hx
    exact ⟨⟨hpos, Nat.le_of_lt hx5, hx5⟩, hchanges⟩

theorem reportStep_reachable (hr : Reachable cat ρ.service) (hstep : reportStep cat ρ a = some υ) :
    Reachable cat υ.service := by
  cases reportStep_stepped hstep with
  | service hs => exact hr.next trivial hs
  | statement hpc => exact hr
  | raise hlt => exact hr

/-- With no commit behind it a report begins at the totals that are committed now. -/
theorem Reporting.Begun.start (hchanges : ρ.changes = []) (hread : ρ.pc.Read (getStats ρ.service.db) []) :
    ρ.Begun (getStats ρ.service.db) where
  sorted := by
    rw [hchanges]
    exact .nil
  within := by
    rw [hchanges]
    rintro x hx
    cases hx
  current _ := by
    rw [hchanges]
    exact .refl _
  read := by rwa [hchanges]

/-- The first statement begins the report at the totals that are committed then. -/
theorem Reporting.Known.step (h : ρ.Known cat) (hstep : reportStep cat ρ a = some υ) : υ.Known cat := by
  refine ⟨reportStep_reachable h.reachable hstep, ?_⟩
  rcases h.begun with ⟨hpc, hchanges⟩ | ⟨s₀, hb⟩
  · cases reportStep_stepped hstep with
    | service hs =>
      refine Or.inl ⟨hpc, ?_⟩
      rw [logged, hpc, hchanges]
      rfl
    | statement hpc' =>
      rw [hpc] at hpc'
      cases hpc'
      exact Or.inr ⟨_, .start hchanges rfl⟩
    | raise hlt => exact Or.inr ⟨_, .start hchanges trivial⟩
  · exact Or.inr ⟨s₀, hb.step h.reachable hstep⟩

/-! ### A run -/

theorem Reporting.Known.exec (h : ρ.Known cat) (run : exec (reportStep cat) ρ acts = some τ) : τ.Known cat :=
  exec_invariant_of_step (fun _ _ _ hk hstep => hk.step hstep) h run

theorem Reporting.Begun.exec (h : ρ.Begun s₀) (hr : Reachable cat ρ.service)
    (run : exec (reportStep cat) ρ acts = some τ) :
    τ.Begun s₀ := by
  refine (exec_invariant_of_step (I := fun υ => Reachable cat υ.service ∧ υ.Begun s₀) ?_ ⟨hr, h⟩ run).2
  rintro υ a υ' ⟨hυ, hb⟩ hstep
  exact ⟨reportStep_reachable hυ hstep, hb.step hυ hstep⟩

theorem reportStep_finished (hpc : ρ.pc.made = 5) (hstep : reportStep cat ρ a = some υ) :
    υ.pc = ρ.pc ∧ υ.changes = ρ.changes := by
  cases reportStep_stepped hstep with
  | service hs =>
    have hway : ρ.pc.isUnderWay = false := by rw [StatsPc.isUnderWay, hpc]; rfl
    rw [Reporting.logged, hway]
    exact ⟨rfl, List.append_nil _⟩
  | statement hpc' => exact absurd hpc (Nat.ne_of_lt (getStatsStatement_made hpc').1)
  | raise hlt => exact absurd hpc (Nat.ne_of_lt hlt)

theorem exec_finished (hpc : ρ.pc.made = 5) (run : exec (reportStep cat) ρ acts = some τ) :
    τ.pc = ρ.pc ∧ τ.changes = ρ.changes := by
  refine exec_invariant_of_step (I := fun υ => υ.pc = ρ.pc ∧ υ.changes = ρ.changes) ?_ ⟨rfl, rfl⟩ run
  rintro υ a υ' ⟨hυ, hc⟩ hstep
  obtain ⟨hυ', hc'⟩ := reportStep_finished (by rw [hυ]; exact hpc) hstep
  exact ⟨hυ'.trans hυ, hc'.trans hc⟩

/-- One step adds at most one commit to the history, and none when the report is not under way. -/
theorem reportStep_changes (hstep : reportStep cat ρ a = some υ) :
    υ.changes = ρ.changes ∨ ρ.pc.isUnderWay = true ∧ υ.pc = ρ.pc ∧ ∃ x, υ.changes = ρ.changes ++ [x] := by
  cases reportStep_stepped hstep with
  | @service x _ _ =>
    rw [Reporting.logged]
    split
    next hway =>
      cases ρ.service.totalsChange x with
      | none => exact Or.inl (List.append_nil _)
      | some c => exact Or.inr ⟨hway, rfl, _, rfl⟩
    next => exact Or.inl (List.append_nil _)
  | statement hpc => exact Or.inl rfl
  | raise hlt => exact Or.inl rfl

theorem exec_changes (run : exec (reportStep cat) ρ acts = some τ) : ρ.changes <+: τ.changes := by
  refine exec_invariant_of_step (I := fun υ => ρ.changes <+: υ.changes) ?_ (List.prefix_refl _) run
  intro υ a υ' hυ hstep
  rcases reportStep_changes hstep with hc | ⟨-, -, x, hc⟩
  · rwa [hc]
  · rw [hc]
    exact hυ.trans (List.prefix_append _ _)

/-- A report goes from one statement to the next, or ends with an error. -/
theorem reportStep_made (hstep : reportStep cat ρ a = some υ) (hlt : ρ.pc.made < 5) :
    υ.pc.made < 5 ∨ υ.pc.made = 5 ∧ (0 < ρ.pc.made ∨ υ.pc = .finished (.error .databaseError)) := by
  cases reportStep_stepped hstep with
  | service hs => exact Or.inl hlt
  | @statement pc hpc =>
    have hmade := (getStatsStatement_made hpc).2
    rcases Nat.lt_or_ge pc.made 5 with h | h
    · exact Or.inl h
    · exact Or.inr ⟨Nat.le_antisymm (hmade ▸ hlt) h, Or.inl (by omega)⟩
  | raise hlt => exact Or.inr ⟨rfl, Or.inr rfl⟩

/-- Whatever of the history had come: at that time there was a state with the report under way. -/
theorem exists_state_of_changes (hlt : ρ.pc.made < 5) (run : exec (reportStep cat) ρ acts = some τ)
    (hpc : τ.pc = .finished (.ok stats)) (hpre : ρ.changes <+: pre) (hτ : pre <+: τ.changes) :
    ∃ before after υ, acts = before ++ after ∧ exec (reportStep cat) ρ before = some υ ∧ υ.pc.isUnderWay = true ∧
      υ.changes = pre ∧ exec (reportStep cat) υ after = some τ := by
  induction acts generalizing ρ with
  | nil =>
    cases run
    rw [hpc] at hlt
    exact absurd hlt (Nat.lt_irrefl 5)
  | cons a acts ih =>
    by_cases hnow : ρ.changes = pre ∧ ρ.pc.isUnderWay = true
    · exact ⟨[], a :: acts, ρ, rfl, rfl, hnow.2, hnow.1, run⟩
    · obtain ⟨υ, hυ, run'⟩ := Option.bind_eq_some_iff.mp run
      rcases reportStep_made hυ hlt with hlt' | ⟨hmade, hway⟩
      · have hpre' : υ.changes <+: pre := by
          rcases reportStep_changes hυ with hc | ⟨hway, -, x, hc⟩
          · rw [hc]
            exact hpre
          · have hlen : ρ.changes.length < pre.length := by
              refine Nat.lt_of_le_of_ne hpre.length_le fun hlen => hnow ⟨hpre.eq_of_length hlen, hway⟩
            refine List.prefix_of_prefix_length_le (exec_changes run') hτ ?_
            rw [hc, List.length_append]
            exact hlen
        obtain ⟨before, after, ν, rfl, hbefore, hν⟩ := ih hlt' run' hpre'
        exact ⟨a :: before, after, ν, rfl, by simpa [hυ] using hbefore, hν⟩
      · obtain ⟨hτpc, hτc⟩ := exec_finished hmade run'
        rcases hway with hpos | herr
        · -- The last statement adds nothing to the history.
          have hc : υ.changes = ρ.changes := by
            rcases reportStep_changes hυ with hc | ⟨-, hsame, -⟩
            · exact hc
            · exact absurd (hsame ▸ hmade) (Nat.ne_of_lt hlt)
          rw [hτc, hc] at hτ
          exact absurd ⟨hpre.eq_of_length_le hτ.length_le, StatsPc.isUnderWay_iff.mpr ⟨hpos, hlt⟩⟩ hnow
        · rw [hτpc, herr] at hpc
          cases hpc

/-! ### The totals of one state -/

/-- A commit changes the number of its own, and the confirmed bookings at most besides. -/
theorem TotalsChange.Changes.zero_iff {c : TotalsChange} (h : c.Changes) :
    (c.createdBookings = 0 ↔ c.readBy ≠ 1) ∧ (c.revenue = 0 ↔ c.readBy ≠ 3) ∧ (c.cancelledBookings = 0 ↔ c.readBy ≠ 4) ∧
      (c.refundedBookings = 0 ↔ c.readBy ≠ 5) := by
  cases c with
  | created => exact ⟨by decide, by decide, by decide, by decide⟩
  | paid amount =>
    have hpos := h.1 amount rfl
    simp [readBy, createdBookings, revenue, cancelledBookings, refundedBookings, Nat.ne_of_gt hpos]
  | cancelled count =>
    have hpos := h.2 count rfl
    simp [readBy, createdBookings, revenue, cancelledBookings, refundedBookings, Nat.ne_of_gt hpos]
  | refunded => exact ⟨by decide, by decide, by decide, by decide⟩

theorem TotalsChange.readBy_mem (c : TotalsChange) : c.readBy = 1 ∨ c.readBy = 3 ∨ c.readBy = 4 ∨ c.readBy = 5 := by
  cases c <;> simp [readBy]

/-- A commit is in time when each number that it changes had still to be read. -/
theorem not_isLate_iff {x : Nat × TotalsChange} (h : x.2.Changes) : ¬IsLate x ↔
    (1 ≤ x.1 → x.2.createdBookings = 0) ∧ (3 ≤ x.1 → x.2.revenue = 0) ∧ (4 ≤ x.1 → x.2.cancelledBookings = 0) ∧
      (5 ≤ x.1 → x.2.refundedBookings = 0) := by
  obtain ⟨hcreated, hrevenue, hcancelled, hrefunded⟩ := h.zero_iff
  have hread := x.2.readBy_mem
  rw [IsLate, hcreated, hrevenue, hcancelled, hrefunded]
  omega

theorem isLate_iff {x : Nat × TotalsChange} (h : x.2.Changes) : IsLate x ↔
    (x.1 < 1 → x.2.createdBookings = 0) ∧ (x.1 < 3 → x.2.revenue = 0) ∧ (x.1 < 4 → x.2.cancelledBookings = 0) ∧
      (x.1 < 5 → x.2.refundedBookings = 0) := by
  obtain ⟨hcreated, hrevenue, hcancelled, hrefunded⟩ := h.zero_iff
  have hread := x.2.readBy_mem
  rw [IsLate, hcreated, hrevenue, hcancelled, hrefunded]
  omega

theorem paid_eq_zero_iff {c : TotalsChange} (h : c.Changes) : c.paidBookings = 0 ↔ c.revenue = 0 := by
  cases c with
  | paid amount =>
    have hpos := h.1 amount rfl
    simp [TotalsChange.paidBookings, TotalsChange.revenue, Nat.ne_of_gt hpos]
  | _ => exact Iff.rfl

theorem Stats.eq_iff {s s' : Stats} : s = s' ↔ s.totalBookings = s'.totalBookings ∧
    s.confirmedBookings = s'.confirmedBookings ∧
    s.cancelledBookings = s'.cancelledBookings ∧ s.refundedBookings = s'.refundedBookings ∧
      s.totalRevenue = s'.totalRevenue := by
  cases s
  cases s'
  simp only [Stats.mk.injEq]

/-- The four numbers that each commit changes at most one of. -/
theorem inTime_iff {q : List (Nat × TotalsChange)} (hsorted : (pre ++ q).Pairwise fun x y => x.1 ≤ y.1)
    (hwithin : ∀ x ∈ pre ++ q, x.2.Changes) :
    (total TotalsChange.createdBookings (pre.map (·.2)) = total TotalsChange.createdBookings (before 1 (pre ++ q)) ∧
      total TotalsChange.revenue (pre.map (·.2)) = total TotalsChange.revenue (before 3 (pre ++ q)) ∧
      total TotalsChange.cancelledBookings (pre.map (·.2)) =
        total TotalsChange.cancelledBookings (before 4 (pre ++ q)) ∧
      total TotalsChange.refundedBookings (pre.map (·.2)) = total TotalsChange.refundedBookings (before 5 (pre ++ q))) ↔
      (∀ x ∈ pre, ¬IsLate x) ∧ ∀ x ∈ q, IsLate x := by
  rw [total_eq_iff hsorted, total_eq_iff hsorted, total_eq_iff hsorted, total_eq_iff hsorted]
  have hpre : ∀ x ∈ pre, x.2.Changes := fun x hx => hwithin x (List.mem_append_left _ hx)
  have hq : ∀ x ∈ q, x.2.Changes := fun x hx => hwithin x (List.mem_append_right _ hx)
  constructor
  · rintro ⟨⟨h₁, h₁'⟩, ⟨h₃, h₃'⟩, ⟨h₄, h₄'⟩, h₅, h₅'⟩
    refine ⟨fun x hx => ?_, fun x hx => ?_⟩
    · exact (not_isLate_iff (hpre x hx)).mpr ⟨h₁ x hx, h₃ x hx, h₄ x hx, h₅ x hx⟩
    · exact (isLate_iff (hq x hx)).mpr ⟨h₁' x hx, h₃' x hx, h₄' x hx, h₅' x hx⟩
  · rintro ⟨hin, hlate⟩
    refine ⟨⟨fun x hx => ?_, fun x hx => ?_⟩, ⟨fun x hx => ?_, fun x hx => ?_⟩, ⟨fun x hx => ?_, fun x hx => ?_⟩,
      fun x hx => ?_, fun x hx => ?_⟩
    · exact ((not_isLate_iff (hpre x hx)).mp (hin x hx)).1
    · exact ((isLate_iff (hq x hx)).mp (hlate x hx)).1
    · exact ((not_isLate_iff (hpre x hx)).mp (hin x hx)).2.1
    · exact ((isLate_iff (hq x hx)).mp (hlate x hx)).2.1
    · exact ((not_isLate_iff (hpre x hx)).mp (hin x hx)).2.2.1
    · exact ((isLate_iff (hq x hx)).mp (hlate x hx)).2.2.1
    · exact ((not_isLate_iff (hpre x hx)).mp (hin x hx)).2.2.2
    · exact ((isLate_iff (hq x hx)).mp (hlate x hx)).2.2.2

theorem paid_of_revenue {q : List (Nat × TotalsChange)} (hsorted : (pre ++ q).Pairwise fun x y => x.1 ≤ y.1)
    (hwithin : ∀ x ∈ pre ++ q, x.2.Changes)
    (h : total TotalsChange.revenue (pre.map (·.2)) = total TotalsChange.revenue (before 3 (pre ++ q))) :
    total TotalsChange.paidBookings (pre.map (·.2)) = total TotalsChange.paidBookings (before 3 (pre ++ q)) := by
  obtain ⟨hpre, hq⟩ := (total_eq_iff hsorted).mp h
  refine (total_eq_iff hsorted).mpr ⟨fun x hx hn => ?_, fun x hx hn => ?_⟩
  · exact (paid_eq_zero_iff (hwithin x (List.mem_append_left _ hx))).mpr (hpre x hx hn)
  · exact (paid_eq_zero_iff (hwithin x (List.mem_append_right _ hx))).mpr (hq x hx hn)

/-- A history cut in two: the totals that were reported are those at the cut exactly when every commit before it came in
    time, every commit behind it came too late, and the confirmed bookings come out even. -/
theorem getStats_eq_iff {q : List (Nat × TotalsChange)} (hυ : υ.Begun s₀) (hlt : υ.pc.made < 5) (hτ : τ.Begun s₀)
    (hpc : τ.pc = .finished (.ok stats)) (hq : τ.changes = υ.changes ++ q) : getStats υ.service.db = stats ↔
      ((∀ x ∈ υ.changes, ¬IsLate x) ∧ ∀ x ∈ q, IsLate x) ∧ τ.paidBetween = τ.refundedSince := by
  have hnow := hυ.current hlt
  have hread := hτ.read
  rw [hpc, hq] at hread
  obtain ⟨htotal, ⟨s₂, h₂, hconfirmed⟩, ⟨s₃, h₃, hrevenue⟩, ⟨s₄, h₄, hcancelled⟩, s₅, h₅, hrefunded⟩ := hread
  have hsorted := hτ.sorted
  rw [hq] at hsorted
  have hwithin := hτ.within
  rw [hq] at hwithin
  have hchanges : ∀ x ∈ υ.changes ++ q, x.2.Changes := fun x hx => (hwithin x hx).2
  have hfirst : total TotalsChange.createdBookings (before 1 (υ.changes ++ q)) = 0 := by
    refine total_eq_zero.mpr fun c hc => ?_
    obtain ⟨m, hm, hlt⟩ := mem_before.mp hc
    exact absurd (hwithin _ hm).1.1 (Nat.not_le.mpr hlt)
  -- The refunds are read last, so all those of the history have been.
  have hlast : before 5 (υ.changes ++ q) = (υ.changes ++ q).map (·.2) := before_eq fun x hx => (hwithin x hx).1.2.2
  have hbetween : total TotalsChange.paidBookings (before 3 (υ.changes ++ q)) =
      total TotalsChange.paidBookings (before 2 (υ.changes ++ q)) + τ.paidBetween := by
    rw [Reporting.paidBetween, hq]
    exact total_before_succ 2
  have hsince : total TotalsChange.refundedBookings (before 5 (υ.changes ++ q)) =
      total TotalsChange.refundedBookings (before 2 (υ.changes ++ q)) + τ.refundedSince := by
    rw [Reporting.refundedSince, hq, hlast]
    exact total_split 2
  have hcnow := hnow.confirmedBookings
  have hcread := h₂.confirmedBookings
  rw [Stats.eq_iff, ← inTime_iff hsorted hchanges, hnow.totalBookings, htotal, hnow.cancelledBookings, ← hcancelled,
    h₄.cancelledBookings, hnow.refundedBookings, ← hrefunded, h₅.refundedBookings, hnow.totalRevenue, ← hrevenue,
    h₃.totalRevenue, hfirst, ← hconfirmed]
  have hpaid := paid_of_revenue hsorted hchanges
  constructor
  · rintro ⟨hc, hconf, hx, hr, hv⟩
    have hv' := Nat.add_left_cancel hv
    have hp := hpaid hv'
    refine ⟨⟨Nat.add_left_cancel hc, hv', Nat.add_left_cancel hx, Nat.add_left_cancel hr⟩, ?_⟩
    omega
  · rintro ⟨⟨hc, hv, hx, hr⟩, heven⟩
    have hp := hpaid hv
    refine ⟨by rw [hc, Nat.add_zero], ?_, by rw [hx], by rw [hr], by rw [hv]⟩
    omega

/-- The totals of a report are consistent and those of one state between its first statement and its last exactly when
    the commits between its statements came in order. -/
theorem stats_snapshot_iff {τ : Reporting} (hr : Reachable cat σ) (run : exec (reportStep cat) (.start σ) acts = some τ)
    (hpc : τ.pc = .finished (.ok stats)) : StatsSnapshot cat σ acts stats ↔ τ.InOrder := by
  have hstart : (Reporting.start σ).Known cat := ⟨hr, Or.inl ⟨rfl, rfl⟩⟩
  constructor
  · rintro ⟨-, pre, post, υ, rfl, hpre, hway, hstats⟩
    have hυ : υ.Known cat := hstart.exec hpre
    obtain ⟨hpos, hlt⟩ := StatsPc.isUnderWay_iff.mp hway
    rw [exec_append, hpre, Option.bind_some] at run
    rcases hυ.begun with ⟨hυpc, -⟩ | ⟨s₀, hb⟩
    · rw [hυpc] at hpos
      exact absurd hpos (Nat.lt_irrefl 0)
    · obtain ⟨q, hq⟩ := exec_changes run
      obtain ⟨⟨hin, hlate⟩, heven⟩ := (getStats_eq_iff hb hlt (hb.exec hυ.reachable run) hpc hq.symm).mp hstats
      exact ⟨exists_cut_iff.mp ⟨υ.changes, q, hq.symm, hin, hlate⟩, heven⟩
  · intro h
    obtain ⟨pre, q, hq, hin, hlate⟩ := exists_cut_iff.mpr h.late
    have hlt₀ : (Reporting.start σ).pc.made < 5 := Nat.zero_lt_succ 4
    obtain ⟨acts₁, acts₂, υ, rfl, hυ, hway, hchanges, run'⟩ :=
      exists_state_of_changes hlt₀ run hpc List.nil_prefix (hq ▸ List.prefix_append pre q)
    have hk : υ.Known cat := hstart.exec hυ
    obtain ⟨hpos, hlt⟩ := StatsPc.isUnderWay_iff.mp hway
    rcases hk.begun with ⟨hυpc, -⟩ | ⟨s₀, hb⟩
    · rw [hυpc] at hpos
      exact absurd hpos (Nat.lt_irrefl 0)
    · rw [← hchanges] at hq hin
      have hstats := (getStats_eq_iff hb hlt (hb.exec hk.reachable run') hpc hq).mpr ⟨⟨hin, hlate⟩, h.balanced⟩
      exact ⟨hstats ▸ getStats_consistent _, acts₁, acts₂, υ, rfl, hυ, hway, hstats⟩

/-- A payment commits before the second statement, and another booking behind the third one. -/
theorem stats_snapshot_in_order : ∃ σ acts τ stats, Reachable sampleCatalog σ ∧
    exec (reportStep sampleCatalog) (.start σ) acts = some τ ∧ τ.pc = .finished (.ok stats) ∧ τ.changes.length = 2 ∧
    StatsSnapshot sampleCatalog σ acts stats := by
  have hrun : (exec (step sampleCatalog) (.seeded 0) (.request (.create ⟨1, 20, 40, 50, none⟩) :: runs 0 9 60 ++
      .request (.pay ⟨60, 1, 70, none⟩) :: runs 1 7 80 ++ .request (.create ⟨2, 20, 41, 51, none⟩) :: runs 2 7 61)).any
      (fun σ : State => (exec (reportStep sampleCatalog) (.start σ) ([.statement] ++ (runs 1 2 80).map .service ++
        [.statement, .statement] ++ (runs 2 2 61).map .service ++ [.statement, .statement])).any fun τ : Reporting =>
          decide (τ.pc = .finished (.ok ⟨1, 1, 0, 0, 150000⟩) ∧ τ.changes.length = 2 ∧ τ.InOrder)) = true := by
    decide
  obtain ⟨σ, hσ, htest⟩ := reachable_of_run hrun
  obtain ⟨τ, run, htest⟩ := (Option.any_eq_true _ _).mp htest
  obtain ⟨hpc, hlen, horder⟩ := of_decide_eq_true htest
  exact ⟨σ, _, τ, _, hσ, run, hpc, hlen, (stats_snapshot_iff hσ run hpc).mpr horder⟩

/-- The total is counted before a booking is made and paid for, and the confirmed bookings after that: one of none. -/
theorem stats_not_snapshot : ¬∀ cat σ acts τ stats, Reachable cat σ → exec (reportStep cat) (.start σ) acts = some τ →
    τ.pc = .finished (.ok stats) → StatsSnapshot cat σ acts stats := by
  intro h
  have hrun : (exec (reportStep sampleCatalog) (.start (.seeded 0)) ([.statement] ++
      (.request (.create ⟨1, 20, 40, 50, none⟩) :: runs 0 9 60 ++ .request (.pay ⟨60, 1, 70, none⟩) ::
        runs 1 9 80).map .service ++
        [.statement, .statement, .statement, .statement])).any
      (fun τ : Reporting => decide (τ.pc = .finished (.ok ⟨0, 1, 0, 0, 150000⟩))) = true := by
    decide
  obtain ⟨τ, run, htest⟩ := (Option.any_eq_true _ _).mp hrun
  have hcons := (h sampleCatalog (.seeded 0) _ τ _ (.start ⟨0, rfl⟩) run (of_decide_eq_true htest)).consistent
  exact absurd hcons (Nat.not_succ_le_zero 0)

end

end Railbook
