import Railbook.Races

/-! Requests of different users for one free seat (`docs/architecture/CONCURRENCY.md`, problem 1). `SELECT .. FOR
    UPDATE` locks nothing while the pair has no row, so every request that looks before the first commit goes on to
    its insert. -/

namespace Railbook
open ReadCommitted Transition

/-- The statements after a look-up of the row that found none. -/
def CreatePc.isUnlocked : CreatePc → Bool
  | checkOverlap none | getSeat none | insertKey _ | insertSeat _ | audit _ | commit _ => true
  | _ => false

/-- The row lock of `create_booking` is there to answer later requests with 409. -/
def rowLock : Guard where
  gate := .lockSeat
  Passes d q := ∀ b ∈ d.bookings, ¬(b.scheduleId = q.scheduleId ∧ b.seatId = q.seatId)
  inside := CreatePc.isUnlocked
  Fair _ r := ∃ detail, r = .error (httpError 409 detail)

/-- Requests of different users under different keys for one pair, each of which would pass on its own. -/
structure Rivals (cat : Catalog) (d : Db) (rs : List CreateRequest) (scheduleId seatId : Uuid) : Prop where
  bookable : ∀ q ∈ rs, Bookable cat d q
  pair : ∀ q ∈ rs, q.scheduleId = scheduleId ∧ q.seatId = seatId
  users : (rs.map (·.userId)).Nodup
  keys : (rs.map (·.idempotencyKey)).Nodup

/-- One request has returned a booking, which is the only row for the pair, and every other one has ended with 409. -/
def State.OneWinner (σ : State) (scheduleId seatId : Uuid) : Prop :=
  ∃ (w : Sid) (began : Time) (q : CreateRequest) (b : Booking),
    σ.sessions[w]? = some ⟨began, .create q (.finished (.ok b))⟩ ∧
    (σ.db.bookings.filter fun b => b.scheduleId = scheduleId ∧ b.seatId = seatId) = [b] ∧
    ∀ (i : Sid) s, i ≠ w → σ.sessions[i]? = some s →
      ∃ began q detail, s = ⟨began, .create q (.finished (.error (httpError 409 detail)))⟩

/-- A request that finds no row for the pair is the only one that is past this look-up and not yet committed. -/
abbrev LocksAlone : State → Act → Prop := rowLock.EntersAlone

section
variable {cat : Catalog} {σ τ : State} {d : Db} {rs : List CreateRequest} {s x : Uuid} {acts : List Act}

theorem Rivals.contest (h : Rivals cat d rs s x) : Contest cat d rs where
  bookable := h.bookable
  pair q hq q' hq' :=
    ⟨(h.pair q hq).1.trans (h.pair q' hq').1.symm, (h.pair q hq).2.trans (h.pair q' hq').2.symm⟩

/-- Different requests have different values of a column without duplicates. -/
theorem ne_of_nodup_map {α β : Type} {f : α → β} {l : List α} {i j : Nat} {a b : α} (h : (l.map f).Nodup) (hne : i ≠ j)
    (hi : l[i]? = some a) (hj : l[j]? = some b) : f a ≠ f b := by
  intro hf
  have hi' : (l.map f)[i]? = some (f a) := by rw [List.getElem?_map, hi, Option.map_some]
  have hj' : (l.map f)[j]? = some (f a) := by rw [List.getElem?_map, hj, Option.map_some, hf]
  have hlt := (List.getElem?_eq_some_iff.mp hi').1
  exact hne ((List.getElem?_inj hlt h).mp (hi'.trans hj'.symm))

/-- A request that found no row never gets 409 afterwards, and one that has not looked yet gets nothing else. -/
theorem rowLock_fits (h : Rivals cat d rs s x) : rowLock.Fits cat d rs where
  gate_racing := rfl
  gate_unwritten := rfl
  gate_outside := rfl
  start_outside := rfl
  commit_inside _ := rfl
  invalidate_outside _ := rfl
  finished_outside _ := rfl
  passes q book := book.vacant
  stops {i j q q' b d'} hne hi hj builds hb passes := by
    have hq := h.pair q (List.mem_of_getElem? hi)
    have hq' := h.pair q' (List.mem_of_getElem? hj)
    exact passes b hb ⟨builds.scheduleId.trans (hq'.1.trans hq.1.symm), builds.seatId.trans (hq'.2.trans hq.2.symm)⟩
  enters m hout := by cases m <;> simp_all [rowLock, CreatePc.isUnlocked]
  stays m hin := by cases m <;> simp_all [rowLock, CreatePc.isUnlocked]
  fails {i j q q' b pc pc'} hne hi hj builds m hin := by
    cases m with
    | overlapping hu => exact absurd (builds.userId.symm.trans hu).symm (ne_of_nodup_map h.users hne hi hj)
    | disjoint => exact Or.inl rfl
    | priced b' => exact Or.inl rfl
    | keyed b' b'' hk => exact Or.inl rfl
    | keyTaken b' hk => exact Or.inr ⟨_, rfl, fun ⟨_, he⟩ => nomatch he⟩
    | seatTaken b' => exact Or.inr ⟨_, rfl, fun ⟨_, he⟩ => nomatch he⟩
    | _ => cases hin
  fair {i j q q' b pc pc'} hne hi hj builds m hout := by
    cases m with
    | found hk => exact absurd (builds.idempotencyKey.symm.trans hk).symm (ne_of_nodup_map h.keys hne hi hj)
    | unused hk => exact ⟨rfl, fun r hr => nomatch hr⟩
    | stored => exact ⟨rfl, fun r hr => nomatch hr⟩
    | booked => exact ⟨rfl, fun r hr => by cases hr; exact ⟨_, rfl⟩⟩
    | _ => cases hout

theorem Rivals.oneWinner_iff (h : Rivals cat σ.db rs s x) (racing : τ.Racing σ.db rs) (hrs : rs ≠ [])
    (done : τ.AllFinished) :
    τ.OneWinner s x ↔ rowLock.Outcome σ.db τ := by
  have pair : ∀ {q : CreateRequest} {b : Booking} {w : Sid} {began : Time} {pc : CreatePc}, q.Builds b →
      τ.sessions[w]? = some ⟨began, .create q pc⟩ → b.scheduleId = s ∧ b.seatId = x := by
    intro q b w began pc builds hw
    obtain ⟨q', pc', hq', htask⟩ := racing.session hw
    cases htask
    have hq := h.pair q (List.mem_of_getElem? hq')
    exact ⟨builds.scheduleId.trans hq.1, builds.seatId.trans hq.2⟩
  constructor
  · rintro ⟨w, began, q, b, hw, -, hothers⟩
    obtain ⟨w', b', taken⟩ := racing.taken_of_finished hrs done
    obtain ⟨began', q', builds, hw'⟩ := taken.finished done
    have hww : w' = w := by
      by_contra hne
      obtain ⟨_, _, _, hs⟩ := hothers w' _ hne hw'
      cases hs
    subst hww
    refine ⟨w', b', began', q', builds, taken.bookings, hw', fun i began'' q'' pc hi hs => ?_⟩
    obtain ⟨_, _, detail, hs⟩ := hothers i _ hi hs
    cases hs
    exact ⟨_, rfl, detail, rfl⟩
  · rintro ⟨w, b, began, q, builds, hb, hw, hfair⟩
    refine ⟨w, began, q, b, hw, ?_, fun i s' hi hs' => ?_⟩
    · obtain ⟨hbs, hbx⟩ := pair builds hw
      rw [hb]
      refine filter_snoc (fun b' hb' => decide_eq_false ?_) (decide_eq_true ⟨hbs, hbx⟩)
      obtain ⟨q', pc', hq', htask⟩ := racing.session hw
      have hq := h.pair q' (List.mem_of_getElem? hq')
      rw [← hq.1, ← hq.2]
      exact (h.bookable q' (List.mem_of_getElem? hq')).vacant b' hb'
    · obtain ⟨q', pc', -, htask⟩ := racing.session hs'
      obtain ⟨began', t⟩ := s'
      obtain rfl : t = .create q' pc' := htask
      obtain ⟨r, rfl, detail, rfl⟩ := hfair i _ _ _ hi hs'
      exact ⟨_, _, detail, rfl⟩

/-- In a complete run of rivals exactly one of them gets the seat and all others 409 if and only if no request finds the
    pair without a row while another one has found the same and has not committed. -/
theorem one_winner_iff (hr : Reachable cat σ) (rivals : Rivals cat σ.db rs s x) (hrs : 2 ≤ rs.length)
    (run : exec (step cat) (σ.alone (rs.map .create)) acts = some τ) (quiet : ∀ a ∈ acts, a.isQuiet = true)
    (done : τ.AllFinished) : τ.OneWinner s x ↔ Along (step cat) LocksAlone (σ.alone (rs.map .create)) acts := by
  have hne : rs ≠ [] := by
    rintro rfl
    cases hrs
  have start : (σ.alone (rs.map .create)).Racing σ.db rs := .start hr
  have racing := start.exec rivals.contest run quiet
  rw [rivals.oneWinner_iff racing hne done]
  exact Guard.outcome_iff (rowLock_fits rivals) rivals.contest hr hne run quiet done

instance (d : Db) (q : CreateRequest) : Decidable (rowLock.Passes d q) := inferInstanceAs (Decidable (∀ _ ∈ _, _))

/-- Two users ask for seat 40 of schedule 20. -/
def rivalRequests : List CreateRequest := [⟨1, 20, 40, 50, none⟩, ⟨2, 20, 40, 51, none⟩]

theorem bookable_sample {q : CreateRequest} {schedule : Schedule}
    (hs : sampleCatalog.schedule? q.scheduleId = some schedule) (hx : (sampleCatalog.seat? q.seatId).isSome = true)
    (hu : (sampleCatalog.user? q.userId).isSome = true) (now : Time) :
    Bookable sampleCatalog (State.seeded now).db q :=
  ⟨fun _ hb => (nomatch hb), fun _ hb => (nomatch hb), ⟨schedule, hs, fun _ hb => (nomatch hb)⟩, hx, hu⟩

theorem rivalRequests_rivals : Rivals sampleCatalog (State.seeded 0).db rivalRequests 20 40 where
  bookable q hq := by
    simp only [rivalRequests, List.mem_cons, List.not_mem_nil, or_false] at hq
    rcases hq with rfl | rfl <;> exact bookable_sample rfl rfl rfl 0
  pair := by decide
  users := by decide
  keys := by decide

/-- The second request looks for the row when the first one has committed. -/
def queuedRun : List Act := runs 1 1 61 ++ runs 0 9 60 ++ runs 1 2 61

theorem one_winner_queued :
    ∃ τ, exec (step sampleCatalog) ((State.seeded 0).alone (rivalRequests.map .create)) queuedRun =
    some τ ∧ τ.OneWinner 20 40 := by
  have along : Along (step sampleCatalog) LocksAlone
    ((State.seeded 0).alone (rivalRequests.map .create)) queuedRun := by
    decide
  have hrun : (exec (step sampleCatalog) ((State.seeded 0).alone (rivalRequests.map .create)) queuedRun).any
      (fun τ => τ.sessions.all (·.task.isFinished)) = true := by decide
  obtain ⟨τ, hτ, done⟩ := (Option.any_eq_true _ _).mp hrun
  exact ⟨τ, hτ, (one_winner_iff (.start ⟨0, rfl⟩) rivalRequests_rivals (by decide) hτ (by decide)
    (List.all_eq_true.mp done)).mpr along⟩

/-- Both requests look for the row before the first one commits. -/
def racedRun : List Act := runs 1 2 61 ++ runs 0 9 60 ++ runs 1 4 61

/-- The second request ends in an `IntegrityError` that no handler turns into an answer. -/
theorem loser_not_answered : ¬∀ (cat : Catalog) (σ τ : State) (rs : List CreateRequest) (s x : Uuid) (acts : List Act),
    Reachable cat σ → Rivals cat σ.db rs s x → 2 ≤ rs.length →
    exec (step cat) (σ.alone (rs.map .create)) acts = some τ → (∀ a ∈ acts, a.isQuiet = true) → τ.AllFinished →
    τ.OneWinner s x := by
  intro h
  have hrun : (exec (step sampleCatalog) ((State.seeded 0).alone (rivalRequests.map .create)) racedRun).any (fun τ =>
      τ.sessions.all (·.task.isFinished) && (τ.sessions[1]?).any fun s =>
        s.task = .create ⟨2, 20, 40, 51, none⟩ (.finished (.error .integrityError))) = true := by decide
  obtain ⟨τ, hτ, htest⟩ := (Option.any_eq_true _ _).mp hrun
  obtain ⟨done, hlost⟩ := Bool.and_eq_true_iff.mp htest
  obtain ⟨s, hs, htask⟩ := (Option.any_eq_true _ _).mp hlost
  obtain ⟨w, began, q, b, hw, -, hothers⟩ := h _ _ τ rivalRequests 20 40 racedRun (.start ⟨0, rfl⟩) rivalRequests_rivals
    (by decide) hτ (by decide) (List.all_eq_true.mp done)
  have htask := of_decide_eq_true htask
  by_cases hw1 : 1 = w
  · subst hw1
    rw [hs, Option.some.injEq] at hw
    subst hw
    cases htask
  · obtain ⟨_, _, _, rfl⟩ := hothers 1 s hw1 hs
    cases htask

end

end Railbook
