import Railbook.Races
import Railbook.Library.Table

/-! One request sent several times (`POST /bookings` with one `idempotency_key`). The key is looked up once, at the
    start, so a repeated request that looks before the first commit goes on as a request of its own. -/

namespace Railbook
open ReadCommitted Transition

/-- The statements after a look-up of the key that found no booking. -/
def CreatePc.isLookedUp : CreatePc → Bool
  | lockSeat | awaitSeat _ | checkOverlap none | getSeat none | insertKey _ | insertSeat _ | audit _ | commit _ => true
  | _ => false

/-- The look-up of the key is there to answer repeated requests with the booking of the first one. -/
def keyLookup : Guard where
  gate := .checkKey
  Passes d q := ∀ b ∈ d.bookings, b.idempotencyKey ≠ q.idempotencyKey
  inside := CreatePc.isLookedUp
  Fair b r := r = .ok b

/-- There is one booking under the key of `q`, and every request has returned it. -/
def State.OneBooking (σ : State) (q : CreateRequest) : Prop :=
  ∃ b, (σ.db.bookings.filter (·.idempotencyKey = q.idempotencyKey)) = [b] ∧
    ∀ s ∈ σ.sessions, ∃ began, s = ⟨began, .create q (.finished (.ok b))⟩

/-- A request that finds no booking under its key is the only one that is past this look-up and not yet committed. -/
abbrev LooksUpAlone : State → Act → Prop := keyLookup.EntersAlone

/-- Every session has found `b` under its key, or it has not looked yet. -/
structure State.Replays (σ : State) (d : Db) (q : CreateRequest) (b : Booking) : Prop where
  inv : Inv σ
  own : σ.InsertsOwn
  db : σ.db = d
  sessions : ∀ (i : Sid) s, σ.sessions[i]? = some s →
    ∃ began, s = ⟨began, .create q .checkKey⟩ ∨ s = ⟨began, .create q (.finished (.ok b))⟩

section
variable {cat : Catalog} {σ τ : State} {i j : Sid} {q : CreateRequest} {b : Booking} {d : Db} {k : Nat}
  {acts : List Act}

theorem contest_replicate (h : Bookable cat d q) : Contest cat d (List.replicate k q) where
  bookable q' hq' := by
    rw [List.eq_of_mem_replicate hq']
    exact h
  pair q' hq' q'' hq'' := by
    rw [List.eq_of_mem_replicate hq', List.eq_of_mem_replicate hq'']
    exact ⟨rfl, rfl⟩

/-- A repeated request that found no booking under its key ends in an error if it does not commit first. -/
theorem keyLookup_fits (cat : Catalog) (d : Db) (q : CreateRequest) (k : Nat) :
    keyLookup.Fits cat d (List.replicate k q) where
  gate_racing := rfl
  gate_unwritten := rfl
  gate_outside := rfl
  start_outside := rfl
  commit_inside _ := rfl
  invalidate_outside _ := rfl
  finished_outside _ := rfl
  passes q book := book.unused
  stops {i j q' q'' b d'} hne hi hj builds hb passes := by
    refine passes b hb ?_
    rw [builds.idempotencyKey, List.eq_of_mem_replicate (List.mem_of_getElem? hi),
      List.eq_of_mem_replicate (List.mem_of_getElem? hj)]
  enters m hout := by cases m <;> simp_all [keyLookup, CreatePc.isLookedUp]
  stays m hin := by cases m <;> simp_all [keyLookup, CreatePc.isLookedUp]
  fails {i j q' q'' b pc pc'} hne hi hj builds m hin := by
    cases m with
    | stored => exact Or.inl rfl
    | booked => exact Or.inr ⟨_, rfl, nofun⟩
    | overlapping hu => exact Or.inr ⟨_, rfl, nofun⟩
    | disjoint => exact Or.inl rfl
    | priced b' => exact Or.inl rfl
    | keyed b' b'' hk => exact Or.inl rfl
    | keyTaken b' hk => exact Or.inr ⟨_, rfl, nofun⟩
    | seatTaken b' => exact Or.inr ⟨_, rfl, nofun⟩
    | _ => cases hin
  fair {i j q' q'' b pc pc'} hne hi hj builds m hout := by
    cases m with
    | found hk =>
      refine ⟨rfl, fun r hr => ?_⟩
      cases hr
      rfl
    | unused hk =>
      refine absurd ?_ hk
      rw [builds.idempotencyKey, List.eq_of_mem_replicate (List.mem_of_getElem? hi),
        List.eq_of_mem_replicate (List.mem_of_getElem? hj)]
    | _ => cases hout

theorem oneBooking_iff (book : Bookable cat σ.db q) (racing : τ.Racing σ.db (List.replicate k q)) (hk : k ≠ 0)
    (done : τ.AllFinished) : τ.OneBooking q ↔ keyLookup.Outcome σ.db τ := by
  have hrs : List.replicate k q ≠ [] := by simpa using hk
  have session : ∀ {i : Sid} {s : Session}, τ.sessions[i]? = some s → ∃ pc, s.task = .create q pc := by
    intro i s hs
    obtain ⟨q', pc, hq', htask⟩ := racing.session hs
    rw [List.eq_of_mem_replicate (List.mem_of_getElem? hq')] at htask
    exact ⟨pc, htask⟩
  constructor
  · rintro ⟨b, hb, hall⟩
    obtain ⟨w, b', taken⟩ := racing.taken_of_finished hrs done
    obtain ⟨began, q', builds, hw⟩ := taken.finished done
    obtain ⟨_, hs⟩ := hall _ (List.mem_of_getElem? hw)
    cases hs
    refine ⟨w, b, began, q, builds, taken.bookings, hw, fun i began' q' pc _ hi => ?_⟩
    obtain ⟨_, hs⟩ := hall _ (List.mem_of_getElem? hi)
    cases hs
    exact ⟨_, rfl, rfl⟩
  · rintro ⟨w, b, began, q', builds, hb, hw, hfair⟩
    obtain ⟨pc, htask⟩ := session hw
    cases htask
    refine ⟨b, ?_, fun s hs => ?_⟩
    · rw [hb]
      exact filter_snoc (fun b' hb' => decide_eq_false (book.unused b' hb')) (decide_eq_true builds.idempotencyKey)
    · obtain ⟨i, hi⟩ := List.mem_iff_getElem?.mp hs
      by_cases hiw : i = w
      · subst hiw
        exact ⟨began, Option.some.inj (hi.symm.trans hw)⟩
      · obtain ⟨pc, htask⟩ := session hi
        obtain ⟨began', t⟩ := s
        obtain rfl : t = .create q pc := htask
        obtain ⟨r, rfl, rfl⟩ := hfair i _ _ _ hiw hi
        exact ⟨began', rfl⟩

/-! ### A key that is stored already -/

theorem filter_key_eq (inv : Inv σ) (hb : b ∈ σ.db.bookings) (hkey : b.idempotencyKey = q.idempotencyKey) :
    σ.db.bookings.filter (·.idempotencyKey = q.idempotencyKey) = [b] := by
  have hlen : (σ.db.bookings.filter (·.idempotencyKey = q.idempotencyKey)).length ≤ 1 := by
    have := (inv.holders (.bookingKey q.idempotencyKey)).1
    rw [Db.holders, List.length_map] at this
    refine le_trans (le_of_eq (congrArg List.length (List.filter_congr fun b' _ => ?_))) this
    simp [Booking.resources, eq_comm]
  have hmem : b ∈ σ.db.bookings.filter (·.idempotencyKey = q.idempotencyKey) :=
    List.mem_filter.mpr ⟨hb, decide_eq_true hkey⟩
  exact Table.eq_singleton_of_mem hlen hmem

theorem State.Replays.found (h : σ.Replays d q b) (hb : b ∈ d.bookings) (hkey : b.idempotencyKey = q.idempotencyKey)
    {began : Time} (hs : σ.sessions[i]? = some ⟨began, .create q .checkKey⟩) :
    (σ.view i).bookings.filter (·.idempotencyKey = q.idempotencyKey) = [b] := by
  rw [h.own.view hs rfl]
  exact filter_key_eq h.inv (h.db ▸ hb) hkey

theorem State.Replays.step {a : Act} (hb : b ∈ d.bookings) (hkey : b.idempotencyKey = q.idempotencyKey)
    (h : σ.Replays d q b) (quiet : a.isQuiet = true) (hstep : step cat σ a = some τ) : τ.Replays d q b := by
  have inv := h.inv.step hstep
  have own := h.own.step h.inv hstep
  cases step_stepped hstep with
  | @run i x s e t hs hc m =>
    obtain ⟨began, rfl | rfl⟩ := h.sessions i s hs
    · simp only [Session.statement, create_found (h.found hb hkey hs), Option.map_some, Option.some.injEq,
        Prod.mk.injEq] at hc
      obtain ⟨rfl, rfl⟩ := hc
      refine ⟨inv, own, h.db, fun j s hj => ?_⟩
      rcases session_of_goto hs hj with ⟨-, rfl⟩ | ⟨-, hj⟩
      · exact ⟨began, Or.inr rfl⟩
      · exact h.sessions j s hj
    · cases hc
  | tick n => exact ⟨inv, own, h.db, h.sessions⟩
  | _ => cases quiet

theorem State.Replays.start (hr : Reachable cat σ) : (σ.alone ((List.replicate k q).map .create)).Replays σ.db q b where
  inv := (inv_of_reachableBy hr).alone _
  own := insertsOwn_alone
  db := rfl
  sessions i s hs := by
    obtain ⟨q', hq', rfl⟩ := alone_session hs
    rw [List.eq_of_mem_replicate (List.mem_of_getElem? hq')]
    exact ⟨_, Or.inl rfl⟩

/-- A key that is stored at the start is found by every request. -/
theorem oneBooking_of_stored (hr : Reachable cat σ) (hb : b ∈ σ.db.bookings)
    (hkey : b.idempotencyKey = q.idempotencyKey)
    (run : exec (step cat) (σ.alone ((List.replicate k q).map .create)) acts = some τ)
    (quiet : ∀ a ∈ acts, a.isQuiet = true) (done : τ.AllFinished) :
    τ.OneBooking q ∧ Along (step cat) LooksUpAlone (σ.alone ((List.replicate k q).map .create)) acts := by
  have start : (σ.alone ((List.replicate k q).map .create)).Replays σ.db q b := .start hr
  have keep : ∀ (υ : State) (a : Act) (υ' : State), υ.Replays σ.db q b → a.isQuiet = true → step cat υ a = some υ' →
      υ'.Replays σ.db q b := fun υ a υ' h quiet hstep => h.step hb hkey quiet hstep
  constructor
  · have final : τ.Replays σ.db q b :=
      exec_invariant_of_mem (I := fun υ : State => υ.Replays σ.db q b) keep start quiet run
    refine ⟨b, filter_key_eq final.inv (final.db ▸ hb) hkey, fun s hs => ?_⟩
    obtain ⟨i, hi⟩ := List.mem_iff_getElem?.mp hs
    obtain ⟨began, rfl | rfl⟩ := final.sessions i s hi
    · cases done _ hs
    · exact ⟨began, rfl⟩
  · refine along_of_invariant keep (fun υ a h => ?_) start quiet
    cases a with
    | run i x =>
      intro q' hq' passes
      obtain ⟨began, hs⟩ := mem_requestAt.mp hq'
      obtain ⟨began', hs' | hs'⟩ := h.sessions i _ hs <;> cases hs'
      have hmem : b ∈ (υ.view i).bookings.filter (·.idempotencyKey = q.idempotencyKey) :=
        h.found hb hkey hs ▸ List.mem_singleton_self b
      exact absurd hkey (passes b (List.mem_of_mem_filter hmem))
    | _ => trivial

/-- In a complete run of one request sent `k` times, where it would succeed on its own, there is one booking at the end
    and every request has returned it, if and only if no request finds its key unused while another one has found the
    same and has not committed. -/
theorem one_booking_iff (hr : Reachable cat σ) (h : Succeeds cat σ q) (hk : 1 ≤ k)
    (run : exec (step cat) (σ.alone ((List.replicate k q).map .create)) acts = some τ)
    (quiet : ∀ a ∈ acts, a.isQuiet = true) (done : τ.AllFinished) :
    τ.OneBooking q ↔ Along (step cat) LooksUpAlone (σ.alone ((List.replicate k q).map .create)) acts := by
  rcases succeeds_inv hr h with ⟨b, hb, hkey⟩ | book
  · obtain ⟨one, along⟩ := oneBooking_of_stored hr hb hkey run quiet done
    exact ⟨fun _ => along, fun _ => one⟩
  · have hk : k ≠ 0 := Nat.one_le_iff_ne_zero.mp hk
    have start : (σ.alone ((List.replicate k q).map .create)).Racing σ.db (List.replicate k q) := .start hr
    have racing := start.exec (contest_replicate book) run quiet
    rw [oneBooking_iff book racing hk done]
    exact Guard.outcome_iff (keyLookup_fits cat σ.db q k) (contest_replicate book) hr (by simpa using hk) run quiet done

instance (d : Db) (q : CreateRequest) : Decidable (keyLookup.Passes d q) := inferInstanceAs (Decidable (∀ _ ∈ _, _))

/-- User 1 asks for seat 40 of schedule 20. -/
def repeatedRequest : CreateRequest := ⟨1, 20, 40, 50, none⟩

/-- The booking that the first request makes. -/
def repeatedBooking : Booking := ⟨60, 1, 20, 40, .reserved, 50, 0, some 300000000, none, none, 150000⟩

theorem repeatedRequest_succeeds : Succeeds sampleCatalog (.seeded 0) repeatedRequest := by
  have hrun : (exec (step sampleCatalog) ((State.seeded 0).alone [.create repeatedRequest]) (runs 0 9 60)).any
      (fun τ => τ.sessions[0]? = some ⟨0, .create repeatedRequest (.finished (.ok repeatedBooking))⟩) = true := by
        decide
  obtain ⟨τ, hτ, hs⟩ := (Option.any_eq_true _ _).mp hrun
  exact ⟨_, τ, 0, repeatedBooking, hτ, by decide, of_decide_eq_true hs⟩

/-- The request is repeated when the first one has committed. -/
def replayedRun : List Act := runs 0 8 60 ++ runs 1 1 61 ++ runs 0 1 60

theorem one_booking_replayed : ∃ τ, exec (step sampleCatalog)
    ((State.seeded 0).alone ((List.replicate 2 repeatedRequest).map .create)) replayedRun = some τ ∧
      τ.OneBooking repeatedRequest := by
  have along : Along (step sampleCatalog) LooksUpAlone
      ((State.seeded 0).alone ((List.replicate 2 repeatedRequest).map .create)) replayedRun := by decide
  have hrun : (exec (step sampleCatalog) ((State.seeded 0).alone ((List.replicate 2 repeatedRequest).map .create))
      replayedRun).any (fun τ => τ.sessions.all (·.task.isFinished)) = true := by decide
  obtain ⟨τ, hτ, done⟩ := (Option.any_eq_true _ _).mp hrun
  exact ⟨τ, hτ, (one_booking_iff (.start ⟨0, rfl⟩) repeatedRequest_succeeds (by decide) hτ (by decide)
    (List.all_eq_true.mp done)).mpr along⟩

/-- The request is repeated before the first one commits. -/
def overtakenRun : List Act := runs 1 1 61 ++ runs 0 9 60 ++ runs 1 2 61

/-- The repeated request is told that its own seat is taken. -/
theorem repeat_refused : ¬∀ (cat : Catalog) (σ τ : State) (q : CreateRequest) (k : Nat) (acts : List Act),
    Reachable cat σ → Succeeds cat σ q → 1 ≤ k →
    exec (step cat) (σ.alone ((List.replicate k q).map .create)) acts = some τ → (∀ a ∈ acts, a.isQuiet = true) →
    τ.AllFinished → τ.OneBooking q := by
  intro h
  have hrun : (exec (step sampleCatalog) ((State.seeded 0).alone ((List.replicate 2 repeatedRequest).map .create))
      overtakenRun).any (fun τ => τ.sessions.all (·.task.isFinished) && τ.sessions.any fun s => s.task =
        .create repeatedRequest (.finished (.error (httpError 409 "Seat already booked for this schedule")))) =
          true := by
    decide
  obtain ⟨τ, hτ, htest⟩ := (Option.any_eq_true _ _).mp hrun
  obtain ⟨done, hrefused⟩ := Bool.and_eq_true_iff.mp htest
  obtain ⟨s, hs, htask⟩ := List.any_eq_true.mp hrefused
  obtain ⟨b, -, hall⟩ := h _ _ τ repeatedRequest 2 overtakenRun (.start ⟨0, rfl⟩) repeatedRequest_succeeds
    (by decide) hτ
    (by decide) (List.all_eq_true.mp done)
  obtain ⟨began, rfl⟩ := hall s hs
  cases of_decide_eq_true htask

end

end Railbook
