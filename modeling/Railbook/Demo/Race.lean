import Railbook.Sessions
import Railbook.SeatMap
import Railbook.Demo.Service

/-! The report of `run_race`. It is put together from status codes, so it is right if an attempt reports 201 exactly
    when it has committed a booking. A key that nobody else has excludes that an attempt returns a booking it did
    not make. -/

namespace Railbook
open ReadCommitted Transition

/-- Session `i` began in the run from `σ` to `τ`, is an attempt of the user at the seat, and has ended with `answer`.
    Its key is drawn by `uuid4`: no other `create_booking` has it. -/
structure Attempt (σ τ : State) (i : Sid) (userId scheduleId seatId : Uuid) (answer : Except Exc Booking) : Prop where
  began : σ.sessions.length ≤ i
  ended : ∃ t key, τ.sessions[i]? = some ⟨t, .create (attemptRequest userId scheduleId seatId key) (.finished answer)⟩ ∧
    ∀ (j : Sid) t' q pc, τ.sessions[j]? = some ⟨t', .create q pc⟩ → q.idempotencyKey = key → j = i

/-- The booking is one for the pair. -/
def Booking.IsFor (scheduleId seatId : Uuid) (b : Booking) : Prop := b.scheduleId = scheduleId ∧ b.seatId = seatId

/-- In the run from `σ` session `i` commits a new booking row, and the row is as `P` says. -/
def Commits (cat : Catalog) (σ : State) (acts : List Act) (i : Sid) (P : Booking → Prop) : Prop :=
  ∃ pre x post υ υ', acts = pre ++ .run i x :: post ∧ exec (step cat) σ pre = some υ ∧ step cat υ (.run i x) = some υ' ∧
    ∃ b ∈ υ'.db.bookings, (∀ b' ∈ υ.db.bookings, b'.id ≠ b.id) ∧ P b

/-- `create_booking` has committed, or it has found a booking under its key. -/
def CreatePc.hasBooking : CreatePc → Bool
  | invalidate _ | finished (.ok _) => true
  | _ => false

/-- Session `i` is a `create_booking` that has a booking. -/
def State.HasBooking (σ : State) (i : Sid) : Prop :=
  ∃ began q pc, σ.sessions[i]? = some ⟨began, .create q pc⟩ ∧ pc.hasBooking = true

section
variable {cat : Catalog} {σ τ : State} {i j : Sid} {began : Time} {q : CreateRequest} {pc pc' : CreatePc} {a : Act}
  {acts : List Act} {userId scheduleId seatId : Uuid} {answer : Except Exc Booking} {P : Booking → Prop}

/-! ### The bookings that are returned -/

theorem CreateMove.hasBooking {e : Effect} (m : CreateMove cat σ i began q pc e pc') (h : pc.hasBooking = true) :
    pc'.hasBooking = true := by
  cases m with
  | invalidated => rfl
  | @failed pc x hpc =>
    cases pc with
    | invalidate b => cases hpc
    | finished r => cases hpc
    | _ => cases h
  | _ => cases h

theorem hasBooking_step (hstep : step cat σ a = some τ) (hs : σ.sessions[i]? = some ⟨began, .create q pc⟩)
    (h : pc.hasBooking = true) : ∃ pc', τ.sessions[i]? = some ⟨began, .create q pc'⟩ ∧ pc'.hasBooking = true := by
  rcases session_step hstep hs with hsame | ⟨x, e, t, -, -, m, rfl⟩ | ⟨t, -, hraise, rfl⟩
  · exact ⟨pc, hsame, h⟩
  · cases m with
    | create m => exact ⟨_, goto_sessions_self hs, m.hasBooking h⟩
  · have m : Move cat σ i ⟨began, .create q pc⟩ .close t := raise_move hraise
    cases m with
    | create m => exact ⟨_, goto_sessions_self hs, m.hasBooking h⟩

theorem hasBooking_exec (run : exec (step cat) σ acts = some τ) (hs : σ.sessions[i]? = some ⟨began, .create q pc⟩)
    (h : pc.hasBooking = true) : ∃ pc', τ.sessions[i]? = some ⟨began, .create q pc'⟩ ∧ pc'.hasBooking = true :=
  exec_invariant_of_step (I := fun υ : State => ∃ pc', υ.sessions[i]? = some ⟨began, .create q pc'⟩ ∧
    pc'.hasBooking = true) (fun _ _ _ ⟨_, hs, h⟩ hstep => hasBooking_step hstep hs h) ⟨pc, hs, h⟩ run

theorem commit_step {x : Choice} {b : Booking} (hs : σ.sessions[i]? = some ⟨began, .create q (.commit b)⟩)
    (hstep : step cat σ (.run i x) = some τ) :
    τ = (σ.perform i .commit).goto i ⟨began, .create q (.commit b)⟩ (.create q (.invalidate b)) :=
  Option.some.inj (hstep.symm.trans (step_run hs rfl))

/-- A booking is stored under the key of a request that has it. -/
theorem keyHolder_of_reachable (hr : Reachable cat σ) :
    ∀ b ∈ σ.db.bookings, ∃ (j : Sid) (began : Time) (q : CreateRequest)
    (pc : CreatePc), σ.sessions[j]? = some ⟨began, .create q pc⟩ ∧ q.idempotencyKey = b.idempotencyKey ∧
      pc.hasBooking = true := by
  refine hr.invariant
    (I := fun σ : State => ∀ b ∈ σ.db.bookings, ∃ (j : Sid) (began : Time) (q : CreateRequest) (pc : CreatePc),
    σ.sessions[j]? = some ⟨began, .create q pc⟩ ∧ q.idempotencyKey = b.idempotencyKey ∧ pc.hasBooking = true) ?_ ?_
  · rintro σ ⟨now, rfl⟩ b hb
    cases hb
  · intro σ a τ hr h _ hstep b hb
    rcases booking_origin hr hstep hb with ⟨b₀, hb₀, hf⟩ | ⟨j, x, began, q, b', rfl, hs, builds, hf⟩
    · obtain ⟨j, began, q, pc, hs, hkey, hpc⟩ := h b₀ hb₀
      obtain ⟨pc', hs', hpc'⟩ := hasBooking_step hstep hs hpc
      exact ⟨j, began, q, pc', hs', hkey.trans (Booking.idempotencyKey_of_fixed hf), hpc'⟩
    · rw [commit_step hs hstep]
      refine ⟨j, began, q, .invalidate b', goto_sessions_self hs, ?_, rfl⟩
      exact builds.idempotencyKey.symm.trans (Booking.idempotencyKey_of_fixed hf)

theorem raise_create {t : Task} (h : t.raise = some (.create q pc)) : pc = .finished (.error .databaseError) := by
  cases t <;> simp only [Task.raise, Option.ite_none_right_eq_some, Option.some.injEq] at h
    <;> obtain ⟨-, h⟩ := h <;> cases h
  rfl

/-- A session gets a booking by its commit, or by its look-up of the key. -/
theorem hasBooking_begins (hstep : step cat σ a = some τ) (hno : ¬σ.HasBooking i) (h : τ.HasBooking i) :
    ∃ x began q, a = .run i x ∧ ((∃ b, σ.sessions[i]? = some ⟨began, .create q (.commit b)⟩) ∨
      σ.sessions[i]? = some ⟨began, .create q .checkKey⟩ ∧ ∃ b ∈ (σ.view i).bookings, b.idempotencyKey =
        q.idempotencyKey) := by
  obtain ⟨began, q, pc, hs, hpc⟩ := h
  cases step_stepped hstep with
  | request r =>
    rcases session_of_request hs with hs | ⟨-, ht⟩
    · exact absurd ⟨began, q, pc, hs, hpc⟩ hno
    · cases r <;> cases ht
      cases hpc
  | @run j x s e t hs' hc m =>
    rcases session_of_goto hs' hs with ⟨rfl, ht⟩ | ⟨-, hs⟩
    · cases ht
      cases m with
      | create m =>
        cases m with
        | committed => exact ⟨x, _, _, rfl, Or.inl ⟨_, hs'⟩⟩
        | found hb hkey => exact ⟨x, _, _, rfl, Or.inr ⟨hs', _, hb, hkey⟩⟩
        | invalidated => exact absurd ⟨_, _, _, hs', rfl⟩ hno
        | _ => cases hpc
    · exact absurd ⟨began, q, pc, hs, hpc⟩ hno
  | @raise j s t hs' hraise m =>
    rcases session_of_goto hs' hs with ⟨rfl, ht⟩ | ⟨-, hs⟩
    · cases ht
      rw [raise_create hraise] at hpc
      cases hpc
    · exact absurd ⟨began, q, pc, hs, hpc⟩ hno
  | tick d => exact absurd ⟨began, q, pc, hs, hpc⟩ hno
  | updateConfig failureRate latencyMs => exact absurd ⟨began, q, pc, hs, hpc⟩ hno

/-! ### An attempt -/

/-- The commit of `create_booking` adds one row, under a new id. -/
theorem commit_adds {x : Choice} {b : Booking} (hr : Reachable cat σ)
    (hs : σ.sessions[i]? = some ⟨began, .create q (.commit b)⟩) (hstep : step cat σ (.run i x) = some τ) :
    b ∈ τ.db.bookings ∧ ∀ b' ∈ σ.db.bookings, b'.id ≠ b.id := by
  have hrows : τ.db.bookings = σ.db.bookings ++ [b] := by
    rw [commit_step hs hstep]
    exact (insertsOwn_of_reachable hr).view_bookings hs rfl
  have hids := (inv_of_reachableBy (hr.next trivial hstep)).ids_nodup
  rw [hrows, List.map_append] at hids
  refine ⟨by rw [hrows]; exact List.mem_append_right _ (List.mem_singleton_self b), fun b' hb' hid => ?_⟩
  exact (List.nodup_append.mp hids).2.2 b'.id (List.mem_map_of_mem hb') b.id (List.mem_singleton_self _) hid

/-- An attempt that has returned a booking has committed one. -/
theorem Attempt.commits {b : Booking} (h : Attempt σ τ i userId scheduleId seatId (.ok b)) (hr : Reachable cat σ)
    (run : exec (step cat) σ acts = some τ) : Commits cat σ acts i (·.IsFor scheduleId seatId) := by
  obtain ⟨t, key, hend, own⟩ := h.ended
  have hno : ¬σ.HasBooking i := by
    rintro ⟨began, q, pc, hs, -⟩
    have hlt : i < σ.sessions.length := (List.getElem?_eq_some_iff.mp hs).1
    exact absurd h.began (Nat.not_le.mpr hlt)
  have hyes : τ.HasBooking i := ⟨t, _, _, hend, rfl⟩
  obtain ⟨pre, a, post, υ, υ', rfl, hpre, hυ, hstep, hυ', hpost⟩ :=
    exists_step_begins (I := (·.HasBooking i)) run hno hyes
  have hreach : Reachable cat υ := reachable_exec hr hpre
  have hlater : exec (step cat) υ (a :: post) = some τ := by
    rw [exec_cons, hstep, Option.bind_some, hpost]
  obtain ⟨x, began, q, rfl, hwhere⟩ := hasBooking_begins hstep hυ hυ'
  -- The session runs the request of the attempt from its start.
  have hq : ∀ {pc}, υ.sessions[i]? = some ⟨began, .create q pc⟩ → q = attemptRequest userId scheduleId seatId key := by
    intro pc hs
    obtain ⟨s', hs', -, hreq⟩ := request_exec hlater hs
    rw [hend] at hs'
    cases hs'
    exact (Request.create.inj hreq).symm
  rcases hwhere with ⟨b', hs⟩ | ⟨hs, b', hb', hkey⟩
  · obtain rfl := hq hs
    have builds : CreateRequest.Builds _ b' := ((inv_of_reachableBy hreach).taskOk hs).sound
    obtain ⟨hmem, hnew⟩ := commit_adds hreach hs hstep
    exact ⟨pre, x, post, υ, υ', rfl, hpre, hstep, b', hmem, hnew, builds.scheduleId, builds.seatId⟩
  · obtain rfl := hq hs
    -- The booking that the look-up found is that of the session itself, which has none.
    rw [(insertsOwn_of_reachable hreach).view hs rfl] at hb'
    obtain ⟨j, t', q', pc, hj, hkey', hpc⟩ := keyHolder_of_reachable hreach b' hb'
    obtain ⟨pc', hj', -⟩ := hasBooking_exec hlater hj hpc
    obtain rfl := own j t' q' pc' hj' (hkey'.trans hkey)
    rw [hs] at hj
    cases hj
    cases hpc

/-- An attempt that has committed a booking returns it. -/
theorem Attempt.ok_of_commits (h : Attempt σ τ i userId scheduleId seatId answer) (hr : Reachable cat σ)
    (run : exec (step cat) σ acts = some τ) (hc : Commits cat σ acts i P) : ∃ b, answer = .ok b := by
  obtain ⟨pre, x, post, υ, υ', rfl, hpre, hstep, b, hb, hnew, -⟩ := hc
  rw [exec_append, hpre, Option.bind_some, exec_cons, hstep, Option.bind_some] at run
  rcases booking_origin (reachable_exec hr hpre) hstep hb with ⟨b₀, hb₀, hf⟩ | ⟨j, x', began, q, b', hact, hs, -, -⟩
  · exact absurd (Booking.id_of_fixed hf) (hnew b₀ hb₀)
  · cases hact
    have hs' : υ'.sessions[i]? = some ⟨began, .create q (.invalidate b')⟩ := by
      rw [commit_step hs hstep]
      exact goto_sessions_self hs
    obtain ⟨pc, hpc, hbooking⟩ := hasBooking_exec run hs' rfl
    obtain ⟨t, key, hend, -⟩ := h.ended
    rw [hend] at hpc
    cases hpc
    cases answer with
    | ok b => exact ⟨b, rfl⟩
    | error e => cases hbooking

/-- No `create_booking` that began in the run is answered with an error that has the status of a booking. -/
theorem statusCode_exec {e : Exc} (hnone : σ.sessions.length ≤ i) (run : exec (step cat) σ acts = some τ)
    (hs : τ.sessions[i]? = some ⟨began, .create q (.finished (.error e))⟩) : e.statusCode ≠ 201 := by
  refine exec_invariant_of_step (I := fun υ : State =>
    ∀ t q e, υ.sessions[i]? = some ⟨t, .create q (.finished (.error e))⟩ →
    e.statusCode ≠ 201) ?_ ?_ run began q e hs
  · intro υ a υ' h hstep t q e hs
    cases step_stepped hstep with
    | request r =>
      rcases session_of_request hs with hs | ⟨-, ht⟩
      · exact h t q e hs
      · cases r <;> cases ht
    | @run j x s eff t' hs' hc m =>
      rcases session_of_goto hs' hs with ⟨rfl, ht⟩ | ⟨-, hs⟩
      · cases ht
        cases m with
        | create m =>
          obtain ⟨⟨eff', pc'⟩, hcreate, hx⟩ := Option.map_eq_some_iff.mp hc
          cases hx
          exact createBooking_statusCode hcreate
      · exact h t q e hs
    | @raise j s t' hs' hraise m =>
      rcases session_of_goto hs' hs with ⟨rfl, ht⟩ | ⟨-, hs⟩
      · cases ht
        cases raise_create hraise
        decide
      · exact h t q e hs
    | tick d => exact h t q e hs
    | updateConfig failureRate latencyMs => exact h t q e hs
  · intro t q e hs
    exact absurd (List.getElem?_eq_some_iff.mp hs).1 (Nat.not_lt.mpr hnone)

theorem Attempt.reported (h : Attempt σ τ i userId scheduleId seatId answer) (hr : Reachable cat σ)
    (run : exec (step cat) σ acts = some τ) (errorDetail : Exc → Detail) (userLabel : String) (startTime endTime : ℚ)
    (hP : ∀ b, b.IsFor scheduleId seatId → P b) :
    (attemptBooking errorDetail answer userLabel startTime endTime).statusCode = 201 ↔ Commits cat σ acts i P := by
  obtain ⟨t, key, hend, -⟩ := h.ended
  have herror : ∀ e, answer = .error e → e.statusCode ≠ 201 := fun e he => statusCode_exec h.began run (he ▸ hend)
  rw [attemptBooking_ok herror]
  constructor
  · rintro ⟨b, rfl⟩
    obtain ⟨pre, x, post, υ, υ', hacts, hpre, hstep, b', hb', hnew, hfor⟩ := h.commits hr run
    exact ⟨pre, x, post, υ, υ', hacts, hpre, hstep, b', hb', hnew, hP b' hfor⟩
  · exact h.ok_of_commits hr run

/-! ### Both attempts -/

theorem no_second_row {b b' : Booking} (hr : Reachable cat σ) (hb : b ∈ σ.db.bookings)
    (hfor : b.IsFor scheduleId seatId) (hstep : step cat σ a = some τ) (hb' : b' ∈ τ.db.bookings)
    (hfor' : b'.IsFor scheduleId seatId) :
    ∃ b₀ ∈ σ.db.bookings, b₀.id = b'.id := by
  obtain ⟨b₁, hb₁, hf⟩ := (kept_step (noDelete_of_reachable hr) hstep).bookings b hb
  have hpair := (inv_of_reachableBy (hr.next trivial hstep)).pair_unique scheduleId seatId
  have hb₁' : b₁.IsFor scheduleId seatId :=
    ⟨(Booking.scheduleId_of_fixed hf).trans hfor.1, (Booking.seatId_of_fixed hf).trans hfor.2⟩
  have hmem : ∀ {x : Booking}, x ∈ τ.db.bookings → x.IsFor scheduleId seatId →
      x ∈ τ.db.bookings.filter fun b => b.scheduleId == scheduleId && b.seatId == seatId := by
    intro x hx hfor
    exact List.mem_filter.mpr ⟨hx, by rw [hfor.1, hfor.2, beq_self_eq_true, beq_self_eq_true]; rfl⟩
  have hsame := hmem hb' hfor'
  rw [Table.eq_singleton_of_mem hpair (hmem hb₁ hb₁')] at hsame
  rw [List.mem_singleton.mp hsame]
  exact ⟨b, hb, (Booking.id_of_fixed hf).symm⟩

theorem Commits.unique (hr : Reachable cat σ) (hi : Commits cat σ acts i (·.IsFor scheduleId seatId))
    (hj : Commits cat σ acts j (·.IsFor scheduleId seatId)) : i = j := by
  -- The later of the two commits would add a second row.
  have later : ∀ {υ₁ υ₁' υ₂ υ₂' : State} {x₁ x₂ : Choice} {i j : Sid} {rest : List Act} {b₁ b₂ : Booking},
    Reachable cat υ₁ →
      step cat υ₁ (.run i x₁) = some υ₁' → exec (step cat) υ₁' rest = some υ₂ → step cat υ₂ (.run j x₂) = some υ₂' →
      b₁ ∈ υ₁'.db.bookings → b₁.IsFor scheduleId seatId → b₂ ∈ υ₂'.db.bookings → b₂.IsFor scheduleId seatId →
      (∀ b ∈ υ₂.db.bookings, b.id ≠ b₂.id) → False := by
    intro υ₁ υ₁' υ₂ υ₂' x₁ x₂ i j rest b₁ b₂ hr hstep₁ hrest hstep₂ hb₁ hfor₁ hb₂ hfor₂ hnew
    have hr' := hr.next trivial hstep₁
    obtain ⟨b, hb, hf⟩ := (kept_exec hr' hrest).bookings b₁ hb₁
    have hfor : b.IsFor scheduleId seatId :=
      ⟨(Booking.scheduleId_of_fixed hf).trans hfor₁.1, (Booking.seatId_of_fixed hf).trans hfor₁.2⟩
    obtain ⟨b₀, hb₀, hid⟩ := no_second_row (reachable_exec hr' hrest) hb hfor hstep₂ hb₂ hfor₂
    exact hnew b₀ hb₀ hid
  obtain ⟨pre₁, x₁, post₁, υ₁, υ₁', hacts₁, hpre₁, hstep₁, b₁, hb₁, hnew₁, hfor₁⟩ := hi
  obtain ⟨pre₂, x₂, post₂, υ₂, υ₂', hacts₂, hpre₂, hstep₂, b₂, hb₂, hnew₂, hfor₂⟩ := hj
  rcases List.append_eq_append_iff.mp (hacts₁.symm.trans hacts₂) with ⟨rest, hpre, hpost⟩ | ⟨rest, hpre, hpost⟩
  · cases rest with
    | nil =>
      cases hpost
      rfl
    | cons c rest =>
      obtain ⟨rfl, -⟩ := List.cons_eq_cons.mp hpost
      rw [hpre, exec_append, hpre₁, Option.bind_some, exec_cons, hstep₁, Option.bind_some] at hpre₂
      exact (later (reachable_exec hr hpre₁) hstep₁ hpre₂ hstep₂ hb₁ hfor₁ hb₂ hfor₂ hnew₂).elim
  · cases rest with
    | nil =>
      cases hpost
      rfl
    | cons c rest =>
      obtain ⟨rfl, -⟩ := List.cons_eq_cons.mp hpost
      rw [hpre, exec_append, hpre₂, Option.bind_some, exec_cons, hstep₂, Option.bind_some] at hpre₁
      exact (later (reachable_exec hr hpre₂) hstep₂ hpre₁ hstep₁ hb₂ hfor₂ hb₁ hfor₁ hnew₁).elim

/-- The report of a race is faithful: at most one attempt reports 201, the winner is the side that committed a booking
    for the pair, and there is none when no side committed a booking. -/
theorem race_report {userA userB : Uuid} {answerA answerB : Except Exc Booking} (hr : Reachable cat σ)
    (run : exec (step cat) σ acts = some τ) (hne : i ≠ j) (hA : Attempt σ τ i userA scheduleId seatId answerA)
    (hB : Attempt σ τ j userB scheduleId seatId answerB) (errorDetail : Exc → Detail) (startTime endA endB : ℚ) :
    let report := runRace (attemptBooking errorDetail answerA "A" startTime endA)
      (attemptBooking errorDetail answerB "B" startTime endB)
    ¬(report.attemptA.statusCode = 201 ∧ report.attemptB.statusCode = 201) ∧
      (report.winner = some "A" ↔ Commits cat σ acts i (·.IsFor scheduleId seatId)) ∧
      (report.winner = some "B" ↔ Commits cat σ acts j (·.IsFor scheduleId seatId)) ∧
      (report.winner = none ↔ (¬Commits cat σ acts i fun _ => True) ∧ ¬Commits cat σ acts j fun _ => True) := by
  have reportedA := fun {P} => hA.reported (P := P) hr run errorDetail "A" startTime endA
  have reportedB := fun {P} => hB.reported (P := P) hr run errorDetail "B" startTime endB
  have hone : ¬((attemptBooking errorDetail answerA "A" startTime endA).statusCode = 201 ∧
      (attemptBooking errorDetail answerB "B" startTime endB).statusCode = 201) := by
    rintro ⟨ha, hb⟩
    exact hne (Commits.unique hr ((reportedA fun _ h => h).mp ha) ((reportedB fun _ h => h).mp hb))
  refine ⟨hone, ?_, ?_, ?_⟩
  · rw [winner_eq_A, ← reportedA fun _ h => h]
    exact ⟨And.left, fun ha => ⟨ha, fun hb => hone ⟨ha, hb⟩⟩⟩
  · rw [winner_eq_B, ← reportedB fun _ h => h]
    exact ⟨And.left, fun hb => ⟨hb, fun ha => hone ⟨ha, hb⟩⟩⟩
  · rw [winner_eq_none, ← reportedA fun _ _ => trivial, ← reportedB fun _ _ => trivial]
    tauto

/-- Alice and Bob race for seat 40 of schedule 20, and Bob looks for the row when Alice has committed. -/
def raceRun : List Act := [.request (.create (attemptRequest 1 20 40 50)),
    .request (.create (attemptRequest 2 20 40 51))] ++
  runs 1 1 61 ++ runs 0 9 60 ++ runs 1 2 61

theorem race_report_alice : ∃ τ b e, exec (step sampleCatalog) (.seeded 0) raceRun = some τ ∧
    Attempt (.seeded 0) τ 0 1 20 40 (.ok b) ∧ Attempt (.seeded 0) τ 1 2 20 40 (.error e) ∧
      Commits sampleCatalog (.seeded 0) raceRun 0 (·.IsFor 20 40) ∧
        ¬Commits sampleCatalog (.seeded 0) raceRun 1 (·.IsFor 20 40) := by
  have hrun : (exec (step sampleCatalog) (.seeded 0) raceRun).any (fun τ : State => decide (τ.sessions =
      [⟨0, .create (attemptRequest 1 20 40 50)
        (.finished (.ok ⟨60, 1, 20, 40, .reserved, 50, 0, some 300000000, none, none, 150000⟩))⟩,
       ⟨0, .create (attemptRequest 2 20 40 51)
         (.finished (.error (httpError 409 "Seat already booked for this schedule")))⟩])) =
      true := by decide
  obtain ⟨τ, run, htest⟩ := (Option.any_eq_true _ _).mp hrun
  have hsessions := of_decide_eq_true htest
  have key : ∀ (j : Sid) t q pc, τ.sessions[j]? = some ⟨t, .create q pc⟩ → q.idempotencyKey = 50 + j := by
    intro j t q pc hj
    rw [hsessions] at hj
    match j with
    | 0 | 1 =>
      cases hj
      rfl
    | j + 2 => cases hj
  have hA : Attempt (.seeded 0) τ 0 1 20 40 _ := ⟨Nat.zero_le _, 0, 50, by rw [hsessions]; rfl,
    fun j t q pc hj hkey => by
    have := key j t q pc hj
    rw [hkey] at this
    exact (Nat.add_left_cancel this).symm⟩
  have hB : Attempt (.seeded 0) τ 1 2 20 40 _ := ⟨Nat.zero_le _, 0, 51, by rw [hsessions]; rfl,
    fun j t q pc hj hkey => by
    have := key j t q pc hj
    rw [hkey] at this
    exact (Nat.add_left_cancel (n := 50) this).symm⟩
  have report := race_report (.start ⟨0, rfl⟩) run Nat.zero_ne_one hA hB (fun _ => .lines []) 0 1 1
  refine ⟨τ, _, _, run, hA, hB, report.2.1.mp rfl, fun hc => ?_⟩
  have hwinner : some "A" = some "B" := report.2.2.1.mpr hc
  exact absurd hwinner (by decide)

end

end Railbook
