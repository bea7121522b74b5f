import Railbook.Integrity

/-! The cleanup loop (`cleanup_expired_reservations` of `app/bookings/cleanup.py`): a pass, a sleep of sixty seconds,
    the next pass, for ever. A pass that raises is logged, and the loop sleeps as after any other. -/

namespace Railbook
open ReadCommitted Transition

/-- The loop sleeps until a time, or it is in the pass of a session. -/
inductive LoopPc where
  | sleeping (wake : Time)
  | passing (i : Sid)
  deriving DecidableEq, Repr

/-- The service with the loop of one of its workers. -/
structure Looped where
  service : State
  loop : LoopPc

/-- What happens next: a step of the service, the next pass of the loop begins, or the loop goes to sleep after it. -/
inductive LoopAct where
  | service (a : Act)
  | pass
  | sleep
  deriving DecidableEq, Repr

/-- `asyncio.sleep(60)`. -/
def cleanupSleep : Time := 60 * 1000000

/-- A step of the service with the cleanup loop. -/
def loopStep (cat : Catalog) (σ : Looped) : LoopAct → Option Looped
  | .service a => (step cat σ.service a).map fun service => { σ with service := service }
  | .pass =>
    match σ.loop with
    | .sleeping wake =>
      if wake ≤ σ.service.now then
        (step cat σ.service (.request .cleanup)).map fun service => ⟨service, .passing σ.service.sessions.length⟩
      else none
    | .passing _ => none
  | .sleep =>
    match σ.loop with
    | .passing i =>
      if (σ.service.sessions[i]?).any (·.task.isFinished) then
        some { σ with loop := .sleeping (σ.service.now + cleanupSleep) }
      else none
    | .sleeping _ => none

/-- A worker starts with its first pass. -/
def Looped.start (now : Time) : Looped := ⟨.seeded now, .sleeping now⟩

/-- The loop is at most `delay` late: it wakes in time, and a pass with the statement that follows it takes
    no longer. -/
def Looped.onTime (delay : Time) (σ : Looped) : Bool :=
  match σ.loop with
  | .sleeping wake => decide (σ.service.now ≤ wake + delay)
  | .passing i => (σ.service.sessions[i]?).any fun s => decide (σ.service.now ≤ s.began + delay)

/-- The steps of the service. -/
def LoopAct.service? : LoopAct → Option Act
  | .service a => some a
  | .pass => some (.request .cleanup)
  | .sleep => none

/-- A pass has ended that began at `t` or later. -/
def State.PassEnded (σ : State) (t : Time) : Prop :=
  ∃ (j : Sid) (s : Session), σ.sessions[j]? = some s ∧ s.task.request = .cleanup ∧
  s.task.isFinished = true ∧ t ≤ s.began

/-- How long ago the last pass began that has ended, if not all that has passed is the time of the first one. -/
def Looped.Regular (start delay : Time) (σ : Looped) : Prop :=
  match σ.loop with
  | .sleeping wake => wake = start ∨ σ.service.PassEnded (wake - cleanupSleep - delay)
  | .passing i => ∃ s, σ.service.sessions[i]? = some s ∧ s.task.request = .cleanup ∧
    (s.began ≤ start + delay ∨ σ.service.PassEnded (s.began - cleanupSleep - 2 * delay))

section
variable {cat : Catalog} {σ τ : Looped} {a : LoopAct} {acts : List LoopAct} {start delay : Time} {b : Booking}

/-! ### The service of the loop -/

theorem loopStep_service (h : loopStep cat σ a = some τ) :
    exec (step cat) σ.service a.service?.toList = some τ.service := by
  cases a with
  | service a =>
    obtain ⟨service, hstep, rfl⟩ := Option.map_eq_some_iff.mp h
    exact Option.bind_eq_some_iff.mpr ⟨service, hstep, rfl⟩
  | pass =>
    simp only [loopStep] at h
    split at h
    · obtain ⟨-, h⟩ := Option.ite_none_right_eq_some.mp h
      obtain ⟨service, hstep, rfl⟩ := Option.map_eq_some_iff.mp h
      exact Option.bind_eq_some_iff.mpr ⟨service, hstep, rfl⟩
    · cases h
  | sleep =>
    simp only [loopStep] at h
    split at h
    · obtain ⟨-, h⟩ := Option.ite_none_right_eq_some.mp h
      cases h
      rfl
    · cases h

theorem State.PassEnded.step {σ τ : State} {a : Act} {t : Time} (h : σ.PassEnded t) (hstep : step cat σ a = some τ) :
    τ.PassEnded t := by
  obtain ⟨j, s, hs, hreq, hfin, hle⟩ := h
  exact ⟨j, s, finished_step hstep hs hfin, hreq, hfin, hle⟩

theorem State.PassEnded.mono {σ : State} {t t' : Time} (h : σ.PassEnded t) (hle : t' ≤ t) : σ.PassEnded t' := by
  obtain ⟨j, s, hs, hreq, hfin, hbegan⟩ := h
  exact ⟨j, s, hs, hreq, hfin, Int.le_trans hle hbegan⟩

/-- A loop that is on time is regular. -/
theorem Looped.Regular.step (h : σ.Regular start delay) (onTime : σ.onTime delay = true)
    (hstep : loopStep cat σ a = some τ) :
    τ.Regular start delay := by
  obtain ⟨service, loop⟩ := σ
  cases a with
  | service a =>
    obtain ⟨service', hservice, rfl⟩ := Option.map_eq_some_iff.mp hstep
    cases loop with
    | sleeping wake => exact h.imp_right fun ended => ended.step hservice
    | passing i =>
      obtain ⟨s, hs, hreq, hended⟩ := h
      have run : exec (step cat) service [a] = some service' := Option.bind_eq_some_iff.mpr ⟨_, hservice, rfl⟩
      obtain ⟨s', hs', hbegan, hreq'⟩ := request_exec run hs
      refine ⟨s', hs', hreq'.trans hreq, ?_⟩
      rw [hbegan]
      exact hended.imp_right fun ended => ended.step hservice
  | pass =>
    cases loop with
    | sleeping wake =>
      obtain ⟨-, hmap⟩ := Option.ite_none_right_eq_some.mp hstep
      obtain ⟨service', hservice, rfl⟩ := Option.map_eq_some_iff.mp hmap
      have hnow : service.now ≤ wake + delay := of_decide_eq_true onTime
      have ended := h.imp_right fun ended => ended.step hservice
      cases hservice
      refine ⟨⟨service.now, .cleanup .scan⟩, by simp [Request.task], rfl, ?_⟩
      rcases ended with rfl | ended
      · exact Or.inl hnow
      · have hle : ∀ now wake sleep delay : Int, now ≤ wake + delay →
          now - sleep - 2 * delay ≤ wake - sleep - delay := by omega
        exact Or.inr (ended.mono (hle _ _ _ _ hnow))
    | passing i => cases hstep
  | sleep =>
    cases loop with
    | sleeping wake => cases hstep
    | passing i =>
      obtain ⟨hfin, hsome⟩ := Option.ite_none_right_eq_some.mp hstep
      cases hsome
      obtain ⟨s, hs, hreq, -⟩ := h
      have hnow : service.now ≤ s.began + delay := by
        have hle := onTime
        simp only [Looped.onTime, hs, Option.any_some] at hle
        exact of_decide_eq_true hle
      have hfin : s.task.isFinished = true := by
        simp only [hs, Option.any_some] at hfin
        exact hfin
      have hle : ∀ now began sleep delay : Int, now ≤ began + delay → now + sleep - sleep - delay ≤ began := by omega
      exact Or.inr ⟨i, s, hs, hreq, hfin, hle _ _ _ _ hnow⟩

theorem Looped.regular_of_run (along : Along (loopStep cat) (fun υ _ => υ.onTime delay = true) (.start start) acts)
    (run : exec (loopStep cat) (.start start) acts = some σ) : σ.Regular start delay := by
  have first : (Looped.start start).Regular start delay := Or.inl rfl
  exact exec_invariant (fun _ _ _ h onTime hstep => h.step onTime hstep) first along run

/-- The service runs as it does without the loop. -/
theorem looped_exec (run : exec (loopStep cat) σ acts = some τ) :
    exec (step cat) σ.service (acts.filterMap (·.service?)) = some τ.service :=
  exec_filterMap (fun _ _ _ => loopStep_service) run

/-! ### Nothing is older than the service -/

/-- The sessions and the bookings of a service that started at `start`. -/
structure State.Since (start : Time) (σ : State) : Prop where
  now : start ≤ σ.now
  began : ∀ s ∈ σ.sessions, start ≤ s.began
  expires : ∀ b ∈ σ.db.bookings, ∀ t, b.expiresAt = some t → start ≤ t

theorem State.Since.step {σ τ : State} {a : Act} (h : σ.Since start) (hr : Reachable cat σ)
    (hstep : step cat σ a = some τ) :
    τ.Since start := by
  have sessions {i : Sid} {s : Session} {e : Effect} {t : Task} (hs : σ.sessions[i]? = some s) :
      ∀ s' ∈ ((σ.perform i e).goto i s t).sessions, start ≤ s'.began := by
    intro s' hs'
    obtain ⟨j, hj⟩ := List.mem_iff_getElem?.mp hs'
    rcases session_of_goto hs hj with ⟨-, rfl⟩ | ⟨-, hj⟩
    · exact h.began s (List.mem_of_getElem? hs)
    · exact h.began s' (List.mem_of_getElem? hj)
  refine ⟨Int.le_trans h.now (step_now_le hstep), ?_, ?_⟩
  · cases step_stepped hstep with
    | request r =>
      intro s' hs'
      rcases List.mem_append.mp hs' with hs' | hs'
      · exact h.began s' hs'
      · rw [List.mem_singleton.mp hs']
        exact h.now
    | run hs hc m => exact sessions hs
    | raise hs hraise m => exact sessions hs
    | tick d => exact h.began
    | updateConfig failureRate latencyMs => exact h.began
  · cases step_stepped hstep with
    | @run i x s e t hs hc m =>
      intro b hb t ht
      rw [goto_db] at hb
      rcases perform_db σ i e with he | ⟨-, he⟩ <;> rw [he] at hb
      · exact h.expires b hb t ht
      · rcases origin_foldl hb with ⟨b₀, hb₀, hfix⟩ | ⟨b₀, hw, hfix⟩
        · exact h.expires b₀ hb₀ t (Booking.expiresAt_of_fixed hfix ▸ ht)
        · obtain ⟨t', ht', hle⟩ := ((recordsTime_of_reachable hr i s hs).pending _ hw).expiresAt
          rw [Booking.expiresAt_of_fixed hfix, ht] at ht'
          cases ht'
          exact Int.le_trans (h.began s (List.mem_of_getElem? hs)) hle
    | raise hs hraise m => exact h.expires
    | _ => exact h.expires

theorem since_exec {σ : State} {acts : List Act} (run : exec (step cat) (.seeded start) acts = some σ) :
    σ.Since start := by
  have keep : ∀ (υ : State) (a : Act) (υ' : State), Reachable cat υ ∧ υ.Since start → step cat υ a = some υ' →
      Reachable cat υ' ∧ υ'.Since start := fun _ _ _ h hstep => ⟨h.1.next trivial hstep, h.2.step h.1 hstep⟩
  refine (exec_invariant_of_step keep ⟨.start ⟨start, rfl⟩, le_refl _, ?_, ?_⟩ run).2
  · intro s hs
    cases hs
  · intro b hb
    cases hb

/-! ### What a pass leaves behind -/

/-- A pass that has ended without an exception began with its scan. -/
theorem exists_scan_of_pass {σ : State} {acts : List Act} {j : Sid} {began : Time}
    (run : exec (step cat) (.seeded start) acts = some σ)
    (hs : σ.sessions[j]? = some ⟨began, .cleanup (.finished (.ok ()))⟩) :
    ∃ pre c post υ υ₁, acts = pre ++ .run j c :: post ∧ exec (step cat) (.seeded start) pre = some υ ∧
      υ.sessions[j]? = some ⟨began, .cleanup .scan⟩ ∧ step cat υ (.run j c) = some υ₁ ∧
        exec (step cat) υ₁ post = some σ := by
  have before : ¬∃ s, (State.seeded start).sessions[j]? = some s ∧ s.task ≠ .cleanup .scan := by
    rintro ⟨s, hs, -⟩
    cases hs
  obtain ⟨pre, a, post, υ, υ₁, rfl, hpre, hno, hstep, ⟨s, hs₁, hne⟩, hpost⟩ :=
    exists_step_begins (I := fun υ : State => ∃ s, υ.sessions[j]? = some s ∧ s.task ≠ .cleanup .scan) run before
      ⟨_, hs, by simp⟩
  have first {s₀ : Session} (hs₀ : υ.sessions[j]? = some s₀) : s₀.task = .cleanup .scan := by
    by_contra hne
    exact hno ⟨s₀, hs₀, hne⟩
  obtain ⟨s', hs', hbegan, hreq⟩ := request_exec hpost hs₁
  cases hs.symm.trans hs'
  cases step_stepped hstep with
  | request r =>
    rcases session_of_request hs₁ with hold | ⟨-, rfl⟩
    · exact absurd (first hold) hne
    · cases hreq.trans r.task_request
      exact absurd rfl hne
  | @run i x s₀ e t hs₀ hc m =>
    rcases session_of_goto hs₀ hs₁ with ⟨rfl, rfl⟩ | ⟨-, hold⟩
    · obtain ⟨began₀, task⟩ := s₀
      cases first hs₀
      cases hbegan
      exact ⟨pre, x, post, υ, _, rfl, hpre, hs₀, hstep, hpost⟩
    · exact absurd (first hold) hne
  | raise hs₀ hraise m =>
    rcases session_of_goto hs₀ hs₁ with ⟨rfl, rfl⟩ | ⟨-, hold⟩
    · rw [first hs₀] at hraise
      cases hraise
      cases hs.symm.trans (finished_exec hpost hs₁ rfl)
    · exact absurd (first hold) hne
  | tick d => exact absurd (first hs₁) hne
  | updateConfig failureRate latencyMs => exact absurd (first hs₁) hne

/-- Of a loop on time, a pass has ended that began after any time more than a sleep and three delays ago. -/
theorem Looped.Regular.passEnded {t : Time} (h : σ.Regular start delay) (onTime : σ.onTime delay = true)
    (hdelay : 0 ≤ delay) (hstart : start ≤ t) (late : t + cleanupSleep + 3 * delay < σ.service.now) :
    σ.service.PassEnded (t + 1) := by
  have hsleep : (0 : Int) ≤ cleanupSleep := by decide
  obtain ⟨service, loop⟩ := σ
  cases loop with
  | sleeping wake =>
    have hnow : service.now ≤ wake + delay := of_decide_eq_true onTime
    rcases h with rfl | ended
    · have hfar : ∀ now wake t sleep delay : Int, 0 ≤ sleep → 0 ≤ delay → wake ≤ t → now ≤ wake + delay →
          ¬t + sleep + 3 * delay < now := by omega
      exact absurd late (hfar _ _ _ _ _ hsleep hdelay hstart hnow)
    · have hle : ∀ now wake t sleep delay : Int, 0 ≤ delay → now ≤ wake + delay → t + sleep + 3 * delay < now →
          t + 1 ≤ wake - sleep - delay := by omega
      exact ended.mono (hle _ _ _ _ _ hdelay hnow late)
  | passing i =>
    obtain ⟨s, hs, -, hended⟩ := h
    have hnow : service.now ≤ s.began + delay := by
      simp only [Looped.onTime, hs, Option.any_some] at onTime
      exact of_decide_eq_true onTime
    rcases hended with hfirst | ended
    · have hfar : ∀ now began start t sleep delay : Int, 0 ≤ sleep → 0 ≤ delay → start ≤ t → began ≤ start + delay →
          now ≤ began + delay → ¬t + sleep + 3 * delay < now := by omega
      exact absurd late (hfar _ _ _ _ _ _ hsleep hdelay hstart hfirst hnow)
    · have hle : ∀ now began t sleep delay : Int, now ≤ began + delay → t + sleep + 3 * delay < now →
          t + 1 ≤ began - sleep - 2 * delay := by omega
      exact ended.mono (hle _ _ _ _ _ hnow late)

theorem finished_of_cleanup {t : Task} (hreq : t.request = .cleanup) (hfin : t.isFinished = true) :
    ∃ r, t = .cleanup (.finished r) := by
  cases t with
  | cleanup pc =>
    cases pc with
    | finished r => exact ⟨r, rfl⟩
    | _ => cases hfin
  | _ => cases hreq

/-- A loop that is at most `delay` late ends the reservations that have expired for more than a minute and three times
    the delay, unless a pass since then has failed, or has found the row locked or not committed yet. -/
theorem expired_released {e : Time} (hdelay : 0 ≤ delay)
    (along : Along (loopStep cat) (fun υ _ => υ.onTime delay = true) (.start start) acts)
    (run : exec (loopStep cat) (.start start) acts = some σ) (onTime : σ.onTime delay = true)
    (hb : b ∈ σ.service.db.bookings) (hst : b.status = .reserved) (hexp : b.expiresAt = some e)
    (late : e + cleanupSleep + 3 * delay < σ.service.now) :
    ∃ j began, e < began ∧ ((∃ x, σ.service.sessions[j]? = some ⟨began, .cleanup (.finished (.error x))⟩) ∨
      ∃ pre c post υ, acts.filterMap (·.service?) = pre ++ .run j c :: post ∧
        exec (step cat) (.seeded start) pre = some υ ∧
        υ.sessions[j]? = some ⟨began, .cleanup .scan⟩ ∧ ((∀ b₀ ∈ υ.db.bookings, b₀.id ≠ b.id) ∨
          ∃ k s, k ≠ j ∧ υ.sessions[k]? = some s ∧ .bookingRow b.id ∈ s.task.owned)) := by
  have hrun := looped_exec run
  have hstart : start ≤ e := (since_exec hrun).expires b hb e hexp
  obtain ⟨j, s, hs, hreq, hfin, hafter⟩ := (Looped.regular_of_run along run).passEnded onTime hdelay hstart late
  obtain ⟨began, task⟩ := s
  have hexpired : b.expiresAt.any (· < began) = true := by
    rw [hexp]
    exact decide_eq_true hafter
  refine ⟨j, began, hafter, ?_⟩
  obtain ⟨r, rfl⟩ := finished_of_cleanup hreq hfin
  cases r with
  | error x => exact Or.inl ⟨x, hs⟩
  | ok u =>
    obtain ⟨pre, c, post, υ, υ₁, hacts, hpre, hscan, scan, hpost⟩ := exists_scan_of_pass hrun hs
    have hr : Reachable cat υ := reachable_exec (.start ⟨start, rfl⟩) hpre
    exact Or.inr ⟨pre, c, post, υ, hacts, hpre, hscan, stale_was_held hr hscan scan hpost hs hb hst hexpired⟩

/-- A payment holds the row of an expired reservation through a pass. The loop is five minutes late each time. -/
def stalledRun : List LoopAct :=
  (.request (.create ⟨1, 20, 40, 50, none⟩) :: runs 0 9 60 ++
    .request (.pay ⟨60, 1, 70, none⟩) :: runs 1 2 80).map .service ++
    .pass :: (runs 2 3 0 ++ [Act.tick 300000000]).map .service ++ .sleep :: .service (.tick 360000000) ::
    .pass :: (runs 3 3 0 ++ [Act.tick 300000000]).map .service ++ [.sleep, .service (.tick 360000000)]

theorem expired_released_stalled : ∃ (σ : Looped) (b : Booking) (j : Sid) (began : Time), 300000000 < began ∧
    ((∃ x, σ.service.sessions[j]? = some ⟨began, .cleanup (.finished (.error x))⟩) ∨
      ∃ pre c post υ, stalledRun.filterMap (·.service?) = pre ++ .run j c :: post ∧
        exec (step sampleCatalog) (.seeded 0) pre = some υ ∧ υ.sessions[j]? = some ⟨began, .cleanup .scan⟩ ∧
        ((∀ b₀ ∈ υ.db.bookings, b₀.id ≠ b.id) ∨ ∃ k s, k ≠ j ∧ υ.sessions[k]? = some s ∧
          .bookingRow b.id ∈ s.task.owned)) := by
  have along : Along (loopStep sampleCatalog) (fun υ _ => υ.onTime 300000000 = true) (.start 0) stalledRun := by decide
  have hrun : (exec (loopStep sampleCatalog) (.start 0) stalledRun).any (fun σ : Looped =>
      σ.onTime 300000000 && decide (σ.service.now = 1320000000) &&
        σ.service.db.bookings.any fun b => b.status = .reserved ∧ b.expiresAt = some 300000000) = true := by decide
  obtain ⟨σ, run, htest⟩ := (Option.any_eq_true _ _).mp hrun
  simp only [Bool.and_eq_true, decide_eq_true_eq, List.any_eq_true] at htest
  obtain ⟨⟨onTime, hnow⟩, b, hb, hst, hexp⟩ := htest
  have late : 300000000 + cleanupSleep + 3 * 300000000 < σ.service.now := by
    rw [hnow]
    decide
  exact ⟨σ, b, expired_released (by decide) along run onTime hb hst hexp late⟩

end

end Railbook
