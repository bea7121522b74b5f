import Railbook.Creates

/-! Requests for one seat of one schedule that run at the same time, on tables in which the pair has no row. Until the
    first commit no request is answered; the request that commits first takes the seat, and the others lose, each of
    them in the way that its program counter leaves open. -/

namespace Railbook
open ReadCommitted Transition

/-! ### Racing for the seat -/

/-- The program counters of a request while the pair has no row. -/
def CreatePc.isRacing : CreatePc → Bool
  | checkKey | lockSeat | checkOverlap none | getSeat none | insertKey _ | insertSeat _ | audit _ | commit _ => true
  | _ => false

/-- The moves of a request as long as no rival has committed. -/
inductive RacingMove : CreatePc → CreatePc → Prop
  | unused : RacingMove .checkKey .lockSeat
  | vacant : RacingMove .lockSeat (.checkOverlap none)
  | disjoint : RacingMove (.checkOverlap none) (.getSeat none)
  | priced (b : Booking) : RacingMove (.getSeat none) (.insertKey b)
  | keyed (b b' : Booking) : RacingMove (.insertKey b) (.insertSeat b')
  | seated (b : Booking) : RacingMove (.insertSeat b) (.audit b)
  | audited (b : Booking) : RacingMove (.audit b) (.commit b)
  | committed (b : Booking) : RacingMove (.commit b) (.invalidate b)

/-- How a request can end when another one has stored `b`: it finds `b` under its own key, it is told that the seat is
    taken or that the journeys overlap, or it fails at a unique index. -/
def Loses (b : Booking) (r : Except Exc Booking) : Prop :=
  r = .ok b ∨ (∃ detail, r = .error (httpError 409 detail)) ∨ r = .error .integrityError

/-- The program counters of a request when another one has stored `b`. -/
def CreatePc.IsLosing (b : Booking) : CreatePc → Prop
  | checkKey | lockSeat | checkOverlap none | getSeat none | insertKey _ | insertSeat _ => True
  | awaitSeat id => id = b.id
  | finished r => Loses b r
  | _ => False

/-- The moves of a request after a rival has committed `b`. -/
inductive LosingMove (q : CreateRequest) (b : Booking) : CreatePc → CreatePc → Prop
  | found (h : b.idempotencyKey = q.idempotencyKey) : LosingMove q b .checkKey (.finished (.ok b))
  | unused (h : b.idempotencyKey ≠ q.idempotencyKey) : LosingMove q b .checkKey .lockSeat
  | stored : LosingMove q b .lockSeat (.awaitSeat b.id)
  | booked : LosingMove q b (.awaitSeat b.id)
      (.finished (.error (httpError 409 "Seat already booked for this schedule")))
  | overlapping (h : b.userId = q.userId) : LosingMove q b (.checkOverlap none)
      (.finished (.error (httpError 409 "You have an overlapping journey")))
  | disjoint : LosingMove q b (.checkOverlap none) (.getSeat none)
  | priced (b' : Booking) : LosingMove q b (.getSeat none) (.insertKey b')
  | keyed (b' b'' : Booking) (h : b.idempotencyKey ≠ q.idempotencyKey) :
    LosingMove q b (.insertKey b') (.insertSeat b'')
  | keyTaken (b' : Booking) (h : b.idempotencyKey = q.idempotencyKey) :
    LosingMove q b (.insertKey b') (.finished (.error .integrityError))
  | seatTaken (b' : Booking) : LosingMove q b (.insertSeat b') (.finished (.error .integrityError))

/-- Nothing is committed yet. -/
structure State.Vacant (σ : State) (d : Db) : Prop where
  db : σ.db = d
  racing : ∀ (i : Sid) began q pc, σ.sessions[i]? = some ⟨began, .create q pc⟩ → pc.isRacing = true

/-- Session `w` has stored `b`, and the others lose. -/
structure State.Taken (σ : State) (d : Db) (w : Sid) (b : Booking) : Prop where
  bookings : σ.db.bookings = d.bookings ++ [b]
  winner : ∃ began q, q.Builds b ∧ (σ.sessions[w]? = some ⟨began, .create q (.invalidate b)⟩ ∨
    σ.sessions[w]? = some ⟨began, .create q (.finished (.ok b))⟩)
  losing : ∀ (i : Sid) began q pc, i ≠ w → σ.sessions[i]? = some ⟨began, .create q pc⟩ → pc.IsLosing b

/-- The requests `rs` for one pair, each of which the tables `d` would let pass. -/
structure Contest (cat : Catalog) (d : Db) (rs : List CreateRequest) : Prop where
  bookable : ∀ q ∈ rs, Bookable cat d q
  pair : ∀ q ∈ rs, ∀ q' ∈ rs, q.scheduleId = q'.scheduleId ∧ q.seatId = q'.seatId

/-- A state of the race. -/
structure State.Racing (σ : State) (d : Db) (rs : List CreateRequest) : Prop where
  inv : Inv σ
  own : σ.InsertsOwn
  requests : σ.sessions.map (·.task.request) = rs.map .create
  stage : σ.Vacant d ∨ ∃ w b, σ.Taken d w b

/-- What a step of the race is: time passes, or one request moves, before the seat is taken, by taking it, or after
    it is taken. -/
inductive RaceStep (d : Db) (rs : List CreateRequest) (σ τ : State) : Act → Prop
  | tick (n : Nat) (same : τ.sessions = σ.sessions) (vacant : σ.Vacant d → τ.Vacant d)
      (taken : ∀ w b, σ.Taken d w b → τ.Taken d w b) : RaceStep d rs σ τ (.tick n)
  | races {i : Sid} {x : Choice} {began : Time} {q : CreateRequest} {pc pc' : CreatePc} (vacant : σ.Vacant d)
      (hs : σ.sessions[i]? = some ⟨began, .create q pc⟩) (hq : rs[i]? = some q) (m : RacingMove pc pc')
      (hself : τ.sessions[i]? = some ⟨began, .create q pc'⟩)
      (hothers : ∀ (j : Sid), j ≠ i → τ.sessions[j]? = σ.sessions[j]?)
      (next : τ.Vacant d ∨ ∃ b, pc = .commit b ∧ τ.Taken d i b) : RaceStep d rs σ τ (.run i x)
  | wins {i : Sid} {x : Choice} {began : Time} {q : CreateRequest} {b : Booking} (taken : σ.Taken d i b)
      (hs : σ.sessions[i]? = some ⟨began, .create q (.invalidate b)⟩)
      (hself : τ.sessions[i]? = some ⟨began, .create q (.finished (.ok b))⟩)
      (hothers : ∀ (j : Sid), j ≠ i → τ.sessions[j]? = σ.sessions[j]?) (hdb : τ.db = σ.db) : RaceStep d rs σ τ
      (.run i x)
  | loses {i w : Sid} {x : Choice} {began : Time} {q q' : CreateRequest} {b : Booking} {pc pc' : CreatePc}
      (taken : σ.Taken d w b) (hne : i ≠ w) (hs : σ.sessions[i]? = some ⟨began, .create q pc⟩) (hq : rs[i]? = some q)
      (hw : rs[w]? = some q') (builds : q'.Builds b) (m : LosingMove q b pc pc')
      (hself : τ.sessions[i]? = some ⟨began, .create q pc'⟩)
      (hothers : ∀ (j : Sid), j ≠ i → τ.sessions[j]? = σ.sessions[j]?) (hdb : τ.db = σ.db) : RaceStep d rs σ τ
      (.run i x)

section
variable {cat : Catalog} {σ τ : State} {i j w : Sid} {began : Time} {s : Session} {t : Task} {e : Effect} {x : Choice}
  {q q' : CreateRequest} {b : Booking} {pc pc' : CreatePc} {d : Db} {rs : List CreateRequest}

/-- Before the first commit a request goes on, or waits for another one. -/
theorem racing_of_vacant (book : Bookable cat d q) (hview : pc.inserted = none → σ.view i = d)
    (hpc : pc.isRacing = true) (hc : createBooking cat σ i began q x pc = some (e, pc')) : RacingMove pc pc' := by
  obtain ⟨schedule, hsch, hov⟩ := book.journey
  cases pc with
  | checkKey =>
    rw [create_unused (hview rfl ▸ book.unused)] at hc
    cases hc
    exact .unused
  | lockSeat =>
    rw [create_vacant (hview rfl ▸ book.vacant)] at hc
    cases hc
    exact .vacant
  | checkOverlap existing =>
    cases existing with
    | none =>
      rw [create_disjoint hsch (hview rfl ▸ hov)] at hc
      cases hc
      exact .disjoint
    | some e => cases hpc
  | getSeat existing =>
    cases existing with
    | none =>
      obtain ⟨price, hprice, -⟩ := create_priced σ i began x book.seat
      rw [hprice] at hc
      cases hc
      exact .priced _
    | some e => cases hpc
  | insertKey b =>
    obtain ⟨fresh, free⟩ := insertKey_free hc
    rw [create_keyed fresh free (hview rfl ▸ book.unused)] at hc
    cases hc
    exact .keyed _ _
  | insertSeat b =>
    rw [create_seated (insertSeat_free hc) (hview rfl ▸ book.vacant) book.user
      (Option.isSome_of_mem hsch) book.seat] at hc
    cases hc
    exact .seated _
  | audit b =>
    cases hc
    exact .audited _
  | commit b =>
    cases hc
    exact .committed _
  | _ => cases hpc

theorem filter_snoc {α : Type} {p : α → Bool} {l : List α} {a : α} (hl : ∀ y ∈ l, p y = false) (ha : p a = true) :
    (l ++ [a]).filter p = [a] := by
  rw [List.filter_append, List.filter_eq_nil_iff.mpr fun y hy => by simp [hl y hy], List.nil_append,
    List.filter_cons_of_pos ha, List.filter_nil]

/-- Once `b` is stored, another request goes on, waits, or ends. -/
theorem losing_of_taken (book : Bookable cat d q) (hids : ((σ.view i).bookings.map (·.id)).Nodup)
    (hb : (σ.view i).bookings = d.bookings ++ [b]) (hsch : b.scheduleId = q.scheduleId) (hx : b.seatId = q.seatId)
    (hact : b.status.isActive = true) (hpc : pc.IsLosing b) (hc : createBooking cat σ i began q x pc = some (e, pc')) :
    LosingMove q b pc pc' := by
  obtain ⟨schedule, hschedule, hov⟩ := book.journey
  have hmem : b ∈ (σ.view i).bookings := hb ▸ List.mem_append_right _ (List.mem_singleton_self b)
  have hunused : b.idempotencyKey ≠ q.idempotencyKey →
    ∀ b' ∈ (σ.view i).bookings, b'.idempotencyKey ≠ q.idempotencyKey := by
    intro hkey b' hb'
    rw [hb] at hb'
    rcases List.mem_append.mp hb' with hb' | hb'
    · exact book.unused b' hb'
    · rwa [List.mem_singleton.mp hb']
  cases pc with
  | checkKey =>
    by_cases hkey : b.idempotencyKey = q.idempotencyKey
    · have hfilter : (σ.view i).bookings.filter (·.idempotencyKey = q.idempotencyKey) = [b] := by
        rw [hb]
        exact filter_snoc (fun b' hb' => decide_eq_false (book.unused b' hb')) (decide_eq_true hkey)
      rw [create_found hfilter] at hc
      cases hc
      exact .found hkey
    · rw [create_unused (hunused hkey)] at hc
      cases hc
      exact .unused hkey
  | lockSeat =>
    have hfind : ((σ.view i).bookings.find? fun b => b.scheduleId = q.scheduleId ∧ b.seatId = q.seatId) = some b := by
      rw [hb, List.find?_append, List.find?_eq_none.mpr fun b' hb' => by simpa using book.vacant b' hb']
      simp [hsch, hx]
    rw [create_stored hfind] at hc
    cases hc
    exact .stored
  | awaitSeat id =>
    obtain rfl : id = b.id := hpc
    rw [create_booked (find?_of_key hids hmem) hact hc]
    exact .booked
  | checkOverlap existing =>
    cases existing with
    | none =>
      by_cases hb' : overlaps cat schedule q.userId b = true
      · have hfilter : (σ.view i).bookings.filter (overlaps cat schedule q.userId) = [b] := by
          rw [hb]
          exact filter_snoc hov hb'
        rw [create_overlapping hschedule hfilter] at hc
        cases hc
        refine .overlapping ?_
        simp only [overlaps, Bool.and_eq_true, beq_iff_eq] at hb'
        exact hb'.1.1
      · have hall : ∀ b' ∈ (σ.view i).bookings, overlaps cat schedule q.userId b' = false := by
          intro y hy
          rw [hb] at hy
          rcases List.mem_append.mp hy with hy | hy
          · exact hov y hy
          · rw [List.mem_singleton.mp hy]
            exact Bool.eq_false_iff.mpr hb'
        rw [create_disjoint hschedule hall] at hc
        cases hc
        exact .disjoint
    | some e => exact hpc.elim
  | getSeat existing =>
    cases existing with
    | none =>
      obtain ⟨price, hprice, -⟩ := create_priced σ i began x book.seat
      rw [hprice] at hc
      cases hc
      exact .priced _
    | some e => exact hpc.elim
  | insertKey b' =>
    by_cases hkey : b.idempotencyKey = q.idempotencyKey
    · rw [create_keyTaken ⟨b, hmem, hkey⟩ hc]
      exact .keyTaken _ hkey
    · obtain ⟨fresh, free⟩ := insertKey_free hc
      rw [create_keyed fresh free (hunused hkey)] at hc
      cases hc
      exact .keyed _ _ hkey
  | insertSeat b' =>
    rw [create_seatTaken ⟨b, hmem, hsch, hx⟩ hc]
    exact .seatTaken _
  | finished r => cases hc
  | _ => exact hpc.elim

theorem LosingMove.isLosing (m : LosingMove q b pc pc') : pc'.IsLosing b := by
  cases m with
  | found h => exact Or.inl rfl
  | stored => exact rfl
  | booked => exact Or.inr (Or.inl ⟨_, rfl⟩)
  | overlapping h => exact Or.inr (Or.inl ⟨_, rfl⟩)
  | keyTaken b' h => exact Or.inr (Or.inr rfl)
  | seatTaken b' => exact Or.inr (Or.inr rfl)
  | _ => trivial

theorem State.Taken.win (h : σ.Taken d w b) (hs : σ.sessions[i]? = some ⟨began, .create q (.invalidate b)⟩)
    (hself : τ.sessions[i]? = some ⟨began, .create q (.finished (.ok b))⟩)
    (hothers : ∀ (j : Sid), j ≠ i → τ.sessions[j]? = σ.sessions[j]?) (hdb : τ.db = σ.db) : i = w ∧ τ.Taken d w b := by
  have hiw : i = w := by
    by_contra hne
    exact h.losing i began q _ hne hs
  subst hiw
  obtain ⟨began', q', builds, hw⟩ := h.winner
  refine ⟨rfl, by rw [hdb, h.bookings], ⟨began, q, ?_, Or.inr hself⟩, fun j _ _ _ hj hs' => ?_⟩
  · rcases hw with hw | hw <;> rw [hs] at hw <;> cases hw
    exact builds
  · rw [hothers j hj] at hs'
    exact h.losing j _ _ _ hj hs'

/-- A move of another request leaves the seat with its winner. -/
theorem State.Taken.lose (h : σ.Taken d w b) (hs : σ.sessions[i]? = some ⟨began, .create q pc⟩)
    (m : LosingMove q b pc pc') (hself : τ.sessions[i]? = some ⟨began, .create q pc'⟩)
    (hothers : ∀ (j : Sid), j ≠ i → τ.sessions[j]? = σ.sessions[j]?) (hdb : τ.db = σ.db) : i ≠ w ∧ τ.Taken d w b := by
  obtain ⟨began', q', builds, hw⟩ := h.winner
  have hiw : i ≠ w := by
    rintro rfl
    rcases hw with hw | hw <;> rw [hs] at hw <;> cases hw <;> cases m
  refine ⟨hiw, by rw [hdb, h.bookings], ⟨began', q', builds, ?_⟩, fun j _ _ _ hj hs' => ?_⟩
  · rwa [hothers w (Ne.symm hiw)]
  · rcases session_of_others hself hothers hs' with ⟨rfl, he⟩ | ⟨-, hs'⟩
    · cases he
      exact m.isLosing
    · exact h.losing j _ _ _ hj hs'

/-! ### Steps -/

theorem State.Racing.session (h : σ.Racing d rs) (hs : σ.sessions[i]? = some s) :
    ∃ q pc, rs[i]? = some q ∧ s.task = .create q pc := by
  have hmap := congrArg (·[i]?) h.requests
  simp only [List.getElem?_map, hs, Option.map_some] at hmap
  obtain ⟨q, hq, hreq⟩ := Option.map_eq_some_iff.mp hmap.symm
  obtain ⟨began, t⟩ := s
  cases t with
  | create q' pc =>
    cases hreq
    exact ⟨_, pc, hq, rfl⟩
  | _ => cases hreq

/-- The request that commits first takes the seat: nobody else has inserted a row for it. -/
theorem State.Racing.take (contest : Contest cat d rs) (h : σ.Racing d rs) (vacant : σ.Vacant d)
    (hs : σ.sessions[i]? = some ⟨began, .create q (.commit b)⟩) (hq : rs[i]? = some q) :
    State.Taken ((σ.perform i .commit).goto i ⟨began, .create q (.commit b)⟩ (.create q (.invalidate b))) d i b where
  bookings := by
    show (σ.view i).bookings = _
    rw [h.own.view_bookings hs rfl, vacant.db]
  winner := ⟨began, q, (h.inv.taskOk hs).sound, Or.inl (goto_sessions_self hs)⟩
  losing j began' q' pc hne hj := by
    rw [goto_sessions_ne hne] at hj
    obtain ⟨q'', pc'', hq', htask⟩ := h.session hj
    cases htask
    have hpair := contest.pair q (List.mem_of_getElem? hq) q' (List.mem_of_getElem? hq')
    have holds : .bookingSeat q'.scheduleId q'.seatId ∉ (Task.create q' pc).owned := by
      intro hown
      refine hne (h.inv.owner_unique hj hs hown ?_)
      rw [← hpair.1, ← hpair.2]
      simp [Task.owned]
    have hracing := vacant.racing j began' q' pc hj
    cases pc with
    | audit b' => simp [Task.owned] at holds
    | commit b' => simp [Task.owned] at holds
    | checkOverlap existing => cases existing <;> trivial
    | getSeat existing => cases existing <;> trivial
    | awaitSeat id => cases hracing
    | delete e price => cases hracing
    | invalidate b' => cases hracing
    | finished r => cases hracing
    | _ => trivial

theorem State.Racing.run_vacant (contest : Contest cat d rs) (h : σ.Racing d rs) (vacant : σ.Vacant d)
    (hs : σ.sessions[i]? = some ⟨began, .create q pc⟩) (hq : rs[i]? = some q)
    (hc : createBooking cat σ i began q x pc = some (e, pc')) :
    RaceStep d rs σ ((σ.perform i e).goto i ⟨began, .create q pc⟩ (.create q pc')) (.run i x) := by
  have book := contest.bookable q (List.mem_of_getElem? hq)
  have hracing := vacant.racing i began q pc hs
  have m := racing_of_vacant book (fun hpc => (h.own.view hs hpc).trans vacant.db) hracing hc
  refine .races vacant hs hq m (goto_sessions_self hs) (fun j hj => goto_sessions_ne hj) ?_
  by_cases hcommit : ∃ b, pc = .commit b
  · obtain ⟨b, rfl⟩ := hcommit
    cases hc
    exact Or.inr ⟨b, rfl, h.take contest vacant hs hq⟩
  · refine Or.inl ⟨?_, fun j began' q' pc'' hj => ?_⟩
    · rcases perform_db σ i e with he | ⟨rfl, -⟩
      · exact he.trans vacant.db
      · cases createBooking_move hc with
        | committed => exact absurd ⟨_, rfl⟩ hcommit
    · rcases session_of_goto hs hj with ⟨rfl, ht⟩ | ⟨-, hj⟩
      · cases ht
        cases m with
        | committed b => exact absurd ⟨b, rfl⟩ hcommit
        | _ => rfl
      · exact vacant.racing j began' q' pc'' hj

theorem State.Racing.run_taken (contest : Contest cat d rs) (h : σ.Racing d rs) (taken : σ.Taken d w b)
    (hs : σ.sessions[i]? = some ⟨began, .create q pc⟩) (hq : rs[i]? = some q)
    (hc : createBooking cat σ i began q x pc = some (e, pc')) :
    RaceStep d rs σ ((σ.perform i e).goto i ⟨began, .create q pc⟩ (.create q pc')) (.run i x) := by
  obtain ⟨began', q', builds, hw⟩ := taken.winner
  by_cases hi : i = w
  · subst hi
    rcases hw with hw | hw <;> rw [hs] at hw <;> cases hw <;> cases hc
    exact .wins taken hs (goto_sessions_self hs) (fun j hj => goto_sessions_ne hj) rfl
  · obtain ⟨s, hsw, hreq⟩ : ∃ s, σ.sessions[w]? = some s ∧ s.task.request = .create q' := by
      rcases hw with hw | hw <;> exact ⟨_, hw, rfl⟩
    obtain ⟨q'', pc'', hq', htask⟩ := h.session hsw
    rw [htask] at hreq
    cases hreq
    have hlosing := taken.losing i began q pc hi hs
    have hpair := contest.pair q' (List.mem_of_getElem? hq') q (List.mem_of_getElem? hq)
    have hview : σ.view i = σ.db := by
      refine h.own.view hs ?_
      cases pc <;> first | rfl | exact hlosing.elim
    have m : LosingMove q b pc pc' := by
      refine losing_of_taken (contest.bookable q (List.mem_of_getElem? hq)) ?_ ?_ ?_ ?_ ?_ hlosing hc
      · exact hview ▸ h.inv.ids_nodup
      · rw [hview, taken.bookings]
      · exact builds.scheduleId.trans hpair.1
      · exact builds.seatId.trans hpair.2
      · rw [builds.status]
        rfl
    refine .loses taken hi hs hq hq' builds m (goto_sessions_self hs) (fun j hj => goto_sessions_ne hj) ?_
    rcases perform_db σ i e with he | ⟨rfl, -⟩
    · exact he
    · cases createBooking_move hc with
      | committed => exact hlosing.elim

theorem State.Racing.raceStep {a : Act} (contest : Contest cat d rs) (h : σ.Racing d rs) (quiet : a.isQuiet = true)
    (hstep : step cat σ a = some τ) : RaceStep d rs σ τ a := by
  cases step_stepped hstep with
  | @run i x s e t hs hc m =>
    obtain ⟨q, pc, hq, htask⟩ := h.session hs
    obtain ⟨began, t'⟩ := s
    obtain rfl : t' = .create q pc := htask
    simp only [Session.statement, Option.map_eq_some_iff, Prod.mk.injEq, Prod.exists] at hc
    obtain ⟨_, pc', hc, rfl, rfl⟩ := hc
    rcases h.stage with vacant | ⟨w, b, taken⟩
    · exact h.run_vacant contest vacant hs hq hc
    · exact h.run_taken contest taken hs hq hc
  | tick n => exact .tick n rfl (fun v => ⟨v.db, v.racing⟩) fun w b t => ⟨t.bookings, t.winner, t.losing⟩
  | _ => cases quiet

theorem RaceStep.stage {a : Act} (hr : RaceStep d rs σ τ a) (h : σ.Vacant d ∨ ∃ w b, σ.Taken d w b) :
    τ.Vacant d ∨ ∃ w b, τ.Taken d w b := by
  cases hr with
  | tick n same vacant taken => exact h.imp vacant fun ⟨w, b, t⟩ => ⟨w, b, taken w b t⟩
  | races v hs hq m hself hothers next => exact next.imp_right fun ⟨b, _, t⟩ => ⟨_, b, t⟩
  | wins t hs hself hothers hdb => exact Or.inr ⟨_, _, (t.win hs hself hothers hdb).2⟩
  | loses t hne hs hq hw builds m hself hothers hdb => exact Or.inr ⟨_, _, (t.lose hs m hself hothers hdb).2⟩

theorem State.Racing.step {a : Act} (contest : Contest cat d rs) (h : σ.Racing d rs) (quiet : a.isQuiet = true)
    (hstep : step cat σ a = some τ) : τ.Racing d rs where
  inv := h.inv.step hstep
  own := h.own.step h.inv hstep
  requests := by
    rw [← h.requests]
    cases step_stepped hstep with
    | run hs hc m => exact goto_requests hs m
    | tick n => rfl
    | _ => cases quiet
  stage := (h.raceStep contest quiet hstep).stage h.stage

theorem alone_session (hs : (σ.alone (rs.map .create)).sessions[i]? = some s) :
    ∃ q, rs[i]? = some q ∧ s = ⟨σ.now, .create q .checkKey⟩ := by
  simp only [State.alone, List.map_map, List.getElem?_map, Option.map_eq_some_iff] at hs
  obtain ⟨q, hq, rfl⟩ := hs
  exact ⟨q, hq, rfl⟩

theorem insertsOwn_alone : (σ.alone (rs.map .create)).InsertsOwn where
  unwritten _ _ _ _ _ _ := rfl
  written i began q pc b hs hpc := by
    obtain ⟨q', -, hs⟩ := alone_session hs
    cases hs
    cases hpc
  inserts _ _ hmem := nomatch hmem

theorem State.Racing.start (hr : Reachable cat σ) : (σ.alone (rs.map .create)).Racing σ.db rs where
  inv := (inv_of_reachableBy hr).alone _
  own := insertsOwn_alone
  requests := by simp [State.alone, Function.comp_def, Request.task_request]
  stage := Or.inl ⟨rfl, fun i began q pc hs => by
    obtain ⟨q', -, hs⟩ := alone_session hs
    cases hs
    rfl⟩

theorem State.Racing.exec {acts : List Act} (contest : Contest cat d rs) (h : σ.Racing d rs)
    (run : exec (Railbook.step cat) σ acts = some τ) (quiet : ∀ a ∈ acts, a.isQuiet = true) : τ.Racing d rs :=
  exec_invariant_of_mem (I := fun σ : State => σ.Racing d rs)
    (fun _ _ _ h quiet hstep => State.Racing.step contest h quiet hstep) h quiet run

theorem State.Vacant.not_taken (h : σ.Vacant d) : ¬σ.Taken d w b := by
  intro taken
  have hb := taken.bookings
  rw [h.db] at hb
  have := congrArg List.length hb
  simp at this

theorem State.Taken.booking_unique {w' : Sid} {b' : Booking} (h : σ.Taken d w b) (h' : σ.Taken d w' b') : b = b' := by
  have := h.bookings.symm.trans h'.bookings
  exact List.singleton_inj.mp (List.append_cancel_left this)

theorem State.Taken.finished (h : σ.Taken d w b) (done : σ.AllFinished) :
    ∃ began q, q.Builds b ∧ σ.sessions[w]? = some ⟨began, .create q (.finished (.ok b))⟩ := by
  obtain ⟨began, q, builds, hw | hw⟩ := h.winner
  · exact absurd (done _ (List.mem_of_getElem? hw)) (by simp [Task.isFinished])
  · exact ⟨began, q, builds, hw⟩

theorem State.Racing.taken_of_finished (h : σ.Racing d rs) (hrs : rs ≠ []) (done : σ.AllFinished) :
    ∃ w b, σ.Taken d w b := by
  refine h.stage.resolve_left fun vacant => ?_
  have hlen : 0 < σ.sessions.length := by
    have := congrArg List.length h.requests
    rw [List.length_map, List.length_map] at this
    rw [this]
    exact List.length_pos_of_ne_nil hrs
  have hs := List.getElem?_eq_getElem hlen
  obtain ⟨q, pc, -, htask⟩ := h.session hs
  have hfin := done _ (List.mem_of_getElem? hs)
  generalize σ.sessions[0] = s at hs htask hfin
  obtain ⟨began, t⟩ := s
  obtain rfl : t = .create q pc := htask
  have hracing := vacant.racing 0 began q pc hs
  cases pc with
  | finished r => cases hracing
  | _ => cases hfin

end

/-! ### Guards -/

/-- A guard of `create_booking`: the program counter of a look-up, what it finds when it finds nothing, the statements
    up to the commit that rely on it, and the answers that it is there to give to the requests that come later. -/
structure Guard where
  gate : CreatePc
  Passes : Db → CreateRequest → Prop
  inside : CreatePc → Bool
  Fair : Booking → Except Exc Booking → Prop

/-- The session relies on the guard. -/
def Session.Inside (g : Guard) (s : Session) : Prop :=
  match s.task with
  | .create _ pc => g.inside pc = true
  | _ => False

/-- The request of a `create_booking` that is at program counter `pc`. -/
def Task.requestAt (pc : CreatePc) : Task → Option CreateRequest
  | .create q pc' => if pc' = pc then some q else none
  | _ => none

namespace Guard
variable (g : Guard)

/-- A request that runs the look-up and finds nothing is the only one that relies on the guard. -/
def EntersAlone (σ : State) : Act → Prop
  | .run i _ => ∀ q ∈ (σ.sessions[i]?).bind (·.task.requestAt g.gate), g.Passes (σ.view i) q →
    ∀ (j : Sid) s, σ.sessions[j]? = some s → j ≠ i → ¬s.Inside g
  | _ => True

/-- One request has stored a booking on top of the tables `d` and returned it, and the others got fair answers. -/
def Outcome (d : Db) (σ : State) : Prop :=
  ∃ w b began q, q.Builds b ∧ σ.db.bookings = d.bookings ++ [b] ∧
    σ.sessions[w]? = some ⟨began, .create q (.finished (.ok b))⟩ ∧
    ∀ (i : Sid) began q pc, i ≠ w → σ.sessions[i]? = some ⟨began, .create q pc⟩ → ∃ r, pc = .finished r ∧ g.Fair b r

/-- What a guard has to do with the moves of the requests `rs`. -/
structure Fits (cat : Catalog) (d : Db) (rs : List CreateRequest) : Prop where
  gate_racing : g.gate.isRacing = true
  gate_unwritten : g.gate.inserted = none
  gate_outside : g.inside g.gate = false
  start_outside : g.inside .checkKey = false
  commit_inside : ∀ b, g.inside (.commit b) = true
  invalidate_outside : ∀ b, g.inside (.invalidate b) = false
  finished_outside : ∀ r, g.inside (.finished r) = false
  passes : ∀ q, Bookable cat d q → g.Passes d q
  stops : ∀ {i j : Sid} {q q' : CreateRequest} {b : Booking} {d' : Db}, i ≠ j → rs[i]? = some q → rs[j]? = some q' →
    q'.Builds b → b ∈ d'.bookings → ¬g.Passes d' q
  enters : ∀ {pc pc' : CreatePc}, RacingMove pc pc' → g.inside pc = false → (g.inside pc' = true ↔ pc = g.gate)
  stays : ∀ {pc pc' : CreatePc}, RacingMove pc pc' → g.inside pc = true → g.inside pc' = true ∨ ∃ b, pc = .commit b
  fails : ∀ {i j : Sid} {q q' : CreateRequest} {b : Booking} {pc pc' : CreatePc}, i ≠ j → rs[i]? = some q →
    rs[j]? = some q' → q'.Builds b → LosingMove q b pc pc' → g.inside pc = true →
    g.inside pc' = true ∨ ∃ e, pc' = .finished (.error e) ∧ ¬g.Fair b (.error e)
  fair : ∀ {i j : Sid} {q q' : CreateRequest} {b : Booking} {pc pc' : CreatePc}, i ≠ j → rs[i]? = some q →
    rs[j]? = some q' → q'.Builds b → LosingMove q b pc pc' → g.inside pc = false →
    g.inside pc' = false ∧ ∀ r, pc' = .finished r → g.Fair b r

/-- At most one request relies on the guard until the seat is taken, and no other one does afterwards. -/
def Exclusive (d : Db) (σ : State) : Prop :=
  (σ.Vacant d ∧ ∀ (i j : Sid) s s', σ.sessions[i]? = some s → σ.sessions[j]? = some s' → s.Inside g →
    s'.Inside g → i = j) ∨
    ∃ w b, σ.Taken d w b ∧ ∀ (i : Sid) began q pc, i ≠ w → σ.sessions[i]? = some ⟨began, .create q pc⟩ →
      g.inside pc = false ∧ ∀ r, pc = .finished r → g.Fair b r

/-- Two requests rely on the guard, or the seat is taken and a request that relied on it has failed or will. -/
def Broken (d : Db) (σ : State) : Prop :=
  (σ.Vacant d ∧ ∃ (i j : Sid) (s s' : Session), i ≠ j ∧ σ.sessions[i]? = some s ∧
    σ.sessions[j]? = some s' ∧ s.Inside g ∧
      s'.Inside g) ∨
    ∃ w b, σ.Taken d w b ∧ ∃ (i : Sid) (began : Time) (q : CreateRequest) (pc : CreatePc),
      σ.sessions[i]? = some ⟨began, .create q pc⟩ ∧
      (g.inside pc = true ∨ ∃ e, pc = .finished (.error e) ∧ ¬g.Fair b (.error e))

end Guard

section
variable {cat : Catalog} {σ τ : State} {i j w : Sid} {began : Time} {s : Session} {x : Choice} {a : Act}
  {q q' : CreateRequest} {b : Booking} {pc pc' : CreatePc} {d : Db} {rs : List CreateRequest} {g : Guard}
  {acts : List Act}

theorem mem_requestAt : q ∈ (σ.sessions[i]?).bind (·.task.requestAt pc) ↔
    ∃ began, σ.sessions[i]? = some ⟨began, .create q pc⟩ := by
  rw [Option.mem_def, Option.bind_eq_some_iff]
  constructor
  · rintro ⟨⟨began, t⟩, hs, h⟩
    cases t with
    | create q' pc' =>
      simp only [Task.requestAt, Option.ite_none_right_eq_some, Option.some.injEq] at h
      obtain ⟨rfl, rfl⟩ := h
      exact ⟨began, hs⟩
    | _ => cases h
  · rintro ⟨began, hs⟩
    exact ⟨_, hs, by simp [Task.requestAt]⟩

/-- A step under the guard keeps it exclusive. -/
theorem Guard.Exclusive.step (fits : g.Fits cat d rs) (h : g.Exclusive d σ) (hview : ∀ (i : Sid) began q,
    σ.sessions[i]? = some ⟨began, .create q g.gate⟩ → σ.view i = σ.db) (hbook : ∀ q ∈ rs, Bookable cat d q)
    (alone : g.EntersAlone σ a) (hr : RaceStep d rs σ τ a) : g.Exclusive d τ := by
  cases hr with
  | tick n same vacant taken =>
    rcases h with ⟨v, h⟩ | ⟨w, b, t, h⟩
    · exact Or.inl ⟨vacant v, by rwa [same]⟩
    · exact Or.inr ⟨w, b, taken w b t, by rwa [same]⟩
  | @races i x began q pc pc' v hs hq m hself hothers next =>
    rcases h with ⟨-, h⟩ | ⟨w, b, t, -⟩
    · rcases next with v' | ⟨b, rfl, t⟩
      · -- A request that comes inside has just passed the gate, so it found nobody inside.
        have first : ∀ (j : Sid) s, j ≠ i → σ.sessions[j]? = some s → g.inside pc' = true → ¬s.Inside g := by
          intro j s hj hs' hin hins
          cases hpc : g.inside pc with
          | true => exact hj (h j i s _ hs' hs hins hpc)
          | false =>
            obtain rfl := (fits.enters m hpc).mp hin
            refine alone q (mem_requestAt.mpr ⟨began, hs⟩) ?_ j s hs' hj hins
            rw [hview i began q hs, v.db]
            exact fits.passes q (hbook q (List.mem_of_getElem? hq))
        refine Or.inl ⟨v', fun j k s s' hj hk hins hins' => ?_⟩
        rcases session_of_others hself hothers hj with ⟨hji, rfl⟩ | ⟨hji, hj⟩ <;>
          rcases session_of_others hself hothers hk with ⟨hki, rfl⟩ | ⟨hki, hk⟩
        · exact hji.trans hki.symm
        · exact absurd hins' (first k s' hki hk hins)
        · exact absurd hins (first j s hji hj hins')
        · exact h j k s s' hj hk hins hins'
      · refine Or.inr ⟨i, b, t, fun j began' q' pc'' hj hs' => ?_⟩
        rw [hothers j hj] at hs'
        refine ⟨Bool.eq_false_iff.mpr fun hins => hj (h j i _ _ hs' hs hins (fits.commit_inside b)), ?_⟩
        rintro r rfl
        cases v.racing j _ _ _ hs'
    · exact absurd t v.not_taken
  | wins t hs hself hothers hdb =>
    rcases h with ⟨v, -⟩ | ⟨w, b', t', h⟩
    · exact absurd t v.not_taken
    · obtain rfl := t.booking_unique t'
      obtain ⟨rfl, next⟩ := t'.win hs hself hothers hdb
      refine Or.inr ⟨_, _, next, fun j began' q' pc'' hj hs' => ?_⟩
      rw [hothers j hj] at hs'
      exact h j _ _ _ hj hs'
  | @loses i w₀ x began q q' b pc pc' t hne hs hq hw builds m hself hothers hdb =>
    rcases h with ⟨v, -⟩ | ⟨w, b', t', h⟩
    · exact absurd t v.not_taken
    · obtain rfl := t.booking_unique t'
      obtain ⟨hiw, next⟩ := t'.lose hs m hself hothers hdb
      refine Or.inr ⟨w, _, next, fun j began' q'' pc'' hj hs' => ?_⟩
      rcases session_of_others hself hothers hs' with ⟨rfl, he⟩ | ⟨-, hs'⟩
      · cases he
        exact fits.fair hne hq hw builds m (h j began q pc hiw hs).1
      · exact h j _ _ _ hj hs'

/-- Two requests inside stay inside until one of them commits, and then the other one fails. -/
theorem Guard.Broken.step (fits : g.Fits cat d rs) (h : g.Broken d σ) (hr : RaceStep d rs σ τ a) : g.Broken d τ := by
  cases hr with
  | tick n same vacant taken =>
    rcases h with ⟨v, h⟩ | ⟨w, b, t, h⟩
    · exact Or.inl ⟨vacant v, by rwa [same]⟩
    · exact Or.inr ⟨w, b, taken w b t, by rwa [same]⟩
  | @races i x began q pc pc' v hs hq m hself hothers next =>
    rcases h with ⟨-, j, k, s, s', hne, hj, hk, hins, hins'⟩ | ⟨w, b, t, -⟩
    · rcases next with v' | ⟨b, rfl, t⟩
      · have stays : ∀ (j : Sid) s, σ.sessions[j]? = some s → s.Inside g → ∃ s', τ.sessions[j]? = some s' ∧
          s'.Inside g := by
          intro j s hj hins
          by_cases hji : j = i
          · subst hji
            rw [hs] at hj
            cases hj
            rcases fits.stays m hins with hins' | ⟨b, rfl⟩
            · exact ⟨_, hself, hins'⟩
            · cases m
              exact absurd (v'.racing j _ _ _ hself) (by simp [CreatePc.isRacing])
          · exact ⟨s, (hothers j hji).trans hj, hins⟩
        obtain ⟨s₁, hj, hins⟩ := stays j s hj hins
        obtain ⟨s₂, hk, hins'⟩ := stays k s' hk hins'
        exact Or.inl ⟨v', j, k, s₁, s₂, hne, hj, hk, hins, hins'⟩
      · -- One of the two is not the one that commits.
        have left : ∃ (j : Sid) (s : Session), j ≠ i ∧ σ.sessions[j]? = some s ∧ s.Inside g := by
          by_cases hji : j = i
          · exact ⟨k, s', fun hki => hne (hji.trans hki.symm), hk, hins'⟩
          · exact ⟨j, s, hji, hj, hins⟩
        obtain ⟨j, ⟨began', t'⟩, hji, hj, hins⟩ := left
        cases t' with
        | create q' pc' => exact Or.inr ⟨i, b, t, j, began', q', pc', (hothers j hji).trans hj, Or.inl hins⟩
        | _ => exact hins.elim
    · exact absurd t v.not_taken
  | @wins i x began q b t hs hself hothers hdb =>
    rcases h with ⟨v, -⟩ | ⟨w, b', t', j, began', q', pc, hj, hpc⟩
    · exact absurd t v.not_taken
    · obtain rfl := t.booking_unique t'
      obtain ⟨rfl, next⟩ := t'.win hs hself hothers hdb
      have hji : j ≠ i := by
        rintro rfl
        rw [hs] at hj
        cases hj
        rcases hpc with hin | ⟨e, he, -⟩
        · rw [fits.invalidate_outside] at hin
          cases hin
        · cases he
      exact Or.inr ⟨i, b, next, j, began', q', pc, (hothers j hji).trans hj, hpc⟩
  | @loses i w₀ x began q q' b pc pc' t hne hs hq hw builds m hself hothers hdb =>
    rcases h with ⟨v, -⟩ | ⟨w, b', t', j, began', q'', pc'', hj, hpc⟩
    · exact absurd t v.not_taken
    · obtain rfl := t.booking_unique t'
      obtain ⟨hiw, next⟩ := t'.lose hs m hself hothers hdb
      by_cases hji : j = i
      · subst hji
        rw [hs] at hj
        cases hj
        refine Or.inr ⟨w, _, next, j, _, _, _, hself, ?_⟩
        rcases hpc with hin | ⟨e, rfl, -⟩
        · exact fits.fails hne hq hw builds m hin
        · cases m
      · exact Or.inr ⟨w, _, next, j, began', q'', pc'', (hothers j hji).trans hj, hpc⟩

/-- A request that passes the look-up while another one relies on the guard breaks it. -/
theorem Guard.broken_of_enters {t : State} (fits : g.Fits cat d rs) (contest : Contest cat d rs) (h : σ.Racing d rs)
    (hs : σ.sessions[i]? = some ⟨began, .create q g.gate⟩) (hpass : g.Passes (σ.view i) q) (hne : j ≠ i)
    (hj : σ.sessions[j]? = some s) (hins : s.Inside g) (hstep : step cat σ (.run i x) = some t) : g.Broken d t := by
  cases h.raceStep contest rfl hstep with
  | @races _ _ began' q' pc pc' v hs' hq m hself hothers next =>
    rw [hs] at hs'
    cases hs'
    have hin : g.inside pc' = true := (fits.enters m fits.gate_outside).mpr rfl
    rcases next with v' | ⟨b, hb, -⟩
    · exact Or.inl ⟨v', i, j, _, s, Ne.symm hne, hself, (hothers j hne).trans hj, hin, hins⟩
    · have hout := fits.gate_outside
      rw [hb, fits.commit_inside] at hout
      cases hout
  | @wins _ _ began' q' b t' hs' =>
    have hgate : g.gate = .invalidate b := by
      have := hs.symm.trans hs'
      simp only [Option.some.injEq, Session.mk.injEq, Task.create.injEq] at this
      exact this.2.2
    have hracing := fits.gate_racing
    rw [hgate] at hracing
    cases hracing
  | @loses _ w _ began' q' q'' b pc pc' t' hiw hs' hq hw builds m hself hothers hdb =>
    rw [hs] at hs'
    cases hs'
    have hmem : b ∈ (σ.view i).bookings := by
      rw [h.own.view hs fits.gate_unwritten, t'.bookings]
      exact List.mem_append_right _ (List.mem_singleton_self b)
    exact absurd hpass (fits.stops hiw hq hw builds hmem)

theorem Guard.Fits.not_inside (fits : g.Fits cat d rs) (hfin : s.task.isFinished = true) : ¬s.Inside g := by
  obtain ⟨began, t⟩ := s
  intro hins
  cases t with
  | create q pc =>
    cases pc with
    | finished r =>
      have hin : g.inside (.finished r) = true := hins
      rw [fits.finished_outside] at hin
      cases hin
    | _ => cases hfin
  | _ => exact hins

/-- At the end of a run that broke the guard, a request has failed. -/
theorem Guard.Broken.not_outcome (fits : g.Fits cat d rs) (h : g.Broken d σ) (done : σ.AllFinished) :
    ¬g.Outcome d σ := by
  rintro ⟨w, b, began, q, builds, hb, hw, hfair⟩
  rcases h with ⟨-, i, -, s, -, -, hi, -, hins, -⟩ | ⟨w', b', taken, i, began', q', pc, hi, hpc⟩
  · exact fits.not_inside (done s (List.mem_of_getElem? hi)) hins
  · rcases hpc with hin | ⟨e, rfl, hunfair⟩
    · exact fits.not_inside (done _ (List.mem_of_getElem? hi)) hin
    · have hiw : i ≠ w := by
        rintro rfl
        rw [hi] at hw
        cases hw
      obtain ⟨r, hr, hf⟩ := hfair i began' q' _ hiw hi
      cases hr
      obtain rfl : b = b' := List.singleton_inj.mp (List.append_cancel_left (hb.symm.trans taken.bookings))
      exact hunfair hf

/-- At the end of a run in which the guard was exclusive, it has done its work. -/
theorem Guard.Exclusive.outcome (h : g.Exclusive d σ) (racing : σ.Racing d rs) (hrs : rs ≠ [])
    (done : σ.AllFinished) : g.Outcome d σ := by
  rcases h with ⟨vacant, -⟩ | ⟨w, b, taken, h⟩
  · obtain ⟨w, b, taken⟩ := racing.taken_of_finished hrs done
    exact absurd taken vacant.not_taken
  · obtain ⟨began, q, builds, hw⟩ := taken.finished done
    refine ⟨w, b, began, q, builds, taken.bookings, hw, fun i began' q' pc hiw hi => ?_⟩
    have hfin := done _ (List.mem_of_getElem? hi)
    cases pc with
    | finished r => exact ⟨r, rfl, (h i began' q' _ hiw hi).2 r rfl⟩
    | _ => cases hfin

theorem Guard.Exclusive.start (fits : g.Fits cat d rs) (hr : Reachable cat σ) :
    g.Exclusive σ.db (σ.alone (rs.map .create)) := by
  have outside : ∀ (i : Sid) s, (σ.alone (rs.map .create)).sessions[i]? = some s → ¬s.Inside g := by
    intro i s hs hins
    obtain ⟨q, -, rfl⟩ := alone_session hs
    have hin : g.inside .checkKey = true := hins
    rw [fits.start_outside] at hin
    cases hin
  have start : (σ.alone (rs.map .create)).Racing σ.db rs := .start hr
  rcases start.stage with vacant | ⟨w, b, taken⟩
  · exact Or.inl ⟨vacant, fun i j s s' hs _ hins => absurd hins (outside i s hs)⟩
  · have := congrArg List.length taken.bookings
    simp [State.alone, State.db] at this

/-- In a complete run the guard does its work if and only if no request passes the look-up while another one relies on
    it. -/
theorem Guard.outcome_iff (fits : g.Fits cat σ.db rs) (contest : Contest cat σ.db rs) (hr : Reachable cat σ)
    (hrs : rs ≠ []) (run : exec (step cat) (σ.alone (rs.map .create)) acts = some τ)
    (quiet : ∀ a ∈ acts, a.isQuiet = true) (done : τ.AllFinished) :
    g.Outcome σ.db τ ↔ Along (step cat) g.EntersAlone (σ.alone (rs.map .create)) acts := by
  have start : (σ.alone (rs.map .create)).Racing σ.db rs := .start hr
  constructor
  · intro outcome
    by_contra hnot
    classical
    obtain ⟨pre, a, post, u, v, rfl, hpre, hfail, hstep, hpost⟩ := exists_step_of_not_along run hnot
    have hu := start.exec contest hpre fun a ha => quiet a (List.mem_append_left _ ha)
    have hv := hu.step contest (quiet a (by simp)) hstep
    have broken : g.Broken σ.db v := by
      cases a with
      | run i x =>
        simp only [Guard.EntersAlone, not_forall, not_not] at hfail
        obtain ⟨q', hq', hpass, j, s, hj, hne, hins⟩ := hfail
        obtain ⟨began', hs⟩ := mem_requestAt.mp hq'
        exact Guard.broken_of_enters fits contest hu hs hpass hne hj hins hstep
      | _ => exact absurd trivial hfail
    have keep : ∀ (υ : State) (a : Act) (υ' : State), (υ.Racing σ.db rs ∧ g.Broken σ.db υ) → a.isQuiet = true →
        step cat υ a = some υ' → υ'.Racing σ.db rs ∧ g.Broken σ.db υ' := fun υ a υ' ⟨h, hb⟩ quiet hstep =>
      ⟨h.step contest quiet hstep, hb.step fits (h.raceStep contest quiet hstep)⟩
    have final := exec_invariant_of_mem keep ⟨hv, broken⟩ (fun a ha => quiet a (by simp [ha])) hpost
    exact final.2.not_outcome fits done outcome
  · intro along
    have keep : ∀ (υ : State) (a : Act) (υ' : State), (υ.Racing σ.db rs ∧ g.Exclusive σ.db υ) →
        g.EntersAlone υ a ∧ a.isQuiet = true → step cat υ a = some υ' → υ'.Racing σ.db rs ∧ g.Exclusive σ.db υ' :=
      fun υ a υ' ⟨h, hx⟩ ha hstep => ⟨h.step contest ha.2 hstep, hx.step fits (fun i began q hs => h.own.view hs
        fits.gate_unwritten) contest.bookable ha.1 (h.raceStep contest ha.2 hstep)⟩
    obtain ⟨racing, hexcl⟩ := exec_invariant keep ⟨start, .start fits hr⟩ (along.and_mem quiet) run
    exact hexcl.outcome racing hrs done

instance (g : Guard) : DecidablePred fun s : Session => ¬s.Inside g
  | ⟨_, .create _ _⟩ => inferInstanceAs (Decidable (¬_ = true))
  | ⟨_, .pay _ _⟩ | ⟨_, .refund _ _⟩ | ⟨_, .cleanup _⟩ => isTrue fun h => h

instance (g : Guard) [∀ d q, Decidable (g.Passes d q)] (σ : State) : (a : Act) → Decidable (g.EntersAlone σ a)
  | .run _ _ => inferInstanceAs (Decidable (∀ _ ∈ Option.bind _ _, _ → _))
  | .request _ | .raise _ | .tick _ | .updateConfig _ _ => isTrue trivial

end

end Railbook
