import Railbook.Sessions
import Railbook.Trains.Cache

/-! The seat map against the cache. Between its commit and its delete an operation is not complete, so what has to be
    shown of an entry is that it was computed after every complete change. Two steps can break this: a call that
    stores a seat map which it has read before a change whose operation has deleted the entry already, and the commit
    of a cleanup pass, which is complete at once and deletes nothing. -/

namespace Railbook
open ReadCommitted Transition LookAside

/-- The seat map that the call returns was computed after every change that was complete when the call began. -/
def SeatsCall.Fresh : SeatsCall → Prop
  | ⟨_, .finished (.ok (some _)) asOf, completed⟩ => ∀ n ∈ completed, n < asOf
  | _ => True

instance SeatsCall.decidableFresh : (call : SeatsCall) → Decidable call.Fresh
  | ⟨_, .finished (.ok (some _)) asOf, completed⟩ => inferInstanceAs (Decidable (∀ n ∈ completed, n < asOf))
  | ⟨_, .finished (.ok none) _, _⟩ | ⟨_, .finished (.error _) _, _⟩ | ⟨_, .getCached, _⟩ | ⟨_, .query, _⟩
  | ⟨_, .setCached _ _, _⟩ => isTrue trivial

/-- The call is about to store a seat map. -/
def SeatsCall.stores : SeatsCall → Option Nat
  | ⟨_, .setCached _ asOf, _⟩ => some asOf
  | _ => none

/-- Every seat map that was returned is fresh. -/
def Cached.Fresh (σ : Cached) : Prop := ∀ call ∈ σ.calls, call.Fresh

instance (σ : Cached) : Decidable σ.Fresh := inferInstanceAs (Decidable (∀ _ ∈ _, _))

/-- The reservations that the next statement of a task releases for good. -/
def Task.releases : Task → List Booking
  | .cleanup (.commit expired) => expired
  | _ => []

/-- A call stores only a seat map that was read after every complete change of the schedule, and a cleanup pass
    commits only when no seat map of a schedule on which it releases a seat is served. -/
def KeepsFresh (σ : Cached) : CachedAct → Prop
  | .read k => ∀ call ∈ σ.calls[k]?, ∀ asOf ∈ call.stores, Covers σ.changes σ.done call.scheduleId asOf
  | .service (.run i _) => ∀ s ∈ σ.service.sessions[i]?, ∀ b ∈ s.task.releases,
      (served σ.entries σ.service.now b.scheduleId).isNone = true
  | _ => True

instance (σ : Cached) : (act : CachedAct) → Decidable (KeepsFresh σ act)
  | .read k => inferInstanceAs (Decidable (∀ call ∈ σ.calls[k]?, ∀ asOf ∈ call.stores, _))
  | .service (.run i _) => inferInstanceAs (Decidable (∀ s ∈ σ.service.sessions[i]?, ∀ b ∈ s.task.releases, _))
  | .service (.request _) | .service (.raise _) | .service (.tick _) | .service (.updateConfig _ _) | .getSeats _
  | .readRaises _ => isTrue trivial

/-- A session that has changed a schedule is complete or deletes the entry of the schedule next; what is served is
    fresh; and what a call has read is as recent as what was complete when it began. -/
structure Cached.Coherent (cat : Catalog) (σ : Cached) : Prop where
  service : Reachable cat σ.service
  writers : ∀ c ∈ σ.changes, ∃ s, σ.service.sessions[c.writer]? = some s ∧
    (s.task.isFinished = true ∨ s.task.invalidates = some c.key)
  serves : ServesFresh σ.changes σ.done σ.entries σ.service.now
  begun : ∀ call ∈ σ.calls, ∀ n ∈ call.completed, n ∈ completed σ.changes σ.done call.scheduleId
  stores : ∀ call ∈ σ.calls, ∀ asOf ∈ call.stores, ∀ n ∈ call.completed, n < asOf
  fresh : σ.Fresh

/-- The seat map was computed from the tables after the first `asOf` changes. -/
def Computed (coll : Table.Collation) (cat : Catalog) (σ : Cached) (scheduleId : Uuid) (payload : SeatAvailability)
    (asOf : Nat) : Prop :=
  ∃ υ acts, exec (cachedStep coll cat) υ acts = some σ ∧ υ.changes.length = asOf ∧
    getSeatAvailability coll cat υ.service.db scheduleId = .ok (some payload)

/-- The seat map that a call has read or been served. -/
def SeatsPc.carries : SeatsPc → Option (SeatAvailability × Nat)
  | setCached payload asOf | finished (.ok (some payload)) asOf => some (payload, asOf)
  | _ => none

/-- So was every seat map that is stored, about to be stored or returned. -/
structure Cached.Traced (coll : Table.Collation) (cat : Catalog) (σ : Cached) : Prop where
  entries : ∀ k cached, σ.entries k = some cached → Computed coll cat σ k cached.value cached.asOf
  calls : ∀ call ∈ σ.calls, ∀ payload asOf, call.pc.carries = some (payload, asOf) →
    Computed coll cat σ call.scheduleId payload asOf

/-- What a cleanup pass is about to release is still reserved in the committed tables. -/
def State.ReleasesReserved (σ : State) : Prop :=
  ∀ (i : Sid) s, σ.sessions[i]? = some s → ∀ b ∈ s.task.releases,
    ∃ b' ∈ σ.db.bookings, b'.fixed = b.fixed ∧ b'.status = .reserved

section
variable {coll : Table.Collation} {cat : Catalog} {σ τ : State} {υ ω : Cached} {i : Sid} {s : Session} {t : Task}
  {e : Effect} {d d' : Db} {k : Uuid} {x : Choice} {a : Act} {acts : List CachedAct}

/-! ### What a step changes -/

theorem Db.mem_occupied {r : Uuid × Uuid × BookingStatus} : r ∈ d.occupied ↔
    ∃ b ∈ d.bookings, b.status.isActive = true ∧ (b.scheduleId, b.seatId, b.status) = r := by
  simp only [Db.occupied, List.mem_map, List.mem_filter, and_assoc]

theorem Db.mem_changed : k ∈ d.changed d' ↔
    ∃ r, r.1 = k ∧ ((r ∈ d.occupied ∧ r ∉ d'.occupied) ∨ (r ∈ d'.occupied ∧ r ∉ d.occupied)) := by
  simp only [Db.changed, List.mem_dedup, List.mem_map, List.mem_append, List.mem_filter, decide_eq_true_eq]
  constructor
  · rintro ⟨r, hr, rfl⟩
    exact ⟨r, rfl, hr⟩
  · rintro ⟨r, rfl, hr⟩
    exact ⟨r, hr, rfl⟩

@[simp] theorem Db.changed_self (d : Db) : d.changed d = [] := by
  refine List.eq_nil_iff_forall_not_mem.mpr fun k hk => ?_
  obtain ⟨r, -, ⟨hr, hn⟩ | ⟨hr, hn⟩⟩ := Db.mem_changed.mp hk <;> exact hn hr

/-- A schedule that looks changed to a session is that of a booking which the session holds. -/
theorem held_of_changed (hr : Reachable cat σ) (hs : σ.sessions[i]? = some s) (h : k ∈ σ.db.changed (σ.view i)) :
    ∃ p ∈ s.task.held, p.1.scheduleId = k := by
  have ok := (inv_of_reachableBy hr).taskOk hs
  -- The booking whose row differs is held, and its row is the one that the session holds.
  have held : ∀ b b' : Booking, b' ∈ (σ.view i).bookings → b'.fixed = b.fixed →
    (σ.view i).ledger b.id ≠ σ.db.ledger b.id →
      b.scheduleId = k → ∃ p ∈ s.task.held, p.1.scheduleId = k := by
    intro b b' hb' hf hne hk
    by_contra hnone
    refine hne (ok.ledger_view fun p hp hid => hnone ⟨p, hp, ?_⟩)
    obtain ⟨ph, -, hc⟩ := ok.held p hp
    have hrow : b' = p.1 := Conforms.eq_of_mem hc hb' ((Booking.id_of_fixed hf).trans hid.symm)
    rw [← hrow, Booking.scheduleId_of_fixed hf, hk]
  obtain ⟨r, hk, ⟨hin, hout⟩ | ⟨hin, hout⟩⟩ := Db.mem_changed.mp h
  · obtain ⟨b, hb, hst, rfl⟩ := Db.mem_occupied.mp hin
    obtain ⟨b', hb', hf⟩ := ((noDelete_of_reachable hr).view i).bookings b hb
    refine held b b' hb' hf (fun heq => hout (Db.mem_occupied.mpr ⟨b, ?_, hst, rfl⟩)) hk
    exact (mem_ledger_bookings.mp (heq ▸ mem_ledger_bookings.mpr ⟨hb, rfl⟩)).1
  · obtain ⟨b, hb, hst, rfl⟩ := Db.mem_occupied.mp hin
    refine held b b hb rfl (fun heq => hout (Db.mem_occupied.mpr ⟨b, ?_, hst, rfl⟩)) hk
    exact (mem_ledger_bookings.mp (heq ▸ mem_ledger_bookings.mpr ⟨hb, rfl⟩)).1

/-- A statement that changes a schedule is a commit: the delete of the entry of the schedule follows, or it is that of a
    cleanup pass, which is complete with it. -/
theorem Move.changed (hr : Reachable cat σ) (hs : σ.sessions[i]? = some s) (m : Move cat σ i s e t)
    (h : k ∈ σ.db.changed (σ.perform i e).db) :
    t.invalidates = some k ∨ (t.isFinished = true ∧ ∃ b ∈ s.task.releases, b.scheduleId = k) := by
  rcases perform_db σ i e with he | ⟨rfl, he⟩ <;> rw [he] at h
  · rw [Db.changed_self] at h
    cases h
  · obtain ⟨p, hp, hk⟩ := held_of_changed hr hs h
    cases m with
    | create m =>
      cases m with
      | committed =>
        rw [List.mem_singleton.mp hp] at hk
        exact Or.inl (congrArg some hk)
    | pay m =>
      cases m with
      | committed =>
        rw [List.mem_singleton.mp hp] at hk
        exact Or.inl (congrArg some hk)
    | refund m =>
      cases m with
      | committed =>
        rw [List.mem_singleton.mp hp] at hk
        exact Or.inl (congrArg some hk)
    | cleanup m =>
      cases m with
      | committed =>
        obtain ⟨b, hb, rfl⟩ := List.mem_map.mp hp
        exact Or.inr ⟨rfl, b, hb, hk⟩

/-- The statement that deletes an entry is the last one, and changes nothing. -/
theorem Move.invalidated (m : Move cat σ i s e t) (h : s.task.invalidates = some k) :
    e = .close ∧ t.isFinished = true := by
  cases m with
  | create m =>
    cases m with
    | invalidated => exact ⟨rfl, rfl⟩
    | failed x hx => exact ⟨rfl, rfl⟩
    | _ => cases h
  | pay m =>
    cases m with
    | invalidated => exact ⟨rfl, rfl⟩
    | failed x hx server => exact ⟨rfl, rfl⟩
    | _ => cases h
  | refund m =>
    cases m with
    | invalidated => exact ⟨rfl, rfl⟩
    | failed x hx server => exact ⟨rfl, rfl⟩
    | _ => cases h
  | cleanup m => cases h

theorem Task.not_raises (h : t.invalidates = some k) : t.raise = none := by
  unfold Task.invalidates at h
  split at h
  · rfl
  · rfl
  · rfl
  · cases h

theorem Task.not_finished (h : t.invalidates = some k) : t.isFinished = false := by
  unfold Task.invalidates at h
  split at h
  · rfl
  · rfl
  · rfl
  · cases h

theorem Cached.done_iff : υ.done i = true ↔ ∃ s, υ.service.sessions[i]? = some s ∧ s.task.isFinished = true := by
  simp only [Cached.done, Option.any_eq_true]

/-- A session that is complete, or deletes an entry next, stays where it is until it deletes the entry. -/
theorem writer_step (hstep : step cat σ a = some τ) (hs : σ.sessions[i]? = some s)
    (h : s.task.isFinished = true ∨ s.task.invalidates = some k) :
    τ.sessions[i]? = some s ∨ (s.task.invalidates = some k ∧ (∃ x, a = .run i x) ∧
      ∃ s', τ.sessions[i]? = some s' ∧ s'.task.isFinished = true) := by
  rcases h with hf | hk
  · exact Or.inl (finished_step hstep hs hf)
  · rcases session_step hstep hs with hsame | ⟨x, e, t, rfl, -, m, rfl⟩ | ⟨t, -, hraise, -⟩
    · exact Or.inl hsame
    · exact Or.inr ⟨hk, ⟨x, rfl⟩, _, goto_sessions_self hs, (m.invalidated hk).2⟩
    · rw [Task.not_raises hk] at hraise
      cases hraise

/-! ### The writers -/

/-- What the service deletes is served no more, and the rest as before. -/
theorem served_entriesAfter {now : Time} {cached : CacheEntry Time SeatAvailability}
    (h : served (υ.entriesAfter i) now k = some cached) : served υ.entries now k = some cached ∧
      ∀ s, υ.service.sessions[i]? = some s → s.task.invalidates ≠ some k := by
  simp only [Cached.entriesAfter] at h
  split at h
  · rename_i k' hk'
    obtain ⟨hne, hserved⟩ := served_of_delete h
    refine ⟨hserved, fun s hs hk => hne ?_⟩
    rw [hs, Option.bind_some, hk] at hk'
    exact Option.some.inj hk'
  · rename_i hnone
    refine ⟨h, fun s hs hk => ?_⟩
    rw [hs, Option.bind_some, hk] at hnone
    cases hnone

/-- A step of the service after which no change of the schedule is complete that was not so before it. -/
theorem Cached.Coherent.completed_before (h : υ.Coherent cat) (added : List (Change Uuid Sid))
    (hstep : step cat υ.service a = some ω.service) (hchanges : ω.changes = υ.changes ++ added)
    (hadded : ∀ c ∈ added, c.key = k → ω.done c.writer = false)
    (hkeeps : ∀ i x s, a = .run i x → υ.service.sessions[i]? = some s → s.task.invalidates ≠ some k) :
    ∀ n ∈ completed ω.changes ω.done k, n ∈ completed υ.changes υ.done k := by
  intro n hn
  obtain ⟨c, hc, rfl, hd⟩ := mem_completed.mp hn
  rw [hchanges] at hc
  by_cases hlt : n < υ.changes.length
  · rw [List.getElem?_append_left hlt] at hc
    obtain ⟨s, hs, hw⟩ := h.writers c (List.mem_of_getElem? hc)
    rcases writer_step hstep hs hw with hsame | ⟨hk, ⟨x, rfl⟩, -⟩
    · obtain ⟨s', hs', hf⟩ := Cached.done_iff.mp hd
      obtain rfl := Option.some.inj (hsame.symm.trans hs')
      exact mem_completed.mpr ⟨c, hc, rfl, Cached.done_iff.mpr ⟨s, hs, hf⟩⟩
    · exact absurd hk (hkeeps _ x s rfl hs)
  · rw [List.getElem?_append_right (not_lt.mp hlt)] at hc
    rw [hadded c (List.mem_of_getElem? hc) rfl] at hd
    cases hd

theorem Cached.Coherent.serviceStep (h : υ.Coherent cat) (added : List (Change Uuid Sid))
    (hstep : step cat υ.service a = some ω.service) (hcalls : ω.calls = υ.calls)
    (hchanges : ω.changes = υ.changes ++ added) (writers : ∀ c ∈ added, ∃ s, ω.service.sessions[c.writer]? = some s ∧
      (s.task.isFinished = true ∨ s.task.invalidates = some c.key))
    (serves : ServesFresh ω.changes ω.done ω.entries ω.service.now) : ω.Coherent cat where
  service := h.service.next trivial hstep
  writers c hc := by
    rcases List.mem_append.mp (hchanges ▸ hc) with hc | hc
    · obtain ⟨s, hs, hw⟩ := h.writers c hc
      rcases writer_step hstep hs hw with hsame | ⟨-, -, s', hs', hf⟩
      · exact ⟨s, hsame, hw⟩
      · exact ⟨s', hs', Or.inl hf⟩
    · exact writers c hc
  serves := serves
  begun call hcall n hn := by
    rw [hchanges]
    refine completed_mono (fun i hd => ?_) added (h.begun call (hcalls ▸ hcall) n hn)
    obtain ⟨s, hs, hf⟩ := Cached.done_iff.mp hd
    exact Cached.done_iff.mpr ⟨s, finished_step hstep hs hf, hf⟩
  stores call hcall := h.stores call (hcalls ▸ hcall)
  fresh call hcall := h.fresh call (hcalls ▸ hcall)

theorem Cached.Coherent.run (h : υ.Coherent cat) (safe : KeepsFresh υ (.service (.run i x)))
    (hstep : step cat υ.service (.run i x) = some τ) : (υ.afterRun i τ).Coherent cat := by
  cases step_stepped hstep with
  | @run _ _ s e t hs hc m =>
    have hgoto := goto_sessions_self (e := e) (t := t) hs
    refine h.serviceStep ((υ.service.db.changed (υ.service.perform i e).db).map fun k => ⟨k, i⟩) hstep rfl rfl ?_ ?_
    · intro c hc
      obtain ⟨k, hk, rfl⟩ := List.mem_map.mp hc
      refine ⟨_, hgoto, ?_⟩
      rcases m.changed h.service hs hk with hinv | ⟨hf, -⟩
      · exact Or.inr hinv
      · exact Or.inl hf
    · intro k cached hserved
      rw [Cached.afterRun, goto_now, perform_now] at hserved
      obtain ⟨hserved, hne⟩ := served_entriesAfter hserved
      refine (h.serves k cached hserved).of_completed (h.completed_before _ hstep rfl ?_ ?_)
      · intro c hc hk
        obtain ⟨_, hk', rfl⟩ := List.mem_map.mp hc
        obtain rfl := hk
        -- A cleanup pass finds nothing served of what it changes; every other operation has yet to delete.
        rcases m.changed h.service hs hk' with hinv | ⟨-, b, hb, hkey⟩
        · simp only [Cached.done, Cached.afterRun, hgoto, Option.any_some, Task.not_finished hinv]
        · have hnone := safe s (Option.mem_def.mpr hs) b hb
          rw [hkey, hserved] at hnone
          cases hnone
      · intro j y s' he hs'
        cases he
        exact hne s' hs'

/-- Time passes, or a step of the service that runs no statement: nothing is changed or deleted. -/
theorem Cached.Coherent.other (h : υ.Coherent cat) (hrun : ∀ i x, a ≠ .run i x)
    (hstep : step cat υ.service a = some τ) :
    Cached.Coherent cat { υ with service := τ } := by
  have hnow : υ.service.now ≤ τ.now := by
    cases step_stepped hstep with
    | tick d => exact Int.le_add_of_nonneg_right (Int.natCast_nonneg d)
    | run hs hc m => exact absurd rfl (hrun _ _)
    | raise hs hr m => exact le_of_eq (perform_now ..).symm
    | _ => exact le_refl _
  refine h.serviceStep [] hstep rfl (List.append_nil _).symm (fun c hc => by cases hc) fun k cached hserved => ?_
  refine (h.serves k cached (served_later (fun _ hle => Int.le_trans hnow hle) hserved)).of_completed ?_
  exact h.completed_before [] hstep (List.append_nil _).symm (fun c hc => by cases hc)
    fun i y s he => absurd he (hrun i y)

/-! ### The calls -/

/-- A step of call `n` that stores at most a fresh seat map. -/
theorem Cached.Coherent.callStep (h : υ.Coherent cat) {n : Nat} {call : SeatsCall} {pc : SeatsPc}
    {entries : Uuid → Option (CacheEntry Time SeatAvailability)} (hcall : υ.calls[n]? = some call)
    (serves : ServesFresh υ.changes υ.done entries υ.service.now)
    (stores : ∀ asOf ∈ SeatsCall.stores { call with pc := pc }, ∀ n ∈ call.completed, n < asOf)
    (fresh : SeatsCall.Fresh { call with pc := pc }) :
    Cached.Coherent cat { υ with entries := entries, calls := υ.calls.set n { call with pc := pc } } where
  service := h.service
  writers := h.writers
  serves := serves
  begun call' hcall' := by
    rcases List.mem_or_eq_of_mem_set hcall' with hold | rfl
    · exact h.begun call' hold
    · exact h.begun call (List.mem_of_getElem? hcall)
  stores call' hcall' := by
    rcases List.mem_or_eq_of_mem_set hcall' with hold | rfl
    · exact h.stores call' hold
    · exact stores
  fresh call' hcall' := by
    rcases List.mem_or_eq_of_mem_set hcall' with hold | rfl
    · exact h.fresh call' hold
    · exact fresh

theorem Cached.Coherent.read {n : Nat} {call : SeatsCall} {pc : SeatsPc}
    {entries : Uuid → Option (CacheEntry Time SeatAvailability)} (h : υ.Coherent cat) (safe : KeepsFresh υ (.read n))
    (hcall : υ.calls[n]? = some call) (m : SeatsMove coll cat υ call.scheduleId call.pc entries pc) :
    Cached.Coherent cat { υ with entries := entries, calls := υ.calls.set n { call with pc := pc } } := by
  have hmem : call ∈ υ.calls := List.mem_of_getElem? hcall
  obtain ⟨scheduleId, pc₀, due⟩ := call
  cases m with
  | hit hserved =>
    refine h.callStep hcall h.serves nofun fun n hn => ?_
    exact h.serves _ _ hserved n (h.begun _ hmem n hn)
  | missed hserved => exact h.callStep hcall h.serves nofun trivial
  | @failed answer hans =>
    refine h.callStep hcall h.serves nofun ?_
    cases answer with
    | error x => exact trivial
    | ok o =>
      cases o with
      | none => exact trivial
      | some payload => exact absurd rfl (hans payload)
  | queried hq =>
    refine h.callStep hcall h.serves ?_ trivial
    intro asOf hasOf n hn
    cases hasOf
    exact covers_length n (h.begun _ hmem n hn)
  | @stored payload asOf =>
    have hcovers := safe _ (Option.mem_def.mpr hcall) asOf (Option.mem_def.mpr rfl)
    refine h.callStep hcall (h.serves.set hcovers) nofun fun n hn => ?_
    exact h.stores _ hmem asOf (Option.mem_def.mpr rfl) n hn

theorem Cached.Coherent.getSeats (h : υ.Coherent cat) (k : Uuid) : Cached.Coherent cat (υ.begin k) where
  service := h.service
  writers := h.writers
  serves := h.serves
  begun call hcall := by
    rcases List.mem_append.mp hcall with hold | hnew
    · exact h.begun call hold
    · obtain rfl := List.mem_singleton.mp hnew
      exact fun n hn => hn
  stores call hcall := by
    rcases List.mem_append.mp hcall with hold | hnew
    · exact h.stores call hold
    · obtain rfl := List.mem_singleton.mp hnew
      exact nofun
  fresh call hcall := by
    rcases List.mem_append.mp hcall with hold | hnew
    · exact h.fresh call hold
    · obtain rfl := List.mem_singleton.mp hnew
      exact trivial

theorem Cached.Coherent.step {act : CachedAct} (h : υ.Coherent cat) (safe : KeepsFresh υ act)
    (hstep : cachedStep coll cat υ act = some ω) : ω.Coherent cat := by
  cases cachedStep_stepped hstep with
  | run hservice => exact h.run safe hservice
  | service hrun hservice => exact h.other hrun hservice
  | getSeats k => exact h.getSeats k
  | read hcall m => exact h.read safe hcall m
  | readRaises hcall => exact h.callStep hcall h.serves nofun trivial

theorem coherent_seeded (now : Time) : (Cached.seeded now).Coherent cat where
  service := .start ⟨now, rfl⟩
  writers c hc := by cases hc
  serves k cached hserved := by cases hserved
  begun call hcall := by cases hcall
  stores call hcall := by cases hcall
  fresh call hcall := by cases hcall

theorem coherent_exec {now : Time} (along : Along (cachedStep coll cat) KeepsFresh (.seeded now) acts)
    (run : exec (cachedStep coll cat) (.seeded now) acts = some ω) : ω.Coherent cat :=
  exec_invariant (I := fun υ : Cached => υ.Coherent cat) (fun _ _ _ h safe hstep => h.step safe hstep)
    (coherent_seeded now) along run

/-! ### Where a seat map comes from -/

/-- The next statement of a session at most deletes an entry. -/
theorem entriesAfter_eq_some {cached : CacheEntry Time SeatAvailability} (h : υ.entriesAfter i k = some cached) :
    υ.entries k = some cached := by
  cases hk : (υ.service.sessions[i]?).bind fun s => s.task.invalidates with
  | none =>
    simp only [Cached.entriesAfter, hk] at h
    exact h
  | some k' =>
    simp only [Cached.entriesAfter, hk, Function.update_apply, Option.ite_none_left_eq_some] at h
    exact h.2

theorem changes_step {act : CachedAct} (hstep : cachedStep coll cat υ act = some ω) :
    υ.changes.length ≤ ω.changes.length := by
  cases cachedStep_stepped hstep with
  | run hservice =>
    rw [Cached.afterRun, List.length_append]
    exact Nat.le_add_right _ _
  | _ => exact Nat.le_refl _

theorem Computed.length_le {payload : SeatAvailability} {asOf : Nat} (h : Computed coll cat υ k payload asOf) :
    asOf ≤ υ.changes.length := by
  obtain ⟨υ₀, acts, run, rfl, -⟩ := h
  exact exec_invariant_of_step (I := fun ω : Cached => υ₀.changes.length ≤ ω.changes.length)
    (fun _ _ _ hle hstep => Nat.le_trans hle (changes_step hstep)) (Nat.le_refl _) run

theorem Computed.step {payload : SeatAvailability} {asOf : Nat} {act : CachedAct}
    (h : Computed coll cat υ k payload asOf) (hstep : cachedStep coll cat υ act = some ω) :
    Computed coll cat ω k payload asOf := by
  obtain ⟨υ₀, acts, run, hlen, hget⟩ := h
  refine ⟨υ₀, acts ++ [act], ?_, hlen, hget⟩
  rw [exec_append, run, Option.bind_some, exec_cons, hstep, Option.bind_some, exec_nil]

/-- A step that stores and carries what the one before it did, and what it has computed itself. -/
theorem Cached.Traced.of_calls {act : CachedAct} (h : υ.Traced coll cat) (hstep : cachedStep coll cat υ act = some ω)
    (entries : ∀ k cached, ω.entries k = some cached →
      υ.entries k = some cached ∨ Computed coll cat υ k cached.value cached.asOf)
    (calls : ∀ call ∈ ω.calls, call ∈ υ.calls ∨ ∀ payload asOf, call.pc.carries = some (payload, asOf) →
      Computed coll cat υ call.scheduleId payload asOf) : ω.Traced coll cat where
  entries k cached hentry := by
    rcases entries k cached hentry with hold | hnew
    · exact (h.entries k cached hold).step hstep
    · exact hnew.step hstep
  calls call hcall payload asOf hpc := by
    rcases calls call hcall with hold | hnew
    · exact (h.calls call hold payload asOf hpc).step hstep
    · exact (hnew payload asOf hpc).step hstep

/-- What a statement of a call carries on, and what it stores, it has been served, or carried before, or
    computes now. -/
theorem SeatsMove.computed {pc pc' : SeatsPc} {entries : Uuid → Option (CacheEntry Time SeatAvailability)}
    (m : SeatsMove coll cat υ k pc entries pc') (h : υ.Traced coll cat)
    (hpc : ∀ payload asOf, pc.carries = some (payload, asOf) → Computed coll cat υ k payload asOf) :
    (∀ payload asOf, pc'.carries = some (payload, asOf) → Computed coll cat υ k payload asOf) ∧
      ∀ k' cached, entries k' = some cached → υ.entries k' = some cached ∨
        Computed coll cat υ k' cached.value cached.asOf := by
  cases m with
  | hit hserved =>
    refine ⟨fun payload asOf hcarries => ?_, fun _ _ hentry => Or.inl hentry⟩
    cases hcarries
    exact h.entries k _ (served_eq_some.mp hserved).1
  | missed hserved => exact ⟨nofun, fun _ _ hentry => Or.inl hentry⟩
  | @failed answer hans =>
    refine ⟨fun payload asOf hcarries => ?_, fun _ _ hentry => Or.inl hentry⟩
    cases answer with
    | error x => cases hcarries
    | ok o =>
      cases o with
      | none => cases hcarries
      | some payload => exact absurd rfl (hans payload)
  | queried hq =>
    refine ⟨fun payload asOf hcarries => ?_, fun _ _ hentry => Or.inl hentry⟩
    cases hcarries
    exact ⟨υ, [], rfl, rfl, hq⟩
  | @stored payload asOf =>
    have hcomputed := hpc payload asOf rfl
    refine ⟨fun payload' asOf' hcarries => ?_, fun k' cached hentry => ?_⟩
    · cases hcarries
      exact hcomputed
    · by_cases hk : k' = k
      · subst hk
        rw [Function.update_self] at hentry
        cases hentry
        exact Or.inr hcomputed
      · rw [Function.update_of_ne hk] at hentry
        exact Or.inl hentry

theorem Cached.Traced.step {act : CachedAct} (h : υ.Traced coll cat) (hstep : cachedStep coll cat υ act = some ω) :
    ω.Traced coll cat := by
  cases cachedStep_stepped hstep with
  | run hservice =>
    exact h.of_calls hstep (fun k cached hentry => Or.inl (entriesAfter_eq_some hentry)) fun call hcall => Or.inl hcall
  | service hrun hservice =>
    exact h.of_calls hstep (fun k cached hentry => Or.inl hentry) fun call hcall => Or.inl hcall
  | getSeats scheduleId =>
    refine h.of_calls hstep (fun k cached hentry => Or.inl hentry) fun call hcall => ?_
    rcases List.mem_append.mp hcall with hold | hnew
    · exact Or.inl hold
    · obtain rfl := List.mem_singleton.mp hnew
      exact Or.inr nofun
  | read hcall m =>
    obtain ⟨hcarries, hentries⟩ := m.computed h (h.calls _ (List.mem_of_getElem? hcall))
    refine h.of_calls hstep hentries fun call' hcall' => ?_
    rcases List.mem_or_eq_of_mem_set hcall' with hold | rfl
    · exact Or.inl hold
    · exact Or.inr hcarries
  | readRaises hcall =>
    refine h.of_calls hstep (fun k cached hentry => Or.inl hentry) fun call' hcall' => ?_
    rcases List.mem_or_eq_of_mem_set hcall' with hold | rfl
    · exact Or.inl hold
    · exact Or.inr nofun

theorem traced_seeded (now : Time) : (Cached.seeded now).Traced coll cat where
  entries k cached hentry := by cases hentry
  calls call hcall := by cases hcall

theorem traced_exec {now : Time} (run : exec (cachedStep coll cat) (.seeded now) acts = some ω) : ω.Traced coll cat :=
  exec_invariant_of_step (I := fun υ : Cached => υ.Traced coll cat) (fun _ _ _ h hstep => h.step hstep)
    (traced_seeded now) run

/-! ### The steps that break it -/

theorem Task.owned_of_releases {b : Booking} (h : b ∈ t.releases) : .bookingRow b.id ∈ t.owned := by
  unfold Task.releases at h
  split at h
  · exact List.mem_map_of_mem h
  · cases h

/-- A pass that goes on to its commit has found its reservations reserved. -/
theorem Move.releases (hr : Reachable cat σ) (hs : σ.sessions[i]? = some s) (m : Move cat σ i s e t) {b : Booking}
    (hb : b ∈ t.releases) : (σ.perform i e).db = σ.db ∧ ∃ b' ∈ σ.db.bookings, b'.fixed = b.fixed ∧
      b'.status = .reserved := by
  cases m with
  | create m => cases hb
  | pay m => cases hb
  | refund m => cases hb
  | cleanup m =>
    cases m with
    | flushed =>
      obtain ⟨b', hb', rfl⟩ := List.mem_map.mp hb
      have hview : σ.view i = σ.db := view_of_unwritten hr hs rfl
      obtain ⟨ph, hph, hc⟩ := ((inv_of_reachableBy hr).taskOk hs).held (b', [.reserved]) (List.mem_map_of_mem hb')
      obtain rfl := List.mem_singleton.mp hph
      have hmem : b' ∈ (σ.view i).bookings := (Conforms.mem_bookings hc).1
      exact ⟨rfl, b', hview ▸ hmem, rfl, hc.status⟩
    | _ => cases hb

theorem releasesReserved_of_reachable (hr : Reachable cat σ) : σ.ReleasesReserved := by
  refine sessions_of_reachable (P := fun σ _ s => ∀ b ∈ s.task.releases,
    ∃ b' ∈ σ.db.bookings, b'.fixed = b.fixed ∧ b'.status = .reserved) hr ?_ ?_ ?_ ?_
  · intro σ i r _ _ b hb
    cases r <;> cases hb
  · intro σ i s e t hr hs _ m b hb
    obtain ⟨hdb, b', hb', hf⟩ := m.releases hr hs hb
    exact ⟨b', hdb.symm ▸ hb', hf⟩
  · intro σ i j s s' e t hr hs m hji hj h b hb
    obtain ⟨b', hb', hf, hst⟩ := h b hb
    have hledger := perform_ledger_of_owner (e := e) (inv_of_reachableBy hr) hs hj hji
      (Booking.id_of_fixed hf ▸ Task.owned_of_releases hb)
    exact ⟨b', (mem_ledger_bookings.mp (hledger ▸ mem_ledger_bookings.mpr ⟨hb', rfl⟩)).1, hf, hst⟩
  · intro σ τ i s h hstore _ _ b hb
    rw [State.db, hstore]
    exact h b hb

theorem service_of_exec {now : Time} (run : exec (cachedStep coll cat) (.seeded now) acts = some ω) :
    Reachable cat ω.service := by
  refine exec_invariant_of_step (I := fun υ : Cached => Reachable cat υ.service) (fun υ act ω hr hstep => ?_)
    (.start ⟨now, rfl⟩) run
  cases cachedStep_stepped hstep with
  | run hservice => exact hr.next trivial hservice
  | service hrun hservice => exact hr.next trivial hservice
  | _ => exact hr

/-- A call that begins now is served an entry from before a complete change. -/
theorem stale_call (coll : Table.Collation) (cat : Catalog) (cached : CacheEntry Time SeatAvailability) {n : Nat}
    (hserved : served υ.entries υ.service.now k = some cached) (hn : n ∈ completed υ.changes υ.done k)
    (hle : cached.asOf ≤ n) :
    ∃ ω, exec (cachedStep coll cat) υ [.getSeats k, .read υ.calls.length] = some ω ∧ ¬ω.Fresh := by
  let call : SeatsCall := ⟨k, .getCached, completed υ.changes υ.done k⟩
  let answered : SeatsCall := { call with pc := .finished (.ok (some cached.value)) cached.asOf }
  have hget : (υ.calls ++ [call])[υ.calls.length]? = some call := by simp
  have hlt : υ.calls.length < (υ.calls ++ [call]).length := by simp
  refine ⟨{ υ with calls := (υ.calls ++ [call]).set υ.calls.length answered }, ?_, fun hfresh => ?_⟩
  · simp only [exec_cons, exec_nil, cachedStep, Cached.begin, Option.bind_some, Option.bind_eq_bind]
    rw [hget, Option.bind_some]
    simp only [getSeatsStatement, hserved, Option.bind_some, call, answered]
  · have hfresh : n < cached.asOf := hfresh answered (List.mem_set hlt answered) n hn
    omega

theorem Inv.eq_of_seat (inv : Inv σ) {b b' : Booking} (hb : b ∈ σ.db.bookings) (hb' : b' ∈ σ.db.bookings)
    (hs : b'.scheduleId = b.scheduleId) (hx : b'.seatId = b.seatId) : b' = b := by
  have hlen : (σ.db.holders (.bookingSeat b.scheduleId b.seatId)).length ≤ 1 := (inv.holders _).1
  rw [Db.holders, List.length_map] at hlen
  have hmem : ∀ c ∈ σ.db.bookings, c.scheduleId = b.scheduleId → c.seatId = b.seatId →
      c ∈ σ.db.bookings.filter fun c => Resource.bookingSeat b.scheduleId b.seatId ∈ c.resources := fun c hc hs hx =>
    List.mem_filter.mpr ⟨hc, by simp [Booking.resources, hs, hx]⟩
  have hin := hmem b' hb' hs hx
  rw [Table.eq_singleton_of_mem hlen (hmem b hb rfl rfl)] at hin
  exact List.mem_singleton.mp hin

theorem changed_of_releases (hr : Reachable cat σ) (hs : σ.sessions[i]? = some s) {b : Booking}
    (hb : b ∈ s.task.releases) (hstep : step cat σ (.run i x) = some τ) : b.scheduleId ∈ σ.db.changed τ.db ∧
      ∃ s', τ.sessions[i]? = some s' ∧ s'.task.isFinished = true := by
  have hinv := inv_of_reachableBy (hr.next trivial hstep)
  obtain ⟨b', hb', hf, hst⟩ := releasesReserved_of_reachable hr i s hs b hb
  obtain ⟨began, t⟩ := s
  cases t with
  | create q pc => cases hb
  | pay q pc => cases hb
  | refund q pc => cases hb
  | cleanup pc =>
    cases pc with
    | commit expired =>
      have hcommit : step cat σ (.run i x) = some ((σ.perform i .commit).goto i ⟨began, .cleanup (.commit expired)⟩
        (.cleanup (.finished (.ok ())))) := step_run hs rfl
      rw [hcommit] at hstep
      obtain rfl := Option.some.inj hstep
      obtain ⟨ph, hph, hc⟩ := ((inv_of_reachableBy hr).taskOk hs).held (b, [.expired]) (List.mem_map_of_mem hb)
      obtain rfl := List.mem_singleton.mp hph
      refine ⟨Db.mem_changed.mpr ⟨(b.scheduleId, b.seatId, .reserved), rfl, Or.inl ⟨?_, fun hin => ?_⟩⟩, _,
        goto_sessions_self hs, rfl⟩
      · refine Db.mem_occupied.mpr ⟨b', hb', by rw [hst]; rfl, ?_⟩
        rw [Booking.scheduleId_of_fixed hf, Booking.seatId_of_fixed hf, hst]
      · -- The one row of the seat is the cancelled one.
        obtain ⟨b'', hb'', -, heq⟩ := Db.mem_occupied.mp hin
        simp only [Prod.mk.injEq] at heq
        obtain ⟨hsched, hseat, hst''⟩ := heq
        have hsame : b'' = b := hinv.eq_of_seat (Conforms.mem_bookings hc).1 hb'' hsched hseat
        rw [hsame, hc.status] at hst''
        cases hst''
    | _ => cases hb

theorem Task.invalidates_of_releases {b : Booking} (h : b ∈ t.releases) : t.invalidates = none := by
  unfold Task.releases at h
  split at h
  · rfl
  · cases h

theorem step_run_now (hstep : step cat σ (.run i x) = some τ) : τ.now = σ.now := by
  cases step_stepped hstep with
  | run hs hc m => exact perform_now ..

/-- A step that is not admitted leaves the next call a seat map from before a complete change. -/
theorem stale_after {now : Time} {act : CachedAct} (run : exec (cachedStep coll cat) (.seeded now) acts = some υ)
    (hstep : cachedStep coll cat υ act = some ω) (hfails : ¬KeepsFresh υ act) :
    ∃ k ω', exec (cachedStep coll cat) ω [.getSeats k, .read ω.calls.length] = some ω' ∧ ¬ω'.Fresh := by
  cases cachedStep_stepped hstep with
  | @run i x τ hservice =>
    simp only [KeepsFresh, not_forall] at hfails
    obtain ⟨s, hs, b, hb, hsome⟩ := hfails
    have hs : υ.service.sessions[i]? = some s := hs
    obtain ⟨cached, hserved⟩ := Option.ne_none_iff_exists'.mp (by simpa using hsome)
    obtain ⟨hchanged, s', hs', hf⟩ := changed_of_releases (service_of_exec run) hs hb hservice
    obtain ⟨n, hn⟩ := List.mem_iff_getElem?.mp (List.mem_map_of_mem (f := fun k => (⟨k, i⟩ : Change Uuid Sid)) hchanged)
    have hle := ((traced_exec run).entries _ _ (served_eq_some.mp hserved).1).length_le
    refine ⟨b.scheduleId, stale_call coll cat cached (n := υ.changes.length + n) ?_ ?_ (Nat.le_add_right_of_le hle)⟩
    · have hentries : υ.entriesAfter i = υ.entries := by
        simp only [Cached.entriesAfter, hs, Option.bind_some, Task.invalidates_of_releases hb]
      rw [Cached.afterRun, hentries, step_run_now hservice]
      exact hserved
    · refine mem_completed.mpr ⟨⟨b.scheduleId, i⟩, ?_, rfl, Cached.done_iff.mpr ⟨s', hs', hf⟩⟩
      rw [Cached.afterRun, List.getElem?_append_right (Nat.le_add_right _ _), Nat.add_sub_cancel_left]
      exact hn
  | @read m call pc entries hcall move =>
    simp only [KeepsFresh, not_forall] at hfails
    obtain ⟨call', hcall', asOf, hstores, hstale⟩ := hfails
    obtain rfl : call = call' := Option.some.inj (hcall.symm.trans hcall')
    obtain ⟨n, hn, hle⟩ : ∃ n ∈ completed υ.changes υ.done call.scheduleId, ¬n < asOf := by
      simpa [Covers] using hstale
    obtain ⟨scheduleId, pc₀, due⟩ := call
    cases move with
    | @stored payload asOf' =>
      cases hstores
      refine ⟨scheduleId, stale_call coll cat ⟨payload, υ.service.now + cacheExpiry, asOf⟩ ?_ hn (not_lt.mp hle)⟩
      refine served_eq_some.mpr ⟨Function.update_self .., ?_⟩
      exact Int.le_add_of_nonneg_right (by decide)
    | _ => cases hstores
  | @service a τ hrun hservice =>
    cases a with
    | run i x => exact absurd rfl (hrun i x)
    | _ => exact absurd trivial hfails
  | _ => exact absurd trivial hfails

/-- Along a run in which no call stores a seat map from before a complete change, and no cleanup pass commits under a
    seat map that is served, every call that begins after a change is complete returns a seat map that was computed
    after it. Any other step leaves a stale seat map to the next call. -/
theorem seat_cache_fresh (coll : Table.Collation) (cat : Catalog) (now : Time) :
    (∀ acts ω, Along (cachedStep coll cat) KeepsFresh (.seeded now) acts →
        exec (cachedStep coll cat) (.seeded now) acts = some ω → ω.Fresh) ∧
      ∀ acts υ act ω, exec (cachedStep coll cat) (.seeded now) acts = some υ → cachedStep coll cat υ act = some ω →
        ¬KeepsFresh υ act →
        ∃ k ω', exec (cachedStep coll cat) ω [.getSeats k, .read ω.calls.length] = some ω' ∧ ¬ω'.Fresh :=
  ⟨fun _ _ along run => (coherent_exec along run).fresh, fun _ _ _ _ run hstep hfails => stale_after run hstep hfails⟩

/-! ### Three runs -/

/-- User 1 books seat 40 on schedule 20, up to the delete of the entry. -/
def booking : List CachedAct := .service (.request (.create ⟨1, 20, 40, 50, none⟩)) :: (runs 0 9 60).map .service

/-- The seat map is stored before the booking, and read again after it. -/
def deletedRun : List CachedAct :=
  [.getSeats 20, .read 0, .read 0, .read 0] ++ booking ++ [.getSeats 20, .read 1, .read 1, .read 1]

/-- The seat map is read before the booking, and stored after it. -/
def straddlingRun : List CachedAct := [.getSeats 20, .read 0, .read 0] ++ booking ++ [.read 0, .getSeats 20, .read 1]

/-- The reservation expires, and the pass that releases it commits after the seat map is stored. -/
def releasedRun : List CachedAct :=
  booking ++ [.service (.tick 600000000), .getSeats 20, .read 0, .read 0, .read 0, .service (.request .cleanup)] ++
    (runs 1 3 70).map .service ++ [.getSeats 20, .read 1]

theorem seat_cache_fresh_deleted :
    (∃ ω, exec (cachedStep .codePoints sampleCatalog) (.seeded 0) deletedRun = some ω ∧ ω.Fresh) ∧
      ∃ υ ω k ω', cachedStep .codePoints sampleCatalog υ (.read 0) = some ω ∧
        exec (cachedStep .codePoints sampleCatalog) ω [.getSeats k, .read ω.calls.length] = some ω' ∧ ¬ω'.Fresh := by
  have hdeleted : (exec (cachedStep .codePoints sampleCatalog) (.seeded 0) deletedRun).isSome = true := by decide
  have hstraddles : (exec (cachedStep .codePoints sampleCatalog) (.seeded 0)
    ([.getSeats 20, .read 0, .read 0] ++ booking)).any
      (fun υ : Cached => (cachedStep .codePoints sampleCatalog υ (.read 0)).isSome &&
        !decide (KeepsFresh υ (.read 0))) = true := by
    decide
  obtain ⟨ω, hω⟩ := Option.isSome_iff_exists.mp hdeleted
  obtain ⟨υ, run, htest⟩ := (Option.any_eq_true _ _).mp hstraddles
  obtain ⟨hstep, hfails⟩ := Bool.and_eq_true_iff.mp htest
  obtain ⟨ω', hstep⟩ := Option.isSome_iff_exists.mp hstep
  refine ⟨⟨ω, hω, (seat_cache_fresh .codePoints sampleCatalog 0).1 _ _ (by decide) hω⟩, υ, ω', ?_⟩
  obtain ⟨k, ω'', hcall, hstale⟩ := (seat_cache_fresh .codePoints sampleCatalog 0).2 _ _ _ _ run hstep
    (by simpa using hfails)
  exact ⟨k, ω'', hstep, hcall, hstale⟩

/-- The next call is told that the seat is free although the booking is complete, and that it is taken although the
    pass is. -/
theorem stale_seat_map :
    (∃ ω, exec (cachedStep .codePoints sampleCatalog) (.seeded 0) straddlingRun = some ω ∧ ¬ω.Fresh) ∧
      ∃ ω, exec (cachedStep .codePoints sampleCatalog) (.seeded 0) releasedRun = some ω ∧ ¬ω.Fresh := by
  have hstraddling : (exec (cachedStep .codePoints sampleCatalog) (.seeded 0) straddlingRun).any
      (fun ω : Cached => !decide ω.Fresh) = true := by decide
  have hreleased : (exec (cachedStep .codePoints sampleCatalog) (.seeded 0) releasedRun).any
      (fun ω : Cached => !decide ω.Fresh) = true := by decide
  obtain ⟨ω, hω, hstale⟩ := (Option.any_eq_true _ _).mp hstraddling
  obtain ⟨ω', hω', hstale'⟩ := (Option.any_eq_true _ _).mp hreleased
  exact ⟨⟨ω, hω, by simpa using hstale⟩, ω', hω', by simpa using hstale'⟩

end

end Railbook
