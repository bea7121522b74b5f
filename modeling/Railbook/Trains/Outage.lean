import Railbook.Freshness

/-! The seat map when commands of Redis fail. A `GET` that fails counts as a miss, a `SET` that fails stores nothing
    and a `DELETE` that fails leaves the entry, each with nothing but a warning. The tables do not notice, and a seat
    map that is served was true when the call that stored it read it. -/

namespace Railbook
open ReadCommitted Transition LookAside

/-- A step of the service or of a call, with Redis available or not. -/
inductive OutageAct where
  | up (a : CachedAct)
  | down (a : CachedAct)
  deriving DecidableEq, Repr

/-- Without Redis a statement finds no entry and changes none. -/
def outageStep (coll : Table.Collation) (cat : Catalog) (σ : Cached) : OutageAct → Option Cached
  | .up a => cachedStep coll cat σ a
  | .down a => (cachedStep coll cat { σ with entries := fun _ => none } a).map fun τ => { τ with entries := σ.entries }

/-- The steps of the service. -/
def OutageAct.service? : OutageAct → Option Act
  | .up (.service a) | .down (.service a) => some a
  | _ => none

/-- The call has been answered. -/
def SeatsPc.isFinished : SeatsPc → Bool
  | .finished _ _ => true
  | _ => false

/-- The seat map that a call has returned. -/
def SeatsPc.returned : SeatsPc → Option SeatAvailability
  | .finished (.ok payload) _ => payload
  | _ => none

/-- A call takes at most `delay`: whenever it has begun and not returned. -/
def Prompt (coll : Table.Collation) (cat : Catalog) (start : Cached) (acts : List OutageAct) (delay : Time) : Prop :=
  ∀ pre mid post υ ω, acts = pre ++ mid ++ post → exec (outageStep coll cat) start pre = some υ →
    exec (outageStep coll cat) υ mid = some ω → ∀ (n : Nat) call call', υ.calls[n]? = some call →
      ω.calls[n]? = some call' →
      call'.pc.isFinished = false → ω.service.now ≤ υ.service.now + delay

section
variable {coll : Table.Collation} {cat : Catalog} {start σ τ υ : Cached} {k : Uuid} {n : Nat} {call : SeatsCall}
  {acts : List OutageAct} {a : OutageAct} {delay : Time}

theorem SeatsPc.returned_eq_some {pc : SeatsPc} {payload : SeatAvailability} :
    pc.returned = some payload ↔ ∃ asOf, pc = .finished (.ok (some payload)) asOf := by
  constructor
  · intro h
    unfold SeatsPc.returned at h
    split at h
    · rename_i asOf
      exact ⟨asOf, h ▸ rfl⟩
    · cases h
  · rintro ⟨asOf, rfl⟩
    rfl

/-! ### Steps -/

/-- What a step is, with Redis or without. -/
theorem outageStep_stepped (h : outageStep coll cat σ a = some τ) :
    ∃ act entries τ', CachedStepped coll cat { σ with entries := entries } act τ' ∧
    τ.service = τ'.service ∧ τ.calls = τ'.calls ∧
      ((entries = σ.entries ∧ τ.entries = τ'.entries) ∨ ((∀ k, entries k = none) ∧ τ.entries = σ.entries)) := by
  cases a with
  | up act => exact ⟨act, σ.entries, τ, cachedStep_stepped h, rfl, rfl, Or.inl ⟨rfl, rfl⟩⟩
  | down act =>
    obtain ⟨τ', hstep, rfl⟩ := Option.map_eq_some_iff.mp h
    exact ⟨act, _, τ', cachedStep_stepped hstep, rfl, rfl, Or.inr ⟨fun _ => rfl, rfl⟩⟩

/-- The service runs as it does without a cache. -/
theorem service_step (h : outageStep coll cat σ a = some τ) :
    exec (step cat) σ.service a.service?.toList = some τ.service := by
  have cached : ∀ {σ τ : Cached} {act}, cachedStep coll cat σ act = some τ →
      exec (step cat) σ.service (OutageAct.up act).service?.toList = some τ.service := by
    intro σ τ act hstep
    cases cachedStep_stepped hstep with
    | run hs => exact Option.bind_eq_some_iff.mpr ⟨_, hs, rfl⟩
    | service _ hs => exact Option.bind_eq_some_iff.mpr ⟨_, hs, rfl⟩
    | getSeats _ => rfl
    | read _ _ => rfl
    | readRaises _ => rfl
  cases a with
  | up act => exact cached h
  | down act =>
    obtain ⟨τ', hstep, rfl⟩ := Option.map_eq_some_iff.mp h
    have hservice := cached hstep
    cases act <;> exact hservice

theorem service_exec (run : exec (outageStep coll cat) σ acts = some τ) :
    exec (step cat) σ.service (acts.filterMap (·.service?)) = some τ.service :=
  exec_filterMap (fun _ _ _ => service_step) run

theorem exec_now_le (run : exec (outageStep coll cat) σ acts = some τ) : σ.service.now ≤ τ.service.now :=
  exec_invariant_of_step (I := fun υ => σ.service.now ≤ υ.now)
  (fun _ _ _ h hstep => Int.le_trans h (step_now_le hstep)) (le_refl _)
    (service_exec run)

/-- Calls are prompt in a run that is short. -/
theorem prompt_of_now_le (run : exec (outageStep coll cat) start acts = some σ)
    (h : σ.service.now ≤ start.service.now + delay) :
    Prompt coll cat start acts delay := by
  rintro pre mid post υ ω rfl hpre hmid n call call' - - -
  rw [List.append_assoc, exec_append, hpre, Option.bind_some, exec_append, hmid] at run
  calc
    ω.service.now ≤ σ.service.now := exec_now_le run
    _ ≤ start.service.now + delay := h
    _ ≤ υ.service.now + delay := Int.add_le_add_right (exec_now_le hpre) _

/-- A call in the state after a step: it is as it was, it has just begun, it has lost its database, or it has moved. -/
theorem call_cases (h : outageStep coll cat σ a = some τ) (hn : τ.calls[n]? = some call) :
    σ.calls[n]? = some call ∨ call.pc = .getCached ∨ (∃ asOf, call.pc = .finished (.error .databaseError) asOf) ∨
      ∃ call₀ entries entries', σ.calls[n]? = some call₀ ∧ call.scheduleId = call₀.scheduleId ∧ τ.service = σ.service ∧
        (∀ k cached, entries k = some cached → σ.entries k = some cached) ∧
        SeatsMove coll cat { σ with entries := entries } call₀.scheduleId call₀.pc entries' call.pc := by
  obtain ⟨act, entries, τ', hstepped, hservice, hcalls, hentries⟩ := outageStep_stepped h
  have hsub : ∀ k cached, entries k = some cached → σ.entries k = some cached := by
    rcases hentries with ⟨rfl, -⟩ | ⟨hnone, -⟩
    · exact fun _ _ hk => hk
    · exact fun k cached hk => by rw [hnone] at hk; cases hk
  rw [hcalls] at hn
  cases hstepped with
  | run hs => exact Or.inl hn
  | service hrun hs => exact Or.inl hn
  | getSeats scheduleId =>
    rw [Cached.begin, List.getElem?_append] at hn
    split at hn
    · exact Or.inl hn
    · refine Or.inr (Or.inl ?_)
      rw [List.mem_singleton.mp (List.mem_of_getElem? hn)]
  | @read m call₀ pc entries' hcall hmove =>
    rw [List.getElem?_set] at hn
    split at hn
    · rename_i hmn
      split at hn
      · cases hn
        subst hmn
        exact Or.inr (Or.inr (Or.inr ⟨call₀, entries, entries', hcall, rfl, hservice, hsub, hmove⟩))
      · cases hn
    · exact Or.inl hn
  | readRaises hcall =>
    rw [List.getElem?_set] at hn
    split at hn
    · split at hn
      · cases hn
        exact Or.inr (Or.inr (Or.inl ⟨_, rfl⟩))
      · cases hn
    · exact Or.inl hn

/-- A seat map that a call is about to store was true when the call read it. -/
theorem storing_cases {payload : SeatAvailability} {asOf : Nat} (h : outageStep coll cat σ a = some τ)
    (hn : τ.calls[n]? = some call) (hpc : call.pc = .setCached payload asOf) : σ.calls[n]? = some call ∨
      ∃ call₀, σ.calls[n]? = some call₀ ∧ getSeatAvailability coll cat σ.service.db call.scheduleId =
        .ok (some payload) := by
  rcases call_cases h hn with hold | hget | ⟨asOf, herror⟩ | ⟨call₀, entries, entries', hcall, hid, -, -, hmove⟩
  · exact Or.inl hold
  · rw [hget] at hpc
    cases hpc
  · rw [herror] at hpc
    cases hpc
  · generalize call₀.pc = pc₀ at hmove
    rw [hpc] at hmove
    cases hmove with
    | queried hquery => exact Or.inr ⟨call₀, hcall, hid ▸ hquery⟩

/-- A seat map that a call returns is an entry that is served, or what the call was about to store. -/
theorem returning_cases {payload : SeatAvailability} {asOf : Nat} (h : outageStep coll cat σ a = some τ)
    (hn : τ.calls[n]? = some call) (hpc : call.pc = .finished (.ok (some payload)) asOf) :
    σ.calls[n]? = some call ∨ (τ.service = σ.service ∧
      ((∃ cached, σ.entries call.scheduleId = some cached ∧ cached.value = payload ∧ σ.service.now ≤ cached.expires) ∨
        ∃ call₀ asOf', σ.calls[n]? = some call₀ ∧ call.scheduleId = call₀.scheduleId ∧
          call₀.pc = .setCached payload asOf')) := by
  rcases call_cases h hn with hold | hget | ⟨asOf, herror⟩ | ⟨call₀, entries, entries', hcall, hid,
    hservice, hsub, hmove⟩
  · exact Or.inl hold
  · rw [hget] at hpc
    cases hpc
  · rw [herror] at hpc
    cases hpc
  · refine Or.inr ⟨hservice, ?_⟩
    generalize hpc₀ : call₀.pc = pc₀ at hmove
    rw [hpc] at hmove
    cases hmove with
    | hit hserved =>
      obtain ⟨hk, hle⟩ := served_eq_some.mp hserved
      exact Or.inl ⟨_, hid ▸ hsub _ _ hk, rfl, hle⟩
    | failed hno => exact absurd rfl (hno payload)
    | stored => exact Or.inr ⟨call₀, asOf, hcall, hid, hpc₀⟩

/-- An entry was stored before, or some call stores it now. -/
theorem entry_cases {cached : CacheEntry Time SeatAvailability} (h : outageStep coll cat σ a = some τ)
    (hk : τ.entries k = some cached) :
    σ.entries k = some cached ∨ ∃ (n : Nat) (call : SeatsCall) (asOf : Nat), σ.calls[n]? = some call ∧
      call.scheduleId = k ∧
      call.pc = .setCached cached.value asOf ∧ cached.expires = σ.service.now + cacheExpiry := by
  obtain ⟨act, entries, τ', hstepped, -, -, ⟨rfl, heq⟩ | ⟨-, heq⟩⟩ := outageStep_stepped h
  · rw [heq] at hk
    cases hstepped with
    | run hs => exact Or.inl (entriesAfter_eq_some hk)
    | service hrun hs => exact Or.inl hk
    | getSeats scheduleId => exact Or.inl hk
    | readRaises hcall => exact Or.inl hk
    | @read m call pc entries' hcall hmove =>
      obtain ⟨id, pc₀, done⟩ := call
      cases hmove with
      | @stored payload asOf =>
        change Function.update σ.entries id (some ⟨payload, σ.service.now + cacheExpiry, asOf⟩) k = some cached at hk
        rw [Function.update_apply] at hk
        split at hk
        · rename_i hid
          cases hk
          exact Or.inr ⟨m, _, asOf, hcall, hid.symm, rfl, rfl⟩
        · exact Or.inl hk
      | _ => exact Or.inl hk
  · exact Or.inl (heq ▸ hk)

/-! ### Runs -/

/-- What a call is about to store it read when it had already begun, and what is stored was read at most
    `delay` before. -/
structure Recent (coll : Table.Collation) (cat : Catalog) (start : Cached) (acts : List OutageAct) (delay : Time)
    (σ : Cached) : Prop where
  storing : ∀ (n : Nat) call payload asOf, σ.calls[n]? = some call → call.pc = .setCached payload asOf →
    ∃ pre post υ call₀, acts = pre ++ post ∧ exec (outageStep coll cat) start pre = some υ ∧ υ.calls[n]? = some call₀ ∧
      getSeatAvailability coll cat υ.service.db call.scheduleId = .ok (some payload)
  stored : ∀ k cached, σ.entries k = some cached → ∃ pre post υ, acts = pre ++ post ∧
    exec (outageStep coll cat) start pre = some υ ∧ getSeatAvailability coll cat υ.service.db k =
    .ok (some cached.value) ∧
      cached.expires ≤ υ.service.now + delay + cacheExpiry

theorem Prompt.init {acts' : List OutageAct} (h : Prompt coll cat start (acts ++ acts') delay) :
    Prompt coll cat start acts delay := by
  intro pre mid post υ ω hsplit
  exact h pre mid (post ++ acts') υ ω (by simp [hsplit])

/-- A call that is about to store read at most `delay` ago. -/
theorem Recent.reads (h : Recent coll cat start acts delay σ) (hprompt : Prompt coll cat start acts delay)
    (run : exec (outageStep coll cat) start acts = some σ) {payload : SeatAvailability} {asOf : Nat}
    (hn : σ.calls[n]? = some call) (hpc : call.pc = .setCached payload asOf) : ∃ pre post υ, acts = pre ++ post ∧
      exec (outageStep coll cat) start pre = some υ ∧
      getSeatAvailability coll cat υ.service.db call.scheduleId = .ok (some payload) ∧
        σ.service.now ≤ υ.service.now + delay := by
  obtain ⟨pre, post, υ, call₀, hsplit, hrun, hcall, hquery⟩ := h.storing n call payload asOf hn hpc
  refine ⟨pre, post, υ, hsplit, hrun, hquery, ?_⟩
  have rest : exec (outageStep coll cat) υ post = some σ := by
    rw [hsplit, exec_append, hrun] at run
    exact run
  exact hprompt pre post [] υ σ (by simp [hsplit]) hrun rest n call₀ call hcall hn (by rw [hpc]; rfl)

theorem Recent.step (h : Recent coll cat start acts delay σ) (hprompt : Prompt coll cat start acts delay)
    (run : exec (outageStep coll cat) start acts = some σ) (hstep : outageStep coll cat σ a = some τ) :
    Recent coll cat start (acts ++ [a]) delay τ where
  storing n call payload asOf hn hpc := by
    rcases storing_cases hstep hn hpc with hold | ⟨call₀, hcall, hquery⟩
    · obtain ⟨pre, post, υ, call₀, rfl, hrun, hcall, hquery⟩ := h.storing n call payload asOf hold hpc
      exact ⟨pre, post ++ [a], υ, call₀, List.append_assoc .., hrun, hcall, hquery⟩
    · exact ⟨acts, [a], σ, call₀, rfl, run, hcall, hquery⟩
  stored k cached hk := by
    rcases entry_cases hstep hk with hold | ⟨n, call, asOf, hn, rfl, hpc, hexpires⟩
    · obtain ⟨pre, post, υ, rfl, hrun, hquery, hle⟩ := h.stored k cached hold
      exact ⟨pre, post ++ [a], υ, List.append_assoc .., hrun, hquery, hle⟩
    · obtain ⟨pre, post, υ, rfl, hrun, hquery, hle⟩ := h.reads hprompt run hn hpc
      exact ⟨pre, post ++ [a], υ, List.append_assoc .., hrun, hquery, hexpires ▸ Int.add_le_add_right hle _⟩

theorem recent_of_run {now : Time} (hprompt : Prompt coll cat (.seeded now) acts delay)
    (run : exec (outageStep coll cat) (.seeded now) acts = some σ) : Recent coll cat (.seeded now) acts delay σ := by
  induction acts using List.reverseRecOn generalizing σ with
  | nil =>
    cases run
    exact ⟨fun n call payload asOf hn => by simp [Cached.seeded] at hn, fun k cached hk => by cases hk⟩
  | append_singleton acts a ih =>
    rw [exec_append] at run
    obtain ⟨υ, run, hlast⟩ := Option.bind_eq_some_iff.mp run
    obtain ⟨σ', hstep, hnil⟩ := Option.bind_eq_some_iff.mp hlast
    cases hnil
    exact (ih hprompt.init run).step hprompt.init run hstep

/-- Whichever commands of Redis fail, the service runs as it would without a cache. Where no call takes longer than
    `delay`, every seat map that is returned was true at most `delay` and five seconds before. -/
theorem outage_bounded {now : Time} {payload : SeatAvailability} {asOf : Nat}
    (hprompt : Prompt coll cat (.seeded now) acts delay)
    (run : exec (outageStep coll cat) (.seeded now) acts = some σ) (hstep : outageStep coll cat σ a = some τ)
    (hn : τ.calls[n]? = some call) (hpc : call.pc = .finished (.ok (some payload)) asOf)
    (hnew : σ.calls[n]? ≠ some call) :
    exec (step cat) (.seeded now) (acts.filterMap (·.service?)) = some σ.service ∧
      ∃ pre post υ, acts = pre ++ post ∧ exec (outageStep coll cat) (.seeded now) pre = some υ ∧
        getSeatAvailability coll cat υ.service.db call.scheduleId = .ok (some payload) ∧
        τ.service.now ≤ υ.service.now + delay + cacheExpiry := by
  refine ⟨service_exec run, ?_⟩
  have recent := recent_of_run hprompt run
  obtain hold | ⟨hservice, ⟨cached, hk, rfl, hnow⟩ | ⟨call₀, asOf', hcall, hid, hpc₀⟩⟩ := returning_cases hstep hn hpc
  · exact absurd hold hnew
  · obtain ⟨pre, post, υ, hsplit, hrun, hquery, hle⟩ := recent.stored _ _ hk
    exact ⟨pre, post, υ, hsplit, hrun, hquery, hservice ▸ Int.le_trans hnow hle⟩
  · obtain ⟨pre, post, υ, hsplit, hrun, hquery, hle⟩ := recent.reads hprompt run hcall hpc₀
    refine ⟨pre, post, υ, hsplit, hrun, hid ▸ hquery, hservice ▸ Int.le_trans hle ?_⟩
    exact Int.le_add_of_nonneg_right (by decide)

end

/-! ### A run -/

/-- The seat map is stored, Redis goes away, user 1 books the seat, and when Redis is back the seat map is served
    once more. -/
def lostRun : List OutageAct :=
  [.up (.getSeats 20), .up (.read 0), .up (.read 0), .up (.read 0), .down
    (.service (.request (.create ⟨1, 20, 40, 50, none⟩)))] ++
    (runs 0 9 60).map (fun a => .down (.service a)) ++ [.up (.service (.tick 1000000)), .up (.getSeats 20)]

theorem outage_bounded_lost : ∃ σ τ call payload asOf,
    exec (outageStep .codePoints sampleCatalog) (.seeded 0) lostRun = some σ ∧
    outageStep .codePoints sampleCatalog σ (.up (.read 1)) = some τ ∧ τ.calls[1]? = some call ∧
    call.pc = .finished (.ok (some payload)) asOf ∧
    exec (step sampleCatalog) (.seeded 0) (lostRun.filterMap (·.service?)) = some σ.service ∧
    ∃ pre post υ, lostRun = pre ++ post ∧ exec (outageStep .codePoints sampleCatalog) (.seeded 0) pre = some υ ∧
      getSeatAvailability .codePoints sampleCatalog υ.service.db call.scheduleId = .ok (some payload) ∧
      τ.service.now ≤ υ.service.now + 1000000 + cacheExpiry := by
  have hrun : (exec (outageStep .codePoints sampleCatalog) (.seeded 0) lostRun).any (fun σ : Cached =>
      decide (σ.service.now ≤ 1000000) && (σ.calls[1]?).any (fun call => !call.pc.isFinished) &&
        (outageStep .codePoints sampleCatalog σ (.up (.read 1))).any fun τ => (τ.calls[1]?).any fun call =>
          call.pc.returned.isSome) = true := by
    decide
  obtain ⟨σ, run, htest⟩ := (Option.any_eq_true _ _).mp hrun
  obtain ⟨htest, hread⟩ := Bool.and_eq_true_iff.mp htest
  obtain ⟨hnow, hopen⟩ := Bool.and_eq_true_iff.mp htest
  obtain ⟨τ, hstep, hread⟩ := (Option.any_eq_true _ _).mp hread
  obtain ⟨call, hn, hread⟩ := (Option.any_eq_true _ _).mp hread
  obtain ⟨payload, hread⟩ := Option.isSome_iff_exists.mp hread
  obtain ⟨asOf, hpc⟩ := SeatsPc.returned_eq_some.mp hread
  have hnew : σ.calls[1]? ≠ some call := by
    intro hold
    rw [hold, Option.any_some, hpc] at hopen
    cases hopen
  have hprompt : Prompt .codePoints sampleCatalog (.seeded 0) lostRun 1000000 :=
    prompt_of_now_le run (of_decide_eq_true hnow)
  exact ⟨σ, τ, call, payload, asOf, run, hstep, hn, hpc, outage_bounded hprompt run hstep hn hpc hnew⟩

end Railbook
