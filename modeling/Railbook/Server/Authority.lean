import Railbook.Server
import Railbook.Origins
import Railbook.Audit
import Railbook.Sessions

/-! On whose authority the tables change. Apart from what the cleanup loop and the demo endpoints do, every entry of
    the audit trail and every payment was written for a request of the owner of the booking, who presented an access
    token that had not expired. -/

namespace Railbook
open ReadCommitted Transition

/-- The request came with a valid access token of the user, and the limiter let it pass. -/
structure HttpRequest.ServedFor {Token : Type} (bcrypt : Bcrypt) (σ : Server Token) (r : HttpRequest Token)
    (userId : Uuid) : Prop where
  accepted : ∃ decodedAt, Accepted bcrypt σ.auth "access" r.token userId decodedAt
  handled : ∃ i call, r.stage = .handle i call

/-- What holds in every run of the server that begins with the accounts `seed`. -/
structure ServerInv {Token : Type} (cat : Catalog) (jwt : Jwt Token) (bcrypt : Bcrypt) (seed : List Account)
    (σ : Server Token) : Prop where
  service : Reachable cat σ.service
  auth : AuthInv jwt bcrypt seed σ.auth
  tokens : ∀ r ∈ σ.requests, ∃ pc, σ.auth.sessions[r.auth]? = some (.current r.token false pc)
  /-- The session of a request runs what its route asks for its user, and stays at its first statement while it
      is held. -/
  asked : ∀ r ∈ σ.requests, ∀ i, r.stage.session = some i → ∃ user s, σ.auth.userOf r = some user ∧
    σ.service.sessions[i]? = some s ∧ s.task.request = r.route.request r.ipAddress user.id ∧
      (r.stage.isHeld = true → s.task = s.task.request.task)
  /-- Every other session is a pass of the cleanup loop, or an attempt of a demo race. -/
  owned : ∀ (i : Sid) s, σ.service.sessions[i]? = some s → s.task.request = .cleanup ∨
    (∃ q, s.task.request = .create q ∧ q.ipAddress = some "demo") ∨ ∃ r ∈ σ.requests, r.stage.session = some i

section
variable {Token : Type} {cat : Catalog} {jwt : Jwt Token} {bcrypt : Bcrypt} {uuidText : Uuid → String}
  {seed : List Account} {σ τ : Server Token} {r : HttpRequest Token} {user : Account}

/-! ### Authentication -/

theorem AuthTask.user_eq_some {t : AuthTask Token} :
    t.user = some user ↔ ∃ token admin decodedAt, t = .current token admin (.finished (.ok user) decodedAt) := by
  constructor
  · intro h
    unfold AuthTask.user at h
    split at h
    · cases h
      exact ⟨_, _, _, rfl⟩
    · cases h
  · rintro ⟨token, admin, decodedAt, rfl⟩
    rfl

/-- A protected request keeps its token, and its answer. -/
theorem current_step {σ τ : AuthState Token} {a : AuthAct Token} {j : Sid} {token : Token} {admin : Bool} {pc : TokenPc}
    (hstep : authStep jwt bcrypt σ a = some τ) (hs : σ.sessions[j]? = some (.current token admin pc)) :
    ∃ pc', τ.sessions[j]? = some (.current token admin pc') ∧ ∀ answer decodedAt, pc = .finished answer decodedAt →
      pc' = pc := by
  have moved : ∀ {i : Sid} {t t' : AuthTask Token} {eff : AuthEffect}, σ.sessions[i]? = some t →
    (t = .current token admin pc →
      ∃ pc', t' = .current token admin pc' ∧ ∀ answer decodedAt, pc = .finished answer decodedAt → pc' = pc) →
      ∃ pc', ((σ.perform jwt i eff).goto i t').sessions[j]? = some (.current token admin pc') ∧
        ∀ answer decodedAt, pc = .finished answer decodedAt → pc' = pc := by
    intro i t t' eff ht h
    rw [AuthState.goto, AuthState.perform_sessions]
    by_cases hij : i = j
    · subst hij
      obtain ⟨pc', rfl, hpc⟩ := h (Option.some.inj (ht.symm.trans hs))
      exact ⟨pc', List.getElem?_set_self (List.getElem?_eq_some_iff.mp ht).1, hpc⟩
    · exact ⟨pc, (List.getElem?_set_ne hij).trans hs, fun _ _ _ => rfl⟩
  cases authStep_stepped hstep with
  | request q => exact ⟨pc, (List.getElem?_append_left (List.getElem?_eq_some_iff.mp hs).1).trans hs, fun _ _ _ => rfl⟩
  | run ht hc m =>
    refine moved ht ?_
    rintro rfl
    cases pc with
    | decode =>
      simp only [authStatement] at hc
      split at hc <;> cases hc <;> exact ⟨_, rfl, fun _ _ h => by cases h⟩
    | find userId decodedAt =>
      simp only [authStatement] at hc
      split at hc <;> cases hc <;> exact ⟨_, rfl, fun _ _ h => by cases h⟩
    | finished answer decodedAt => cases hc
  | raise ht hr m =>
    refine moved ht ?_
    rintro rfl
    cases pc with
    | find userId decodedAt =>
      cases hr
      exact ⟨_, rfl, fun _ _ h => by cases h⟩
    | _ => cases hr
  | tick d => exact ⟨pc, hs, fun _ _ _ => rfl⟩

theorem userOf_eq_some {σ : AuthState Token} : σ.userOf r = some user ↔
    ∃ token admin decodedAt, σ.sessions[r.auth]? = some (.current token admin (.finished (.ok user) decodedAt)) := by
  constructor
  · intro h
    obtain ⟨t, ht, huser⟩ := Option.bind_eq_some_iff.mp h
    obtain ⟨token, admin, decodedAt, rfl⟩ := AuthTask.user_eq_some.mp huser
    exact ⟨token, admin, decodedAt, ht⟩
  · rintro ⟨token, admin, decodedAt, hs⟩
    exact Option.bind_eq_some_iff.mpr ⟨_, hs, rfl⟩

theorem userOf_step {σ τ : AuthState Token} {a : AuthAct Token} (hstep : authStep jwt bcrypt σ a = some τ)
    (h : σ.userOf r = some user) : τ.userOf r = some user := by
  obtain ⟨token, admin, decodedAt, hs⟩ := userOf_eq_some.mp h
  obtain ⟨pc, hs', hpc⟩ := current_step hstep hs
  rw [hpc _ _ rfl] at hs'
  exact userOf_eq_some.mpr ⟨token, admin, decodedAt, hs'⟩

/-- The user of a request is the one of its token. -/
theorem ServerInv.accepted (h : ServerInv cat jwt bcrypt seed σ) (hr : r ∈ σ.requests)
    (huser : σ.auth.userOf r = some user) :
    ∃ decodedAt, Accepted bcrypt σ.auth "access" r.token user.id decodedAt := by
  obtain ⟨token, admin, decodedAt, hs⟩ := userOf_eq_some.mp huser
  obtain ⟨pc, htoken⟩ := h.tokens r hr
  cases hs.symm.trans htoken
  exact ⟨decodedAt, (h.auth.sessions r.auth _ hs).1⟩

/-! ### The sessions of the service -/

/-- A session of the service after a step: it runs the request that it ran, and moves by its own statements only; or
    it has just begun. -/
theorem session_cases {σ τ : State} {a : Act} {i : Sid} {s' : Session} (hstep : step cat σ a = some τ)
    (hs' : τ.sessions[i]? = some s') :
    (∃ s, σ.sessions[i]? = some s ∧ s'.task.request = s.task.request ∧ (s' = s ∨ (∃ x, a = .run i x) ∨ a = .raise i)) ∨
      ∃ r, a = .request r ∧ i = σ.sessions.length ∧ s' = ⟨σ.now, r.task⟩ := by
  have moved : ∀ {k s e t}, σ.sessions[k]? = some s → Move cat σ k s e t →
    ((σ.perform k e).goto k s t).sessions[i]? = some s' →
      ((∃ x, a = .run k x) ∨ a = .raise k) →
      ∃ s, σ.sessions[i]? = some s ∧ s'.task.request = s.task.request ∧
      (s' = s ∨ (∃ x, a = .run i x) ∨ a = .raise i) := by
    intro k s e t hs m hs' ha
    rcases session_of_goto hs hs' with ⟨rfl, rfl⟩ | ⟨-, hold⟩
    · exact ⟨s, hs, m.request, Or.inr ha⟩
    · exact ⟨s', hold, rfl, Or.inl rfl⟩
  cases step_stepped hstep with
  | request r =>
    rcases session_of_request hs' with hold | ⟨hnone, rfl⟩
    · exact Or.inl ⟨s', hold, rfl, Or.inl rfl⟩
    · have hlt := (List.getElem?_eq_some_iff.mp hs').1
      rw [List.length_append, List.length_singleton] at hlt
      exact Or.inr ⟨r, rfl, Nat.le_antisymm (Nat.le_of_lt_succ hlt) (List.getElem?_eq_none_iff.mp hnone), rfl⟩
  | run hs hc m => exact Or.inl (moved hs m hs' (Or.inl ⟨_, rfl⟩))
  | raise hs hr m => exact Or.inl (moved hs m hs' (Or.inr rfl))
  | tick d => exact Or.inl ⟨s', hs', rfl, Or.inl rfl⟩
  | updateConfig failureRate latencyMs => exact Or.inl ⟨s', hs', rfl, Or.inl rfl⟩

/-! ### The invariant -/

theorem serverInv_start {redis : Keyspace} {now : Time} : ServerInv cat jwt bcrypt seed (.start seed redis now) where
  service := .start ⟨now, rfl⟩
  auth := authInv_start
  tokens r hr := by cases hr
  asked r hr := by cases hr
  owned i s hs := by cases hs

/-- Authentication goes on, and the limiter. -/
theorem ServerInv.auth_step (h : ServerInv cat jwt bcrypt seed σ) {a : AuthAct Token} {auth : AuthState Token}
    (presents : Presents jwt σ.auth a) (hstep : authStep jwt bcrypt σ.auth a = some auth) (limits : Limits)
    (logins : List (Sid × Option CheckCall)) :
    ServerInv cat jwt bcrypt seed { σ with auth := auth, limits := limits, logins := logins } where
  service := h.service
  auth := h.auth.step presents hstep
  tokens r hr := by
    obtain ⟨pc, hs⟩ := h.tokens r hr
    obtain ⟨pc', hs', -⟩ := current_step hstep hs
    exact ⟨pc', hs'⟩
  asked r hr i hi := by
    obtain ⟨user, s, huser, hs⟩ := h.asked r hr i hi
    exact ⟨user, s, userOf_step hstep huser, hs⟩
  owned := h.owned

theorem ServerInv.arrive (h : ServerInv cat jwt bcrypt seed σ) {route : Route} {token : Token}
    {ipAddress : Option String} {auth : AuthState Token} (presents : σ.auth.Knows jwt token)
    (hstep : authStep jwt bcrypt σ.auth (.request (.current token false)) = some auth) :
    ServerInv cat jwt bcrypt seed
      { σ with auth := auth, requests := σ.requests ++
        [⟨route, token, ipAddress, σ.auth.sessions.length, .authenticate⟩] } := by
  have inv := h.auth_step (a := .request (.current token false)) presents hstep σ.limits σ.logins
  refine ⟨inv.service, inv.auth, fun r hr => ?_, fun r hr i hi => ?_, fun i s hs => ?_⟩
  · rcases List.mem_append.mp hr with hr | hr
    · exact inv.tokens r hr
    · rw [List.mem_singleton.mp hr]
      cases hstep
      exact ⟨.decode, List.getElem?_concat_length⟩
  · rcases List.mem_append.mp hr with hr | hr
    · exact inv.asked r hr i hi
    · rw [List.mem_singleton.mp hr] at hi
      cases hi
  · refine (inv.owned i s hs).imp_right (Or.imp_right ?_)
    rintro ⟨r, hr, hi⟩
    exact ⟨r, List.mem_append_left _ hr, hi⟩

/-- A request whose user is known has nothing more to authenticate. -/
theorem userOf_none {σ τ : AuthState Token} {c : Option AuthChoice}
    (hstep : authStep jwt bcrypt σ (c.elim (.raise r.auth) (.run r.auth)) = some τ) : σ.userOf r = none := by
  by_contra hne
  obtain ⟨user, huser⟩ := Option.ne_none_iff_exists'.mp hne
  obtain ⟨token, admin, decodedAt, hs⟩ := userOf_eq_some.mp huser
  cases c with
  | none =>
    obtain ⟨t, ht, h⟩ := Option.bind_eq_some_iff.mp hstep
    cases hs.symm.trans ht
    cases h
  | some c =>
    obtain ⟨t, ht, h⟩ := Option.bind_eq_some_iff.mp hstep
    cases hs.symm.trans ht
    cases h

/-- The user becomes known, and a session of the service begins. -/
theorem ServerInv.know (h : ServerInv cat jwt bcrypt seed σ) {n : Nat} {service : State} (hr : σ.requests[n]? = some r)
    (fresh : r.stage.session = none) (huser : σ.auth.userOf r = some user)
    (hstep : step cat σ.service (.request (r.route.request r.ipAddress user.id)) = some service) :
    ServerInv cat jwt bcrypt seed { σ with
      service := service
      requests := σ.requests.set n { r with stage := .limit σ.service.sessions.length } } := by
  have hlen : n < σ.requests.length := (List.getElem?_eq_some_iff.mp hr).1
  have hnew : { r with stage := .limit σ.service.sessions.length } ∈
      σ.requests.set n { r with stage := .limit σ.service.sessions.length } := List.mem_set hlen _
  have hold : ∀ {x i}, x ∈ σ.requests → x.stage.session = some i →
      x ∈ σ.requests.set n { r with stage := .limit σ.service.sessions.length } := by
    intro x i hx hi
    obtain ⟨m, hm⟩ := List.mem_iff_getElem?.mp hx
    have hmn : n ≠ m := by
      rintro rfl
      rw [hr] at hm
      cases hm
      rw [fresh] at hi
      cases hi
    exact List.mem_of_getElem? ((List.getElem?_set_ne hmn).trans hm)
  refine ⟨h.service.next trivial hstep, h.auth, fun x hx => ?_, fun x hx i hi => ?_, fun i s hs => ?_⟩
  · rcases List.mem_or_eq_of_mem_set hx with hx | rfl
    · exact h.tokens x hx
    · exact h.tokens r (List.mem_of_getElem? hr)
  · cases hstep
    rcases List.mem_or_eq_of_mem_set hx with hx | rfl
    · obtain ⟨user, s, huser, hs, hasked⟩ := h.asked x hx i hi
      exact ⟨user, s, huser, (List.getElem?_append_left (List.getElem?_eq_some_iff.mp hs).1).trans hs, hasked⟩
    · cases hi
      exact ⟨user, _, huser, List.getElem?_concat_length, Request.task_request _,
        fun _ => (congrArg Request.task (Request.task_request _)).symm⟩
  · rcases session_cases hstep hs with ⟨s, hs, hreq, -⟩ | ⟨-, -, rfl, -⟩
    · rw [hreq]
      refine (h.owned i s hs).imp_right (Or.imp_right ?_)
      rintro ⟨x, hx, hi⟩
      exact ⟨x, hold hx hi, hi⟩
    · exact Or.inr (Or.inr ⟨_, hnew, rfl⟩)

/-- The limiter answers: the session of the request stays the same. -/
theorem ServerInv.next_stage (h : ServerInv cat jwt bcrypt seed σ) {n : Nat} {i : Sid} (hr : σ.requests[n]? = some r)
    (hstage : r.stage = .limit i) (limits : Limits) (call : Option CheckCall)
    (answer : Except (HTTPException × Headers) Headers) :
    ServerInv cat jwt bcrypt seed
      { σ with limits := limits, requests := σ.requests.set n { r with stage := .next i call answer } } := by
  have hmem : r ∈ σ.requests := List.mem_of_getElem? hr
  have hsession : (Stage.next i call answer).session = some i := by cases answer <;> rfl
  have hlen : n < σ.requests.length := (List.getElem?_eq_some_iff.mp hr).1
  refine ⟨h.service, h.auth, fun x hx => ?_, fun x hx j hj => ?_, fun j s hs => ?_⟩
  · rcases List.mem_or_eq_of_mem_set hx with hx | rfl
    · exact h.tokens x hx
    · exact h.tokens r hmem
  · rcases List.mem_or_eq_of_mem_set hx with hx | rfl
    · exact h.asked x hx j hj
    · cases hsession.symm.trans hj
      obtain ⟨user, s, huser, hs, hreq, hheld⟩ := h.asked r hmem i (by rw [hstage]; rfl)
      exact ⟨user, s, huser, hs, hreq, fun _ => hheld (by rw [hstage]; rfl)⟩
  · refine (h.owned j s hs).imp_right (Or.imp_right ?_)
    rintro ⟨x, hx, hj⟩
    obtain ⟨m, hm⟩ := List.mem_iff_getElem?.mp hx
    by_cases hmn : n = m
    · subst hmn
      rw [hr] at hm
      cases hm
      rw [hstage] at hj
      cases hj
      exact ⟨_, List.mem_set hlen _, hsession⟩
    · exact ⟨x, List.mem_of_getElem? ((List.getElem?_set_ne hmn).trans hm), hj⟩

/-- The service goes on, but not in a session that is held. -/
theorem ServerInv.service_step (h : ServerInv cat jwt bcrypt seed σ) {a : Act} {service : State}
    (hstep : step cat σ.service a = some service)
    (held : ∀ r ∈ σ.requests, ∀ i, r.stage.session = some i → r.stage.isHeld = true →
      (∀ x, a ≠ .run i x) ∧ a ≠ .raise i)
    (demo : ∀ r, a = .request r → r = .cleanup ∨ ∃ q, r = .create q ∧ q.ipAddress = some "demo") :
    ServerInv cat jwt bcrypt seed { σ with service := service } where
  service := h.service.next trivial hstep
  auth := h.auth
  tokens := h.tokens
  asked r hr i hi := by
    obtain ⟨user, s, huser, hs, hreq, hfirst⟩ := h.asked r hr i hi
    rcases session_step hstep hs with hkept | ⟨x, e, t, rfl, -, m, rfl⟩ | ⟨t, rfl, hraise, rfl⟩
    · exact ⟨user, s, huser, hkept, hreq, hfirst⟩
    · exact ⟨user, _, huser, goto_sessions_self hs, m.request.trans hreq,
        fun hheld => absurd rfl ((held r hr i hi hheld).1 x)⟩
    · exact ⟨user, _, huser, goto_sessions_self hs, (raise_request hraise).trans hreq,
        fun hheld => absurd rfl (held r hr i hi hheld).2⟩
  owned i s' hs' := by
    rcases session_cases hstep hs' with ⟨s, hs, hreq, -⟩ | ⟨r, rfl, -, rfl⟩
    · rw [hreq]
      exact h.owned i s hs
    · rw [Request.task_request]
      rcases demo r rfl with hclean | hdemo
      · exact Or.inl hclean
      · exact Or.inr (Or.inl hdemo)

theorem ServerInv.step (h : ServerInv cat jwt bcrypt seed σ) {a : ServerAct Token} (presents : σ.Presents jwt a)
    (hstep : serverStep cat jwt bcrypt uuidText σ a = some τ) : ServerInv cat jwt bcrypt seed τ := by
  have own : ∀ {r : HttpRequest Token} (c : Option AuthChoice), Railbook.Presents jwt σ.auth
    (c.elim (.raise r.auth) (.run r.auth)) := by
    intro r c
    cases c <;> trivial
  cases serverStep_stepped hstep with
  | auth ha hauth => exact h.auth_step presents hauth σ.limits σ.logins
  | refused hcheck => exact ⟨h.service, h.auth, h.tokens, h.asked, h.owned⟩
  | opened hcheck hauth => exact h.auth_step presents hauth _ _
  | arrived hauth => exact h.arrive presents hauth
  | unknown hr hauth huser => exact h.auth_step (own _) hauth σ.limits σ.logins
  | @known n c r auth user service hr hauth huser hservice =>
    have fresh : r.stage.session = none := by
      by_contra hne
      obtain ⟨i, hi⟩ := Option.ne_none_iff_exists'.mp hne
      obtain ⟨user, s, huser, -⟩ := h.asked r (List.mem_of_getElem? hr) i hi
      rw [userOf_none hauth] at huser
      cases huser
    exact (h.auth_step (own _) hauth σ.limits σ.logins).know hr fresh huser hservice
  | limited hr huser hstage hcheck => exact h.next_stage hr hstage _ _ _
  | @service a service ha hservice =>
    refine h.service_step hservice (fun r hr i hi hheld => ?_) fun r hreq => ?_
    · constructor
      · rintro x rfl
        simp only [Server.admits, Bool.not_eq_true', List.any_eq_false, Bool.and_eq_true, decide_eq_true_eq,
          not_and] at ha
        exact ha r hr hheld hi
      · rintro rfl
        simp only [Server.admits, Bool.not_eq_true', List.any_eq_false, Bool.and_eq_true, decide_eq_true_eq,
          not_and] at ha
        exact ha r hr hheld hi
    · subst hreq
      cases r with
      | create q => exact Or.inr ⟨q, rfl, of_decide_eq_true ha⟩
      | cleanup => exact Or.inl rfl
      | _ => cases ha
  | tick hauth hservice =>
    exact (h.auth_step (a := .tick _) trivial hauth σ.limits σ.logins).service_step hservice
      (fun r hr i hi hheld => ⟨nofun, nofun⟩) nofun

theorem serverInv_of_reach {redis : Keyspace} (h : Reach (serverStep cat jwt bcrypt uuidText) (Server.Presents jwt)
    (fun σ => ∃ now, σ = .start seed redis now) σ) : ServerInv cat jwt bcrypt seed σ := by
  refine h.invariant ?_ fun σ a τ _ inv presents hstep => inv.step presents hstep
  rintro σ ⟨now, rfl⟩
  exact serverInv_start

/-! ### Authority -/

/-- A session that has left its first statement, of a request that is neither a pass of the cleanup loop nor an
    attempt of a demo race, serves a request with a token of its user. -/
theorem ServerInv.served (h : ServerInv cat jwt bcrypt seed σ) {i : Sid} {s : Session}
    (hs : σ.service.sessions[i]? = some s) (hleft : s.task ≠ s.task.request.task) (hclean : s.task.request ≠ .cleanup)
    (hdemo : ∀ q, s.task.request = .create q → q.ipAddress ≠ some "demo") :
    ∃ r ∈ σ.requests, ∃ userId, r.ServedFor bcrypt σ userId ∧ s.task.request = r.route.request r.ipAddress userId := by
  rcases h.owned i s hs with hc | ⟨q, hq, hip⟩ | ⟨r, hr, hi⟩
  · exact absurd hc hclean
  · exact absurd hip (hdemo q hq)
  · obtain ⟨user, s', huser, hs', hreq, hheld⟩ := h.asked r hr i hi
    cases hs.symm.trans hs'
    refine ⟨r, hr, user.id, ⟨h.accepted hr huser, ?_⟩, hreq⟩
    cases hstage : r.stage with
    | handle j call => exact ⟨j, call, rfl⟩
    | _ => exact absurd (hheld (by rw [hstage]; rfl)) hleft

/-- The owner of a booking is the user of its audit entries, other than that of its expiry. -/
theorem Inv.owner_of_entry {σ : State} (inv : Inv σ) {a : AuditTrail} (ha : a ∈ σ.db.auditTrail)
    (hact : a.action ≠ .expiredCleanup) :
    ∃ b ∈ σ.db.bookings, b.id = a.bookingId ∧ b.userId = a.userId := by
  have hmem : a ∈ (σ.db.ledger a.bookingId).auditTrail := mem_ledger_auditTrail.mpr ⟨ha, rfl⟩
  rcases inv.settled a.bookingId with hempty | ⟨b, ph, hph, hc⟩
  · rw [hempty] at hmem
    cases hmem
  · obtain ⟨hb, hid⟩ := hc.mem_bookings
    have huser := ph.trail_user b.userId a.entry (hc.trail ▸ List.mem_map_of_mem hmem)
    exact ⟨b, hb, hid, (huser.trans (if_neg hact)).symm⟩

/-- A booking that is not reserved any more has the entry that says why. -/
theorem Inv.entry_of_status {σ : State} (inv : Inv σ) {b : Booking} (hb : b ∈ σ.db.bookings)
    (hst : b.status ≠ .reserved) :
    ∃ a ∈ σ.db.auditTrail, a.bookingId = b.id ∧
      (a.action = .expiredCleanup ∨ (a.action = .confirmed ∧ b.status = .confirmed) ∨
      (a.action = .paymentFailed ∧ b.status = .cancelled) ∨ (a.action = .refunded ∧ b.status = .refunded)) := by
  obtain ⟨ph, hph, hc⟩ := inv.conforms_of_mem hb
  obtain ⟨entry, hentry, hact⟩ : ∃ entry ∈ ph.trail b.userId, entry.action = .expiredCleanup ∨
      (entry.action = .confirmed ∧ b.status = .confirmed) ∨ (entry.action = .paymentFailed ∧ b.status = .cancelled) ∨
        (entry.action = .refunded ∧ b.status = .refunded) := by
    rw [hc.status] at hst ⊢
    cases ph <;> simp_all [Phase.trail, Phase.status]
  obtain ⟨a, ha, rfl⟩ := List.mem_map.mp (hc.trail ▸ hentry)
  obtain ⟨ha, hid⟩ := mem_ledger_auditTrail.mp ha
  exact ⟨a, ha, hid, hact⟩

/-- An entry that is not of an expiry or a demo race was written for a request of its user, who owns the booking. -/
theorem ServerInv.authorized (h : ServerInv cat jwt bcrypt seed σ) {a : AuditTrail} (ha : a ∈ σ.service.db.auditTrail)
    (hact : a.action ≠ .expiredCleanup) (hdemo : ¬(a.action = .reserved ∧ a.ipAddress = some "demo")) :
    ∃ r ∈ σ.requests, r.ServedFor bcrypt σ a.userId ∧ (r.route.request r.ipAddress a.userId).Logs a := by
  obtain ⟨i, s, hs, hleft, hlogs⟩ := (signed_of_reachable h.service).auditTrail a ha
  have hlogs : s.task.request.Logs a := hlogs
  have hclean : s.task.request ≠ .cleanup := by
    intro heq
    rw [heq] at hlogs
    exact hact hlogs.2.2
  have hdemo : ∀ q, s.task.request = .create q → q.ipAddress ≠ some "demo" := by
    intro q heq hip
    rw [heq] at hlogs
    exact hdemo ⟨hlogs.2.2.1, hlogs.2.1.trans hip⟩
  obtain ⟨r, hr, userId, hserved, hreq⟩ := h.served hs hleft hclean hdemo
  rw [hreq] at hlogs
  have huser : a.userId = userId := by
    cases hroute : r.route <;> rw [hroute] at hlogs <;> exact hlogs.1
  exact ⟨r, hr, huser ▸ hserved, huser ▸ hlogs⟩

/-- Whose requests can settle a booking in a status. -/
def Route.Settles (id : Uuid) (st : BookingStatus) : Route → Prop
  | create _ _ _ => False
  | pay bookingId _ => bookingId = id ∧ (st = .confirmed ∨ st = .cancelled)
  | refund bookingId => bookingId = id ∧ st = .refunded

theorem Route.settles_of_logs {route : Route} {ipAddress : Option String} {userId : Uuid} {a : AuditTrail}
    {st : BookingStatus} (h : (route.request ipAddress userId).Logs a)
    (hwhy : (a.action = .confirmed ∧ st = .confirmed) ∨
      (a.action = .paymentFailed ∧ st = .cancelled) ∨ (a.action = .refunded ∧ st = .refunded)) : route.Settles
        a.bookingId st := by
  cases route with
  | create scheduleId seatId key =>
    have hact : a.action = .reserved := h.2.2.1
    simp [hact] at hwhy
  | pay bookingId key =>
    have hact : a.action ∈ [.paymentAttempted, .confirmed, .paymentFailed] := h.2.2.2
    refine ⟨h.2.2.1.symm, ?_⟩
    rcases hwhy with ⟨-, hst⟩ | ⟨-, hst⟩ | ⟨href, -⟩
    · exact Or.inl hst
    · exact Or.inr hst
    · exact absurd (href ▸ hact) (by decide)
  | refund bookingId =>
    have hact : a.action = .refunded := h.2.2.2
    refine ⟨h.2.2.1.symm, ?_⟩
    rcases hwhy with ⟨hconf, -⟩ | ⟨hfail, -⟩ | ⟨-, hst⟩
    · exact absurd (hact.symm.trans hconf) (by decide)
    · exact absurd (hact.symm.trans hfail) (by decide)
    · exact hst

/-- A payment was made for a request of the owner of its booking. -/
theorem ServerInv.paid (h : ServerInv cat jwt bcrypt seed σ) {p : Payment} (hp : p ∈ σ.service.db.payments) :
    ∃ b ∈ σ.service.db.bookings, b.id = p.bookingId ∧
      ∃ r ∈ σ.requests, r.ServedFor bcrypt σ b.userId ∧ r.route = .pay p.bookingId p.idempotencyKey := by
  obtain ⟨i, ⟨s, hs, hleft, hpays⟩, a, ha, hid, s', hs', -, hlogs⟩ := (signed_of_reachable h.service).payments p hp
  cases hs.symm.trans hs'
  obtain ⟨q, hq⟩ : ∃ q, s.task.request = .pay q := by
    have hpays : s.task.request.Pays p := hpays
    cases hreq : s.task.request with
    | pay q => exact ⟨q, rfl⟩
    | _ =>
      rw [hreq] at hpays
      cases hpays
  obtain ⟨hbooking, hkey⟩ : p.bookingId = q.bookingId ∧ p.idempotencyKey = q.idempotencyKey := by
    rw [hq] at hpays
    exact hpays
  obtain ⟨huser, -, -, hact⟩ : (Request.pay q).Logs a := by
    rw [hq] at hlogs
    exact hlogs
  have hact : a.action ≠ .expiredCleanup := by
    rintro hexp
    exact absurd (hexp ▸ hact) (by decide)
  obtain ⟨b, hb, hbid, howner⟩ := (inv_of_reachableBy h.service).owner_of_entry ha hact
  obtain ⟨r, hr, userId, hserved, hreq⟩ := h.served hs hleft (by rw [hq]; exact nofun) (by rw [hq]; exact nofun)
  rw [hq] at hreq
  cases hroute : r.route with
  | pay bookingId key =>
    rw [hroute] at hreq
    cases hreq
    exact ⟨b, hb, hbid.trans hid, r, hr, howner.trans huser ▸ hserved, by rw [hroute, hbooking, hkey]⟩
  | create scheduleId seatId key =>
    rw [hroute] at hreq
    cases hreq
  | refund bookingId =>
    rw [hroute] at hreq
    cases hreq

/-- Where every token that is presented was issued or fails its verification: an audit entry is of an expiry, of a
    demo race, or it was written for a request of the owner of its booking, who had a valid access token. A booking is
    paid, declined or refunded for such a request only, and so is every payment made. -/
theorem server_authorized {redis : Keyspace} (h : Reach (serverStep cat jwt bcrypt uuidText) (Server.Presents jwt)
    (fun σ => ∃ now, σ = .start seed redis now) σ) :
    (∀ a ∈ σ.service.db.auditTrail, (a.action = .expiredCleanup ∧ a.userId = systemUserId) ∨
      (a.action = .reserved ∧ a.ipAddress = some "demo") ∨
      ((∃ b ∈ σ.service.db.bookings, b.id = a.bookingId ∧ b.userId = a.userId) ∧
        ∃ r ∈ σ.requests, r.ServedFor bcrypt σ a.userId ∧ (r.route.request r.ipAddress a.userId).Logs a)) ∧
    (∀ b ∈ σ.service.db.bookings, b.status ≠ .reserved → σ.service.db.Logged b.id .expiredCleanup ∨
      ∃ r ∈ σ.requests, r.ServedFor bcrypt σ b.userId ∧ r.route.Settles b.id b.status) ∧
    ∀ p ∈ σ.service.db.payments, ∃ b ∈ σ.service.db.bookings, b.id = p.bookingId ∧
      ∃ r ∈ σ.requests, r.ServedFor bcrypt σ b.userId ∧ r.route = .pay p.bookingId p.idempotencyKey := by
  have server := serverInv_of_reach h
  have inv := inv_of_reachableBy server.service
  have signed := signed_of_reachable server.service
  refine ⟨fun a ha => ?_, fun b hb hst => ?_, fun p hp => server.paid hp⟩
  · by_cases hact : a.action = .expiredCleanup
    · obtain ⟨i, s, hs, -, hlogs⟩ := signed.auditTrail a ha
      exact Or.inl ⟨hact, (Request.Logs.cleanup hlogs hact).2⟩
    · by_cases hdemo : a.action = .reserved ∧ a.ipAddress = some "demo"
      · exact Or.inr (Or.inl hdemo)
      · exact Or.inr (Or.inr ⟨inv.owner_of_entry ha hact, server.authorized ha hact hdemo⟩)
  · obtain ⟨a, ha, hid, hexp | hwhy⟩ := inv.entry_of_status hb hst
    · exact Or.inl ⟨a, ha, hid, hexp⟩
    · have hact : a.action ≠ .expiredCleanup := by
        rintro hexp
        simp [hexp] at hwhy
      have hdemo : ¬(a.action = .reserved ∧ a.ipAddress = some "demo") := by
        rintro ⟨hres, -⟩
        simp [hres] at hwhy
      obtain ⟨r, hr, hserved, hlogs⟩ := server.authorized ha hact hdemo
      obtain ⟨b', hb', hid', howner⟩ := inv.owner_of_entry ha hact
      obtain rfl : b' = b := by
        obtain ⟨ph, hph, hc⟩ := inv.conforms_of_mem hb
        exact hc.eq_of_mem hb' (hid'.trans hid)
      exact Or.inr ⟨r, hr, howner ▸ hserved, hid ▸ Route.settles_of_logs hlogs hwhy⟩

end

/-- A server with one user. -/
def sampleServer : Server (Option Claims) :=
  .start [⟨1, "alice@example.com", "$2b$12$password123", "Alice", none, "user"⟩] (fun _ => none) 0

/-- User 1 logs in, and books and pays seat 40 with the access token. -/
def authorizedRun : List (ServerAct (Option Claims)) :=
  [.authRoute (.login ⟨"alice@example.com", "password123"⟩) none (some (1, 1)), .auth (.run 0 ⟨1, 0⟩),
    .arrive (.create 20 40 50) (some (createAccessToken 0 1)) none, .authenticate 0 (some ⟨1, 0⟩),
    .authenticate 0 (some ⟨1, 0⟩),
    .limit 0 (some (2, 2))] ++ (runs 0 9 60).map .service ++
  [.arrive (.pay 60 70) (some (createAccessToken 0 1)) none,
    .authenticate 1 (some ⟨1, 0⟩), .authenticate 1 (some ⟨1, 0⟩),
    .limit 1 none] ++ (runs 1 9 80).map .service

/-- Every token that is presented was issued. -/
def Server.presentsIssued (σ : Server (Option Claims)) : ServerAct (Option Claims) → Bool
  | .auth a => Railbook.presentsIssued σ.auth a
  | .authRoute q _ _ => Railbook.presentsIssued σ.auth (.request q)
  | .arrive _ token _ => Railbook.presentsIssued σ.auth (.request (.current token false))
  | _ => true

theorem Server.presents_of_issued {σ : Server (Option Claims)} {a : ServerAct (Option Claims)}
    (h : σ.presentsIssued a = true) :
    σ.Presents plainJwt a := by
  cases a with
  | auth a => exact Railbook.presents_of_issued h
  | authRoute q host time => exact Railbook.presents_of_issued h
  | arrive route token ipAddress => exact Railbook.presents_of_issued (a := .request (.current token false)) h
  | _ => trivial

theorem server_authorized_paid : ∃ σ : Server (Option Claims), ∃ p ∈ σ.service.db.payments, ∃ b ∈ σ.service.db.bookings,
    b.id = p.bookingId ∧ ∃ r ∈ σ.requests, r.ServedFor plainBcrypt σ b.userId ∧
      r.route = .pay p.bookingId p.idempotencyKey := by
  have hrun : (exec (serverStep sampleCatalog plainJwt plainBcrypt toString)
      sampleServer authorizedRun).any
        (fun σ : Server (Option Claims) => !σ.service.db.payments.isEmpty) = true := by decide +kernel
  have along : Along (serverStep sampleCatalog plainJwt plainBcrypt toString)
      (fun (σ : Server (Option Claims)) a => σ.presentsIssued a = true)
      sampleServer authorizedRun := by
    decide +kernel
  obtain ⟨σ, run, htest⟩ := (Option.any_eq_true _ _).mp hrun
  obtain ⟨p, hp⟩ := List.exists_mem_of_ne_nil σ.service.db.payments fun hnil => by simp [hnil] at htest
  exact ⟨σ, p, hp, (server_authorized
    (Reach.exec (.start ⟨0, rfl⟩) (along.mono fun _ _ h => Server.presents_of_issued h) run)).2.2 p hp⟩

end Railbook
