import Railbook.Server.Authority

/-! What the rate limiter is worth to the routes behind it. Each route has its limit and each user or address its
    key, so the requests that one of them gets past the limiter in a window are among the calls of one key that
    were allowed. -/

namespace Railbook
open Transition

/-- The limits of the routes. -/
def rateLimits : List RateLimit := [rateLimitBooking, rateLimitPayment, rateLimitAuth]

/-- The call of the limiter that let the request pass. -/
def Stage.call : Stage → Option CheckCall
  | handle _ call => call
  | _ => none

/-- How many requests and logins the limiter has let pass in the window `(t - W, t]` of a key. -/
def Server.admitted {Token : Type} (σ : Server Token) (key : String) (windowSeconds : Int) (t : ℚ) : Nat :=
  σ.requests.countP (fun r => r.stage.call.any (·.isWithin key windowSeconds t)) +
    σ.logins.countP fun x => x.2.any (·.isWithin key windowSeconds t)

/-- The request is one of the user on a route with the limit, and passed the limiter in the window `(t - W, t]`. -/
def Server.hasPassed {Token : Type} (σ : Server Token) (l : RateLimit) (userId : Uuid) (t : ℚ)
    (r : HttpRequest Token) : Bool :=
  decide (r.route.limit = l) && ((σ.auth.userOf r).any (·.id = userId) &&
    r.stage.call.any fun c => decide (t - l.windowSeconds < c.now) && decide (c.now ≤ t))

/-- A route of `app/auth/router.py` opened the session. -/
def AuthTask.isLimited {Token : Type} : AuthTask Token → Bool
  | .current _ _ _ => false
  | _ => true

/-- A request that asks the limiter has its user, and asks under the key of this user; and each login has asked. -/
structure Gated {Token : Type} (uuidText : Uuid → String) (σ : Server Token) : Prop where
  requests : ∀ r ∈ σ.requests, r.stage.session ≠ none → ∃ user, σ.auth.userOf r = some user ∧
    ∀ c, r.stage.call = some c → c.key = r.route.limit.keyPrefix ++ uuidText user.id
  logins : ∀ (j : Sid) t, σ.auth.sessions[j]? = some t → t.isLimited = true → ∃ x ∈ σ.logins, x.1 = j

/-- What got past the limiter against the calls of the limiter, on the keys that are there at first. -/
structure LimitInv {Token : Type} (redis : Keyspace) (σ : Server Token) : Prop where
  after : σ.limits.redis = RateLimiter.after redis σ.limits.calls
  calls : ∀ c ∈ σ.limits.calls, ∃ l ∈ rateLimits, ∃ subject, c = l.call subject c.now c.clock
  counted : ∀ key windowSeconds t,
    σ.admitted key windowSeconds t ≤ allowedCount (RateLimiter.answers redis σ.limits.calls) key windowSeconds t
  bounded : ∀ l ∈ rateLimits, ∀ subject t,
    CheckCall.InTime l.windowSeconds (CheckCall.on (l.keyPrefix ++ subject) σ.limits.calls) →
      (σ.admitted (l.keyPrefix ++ subject) l.windowSeconds t : Int) ≤ l.limit

section
variable {Token : Type} {cat : Catalog} {jwt : Jwt Token} {bcrypt : Bcrypt} {uuidText : Uuid → String}
  {redis : Keyspace} {σ τ : Server Token} {l l' : RateLimit} {subject subject' : String} {c : CheckCall}

/-! ### Keys -/

/-- No two limits share a key. -/
theorem rateLimit_of_key (hl : l ∈ rateLimits) (hl' : l' ∈ rateLimits)
    (h : l.keyPrefix ++ subject = l'.keyPrefix ++ subject') :
    l = l' := by
  have h := congrArg String.toList h
  rw [String.toList_append, String.toList_append] at h
  simp only [rateLimits, List.mem_cons, List.not_mem_nil, or_false] at hl hl'
  rcases hl with rfl | rfl | rfl <;> rcases hl' with rfl | rfl | rfl <;>
    simp [rateLimitBooking, rateLimitPayment, rateLimitAuth] at h ⊢

theorem Route.limit_mem (route : Route) : route.limit ∈ rateLimits := by
  cases route <;> simp [Route.limit, rateLimits]

theorem rateLimit_window_pos (hl : l ∈ rateLimits) : 0 < l.windowSeconds := by
  simp only [rateLimits, List.mem_cons, List.not_mem_nil, or_false] at hl
  rcases hl with rfl | rfl | rfl <;> decide

theorem rateLimit_nonneg (hl : l ∈ rateLimits) : 0 ≤ l.limit := by
  simp only [rateLimits, List.mem_cons, List.not_mem_nil, or_false] at hl
  rcases hl with rfl | rfl | rfl <;> decide

/-! ### Calls in order -/

theorem spares_of_sorted {windowSeconds : Int} {s gone : ℚ} {later : List CheckCall}
    (hclock : ∀ m ∈ later, m.clock = m.now) (hfrom : ∀ m ∈ later, s ≤ m.now)
    (hto : ∀ m ∈ later, m.now < s + windowSeconds) (hgone : s + windowSeconds ≤ gone) :
    Spares windowSeconds s gone later := by
  induction later generalizing gone with
  | nil => trivial
  | cons m later ih =>
    obtain ⟨hm, hclock⟩ := List.forall_mem_cons.mp hclock
    obtain ⟨hsm, hfrom⟩ := List.forall_mem_cons.mp hfrom
    obtain ⟨hmW, hto⟩ := List.forall_mem_cons.mp hto
    refine ⟨hm ▸ (hmW.trans_le hgone).le, hmW, ih hclock hfrom hto ?_⟩
    rw [hm]
    linarith

/-- Calls at increasing times of one clock are in time. -/
theorem InOrder.inTime {key : String} {windowSeconds : Int} {calls : List CheckCall}
    (h : InOrder key windowSeconds calls) :
    CheckCall.InTime windowSeconds (CheckCall.on key calls) := by
  intro pre c mid d post hsplit near
  have increasing := h.increasing
  have clock := h.clock
  rw [hsplit] at increasing clock
  rw [List.map_append, List.pairwise_append, List.map_cons, List.pairwise_cons, List.map_append, List.pairwise_append,
    List.map_cons]
    at increasing
  obtain ⟨-, ⟨hc, -, -, hd⟩, -⟩ := increasing
  have hcd : c.now < d.now := hc d.now (by simp)
  have hto : d.now < c.now + windowSeconds := by
    rw [abs_sub_comm] at near
    linarith [le_abs_self (d.now - c.now)]
  refine ⟨ne_of_lt hcd, spares_of_sorted (fun m hm => clock m ?_) (fun m hm => ?_) (fun m hm => ?_) ?_⟩
  · rcases List.mem_append.mp hm with hm | hm <;> simp_all
  · rcases List.mem_append.mp hm with hm | hm
    · exact (hc m.now (List.mem_append_left _ (List.mem_map_of_mem hm))).le
    · exact List.mem_singleton.mp hm ▸ hcd.le
  · rcases List.mem_append.mp hm with hm | hm
    · exact (hd m.now (List.mem_map_of_mem hm) d.now (List.mem_cons_self ..)).trans hto
    · exact List.mem_singleton.mp hm ▸ hto
  · rw [clock c (by simp)]

/-! ### One call -/

/-- Without Redis a check lets everything pass and leaves nothing; with it, it is a call of the limiter. -/
theorem Limits.check_cases {σ limits : Limits} {time : Option (ℚ × ℚ)}
    {answer : Except (HTTPException × Headers) Headers} {call : Option CheckCall}
    (h : σ.check l subject time = (answer, call, limits)) : (call = none ∧ limits = σ) ∨
      ∃ now clock, call = some (l.call subject now clock) ∧ limits.calls = σ.calls ++ [l.call subject now clock] ∧
        limits.redis = (RateLimiter.check σ.redis (l.call subject now clock)).2 ∧
          answer = l.depends (RateLimiter.check σ.redis (l.call subject now clock)).1 := by
  cases time with
  | none =>
    cases h
    exact Or.inl ⟨rfl, rfl⟩
  | some time =>
    cases h
    exact Or.inr ⟨time.1, time.2, rfl, rfl, rfl, rfl⟩

/-- A call that is allowed within a window leaves the window within the limit. -/
theorem LimitInv.allowed_le (h : LimitInv redis σ) (hl : l ∈ rateLimits) {t now clock : ℚ} {l' : RateLimit}
    (hl' : l' ∈ rateLimits) (hc : c = l'.call subject' now clock)
    (inTime : CheckCall.InTime l.windowSeconds (CheckCall.on (l.keyPrefix ++ subject) (σ.limits.calls ++ [c])))
    (hwithin : c.isWithin (l.keyPrefix ++ subject) l.windowSeconds t = true)
    (hallowed : (RateLimiter.check σ.limits.redis c).1.allowed = true) :
    (σ.admitted (l.keyPrefix ++ subject) l.windowSeconds t : Int) + 1 ≤ l.limit := by
  have hkey : c.key = l.keyPrefix ++ subject := key_of_isWithin hwithin
  obtain rfl : l' = l := by
    rw [hc] at hkey
    exact rateLimit_of_key hl' hl hkey
  have hwindow : ∀ m ∈ CheckCall.on (l'.keyPrefix ++ subject) (σ.limits.calls ++ [c]), m.windowSeconds =
    l'.windowSeconds := by
    intro m hm
    obtain ⟨hm, hkey⟩ := List.mem_filter.mp hm
    obtain ⟨l, hl, s, hcall⟩ : ∃ l ∈ rateLimits, ∃ s, m = l.call s m.now m.clock := by
      rcases List.mem_append.mp hm with hm | hm
      · exact h.calls m hm
      · rw [List.mem_singleton.mp hm]
        exact ⟨l', hl', subject', hc ▸ rfl⟩
    rw [hcall] at hkey ⊢
    rw [← rateLimit_of_key hl hl' (of_decide_eq_true hkey)]
    rfl
  have hcount : allowedCount (RateLimiter.answers redis σ.limits.calls)
    (l'.keyPrefix ++ subject) l'.windowSeconds t + 1 ≤
      (c.pipeline (RateLimiter.after redis σ.limits.calls (l'.keyPrefix ++ subject))).1 :=
    inTime.count_le hwindow (rateLimit_window_pos hl) hwithin
  rw [h.after, RateLimiter.check_answer, hkey, RateLimitResult.allowed_of] at hallowed
  have hlimit : c.limit = l'.limit := by rw [hc]; rfl
  have hcounted := h.counted (l'.keyPrefix ++ subject) l'.windowSeconds t
  omega

theorem LimitInv.congr (h : LimitInv redis σ) (hlimits : τ.limits = σ.limits)
    (hadmitted : ∀ key windowSeconds t, τ.admitted key windowSeconds t = σ.admitted key windowSeconds t) :
    LimitInv redis τ where
  after := by rw [hlimits]; exact h.after
  calls := by rw [hlimits]; exact h.calls
  counted key windowSeconds t := by rw [hlimits, hadmitted]; exact h.counted key windowSeconds t
  bounded l hl subject t inTime := by
    rw [hadmitted]
    exact h.bounded l hl subject t (hlimits ▸ inTime)

theorem on_init {key : String} {windowSeconds : Int} {calls : List CheckCall}
    (h : CheckCall.InTime windowSeconds (CheckCall.on key (calls ++ [c]))) :
    CheckCall.InTime windowSeconds (CheckCall.on key calls) := by
  by_cases hkey : c.key = key
  · rw [CheckCall.on_snoc_self hkey] at h
    exact h.dropLast
  · rwa [CheckCall.on_snoc_ne hkey] at h

/-- What the limiter lets pass. -/
def passed (answer : Except (HTTPException × Headers) Headers) (call : Option CheckCall) : Option CheckCall :=
  (Stage.next 0 call answer).call

/-- A check: it lets pass what it allows. -/
theorem LimitInv.check (h : LimitInv redis σ) (hl : l ∈ rateLimits) {time : Option (ℚ × ℚ)}
    {answer : Except (HTTPException × Headers) Headers} {call : Option CheckCall}
    (hcheck : σ.limits.check l subject time = (answer, call, τ.limits))
    (hadmitted : ∀ key windowSeconds t, τ.admitted key windowSeconds t =
      σ.admitted key windowSeconds t + if (passed answer call).any (·.isWithin key windowSeconds t) then 1 else 0) :
    LimitInv redis τ := by
  rcases Limits.check_cases hcheck with ⟨rfl, hlimits⟩ | ⟨now, clock, rfl, hcalls, hredis, hanswer⟩
  · refine h.congr hlimits fun key windowSeconds t => ?_
    rw [hadmitted]
    cases answer <;> rfl
  · have hallowed : ∀ {key windowSeconds t}, (passed answer (some (l.call subject now clock))).any
      (·.isWithin key windowSeconds t) = true →
        (RateLimiter.check σ.limits.redis (l.call subject now clock)).1.allowed = true ∧
          (l.call subject now clock).isWithin key windowSeconds t = true := by
      intro key windowSeconds t hany
      cases answer with
      | error e => cases hany
      | ok headers =>
        refine ⟨?_, hany⟩
        by_contra hno
        obtain ⟨e, he⟩ := RateLimit.depends_error_iff.mpr (Bool.not_eq_true _ ▸ hno)
        rw [← hanswer] at he
        cases he
    constructor
    case after => rw [hredis, hcalls, RateLimiter.after_snoc, h.after]
    case calls =>
      intro c hc
      rw [hcalls] at hc
      rcases List.mem_append.mp hc with hc | hc
      · exact h.calls c hc
      · rw [List.mem_singleton.mp hc]
        exact ⟨l, hl, subject, rfl⟩
    case counted =>
      intro key windowSeconds t
      have hcounted := h.counted key windowSeconds t
      rw [hadmitted, hcalls, RateLimiter.answers_snoc, allowedCount, List.countP_append,
        List.countP_singleton, ← h.after]
      rw [allowedCount] at hcounted
      split
      · rename_i hany
        obtain ⟨hok, hwithin⟩ := hallowed hany
        rw [if_pos (Bool.and_eq_true_iff.mpr ⟨hok, hwithin⟩)]
        omega
      · omega
    case bounded =>
      intro l' hl' subject' t inTime
      rw [hcalls] at inTime
      rw [hadmitted]
      split
      · rename_i hany
        obtain ⟨hok, hwithin⟩ := hallowed hany
        have hle := h.allowed_le hl' hl rfl inTime hwithin hok
        push_cast
        exact hle
      · exact_mod_cast h.bounded l' hl' subject' t (on_init inTime)

theorem Stage.call_of_session {stage : Stage} (h : stage.session = none) : stage.call = none := by
  cases stage <;> first | rfl | cases h

/-- A request that has not passed the limiter goes on to another stage. -/
theorem admitted_set {requests : List (HttpRequest Token)} {n : Nat} {r r' : HttpRequest Token}
    (hr : requests[n]? = some r) (hcall : r.stage.call = none) (key : String) (windowSeconds : Int) (t : ℚ) :
    (requests.set n r').countP (fun r => r.stage.call.any (·.isWithin key windowSeconds t)) =
      requests.countP (fun r => r.stage.call.any (·.isWithin key windowSeconds t)) +
        if r'.stage.call.any (·.isWithin key windowSeconds t) then 1 else 0 := by
  obtain ⟨hlen, hget⟩ := List.getElem?_eq_some_iff.mp hr
  rw [List.countP_set hlen, hget, hcall]
  rfl

theorem LimitInv.step (h : LimitInv redis σ) (gated : Gated uuidText σ) {a : ServerAct Token}
    (hstep : serverStep cat jwt bcrypt uuidText σ a = some τ) : LimitInv redis τ := by
  cases serverStep_stepped hstep with
  | auth ha hauth => exact h.congr rfl fun _ _ _ => rfl
  | refused hcheck => exact h.check (by simp [rateLimits]) hcheck fun _ _ _ => rfl
  | opened hcheck hauth =>
    refine h.check (by simp [rateLimits]) hcheck fun key windowSeconds t => ?_
    rw [Server.admitted, Server.admitted, List.countP_append, List.countP_singleton, Nat.add_assoc]
    rfl
  | arrived hauth =>
    refine h.congr rfl fun key windowSeconds t => ?_
    rw [Server.admitted, Server.admitted, List.countP_append, List.countP_singleton]
    rfl
  | unknown hr hauth huser => exact h.congr rfl fun _ _ _ => rfl
  | @known n c r auth user service hr hauth huser hservice =>
    have hcall : r.stage.call = none := by
      refine Stage.call_of_session (by_contra fun hne => ?_)
      obtain ⟨user, hknown, -⟩ := gated.requests r (List.mem_of_getElem? hr) hne
      rw [userOf_none hauth] at hknown
      cases hknown
    refine h.congr rfl fun key windowSeconds t => ?_
    rw [Server.admitted, admitted_set hr hcall]
    rfl
  | @limited n time r user i answer call limits hr huser hstage hcheck =>
    refine h.check r.route.limit_mem hcheck fun key windowSeconds t => ?_
    have hnext : (Stage.next i call answer).call = passed answer call := by cases answer <;> rfl
    rw [Server.admitted, admitted_set hr (by rw [hstage]; rfl), hnext, Nat.add_right_comm]
    rfl
  | service ha hservice => exact h.congr rfl fun _ _ _ => rfl
  | tick hauth hservice => exact h.congr rfl fun _ _ _ => rfl

/-! ### Who asks the limiter -/

/-- A statement leaves a request on its route. -/
theorem authStatement_isLimited {σ : AuthState Token} {x : AuthChoice} {t t' : AuthTask Token} {eff : AuthEffect}
    (h : authStatement jwt bcrypt σ x t = some (eff, t')) : t'.isLimited = t.isLimited := by
  cases t with
  | register q pc =>
    cases pc with
    | find =>
      simp only [authStatement] at h
      split at h <;> cases h <;> rfl
    | insert hash =>
      simp only [authStatement] at h
      split at h
      · cases h
        rfl
      · split at h <;> cases h <;> rfl
    | refresh account =>
      cases h
      rfl
    | finished answer => cases h
  | login q pc =>
    cases pc with
    | find =>
      simp only [authStatement] at h
      split at h <;> cases h <;> rfl
    | finished answer => cases h
  | refresh token pc =>
    cases pc with
    | decode =>
      simp only [authStatement] at h
      split at h <;> cases h <;> rfl
    | find userId decodedAt =>
      simp only [authStatement] at h
      split at h <;> cases h <;> rfl
    | finished answer decodedAt => cases h
  | current token admin pc =>
    cases pc with
    | decode =>
      simp only [authStatement] at h
      split at h <;> cases h <;> rfl
    | find userId decodedAt =>
      simp only [authStatement] at h
      split at h <;> cases h <;> rfl
    | finished answer decodedAt => cases h

theorem AuthTask.raise_isLimited {t t' : AuthTask Token} (h : t.raise = some t') : t'.isLimited = t.isLimited := by
  cases t with
  | register q pc => cases pc <;> cases h <;> rfl
  | login q pc =>
    cases pc <;> cases h
    rfl
  | refresh token pc =>
    cases pc <;> cases h
    rfl
  | current token admin pc =>
    cases pc <;> cases h
    rfl

/-- A session of authentication is one that was there, or it has just begun. -/
theorem auth_session_cases {σ τ : AuthState Token} {a : AuthAct Token} {j : Sid} {t : AuthTask Token}
    (hstep : authStep jwt bcrypt σ a = some τ) (hs : τ.sessions[j]? = some t) :
    (∃ t₀, σ.sessions[j]? = some t₀ ∧ t.isLimited = t₀.isLimited) ∨ ∃ q, a = .request q ∧ j = σ.sessions.length ∧
      t = q.task := by
  have moved : ∀ {i : Sid} {u u' : AuthTask Token} {eff : AuthEffect}, σ.sessions[i]? = some u →
    u'.isLimited = u.isLimited →
      ((σ.perform jwt i eff).goto i u').sessions[j]? = some t → ∃ t₀, σ.sessions[j]? = some t₀ ∧
      t.isLimited = t₀.isLimited := by
    intro i u u' eff hu hlimited hs
    rw [AuthState.goto, AuthState.perform_sessions, List.getElem?_set] at hs
    split at hs
    · rename_i hij
      split at hs
      · cases hs
        exact ⟨u, hij ▸ hu, hlimited⟩
      · cases hs
    · exact ⟨t, hs, rfl⟩
  cases authStep_stepped hstep with
  | request q =>
    rcases getElem?_snoc σ.sessions q.task j with hj | ⟨hnone, hj⟩
    · exact Or.inl ⟨t, hj.symm.trans hs, rfl⟩
    · have hlt := (List.getElem?_eq_some_iff.mp hs).1
      rw [List.length_append, List.length_singleton] at hlt
      exact Or.inr ⟨q, rfl, Nat.le_antisymm (Nat.le_of_lt_succ hlt) (List.getElem?_eq_none_iff.mp hnone),
        Option.some.inj (hs.symm.trans hj)⟩
  | run hu hc m => exact Or.inl (moved hu (authStatement_isLimited hc) hs)
  | raise hu hr m => exact Or.inl (moved hu (AuthTask.raise_isLimited hr) hs)
  | tick d => exact Or.inl ⟨t, hs, rfl⟩

/-- Authentication goes on, on no new route with the dependency. -/
theorem Gated.auth_step (h : Gated uuidText σ) {a : AuthAct Token} {auth : AuthState Token}
    (hstep : authStep jwt bcrypt σ.auth a = some auth) (hfree : ∀ q, a = .request q → q.task.isLimited = false)
    (service : State) :
    Gated uuidText { σ with auth := auth, service := service } where
  requests r hr hne := by
    obtain ⟨user, huser, hkey⟩ := h.requests r hr hne
    exact ⟨user, userOf_step hstep huser, hkey⟩
  logins j t hs hlimited := by
    rcases auth_session_cases hstep hs with ⟨t₀, hold, heq⟩ | ⟨q, rfl, -, rfl⟩
    · exact h.logins j t₀ hold (heq ▸ hlimited)
    · rw [hfree q rfl] at hlimited
      cases hlimited

/-- A request goes on to another stage. -/
theorem Gated.set (h : Gated uuidText σ) {n : Nat} {r : HttpRequest Token} {user : Account} {stage : Stage}
    (huser : σ.auth.userOf r = some user)
    (hkey : ∀ c, stage.call = some c → c.key = r.route.limit.keyPrefix ++ uuidText user.id) (service : State)
    (limits : Limits) :
    Gated uuidText { σ with
      service := service
      limits := limits
      requests := σ.requests.set n { r with stage := stage } } where
  requests x hx hne := by
    rcases List.mem_or_eq_of_mem_set hx with hx | rfl
    · exact h.requests x hx hne
    · exact ⟨user, huser, hkey⟩
  logins := h.logins

theorem Gated.step (h : Gated uuidText σ) {a : ServerAct Token}
    (hstep : serverStep cat jwt bcrypt uuidText σ a = some τ) :
    Gated uuidText τ := by
  have own : ∀ {r : HttpRequest Token} (c : Option AuthChoice) (q : AuthRequest Token),
      c.elim (.raise r.auth) (.run r.auth) = AuthAct.request q → q.task.isLimited = false := by
    intro r c q hc
    cases c <;> cases hc
  cases serverStep_stepped hstep with
  | @auth a auth ha hauth =>
    refine h.auth_step hauth (fun q hq => ?_) σ.service
    subst hq
    cases q with
    | current token admin => rfl
    | _ => cases ha
  | refused hcheck => exact ⟨h.requests, h.logins⟩
  | @opened q host time headers call limits auth hcheck hauth =>
    refine ⟨fun r hr hne => ?_, fun j t hs hlimited => ?_⟩
    · obtain ⟨user, huser, hkey⟩ := h.requests r hr hne
      exact ⟨user, userOf_step hauth huser, hkey⟩
    · rcases auth_session_cases hauth hs with ⟨t₀, hold, heq⟩ | ⟨-, -, rfl, -⟩
      · obtain ⟨x, hx, hj⟩ := h.logins j t₀ hold (heq ▸ hlimited)
        exact ⟨x, List.mem_append_left _ hx, hj⟩
      · exact ⟨_, List.mem_append_right _ (List.mem_singleton_self _), rfl⟩
  | arrived hauth =>
    have gated := h.auth_step hauth (fun q hq => by cases hq; rfl) σ.service
    refine ⟨fun r hr hne => ?_, gated.logins⟩
    rcases List.mem_append.mp hr with hr | hr
    · exact gated.requests r hr hne
    · rw [List.mem_singleton.mp hr] at hne
      exact absurd rfl hne
  | unknown hr hauth huser => exact h.auth_step hauth (own _) σ.service
  | known hr hauth huser hservice =>
    exact (h.auth_step hauth (own _) σ.service).set huser (fun c hc => by cases hc) _ σ.limits
  | @limited n time r user i answer call limits hr huser hstage hcheck =>
    refine h.set huser (fun c hc => ?_) σ.service limits
    cases answer with
    | error e => cases hc
    | ok headers =>
      cases hc
      rcases Limits.check_cases hcheck with ⟨hnone, -⟩ | ⟨now, clock, hcall, -⟩
      · cases hnone
      · cases hcall
        rfl
  | service ha hservice => exact ⟨h.requests, h.logins⟩
  | tick hauth hservice => exact h.auth_step hauth nofun _

/-! ### The limits -/

/-- The requests of a user that passed a limit did so under the key of the user. -/
theorem Gated.countP_le (h : Gated uuidText σ) (l : RateLimit) (userId : Uuid) (t : ℚ) :
    σ.requests.countP (σ.hasPassed l userId t) ≤
    σ.requests.countP fun r => r.stage.call.any (·.isWithin (l.keyPrefix ++ uuidText userId) l.windowSeconds t) := by
  refine List.countP_mono_left fun r hr hpass => ?_
  simp only [Server.hasPassed, Bool.and_eq_true, decide_eq_true_eq, Option.any_eq_true] at hpass
  obtain ⟨hlimit, ⟨user, huser, hid⟩, c, hc, hlo, hhi⟩ := hpass
  obtain ⟨user', huser', hkey⟩ := h.requests r hr fun hnone => by
    rw [Stage.call_of_session hnone] at hc
    cases hc
  cases huser.symm.trans huser'
  have hwithin : c.isWithin (l.keyPrefix ++ uuidText userId) l.windowSeconds t = true := by
    simp only [CheckCall.isWithin, Bool.and_eq_true, decide_eq_true_eq]
    exact ⟨by rw [hkey c hc, hlimit, hid], hlo, hhi⟩
  exact (Option.any_eq_true _ _).mpr ⟨c, hc, hwithin⟩

theorem limited_of_reach (h : Reach (serverStep cat jwt bcrypt uuidText) (fun _ _ => True)
    (fun σ => ∃ accounts now, σ = .start accounts redis now) σ) : Gated uuidText σ ∧ LimitInv redis σ := by
  refine h.invariant (I := fun σ => Gated uuidText σ ∧ LimitInv redis σ) ?_ fun σ a τ _ inv _ hstep =>
    ⟨inv.1.step hstep, inv.2.step inv.1 hstep⟩
  rintro σ ⟨accounts, now, rfl⟩
  refine ⟨⟨fun r hr => ?_, fun j t hs => ?_⟩, rfl, fun c hc => ?_, fun _ _ _ => Nat.zero_le _, fun l hl _ _ _ => ?_⟩
  · cases hr
  · cases hs
  · cases hc
  · exact Int.le_trans (le_of_eq rfl) (rateLimit_nonneg hl)

/-- However the steps of all requests interleave: in every window at most as many requests of a user pass the limiter
    of their route as its limit says, and at most ten logins of an address, provided that the calls of the limiter on
    the key are in time. Nobody registers, logs in or refreshes who is not counted. -/
theorem server_limits (h : Reach (serverStep cat jwt bcrypt uuidText) (fun _ _ => True)
    (fun σ => ∃ accounts now, σ = .start accounts redis now) σ) :
    (∀ (route : Route) userId t,
      CheckCall.InTime route.limit.windowSeconds
        (CheckCall.on (route.limit.keyPrefix ++ uuidText userId) σ.limits.calls) →
        (σ.requests.countP (σ.hasPassed route.limit userId t) : Int) ≤ route.limit.limit) ∧
    (∀ host t, CheckCall.InTime 300 (CheckCall.on ("rl:auth:" ++ host) σ.limits.calls) →
      (σ.logins.countP fun x => x.2.any (·.isWithin ("rl:auth:" ++ host) 300 t)) ≤ 10) ∧
    ∀ (j : Sid) task, σ.auth.sessions[j]? = some task → task.isLimited = true → ∃ x ∈ σ.logins, x.1 = j := by
  obtain ⟨gated, inv⟩ := limited_of_reach h
  refine ⟨fun route userId t inTime => ?_, fun host t inTime => ?_, gated.logins⟩
  · have hbound := inv.bounded route.limit route.limit_mem (uuidText userId) t inTime
    have hle := gated.countP_le route.limit userId t
    rw [Server.admitted] at hbound
    omega
  · have hbound : (σ.admitted ("rl:auth:" ++ host) 300 t : Int) ≤ 10 :=
      inv.bounded rateLimitAuth (by simp [rateLimits]) host t inTime
    rw [Server.admitted] at hbound
    omega

end

/-- User 1 logs in, and asks for a refund four times in as many seconds. The last one is one too many. -/
def limitedRun : List (ServerAct (Option Claims)) :=
  [.authRoute (.login ⟨"alice@example.com", "password123"⟩) none (some (1, 1)), .auth (.run 0 ⟨1, 0⟩)] ++
    (List.range 4).flatMap fun n => [.arrive (.refund 60) (some (createAccessToken 0 1)) none,
      .authenticate n (some ⟨1, 0⟩),
      .authenticate n (some ⟨1, 0⟩), .limit n (some (n + 2, n + 2))]

theorem server_limits_refund : ∃ σ : Server (Option Claims),
    (σ.requests.countP (σ.hasPassed (Route.refund 60).limit 1 5) : Int) ≤ (Route.refund 60).limit.limit ∧
      σ.requests.countP (σ.hasPassed (Route.refund 60).limit 1 5) = 3 ∧ σ.requests.length = 4 := by
  have hrun : (exec (serverStep sampleCatalog plainJwt plainBcrypt toString)
      sampleServer limitedRun).any
        (fun σ : Server (Option Claims) => decide (σ.requests.countP (σ.hasPassed (Route.refund 60).limit 1 5) = 3) &&
          (decide (σ.requests.length = 4) &&
            decide (CheckCall.on "rl:payment:1" σ.limits.calls = [⟨"rl:payment:1", 3, 60, 2, 2⟩,
              ⟨"rl:payment:1", 3, 60, 3, 3⟩,
              ⟨"rl:payment:1", 3, 60, 4, 4⟩, ⟨"rl:payment:1", 3, 60, 5, 5⟩]))) = true := by decide +kernel
  obtain ⟨σ, run, htest⟩ := (Option.any_eq_true _ _).mp hrun
  simp only [Bool.and_eq_true, decide_eq_true_eq] at htest
  obtain ⟨hcount, hlen, hcalls⟩ := htest
  have inOrder : InOrder "rl:payment:1" 60 σ.limits.calls := by
    constructor <;> rw [hcalls] <;> decide +kernel
  have reached : Reach (serverStep sampleCatalog plainJwt plainBcrypt toString) (fun _ _ => True)
      (fun s => ∃ accounts now, s = .start accounts (fun _ => none) now) σ :=
    Reach.exec (.start ⟨_, 0, rfl⟩) (along_of_forall fun _ _ => trivial) run
  exact ⟨σ, (server_limits reached).1 (.refund 60) 1 5 inOrder.inTime, hcount, hlen⟩

end Railbook
