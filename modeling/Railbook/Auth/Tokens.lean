import Railbook.Auth.Service

/-! Where tokens come from. Every token that the service issued leads back, through the refresh tokens that it
    was issued for, to a register or a login of its user; and the two kinds of token are told apart by whoever
    accepts one. -/

namespace Railbook
open Transition

section
variable {Token : Type}

/-- The token was issued, or no decoding accepts it. -/
def AuthState.Knows (jwt : Jwt Token) (σ : AuthState Token) (token : Token) : Prop :=
  (∃ r ∈ σ.issued, r.token = token) ∨ ∀ now, ∃ e, jwt.decode now token = .error e

/-- Every token that is presented was issued before, or fails its verification. -/
def Presents (jwt : Jwt Token) (σ : AuthState Token) : AuthAct Token → Prop
  | .request (.refresh token) | .request (.current token _) => σ.Knows jwt token
  | _ => True

/-- The token was issued to the user, by a chain of refreshes that begins at a register or a login of the user:
    the first one created the account, or knew its password, and each refresh presented a refresh token that had
    not expired. -/
inductive Chain (bcrypt : Bcrypt) (σ : AuthState Token) : Uuid → Issued Token → Prop
  | register {r : Issued Token} {q : RegisterRequest} {a : Account} (hr : r ∈ σ.issued)
      (hs : σ.sessions[r.session]? = some (.register q (.finished (.ok a)))) (ha : a ∈ σ.accounts)
      (email : a.email = q.email) :
    Chain bcrypt σ a.id r
  | login {r : Issued Token} {q : LoginRequest} {a : Account} (hr : r ∈ σ.issued)
      (hs : σ.sessions[r.session]? = some (.login q (.finished (.ok a)))) (ha : a ∈ σ.accounts)
      (email : a.email = q.email) (password : bcrypt.checkpw q.password a.passwordHash = some true) :
    Chain bcrypt σ a.id r
  | refresh {r r' : Issued Token} {a : Account} {decodedAt : Time} (hr : r ∈ σ.issued)
      (hs : σ.sessions[r.session]? = some (.refresh r'.token (.finished (.ok a) decodedAt)))
      (type : r'.claims.type = some "refresh") (unexpired : decodedAt < r'.claims.exp)
      (chain : Chain bcrypt σ a.id r') :
    Chain bcrypt σ a.id r

/-- At the time it was decoded, the token was an unexpired one of this type for the user, with its chain. -/
def Accepted (bcrypt : Bcrypt) (σ : AuthState Token) (type : String) (token : Token) (userId : Uuid)
    (decodedAt : Time) : Prop :=
  ∃ r ∈ σ.issued, r.token = token ∧ r.claims.type = some type ∧ r.claims.sub = some (.uuid userId) ∧
    decodedAt < r.claims.exp ∧ Chain bcrypt σ userId r

/-- What a session knows at its program counter. -/
def AuthTask.Sound (jwt : Jwt Token) (bcrypt : Bcrypt) (σ : AuthState Token) : AuthTask Token → Prop
  | .register q (.refresh a) => a ∈ σ.accounts ∧ a.email = q.email
  | .refresh token .decode | .current token _ .decode => σ.Knows jwt token
  | .refresh token (.find userId decodedAt) => Accepted bcrypt σ "refresh" token userId decodedAt
  | .refresh token (.finished (.ok a) decodedAt) => Accepted bcrypt σ "refresh" token a.id decodedAt
  | .current token _ (.find userId decodedAt) => Accepted bcrypt σ "access" token userId decodedAt
  | .current token admin (.finished (.ok a) decodedAt) =>
    Accepted bcrypt σ "access" token a.id decodedAt ∧ a ∈ σ.accounts ∧ (admin = true → a.role = "admin")
  | _ => True

/-- The request has been answered. -/
def AuthTask.isFinished : AuthTask Token → Bool
  | .register _ (.finished _) | .login _ (.finished _)
  | .refresh _ (.finished _ _) | .current _ _ (.finished _ _) => true
  | _ => false

/-- The session ended with an error. -/
def AuthTask.isFailed : AuthTask Token → Bool
  | .register _ (.finished (.error _)) | .login _ (.finished (.error _)) | .refresh _ (.finished (.error _) _)
  | .current _ _ (.finished (.error _) _) => true
  | _ => false

/-- What holds in every run that begins with the accounts `seed`. -/
structure AuthInv (jwt : Jwt Token) (bcrypt : Bcrypt) (seed : List Account) (σ : AuthState Token) : Prop where
  accounts : ∃ added, σ.accounts = seed ++ added ∧ ∀ a ∈ added, a.role = "user"
  issued : ∀ r ∈ σ.issued, r.token = jwt.encode r.claims ∧ r.claims.iat < r.claims.exp ∧ r.claims.iat ≤ σ.now
  chains : ∀ r ∈ σ.issued, ∃ userId, r.claims.sub = some (.uuid userId) ∧ Chain bcrypt σ userId r
  sessions : ∀ (i : Sid) (t : AuthTask Token), σ.sessions[i]? = some t → t.Sound jwt bcrypt σ

/-- What the service never takes back. -/
structure AuthState.Grows (σ τ : AuthState Token) : Prop where
  accounts : ∀ a ∈ σ.accounts, a ∈ τ.accounts
  issued : ∀ r ∈ σ.issued, r ∈ τ.issued
  finished : ∀ (i : Sid) (t : AuthTask Token), σ.sessions[i]? = some t → t.isFinished = true → τ.sessions[i]? = some t

end

section
variable {Token : Type} {jwt : Jwt Token} {bcrypt : Bcrypt} {σ τ : AuthState Token} {i : Sid} {t t' : AuthTask Token}
  {e : AuthEffect} {type : String} {token : Token} {userId : Uuid} {decodedAt : Time} {r r' : Issued Token}
  {seed : List Account}

/-! ### What stays -/

theorem Chain.mono (h : Chain bcrypt σ userId r) (g : σ.Grows τ) : Chain bcrypt τ userId r := by
  induction h with
  | register hr hs ha email => exact .register (g.issued _ hr) (g.finished _ _ hs rfl) (g.accounts _ ha) email
  | login hr hs ha email password =>
    exact .login (g.issued _ hr) (g.finished _ _ hs rfl) (g.accounts _ ha) email password
  | refresh hr hs type unexpired _ ih => exact .refresh (g.issued _ hr) (g.finished _ _ hs rfl) type unexpired ih

theorem Accepted.mono (h : Accepted bcrypt σ type token userId decodedAt) (g : σ.Grows τ) :
    Accepted bcrypt τ type token userId decodedAt := by
  obtain ⟨r, hr, htoken, htype, hsub, hexp, chain⟩ := h
  exact ⟨r, g.issued r hr, htoken, htype, hsub, hexp, chain.mono g⟩

theorem AuthState.Knows.mono (h : σ.Knows jwt token) (g : σ.Grows τ) : τ.Knows jwt token :=
  h.imp (fun ⟨r, hr, htoken⟩ => ⟨r, g.issued r hr, htoken⟩) id

theorem AuthTask.Sound.mono (h : t.Sound jwt bcrypt σ) (g : σ.Grows τ) : t.Sound jwt bcrypt τ := by
  cases t with
  | register q pc =>
    cases pc with
    | refresh a => exact ⟨g.accounts a h.1, h.2⟩
    | _ => trivial
  | login q pc => trivial
  | refresh token pc =>
    cases pc with
    | decode => exact AuthState.Knows.mono h g
    | find userId decodedAt => exact Accepted.mono h g
    | finished answer decodedAt =>
      cases answer with
      | error e => trivial
      | ok a => exact Accepted.mono h g
  | current token admin pc =>
    cases pc with
    | decode => exact AuthState.Knows.mono h g
    | find userId decodedAt => exact Accepted.mono h g
    | finished answer decodedAt =>
      cases answer with
      | error e => trivial
      | ok a => exact ⟨h.1.mono g, g.accounts a h.2.1, h.2.2⟩

/-! ### Tokens -/

theorem numericDate_le (t : Time) : numericDate t ≤ t :=
  Int.ediv_mul_le t (by decide)

theorem numericDate_lt {t u : Time} (h : t + 1000000 ≤ u) : numericDate t < numericDate u := by
  have hdiv : (t + 1000000) / 1000000 ≤ u / 1000000 := Int.ediv_le_ediv (by decide) h
  have hone : (t + 1000000) / 1000000 = t / 1000000 + 1 := Int.add_ediv_of_dvd_right (Int.dvd_refl _)
  rw [hone] at hdiv
  exact Int.mul_lt_mul_of_pos_right (Int.lt_of_add_one_le hdiv) (by decide)

theorem mem_tokenResponse {now : Time} (hr : r ∈ tokenResponse jwt now i userId) :
    r.token = jwt.encode r.claims ∧ r.claims.iat < r.claims.exp ∧ r.claims.iat ≤ now ∧
      r.claims.sub = some (.uuid userId) ∧
      r.session = i := by
  simp only [tokenResponse, List.mem_cons, List.not_mem_nil, or_false] at hr
  rcases hr with rfl | rfl
  · exact ⟨rfl, numericDate_lt (Int.add_le_add_left (by decide) now), numericDate_le now, rfl, rfl⟩
  · exact ⟨rfl, numericDate_lt (Int.add_le_add_left (by decide) now), numericDate_le now, rfl, rfl⟩

/-- What a payload says when its user id is accepted. -/
theorem userIdOf_ok {invalid : String} {now : Time} (h : userIdOf jwt type invalid now token = .ok userId) :
    ∃ c, jwt.decode now token = .ok c ∧ c.type = some type ∧ c.sub = some (.uuid userId) := by
  unfold userIdOf at h
  split at h
  · cases h
  · rename_i c hc
    split at h
    · cases h
    · rename_i htype
      split at h
      · rename_i id hsub
        cases h
        exact ⟨c, hc, not_not.mp htype, hsub⟩
      · cases h

/-- A token that is accepted was issued, and has not expired. -/
theorem AuthInv.accepted (inv : AuthInv jwt bcrypt seed σ) {invalid : String} (hk : σ.Knows jwt token)
    (h : userIdOf jwt type invalid σ.now token = .ok userId) : Accepted bcrypt σ type token userId σ.now := by
  obtain ⟨c, hdecode, htype, hsub⟩ := userIdOf_ok h
  rcases hk with ⟨r, hr, rfl⟩ | hbad
  · obtain ⟨htoken, -, hiat⟩ := inv.issued r hr
    rw [htoken, jwt.decode_encode r.claims σ.now hiat] at hdecode
    split at hdecode
    · cases hdecode
    · rename_i hexp
      obtain rfl : r.claims = c := Except.ok.inj hdecode
      obtain ⟨u, hu, chain⟩ := inv.chains r hr
      obtain rfl : u = userId := by
        rw [hsub] at hu
        exact (Sub.uuid.inj (Option.some.inj hu)).symm
      exact ⟨r, hr, rfl, htype, hsub, Int.not_le.mp hexp, chain⟩
  · obtain ⟨e, he⟩ := hbad σ.now
    rw [he] at hdecode
    cases hdecode

theorem AuthInv.rejected (inv : AuthInv jwt bcrypt seed σ) {invalid : String} {now : Time} (hr : r ∈ σ.issued)
    (hne : r.claims.type ≠ some type) (hnow : σ.now ≤ now) : ∃ x, userIdOf jwt type invalid now r.token = .error x := by
  obtain ⟨htoken, -, hiat⟩ := inv.issued r hr
  have hdecode := jwt.decode_encode r.claims now (Int.le_trans hiat hnow)
  cases h : userIdOf jwt type invalid now r.token with
  | error x => exact ⟨x, rfl⟩
  | ok userId =>
    obtain ⟨c, hc, htype, -⟩ := userIdOf_ok h
    rw [htoken, hdecode] at hc
    split at hc
    · cases hc
    · rw [Except.ok.inj hc] at hne
      exact absurd htype hne

/-! ### Steps -/

theorem getUserById_ok {accounts : List Account} {a : Account} (h : getUserById accounts userId = .ok a) :
    a ∈ accounts ∧ a.id = userId := by
  unfold getUserById at h
  split at h
  · cases h
  · cases h
  · rename_i account hfind
    cases h
    simpa using scalarOneOrNone_mem hfind

theorem authenticateUser_ok {accounts : List Account} {q : LoginRequest} {a : Account}
    (h : authenticateUser bcrypt accounts q = .ok a) :
    a ∈ accounts ∧ a.email = q.email ∧ bcrypt.checkpw q.password a.passwordHash = some true := by
  unfold authenticateUser at h
  by_cases htext : isText q.email = true
  case neg =>
    rw [if_neg htext] at h
    cases h
  rw [if_pos htext] at h
  split at h
  · cases h
  · cases h
  · rename_i account hfind
    have ha : account ∈ accounts ∧ account.email = q.email := by simpa using scalarOneOrNone_mem hfind
    split at h
    · cases h
    · cases h
    · rename_i hcheck
      cases h
      exact ⟨ha.1, ha.2, hcheck⟩

theorem requireAdmin_ok {a a' : Account} (h : requireAdmin a = .ok a') : a' = a ∧ a.role = "admin" := by
  unfold requireAdmin at h
  split at h
  · cases h
  · rename_i hrole
    exact ⟨(Except.ok.inj h).symm, not_not.mp hrole⟩

end

/-- What a statement of a session can do. -/
inductive AuthMove {Token : Type} (jwt : Jwt Token) (bcrypt : Bcrypt) (σ : AuthState Token) :
    AuthTask Token → AuthEffect → AuthTask Token → Prop
  | failed {t t' : AuthTask Token} (ht : t.isFinished = false) (h : t'.isFailed = true) :
    AuthMove jwt bcrypt σ t .read t'
  | hashed {q : RegisterRequest} (hash : String) :
    AuthMove jwt bcrypt σ (.register q .find) .read (.register q (.insert hash))
  | inserted {q : RegisterRequest} {hash : String} {id : Uuid}
      (fresh : ∀ a ∈ σ.accounts, a.id ≠ id ∧ a.email ≠ q.email) :
    AuthMove jwt bcrypt σ (.register q (.insert hash)) (.insert (newAccount q id hash))
    (.register q (.refresh (newAccount q id hash)))
  | registered {q : RegisterRequest} {a : Account} :
    AuthMove jwt bcrypt σ (.register q (.refresh a)) (.issue a.id) (.register q (.finished (.ok a)))
  | loggedIn {q : LoginRequest} {a : Account} (ha : a ∈ σ.accounts) (email : a.email = q.email)
    (password : bcrypt.checkpw q.password a.passwordHash = some true) :
    AuthMove jwt bcrypt σ (.login q .find) (.issue a.id) (.login q (.finished (.ok a)))
  | refreshDecoded {token : Token} {userId : Uuid} (h : refreshUserId jwt σ.now token = .ok userId) :
    AuthMove jwt bcrypt σ (.refresh token .decode) .read (.refresh token (.find userId σ.now))
  | refreshed {token : Token} {a : Account} {decodedAt : Time} (ha : a ∈ σ.accounts) :
    AuthMove jwt bcrypt σ (.refresh token (.find a.id decodedAt)) (.issue a.id)
    (.refresh token (.finished (.ok a) decodedAt))
  | currentDecoded {token : Token} {admin : Bool} {userId : Uuid} (h : currentUserId jwt σ.now token = .ok userId) :
    AuthMove jwt bcrypt σ (.current token admin .decode) .read (.current token admin (.find userId σ.now))
  | served {token : Token} {admin : Bool} {a : Account} {decodedAt : Time} (ha : a ∈ σ.accounts)
    (role : admin = true → a.role = "admin") : AuthMove jwt bcrypt σ (.current token admin (.find a.id decodedAt)) .read
      (.current token admin (.finished (.ok a) decodedAt))

/-- The outcomes of a step. -/
inductive AuthStepped {Token : Type} (jwt : Jwt Token) (bcrypt : Bcrypt) (σ : AuthState Token) :
    AuthAct Token → AuthState Token → Prop
  | request (q : AuthRequest Token) :
    AuthStepped jwt bcrypt σ (.request q) { σ with sessions := σ.sessions ++ [q.task] }
  | run {i : Sid} {c : AuthChoice} {t t' : AuthTask Token} {eff : AuthEffect} (hs : σ.sessions[i]? = some t)
      (hc : authStatement jwt bcrypt σ c t = some (eff, t')) (m : AuthMove jwt bcrypt σ t eff t') :
    AuthStepped jwt bcrypt σ (.run i c) ((σ.perform jwt i eff).goto i t')
  | raise {i : Sid} {t t' : AuthTask Token} (hs : σ.sessions[i]? = some t) (hr : t.raise = some t')
      (m : AuthMove jwt bcrypt σ t .read t') : AuthStepped jwt bcrypt σ (.raise i) ((σ.perform jwt i .read).goto i t')
  | tick (d : Nat) : AuthStepped jwt bcrypt σ (.tick d) { σ with now := σ.now + d }

section
variable {Token : Type} {jwt : Jwt Token} {bcrypt : Bcrypt} {σ τ : AuthState Token} {i j : Sid} {t t' : AuthTask Token}
  {eff : AuthEffect} {userId : Uuid} {r : Issued Token} {seed : List Account}

theorem authStatement_move {c : AuthChoice} (h : authStatement jwt bcrypt σ c t = some (eff, t')) :
    AuthMove jwt bcrypt σ t eff t' := by
  unfold authStatement at h
  split at h
  · split at h <;> obtain ⟨rfl, rfl⟩ := h
    · exact .failed rfl rfl
    · exact .hashed _
  · rename_i q hash
    split at h
    · obtain ⟨rfl, rfl⟩ := h
      exact .failed rfl rfl
    split at h <;> obtain ⟨rfl, rfl⟩ := h
    · exact .failed rfl rfl
    · rename_i hfresh
      exact .inserted fun a ha => by simpa using fun h => hfresh (List.any_eq_true.mpr ⟨a, ha, decide_eq_true h⟩)
  · obtain ⟨rfl, rfl⟩ := h
    exact .registered
  · cases h
  · split at h <;> obtain ⟨rfl, rfl⟩ := h
    · exact .failed rfl rfl
    · rename_i a ha
      obtain ⟨ha, email, password⟩ := authenticateUser_ok ha
      exact .loggedIn ha email password
  · cases h
  · split at h <;> obtain ⟨rfl, rfl⟩ := h
    · exact .failed rfl rfl
    · rename_i userId hid
      exact .refreshDecoded hid
  · split at h <;> obtain ⟨rfl, rfl⟩ := h
    · exact .failed rfl rfl
    · rename_i a ha
      obtain ⟨hmem, rfl⟩ := getUserById_ok ha
      exact .refreshed hmem
  · cases h
  · split at h <;> obtain ⟨rfl, rfl⟩ := h
    · exact .failed rfl rfl
    · rename_i userId hid
      exact .currentDecoded hid
  · rename_i token admin id decodedAt
    split at h <;> obtain ⟨rfl, rfl⟩ := h
    · exact .failed rfl rfl
    · rename_i a ha
      obtain ⟨hmem, rfl⟩ := getUserById_ok ha
      cases admin with
      | false => exact .served hmem nofun
      | true =>
        cases hrole : requireAdmin a with
        | error e => exact .failed rfl rfl
        | ok a' =>
          obtain ⟨rfl, role⟩ := requireAdmin_ok hrole
          exact .served hmem fun _ => role
  · cases h

theorem AuthTask.raise_move (h : t.raise = some t') : AuthMove jwt bcrypt σ t .read t' := by
  unfold AuthTask.raise at h
  split at h
  · rename_i q pc
    cases pc <;> cases h
    all_goals exact .failed rfl rfl
  · rename_i q pc
    cases pc <;> cases h
    exact .failed rfl rfl
  · cases h
    exact .failed rfl rfl
  · cases h
    exact .failed rfl rfl
  · cases h

theorem authStep_stepped {a : AuthAct Token} (h : authStep jwt bcrypt σ a = some τ) : AuthStepped jwt bcrypt σ a τ := by
  cases a with
  | request q =>
    cases h
    exact .request q
  | run i c =>
    obtain ⟨t, hs, h⟩ := Option.bind_eq_some_iff.mp h
    obtain ⟨⟨eff, t'⟩, hc, h⟩ := Option.bind_eq_some_iff.mp h
    cases h
    exact .run hs hc (authStatement_move hc)
  | raise i =>
    obtain ⟨t, hs, h⟩ := Option.bind_eq_some_iff.mp h
    obtain ⟨t', hr, h⟩ := Option.bind_eq_some_iff.mp h
    cases h
    exact .raise hs hr (AuthTask.raise_move hr)
  | tick d =>
    cases h
    exact .tick d

theorem AuthMove.unfinished (m : AuthMove jwt bcrypt σ t eff t') : t.isFinished = false := by
  cases m <;> first | rfl | assumption

theorem AuthTask.sound_of_isFailed (h : t.isFailed = true) : t.Sound jwt bcrypt σ := by
  unfold AuthTask.isFailed at h
  split at h
  · trivial
  · trivial
  · trivial
  · trivial
  · cases h

/-! ### The invariant -/

theorem AuthState.perform_sessions : (σ.perform jwt i eff).sessions = σ.sessions := by
  cases eff <;> rfl

theorem AuthState.perform_now : (σ.perform jwt i eff).now = σ.now := by
  cases eff <;> rfl

/-- A statement of an unfinished session takes nothing back. -/
theorem grows_of_unfinished (hs : σ.sessions[i]? = some t) (ht : t.isFinished = false) :
    σ.Grows ((σ.perform jwt i eff).goto i t') where
  accounts a ha := by
    cases eff with
    | insert account => exact List.mem_append_left _ ha
    | _ => exact ha
  issued r hr := by
    cases eff with
    | issue userId => exact List.mem_append_left _ hr
    | _ => exact hr
  finished j u hu hfin := by
    have hne : i ≠ j := by
      rintro rfl
      rw [hs] at hu
      cases hu
      rw [ht] at hfin
      cases hfin
    rw [AuthState.goto, AuthState.perform_sessions]
    exact (List.getElem?_set_ne hne).trans hu

theorem AuthMove.sound (m : AuthMove jwt bcrypt σ t eff t') (inv : AuthInv jwt bcrypt seed σ)
    (hs : σ.sessions[i]? = some t) :
    t'.Sound jwt bcrypt ((σ.perform jwt i eff).goto i t') := by
  have g : σ.Grows ((σ.perform jwt i eff).goto i t') := grows_of_unfinished hs m.unfinished
  have known := inv.sessions i t hs
  cases m with
  | failed ht h => exact AuthTask.sound_of_isFailed h
  | hashed hash => trivial
  | inserted fresh => exact ⟨List.mem_append_right _ (List.mem_singleton_self _), rfl⟩
  | registered => trivial
  | loggedIn ha email password => trivial
  | refreshDecoded h => exact (inv.accepted known h).mono g
  | refreshed ha => exact Accepted.mono known g
  | currentDecoded h => exact (inv.accepted known h).mono g
  | served ha role => exact ⟨Accepted.mono known g, ha, role⟩

/-- The tokens that a statement issues have their chain. -/
theorem AuthMove.chain (m : AuthMove jwt bcrypt σ t (.issue userId) t') (inv : AuthInv jwt bcrypt seed σ)
    (hs : σ.sessions[i]? = some t) (hr : r ∈ tokenResponse jwt σ.now i userId) :
    Chain bcrypt ((σ.perform jwt i (.issue userId)).goto i t') userId r := by
  have g : σ.Grows ((σ.perform jwt i (.issue userId)).goto i t') := grows_of_unfinished hs m.unfinished
  have known := inv.sessions i t hs
  obtain ⟨-, -, -, -, rfl⟩ := mem_tokenResponse hr
  have here : ((σ.perform jwt r.session (.issue userId)).goto r.session t').sessions[r.session]? = some t' :=
    List.getElem?_set_self (List.getElem?_eq_some_iff.mp hs).1
  have issued : r ∈ ((σ.perform jwt r.session (.issue userId)).goto r.session t').issued := List.mem_append_right _ hr
  cases m with
  | registered => exact .register issued here known.1 known.2
  | loggedIn ha email password => exact .login issued here ha email password
  | refreshed ha =>
    obtain ⟨r', -, rfl, type, -, unexpired, chain⟩ := known
    exact .refresh issued here type unexpired (chain.mono g)

theorem AuthInv.move (inv : AuthInv jwt bcrypt seed σ) (hs : σ.sessions[i]? = some t)
    (m : AuthMove jwt bcrypt σ t eff t') :
    AuthInv jwt bcrypt seed ((σ.perform jwt i eff).goto i t') where
  accounts := by
    obtain ⟨added, hadded, roles⟩ := inv.accounts
    cases m with
    | @inserted q hash id fresh =>
      refine ⟨added ++ [newAccount q id hash], ?_, ?_⟩
      · rw [← List.append_assoc, ← hadded]
        rfl
      · intro a ha
        rcases List.mem_append.mp ha with ha | ha
        · exact roles a ha
        · rw [List.mem_singleton.mp ha, newAccount]
    | _ => exact ⟨added, hadded, roles⟩
  issued := by
    intro r hr
    cases eff with
    | issue userId =>
      rcases List.mem_append.mp hr with hr | hr
      · exact inv.issued r hr
      · obtain ⟨htoken, hexp, hiat, -⟩ := mem_tokenResponse hr
        exact ⟨htoken, hexp, hiat⟩
    | _ => exact inv.issued r hr
  chains := by
    intro r hr
    have g : σ.Grows ((σ.perform jwt i eff).goto i t') := grows_of_unfinished hs m.unfinished
    have old (hr : r ∈ σ.issued) : ∃ userId, r.claims.sub = some (.uuid userId) ∧
        Chain bcrypt ((σ.perform jwt i eff).goto i t') userId r := by
      obtain ⟨userId, hsub, chain⟩ := inv.chains r hr
      exact ⟨userId, hsub, chain.mono g⟩
    cases eff with
    | issue userId =>
      rcases List.mem_append.mp hr with hr | hr
      · exact old hr
      · obtain ⟨-, -, -, hsub, -⟩ := mem_tokenResponse hr
        exact ⟨userId, hsub, m.chain inv hs hr⟩
    | _ => exact old hr
  sessions := by
    intro j u hu
    rw [AuthState.goto, AuthState.perform_sessions] at hu
    rcases eq_or_ne i j with rfl | hne
    · rw [List.getElem?_set_self (List.getElem?_eq_some_iff.mp hs).1] at hu
      cases hu
      exact m.sound inv hs
    · rw [List.getElem?_set_ne hne] at hu
      exact (inv.sessions j u hu).mono (grows_of_unfinished hs m.unfinished)

theorem AuthInv.step {a : AuthAct Token} (inv : AuthInv jwt bcrypt seed σ) (ha : Presents jwt σ a)
    (hstep : authStep jwt bcrypt σ a = some τ) : AuthInv jwt bcrypt seed τ := by
  cases authStep_stepped hstep with
  | request q =>
    have old (j : Sid) (u : AuthTask Token) (hu : σ.sessions[j]? = some u) : (σ.sessions ++ [q.task])[j]? = some u :=
      (List.getElem?_append_left (List.getElem?_eq_some_iff.mp hu).1).trans hu
    have g : σ.Grows { σ with sessions := σ.sessions ++ [q.task] } := ⟨fun _ h => h, fun _ h => h,
      fun j u hu _ => old j u hu⟩
    refine ⟨inv.accounts, inv.issued, ?_, ?_⟩
    · intro r hr
      obtain ⟨userId, hsub, chain⟩ := inv.chains r hr
      exact ⟨userId, hsub, chain.mono g⟩
    · intro j u hu
      rcases lt_or_ge j σ.sessions.length with hj | hj
      · exact (inv.sessions j u ((List.getElem?_append_left hj).symm.trans hu)).mono g
      · have hnew : [q.task][j - σ.sessions.length]? = some u := (List.getElem?_append_right hj).symm.trans hu
        cases List.mem_singleton.mp (List.mem_of_getElem? hnew)
        cases q with
        | register q => trivial
        | login q => trivial
        | refresh token => exact ha.mono g
        | current token admin => exact ha.mono g
  | run hs _ m => exact inv.move hs m
  | raise hs _ m => exact inv.move hs m
  | tick d =>
    have g : σ.Grows { σ with now := σ.now + d } := ⟨fun _ h => h, fun _ h => h, fun _ _ h _ => h⟩
    refine ⟨inv.accounts, ?_, ?_, fun j u hu => (inv.sessions j u hu).mono g⟩
    · intro r hr
      obtain ⟨htoken, hexp, hiat⟩ := inv.issued r hr
      exact ⟨htoken, hexp, Int.le_trans hiat (Int.le_add_of_nonneg_right (Int.natCast_nonneg d))⟩
    · intro r hr
      obtain ⟨userId, hsub, chain⟩ := inv.chains r hr
      exact ⟨userId, hsub, chain.mono g⟩

theorem authInv_start {now : Time} : AuthInv jwt bcrypt seed (.start seed now) where
  accounts := ⟨[], (List.append_nil _).symm, nofun⟩
  issued := nofun
  chains := nofun
  sessions := nofun

theorem authInv_of_reach
    (h : Reach (authStep jwt bcrypt) (Presents jwt) (fun s => ∃ now, s = .start seed now) σ) :
    AuthInv jwt bcrypt seed σ :=
  Reach.invariant (by rintro _ ⟨now, rfl⟩; exact authInv_start) (fun _ _ _ _ inv ha hstep => inv.step ha hstep) h

end

/-- What the tokens of a service that began with the accounts of `seed` guarantee. -/
structure TokensSound {Token : Type} (jwt : Jwt Token) (bcrypt : Bcrypt) (seed : List Account)
    (σ : AuthState Token) : Prop where
  /-- A protected request is served for an access token of the user, which had not expired when it was decoded. -/
  served : ∀ (i : Sid) (token : Token) (admin : Bool) (a : Account) (decodedAt : Time),
    σ.sessions[i]? = some (.current token admin (.finished (.ok a) decodedAt)) →
      Accepted bcrypt σ "access" token a.id decodedAt
  /-- A route of an admin is served to a user whose role is `admin`. -/
  admin : ∀ (i : Sid) (token : Token) (a : Account) (decodedAt : Time),
    σ.sessions[i]? = some (.current token true (.finished (.ok a) decodedAt)) → a ∈ σ.accounts ∧ a.role = "admin"
  refresh : ∀ r ∈ σ.issued, r.claims.type = some "refresh" → ∀ now, σ.now ≤ now →
    ∃ x, currentUserId jwt now r.token = .error x
  access : ∀ r ∈ σ.issued, r.claims.type = some "access" → ∀ now, σ.now ≤ now →
    ∃ x, refreshUserId jwt now r.token = .error x
  /-- No register creates an admin. -/
  admins : ∀ a ∈ σ.accounts, a.role = "admin" → a ∈ seed

/-- In every run in which each token that is presented was issued before or fails its verification. -/
theorem token_soundness {Token : Type} {jwt : Jwt Token} {bcrypt : Bcrypt} {seed : List Account} {σ : AuthState Token}
    (h : Reach (authStep jwt bcrypt) (Presents jwt) (fun s => ∃ now, s = .start seed now) σ) :
    TokensSound jwt bcrypt seed σ := by
  have inv : AuthInv jwt bcrypt seed σ := authInv_of_reach h
  constructor
  case served =>
    intro i token admin a decodedAt hs
    exact (inv.sessions i _ hs).1
  case admin =>
    intro i token a decodedAt hs
    obtain ⟨-, ha, role⟩ := inv.sessions i _ hs
    exact ⟨ha, role rfl⟩
  case refresh =>
    intro r hr htype now hnow
    exact inv.rejected hr (by rw [htype]; decide) hnow
  case access =>
    intro r hr htype now hnow
    exact inv.rejected hr (by rw [htype]; decide) hnow
  case admins =>
    intro a ha role
    obtain ⟨added, haccounts, users⟩ := inv.accounts
    rcases List.mem_append.mp (haccounts ▸ ha) with hseed | hadded
    · exact hseed
    · rw [users a hadded] at role
      exact absurd role (by decide)

/-- The token is the payload itself, or a text that fails its verification. -/
def plainJwt : Jwt (Option Claims) where
  encode := some
  decode now token :=
    match token with
    | none => .error .invalidToken
    | some c => if now < c.iat then .error .invalidToken else if c.exp ≤ now then .error .expiredSignature else .ok c
  decode_encode c now h := by simp only [if_neg (Int.not_lt.mpr h)]

/-- A `bcrypt` that stores the password as it is. -/
def plainBcrypt : Bcrypt where
  hashpw password _ := if password.utf8ByteSize ≤ 72 then some ("$2b$12$" ++ password) else none
  checkpw password hash := if password.utf8ByteSize ≤ 72 then some (hash = "$2b$12$" ++ password) else none

/-- A register, two seconds later a refresh, and a request with the access token that it issued. -/
def refreshedRun : List (AuthAct (Option Claims)) :=
  [.request (.register ⟨"rafi@example.com", "hunter22", "Rafi", none⟩),
    .run 0 ⟨7, 0⟩, .run 0 ⟨7, 0⟩, .run 0 ⟨7, 0⟩, .tick 2000000,
    .request (.refresh (some (createRefreshToken 0 7))), .run 1 ⟨8, 0⟩, .run 1 ⟨8, 0⟩,
    .request (.current (some (createAccessToken 2000000 7)) false), .run 2 ⟨8, 0⟩, .run 2 ⟨8, 0⟩]

/-- Every token that is presented was issued. -/
def presentsIssued (σ : AuthState (Option Claims)) : AuthAct (Option Claims) → Bool
  | .request (.refresh token) | .request (.current token _) => σ.issued.any (·.token = token)
  | _ => true

theorem presents_of_issued {σ : AuthState (Option Claims)} {a : AuthAct (Option Claims)}
    (h : presentsIssued σ a = true) :
    Presents plainJwt σ a := by
  cases a with
  | request r =>
    cases r with
    | register q => trivial
    | login q => trivial
    | refresh token => exact .inl (by simpa [presentsIssued] using h)
    | current token admin => exact .inl (by simpa [presentsIssued] using h)
  | run i c => trivial
  | raise i => trivial
  | tick d => trivial

/-- The user is served with a token that leads back to their register. -/
theorem token_soundness_refreshed : ∃ σ : AuthState (Option Claims), TokensSound plainJwt plainBcrypt [] σ ∧
    σ.sessions[2]? = some (.current (some (createAccessToken 2000000 7)) false
      (.finished (.ok ⟨7, "rafi@example.com", "$2b$12$hunter22", "Rafi", none, "user"⟩) 2000000)) ∧
    Accepted plainBcrypt σ "access" (some (createAccessToken 2000000 7)) 7 2000000 := by
  have hrun : (exec (authStep plainJwt plainBcrypt) (.start [] 0) refreshedRun).any
    (fun σ : AuthState (Option Claims) =>
      σ.sessions[2]? = some (.current (some (createAccessToken 2000000 7)) false
        (.finished (.ok ⟨7, "rafi@example.com", "$2b$12$hunter22", "Rafi", none, "user"⟩) 2000000))) = true := by decide
  have along : Along (authStep plainJwt plainBcrypt) (fun σ a => presentsIssued σ a = true)
    (.start [] 0) refreshedRun := by decide
  obtain ⟨σ, run, hs⟩ := (Option.any_eq_true _ _).mp hrun
  have reached : Reach (authStep plainJwt plainBcrypt) (Presents plainJwt) (fun s => ∃ now, s = .start [] now) σ :=
    Reach.exec (.start ⟨0, rfl⟩) (along.mono fun _ _ h => presents_of_issued h) run
  have sound := token_soundness reached
  exact ⟨σ, sound, of_decide_eq_true hs, sound.served 2 _ _ _ _ (of_decide_eq_true hs)⟩

end Railbook
