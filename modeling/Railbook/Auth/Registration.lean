import Railbook.Auth.Tokens
import Railbook.Library.Table

/-! What `register` answers. Its one `except ValueError` stands around the look-up, the hash and the commit, and
    the unique index decides last, so a password that is too long is answered like a taken email, and a race
    like neither. -/

namespace Railbook
open Transition

/-- The answer to a register whose email is taken. -/
def emailTaken : AuthExc := .http 409 "Email already registered"

/-- The account that a register has created. -/
def RegisterPc.creates : RegisterPc → Option Account
  | refresh a | finished (.ok a) => some a
  | _ => none

/-- The register has been answered. -/
def RegisterPc.isFinished : RegisterPc → Bool
  | finished _ => true
  | _ => false

section
variable {Token : Type}

/-- The session runs a register. -/
def AuthTask.isRegister : AuthTask Token → Bool
  | .register _ _ => true
  | _ => false

/-- The account that the next statement of the session inserts. -/
def AuthTask.creates : AuthTask Token → Option Account
  | .register _ pc => pc.creates
  | _ => none

/-- Session `i` has created the account. -/
def AuthState.Created (σ : AuthState Token) (i : Sid) (a : Account) : Prop := (σ.sessions[i]?).bind (·.creates) = some a

/-- An account has the email. -/
def AuthState.Registered (σ : AuthState Token) (email : String) : Prop := ∃ a ∈ σ.accounts, a.email = email

instance (σ : AuthState Token) (email : String) : Decidable (σ.Registered email) :=
  inferInstanceAs (Decidable (∃ _ ∈ _, _))

/-- Every register of the email has been answered. -/
def AuthState.Settled (σ : AuthState Token) (email : String) : Prop :=
  ∀ (i : Sid) q pc, σ.sessions[i]? = some (.register q pc) → q.email = email → pc.isFinished = true

/-- No statement fails for a reason outside the service, `uuid4` draws an id that no account has, and the values of a
    register fit their columns. -/
def Admitted (σ : AuthState Token) : AuthAct Token → Prop
  | .request (.register q) => q.fits = true
  | .run _ c => ∀ a ∈ σ.accounts, a.id ≠ c.uuid
  | .raise _ => False
  | _ => True

/-- A register that finds its email unused has a password that bcrypt takes, and when it inserts its row the email is
    still unused. -/
def AuthTask.Unrivalled (σ : AuthState Token) : AuthTask Token → Prop
  | .register q .find => σ.Registered q.email ∨ q.password.utf8ByteSize ≤ 72
  | .register q (.insert _) => ¬σ.Registered q.email
  | _ => True

/-- The same of the session that runs. -/
def RegistersUnrivalled (σ : AuthState Token) : AuthAct Token → Prop
  | .run i _ => ∀ t ∈ σ.sessions[i]?, t.Unrivalled σ
  | _ => True

/-- A register that ends with this step is answered 409 exactly when an account with its email that it did not create is
    committed then. -/
def AnswersTaken (jwt : Jwt Token) (bcrypt : Bcrypt) (σ : AuthState Token) : AuthAct Token → Prop
  | .run i c => ∀ τ q r, authStep jwt bcrypt σ (.run i c) = some τ → τ.sessions[i]? = some (.register q (.finished r)) →
    (r = .error emailTaken ↔ ∃ a ∈ τ.accounts, a.email = q.email ∧ ¬τ.Created i a)
  | _ => True

/-- The answers of the registers in a run from the accounts of `seed` to `τ`. -/
structure RegistersRight (jwt : Jwt Token) (bcrypt : Bcrypt) (seed : List Account) (now : Time)
    (acts : List (AuthAct Token)) (τ : AuthState Token) : Prop where
  taken : Along (authStep jwt bcrypt) (AnswersTaken jwt bcrypt) (.start seed now) acts
  /-- None ends with an exception that has no handler. -/
  handled : ∀ (i : Sid) q e, τ.sessions[i]? = some (.register q (.finished (.error e))) → ∃ x, e = .exc (.http x)
  /-- One register of a new email is answered 201, and its row is the one with the email. -/
  created : ∀ email, (∀ a ∈ seed, a.email ≠ email) → (∃ (i : Sid) (q : RegisterRequest) (pc : RegisterPc),
    τ.sessions[i]? = some (.register q pc) ∧ q.email = email) → τ.Settled email →
      ∃! i : Sid, ∃ q a, τ.sessions[i]? = some (.register q (.finished (.ok a))) ∧ q.email = email ∧
        ∀ b, b ∈ τ.accounts ∧ b.email = email ↔ b = a

/-- What holds in every admitted run. -/
structure RegisterInv (seed : List Account) (σ : AuthState Token) : Prop where
  emails : (σ.accounts.map (·.email)).Nodup
  origin : ∀ a ∈ σ.accounts, a ∈ seed ∨ ∃ i, σ.Created i a
  created : ∀ (i : Sid) q pc a, σ.sessions[i]? = some (.register q pc) → pc.creates = some a →
    a ∈ σ.accounts ∧ a.email = q.email
  once : ∀ (i j : Sid) a b, σ.Created i a → σ.Created j b → a.email = b.email → i = j
  fits : ∀ (i : Sid) q pc, σ.sessions[i]? = some (.register q pc) → q.fits = true

/-- What holds besides where no register has a rival. -/
def AuthState.Refuses (σ : AuthState Token) : Prop :=
  ∀ (i : Sid) q e, σ.sessions[i]? = some (.register q (.finished (.error e))) → e = emailTaken ∧ σ.Registered q.email

end

section
variable {Token : Type} {jwt : Jwt Token} {bcrypt : Bcrypt} {σ τ : AuthState Token} {i j : Sid}
  {t t' : AuthTask Token} {eff : AuthEffect} {c : AuthChoice} {q : RegisterRequest} {hash : String} {a b : Account}
  {seed : List Account} {now : Time} {acts : List (AuthAct Token)} {act : AuthAct Token}

/-! ### One statement -/

theorem filter_email_none (h : ¬σ.Registered q.email) : σ.accounts.filter (·.email = q.email) = [] :=
  List.filter_eq_nil_iff.mpr fun a ha he => h ⟨a, ha, of_decide_eq_true he⟩

theorem filter_email_some {email : String} (unique : (σ.accounts.map (·.email)).Nodup) (ha : a ∈ σ.accounts)
    (he : a.email = email) :
    σ.accounts.filter (·.email = email) = [a] := by
  refine Table.eq_singleton_of_mem (Table.length_filter_le_one unique fun x _ h => of_decide_eq_true h) ?_
  exact List.mem_filter.mpr ⟨ha, decide_eq_true he⟩

theorem RegisterRequest.isText_of_fits (h : q.fits = true) : isText q.email = true := by
  simp only [fits, Bool.and_eq_true] at h
  exact h.1.1.1.1

/-- The look-up finds the email. -/
theorem register_found (unique : (σ.accounts.map (·.email)).Nodup) (fits : q.fits = true) (h : σ.Registered q.email) :
    authStatement jwt bcrypt σ c (.register q .find) = some (.read, .register q (.finished (.error emailTaken))) := by
  obtain ⟨a, ha, he⟩ := h
  simp only [authStatement, registerUser, q.isText_of_fits fits, filter_email_some unique ha he, scalarOneOrNone,
    if_true, emailTaken]

/-- bcrypt refuses the password. -/
theorem register_long (fits : q.fits = true) (h : ¬σ.Registered q.email)
    (long : bcrypt.hashpw q.password c.salt = none) :
    authStatement jwt bcrypt σ c (.register q .find) = some (.read, .register q (.finished (.error emailTaken))) := by
  simp only [authStatement, registerUser, q.isText_of_fits fits, filter_email_none h, scalarOneOrNone, long,
    if_true, emailTaken]

theorem register_hashed (fits : q.fits = true) (h : ¬σ.Registered q.email)
    (short : bcrypt.hashpw q.password c.salt = some hash) :
    authStatement jwt bcrypt σ c (.register q .find) = some (.read, .register q (.insert hash)) := by
  simp only [authStatement, registerUser, q.isText_of_fits fits, filter_email_none h, scalarOneOrNone, short, if_true]

/-- The unique index refuses the row. -/
theorem register_raced (fits : q.fits = true) (h : σ.Registered q.email) :
    authStatement jwt bcrypt σ c (.register q (.insert hash)) =
      some (.read, .register q (.finished (.error (.exc .integrityError)))) := by
  obtain ⟨a, ha, he⟩ := h
  have hany : σ.accounts.any (fun a => a.id = c.uuid ∨ a.email = q.email) = true :=
    List.any_eq_true.mpr ⟨a, ha, decide_eq_true (Or.inr he)⟩
  simp only [authStatement, fits, hany, if_true, Bool.true_eq_false, if_false]

theorem register_inserted (fits : q.fits = true) (h : ¬σ.Registered q.email) (fresh : ∀ a ∈ σ.accounts, a.id ≠ c.uuid) :
    authStatement jwt bcrypt σ c (.register q (.insert hash)) =
      some (.insert (newAccount q c.uuid hash), .register q (.refresh (newAccount q c.uuid hash))) := by
  have hany : σ.accounts.any (fun a => a.id = c.uuid ∨ a.email = q.email) = false := by
    refine List.any_eq_false.mpr fun a ha hx => ?_
    rcases of_decide_eq_true hx with hid | he
    · exact fresh a ha hid
    · exact h ⟨a, ha, he⟩
  simp only [authStatement, fits, hany, Bool.true_eq_false, Bool.false_eq_true, if_false]

/-! ### One step -/

theorem perform_accounts (jwt : Jwt Token) (σ : AuthState Token) (i : Sid) (eff : AuthEffect) :
    (σ.perform jwt i eff).accounts = σ.accounts ∨
    ∃ a, eff = .insert a ∧ (σ.perform jwt i eff).accounts = σ.accounts ++ [a] := by
  cases eff with
  | insert a => exact Or.inr ⟨a, rfl, rfl⟩
  | _ => exact Or.inl rfl

theorem goto_self (hs : σ.sessions[i]? = some t) : ((σ.perform jwt i eff).goto i t').sessions[i]? = some t' := by
  rw [AuthState.goto, AuthState.perform_sessions]
  exact List.getElem?_set_self (List.getElem?_eq_some_iff.mp hs).1

theorem goto_ne (hji : j ≠ i) : ((σ.perform jwt i eff).goto i t').sessions[j]? = σ.sessions[j]? := by
  rw [AuthState.goto, AuthState.perform_sessions]
  exact List.getElem?_set_ne hji.symm

theorem session_of_authGoto {u : AuthTask Token} (hs : σ.sessions[i]? = some t)
    (hu : ((σ.perform jwt i eff).goto i t').sessions[j]? = some u) :
    j = i ∧ u = t' ∨ j ≠ i ∧ σ.sessions[j]? = some u := by
  by_cases hji : j = i
  · subst hji
    rw [goto_self hs] at hu
    exact Or.inl ⟨rfl, (Option.some.inj hu).symm⟩
  · rw [goto_ne hji] at hu
    exact Or.inr ⟨hji, hu⟩

theorem created_self (hs : σ.sessions[i]? = some t) : ((σ.perform jwt i eff).goto i t').Created i a ↔
    t'.creates = some a := by
  rw [AuthState.Created, goto_self hs, Option.bind_some]

theorem created_ne (hji : j ≠ i) : ((σ.perform jwt i eff).goto i t').Created j a ↔ σ.Created j a := by
  rw [AuthState.Created, AuthState.Created, goto_ne hji]

theorem created_of_same (hs : σ.sessions[i]? = some t) (h : t'.creates = t.creates) :
    ((σ.perform jwt i eff).goto i t').Created j a ↔ σ.Created j a := by
  by_cases hji : j = i
  · subst hji
    rw [created_self hs, AuthState.Created, hs, Option.bind_some, h]
  · exact created_ne hji

end

/-- What a statement can do in an admitted run. -/
inductive RegisterMove {Token : Type} (bcrypt : Bcrypt) (σ : AuthState Token) : AuthTask Token → AuthEffect →
    AuthTask Token → Prop
  | found {q : RegisterRequest} (h : σ.Registered q.email) :
    RegisterMove bcrypt σ (.register q .find) .read (.register q (.finished (.error emailTaken)))
  | long {q : RegisterRequest} (h : ¬σ.Registered q.email) (salt : Nat) (long : bcrypt.hashpw q.password salt = none) :
    RegisterMove bcrypt σ (.register q .find) .read (.register q (.finished (.error emailTaken)))
  | hashed {q : RegisterRequest} {hash : String} (h : ¬σ.Registered q.email) (salt : Nat)
    (short : bcrypt.hashpw q.password salt = some hash) :
    RegisterMove bcrypt σ (.register q .find) .read (.register q (.insert hash))
  | raced {q : RegisterRequest} {hash : String} (h : σ.Registered q.email) :
    RegisterMove bcrypt σ (.register q (.insert hash)) .read
      (.register q (.finished (.error (.exc .integrityError))))
  | inserted {q : RegisterRequest} {hash : String} {id : Uuid} (h : ¬σ.Registered q.email) :
    RegisterMove bcrypt σ (.register q (.insert hash)) (.insert (newAccount q id hash))
    (.register q (.refresh (newAccount q id hash)))
  | registered {q : RegisterRequest} {a : Account} :
    RegisterMove bcrypt σ (.register q (.refresh a)) (.issue a.id) (.register q (.finished (.ok a)))
  | other {t t' : AuthTask Token} {eff : AuthEffect} (ht : t.isRegister = false) (ht' : t'.isRegister = false)
    (he : ∀ a, eff ≠ .insert a) : RegisterMove bcrypt σ t eff t'

section
variable {Token : Type} {jwt : Jwt Token} {bcrypt : Bcrypt} {σ τ : AuthState Token} {i j : Sid}
  {t t' : AuthTask Token} {eff : AuthEffect} {c : AuthChoice} {q : RegisterRequest} {hash : String} {a b : Account}
  {seed : List Account} {now : Time} {acts : List (AuthAct Token)} {act : AuthAct Token}

/-- Only a register inserts accounts, and no other session becomes one. -/
theorem authStatement_other (ht : t.isRegister = false) (h : authStatement jwt bcrypt σ c t = some (eff, t')) :
    t'.isRegister = false ∧ ∀ a, eff ≠ .insert a := by
  cases t with
  | register q pc => cases ht
  | login q pc =>
    cases pc with
    | find =>
      simp only [authStatement] at h
      split at h <;> cases h <;> exact ⟨rfl, fun a ha => by cases ha⟩
    | finished r => cases h
  | refresh token pc =>
    cases pc with
    | finished r decodedAt => cases h
    | _ =>
      simp only [authStatement] at h
      split at h <;> cases h <;> exact ⟨rfl, fun a ha => by cases ha⟩
  | current token admin pc =>
    cases pc with
    | finished r decodedAt => cases h
    | _ =>
      simp only [authStatement] at h
      split at h <;> cases h <;> exact ⟨rfl, fun a ha => by cases ha⟩

theorem authStatement_register (inv : RegisterInv seed σ) (hs : σ.sessions[i]? = some t)
    (fresh : ∀ a ∈ σ.accounts, a.id ≠ c.uuid) (h : authStatement jwt bcrypt σ c t = some (eff, t')) :
    RegisterMove bcrypt σ t eff t' := by
  cases t with
  | register q pc =>
    have fits := inv.fits i q pc hs
    by_cases htaken : σ.Registered q.email
    · cases pc with
      | find =>
        rw [register_found inv.emails fits htaken] at h
        cases h
        exact .found htaken
      | insert hash =>
        rw [register_raced fits htaken] at h
        cases h
        exact .raced htaken
      | refresh a =>
        cases h
        exact .registered
      | finished r => cases h
    · cases pc with
      | find =>
        cases hash : bcrypt.hashpw q.password c.salt with
        | none =>
          rw [register_long fits htaken hash] at h
          cases h
          exact .long htaken c.salt hash
        | some hashed =>
          rw [register_hashed fits htaken hash] at h
          cases h
          exact .hashed htaken c.salt hash
      | insert hash =>
        rw [register_inserted fits htaken fresh] at h
        cases h
        exact .inserted htaken
      | refresh a =>
        cases h
        exact .registered
      | finished r => cases h
  | _ =>
    obtain ⟨ht', he⟩ := authStatement_other rfl h
    exact .other rfl ht' he

theorem creates_of_other (h : t.isRegister = false) : t.creates = none := by
  cases t with
  | register q pc => cases h
  | _ => rfl

/-- A statement that creates no account. -/
theorem RegisterInv.same (inv : RegisterInv seed σ) (hs : σ.sessions[i]? = some t)
    (haccounts : (σ.perform jwt i eff).accounts = σ.accounts) (hcreates : t'.creates = t.creates)
    (hq : ∀ q pc', t' = .register q pc' → ∃ pc, t = .register q pc) :
    RegisterInv seed ((σ.perform jwt i eff).goto i t') := by
  have created : ∀ {j a}, ((σ.perform jwt i eff).goto i t').Created j a ↔ σ.Created j a := created_of_same hs hcreates
  have accounts : ((σ.perform jwt i eff).goto i t').accounts = σ.accounts := haccounts
  constructor
  case emails =>
    rw [accounts]
    exact inv.emails
  case origin =>
    intro a ha
    rw [accounts] at ha
    exact (inv.origin a ha).imp_right fun ⟨j, hj⟩ => ⟨j, created.mpr hj⟩
  case created =>
    intro j q pc a hu ha
    rw [accounts]
    rcases session_of_authGoto hs hu with ⟨rfl, ht⟩ | ⟨-, hu⟩
    · obtain ⟨pc', rfl⟩ := hq q pc ht.symm
      refine inv.created j q pc' a hs ?_
      have hpc : (AuthTask.register (q : RegisterRequest) pc : AuthTask Token).creates =
        AuthTask.creates (.register q pc') := ht ▸ hcreates
      exact hpc.symm.trans ha
    · exact inv.created j q pc a hu ha
  case once =>
    intro j k a b ha hb he
    exact inv.once j k a b (created.mp ha) (created.mp hb) he
  case fits =>
    intro j q pc hu
    rcases session_of_authGoto hs hu with ⟨rfl, ht⟩ | ⟨-, hu⟩
    · obtain ⟨pc', rfl⟩ := hq q pc ht.symm
      exact inv.fits j q pc' hs
    · exact inv.fits j q pc hu

theorem RegisterInv.inserted {id : Uuid} (inv : RegisterInv seed σ)
    (hs : σ.sessions[i]? = some (.register q (.insert hash))) (h : ¬σ.Registered q.email) :
    RegisterInv seed ((σ.perform jwt i (.insert (newAccount q id hash))).goto i
      (.register q (.refresh (newAccount q id hash)))) := by
  have mine : ∀ {a}, AuthState.Created ((σ.perform jwt i (.insert (newAccount q id hash))).goto i
      (.register q (.refresh (newAccount q id hash)))) i a ↔ newAccount q id hash = a := by
    intro a
    rw [created_self hs]
    exact ⟨Option.some.inj, congrArg some⟩
  -- An account of another session is an old one, so it has another email.
  have others : ∀ {j a}, j ≠ i → AuthState.Created ((σ.perform jwt i (.insert (newAccount q id hash))).goto i
      (.register q (.refresh (newAccount q id hash)))) j a → σ.Created j a ∧ a.email ≠ q.email := by
    intro j a hji ha
    have hold : σ.Created j a := (created_ne hji).mp ha
    refine ⟨hold, fun he => ?_⟩
    obtain ⟨u, hu, hcreates⟩ := Option.bind_eq_some_iff.mp hold
    cases u with
    | register q' pc => exact h ⟨a, (inv.created j q' pc a hu hcreates).1, he⟩
    | _ => cases hcreates
  constructor
  case emails =>
    show ((σ.accounts ++ [newAccount q id hash]).map (·.email)).Nodup
    rw [List.map_append]
    refine List.nodup_append.mpr ⟨inv.emails, List.nodup_singleton _, fun x hx y hy => ?_⟩
    obtain ⟨a, ha, rfl⟩ := List.mem_map.mp hx
    obtain rfl := List.mem_singleton.mp hy
    exact fun he => h ⟨a, ha, he⟩
  case origin =>
    intro a ha
    rcases List.mem_append.mp ha with ha | ha
    · rcases inv.origin a ha with hseed | ⟨j, hj⟩
      · exact Or.inl hseed
      · refine Or.inr ⟨j, (created_ne ?_).mpr hj⟩
        rintro rfl
        rw [AuthState.Created, hs] at hj
        cases hj
    · exact Or.inr ⟨i, mine.mpr (List.mem_singleton.mp ha).symm⟩
  case created =>
    intro j q' pc a hu ha
    rcases session_of_authGoto hs hu with ⟨rfl, ht⟩ | ⟨-, hu⟩
    · cases ht
      cases ha
      exact ⟨List.mem_append_right _ (List.mem_singleton_self _), rfl⟩
    · obtain ⟨hmem, he⟩ := inv.created j q' pc a hu ha
      exact ⟨List.mem_append_left _ hmem, he⟩
  case once =>
    intro j k a b ha hb he
    by_cases hj : j = i <;> by_cases hk : k = i
    · exact hj.trans hk.symm
    · subst hj
      rw [← mine.mp ha] at he
      exact absurd he.symm (others hk hb).2
    · subst hk
      rw [← mine.mp hb] at he
      exact absurd he (others hj ha).2
    · exact inv.once j k a b (others hj ha).1 (others hk hb).1 he
  case fits =>
    intro j q' pc hu
    rcases session_of_authGoto hs hu with ⟨rfl, ht⟩ | ⟨-, hu⟩
    · cases ht
      exact inv.fits j q _ hs
    · exact inv.fits j q' pc hu

theorem RegisterInv.move (inv : RegisterInv seed σ) (hs : σ.sessions[i]? = some t)
    (m : RegisterMove bcrypt σ t eff t') :
    RegisterInv seed ((σ.perform jwt i eff).goto i t') := by
  cases m with
  | inserted h => exact inv.inserted hs h
  | registered => exact inv.same hs rfl rfl fun q pc h => by cases h; exact ⟨_, rfl⟩
  | other ht ht' he =>
    refine inv.same hs ?_ ((creates_of_other ht').trans (creates_of_other ht).symm) fun q pc h => by
      rw [h] at ht'; cases ht'
    rcases perform_accounts jwt σ i eff with h | ⟨a, h, -⟩
    · exact h
    · exact absurd h (he a)
  | _ => exact inv.same hs rfl rfl fun q pc h => by cases h; exact ⟨_, rfl⟩

theorem session_of_authRequest {r : AuthRequest Token} {u : AuthTask Token}
    (hu : (σ.sessions ++ [r.task])[j]? = some u) :
    σ.sessions[j]? = some u ∨ σ.sessions[j]? = none ∧ u = r.task := by
  rcases lt_or_ge j σ.sessions.length with hj | hj
  · exact Or.inl ((List.getElem?_append_left hj).symm.trans hu)
  · refine Or.inr ⟨List.getElem?_eq_none hj, ?_⟩
    exact List.mem_singleton.mp (List.mem_of_getElem? ((List.getElem?_append_right hj).symm.trans hu))

theorem RegisterInv.request {r : AuthRequest Token} (inv : RegisterInv seed σ) (hr : Admitted σ (.request r)) :
    RegisterInv seed { σ with sessions := σ.sessions ++ [r.task] } := by
  have hnew : r.task.creates = none := by cases r <;> rfl
  have created : ∀ {j a}, AuthState.Created { σ with sessions := σ.sessions ++ [r.task] } j a → σ.Created j a := by
    intro j a h
    obtain ⟨u, hu, hcreates⟩ := Option.bind_eq_some_iff.mp h
    rcases session_of_authRequest hu with hu | ⟨-, rfl⟩
    · rw [AuthState.Created, hu]
      exact hcreates
    · rw [hnew] at hcreates
      cases hcreates
  constructor
  case emails => exact inv.emails
  case origin =>
    intro a ha
    refine (inv.origin a ha).imp_right fun ⟨j, hj⟩ => ⟨j, ?_⟩
    obtain ⟨u, hu, hcreates⟩ := Option.bind_eq_some_iff.mp hj
    have hu' : (σ.sessions ++ [r.task])[j]? = some u :=
      (List.getElem?_append_left (List.getElem?_eq_some_iff.mp hu).1).trans hu
    rw [AuthState.Created, hu']
    exact hcreates
  case created =>
    intro j q pc a hu ha
    rcases session_of_authRequest hu with hu | ⟨-, hu⟩
    · exact inv.created j q pc a hu ha
    · rw [← hu] at hnew
      rw [show pc.creates = none from hnew] at ha
      cases ha
  case once =>
    intro j k a b ha hb he
    exact inv.once j k a b (created ha) (created hb) he
  case fits =>
    intro j q pc hu
    rcases session_of_authRequest hu with hu | ⟨-, hu⟩
    · exact inv.fits j q pc hu
    · cases r with
      | register q' =>
        cases hu
        exact hr
      | _ => cases hu

/-- An admitted step is a move of a session, or it begins one, or time passes. -/
theorem admitted_step (inv : RegisterInv seed σ) (hact : Admitted σ act) (hstep : authStep jwt bcrypt σ act = some τ) :
    (∃ i c t eff t', act = .run i c ∧ σ.sessions[i]? = some t ∧ RegisterMove bcrypt σ t eff t' ∧
      τ = (σ.perform jwt i eff).goto i t') ∨
      (∃ r, act = .request r ∧ τ = { σ with sessions := σ.sessions ++ [r.task] }) ∨
      ∃ d, act = .tick d ∧ τ = { σ with now := σ.now + d } := by
  cases authStep_stepped hstep with
  | request r => exact Or.inr (Or.inl ⟨r, rfl, rfl⟩)
  | run hs hc m => exact Or.inl ⟨_, _, _, _, _, rfl, hs, authStatement_register inv hs hact hc, rfl⟩
  | raise hs hr m => exact hact.elim
  | tick d => exact Or.inr (Or.inr ⟨d, rfl, rfl⟩)

theorem RegisterInv.step (inv : RegisterInv seed σ) (hact : Admitted σ act)
    (hstep : authStep jwt bcrypt σ act = some τ) :
    RegisterInv seed τ := by
  rcases admitted_step inv hact hstep with ⟨i, c, t, eff, t', -, hs, m, rfl⟩ | ⟨r, rfl, rfl⟩ | ⟨d, -, rfl⟩
  · exact inv.move hs m
  · exact inv.request hact
  · exact ⟨inv.emails, inv.origin, inv.created, inv.once, inv.fits⟩

theorem registerInv_start (unique : (seed.map (·.email)).Nodup) :
    RegisterInv seed (.start seed now : AuthState Token) where
  emails := unique
  origin a ha := Or.inl ha
  created i q pc a hs := by cases hs
  once i j a b ha := by cases ha
  fits i q pc hs := by cases hs

/-! ### Answers -/

theorem RegisterMove.not_finished {r : Except AuthExc Account} (m : RegisterMove bcrypt σ t eff t') :
    t ≠ .register q (.finished r) := by
  rintro rfl
  cases m with
  | other ht ht' he => cases ht

theorem register_stays {r : Except AuthExc Account} (inv : RegisterInv seed σ) (hact : Admitted σ act)
    (hstep : authStep jwt bcrypt σ act = some τ) (hs : σ.sessions[j]? = some (.register q (.finished r))) :
    τ.sessions[j]? = some (.register q (.finished r)) := by
  rcases admitted_step inv hact hstep with ⟨i, c, t, eff, t', -, ht, m, rfl⟩ | ⟨r, -, rfl⟩ | ⟨d, -, rfl⟩
  · have hji : j ≠ i := by
      rintro rfl
      exact m.not_finished (Option.some.inj (ht.symm.trans hs))
    exact (goto_ne hji).trans hs
  · exact (List.getElem?_append_left (List.getElem?_eq_some_iff.mp hs).1).trans hs
  · exact hs

theorem AuthState.Registered.step {email : String} (h : σ.Registered email) (inv : RegisterInv seed σ)
    (hact : Admitted σ act) (hstep : authStep jwt bcrypt σ act = some τ) : τ.Registered email := by
  obtain ⟨a, ha, he⟩ := h
  refine ⟨a, ?_, he⟩
  rcases admitted_step inv hact hstep with ⟨i, c, t, eff, t', -, -, -, rfl⟩ | ⟨r, -, rfl⟩ | ⟨d, -, rfl⟩
  · rcases perform_accounts jwt σ i eff with h | ⟨b, -, h⟩
    · exact h ▸ ha
    · exact h ▸ List.mem_append_left _ ha
  · exact ha
  · exact ha

/-- Where the session that runs has no rival, an error is the answer to a taken email. -/
theorem AuthState.Refuses.step (h : σ.Refuses) (inv : RegisterInv seed σ) (hact : Admitted σ act)
    (hashes : ∀ p s, bcrypt.hashpw p s = none ↔ 72 < p.utf8ByteSize) (alone : RegistersUnrivalled σ act)
    (hstep : authStep jwt bcrypt σ act = some τ) : τ.Refuses := by
  intro j q e hu
  have old : σ.sessions[j]? = some (.register q (.finished (.error e))) → e = emailTaken ∧ τ.Registered q.email :=
    fun hu => (h j q e hu).imp_right fun hreg => hreg.step inv hact hstep
  rcases admitted_step inv hact hstep with ⟨i, c, t, eff, t', rfl, hs, m, rfl⟩ | ⟨r, -, rfl⟩ | ⟨d, -, rfl⟩
  · rcases session_of_authGoto hs hu with ⟨rfl, ht⟩ | ⟨-, hu⟩
    · have unrivalled : t.Unrivalled σ := alone t hs
      cases m with
      | found hreg =>
        cases ht
        exact ⟨rfl, hreg.step inv hact hstep⟩
      | long hfree salt long =>
        have hlong := (hashes _ _).mp long
        exact absurd hlong (Nat.not_lt.mpr (unrivalled.resolve_left hfree))
      | raced hreg => exact absurd hreg unrivalled
      | other _ ht' _ =>
        rw [← ht] at ht'
        cases ht'
      | _ => cases ht
    · exact old hu
  · rcases session_of_authRequest hu with hu | ⟨-, hu⟩
    · exact old hu
    · cases r <;> cases hu
  · exact old hu

theorem RegisterInv.eq_of_created (inv : RegisterInv seed σ) {pc : RegisterPc}
    (hs : σ.sessions[i]? = some (.register q pc)) (ha : pc.creates = some a) :
    b ∈ σ.accounts ∧ b.email = q.email ↔ b = a := by
  obtain ⟨hmem, he⟩ := inv.created i q pc a hs ha
  constructor
  · rintro ⟨hb, hbe⟩
    exact List.inj_on_of_nodup_map inv.emails hb hmem (hbe.trans he.symm)
  · rintro rfl
    exact ⟨hmem, he⟩

/-- The answer of a register that ends in a state where errors are answers to taken emails. -/
theorem RegisterInv.answer_iff (inv : RegisterInv seed τ) (h : τ.Refuses) {r : Except AuthExc Account}
    (hs : τ.sessions[i]? = some (.register q (.finished r))) :
    r = .error emailTaken ↔ ∃ a ∈ τ.accounts, a.email = q.email ∧ ¬τ.Created i a := by
  cases r with
  | ok a =>
    refine ⟨fun hr => (by cases hr), ?_⟩
    rintro ⟨b, hb, he, hnot⟩
    obtain rfl := (inv.eq_of_created hs rfl).mp ⟨hb, he⟩
    refine absurd ?_ hnot
    rw [AuthState.Created, hs]
    rfl
  | error e =>
    obtain ⟨rfl, a, ha, he⟩ := h i q e hs
    refine ⟨fun _ => ⟨a, ha, he, fun hc => ?_⟩, fun _ => rfl⟩
    rw [AuthState.Created, hs] at hc
    cases hc

/-- Where errors are answers to taken emails and every register of a new email has been answered, one has created
    its row. -/
theorem RegisterInv.exists_created (inv : RegisterInv seed τ) (h : τ.Refuses) {email : String}
    (new : ∀ a ∈ seed, a.email ≠ email)
    (asked : ∃ (i : Sid) (q : RegisterRequest) (pc : RegisterPc), τ.sessions[i]? = some (.register q pc) ∧
      q.email = email)
    (settled : τ.Settled email) : ∃! i : Sid, ∃ q a, τ.sessions[i]? = some (.register q (.finished (.ok a))) ∧
      q.email = email ∧
      ∀ b, b ∈ τ.accounts ∧ b.email = email ↔ b = a := by
  have ended : ∀ {i : Sid} {q : RegisterRequest} {pc : RegisterPc}, τ.sessions[i]? = some (.register q pc) →
    q.email = email →
      ∃ r, pc = .finished r := by
    intro i q pc hs he
    have hfin := settled i q pc hs he
    cases pc with
    | finished r => exact ⟨r, rfl⟩
    | _ => cases hfin
  have hreg : ∃ a ∈ τ.accounts, a.email = email := by
    obtain ⟨i, q, pc, hs, rfl⟩ := asked
    obtain ⟨r, rfl⟩ := ended hs rfl
    cases r with
    | ok a => exact ⟨a, inv.created i q _ a hs rfl⟩
    | error e => exact (h i q e hs).2
  obtain ⟨a, ha, he⟩ := hreg
  obtain ⟨i, hi⟩ := (inv.origin a ha).resolve_left fun hseed => new a hseed he
  obtain ⟨u, hu, hcreates⟩ := Option.bind_eq_some_iff.mp hi
  cases u with
  | register q pc =>
    have hq : q.email = email := (inv.created i q pc a hu hcreates).2.symm.trans he
    obtain ⟨r, rfl⟩ := ended hu hq
    cases r with
    | ok a' =>
      obtain rfl : a' = a := Option.some.inj hcreates
      refine ⟨i, ⟨q, a', hu, hq, fun b => by rw [← hq]; exact inv.eq_of_created hu rfl⟩, ?_⟩
      rintro j ⟨q', b, hj, hq', -⟩
      have hb := inv.created j q' _ b hj rfl
      refine inv.once j i b a' ?_ hi (hb.2.trans (hq'.trans he.symm))
      rw [AuthState.Created, hj]
      rfl
    | error e => cases hcreates
  | _ => cases hcreates

/-- A step that meets a rival answers 409 without one, or with an exception that has no handler. -/
theorem not_answered (inv : RegisterInv seed σ) (hact : Admitted σ act)
    (hashes : ∀ p s, bcrypt.hashpw p s = none ↔ 72 < p.utf8ByteSize) (hnot : ¬RegistersUnrivalled σ act)
    (hstep : authStep jwt bcrypt σ act = some τ) : ¬AnswersTaken jwt bcrypt σ act ∨
      ∃ (i : Sid) (q : RegisterRequest), τ.sessions[i]? =
        some (.register q (.finished (.error (.exc .integrityError)))) := by
  have hstep' := hstep
  rcases admitted_step inv hact hstep with ⟨i, c, t, eff, t', rfl, hs, m, rfl⟩ | ⟨r, rfl, -⟩ | ⟨d, rfl, -⟩
  · have hrival : ¬t.Unrivalled σ := fun h => hnot fun u hu => by rwa [← Option.some.inj (hs.symm.trans hu)]
    cases m with
    | found hreg => exact absurd (Or.inl hreg) hrival
    | long hfree salt long =>
      refine Or.inl fun h => ?_
      obtain ⟨a, ha, he, -⟩ := (h _ _ _ hstep' (goto_self hs)).mp rfl
      exact hfree ⟨a, ha, he⟩
    | hashed hfree salt short =>
      have hshort : ¬72 < _ := fun hlong => by rw [(hashes _ salt).mpr hlong] at short; cases short
      exact absurd (Or.inr (Nat.not_lt.mp hshort)) hrival
    | raced hreg => exact Or.inr ⟨i, _, goto_self hs⟩
    | inserted hfree => exact absurd hfree hrival
    | registered => exact absurd trivial hrival
    | other ht _ _ =>
      cases t with
      | register q pc => cases ht
      | _ => exact absurd trivial hrival
  · exact absurd trivial hnot
  · exact absurd trivial hnot

/-- In an admitted run the registers are answered as they should be exactly when none meets a rival: each that finds
    its email unused has a password that bcrypt takes, and still finds it unused when it inserts its row. -/
theorem registers_right_iff (hashes : ∀ p s, bcrypt.hashpw p s = none ↔ 72 < p.utf8ByteSize)
    (unique : (seed.map (·.email)).Nodup) (run : exec (authStep jwt bcrypt) (.start seed now) acts = some τ)
    (admitted : Along (authStep jwt bcrypt) Admitted (.start seed now) acts) :
    RegistersRight jwt bcrypt seed now acts τ ↔
      Along (authStep jwt bcrypt) RegistersUnrivalled (.start seed now) acts := by
  have invariant : ∀ {acts τ}, exec (authStep jwt bcrypt) (.start seed now) acts = some τ →
      Along (authStep jwt bcrypt) Admitted (.start seed now) acts → RegisterInv seed τ := fun run admitted =>
    exec_invariant (fun _ _ _ inv hact hstep => inv.step hact hstep) (registerInv_start unique) admitted run
  constructor
  · intro right
    by_contra hnot
    classical
    obtain ⟨pre, a, post, υ, υ', rfl, hpre, hfail, hstep, hpost⟩ := exists_step_of_not_along run hnot
    obtain ⟨admitted', hact⟩ := admitted.split hpre
    have inv := invariant hpre admitted'
    rcases not_answered inv hact hashes hfail hstep with h | ⟨i, q, hi⟩
    · exact h (right.taken.split hpre).2
    · -- The unhandled answer stays to the end.
      have later : Along (authStep jwt bcrypt) Admitted υ' post := ((along_cons hstep).mp (admitted.after hpre)).2
      have hend : τ.sessions[i]? = some (.register q (.finished (.error (.exc .integrityError)))) := by
        refine (exec_invariant (I := fun ν => RegisterInv seed ν ∧
          ν.sessions[i]? = some (.register q (.finished (.error (.exc .integrityError))))) ?_
            ⟨inv.step hact hstep, hi⟩ later hpost).2
        intro ν a ν' h ha hν
        exact ⟨h.1.step ha hν, register_stays h.1 ha hν h.2⟩
      obtain ⟨x, hx⟩ := right.handled i q _ hend
      cases hx
  · intro unrivalled
    have both := admitted.and unrivalled
    have keep : ∀ (σ : AuthState Token) a υ, (RegisterInv seed σ ∧ σ.Refuses) →
      (Admitted σ a ∧ RegistersUnrivalled σ a) →
        authStep jwt bcrypt σ a = some υ → RegisterInv seed υ ∧ υ.Refuses := fun σ a υ h ha hstep =>
      ⟨h.1.step ha.1 hstep, h.2.step h.1 ha.1 hashes ha.2 hstep⟩
    have hstart : RegisterInv seed (.start seed now : AuthState Token) ∧
      (AuthState.start seed now : AuthState Token).Refuses :=
      ⟨registerInv_start unique, fun i q e hs => by cases hs⟩
    obtain ⟨inv, refuses⟩ := exec_invariant keep hstart both run
    refine ⟨both.of_invariant keep (fun σ a h ha => ?_) hstart, fun i q e hs => ?_, fun email new asked settled => ?_⟩
    · cases a with
      | run i c =>
        intro υ q r hυ hs
        obtain ⟨inv', refuses'⟩ := keep σ _ υ h ha hυ
        exact inv'.answer_iff refuses' hs
      | _ => trivial
    · exact ⟨_, (refuses i q e hs).1⟩
    · exact inv.exists_created refuses new asked settled

instance (σ : AuthState Token) : (a : AuthAct Token) → Decidable (Admitted σ a)
  | .request (.register q) => inferInstanceAs (Decidable (q.fits = true))
  | .run _ c => inferInstanceAs (Decidable (∀ a ∈ σ.accounts, a.id ≠ c.uuid))
  | .raise _ => isFalse id
  | .request (.login _) | .request (.refresh _) | .request (.current _ _) | .tick _ => isTrue trivial

instance (σ : AuthState Token) : (t : AuthTask Token) → Decidable (t.Unrivalled σ)
  | .register q .find => inferInstanceAs (Decidable (σ.Registered q.email ∨ q.password.utf8ByteSize ≤ 72))
  | .register q (.insert _) => inferInstanceAs (Decidable ¬σ.Registered q.email)
  | .register _ (.refresh _) | .register _ (.finished _) | .login _ _ | .refresh _ _ | .current _ _ _ => isTrue trivial

instance (σ : AuthState Token) : (a : AuthAct Token) → Decidable (RegistersUnrivalled σ a)
  | .run i _ => inferInstanceAs (Decidable (∀ t ∈ σ.sessions[i]?, t.Unrivalled σ))
  | .request _ | .raise _ | .tick _ => isTrue trivial

theorem plainBcrypt_hashpw (p : String) (s : Nat) : plainBcrypt.hashpw p s = none ↔ 72 < p.utf8ByteSize := by
  rw [plainBcrypt]
  dsimp only
  split
  next h => simp only [reduceCtorEq, false_iff, Nat.not_lt, h]
  next h => simp only [Nat.not_le.mp h]

/-- The second register looks for the email when the first one has committed. -/
def registeredRun : List (AuthAct (Option Claims)) :=
  [.request (.register ⟨"rafi@example.com", "hunter22", "Rafi", none⟩),
    .request (.register ⟨"rafi@example.com", "swordfish", "Rafi", none⟩),
    .run 0 ⟨7, 0⟩, .run 0 ⟨7, 0⟩, .run 1 ⟨8, 0⟩, .run 0 ⟨9, 0⟩]

theorem registers_right_repeated : ∃ τ : AuthState (Option Claims), τ.sessions[1]? =
    some (.register ⟨"rafi@example.com", "swordfish", "Rafi", none⟩ (.finished (.error emailTaken))) ∧
      RegistersRight plainJwt plainBcrypt [] 0 registeredRun τ := by
  have hrun : (exec (authStep plainJwt plainBcrypt) (.start [] 0) registeredRun).any
    (fun τ : AuthState (Option Claims) =>
      τ.sessions[1]? = some (.register ⟨"rafi@example.com", "swordfish", "Rafi", none⟩
        (.finished (.error emailTaken)))) = true := by
    decide
  have admitted : Along (authStep plainJwt plainBcrypt) Admitted (.start [] 0) registeredRun := by decide
  have unrivalled : Along (authStep plainJwt plainBcrypt) RegistersUnrivalled (.start [] 0) registeredRun := by decide
  obtain ⟨τ, run, hs⟩ := (Option.any_eq_true _ _).mp hrun
  have unique : (([] : List Account).map (·.email)).Nodup := List.nodup_nil
  exact ⟨τ, of_decide_eq_true hs, (registers_right_iff plainBcrypt_hashpw unique run admitted).mpr unrivalled⟩

/-- A password of 73 bytes. -/
def longPassword : String := String.ofList (List.replicate 73 'a')

/-- The only register of an email is told that the email is taken. -/
theorem long_password_refused : ¬∀ (jwt : Jwt (Option Claims)) (bcrypt : Bcrypt) (seed : List Account) (now : Time)
    (acts : List (AuthAct (Option Claims))) (τ : AuthState (Option Claims)),
    (∀ p s, bcrypt.hashpw p s = none ↔ 72 < p.utf8ByteSize) → (seed.map (·.email)).Nodup →
      exec (authStep jwt bcrypt) (.start seed now) acts = some τ →
        Along (authStep jwt bcrypt) Admitted (.start seed now) acts →
        RegistersRight jwt bcrypt seed now acts τ := by
  intro h
  have hrun : (exec (authStep plainJwt plainBcrypt) (.start [] 0)
      [.request (.register ⟨"rafi@example.com", longPassword, "Rafi", none⟩), .run 0 ⟨7, 0⟩]).any
        (fun τ : AuthState (Option Claims) =>
          τ.sessions = [.register ⟨"rafi@example.com", longPassword, "Rafi", none⟩ (.finished (.error emailTaken))]) =
            true := by
    decide
  obtain ⟨τ, run, htest⟩ := (Option.any_eq_true _ _).mp hrun
  have hsessions := of_decide_eq_true htest
  have right := h plainJwt plainBcrypt [] 0 _ τ plainBcrypt_hashpw List.nodup_nil run (by decide)
  have settled : τ.Settled "rafi@example.com" := by
    intro i q pc hs _
    rw [hsessions] at hs
    obtain ⟨rfl, rfl⟩ := AuthTask.register.inj (List.mem_singleton.mp (List.mem_of_getElem? hs))
    rfl
  obtain ⟨i, ⟨q, a, hs, -⟩, -⟩ := right.created "rafi@example.com" (fun a ha => by cases ha)
    ⟨0, _, _, by rw [hsessions]; rfl, rfl⟩ settled
  rw [hsessions] at hs
  cases List.mem_singleton.mp (List.mem_of_getElem? hs)

end

end Railbook
