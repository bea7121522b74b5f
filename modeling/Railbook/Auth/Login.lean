import Railbook.Auth.Registration
import Railbook.Seed

/-! What `login` answers, for the accounts of the seed and those that registered. `verify_password` hands on every
    exception of bcrypt, so it depends on the password and on the stored hash whether there is an answer at all. -/

namespace Railbook
open Transition

/-- A row of `USERS`. -/
structure UserSeed where
  email : String
  password : String
  name : String
  phone : String
  role : String

/-- `USERS`. -/
def userSeeds : Fin 3 → UserSeed :=
  ![⟨"admin@railbook.com", "admin123", "Admin User", "+8801700000000", "admin"⟩,
    ⟨"alice@example.com", "password123", "Alice Rahman", "+8801711111111", "user"⟩,
    ⟨"bob@example.com", "password123", "Bob Hasan", "+8801722222222", "user"⟩]

/-- The system user for cleanup tasks. -/
def systemAccount : Account := ⟨systemUserId, "system@railbook.internal", "nologin", "System", none, "admin"⟩

/-- A text that can be a hash of bcrypt. -/
def isBcryptHash (hash : String) : Bool := ['$', '2'].isPrefixOf hash.toList

/-- What bcrypt 5.0.0 documents. -/
structure Bcrypt.Documented (bcrypt : Bcrypt) : Prop where
  hashpw : ∀ p s, bcrypt.hashpw p s = none ↔ 72 < p.utf8ByteSize
  checkpw : ∀ p s hash p', bcrypt.hashpw p s = some hash → p'.utf8ByteSize ≤ 72 →
    bcrypt.checkpw p' hash = some (decide (p' = p))
  long : ∀ p hash, 72 < p.utf8ByteSize → bcrypt.checkpw p hash = none
  invalid : ∀ p hash, isBcryptHash hash = false → bcrypt.checkpw p hash = none

section
variable (ids : SeedIds) (bcrypt : Bcrypt) (salts : Fin 3 → Nat)

/-- The account that `seed_database` makes of the user, if `bcrypt` takes the password. -/
def seedAccount (k : Fin 3) : Option Account :=
  (bcrypt.hashpw (userSeeds k).password (salts k)).map fun pwHash =>
    ⟨ids.id (.user k), (userSeeds k).email, pwHash, (userSeeds k).name, some (userSeeds k).phone, (userSeeds k).role⟩

/-- The users of `seed_database`, unless bcrypt raises on one of their passwords. -/
def seedAccounts : Option (List Account) :=
  ((List.finRange 3).mapM (seedAccount ids bcrypt salts)).map (· ++ [systemAccount])

end

section
variable {Token : Type} (jwt : Jwt Token) (bcrypt : Bcrypt)

/-- In the run a register with the password inserts the account. -/
def RegistersWith (σ : AuthState Token) (acts : List (AuthAct Token)) (a : Account) (password : String) : Prop :=
  ∃ pre i c post υ υ' q pc, acts = pre ++ .run i c :: post ∧ exec (authStep jwt bcrypt) σ pre = some υ ∧
    υ.sessions[i]? = some (.register q pc) ∧ authStep jwt bcrypt υ (.run i c) = some υ' ∧ a ∈ υ'.accounts ∧
    a ∉ υ.accounts ∧
      q.password = password

/-- The user was seeded with the password, or registered with it in the run. -/
def HasPassword (ids : SeedIds) (salts : Fin 3 → Nat) (σ : AuthState Token) (acts : List (AuthAct Token)) (a : Account)
    (password : String) : Prop :=
  (∃ k, seedAccount ids bcrypt salts k = some a ∧ (userSeeds k).password = password) ∨
  RegistersWith jwt bcrypt σ acts a password

/-- The statement of a login takes `σ` to `τ`: it issues the two tokens of a user who has the email and the password,
    and is answered 401 if there is none. -/
structure LoginRight (hasPassword : Account → String → Prop) (σ τ : AuthState Token) (i : Sid)
    (q : LoginRequest) : Prop where
  tokens : ∀ a, τ.sessions[i]? = some (.login q (.finished (.ok a))) ∧
    τ.issued = σ.issued ++ tokenResponse jwt σ.now i a.id ↔
    a ∈ σ.accounts ∧ a.email = q.email ∧ hasPassword a q.password
  refused : (∀ a ∈ σ.accounts, a.email = q.email → ¬hasPassword a q.password) →
    τ.sessions[i]? = some (.login q (.finished (.error (.http 401 "Invalid credentials")))) ∧ τ.issued = σ.issued

end

section
variable {Token : Type} {jwt : Jwt Token} {bcrypt : Bcrypt} {ids : SeedIds} {salts : Fin 3 → Nat}
  {seed : List Account} {now : Time} {σ τ : AuthState Token} {i : Sid} {c : AuthChoice} {q : LoginRequest}
  {a b : Account} {acts : List (AuthAct Token)} {act : AuthAct Token} {password : String}

/-! ### The seed -/

theorem mapM_map {α β γ : Type} {f : α → Option β} {g : β → γ} {h : α → γ} (hf : ∀ x y, f x = some y → g y = h x)
    {l : List α} {ys : List β} (hys : l.mapM f = some ys) :
    ys.map g = l.map h := by
  induction l generalizing ys with
  | nil =>
    cases hys
    rfl
  | cons x l ih =>
    rw [List.mapM_cons] at hys
    obtain ⟨y, hy, hys⟩ := Option.bind_eq_some_iff.mp hys
    obtain ⟨ys', hys', hcons⟩ := Option.bind_eq_some_iff.mp hys
    cases hcons
    rw [List.map_cons, List.map_cons, hf x y hy, ih hys']

theorem mem_mapM {α β : Type} {f : α → Option β} {l : List α} {ys : List β} (hys : l.mapM f = some ys) {y : β}
    (hy : y ∈ ys) :
    ∃ x, f x = some y := by
  induction l generalizing ys with
  | nil =>
    cases hys
    cases hy
  | cons x l ih =>
    rw [List.mapM_cons] at hys
    obtain ⟨z, hz, hys⟩ := Option.bind_eq_some_iff.mp hys
    obtain ⟨ys', hys', hcons⟩ := Option.bind_eq_some_iff.mp hys
    cases hcons
    rcases List.mem_cons.mp hy with rfl | hy
    · exact ⟨x, hz⟩
    · exact ih hys' hy

theorem seedAccounts_emails (h : seedAccounts ids bcrypt salts = some seed) : (seed.map (·.email)).Nodup := by
  obtain ⟨users, husers, rfl⟩ := Option.map_eq_some_iff.mp h
  have hemail : ∀ k a, seedAccount ids bcrypt salts k = some a → a.email = (userSeeds k).email := by
    intro k a ha
    obtain ⟨hash, -, rfl⟩ := Option.map_eq_some_iff.mp ha
    rfl
  rw [List.map_append, mapM_map hemail husers]
  decide

/-- A seeded account is the system account, or it has a password. -/
theorem seeded_cases (h : seedAccounts ids bcrypt salts = some seed) (ha : a ∈ seed) :
    a = systemAccount ∨ ∃ k, seedAccount ids bcrypt salts k = some a := by
  obtain ⟨users, husers, rfl⟩ := Option.map_eq_some_iff.mp h
  rcases List.mem_append.mp ha with ha | ha
  · exact Or.inr (mem_mapM husers ha)
  · exact Or.inl (List.mem_singleton.mp ha)

theorem systemAccount_mem (h : seedAccounts ids bcrypt salts = some seed) : systemAccount ∈ seed := by
  obtain ⟨users, -, rfl⟩ := Option.map_eq_some_iff.mp h
  exact List.mem_append_right _ (List.mem_singleton_self _)

/-! ### Accounts and their hashes -/

/-- A step that adds an account is the insert of a register. -/
theorem account_inserted (hstep : authStep jwt bcrypt σ act = some τ) :
    τ.accounts = σ.accounts ∨ ∃ i c q hash id, act = .run i c ∧ σ.sessions[i]? = some (.register q (.insert hash)) ∧
      (∀ a ∈ σ.accounts, a.email ≠ q.email) ∧ τ.accounts = σ.accounts ++ [newAccount q id hash] := by
  cases authStep_stepped hstep with
  | run hs _ m =>
    cases m with
    | inserted fresh => exact Or.inr ⟨_, _, _, _, _, rfl, hs, fun a ha => (fresh a ha).2, rfl⟩
    | _ => exact Or.inl rfl
  | raise => exact Or.inl rfl
  | request r => exact Or.inl rfl
  | tick d => exact Or.inl rfl

theorem emails_exec (unique : (σ.accounts.map (·.email)).Nodup) (run : exec (authStep jwt bcrypt) σ acts = some τ) :
    (τ.accounts.map (·.email)).Nodup := by
  refine exec_invariant_of_step (I := fun υ : AuthState Token => (υ.accounts.map (·.email)).Nodup) ?_ unique run
  intro υ act υ' unique hstep
  rcases account_inserted hstep with h | ⟨i, c, q, hash, id, -, -, fresh, h⟩
  · rwa [h]
  · rw [h, List.map_append]
    refine List.nodup_append.mpr ⟨unique, List.nodup_singleton _, fun x hx y hy => ?_⟩
    obtain ⟨a, ha, rfl⟩ := List.mem_map.mp hx
    obtain rfl := List.mem_singleton.mp hy
    exact fresh a ha

theorem accounts_exec (run : exec (authStep jwt bcrypt) σ acts = some τ) : ∀ a ∈ σ.accounts, a ∈ τ.accounts := by
  refine exec_invariant_of_step (I := fun υ : AuthState Token => ∀ a ∈ σ.accounts, a ∈ υ.accounts) ?_ (fun _ h => h) run
  intro υ act υ' h hstep a ha
  rcases account_inserted hstep with h' | ⟨i, c, q, hash, id, -, -, -, h'⟩
  · rw [h']
    exact h a ha
  · rw [h']
    exact List.mem_append_left _ (h a ha)

theorem insert_hashed {r : RegisterRequest} {hash : String} {t : AuthTask Token} {eff : AuthEffect}
    (h : authStatement jwt bcrypt σ c t = some (eff, .register r (.insert hash))) :
    ∃ s, bcrypt.hashpw r.password s = some hash := by
  cases t with
  | register r' pc =>
    cases pc with
    | find =>
      simp only [authStatement] at h
      split at h <;> cases h
      rename_i hok
      unfold registerUser at hok
      split at hok
      · split at hok
        · cases hok
        · cases hok
        · split at hok <;> cases hok
          exact ⟨c.salt, by assumption⟩
      · cases hok
    | insert hash' =>
      simp only [authStatement] at h
      split at h
      · cases h
      · split at h <;> cases h
    | _ => cases h
  | _ =>
    have hother := (authStatement_other rfl h).1
    cases hother

theorem raise_ne_insert {r : RegisterRequest} {hash : String} {t : AuthTask Token} :
    t.raise ≠ some (.register r (.insert hash)) := by
  intro h
  unfold AuthTask.raise at h
  split at h
  · split at h <;> cases h
  · split at h <;> cases h
  · cases h
  · cases h
  · cases h

theorem hashed_exec (run : exec (authStep jwt bcrypt) (.start seed now) acts = some τ) :
    ∀ (i : Sid) (r : RegisterRequest) hash,
    τ.sessions[i]? = some (.register r (.insert hash)) → ∃ s, bcrypt.hashpw r.password s = some hash := by
  refine exec_invariant_of_step (I := fun υ : AuthState Token => ∀ (i : Sid) (r : RegisterRequest) hash,
    υ.sessions[i]? = some (.register r (.insert hash)) → ∃ s, bcrypt.hashpw r.password s = some hash) ?_ ?_ run
  · intro υ act υ' h hstep j r hash hu
    cases authStep_stepped hstep with
    | run hs hc m =>
      rcases session_of_authGoto hs hu with ⟨rfl, rfl⟩ | ⟨-, hu⟩
      · exact insert_hashed hc
      · exact h j r hash hu
    | raise hs hr m =>
      rcases session_of_authGoto hs hu with ⟨rfl, rfl⟩ | ⟨-, hu⟩
      · exact absurd hr raise_ne_insert
      · exact h j r hash hu
    | request q =>
      rcases session_of_authRequest hu with hu | ⟨-, hu⟩
      · exact h j r hash hu
      · cases q <;> cases hu
    | tick d => exact h j r hash hu
  · intro i r hash hs
    cases hs

/-- Who has a password has its hash stored. -/
theorem HasPassword.hash (h : HasPassword jwt bcrypt ids salts (.start seed now) acts a password) :
    ∃ s, bcrypt.hashpw password s = some a.passwordHash := by
  rcases h with ⟨k, hk, rfl⟩ | ⟨pre, i, c, post, υ, υ', r, pc, -, hpre, hs, hstep, ha, hnot, rfl⟩
  · obtain ⟨pwHash, hhash, rfl⟩ := Option.map_eq_some_iff.mp hk
    exact ⟨salts k, hhash⟩
  · rcases account_inserted hstep with hsame | ⟨i', c', r', hash, id, hact, hs', -, hadded⟩
    · rw [hsame] at ha
      exact absurd ha hnot
    · cases hact
      obtain ⟨rfl, rfl⟩ := AuthTask.register.inj (Option.some.inj (hs.symm.trans hs'))
      rw [hadded] at ha
      obtain rfl := List.mem_singleton.mp ((List.mem_append.mp ha).resolve_left hnot)
      exact hashed_exec hpre i r hash hs

/-- Every account but the system account has a password. -/
theorem exists_password (seeded : seedAccounts ids bcrypt salts = some seed)
    (run : exec (authStep jwt bcrypt) (.start seed now) acts = some σ) (ha : a ∈ σ.accounts) (hne : a ≠ systemAccount) :
    ∃ password, HasPassword jwt bcrypt ids salts (.start seed now) acts a password := by
  by_cases hseed : a ∈ seed
  · obtain ⟨k, hk⟩ := (seeded_cases seeded hseed).resolve_left hne
    exact ⟨_, Or.inl ⟨k, hk, rfl⟩⟩
  · obtain ⟨pre, act, post, υ, υ', rfl, hpre, hnot, hstep, hmem, -⟩ :=
      exists_step_begins (I := fun υ : AuthState Token => a ∈ υ.accounts) run hseed ha
    rcases account_inserted hstep with hsame | ⟨i, c, r, hash, id, rfl, hs, -, -⟩
    · rw [hsame] at hmem
      exact absurd hmem hnot
    · exact ⟨r.password, Or.inr ⟨pre, i, c, post, υ, υ', r, _, rfl, hpre, hs, hstep, hmem, hnot, rfl⟩⟩

/-! ### The statement of a login -/

theorem authenticateUser_found (unique : (σ.accounts.map (·.email)).Nodup) (text : isText q.email = true)
    (ha : a ∈ σ.accounts) (he : a.email = q.email) : authenticateUser bcrypt σ.accounts q =
      match bcrypt.checkpw q.password a.passwordHash with
      | none => .error .valueError
      | some false => .error (.http 401 "Invalid credentials")
      | some true => .ok a := by
  rw [authenticateUser, if_pos text, filter_email_some unique ha he]
  rfl

theorem authenticateUser_unknown (text : isText q.email = true) (h : ∀ a ∈ σ.accounts, a.email ≠ q.email) :
    authenticateUser bcrypt σ.accounts q = .error (.http 401 "Invalid credentials") := by
  have hnil : σ.accounts.filter (·.email = q.email) = [] :=
    List.filter_eq_nil_iff.mpr fun a ha he => h a ha (of_decide_eq_true he)
  rw [authenticateUser, if_pos text, hnil]
  rfl

theorem login_step (hs : σ.sessions[i]? = some (.login q .find)) (hstep : authStep jwt bcrypt σ (.run i c) = some τ) :
    τ.sessions[i]? = some (.login q (.finished (authenticateUser bcrypt σ.accounts q))) ∧
      τ.issued = σ.issued ++ match authenticateUser bcrypt σ.accounts q with
        | .ok a => tokenResponse jwt σ.now i a.id
        | .error _ => [] := by
  cases authStep_stepped hstep with
  | run ht hst _ =>
    obtain rfl := Option.some.inj (ht.symm.trans hs)
    simp only [authStatement] at hst
    cases hauth : authenticateUser bcrypt σ.accounts q with
    | error e =>
      rw [hauth] at hst
      cases hst
      exact ⟨goto_self hs, (List.append_nil _).symm⟩
    | ok a =>
      rw [hauth] at hst
      cases hst
      exact ⟨goto_self hs, rfl⟩

/-- An answer that is neither tokens nor 401 is never right. -/
theorem LoginRight.answered {hasPassword : Account → String → Prop} (h : LoginRight jwt hasPassword σ τ i q)
    {e : AuthExc} (hs : τ.sessions[i]? = some (.login q (.finished (.error e)))) :
    e = .http 401 "Invalid credentials" := by
  by_cases hknown : ∃ a ∈ σ.accounts, a.email = q.email ∧ hasPassword a q.password
  · obtain ⟨a, ha, he, hp⟩ := hknown
    have hok := ((h.tokens a).mpr ⟨ha, he, hp⟩).1
    rw [hs] at hok
    cases hok
  · obtain ⟨hrefused, -⟩ := h.refused fun a ha he hp => hknown ⟨a, ha, he, hp⟩
    rw [hs] at hrefused
    cases hrefused
    rfl

theorem loginRight_refused {hasPassword : Account → String → Prop}
    (hno : ∀ a ∈ σ.accounts, a.email = q.email → ¬hasPassword a q.password)
    (hs : τ.sessions[i]? = some (.login q (.finished (.error (.http 401 "Invalid credentials")))))
    (hissued : τ.issued = σ.issued) :
    LoginRight jwt hasPassword σ τ i q where
  tokens a := by
    constructor
    · rintro ⟨hok, -⟩
      rw [hs] at hok
      cases hok
    · rintro ⟨ha, he, hp⟩
      exact absurd hp (hno a ha he)
  refused _ := ⟨hs, hissued⟩

theorem loginRight_ok {hasPassword : Account → String → Prop} (unique : (σ.accounts.map (·.email)).Nodup)
    (ha : a ∈ σ.accounts) (he : a.email = q.email) (hp : hasPassword a q.password)
    (hs : τ.sessions[i]? = some (.login q (.finished (.ok a))))
    (hissued : τ.issued = σ.issued ++ tokenResponse jwt σ.now i a.id) : LoginRight jwt hasPassword σ τ i q where
  tokens b := by
    constructor
    · rintro ⟨hok, -⟩
      rw [hs] at hok
      cases hok
      exact ⟨ha, he, hp⟩
    · rintro ⟨hb, hbe, -⟩
      obtain rfl : b = a := List.inj_on_of_nodup_map unique hb ha (hbe.trans he.symm)
      exact ⟨hs, hissued⟩
  refused hno := absurd hp (hno a ha he)

/-- After any run from the seed, the statement of a login answers as it should exactly when its email is a text
    without the character of code zero and no account has it, or the password has at most 72 bytes and the account is
    not that of the system. -/
theorem login_right_iff (documented : bcrypt.Documented) (seeded : seedAccounts ids bcrypt salts = some seed)
    (run : exec (authStep jwt bcrypt) (.start seed now) acts = some σ) (hs : σ.sessions[i]? = some (.login q .find))
    (hstep : authStep jwt bcrypt σ (.run i c) = some τ) :
    LoginRight jwt (HasPassword jwt bcrypt ids salts (.start seed now) acts) σ τ i q ↔
      isText q.email = true ∧ ((∀ a ∈ σ.accounts, a.email ≠ q.email) ∨
        q.password.utf8ByteSize ≤ 72 ∧ q.email ≠ systemAccount.email) := by
  have unique : (σ.accounts.map (·.email)).Nodup := emails_exec (seedAccounts_emails seeded) run
  obtain ⟨hanswer, hissued⟩ := login_step hs hstep
  by_cases text : isText q.email = true
  case neg =>
    refine ⟨fun right => ?_, fun h => absurd h.1 text⟩
    rw [authenticateUser, if_neg text] at hanswer
    cases right.answered hanswer
  by_cases hknown : ∃ a ∈ σ.accounts, a.email = q.email
  case neg =>
    have hnone : ∀ a ∈ σ.accounts, a.email ≠ q.email := fun a ha he => hknown ⟨a, ha, he⟩
    rw [authenticateUser_unknown text hnone] at hanswer hissued
    refine ⟨fun _ => ⟨text, Or.inl hnone⟩,
      fun _ => loginRight_refused (fun a ha he => absurd he (hnone a ha)) hanswer ?_⟩
    exact hissued.trans (List.append_nil _)
  obtain ⟨a, ha, he⟩ := hknown
  rw [authenticateUser_found unique text ha he] at hanswer hissued
  -- bcrypt raises, and nothing handles the exception.
  have raises : bcrypt.checkpw q.password a.passwordHash = none →
      ¬LoginRight jwt (HasPassword jwt bcrypt ids salts (.start seed now) acts) σ τ i q := by
    intro hnone right
    rw [hnone] at hanswer
    cases right.answered hanswer
  constructor
  · intro right
    refine ⟨text, Or.inr ⟨Nat.not_lt.mp fun long => raises (documented.long _ _ long) right, fun hsystem => ?_⟩⟩
    have hmem : systemAccount ∈ σ.accounts := accounts_exec run systemAccount (systemAccount_mem seeded)
    obtain rfl : a = systemAccount := List.inj_on_of_nodup_map unique ha hmem (he.trans hsystem)
    exact raises (documented.invalid _ _ (by decide)) right
  · rintro ⟨-, hcond⟩
    obtain ⟨short, hne⟩ := hcond.resolve_left fun h => h a ha he
    have hnotSystem : a ≠ systemAccount := by
      rintro rfl
      exact hne he.symm
    obtain ⟨p, hp⟩ := exists_password seeded run ha hnotSystem
    obtain ⟨s, hhash⟩ := hp.hash
    rw [documented.checkpw p s _ _ hhash short] at hanswer hissued
    by_cases hsame : q.password = p
    · subst hsame
      rw [decide_eq_true rfl] at hanswer hissued
      exact loginRight_ok unique ha he hp hanswer hissued
    · rw [decide_eq_false hsame] at hanswer hissued
      refine loginRight_refused (fun b hb hbe hbp => ?_) hanswer (hissued.trans (List.append_nil _))
      obtain rfl : b = a := List.inj_on_of_nodup_map unique hb ha (hbe.trans he.symm)
      -- The stored hash is that of both passwords, so they are the same.
      obtain ⟨s', hhash'⟩ := hbp.hash
      have hcheck := documented.checkpw _ s' _ _ hhash' short
      rw [documented.checkpw p s _ _ hhash short, decide_eq_true rfl] at hcheck
      exact hsame (of_decide_eq_true (Option.some.inj hcheck))

/-- A hash shows its password. -/
def documentedBcrypt : Bcrypt where
  hashpw password _ := if password.utf8ByteSize ≤ 72 then some ("$2b$12$" ++ password) else none
  checkpw password hash :=
    if password.utf8ByteSize ≤ 72 ∧ isBcryptHash hash = true then some (hash = "$2b$12$" ++ password) else none

theorem isBcryptHash_prefix (password : String) : isBcryptHash ("$2b$12$" ++ password) = true := by
  rw [isBcryptHash, String.toList_append]
  rfl

theorem documentedBcrypt_documented : documentedBcrypt.Documented where
  hashpw p s := by
    rw [documentedBcrypt]
    dsimp only
    split
    next h => simp only [reduceCtorEq, false_iff, Nat.not_lt, h]
    next h => simp only [Nat.not_le.mp h]
  checkpw p s hash p' hhash short := by
    rw [documentedBcrypt] at hhash ⊢
    dsimp only at hhash ⊢
    split at hhash
    · cases hhash
      rw [if_pos ⟨short, isBcryptHash_prefix p⟩]
      exact congrArg some (decide_eq_decide.mpr ⟨fun h => (String.append_right_inj _ |>.mp h).symm, fun h => by rw [h]⟩)
    · cases hhash
  long p hash long := if_neg fun h => Nat.not_lt.mpr h.1 long
  invalid p hash invalid := if_neg fun h => by rw [invalid] at h; cases h.2

/-- The accounts of the seed. -/
def sampleAccounts : List Account :=
  [⟨1, "admin@railbook.com", "$2b$12$admin123", "Admin User", some "+8801700000000", "admin"⟩,
   ⟨2, "alice@example.com", "$2b$12$password123", "Alice Rahman", some "+8801711111111", "user"⟩,
   ⟨3, "bob@example.com", "$2b$12$password123", "Bob Hasan", some "+8801722222222", "user"⟩, systemAccount]

theorem seedAccounts_sample : seedAccounts sampleIds documentedBcrypt (fun _ => 0) = some sampleAccounts := by decide

/-- Rafi registers, and asks to log in. -/
def loginRun : List (AuthAct (Option Claims)) :=
  [.request (.register ⟨"rafi@example.com", "hunter22", "Rafi", none⟩), .run 0 ⟨7, 0⟩, .run 0 ⟨7, 0⟩, .run 0 ⟨7, 0⟩,
    .request (.login ⟨"rafi@example.com", "hunter22"⟩)]

theorem login_right_registered : ∃ σ τ : AuthState (Option Claims),
    exec (authStep plainJwt documentedBcrypt) (.start sampleAccounts 0) loginRun = some σ ∧
    authStep plainJwt documentedBcrypt σ (.run 1 ⟨8, 0⟩) = some τ ∧ σ.accounts.length = 5 ∧
    LoginRight plainJwt
      (HasPassword plainJwt documentedBcrypt sampleIds (fun _ => 0) (.start sampleAccounts 0) loginRun) σ τ 1
      ⟨"rafi@example.com", "hunter22"⟩ := by
  have hrun : (exec (authStep plainJwt documentedBcrypt) (.start sampleAccounts 0) loginRun).any
    (fun σ : AuthState (Option Claims) =>
      decide (σ.accounts.length = 5) &&
        decide (σ.sessions[1]? = some (.login ⟨"rafi@example.com", "hunter22"⟩ .find)) &&
        (authStep plainJwt documentedBcrypt σ (.run 1 ⟨8, 0⟩)).isSome) = true := by
    decide
  obtain ⟨σ, run, htest⟩ := (Option.any_eq_true _ _).mp hrun
  simp only [Bool.and_eq_true, decide_eq_true_eq] at htest
  obtain ⟨⟨hlen, hs⟩, hstep⟩ := htest
  obtain ⟨τ, hτ⟩ := Option.isSome_iff_exists.mp hstep
  exact ⟨σ, τ, run, hτ, hlen, (login_right_iff documentedBcrypt_documented seedAccounts_sample run hs hτ).mpr
    ⟨by decide, Or.inr ⟨by decide, by decide⟩⟩⟩

/-- A login with the email of the system account ends with the exception of bcrypt. -/
theorem system_login_unhandled : ¬∀ (jwt : Jwt (Option Claims)) (bcrypt : Bcrypt) (ids : SeedIds) (salts : Fin 3 → Nat)
    (seed : List Account) (now : Time) (acts : List (AuthAct (Option Claims))) (σ τ : AuthState (Option Claims))
    (i : Sid) (c : AuthChoice) (q : LoginRequest), bcrypt.Documented → seedAccounts ids bcrypt salts = some seed →
      exec (authStep jwt bcrypt) (.start seed now) acts = some σ → σ.sessions[i]? = some (.login q .find) →
        authStep jwt bcrypt σ (.run i c) = some τ →
          LoginRight jwt (HasPassword jwt bcrypt ids salts (.start seed now) acts) σ τ i q := by
  intro h
  have hrun : (exec (authStep plainJwt documentedBcrypt) (.start sampleAccounts 0)
      [.request (.login ⟨"system@railbook.internal", "secret"⟩)]).any (fun σ : AuthState (Option Claims) =>
        decide (σ.sessions[0]? = some (.login ⟨"system@railbook.internal", "secret"⟩ .find)) &&
          (authStep plainJwt documentedBcrypt σ (.run 0 ⟨8, 0⟩)).any fun τ => τ.sessions[0]? =
            some (.login ⟨"system@railbook.internal", "secret"⟩ (.finished (.error .valueError)))) = true := by
    decide
  obtain ⟨σ, run, htest⟩ := (Option.any_eq_true _ _).mp hrun
  obtain ⟨hs, hstep⟩ := Bool.and_eq_true_iff.mp htest
  obtain ⟨τ, hτ, hend⟩ := (Option.any_eq_true _ _).mp hstep
  have right := h plainJwt documentedBcrypt sampleIds _ sampleAccounts 0 _ σ τ 0 ⟨8, 0⟩ _ documentedBcrypt_documented
    seedAccounts_sample run (of_decide_eq_true hs) hτ
  cases right.answered (of_decide_eq_true hend)

end

end Railbook
