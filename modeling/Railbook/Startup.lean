import Railbook.Auth.Login
import Railbook.Library.Store

/-! Startup (`lifespan` of `app/main.py`, which calls `seed_database`). Several workers start on one database, at the
    same time or after one another, and each of them looks for a train before it inserts anything. -/

namespace Railbook
open ReadCommitted Transition

/-- The tables that `seed_database` fills. -/
structure SeedTables where
  accounts : List Account
  trains : List Train
  compartments : List Compartment
  seats : List Seat
  schedules : List Schedule
  deriving DecidableEq, Repr

/-- The tables before the first start. -/
def SeedTables.empty : SeedTables := ⟨[], [], [], [], []⟩

/-- A row to insert. -/
inductive SeedInsert where
  | account (row : Account)
  | train (row : Train)
  | compartment (row : Compartment)
  | seat (row : Seat)
  | schedule (row : Schedule)
  deriving DecidableEq, Repr

/-- The entries of the unique indexes. -/
inductive SeedKey where
  | accountId (id : Uuid)
  | email (email : String)
  | trainId (id : Uuid)
  | trainNumber (number : String)
  | compartmentId (id : Uuid)
  | seatId (id : Uuid)
  | seatNumber (compartmentId : Uuid) (number : Int)
  | scheduleId (id : Uuid)
  | departure (trainId : Uuid) (time : Time)
  deriving DecidableEq, Repr

namespace SeedTables

/-- The tables with one row more. -/
def insert (d : SeedTables) : SeedInsert → SeedTables
  | .account row => { d with accounts := d.accounts ++ [row] }
  | .train row => { d with trains := d.trains ++ [row] }
  | .compartment row => { d with compartments := d.compartments ++ [row] }
  | .seat row => { d with seats := d.seats ++ [row] }
  | .schedule row => { d with schedules := d.schedules ++ [row] }

/-- A row with this entry is stored. -/
def Holds (d : SeedTables) : SeedKey → Prop
  | .accountId id => id ∈ d.accounts.map (·.id)
  | .email email => email ∈ d.accounts.map (·.email)
  | .trainId id => id ∈ d.trains.map (·.id)
  | .trainNumber number => number ∈ d.trains.map (·.trainNumber)
  | .compartmentId id => id ∈ d.compartments.map (·.id)
  | .seatId id => id ∈ d.seats.map (·.id)
  | .seatNumber compartmentId number => (compartmentId, number) ∈ d.seats.map fun x => (x.compartmentId, x.seatNumber)
  | .scheduleId id => id ∈ d.schedules.map (·.id)
  | .departure trainId time => (trainId, time) ∈ d.schedules.map fun s => (s.trainId, s.departureTime)

instance (d : SeedTables) : (k : SeedKey) → Decidable (d.Holds k)
  | .accountId _ | .email _ | .trainId _ | .trainNumber _ | .compartmentId _ | .seatId _ | .seatNumber _ _
    | .scheduleId _
  | .departure _ _ => inferInstanceAs (Decidable (_ ∈ _))

end SeedTables

/-- The primary key and the unique keys of the row. -/
def SeedInsert.keys : SeedInsert → List SeedKey
  | .account row => [.accountId row.id, .email row.email]
  | .train row => [.trainId row.id, .trainNumber row.trainNumber]
  | .compartment row => [.compartmentId row.id]
  | .seat row => [.seatId row.id, .seatNumber row.compartmentId row.seatNumber]
  | .schedule row => [.scheduleId row.id, .departure row.trainId row.departureTime]

instance : Writes SeedInsert SeedTables SeedKey where
  apply w d := d.insert w
  touches w k := k ∈ w.keys

/-- What a worker has drawn for the rows that it adds, and its `now`. -/
structure SeedPlan where
  ids : SeedIds
  accounts : List Account
  now : Time

namespace SeedPlan
variable (plan : SeedPlan)

/-- The tables of the plan. -/
def tables : SeedTables where
  accounts := plan.accounts
  trains := (seedDatabase plan.ids plan.now).trains
  compartments := (seedDatabase plan.ids plan.now).compartments
  seats := (seedDatabase plan.ids plan.now).seats
  schedules := (seedDatabase plan.ids plan.now).schedules

/-- The row of train `t`. -/
def train (t : Fin 3) : Train :=
  ⟨plan.ids.id (.train t), (trainSeeds t).name, (trainSeeds t).trainNumber, (trainSeeds t).origin,
    (trainSeeds t).destination⟩

/-- The row of compartment `c` of train `t`. -/
def compartment (t : Fin 3) (c : Fin 2) : Compartment :=
  ⟨plan.ids.id (.compartment t c), plan.ids.id (.train t), (compartmentSeeds c).1, (compartmentSeeds c).2⟩

/-- The row of seat `n` of the compartment. -/
def seat (t : Fin 3) (c : Fin 2) (n : Fin 25) : Seat :=
  ⟨plan.ids.id (.seat t c n), plan.ids.id (.compartment t c), n + 1, seatPosition (n + 1)⟩

/-- The row of the schedule of train `t` on the day. -/
def schedule (t : Fin 3) (day : Fin 7) : Schedule :=
  let depDate := replaceTime (plan.now + timedeltaHours (24 * (day + 1))) (trainSeeds t).departureHours.1
    (trainSeeds t).departureHours.2
  ⟨plan.ids.id (.schedule t day), plan.ids.id (.train t), depDate, depDate + timedeltaHours (trainSeeds t).journeyHours⟩

/-- The rows that the loop over the compartments adds. -/
def compartmentRows (t : Fin 3) (c : Fin 2) : List SeedInsert :=
  .compartment (plan.compartment t c) :: (List.finRange 25).map fun n => .seat (plan.seat t c n)

/-- The rows that the loop over the trains adds. -/
def trainRows (t : Fin 3) : List SeedInsert :=
  .train (plan.train t) :: ((List.finRange 2).flatMap (plan.compartmentRows t) ++
    (List.finRange 7).map fun day => .schedule (plan.schedule t day))

/-- The rows in the order in which `seed_database` adds them. A flush sorts its rows by table, which keeps their order
    in each table. -/
def rows : List SeedInsert := plan.accounts.map .account ++ (List.finRange 3).flatMap plan.trainRows

/-- The accounts are those that `seed_database` makes with the ids. -/
def Valid (bcrypt : Bcrypt) : Prop := ∃ salts, seedAccounts plan.ids bcrypt salts = some plan.accounts

end SeedPlan

/-- `seed_database` between its statements. An `INSERT` is taken row by row. -/
inductive StartupPc where
  | find
  | insert (plan : SeedPlan) (rest : List SeedInsert)
  | finished (answer : Except AuthExc Unit)

/-- The workers that start, and the database that they share. -/
structure StartupState where
  store : Store Sid SeedTables SeedInsert SeedKey
  workers : List StartupPc
  now : Time

/-- What a statement does to the database. -/
inductive StartupEffect where
  | read
  | insert (row : SeedInsert)
  | commit
  | close

/-- What a worker draws: the ids of its rows and the salts of their passwords. -/
structure StartupChoice where
  ids : SeedIds
  salts : Fin 3 → Nat

/-- What happens next: a worker starts, runs its next statement, this statement fails, or time passes. -/
inductive StartupAct where
  | start
  | run (i : Sid) (c : StartupChoice)
  | raise (i : Sid)
  | tick (d : Nat)

namespace StartupState
variable (σ : StartupState)

/-- The committed tables. -/
def tables : SeedTables := σ.store.data

/-- The state after the effect of a statement of worker `i`. -/
def perform (i : Sid) : StartupEffect → StartupState
  | .read => σ
  | .insert row => { σ with store := (σ.store.acquire i row.keys).write i [row] }
  | .commit => { σ with store := σ.store.commit i }
  | .close => { σ with store := σ.store.rollback i }

/-- Worker `i` goes on at `pc`. -/
def goto (i : Sid) (pc : StartupPc) : StartupState := { σ with workers := σ.workers.set i pc }

/-- An empty database, before any worker. -/
def fresh (now : Time) : StartupState := ⟨.fresh .empty, [], now⟩

end StartupState

/-- The next statement of `seed_database`. -/
def seedStatement (bcrypt : Bcrypt) (σ : StartupState) (i : Sid) (c : StartupChoice) :
    StartupPc → Option (StartupEffect × StartupPc)
  | .find =>
    if (σ.store.view i).trains ≠ [] then some (.close, .finished (.ok ()))
    else
      match seedAccounts c.ids bcrypt c.salts with
      | none => some (.close, .finished (.error .valueError))
      | some accounts => some (.read, .insert ⟨c.ids, accounts, σ.now⟩ (SeedPlan.rows ⟨c.ids, accounts, σ.now⟩))
  | .insert plan (row :: rest) =>
    if ∀ k ∈ row.keys, σ.store.Free i k then
      if ∃ k ∈ row.keys, (σ.store.view i).Holds k then some (.close, .finished (.error (.exc .integrityError)))
      else some (.insert row, .insert plan rest)
    else none
  | .insert _ [] => some (.commit, .finished (.ok ()))
  | .finished _ => none

/-- The step relation of the start. -/
def startupStep (bcrypt : Bcrypt) (σ : StartupState) : StartupAct → Option StartupState
  | .start => some { σ with workers := σ.workers ++ [.find] }
  | .run i c => do
    let pc ← σ.workers[i]?
    let (eff, pc') ← seedStatement bcrypt σ i c pc
    some ((σ.perform i eff).goto i pc')
  | .raise i => do
    let pc ← σ.workers[i]?
    if pc matches .finished _ then none
    else some ((σ.perform i .close).goto i (.finished (.error (.exc .databaseError))))
  | .tick d => some { σ with now := σ.now + d }

section
variable {bcrypt : Bcrypt} {σ τ : StartupState} {i j : Sid} {plan : SeedPlan} {d : SeedTables} {rows : List SeedInsert}

/-! ### The rows of a plan -/

/-- The rows of a list, added to their tables. -/
def SeedTables.addAll (d : SeedTables) (rows : List SeedInsert) : SeedTables := rows.foldl SeedTables.insert d

namespace SeedInsert

/-- The row, if it is one of `users`. -/
def account? : SeedInsert → Option Account
  | .account row => some row
  | _ => none

/-- The row, if it is one of `trains`. -/
def train? : SeedInsert → Option Train
  | .train row => some row
  | _ => none

/-- The row, if it is one of `compartments`. -/
def compartment? : SeedInsert → Option Compartment
  | .compartment row => some row
  | _ => none

/-- The row, if it is one of `seats`. -/
def seat? : SeedInsert → Option Seat
  | .seat row => some row
  | _ => none

/-- The row, if it is one of `schedules`. -/
def schedule? : SeedInsert → Option Schedule
  | .schedule row => some row
  | _ => none

end SeedInsert

theorem SeedTables.addAll_eq : d.addAll rows = ⟨d.accounts ++ rows.filterMap (·.account?),
    d.trains ++ rows.filterMap (·.train?),
    d.compartments ++ rows.filterMap (·.compartment?), d.seats ++ rows.filterMap (·.seat?),
    d.schedules ++ rows.filterMap (·.schedule?)⟩ := by
  induction rows generalizing d with
  | nil => simp [SeedTables.addAll]
  | cons row rows ih =>
    have hcons : d.addAll (row :: rows) = (d.insert row).addAll rows := rfl
    rw [hcons, ih]
    cases row <;> simp [SeedTables.insert, SeedInsert.account?, SeedInsert.train?, SeedInsert.compartment?,
      SeedInsert.seat?, SeedInsert.schedule?]

theorem SeedPlan.filterMap_rows {α : Type} {f : SeedInsert → Option α} (plan : SeedPlan)
    (h : ∀ a, f (.account a) = none) :
    plan.rows.filterMap f = (List.finRange 3).flatMap fun t => (plan.trainRows t).filterMap f := by
  have haccounts : (plan.accounts.map SeedInsert.account).filterMap f = [] := by
    rw [List.filterMap_map]
    exact List.filterMap_eq_nil_iff.mpr fun a _ => h a
  rw [SeedPlan.rows, List.filterMap_append, haccounts, List.filterMap_flatMap, List.nil_append]

theorem SeedPlan.seats_trainRows (plan : SeedPlan) (t : Fin 3) : (plan.trainRows t).filterMap (·.seat?) =
    (List.finRange 2).flatMap fun c => (List.finRange 25).map (plan.seat t c) := by
  have hrows : ∀ c, (plan.compartmentRows t c).filterMap (·.seat?) = (List.finRange 25).map (plan.seat t c) :=
    fun c => by
    rw [SeedPlan.compartmentRows, List.filterMap_cons_none rfl, List.filterMap_map]
    exact congrFun List.filterMap_eq_map _
  rw [SeedPlan.trainRows, List.filterMap_cons_none rfl, List.filterMap_append, List.filterMap_flatMap]
  simp only [hrows]
  exact List.append_nil _

/-- The loops add the rows of the plan to each table in its order. -/
theorem SeedPlan.addAll_rows (plan : SeedPlan) : SeedTables.empty.addAll plan.rows = plan.tables := by
  have hself : plan.rows.filterMap (·.account?) = plan.accounts := by
    rw [SeedPlan.rows, List.filterMap_append, List.filterMap_map]
    exact (congrArg (· ++ _) List.filterMap_some).trans (List.append_nil _)
  rw [SeedTables.addAll_eq, hself, plan.filterMap_rows fun _ => rfl, plan.filterMap_rows fun _ => rfl,
    plan.filterMap_rows fun _ => rfl, plan.filterMap_rows fun _ => rfl]
  simp only [SeedTables.empty, List.nil_append, SeedPlan.tables, SeedTables.mk.injEq, plan.seats_trainRows]
  exact ⟨trivial, rfl, rfl, rfl, rfl⟩

/-- No entry of a unique index is in the tables twice. -/
structure SeedTables.Distinct (d : SeedTables) : Prop where
  accountId : (d.accounts.map (·.id)).Nodup
  email : (d.accounts.map (·.email)).Nodup
  trainId : (d.trains.map (·.id)).Nodup
  trainNumber : (d.trains.map (·.trainNumber)).Nodup
  compartmentId : (d.compartments.map (·.id)).Nodup
  seatId : (d.seats.map (·.id)).Nodup
  seatNumber : (d.seats.map fun x => (x.compartmentId, x.seatNumber)).Nodup
  scheduleId : (d.schedules.map (·.id)).Nodup
  departure : (d.schedules.map fun s => (s.trainId, s.departureTime)).Nodup

theorem seedAccounts_ids {ids : SeedIds} {salts : Fin 3 → Nat} {seed : List Account}
    (h : seedAccounts ids bcrypt salts = some seed) :
    seed.map (·.id) = (seedUsers ids).map (·.id) := by
  obtain ⟨users, husers, rfl⟩ := Option.map_eq_some_iff.mp h
  have hid : ∀ k a, seedAccount ids bcrypt salts k = some a → a.id = ids.id (.user k) := by
    intro k a ha
    obtain ⟨hash, -, rfl⟩ := Option.map_eq_some_iff.mp ha
    rfl
  rw [List.map_append, mapM_map hid husers, seedUsers, List.map_append, List.map_map]
  rfl

/-- Departures at one time of day are on one day. -/
theorem replaceTime_injective {t hour minute k k' : Int}
    (h : replaceTime (t + timedeltaHours (24 * k)) hour minute = replaceTime
      (t + timedeltaHours (24 * k')) hour minute) :
    k = k' := by
  have arith : ∀ {t x y : Int}, (t + 24 * k * 3600000000) - (t + 24 * k * 3600000000) % 86400000000 + x + y =
      (t + 24 * k' * 3600000000) - (t + 24 * k' * 3600000000) % 86400000000 + x + y → k = k' := by
    intro t x y h
    omega
  exact arith h

theorem SeedPlan.Valid.distinct (h : plan.Valid bcrypt) : plan.tables.Distinct where
  accountId := by
    obtain ⟨salts, hseed⟩ := h
    show (plan.accounts.map (·.id)).Nodup
    rw [seedAccounts_ids hseed]
    exact seedUsers_key
  email := by
    obtain ⟨salts, hseed⟩ := h
    exact seedAccounts_emails hseed
  trainId := (seedDatabase plan.ids plan.now).trainsKey
  trainNumber := by
    show ((seedTrains plan.ids).map (·.trainNumber)).Nodup
    rw [seedTrains, List.map_map]
    show ((List.finRange 3).map fun t => (trainSeeds t).trainNumber).Nodup
    decide
  compartmentId := (seedDatabase plan.ids plan.now).compartmentsKey
  seatId := (seedDatabase plan.ids plan.now).seatsKey
  seatNumber := by
    show ((seedSeats plan.ids).map fun x => (x.compartmentId, x.seatNumber)).Nodup
    rw [seedSeats, List.map_map]
    refine ((List.nodup_finRange 3).product ((List.nodup_finRange 2).product (List.nodup_finRange 25))).map ?_
    rintro ⟨t, c, n⟩ ⟨t', c', n'⟩ h
    simp only [Function.comp_apply, Prod.mk.injEq] at h
    cases plan.ids.injective h.1
    obtain rfl : n = n' := Fin.ext (by omega)
    rfl
  scheduleId := (seedDatabase plan.ids plan.now).schedulesKey
  departure := by
    show ((seedSchedules plan.ids plan.now).map fun s => (s.trainId, s.departureTime)).Nodup
    rw [seedSchedules, List.map_map]
    refine ((List.nodup_finRange 3).product (List.nodup_finRange 7)).map ?_
    rintro ⟨t, day⟩ ⟨t', day'⟩ h
    simp only [Function.comp_apply, Prod.mk.injEq] at h
    cases plan.ids.injective h.1
    have hday := replaceTime_injective h.2
    obtain rfl : day = day' := Fin.ext (by omega)
    rfl

/-- A worker does not conflict with the rows that it has inserted itself. -/
theorem SeedPlan.Valid.not_holds {done rest : List SeedInsert} {row : SeedInsert} {k : SeedKey} (h : plan.Valid bcrypt)
    (hrows : plan.rows = done ++ row :: rest) (hk : k ∈ row.keys) : ¬(SeedTables.empty.addAll done).Holds k := by
  have hd := h.distinct
  rw [← plan.addAll_rows, hrows, SeedTables.addAll_eq] at hd
  have fresh {α κ : Type} {f : SeedInsert → Option α} {g : α → κ} {x : α} (hf : f row = some x)
      (hn : (([] ++ (done ++ row :: rest).filterMap f).map g).Nodup) : g x ∉ ([] ++ done.filterMap f).map g := by
    rw [List.nil_append, List.filterMap_append, List.filterMap_cons_some hf, List.map_append, List.map_cons,
      List.nodup_append] at hn
    exact fun hx => hn.2.2 _ hx _ List.mem_cons_self rfl
  rw [SeedTables.addAll_eq]
  cases row with
  | account a =>
    rcases List.mem_pair.mp hk with rfl | rfl
    · exact fresh rfl hd.accountId
    · exact fresh rfl hd.email
  | train t =>
    rcases List.mem_pair.mp hk with rfl | rfl
    · exact fresh rfl hd.trainId
    · exact fresh rfl hd.trainNumber
  | compartment c =>
    rw [List.mem_singleton.mp hk]
    exact fresh rfl hd.compartmentId
  | seat x =>
    rcases List.mem_pair.mp hk with rfl | rfl
    · exact fresh rfl hd.seatId
    · exact fresh rfl hd.seatNumber
  | schedule x =>
    rcases List.mem_pair.mp hk with rfl | rfl
    · exact fresh rfl hd.scheduleId
    · exact fresh rfl hd.departure

/-! ### Steps -/

/-- What a statement of a worker can do. -/
inductive StartupMove (bcrypt : Bcrypt) (σ : StartupState) (i : Sid) : StartupPc → StartupEffect → StartupPc → Prop
  | found (h : (σ.store.view i).trains ≠ []) : StartupMove bcrypt σ i .find .close (.finished (.ok ()))
  | planned {plan : SeedPlan} (h : plan.Valid bcrypt) : StartupMove bcrypt σ i .find .read (.insert plan plan.rows)
  | inserted {plan : SeedPlan} {row : SeedInsert} {rest : List SeedInsert} (free : ∀ k ∈ row.keys, σ.store.Free i k)
      (new : ∀ k ∈ row.keys, ¬(σ.store.view i).Holds k) :
    StartupMove bcrypt σ i (.insert plan (row :: rest)) (.insert row) (.insert plan rest)
  | conflict {plan : SeedPlan} {row : SeedInsert} {rest : List SeedInsert} {k : SeedKey} (hk : k ∈ row.keys)
      (held : (σ.store.view i).Holds k) :
    StartupMove bcrypt σ i (.insert plan (row :: rest)) .close (.finished (.error (.exc .integrityError)))
  | committed {plan : SeedPlan} : StartupMove bcrypt σ i (.insert plan []) .commit (.finished (.ok ()))
  | failed {pc : StartupPc} {e : AuthExc} (h : e ≠ .exc .integrityError) :
    StartupMove bcrypt σ i pc .close (.finished (.error e))

/-- The outcomes of a step. -/
inductive StartupStepped (bcrypt : Bcrypt) (σ : StartupState) : StartupAct → StartupState → Prop
  | start : StartupStepped bcrypt σ .start { σ with workers := σ.workers ++ [.find] }
  | moved {a : StartupAct} {i : Sid} {pc pc' : StartupPc} {e : StartupEffect} (hs : σ.workers[i]? = some pc)
    (m : StartupMove bcrypt σ i pc e pc') : StartupStepped bcrypt σ a ((σ.perform i e).goto i pc')
  | tick (d : Nat) : StartupStepped bcrypt σ (.tick d) { σ with now := σ.now + d }

theorem seedStatement_move {c : StartupChoice} {pc pc' : StartupPc} {e : StartupEffect}
    (h : seedStatement bcrypt σ i c pc = some (e, pc')) : StartupMove bcrypt σ i pc e pc' := by
  unfold seedStatement at h
  split at h
  · split at h
    · rename_i hfound
      cases h
      exact .found hfound
    · split at h
      · cases h
        exact .failed (by simp)
      · rename_i accounts hseed
        cases h
        exact .planned ⟨_, hseed⟩
  · split at h
    · rename_i free
      split at h
      · rename_i held
        obtain ⟨k, hk, held⟩ := held
        cases h
        exact .conflict hk held
      · rename_i new
        cases h
        exact .inserted free fun k hk held => new ⟨k, hk, held⟩
    · cases h
  · cases h
    exact .committed
  · cases h

theorem startupStep_stepped {a : StartupAct} (h : startupStep bcrypt σ a = some τ) : StartupStepped bcrypt σ a τ := by
  cases a with
  | start =>
    cases h
    exact .start
  | run i c =>
    obtain ⟨pc, hs, h⟩ := Option.bind_eq_some_iff.mp h
    obtain ⟨⟨e, pc'⟩, hc, h⟩ := Option.bind_eq_some_iff.mp h
    cases h
    exact .moved hs (seedStatement_move hc)
  | raise i =>
    obtain ⟨pc, hs, h⟩ := Option.bind_eq_some_iff.mp h
    split at h <;> cases h
    exact .moved hs (.failed (by simp))
  | tick d =>
    cases h
    exact .tick d

/-! ### The invariant -/

/-- A worker inserts the rows of its plan, and owns their entries until it ends. What is committed are the rows of one
    plan, and then no worker has pending rows. -/
structure StartupState.Sound (bcrypt : Bcrypt) (σ : StartupState) : Prop where
  idle : ∀ i : Sid, (∀ plan rest, σ.workers[i]? ≠ some (.insert plan rest)) → σ.store.pending i = []
  inserting : ∀ (i : Sid) plan rest, σ.workers[i]? = some (.insert plan rest) →
    plan.Valid bcrypt ∧ plan.rows = σ.store.pending i ++ rest
  owners : ∀ i k, σ.store.owner k = some i ↔ ∃ row ∈ σ.store.pending i, k ∈ row.keys
  tables : σ.tables = .empty ∨ (∃ plan : SeedPlan, plan.Valid bcrypt ∧ σ.tables = plan.tables) ∧
    ∀ i, σ.store.pending i = []
  answered : ∀ i : Sid, σ.workers[i]? = some (.finished (.ok ())) ∨
    σ.workers[i]? = some (.finished (.error (.exc .integrityError))) → σ.tables ≠ .empty

/-- The entry that every worker takes first. -/
def SeedKey.first : SeedKey := .email (userSeeds 0).email

theorem SeedPlan.Valid.rows_eq (h : plan.Valid bcrypt) : ∃ a rest, plan.rows = .account a :: rest ∧
    a.email = (userSeeds 0).email := by
  obtain ⟨salts, hseed⟩ := h
  obtain ⟨users, husers, haccounts⟩ := Option.map_eq_some_iff.mp hseed
  rw [show List.finRange 3 = 0 :: [1, 2] from rfl, List.mapM_cons] at husers
  obtain ⟨a, ha, husers⟩ := Option.bind_eq_some_iff.mp husers
  obtain ⟨users', -, hcons⟩ := Option.bind_eq_some_iff.mp husers
  cases hcons
  obtain ⟨hash, -, rfl⟩ := Option.map_eq_some_iff.mp ha
  exact ⟨_, _, by rw [SeedPlan.rows, ← haccounts]; rfl, rfl⟩

theorem SeedPlan.Valid.holds_first (h : plan.Valid bcrypt) : plan.tables.Holds .first := by
  obtain ⟨a, rest, hrows, hemail⟩ := h.rows_eq
  rw [← plan.addAll_rows, hrows, SeedTables.addAll_eq]
  exact List.mem_map.mpr ⟨a, List.mem_cons_self, hemail⟩

theorem worker_goto {pc pc' : StartupPc} {e : StartupEffect} (hs : σ.workers[i]? = some pc) :
    ((σ.perform i e).goto i pc').workers[j]? = if j = i then some pc' else σ.workers[j]? := by
  have hlt := (List.getElem?_eq_some_iff.mp hs).1
  have hworkers : (σ.perform i e).workers = σ.workers := by cases e <;> rfl
  rw [StartupState.goto, hworkers]
  by_cases hj : j = i
  · subst hj
    simp [hlt]
  · simp [hj, Ne.symm hj]

/-- Only one worker has pending rows: it owns the entry that all take first. -/
theorem StartupState.Sound.sole (h : σ.Sound bcrypt) (hi : σ.store.pending i ≠ []) (hj : σ.store.pending j ≠ []) :
    i = j := by
  have owns : ∀ {i : Sid}, σ.store.pending i ≠ [] → σ.store.owner .first = some i := by
    intro i hi
    obtain ⟨plan, rest, hs⟩ : ∃ plan rest, σ.workers[i]? = some (.insert plan rest) := by
      by_contra hno
      exact hi (h.idle i fun plan rest hs => hno ⟨plan, rest, hs⟩)
    obtain ⟨hvalid, hrows⟩ := h.inserting i plan rest hs
    obtain ⟨a, rest', hfirst, hemail⟩ := hvalid.rows_eq
    obtain ⟨row, done, hdone⟩ := List.exists_cons_of_ne_nil hi
    rw [hdone, hfirst, List.cons_append, List.cons.injEq] at hrows
    refine (h.owners i .first).mpr ⟨row, hdone ▸ List.mem_cons_self, ?_⟩
    rw [← hrows.1, SeedInsert.keys, hemail]
    exact List.mem_cons_of_mem _ (List.mem_singleton_self _)
  exact Option.some.inj ((owns hi).symm.trans (owns hj))

theorem StartupState.view_eq (σ : StartupState) (i : Sid) : σ.store.view i = σ.tables.addAll (σ.store.pending i) := rfl

theorem SeedTables.ne_empty_of_holds {k : SeedKey} (h : d.Holds k) : d ≠ .empty := by
  rintro rfl
  cases k <;> cases h

/-- The end of a worker's transaction, whatever it leaves in the tables. -/
theorem StartupState.Sound.finish {pc : StartupPc} {e : StartupEffect} {answer : Except AuthExc Unit}
    (h : σ.Sound bcrypt) (hs : σ.workers[i]? = some pc)
    (hpending : (σ.perform i e).store.pending = (σ.store.rollback i).pending)
    (howner : (σ.perform i e).store.owner = (σ.store.rollback i).owner)
    (tables : (σ.perform i e).tables = .empty ∨
      (∃ plan : SeedPlan, plan.Valid bcrypt ∧ (σ.perform i e).tables = plan.tables) ∧
      ∀ j, j ≠ i → σ.store.pending j = [])
    (kept : σ.tables ≠ .empty → (σ.perform i e).tables ≠ .empty)
    (answered : answer = .ok () ∨ answer = .error (.exc .integrityError) → (σ.perform i e).tables ≠ .empty) :
    ((σ.perform i e).goto i (.finished answer)).Sound bcrypt where
  idle j hj := by
    show (σ.perform i e).store.pending j = []
    rw [hpending]
    by_cases hji : j = i
    · subst hji
      exact rollback_pending_self
    · rw [rollback_pending_ne hji]
      exact h.idle j fun plan rest hw => hj plan rest (by rw [worker_goto hs, if_neg hji, hw])
  inserting j plan rest hw := by
    rw [worker_goto hs] at hw
    split at hw
    · cases hw
    · rename_i hji
      show _ ∧ plan.rows = (σ.perform i e).store.pending j ++ rest
      rw [hpending, rollback_pending_ne hji]
      exact h.inserting j plan rest hw
  owners j k := by
    show (σ.perform i e).store.owner k = some j ↔ ∃ row ∈ (σ.perform i e).store.pending j, k ∈ row.keys
    rw [hpending, howner, rollback_owner_eq]
    by_cases hji : j = i
    · subst hji
      simp
    · rw [rollback_pending_ne hji]
      exact (and_iff_left hji).trans (h.owners j k)
  tables := by
    refine tables.imp_right fun ⟨hplan, hnil⟩ => ⟨hplan, fun j => ?_⟩
    show (σ.perform i e).store.pending j = []
    rw [hpending]
    by_cases hji : j = i
    · subst hji
      exact rollback_pending_self
    · rw [rollback_pending_ne hji]
      exact hnil j hji
  answered j hw := by
    rw [worker_goto hs] at hw
    split at hw
    · simp only [Option.some.injEq, StartupPc.finished.injEq] at hw
      exact answered hw
    · exact kept (h.answered j hw)

theorem StartupState.Sound.move {pc pc' : StartupPc} {e : StartupEffect} (h : σ.Sound bcrypt)
    (hs : σ.workers[i]? = some pc) (m : StartupMove bcrypt σ i pc e pc') :
    ((σ.perform i e).goto i pc').Sound bcrypt := by
  have close : ∀ {answer : Except AuthExc Unit},
      (answer = .ok () ∨ answer = .error (.exc .integrityError) → σ.tables ≠ .empty) →
      ((σ.perform i .close).goto i (.finished answer)).Sound bcrypt := fun answered =>
    h.finish hs rfl rfl (h.tables.imp_right fun ⟨hplan, hnil⟩ => ⟨hplan, fun j _ => hnil j⟩) id answered
  cases m with
  | found hfound =>
    refine close fun _ hempty => hfound ?_
    rw [σ.view_eq, hempty, h.idle i fun plan rest hw => by simp [hs] at hw]
    rfl
  | failed hne =>
    refine close fun hans => ?_
    rcases hans with hans | hans
    · cases hans
    · cases hans
      exact absurd rfl hne
  | @conflict plan row rest k hk held =>
    refine close fun _ hempty => ?_
    obtain ⟨hvalid, hrows⟩ := h.inserting i _ _ hs
    rw [σ.view_eq, hempty] at held
    exact hvalid.not_holds hrows hk held
  | @planned plan hvalid =>
    have hnil : σ.store.pending i = [] := h.idle i fun plan rest hw => by simp [hs] at hw
    exact {
      idle := fun j hj => by
        by_cases hji : j = i
        · exact hji ▸ hnil
        · exact h.idle j fun plan rest hw => hj plan rest (by rw [worker_goto hs, if_neg hji, hw])
      inserting := fun j plan' rest hw => by
        rw [worker_goto hs] at hw
        split at hw
        · rename_i hji
          cases hw
          subst hji
          exact ⟨hvalid, by rw [show ((σ.perform j .read).goto j _).store.pending j = [] from hnil, List.nil_append]⟩
        · exact h.inserting j plan' rest hw
      owners := h.owners
      tables := h.tables
      answered := fun j hw => by
        rw [worker_goto hs] at hw
        split at hw
        · simp at hw
        · exact h.answered j hw }
  | @inserted plan row rest free new =>
    obtain ⟨hvalid, hrows⟩ := h.inserting i _ _ hs
    -- On seeded tables the row is the first of its plan, and its email is taken.
    have hempty : σ.tables = .empty := by
      rcases h.tables with hempty | ⟨⟨plan', hvalid', heq⟩, hnil⟩
      · exact hempty
      · obtain ⟨a, rest', hfirst, hemail⟩ := hvalid.rows_eq
        rw [hnil i, hfirst, List.nil_append, List.cons.injEq] at hrows
        refine absurd ?_ (new .first ?_)
        · rw [σ.view_eq, hnil i, heq]
          exact hvalid'.holds_first
        · rw [← hrows.1, SeedInsert.keys, hemail]
          exact List.mem_cons_of_mem _ (List.mem_singleton_self _)
    have hself : (σ.perform i (.insert row)).store.pending i = σ.store.pending i ++ [row] := write_pending_self
    have hother : ∀ {j}, j ≠ i → (σ.perform i (.insert row)).store.pending j = σ.store.pending j := write_pending_ne
    exact {
      idle := fun j hj => by
        by_cases hji : j = i
        · exact absurd (by rw [worker_goto hs, if_pos hji]) (hj plan rest)
        · exact (hother hji).trans (h.idle j fun plan rest hw => hj plan rest (by rw [worker_goto hs, if_neg hji, hw]))
      inserting := fun j plan' rest' hw => by
        rw [worker_goto hs] at hw
        split at hw
        · rename_i hji
          cases hw
          subst hji
          exact ⟨hvalid, by
            rw [show ((σ.perform j (.insert row)).goto j _).store.pending j = _ from hself, hrows,
              List.append_assoc]; rfl⟩
        · rename_i hji
          exact ⟨(h.inserting j plan' rest' hw).1, (h.inserting j plan' rest' hw).2.trans (by rw [← hother hji]; rfl)⟩
      owners := fun j k => by
        refine (acquire_owner_eq free).trans ?_
        show _ ↔ ∃ x ∈ (σ.perform i (.insert row)).store.pending j, k ∈ x.keys
        by_cases hji : j = i
        · subst hji
          rw [hself, h.owners]
          simp only [true_and, List.mem_append, List.mem_singleton, or_and_right, exists_or, exists_eq_left]
        · rw [hother hji, h.owners]
          simp only [hji, false_and, or_false]
      tables := Or.inl hempty
      answered := fun j hw => by
        rw [worker_goto hs] at hw
        split at hw
        · simp at hw
        · exact h.answered j hw }
  | @committed plan =>
    obtain ⟨hvalid, hrows⟩ := h.inserting i _ _ hs
    rw [List.append_nil] at hrows
    have hne : σ.store.pending i ≠ [] := by
      obtain ⟨a, rest, hfirst, -⟩ := hvalid.rows_eq
      rw [← hrows, hfirst]
      exact List.cons_ne_nil _ _
    have hempty : σ.tables = .empty := h.tables.resolve_right fun ⟨_, hnil⟩ => hne (hnil i)
    have hview : (σ.perform i .commit).tables = plan.tables := by
      show σ.store.view i = plan.tables
      rw [σ.view_eq, hempty, ← hrows, plan.addAll_rows]
    have hseeded : (σ.perform i .commit).tables ≠ .empty := by
      rw [hview]
      exact SeedTables.ne_empty_of_holds hvalid.holds_first
    refine h.finish hs rfl rfl (Or.inr ⟨⟨plan, hvalid, hview⟩, fun j hj => ?_⟩) (fun _ => hseeded) fun _ => hseeded
    by_contra hpending
    exact hj (h.sole hpending hne)

theorem StartupState.Sound.step {a : StartupAct} (h : σ.Sound bcrypt) (hstep : startupStep bcrypt σ a = some τ) :
    τ.Sound bcrypt := by
  cases startupStep_stepped hstep with
  | start =>
    have hold : ∀ {j : Sid} {pc : StartupPc}, (σ.workers ++ [.find])[j]? = some pc → pc = .find ∨
      σ.workers[j]? = some pc := by
      intro j pc hw
      rw [List.getElem?_append] at hw
      split at hw
      · exact Or.inr hw
      · exact Or.inl (List.mem_singleton.mp (List.mem_of_getElem? hw))
    exact {
      idle := fun j hj => h.idle j fun plan rest hw =>
        hj plan rest (by rw [List.getElem?_append_left (List.getElem?_eq_some_iff.mp hw).1, hw])
      inserting := fun j plan rest hw => by
        rcases hold hw with hfind | hw
        · cases hfind
        · exact h.inserting j plan rest hw
      owners := h.owners
      tables := h.tables
      answered := fun j hw => by
        rcases hw with hw | hw <;> rcases hold hw with hfind | hw
        · cases hfind
        · exact h.answered j (Or.inl hw)
        · cases hfind
        · exact h.answered j (Or.inr hw) }
  | moved hs m => exact h.move hs m
  | tick d => exact ⟨h.idle, h.inserting, h.owners, h.tables, h.answered⟩

theorem sound_fresh (now : Time) : (StartupState.fresh now).Sound bcrypt where
  idle _ _ := rfl
  inserting i plan rest hw := by cases hw
  owners i k := by
    constructor
    · intro h
      cases h
    · rintro ⟨row, hrow, -⟩
      cases hrow
  tables := Or.inl rfl
  answered i hw := by rcases hw with hw | hw <;> cases hw

theorem sound_of_run {now : Time} {acts : List StartupAct}
    (run : exec (startupStep bcrypt) (.fresh now) acts = some σ) :
    σ.Sound bcrypt :=
  exec_invariant_of_step (fun _ _ _ h hstep => h.step hstep) (sound_fresh now) run

/-- Tables that are seeded stay as they are. -/
theorem StartupState.Sound.tables_step {a : StartupAct} (h : σ.Sound bcrypt) (seeded : σ.tables ≠ .empty)
    (hstep : startupStep bcrypt σ a = some τ) : τ.tables = σ.tables := by
  cases startupStep_stepped hstep with
  | start => rfl
  | moved hs m =>
    cases m with
    | committed =>
      obtain ⟨hvalid, hrows⟩ := h.inserting _ _ _ hs
      obtain ⟨a, rest, hfirst, -⟩ := hvalid.rows_eq
      obtain ⟨-, hnil⟩ := h.tables.resolve_left seeded
      rw [hnil, hfirst] at hrows
      cases hrows
    | _ => rfl
  | tick d => rfl

/-- The worker has seeded the database, or failed. -/
def StartupPc.isFinished : StartupPc → Bool
  | .finished _ => true
  | _ => false

theorem startupStep_run {c : StartupChoice} {pc pc' : StartupPc} {e : StartupEffect} (hs : σ.workers[i]? = some pc)
    (hc : seedStatement bcrypt σ i c pc = some (e, pc')) :
    startupStep bcrypt σ (.run i c) = some ((σ.perform i e).goto i pc') := by
  simp only [startupStep, hs, hc, Option.bind_eq_bind, Option.bind_some]

variable (bcrypt) in
theorem seedStatement_isSome {pc : StartupPc} (c : StartupChoice) (hpc : pc.isFinished = false)
    (free : ∀ plan row rest, pc = .insert plan (row :: rest) → ∀ k ∈ row.keys, σ.store.Free i k) :
    ∃ e pc', seedStatement bcrypt σ i c pc = some (e, pc') := by
  cases pc with
  | find =>
    simp only [seedStatement]
    split
    · exact ⟨_, _, rfl⟩
    · split <;> exact ⟨_, _, rfl⟩
  | insert plan rest =>
    cases rest with
    | nil => exact ⟨_, _, rfl⟩
    | cons row rest =>
      simp only [seedStatement, if_pos (free plan row rest rfl)]
      split <;> exact ⟨_, _, rfl⟩
  | finished answer => cases hpc

/-- What a worker needs is free when no other worker has pending rows. -/
theorem StartupState.Sound.free (h : σ.Sound bcrypt) (sole : ∀ j, j ≠ i → σ.store.pending j = []) (k : SeedKey) :
    σ.store.Free i k := by
  cases howner : σ.store.owner k with
  | none => exact Or.inl howner
  | some j =>
    obtain ⟨row, hrow, -⟩ := (h.owners j k).mp howner
    by_cases hji : j = i
    · exact Or.inr (hji ▸ howner)
    · rw [sole j hji] at hrow
      cases hrow

/-- As long as not every worker has ended some worker can run: the one that others wait for waits for nobody. -/
theorem StartupState.Sound.exists_run {pc : StartupPc} (h : σ.Sound bcrypt) (hs : σ.workers[i]? = some pc)
    (hpc : pc.isFinished = false) (c : StartupChoice) : ∃ j τ, startupStep bcrypt σ (.run j c) = some τ := by
  by_cases hwriter : ∃ j, σ.store.pending j ≠ []
  · obtain ⟨j, hj⟩ := hwriter
    obtain ⟨plan, rest, hw⟩ : ∃ plan rest, σ.workers[j]? = some (.insert plan rest) := by
      by_contra hno
      exact hj (h.idle j fun plan rest hw => hno ⟨plan, rest, hw⟩)
    have sole : ∀ l, l ≠ j → σ.store.pending l = [] := fun l hl => by_contra fun hne => hl (h.sole hne hj)
    obtain ⟨e, pc', hc⟩ := seedStatement_isSome bcrypt c
      (show (StartupPc.insert plan rest).isFinished = false from rfl) fun _ _ _ _ k _ => h.free sole k
    exact ⟨j, _, startupStep_run hw hc⟩
  · have sole : ∀ l, l ≠ i → σ.store.pending l = [] := fun l _ => by_contra fun hne => hwriter ⟨l, hne⟩
    obtain ⟨e, pc', hc⟩ := seedStatement_isSome bcrypt c hpc fun _ _ _ _ k _ => h.free sole k
    exact ⟨i, _, startupStep_run hs hc⟩

/-- A worker that is the only one to have pending rows can insert the rest of its rows and commit. -/
theorem StartupState.Sound.seeds {rest : List SeedInsert} (h : σ.Sound bcrypt)
    (hs : σ.workers[i]? = some (.insert plan rest)) (hempty : σ.tables = .empty)
    (sole : ∀ j, j ≠ i → σ.store.pending j = []) (c : StartupChoice) :
    ∃ τ, exec (startupStep bcrypt) σ (List.replicate (rest.length + 1) (.run i c)) = some τ ∧
      τ.tables = plan.tables := by
  induction rest generalizing σ with
  | nil =>
    obtain ⟨-, hrows⟩ := h.inserting i _ _ hs
    rw [List.append_nil] at hrows
    refine ⟨(σ.perform i .commit).goto i (.finished (.ok ())), ?_, ?_⟩
    · exact Option.bind_eq_some_iff.mpr ⟨_, startupStep_run hs rfl, rfl⟩
    · show σ.store.view i = plan.tables
      rw [σ.view_eq, hempty, ← hrows, plan.addAll_rows]
  | cons row rest ih =>
    obtain ⟨hvalid, hrows⟩ := h.inserting i _ _ hs
    have new : ¬∃ k ∈ row.keys, (σ.store.view i).Holds k := by
      rintro ⟨k, hk, held⟩
      rw [σ.view_eq, hempty] at held
      exact hvalid.not_holds hrows hk held
    have hstep : startupStep bcrypt σ (.run i c) = some ((σ.perform i (.insert row)).goto i (.insert plan rest)) :=
      startupStep_run hs (by simp only [seedStatement, if_pos fun k (_ : k ∈ row.keys) => h.free sole k, if_neg new])
    obtain ⟨τ, run, hτ⟩ := ih (h.step hstep) (by rw [worker_goto hs, if_pos rfl]) hempty
      (fun j hj => (write_pending_ne hj).trans (sole j hj))
    exact ⟨τ, Option.bind_eq_some_iff.mpr ⟨_, hstep, run⟩, hτ⟩

/-- However many workers start, in whatever order their statements run and whichever of them fail: the database is
    empty or has the rows of one seed, which stay as they are. A worker that serves, and one that lost the race for
    the seed, leave it seeded, and one that begins then has nothing to do. No worker waits for ever, and the first one
    to insert can seed it. -/
theorem seeded_once {now : Time} {acts : List StartupAct} (run : exec (startupStep bcrypt) (.fresh now) acts = some σ) :
    (σ.tables = .empty ∨ ∃ plan : SeedPlan, plan.Valid bcrypt ∧ σ.tables = plan.tables) ∧
      (∀ i : Sid, σ.workers[i]? = some (.finished (.ok ())) ∨
        σ.workers[i]? = some (.finished (.error (.exc .integrityError))) →
        σ.tables ≠ .empty) ∧
      (σ.tables ≠ .empty → ∀ acts' τ, exec (startupStep bcrypt) σ acts' = some τ → τ.tables = σ.tables) ∧
      (σ.tables ≠ .empty → ∀ i c τ, σ.workers[i]? = some .find → startupStep bcrypt σ (.run i c) = some τ →
        τ.workers[i]? = some (.finished (.ok ()))) ∧
      ((∃ pc ∈ σ.workers, pc.isFinished = false) → ∀ c, ∃ i τ, startupStep bcrypt σ (.run i c) = some τ) ∧
      ∀ i plan rest, σ.workers[i]? = some (.insert plan rest) → σ.store.pending i ≠ [] → ∀ c, ∃ τ,
        exec (startupStep bcrypt) σ (List.replicate (rest.length + 1) (.run i c)) = some τ ∧
          τ.tables = plan.tables := by
  have h := sound_of_run run
  refine ⟨h.tables.imp_right And.left, h.answered, fun seeded acts' τ run' => ?_, fun seeded i c τ hs hstep => ?_,
    ?_, ?_⟩
  · exact (exec_invariant_of_step (I := fun υ : StartupState => υ.Sound bcrypt ∧ υ.tables = σ.tables)
      (fun _ _ _ ⟨hs, heq⟩ hstep => ⟨hs.step hstep, (hs.tables_step (heq ▸ seeded) hstep).trans heq⟩) ⟨h, rfl⟩ run').2
  · obtain ⟨⟨plan, hvalid, heq⟩, hnil⟩ := h.tables.resolve_left seeded
    have htrains : (σ.store.view i).trains ≠ [] := by
      rw [σ.view_eq, hnil i, heq]
      exact List.cons_ne_nil _ _
    rw [startupStep_run hs (if_pos htrains), Option.some.injEq] at hstep
    rw [← hstep, worker_goto hs, if_pos rfl]
  · rintro ⟨pc, hmem, hpc⟩ c
    obtain ⟨i, hs⟩ := List.mem_iff_getElem?.mp hmem
    exact h.exists_run hs hpc c
  · intro i plan rest hs hne c
    refine h.seeds hs (h.tables.resolve_right fun ⟨_, hnil⟩ => hne (hnil i)) (fun j hj => ?_) c
    exact by_contra fun hpending => hj (h.sole hpending hne)

/-- Two workers find no train, and the first one inserts its first row. -/
def startupRace : List StartupAct :=
  [.start, .start, .run 0 ⟨sampleIds, fun _ => 0⟩, .run 1 ⟨sampleIds, fun _ => 1⟩, .run 0 ⟨sampleIds, fun _ => 0⟩]

/-- The first worker then seeds the database. -/
theorem seeded_once_race : ∃ σ τ : StartupState, ∃ (plan : SeedPlan) (n : Nat), σ.workers.length = 2 ∧
    exec (startupStep documentedBcrypt) σ (List.replicate n (.run 0 ⟨sampleIds, fun _ => 0⟩)) = some τ ∧
    τ.tables = plan.tables := by
  have hrun : (exec (startupStep documentedBcrypt) (.fresh 0) startupRace).any (fun σ : StartupState =>
      decide (σ.workers.length = 2 ∧ σ.store.pending 0 ≠ []) && (σ.workers[0]?).any fun pc =>
        pc matches .insert _ _) = true := by
    decide
  obtain ⟨σ, run, htest⟩ := (Option.any_eq_true _ _).mp hrun
  obtain ⟨hstate, hw⟩ := Bool.and_eq_true_iff.mp htest
  obtain ⟨hworkers, hne⟩ := of_decide_eq_true hstate
  obtain ⟨pc, hs, hpc⟩ := (Option.any_eq_true _ _).mp hw
  cases pc with
  | insert plan rest =>
    obtain ⟨τ, run', hτ⟩ := (seeded_once run).2.2.2.2.2 0 plan rest hs hne ⟨sampleIds, fun _ => 0⟩
    exact ⟨σ, τ, plan, _, hworkers, run', hτ⟩
  | _ => cases hpc

end

end Railbook
