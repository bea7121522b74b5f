import Railbook.Growth
import Mathlib.Data.Fintype.EquivFin

/-! The statements of `create_booking`, each with what it needs to find to go on, and what a request that succeeds has
    found. -/

namespace Railbook
open ReadCommitted Transition

/-- A run of the requests that are there: no other request arrives, and no statement fails for a reason outside the
    service. -/
def Act.isQuiet : Act → Bool
  | run _ _ | tick _ => true
  | _ => false

/-- The session has ended. -/
def Task.isFinished : Task → Bool
  | .create _ (.finished _) | .pay _ (.finished _) | .refund _ (.finished _) | .cleanup (.finished _) => true
  | _ => false

/-- Every request has been answered. -/
def State.AllFinished (σ : State) : Prop := ∀ s ∈ σ.sessions, s.task.isFinished = true

/-- What `create_booking` has to find for a seat that has no row. -/
structure Bookable (cat : Catalog) (d : Db) (q : CreateRequest) : Prop where
  unused : ∀ b ∈ d.bookings, b.idempotencyKey ≠ q.idempotencyKey
  vacant : ∀ b ∈ d.bookings, ¬(b.scheduleId = q.scheduleId ∧ b.seatId = q.seatId)
  journey : ∃ schedule, cat.schedule? q.scheduleId = some schedule ∧
    ∀ b ∈ d.bookings, overlaps cat schedule q.userId b = false
  seat : (cat.seat? q.seatId).isSome = true
  user : (cat.user? q.userId).isSome = true

/-- One `create_booking` on its own can return a booking. -/
def Succeeds (cat : Catalog) (σ : State) (q : CreateRequest) : Prop :=
  ∃ acts τ began b, exec (step cat) (σ.alone [.create q]) acts = some τ ∧ (∀ a ∈ acts, a.isQuiet = true) ∧
    τ.sessions[0]? = some ⟨began, .create q (.finished (.ok b))⟩

/-- What a request on its own has found when it is at a program counter. -/
def CreatePc.Knows (cat : Catalog) (d : Db) (q : CreateRequest) : CreatePc → Prop
  | checkKey => True
  | lockSeat => ∀ b ∈ d.bookings, b.idempotencyKey ≠ q.idempotencyKey
  | awaitSeat id => (∀ b ∈ d.bookings, b.idempotencyKey ≠ q.idempotencyKey) ∧ ∃ b ∈ d.bookings, b.id = id
  | checkOverlap none =>
    (∀ b ∈ d.bookings, b.idempotencyKey ≠ q.idempotencyKey) ∧
      ∀ b ∈ d.bookings, ¬(b.scheduleId = q.scheduleId ∧ b.seatId = q.seatId)
  | getSeat none => (cat.seat? q.seatId).isSome = true → (cat.user? q.userId).isSome = true → Bookable cat d q
  | insertKey _ | insertSeat _ => (cat.user? q.userId).isSome = true → Bookable cat d q
  | audit _ | commit _ | invalidate _ => Bookable cat d q
  | finished (.ok _) => (∃ b ∈ d.bookings, b.idempotencyKey = q.idempotencyKey) ∨ Bookable cat d q
  | _ => True

section
variable {cat : Catalog} {σ τ : State} {i j : Sid} {began : Time} {q : CreateRequest} {x : Choice} {b : Booking}
  {id : Uuid}

/-! ### One statement -/

theorem create_unused (h : ∀ b ∈ (σ.view i).bookings, b.idempotencyKey ≠ q.idempotencyKey) :
    createBooking cat σ i began q x .checkKey = some (.read, .lockSeat) := by
  have hnil : (σ.view i).bookings.filter (·.idempotencyKey = q.idempotencyKey) = [] := by
    simpa [List.filter_eq_nil_iff] using h
  simp only [createBooking, hnil, scalarOneOrNone]

theorem create_found (h : (σ.view i).bookings.filter (·.idempotencyKey = q.idempotencyKey) = [b]) :
    createBooking cat σ i began q x .checkKey = some (.close, .finished (.ok b)) := by
  simp only [createBooking, h, scalarOneOrNone]

theorem create_vacant (h : ∀ b ∈ (σ.view i).bookings, ¬(b.scheduleId = q.scheduleId ∧ b.seatId = q.seatId)) :
    createBooking cat σ i began q x .lockSeat = some (.read, .checkOverlap none) := by
  have hnone : ((σ.view i).bookings.find? fun b => b.scheduleId = q.scheduleId ∧ b.seatId = q.seatId) = none := by
    simpa [List.find?_eq_none] using h
  simp only [createBooking, hnone]

theorem create_stored
    (h : ((σ.view i).bookings.find? fun b => b.scheduleId = q.scheduleId ∧ b.seatId = q.seatId) = some b) :
    createBooking cat σ i began q x .lockSeat = some (.read, .awaitSeat b.id) := by
  simp only [createBooking, h]

theorem create_booked {e : Effect} {pc : CreatePc} (hb : (σ.view i).booking? id = some b)
    (hact : b.status.isActive = true) (h : createBooking cat σ i began q x (.awaitSeat id) = some (e, pc)) :
    pc = .finished (.error (httpError 409 "Seat already booked for this schedule")) := by
  by_cases free : σ.store.Free i (.bookingRow id)
  · simp only [createBooking, free, if_true, hb, hact] at h
    cases h
    rfl
  · simp only [createBooking, free, if_false] at h
    cases h

theorem create_disjoint {existing : Option Booking} {schedule : Schedule}
    (hs : cat.schedule? q.scheduleId = some schedule)
    (h : ∀ b ∈ (σ.view i).bookings, overlaps cat schedule q.userId b = false) :
    createBooking cat σ i began q x (.checkOverlap existing) = some (.read, .getSeat existing) := by
  have hnil : (σ.view i).bookings.filter (overlaps cat schedule q.userId) = [] := by
    simpa [List.filter_eq_nil_iff] using h
  simp only [createBooking, hs, hnil, scalarOneOrNone]

theorem create_overlapping {existing : Option Booking} {schedule : Schedule}
    (hs : cat.schedule? q.scheduleId = some schedule)
    (h : (σ.view i).bookings.filter (overlaps cat schedule q.userId) = [b]) :
    createBooking cat σ i began q x (.checkOverlap existing) =
      some (.close, .finished (.error (httpError 409 "You have an overlapping journey"))) := by
  simp only [createBooking, hs, h, scalarOneOrNone]

theorem create_priced (σ : State) (i : Sid) (began : Time) (x : Choice) (hx : (cat.seat? q.seatId).isSome = true) :
    ∃ price,
    createBooking cat σ i began q x (.getSeat none) = some (.read, .insertKey (newBooking σ began q price)) ∧
      ∀ e, createBooking cat σ i began q x (.getSeat (some e)) = some (.read, .delete e price) := by
  obtain ⟨seat, hx⟩ := Option.isSome_iff_exists.mp hx
  obtain ⟨compartment, hc⟩ := Catalog.compartment?_of_seat (find?_key_eq_some hx).1
  exact ⟨calculatePrice compartment.compType, by simp only [createBooking, hx, hc], fun e => by
    simp only [createBooking, hx, hc]⟩

theorem Inv.exists_freshId (h : Inv σ) : ∃ id, σ.FreshId id := by
  let ids : Resource → Uuid
    | .bookingRow id => id
    | _ => 0
  obtain ⟨id, hid⟩ := Infinite.exists_notMem_finset
    (σ.db.bookings.map (·.id) ++ (σ.sessions.flatMap (·.task.owned)).map ids).toFinset
  simp only [List.mem_toFinset, List.mem_append, not_or] at hid
  refine ⟨id, fun b hb hb' => hid.1 (List.mem_map.mpr ⟨b, hb, hb'⟩), ?_⟩
  cases ho : σ.store.owner (.bookingRow id) with
  | none => rfl
  | some j =>
    have hown := (h.own j _).mp ho
    rw [State.owned] at hown
    cases hs : σ.sessions[j]? with
    | none =>
      rw [hs] at hown
      cases hown
    | some s =>
      rw [hs] at hown
      have hmem : .bookingRow id ∈ σ.sessions.flatMap (·.task.owned) :=
        List.mem_flatMap.mpr ⟨s, List.mem_of_getElem? hs, hown⟩
      exact absurd (List.mem_map_of_mem (f := ids) hmem) hid.2

theorem Inv.free_of_length (h : Inv σ) (hlen : σ.sessions.length = 1) (r : Resource) : σ.store.Free 0 r := by
  cases ho : σ.store.owner r with
  | none => exact Or.inl ho
  | some j =>
    have hown := (h.own j r).mp ho
    rw [State.owned] at hown
    cases j with
    | zero => exact Or.inr ho
    | succ n =>
      rw [List.getElem?_eq_none (by omega)] at hown
      cases hown

theorem create_keyed (fresh : σ.FreshId x.uuid) (free : σ.store.Free i (.bookingKey q.idempotencyKey))
    (h : ∀ b ∈ (σ.view i).bookings, b.idempotencyKey ≠ q.idempotencyKey) :
    createBooking cat σ i began q x (.insertKey b) = some (.lock [.bookingRow x.uuid, .bookingKey q.idempotencyKey],
      .insertSeat { b with id := x.uuid }) := by
  have hany : ((σ.view i).bookings.any fun b => b.idempotencyKey = q.idempotencyKey) = false := by
    simpa [List.any_eq_false] using h
  simp only [createBooking, fresh, free, and_self, if_true, hany, Bool.false_eq_true, if_false]

/-- The primary key is new and nobody else is inserting the key, or the statement waits. -/
theorem insertKey_free {e : Effect} {pc : CreatePc}
    (h : createBooking cat σ i began q x (.insertKey b) = some (e, pc)) :
    σ.FreshId x.uuid ∧ σ.store.Free i (.bookingKey q.idempotencyKey) := by
  by_contra hn
  simp only [createBooking, hn, if_false] at h
  cases h

theorem create_keyTaken {e : Effect} {pc : CreatePc}
    (hb : ∃ b ∈ (σ.view i).bookings, b.idempotencyKey = q.idempotencyKey)
    (h : createBooking cat σ i began q x (.insertKey b) = some (e, pc)) : pc = .finished (.error .integrityError) := by
  have hany : ((σ.view i).bookings.any fun b => b.idempotencyKey = q.idempotencyKey) = true := by
    simpa [List.any_eq_true] using hb
  simp only [createBooking, insertKey_free h, and_self, if_true, hany] at h
  cases h
  rfl

theorem insertSeat_free {e : Effect} {pc : CreatePc}
    (h : createBooking cat σ i began q x (.insertSeat b) = some (e, pc)) :
    σ.store.Free i (.bookingSeat q.scheduleId q.seatId) := by
  by_contra hn
  simp only [createBooking, hn, if_false] at h
  cases h

theorem create_seated (free : σ.store.Free i (.bookingSeat q.scheduleId q.seatId))
    (h : ∀ b ∈ (σ.view i).bookings, ¬(b.scheduleId = q.scheduleId ∧ b.seatId = q.seatId))
    (hu : (cat.user? q.userId).isSome = true) (hs : (cat.schedule? q.scheduleId).isSome = true)
    (hx : (cat.seat? q.seatId).isSome = true) :
    createBooking cat σ i began q x (.insertSeat b) =
      some (.flush [.bookingSeat q.scheduleId q.seatId] [.insertBooking b] 0, .audit b) := by
  have hany : ((σ.view i).bookings.any fun b => b.scheduleId = q.scheduleId ∧ b.seatId = q.seatId) = false := by
    simpa [List.any_eq_false] using h
  simp only [createBooking, free, if_true, hany, Bool.false_eq_true, if_false, Option.isNone_eq_false_iff.mpr hu,
    Option.isNone_eq_false_iff.mpr hs, Option.isNone_eq_false_iff.mpr hx, Bool.or_self]

theorem create_seatTaken {e : Effect} {pc : CreatePc}
    (hb : ∃ b ∈ (σ.view i).bookings, b.scheduleId = q.scheduleId ∧ b.seatId = q.seatId)
    (h : createBooking cat σ i began q x (.insertSeat b) = some (e, pc)) : pc = .finished (.error .integrityError) := by
  have hany : ((σ.view i).bookings.any fun b => b.scheduleId = q.scheduleId ∧ b.seatId = q.seatId) = true := by
    simpa [List.any_eq_true] using hb
  simp only [createBooking, insertSeat_free h, if_true, hany] at h
  cases h
  rfl

/-! ### A request on its own -/

theorem CreateMove.knows {e : Effect} {pc pc' : CreatePc} {d : Db} (inv : Inv σ)
    (hs : σ.sessions[i]? = some ⟨began, .create q pc⟩) (hview : pc.inserted = none → σ.view i = d)
    (h : pc.Knows cat d q) (m : CreateMove cat σ i began q pc e pc') : pc'.Knows cat d q := by
  cases m with
  | found hb hkey => exact Or.inl ⟨_, hview rfl ▸ hb, hkey⟩
  | unused hk => exact hview rfl ▸ hk
  | stored hb hsch hx => exact ⟨h, _, hview rfl ▸ hb, rfl⟩
  | vacant hv => exact ⟨h, hview rfl ▸ hv⟩
  | gone hg =>
    obtain ⟨-, b, hb, hid⟩ := h
    exact absurd hid (hg b (hview rfl ▸ hb))
  | released free hb hst => trivial
  | @disjoint existing schedule hsch hov =>
    cases existing with
    | none => exact fun hx hu => ⟨h.1, h.2, ⟨schedule, hsch, hview rfl ▸ hov⟩, hx, hu⟩
    | some e => trivial
  | priced compType hx => exact h hx
  | replace compType => trivial
  | deleted hp ha => exact (inv.not_deleted hs ha).elim
  | keyed fresh free hk => exact h
  | seated free hx hu => exact h hu
  | audited => exact h
  | committed => exact h
  | invalidated => exact Or.inr h
  | failed x hx => trivial

/-- The program counters before the commit. -/
def CreatePc.isOpen : CreatePc → Bool
  | invalidate _ | finished _ => false
  | _ => true

/-- The only session runs `q`, on the tables `d` until it commits. -/
structure State.Solo (cat : Catalog) (σ : State) (d : Db) (q : CreateRequest) : Prop where
  inv : Inv σ
  own : σ.InsertsOwn
  session : ∃ began pc, σ.sessions = [⟨began, .create q pc⟩] ∧ pc.Knows cat d q ∧ (pc.isOpen = true → σ.db = d)

theorem State.Solo.step {a : Act} {d : Db} (h : σ.Solo cat d q) (quiet : a.isQuiet = true)
    (hstep : step cat σ a = some τ) :
    τ.Solo cat d q where
  inv := h.inv.step hstep
  own := h.own.step h.inv hstep
  session := by
    obtain ⟨began, pc, hsessions, knows, hdb⟩ := h.session
    cases step_stepped hstep with
    | @run i x s e t hs hc m =>
      have hi : i = 0 ∧ s = ⟨began, .create q pc⟩ := by
        rw [hsessions] at hs
        cases i with
        | zero => exact ⟨rfl, (Option.some.inj hs).symm⟩
        | succ n => cases hs
      obtain ⟨rfl, rfl⟩ := hi
      cases m with
      | @create _ _ _ pc' _ m =>
        have hview : pc.inserted = none → pc.isOpen = true → σ.view 0 = d :=
          fun hpc ho => (h.own.view hs hpc).trans (hdb ho)
        have hopen : pc.isOpen = true ∨ pc'.Knows cat d q := by
          cases m with
          | invalidated => exact Or.inr (Or.inr knows)
          | failed y hy => exact Or.inr trivial
          | _ => exact Or.inl rfl
        refine ⟨began, pc', ?_, hopen.elim (fun ho => m.knows h.inv hs (fun hpc => hview hpc ho) knows) id,
          fun ho => ?_⟩
        · refine List.ext_getElem? fun j => ?_
          cases j with
          | zero => exact goto_sessions_self hs
          | succ n =>
            rw [goto_sessions_ne (Nat.succ_ne_zero n), hsessions]
            rfl
        · have hpc : pc.isOpen = true := by
            cases m with
            | invalidated => cases ho
            | failed y hy => cases ho
            | _ => rfl
          rcases perform_db σ 0 e with he | ⟨rfl, -⟩
          · exact he.trans (hdb hpc)
          · cases m with
            | committed => cases ho
    | tick n => exact ⟨began, pc, hsessions, knows, hdb⟩
    | _ => cases quiet

theorem State.Solo.start (hr : Reachable cat σ) : (σ.alone [.create q]).Solo cat σ.db q where
  inv := (inv_of_reachableBy hr).alone _
  own := by
    refine ⟨fun _ _ _ _ _ _ => rfl, fun i began q' pc b hs hpc => ?_, fun _ _ hmem => (nomatch hmem)⟩
    cases i with
    | zero =>
      cases hs
      cases hpc
    | succ n => cases hs
  session := ⟨σ.now, .checkKey, rfl, trivial, fun _ => rfl⟩

/-- A request that returns a booking on its own has found one under its key, or it was bookable. -/
theorem succeeds_inv (hr : Reachable cat σ) (h : Succeeds cat σ q) :
    (∃ b ∈ σ.db.bookings, b.idempotencyKey = q.idempotencyKey) ∨ Bookable cat σ.db q := by
  obtain ⟨acts, τ, began, b, run, quiet, hs⟩ := h
  have solo : τ.Solo cat σ.db q :=
    exec_invariant_of_mem (I := fun υ : State => υ.Solo cat σ.db q)
      (fun _ _ _ h quiet hstep => State.Solo.step h quiet hstep)
      (.start hr) quiet run
  obtain ⟨began', pc, hsessions, knows, -⟩ := solo.session
  rw [hsessions] at hs
  cases hs
  exact knows

end

end Railbook
