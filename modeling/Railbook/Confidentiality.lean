import Railbook.Inserts
import Railbook.Bookings.Reads

/-! Who sees whose bookings. `GET /bookings` asks for the rows of the user; `GET /bookings/{id}` asks for the row
    under the id, whoever it belongs to, and for an id without a row it reads an attribute of `None`. -/

namespace Railbook
open ReadCommitted Transition

/-- The booking under the id belongs to the user. -/
def Db.owns (d : Db) (user id : Uuid) : Bool := d.bookings.any fun b => b.id == id && b.userId == user

/-- The tables agree on the rows about the bookings of the user. -/
structure Db.AgreesFor (user : Uuid) (d d' : Db) : Prop where
  bookings : (d.bookings.filter (·.userId == user)).Perm (d'.bookings.filter (·.userId == user))
  payments : (d.payments.filter fun p => d.owns user p.bookingId).Perm
    (d'.payments.filter fun p => d'.owns user p.bookingId)
  auditTrail : (d.auditTrail.filter fun a => d.owns user a.bookingId).Perm
    (d'.auditTrail.filter fun a => d'.owns user a.bookingId)

/-- The tables allow this answer of `GET /bookings`, for some order in which they are scanned. -/
def ListsBookings (cat : Catalog) (d : Db) (user : Uuid) (status : Option String)
    (answer : Except Exc (List BookingResponse)) : Prop :=
  ∃ scan : List Booking, scan.Perm d.bookings ∧ Router.listBookings cat scan user status = answer

/-- `GET /bookings` shows the user no row of another user, and nothing of the rows of other users can be told from it.
    It is answered for every status that is a text. -/
structure ListConfidential (cat : Catalog) (σ : State) (user : Uuid) : Prop where
  same : ∀ τ, Reachable cat τ → σ.db.AgreesFor user τ.db → ∀ status answer,
    ListsBookings cat σ.db user status answer ↔ ListsBookings cat τ.db user status answer
  own : ∀ status rs, ListsBookings cat σ.db user status (.ok rs) → ∀ r ∈ rs, r.userId = user
  answered : ∀ status answer, status.all isText = true → ListsBookings cat σ.db user status answer →
    ∃ rs, answer = .ok rs

/-- The same of `GET /bookings/{id}`; an id that names no booking of the user is an HTTP error. -/
structure GetConfidential (cat : Catalog) (σ : State) (user id : Uuid) : Prop where
  same : ∀ τ, Reachable cat τ → σ.db.AgreesFor user τ.db → Router.get cat τ.db user id = Router.get cat σ.db user id
  own : ∀ r, Router.get cat σ.db user id = .ok r → r.id = id ∧ σ.db.owns user id = true
  other : σ.db.owns user id = false → ∃ e, Router.get cat σ.db user id = .error (.http e)

section
variable {cat : Catalog} {σ τ : State} {d d' : Db} {b : Booking} {user id : Uuid} {status : Option String}

theorem Db.owns_iff : d.owns user id = true ↔ ∃ b ∈ d.bookings, b.id = id ∧ b.userId = user := by
  simp [Db.owns]

theorem Db.AgreesFor.symm (h : d.AgreesFor user d') : d'.AgreesFor user d :=
  ⟨h.bookings.symm, h.payments.symm, h.auditTrail.symm⟩

/-! ### The list -/

/-- A scan of the one table has the rows of the user in an order in which a scan of the other may have them. -/
theorem Db.AgreesFor.lists (h : d.AgreesFor user d') {answer : Except Exc (List BookingResponse)}
    (hd : ListsBookings cat d user status answer) : ListsBookings cat d' user status answer := by
  obtain ⟨scan, hscan, rfl⟩ := hd
  let own : Booking → Bool := fun b => b.userId == user
  refine ⟨scan.filter own ++ d'.bookings.filter (!own ·), ?_, ?_⟩
  · have hown : (scan.filter own).Perm (d'.bookings.filter own) := (hscan.filter own).trans h.bookings
    exact (hown.append_right _).trans (List.filter_append_perm own d'.bookings)
  · have hrows : scan.filter own = (scan.filter own ++ d'.bookings.filter (!own ·)).filter own := by
      rw [List.filter_append, List.filter_filter, List.filter_filter]
      simp
    simp only [Router.listBookings, listUserBookings_congr hrows]

theorem mapM_ok {α β : Type} {f : α → Except Exc β} {l : List α} {P : β → Prop} (h : ∀ a ∈ l, ∃ b, f a = .ok b ∧ P b) :
    ∃ bs, l.mapM f = .ok bs ∧ ∀ b ∈ bs, P b := by
  induction l with
  | nil => exact ⟨[], rfl, nofun⟩
  | cons a l ih =>
    obtain ⟨b, hb, hP⟩ := h a List.mem_cons_self
    obtain ⟨bs, hbs, hall⟩ := ih fun a' ha' => h a' (List.mem_cons_of_mem _ ha')
    refine ⟨b :: bs, ?_, ?_⟩
    · rw [List.mapM_cons, hb, hbs]
      rfl
    · intro b' hb'
      rcases List.mem_cons.mp hb' with rfl | hb'
      · exact hP
      · exact hall b' hb'

/-- The rows of the user are all shown. -/
theorem mapM_enrichBooking {scan rows : List Booking} (hr : Reachable cat σ) (hscan : scan.Perm σ.db.bookings)
    (h : listUserBookings scan user status = .ok rows) :
    ∃ rs, (rows.mapM fun b => enrichBooking cat (some b)) = .ok rs ∧ ∀ r ∈ rs, r.userId = user := by
  refine mapM_ok fun b hb => ?_
  obtain ⟨hmem, hu⟩ := mem_listUserBookings h hb
  obtain ⟨-, hs, hx⟩ := (storedKeys_of_reachable hr).stored b (hscan.mem_iff.mp hmem)
  obtain ⟨r, hr, -, hru⟩ := enrichBooking_stored hs hx
  exact ⟨r, hr, hru.trans hu⟩

theorem listConfidential (hr : Reachable cat σ) (user : Uuid) : ListConfidential cat σ user where
  same τ _ agree status answer := ⟨agree.lists, agree.symm.lists⟩
  own status rs h := by
    obtain ⟨scan, hscan, h⟩ := h
    rw [Router.listBookings] at h
    cases hrows : listUserBookings scan user status with
    | error e =>
      rw [hrows] at h
      cases h
    | ok rows =>
      rw [hrows] at h
      obtain ⟨rs', hrs, own⟩ := mapM_enrichBooking hr hscan hrows
      obtain rfl : rs' = rs := Except.ok.inj (hrs.symm.trans h)
      exact own
  answered status answer text h := by
    obtain ⟨scan, hscan, rfl⟩ := h
    obtain ⟨rows, hrows⟩ := listUserBookings_text text
    obtain ⟨rs, hrs, -⟩ := mapM_enrichBooking hr hscan hrows
    exact ⟨rs, by rw [Router.listBookings, hrows]; exact hrs⟩

/-! ### One booking -/

theorem get_stored (inv : Inv σ) (hb : b ∈ σ.db.bookings) :
    Router.get cat σ.db user b.id = enrichBooking cat (some b) := by
  have hrow : σ.db.bookings.filter (·.id == b.id) = [b] := by
    simpa [beq_eq_decide] using filter_key inv.ids_nodup hb
  rw [Router.get, getBooking, hrow]
  rfl

theorem get_missing (h : ∀ b ∈ d.bookings, b.id ≠ id) : Router.get cat d user id = .error .attributeError := by
  have hrow : d.bookings.filter (·.id == id) = [] := List.filter_eq_nil_iff.mpr fun b hb => by simpa using h b hb
  rw [Router.get, getBooking, hrow]
  rfl

theorem getConfidential_iff (hr : Reachable cat σ) :
    GetConfidential cat σ user id ↔ ∃ b ∈ σ.db.bookings, b.id = id ∧ b.userId = user := by
  have inv := inv_of_reachableBy hr
  constructor
  · intro h
    by_cases hstored : ∃ b ∈ σ.db.bookings, b.id = id
    · -- Whoever owns the booking, it is shown.
      obtain ⟨b, hb, rfl⟩ := hstored
      obtain ⟨-, hs, hx⟩ := (storedKeys_of_reachable hr).stored b hb
      obtain ⟨r, hr, -, -⟩ := enrichBooking_stored hs hx
      exact Db.owns_iff.mp (h.own r ((get_stored inv hb).trans hr)).2
    · have hmissing : ∀ b ∈ σ.db.bookings, b.id ≠ id := fun b hb hid => hstored ⟨b, hb, hid⟩
      have hnot : σ.db.owns user id = false := by
        rw [Bool.eq_false_iff, ne_eq, Db.owns_iff]
        exact fun ⟨b, hb, hid, _⟩ => hmissing b hb hid
      obtain ⟨e, he⟩ := h.other hnot
      rw [get_missing hmissing] at he
      cases he
  · rintro ⟨b, hb, rfl, hu⟩
    have howns : σ.db.owns user b.id = true := Db.owns_iff.mpr ⟨b, hb, rfl, hu⟩
    obtain ⟨-, hs, hx⟩ := (storedKeys_of_reachable hr).stored b hb
    obtain ⟨r, hok, hid, -⟩ := enrichBooking_stored hs hx
    constructor
    case same =>
      intro τ hτ agree
      have hrow : b ∈ τ.db.bookings.filter (·.userId == user) :=
        agree.bookings.mem_iff.mp (List.mem_filter.mpr ⟨hb, beq_iff_eq.mpr hu⟩)
      rw [get_stored inv hb, get_stored (inv_of_reachableBy hτ) (List.mem_of_mem_filter hrow)]
    case own =>
      intro r' hr'
      rw [get_stored inv hb, hok] at hr'
      cases hr'
      exact ⟨hid, howns⟩
    case other =>
      intro hnot
      rw [howns] at hnot
      cases hnot

/-- The list of a user is confidential in every reachable state; the answer under an id is exactly when the id names a
    booking of the user. -/
theorem reads_confidential_iff (hr : Reachable cat σ) (user : Uuid) :
    ListConfidential cat σ user ∧
      ∀ id, GetConfidential cat σ user id ↔ ∃ b ∈ σ.db.bookings, b.id = id ∧ b.userId = user :=
  ⟨listConfidential hr user, fun _ => getConfidential_iff hr⟩

/-- User 1 reads the booking that they made. -/
theorem reads_confidential_own : ∃ σ, Reachable sampleCatalog σ ∧ ListConfidential sampleCatalog σ 1 ∧
    GetConfidential sampleCatalog σ 1 60 := by
  have hrun : (exec (step sampleCatalog) (.seeded 0) (.request (.create ⟨1, 20, 40, 50, none⟩) :: runs 0 9 60)).any
      (fun σ : State => ∃ b ∈ σ.db.bookings, b.id = 60 ∧ b.userId = 1) = true := by decide
  obtain ⟨σ, hσ, hb⟩ := reachable_of_run hrun
  exact ⟨σ, hσ, (reads_confidential_iff hσ 1).1, ((reads_confidential_iff hσ 1).2 60).mpr (of_decide_eq_true hb)⟩

/-- User 2 is shown the booking of user 1, and its absence is an unhandled exception. -/
theorem foreign_booking_read : ¬∀ (cat : Catalog) (σ : State), Reachable cat σ →
    ∀ user id, GetConfidential cat σ user id := by
  intro h
  have hrun : (exec (step sampleCatalog) (.seeded 0) (.request (.create ⟨1, 20, 40, 50, none⟩) :: runs 0 9 60)).any
      (fun σ : State => !σ.db.owns 2 60 && decide (Router.get sampleCatalog σ.db 2 60 = .ok
        ⟨60, 1, 20, 40, .reserved, 150000, 0, some (timedeltaMinutes 5), none, none, 50, "Subarna Express",
          "SE-701", "Dhaka", "Chittagong", "AC-1", .ac, 1, timedeltaHours 6, timedeltaHours 12⟩)) = true := by decide
  obtain ⟨σ, hσ, htest⟩ := reachable_of_run hrun
  obtain ⟨hnot, hget⟩ := Bool.and_eq_true_iff.mp htest
  have hown := ((h _ σ hσ 2 60).own _ (of_decide_eq_true hget)).2
  rw [hown] at hnot
  cases hnot

end

end Railbook
