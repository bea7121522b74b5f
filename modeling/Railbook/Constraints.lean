import Railbook.Inserts
import Railbook.Transactions

/-! The constraints that `app/models.py` declares on the three tables, and what their rows say of each other. Each of
    them is kept by every transaction, so it holds after any interleaving of statements. The primary key of
    `payments`, which no statement reads, is not modelled. -/

namespace Railbook
open ReadCommitted Transition

/-- The foreign keys of a booking and its price, and that it may be reserved for five minutes at least. -/
structure Booking.Valid (cat : Catalog) (b : Booking) : Prop where
  user : (cat.user? b.userId).isSome = true
  schedule : (cat.schedule? b.scheduleId).isSome = true
  seat : (cat.seat? b.seatId).isSome = true
  price : cat.price? b.seatId = some b.totalAmount
  expires : ∃ t, b.expiresAt = some t ∧ b.reservedAt + timedeltaMinutes 5 ≤ t

/-- Primary keys, unique constraints and foreign keys. A payment is over the amount of its booking, and a booking has
    one at most. -/
structure Db.Constraints (cat : Catalog) (d : Db) : Prop where
  bookingId : (d.bookings.map (·.id)).Nodup
  bookingKey : (d.bookings.map (·.idempotencyKey)).Nodup
  bookingSeat : (d.bookings.map fun b => (b.scheduleId, b.seatId)).Nodup
  bookings : ∀ b ∈ d.bookings, b.Valid cat
  paymentKey : (d.payments.map (·.idempotencyKey)).Nodup
  paymentBooking : (d.payments.map (·.bookingId)).Nodup
  payments : ∀ p ∈ d.payments, ∃ b ∈ d.bookings, b.id = p.bookingId ∧ b.totalAmount = p.amount
  auditId : (d.auditTrail.map (·.id)).Nodup
  auditTrail : ∀ a ∈ d.auditTrail, (∃ b ∈ d.bookings, b.id = a.bookingId) ∧ (cat.user? a.userId).isSome = true

/-- The expiry is at most five minutes after `now`. -/
def Booking.ExpiresWithin (now : Time) (b : Booking) : Prop := ∀ t, b.expiresAt = some t → t ≤ now + timedeltaMinutes 5

/-- The committed tables meet the constraints, and no expiry in them is more than five minutes ahead. -/
structure State.Constrained (cat : Catalog) (σ : State) : Prop where
  tables : σ.db.Constraints cat
  expires : ∀ b ∈ σ.db.bookings, b.ExpiresWithin σ.now

section
variable {cat : Catalog} {d d' : Db} {b b' : Booking} {c : Commit}

/-! ### Rows of which only the status and its times change -/

theorem Booking.Valid.of_fixed (h : b.Valid cat) (hfix : b'.fixed = b.fixed) : b'.Valid cat where
  user := userId_of_fixed hfix ▸ h.user
  schedule := scheduleId_of_fixed hfix ▸ h.schedule
  seat := seatId_of_fixed hfix ▸ h.seat
  price := by rw [seatId_of_fixed hfix, totalAmount_of_fixed hfix]; exact h.price
  expires := by rw [expiresAt_of_fixed hfix, reservedAt_of_fixed hfix]; exact h.expires

theorem replace_fixed (key : (d.bookings.map (·.id)).Nodup) (hb : b ∈ d.bookings) (hfix : b'.fixed = b.fixed) :
    (d.replace b').map Booking.fixed = d.bookings.map Booking.fixed := by
  rw [Db.replace, List.map_map]
  refine List.map_congr_left fun x hx => ?_
  rw [Function.comp_apply]
  split
  · rename_i hid
    rw [Booking.id_of_fixed hfix] at hid
    rw [List.inj_on_of_nodup_map key hx hb hid, hfix]
  · rfl

theorem expire_fixed {es : List Booking} {began : Time} {n : Nat} :
    (d.expire began n es).bookings.map Booking.fixed = d.bookings.map Booking.fixed := by
  rw [Db.expire, List.map_map]
  refine List.map_congr_left fun x _ => ?_
  rw [Function.comp_apply]
  split <;> rfl

theorem map_of_fixed {β : Type} {f : Booking → β} {bs bs' : List Booking} (hf : ∀ x, f x.fixed = f x)
    (h : bs'.map Booking.fixed = bs.map Booking.fixed) : bs'.map f = bs.map f := by
  have hcomp : ∀ l : List Booking, l.map f = (l.map Booking.fixed).map f := fun l => by
    rw [List.map_map]
    exact List.map_congr_left fun x _ => (hf x).symm
  rw [hcomp, h, ← hcomp]

theorem mem_of_fixed {bs bs' : List Booking} (h : bs'.map Booking.fixed = bs.map Booking.fixed) (hb : b ∈ bs) :
    ∃ b' ∈ bs', b'.fixed = b.fixed :=
  List.mem_map.mp (h ▸ List.mem_map_of_mem hb)

theorem nodup_append_map {α β : Type} {f : α → β} {l : List α} {x : α} (h : (l.map f).Nodup) (hx : ∀ y ∈ l, f y ≠ f x) :
    ((l ++ [x]).map f).Nodup := by
  rw [List.map_append, List.nodup_append]
  refine ⟨h, by simp, fun u hu v hv => ?_⟩
  obtain ⟨y, hy, rfl⟩ := List.mem_map.mp hu
  rw [List.map_singleton, List.mem_singleton] at hv
  exact hv ▸ hx y hy

/-! ### Transactions -/

theorem Db.Constraints.insertAudits {as : List AuditTrail} (h : d.Constraints cat) (distinct : (as.map (·.id)).Nodup)
    (fresh : ∀ a ∈ as, d.FreshEntry a.id)
    (refers : ∀ a ∈ as, (∃ b ∈ d.bookings, b.id = a.bookingId) ∧ (cat.user? a.userId).isSome = true) :
    Db.Constraints cat { d with auditTrail := d.auditTrail ++ as } :=
  { h with
    auditId := by
      rw [List.map_append, List.nodup_append]
      refine ⟨h.auditId, distinct, fun x hx y hy => ?_⟩
      obtain ⟨a, ha, rfl⟩ := List.mem_map.mp hx
      obtain ⟨a', ha', rfl⟩ := List.mem_map.mp hy
      exact fresh a' ha' a ha
    auditTrail := fun x hx => (List.mem_append.mp hx).elim (h.auditTrail x) (refers x) }

theorem Db.Constraints.insertBooking (h : d.Constraints cat) (hb : b.Valid cat) (fresh : ∀ x ∈ d.bookings, x.id ≠ b.id)
    (unused : ∀ x ∈ d.bookings, x.idempotencyKey ≠ b.idempotencyKey)
    (vacant : ∀ x ∈ d.bookings, ¬(x.scheduleId = b.scheduleId ∧ x.seatId = b.seatId)) :
    Db.Constraints cat { d with bookings := d.bookings ++ [b] } :=
  { h with
    bookingId := nodup_append_map h.bookingId fresh
    bookingKey := nodup_append_map h.bookingKey unused
    bookingSeat := nodup_append_map h.bookingSeat fun x hx e => vacant x hx (Prod.mk.inj e)
    bookings := fun x hx => by
      rcases List.mem_append.mp hx with hx | hx
      · exact h.bookings x hx
      · rw [List.mem_singleton.mp hx]
        exact hb
    payments := fun p hp => by
      obtain ⟨x, hx, hid, ham⟩ := h.payments p hp
      exact ⟨x, List.mem_append_left _ hx, hid, ham⟩
    auditTrail := fun a ha => by
      obtain ⟨⟨x, hx, hid⟩, hu⟩ := h.auditTrail a ha
      exact ⟨⟨x, List.mem_append_left _ hx, hid⟩, hu⟩ }

theorem Db.Constraints.insertPayment {p : Payment} (h : d.Constraints cat)
    (hb : ∃ b ∈ d.bookings, b.id = p.bookingId ∧ b.totalAmount = p.amount)
    (unpaid : ∀ x ∈ d.payments, x.bookingId ≠ p.bookingId)
    (unused : ∀ x ∈ d.payments, x.idempotencyKey ≠ p.idempotencyKey) :
    Db.Constraints cat { d with payments := d.payments ++ [p] } :=
  { h with
    paymentKey := nodup_append_map h.paymentKey unused
    paymentBooking := nodup_append_map h.paymentBooking unpaid
    payments := fun x hx => by
      rcases List.mem_append.mp hx with hx | hx
      · exact h.payments x hx
      · rw [List.mem_singleton.mp hx]
        exact hb }

/-- A transaction that leaves the columns of the bookings other than the status and its times. -/
theorem Db.Constraints.update {bs : List Booking} (h : d.Constraints cat)
    (hfix : bs.map Booking.fixed = d.bookings.map Booking.fixed) : Db.Constraints cat { d with bookings := bs } := by
  have cols {β : Type} {f : Booking → β} (hf : ∀ x, f x.fixed = f x) : bs.map f = d.bookings.map f :=
    map_of_fixed hf hfix
  have row : ∀ b ∈ d.bookings, ∃ b' ∈ bs, b'.fixed = b.fixed := fun b hb => mem_of_fixed hfix hb
  exact {
    bookingId := by rw [cols fun _ => rfl]; exact h.bookingId
    bookingKey := by rw [cols fun _ => rfl]; exact h.bookingKey
    bookingSeat := by rw [cols fun _ => rfl]; exact h.bookingSeat
    bookings := fun b' hb' => by
      obtain ⟨b, hb, hfix'⟩ := List.mem_map.mp (hfix ▸ List.mem_map_of_mem hb')
      exact (h.bookings b hb).of_fixed hfix'.symm
    paymentKey := h.paymentKey
    paymentBooking := h.paymentBooking
    payments := fun p hp => by
      obtain ⟨b, hb, hid, ham⟩ := h.payments p hp
      obtain ⟨b', hb', hfix'⟩ := row b hb
      exact ⟨b', hb', (Booking.id_of_fixed hfix').trans hid, (Booking.totalAmount_of_fixed hfix').trans ham⟩
    auditId := h.auditId
    auditTrail := fun a ha => by
      obtain ⟨⟨b, hb, hid⟩, hu⟩ := h.auditTrail a ha
      obtain ⟨b', hb', hfix'⟩ := row b hb
      exact ⟨⟨b', hb', (Booking.id_of_fixed hfix').trans hid⟩, hu⟩ }

theorem PaymentResult.book_fixed (r : PaymentResult) (b : Booking) (t : Time) : (r.book b t).fixed = b.fixed := by
  unfold PaymentResult.book
  split <;> rfl

theorem constraints_empty : Db.empty.Constraints cat := by
  constructor <;> simp [Db.empty]

/-- Every transaction keeps the constraints. -/
theorem Db.Constraints.transact (h : d.Constraints cat) (m : Transact cat d c d') : d'.Constraints cat := by
  cases m with
  | @reserve i q id price began t n time fresh unused vacant user schedule priced entry =>
    have hseat : (cat.seat? q.seatId).isSome = true := by
      obtain ⟨seat, hseat, -⟩ := Option.bind_eq_some_iff.mp priced
      exact Option.isSome_iff_exists.mpr ⟨seat, hseat⟩
    have hvalid : (q.row id began t price).Valid cat :=
      ⟨user, schedule, hseat, priced, _, rfl, Int.add_le_add_right time _⟩
    refine (h.insertBooking hvalid fresh unused vacant).insertAudits (by simp) ?_ ?_
    · intro a ha
      rw [List.mem_singleton.mp ha]
      exact entry
    · intro a ha
      rw [List.mem_singleton.mp ha]
      exact ⟨⟨_, List.mem_append_right _ (List.mem_singleton_self _), rfl⟩, user⟩
  | @settle i q b r began t n n' admits unpaid unused sound entries =>
    have hfix : (d.replace (r.book b t)).map Booking.fixed = d.bookings.map Booking.fixed :=
      replace_fixed h.bookingId admits.stored (r.book_fixed b t)
    have hstored : ∃ x ∈ d.replace (r.book b t), x.id = b.id ∧ x.totalAmount = b.totalAmount := by
      obtain ⟨x, hx, hx'⟩ := mem_of_fixed hfix admits.stored
      exact ⟨x, hx, Booking.id_of_fixed hx', Booking.totalAmount_of_fixed hx'⟩
    have huser : (cat.user? q.userId).isSome = true := admits.own ▸ (h.bookings b admits.stored).user
    have ⟨x, hx, hid, _⟩ := hstored
    refine ((h.update hfix).insertPayment hstored unpaid unused).insertAudits ?_ ?_ ?_
    · have hlt : n ≠ n' := Nat.ne_of_lt entries.2.2
      split <;> simpa using hlt
    · intro a ha
      split at ha <;> rcases List.mem_pair.mp ha with rfl | rfl
      exacts [entries.1, entries.2.1, entries.1, entries.2.1]
    · intro a ha
      split at ha <;> rcases List.mem_pair.mp ha with rfl | rfl <;> exact ⟨⟨x, hx, hid⟩, huser⟩
  | @refund i q b began t n admits entry =>
    have hfix : (d.replace { b with status := .refunded, cancelledAt := some t }).map Booking.fixed =
      d.bookings.map Booking.fixed :=
      replace_fixed h.bookingId admits.stored rfl
    obtain ⟨x, hx, hx'⟩ := mem_of_fixed hfix admits.stored
    refine (h.update hfix).insertAudits (by simp) ?_ ?_
    · intro a ha
      rw [List.mem_singleton.mp ha]
      exact entry
    · intro a ha
      rw [List.mem_singleton.mp ha]
      exact ⟨⟨x, hx, Booking.id_of_fixed hx'⟩, admits.own ▸ (h.bookings b admits.stored).user⟩
  | @expire i es began n stored expired distinct entries =>
    have hfix : (d.expire began n es).bookings.map Booking.fixed = d.bookings.map Booking.fixed := expire_fixed
    refine (h.update hfix).insertAudits ?_ ?_ ?_
    · have hids : (es.zipIdx.map fun x => n + x.2) = (List.range es.length).map (n + ·) := by
        rw [List.range_eq_range', ← List.zipIdx_map_snd, List.map_map]
        rfl
      have hnodup : (es.zipIdx.map fun x => n + x.2).Nodup :=
        hids ▸ List.nodup_range.map fun x y hxy => Nat.add_left_cancel hxy
      rw [List.map_map]
      exact hnodup
    · intro a ha
      obtain ⟨⟨b, k⟩, hbk, rfl⟩ := List.mem_map.mp ha
      have hk : es[k]? = some b := List.mem_zipIdx_iff_getElem?.mp hbk
      exact entries k (List.getElem?_eq_some_iff.mp hk).1
    · intro a ha
      obtain ⟨⟨b, k⟩, hbk, rfl⟩ := List.mem_map.mp ha
      have hb : b ∈ es := List.mem_of_getElem? (List.mem_zipIdx_iff_getElem?.mp hbk)
      obtain ⟨x, hx, hx'⟩ := mem_of_fixed hfix (stored b hb)
      obtain ⟨u, hu, hid⟩ := cat.systemUser
      exact ⟨⟨x, hx, Booking.id_of_fixed hx'⟩, Option.isSome_iff_exists.mpr ⟨u, hid ▸ find?_of_key cat.usersKey hu⟩⟩

theorem constraints_of_reachable {σ : State} (hr : Reachable cat σ) : σ.db.Constraints cat := by
  refine (refines_transact cat).reach ?_ (fun h m => h.transact m) hr
  rintro σ ⟨now, rfl⟩
  exact ⟨.start ⟨now, rfl⟩, constraints_empty⟩

/-! ### Five minutes -/

theorem Booking.ExpiresWithin.mono {now now' : Time} (h : b.ExpiresWithin now) (hnow : now ≤ now') :
    b.ExpiresWithin now' :=
  fun t ht => Int.le_trans (h t ht) (Int.add_le_add_right hnow _)

theorem Booking.ExpiresWithin.of_fixed {now : Time} (h : b.ExpiresWithin now) (hfix : b'.fixed = b.fixed) :
    b'.ExpiresWithin now :=
  fun t ht => h t ((expiresAt_of_fixed hfix).symm.trans ht)

/-- The expiry is computed when the booking is built. -/
theorem builtWithin_of_reachable {σ : State} (hr : Reachable cat σ) : ∀ (i : Sid) s, σ.sessions[i]? = some s →
    ∀ q pc, s.task = .create q pc → ∀ b ∈ pc.built, b.ExpiresWithin σ.now := by
  refine sessions_of_reachable (P := fun σ _ s => ∀ q pc, s.task = .create q pc →
    ∀ b ∈ pc.built, b.ExpiresWithin σ.now) hr ?_ ?_ ?_ ?_
  · intro σ i r _ _ q pc hpc b hb
    cases r <;> cases hpc
    cases hb
  · intro σ i s e t _ _ h m q pc hpc
    rw [goto_now, perform_now]
    cases m with
    | create m =>
      cases hpc
      exact m.forall_built (fun _ _ ht => le_of_eq (Option.some.inj ht).symm) (fun _ _ hb => hb) (h _ _ rfl)
    | _ => cases hpc
  · intro σ i j s s' e t _ _ _ _ _ h
    rw [goto_now, perform_now]
    exact h
  · intro σ τ i s h _ _ hnow q pc hpc b hb
    exact (h q pc hpc b hb).mono hnow

theorem expiresWithin_of_reachable {σ : State} (hr : Reachable cat σ) :
    σ.AllBookings (Booking.ExpiresWithin σ.now) := by
  refine hr.invariant (I := fun σ : State => σ.AllBookings (Booking.ExpiresWithin σ.now)) ?_ ?_
  · rintro σ ⟨now, rfl⟩
    exact allBookings_seeded now
  · intro σ a τ hr h _ hstep
    have inserted : ∀ b ∈ σ.inserts cat a, b.ExpiresWithin σ.now := fun b hb => by
      obtain ⟨i, began, q, hs, -⟩ := inserted_of_mem hr hb
      exact builtWithin_of_reachable hr i _ hs q _ rfl b rfl
    have kept := h.step (fun hfix hb => hb.of_fixed hfix) inserted hstep
    have hnow : σ.now ≤ τ.now := step_now_le hstep
    exact ⟨fun b hb => (kept.stored b hb).mono hnow, fun i b hb => (kept.pending i b hb).mono hnow⟩

/-- In every reachable state the committed tables meet all constraints, whatever statements of whatever sessions have
    run in between. -/
theorem tables_meet_constraints {σ : State} (hr : Reachable cat σ) : σ.Constrained cat :=
  ⟨constraints_of_reachable hr, (expiresWithin_of_reachable hr).stored⟩

/-- A booking that is created and paid. -/
theorem tables_meet_constraints_paid : ∃ σ : State, σ.db.payments ≠ [] ∧ σ.Constrained sampleCatalog := by
  have hrun : (exec (step sampleCatalog) (.seeded 0) (.request (.create ⟨1, 20, 40, 50, none⟩) :: runs 0 9 60 ++
      .request (.pay ⟨60, 1, 70, none⟩) :: runs 1 9 80)).any (fun σ : State => decide (σ.db.payments ≠ [])) =
        true := by decide
  obtain ⟨σ, hσ, htest⟩ := reachable_of_run hrun
  exact ⟨σ, of_decide_eq_true htest, tables_meet_constraints hσ⟩

end

end Railbook
