import Railbook.Revenue
import Railbook.Times
import Railbook.Library.Readings

/-! What a transaction that commits changes of the totals of `get_stats`. Each kind of transaction moves bookings from
    one status to another, or adds one; the totals are sums over the bookings. -/

namespace Railbook
open ReadCommitted Transition Readings Table

/-- A commit that changes the totals: a booking is created, is paid for, or is refunded, or some are cancelled. -/
inductive TotalsChange where
  | created
  | paid (amount : Amount)
  | cancelled (count : Nat)
  | refunded
  deriving DecidableEq, Repr

namespace TotalsChange

/-- What the change adds to the number of bookings. -/
def createdBookings : TotalsChange → Nat
  | created => 1
  | _ => 0

/-- What it adds to the number of paid bookings. -/
def paidBookings : TotalsChange → Nat
  | paid _ => 1
  | _ => 0

/-- What it adds to the revenue. -/
def revenue : TotalsChange → Amount
  | paid amount => amount
  | _ => 0

/-- What it adds to the number of cancelled bookings. -/
def cancelledBookings : TotalsChange → Nat
  | cancelled count => count
  | _ => 0

/-- What it adds to the number of refunded bookings. -/
def refundedBookings : TotalsChange → Nat
  | refunded => 1
  | _ => 0

end TotalsChange

/-- What the commit of a task changes of the totals. -/
def Task.totalsChange : Task → Option TotalsChange
  | .create _ (.commit _) => some .created
  | .pay _ (.commit b) => some (if b.status = .confirmed then .paid b.totalAmount else .cancelled 1)
  | .refund _ (.commit _) => some .refunded
  | .cleanup (.commit bookings) => if bookings.isEmpty then none else some (.cancelled bookings.length)
  | _ => none

/-- What a step changes of the totals. -/
def State.totalsChange (σ : State) : Act → Option TotalsChange
  | .run i _ => (σ.sessions[i]?).bind (·.task.totalsChange)
  | _ => none

/-- The totals `s'` are `s` after the changes. -/
structure Stats.After (s : Stats) (changes : List TotalsChange) (s' : Stats) : Prop where
  totalBookings : s'.totalBookings = s.totalBookings + total TotalsChange.createdBookings changes
  confirmedBookings : s'.confirmedBookings + total TotalsChange.refundedBookings changes =
    s.confirmedBookings + total TotalsChange.paidBookings changes
  cancelledBookings : s'.cancelledBookings = s.cancelledBookings + total TotalsChange.cancelledBookings changes
  refundedBookings : s'.refundedBookings = s.refundedBookings + total TotalsChange.refundedBookings changes
  totalRevenue : s'.totalRevenue = s.totalRevenue + total TotalsChange.revenue changes

/-- A sum over the bookings, by status and amount. -/
def Db.weigh (d : Db) (g : BookingStatus → Amount → Nat) : Nat := (d.bookings.map fun b => g b.status b.totalAmount).sum

/-- The reported revenue is a sum over the bookings. -/
def Db.RevenueWeighed (d : Db) : Prop :=
  (getStats d).totalRevenue = d.weigh fun st amount => if st = .confirmed ∨ st = .refunded then amount else 0

/-- Bookings with these amounts went from one status to another, and nothing else happened to the sums. -/
def Db.Moved (d d' : Db) (st st' : BookingStatus) (amounts : List Amount) : Prop :=
  ∀ g, d'.weigh g + (amounts.map (g st)).sum = d.weigh g + (amounts.map (g st')).sum

section
variable {cat : Catalog} {σ τ : State} {i : Sid} {s : Session} {t : Task} {e : Effect} {a : Act} {b : Booking}
  {d d' : Db} {st st' : BookingStatus} {amounts : List Amount} {r r' r'' : Stats}
  {changes changes' : List TotalsChange}

theorem Stats.After.refl (r : Stats) : r.After [] r := ⟨rfl, rfl, rfl, rfl, rfl⟩

theorem Stats.After.trans (h : r.After changes r') (h' : r'.After changes' r'') :
    r.After (changes ++ changes') r'' where
  totalBookings := by rw [h'.totalBookings, h.totalBookings, total_append, Nat.add_assoc]
  confirmedBookings := by
    have hr := h.confirmedBookings
    have hr' := h'.confirmedBookings
    rw [total_append, total_append]
    omega
  cancelledBookings := by rw [h'.cancelledBookings, h.cancelledBookings, total_append, Nat.add_assoc]
  refundedBookings := by rw [h'.refundedBookings, h.refundedBookings, total_append, Nat.add_assoc]
  totalRevenue := by rw [h'.totalRevenue, h.totalRevenue, total_append, Nat.add_assoc]

/-! ### The totals as sums over the bookings -/

theorem length_eq_weigh : d.bookings.length = d.weigh fun _ _ => 1 := by
  simp [Db.weigh]

theorem countP_eq_weigh : d.bookings.countP (·.status = st) = d.weigh fun st' _ => if st' = st then 1 else 0 := by
  rw [countP_eq_sum, Db.weigh]
  simp only [decide_eq_true_eq]

theorem Inv.revenueWeighed (inv : Inv σ) : σ.db.RevenueWeighed := by
  rw [Db.RevenueWeighed, inv.totalRevenue_eq, Db.amountOf, Db.amountOf, ← sum_ite_eq_amountOf, ← sum_ite_eq_amountOf,
    ← List.sum_map_add, Db.weigh]
  refine congrArg List.sum (List.map_congr_left fun b _ => ?_)
  cases b.status <;> simp

theorem weigh_snoc (h : d'.bookings = d.bookings ++ [b]) (g : BookingStatus → Amount → Nat) :
    d'.weigh g = d.weigh g + g b.status b.totalAmount := by
  simp [Db.weigh, h]

/-- Rows under some condition change their status, and all other rows stay. -/
theorem moved_of_map {f : Booking → Booking} {p : Booking → Bool} (h : d'.bookings = d.bookings.map f)
    (hp : ∀ b ∈ d.bookings, p b = true → b.status = st ∧ (f b).status = st' ∧ (f b).totalAmount = b.totalAmount)
    (hn : ∀ b ∈ d.bookings, p b = false → f b = b) : d.Moved d' st st' ((d.bookings.filter p).map (·.totalAmount)) := by
  intro g
  rw [Db.weigh, Db.weigh, h]
  generalize d.bookings = l at hp hn
  induction l with
  | nil => rfl
  | cons b l ih =>
    have hl := ih (fun b hb => hp b (List.mem_cons_of_mem _ hb)) fun b hb => hn b (List.mem_cons_of_mem _ hb)
    simp only [List.map_cons, List.sum_cons]
    by_cases hb : p b = true
    · obtain ⟨hst, hst', ham⟩ := hp b List.mem_cons_self hb
      rw [List.filter_cons_of_pos hb, List.map_cons, List.map_cons, List.map_cons, List.sum_cons, List.sum_cons,
        hst, hst', ham]
      omega
    · rw [List.filter_cons_of_neg hb, hn b List.mem_cons_self (Bool.eq_false_iff.mpr hb)]
      omega

/-! ### The rows that a commit changes -/

theorem exists_update {ws : List Write} (hins : ∀ b, .insertBooking b ∉ ws) (hdel : ∀ b, .deleteBooking b ∉ ws)
    (d : Db) :
    ∃ f : Booking → Booking, (ws.foldl (fun d w => w.apply d) d).bookings = d.bookings.map f ∧
      ∀ b, (f b).fixed = b.fixed := by
  induction ws generalizing d with
  | nil => exact ⟨id, by simp, fun _ => rfl⟩
  | cons w ws ih =>
    obtain ⟨f, hf, hfixed⟩ := ih (fun b hb => hins b (List.mem_cons_of_mem _ hb))
      (fun b hb => hdel b (List.mem_cons_of_mem _ hb)) (w.apply d)
    cases w with
    | insertBooking b => exact absurd List.mem_cons_self (hins b)
    | deleteBooking b => exact absurd List.mem_cons_self (hdel b)
    | setBooking id st c x =>
      refine ⟨fun b => f (if b.id = id then b.update st c x else b), ?_, fun b => ?_⟩
      · rw [List.foldl_cons, hf]
        exact List.map_map
      · rw [hfixed]
        split
        · exact Booking.fixed_update
        · rfl
    | insertPayment p => exact ⟨f, hf, hfixed⟩
    | insertAudit a => exact ⟨f, hf, hfixed⟩

/-- A session that is no `create_booking` changes rows in place, and only those that it holds. -/
theorem commit_rows (hr : Reachable cat σ) (hs : σ.sessions[i]? = some s) (hq : ∀ q pc, s.task ≠ .create q pc) :
    ∃ f : Booking → Booking, (σ.view i).bookings = σ.db.bookings.map f ∧ (∀ b, (f b).fixed = b.fixed) ∧
      (∀ b ∈ σ.db.bookings, (∀ p ∈ s.task.held, p.1.id ≠ b.id) → f b = b) ∧
      ∀ b ∈ σ.db.bookings, ∀ p ∈ s.task.held, p.1.id = b.id → f b = p.1 := by
  have inv := inv_of_reachableBy hr
  have ok := inv.taskOk hs
  have hins : ∀ b, .insertBooking b ∉ σ.store.pending i := by
    intro b hb
    obtain ⟨began, q, pc, hs', -⟩ := (insertsOwn_of_reachable hr).inserts i b hb
    obtain rfl := Option.some.inj (hs.symm.trans hs')
    exact hq q pc rfl
  obtain ⟨f, hf, hfixed⟩ := exists_update hins (noDelete_of_reachable hr i) σ.db
  have hview : (σ.view i).bookings = σ.db.bookings.map f := hf
  have hmem : ∀ b ∈ σ.db.bookings, f b ∈ (σ.view i).bookings := fun b hb => hview ▸ List.mem_map_of_mem hb
  have hid : ∀ b, (f b).id = b.id := fun b => Booking.id_of_fixed (hfixed b)
  refine ⟨f, hview, hfixed, fun b hb hheld => ?_, fun b hb p hp hpb => ?_⟩
  · obtain ⟨ph, -, hc⟩ := inv.conforms_of_mem hb
    have hledger : (σ.view i).ledger b.id = σ.db.ledger b.id := ok.ledger_view hheld
    exact (hledger ▸ hc).eq_of_mem (hmem b hb) (hid b)
  · obtain ⟨ph, -, hc⟩ := ok.held p hp
    exact hc.eq_of_mem (hmem b hb) ((hid b).trans hpb.symm)

/-- The rows that a session holds go from the phase they are in to the status in which it sees them. -/
theorem commit_moved (ph : Phase) (ids : List Uuid) (hr : Reachable cat σ) (hs : σ.sessions[i]? = some s)
    (hq : ∀ q pc, s.task ≠ .create q pc) (hheld : s.task.held.map (·.1.id) = ids)
    (hst' : ∀ p ∈ s.task.held, p.1.status = st') (hbase : s.task.base = ids.map fun id => (id, ph)) :
    σ.db.Moved (σ.view i) ph.status st' ((σ.db.bookings.filter (·.id ∈ ids)).map (·.totalAmount)) := by
  obtain ⟨f, hview, hfixed, hother, hrow⟩ := commit_rows hr hs hq
  subst hheld
  refine moved_of_map hview (fun b hb hmem => ?_) fun b hb hmem => hother b hb fun p hp hid => ?_
  · obtain ⟨p, hp, hid⟩ := List.mem_map.mp (of_decide_eq_true hmem)
    have hbmem : (b.id, ph) ∈ s.task.base := hbase ▸ List.mem_map_of_mem (of_decide_eq_true hmem)
    obtain ⟨b', hc, -⟩ := baseOk_of_reachable hr i s hs _ hbmem
    refine ⟨?_, ?_, Booking.totalAmount_of_fixed (hfixed b)⟩
    · rw [hc.eq_of_mem hb rfl, hc.status]
    · rw [hrow b hb p hp hid, hst' p hp]
  · exact of_decide_eq_false hmem (List.mem_map.mpr ⟨p, hp, hid⟩)

theorem commit_moved_one {ph : Phase} {phs : List Phase} (hr : Reachable cat σ) (hs : σ.sessions[i]? = some s)
    (hq : ∀ q pc, s.task ≠ .create q pc) (hheld : s.task.held = [(b, phs)]) (hbase : s.task.base = [(b.id, ph)]) :
    σ.db.Moved (σ.view i) ph.status b.status [b.totalAmount] := by
  have hmem : (b, phs) ∈ s.task.held := hheld ▸ List.mem_singleton_self _
  have hst : ∀ p ∈ s.task.held, p.1.status = b.status := fun p hp => by rw [hheld] at hp; rw [List.mem_singleton.mp hp]
  have hmoved := commit_moved ph [b.id] hr hs hq (by rw [hheld]; rfl) hst hbase
  obtain ⟨b', hc, -⟩ := baseOk_of_reachable hr i s hs (b.id, ph) (hbase ▸ List.mem_singleton_self _)
  obtain ⟨f, -, hfixed, -, hrow⟩ := commit_rows hr hs hq
  obtain ⟨hb', hid⟩ := hc.mem_bookings
  have hrows : σ.db.bookings.filter (·.id ∈ [b.id]) = [b'] := by
    rw [← hc.row, Db.ledger]
    exact List.filter_congr fun x _ => by simp
  have hrow : f b' = b := hrow b' hb' _ hmem hid.symm
  have hamount : b.totalAmount = b'.totalAmount := hrow ▸ Booking.totalAmount_of_fixed (hfixed b')
  rwa [hrows, List.map_singleton, ← hamount] at hmoved

/-! ### The totals after a commit -/

theorem stats_after_created (rev : d.RevenueWeighed) (rev' : d'.RevenueWeighed) (h : d'.bookings = d.bookings ++ [b])
    (hst : b.status = .reserved) : (getStats d).After [.created] (getStats d') := by
  have hw := weigh_snoc h
  constructor
  · simp [getStats, h, total, TotalsChange.createdBookings]
  · simp [getStats, h, hst, total, TotalsChange.refundedBookings, TotalsChange.paidBookings]
  · simp [getStats, h, hst, total, TotalsChange.cancelledBookings]
  · simp [getStats, h, hst, total, TotalsChange.refundedBookings]
  · rw [rev, rev', hw, hst]
    simp [total, TotalsChange.revenue]

theorem Db.Moved.length_eq (h : d.Moved d' st st' amounts) : d'.bookings.length = d.bookings.length := by
  have hw := h fun _ _ => 1
  rw [← length_eq_weigh, ← length_eq_weigh] at hw
  simpa using hw

theorem Db.Moved.countP_eq (h : d.Moved d' st st' amounts) (status : BookingStatus) :
    d'.bookings.countP (·.status = status) + (if st = status then amounts.length else 0) =
      d.bookings.countP (·.status = status) + if st' = status then amounts.length else 0 := by
  have hw := h fun st _ => if st = status then 1 else 0
  rw [← countP_eq_weigh, ← countP_eq_weigh] at hw
  simpa using hw

theorem Db.Moved.revenue_eq (h : d.Moved d' st st' amounts) (rev : d.RevenueWeighed) (rev' : d'.RevenueWeighed) :
    (getStats d').totalRevenue + (if st = .confirmed ∨ st = .refunded then amounts.sum else 0) =
      (getStats d).totalRevenue + if st' = .confirmed ∨ st' = .refunded then amounts.sum else 0 := by
  have hw := h fun st amount => if st = .confirmed ∨ st = .refunded then amount else 0
  have hsum : ∀ (c : Prop) [Decidable c], (amounts.map fun amount => if c then amount else 0).sum =
    if c then amounts.sum else 0 := by
    intro c _
    by_cases hc : c <;> simp [hc]
  rw [rev, rev', ← hsum, ← hsum]
  exact hw

/-- A change that moves bookings from one status to another counts them where they leave and where they come. -/
theorem Db.Moved.after {c : TotalsChange} (h : d.Moved d' st st' amounts) (rev : d.RevenueWeighed)
    (rev' : d'.RevenueWeighed) (created : c.createdBookings = 0)
    (paid : c.paidBookings = if st' = .confirmed then amounts.length else 0)
    (cancelled : c.cancelledBookings = if st' = .cancelled then amounts.length else 0)
    (refunded : c.refundedBookings = if st' = .refunded then amounts.length else 0)
    (left : c.refundedBookings = if st = .confirmed then amounts.length else 0) (hc : st ≠ .cancelled)
    (hr : st ≠ .refunded) (revenue : c.revenue + (if st = .confirmed ∨ st = .refunded then amounts.sum else 0) =
      if st' = .confirmed ∨ st' = .refunded then amounts.sum else 0) : (getStats d).After [c] (getStats d') where
  totalBookings := by
    rw [total_singleton, created]
    exact h.length_eq
  confirmedBookings := by
    rw [total_singleton, total_singleton, left, paid]
    exact h.countP_eq .confirmed
  cancelledBookings := by
    have hcount := h.countP_eq .cancelled
    rw [if_neg hc] at hcount
    rw [total_singleton, cancelled]
    exact hcount
  refundedBookings := by
    have hcount := h.countP_eq .refunded
    rw [if_neg hr] at hcount
    rw [total_singleton, refunded]
    exact hcount
  totalRevenue := by
    have hsum := h.revenue_eq rev rev'
    rw [← revenue, ← Nat.add_assoc] at hsum
    rw [total_singleton]
    exact Nat.add_right_cancel hsum

theorem stats_after_paid {amount : Amount} (rev : d.RevenueWeighed) (rev' : d'.RevenueWeighed)
    (h : d.Moved d' .reserved .confirmed [amount]) : (getStats d).After [.paid amount] (getStats d') :=
  h.after rev rev' rfl rfl rfl rfl rfl (by decide) (by decide) (by simp [TotalsChange.revenue])

theorem stats_after_cancelled (rev : d.RevenueWeighed) (rev' : d'.RevenueWeighed)
    (h : d.Moved d' .reserved .cancelled amounts) : (getStats d).After [.cancelled amounts.length] (getStats d') :=
  h.after rev rev' rfl rfl rfl rfl rfl (by decide) (by decide) rfl

theorem stats_after_refunded {amount : Amount} (rev : d.RevenueWeighed) (rev' : d'.RevenueWeighed)
    (h : d.Moved d' .confirmed .refunded [amount]) : (getStats d).After [.refunded] (getStats d') :=
  h.after rev rev' rfl rfl rfl rfl rfl (by decide) (by decide) (by simp [TotalsChange.revenue])

theorem cleanup_nodup (hr : Reachable cat σ) : ∀ (i : Sid) s, σ.sessions[i]? = some s →
    ∀ es, s.task = .cleanup (.commit es) → (es.map (·.id)).Nodup := by
  refine sessions_of_reachable (P := fun _ _ s => ∀ es, s.task = .cleanup (.commit es) → (es.map (·.id)).Nodup)
    hr ?_ ?_ ?_ ?_
  · intro σ i r _ _ es ht
    cases r <;> cases ht
  · intro σ i s e t hr hs _ m es ht
    cases m with
    | cleanup m =>
      cases m with
      | @flushed expired =>
        cases ht
        have hsound : (expired.map (·.id)).Nodup := ((inv_of_reachableBy hr).taskOk hs).sound
        rw [List.map_map]
        exact hsound
      | _ => cases ht
    | _ => cases ht
  · intro σ i j s s' e t _ _ _ _ _ h
    exact h
  · intro σ τ i s h _ _ _
    exact h

/-- A cleanup pass cancels as many bookings as it has found. -/
theorem length_of_cleanup {began : Time} {es : List Booking} (hr : Reachable cat σ)
    (hs : σ.sessions[i]? = some ⟨began, .cleanup (.commit es)⟩) :
    (σ.db.bookings.filter (·.id ∈ es.map (·.id))).length = es.length := by
  have hrows : ((σ.db.bookings.filter (·.id ∈ es.map (·.id))).map (·.id)).Perm (es.map (·.id)) := by
    refine (List.perm_ext_iff_of_nodup ?_ (cleanup_nodup hr i _ hs es rfl)).mpr fun id => ?_
    · exact (inv_of_reachableBy hr).ids_nodup.sublist (List.filter_sublist.map _)
    · constructor
      · intro hid
        obtain ⟨b, hb, rfl⟩ := List.mem_map.mp hid
        exact of_decide_eq_true (List.mem_filter.mp hb).2
      · intro hid
        obtain ⟨e, he, rfl⟩ := List.mem_map.mp hid
        obtain ⟨b, hc, -⟩ := baseOk_of_reachable hr i _ hs (e.id, .reserved) (List.mem_map_of_mem he)
        obtain ⟨hb, hbid⟩ := hc.mem_bookings
        exact List.mem_map.mpr ⟨b, List.mem_filter.mpr ⟨hb, decide_eq_true (hbid ▸ hid)⟩, hbid⟩
  have hlen := hrows.length_eq
  rwa [List.length_map, List.length_map] at hlen

theorem pay_totals {began : Time} {q : PayRequest} (hr : Reachable cat σ)
    (hs : σ.sessions[i]? = some ⟨began, .pay q (.commit b)⟩) (rev : (σ.view i).RevenueWeighed) :
    (getStats σ.db).After [if b.status = .confirmed then .paid b.totalAmount else .cancelled 1]
    (getStats (σ.view i)) := by
  have inv := inv_of_reachableBy hr
  have hmoved : σ.db.Moved (σ.view i) .reserved b.status [b.totalAmount] :=
    commit_moved_one hr hs (fun _ _ h => by cases h) rfl rfl
  obtain ⟨ph, hph, hc⟩ := (inv.taskOk hs).held (b, [.confirmed, .paymentFailed]) (List.mem_singleton_self _)
  rcases List.mem_pair.mp hph with rfl | rfl
  · have hst : b.status = .confirmed := hc.status
    rw [hst] at hmoved
    rw [if_pos hst]
    exact stats_after_paid inv.revenueWeighed rev hmoved
  · have hst : b.status = .cancelled := hc.status
    rw [hst] at hmoved
    rw [if_neg (by rw [hst]; decide)]
    exact stats_after_cancelled inv.revenueWeighed rev hmoved

theorem refund_totals {began : Time} {q : RefundRequest} (hr : Reachable cat σ)
    (hs : σ.sessions[i]? = some ⟨began, .refund q (.commit b)⟩) (rev : (σ.view i).RevenueWeighed) :
    (getStats σ.db).After [.refunded] (getStats (σ.view i)) := by
  have inv := inv_of_reachableBy hr
  have hmoved : σ.db.Moved (σ.view i) .confirmed b.status [b.totalAmount] :=
    commit_moved_one hr hs (fun _ _ h => by cases h) rfl rfl
  obtain ⟨ph, hph, hc⟩ := (inv.taskOk hs).held (b, [.refunded]) (List.mem_singleton_self _)
  obtain rfl := List.mem_singleton.mp hph
  have hst : b.status = .refunded := hc.status
  rw [hst] at hmoved
  exact stats_after_refunded inv.revenueWeighed rev hmoved

theorem cleanup_totals {began : Time} {es : List Booking} (hr : Reachable cat σ)
    (hs : σ.sessions[i]? = some ⟨began, .cleanup (.commit es)⟩) (rev : (σ.view i).RevenueWeighed) :
    (getStats σ.db).After [.cancelled es.length] (getStats (σ.view i)) := by
  have inv := inv_of_reachableBy hr
  have hheld : Task.held (.cleanup (.commit es)) = es.map fun b => (b, [Phase.expired]) := rfl
  have hst : ∀ p ∈ Task.held (.cleanup (.commit es)), p.1.status = .cancelled := by
    intro p hp
    obtain ⟨ph, hph, hc⟩ := (inv.taskOk hs).held p hp
    obtain ⟨b, hb, rfl⟩ := List.mem_map.mp (hheld ▸ hp)
    obtain rfl := List.mem_singleton.mp hph
    exact hc.status
  have hmoved := commit_moved .reserved (es.map (·.id)) hr hs (fun _ _ h => by cases h)
    (by rw [hheld, List.map_map]; rfl) hst
    (by rw [List.map_map]; rfl)
  have hafter := stats_after_cancelled inv.revenueWeighed rev hmoved
  rwa [List.length_map, length_of_cleanup hr hs] at hafter

theorem commit_totals (hr : Reachable cat σ) (hs : σ.sessions[i]? = some s) (m : Move cat σ i s .commit t)
    (rev : (σ.view i).RevenueWeighed) : (getStats σ.db).After s.task.totalsChange.toList (getStats (σ.view i)) := by
  have inv := inv_of_reachableBy hr
  cases m with
  | create m =>
    cases m with
    | @committed b =>
      have hview : (σ.view i).bookings = σ.db.bookings ++ [b] := (insertsOwn_of_reachable hr).view_bookings hs rfl
      have hst : b.status = .reserved := CreateRequest.Builds.status (inv.taskOk hs).sound
      exact stats_after_created inv.revenueWeighed rev hview hst
  | pay m => cases m with | committed => exact pay_totals hr hs rev
  | refund m => cases m with | committed => exact refund_totals hr hs rev
  | cleanup m =>
    cases m with
    | @committed es =>
      have hafter := cleanup_totals hr hs rev
      cases es with
      | nil => exact ⟨hafter.totalBookings, hafter.confirmedBookings, hafter.cancelledBookings, hafter.refundedBookings,
          hafter.totalRevenue⟩
      | cons e es => exact hafter

theorem totalsChange_of_ne_commit {c : Choice} (hst : s.statement cat σ i c = some (e, t)) (he : e ≠ .commit) :
    s.task.totalsChange = none := by
  obtain ⟨began, task⟩ := s
  cases task with
  | create q pc =>
    cases pc with
    | commit b =>
      cases hst
      exact absurd rfl he
    | _ => rfl
  | pay q pc =>
    cases pc with
    | commit b =>
      cases hst
      exact absurd rfl he
    | _ => rfl
  | refund q pc =>
    cases pc with
    | commit b =>
      cases hst
      exact absurd rfl he
    | _ => rfl
  | cleanup pc =>
    cases pc with
    | commit es =>
      cases hst
      exact absurd rfl he
    | _ => rfl

/-- What a step changes of the totals. -/
theorem step_totals (hr : Reachable cat σ) (hstep : step cat σ a = some τ) :
    (getStats σ.db).After (σ.totalsChange a).toList (getStats τ.db) := by
  have rev : τ.db.RevenueWeighed := ((inv_of_reachableBy hr).step hstep).revenueWeighed
  cases step_stepped hstep with
  | @run i c s e t hs hst m =>
    rw [State.totalsChange, hs, Option.bind_some, goto_db]
    rw [goto_db] at rev
    by_cases he : e = .commit
    · subst he
      exact commit_totals hr hs m rev
    · rw [(perform_db σ i e).resolve_right fun h => he h.1, totalsChange_of_ne_commit hst he]
      exact .refl _
  | request r => exact .refl _
  | @raise i s t hs hraise m => exact .refl _
  | tick d => exact .refl _
  | updateConfig failureRate latencyMs => exact .refl _

/-- The booking that is paid for costs what its committed row does. -/
theorem paid_amount_pos {began : Time} {q : PayRequest} (hr : Reachable cat σ)
    (hs : σ.sessions[i]? = some ⟨began, .pay q (.commit b)⟩) : 0 < b.totalAmount := by
  obtain ⟨b', hc', -⟩ := baseOk_of_reachable hr i _ hs (b.id, .reserved) (List.mem_singleton_self _)
  obtain ⟨f, -, hfixed, -, hrow⟩ := commit_rows hr hs fun _ _ h => by cases h
  have hb : f b' = b := hrow b' hc'.mem_bookings.1 (b, [.confirmed, .paymentFailed]) (List.mem_singleton_self _)
    hc'.mem_bookings.2.symm
  rw [← hb, Booking.totalAmount_of_fixed (hfixed b')]
  exact (amounts_of_reachable hr).stored b' hc'.mem_bookings.1

/-- A payment is of some money, and a cleanup pass that changes the totals cancels some bookings. -/
theorem totalsChange_pos (hr : Reachable cat σ) {c : TotalsChange} (hc : σ.totalsChange a = some c) :
    (∀ amount, c = .paid amount → 0 < amount) ∧ ∀ count, c = .cancelled count → 0 < count := by
  cases a with
  | run i x =>
    obtain ⟨⟨began, task⟩, hs, htask⟩ := Option.bind_eq_some_iff.mp hc
    cases task with
    | create q pc =>
      cases pc with
      | commit b => cases htask; exact ⟨nofun, nofun⟩
      | _ => cases htask
    | pay q pc =>
      cases pc with
      | commit b =>
        have hpos : 0 < b.totalAmount := paid_amount_pos hr hs
        simp only [Task.totalsChange, Option.some.injEq] at htask
        subst htask
        split
        · refine ⟨fun amount h => ?_, nofun⟩
          cases h
          exact hpos
        · refine ⟨nofun, fun count h => ?_⟩
          cases h
          exact Nat.one_pos
      | _ => cases htask
    | refund q pc =>
      cases pc with
      | commit b => cases htask; exact ⟨nofun, nofun⟩
      | _ => cases htask
    | cleanup pc =>
      cases pc with
      | commit es =>
        cases es with
        | nil => cases htask
        | cons e es =>
          cases htask
          refine ⟨nofun, fun count h => ?_⟩
          cases h
          exact Nat.succ_pos _
      | _ => cases htask
  | _ => cases hc

end

end Railbook
