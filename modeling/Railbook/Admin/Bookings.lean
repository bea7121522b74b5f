import Railbook.Creates
import Railbook.Library.Paging
import Mathlib.Data.List.Sort

/-! `GET /admin/bookings` of `app/admin/router.py`, page by page. Rows with one `reserved_at` come in the order in
    which the database scans the table, which each query does in its own way. -/

namespace Railbook
open Transition Paging

/-- An entry of the answer. -/
structure AdminBooking where
  id : Uuid
  userId : Uuid
  scheduleId : Uuid
  seatId : Uuid
  status : BookingStatus
  totalAmount : Amount
  reservedAt : Time
  confirmedAt : Option Time
  deriving DecidableEq, Repr

/-- The dictionary that the handler makes of a booking. -/
def adminBooking (b : Booking) : AdminBooking :=
  ⟨b.id, b.userId, b.scheduleId, b.seatId, b.status, b.totalAmount, b.reservedAt, b.confirmedAt⟩

/-- The where clause. An empty status is none. -/
def hasStatus (status : Option String) (b : Booking) : Bool :=
  match status with
  | none => true
  | some status => status == "" || b.status.value == status

/-- `order_by(Booking.reserved_at.desc())`. -/
def NewestFirst (a b : Booking) : Prop := b.reservedAt ≤ a.reservedAt

instance : DecidableRel NewestFirst := fun a b => inferInstanceAs (Decidable (b.reservedAt ≤ a.reservedAt))

/-- `list_all_bookings`. The database accepts no negative limit, and no status that is no text. -/
def listAllBookings (scan : List Booking) (status : Option String) (limit : Int) (offset : Nat) :
    Except Exc (List AdminBooking) :=
  if limit < 0 ∨ status.all isText = false then .error .databaseError
  else
    let query := (scan.filter (hasStatus status)).insertionSort NewestFirst
    .ok (((query.drop offset).take limit.toNat).map adminBooking)

/-- However each query scans the table, the pages up to the first empty one are all answered, and show every booking
    with the status once and nothing else. -/
def PagesPartition (table : List Booking) (status : Option String) (limit : Int) : Prop :=
  ∀ scans : Nat → List Booking, (∀ k, (scans k).Perm table) →
    ∃ pages : Nat → List AdminBooking, (∀ k, listAllBookings (scans k) status limit (k * limit.toNat) = .ok (pages k)) ∧
      ∃ fuel all, collect pages fuel 0 = some all ∧ all.Perm ((table.filter (hasStatus status)).map adminBooking)

section
variable {table scan : List Booking} {status : Option String} {limit : Int} {rows : List Booking}

instance : IsTrans Booking NewestFirst := ⟨fun _ _ _ hab hbc => Int.le_trans hbc hab⟩

instance : Std.Total NewestFirst := ⟨fun a b => Int.le_total b.reservedAt a.reservedAt⟩

instance : Std.Refl NewestFirst := ⟨fun a => Int.le_refl a.reservedAt⟩

theorem listAllBookings_page (hlimit : 1 ≤ limit) (text : status.all isText = true) (k : Nat) :
    listAllBookings scan status limit (k * limit.toNat) =
      .ok ((page limit.toNat k ((scan.filter (hasStatus status)).insertionSort NewestFirst)).map adminBooking) := by
  have hneg : ¬limit < 0 := by omega
  rw [listAllBookings, if_neg (not_or.mpr ⟨hneg, by rw [text]; decide⟩)]
  rfl

theorem isText_of_listAllBookings {offset : Nat} {answer : List AdminBooking}
    (h : listAllBookings scan status limit offset = .ok answer) : status.all isText = true := by
  rw [listAllBookings] at h
  split at h
  next => cases h
  next hok => exact Bool.not_eq_false _ ▸ (not_or.mp hok).2

/-- The primary key tells the entries of the answer apart. -/
theorem nodup_adminBookings (key : (table.map (·.id)).Nodup) :
    ((table.filter (hasStatus status)).map adminBooking).Nodup := by
  have hids : ((table.filter (hasStatus status)).map (·.id)).Nodup := key.sublist (List.filter_sublist.map _)
  refine List.Nodup.of_map AdminBooking.id ?_
  rwa [List.map_map]

end

/-- For every table under its primary key: the pages are a partition exactly when the status is text and no boundary
    between two of them falls among bookings with the status and one `reserved_at`. -/
theorem pages_partition_iff {table : List Booking} {status : Option String} {limit : Int}
    (key : (table.map (·.id)).Nodup) (hlimit : 1 ≤ limit) : PagesPartition table status limit ↔
      status.all isText = true ∧ ∀ k, ¬Splits NewestFirst (table.filter (hasStatus status)) (k * limit.toNat) := by
  -- The order of one scan, to compare the others with.
  have hsorted := List.pairwise_insertionSort NewestFirst (table.filter (hasStatus status))
  have hperm := List.perm_insertionSort NewestFirst (table.filter (hasStatus status))
  have hsplits : ∀ n, Splits NewestFirst ((table.filter (hasStatus status)).insertionSort NewestFirst) n ↔
      Splits NewestFirst (table.filter (hasStatus status)) n := fun n => splits_perm hperm
  constructor
  · intro h
    have text : status.all isText = true := by
      obtain ⟨pages, hpages, -⟩ := h (fun _ => table) fun _ => .refl _
      exact isText_of_listAllBookings (hpages 0)
    refine ⟨text, fun k split => ?_⟩
    obtain ⟨orders, horders, hrepeat⟩ := exists_repeat hsorted ((hsplits _).mpr split)
    choose scans hscans hrows using fun k => exists_scan ((horders k).1.trans hperm)
    obtain ⟨pages, hpages, fuel, all, hall, hset⟩ := h scans hscans
    have hpage : pages = fun k => (page limit.toNat k (orders k)).map adminBooking := by
      funext k
      have hk := hpages k
      rw [listAllBookings_page hlimit text, hrows, (horders k).2.insertionSort_eq] at hk
      exact (Except.ok.inj hk).symm
    rw [hpage, collect_map, Option.map_eq_some_iff] at hall
    obtain ⟨shown, hshown, rfl⟩ := hall
    exact hrepeat fuel shown hshown (List.Nodup.of_map adminBooking (hset.nodup_iff.mpr (nodup_adminBookings key)))
  · rintro ⟨text, whole⟩ scans hscans
    refine ⟨_, fun k => listAllBookings_page hlimit text k, ?_⟩
    have horders : ∀ k, (((scans k).filter (hasStatus status)).insertionSort NewestFirst).Perm
        ((table.filter (hasStatus status)).insertionSort NewestFirst) ∧
          (((scans k).filter (hasStatus status)).insertionSort NewestFirst).Pairwise NewestFirst := fun k =>
      ⟨(List.perm_insertionSort _ _).trans (((hscans k).filter _).trans hperm.symm), List.pairwise_insertionSort _ _⟩
    have hpos : 0 < limit.toNat := by omega
    obtain ⟨fuel, all, hall, hset⟩ := collect_perm hpos hsorted
      (fun k => mt (hsplits _).mp (whole k)) horders
    exact ⟨fuel, all.map adminBooking, by rw [collect_map, hall, Option.map_some], (hset.trans hperm).map _⟩

/-- Two bookings of one time, and an older one. -/
def tiedTable : List Booking :=
  [⟨60, 1, 20, 40, .reserved, 50, 10, some 310, none, none, 150000⟩,
    ⟨61, 2, 20, 41, .reserved, 51, 10, some 310, none, none, 80000⟩,
   ⟨62, 2, 21, 41, .confirmed, 52, 4, some 304, some 5, none, 80000⟩]

/-- They are on one page of two. -/
theorem pages_partition_tied : PagesPartition tiedTable none 2 := by
  refine (pages_partition_iff (by decide) (by decide)).mpr ⟨rfl, fun k => ?_⟩
  rintro ⟨t, ht, hbefore, hup⟩
  have hends : ∀ t ∈ tiedTable.filter (hasStatus none),
      ((tiedTable.filter (hasStatus none)).countP fun a => !decide (NewestFirst t a)) % 2 = 0 ∧
        ((tiedTable.filter (hasStatus none)).countP fun a => decide (NewestFirst a t)) ≤
          ((tiedTable.filter (hasStatus none)).countP fun a => !decide (NewestFirst t a)) + 2 := by decide
  obtain ⟨heven, hle⟩ := hends t ht
  have hk : k * Int.toNat 2 = 2 * k := Nat.mul_comm k 2
  omega

/-- Two users book at one time. The first page of one comes from a query that finds one booking first, and the second
    page from a query that finds the other one first: the one booking is on both, and the other one on none. -/
theorem page_repeats : ¬∀ (cat : Catalog) (σ : State) (status : Option String) (limit : Int),
    Reachable cat σ → 1 ≤ limit →
    limit ≤ 200 → PagesPartition σ.db.bookings status limit := by
  intro h
  have hrun : (exec (step sampleCatalog) (.seeded 0) (.request (.create ⟨1, 20, 40, 50, none⟩) :: runs 0 9 60 ++
      .request (.create ⟨2, 20, 41, 51, none⟩) :: runs 1 9 61)).any (fun σ : State => decide (σ.db.bookings =
        [⟨60, 1, 20, 40, .reserved, 50, 0, some (timedeltaMinutes 5), none, none, 150000⟩,
         ⟨61, 2, 20, 41, .reserved, 51, 0, some (timedeltaMinutes 5), none, none, 80000⟩])) = true := by decide
  obtain ⟨σ, hσ, hdb⟩ := reachable_of_run hrun
  have hdb := of_decide_eq_true hdb
  obtain ⟨pages, hpages, fuel, all, hall, hset⟩ := h sampleCatalog σ none 1 hσ (by decide) (by decide)
    (fun k => if k = 0 then σ.db.bookings else σ.db.bookings.reverse) fun k => by
      by_cases hk : k = 0
      · rw [if_pos hk]
      · rw [if_neg hk]
        exact List.reverse_perm _
  rw [hdb] at hpages hset
  have hfirst : pages 0 = [⟨60, 1, 20, 40, .reserved, 150000, 0, none⟩] := (Except.ok.inj (hpages 0)).symm
  have hsecond : pages 1 = [⟨60, 1, 20, 40, .reserved, 150000, 0, none⟩] := (Except.ok.inj (hpages 1)).symm
  have hrepeat : ¬all.Nodup := not_nodup_collect (k := 0) (x := ⟨60, 1, 20, 40, .reserved, 150000, 0, none⟩)
    (fun j _ hj => absurd hj (Nat.not_lt_zero j)) (Nat.le_refl 0) (by simp [hfirst]) (by simp [hsecond]) hall
  exact hrepeat (hset.nodup_iff.mpr (by decide))

end Railbook
