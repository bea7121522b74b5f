import Railbook.Models
import Mathlib.Data.List.Nodup
import Mathlib.Data.List.ProdSigma
import Mathlib.Data.Fin.VecNotation

/-! `app/seed.py`: the catalog that the service starts with. Its ids are drawn by `uuid4`, so the catalog is given for
    every way of drawing distinct ids. -/

namespace Railbook

/-- A train of `TRAINS`, with its entries in `DEPARTURE_HOURS` and `JOURNEY_HOURS`. -/
structure TrainSeed where
  name : String
  trainNumber : String
  origin : String
  destination : String
  departureHours : Int × Int
  journeyHours : Int

/-- `TRAINS`. -/
def trainSeeds : Fin 3 → TrainSeed :=
  ![⟨"Subarna Express", "SE-701", "Dhaka", "Chittagong", (7, 0), 5⟩,
    ⟨"Ekota Express", "EE-501", "Dhaka", "Rajshahi", (10, 30), 6⟩,
    ⟨"Mohanagar Provati", "MP-301", "Dhaka", "Sylhet", (6, 30), 7⟩]

/-- `COMPARTMENTS` and `COMP_TYPES`. -/
def compartmentSeeds : Fin 2 → String × CompType := ![("A", .ac), ("B", .nonAc)]

/-- `_seat_position`. -/
def seatPosition (seatNum : Int) : String := if seatNum % 10 ∈ [1, 4, 5, 8] then "window" else "corridor"

/-- `t.replace(hour=hour, minute=minute, second=0, microsecond=0)`. -/
def replaceTime (t : Time) (hour minute : Int) : Time :=
  t - t % timedeltaHours 24 + timedeltaHours hour + timedeltaMinutes minute

/-- The rows that `seed_database` adds with a drawn id, by the loops that add them. -/
inductive SeedRow where
  | user (k : Fin 3)
  | train (t : Fin 3)
  | compartment (t : Fin 3) (c : Fin 2)
  | seat (t : Fin 3) (c : Fin 2) (n : Fin 25)
  | schedule (t : Fin 3) (day : Fin 7)

/-- The ids that `uuid4` draws for the rows: distinct, and none that of the system user. -/
structure SeedIds where
  id : SeedRow → Uuid
  injective : Function.Injective id
  ne_system : ∀ row, id row ≠ systemUserId

section
variable (ids : SeedIds) (now : Time)

/-- The rows of `users`. -/
def seedUsers : List User := ((List.finRange 3).map fun k => ⟨ids.id (.user k)⟩) ++ [⟨systemUserId⟩]

/-- The rows of `trains`. -/
def seedTrains : List Train := (List.finRange 3).map fun t =>
  ⟨ids.id (.train t), (trainSeeds t).name, (trainSeeds t).trainNumber, (trainSeeds t).origin,
    (trainSeeds t).destination⟩

/-- The rows of `compartments`. -/
def seedCompartments : List Compartment := (List.finRange 3 ×ˢ List.finRange 2).map fun (t, c) =>
  ⟨ids.id (.compartment t c), ids.id (.train t), (compartmentSeeds c).1, (compartmentSeeds c).2⟩

/-- The rows of `seats`. -/
def seedSeats : List Seat := (List.finRange 3 ×ˢ List.finRange 2 ×ˢ List.finRange 25).map fun (t, c, n) =>
  ⟨ids.id (.seat t c n), ids.id (.compartment t c), n + 1, seatPosition (n + 1)⟩

/-- The rows of `schedules`. -/
def seedSchedules : List Schedule := (List.finRange 3 ×ˢ List.finRange 7).map fun (t, day) =>
  let depDate := replaceTime (now + timedeltaHours (24 * (day + 1))) (trainSeeds t).departureHours.1
    (trainSeeds t).departureHours.2
  ⟨ids.id (.schedule t day), ids.id (.train t), depDate, depDate + timedeltaHours (trainSeeds t).journeyHours⟩

end

section
variable {ids : SeedIds} {now : Time}

/-- Rows that are added with distinct ids have distinct keys. -/
theorem SeedIds.nodup_map {α : Type} {l : List α} (ids : SeedIds) (row : α → SeedRow) (hl : l.Nodup)
    (hrow : Function.Injective row) : (l.map fun x => ids.id (row x)).Nodup :=
  hl.map (ids.injective.comp hrow)

theorem seedUsers_key : ((seedUsers ids).map (·.id)).Nodup := by
  simp only [seedUsers, List.map_append, List.map_map, List.map_singleton]
  refine List.nodup_append.mpr ⟨ids.nodup_map SeedRow.user (List.nodup_finRange 3) (fun a b h => by cases h; rfl),
    List.nodup_singleton _, ?_⟩
  intro x hx y hy
  obtain ⟨k, -, rfl⟩ := List.mem_map.mp hx
  rw [List.mem_singleton.mp hy]
  exact ids.ne_system _

theorem mem_seedTrains (t : Fin 3) : ∃ x ∈ seedTrains ids, x.id = ids.id (.train t) :=
  ⟨_, List.mem_map_of_mem (List.mem_finRange t), rfl⟩

theorem mem_seedCompartments (t : Fin 3) (c : Fin 2) :
    ∃ x ∈ seedCompartments ids, x.id = ids.id (.compartment t c) ∧ x.trainId = ids.id (.train t) :=
  ⟨_, List.mem_map_of_mem (a := (t, c)) (List.pair_mem_product.mpr ⟨List.mem_finRange t, List.mem_finRange c⟩), rfl,
    rfl⟩

end

/-- `seed_database`, at time `now`. -/
def seedDatabase (ids : SeedIds) (now : Time) : Catalog where
  users := seedUsers ids
  trains := seedTrains ids
  schedules := seedSchedules ids now
  compartments := seedCompartments ids
  seats := seedSeats ids
  usersKey := seedUsers_key
  trainsKey := by
    rw [seedTrains, List.map_map]
    exact ids.nodup_map SeedRow.train (List.nodup_finRange 3) fun a b h => by cases h; rfl
  schedulesKey := by
    rw [seedSchedules, List.map_map]
    exact ids.nodup_map (fun x : Fin 3 × Fin 7 => .schedule x.1 x.2)
      ((List.nodup_finRange 3).product (List.nodup_finRange 7)) fun a b h => by cases a; cases b; cases h; rfl
  compartmentsKey := by
    rw [seedCompartments, List.map_map]
    exact ids.nodup_map (fun x : Fin 3 × Fin 2 => .compartment x.1 x.2)
      ((List.nodup_finRange 3).product (List.nodup_finRange 2)) fun a b h => by cases a; cases b; cases h; rfl
  seatsKey := by
    rw [seedSeats, List.map_map]
    exact ids.nodup_map (fun x : Fin 3 × Fin 2 × Fin 25 => .seat x.1 x.2.1 x.2.2)
      ((List.nodup_finRange 3).product ((List.nodup_finRange 2).product (List.nodup_finRange 25)))
      fun a b h => by obtain ⟨t, c, n⟩ := a; obtain ⟨t', c', n'⟩ := b; cases h; rfl
  schedulesTrain s hs := by
    obtain ⟨⟨t, day⟩, -, rfl⟩ := List.mem_map.mp hs
    exact mem_seedTrains t
  compartmentsTrain c hc := by
    obtain ⟨⟨t, c⟩, -, rfl⟩ := List.mem_map.mp hc
    exact mem_seedTrains t
  seatsCompartment x hx := by
    obtain ⟨⟨t, c, n⟩, -, rfl⟩ := List.mem_map.mp hx
    obtain ⟨y, hy, hid, -⟩ := mem_seedCompartments t c
    exact ⟨y, hy, hid⟩
  systemUser := ⟨⟨systemUserId⟩, List.mem_append_right _ (List.mem_singleton_self _), rfl⟩

/-- Ids for the seeded rows. -/
def sampleId : SeedRow → Nat
  | .user k => 1 + k
  | .train t => 10 + t
  | .compartment t c => 20 + 2 * t + c
  | .schedule t day => 30 + 7 * t + day
  | .seat t c n => 100 + 50 * t + 25 * c + n

theorem sampleId_injective : Function.Injective sampleId := by
  intro a b h
  cases a <;> cases b <;> simp only [sampleId, SeedRow.user.injEq, SeedRow.train.injEq, SeedRow.compartment.injEq,
    SeedRow.schedule.injEq, SeedRow.seat.injEq, Fin.ext_iff, reduceCtorEq] at h ⊢ <;> omega

theorem sampleId_pos (row : SeedRow) : 0 < sampleId row := by
  cases row <;> simp only [sampleId] <;> omega

/-- Ids for a sample run. -/
def sampleIds : SeedIds where
  id := sampleId
  injective := sampleId_injective
  ne_system row := Nat.ne_of_gt (sampleId_pos row)

end Railbook
