import Mathlib.Data.List.Basic

/-! A sorted set under one key of a store whose keys expire: members with their scores, and the time after which the
    key is gone. A key without members does not exist. -/

namespace SortedSet
variable {M T : Type}

/-- What is stored under one key. -/
structure Key (M T : Type) where
  members : List (M × T)
  expiresAt : Option T
  deriving DecidableEq, Repr

/-- The members under a key. -/
def members (k : Option (Key M T)) : List (M × T) := k.elim [] Key.members

/-- What a command at time `clock` finds under a key. -/
def live [LT T] [DecidableLT T] (clock : T) (k : Option (Key M T)) : Option (Key M T) :=
  k.filter fun k => !k.expiresAt.any fun t => decide (t < clock)

/-- `ZREMRANGEBYSCORE`, with both bounds inclusive. -/
def zremrangebyscore [LE T] [DecidableLE T] (lo hi : T) (k : Option (Key M T)) : Option (Key M T) :=
  (k.map fun k => { k with members := k.members.filter fun m => !(decide (lo ≤ m.2) && decide (m.2 ≤ hi)) }).filter
  fun k => !k.members.isEmpty

/-- `ZADD` of one member. -/
def zadd [DecidableEq M] (m : M) (score : T) (k : Option (Key M T)) : Key M T where
  members := ((members k).filter fun x => x.1 ≠ m) ++ [(m, score)]
  expiresAt := k.bind Key.expiresAt

/-- `ZCARD`. -/
def zcard (k : Option (Key M T)) : Nat := (members k).length

/-- `EXPIRE` at time `clock`: a key that would be gone at once is deleted. -/
def expire [LT T] [DecidableLT T] (clock deadline : T) (k : Key M T) : Option (Key M T) :=
  if clock < deadline then some { k with expiresAt := some deadline } else none

section
variable {k : Option (Key M T)}

@[simp] theorem members_none : members (none : Option (Key M T)) = [] := rfl

@[simp] theorem members_some (k : Key M T) : members (some k) = k.members := rfl

theorem members_zremrangebyscore [LE T] [DecidableLE T] (lo hi : T) (k : Option (Key M T)) :
    members (zremrangebyscore lo hi k) = (members k).filter fun m => !(decide (lo ≤ m.2) && decide (m.2 ≤ hi)) := by
  cases k with
  | none => rfl
  | some k =>
    simp only [zremrangebyscore, Option.map_some, Option.filter_some]
    split
    · rfl
    · rename_i hnil
      simpa using hnil

theorem live_of_le [LT T] [DecidableLT T] {clock t : T} {ms : List (M × T)} (h : ¬t < clock) :
    live clock (some ⟨ms, some t⟩) = some ⟨ms, some t⟩ := by
  simp [live, h]

theorem live_of_lt [LT T] [DecidableLT T] {clock t : T} {ms : List (M × T)} (h : t < clock) :
    live clock (some ⟨ms, some t⟩) = none := by
  simp [live, h]

end

end SortedSet
