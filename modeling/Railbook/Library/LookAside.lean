import Mathlib.Data.List.Basic
import Mathlib.Logic.Function.Basic

/-! A cache beside a store. Writers change the store under a key and delete the entry of the key afterwards; readers
    serve the entry, or compute the value from the store and set it. The changes are numbered in the order in which
    they were made, and an entry carries how many of them its value was computed after: it is fresh when these are all
    that are complete. A value is served until it expires, and still at that moment. -/

namespace LookAside
variable {K V W T : Type}

/-- A change of the store under a key. It is complete when its writer is done. -/
structure Change (K W : Type) where
  key : K
  writer : W
  deriving DecidableEq, Repr

/-- A value, until when it is served, and how many changes it was computed after. -/
structure CacheEntry (T V : Type) where
  value : V
  expires : T
  asOf : Nat
  deriving DecidableEq, Repr

/-- The numbers of the complete changes under a key. -/
def completed [DecidableEq K] (changes : List (Change K W)) (done : W → Bool) (key : K) : List Nat :=
  (changes.zipIdx.filter fun c => c.1.key = key && done c.1.writer).map (·.2)

/-- What was computed after the first `asOf` changes was computed after all complete ones under the key. -/
def Covers [DecidableEq K] (changes : List (Change K W)) (done : W → Bool) (key : K) (asOf : Nat) : Prop :=
  ∀ n ∈ completed changes done key, n < asOf

instance [DecidableEq K] (changes : List (Change K W)) (done : W → Bool) (key : K) (asOf : Nat) :
    Decidable (Covers changes done key asOf) := inferInstanceAs (Decidable (∀ _ ∈ _, _))

/-- The entry that is served under a key: one is gone only when its expiry has passed. -/
def served [LE T] [DecidableLE T] (entries : K → Option (CacheEntry T V)) (now : T) (key : K) :
    Option (CacheEntry T V) :=
  (entries key).filter fun e => decide (now ≤ e.expires)

/-- Everything that is served is fresh. -/
def ServesFresh [DecidableEq K] [LE T] [DecidableLE T] (changes : List (Change K W)) (done : W → Bool)
    (entries : K → Option (CacheEntry T V)) (now : T) : Prop :=
  ∀ key e, served entries now key = some e → Covers changes done key e.asOf

section
variable [DecidableEq K] {changes changes' : List (Change K W)} {done done' : W → Bool} {key key' : K} {n m : Nat}

theorem mem_completed : n ∈ completed changes done key ↔
    ∃ c, changes[n]? = some c ∧ c.key = key ∧ done c.writer = true := by
  simp only [completed, List.mem_map, List.mem_filter, Prod.exists, List.mem_zipIdx_iff_getElem?, Bool.and_eq_true,
    decide_eq_true_eq]
  constructor
  · rintro ⟨c, _, ⟨hc, hk⟩, rfl⟩
    exact ⟨c, hc, hk⟩
  · rintro ⟨c, hc, hk⟩
    exact ⟨c, n, ⟨hc, hk⟩, rfl⟩

theorem covers_length : Covers changes done key changes.length := fun _ hn =>
  have ⟨_, hc, _⟩ := mem_completed.mp hn
  (List.getElem?_eq_some_iff.mp hc).1

/-- What is complete stays so when more changes are made and more writers are done. -/
theorem completed_mono (hd : ∀ w, done w = true → done' w = true) (added : List (Change K W))
    (hn : n ∈ completed changes done key) : n ∈ completed (changes ++ added) done' key := by
  obtain ⟨c, hc, hk, hw⟩ := mem_completed.mp hn
  refine mem_completed.mpr ⟨c, ?_, hk, hd _ hw⟩
  rw [List.getElem?_append_left (List.getElem?_eq_some_iff.mp hc).1]
  exact hc

theorem Covers.of_completed (h : Covers changes done key m)
    (sub : ∀ n ∈ completed changes' done' key, n ∈ completed changes done key) : Covers changes' done' key m :=
  fun n hn => h n (sub n hn)

end

section
variable [LE T] [DecidableLE T] {entries : K → Option (CacheEntry T V)} {now now' : T} {e : CacheEntry T V}
  {key key' : K}

theorem served_eq_some : served entries now key = some e ↔ entries key = some e ∧ now ≤ e.expires := by
  simp only [served, Option.filter_eq_some_iff, decide_eq_true_eq]

theorem served_later (hnow : ∀ t, now' ≤ t → now ≤ t) (h : served entries now' key = some e) :
    served entries now key = some e := by
  obtain ⟨he, hle⟩ := served_eq_some.mp h
  exact served_eq_some.mpr ⟨he, hnow _ hle⟩

variable [DecidableEq K] {changes : List (Change K W)} {done : W → Bool}

theorem served_delete_self : served (Function.update entries key none) now key = none := by
  simp only [served, Function.update_self, Option.filter_none]

theorem served_update_ne (hk : key' ≠ key) (o : Option (CacheEntry T V)) :
    served (Function.update entries key o) now key' = served entries now key' := by
  simp only [served, Function.update_of_ne hk]

/-- What is served after a delete was served before it, under another key. -/
theorem served_of_delete (h : served (Function.update entries key none) now key' = some e) :
    key' ≠ key ∧ served entries now key' = some e := by
  by_cases hk : key' = key
  · subst hk
    rw [served_delete_self] at h
    cases h
  · exact ⟨hk, (served_update_ne hk none).symm.trans h⟩

theorem ServesFresh.set (h : ServesFresh changes done entries now) (he : Covers changes done key e.asOf) :
    ServesFresh changes done (Function.update entries key (some e)) now := by
  intro key' e' hserved
  by_cases hk : key' = key
  · subst hk
    obtain ⟨hset, -⟩ := served_eq_some.mp hserved
    rw [Function.update_self] at hset
    cases hset
    exact he
  · exact h key' e' ((served_update_ne hk _).symm.trans hserved)

end

end LookAside
