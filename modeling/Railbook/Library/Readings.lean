import Mathlib.Algebra.Order.BigOperators.Group.List
import Mathlib.Algebra.Ring.Nat
import Mathlib.Data.List.Basic

/-! Numbers that are read one after the other while changes go on. The log of the changes says of each how many
    numbers had been read when it came; what a number was when it was read is its sum over the changes that
    came before. -/

namespace Readings
variable {X : Type}

/-- The changes that had come when the `n`-th number was read. -/
def before (n : Nat) (log : List (Nat × X)) : List X := (log.filter fun x => x.1 < n).map (·.2)

/-- The sum of one number over changes. -/
def total (f : X → Nat) (changes : List X) : Nat := (changes.map f).sum

section
variable {f : X → Nat} {log pre post : List (Nat × X)} {xs ys : List X} {n : Nat} {x : Nat × X}

@[simp] theorem total_nil : total f [] = 0 := rfl

theorem total_append : total f (xs ++ ys) = total f xs + total f ys := by
  rw [total, List.map_append, List.sum_append]
  rfl

theorem total_singleton (c : X) : total f [c] = f c := by
  simp [total]

theorem total_eq_zero : total f xs = 0 ↔ ∀ c ∈ xs, f c = 0 := by
  rw [total, List.sum_eq_zero_iff_forall_eq_nat]
  simp

theorem before_append : before n (pre ++ post) = before n pre ++ before n post := by
  simp [before]

/-- Later changes are not in what was read. -/
theorem before_snoc (h : n ≤ x.1) : before n (log ++ [x]) = before n log := by
  simp [before, h]

theorem before_eq (h : ∀ x ∈ log, x.1 < n) : before n log = log.map (·.2) := by
  rw [before, List.filter_eq_self.mpr fun x hx => decide_eq_true (h x hx)]

theorem mem_before {c : X} : c ∈ before n log ↔ ∃ m, (m, c) ∈ log ∧ m < n := by
  simp [before]

/-- A sum over a log: what had come when the `n`-th number was read, and the rest. -/
theorem total_split (n : Nat) : total f (log.map (·.2)) =
    total f (before n log) + total f ((log.filter fun x => n ≤ x.1).map (·.2)) := by
  induction log with
  | nil => rfl
  | cons x log ih =>
    by_cases hx : x.1 < n
    · have hnx : ¬n ≤ x.1 := Nat.not_le.mpr hx
      simp only [total, before, List.map_cons, List.filter_cons, hx, hnx, decide_true, decide_false, if_true,
        Bool.false_eq_true, if_false, List.sum_cons] at ih ⊢
      omega
    · have hnx : n ≤ x.1 := Nat.not_lt.mp hx
      simp only [total, before, List.map_cons, List.filter_cons, hx, hnx, decide_true, decide_false, if_true,
        Bool.false_eq_true, if_false, List.sum_cons] at ih ⊢
      omega

theorem total_before_succ (n : Nat) : total f (before (n + 1) log) =
    total f (before n log) + total f ((log.filter fun x => x.1 = n).map (·.2)) := by
  have hbefore : before n (log.filter fun x => x.1 < n + 1) = before n log := by
    rw [before, before, List.filter_filter]
    exact congrArg _ (List.filter_congr fun x _ => by rw [Bool.eq_iff_iff]; simp; omega)
  have hat : ((log.filter fun x => x.1 < n + 1).filter fun x => n ≤ x.1) = log.filter fun x => x.1 = n := by
    rw [List.filter_filter]
    exact List.filter_congr fun x _ => by rw [Bool.eq_iff_iff]; simp; omega
  rw [← hbefore, ← hat]
  exact total_split n

/-- A log cut in two: up to the cut a number is what it was when it was read exactly when nothing before the cut
    changes it that came after the reading, and nothing behind the cut that came before it. -/
theorem total_eq_iff (sorted : (pre ++ post).Pairwise fun x y => x.1 ≤ y.1) :
    total f (pre.map (·.2)) = total f (before n (pre ++ post)) ↔
      (∀ x ∈ pre, n ≤ x.1 → f x.2 = 0) ∧ ∀ x ∈ post, x.1 < n → f x.2 = 0 := by
  have hpre : total f ((pre.filter fun x => n ≤ x.1).map (·.2)) = 0 ↔ ∀ x ∈ pre, n ≤ x.1 → f x.2 = 0 := by
    simp only [total_eq_zero, List.mem_map, List.mem_filter, decide_eq_true_eq]
    constructor
    · intro h x hx hn
      exact h x.2 ⟨x, ⟨hx, hn⟩, rfl⟩
    · rintro h c ⟨x, ⟨hx, hn⟩, rfl⟩
      exact h x hx hn
  have hpost : total f (before n post) = 0 ↔ ∀ x ∈ post, x.1 < n → f x.2 = 0 := by
    simp only [total_eq_zero, mem_before]
    constructor
    · intro h x hx hn
      exact h x.2 ⟨x.1, hx, hn⟩
    · rintro h c ⟨m, hx, hn⟩
      exact h (m, c) hx hn
  rw [total_split n, before_append, total_append, ← hpre, ← hpost]
  -- One of the two sums is empty, since the log is in the order of the readings.
  have hone : total f ((pre.filter fun x => n ≤ x.1).map (·.2)) = 0 ∨ total f (before n post) = 0 := by
    by_cases hlate : ∃ x ∈ pre, n ≤ x.1
    · obtain ⟨x, hx, hn⟩ := hlate
      refine Or.inr (hpost.mpr fun y hy hlt => ?_)
      have hle := (List.pairwise_append.mp sorted).2.2 x hx y hy
      omega
    · exact Or.inl (hpre.mpr fun x hx hn => absurd ⟨x, hx, hn⟩ hlate)
  omega

/-- A list can be cut where a condition begins to hold for good, when it holds on behind everything of which
    it holds. -/
theorem exists_cut_iff {α : Type} {p : α → Prop} [DecidablePred p] {l : List α} :
    (∃ pre post, l = pre ++ post ∧ (∀ a ∈ pre, ¬p a) ∧ ∀ a ∈ post, p a) ↔ l.Pairwise fun a b => p a → p b := by
  constructor
  · rintro ⟨pre, post, rfl, hpre, hpost⟩
    refine List.pairwise_append.mpr ⟨?_, ?_, fun a ha b _ hp => absurd hp (hpre a ha)⟩
    · exact List.pairwise_of_forall_mem_list fun a ha b _ hp => absurd hp (hpre a ha)
    · exact List.pairwise_of_forall_mem_list fun a _ b hb _ => hpost b hb
  · intro h
    induction l with
    | nil => exact ⟨[], [], rfl, nofun, nofun⟩
    | cons a l ih =>
      obtain ⟨ha, hl⟩ := List.pairwise_cons.mp h
      by_cases hp : p a
      · refine ⟨[], a :: l, rfl, nofun, fun b hb => ?_⟩
        rcases List.mem_cons.mp hb with rfl | hb
        · exact hp
        · exact ha b hb hp
      · obtain ⟨pre, post, rfl, hpre, hpost⟩ := ih hl
        refine ⟨a :: pre, post, rfl, fun b hb => ?_, hpost⟩
        rcases List.mem_cons.mp hb with rfl | hb
        · exact hp
        · exact hpre b hb

end

end Readings
