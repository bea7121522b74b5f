import Mathlib.Algebra.Ring.Nat
import Mathlib.Data.List.Sort
import Mathlib.Tactic.Ring

/-! Queries over tables that are lists of rows: the joins of SQL, and the orders of `ORDER BY`. -/

namespace Table
variable {α β : Type}

/-- `JOIN r ON on`. -/
def join (on : α → β → Bool) (l : List α) (r : List β) : List (α × β) :=
  l.flatMap fun a => (r.filter (on a)).map fun b => (a, b)

/-- `LEFT OUTER JOIN r ON on`: a row without a match stays, with nothing on the right. -/
def leftJoin (on : α → β → Bool) (l : List α) (r : List β) : List (α × Option β) :=
  l.flatMap fun a =>
    match r.filter (on a) with
    | [] => [(a, none)]
    | bs => bs.map fun b => (a, some b)

/-- The order in which a database sorts text. -/
structure Collation where
  le : String → String → Bool
  total : ∀ a b, le a b || le b a
  trans : ∀ a b c, le a b → le b c → le a c

/-- Text by the code points of its characters. -/
def Collation.codePoints : Collation where
  le a b := decide (a ≤ b)
  total a b := by simpa using String.le_total a b
  trans a b c hab hbc := by
    simp only [decide_eq_true_eq] at hab hbc ⊢
    exact String.le_trans hab hbc

/-- `ORDER BY` two keys: the second one decides between rows that the first one does not separate. -/
def thenBy (le le' : α → α → Bool) (a b : α) : Bool := le a b && (!le b a || le' a b)

section
variable {le le' : α → α → Bool}

theorem thenBy_iff {a b : α} : thenBy le le' a b = true ↔ le a b = true ∧ (le b a = true → le' a b = true) := by
  cases hba : le b a <;> simp [thenBy, hba]

theorem thenBy_total (total : ∀ a b, le a b || le b a) (total' : ∀ a b, le' a b || le' b a) (a b : α) :
    thenBy le le' a b || thenBy le le' b a := by
  have h : le a b = true ∨ le b a = true := by simpa using total a b
  have h' : le' a b = true ∨ le' b a = true := by simpa using total' a b
  rw [Bool.or_eq_true, thenBy_iff, thenBy_iff]
  by_cases hab : le a b = true
  · by_cases hba : le b a = true
    · exact h'.imp (fun h' => ⟨hab, fun _ => h'⟩) fun h' => ⟨hba, fun _ => h'⟩
    · exact Or.inl ⟨hab, fun h => absurd h hba⟩
  · have hba : le b a = true := h.resolve_left hab
    exact Or.inr ⟨hba, fun h => absurd h hab⟩

theorem thenBy_trans (trans : ∀ a b c, le a b → le b c → le a c) (trans' : ∀ a b c, le' a b → le' b c → le' a c)
    {a b c : α} (hab : thenBy le le' a b) (hbc : thenBy le le' b c) : thenBy le le' a c := by
  rw [thenBy_iff] at hab hbc ⊢
  refine ⟨trans a b c hab.1 hbc.1, fun hca => ?_⟩
  -- The first key does not separate `a` and `c`, so it separates neither of them from `b`.
  exact trans' a b c (hab.2 (trans b c a hbc.1 hca)) (hbc.2 (trans c a b hca hab.1))

/-- A sorted query is in order. -/
theorem pairwise_insertionSort_of {l : List α} (total : ∀ a b, le a b || le b a)
    (trans : ∀ a b c, le a b → le b c → le a c) : (l.insertionSort fun a b => le a b).Pairwise fun a b =>
      le a b = true := by
  have : Std.Total fun a b => le a b = true := ⟨fun a b => by simpa using total a b⟩
  have : IsTrans α fun a b => le a b = true := ⟨trans⟩
  exact List.pairwise_insertionSort _ l

end

section
variable {on : α → β → Bool} {l : List α} {r : List β} {a : α} {b : β}

theorem mem_join : (a, b) ∈ join on l r ↔ a ∈ l ∧ b ∈ r ∧ on a b = true := by
  simp [join]

theorem mem_leftJoin_none : (a, none) ∈ leftJoin on l r ↔ a ∈ l ∧ ∀ b ∈ r, on a b = false := by
  simp only [leftJoin, List.mem_flatMap]
  constructor
  · rintro ⟨a', ha', hrow⟩
    split at hrow
    · rename_i hnil
      obtain rfl : a = a' := by simpa using hrow
      exact ⟨ha', by simpa [List.filter_eq_nil_iff] using hnil⟩
    · simp at hrow
  · rintro ⟨ha, hnone⟩
    have hnil : r.filter (on a) = [] := by simpa [List.filter_eq_nil_iff] using hnone
    exact ⟨a, ha, by simp [hnil]⟩

/-! ### Rows that match at most one row -/

theorem length_filter_le_one {κ : Type} [DecidableEq κ] {f : α → κ} {p : α → Bool} {k : κ} (key : (l.map f).Nodup)
    (hp : ∀ a ∈ l, p a = true → f a = k) : (l.filter p).length ≤ 1 := by
  have hcount : (l.map f).count k ≤ 1 := List.nodup_iff_count_le_one.mp key k
  rw [List.count_eq_countP, List.countP_map] at hcount
  rw [← List.countP_eq_length_filter]
  refine Nat.le_trans (List.countP_mono_left fun a ha h => ?_) hcount
  simpa using hp a ha h

theorem filter_eq_toList_find? {p : α → Bool} (h : (l.filter p).length ≤ 1) : l.filter p = (l.find? p).toList := by
  rw [← List.head?_filter]
  rcases hf : l.filter p with _ | ⟨x, _ | ⟨y, xs⟩⟩
  · rfl
  · rfl
  · rw [hf] at h
    simp at h

/-- A join in which every row on the left has at most one match is a look-up. -/
theorem join_eq_filterMap (h : ∀ a ∈ l, (r.filter (on a)).length ≤ 1) :
    join on l r = l.filterMap fun a => (r.find? (on a)).map fun b => (a, b) := by
  induction l with
  | nil => rfl
  | cons a l ih =>
    have ha := filter_eq_toList_find? (h a List.mem_cons_self)
    have hl := ih fun b hb => h b (List.mem_cons_of_mem _ hb)
    rw [join, List.flatMap_cons, ha, ← join, hl, List.filterMap_cons]
    cases r.find? (on a) <;> rfl

theorem leftJoin_eq_map (h : ∀ a ∈ l, (r.filter (on a)).length ≤ 1) :
    leftJoin on l r = l.map fun a => (a, r.find? (on a)) := by
  induction l with
  | nil => rfl
  | cons a l ih =>
    have ha := filter_eq_toList_find? (h a List.mem_cons_self)
    have hl := ih fun b hb => h b (List.mem_cons_of_mem _ hb)
    rw [leftJoin, List.flatMap_cons, ha, ← leftJoin, hl, List.map_cons]
    cases r.find? (on a) <;> rfl

/-! ### Counting -/

theorem filter_leftJoin {q : α → Bool} : (leftJoin on l r).filter (fun row => q row.1) =
    leftJoin on (l.filter q) r := by
  induction l with
  | nil => rfl
  | cons a l ih =>
    have hrow : ∀ row ∈ leftJoin on [a] r, row.1 = a := by
      intro row hrow
      simp only [leftJoin, List.flatMap_cons, List.flatMap_nil, List.append_nil] at hrow
      split at hrow
      · rw [List.mem_singleton.mp hrow]
      · obtain ⟨b, -, rfl⟩ := List.mem_map.mp hrow
        rfl
    have hsplit : ∀ l', leftJoin on (a :: l') r = leftJoin on [a] r ++ leftJoin on l' r := fun l' => by
      simp only [leftJoin, List.flatMap_cons, List.flatMap_nil, List.append_nil]
    rw [hsplit, List.filter_append, ih]
    by_cases hq : q a = true
    · rw [List.filter_eq_self.mpr fun row h => by rw [hrow row h, hq], List.filter_cons_of_pos hq]
      exact (hsplit _).symm
    · rw [List.filter_eq_nil_iff.mpr fun row h => by rw [hrow row h]; exact hq, List.filter_cons_of_neg hq,
        List.nil_append]

theorem countP_leftJoin_singleton {p : β → Bool} :
    (leftJoin on [a] r).countP (fun row => row.2.any p) = r.countP fun b => on a b && p b := by
  have hand : (r.countP fun b => on a b && p b) = (r.filter (on a)).countP p := by
    rw [List.countP_filter]
    exact List.countP_congr fun b _ => by rw [Bool.and_comm]
  rw [hand]
  simp only [leftJoin, List.flatMap_cons, List.flatMap_nil, List.append_nil]
  cases r.filter (on a) with
  | nil => rfl
  | cons b bs =>
    rw [List.countP_map]
    rfl

/-- The pairs that match, counted from either side. -/
theorem sum_countP_comm : (l.map fun a => r.countP (on a)).sum = (r.map fun b => l.countP fun a => on a b).sum := by
  induction l with
  | nil => simp
  | cons a l ih =>
    have hcons : ∀ r' : List β, (r'.map fun b => (a :: l).countP fun a => on a b).sum =
        r'.countP (on a) + (r'.map fun b => l.countP fun a => on a b).sum := by
      intro r'
      induction r' with
      | nil => rfl
      | cons b r' ihr =>
        simp only [List.map_cons, List.sum_cons, List.countP_cons] at ihr ⊢
        omega
    rw [List.map_cons, List.sum_cons, ih, hcons]

theorem countP_eq_sum (p : α → Bool) : l.countP p = (l.map fun a => if p a = true then 1 else 0).sum := by
  induction l with
  | nil => rfl
  | cons a l ih => rw [List.countP_cons, List.map_cons, List.sum_cons, ih, Nat.add_comm]

/-- When no row of either side matches two, as many rows of the one side have a match as of the other. -/
theorem countP_any_comm (h : ∀ a ∈ l, (r.filter (on a)).length ≤ 1)
    (h' : ∀ b ∈ r, (l.filter fun a => on a b).length ≤ 1) :
    (l.countP fun a => r.any (on a)) = r.countP fun b => l.any fun a => on a b := by
  have one : ∀ {γ : Type} (xs : List γ) (p : γ → Bool), (xs.filter p).length ≤ 1 →
      (if xs.any p = true then 1 else 0) = xs.countP p := by
    intro γ xs p hle
    rw [← List.countP_eq_length_filter] at hle
    split
    · rename_i hany
      obtain ⟨x, hx, hp⟩ := List.any_eq_true.mp hany
      have hpos : 0 < xs.countP p := List.countP_pos_iff.mpr ⟨x, hx, hp⟩
      omega
    · rename_i hany
      have hnil : xs.countP p = 0 := List.countP_eq_zero.mpr fun x hx hp => hany (List.any_eq_true.mpr ⟨x, hx, hp⟩)
      omega
  rw [countP_eq_sum, countP_eq_sum, List.map_congr_left fun a ha => one r (on a) (h a ha),
    List.map_congr_left fun b hb => one l (fun a => on a b) (h' b hb), sum_countP_comm]

/-- A sum over rows of which one is replaced. -/
theorem sum_map_set {f : α → Nat} {n : Nat} {x y : α} (h : l[n]? = some x) :
    ((l.set n y).map f).sum + f x = (l.map f).sum + f y := by
  induction l generalizing n with
  | nil => cases h
  | cons z l ih =>
    cases n with
    | zero =>
      cases h
      simp only [List.set_cons_zero, List.map_cons, List.sum_cons]
      omega
    | succ n =>
      have := ih (n := n) (by simpa using h)
      simp only [List.set_cons_succ, List.map_cons, List.sum_cons]
      omega

/-- A sum over rows that each belong to one row of another table, taken group by group. -/
theorem sum_fibers {f : β → Nat} (h : ∀ b ∈ r, (l.countP fun a => on a b) = 1) :
    (l.map fun a => ((r.filter (on a)).map f).sum).sum = (r.map f).sum := by
  induction r with
  | nil => simp
  | cons b r ih =>
    have hcons : ∀ l' : List α, (l'.map fun a => (((b :: r).filter (on a)).map f).sum).sum =
        (l'.countP fun a => on a b) * f b + (l'.map fun a => ((r.filter (on a)).map f).sum).sum := by
      intro l'
      induction l' with
      | nil => simp
      | cons a l' ihl =>
        rw [List.map_cons, List.sum_cons, ihl, List.countP_cons, List.map_cons, List.sum_cons, List.filter_cons]
        cases on a b <;> simp <;> ring
    rw [hcons, h b List.mem_cons_self, ih fun b' hb' => h b' (List.mem_cons_of_mem _ hb'), Nat.one_mul, List.map_cons,
      List.sum_cons]

/-- A condition holds of all rows that are counted when it does not change the count. -/
theorem countP_and_eq_iff {p q : α → Bool} :
    l.countP p = (l.countP fun a => p a && q a) ↔ ∀ a ∈ l, p a = true → q a = true := by
  have hand : (l.countP fun a => p a && q a) = (l.filter p).countP q := by
    rw [List.countP_filter]
    exact List.countP_congr fun a _ => by rw [Bool.and_comm]
  rw [hand, List.countP_eq_length_filter, eq_comm, List.countP_eq_length]
  simp only [List.mem_filter, and_imp]

/-- A query that gives at most one row gives the row that is there. -/
theorem eq_singleton_of_mem (hlen : l.length ≤ 1) (ha : a ∈ l) : l = [a] := by
  rcases l with _ | ⟨x, _ | ⟨y, l⟩⟩
  · cases ha
  · rw [List.mem_singleton.mp ha]
  · simp at hlen

end

end Table
