import Mathlib.Data.List.Nodup
import Mathlib.Order.Defs.Unbundled

/-! A table that is read page by page. Each page is a query of its own, which orders rows with equal keys in its own
    way: the pages together are the table when no boundary between two pages falls among rows with equal keys, and
    else some row can be on both sides of it. -/

namespace Paging
variable {α β : Type}

/-- Page `k` of the rows: `LIMIT limit OFFSET k * limit`. -/
def page (limit k : Nat) (rows : List α) : List α := (rows.drop (k * limit)).take limit

/-- The pages from page `k` on up to the first empty one, one after the other. It gives nothing when `fuel` pages do
    not get there. -/
def collect (pages : Nat → List α) : Nat → Nat → Option (List α)
  | 0, _ => none
  | fuel + 1, k => if (pages k).isEmpty then some [] else (collect pages fuel (k + 1)).map (pages k ++ ·)

/-- The boundary behind the first `n` rows falls among rows that the order does not separate: those that come before
    some row are fewer, and those that do not come behind it are more. -/
def Splits (r : α → α → Prop) [DecidableRel r] (rows : List α) (n : Nat) : Prop :=
  ∃ t ∈ rows, (rows.countP fun a => !decide (r t a)) < n ∧ n < rows.countP fun a => decide (r a t)

section
variable {r : α → α → Prop} [DecidableRel r] {p : α → Bool} {l l' : List α} {i k n limit fuel : Nat} {x t : α}
  {pages : Nat → List α} {all : List α}

/-! ### Conditions that hold of the first rows -/

theorem filter_eq_take (closed : l.Pairwise fun a b => p b = true → p a = true) : l.filter p = l.take (l.countP p) := by
  induction l with
  | nil => rfl
  | cons a l ih =>
    obtain ⟨ha, hl⟩ := List.pairwise_cons.mp closed
    by_cases hp : p a = true
    · rw [List.filter_cons_of_pos hp, List.countP_cons_of_pos hp, List.take_succ_cons, ih hl]
    · have hnone : ∀ b ∈ l, ¬p b = true := fun b hb h => hp (ha b hb h)
      rw [List.filter_cons_of_neg hp, List.countP_cons_of_neg hp, List.countP_eq_zero.mpr hnone, List.take_zero]
      exact List.filter_eq_nil_iff.mpr hnone

theorem holds_iff_lt (closed : l.Pairwise fun a b => p b = true → p a = true) (hx : l[i]? = some x) :
    p x = true ↔ i < l.countP p := by
  induction l generalizing i with
  | nil => cases hx
  | cons a l ih =>
    obtain ⟨ha, hl⟩ := List.pairwise_cons.mp closed
    cases i with
    | zero =>
      obtain rfl : a = x := by simpa using hx
      refine ⟨fun hp => List.countP_pos_iff.mpr ⟨a, List.mem_cons_self, hp⟩, fun hpos => ?_⟩
      obtain ⟨b, hb, hp⟩ := List.countP_pos_iff.mp hpos
      rcases List.mem_cons.mp hb with rfl | hb
      · exact hp
      · exact ha b hb hp
    | succ i =>
      have hx : l[i]? = some x := by simpa using hx
      by_cases hp : p a = true
      · rw [List.countP_cons_of_pos hp, Nat.succ_lt_succ_iff]
        exact ih hl hx
      · have hnone : ∀ b ∈ l, ¬p b = true := fun b hb h => hp (ha b hb h)
        rw [List.countP_cons_of_neg hp, List.countP_eq_zero.mpr hnone]
        exact iff_of_false (hnone x (List.mem_of_getElem? hx)) (Nat.not_lt_zero _)

/-- What comes before a row are the first rows. -/
theorem before_closed [IsTrans α r] (h : l.Pairwise r) (t : α) :
    l.Pairwise fun a b => (!decide (r t b)) = true → (!decide (r t a)) = true := by
  refine h.imp fun {a b} hab hb => ?_
  simp only [Bool.not_eq_true', decide_eq_false_iff_not] at hb ⊢
  exact fun hta => hb (IsTrans.trans _ _ _ hta hab)

theorem upTo_closed [IsTrans α r] (h : l.Pairwise r) (t : α) :
    l.Pairwise fun a b => decide (r b t) = true → decide (r a t) = true := by
  refine h.imp fun {a b} hab hb => ?_
  simp only [decide_eq_true_eq] at hb ⊢
  exact IsTrans.trans _ _ _ hab hb

/-! ### Orders of the same rows -/

theorem splits_perm (hp : l'.Perm l) : Splits r l' n ↔ Splits r l n := by
  simp only [Splits, hp.mem_iff, hp.countP_eq]

/-- A boundary that splits nothing has the same rows before it in every order. -/
theorem take_perm [IsTrans α r] [Std.Refl r] (h : l.Pairwise r) (h' : l'.Pairwise r) (hp : l'.Perm l)
    (whole : ¬Splits r l n) : (l'.take n).Perm (l.take n) := by
  by_cases hlen : l.length ≤ n
  · rw [List.take_of_length_le hlen, List.take_of_length_le (hp.length_eq ▸ hlen)]
    exact hp
  · have hlt : n < l.length := Nat.lt_of_not_le hlen
    have ht : l[n]? = some l[n] := List.getElem?_eq_getElem hlt
    generalize l[n] = t at ht
    -- The row behind the boundary has exactly `n` rows before it.
    have hself : r t t := Std.Refl.refl t
    have hle : (l.countP fun a => !decide (r t a)) ≤ n := by
      by_contra hgt
      have hbefore := (holds_iff_lt (before_closed h t) ht).mpr (Nat.lt_of_not_le hgt)
      simp [hself] at hbefore
    have hup : n < l.countP fun a => decide (r a t) := (holds_iff_lt (upTo_closed h t) ht).mp (decide_eq_true hself)
    have hn : (l.countP fun a => !decide (r t a)) = n := by
      by_contra hne
      exact whole ⟨t, List.mem_of_getElem? ht, Nat.lt_of_le_of_ne hle hne, hup⟩
    have hl : l.filter (fun a => !decide (r t a)) = l.take n := by
      rw [filter_eq_take (before_closed h t), hn]
    have hl' : l'.filter (fun a => !decide (r t a)) = l'.take n := by
      rw [filter_eq_take (before_closed h' t), hp.countP_eq, hn]
    rw [← hl, ← hl']
    exact hp.filter _

/-- A page between two boundaries that split nothing has the same rows in every order. -/
theorem page_perm [IsTrans α r] [Std.Refl r] (h : l.Pairwise r) (h' : l'.Pairwise r) (hp : l'.Perm l)
    (whole : ∀ k, ¬Splits r l (k * limit)) (k : Nat) : (page limit k l').Perm (page limit k l) := by
  have hsplit : ∀ rows : List α, rows.take ((k + 1) * limit) = rows.take (k * limit) ++ page limit k rows :=
    fun rows => by
    rw [page, Nat.succ_mul, List.take_add]
  have hbefore : (l'.take (k * limit)).Perm (l.take (k * limit)) := take_perm h h' hp (whole k)
  have hall : (l'.take ((k + 1) * limit)).Perm (l.take ((k + 1) * limit)) := take_perm h h' hp (whole (k + 1))
  rw [hsplit, hsplit] at hall
  exact (List.perm_append_left_iff _).mp ((hbefore.symm.append_right _).trans hall)

/-- Two orders that put the same row on both sides of a boundary. -/
theorem exists_order [IsTrans α r] (h : l.Pairwise r) (split : Splits r l n) :
    ∃ (l' : List α) (x : α), l'.Pairwise r ∧ l'.Perm l ∧ 0 < n ∧ l[n - 1]? = some x ∧ l'[n]? = some x := by
  obtain ⟨t, -, hbefore, hup⟩ := split
  have hlen : n < l.length := Nat.lt_of_lt_of_le hup List.countP_le_length
  obtain ⟨m, rfl⟩ : ∃ m, n = m + 1 := Nat.exists_eq_succ_of_ne_zero (Nat.ne_of_gt (Nat.zero_lt_of_lt hbefore))
  -- The rows `x` and `y` at the two sides of the boundary change places.
  obtain ⟨u, x, y, v, rfl, rfl⟩ : ∃ u x y v, l = u ++ x :: y :: v ∧ u.length = m := by
    have hdrop : l.drop m = l[m] :: l[m + 1] :: l.drop (m + 2) := by
      rw [List.drop_eq_getElem_cons (Nat.lt_of_succ_lt hlen), List.drop_eq_getElem_cons hlen]
    refine ⟨l.take m, l[m], l[m + 1], l.drop (m + 2), ?_, ?_⟩
    · rw [← hdrop, List.take_append_drop]
    · rw [List.length_take]
      omega
  have hx : (u ++ x :: y :: v)[u.length]? = some x := by simp
  have hy : (u ++ x :: y :: v)[u.length + 1]? = some y := by simp
  have htx : r t x := by
    have hnot := mt (holds_iff_lt (before_closed h t) hx).mp (by omega)
    simpa using hnot
  have hyt : r y t := of_decide_eq_true ((holds_iff_lt (upTo_closed h t) hy).mpr hup)
  have hyx : r y x := IsTrans.trans _ _ _ hyt htx
  refine ⟨u ++ y :: x :: v, x, ?_, List.Perm.append_left u (List.Perm.swap x y v), Nat.succ_pos _, ?_, ?_⟩
  · simp only [List.pairwise_append, List.pairwise_cons, List.mem_cons, forall_eq_or_imp] at h ⊢
    obtain ⟨hu, ⟨⟨-, hxv⟩, hyv, hv⟩, hcross⟩ := h
    refine ⟨hu, ⟨⟨hyx, hyv⟩, hxv, hv⟩, fun a ha => ?_⟩
    obtain ⟨hax, hay, hav⟩ := hcross a ha
    exact ⟨hay, hax, hav⟩
  · exact hx
  · simp

/-- Every order of the rows with `p` comes from some scan of the table. -/
theorem exists_scan {table rows : List α} (hrows : rows.Perm (table.filter p)) :
    ∃ scan : List α, scan.Perm table ∧ scan.filter p = rows := by
  refine ⟨rows ++ table.filter (fun a => !p a), ?_, ?_⟩
  · exact (hrows.append_right _).trans (List.filter_append_perm _ table)
  · have hself : rows.filter p = rows := List.filter_eq_self.mpr fun a ha =>
      (List.mem_filter.mp (hrows.mem_iff.mp ha)).2
    have hrest : (table.filter fun a => !p a).filter p = [] := by
      rw [List.filter_filter, List.filter_eq_nil_iff]
      intro a _
      simp
    rw [List.filter_append, hself, hrest, List.append_nil]

omit [DecidableRel r] in
/-- What some order of the rows puts first is a row that the order puts behind no other. -/
theorem forall_first_iff {P : α → Prop} [Std.Refl r] (h : l.Pairwise r) (hne : l ≠ []) :
    (∀ l' : List α, l'.Pairwise r → l'.Perm l → ∃ x ∈ l'.head?, P x) ↔ ∀ x ∈ l, (∀ y ∈ l, r x y) → P x := by
  constructor
  · intro first x hx hmin
    obtain ⟨before, after, rfl⟩ := List.append_of_mem hx
    have hsub : (before ++ after).Sublist (before ++ x :: after) := (List.sublist_cons_self x after).append_left before
    have hsorted : (x :: (before ++ after)).Pairwise r := List.pairwise_cons.mpr ⟨fun y hy => hmin y (hsub.subset hy),
      h.sublist hsub⟩
    obtain ⟨y, hy, hP⟩ := first _ hsorted List.perm_middle.symm
    cases hy
    exact hP
  · intro all l' hsorted hperm
    cases l' with
    | nil => exact absurd hperm.nil_eq hne.symm
    | cons x rest =>
      refine ⟨x, rfl, all x (hperm.mem_iff.mp List.mem_cons_self) fun y hy => ?_⟩
      rcases List.mem_cons.mp (hperm.mem_iff.mpr hy) with rfl | hy
      · exact Std.Refl.refl y
      · exact (List.pairwise_cons.mp hsorted).1 y hy

/-! ### The pages together -/

theorem collect_map {f : α → β} : collect (fun k => (pages k).map f) fuel k =
    (collect pages fuel k).map (List.map f) := by
  induction fuel generalizing k with
  | zero => rfl
  | succ fuel ih =>
    simp only [collect, List.isEmpty_map, ih]
    split
    · rfl
    · cases collect pages fuel (k + 1) <;> simp

/-- Pages with the rows of the pages of one list, put together, have the rows of the list. -/
theorem collect_of_pages (hlimit : 0 < limit) (h : ∀ k, (pages k).Perm (page limit k l))
    (hlen : l.length ≤ (k + n) * limit) :
    ∃ all, collect pages (n + 1) k = some all ∧ all.Perm (l.drop (k * limit)) := by
  have hstep : ∀ k, l.drop (k * limit) = page limit k l ++ l.drop ((k + 1) * limit) := fun k => by
    rw [page, Nat.succ_mul, ← List.drop_drop, List.take_append_drop]
  induction n generalizing k with
  | zero =>
    have hnil : l.drop (k * limit) = [] := List.drop_eq_nil_of_le hlen
    have hpage : pages k = [] := by
      have hk := h k
      rw [page, hnil, List.take_nil] at hk
      exact hk.eq_nil
    exact ⟨[], by simp [collect, hpage], by rw [hnil]⟩
  | succ n ih =>
    by_cases hpage : pages k = []
    · have hnil : (l.drop (k * limit)).take limit = [] := (hpage ▸ h k).symm.eq_nil
      have hdrop : l.drop (k * limit) = [] := by
        rcases List.take_eq_nil_iff.mp hnil with hz | hd
        · omega
        · exact hd
      exact ⟨[], by simp [collect, hpage], by rw [hdrop]⟩
    · obtain ⟨all, hall, hperm⟩ := ih (k := k + 1) (by rwa [Nat.add_right_comm, Nat.add_assoc])
      refine ⟨pages k ++ all, ?_, ?_⟩
      · rw [collect, if_neg (by simpa using hpage), hall, Option.map_some]
      · rw [hstep]
        exact (h k).append hperm

theorem mem_collect (hne : ∀ j, i ≤ j → j < k → pages j ≠ []) (hi : i ≤ k) (hx : x ∈ pages k)
    (h : collect pages fuel i = some all) : x ∈ all := by
  induction fuel generalizing i all with
  | zero => cases h
  | succ fuel ih =>
    have hpage : pages i ≠ [] := by
      rcases Nat.lt_or_eq_of_le hi with hlt | rfl
      · exact hne i (Nat.le_refl i) hlt
      · exact List.ne_nil_of_mem hx
    rw [collect, if_neg (by simpa using hpage)] at h
    obtain ⟨rest, hrest, rfl⟩ := Option.map_eq_some_iff.mp h
    rcases Nat.lt_or_eq_of_le hi with hlt | rfl
    · exact List.mem_append_right _ (ih (fun j hj hjk => hne j (Nat.le_of_succ_le hj) hjk) hlt hrest)
    · exact List.mem_append_left _ hx

theorem not_nodup_collect (hne : ∀ j, i ≤ j → j < k → pages j ≠ []) (hi : i ≤ k) (hx : x ∈ pages k)
    (hx' : x ∈ pages (k + 1)) (h : collect pages fuel i = some all) : ¬all.Nodup := by
  induction fuel generalizing i all with
  | zero => cases h
  | succ fuel ih =>
    have hpage : pages i ≠ [] := by
      rcases Nat.lt_or_eq_of_le hi with hlt | rfl
      · exact hne i (Nat.le_refl i) hlt
      · exact List.ne_nil_of_mem hx
    rw [collect, if_neg (by simpa using hpage)] at h
    obtain ⟨rest, hrest, rfl⟩ := Option.map_eq_some_iff.mp h
    rw [List.nodup_append]
    rintro ⟨-, hnodup, hdisjoint⟩
    rcases Nat.lt_or_eq_of_le hi with hlt | rfl
    · exact ih (fun j hj hjk => hne j (Nat.le_of_succ_le hj) hjk) hlt hrest hnodup
    · have hmem : x ∈ rest := mem_collect (fun j hj hji => absurd hji (by omega)) (Nat.le_refl _) hx' hrest
      exact hdisjoint x hx x hmem rfl

/-- When no boundary splits anything, the pages of any orders of the rows are together the rows. -/
theorem collect_perm [IsTrans α r] [Std.Refl r] {orders : Nat → List α} (hlimit : 0 < limit) (h : l.Pairwise r)
    (whole : ∀ k, ¬Splits r l (k * limit)) (horders : ∀ k, (orders k).Perm l ∧ (orders k).Pairwise r) :
    ∃ fuel all, collect (fun k => page limit k (orders k)) fuel 0 = some all ∧ all.Perm l := by
  have hpages : ∀ k, (page limit k (orders k)).Perm (page limit k l) := fun k =>
    page_perm h (horders k).2 (horders k).1 whole k
  have hlen : l.length ≤ (0 + l.length) * limit := by
    rw [Nat.zero_add]
    exact Nat.le_mul_of_pos_right _ hlimit
  obtain ⟨all, hall, hperm⟩ := collect_of_pages hlimit hpages hlen
  exact ⟨l.length + 1, all, hall, by simpa using hperm⟩

theorem exists_repeat [IsTrans α r] (h : l.Pairwise r) (split : Splits r l (k * limit)) :
    ∃ orders : Nat → List α, (∀ k, (orders k).Perm l ∧ (orders k).Pairwise r) ∧
      ∀ fuel all, collect (fun k => page limit k (orders k)) fuel 0 = some all → ¬all.Nodup := by
  have hlen : k * limit < l.length := by
    obtain ⟨t, -, -, hup⟩ := split
    exact Nat.lt_of_lt_of_le hup List.countP_le_length
  obtain ⟨l', x, hl', hperm, hpos, hx, hx'⟩ := exists_order h split
  obtain ⟨m, rfl⟩ : ∃ m, k = m + 1 := Nat.exists_eq_succ_of_ne_zero (by rintro rfl; simp at hpos)
  have hlimit : 0 < limit := Nat.pos_of_mul_pos_left hpos
  have hmul : (m + 1) * limit = m * limit + limit := Nat.succ_mul m limit
  obtain ⟨orders, hself, hothers⟩ : ∃ orders : Nat → List α, orders (m + 1) = l' ∧ ∀ k, k ≠ m + 1 → orders k = l :=
    ⟨Function.update (fun _ => l) (m + 1) l', Function.update_self .., fun k hk => Function.update_of_ne hk ..⟩
  refine ⟨orders, fun k => ?_, fun fuel all hall => ?_⟩
  · by_cases hk : k = m + 1
    · rw [hk, hself]
      exact ⟨hperm, hl'⟩
    · rw [hothers k hk]
      exact ⟨List.Perm.refl l, h⟩
  · refine not_nodup_collect (k := m) (x := x) (fun j _ hj hnil => ?_) (Nat.zero_le m) ?_ ?_ hall
    · have hjl : j * limit < l.length := Nat.lt_of_le_of_lt (Nat.mul_le_mul_right limit (by omega)) hlen
      rw [hothers j (by omega), page, List.take_eq_nil_iff, List.drop_eq_nil_iff] at hnil
      omega
    · rw [hothers m (by omega), page]
      refine List.mem_iff_getElem?.mpr ⟨limit - 1, ?_⟩
      rw [List.getElem?_take_of_lt (by omega), List.getElem?_drop, ← hx]
      congr 1
      omega
    · rw [hself, page]
      refine List.mem_iff_getElem?.mpr ⟨0, ?_⟩
      rw [List.getElem?_take_of_lt hlimit, List.getElem?_drop, Nat.add_zero]
      exact hx'

end

end Paging
