import Mathlib.Logic.Function.Basic

/-! A store under read committed isolation. Every session keeps its own writes pending until it commits
    and reads the committed data with its pending writes applied. Resources (a row, an entry of a unique
    index) have at most one owner, and a session writes only what touches resources it owns.

    What a resource shows of the data is a `ViewAt`: a write that does not touch the resource leaves it as
    it is. Two rules follow: what an owner sees of its resources is changed by nobody else
    (`Covered.commit_view`), and a property of one resource that every session sees to hold survives a commit
    (`Everywhere.commit`). -/

namespace ReadCommitted

/-- How a write acts on the data, and the resources it touches. -/
class Writes (W : Type) (D R : outParam Type) where
  apply : W → D → D
  touches : W → R → Prop

export Writes (apply touches)

/-- Committed data, the pending writes of every session, and the owner of every resource. -/
structure Store (I D W R : Type) where
  data : D
  pending : I → List W
  owner : R → Option I

variable {I D W R : Type}

namespace Store

/-- No session has written or owns anything. -/
def fresh (d : D) : Store I D W R := ⟨d, fun _ => [], fun _ => none⟩

/-- `r` is not owned by a session other than `i`. -/
def Free (st : Store I D W R) (i : I) (r : R) : Prop := st.owner r = none ∨ st.owner r = some i

instance [DecidableEq I] (st : Store I D W R) (i : I) (r : R) : Decidable (st.Free i r) :=
  inferInstanceAs (Decidable (_ ∨ _))

/-- What a session reads: the committed data with its own writes. -/
def view [Writes W D R] (st : Store I D W R) (i : I) : D := (st.pending i).foldl (fun d w => apply w d) st.data

/-- Session `i` becomes the owner of `rs`. -/
def acquire [DecidableEq R] (st : Store I D W R) (i : I) (rs : List R) : Store I D W R :=
  { st with owner := fun r => if r ∈ rs then some i else st.owner r }

/-- Session `i` writes `ws`, which stays pending. -/
def write [DecidableEq I] (st : Store I D W R) (i : I) (ws : List W) : Store I D W R :=
  { st with pending := Function.update st.pending i (st.pending i ++ ws) }

/-- The session ends: its writes are dropped and what it owns is free again. -/
def rollback [DecidableEq I] (st : Store I D W R) (i : I) : Store I D W R where
  data := st.data
  pending := Function.update st.pending i []
  owner r := if st.owner r = some i then none else st.owner r

/-- The session's writes become the committed data, and the session ends. -/
def commit [DecidableEq I] [Writes W D R] (st : Store I D W R) (i : I) : Store I D W R :=
  { st.rollback i with data := st.view i }

end Store

/-- What `f` shows of the data belongs to `r`: writes that do not touch `r` leave it, and a write that
    does acts on it alone. -/
structure ViewAt (W : Type) [Writes W D R] {V : Type} (r : R) (f : D → V) : Prop where
  frame : ∀ (w : W) d, ¬touches w r → f (apply w d) = f d
  congr : ∀ (w : W) d d', f d = f d' → f (apply w d) = f (apply w d')

/-- Every pending write touches only resources its session owns. -/
def Covered [Writes W D R] (st : Store I D W R) : Prop :=
  ∀ i, ∀ w ∈ st.pending i, ∀ r, touches w r → st.owner r = some i

/-- `P` holds of what `f` shows of the committed data and of what every session reads. -/
def Everywhere [Writes W D R] {V : Type} (st : Store I D W R) (f : D → V) (P : V → Prop) : Prop :=
  P (f st.data) ∧ ∀ i, P (f (st.view i))

section
variable {st : Store I D W R} {i j : I} {r : R} {rs : List R} {ws : List W}

@[simp] theorem fresh_data (d : D) : (Store.fresh d : Store I D W R).data = d := rfl

@[simp] theorem fresh_pending (d : D) : (Store.fresh d : Store I D W R).pending i = [] := rfl

@[simp] theorem fresh_owner (d : D) : (Store.fresh d : Store I D W R).owner r = none := rfl

@[simp] theorem acquire_data [DecidableEq R] : (st.acquire i rs).data = st.data := rfl

@[simp] theorem acquire_pending [DecidableEq R] : (st.acquire i rs).pending = st.pending := rfl

theorem acquire_owner [DecidableEq R] : (st.acquire i rs).owner r = if r ∈ rs then some i else st.owner r := rfl

@[simp] theorem acquire_nil [DecidableEq R] : st.acquire i [] = st := by
  simp only [Store.acquire, List.not_mem_nil, ite_false]

section
variable [DecidableEq I]

@[simp] theorem write_data : (st.write i ws).data = st.data := rfl

@[simp] theorem write_owner : (st.write i ws).owner = st.owner := rfl

@[simp] theorem write_pending_self : (st.write i ws).pending i = st.pending i ++ ws := Function.update_self ..

theorem write_pending_ne (h : j ≠ i) : (st.write i ws).pending j = st.pending j := Function.update_of_ne h ..

@[simp] theorem rollback_data : (st.rollback i).data = st.data := rfl

@[simp] theorem rollback_pending_self : (st.rollback i).pending i = [] := Function.update_self ..

theorem rollback_pending_ne (h : j ≠ i) : (st.rollback i).pending j = st.pending j := Function.update_of_ne h ..

theorem rollback_owner : (st.rollback i).owner r = if st.owner r = some i then none else st.owner r := rfl

theorem rollback_owner_eq : (st.rollback i).owner r = some j ↔ st.owner r = some j ∧ j ≠ i := by
  rw [rollback_owner]
  split
  · rename_i h
    simp only [reduceCtorEq, h, Option.some.injEq, false_iff, not_and, ne_eq, not_not]
    exact Eq.symm
  · rename_i h
    constructor
    · intro hj
      exact ⟨hj, fun e => h (e ▸ hj)⟩
    · exact And.left

end

theorem acquire_owner_eq [DecidableEq R] (free : ∀ r ∈ rs, st.Free i r) :
    (st.acquire i rs).owner r = some j ↔ st.owner r = some j ∨ (j = i ∧ r ∈ rs) := by
  rw [acquire_owner]
  split
  · rename_i hr
    constructor
    · intro h
      exact Or.inr ⟨(Option.some.inj h).symm, hr⟩
    · rintro (h | ⟨rfl, -⟩)
      · rcases free r hr with h' | h'
        · rw [h'] at h; cases h
        · rw [← h', h]
      · rfl
  · rename_i hr
    simp only [hr, and_false, or_false]

variable [Writes W D R] {V : Type} {f : D → V} {P : V → Prop}

@[simp] theorem view_fresh (d : D) : (Store.fresh d : Store I D W R).view i = d := rfl

theorem view_of_pending_nil (h : st.pending i = []) : st.view i = st.data := by
  rw [Store.view, h, List.foldl_nil]

@[simp] theorem acquire_view [DecidableEq R] : (st.acquire i rs).view j = st.view j := rfl

section
variable [DecidableEq I]

@[simp] theorem write_view_self : (st.write i ws).view i = ws.foldl (fun d w => apply w d) (st.view i) := by
  simp only [Store.view, write_pending_self, write_data, List.foldl_append]

theorem write_view_ne (h : j ≠ i) : (st.write i ws).view j = st.view j := by
  simp only [Store.view, write_pending_ne h, write_data]

@[simp] theorem rollback_view_self : (st.rollback i).view i = st.data := view_of_pending_nil rollback_pending_self

theorem rollback_view_ne (h : j ≠ i) : (st.rollback i).view j = st.view j := by
  simp only [Store.view, rollback_pending_ne h, rollback_data]

@[simp] theorem commit_data : (st.commit i).data = st.view i := rfl

@[simp] theorem commit_pending : (st.commit i).pending = (st.rollback i).pending := rfl

@[simp] theorem commit_owner : (st.commit i).owner = (st.rollback i).owner := rfl

@[simp] theorem commit_view_self : (st.commit i).view i = st.view i := view_of_pending_nil rollback_pending_self

end

/-! ### Views -/

theorem ViewAt.foldl_frame (hf : ViewAt W r f) (d : D) (h : ∀ w ∈ ws, ¬touches w r) :
    f (ws.foldl (fun d w => apply w d) d) = f d := by
  induction ws generalizing d with
  | nil => rfl
  | cons w ws ih =>
    rw [List.foldl_cons, ih _ fun w' hw' => h w' (List.mem_cons_of_mem _ hw')]
    exact hf.frame w d (h w List.mem_cons_self)

theorem ViewAt.foldl_congr (hf : ViewAt W r f) {d d' : D} (h : f d = f d') :
    f (ws.foldl (fun d w => apply w d) d) = f (ws.foldl (fun d w => apply w d) d') := by
  induction ws generalizing d d' with
  | nil => exact h
  | cons w ws ih => exact ih (hf.congr w d d' h)

theorem ViewAt.foldl_filter (hf : ViewAt W r f) [DecidablePred fun w : W => touches w r] (d : D) :
    f (ws.foldl (fun d w => apply w d) d) =
      f ((ws.filter fun w => touches w r).foldl (fun d w => apply w d) d) := by
  induction ws generalizing d with
  | nil => rfl
  | cons w ws ih =>
    rw [List.foldl_cons]
    by_cases hw : touches w r
    · rw [List.filter_cons_of_pos (by simpa using hw), List.foldl_cons]
      exact ih _
    · rw [List.filter_cons_of_neg (by simpa using hw)]
      exact (hf.foldl_congr (hf.frame w d hw)).trans (ih d)

theorem Covered.view_of_ne (hc : Covered st) (hf : ViewAt W r f) (h : st.owner r ≠ some i) :
    f (st.view i) = f st.data :=
  hf.foldl_frame _ fun w hw ht => h (hc i w hw r ht)

theorem Covered.fresh (d : D) : Covered (Store.fresh d : Store I D W R) := by
  intro i w hw
  cases hw

theorem Covered.acquire [DecidableEq R] (hc : Covered st) (free : ∀ r ∈ rs, st.Free i r) :
    Covered (st.acquire i rs) := by
  intro j w hw r ht
  exact (acquire_owner_eq free).mpr (Or.inl (hc j w hw r ht))

section
variable [DecidableEq I]

theorem Covered.write (hc : Covered st) (h : ∀ w ∈ ws, ∀ r, touches w r → st.owner r = some i) :
    Covered (st.write i ws) := by
  intro j w hw r ht
  by_cases hj : j = i
  · subst hj
    rw [write_pending_self] at hw
    rcases List.mem_append.mp hw with hw | hw
    · exact hc j w hw r ht
    · exact h w hw r ht
  · rw [write_pending_ne hj] at hw
    exact hc j w hw r ht

theorem Covered.rollback (hc : Covered st) (i : I) : Covered (st.rollback i) := by
  intro j w hw r ht
  by_cases hj : j = i
  · subst hj
    rw [rollback_pending_self] at hw
    cases hw
  · rw [rollback_pending_ne hj] at hw
    exact rollback_owner_eq.mpr ⟨hc j w hw r ht, hj⟩

theorem Covered.commit (hc : Covered st) (i : I) : Covered (st.commit i) := hc.rollback i

/-- Nobody else's commit changes the committed state of a resource that `j` owns. -/
theorem Covered.commit_data_of_owner (hc : Covered st) (hf : ViewAt W r f) (hj : st.owner r = some j) (h : j ≠ i) :
    f (st.commit i).data = f st.data := by
  refine hc.view_of_ne hf fun hi => h ?_
  rw [hj] at hi
  exact Option.some.inj hi

/-- Nobody else's commit changes what `j` sees of a resource it owns. -/
theorem Covered.commit_view (hc : Covered st) (hf : ViewAt W r f) (hj : st.owner r = some j) (h : j ≠ i) :
    f ((st.commit i).view j) = f (st.view j) := by
  simp only [Store.view, commit_pending, rollback_pending_ne h]
  exact hf.foldl_congr (hc.commit_data_of_owner hf hj h)

/-! ### Properties of one resource -/

theorem Everywhere.rollback (he : Everywhere st f P) (i : I) : Everywhere (st.rollback i) f P := by
  refine ⟨he.1, fun j => ?_⟩
  by_cases hj : j = i
  · subst hj
    rw [rollback_view_self]
    exact he.1
  · rw [rollback_view_ne hj]
    exact he.2 j

theorem Everywhere.write (he : Everywhere st f P) (h : P (f (ws.foldl (fun d w => apply w d) (st.view i)))) :
    Everywhere (st.write i ws) f P := by
  refine ⟨he.1, fun j => ?_⟩
  by_cases hj : j = i
  · subst hj
    rw [write_view_self]
    exact h
  · rw [write_view_ne hj]
    exact he.2 j

theorem Everywhere.commit (he : Everywhere st f P) (hc : Covered st) (hf : ViewAt W r f) (i : I) :
    Everywhere (st.commit i) f P := by
  refine ⟨he.2 i, fun j => ?_⟩
  by_cases hj : j = i
  · subst hj
    rw [commit_view_self]
    exact he.2 j
  · by_cases ho : st.owner r = some j
    · rw [hc.commit_view hf ho hj]
      exact he.2 j
    · -- `j` does not own `r`, so it sees what `i` has just committed.
      rw [(hc.commit i).view_of_ne hf fun h => ho (rollback_owner_eq.mp h).1]
      exact he.2 i

end

theorem Everywhere.acquire [DecidableEq R] (he : Everywhere st f P) : Everywhere (st.acquire i rs) f P := he

end

end ReadCommitted
