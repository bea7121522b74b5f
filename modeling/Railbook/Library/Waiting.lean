import Mathlib.Logic.Relation

/-! Who waits for whom. When a rank falls along every wait, no wait leads back to where it started, and every chain of
    waits ends at somebody who waits for nobody. -/

namespace Waiting

variable {S : Type}

/-- Whoever is waited for has a smaller rank. -/
def Ranked (waitsFor : S → S → Prop) (rank : S → Nat) : Prop := ∀ i j, waitsFor i j → rank j < rank i

section
variable {waitsFor : S → S → Prop} {rank : S → Nat} {i j : S}

theorem Ranked.lt_of_transGen (h : Ranked waitsFor rank) (hij : Relation.TransGen waitsFor i j) : rank j < rank i := by
  induction hij with
  | single hw => exact h _ _ hw
  | tail _ hw ih => exact Nat.lt_trans (h _ _ hw) ih

theorem Ranked.acyclic (h : Ranked waitsFor rank) (i : S) : ¬Relation.TransGen waitsFor i i := fun hii =>
  Nat.lt_irrefl _ (h.lt_of_transGen hii)

/-- In a set that is closed under waits somebody does not wait. -/
theorem Ranked.exists_not_waiting (h : Ranked waitsFor rank) {P : S → Prop} (closed : ∀ i j, P i → waitsFor i j → P j)
    (hi : P i) : ∃ j, P j ∧ ∀ k, ¬waitsFor j k := by
  induction hn : rank i using Nat.strongRecOn generalizing i with
  | _ n ih =>
    by_cases hw : ∃ j, waitsFor i j
    · obtain ⟨j, hj⟩ := hw
      exact ih (rank j) (hn ▸ h i j hj) (closed i j hi hj) rfl
    · exact ⟨i, hi, fun k hk => hw ⟨k, hk⟩⟩

end

end Waiting
