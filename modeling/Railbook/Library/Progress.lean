import Railbook.Library.Transition
import Mathlib.Algebra.Ring.Nat

/-! Progress by a measure. Some labels do work and use it up, others bring new work, and the rest does neither. A
    run does no more work than there was and than it brought; where work can go on until all is done, every run can
    be completed, and an infinite one that stops bringing work completes it, provided that it does work as long as
    it can. -/

namespace Transition

variable {S A : Type}

/-- A step that works uses up a unit of the measure, and no step adds more than it brings. -/
structure Spends (step : S → A → Option S) (inv : S → Prop) (works : A → Bool) (brings : A → Nat)
    (measure : S → Nat) : Prop where
  keep : ∀ {s a t}, inv s → step s a = some t → inv t
  pay : ∀ {s a t}, inv s → step s a = some t → measure t + (works a).toNat ≤ measure s + brings a

/-- An infinite run. -/
structure Execution (step : S → A → Option S) where
  states : Nat → S
  labels : Nat → A
  next : ∀ n, step (states n) (labels n) = some (states (n + 1))

section
variable {step : S → A → Option S} {inv done : S → Prop} {works : A → Bool} {brings : A → Nat} {measure : S → Nat}
  {s t : S} {as : List A}

/-- The work that a run does. -/
theorem Spends.exec (h : Spends step inv works brings measure) (hs : inv s) (run : exec step s as = some t) :
    measure t + as.countP works ≤ measure s + (as.map brings).sum := by
  induction as generalizing s with
  | nil =>
    cases run
    simp
  | cons a as ih =>
    obtain ⟨u, hu, run⟩ := Option.bind_eq_some_iff.mp run
    have hpay := h.pay hs hu
    have hrest := ih (h.keep hs hu) run
    rw [List.countP_cons, List.map_cons, List.sum_cons]
    cases hw : works a <;> simp only [hw, Bool.toNat_false, Bool.toNat_true] at hpay <;> simp <;> omega

/-- When as long as all is not done some label works without bringing anything, such labels lead to a state in which
    it is. -/
theorem Spends.finish (h : Spends step inv works brings measure) {P : A → Prop}
    (works' : ∀ a, P a → works a = true ∧ brings a = 0)
    (progress : ∀ {s}, inv s → ¬done s → ∃ a t, P a ∧ step s a = some t) (hs : inv s) :
    ∃ as t, (∀ a ∈ as, P a) ∧ Transition.exec step s as = some t ∧ done t := by
  induction hn : measure s using Nat.strongRecOn generalizing s with
  | _ n ih =>
    by_cases hd : done s
    · exact ⟨[], s, fun a ha => by simp at ha, rfl, hd⟩
    · obtain ⟨a, u, ha, hu⟩ := progress hs hd
      have hpay := h.pay hs hu
      obtain ⟨hw, hb⟩ := works' a ha
      rw [hw, hb] at hpay
      simp only [Bool.toNat_true, Nat.add_zero] at hpay
      obtain ⟨as, t, has, run, ht⟩ := ih (measure u) (by omega) (h.keep hs hu) rfl
      refine ⟨a :: as, t, fun b hb => ?_, by simpa [hu] using run, ht⟩
      rcases List.mem_cons.mp hb with rfl | hb
      · exact ha
      · exact has b hb

theorem Spends.inv_states (h : Spends step inv works brings measure) {ex : Execution step}
    (hs : inv (ex.states 0)) (n : Nat) :
    inv (ex.states n) := by
  induction n with
  | zero => exact hs
  | succ n ih => exact h.keep ih (ex.next n)

/-- An infinite run that from some time on brings nothing stops working. -/
theorem Spends.stops (h : Spends step inv works brings measure) {ex : Execution step} (hs : inv (ex.states 0)) {N : Nat}
    (hbrings : ∀ n ≥ N, brings (ex.labels n) = 0) : ∃ M ≥ N, ∀ n ≥ M, works (ex.labels n) = false := by
  induction hm : measure (ex.states N) using Nat.strongRecOn generalizing N with
  | _ m ih =>
    by_cases hw : ∃ n ≥ N, works (ex.labels n) = true
    · obtain ⟨n, hn, hw⟩ := hw
      have mono : ∀ k, measure (ex.states (N + k)) ≤ m := by
        intro k
        induction k with
        | zero => exact Nat.le_of_eq hm
        | succ k ihk =>
          have hpay := h.pay (h.inv_states hs (N + k)) (ex.next (N + k))
          rw [hbrings (N + k) (Nat.le_add_right N k)] at hpay
          rw [← Nat.add_assoc]
          omega
      have hpay := h.pay (h.inv_states hs n) (ex.next n)
      have hle := mono (n - N)
      rw [Nat.add_sub_cancel' hn] at hle
      rw [hw, hbrings n hn] at hpay
      simp only [Bool.toNat_true, Nat.add_zero] at hpay
      obtain ⟨M, hM, hquiet⟩ := ih (measure (ex.states (n + 1))) (by omega)
        (fun k hk => hbrings k (Nat.le_trans (Nat.le_succ_of_le hn) hk)) rfl
      exact ⟨M, Nat.le_trans (Nat.le_succ_of_le hn) hM, hquiet⟩
    · refine ⟨N, Nat.le_refl N, fun n hn => ?_⟩
      cases hwn : works (ex.labels n) with
      | false => rfl
      | true => exact absurd ⟨n, hn, hwn⟩ hw

/-- An infinite run that stops bringing work, and works again and again as long as something can, ends with
    everything done. -/
theorem Spends.completes (h : Spends step inv works brings measure) {ex : Execution step}
    (hs : inv (ex.states 0)) {N : Nat} (hbrings : ∀ n ≥ N, brings (ex.labels n) = 0)
    (fair : ∀ n, ¬done (ex.states n) → ∃ m ≥ n, works (ex.labels m) = true) : ∃ M, ∀ n ≥ M, done (ex.states n) := by
  obtain ⟨M, -, hquiet⟩ := h.stops hs hbrings
  refine ⟨M, fun n hn => ?_⟩
  by_contra hd
  obtain ⟨m, hm, hw⟩ := fair n hd
  rw [hquiet m (Nat.le_trans hn hm)] at hw
  cases hw

/-- A finite run, followed by a label that changes nothing. -/
def Execution.ofRun (run : exec step s as = some t) (idle : A) (hidle : step t idle = some t) : Execution step where
  states n := (Transition.exec step s (as.take n)).getD t
  labels n := as.getD n idle
  next n := by
    by_cases hn : n < as.length
    · have hsplit : exec step s (as.take n ++ as[n] :: as.drop (n + 1)) = some t := by
        rw [← List.drop_eq_getElem_cons hn, List.take_append_drop, run]
      rw [exec_append] at hsplit
      obtain ⟨u, hu, hsplit⟩ := Option.bind_eq_some_iff.mp hsplit
      obtain ⟨v, hv, -⟩ := Option.bind_eq_some_iff.mp hsplit
      have hnext : exec step s (as.take (n + 1)) = some v := by
        rw [List.take_succ_eq_append_getElem hn, exec_append, hu]
        simp [hv]
      simp [hu, hnext, List.getD_eq_getElem?_getD, List.getElem?_eq_getElem hn, hv]
    · have hle : as.length ≤ n := Nat.le_of_not_lt hn
      simp [List.take_of_length_le hle, List.take_of_length_le (Nat.le_succ_of_le hle), run, List.getD_eq_getElem?_getD,
        List.getElem?_eq_none hle, hidle]

theorem Execution.ofRun_states {run : Transition.exec step s as = some t} {idle : A}
    {hidle : step t idle = some t} {n : Nat} (h : as.length ≤ n) :
    (Execution.ofRun run idle hidle).states n = t := by
  simp [Execution.ofRun, List.take_of_length_le h, run]

end

end Transition
