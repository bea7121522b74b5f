import Mathlib.Logic.Relation

/-! Runs of a deterministic labelled transition system. A label carries every choice the environment
    makes, so a step is a partial function and a run is the fold of its labels. -/

namespace Transition

variable {S A : Type}

/-- The state after a list of labels, if each of them is enabled in its turn. -/
def exec (step : S → A → Option S) : S → List A → Option S
  | s, [] => some s
  | s, a :: as => (step s a).bind (exec step · as)

/-- Every step of the run from `s` over the labels satisfies `P` in the state before it. -/
def Along (step : S → A → Option S) (P : S → A → Prop) : S → List A → Prop
  | _, [] => True
  | s, a :: as => P s a ∧ (step s a).elim True fun t => Along step P t as

/-- The states reached from `init` by steps that `allow` admits. -/
inductive Reach (step : S → A → Option S) (allow : S → A → Prop) (init : S → Prop) : S → Prop
  | start {s : S} : init s → Reach step allow init s
  | next {s t : S} {a : A} : Reach step allow init s → allow s a → step s a = some t → Reach step allow init t

instance Along.decidable {step : S → A → Option S} {P : S → A → Prop} [∀ s a, Decidable (P s a)] :
    (s : S) → (as : List A) → Decidable (Along step P s as)
  | _, [] => isTrue trivial
  | s, a :: as =>
    match h : step s a with
    | none => decidable_of_iff (P s a) (by simp [Along, h])
    | some t =>
      have : Decidable (Along step P t as) := Along.decidable t as
      decidable_of_iff (P s a ∧ Along step P t as) (by simp [Along, h])

section
variable {step : S → A → Option S} {allow P Q : S → A → Prop} {init : S → Prop} {s t u : S} {a : A} {as bs : List A}

@[simp] theorem exec_nil : exec step s [] = some s := rfl

@[simp] theorem exec_cons : exec step s (a :: as) = (step s a).bind (exec step · as) := rfl

theorem exec_append : exec step s (as ++ bs) = (exec step s as).bind (exec step · bs) := by
  induction as generalizing s with
  | nil => rfl
  | cons a as ih =>
    simp only [List.cons_append, exec_cons]
    cases step s a with
    | none => rfl
    | some t => exact ih

@[simp] theorem along_nil : Along step P s [] := trivial

theorem along_cons (h : step s a = some t) : Along step P s (a :: as) ↔ P s a ∧ Along step P t as := by
  simp only [Along, h, Option.elim_some]

theorem along_of_forall (h : ∀ s a, P s a) : Along step P s as := by
  induction as generalizing s with
  | nil => trivial
  | cons a as ih =>
    refine ⟨h s a, ?_⟩
    cases step s a with
    | none => trivial
    | some t => exact ih

theorem Along.mono (h : Along step P s as) (imp : ∀ s a, P s a → Q s a) : Along step Q s as := by
  induction as generalizing s with
  | nil => trivial
  | cons a as ih =>
    refine ⟨imp s a h.1, ?_⟩
    cases hs : step s a with
    | none => trivial
    | some t => exact ih ((along_cons hs).mp h).2

theorem Along.and (h : Along step P s as) (h' : Along step Q s as) : Along step (fun s a => P s a ∧ Q s a) s as := by
  induction as generalizing s with
  | nil => trivial
  | cons a as ih =>
    refine ⟨⟨h.1, h'.1⟩, ?_⟩
    cases hs : step s a with
    | none => trivial
    | some t => exact ih ((along_cons hs).mp h).2 ((along_cons hs).mp h').2

theorem Along.and_mem {R : A → Prop} (h : Along step P s as) (hr : ∀ a ∈ as, R a) :
    Along step (fun s a => P s a ∧ R a) s as := by
  induction as generalizing s with
  | nil => trivial
  | cons a as ih =>
    refine ⟨⟨h.1, hr a List.mem_cons_self⟩, ?_⟩
    cases hs : step s a with
    | none => trivial
    | some t => exact ih ((along_cons hs).mp h).2 fun b hb => hr b (List.mem_cons_of_mem _ hb)

/-- What a run satisfies along its steps it satisfies up to one of them and at that one. -/
theorem Along.split (h : Along step P s (as ++ a :: bs)) (run : exec step s as = some t) :
    Along step P s as ∧ P t a := by
  induction as generalizing s with
  | nil =>
    cases run
    exact ⟨trivial, h.1⟩
  | cons b as ih =>
    obtain ⟨u, hu, run⟩ := Option.bind_eq_some_iff.mp run
    obtain ⟨hp, h⟩ := (along_cons hu).mp h
    obtain ⟨along, ha⟩ := ih h run
    exact ⟨(along_cons hu).mpr ⟨hp, along⟩, ha⟩

/-- And from there on. -/
theorem Along.after (h : Along step P s (as ++ bs)) (run : exec step s as = some t) : Along step P t bs := by
  induction as generalizing s with
  | nil =>
    cases run
    exact h
  | cons b as ih =>
    obtain ⟨u, hu, run⟩ := Option.bind_eq_some_iff.mp run
    exact ih ((along_cons hu).mp h).2 run

/-- A property that every admitted step keeps holds at the end of a run. -/
theorem exec_invariant {I : S → Prop} (keep : ∀ s a t, I s → P s a → step s a = some t → I t)
    (hs : I s) (along : Along step P s as) (run : exec step s as = some t) : I t := by
  induction as generalizing s with
  | nil =>
    cases run
    exact hs
  | cons a as ih =>
    obtain ⟨u, hu, run⟩ := Option.bind_eq_some_iff.mp run
    obtain ⟨hp, along⟩ := (along_cons hu).mp along
    exact ih (keep s a u hs hp hu) along run

/-- The same, where what admits a step is said of its label only. -/
theorem exec_invariant_of_mem {I : S → Prop} {R : A → Prop} (keep : ∀ s a t, I s → R a → step s a = some t → I t)
    (hs : I s) (hr : ∀ a ∈ as, R a) (run : exec step s as = some t) : I t :=
  exec_invariant (P := fun _ a => True ∧ R a) (fun s a t h ha hstep => keep s a t h ha.2 hstep) hs
    ((along_of_forall fun _ _ => trivial).and_mem hr) run

/-- The same, where every step is admitted. -/
theorem exec_invariant_of_step {I : S → Prop} (keep : ∀ s a t, I s → step s a = some t → I t) (hs : I s)
    (run : exec step s as = some t) : I t :=
  exec_invariant_of_mem (R := fun _ => True) (fun s a t h _ hstep => keep s a t h hstep) hs (fun _ _ => trivial) run

/-- A run of a system is, through `f`, a run of the part that each of its steps moves by at most one step. -/
theorem exec_filterMap {T B : Type} {step' : T → B → Option T} {f : S → T} {label : A → Option B}
    (moves : ∀ s a t, step s a = some t → exec step' (f s) (label a).toList = some (f t))
    (run : exec step s as = some t) :
    exec step' (f s) (as.filterMap label) = some (f t) := by
  induction as generalizing s with
  | nil =>
    cases run
    rfl
  | cons a as ih =>
    obtain ⟨u, hu, run⟩ := Option.bind_eq_some_iff.mp run
    have hcons : (a :: as).filterMap label = (label a).toList ++ as.filterMap label := by
      cases ha : label a <;> simp [ha]
    rw [hcons, exec_append, moves s a u hu]
    exact ih run

/-- What follows at a step from a property that the admitted steps keep holds along an admitted run. -/
theorem Along.of_invariant {I : S → Prop} (h : Along step P s as)
    (keep : ∀ s a t, I s → P s a → step s a = some t → I t) (imp : ∀ s a, I s → P s a → Q s a) (hs : I s) :
    Along step Q s as := by
  induction as generalizing s with
  | nil => trivial
  | cons a as ih =>
    refine ⟨imp s a hs h.1, ?_⟩
    cases hstep : step s a with
    | none => trivial
    | some t => exact ih ((along_cons hstep).mp h).2 (keep s a t hs h.1 hstep)

theorem along_of_invariant {I : S → Prop} {R : A → Prop} (keep : ∀ s a t, I s → R a → step s a = some t → I t)
    (imp : ∀ s a, I s → P s a) (hs : I s) (hr : ∀ a ∈ as, R a) : Along step P s as := by
  induction as generalizing s with
  | nil => trivial
  | cons a as ih =>
    refine ⟨imp s a hs, ?_⟩
    cases hstep : step s a with
    | none => trivial
    | some t => exact ih (keep s a t hs (hr a List.mem_cons_self) hstep) fun b hb => hr b (List.mem_cons_of_mem _ hb)

/-- A step that fails `P` splits the run: up to it, itself, and the rest. -/
theorem exists_step_of_not_along [∀ s a, Decidable (P s a)] (run : exec step s as = some t)
    (h : ¬Along step P s as) :
    ∃ pre a post u v, as = pre ++ a :: post ∧ exec step s pre = some u ∧ ¬P u a ∧ step u a = some v ∧
      exec step v post = some t := by
  induction as generalizing s with
  | nil => exact absurd trivial h
  | cons a as ih =>
    obtain ⟨u, hu, run⟩ := Option.bind_eq_some_iff.mp run
    by_cases hp : P s a
    · obtain ⟨pre, b, post, v, w, rfl, hpre, hb, hstep, hpost⟩ :=
        ih run fun along => h ((along_cons hu).mpr ⟨hp, along⟩)
      exact ⟨a :: pre, b, post, v, w, rfl, by simpa [hu] using hpre, hb, hstep, hpost⟩
    · exact ⟨[], a, as, s, u, rfl, rfl, hp, hu, run⟩

/-- What holds at the end of a run and not at its start begins to hold with one of its steps. -/
theorem exists_step_begins {I : S → Prop} (run : exec step s as = some t) (hs : ¬I s) (ht : I t) :
    ∃ pre a post u v, as = pre ++ a :: post ∧ exec step s pre = some u ∧ ¬I u ∧ step u a = some v ∧ I v ∧
      exec step v post = some t := by
  induction as generalizing s with
  | nil =>
    cases run
    exact absurd ht hs
  | cons a as ih =>
    obtain ⟨u, hu, run⟩ := Option.bind_eq_some_iff.mp run
    by_cases hi : I u
    · exact ⟨[], a, as, s, u, rfl, rfl, hs, hu, hi, run⟩
    · obtain ⟨pre, b, post, v, w, rfl, hpre, hv, hstep, hw, hpost⟩ := ih run hi
      exact ⟨a :: pre, b, post, v, w, rfl, by simpa [hu] using hpre, hv, hstep, hw, hpost⟩

theorem Reach.mono (h : Reach step P init s) (imp : ∀ s a, P s a → Q s a) : Reach step Q init s := by
  induction h with
  | start hs => exact .start hs
  | next _ ha hstep ih => exact ih.next (imp _ _ ha) hstep

/-- A property of the initial states that every admitted step keeps holds of every reached state. -/
theorem Reach.invariant {I : S → Prop} (base : ∀ s, init s → I s)
    (keep : ∀ s a t, Reach step allow init s → I s → allow s a → step s a = some t → I t)
    (h : Reach step allow init s) : I s := by
  induction h with
  | start hs => exact base _ hs
  | next hr ha hstep ih => exact keep _ _ _ hr ih ha hstep

theorem Reach.exec (h : Reach step allow init s) (along : Along step allow s as) (run : exec step s as = some t) :
    Reach step allow init t :=
  exec_invariant (P := allow) (fun _ _ _ hr ha hstep => hr.next ha hstep) h along run

/-- A run whose end passes a test gives a reached state that does. -/
theorem reach_of_run {test : S → Bool} (hs : init s) (along : Along step allow s as)
    (h : (exec step s as).any test = true) : ∃ t, Reach step allow init t ∧ test t = true := by
  obtain ⟨t, run, ht⟩ := (Option.any_eq_true _ _).mp h
  exact ⟨t, Reach.exec (.start hs) along run, ht⟩

end

end Transition
