import Railbook.Library.Transition

/-! Refinement of a relational system by a labelled transition system. Most steps of the concrete system are invisible
    to the abstract one; `visible` gives the label of the abstract step that the others make. Between two labelled
    transition systems, a step of the one may be matched by a whole run of the other. -/

namespace Transition

variable {S A T B : Type}

/-- The labels of the abstract steps of a run. -/
def trace (step : S → A → Option S) (visible : S → A → Option B) : S → List A → List B
  | _, [] => []
  | s, a :: as => (visible s a).toList ++ (step s a).elim [] fun t => trace step visible t as

/-- A run of a relational system. -/
inductive Run (next : T → B → T → Prop) : T → List B → T → Prop
  | nil {t : T} : Run next t [] t
  | cons {t u v : T} {b : B} {bs : List B} : next t b u → Run next u bs v → Run next t (b :: bs) v

/-- Through `abs`, a visible step is a step of the abstract system, and an invisible one is none. -/
structure Refines (step : S → A → Option S) (inv : S → Prop) (visible : S → A → Option B) (next : T → B → T → Prop)
    (abs : S → T) : Prop where
  keep : ∀ {s a t}, inv s → step s a = some t → inv t
  invisible : ∀ {s a t}, inv s → step s a = some t → visible s a = none → abs t = abs s
  matched : ∀ {s a t b}, inv s → step s a = some t → visible s a = some b → next (abs s) b (abs t)

section
variable {step : S → A → Option S} {visible : S → A → Option B} {next : T → B → T → Prop} {abs : S → T} {inv : S → Prop}
  {s t u : S} {a : A} {as bs : List A}

theorem trace_cons (h : step s a = some t) :
    trace step visible s (a :: as) = (visible s a).toList ++ trace step visible t as := by
  rw [trace, h]
  rfl

/-- What a run has shown it does not take back. -/
theorem trace_append (run : exec step s as = some t) :
    trace step visible s (as ++ bs) = trace step visible s as ++ trace step visible t bs := by
  induction as generalizing s with
  | nil =>
    cases run
    rfl
  | cons a as ih =>
    obtain ⟨u, hu, run⟩ := Option.bind_eq_some_iff.mp run
    rw [List.cons_append, trace_cons hu, trace_cons hu, ih run, List.append_assoc]

/-- A label of the trace is shown by one of the steps. -/
theorem exists_step_of_mem_trace {b : B} (run : exec step s as = some t) (h : b ∈ trace step visible s as) :
    ∃ pre a post u v, as = pre ++ a :: post ∧ exec step s pre = some u ∧ visible u a = some b ∧ step u a = some v ∧
      exec step v post = some t := by
  induction as generalizing s with
  | nil => cases h
  | cons a as ih =>
    obtain ⟨u, hu, run⟩ := Option.bind_eq_some_iff.mp run
    rw [trace_cons hu] at h
    rcases List.mem_append.mp h with h | h
    · exact ⟨[], a, as, s, u, rfl, rfl, Option.mem_toList.mp h, hu, run⟩
    · obtain ⟨pre, a', post, v, w, rfl, hpre, hv, hstep, hpost⟩ := ih run h
      exact ⟨a :: pre, a', post, v, w, rfl, by simpa [hu] using hpre, hv, hstep, hpost⟩

/-- A property of a state and of the labels shown so far that every step keeps. -/
theorem trace_invariant {I : S → List B → Prop} {shown : List B}
    (keep : ∀ {s a t bs}, I s bs → step s a = some t → I t (bs ++ (visible s a).toList)) (hs : I s shown)
    (run : exec step s as = some t) : I t (shown ++ trace step visible s as) := by
  induction as generalizing s shown with
  | nil =>
    cases run
    rw [trace, List.append_nil]
    exact hs
  | cons a as ih =>
    obtain ⟨u, hu, run⟩ := Option.bind_eq_some_iff.mp run
    rw [trace_cons hu, ← List.append_assoc]
    exact ih (keep hs hu) run

/-- A run of the concrete system is, through `abs`, the run of the abstract one over what it shows. -/
theorem Refines.run (h : Refines step inv visible next abs) (hs : inv s) (run : exec step s as = some t) :
    Run next (abs s) (trace step visible s as) (abs t) := by
  induction as generalizing s with
  | nil =>
    cases run
    exact .nil
  | cons a as ih =>
    obtain ⟨u, hu, run⟩ := Option.bind_eq_some_iff.mp run
    rw [trace_cons hu]
    have hrest := ih (h.keep hs hu) run
    cases hv : visible s a with
    | none => exact h.invisible hs hu hv ▸ hrest
    | some b => exact .cons (h.matched hs hu hv) hrest

/-- What the abstract steps keep holds, through `abs`, of every state that the concrete system reaches. -/
theorem Refines.reach {allow : S → A → Prop} {init : S → Prop} {I : T → Prop} (h : Refines step inv visible next abs)
    (start : ∀ {s}, init s → inv s ∧ I (abs s)) (keep : ∀ {x b y}, I x → next x b y → I y)
    (hr : Reach step allow init s) :
    I (abs s) := by
  refine (hr.invariant (I := fun s => inv s ∧ I (abs s)) (fun _ hs => start hs) ?_).2
  rintro s a t - ⟨hinv, hi⟩ - hstep
  refine ⟨h.keep hinv hstep, ?_⟩
  cases hv : visible s a with
  | none =>
    rw [h.invisible hinv hstep hv]
    exact hi
  | some b => exact keep hi (h.matched hinv hstep hv)

/-- Where every step is matched by a run that keeps the relation, every run is. -/
theorem matched_exec {R : S → T → Prop} {P : S → A → Prop} {step' : T → B → Option T} {x : T}
    (matched : ∀ s a t x, R s x → P s a → step s a = some t → ∃ bs y, exec step' x bs = some y ∧ R t y)
    (h : R s x) (along : Along step P s as) (run : exec step s as = some t) :
    ∃ bs y, exec step' x bs = some y ∧ R t y := by
  induction as generalizing s x with
  | nil =>
    cases run
    exact ⟨[], x, rfl, h⟩
  | cons a as ih =>
    obtain ⟨u, hu, run⟩ := Option.bind_eq_some_iff.mp run
    obtain ⟨ha, along⟩ := (along_cons hu).mp along
    obtain ⟨bs, y, hbs, hy⟩ := matched s a u x h ha hu
    obtain ⟨bs', z, hbs', hz⟩ := ih hy along run
    exact ⟨bs ++ bs', z, by rw [exec_append, hbs, Option.bind_some, hbs'], hz⟩

end

end Transition
