import Railbook.Creates
import Railbook.Library.Table

/-! One session through a run. A step is a move of the session, or it leaves the session where it is, so what every
    move of the session keeps holds of it at the end of a run, whatever the other sessions do in between. -/

namespace Railbook
open ReadCommitted Transition

/-- Whenever session `i` runs its next statement, `P` holds of the session in the state it runs in. -/
def AtStatement (i : Sid) (P : State → Session → Prop) (σ : State) : Act → Prop
  | .run j _ => j = i → ∀ s, σ.sessions[i]? = some s → P σ s
  | _ => True

instance (i : Sid) (P : State → Session → Prop) [∀ σ s, Decidable (P σ s)] (σ : State) :
    (a : Act) → Decidable (AtStatement i P σ a)
  | .run j _ =>
    match h : σ.sessions[i]? with
    | none => isTrue fun _ s hs => by cases h.symm.trans hs
    | some s => decidable_of_iff (j = i → P σ s) (by simp [AtStatement, h])
  | .request _ | .raise _ | .tick _ | .updateConfig _ _ => isTrue trivial

/-- The session has flushed something that it has not committed yet. -/
def Task.isWritten : Task → Bool
  | .create _ (.audit _) | .create _ (.commit _) | .pay _ (.charge _) | .pay _ (.charging _) | .pay _ (.record _ _ _)
  | .pay _ (.commit _) | .refund _ (.commit _) | .cleanup (.commit _) => true
  | _ => false

section
variable {cat : Catalog} {σ τ : State} {i j : Sid} {s : Session} {t : Task} {e : Effect} {a : Act} {acts : List Act}
  {allow : State → Act → Prop}

/-- What a step does to one session: nothing, its next statement, or the failure of this statement. -/
theorem session_step (hstep : step cat σ a = some τ) (hs : σ.sessions[i]? = some s) :
    τ.sessions[i]? = some s ∨
      (∃ x e t, a = .run i x ∧ s.statement cat σ i x = some (e, t) ∧ Move cat σ i s e t ∧
        τ = (σ.perform i e).goto i s t) ∨
      ∃ t, a = .raise i ∧ s.task.raise = some t ∧ τ = (σ.perform i .close).goto i s t := by
  have others : ∀ {j s' e t}, j ≠ i → ((σ.perform j e).goto j s' t).sessions[i]? = some s := fun hj =>
    (goto_sessions_ne hj.symm).trans hs
  cases step_stepped hstep with
  | request r =>
    refine Or.inl ?_
    rw [List.getElem?_append_left (List.getElem?_eq_some_iff.mp hs).1]
    exact hs
  | @run j x s' e t hs' hc m =>
    by_cases hj : j = i
    · subst hj
      obtain rfl : s' = s := Option.some.inj (hs'.symm.trans hs)
      exact Or.inr (Or.inl ⟨x, e, t, rfl, hc, m, rfl⟩)
    · exact Or.inl (others hj)
  | @raise j s' t hs' hr m =>
    by_cases hj : j = i
    · subst hj
      obtain rfl : s' = s := Option.some.inj (hs'.symm.trans hs)
      exact Or.inr (Or.inr ⟨t, rfl, hr, rfl⟩)
    · exact Or.inl (others hj)
  | tick d => exact Or.inl hs
  | updateConfig failureRate latencyMs => exact Or.inl hs

theorem raise_request {t' : Task} (h : t.raise = some t') : t'.request = t.request := by
  cases t <;> simp only [Task.raise, Option.ite_none_right_eq_some, Option.some.injEq] at h <;> obtain ⟨-, rfl⟩ :=
    h <;> rfl

theorem request_exec (run : exec (step cat) σ acts = some τ) {s : Session} (hs : σ.sessions[i]? = some s) :
    ∃ s', τ.sessions[i]? = some s' ∧ s'.began = s.began ∧ s'.task.request = s.task.request := by
  refine exec_invariant_of_step (I := fun υ : State => ∃ s', υ.sessions[i]? = some s' ∧ s'.began = s.began ∧
    s'.task.request = s.task.request) ?_ ⟨s, hs, rfl, rfl⟩ run
  rintro υ a υ' ⟨s', hs', hbegan, hreq⟩ hstep
  rcases session_step hstep hs' with hsame | ⟨x, e, t, -, -, m, rfl⟩ | ⟨t, -, hraise, rfl⟩
  · exact ⟨s', hsame, hbegan, hreq⟩
  · exact ⟨_, goto_sessions_self hs', hbegan, m.request.trans hreq⟩
  · exact ⟨_, goto_sessions_self hs', hbegan, (raise_request hraise).trans hreq⟩

/-- What the statements of a session keep, and their failures, holds of it at the end of a run. It may also speak of
    what the tables keep for good. -/
theorem session_run {P : Db → Task → Prop} (hr : Reachable cat σ) (hs : σ.sessions[i]? = some s) (h : P σ.db s.task)
    (keep : ∀ {υ : State} {x e s t}, Reachable cat υ → υ.sessions[i]? = some s → P υ.db s.task → allow υ (.run i x) →
      s.statement cat υ i x = some (e, t) → Move cat υ i s e t → P (υ.perform i e).db t)
    (fails : ∀ {d : Db} {t t' : Task}, P d t → t.raise = some t' → P d t')
    (mono : ∀ {d d' : Db} {t : Task}, d.Kept d' → P d t → P d' t)
    (along : Along (step cat) allow σ acts) (run : exec (step cat) σ acts = some τ) :
    ∃ s', τ.sessions[i]? = some s' ∧ s'.task.request = s.task.request ∧ P τ.db s'.task := by
  have keep' : ∀ (υ : State) (a : Act) (υ' : State),
      (Reachable cat υ ∧ ∃ s', υ.sessions[i]? = some s' ∧ s'.task.request = s.task.request ∧ P υ.db s'.task) →
      allow υ a →
      step cat υ a = some υ' →
      Reachable cat υ' ∧ ∃ s', υ'.sessions[i]? = some s' ∧ s'.task.request = s.task.request ∧ P υ'.db s'.task := by
    rintro υ a υ' ⟨hr, s', hs', hreq, hp⟩ hallow hstep
    refine ⟨hr.next trivial hstep, ?_⟩
    rcases session_step hstep hs' with hsame | ⟨x, e, t, rfl, hc, m, rfl⟩ | ⟨t, rfl, hraise, rfl⟩
    · exact ⟨s', hsame, hreq, mono (kept_step (noDelete_of_reachable hr) hstep) hp⟩
    · exact ⟨{ s' with task := t }, goto_sessions_self hs', m.request.trans hreq, keep hr hs' hp hallow hc m⟩
    · exact ⟨{ s' with task := t }, goto_sessions_self hs', (raise_request hraise).trans hreq, fails hp hraise⟩
  exact (exec_invariant keep' ⟨hr, s, hs, rfl, h⟩ along run).2

theorem request_run {P : Db → Task → Prop} {r : Request} (hr : Reachable cat σ) (h : P σ.db r.task)
    (keep : ∀ {υ : State} {x e s t}, Reachable cat υ → υ.sessions[σ.sessions.length]? = some s → P υ.db s.task →
      allow υ (.run σ.sessions.length x) → s.statement cat υ σ.sessions.length x = some (e, t) →
      Move cat υ σ.sessions.length s e t → P (υ.perform σ.sessions.length e).db t)
    (fails : ∀ {d : Db} {t t' : Task}, P d t → t.raise = some t' → P d t')
    (mono : ∀ {d d' : Db} {t : Task}, d.Kept d' → P d t → P d' t)
    (along : Along (step cat) allow σ (.request r :: acts)) (run : exec (step cat) σ (.request r :: acts) = some τ) :
    ∃ s', τ.sessions[σ.sessions.length]? = some s' ∧ s'.task.request = r ∧ P τ.db s'.task := by
  have hreq : step cat σ (.request r) = some { σ with sessions := σ.sessions ++ [⟨σ.now, r.task⟩] } := rfl
  have hs : (σ.sessions ++ [⟨σ.now, r.task⟩])[σ.sessions.length]? = some ⟨σ.now, r.task⟩ := by simp
  rw [exec_cons, hreq, Option.bind_some] at run
  obtain ⟨s', hs', hq, hp⟩ := session_run (hr.next trivial hreq) hs h keep fails mono ((along_cons hreq).mp along).2 run
  exact ⟨s', hs', hq.trans r.task_request, hp⟩

theorem Move.not_finished (m : Move cat σ i s e t) : s.task.isFinished = false := by
  obtain ⟨began, t⟩ := s
  cases t with
  | create q pc =>
    cases pc with
    | finished r => cases m with | create m => cases m with | failed x hx => cases hx
    | _ => rfl
  | pay q pc =>
    cases pc with
    | finished r => cases m with | pay m => cases m with | failed x hx => cases hx
    | _ => rfl
  | refund q pc =>
    cases pc with
    | finished r => cases m with | refund m => cases m with | failed x hx => cases hx
    | _ => rfl
  | cleanup pc =>
    cases pc with
    | finished r => cases m with | cleanup m => cases m with | failed x hx => cases hx
    | _ => rfl

theorem finished_step (hstep : step cat σ a = some τ) (hs : σ.sessions[i]? = some s) (h : s.task.isFinished = true) :
    τ.sessions[i]? = some s := by
  rcases session_step hstep hs with hsame | ⟨x, e, t, -, -, m, -⟩ | ⟨t, -, hr, -⟩
  · exact hsame
  · rw [m.not_finished] at h
    cases h
  · have m : Move cat σ i s .close t := raise_move hr
    rw [m.not_finished] at h
    cases h

theorem finished_exec (run : exec (step cat) σ acts = some τ) (hs : σ.sessions[i]? = some s)
    (h : s.task.isFinished = true) :
    τ.sessions[i]? = some s :=
  exec_invariant_of_step (I := fun υ : State => υ.sessions[i]? = some s)
    (fun _ _ _ hs hstep => finished_step hstep hs h) hs run

/-- A run of a request in which not every statement of it passes stops passing at one of them. -/
theorem exists_failing_statement {P : State → Session → Prop} {r : Request} (hr : Reachable cat σ)
    (run : exec (step cat) σ (.request r :: acts) = some τ)
    (h : ¬Along (step cat) (AtStatement σ.sessions.length P) σ (.request r :: acts)) :
    ∃ υ x s e t post, Reachable cat υ ∧ υ.sessions[σ.sessions.length]? = some s ∧ s.task.request = r ∧ ¬P υ s ∧
      s.statement cat υ σ.sessions.length x = some (e, t) ∧
      exec (step cat) ((υ.perform σ.sessions.length e).goto σ.sessions.length s t) post = some τ := by
  classical
  obtain ⟨pre, a, post, υ, υ', hacts, hpre, hfail, hstep, hpost⟩ := exists_step_of_not_along run h
  cases step_stepped hstep with
  | @run j x s e t hs hc m =>
    simp only [AtStatement, not_forall] at hfail
    obtain ⟨rfl, s', hs', hfail⟩ := hfail
    obtain rfl : s = s' := Option.some.inj (hs.symm.trans hs')
    refine ⟨υ, x, s, e, t, post, reachable_exec hr hpre, hs, ?_, hfail, hc, hpost⟩
    cases pre with
    | nil => cases hacts
    | cons b pre =>
      obtain ⟨rfl, rfl⟩ := List.cons_eq_cons.mp hacts
      have along : Along (step cat) (fun _ _ => True) σ (.request r :: pre) := along_of_forall fun _ _ => trivial
      obtain ⟨s', hs', hreq, -⟩ := request_run (P := fun _ _ => True) hr trivial (fun _ _ _ _ _ _ => trivial)
        (fun _ _ => trivial) (fun _ _ => trivial) along hpre
      rw [Option.some.inj (hs.symm.trans hs')]
      exact hreq
  | _ => exact absurd trivial hfail

theorem perform_sessions (σ : State) (i : Sid) (e : Effect) : (σ.perform i e).sessions = σ.sessions := by
  cases e <;> rfl

/-- A sum over the sessions changes by what changes in the session that moves. -/
theorem sum_goto (f : Session → Nat) (hs : σ.sessions[i]? = some s) :
    (((σ.perform i e).goto i s t).sessions.map f).sum + f s = (σ.sessions.map f).sum + f { s with task := t } := by
  simp only [State.goto, perform_sessions]
  exact Table.sum_map_set hs

theorem perform_now (σ : State) (i : Sid) (e : Effect) : (σ.perform i e).now = σ.now := by
  cases e <;> rfl

theorem step_now_le (hstep : step cat σ a = some τ) : σ.now ≤ τ.now := by
  cases step_stepped hstep with
  | tick d => exact Int.le_add_of_nonneg_right (Int.natCast_nonneg d)
  | run hs hc m => exact le_of_eq (perform_now ..).symm
  | raise hs hr m => exact le_of_eq (perform_now ..).symm
  | _ => exact le_refl _

/-! ### What a session has written -/

theorem Move.unwritten (inv : Inv σ) (hs : σ.sessions[i]? = some s)
    (h : s.task.isWritten = false → σ.store.pending i = []) (m : Move cat σ i s e t) (ht : t.isWritten = false) :
    (σ.perform i e).store.pending i = [] := by
  cases m with
  | create m =>
    cases m with
    | deleted hp ha => exact (inv.not_deleted hs ha).elim
    | committed => exact rollback_pending_self
    | invalidated => exact rollback_pending_self
    | found hb hkey => exact rollback_pending_self
    | failed x hx => exact rollback_pending_self
    | seated free hx hu => cases ht
    | audited => cases ht
    | _ => exact h rfl
  | pay m =>
    cases m with
    | replayed hp hkey => exact rollback_pending_self
    | committed => exact rollback_pending_self
    | invalidated => exact rollback_pending_self
    | failed x hx server => exact rollback_pending_self
    | located => exact h rfl
    | admitted free hb hid hu hst hexp => exact h rfl
    | unpaid hp => exact h rfl
    | _ => cases ht
  | refund m =>
    cases m with
    | recorded => cases ht
    | committed => exact rollback_pending_self
    | invalidated => exact rollback_pending_self
    | failed x hx server => exact rollback_pending_self
    | _ => exact h rfl
  | cleanup m =>
    cases m with
    | scanned => exact h rfl
    | flushed => cases ht
    | committed => exact rollback_pending_self
    | failed x hx => exact rollback_pending_self

/-- A session that has flushed nothing has nothing pending. -/
theorem unwritten_of_reachable (hr : Reachable cat σ) : ∀ (i : Sid) s, σ.sessions[i]? = some s →
    s.task.isWritten = false →
    σ.store.pending i = [] := by
  refine sessions_of_reachable (P := fun σ i s => s.task.isWritten = false → σ.store.pending i = []) hr ?_ ?_ ?_ ?_
  · intro σ i r hr hnone _
    have hok := (inv_of_reachableBy hr).sessions i
    rwa [State.SessionOk, hnone] at hok
  · intro σ i s e t hr hs h m hw
    exact m.unwritten (inv_of_reachableBy hr) hs h hw
  · intro σ i j s s' e t _ _ _ hji _ h hw
    exact (perform_pending_ne e hji).trans (h hw)
  · intro σ τ i s h hstore _ _ hw
    rw [hstore]
    exact h hw

theorem view_of_unwritten (hr : Reachable cat σ) (hs : σ.sessions[i]? = some s) (h : s.task.isWritten = false) :
    σ.view i = σ.db :=
  view_of_pending_nil (unwritten_of_reachable hr i s hs h)

/-- A session leaves the committed rows of what another one owns. -/
theorem perform_ledger_of_owner {j : Sid} {s' : Session} {id : Uuid} (inv : Inv σ) (hs : σ.sessions[i]? = some s)
    (hs' : σ.sessions[j]? = some s') (hj : j ≠ i) (hid : .bookingRow id ∈ s'.task.owned) :
    (σ.perform i e).db.ledger id = σ.db.ledger id := by
  rcases perform_db σ i e with he | ⟨-, he⟩ <;> rw [he]
  refine (inv.taskOk hs).ledger_view fun p hp hp' => hj ?_
  exact inv.owner_unique hs' hs hid (hp' ▸ Task.owned_of_held hp)

end

end Railbook
