import Railbook.Gateway
import Railbook.Library.Transition

/-! Concurrent calls of `MockPaymentGateway.charge`. A call is suspended in its sleep, and nowhere else: what it
    does once it is awake is one step. Calls wake in any order, whatever their latency, and the gateway is
    reconfigured in between. -/

namespace Railbook
open Transition

/-- A call of `charge`, with its answer once it has returned. -/
structure GatewayCall where
  amount : Amount
  idempotencyKey : Uuid
  result : Option PaymentResult
  deriving DecidableEq, Repr

/-- The gateway, the calls made of it, and the outcomes it has decided, in their order. -/
structure GatewayRun where
  gateway : MockPaymentGateway
  calls : List GatewayCall
  decided : List (Uuid × PaymentResult)
  deriving DecidableEq, Repr

/-- What happens next: a call, the end of the sleep of a call, or a reconfiguration. -/
inductive GatewayAct where
  | charge (amount : Amount) (idempotencyKey : Uuid)
  | wake (i : Nat) (c : Choice)
  | updateConfig (failureRate : Option ℚ) (latencyMs : Option Int)
  deriving DecidableEq, Repr

/-- A step of calls that run at the same time. -/
def gatewayStep (s : GatewayRun) : GatewayAct → Option GatewayRun
  | .charge amount key => some { s with calls := s.calls ++ [⟨amount, key, none⟩] }
  | .wake i c => do
    let call ← s.calls[i]?
    if call.result.isSome then none
    else
      let (result, gw) := s.gateway.charge call.amount call.idempotencyKey c
      some {
        gateway := gw
        calls := s.calls.set i { call with result := some result }
        decided := if (s.gateway.processed.lookup call.idempotencyKey).isNone then
          s.decided ++ [(call.idempotencyKey, result)] else s.decided }
  | .updateConfig failureRate latencyMs => some { s with gateway := s.gateway.updateConfig failureRate latencyMs }

/-- A gateway before any of the calls. -/
def GatewayRun.start (gw : MockPaymentGateway) : GatewayRun := ⟨gw, [], []⟩

/-- The calls have returned what the gateway has stored, and it has stored what it decided. -/
structure GatewayRun.Consistent (s : GatewayRun) : Prop where
  answered : ∀ c ∈ s.calls, ∀ r, c.result = some r → s.gateway.processed.lookup c.idempotencyKey = some r
  decided : ∀ e ∈ s.decided, s.gateway.processed.lookup e.1 = some e.2
  once : (s.decided.map (·.1)).Nodup

/-- What is settled in `s` is as it was in `t`. -/
structure GatewayRun.Settled (s t : GatewayRun) : Prop where
  outcomes : ∀ key r, s.gateway.processed.lookup key = some r → t.gateway.processed.lookup key = some r
  calls : ∀ (i : Nat) (c : GatewayCall), s.calls[i]? = some c → c.result.isSome = true → t.calls[i]? = some c

section
variable {s t u : GatewayRun} {a : GatewayAct}

theorem GatewayRun.Settled.refl (s : GatewayRun) : s.Settled s := ⟨fun _ _ h => h, fun _ _ h _ => h⟩

theorem GatewayRun.Settled.trans (h : s.Settled t) (h' : t.Settled u) : s.Settled u where
  outcomes key r hr := h'.outcomes key r (h.outcomes key r hr)
  calls i c hc hr := h'.calls i c (h.calls i c hc hr) hr

/-- What a step does: a call begins, a sleeping call returns, or the configuration changes. -/
inductive GatewayStepped (s : GatewayRun) : GatewayAct → GatewayRun → Prop
  | charge (amount : Amount) (key : Uuid) :
    GatewayStepped s (.charge amount key) { s with calls := s.calls ++ [⟨amount, key, none⟩] }
  | wake {i : Nat} {c : Choice} {call : GatewayCall} (hi : s.calls[i]? = some call) (asleep : call.result = none) :
    GatewayStepped s (.wake i c) {
      gateway := (s.gateway.charge call.amount call.idempotencyKey c).2
      calls := s.calls.set i { call with result := some (s.gateway.charge call.amount call.idempotencyKey c).1 }
      decided := if (s.gateway.processed.lookup call.idempotencyKey).isNone then
        s.decided ++ [(call.idempotencyKey, (s.gateway.charge call.amount call.idempotencyKey c).1)] else s.decided }
  | updateConfig (failureRate : Option ℚ) (latencyMs : Option Int) :
    GatewayStepped s (.updateConfig failureRate latencyMs)
      { s with gateway := s.gateway.updateConfig failureRate latencyMs }

theorem gatewayStep_stepped (h : gatewayStep s a = some t) : GatewayStepped s a t := by
  cases a with
  | charge amount key =>
    cases h
    exact .charge amount key
  | wake i c =>
    obtain ⟨call, hi, h⟩ := Option.bind_eq_some_iff.mp h
    split at h
    · cases h
    · rename_i hsome
      cases h
      exact .wake hi (Option.not_isSome_iff_eq_none.mp hsome)
  | updateConfig failureRate latencyMs =>
    cases h
    exact .updateConfig failureRate latencyMs

theorem GatewayRun.Settled.step (h : gatewayStep s a = some t) : s.Settled t := by
  cases gatewayStep_stepped h with
  | charge amount key =>
    refine ⟨fun _ _ h => h, fun i c hc _ => ?_⟩
    rw [List.getElem?_append_left (List.getElem?_eq_some_iff.mp hc).1]
    exact hc
  | @wake i x call hi asleep =>
    refine ⟨fun key r hr => MockPaymentGateway.charge_lookup_mono hr, fun j c hc hr => ?_⟩
    -- The call that wakes had no answer, so it is another one.
    have hne : i ≠ j := by
      rintro rfl
      rw [Option.some.inj (hi.symm.trans hc)] at asleep
      rw [asleep] at hr
      cases hr
    exact (List.getElem?_set_ne hne).trans hc
  | updateConfig failureRate latencyMs => exact ⟨fun _ _ h => h, fun _ _ h _ => h⟩

theorem GatewayRun.Consistent.step (hs : s.Consistent) (h : gatewayStep s a = some t) : t.Consistent := by
  have settled := GatewayRun.Settled.step h
  cases gatewayStep_stepped h with
  | charge amount key =>
    refine { hs with answered := fun c hc r hr => ?_ }
    rcases List.mem_append.mp hc with hc | hc
    · exact hs.answered c hc r hr
    · rw [List.mem_singleton.mp hc] at hr
      cases hr
  | @wake i x call hi asleep =>
    refine ⟨fun c hc r hr => ?_, fun e he => ?_, ?_⟩
    · rcases List.mem_or_eq_of_mem_set hc with hc | rfl
      · exact settled.outcomes _ _ (hs.answered c hc r hr)
      · cases hr
        exact MockPaymentGateway.charge_lookup
    · dsimp only at he
      split at he
      · rcases List.mem_append.mp he with he | he
        · exact settled.outcomes _ _ (hs.decided e he)
        · rw [List.mem_singleton.mp he]
          exact MockPaymentGateway.charge_lookup
      · exact settled.outcomes _ _ (hs.decided e he)
    · dsimp only
      split
      · rename_i hnone
        rw [List.map_append, List.map_singleton]
        refine List.nodup_append.mpr ⟨hs.once, List.nodup_singleton _, fun key hkey key' hkey' he => ?_⟩
        -- A key that was decided before is stored, so it is not decided again.
        obtain ⟨e, he', rfl⟩ := List.mem_map.mp hkey
        have hkey : e.1 = call.idempotencyKey := he.trans (List.mem_singleton.mp hkey')
        rw [← hkey, hs.decided e he'] at hnone
        cases hnone
      · exact hs.once
  | updateConfig failureRate latencyMs => exact { hs with }

theorem GatewayRun.Consistent.start (gw : MockPaymentGateway) : (GatewayRun.start gw).Consistent :=
  ⟨nofun, nofun, List.nodup_nil⟩

/-- Calls with one key that have returned have returned the same result, which the gateway decided at most once; and
    what is decided or answered stays so, whatever follows. -/
theorem charge_idempotent {gw : MockPaymentGateway} {acts acts' : List GatewayAct}
    (run : exec gatewayStep (.start gw) acts = some s) (later : exec gatewayStep s acts' = some t) :
    (∀ c ∈ t.calls, ∀ c' ∈ t.calls, c.idempotencyKey = c'.idempotencyKey → c.result.isSome = true →
      c'.result.isSome = true →
        c.result = c'.result) ∧
      (∀ key, (t.decided.countP fun e => e.1 == key) ≤ 1) ∧ s.Settled t := by
  have hs : s.Consistent := exec_invariant_of_step (fun _ _ _ h hstep => h.step hstep) (.start gw) run
  have ht : t.Consistent := exec_invariant_of_step (fun _ _ _ h hstep => h.step hstep) hs later
  refine ⟨fun c hc c' hc' hkey hr hr' => ?_, fun key => ?_, ?_⟩
  · obtain ⟨r, hr⟩ := Option.isSome_iff_exists.mp hr
    obtain ⟨r', hr'⟩ := Option.isSome_iff_exists.mp hr'
    have hstored := ht.answered c hc r hr
    rw [hkey, ht.answered c' hc' r' hr'] at hstored
    rw [hr, hr', hstored]
  · have hcount := List.nodup_iff_count_le_one.mp ht.once key
    rwa [List.count_eq_countP, List.countP_map] at hcount
  · exact exec_invariant_of_step (I := s.Settled) (fun _ _ _ h hstep => h.trans (.step hstep)) (.refl s) later

/-- Two calls with one key sleep at once, and the gateway is set to fail after the second one has woken: both succeed
    with one reference. -/
theorem charge_idempotent_pair : ∃ s t : GatewayRun, t.calls.map (·.result) =
      [some ⟨.success, some 7, none⟩, some ⟨.success, some 7, none⟩] ∧ t.decided.length = 1 ∧
    (∀ c ∈ t.calls, ∀ c' ∈ t.calls, c.idempotencyKey = c'.idempotencyKey → c.result.isSome = true →
      c'.result.isSome = true →
        c.result = c'.result) ∧
      (∀ key, (t.decided.countP fun e => e.1 == key) ≤ 1) ∧ s.Settled t := by
  have hrun : exec gatewayStep (.start .init) [.charge 150000 70, .charge 80000 70, .wake 1 ⟨0, 0, 7⟩] =
      some ⟨⟨0, 500, [(70, ⟨.success, some 7, none⟩)]⟩,
        [⟨150000, 70, none⟩, ⟨80000, 70, some ⟨.success, some 7, none⟩⟩],
        [(70, ⟨.success, some 7, none⟩)]⟩ := by decide
  have hlater : exec gatewayStep ⟨⟨0, 500, [(70, ⟨.success, some 7, none⟩)]⟩,
      [⟨150000, 70, none⟩, ⟨80000, 70, some ⟨.success, some 7, none⟩⟩], [(70, ⟨.success, some 7, none⟩)]⟩
      [.updateConfig (some 1) none, .wake 0 ⟨0, 0, 8⟩] =
        some ⟨⟨1, 500, [(70, ⟨.success, some 7, none⟩)]⟩, [⟨150000, 70, some ⟨.success, some 7, none⟩⟩,
          ⟨80000, 70, some ⟨.success, some 7, none⟩⟩], [(70, ⟨.success, some 7, none⟩)]⟩ := by decide
  exact ⟨_, _, rfl, rfl, charge_idempotent hrun hlater⟩

end

end Railbook
