import Railbook.Models
import Mathlib.Algebra.Order.Ring.Unbundled.Rat

/-! The mock payment gateway (`app/payments/gateway.py`). A call first sleeps; what follows the sleep runs
    without suspension and is one step here. -/

namespace Railbook

/-- The answer of `charge`. -/
structure PaymentResult where
  status : PaymentStatus
  gatewayRef : Option GatewayRef
  failureReason : Option String
  deriving DecidableEq, Repr

/-- A success carries a reference and a failure does not. -/
def PaymentResult.Sound (r : PaymentResult) : Prop :=
  (r.status = .success ∧ r.gatewayRef.isSome = true) ∨ (r.status = .failed ∧ r.gatewayRef = none)

/-- What the environment decides in a step: the next `uuid4` of a row, the next `random.random()`, and the
    digits of the next gateway reference. -/
structure Choice where
  uuid : Uuid
  random : ℚ
  ref : GatewayRef
  deriving DecidableEq, Repr

/-- The settings of the gateway, and its cache `_processed`. -/
structure MockPaymentGateway where
  failureRate : ℚ
  latencyMs : Int
  processed : List (Uuid × PaymentResult)
  deriving DecidableEq, Repr

namespace MockPaymentGateway

/-- The gateway as the module makes it. -/
def init : MockPaymentGateway := ⟨0, 500, []⟩

/-- The outcome of a key that is not in the cache. -/
def draw (gw : MockPaymentGateway) (c : Choice) : PaymentResult :=
  if c.random < gw.failureRate then ⟨.failed, none, some "Card declined (simulated)"⟩
  else ⟨.success, some c.ref, none⟩

/-- `charge` after its sleep: the result, and the gateway with the result cached. The cache is looked up by the
    key alone. -/
def charge (gw : MockPaymentGateway) (_amount : Amount) (key : Uuid) (c : Choice) :
    PaymentResult × MockPaymentGateway :=
  match gw.processed.lookup key with
  | some r => (r, gw)
  | none => (gw.draw c, { gw with processed := (key, gw.draw c) :: gw.processed })

/-- `update_config` of `app/demo/router.py`. -/
def updateConfig (gw : MockPaymentGateway) (failureRate : Option ℚ) (latencyMs : Option Int) : MockPaymentGateway :=
  { gw with
    failureRate := (failureRate.map fun x => max 0 (min 1 x)).getD gw.failureRate
    latencyMs := (latencyMs.map fun x => max 0 x).getD gw.latencyMs }

/-- Every cached result is sound. -/
def Sound (gw : MockPaymentGateway) : Prop := ∀ e ∈ gw.processed, e.2.Sound

variable {gw : MockPaymentGateway} {amount : Amount} {key : Uuid} {c : Choice}

theorem init_sound : init.Sound := fun _ h => by cases h

theorem draw_sound : (gw.draw c).Sound := by
  unfold draw
  split
  · exact Or.inr ⟨rfl, rfl⟩
  · exact Or.inl ⟨rfl, rfl⟩

theorem lookup_mem {l : List (Uuid × PaymentResult)} {r : PaymentResult} (h : l.lookup key = some r) :
    (key, r) ∈ l := by
  obtain ⟨l₁, l₂, rfl, -⟩ := List.lookup_eq_some_iff.mp h
  simp

theorem charge_cached {r : PaymentResult} (h : gw.processed.lookup key = some r) :
    gw.charge amount key c = (r, gw) := by
  simp only [charge, h]

theorem charge_fresh (h : gw.processed.lookup key = none) :
    gw.charge amount key c = (gw.draw c, { gw with processed := (key, gw.draw c) :: gw.processed }) := by
  simp only [charge, h]

theorem charge_sound (h : gw.Sound) : (gw.charge amount key c).1.Sound ∧ (gw.charge amount key c).2.Sound := by
  cases hl : gw.processed.lookup key with
  | some r =>
    rw [charge_cached hl]
    exact ⟨h _ (lookup_mem hl), h⟩
  | none =>
    rw [charge_fresh hl]
    refine ⟨draw_sound, fun e he => ?_⟩
    rcases List.mem_cons.mp he with rfl | he
    · exact draw_sound
    · exact h e he

/-- After a charge the key is in the cache with the result returned, and every key in the cache before keeps its
    result. -/
theorem charge_lookup : (gw.charge amount key c).2.processed.lookup key = some (gw.charge amount key c).1 := by
  cases hl : gw.processed.lookup key with
  | some r => rw [charge_cached hl]; exact hl
  | none => rw [charge_fresh hl]; simp

theorem charge_lookup_mono {key' : Uuid} {r : PaymentResult} (h : gw.processed.lookup key' = some r) :
    (gw.charge amount key c).2.processed.lookup key' = some r := by
  cases hl : gw.processed.lookup key with
  | some r => rw [charge_cached hl]; exact h
  | none =>
    have hne : key' ≠ key := fun e => by rw [e, hl] at h; cases h
    rw [charge_fresh hl, List.lookup_cons, beq_false_of_ne hne]
    exact h

end MockPaymentGateway

end Railbook
