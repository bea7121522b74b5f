import Railbook.Retention
import Railbook.Sessions

/-! One pass of the cleanup loop (`app/bookings/cleanup.py`), on any tables, whatever other transactions hold. -/

namespace Railbook
open ReadCommitted Transition

/-- The condition of the cleanup query. -/
def Booking.isExpired (b : Booking) (now : Time) : Bool := b.status = .reserved ∧ b.expiresAt.any (· < now)

/-- The tables when these reservations have expired. -/
def Db.expire (d : Db) (now : Time) (auditId : Nat) (expired : List Booking) : Db where
  bookings := d.bookings.map fun b =>
    if b ∈ expired then { b with status := .cancelled, cancelledAt := some now } else b
  payments := d.payments
  auditTrail := d.auditTrail ++ expired.zipIdx.map fun (b, k) => {
    id := auditId + k
    bookingId := b.id
    userId := systemUserId
    action := .expiredCleanup
    previousStatus := some .reserved
    newStatus := .cancelled
    metadata := .expired b.expiresAt 300
    ipAddress := none
    createdAt := now }

/-- Session `i` is at the beginning of a pass, on tables under their primary key. -/
structure State.BeginsPass (σ : State) (i : Sid) (began : Time) : Prop where
  session : σ.sessions[i]? = some ⟨began, .cleanup .scan⟩
  unwritten : σ.store.pending i = []
  key : (σ.db.bookings.map (·.id)).Nodup

/-- The pass of session `i` ends with `r`, and no other session takes a step meanwhile. -/
def Passes (cat : Catalog) (σ : State) (i : Sid) (began : Time) (r : Except Exc Unit) (τ : State) : Prop :=
  ∃ acts, (∀ a ∈ acts, ∀ j : Sid, a.session? = some j → j = i) ∧ exec (step cat) σ acts = some τ ∧
    τ.sessions[i]? = some ⟨began, .cleanup (.finished r)⟩

/-- The expired reservations that no transaction other than session `i` holds. -/
def State.unlocked (σ : State) (i : Sid) (began : Time) : List Booking :=
  σ.db.bookings.filter fun b => b.isExpired began ∧ σ.store.Free i (.bookingRow b.id)

/-- The expired reservations that other transactions hold. -/
def State.skipped (σ : State) (i : Sid) (began : Time) : List Booking :=
  σ.db.bookings.filter fun b => b.isExpired began ∧ ¬σ.store.Free i (.bookingRow b.id)

/-- How far the pass is that began in `σ`. -/
def CleanupPc.PassKnows (σ : State) (i : Sid) (began : Time) (υ : State) : CleanupPc → Prop
  | .scan => υ.db = σ.db ∧ υ.store.pending i = [] ∧ υ.store.owner = σ.store.owner ∧ υ.nextAuditId = σ.nextAuditId
  | .flush expired =>
    υ.db = σ.db ∧ υ.store.pending i = [] ∧ expired = σ.unlocked i began ∧ υ.nextAuditId = σ.nextAuditId
  | .commit _ => υ.db = σ.db ∧ υ.store.pending i = cleanupWrites began σ.nextAuditId (σ.unlocked i began)
  | .finished (.ok _) => υ.db = σ.db.expire began σ.nextAuditId (σ.unlocked i began)
  | .finished (.error _) => υ.db = σ.db

/-- What the pass of session `i` has left to do, once its query has given `expired`. -/
def CleanupPc.Scanned (i : Sid) (began : Time) (expired : List Booking) (υ : State) : CleanupPc → Prop
  | .scan => False
  | .flush es => es = expired ∧ ∀ b ∈ expired, b ∈ υ.db.bookings
  | .commit es => es.map (·.id) = expired.map (·.id) ∧ (∀ b ∈ expired, b ∈ υ.db.bookings) ∧
    ∃ n, υ.store.pending i = cleanupWrites began n expired
  | .finished _ => True

section
variable {cat : Catalog} {σ τ υ : State} {i j : Sid} {began now : Time} {d : Db} {es : List Booking} {n : Nat}
  {b : Booking}

/-! ### The writes -/

theorem foldl_setBooking :
    (es.map fun b => Write.setBooking b.id .cancelled none (some now)).foldl (fun d w => w.apply d) d =
      { d with bookings := d.bookings.map fun b =>
          if b.id ∈ es.map (·.id) then { b with status := .cancelled, cancelledAt := some now } else b } := by
  induction es generalizing d with
  | nil => simp
  | cons e es ih =>
    rw [List.map_cons, List.foldl_cons, ih]
    simp only [Write.apply, List.map_map, List.map_cons, List.mem_cons, Db.mk.injEq, and_true]
    refine List.map_congr_left fun b _ => ?_
    by_cases he : b.id = e.id
    · simp [Booking.update, he]
    · simp [he]

theorem foldl_insertAudit {as : List AuditTrail} :
    (as.map Write.insertAudit).foldl (fun d w => w.apply d) d = { d with auditTrail := d.auditTrail ++ as } := by
  induction as generalizing d with
  | nil => simp
  | cons a as ih =>
    rw [List.map_cons, List.foldl_cons, ih]
    simp [Write.apply]

theorem foldl_cleanupWrites (key : (d.bookings.map (·.id)).Nodup) (h : ∀ b ∈ es, b ∈ d.bookings) :
    (cleanupWrites now n es).foldl (fun d w => w.apply d) d = d.expire now n es := by
  have hmem : ∀ b ∈ d.bookings, (b.id ∈ es.map (·.id) ↔ b ∈ es) := by
    intro b hb
    constructor
    · intro hid
      obtain ⟨b', hb', hid⟩ := List.mem_map.mp hid
      rwa [List.inj_on_of_nodup_map key (h b' hb') hb hid] at hb'
    · exact fun hb => List.mem_map_of_mem hb
  have haudit : (es.zipIdx.map fun (b, k) => Write.insertAudit (logAudit (n + k) now b.id systemUserId .expiredCleanup
      (some .reserved) .cancelled (.expired b.expiresAt 300) none)) =
      (es.zipIdx.map fun (b, k) => logAudit (n + k) now b.id systemUserId .expiredCleanup (some .reserved) .cancelled
        (.expired b.expiresAt 300) none).map Write.insertAudit := by
    rw [List.map_map]
    rfl
  rw [cleanupWrites, List.foldl_append, foldl_setBooking, haudit, foldl_insertAudit, Db.expire, Db.mk.injEq]
  refine ⟨List.map_congr_left fun b hb => ?_, rfl, rfl⟩
  simp only [hmem b hb]

/-! ### The pass -/

theorem expiredReservations_eq (hdb : υ.db = σ.db) (hp : υ.store.pending i = []) (ho : υ.store.owner = σ.store.owner) :
    expiredReservations υ i began = σ.unlocked i began := by
  have hview : υ.view i = σ.db := (view_of_pending_nil hp).trans hdb
  rw [expiredReservations, hview, State.unlocked]
  refine List.filter_congr fun b _ => Bool.eq_iff_iff.mpr ?_
  simp only [Booking.isExpired, decide_eq_true_eq, and_assoc]
  simp only [Store.Free, ho]

theorem CleanupMove.passKnows {pc pc' : CleanupPc} {eff : Effect} (begins : σ.BeginsPass i began)
    (h : pc.PassKnows σ i began υ) (m : CleanupMove υ i began pc eff pc') :
    pc'.PassKnows σ i began (υ.perform i eff) := by
  cases m with
  | scanned =>
    obtain ⟨hdb, hp, ho, hn⟩ := h
    exact ⟨hdb, hp, expiredReservations_eq hdb hp ho, hn⟩
  | flushed =>
    obtain ⟨hdb, hp, rfl, hn⟩ := h
    refine ⟨hdb, ?_⟩
    rw [← hn]
    simp [State.perform, hp]
  | committed =>
    obtain ⟨hdb, hp⟩ := h
    change (υ.store.pending i).foldl (fun d w => w.apply d) υ.db = _
    rw [hp, hdb]
    exact foldl_cleanupWrites begins.key fun b hb => List.mem_of_mem_filter hb
  | @failed pc e he =>
    cases pc with
    | scan => exact h.1
    | flush expired => exact h.1
    | commit bookings => exact h.1
    | finished r => cases he

theorem CleanupPc.PassKnows.frame {pc : CleanupPc} (h : pc.PassKnows σ i began υ) (hs : τ.store = υ.store)
    (hn : τ.nextAuditId = υ.nextAuditId) : pc.PassKnows σ i began τ := by
  have hdb : τ.db = υ.db := congrArg (·.data) hs
  cases pc with
  | scan => exact ⟨hdb.trans h.1, hs ▸ h.2.1, hs ▸ h.2.2.1, hn.trans h.2.2.2⟩
  | flush expired => exact ⟨hdb.trans h.1, hs ▸ h.2.1, h.2.2.1, hn.trans h.2.2.2⟩
  | commit bookings => exact ⟨hdb.trans h.1, hs ▸ h.2⟩
  | finished r =>
    cases r with
    | ok x => exact hdb.trans h
    | error e => exact hdb.trans h

theorem passKnows_step {a : Act} (begins : σ.BeginsPass i began) (ha : ∀ j : Sid, a.session? = some j → j = i)
    (h : ∃ pc : CleanupPc, υ.sessions[i]? = some ⟨began, .cleanup pc⟩ ∧ pc.PassKnows σ i began υ)
    (hstep : step cat υ a = some τ) :
    ∃ pc : CleanupPc, τ.sessions[i]? = some ⟨began, .cleanup pc⟩ ∧ pc.PassKnows σ i began τ := by
  obtain ⟨pc, hs, hk⟩ := h
  cases step_stepped hstep with
  | request r =>
    exact ⟨pc, (List.getElem?_append_left (List.getElem?_eq_some_iff.mp hs).1).trans hs, hk.frame rfl rfl⟩
  | @run j c s eff task hs' hc m =>
    obtain rfl := ha j rfl
    obtain rfl : s = ⟨began, .cleanup pc⟩ := Option.some.inj (hs'.symm.trans hs)
    cases m with
    | cleanup m => exact ⟨_, goto_sessions_self hs, (m.passKnows begins hk).frame rfl rfl⟩
  | @raise j s task hs' hr m =>
    obtain rfl := ha j rfl
    obtain rfl : s = ⟨began, .cleanup pc⟩ := Option.some.inj (hs'.symm.trans hs)
    cases m with
    | cleanup m => exact ⟨_, goto_sessions_self hs, (m.passKnows begins hk).frame rfl rfl⟩
  | tick d => exact ⟨pc, hs, hk.frame rfl rfl⟩
  | updateConfig failureRate latencyMs => exact ⟨pc, hs, hk.frame rfl rfl⟩

/-- What the end of a pass says about the tables. -/
theorem Passes.knows {r : Except Exc Unit} (begins : σ.BeginsPass i began) (h : Passes cat σ i began r τ) :
    (CleanupPc.finished r).PassKnows σ i began τ := by
  obtain ⟨acts, only, run, hs⟩ := h
  have start : ∃ pc : CleanupPc, σ.sessions[i]? = some ⟨began, .cleanup pc⟩ ∧ pc.PassKnows σ i began σ :=
    ⟨.scan, begins.session, rfl, begins.unwritten, rfl, rfl⟩
  obtain ⟨pc, hpc, hk⟩ := exec_invariant_of_mem
    (fun _ _ _ h ha hstep => passKnows_step begins ha h hstep) start only run
  cases Option.some.inj (hpc.symm.trans hs)
  exact hk

theorem passes_of_runs {uuid : Uuid} {r : Except Exc Unit} (run : exec (step cat) σ (runs i n uuid) = some τ)
    (hs : τ.sessions[i]? = some ⟨began, .cleanup (.finished r)⟩) : Passes cat σ i began r τ := by
  refine ⟨runs i n uuid, ?_, run, hs⟩
  intro a ha j hj
  rw [List.eq_of_mem_replicate ha] at hj
  exact (Option.some.inj hj).symm

/-- A pass whose statements succeed commits. -/
theorem passes_of_begins (begins : σ.BeginsPass i began) (cat : Catalog) : ∃ τ, Passes cat σ i began (.ok ()) τ := by
  have next {υ : State} {pc pc' : CleanupPc} {eff : Effect} (hs : υ.sessions[i]? = some ⟨began, .cleanup pc⟩)
      (hpc : cleanupExpiredReservations υ i began pc = some (eff, pc')) :
      ∃ υ', step cat υ (.run i ⟨0, 0, 0⟩) = some υ' ∧ υ'.sessions[i]? = some ⟨began, .cleanup pc'⟩ := by
    have hst : Session.statement cat υ i ⟨began, .cleanup pc⟩ ⟨0, 0, 0⟩ = some (eff, .cleanup pc') := by
      simp only [Session.statement, hpc, Option.map_some]
    exact ⟨_, step_run hs hst, goto_sessions_self hs⟩
  obtain ⟨σ₁, h₁, s₁⟩ := next begins.session rfl
  obtain ⟨σ₂, h₂, s₂⟩ := next s₁ rfl
  obtain ⟨σ₃, h₃, s₃⟩ := next s₂ rfl
  have run : exec (step cat) σ (runs i 3 0) = some σ₃ := by
    simp only [runs, List.replicate, exec_cons, h₁, h₂, h₃, Option.bind_some, exec_nil]
  exact ⟨σ₃, passes_of_runs run s₃⟩

/-! ### A second pass -/

theorem expire_eq_self_iff : d.expire now n es = d ↔ es = [] := by
  constructor
  · intro h
    have hlen := congrArg (fun d : Db => d.auditTrail.length) h
    simp only [Db.expire, List.length_append, List.length_map, List.length_zipIdx] at hlen
    exact List.length_eq_zero_iff.mp (by omega)
  · rintro rfl
    simp [Db.expire]

theorem isExpired_cancelled : ({ b with status := .cancelled, cancelledAt := some now } : Booking).isExpired now =
    false := by
  simp [Booking.isExpired]

/-- Of the rows after a pass, those that have expired are the ones that it skipped. -/
theorem filter_expire : (σ.db.expire began n (σ.unlocked i began)).bookings.filter (·.isExpired began) =
    σ.skipped i began := by
  rw [Db.expire, State.skipped, List.filter_map]
  have hfilter : ∀ b ∈ σ.db.bookings, ((·.isExpired began) ∘ fun b : Booking =>
      if b ∈ σ.unlocked i began then { b with status := .cancelled, cancelledAt := some began } else b) b =
      decide (b.isExpired began ∧ ¬σ.store.Free i (.bookingRow b.id)) := by
    intro b hb
    simp only [Function.comp_apply, State.unlocked, List.mem_filter, hb, true_and, decide_eq_true_eq]
    by_cases hfree : σ.store.Free i (.bookingRow b.id)
    · cases he : b.isExpired began with
      | false => simp [he]
      | true => simp [hfree, isExpired_cancelled]
    · simp [hfree]
  rw [List.filter_congr hfilter]
  refine (List.map_congr_left fun b hb => ?_).trans (List.map_id _)
  have hnot : b ∉ σ.unlocked i began := by
    have hb := of_decide_eq_true (List.mem_filter.mp hb).2
    exact fun h => hb.2 (of_decide_eq_true (List.mem_filter.mp h).2).2
  rw [if_neg hnot, id]

/-! ### Among other sessions -/

theorem CleanupPc.Scanned.frame {pc : CleanupPc} (h : pc.Scanned i began es υ) (hs : τ.store = υ.store) :
    pc.Scanned i began es τ := by
  have hdb : τ.db = υ.db := congrArg (·.data) hs
  cases pc with
  | scan => exact h
  | flush expired => exact ⟨h.1, hdb ▸ h.2⟩
  | commit expired => exact ⟨h.1, hdb ▸ h.2.1, hs ▸ h.2.2⟩
  | finished r => trivial

/-- What another session leaves of a scanned pass. -/
theorem CleanupPc.Scanned.others {pc : CleanupPc} {s : Session} {e : Effect} (inv : Inv υ)
    (hs : υ.sessions[i]? = some ⟨began, .cleanup pc⟩) (hs' : υ.sessions[j]? = some s) (hj : j ≠ i)
    (h : pc.Scanned i began es υ) :
    pc.Scanned i began es (υ.perform j e) := by
  have kept (owned : ∀ b ∈ es, .bookingRow b.id ∈ (Task.cleanup pc).owned) (hmem : ∀ b ∈ es, b ∈ υ.db.bookings) :
      ∀ b ∈ es, b ∈ (υ.perform j e).db.bookings := by
    intro b hb
    have hledger : (υ.perform j e).db.ledger b.id = υ.db.ledger b.id :=
      perform_ledger_of_owner inv hs' hs hj.symm (owned b hb)
    have hrow : b ∈ (υ.db.ledger b.id).bookings := mem_ledger_bookings.mpr ⟨hmem b hb, rfl⟩
    rw [← hledger] at hrow
    exact (mem_ledger_bookings.mp hrow).1
  cases pc with
  | scan => exact h
  | flush expired =>
    obtain ⟨rfl, hmem⟩ := h
    exact ⟨rfl, kept (fun b hb => List.mem_map_of_mem hb) hmem⟩
  | commit expired =>
    obtain ⟨hids, hmem, n, hn⟩ := h
    refine ⟨hids, kept (fun b hb => ?_) hmem, n, (perform_pending_ne e hj.symm).trans hn⟩
    have hid : b.id ∈ expired.map (·.id) := hids ▸ List.mem_map_of_mem hb
    obtain ⟨b', hb', hid⟩ := List.mem_map.mp hid
    exact List.mem_map.mpr ⟨b', hb', congrArg _ hid⟩
  | finished r => trivial

theorem CleanupMove.keeps_scanned {pc pc' : CleanupPc} {eff : Effect} (hr : Reachable cat υ)
    (hs : υ.sessions[i]? = some ⟨began, .cleanup pc⟩) (h : pc.Scanned i began es υ)
    (m : CleanupMove υ i began pc eff pc') :
    pc'.Scanned i began es (υ.perform i eff) := by
  cases m with
  | scanned => cases h
  | flushed =>
    obtain ⟨rfl, hmem⟩ := h
    have hp : υ.store.pending i = [] := unwritten_of_reachable hr i _ hs rfl
    refine ⟨by rw [List.map_map]; rfl, hmem, υ.nextAuditId, ?_⟩
    simp [State.perform, hp]
  | committed => trivial
  | failed e he => trivial

theorem scanned_step {a : Act} (hr : Reachable cat υ)
    (h : ∃ pc : CleanupPc, υ.sessions[i]? = some ⟨began, .cleanup pc⟩ ∧ pc.Scanned i began es υ)
    (hstep : step cat υ a = some τ) :
    ∃ pc : CleanupPc, τ.sessions[i]? = some ⟨began, .cleanup pc⟩ ∧ pc.Scanned i began es τ := by
  obtain ⟨pc, hs, hk⟩ := h
  have inv := inv_of_reachableBy hr
  cases step_stepped hstep with
  | request r => exact ⟨pc, (List.getElem?_append_left (List.getElem?_eq_some_iff.mp hs).1).trans hs, hk.frame rfl⟩
  | @run j c s eff task hs' hc m =>
    rcases eq_or_ne j i with rfl | hj
    · obtain rfl : s = ⟨began, .cleanup pc⟩ := Option.some.inj (hs'.symm.trans hs)
      cases m with
      | @cleanup _ _ pc' _ m => exact ⟨pc', goto_sessions_self hs, (m.keeps_scanned hr hs hk).frame rfl⟩
    · exact ⟨pc, (goto_sessions_ne hj.symm).trans hs, (hk.others inv hs hs' hj).frame rfl⟩
  | @raise j s task hs' hraise m =>
    rcases eq_or_ne j i with rfl | hj
    · obtain rfl : s = ⟨began, .cleanup pc⟩ := Option.some.inj (hs'.symm.trans hs)
      cases m with
      | @cleanup _ _ pc' _ m => exact ⟨pc', goto_sessions_self hs, (m.keeps_scanned hr hs hk).frame rfl⟩
    · exact ⟨pc, (goto_sessions_ne hj.symm).trans hs, (hk.others inv hs hs' hj).frame rfl⟩
  | tick d => exact ⟨pc, hs, hk.frame rfl⟩
  | updateConfig failureRate latencyMs => exact ⟨pc, hs, hk.frame rfl⟩

/-- The commit of a pass, whatever other sessions did since its query. -/
theorem commit_scanned {c c' : Choice} {acts : List Act} {σ₁ : State} {bookings : List Booking} (hr : Reachable cat σ)
    (hs : σ.sessions[i]? = some ⟨began, .cleanup .scan⟩) (scan : step cat σ (.run i c) = some σ₁)
    (run : exec (step cat) σ₁ acts = some υ) (hυ : υ.sessions[i]? = some ⟨began, .cleanup (.commit bookings)⟩)
    (commit : step cat υ (.run i c') = some τ) :
    (∀ b ∈ σ.unlocked i began, b ∈ υ.db.bookings) ∧ ∃ n, τ.db = υ.db.expire began n (σ.unlocked i began) := by
  have hp : σ.store.pending i = [] := unwritten_of_reachable hr i _ hs rfl
  have scanned : ∃ pc : CleanupPc, σ₁.sessions[i]? = some ⟨began, .cleanup pc⟩ ∧
    pc.Scanned i began (σ.unlocked i began) σ₁ := by
    have hst : Session.statement cat σ i ⟨began, .cleanup .scan⟩ c = some (.lock ((expiredReservations σ i began).map
        fun b => .bookingRow b.id), .cleanup (.flush (expiredReservations σ i began))) := rfl
    cases (step_run hs hst).symm.trans scan
    exact ⟨_, goto_sessions_self hs, expiredReservations_eq rfl hp rfl, fun b hb => List.mem_of_mem_filter hb⟩
  have hr₁ : Reachable cat σ₁ := hr.next trivial scan
  obtain ⟨hrυ, pc, hpc, hk⟩ := exec_invariant_of_step (I := fun υ => Reachable cat υ ∧
      ∃ pc : CleanupPc, υ.sessions[i]? = some ⟨began, .cleanup pc⟩ ∧ pc.Scanned i began (σ.unlocked i began) υ)
    (fun _ _ _ h hstep => ⟨h.1.next trivial hstep, scanned_step h.1 h.2 hstep⟩) ⟨hr₁, scanned⟩ run
  cases Option.some.inj (hpc.symm.trans hυ)
  obtain ⟨-, hmem, n, hn⟩ := hk
  have hst : Session.statement cat υ i ⟨began, .cleanup (.commit bookings)⟩ c' =
    some (.commit, .cleanup (.finished (.ok ()))) := rfl
  cases (step_run hυ hst).symm.trans commit
  refine ⟨hmem, n, ?_⟩
  change (υ.store.pending i).foldl (fun d w => w.apply d) υ.db = _
  rw [hn]
  exact foldl_cleanupWrites (inv_of_reachableBy hrυ).ids_nodup hmem

end

/-- What a pass is for: it cancels the expired reservations that nobody else holds, and nothing else; if it raises, it
    changes nothing; and a second pass at the same time, without locks, cancels what the first one skipped. In the
    running service the commit finds the rows of the query as they were, whatever other sessions do in between. -/
structure PassSpec (cat : Catalog) (σ : State) (i : Sid) (began : Time) : Prop where
  commits : ∃ τ, Passes cat σ i began (.ok ()) τ
  exact : ∀ τ, Passes cat σ i began (.ok ()) τ → τ.db = σ.db.expire began σ.nextAuditId (σ.unlocked i began)
  raises : ∀ e τ, Passes cat σ i began (.error e) τ → τ.db = σ.db
  again : ∀ τ ρ ρ' j, Passes cat σ i began (.ok ()) τ → ρ.db = τ.db → ρ.BeginsPass j began →
    (∀ r, ρ.store.owner r = none) → Passes cat ρ j began (.ok ()) ρ' →
      ρ'.db = ρ.db.expire began ρ.nextAuditId (σ.skipped i began) ∧ (ρ'.db = ρ.db ↔ σ.skipped i began = [])
  among : Reachable cat σ → ∀ c c' acts σ₁ υ τ bookings, step cat σ (.run i c) = some σ₁ →
    exec (step cat) σ₁ acts = some υ →
    υ.sessions[i]? = some ⟨began, .cleanup (.commit bookings)⟩ → step cat υ (.run i c') = some τ →
      (∀ b ∈ σ.unlocked i began, b ∈ υ.db.bookings) ∧ ∃ n, τ.db = υ.db.expire began n (σ.unlocked i began)

/-- For all tables under their primary key, all locks of other transactions, and every time. -/
theorem cleanup_pass {cat : Catalog} {σ : State} {i : Sid} {began : Time} (begins : σ.BeginsPass i began) :
    PassSpec cat σ i began := by
  constructor
  case commits => exact passes_of_begins begins cat
  case exact => exact fun τ h => h.knows begins
  case raises => exact fun e τ h => h.knows begins
  case again =>
    intro τ ρ ρ' j first hρ begins' unlocked second
    have hτ : τ.db = σ.db.expire began σ.nextAuditId (σ.unlocked i began) := first.knows begins
    have hρ' : ρ'.db = ρ.db.expire began ρ.nextAuditId (ρ.unlocked j began) := second.knows begins'
    have same : ρ.unlocked j began = σ.skipped i began := by
      rw [← filter_expire (n := σ.nextAuditId), ← hτ, ← hρ, State.unlocked]
      exact List.filter_congr fun b _ => by simp [Store.Free, unlocked]
    rw [hρ', same]
    exact ⟨rfl, expire_eq_self_iff⟩
  case among =>
    intro hr c c' acts σ₁ υ τ bookings scan run hυ commit
    exact commit_scanned hr begins.session scan run hυ commit

/-- A reservation whose time is over, and a pass that begins a microsecond later. -/
theorem cleanup_pass_expired : ∃ σ, Reachable sampleCatalog σ ∧ σ.unlocked 1 300000001 ≠ [] ∧
    PassSpec sampleCatalog σ 1 300000001 := by
  have hrun : (exec (step sampleCatalog) (.seeded 0) (.request (.create ⟨1, 20, 40, 50, none⟩) :: runs 0 9 60 ++
      [.tick 300000001, .request .cleanup])).any (fun σ : State => decide (σ.unlocked 1 300000001 ≠ []) &&
        decide (σ.sessions[1]? = some ⟨300000001, .cleanup .scan⟩) && decide (σ.store.pending 1 = [])) = true := by
          decide
  obtain ⟨σ, hσ, htest⟩ := reachable_of_run hrun
  simp only [Bool.and_eq_true, decide_eq_true_eq] at htest
  obtain ⟨⟨hb, hs⟩, hp⟩ := htest
  exact ⟨σ, hσ, hb, cleanup_pass ⟨hs, hp, (inv_of_reachableBy hσ).ids_nodup⟩⟩

/-- A payment holds the row of an expired reservation while the first pass runs; the second pass, at the same time,
    cancels it. -/
theorem second_pass_cancels : ¬∀ (cat : Catalog) (σ τ ρ ρ' : State) (i j : Sid) (began : Time), σ.BeginsPass i began →
    Passes cat σ i began (.ok ()) τ → ρ.db = τ.db → ρ.BeginsPass j began → (∀ r, ρ.store.owner r = none) →
    Passes cat ρ j began (.ok ()) ρ' → ρ'.db = ρ.db := by
  intro h
  have hrun : (exec (step sampleCatalog) (.seeded 0) (.request (.create ⟨1, 20, 40, 50, none⟩) :: runs 0 9 60 ++
      .request (.pay ⟨60, 1, 70, none⟩) :: runs 1 2 0 ++ [.tick 300000001, .request .cleanup])).any (fun σ : State =>
        decide (σ.sessions[2]? = some ⟨300000001, .cleanup .scan⟩) && decide (σ.store.pending 2 = []) &&
        (exec (step sampleCatalog) σ (runs 2 3 0)).any (fun τ : State =>
          decide (τ.sessions[2]? = some ⟨300000001, .cleanup (.finished (.ok ()))⟩) && decide (τ.now = 300000001) &&
          decide (τ.db.bookings.map (·.id)).Nodup &&
          (exec (step sampleCatalog) (τ.alone [.cleanup]) (runs 0 3 0)).any (fun ρ : State =>
            decide (ρ.sessions[0]? = some ⟨300000001, .cleanup (.finished (.ok ()))⟩) && decide (ρ.db ≠ τ.db)))) =
              true := by
    decide
  obtain ⟨σ, hσ, htest⟩ := reachable_of_run hrun
  simp only [Bool.and_eq_true, decide_eq_true_eq, Option.any_eq_true] at htest
  obtain ⟨⟨hs, hp⟩, τ, hτ, ⟨⟨hend, hnow⟩, key⟩, ρ, hρ, hend', hne⟩ := htest
  exact hne (h sampleCatalog σ τ (τ.alone [.cleanup]) ρ 2 0 300000001 ⟨hs, hp, (inv_of_reachableBy hσ).ids_nodup⟩
    (passes_of_runs hτ hend) rfl ⟨by simp [State.alone, hnow, Request.task], rfl,
      key⟩ (fun _ => rfl) (passes_of_runs hρ hend'))

end Railbook
