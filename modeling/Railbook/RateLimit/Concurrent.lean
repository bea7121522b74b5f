import Railbook.RateLimit.SlidingWindow
import Mathlib.Algebra.Order.Group.Abs
import Mathlib.Data.List.Perm.Subperm

/-! The limiter under concurrency. A call reads its time before it reaches the server, so the times of the calls can
    be equal and come out of order. Calls with one time are one member of the set, and a call that trims by a late
    time takes away what an earlier one has yet to count. -/

namespace Railbook
open SortedSet

/-- The calls leave a member with score `s` where it is: none has a time from which on it trims the member, and each
    reaches the server before the key is gone, at first at `gone`. -/
def Spares (windowSeconds : Int) (s : ℚ) : ℚ → List CheckCall → Prop
  | _, [] => True
  | gone, m :: later =>
    m.clock ≤ gone ∧ m.now < s + windowSeconds ∧ Spares windowSeconds s (m.clock + windowSeconds) later

/-- Of two calls less than a window apart the later one has another time, and the calls up to it leave the member of the
    earlier one where it is. -/
def CheckCall.InTime (windowSeconds : Int) (calls : List CheckCall) : Prop :=
  ∀ pre c mid d post, calls = pre ++ c :: (mid ++ d :: post) → |c.now - d.now| < (windowSeconds : ℚ) →
    c.now ≠ d.now ∧ Spares windowSeconds c.now (c.clock + windowSeconds) (mid ++ [d])

/-- The call is one on the key, with its time in `(t - W, t]`. -/
def CheckCall.isWithin (c : CheckCall) (key : String) (windowSeconds : Int) (t : ℚ) : Bool :=
  decide (c.key = key) && (decide (t - windowSeconds < c.now) && decide (c.now ≤ t))

/-- The calls of a window that are allowed. -/
def allowedCount (answers : List (CheckCall × RateLimitResult)) (key : String) (windowSeconds : Int) (t : ℚ) : Nat :=
  answers.countP fun a => a.2.allowed && a.1.isWithin key windowSeconds t

/-- At most `limit` calls of every window are allowed, and none if `limit` is negative. -/
def Enforced (answers : List (CheckCall × RateLimitResult)) (key : String) (limit windowSeconds : Int) : Prop :=
  ∀ t : ℚ, (allowedCount answers key windowSeconds t : Int) ≤ max limit 0

section
variable {key : String} {limit windowSeconds : Int} {k : Key ℚ ℚ} {s t gone : ℚ} {redis : Keyspace}
  {calls mid : List CheckCall} {c d m : CheckCall}

/-! ### What is stored -/

/-- A call finds a member that it does not trim, if it is in time. -/
theorem mem_trimmed (hmem : (s, s) ∈ k.members) (hgone : k.expiresAt = some gone) (intime : c.clock ≤ gone)
    (hlate : c.now < s + c.windowSeconds) :
    (s, s) ∈ members (zremrangebyscore 0 (c.now - c.windowSeconds) (live c.clock (some k))) := by
  obtain ⟨ms, e⟩ := k
  obtain rfl : e = some gone := hgone
  rw [members_zremrangebyscore, live_of_le (not_lt.mpr intime), members_some, List.mem_filter]
  refine ⟨hmem, ?_⟩
  have hnot : ¬s ≤ c.now - c.windowSeconds := by linarith
  simp [hnot]

theorem mem_zadd {k : Option (Key ℚ ℚ)} (h : (s, s) ∈ members k) : (s, s) ∈ (zadd t t k).members := by
  rw [zadd, List.mem_append, List.mem_filter, List.mem_singleton]
  by_cases hst : s = t
  · exact Or.inr (by rw [hst])
  · exact Or.inl ⟨h, decide_eq_true hst⟩

/-- A member with its score is stored, under a key that stays until `gone`. -/
def Stored (k : Option (Key ℚ ℚ)) (s gone : ℚ) : Prop := ∃ x, k = some x ∧ (s, s) ∈ x.members ∧ x.expiresAt = some gone

theorem stored_of_mem (hW : 0 < c.windowSeconds) {k : Option (Key ℚ ℚ)}
    (h : (s, s) ∈ (zadd c.now c.now (zremrangebyscore 0 (c.now - c.windowSeconds) (live c.clock k))).members) :
    Stored (c.pipeline k).2 s (c.clock + c.windowSeconds) := by
  have hW : (0 : ℚ) < c.windowSeconds := by exact_mod_cast hW
  have hlt : c.clock < c.clock + c.windowSeconds := by linarith
  exact ⟨_, if_pos hlt, h, rfl⟩

/-- A call stores its own time. -/
theorem stored_self (hW : 0 < c.windowSeconds) (k : Option (Key ℚ ℚ)) :
    Stored (c.pipeline k).2 c.now (c.clock + c.windowSeconds) :=
  stored_of_mem hW (by rw [zadd, List.mem_append]; exact Or.inr (List.mem_singleton_self _))

theorem Stored.pipeline {k : Option (Key ℚ ℚ)} (h : Stored k s gone) (hW : 0 < c.windowSeconds)
    (intime : c.clock ≤ gone) (hlate : c.now < s + c.windowSeconds) :
    Stored (c.pipeline k).2 s (c.clock + c.windowSeconds) := by
  obtain ⟨x, rfl, hmem, hgone⟩ := h
  exact stored_of_mem hW (mem_zadd (mem_trimmed hmem hgone intime hlate))

theorem RateLimiter.after_cons : after redis (c :: calls) = after (check redis c).2 calls := rfl

theorem RateLimiter.after_append {calls' : List CheckCall} :
    after redis (calls ++ calls') = after (after redis calls) calls' :=
  List.foldl_append

/-- Calls that leave a member where it is leave it so up to the call that follows them. -/
theorem Stored.after (h : Stored (redis key) s gone) (hW : 0 < windowSeconds)
    (hwindow : ∀ m ∈ CheckCall.on key mid, m.windowSeconds = windowSeconds)
    (spares : Spares windowSeconds s gone (CheckCall.on key mid ++ [d])) :
    ∃ gone', Stored (RateLimiter.after redis mid key) s gone' ∧ d.clock ≤ gone' ∧ d.now < s + windowSeconds := by
  induction mid generalizing redis gone with
  | nil => exact ⟨gone, h, spares.1, spares.2.1⟩
  | cons m mid ih =>
    rw [RateLimiter.after_cons]
    by_cases hkey : m.key = key
    · have hon : CheckCall.on key (m :: mid) = m :: CheckCall.on key mid := by simp [CheckCall.on, hkey]
      rw [hon] at hwindow spares
      have hm : m.windowSeconds = windowSeconds := hwindow m List.mem_cons_self
      obtain ⟨intime, hlate, spares⟩ := spares
      refine ih ?_ (fun x hx => hwindow x (List.mem_cons_of_mem _ hx)) spares
      subst hm
      rw [← hkey] at h ⊢
      rw [RateLimiter.check_self]
      exact h.pipeline hW intime hlate
    · have hon : CheckCall.on key (m :: mid) = CheckCall.on key mid := by simp [CheckCall.on, hkey]
      rw [hon] at hwindow spares
      refine ih ?_ hwindow spares
      rw [RateLimiter.check_ne hkey]
      exact h

/-! ### What a call counts -/

theorem CheckCall.InTime.dropLast (h : CheckCall.InTime windowSeconds (calls ++ [d])) :
    CheckCall.InTime windowSeconds calls := by
  intro pre c mid d' post he
  exact h pre c mid d' (post ++ [d]) (by rw [he]; simp)

/-- The last call on the key finds every earlier one that is less than a window away, under another time. -/
theorem CheckCall.InTime.found (h : CheckCall.InTime windowSeconds (CheckCall.on key (calls ++ [d])))
    (hW : 0 < windowSeconds) (hwindow : ∀ m ∈ CheckCall.on key (calls ++ [d]), m.windowSeconds = windowSeconds)
    (hd : d.key = key) (hc : c ∈ calls) (hkey : c.key = key) (near : |c.now - d.now| < windowSeconds) :
    c.now ≠ d.now ∧
      (c.now, c.now) ∈ members
      (zremrangebyscore 0 (d.now - d.windowSeconds) (live d.clock (RateLimiter.after redis calls key))) := by
  obtain ⟨pre, mid, rfl⟩ := List.append_of_mem hc
  have hon : CheckCall.on key ((pre ++ c :: mid) ++ [d]) = CheckCall.on key pre ++
    c :: (CheckCall.on key mid ++ d :: []) := by
    simp [CheckCall.on, hkey, hd]
  obtain ⟨hne, spares⟩ := h _ c _ d [] hon near
  refine ⟨hne, ?_⟩
  rw [hon] at hwindow
  have hcW : c.windowSeconds = windowSeconds := hwindow c (by simp)
  have hdW : d.windowSeconds = windowSeconds := hwindow d (by simp)
  have hself : Stored ((RateLimiter.check (RateLimiter.after redis pre) c).2 key) c.now (c.clock + windowSeconds) := by
    rw [← hkey, RateLimiter.check_self, ← hcW]
    exact stored_self (by omega) _
  obtain ⟨gone', hstored, intime, hlate⟩ := hself.after hW (fun m hm => hwindow m (by simp [hm])) spares
  rw [RateLimiter.after_append, RateLimiter.after_cons]
  obtain ⟨x, hx, hmem, hgone⟩ := hstored
  rw [hx]
  exact mem_trimmed hmem hgone intime (by rw [hdW]; exact hlate)

theorem RateLimiter.answers_snoc : answers redis (calls ++ [c]) = answers redis calls ++
    [(c, (check (after redis calls) c).1)] := by
  induction calls generalizing redis with
  | nil => rfl
  | cons x calls ih =>
    rw [List.cons_append, answers, ih, answers, after_cons, List.cons_append]

theorem RateLimiter.map_answers : (answers redis calls).map (·.1) = calls := by
  induction calls generalizing redis with
  | nil => rfl
  | cons x calls ih => rw [answers, List.map_cons, ih]

theorem near_of_isWithin (hc : c.isWithin key windowSeconds t = true) (hd : d.isWithin key windowSeconds t = true) :
    |c.now - d.now| < (windowSeconds : ℚ) := by
  simp only [CheckCall.isWithin, Bool.and_eq_true, decide_eq_true_eq] at hc hd
  rw [abs_lt]
  constructor <;> linarith [hc.2.1, hc.2.2, hd.2.1, hd.2.2]

theorem CheckCall.InTime.times_nodup (h : CheckCall.InTime windowSeconds (CheckCall.on key calls)) :
    ((calls.filter fun c => c.isWithin key windowSeconds t).map (·.now)).Nodup := by
  have hsub : (calls.filter fun c => c.isWithin key windowSeconds t) =
      (CheckCall.on key calls).filter fun c => c.isWithin key windowSeconds t := by
    rw [CheckCall.on, List.filter_filter]
    refine List.filter_congr fun c _ => ?_
    by_cases hkey : c.key = key <;> simp [CheckCall.isWithin, hkey]
  rw [hsub]
  generalize CheckCall.on key calls = own at h
  induction own with
  | nil => exact List.nodup_nil
  | cons c own ih =>
    have htail : CheckCall.InTime windowSeconds own := fun pre c' mid d post he => h (c :: pre) c' mid d post
      (by rw [he]; rfl)
    rw [List.filter_cons]
    split
    · rename_i hc
      rw [List.map_cons, List.nodup_cons]
      refine ⟨fun hmem => ?_, ih htail⟩
      obtain ⟨d, hd, he⟩ := List.mem_map.mp hmem
      obtain ⟨hd, hwithin⟩ := List.mem_filter.mp hd
      obtain ⟨mid, post, rfl⟩ := List.append_of_mem hd
      exact (h [] c mid d post rfl (near_of_isWithin hc hwithin)).1 he.symm
    · exact ih htail

theorem key_of_isWithin (h : c.isWithin key windowSeconds t = true) : c.key = key := by
  simp only [CheckCall.isWithin, Bool.and_eq_true, decide_eq_true_eq] at h
  exact h.1

theorem allowedCount_le : allowedCount (RateLimiter.answers redis calls) key windowSeconds t ≤
    ((calls.filter fun c => c.isWithin key windowSeconds t).map (·.now)).length := by
  have hmap : ((RateLimiter.answers redis calls).map (·.1)).countP (fun c => c.isWithin key windowSeconds t) =
      (RateLimiter.answers redis calls).countP fun a => a.1.isWithin key windowSeconds t := List.countP_map
  rw [RateLimiter.map_answers] at hmap
  rw [List.length_map, ← List.countP_eq_length_filter, hmap, allowedCount]
  exact List.countP_mono_left fun a _ ha => (Bool.and_eq_true_iff.mp ha).2

/-- Different times that are all members of a set, each with itself for a score, are no more than its members. -/
theorem length_le_of_members {times : List ℚ} {found : List (ℚ × ℚ)} (hnodup : times.Nodup)
    (hfound : ∀ x ∈ times, (x, x) ∈ found) : times.length ≤ found.length := by
  have hsub : times.map (fun x => (x, x)) ⊆ found := by
    intro m hm
    obtain ⟨x, hx, rfl⟩ := List.mem_map.mp hm
    exact hfound x hx
  have hnodup : (times.map fun x => (x, x)).Nodup := hnodup.map fun x y hxy => (Prod.mk.inj hxy).1
  have hle := (List.subperm_of_subset hnodup hsub).length_le
  rwa [List.length_map] at hle

/-- A call of a window counts every earlier call of it that was allowed, and itself. -/
theorem CheckCall.InTime.count_le (h : CheckCall.InTime windowSeconds (CheckCall.on key (calls ++ [d])))
    (hwindow : ∀ m ∈ CheckCall.on key (calls ++ [d]), m.windowSeconds = windowSeconds) (hW : 0 < windowSeconds)
    (hd : d.isWithin key windowSeconds t = true) :
    allowedCount (RateLimiter.answers redis calls) key windowSeconds t + 1 ≤
      (d.pipeline (RateLimiter.after redis calls key)).1 := by
  have hkey : d.key = key := key_of_isWithin hd
  have hinit : CheckCall.InTime windowSeconds (CheckCall.on key calls) := by
    rw [CheckCall.on_snoc_self hkey] at h
    exact h.dropLast
  -- What the call finds, and itself.
  let found := members (zremrangebyscore 0 (d.now - d.windowSeconds) (live d.clock (RateLimiter.after redis calls key)))
  have hfound : ∀ x ∈ (calls.filter fun c => c.isWithin key windowSeconds t).map (·.now),
      (x, x) ∈ found.filter fun m => m.1 ≠ d.now := by
    intro x hx
    obtain ⟨c, hc, rfl⟩ := List.mem_map.mp hx
    obtain ⟨hc, hwithin⟩ := List.mem_filter.mp hc
    obtain ⟨hne, hmem⟩ := h.found hW hwindow hkey hc (key_of_isWithin hwithin) (near_of_isWithin hwithin hd)
    exact List.mem_filter.mpr ⟨hmem, decide_eq_true hne⟩
  have hcount : (d.pipeline (RateLimiter.after redis calls key)).1 =
    (found.filter fun m => m.1 ≠ d.now).length + 1 := by
    show ((found.filter fun m => m.1 ≠ d.now) ++ [(d.now, d.now)]).length = _
    rw [List.length_append, List.length_singleton]
  rw [hcount]
  exact Nat.succ_le_succ (allowedCount_le.trans (length_le_of_members hinit.times_nodup hfound))

/-- When the calls on a key are in time, at most `limit` of them are allowed in every window. -/
theorem limit_enforced (redis : Keyspace)
    (hcalls : ∀ c ∈ CheckCall.on key calls, c.limit = limit ∧ c.windowSeconds = windowSeconds)
    (inTime : CheckCall.InTime windowSeconds (CheckCall.on key calls)) :
    Enforced (RateLimiter.answers redis calls) key limit windowSeconds := by
  intro t
  induction calls using List.reverseRecOn with
  | nil => exact le_max_right limit 0
  | append_singleton calls d ih =>
    have hsub : CheckCall.on key calls ⊆ CheckCall.on key (calls ++ [d]) :=
      ((List.sublist_append_left calls [d]).filter _).subset
    have hinit : CheckCall.InTime windowSeconds (CheckCall.on key calls) := by
      by_cases hkey : d.key = key
      · rw [CheckCall.on_snoc_self hkey] at inTime
        exact inTime.dropLast
      · rwa [CheckCall.on_snoc_ne hkey] at inTime
    have ih := ih (fun c hc => hcalls c (hsub hc)) hinit
    rw [RateLimiter.answers_snoc, allowedCount, List.countP_append, List.countP_singleton]
    by_cases hd : ((RateLimiter.check (RateLimiter.after redis calls) d).1.allowed &&
      d.isWithin key windowSeconds t) = true
    · obtain ⟨hallowed, hwithin⟩ := Bool.and_eq_true_iff.mp hd
      rw [if_pos hd]
      simp only [CheckCall.isWithin, Bool.and_eq_true, decide_eq_true_eq] at hwithin
      obtain ⟨hkey, hlo, hhi⟩ := hwithin
      have hW : 0 < windowSeconds := by
        have hW : (0 : ℚ) < windowSeconds := by linarith
        exact_mod_cast hW
      have hmem : d ∈ CheckCall.on key (calls ++ [d]) := by simp [CheckCall.on, hkey]
      have hcount : allowedCount (RateLimiter.answers redis calls) key windowSeconds t + 1 ≤
          (d.pipeline (RateLimiter.after redis calls key)).1 :=
        inTime.count_le (fun m hm => (hcalls m hm).2) hW (Bool.and_eq_true_iff.mp hd).2
      rw [RateLimiter.check_answer, hkey, RateLimitResult.allowed_of, (hcalls d hmem).1] at hallowed
      rw [allowedCount] at hcount
      have hmax := le_max_left limit 0
      push_cast
      omega
    · rw [if_neg hd, Nat.add_zero]
      exact ih

/-- Two calls that reach the server in the order that their times do not have: one of them is allowed. -/
theorem limit_enforced_swapped : (RateLimiter.answers (fun _ => none) [⟨"rl", 1, 60, 3, 4⟩, ⟨"rl", 1, 60, 2, 5⟩]).map
    (·.2.allowed) =
      [true, false] ∧
    Enforced (RateLimiter.answers (fun _ => none) [⟨"rl", 1, 60, 3, 4⟩, ⟨"rl", 1, 60, 2, 5⟩]) "rl" 1 60 := by
  refine ⟨by decide +kernel, limit_enforced _ (by decide) ?_⟩
  intro pre c mid d post he _
  have hon : CheckCall.on "rl" [⟨"rl", 1, 60, 3, 4⟩, ⟨"rl", 1, 60, 2, 5⟩] =
    [⟨"rl", 1, 60, 3, 4⟩, ⟨"rl", 1, 60, 2, 5⟩] := by decide
  rw [hon] at he
  obtain ⟨rfl, rfl, rfl⟩ : c = ⟨"rl", 1, 60, 3, 4⟩ ∧ mid = [] ∧ d = ⟨"rl", 1, 60, 2, 5⟩ := by
    rcases pre with _ | ⟨x, _ | ⟨y, pre⟩⟩ <;> rcases mid with _ | ⟨z, mid⟩ <;> simp_all
  refine ⟨by decide, by decide +kernel, by decide +kernel, trivial⟩

/-- One call in a minute is allowed. Two calls read the same time: they are one member of the set, and both
    are allowed. -/
theorem limit_exceeded : ¬∀ (redis : Keyspace) (key : String) (limit windowSeconds : Int) (calls : List CheckCall),
    redis key = none → (∀ c ∈ CheckCall.on key calls, c.limit = limit ∧ c.windowSeconds = windowSeconds) →
    (∀ c ∈ calls, c.now ≤ c.clock) → (calls.map (·.clock)).Pairwise (· ≤ ·) →
    Enforced (RateLimiter.answers redis calls) key limit windowSeconds := by
  intro h
  have hboth := h (fun _ => none) "rl" 1 60 [⟨"rl", 1, 60, 5, 5⟩, ⟨"rl", 1, 60, 5, 6⟩] rfl (by decide)
    (by decide) (by decide) 5
  have hcount : allowedCount (RateLimiter.answers (fun _ => none) [⟨"rl", 1, 60, 5, 5⟩, ⟨"rl", 1, 60, 5, 6⟩]) "rl"
    60 5 = 2 := by
    decide +kernel
  rw [hcount] at hboth
  exact absurd hboth (by decide)

/-- Two calls in a minute are allowed. A call at 71 trims those at 10 and 11, and then a call that has read 20 is
    allowed, the third one of its minute. -/
example : allowedCount (RateLimiter.answers (fun _ => none) [⟨"rl", 2, 60, 10, 10⟩, ⟨"rl", 2, 60, 11, 11⟩,
  ⟨"rl", 2, 60, 71, 71⟩, ⟨"rl", 2, 60, 20, 72⟩]) "rl" 60 20 = 3 := by decide +kernel

end

end Railbook
