import Railbook.RateLimit.Limiter
import Mathlib.Data.List.Induction

/-! The limiter against its specification, which counts over the whole history of a key. Each call trims what is older
    than the window, and the key is gone a window after the last call; neither is missed, because the times of the
    calls increase. -/

namespace Railbook
open SortedSet

/-- The calls of a history whose time is in `(t - W, t]`. -/
def windowCount (history : List ℚ) (windowSeconds : Int) (t : ℚ) : Nat :=
  history.countP fun u => decide (t - windowSeconds < u) && decide (u ≤ t)

/-- The sliding window over a whole history, of which the call at `t` is the last. -/
def slidingWindow (history : List ℚ) (limit windowSeconds : Int) (t : ℚ) : RateLimitResult :=
  .of limit windowSeconds (some (windowCount (history ++ [t]) windowSeconds t))

/-- The calls on a key, in their order. -/
def CheckCall.on (key : String) (calls : List CheckCall) : List CheckCall := calls.filter (·.key = key)

/-- The calls on the key are those of one limit, at increasing times of one clock. -/
structure InOrder (key : String) (windowSeconds : Int) (calls : List CheckCall) : Prop where
  window : ∀ c ∈ CheckCall.on key calls, c.windowSeconds = windowSeconds
  clock : ∀ c ∈ CheckCall.on key calls, c.clock = c.now
  positive : ∀ c ∈ CheckCall.on key calls, 0 < c.now
  increasing : ((CheckCall.on key calls).map (·.now)).Pairwise (· < ·)

/-- What is stored under a key after a history of calls: those that are in the window of the last one, until that one
    leaves it. -/
def Tracks (windowSeconds : Int) (history : List ℚ) (k : Option (Key ℚ ℚ)) : Prop :=
  (history = [] ∧ k = none) ∨ ∃ u ∈ history, (∀ s ∈ history, s ≤ u) ∧
    k = some ⟨(history.filter fun s => u - windowSeconds < s).map fun s => (s, s), some (u + windowSeconds)⟩

section
variable {key : String} {limit windowSeconds : Int} {history : List ℚ} {k : Option (Key ℚ ℚ)} {t : ℚ} {redis : Keyspace}
  {calls : List CheckCall} {c : CheckCall}

/-! ### One call -/

/-- What a call finds after it has trimmed is the history in its window. -/
theorem Tracks.trimmed (h : Tracks windowSeconds history k) (pos : ∀ s ∈ history, 0 < s)
    (later : ∀ s ∈ history, s < t) :
    members (zremrangebyscore 0 (t - windowSeconds) (live t k)) =
      (history.filter fun s => t - windowSeconds < s).map fun s => (s, s) := by
  rw [members_zremrangebyscore]
  rcases h with ⟨rfl, rfl⟩ | ⟨u, hmem, hu, rfl⟩
  · rfl
  by_cases hgone : u + windowSeconds < t
  · -- The key is gone, and so is everything from the window.
    rw [live_of_lt hgone, members_none, List.filter_nil, eq_comm, List.map_eq_nil_iff, List.filter_eq_nil_iff]
    intro s hs hlt
    have hle := hu s hs
    have hlt : t - windowSeconds < s := of_decide_eq_true hlt
    linarith
  · rw [live_of_le hgone, members_some, List.filter_map, List.filter_filter]
    refine congrArg (List.map _) (List.filter_congr fun s hs => ?_)
    have hpos := pos s hs
    have hut := later u hmem
    rw [Function.comp, Bool.eq_iff_iff]
    simp only [Bool.and_eq_true, Bool.not_eq_true', Bool.and_eq_false_iff, decide_eq_true_eq,
      decide_eq_false_iff_not, not_le]
    constructor
    · rintro ⟨hneg | hlt, -⟩
      · linarith
      · exact hlt
    · intro hlt
      exact ⟨Or.inr hlt, by linarith⟩

theorem windowCount_snoc (later : ∀ s ∈ history, s < t) (hW : 0 < windowSeconds) :
    windowCount (history ++ [t]) windowSeconds t = (history.filter fun s => t - windowSeconds < s).length + 1 := by
  have hW : (0 : ℚ) < windowSeconds := by exact_mod_cast hW
  have hself : t - windowSeconds < t := by linarith
  have hcount : (history.countP fun u => decide (t - windowSeconds < u) && decide (u ≤ t)) =
      history.countP fun u => decide (t - windowSeconds < u) :=
    List.countP_congr fun u hu => by simp [le_of_lt (later u hu)]
  rw [windowCount, List.countP_append, hcount, List.countP_eq_length_filter]
  simp [hself]

/-- A call counts what the specification counts, and the key goes on as it should. -/
theorem Tracks.pipeline (h : Tracks windowSeconds history k) (pos : ∀ s ∈ history, 0 < s)
    (later : ∀ s ∈ history, s < c.now) (hW : 0 < windowSeconds) (hwindow : c.windowSeconds = windowSeconds)
    (hclock : c.clock = c.now) :
    (c.pipeline k).1 = windowCount (history ++ [c.now]) windowSeconds c.now ∧
      Tracks windowSeconds (history ++ [c.now]) (c.pipeline k).2 := by
  have hW' : (0 : ℚ) < windowSeconds := by exact_mod_cast hW
  have hself : c.now - windowSeconds < c.now := by linarith
  have hexpire : c.now < c.now + windowSeconds := by linarith
  have htrim := h.trimmed pos later
  have hadd : (zadd c.now c.now (zremrangebyscore 0 (c.now - windowSeconds) (live c.now k))).members =
      ((history ++ [c.now]).filter fun s => c.now - windowSeconds < s).map fun s => (s, s) := by
    -- The member is new: every stored one has an earlier time.
    have hnew : (((history.filter fun s => c.now - windowSeconds < s).map fun s => (s, s)).filter fun x =>
      x.1 ≠ c.now) =
        (history.filter fun s => c.now - windowSeconds < s).map fun s => (s, s) := by
      refine List.filter_eq_self.mpr fun x hx => ?_
      obtain ⟨s, hs, rfl⟩ := List.mem_map.mp hx
      exact decide_eq_true (ne_of_lt (later s (List.mem_of_mem_filter hs)))
    rw [zadd, htrim, hnew, List.filter_append, List.filter_singleton, decide_eq_true hself, cond_true, List.map_append,
      List.map_singleton]
  constructor
  · rw [windowCount_snoc later hW]
    simp only [CheckCall.pipeline, hwindow, hclock, zcard, members_some, hadd]
    simp [hself]
  · refine Or.inr ⟨c.now, by simp, fun s hs => ?_, ?_⟩
    · rcases List.mem_append.mp hs with hs | hs
      · exact le_of_lt (later s hs)
      · exact le_of_eq (List.mem_singleton.mp hs)
    · simp only [CheckCall.pipeline, hwindow, hclock, expire, if_pos hexpire, hadd]

/-! ### Runs -/

theorem RateLimiter.after_snoc : after redis (calls ++ [c]) = (check (after redis calls) c).2 := by
  rw [after, List.foldl_append]
  rfl

theorem RateLimiter.check_answer :
    (check redis c).1 = .of c.limit c.windowSeconds (some (c.pipeline (redis c.key)).1) := rfl

theorem RateLimiter.check_self : (check redis c).2 c.key = (c.pipeline (redis c.key)).2 := Function.update_self ..

theorem RateLimiter.check_ne (h : c.key ≠ key) : (check redis c).2 key = redis key := Function.update_of_ne h.symm ..

theorem CheckCall.on_snoc_self (h : c.key = key) : on key (calls ++ [c]) = on key calls ++ [c] := by
  simp [on, h]

theorem CheckCall.on_snoc_ne (h : c.key ≠ key) : on key (calls ++ [c]) = on key calls := by
  simp [on, h]

theorem InOrder.dropLast (h : InOrder key windowSeconds (calls ++ [c])) : InOrder key windowSeconds calls := by
  have hsub : (CheckCall.on key calls).Sublist (CheckCall.on key (calls ++ [c])) :=
    (List.sublist_append_left calls [c]).filter _
  exact ⟨fun x hx => h.window x (hsub.subset hx), fun x hx => h.clock x (hsub.subset hx),
    fun x hx => h.positive x (hsub.subset hx), h.increasing.sublist (hsub.map _)⟩

theorem InOrder.later (h : InOrder key windowSeconds (calls ++ [c])) (hkey : c.key = key) :
    ∀ s ∈ (CheckCall.on key calls).map (·.now), s < c.now := by
  have hinc := h.increasing
  rw [CheckCall.on_snoc_self hkey, List.map_append, List.pairwise_append] at hinc
  intro s hs
  exact hinc.2.2 s hs c.now (by simp)

theorem InOrder.pos (h : InOrder key windowSeconds calls) : ∀ s ∈ (CheckCall.on key calls).map (·.now), 0 < s := by
  intro s hs
  obtain ⟨x, hx, rfl⟩ := List.mem_map.mp hs
  exact h.positive x hx

theorem InOrder.tracks (h : InOrder key windowSeconds calls) (hW : 0 < windowSeconds) (absent : redis key = none) :
    Tracks windowSeconds ((CheckCall.on key calls).map (·.now)) (RateLimiter.after redis calls key) := by
  induction calls using List.reverseRecOn with
  | nil => exact Or.inl ⟨rfl, absent⟩
  | append_singleton calls c ih =>
    have ih := ih h.dropLast
    rw [RateLimiter.after_snoc]
    by_cases hkey : c.key = key
    · have hmem : c ∈ CheckCall.on key (calls ++ [c]) := by simp [CheckCall.on, hkey]
      have hstep := ih.pipeline h.dropLast.pos (h.later hkey) hW (h.window c hmem) (h.clock c hmem)
      rw [CheckCall.on_snoc_self hkey, List.map_append, ← hkey, RateLimiter.check_self, hkey]
      exact hstep.2
    · rw [CheckCall.on_snoc_ne hkey, RateLimiter.check_ne hkey]
      exact ih

/-- The answer to a call is the one of the specification. -/
theorem InOrder.answer (h : InOrder key windowSeconds (calls ++ [c])) (hkey : c.key = key) (hW : 0 < windowSeconds)
    (absent : redis key = none) : (RateLimiter.check (RateLimiter.after redis calls) c).1 =
      slidingWindow ((CheckCall.on key calls).map (·.now)) c.limit windowSeconds c.now := by
  have hmem : c ∈ CheckCall.on key (calls ++ [c]) := by simp [CheckCall.on, hkey]
  have hstep := (h.dropLast.tracks hW absent).pipeline h.dropLast.pos (h.later hkey) hW (h.window c hmem)
    (h.clock c hmem)
  rw [RateLimiter.check_answer, slidingWindow, hkey, hstep.1, h.window c hmem]

theorem RateLimitResult.allowed_of {n : Nat} : (RateLimitResult.of limit windowSeconds (some n)).allowed = true ↔
    (n : Int) ≤ limit := by
  simp only [RateLimitResult.of]
  split <;> rename_i h <;> simp <;> omega

theorem RateLimitResult.remaining_of {n : Nat} (h : (RateLimitResult.of limit windowSeconds (some n)).allowed = true) :
    (RateLimitResult.of limit windowSeconds (some n)).remaining = limit - n := by
  have hle := RateLimitResult.allowed_of.mp h
  rw [RateLimitResult.of, if_neg (by omega)]

theorem RateLimit.depends_error_iff {l : RateLimit} {result : RateLimitResult} :
    (∃ e, l.depends result = .error e) ↔ result.allowed = false := by
  rw [RateLimit.depends]
  cases result.allowed <;> simp

/-- A request is rejected by a dependency when more calls than its limit are in its window, itself included. -/
theorem RateLimit.rejects_iff {l : RateLimit} {subject : String}
    (hl : l ∈ [rateLimitBooking, rateLimitPayment, rateLimitAuth]) (absent : redis (l.keyPrefix ++ subject) = none)
    (inOrder : InOrder (l.keyPrefix ++ subject) l.windowSeconds (calls ++ [l.call subject t t])) :
    (∃ e, l.depends (RateLimiter.check (RateLimiter.after redis calls) (l.call subject t t)).1 = .error e) ↔
      l.limit < windowCount ((CheckCall.on (l.keyPrefix ++ subject) calls).map (·.now) ++ [t]) l.windowSeconds t := by
  have hW : 0 < l.windowSeconds := by
    simp only [List.mem_cons, List.not_mem_nil, or_false] at hl
    rcases hl with rfl | rfl | rfl <;> decide
  have hanswer := inOrder.answer rfl hW absent
  rw [RateLimit.depends_error_iff, hanswer, Bool.eq_false_iff, ne_eq, slidingWindow, RateLimitResult.allowed_of, not_le]
  rfl

/-- The answer to a call is decided by how many calls of the whole history of its key are in its window. -/
theorem check_refines (absent : redis key = none) (hW : 1 ≤ windowSeconds)
    (inOrder : InOrder key windowSeconds (calls ++ [c])) (hkey : c.key = key) :
    ((RateLimiter.check (RateLimiter.after redis calls) c).1.allowed = true ↔
        (windowCount ((CheckCall.on key (calls ++ [c])).map (·.now)) windowSeconds c.now : Int) ≤ c.limit) ∧
      ((RateLimiter.check (RateLimiter.after redis calls) c).1.allowed = true →
        (RateLimiter.check (RateLimiter.after redis calls) c).1.remaining =
          c.limit - windowCount ((CheckCall.on key (calls ++ [c])).map (·.now)) windowSeconds c.now) := by
  rw [inOrder.answer hkey (by omega) absent, CheckCall.on_snoc_self hkey, List.map_append, List.map_singleton,
    slidingWindow]
  exact ⟨RateLimitResult.allowed_of, RateLimitResult.remaining_of⟩

/-- Two calls of a minute are allowed. The call at 61 finds one of the two before it: the window has just left
    the other. -/
theorem check_refines_edge : InOrder "rl" 60 [⟨"rl", 2, 60, 1, 1⟩, ⟨"rl", 2, 60, 2, 2⟩, ⟨"rl", 2, 60, 61, 61⟩] ∧
    ((RateLimiter.check (RateLimiter.after (fun _ => none) [⟨"rl", 2, 60, 1, 1⟩, ⟨"rl", 2, 60, 2, 2⟩])
        ⟨"rl", 2, 60, 61, 61⟩).1.allowed = true ↔ ((2 : Nat) : Int) ≤ 2) ∧
      ((RateLimiter.check (RateLimiter.after (fun _ => none) [⟨"rl", 2, 60, 1, 1⟩, ⟨"rl", 2, 60, 2, 2⟩])
        ⟨"rl", 2, 60, 61, 61⟩).1.allowed = true →
        (RateLimiter.check (RateLimiter.after (fun _ => none) [⟨"rl", 2, 60, 1, 1⟩, ⟨"rl", 2, 60, 2, 2⟩])
          ⟨"rl", 2, 60, 61, 61⟩).1.remaining = 2 - ((2 : Nat) : Int)) := by
  have hcalls : InOrder "rl" 60 ([⟨"rl", 2, 60, 1, 1⟩, ⟨"rl", 2, 60, 2, 2⟩] ++ [⟨"rl", 2, 60, 61, 61⟩]) :=
    ⟨by decide, by decide, by decide, by decide⟩
  have absent : (fun _ => none : Keyspace) "rl" = none := rfl
  have hcount : windowCount
    ((CheckCall.on "rl" ([⟨"rl", 2, 60, 1, 1⟩, ⟨"rl", 2, 60, 2, 2⟩] ++ [⟨"rl", 2, 60, 61, 61⟩])).map
      (·.now)) 60 61 = 2 := by decide +kernel
  refine ⟨hcalls, ?_⟩
  rw [← hcount]
  exact check_refines absent (by decide) hcalls rfl

end

end Railbook
