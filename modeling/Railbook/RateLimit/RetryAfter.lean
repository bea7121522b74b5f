import Railbook.RateLimit.SlidingWindow

/-! When a rejected caller may come back. The limiter always names the whole window; after that time one call is in
    it. How much of the window has to pass depends on how the calls lie in it. -/

namespace Railbook
open SortedSet

/-- With no call in between, a call on the key is allowed from `n` seconds after `t` on. -/
def AllowedFrom (redis : Keyspace) (key : String) (limit windowSeconds : Int) (t : ℚ) (n : Int) : Prop :=
  ∀ s : ℚ, 0 < s → n ≤ s → (RateLimiter.check redis ⟨key, limit, windowSeconds, t + s, t + s⟩).1.allowed = true

/-- The answer `retryAfter` is enough, and the least number of seconds that is. -/
structure RetryExact (redis : Keyspace) (key : String) (limit windowSeconds : Int) (t : ℚ)
    (retryAfter : Int) : Prop where
  enough : AllowedFrom redis key limit windowSeconds t retryAfter
  least : ∀ n : ℕ, AllowedFrom redis key limit windowSeconds t n → retryAfter ≤ n

section
variable {key : String} {limit windowSeconds : Int} {history : List ℚ} {t : ℚ} {redis : Keyspace}
  {calls : List CheckCall} {c : CheckCall}

/-! ### A window that is no window -/

theorem expire_of_nonpos (h : c.windowSeconds ≤ 0) (k : Option (Key ℚ ℚ)) : (c.pipeline k).2 = none := by
  have hle : (c.windowSeconds : ℚ) ≤ 0 := by exact_mod_cast h
  simp only [CheckCall.pipeline, expire]
  exact if_neg (by linarith)

/-- Without a window every call deletes the key, so it counts itself only. -/
theorem absent_of_nonpos (hW : windowSeconds ≤ 0)
    (hwindow : ∀ x ∈ CheckCall.on key calls, x.windowSeconds = windowSeconds)
    (absent : redis key = none) : RateLimiter.after redis calls key = none := by
  induction calls using List.reverseRecOn with
  | nil => exact absent
  | append_singleton calls c ih =>
    have ih := ih fun x hx =>
      hwindow x (by simp only [CheckCall.on, List.filter_append, List.mem_append] at hx ⊢; exact Or.inl hx)
    rw [RateLimiter.after_snoc]
    by_cases hkey : c.key = key
    · have hc := hwindow c (by simp [CheckCall.on, hkey])
      rw [← hkey, RateLimiter.check_self]
      exact expire_of_nonpos (by omega) _
    · rw [RateLimiter.check_ne hkey]
      exact ih

theorem window_pos_of_rejected (inOrder : InOrder key windowSeconds (calls ++ [c])) (hkey : c.key = key)
    (absent : redis key = none) (hlimit : 1 ≤ c.limit)
    (rejected : (RateLimiter.check (RateLimiter.after redis calls) c).1.allowed = false) :
    0 < windowSeconds := by
  by_contra hW
  have hnone := absent_of_nonpos (by omega) inOrder.dropLast.window absent
  have hcount : (c.pipeline none).1 = 1 := rfl
  rw [RateLimiter.check_answer, hkey, hnone, hcount, Bool.eq_false_iff] at rejected
  exact rejected (RateLimitResult.allowed_of.mpr (by omega))

/-! ### The next call -/

theorem InOrder.le_last (h : InOrder key windowSeconds (calls ++ [c])) (hkey : c.key = key) :
    ∀ u ∈ (CheckCall.on key (calls ++ [c])).map (·.now), u ≤ c.now := by
  intro u hu
  rw [CheckCall.on_snoc_self hkey, List.map_append, List.mem_append] at hu
  rcases hu with hu | hu
  · exact le_of_lt (h.later hkey u hu)
  · exact le_of_eq (List.mem_singleton.mp hu)

theorem InOrder.next (h : InOrder key windowSeconds (calls ++ [c])) (hkey : c.key = key) {s : ℚ} (hs : 0 < s) :
    InOrder key windowSeconds ((calls ++ [c]) ++ [⟨key, limit, windowSeconds, c.now + s, c.now + s⟩]) := by
  have hon : CheckCall.on key ((calls ++ [c]) ++ [⟨key, limit, windowSeconds, c.now + s, c.now + s⟩]) =
      CheckCall.on key (calls ++ [c]) ++ [⟨key, limit, windowSeconds, c.now + s, c.now + s⟩] :=
        CheckCall.on_snoc_self rfl
  have hself : c ∈ CheckCall.on key (calls ++ [c]) := by simp [CheckCall.on, hkey]
  have hpos := h.positive c hself
  refine ⟨?_, ?_, ?_, ?_⟩
  · rw [hon]
    exact List.forall_mem_append.mpr ⟨h.window, by simp⟩
  · rw [hon]
    exact List.forall_mem_append.mpr ⟨h.clock, by simp⟩
  · rw [hon]
    refine List.forall_mem_append.mpr ⟨h.positive, fun x hx => ?_⟩
    rw [List.mem_singleton.mp hx]
    show 0 < c.now + s
    linarith
  · rw [hon, List.map_append, List.pairwise_append]
    refine ⟨h.increasing, by simp, fun u hu v hv => ?_⟩
    rw [List.map_singleton, List.mem_singleton] at hv
    have := h.le_last hkey u hu
    rw [hv]
    linarith

/-- The next call is allowed when the calls that are still in its window leave it room. -/
theorem next_allowed_iff (h : InOrder key windowSeconds (calls ++ [c])) (hkey : c.key = key) (hW : 0 < windowSeconds)
    (absent : redis key = none) {s : ℚ} (hs : 0 < s) :
    (RateLimiter.check (RateLimiter.after redis (calls ++ [c]))
        ⟨key, limit, windowSeconds, c.now + s, c.now + s⟩).1.allowed = true ↔
      (((CheckCall.on key (calls ++ [c])).map (·.now)).countP fun u => c.now + s - windowSeconds < u) + 1 ≤ limit := by
  have hnext : InOrder key windowSeconds ((calls ++ [c]) ++ [⟨key, limit, windowSeconds, c.now + s, c.now + s⟩]) :=
    h.next hkey hs
  rw [hnext.answer rfl hW absent, slidingWindow, RateLimitResult.allowed_of, windowCount_snoc (hnext.later rfl) hW,
    ← List.countP_eq_length_filter]
  push_cast
  rfl

/-- Just after a time a finite history is as it is at it. -/
theorem exists_gap (history : List ℚ) (x : ℚ) : ∃ ε > 0, ∀ u ∈ history, x < u → x + ε < u := by
  induction history with
  | nil => exact ⟨1, by norm_num, fun u hu => by cases hu⟩
  | cons v history ih =>
    obtain ⟨ε, hε, h⟩ := ih
    by_cases hv : x < v
    · refine ⟨min ε ((v - x) / 2), lt_min hε (by linarith), fun u hu hlt => ?_⟩
      rcases List.mem_cons.mp hu with rfl | hu
      · have := min_le_right ε ((u - x) / 2)
        linarith
      · have := min_le_left ε ((v - x) / 2)
        have := h u hu hlt
        linarith
    · refine ⟨ε, hε, fun u hu hlt => ?_⟩
      rcases List.mem_cons.mp hu with rfl | hu
      · exact absurd hlt hv
      · exact h u hu hlt

/-- How many seconds are enough, by the calls that are left in the window then. -/
theorem allowedFrom_iff (h : InOrder key windowSeconds (calls ++ [c])) (hkey : c.key = key) (hW : 0 < windowSeconds)
    (absent : redis key = none) {n : Int} :
    AllowedFrom (RateLimiter.after redis (calls ++ [c])) key limit windowSeconds c.now n ↔
      ∀ s : ℚ, 0 < s → n ≤ s →
        (((CheckCall.on key (calls ++ [c])).map (·.now)).countP fun u => c.now + s - windowSeconds < u) + 1 ≤ limit :=
  forall_congr' fun _ => forall_congr' fun hs => forall_congr' fun _ => next_allowed_iff h hkey hW absent hs

/-- After the whole window only the next call is in it. -/
theorem allowedFrom_window (h : InOrder key windowSeconds (calls ++ [c])) (hkey : c.key = key) (hW : 0 < windowSeconds)
    (absent : redis key = none) (hlimit : 1 ≤ limit) :
    AllowedFrom (RateLimiter.after redis (calls ++ [c])) key limit windowSeconds c.now windowSeconds := by
  rw [allowedFrom_iff h hkey hW absent]
  intro s _ hn
  have hzero : (((CheckCall.on key (calls ++ [c])).map (·.now)).countP fun u => c.now + s - windowSeconds < u) = 0 := by
    refine List.countP_eq_zero.mpr fun u hu hlt => ?_
    have hle := h.le_last hkey u hu
    have hlt : c.now + s - windowSeconds < u := of_decide_eq_true hlt
    linarith
  rw [hzero]
  omega

/-- When the calls of the last second leave room, a second less than the window is enough. -/
theorem allowedFrom_less (h : InOrder key windowSeconds (calls ++ [c])) (hkey : c.key = key) (hW : 0 < windowSeconds)
    (absent : redis key = none)
    (few : (((CheckCall.on key (calls ++ [c])).map (·.now)).countP fun u => c.now - 1 < u) < limit) :
    AllowedFrom (RateLimiter.after redis (calls ++ [c])) key limit windowSeconds c.now (windowSeconds - 1) := by
  rw [allowedFrom_iff h hkey hW absent]
  intro s _ hn
  push_cast at hn
  have hmono : (((CheckCall.on key (calls ++ [c])).map (·.now)).countP fun u => c.now + s - windowSeconds < u) ≤
      ((CheckCall.on key (calls ++ [c])).map (·.now)).countP fun u => c.now - 1 < u := by
    refine List.countP_mono_left fun u _ hlt => ?_
    have hlt : c.now + s - windowSeconds < u := of_decide_eq_true hlt
    exact decide_eq_true (by linarith)
  omega

/-- When they do not, nothing less than the window is. -/
theorem window_le_of_allowedFrom (h : InOrder key windowSeconds (calls ++ [c])) (hkey : c.key = key)
    (hW : 0 < windowSeconds) (absent : redis key = none)
    (many : limit ≤ ((CheckCall.on key (calls ++ [c])).map (·.now)).countP fun u =>
      c.now - 1 < u)
    {n : ℕ} (hn : AllowedFrom (RateLimiter.after redis (calls ++ [c])) key limit windowSeconds c.now n) :
    windowSeconds ≤ n := by
  by_contra hlt
  rw [allowedFrom_iff h hkey hW absent] at hn
  obtain ⟨ε, hε, hgap⟩ := exists_gap ((CheckCall.on key (calls ++ [c])).map (·.now)) (c.now - 1)
  have hle : (n : ℚ) ≤ windowSeconds - 1 := by
    have hle : (n : Int) ≤ windowSeconds - 1 := by omega
    exact_mod_cast hle
  have hpos : (0 : ℚ) < windowSeconds - 1 + ε := by
    have hnat : (0 : ℚ) ≤ n := Nat.cast_nonneg n
    linarith
  -- A little more than a second before the window has passed, the calls of the last second are all in it.
  have hroom := hn (windowSeconds - 1 + ε) hpos (by push_cast; linarith)
  have hmono : (((CheckCall.on key (calls ++ [c])).map (·.now)).countP fun u => c.now - 1 < u) ≤
      ((CheckCall.on key (calls ++ [c])).map (·.now)).countP fun u =>
        c.now + (windowSeconds - 1 + ε) - windowSeconds < u := by
    refine List.countP_mono_left fun u hu hlt => ?_
    have hlater := hgap u hu (of_decide_eq_true hlt)
    exact decide_eq_true (by linarith)
  omega

theorem retryAfter_of_rejected (rejected : (RateLimiter.check redis c).1.allowed = false) :
    (RateLimiter.check redis c).1.retryAfter = c.windowSeconds := by
  rw [RateLimiter.check_answer, RateLimitResult.of] at rejected ⊢
  split
  · rfl
  · rename_i hle
    rw [if_neg hle] at rejected
    cases rejected

/-- After a rejected call the whole window is always enough. It is the least number of seconds exactly when the calls
    of the last second alone use up the limit. -/
theorem retryAfter_exact_iff (absent : redis key = none) (inOrder : InOrder key windowSeconds (calls ++ [c]))
    (hkey : c.key = key) (hlimit : 1 ≤ c.limit)
    (rejected : (RateLimiter.check (RateLimiter.after redis calls) c).1.allowed = false) :
    AllowedFrom (RateLimiter.after redis (calls ++ [c])) key c.limit windowSeconds c.now
        (RateLimiter.check (RateLimiter.after redis calls) c).1.retryAfter ∧
      (RetryExact (RateLimiter.after redis (calls ++ [c])) key c.limit windowSeconds c.now
          (RateLimiter.check (RateLimiter.after redis calls) c).1.retryAfter ↔
        c.limit ≤ windowCount ((CheckCall.on key (calls ++ [c])).map (·.now)) 1 c.now) := by
  have hW := window_pos_of_rejected inOrder hkey absent hlimit rejected
  have hself : c ∈ CheckCall.on key (calls ++ [c]) := by simp [CheckCall.on, hkey]
  have hsecond : windowCount ((CheckCall.on key (calls ++ [c])).map (·.now)) 1 c.now =
      ((CheckCall.on key (calls ++ [c])).map (·.now)).countP fun u => c.now - 1 < u := by
    refine List.countP_congr fun u hu => ?_
    simp [inOrder.le_last hkey u hu]
  have enough := allowedFrom_window inOrder hkey hW absent hlimit
  rw [retryAfter_of_rejected rejected, inOrder.window c hself, hsecond]
  refine ⟨enough, fun hexact => ?_,
    fun many => ⟨enough, fun n hn => window_le_of_allowedFrom inOrder hkey hW absent many hn⟩⟩
  by_contra few
  have hless := allowedFrom_less inOrder hkey hW absent (not_le.mp few)
  have hcast : ((windowSeconds - 1).toNat : Int) = windowSeconds - 1 := Int.toNat_of_nonneg (by omega)
  have hle := hexact.least (windowSeconds - 1).toNat (hcast ▸ hless)
  omega

/-- One call in a minute is allowed. A second one is rejected, and no time short of the minute is enough. -/
theorem retryAfter_exact_burst :
    RetryExact (RateLimiter.after (fun _ => none) [⟨"rl", 1, 60, 1, 1⟩, ⟨"rl", 1, 60, 2, 2⟩])
    "rl" 1 60 2 60 := by
  have absent : (fun _ => none : Keyspace) "rl" = none := rfl
  have hcalls : InOrder "rl" 60 ([⟨"rl", 1, 60, 1, 1⟩] ++ [⟨"rl", 1, 60, 2, 2⟩]) := ⟨by decide, by decide,
    by decide, by decide⟩
  have rejected : (RateLimiter.check (RateLimiter.after (fun _ => none) [⟨"rl", 1, 60, 1, 1⟩]) ⟨"rl", 1, 60, 2, 2⟩).1 =
      ⟨false, 0, 60⟩ := by decide +kernel
  have hsecond : (1 : Int) ≤ windowCount ((CheckCall.on "rl" ([⟨"rl", 1, 60, 1, 1⟩] ++ [⟨"rl", 1, 60, 2, 2⟩])).map
    (·.now)) 1 2 := by
    decide +kernel
  have hexact := (retryAfter_exact_iff absent hcalls rfl (by decide) (by rw [rejected])).2.mpr hsecond
  rw [rejected] at hexact
  exact hexact

/-- Two calls in a minute are allowed. The call at 59 is rejected after those at 1 and 2, and told to wait for a
    minute: three seconds are enough. -/
theorem retryAfter_too_long : ¬∀ (redis : Keyspace) (key : String) (windowSeconds : Int) (calls : List CheckCall)
    (c : CheckCall),
    redis key = none → InOrder key windowSeconds (calls ++ [c]) → c.key = key → 1 ≤ c.limit →
    (RateLimiter.check (RateLimiter.after redis calls) c).1.allowed = false →
    RetryExact (RateLimiter.after redis (calls ++ [c])) key c.limit windowSeconds c.now
      (RateLimiter.check (RateLimiter.after redis calls) c).1.retryAfter := by
  intro h
  have absent : (fun _ => none : Keyspace) "rl" = none := rfl
  have hcalls : InOrder "rl" 60 ([⟨"rl", 2, 60, 1, 1⟩, ⟨"rl", 2, 60, 2, 2⟩] ++ [⟨"rl", 2, 60, 59, 59⟩]) :=
    ⟨by decide, by decide, by decide, by decide⟩
  have rejected : (RateLimiter.check (RateLimiter.after (fun _ => none) [⟨"rl", 2, 60, 1, 1⟩, ⟨"rl", 2, 60, 2, 2⟩])
      ⟨"rl", 2, 60, 59, 59⟩).1 = ⟨false, 0, 60⟩ := by decide +kernel
  have hexact := h _ "rl" 60 _ _ absent hcalls rfl (by decide) (by rw [rejected])
  rw [rejected] at hexact
  have hthree := hexact.least 3 fun s hs hn => ?_
  · exact absurd hthree (by decide)
  · rw [next_allowed_iff hcalls rfl (by decide) absent hs]
    have hn : (3 : ℚ) ≤ s := by exact_mod_cast hn
    have h1 : ¬(59 + s - 60 < 1) := by linarith
    have h2 : ¬(59 + s - 60 < 2) := by linarith
    simp [CheckCall.on, h1, h2]
    split <;> omega

end

end Railbook
