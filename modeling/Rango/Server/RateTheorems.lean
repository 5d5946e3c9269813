import Rango.Lib.RateBound
import Rango.Server.RateLimiter

/-!
# The rate over every interval

The documented rate is 100 requests per second with a burst of 200. The limiter accepts the first
200 requests of each window (`accepted_run`), and the windows depend on the instants alone. That is
twice the rate, and 400 around the end of a window. `accepted_le` bounds what every run accepts in
an interval. `keepsRate_iff`: the documented rate is kept just when the first 200 of each window are
spaced out from window to window.
-/

namespace Rango

open RateBound

/-- The requests that are allowed in a second, besides the burst. -/
def rateLimit : ℕ := 100

/-- A limiter together with the instants of the accepted requests. -/
structure LimiterRun where
  limiter : RateLimiter
  accepted : List ℕ

namespace LimiterRun

/-- A new limiter. -/
def start (now : ℕ) : LimiterRun := ⟨.new rateLimitBurst now, []⟩

/-- One request. -/
def step (r : LimiterRun) (now : ℕ) : LimiterRun :=
  { limiter := (r.limiter.check now).2
    accepted := if (r.limiter.check now).1 then r.accepted ++ [now] else r.accepted }

/-- The documented rate: in every interval at most the burst and 100 requests per second. -/
def KeepsRate (r : LimiterRun) : Prop :=
  ∀ first last, first ≤ last →
    second * within r.accepted first last ≤ rateLimitBurst * second + rateLimit * (last - first)

/-! ## Windows -/

/-- The instants by windows, of which the one that runs began at `windowStart` and has `current`. A
window ends with the first instant that is a second or more behind its start, which begins the
next. -/
def windowsFrom (windowStart : ℕ) (current : List ℕ) : List ℕ → List (List ℕ)
  | [] => [current]
  | now :: rest =>
    if windowStart + second ≤ now then current :: windowsFrom now [now] rest
    else windowsFrom windowStart (current ++ [now]) rest

/-- The windows of a limiter that is created at `t₀`. -/
def windows (t₀ : ℕ) (instants : List ℕ) : List (List ℕ) := windowsFrom t₀ [] instants

/-- When `x` is one of the first 200 instants of a window and `y` one of those of a later window,
the instants from `x` to `y`, of every window the first 200, are no more than 200 and 100 for each
second between `x` and `y`. -/
def SpacedOut (ws : List (List ℕ)) : Prop :=
  ∀ pre V mid W post, ws = pre ++ V :: (mid ++ W :: post) →
    ∀ v₁ x v₂ w₁ y w₂, V.take rateLimitBurst = v₁ ++ x :: v₂ →
      W.take rateLimitBurst = w₁ ++ y :: w₂ →
        second * (v₂.length + 1 + (mid.map fun U => min rateLimitBurst U.length).sum +
          (w₁.length + 1)) ≤ rateLimitBurst * second + rateLimit * (y - x)

variable {r : LimiterRun} {now : ℕ}

/-! ## One request -/

lemma second_pos : 0 < second := by decide

/-- The window is over, or it goes on. -/
lemma advance_cases (l : RateLimiter) (now : ℕ) :
    l.windowStart + second ≤ now ∧ l.advance now = ⟨now, 0, l.burst⟩ ∨
      now < l.windowStart + second ∧ l.advance now = l := by
  have hpos := second_pos
  unfold RateLimiter.advance
  split_ifs with hover
  · exact .inl ⟨by omega, rfl⟩
  · exact .inr ⟨by omega, rfl⟩

/-- What a request does: it opens a window, counts in the one that is open, or is refused. -/
lemma step_cases (hburst : r.limiter.burst = rateLimitBurst) (now : ℕ) :
    (r.limiter.windowStart + second ≤ now ∧
      r.step now = ⟨⟨now, 1, rateLimitBurst⟩, r.accepted ++ [now]⟩) ∨
    (now < r.limiter.windowStart + second ∧ r.limiter.count < rateLimitBurst ∧ r.step now =
      ⟨⟨r.limiter.windowStart, r.limiter.count + 1, rateLimitBurst⟩, r.accepted ++ [now]⟩) ∨
    (now < r.limiter.windowStart + second ∧ rateLimitBurst ≤ r.limiter.count ∧ r.step now = r) := by
  rcases advance_cases r.limiter now with ⟨hover, hadvance⟩ | ⟨hopen, hadvance⟩
  · left
    have hroom : 0 < rateLimitBurst := by decide
    refine ⟨hover, ?_⟩
    simp [step, RateLimiter.check, hadvance, hburst, hroom]
  · right
    by_cases hroom : r.limiter.count < rateLimitBurst
    · exact .inl ⟨hopen, hroom, by simp [step, RateLimiter.check, hadvance, hburst, hroom]⟩
    · exact .inr ⟨hopen, Nat.not_lt.mp hroom,
        by simp [step, RateLimiter.check, hadvance, hburst, hroom]⟩

/-! ## What every run accepts -/

/-- Seconds, rounded up. -/
def ceilSeconds (n : ℕ) : ℕ := (n + (second - 1)) / second

lemma ceilSeconds_mono {a b : ℕ} (h : a ≤ b) : ceilSeconds a ≤ ceilSeconds b :=
  Nat.div_le_div_right (by omega)

lemma ceilSeconds_add_second (n : ℕ) : ceilSeconds (n + second) = ceilSeconds n + 1 := by
  rw [ceilSeconds, Nat.add_right_comm, Nat.add_div_right _ second_pos, ceilSeconds]

/-- The accepted requests lie in windows that start a second apart, and each window has at most the
burst. -/
structure Windowed (r : LimiterRun) : Prop where
  burst : r.limiter.burst = rateLimitBurst
  count_le : r.limiter.count ≤ rateLimitBurst
  recent : ∀ t ∈ r.accepted, t < r.limiter.windowStart + second
  since_le : ∀ first, since r.accepted first ≤
    rateLimitBurst * ceilSeconds (r.limiter.windowStart - first) + r.limiter.count
  within_le : ∀ first last, first ≤ last →
    within r.accepted first last ≤ rateLimitBurst * (ceilSeconds (last - first) + 1)

lemma windowed_start (now : ℕ) : Windowed (start now) where
  burst := rfl
  count_le := Nat.zero_le _
  recent := by simp [start]
  since_le := by simp [start, since]
  within_le := by simp [start, within]

/-- A request that is accepted, behind the others, in the window that is open or in a new one. -/
lemma within_le_append {l : RateLimiter} (hlast : ∀ t ∈ r.accepted, t ≤ now)
    (hstart : l.windowStart ≤ now) (hcount : l.count ≤ rateLimitBurst)
    (hsince : ∀ first ≤ now, since r.accepted first + 1 ≤
      rateLimitBurst * ceilSeconds (l.windowStart - first) + l.count)
    (hwithin : ∀ first last, first ≤ last →
      within r.accepted first last ≤ rateLimitBurst * (ceilSeconds (last - first) + 1))
    (first last : ℕ) (hle : first ≤ last) : within (r.accepted ++ [now]) first last ≤
      rateLimitBurst * (ceilSeconds (last - first) + 1) := by
  rw [within_append hlast]
  split_ifs with hin
  · have hceil : ceilSeconds (l.windowStart - first) ≤ ceilSeconds (last - first) :=
      ceilSeconds_mono (by omega)
    calc since r.accepted first + 1
        ≤ rateLimitBurst * ceilSeconds (l.windowStart - first) + l.count := hsince first hin.1
      _ ≤ rateLimitBurst * ceilSeconds (last - first) + rateLimitBurst :=
        Nat.add_le_add (Nat.mul_le_mul_left _ hceil) hcount
      _ = rateLimitBurst * (ceilSeconds (last - first) + 1) := by rw [Nat.mul_add, Nat.mul_one]
  · exact hwithin first last hle

/-- The requests from an instant on, with one more behind the others. -/
lemma since_append_le {bound : ℕ → ℕ} (hlast : ∀ t ∈ r.accepted, t ≤ now)
    (hsince : ∀ first ≤ now, since r.accepted first + 1 ≤ bound first) (first : ℕ) :
    since (r.accepted ++ [now]) first ≤ bound first := by
  by_cases hfirst : first ≤ now
  · rw [since_append _ hfirst]
    exact hsince first hfirst
  · have hnone : ∀ t ∈ r.accepted ++ [now], t < first := by
      intro t ht
      rcases List.mem_append.mp ht with ht | ht
      · exact (hlast t ht).trans_lt (Nat.not_le.mp hfirst)
      · rw [List.mem_singleton.mp ht]
        exact Nat.not_le.mp hfirst
    rw [since_eq_zero hnone]
    exact Nat.zero_le _

/-- When a window is over, the next one starts a second or more behind it. -/
lemma Windowed.since_le_of_over (h : Windowed r) (hover : r.limiter.windowStart + second ≤ now)
    (first : ℕ) (hfirst : first ≤ now) :
    since r.accepted first ≤ rateLimitBurst * ceilSeconds (now - first) := by
  rcases hfirst.eq_or_lt with rfl | hlt
  · -- nothing was accepted after the window that is over
    rw [since_eq_zero fun t ht => (h.recent t ht).trans_le hover]
    exact Nat.zero_le _
  · have hceil : ceilSeconds (r.limiter.windowStart - first) + 1 ≤ ceilSeconds (now - first) := by
      by_cases hbefore : first ≤ r.limiter.windowStart
      · rw [← ceilSeconds_add_second]
        exact ceilSeconds_mono (by omega)
      · rw [Nat.sub_eq_zero_of_le (Nat.le_of_not_le hbefore)]
        exact ceilSeconds_mono (show 1 ≤ now - first by omega)
    calc since r.accepted first
        ≤ rateLimitBurst * ceilSeconds (r.limiter.windowStart - first) + r.limiter.count :=
          h.since_le first
      _ ≤ rateLimitBurst * (ceilSeconds (r.limiter.windowStart - first) + 1) := by
        rw [Nat.mul_add, Nat.mul_one]
        exact Nat.add_le_add_left h.count_le _
      _ ≤ rateLimitBurst * ceilSeconds (now - first) := Nat.mul_le_mul_left _ hceil

/-- **One request.** -/
lemma Windowed.step (h : Windowed r) (hlast : ∀ t ∈ r.accepted, t ≤ now)
    (hstart : r.limiter.windowStart ≤ now) : Windowed (r.step now) := by
  rcases step_cases h.burst now with ⟨hover, hstep⟩ | ⟨hopen, hroom, hstep⟩ | ⟨-, -, hstep⟩
  · -- a new window, the request the first in it
    have hsince : ∀ first ≤ now, since r.accepted first + 1 ≤
        rateLimitBurst * ceilSeconds (now - first) + 1 :=
      fun first hfirst => Nat.succ_le_succ (h.since_le_of_over hover first hfirst)
    rw [hstep]
    refine ⟨rfl, show 1 ≤ rateLimitBurst by decide, ?_, since_append_le hlast hsince,
      within_le_append (l := ⟨now, 1, rateLimitBurst⟩) hlast le_rfl
        (show 1 ≤ rateLimitBurst by decide) hsince h.within_le⟩
    intro t ht
    show t < now + second
    rcases List.mem_append.mp ht with ht | ht
    · exact (hlast t ht).trans_lt (Nat.lt_add_of_pos_right second_pos)
    · rw [List.mem_singleton.mp ht]
      exact Nat.lt_add_of_pos_right second_pos
  · -- one more in the window that is open
    have hsince : ∀ first ≤ now, since r.accepted first + 1 ≤
        rateLimitBurst * ceilSeconds (r.limiter.windowStart - first) + (r.limiter.count + 1) :=
      fun first _ => Nat.succ_le_succ (h.since_le first)
    rw [hstep]
    refine ⟨rfl, hroom, ?_, since_append_le hlast hsince,
      within_le_append (l := ⟨r.limiter.windowStart, r.limiter.count + 1, rateLimitBurst⟩) hlast
        hstart hroom hsince h.within_le⟩
    intro t ht
    rcases List.mem_append.mp ht with ht | ht
    · exact h.recent t ht
    · rw [List.mem_singleton.mp ht]
      exact hopen
  · rw [hstep]
    exact h

/-- The instants behind the one of the last request. -/
lemma clock_step (hburst : r.limiter.burst = rateLimitBurst) (hlast : ∀ t ∈ r.accepted, t ≤ now)
    (hstart : r.limiter.windowStart ≤ now) :
    (∀ t ∈ (r.step now).accepted, t ≤ now) ∧ (r.step now).limiter.windowStart ≤ now := by
  have happend : ∀ t ∈ r.accepted ++ [now], t ≤ now := by
    intro t ht
    rcases List.mem_append.mp ht with ht | ht
    · exact hlast t ht
    · exact (List.mem_singleton.mp ht).le
  rcases step_cases hburst now with ⟨-, hstep⟩ | ⟨-, -, hstep⟩ | ⟨-, -, hstep⟩
  · rw [hstep]
    exact ⟨happend, le_rfl⟩
  · rw [hstep]
    exact ⟨happend, hstart⟩
  · rw [hstep]
    exact ⟨hlast, hstart⟩

lemma Windowed.run {instants : List ℕ} (h : Windowed r) (hlast : ∀ t ∈ r.accepted, t ≤ now)
    (hstart : r.limiter.windowStart ≤ now) (hsorted : (now :: instants).Pairwise (· ≤ ·)) :
    Windowed (instants.foldl LimiterRun.step r) := by
  induction instants generalizing r now with
  | nil => exact h
  | cons next rest ih =>
    have hle : now ≤ next := List.rel_of_pairwise_cons hsorted List.mem_cons_self
    have hlast' : ∀ t ∈ r.accepted, t ≤ next := fun t ht => (hlast t ht).trans hle
    obtain ⟨hpast, hwindow⟩ := clock_step h.burst hlast' (hstart.trans hle)
    exact ih (h.step hlast' (hstart.trans hle)) hpast hwindow hsorted.of_cons

/-- **What is accepted.** In an interval, the burst for each second that has begun and one more. -/
theorem accepted_le {t₀ : ℕ} {instants : List ℕ} (hsorted : (t₀ :: instants).Pairwise (· ≤ ·))
    {first last : ℕ} (hle : first ≤ last) :
    within (instants.foldl step (start t₀)).accepted first last ≤
      rateLimitBurst * (ceilSeconds (last - first) + 1) :=
  ((windowed_start t₀).run (by simp [start]) le_rfl hsorted).within_le first last hle

/-! ## The documented rate -/

/-- The windows hold the instants. -/
lemma flatten_windowsFrom (windowStart : ℕ) (current instants : List ℕ) :
    (windowsFrom windowStart current instants).flatten = current ++ instants := by
  induction instants generalizing windowStart current with
  | nil => simp [windowsFrom]
  | cons now rest ih =>
    rw [windowsFrom]
    split_ifs
    · rw [List.flatten_cons, ih, List.singleton_append]
    · rw [ih, List.append_assoc, List.singleton_append]

/-- **What is accepted**: the first 200 requests of each window. -/
lemma accepted_windowsFrom {windowStart : ℕ} {current earlier : List ℕ} (instants : List ℕ)
    (hlimiter : r.limiter =
      ⟨windowStart, min rateLimitBurst current.length, rateLimitBurst⟩)
    (haccepted : r.accepted = earlier ++ current.take rateLimitBurst) :
    (instants.foldl step r).accepted =
      earlier ++ ((windowsFrom windowStart current instants).map
        (List.take rateLimitBurst)).flatten := by
  induction instants generalizing r windowStart current earlier with
  | nil => rw [List.foldl_nil, haccepted, windowsFrom, List.map_singleton, List.flatten_singleton]
  | cons now rest ih =>
    have hroom : 0 < rateLimitBurst := by decide
    rw [List.foldl_cons, windowsFrom]
    rcases step_cases (r := r) (by rw [hlimiter]) now with
      ⟨hover, hstep⟩ | ⟨hopen, hcount, hstep⟩ | ⟨hopen, hcount, hstep⟩
    · -- the request begins the next window
      rw [hlimiter] at hover
      rw [if_pos hover, List.map_cons, List.flatten_cons, ← List.append_assoc]
      have hlimiter' : (r.step now).limiter =
          ⟨now, min rateLimitBurst [now].length, rateLimitBurst⟩ := by
        rw [hstep, List.length_singleton, min_eq_right (show 1 ≤ rateLimitBurst from hroom)]
      have haccepted' : (r.step now).accepted =
          earlier ++ current.take rateLimitBurst ++ [now].take rateLimitBurst := by
        rw [hstep, haccepted]
        rfl
      exact ih hlimiter' haccepted'
    · rw [hlimiter] at hopen hcount
      have hshort : current.length < rateLimitBurst := by
        have : min rateLimitBurst current.length < rateLimitBurst := hcount
        omega
      rw [if_neg (Nat.not_le.mpr hopen)]
      refine ih ?_ ?_
      · rw [hstep, hlimiter, List.length_append, List.length_singleton,
          min_eq_right hshort.le, min_eq_right hshort]
      · rw [hstep, haccepted, List.append_assoc, List.take_of_length_le hshort.le,
          List.take_of_length_le]
        rw [List.length_append, List.length_singleton]
        exact hshort
    · rw [hlimiter] at hopen hcount
      have hfull : rateLimitBurst ≤ current.length := by
        have : rateLimitBurst ≤ min rateLimitBurst current.length := hcount
        omega
      rw [if_neg (Nat.not_le.mpr hopen), hstep]
      refine ih ?_ ?_
      · rw [hlimiter, List.length_append, min_eq_left hfull,
          min_eq_left (Nat.le_add_right_of_le hfull)]
      · rw [haccepted, List.take_append_of_le_length hfull]

/-- The requests of a run that are accepted. -/
theorem accepted_run (t₀ : ℕ) (instants : List ℕ) :
    (instants.foldl step (start t₀)).accepted =
      ((windows t₀ instants).map (List.take rateLimitBurst)).flatten := by
  have hrun : (instants.foldl step (start t₀)).accepted =
      [] ++ ((windowsFrom t₀ [] instants).map (List.take rateLimitBurst)).flatten :=
    accepted_windowsFrom instants rfl rfl
  rw [hrun, List.nil_append, windows]

/-- The first of each block are some of all. -/
lemma flatten_map_take_sublist (n : ℕ) (ws : List (List ℕ)) :
    (ws.map (List.take n)).flatten.Sublist ws.flatten := by
  induction ws with
  | nil => exact .slnil
  | cons w rest ih =>
    rw [List.map_cons, List.flatten_cons, List.flatten_cons]
    exact (List.take_sublist n w).append ih

/-- The condition on the windows is the one on the accepted requests in blocks. -/
lemma spacedOut_iff {ws : List (List ℕ)} :
    SpacedOut ws ↔ ∀ pre v₁ x v₂ mid w₁ y w₂ post,
      ws.map (List.take rateLimitBurst) =
          pre ++ (v₁ ++ x :: v₂) :: (mid ++ (w₁ ++ y :: w₂) :: post) →
        second * (v₂.length + 1 + (mid.map List.length).sum + (w₁.length + 1)) ≤
          rateLimitBurst * second + rateLimit * (y - x) := by
  have hlengths : ∀ mid : List (List ℕ),
      ((mid.map (List.take rateLimitBurst)).map List.length) =
        mid.map fun U => min rateLimitBurst U.length := by
    intro mid
    rw [List.map_map]
    exact List.map_congr_left fun U _ => List.length_take
  constructor
  · intro h pre v₁ x v₂ mid w₁ y w₂ post hmap
    obtain ⟨pre', tail, rfl, rfl, htail⟩ := List.map_eq_append_iff.mp hmap
    obtain ⟨V, tail', rfl, hV, htail'⟩ := List.map_eq_cons_iff.mp htail
    obtain ⟨mid', last, rfl, rfl, hlast⟩ := List.map_eq_append_iff.mp htail'
    obtain ⟨W, post', rfl, hW, rfl⟩ := List.map_eq_cons_iff.mp hlast
    rw [hlengths]
    exact h pre' V mid' W post' rfl v₁ x v₂ w₁ y w₂ hV hW
  · rintro h pre V mid W post rfl v₁ x v₂ w₁ y w₂ hV hW
    rw [← hlengths]
    refine h (pre.map (List.take rateLimitBurst)) v₁ x v₂ _ w₁ y w₂
      (post.map (List.take rateLimitBurst)) ?_
    rw [List.map_append, List.map_cons, List.map_append, List.map_cons, hV, hW]

/-- **The documented rate.** Over requests that come one after the other, the accepted ones keep to
the documented rate in every interval just when the first 200 of each window are spaced out. -/
theorem keepsRate_iff {t₀ : ℕ} {instants : List ℕ} (hsorted : (t₀ :: instants).Pairwise (· ≤ ·)) :
    KeepsRate (instants.foldl step (start t₀)) ↔ SpacedOut (windows t₀ instants) := by
  have hwindows : (windows t₀ instants).flatten = instants := flatten_windowsFrom t₀ [] instants
  have horder : ((windows t₀ instants).map (List.take rateLimitBurst)).flatten.Pairwise
      (· ≤ ·) := by
    refine List.Pairwise.sublist (flatten_map_take_sublist _ _) ?_
    rw [hwindows]
    exact hsorted.of_cons
  have hblocks : ∀ block ∈ (windows t₀ instants).map (List.take rateLimitBurst),
      second * block.length ≤ rateLimitBurst * second := by
    intro block hblock
    obtain ⟨w, -, rfl⟩ := List.mem_map.mp hblock
    rw [Nat.mul_comm]
    exact Nat.mul_le_mul_right second (List.length_take_le _ _)
  rw [spacedOut_iff, ← bounded_flatten_iff horder hblocks, ← accepted_run]
  rfl

/-- A whole burst, and two requests two seconds later. -/
theorem keepsRate_burst :
    KeepsRate ((List.replicate 200 0 ++ [2 * second, 2 * second]).foldl step (start 0)) := by
  refine (keepsRate_iff (by decide +kernel)).mpr ?_
  have hwindows : windows 0 (List.replicate 200 0 ++ [2 * second, 2 * second]) =
      [List.replicate 200 0, [2 * second, 2 * second]] := by decide +kernel
  rw [hwindows]
  intro pre V mid W post hsplit v₁ x v₂ w₁ y w₂ hV hW
  -- there is one window behind another
  have hlength := congrArg List.length hsplit
  simp only [List.length_cons, List.length_append, List.length_nil] at hlength
  obtain rfl : pre = [] := List.length_eq_zero_iff.mp (by omega)
  obtain rfl : mid = [] := List.length_eq_zero_iff.mp (by omega)
  obtain ⟨rfl, hrest⟩ := List.cons.inj hsplit
  obtain ⟨rfl, -⟩ := List.cons.inj hrest
  have hx : x = 0 := by
    refine List.eq_of_mem_replicate (n := 200) (List.mem_of_mem_take (i := rateLimitBurst) ?_)
    rw [hV]
    exact List.mem_append_right _ List.mem_cons_self
  have hy : y = 2 * second := by
    have hmem : y ∈ [2 * second, 2 * second] := by
      refine List.mem_of_mem_take (i := rateLimitBurst) ?_
      rw [hW]
      exact List.mem_append_right _ List.mem_cons_self
    simpa using hmem
  have hfirst := congrArg List.length hV
  have hsecond := congrArg List.length hW
  simp only [List.length_take, List.length_replicate, List.length_append, List.length_cons,
    List.length_nil, rateLimitBurst] at hfirst hsecond
  rw [hx, hy, List.map_nil, List.sum_nil, rateLimitBurst, rateLimit, second]
  omega

/-- `200` requests at the end of a window and `200` at the beginning of the next one, a nanosecond
later, are all accepted. -/
theorem burst_doubled :
    ¬KeepsRate ((List.replicate 200 (second - 1) ++ List.replicate 200 second).foldl step
      (start 0)) := by
  intro h
  have hall : within ((List.replicate 200 (second - 1) ++ List.replicate 200 second).foldl step
      (start 0)).accepted (second - 1) second = 400 := by
    rw [accepted_run]
    decide +kernel
  have hbound := h (second - 1) second (Nat.sub_le _ _)
  rw [hall] at hbound
  exact absurd hbound (by decide)

end LimiterRun
end Rango
