import Mathlib.Algebra.Order.Ring.Nat

/-!
# The rate limiter

`RateLimiter` of the server, which counts the requests of the window that is running. Instants are
nanoseconds. They are read with the lock held, so a call's instant is not before those of the calls
ahead of it.
-/

namespace Rango

/-- `RATE_LIMIT_BURST`. -/
def rateLimitBurst : ℕ := 200

/-- `Duration::from_secs(1)`. -/
def second : ℕ := 10 ^ 9

/-- `RateLimiter`: the start of the window and the requests accepted in it. -/
structure RateLimiter where
  windowStart : ℕ
  count : ℕ
  burst : ℕ

namespace RateLimiter

/-- `RateLimiter::new`. -/
def new (burst now : ℕ) : RateLimiter := ⟨now, 0, burst⟩

/-- A window that is over gives way to one that starts now. -/
def advance (l : RateLimiter) (now : ℕ) : RateLimiter :=
  if second ≤ now - l.windowStart then { l with windowStart := now, count := 0 } else l

/-- `RateLimiter::check`. -/
def check (l : RateLimiter) (now : ℕ) : Bool × RateLimiter :=
  if (l.advance now).count < l.burst then
    (true, { l.advance now with count := (l.advance now).count + 1 })
  else (false, l.advance now)

end RateLimiter
end Rango
