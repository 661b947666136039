import DarkPool.Lib.TokenBucket
import DarkPool.OrderApi

namespace DarkPool

def msgRateLimitExceeded : String := "rate limit exceeded"

/-- Instants are nanoseconds of the monotonic clock; the token count is taken without the rounding of `f64`. -/
structure RateBucket where
  tokens : ℚ
  lastFill : Nat

structure RateLimitState where
  buckets : Table String RateBucket
  rate : ℚ
  capacity : ℚ
  staleAfter : Nat

/-- `Duration::as_secs_f64`. -/
def asSecs (d : Nat) : ℚ := d / 1000000000

namespace RateLimitState

/-- The tokens of the key's bucket once the time since its last fill is credited. -/
def refill (s : RateLimitState) (key : String) (now : Nat) : ℚ :=
  let bucket := (s.buckets.lookup key).getD ⟨s.capacity, now⟩
  let elapsed := asSecs (now - bucket.lastFill)
  let tokens := bucket.tokens + elapsed * s.rate
  if s.capacity < tokens then s.capacity else tokens

def setBucket (s : RateLimitState) (key : String) (bucket : RateBucket) : RateLimitState :=
  { s with buckets := s.buckets.insert key bucket }

/-- `now` is read with the lock held. -/
def allow (s : RateLimitState) (key : String) (now : Nat) : Except Status Unit × RateLimitState :=
  let tokens := s.refill key now
  if tokens < 1 then (.error ⟨.resourceExhausted, msgRateLimitExceeded⟩, s.setBucket key ⟨tokens, now⟩)
  else (.ok (), s.setBucket key ⟨tokens - 1, now⟩)

def evictStale (s : RateLimitState) (now : Nat) : RateLimitState :=
  { s with buckets := s.buckets.retain (fun _ b => decide (now - b.lastFill ≤ s.staleAfter)) }

end RateLimitState

/-- What happens under the lock of the limiter, with the time at which it happens. -/
inductive RateCall
  | allow (key : String) (now : Nat)
  | evictStale (now : Nat)

namespace RateCall

def now : RateCall → Nat
  | allow _ now => now
  | evictStale now => now

def apply (s : RateLimitState) : RateCall → RateLimitState
  | allow key now => (s.allow key now).2
  | evictStale now => s.evictStale now

/-- The answer to the call, if it is a request of the key. -/
def response (key : String) (s : RateLimitState) : RateCall → Option (Except Status Unit)
  | allow key' now => if key' = key then some (s.allow key' now).1 else none
  | evictStale _ => none

/-- The time of the call, if it is a request of the key. -/
def requestTime (key : String) : RateCall → Option ℚ
  | allow key' now => if key' = key then some (asSecs now) else none
  | evictStale _ => none

end RateCall

namespace RateLimitState

/-- The answers a key gets along a run of calls. -/
def responses (key : String) : RateLimitState → List RateCall → List (Except Status Unit)
  | _, [] => []
  | s, c :: cs => (c.response key s).toList ++ responses key (c.apply s) cs

def run (s : RateLimitState) (calls : List RateCall) : RateLimitState := calls.foldl RateCall.apply s

end RateLimitState

end DarkPool
