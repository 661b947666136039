import DarkPool.RateLimit

namespace DarkPool

/-- The bucket in the units of its rate. -/
def RateBucket.inSecs (b : RateBucket) : TokenBucket.Bucket ℚ := ⟨b.tokens, asSecs b.lastFill⟩

theorem asSecs_sub {a b : Nat} (h : a ≤ b) : asSecs (b - a) = asSecs b - asSecs a := by
  unfold asSecs
  rw [Nat.cast_sub h, sub_div]

theorem asSecs_le {a b : Nat} (h : a ≤ b) : asSecs a ≤ asSecs b := by
  have hcast : (a : ℚ) ≤ b := Nat.cast_le.mpr h
  exact div_le_div_of_nonneg_right hcast (by norm_num)

namespace RateLimitState

variable {s : RateLimitState} {now : Nat}

/-- What the table knows of the key. -/
def stored (s : RateLimitState) (key : String) : Option (TokenBucket.Bucket ℚ) :=
  (s.buckets.lookup key).map RateBucket.inSecs

/-- The answer of the key's own bucket. -/
def asked (s : RateLimitState) (key : String) (now : Nat) : Bool × TokenBucket.Bucket ℚ :=
  TokenBucket.request s.rate s.capacity (s.stored key) (asSecs now)

/-- Every bucket was filled before `now` and holds no debt. -/
structure Kept (s : RateLimitState) (now : Nat) : Prop where
  filled : ∀ {key b}, s.buckets.lookup key = some b → b.lastFill ≤ now
  nonneg : ∀ {key b}, s.buckets.lookup key = some b → 0 ≤ b.tokens

theorem Kept.level_eq_refill (h : Kept s now) (key : String) :
    TokenBucket.level s.rate s.capacity (s.stored key) (asSecs now) = s.refill key now := by
  unfold stored refill
  cases hb : s.buckets.lookup key with
  | none => simp [TokenBucket.level, asSecs]
  | some b =>
    simp only [Option.map_some, Option.getD_some, TokenBucket.level, RateBucket.inSecs, asSecs_sub (h.filled hb)]
    rw [min_def]
    split <;> split <;> first | rfl | linarith

/-- `allow` asks the bucket of the key and leaves the others alone. -/
theorem Kept.allow_eq (h : Kept s now) (key : String) :
    (s.allow key now).1.isOk = (s.asked key now).1 ∧
      (s.allow key now).2 = s.setBucket key ⟨(s.asked key now).2.tokens, now⟩ := by
  unfold asked TokenBucket.request allow
  rw [h.level_eq_refill key]
  by_cases hshort : s.refill key now < 1
  · simp [hshort, Except.isOk, Except.toBool]
  · simp [hshort, Except.isOk, Except.toBool]

@[simp] theorem allow_rate (s : RateLimitState) (key : String) (now : Nat) : (s.allow key now).2.rate = s.rate := by
  simp only [allow]
  split <;> rfl

@[simp] theorem allow_capacity (s : RateLimitState) (key : String) (now : Nat) :
    (s.allow key now).2.capacity = s.capacity := by
  simp only [allow]
  split <;> rfl

@[simp] theorem allow_staleAfter (s : RateLimitState) (key : String) (now : Nat) :
    (s.allow key now).2.staleAfter = s.staleAfter := by
  simp only [allow]
  split <;> rfl

/-- A bucket old enough to be evicted would be full. -/
structure Refills (s : RateLimitState) : Prop where
  rate : 0 ≤ s.rate
  capacity : 0 ≤ s.capacity
  stale : s.capacity ≤ asSecs s.staleAfter * s.rate

@[simp] theorem apply_rate (s : RateLimitState) (c : RateCall) : (c.apply s).rate = s.rate := by
  cases c with
  | allow key now => exact allow_rate s key now
  | evictStale now => rfl

@[simp] theorem apply_capacity (s : RateLimitState) (c : RateCall) : (c.apply s).capacity = s.capacity := by
  cases c with
  | allow key now => exact allow_capacity s key now
  | evictStale now => rfl

@[simp] theorem apply_staleAfter (s : RateLimitState) (c : RateCall) : (c.apply s).staleAfter = s.staleAfter := by
  cases c with
  | allow key now => exact allow_staleAfter s key now
  | evictStale now => rfl

theorem Refills.apply (h : Refills s) (c : RateCall) : Refills (c.apply s) :=
  ⟨by simpa using h.rate, by simpa using h.capacity, by simpa using h.stale⟩

theorem Kept.mono {later : Nat} (h : Kept s now) (hle : now ≤ later) : Kept s later :=
  ⟨fun hb => (h.filled hb).trans hle, fun hb => h.nonneg hb⟩

theorem Kept.stored_nonneg (h : Kept s now) (hr : Refills s) (key : String) :
    0 ≤ TokenBucket.level s.rate s.capacity (s.stored key) (asSecs now) := by
  unfold stored
  cases hb : s.buckets.lookup key with
  | none => exact hr.capacity
  | some b => exact TokenBucket.level_nonneg hr.rate hr.capacity (h.nonneg hb) (asSecs_le (h.filled hb))

theorem Kept.apply {c : RateCall} (h : Kept s c.now) (hr : Refills s) : Kept (c.apply s) c.now := by
  cases c with
  | allow key now =>
    have hkept : Kept s now := h
    simp only [RateCall.apply, RateCall.now, (hkept.allow_eq key).2]
    refine ⟨fun hb => ?_, fun hb => ?_⟩
    · rcases Table.lookup_insert_cases hb with ⟨rfl, rfl⟩ | ⟨_, hb⟩
      · exact le_refl _
      · exact h.filled hb
    · rcases Table.lookup_insert_cases hb with ⟨rfl, rfl⟩ | ⟨_, hb⟩
      · exact TokenBucket.request_tokens_nonneg (hkept.stored_nonneg hr _)
      · exact h.nonneg hb
  | evictStale now =>
    exact ⟨fun hb => h.filled (Table.lookup_of_retain hb), fun hb => h.nonneg (Table.lookup_of_retain hb)⟩

/-- From `now` on the table answers as the private bucket `b` would. -/
def Agrees (s : RateLimitState) (key : String) (b : Option (TokenBucket.Bucket ℚ)) (now : Nat) : Prop :=
  ∀ t, asSecs now ≤ t → TokenBucket.level s.rate s.capacity (s.stored key) t = TokenBucket.level s.rate s.capacity b t

theorem Agrees.asked_eq {key : String} {b : Option (TokenBucket.Bucket ℚ)} (h : Agrees s key b now) :
    s.asked key now = TokenBucket.request s.rate s.capacity b (asSecs now) := by
  unfold asked TokenBucket.request
  rw [h _ (le_refl _)]

theorem Agrees.mono {key : String} {b : Option (TokenBucket.Bucket ℚ)} {later : Nat} (h : Agrees s key b now)
    (hle : now ≤ later) : Agrees s key b later :=
  fun t ht => h t ((asSecs_le hle).trans ht)

theorem level_of_stale {b : RateBucket} {t : ℚ} (hr : Refills s) (hb : 0 ≤ b.tokens) (hfilled : b.lastFill ≤ now)
    (hstale : s.staleAfter < now - b.lastFill) (ht : asSecs now ≤ t) :
    TokenBucket.level s.rate s.capacity (some b.inSecs) t = s.capacity := by
  apply TokenBucket.level_eq_capacity hb
  have hidle : asSecs s.staleAfter ≤ t - asSecs b.lastFill := by
    calc asSecs s.staleAfter ≤ asSecs (now - b.lastFill) := asSecs_le hstale.le
      _ = asSecs now - asSecs b.lastFill := asSecs_sub hfilled
      _ ≤ t - asSecs b.lastFill := by linarith
  exact hr.stale.trans (mul_le_mul_of_nonneg_right hidle hr.rate)

/-- Dropping a stale bucket changes no later answer: it was full. -/
theorem Agrees.evictStale {key : String} {b : Option (TokenBucket.Bucket ℚ)} (h : Agrees s key b now) (hk : Kept s now)
    (hr : Refills s) : Agrees (s.evictStale now) key b now := by
  intro t ht
  apply Eq.trans _ (h t ht)
  unfold stored RateLimitState.evictStale
  cases hkeep : (s.buckets.retain (fun _ b => decide (now - b.lastFill ≤ s.staleAfter))).lookup key with
  | some bucket => simp only [Table.lookup_of_retain hkeep]
  | none =>
    cases hb : s.buckets.lookup key with
    | none => rfl
    | some bucket =>
      have hstale : s.staleAfter < now - bucket.lastFill := by
        by_contra hfresh
        rw [Table.lookup_retain_of_keep hb (decide_eq_true (not_lt.mp hfresh))] at hkeep
        simp at hkeep
      have hfull := level_of_stale hr (hk.nonneg hb) (hk.filled hb) hstale ht
      simp only [Option.map_none, Option.map_some, hfull]
      rfl

theorem stored_allow (hk : Kept s now) (key key' : String) :
    (s.allow key now).2.stored key' = if key' = key then some (s.asked key now).2 else s.stored key' := by
  unfold stored
  rw [(hk.allow_eq key).2, setBucket, Table.lookup_insert_eq]
  split
  next h =>
    subst h
    have hlast : (s.asked key' now).2.last = asSecs now := TokenBucket.request_last
    rw [Option.map_some, RateBucket.inSecs, ← hlast]
  next => rfl

/-- One call: the key is answered as by its private bucket, and the table goes on agreeing with it. -/
theorem Agrees.step {key : String} {b : Option (TokenBucket.Bucket ℚ)} {c : RateCall} (h : Agrees s key b c.now)
    (hk : Kept s c.now) (hr : Refills s) :
    (c.response key s).toList.map Except.isOk = TokenBucket.answers s.rate s.capacity b (c.requestTime key).toList ∧
      Agrees (c.apply s) key (TokenBucket.after s.rate s.capacity b (c.requestTime key).toList) c.now := by
  cases c with
  | evictStale now => exact ⟨rfl, h.evictStale hk hr⟩
  | allow key' now =>
    have hkept : Kept s now := hk
    simp only [RateCall.response, RateCall.requestTime, RateCall.apply]
    by_cases heq : key' = key
    · subst heq
      simp only [if_true]
      have hasked : s.asked key' now = _ := h.asked_eq
      refine ⟨?_, fun t _ => ?_⟩
      · simp [(hkept.allow_eq key').1, hasked, TokenBucket.answers, RateCall.now]
      · rw [stored_allow hkept, if_pos rfl, hasked, allow_rate, allow_capacity]
        rfl
    · simp only [if_neg heq]
      refine ⟨rfl, fun t ht => ?_⟩
      rw [stored_allow hkept, if_neg (Ne.symm heq), allow_rate, allow_capacity]
      exact h t ht

theorem Agrees.run {key : String} {b : Option (TokenBucket.Bucket ℚ)} {calls : List RateCall} (h : Agrees s key b now)
    (hk : Kept s now) (hr : Refills s) (hclock : calls.Pairwise (fun c d => c.now ≤ d.now))
    (hlater : ∀ c ∈ calls, now ≤ c.now) :
    (s.responses key calls).map Except.isOk =
      TokenBucket.answers s.rate s.capacity b (calls.filterMap (RateCall.requestTime key)) := by
  induction calls generalizing s b now with
  | nil => rfl
  | cons c calls ih =>
    obtain ⟨hnext, hclock'⟩ := List.pairwise_cons.mp hclock
    have hc : now ≤ c.now := hlater c List.mem_cons_self
    obtain ⟨hanswer, hagree⟩ := (h.mono hc).step (hk.mono hc) hr
    have hrest := ih hagree ((hk.mono hc).apply hr) (hr.apply c) hclock' hnext
    have htimes : (c :: calls).filterMap (RateCall.requestTime key) =
        (c.requestTime key).toList ++ calls.filterMap (RateCall.requestTime key) := by
      cases htime : c.requestTime key with
      | none => rw [List.filterMap_cons_none htime, Option.toList_none, List.nil_append]
      | some t => rw [List.filterMap_cons_some htime, Option.toList_some, List.singleton_append]
    rw [responses, List.map_append, hanswer, hrest, htimes, TokenBucket.answers_append, apply_rate, apply_capacity]

theorem Kept.run {calls : List RateCall} {later : Nat} (h : Kept s now) (hr : Refills s)
    (hclock : calls.Pairwise (fun c d => c.now ≤ d.now)) (hlater : ∀ c ∈ calls, now ≤ c.now) (hnow : now ≤ later)
    (hend : ∀ c ∈ calls, c.now ≤ later) : Kept (s.run calls) later ∧ Refills (s.run calls) := by
  induction calls generalizing s now with
  | nil => exact ⟨h.mono hnow, hr⟩
  | cons c calls ih =>
    obtain ⟨hnext, hclock'⟩ := List.pairwise_cons.mp hclock
    have hc : now ≤ c.now := hlater c List.mem_cons_self
    exact ih ((h.mono hc).apply hr) (hr.apply c) hclock' hnext (hend c List.mem_cons_self)
      (fun d hd => hend d (List.mem_cons_of_mem c hd))

end RateLimitState

section Results

variable {rate burst : ℚ} {staleAfter : Nat} {calls : List RateCall}

end Results

end DarkPool
