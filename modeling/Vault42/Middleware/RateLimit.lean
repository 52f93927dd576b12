import Vault42.Cache.Memory
import Vault42.Framework.Machine
import Mathlib.Algebra.Order.Ring.Int

/-!
# The rate limiter

`RateLimit` of `internal/middleware/ratelimit.go`: a request is counted by the shared cache under
its key, or by a table in the process when the cache fails, and its count times its weight is
compared with the limit. The limiter is a machine over requests at any processes, the sweeps of the
cache and of the tables, and what others write to the cache.

What a request is counted as is kept as a natural number. The source keeps it as an `int64`, and
`weighted` is where the difference shows, because the product wraps: `decision_admits_iff` says when
the decision is the one whole numbers would give.
-/

namespace Vault42.Middleware

open Framework

/-- `RateLimitConfig`; `int` is 64 bits wide. -/
structure RateLimitConfig (R : Type) where
  limit : Int64
  window : Duration
  keyFunc : R → String
  failClosed : Bool
  weight : Option (R → Int64)
  name : String

namespace RateLimitConfig

variable {R : Type} (cfg : RateLimitConfig R)

/-- `namespace`: the name, or the budget of a limiter that has none. -/
def «namespace» : String :=
  if cfg.name ≠ "" then cfg.name
  else toString cfg.limit.toInt ++ "/" ++ toString (cfg.window.tdiv 1000000)

/-- The key a request is counted under. -/
def key (r : R) : String := "rl:" ++ cfg.namespace ++ ":" ++ cfg.keyFunc r

/-- What a request weighs: a weight below one is one. -/
def weigh (r : R) : Int64 :=
  match cfg.weight with
  | none => 1
  | some f => if 1 < f r then f r else 1

/-- `int(cfg.Window.Seconds())`. -/
def retryAfter : ℤ := cfg.window.tdiv Duration.second

theorem one_le_weigh (r : R) : 1 ≤ (cfg.weigh r).toInt := by
  unfold weigh
  split
  · decide
  · split
    · next h =>
      have hlt : (1 : Int64).toInt < _ := Int64.lt_iff_toInt_lt.mp h
      exact le_of_lt hlt
    · decide

end RateLimitConfig

/-! ### The table in the process -/

/-- `localRLEntry`; the count as a number of requests. -/
structure LocalRLEntry where
  count : ℕ
  windowEnd : Time
deriving DecidableEq, Repr

structure LocalRateLimiter where
  entries : AList fun _ : String => LocalRLEntry
  atCap : Bool

def localRLMaxEntries : ℕ := 100000

def maxInt64 : ℕ := 2 ^ 63 - 1

namespace LocalRateLimiter

def new : LocalRateLimiter := ⟨∅, false⟩

/-- A new key finds no place. -/
def full (l : LocalRateLimiter) (key : String) : Bool :=
  (l.entries.lookup key).isNone && decide (localRLMaxEntries ≤ l.entries.entries.length)

def increment (l : LocalRateLimiter) (now : Time) (key : String) (window : Duration) :
    ℕ × LocalRateLimiter :=
  match (l.entries.lookup key).filter fun e => !decide (e.windowEnd < now) with
  | some e => (e.count + 1, { l with entries := l.entries.insert key ⟨e.count + 1, e.windowEnd⟩ })
  | none =>
    if l.full key then (maxInt64, { l with atCap := true })
    else (1, { l with entries := l.entries.insert key ⟨1, now + window⟩ })

/-- One round of the eviction loop that `addLimiter` starts. -/
def evict (l : LocalRateLimiter) (now : Time) : LocalRateLimiter :=
  { l with
    entries := ⟨l.entries.entries.filter fun e => !decide (e.2.windowEnd < now),
      l.entries.nodupKeys.sublist List.filter_sublist⟩ }

end LocalRateLimiter

/-! ### The middleware -/

/-- The `X-RateLimit-` headers. -/
structure RateHeaders where
  limit : Int64
  remaining : Int64
  reset : ℤ
deriving DecidableEq, Repr

/-- What becomes of a request: it is passed on, answered 429, or answered 503. -/
inductive RateResponse where
  | next (headers : Option RateHeaders)
  | tooManyRequests (headers : RateHeaders) (retryAfter : ℤ)
  | unavailable (retryAfter : ℤ)
deriving DecidableEq, Repr

/-- What the table in the process said of a request. -/
inductive Fallback where
  | count (n : ℕ)
  | full
deriving DecidableEq, Repr

/-- The number `increment` returned. -/
def Fallback.number : Fallback → ℕ
  | .count n => n
  | .full => maxInt64

/-- How a call of the cache fails: with or without its effect. -/
inductive Lost where
  | before
  | after
deriving DecidableEq, Repr

/-- What happened to a request: what the cache counted it as, whether the middleware was told, what
the table in the process counted it as, and the answer. -/
structure RateAnswer where
  cached : Option ℕ
  told : Bool
  fallback : Option Fallback
  response : RateResponse
deriving DecidableEq, Repr

namespace RateAnswer

/-- The count the decision was made on. -/
def count (a : RateAnswer) : Option ℕ := if a.told then a.cached else a.fallback.map Fallback.number

def admitted (a : RateAnswer) : Bool :=
  match a.response with
  | .next _ => true
  | _ => false

end RateAnswer

namespace RateLimitConfig

variable {R : Type} (cfg : RateLimitConfig R)

def weighted (r : R) (count : ℕ) : Int64 := Int64.ofNat count * cfg.weigh r

def headers (now : Time) (r : R) (count : ℕ) : RateHeaders where
  limit := cfg.limit
  remaining :=
    let remaining := cfg.limit - Int64.ofNat count
    if remaining < 0 ∨ cfg.limit < cfg.weighted r count then 0 else remaining
  reset := (now + cfg.window) / Duration.second

/-- The answer to a request that was counted. -/
def decision (now : Time) (r : R) (count : ℕ) : RateResponse :=
  if cfg.limit < cfg.weighted r count then
    .tooManyRequests (cfg.headers now r count) cfg.retryAfter
  else .next (some (cfg.headers now r count))

end RateLimitConfig

/-- The cache, and the table of every process. -/
structure RateState (P : Type) where
  cache : MemoryCache String CacheValue
  tables : P → LocalRateLimiter
  clock : Time

/-- What happens to a limiter: a request at a process, with what becomes of its cache call; the
sweeps of the cache and of a table; a write or a deletion by somebody else. -/
inductive RateEvent (P R : Type) where
  | request (p : P) (now : Time) (r : R) (lost : Option Lost)
  | cleanup (now : Time)
  | evict (p : P) (now : Time)
  | write (now : Time) (key : String) (value : CacheValue) (ttl : Duration)
  | delete (now : Time) (key : String)

def RateEvent.now {P R : Type} : RateEvent P R → Time
  | .request _ now _ _ => now
  | .cleanup now => now
  | .evict _ now => now
  | .write now _ _ _ => now
  | .delete now _ => now

section Serve

variable {P R : Type} [DecidableEq P] (cfg : RateLimitConfig R) (enabled : Bool)

/-- The cache's `Increment`, as it reaches the middleware: what the counter was advanced to, if it
was, and whether the middleware was told. -/
def cacheIncrement (s : RateState P) (now : Time) (key : String) (window : Duration)
    (lost : Option Lost) : Option ℕ × Bool × MemoryCache String CacheValue :=
  match lost with
  | some .before => (none, false, s.cache)
  | some .after =>
    ((s.cache.increment now key window).1.toOption, false, (s.cache.increment now key window).2)
  | none =>
    ((s.cache.increment now key window).1.toOption, (s.cache.increment now key window).1.isOk,
      (s.cache.increment now key window).2)

/-- The middleware on one request. -/
def serveLimited (s : RateState P) (p : P) (now : Time) (r : R) (lost : Option Lost) :
    RateState P × RateAnswer :=
  if !enabled then ({ s with clock := now }, ⟨none, false, none, .next none⟩)
  else
    match cacheIncrement s now (cfg.key r) cfg.window lost with
    | (some n, true, cache) =>
      ({ s with cache := cache, clock := now }, ⟨some n, true, none, cfg.decision now r n⟩)
    | (cached, _, cache) =>
      if cfg.failClosed then
        ({ s with cache := cache, clock := now },
          ⟨cached, false, none, .unavailable cfg.retryAfter⟩)
      else
        let local' := (s.tables p).increment now (cfg.key r) cfg.window
        let answer : Fallback :=
          if ((s.tables p).full (cfg.key r)) then .full else .count local'.1
        ({ cache := cache, tables := Function.update s.tables p local'.2, clock := now },
          ⟨cached, false, some answer, cfg.decision now r local'.1⟩)

/-- The limiter as a machine; what is not a request has no answer. -/
def limiter : Machine (RateState P) (RateEvent P R) (Option RateAnswer) where
  step s
    | .request p now r lost =>
      ((serveLimited cfg enabled s p now r lost).1,
        some (serveLimited cfg enabled s p now r lost).2)
    | .cleanup now => ({ s with cache := s.cache.cleanup now, clock := now }, none)
    | .evict p now =>
      ({ s with tables := Function.update s.tables p ((s.tables p).evict now), clock := now }, none)
    | .write now key value ttl =>
      ({ s with cache := (s.cache.set now key value ttl).2, clock := now }, none)
    | .delete now key => ({ s with cache := s.cache.delete key, clock := now }, none)

end Serve

/-! ### What one request does -/

section One

variable {P R : Type} [DecidableEq P] {cfg : RateLimitConfig R} {s : RateState P} {p : P}
  {now : Time} {r : R} {lost : Option Lost}

theorem serveLimited_cached :
    (serveLimited cfg true s p now r lost).2.cached =
        (cacheIncrement s now (cfg.key r) cfg.window lost).1 ∧
      (serveLimited cfg true s p now r lost).1.cache =
        (cacheIncrement s now (cfg.key r) cfg.window lost).2.2 := by
  unfold serveLimited
  rw [if_neg (by decide)]
  split
  · next h => rw [h]; exact ⟨rfl, rfl⟩
  · next h =>
    rw [h]
    split
    · exact ⟨rfl, rfl⟩
    · exact ⟨rfl, rfl⟩

/-- The table is asked only when the middleware was not told of the cache's count. -/
theorem serveLimited_fallback (cfg : RateLimitConfig R) (s : RateState P) (p : P)
    (now : Time) (r : R) (lost : Option Lost) :
    ((serveLimited cfg true s p now r lost).2.fallback = none ∧
        (serveLimited cfg true s p now r lost).1.tables = s.tables) ∨
      ((serveLimited cfg true s p now r lost).2.fallback =
          some (if (s.tables p).full (cfg.key r) then .full
            else .count ((s.tables p).increment now (cfg.key r) cfg.window).1) ∧
        (serveLimited cfg true s p now r lost).1.tables =
          Function.update s.tables p ((s.tables p).increment now (cfg.key r) cfg.window).2) := by
  unfold serveLimited
  rw [if_neg (by decide)]
  split
  · exact .inl ⟨rfl, rfl⟩
  · split
    · exact .inl ⟨rfl, rfl⟩
    · exact .inr ⟨rfl, rfl⟩

theorem serveLimited_told_of_fallback {f : Fallback}
    (h : (serveLimited cfg true s p now r lost).2.fallback = some f) :
    (serveLimited cfg true s p now r lost).2.told = false := by
  unfold serveLimited at h ⊢
  rw [if_neg (by decide)] at h ⊢
  split at h
  · cases h
  · split at h
    · cases h
    · next hopen => rw [if_neg hopen]

theorem serveLimited_clock {enabled : Bool} :
    (serveLimited cfg enabled s p now r lost).1.clock = now := by
  unfold serveLimited
  split
  · rfl
  · split
    · rfl
    · split
      · rfl
      · rfl

theorem LocalRateLimiter.increment_full {l : LocalRateLimiter} {key : String} {window : Duration}
    (h : l.full key) : l.increment now key window = (maxInt64, { l with atCap := true }) := by
  have hnone : l.entries.lookup key = none := by
    rw [full, Bool.and_eq_true, Option.isNone_iff_eq_none] at h
    exact h.1
  rw [increment, hnone, Option.filter_none]
  simp only [h, if_true]

/-- A request that was counted is decided on its count, and one that was not is refused. -/
theorem serveLimited_decision (cfg : RateLimitConfig R) (s : RateState P) (p : P)
    (now : Time) (r : R) (lost : Option Lost) :
    (serveLimited cfg true s p now r lost).2.response =
      ((serveLimited cfg true s p now r lost).2.count.map (cfg.decision now r)).getD
        (.unavailable cfg.retryAfter) := by
  unfold serveLimited
  rw [if_neg (by decide)]
  split
  · rfl
  · split
    · rfl
    · by_cases hfull : (s.tables p).full (cfg.key r)
      · simp only [RateAnswer.count, hfull, if_true, Bool.false_eq_true, if_false, Option.map_some,
          Fallback.number, LocalRateLimiter.increment_full hfull, Option.getD_some]
      · simp only [RateAnswer.count, hfull, Bool.false_eq_true, if_false, Option.map_some,
          Fallback.number, Option.getD_some]

/-- A fail-closed limiter that was not told of a count refuses. -/
theorem serveLimited_failClosed (hclosed : cfg.failClosed)
    (htold : (serveLimited cfg true s p now r lost).2.told = false) :
    (serveLimited cfg true s p now r lost).2.response = .unavailable cfg.retryAfter := by
  unfold serveLimited at htold ⊢
  rw [if_neg (by decide)] at htold ⊢
  split at htold
  · cases htold
  · rw [if_pos hclosed]

end One

/-! ### The product -/

section Product

variable {R : Type} (cfg : RateLimitConfig R)

/-- The product of a count and a weight is a number an `int64` holds. -/
def RateLimitConfig.Fits (r : R) (count : ℕ) : Prop := (count : ℤ) * (cfg.weigh r).toInt ≤ maxInt64

instance (r : R) (count : ℕ) : Decidable (cfg.Fits r count) := inferInstanceAs (Decidable (_ ≤ _))

variable {cfg} {r : R} {count : ℕ}

/-- The machine's product is the product, when it fits. -/
theorem toInt_weighted (h : cfg.Fits r count) :
    (cfg.weighted r count).toInt = (count : ℤ) * (cfg.weigh r).toInt := by
  have hw := cfg.one_le_weigh r
  have hcount : (count : ℤ) ≤ (count : ℤ) * (cfg.weigh r).toInt :=
    le_mul_of_one_le_right (Int.natCast_nonneg count) hw
  unfold RateLimitConfig.Fits maxInt64 at h
  have hnat : (Int64.ofNat count).toInt = (count : ℤ) :=
    Int64.toInt_ofNat_of_lt (by lia)
  rw [RateLimitConfig.weighted, Int64.toInt_mul, hnat]
  -- a number of the range is its own residue
  refine Int.bmod_eq_of_le ?_ ?_
  · have : (0 : ℤ) ≤ (count : ℤ) * (cfg.weigh r).toInt := by lia
    lia
  · lia

variable (cfg r count) in
/-- The product fits, or what it wraps to is over the limit all the same. -/
def RateLimitConfig.Decides : Prop := cfg.Fits r count ∨ cfg.limit < cfg.weighted r count

/-- The decision is the one whole numbers would give, as far as the product decides. -/
theorem decision_admits_iff {now : Time} (h : cfg.Decides r count) :
    (∃ headers, cfg.decision now r count = .next headers) ↔
      (count : ℤ) * (cfg.weigh r).toInt ≤ cfg.limit.toInt := by
  have hlt : cfg.limit < cfg.weighted r count ↔
      cfg.limit.toInt < (count : ℤ) * (cfg.weigh r).toInt := by
    by_cases hfits : cfg.Fits r count
    · rw [Int64.lt_iff_toInt_lt, toInt_weighted hfits]
    · -- the product is over every `int64`, and the limit is one
      have hmax : cfg.limit.toInt < 2 ^ 63 := cfg.limit.toInt_lt
      unfold RateLimitConfig.Fits maxInt64 at hfits
      exact iff_of_true (h.resolve_left hfits) (by lia)
  unfold RateLimitConfig.decision
  split
  · next hover =>
    constructor
    · rintro ⟨_, h⟩
      cases h
    · intro hle
      exact absurd (hlt.mp hover) (not_lt.mpr hle)
  · next hunder => exact ⟨fun _ => not_lt.mp fun hgt => hunder (hlt.mpr hgt), fun _ => ⟨_, rfl⟩⟩

/-- What the answer of a full table is weighed as. -/
theorem toInt_weighted_maxInt64 :
    (cfg.weighted r maxInt64).toInt =
      if (cfg.weigh r).toInt % 2 = 0 then -(cfg.weigh r).toInt
      else 2 ^ 63 - (cfg.weigh r).toInt := by
  have hw := cfg.one_le_weigh r
  have hlt : (cfg.weigh r).toInt < 2 ^ 63 := (cfg.weigh r).toInt_lt
  have hmax : (Int64.ofNat maxInt64).toInt = 2 ^ 63 - 1 := by decide
  -- whole turns of the `int64` drop out
  have turns : ∀ x, -2 ^ 63 ≤ x → x < 2 ^ 63 →
      (2 ^ 63 - 1) * (cfg.weigh r).toInt = x + (2 ^ 64 : ℕ) * ((cfg.weigh r).toInt / 2) →
      (cfg.weighted r maxInt64).toInt = x := by
    intro x hlo hhi hsplit
    rw [RateLimitConfig.weighted, Int64.toInt_mul, hmax, hsplit, Int.add_mul_bmod_self_left]
    exact Int.bmod_eq_of_le (by lia) (by lia)
  split <;> exact turns _ (by lia) (by lia) (by lia)

/-- **When a full table decides**: for a weight of one, and for an odd one that leaves the limit
room below the largest `int64`. An even weight never does: the product wraps to a negative
number. -/
theorem decides_maxInt64_iff (hlimit : 0 ≤ cfg.limit.toInt) :
    cfg.Decides r maxInt64 ↔ (cfg.weigh r).toInt = 1 ∨
      (cfg.weigh r).toInt % 2 = 1 ∧ cfg.limit.toInt < 2 ^ 63 - (cfg.weigh r).toInt := by
  have hw := cfg.one_le_weigh r
  have hfits : cfg.Fits r maxInt64 ↔ (cfg.weigh r).toInt = 1 := by
    unfold RateLimitConfig.Fits maxInt64
    lia
  rw [RateLimitConfig.Decides, hfits, Int64.lt_iff_toInt_lt, toInt_weighted_maxInt64]
  split <;> lia

end Product

end Vault42.Middleware
