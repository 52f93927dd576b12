import Vault42.Middleware.RateLimit
import Vault42.Framework.Windows
import Mathlib

/-!
# What a rate limiter lets through

Both counters of a limiter are fixed-window counters, and `cache_trail` and `local_trail` read them
as such in every run: the stamp of the library is the cache entry's expiry for one and the entry's
`windowEnd` for the other. The budget of a window follows from the library, one bound for both.

A full table answers `math.MaxInt64`, which the source takes to be over any limit. Twice that is
minus two, so a request of even weight that finds no place is admitted (`Sample.full_table_admits`).
-/

namespace Vault42.Middleware

open Framework List Option LocalRateLimiter RateEvent Function

variable {now : Time} {k : String}

/-! ### The two counters as fixed-window counters -/

/-- The counter of the cache: without a positive window it never ends. -/
def cacheCounter (window : Duration) : Counter Time (Option Time) where
  stamp now := expiryOf now window
  elapsed x now := ∃ t, x = some t ∧ t ≤ now

def localCounter (window : Duration) : Counter Time Time where
  stamp now := now + window
  elapsed x now := x < now

/-- What a cache slot stands at. -/
def cacheView (s : Slot CacheValue) : Option (ℕ × Option Time) :=
  s.map fun e => (e.value.parseInt, e.expiresAt)

/-- What an entry of a table stands at. -/
def localView (e : Option LocalRLEntry) : Option (ℕ × Time) := e.map fun e => (e.count, e.windowEnd)

variable {window : Duration}

theorem cacheCounter_mono (x : Option Time) (t t' : Time) (h : (cacheCounter window).elapsed x t)
    (hle : t ≤ t') : (cacheCounter window).elapsed x t' := by
  obtain ⟨y, hy, hyt⟩ := h
  exact ⟨y, hy, le_trans hyt hle⟩

theorem localCounter_mono (x t t' : Time) (h : (localCounter window).elapsed x t) (hle : t ≤ t') :
    (localCounter window).elapsed x t' :=
  lt_of_lt_of_le h hle

theorem elapsed_of_not_current {e : MemEntry CacheValue} (h : e.current now = false) :
    (cacheCounter window).elapsed e.expiresAt now := by
  cases hx : e.expiresAt with
  | none =>
    simp only [MemEntry.current, hx] at h
    cases h
  | some t =>
    simp only [MemEntry.current, hx, decide_eq_false_iff_not, not_lt] at h
    exact ⟨t, rfl, h⟩

/-- `Increment` is a move of the cache's counter. -/
theorem increment_move {m : MemoryCache String CacheValue} {key : String}
    (hpos : ∀ n x, cacheView (m.slot key) = some (n, x) → 0 < n) :
    (cacheCounter window).Move now (cacheView (m.slot key)) (m.increment now key window).1.toOption
      (cacheView ((m.increment now key window).2.slot key)) := by
  by_cases hadm : m.admits key
  · have hcount : (m.increment now key window).1 =
        .ok ((m.slot key).bump now window).value.parseInt := by
      rw [MemoryCache.increment, MemoryCache.store_of_admits hadm]
      rfl
    rw [hcount, m.slot_increment hadm]
    by_cases hcur : ∃ e, m.slot key = some e ∧ e.current now
    · obtain ⟨e, he, hcur⟩ := hcur
      rw [he, Slot.bump_current hcur]
      exact .count _ _ (hpos _ _ (by rw [he]; rfl))
    · have hfresh : ∀ e ∈ m.slot key, e.current now = false :=
        fun e he => Bool.eq_false_iff.mpr fun h => hcur ⟨e, he, h⟩
      rw [Slot.bump_fresh hfresh]
      refine .opens _ fun n x hx => ?_
      obtain ⟨e, he, hex⟩ := map_eq_some_iff.mp hx
      cases hex
      exact elapsed_of_not_current (hfresh e he)
  · rw [MemoryCache.increment, MemoryCache.store, if_neg hadm]
    exact .rest _

theorem cleanup_move {s : Slot CacheValue} (now : Time) :
    (cacheCounter window).Move now (cacheView s) none (cacheView (s.swept now)) := by
  cases s with
  | none => exact .rest _
  | some e =>
    by_cases he : e.expired now
    · have hgone : Slot.swept (some e) now = none := by simp [Slot.swept, he]
      rw [hgone]
      refine .drop _ _ (elapsed_of_not_current ?_)
      rw [Bool.eq_false_iff]
      intro hcur
      rw [e.not_expired_of_current hcur] at he
      cases he
    · rw [Slot.swept_some (Bool.eq_false_iff.mpr he)]
      exact .rest _

namespace LocalRateLimiter

variable {l : LocalRateLimiter} {key : String} {window : Duration}

theorem lookup_increment_ne (hk : k ≠ key) :
    (l.increment now key window).2.entries.lookup k = l.entries.lookup k := by
  unfold increment
  split
  · exact AList.lookup_insert_ne hk
  · split
    · rfl
    · exact AList.lookup_insert_ne hk

/-- What the table makes of a request: a count, or no place. -/
def verdict (l : LocalRateLimiter) (now : Time) (key : String) (window : Duration) : Option ℕ :=
  if l.full key then none else some (l.increment now key window).1

/-- A key whose window is over, or that has none, is given a new one. -/
theorem increment_new (hfull : ¬ l.full key)
    (hover : (l.entries.lookup key).filter (fun e => !decide (e.windowEnd < now)) = none) :
    l.increment now key window =
      (1, { l with entries := l.entries.insert key ⟨1, now + window⟩ }) := by
  rw [increment, hover]
  exact if_neg hfull

/-- `increment` is a move of the table's counter. -/
theorem increment_move (hpos : ∀ n x, localView (l.entries.lookup key) = some (n, x) → 0 < n) :
    (localCounter window).Move now (localView (l.entries.lookup key)) (l.verdict now key window)
      (localView ((l.increment now key window).2.entries.lookup key)) := by
  unfold verdict
  by_cases hfull : l.full key
  · rw [if_pos hfull, increment_full hfull]
    exact .rest _
  · rw [if_neg hfull]
    cases hlook : l.entries.lookup key with
    | none =>
      rw [increment_new hfull (by rw [hlook, filter_none]), AList.lookup_insert]
      exact .opens none nofun
    | some e =>
      by_cases hover : e.windowEnd < now
      · have hgone : (l.entries.lookup key).filter
            (fun e => !decide (e.windowEnd < now)) = none := by
          rw [hlook, filter_some_neg (by simpa using hover)]
        rw [increment_new hfull hgone, AList.lookup_insert]
        refine .opens _ fun n x hx => ?_
        cases hx
        exact hover
      · have hnext : l.increment now key window =
            (e.count + 1,
              { l with entries := l.entries.insert key ⟨e.count + 1, e.windowEnd⟩ }) := by
          rw [increment, hlook, filter_some_pos (by simpa using hover)]
        rw [hnext, AList.lookup_insert]
        exact .count _ _ (hpos _ _ (by rw [hlook]; rfl))

theorem evict_move :
    (localCounter window).Move now (localView (l.entries.lookup k)) none
      (localView ((l.evict now).entries.lookup k)) := by
  have hlook : (l.evict now).entries.lookup k =
      (l.entries.lookup k).filter fun e => !decide (e.windowEnd < now) :=
    lookup_filter l.entries (fun e => !decide (e.windowEnd < now)) k
  rw [hlook]
  cases l.entries.lookup k with
  | none => exact .rest _
  | some e =>
    by_cases hover : e.windowEnd < now
    · rw [filter_some_neg (by simpa using hover)]
      exact .drop _ _ hover
    · rw [filter_some_pos (by simpa using hover)]
      exact .rest _

end LocalRateLimiter

/-! ### Whole runs -/

section Runs

variable {P R : Type} [DecidableEq P] (cfg : RateLimitConfig R)

def Fresh (s : RateState P) : Prop :=
  (∀ r, s.cache.slot (cfg.key r) = none) ∧ ∀ p, s.tables p = new

/-- The clock does not go back, and nobody else writes under the limiter's keys. -/
def Orderly (s : RateState P) (e : RateEvent P R) : Prop :=
  s.clock ≤ e.now ∧
    match e with
    | .write _ key _ _ => ∀ r, key ≠ cfg.key r
    | .delete _ key => ∀ r, key ≠ cfg.key r
    | _ => True

/-- What the cache's counter of a key was read as. -/
def cacheReading (k : String) : RateEvent P R × Option RateAnswer → Option (Time × ℕ)
  | (.request _ now r _, some a) => if cfg.key r = k then a.cached.map (now, ·) else none
  | _ => none

/-- What a process's counter of a key was read as. -/
def localReading (q : P) (k : String) : RateEvent P R × Option RateAnswer → Option (Time × ℕ)
  | (.request p now r _, some a) =>
    if p = q ∧ cfg.key r = k then
      match a.fallback with
      | some (.count n) => some (now, n)
      | _ => none
    else none
  | _ => none

variable {cfg} {s : RateState P} {j : List (RateEvent P R × Option RateAnswer)}

theorem filterMap_cons_toList {α β : Type} (f : α → Option β) (x : α) (l : List α) :
    (x :: l).filterMap f = (f x).toList ++ l.filterMap f := by
  cases hx : f x with
  | none => rw [filterMap_cons_none hx]; rfl
  | some => rw [filterMap_cons_some hx]; rfl

/-- The cache's counter of a key moves as a fixed-window counter. -/
theorem cache_trail (h : (limiter cfg true).Journal (Fresh cfg) (Orderly cfg) s j) (r₀ : R) :
    (cacheCounter cfg.window).Trail (cacheView (s.cache.slot (cfg.key r₀))) s.clock
      (j.filterMap (cacheReading cfg (cfg.key r₀))) := by
  induction h with
  | @start s hinit =>
    rw [hinit.1 r₀]
    exact .start _
  | @next s j e hprev hok ih =>
    rw [filterMap_cons_toList]
    cases e with
    | request p now r lost =>
      have hstep : (limiter cfg true).step s (.request p now r lost) =
        ((serveLimited cfg true s p now r lost).1, some (serveLimited cfg true s p now r lost).2) :=
          rfl
      have hmove : (cacheCounter cfg.window).Move now (cacheView (s.cache.slot (cfg.key r₀)))
          (if cfg.key r = cfg.key r₀ then (serveLimited cfg true s p now r lost).2.cached else none)
          (cacheView ((serveLimited cfg true s p now r lost).1.cache.slot (cfg.key r₀))) := by
        rw [serveLimited_cached.1, serveLimited_cached.2]
        by_cases hk : cfg.key r = cfg.key r₀
        · rw [if_pos hk, ← hk]
          have hinc : (cacheCounter cfg.window).Move now (cacheView (s.cache.slot (cfg.key r)))
              (s.cache.increment now (cfg.key r) cfg.window).1.toOption
              (cacheView ((s.cache.increment now (cfg.key r) cfg.window).2.slot (cfg.key r))) :=
            increment_move fun n x hx => ih.count_pos (hk ▸ hx)
          match lost with
          | none => exact hinc
          | some .before => exact .rest _
          | some .after => exact hinc
        · rw [if_neg hk]
          have hsame : (s.cache.increment now (cfg.key r) cfg.window).2.slot (cfg.key r₀) =
              s.cache.slot (cfg.key r₀) := s.cache.slot_increment_ne (Ne.symm hk)
          match lost with
          | none =>
            simp only [cacheIncrement, hsame]
            exact .rest _
          | some .before => exact .rest _
          | some .after =>
            simp only [cacheIncrement, hsame]
            exact .rest _
      have hread : cacheReading cfg (cfg.key r₀)
          (request p now r lost, some (serveLimited cfg true s p now r lost).2) =
          (if cfg.key r = cfg.key r₀ then (serveLimited cfg true s p now r lost).2.cached
            else none).map (now, ·) := by
        simp only [cacheReading]
        split
        · rfl
        · rfl
      rw [hstep, hread, serveLimited_clock]
      exact ih.move hok.1 hmove
    | cleanup now =>
      show Counter.Trail _ (cacheView ((s.cache.cleanup now).slot _)) now _
      rw [s.cache.slot_cleanup]
      exact ih.move hok.1 (cleanup_move now)
    | evict => exact ih.move hok.1 (.rest _)
    | write now key value ttl =>
      show Counter.Trail _ (cacheView ((s.cache.set now key value ttl).2.slot _)) now _
      rw [s.cache.slot_set_ne (hok.2 r₀).symm]
      exact ih.move hok.1 (.rest _)
    | delete now key =>
      show Counter.Trail _ (cacheView ((s.cache.delete key).slot _)) now _
      rw [s.cache.slot_delete, if_neg (hok.2 r₀).symm]
      exact ih.move hok.1 (.rest _)

theorem local_trail (h : (limiter cfg true).Journal (Fresh cfg) (Orderly cfg) s j) (q : P)
    (k : String) :
    (localCounter cfg.window).Trail (localView ((s.tables q).entries.lookup k)) s.clock
      (j.filterMap (localReading cfg q k)) := by
  induction h with
  | @start s hinit =>
    rw [hinit.2 q]
    exact .start _
  | @next s j e hprev hok ih =>
    rw [filterMap_cons_toList]
    cases e with
    | request p now r lost =>
      have hstep : (limiter cfg true).step s (.request p now r lost) =
        ((serveLimited cfg true s p now r lost).1, some (serveLimited cfg true s p now r lost).2) :=
          rfl
      rw [hstep]
      rcases serveLimited_fallback cfg s p now r lost with ⟨hnone, htab⟩ | ⟨hsome, htab⟩
      · -- the table was not asked
        have hread : localReading cfg q k
            (request p now r lost, some (serveLimited cfg true s p now r lost).2) = none := by
          simp only [localReading, hnone]
          split
          · rfl
          · rfl
        rw [hread, htab, serveLimited_clock]
        exact ih.move hok.1 (.rest _)
      · by_cases hk : p = q ∧ cfg.key r = k
        · obtain ⟨rfl, rfl⟩ := hk
          have hread : localReading cfg p (cfg.key r)
              (request p now r lost, some (serveLimited cfg true s p now r lost).2) =
              ((s.tables p).verdict now (cfg.key r) cfg.window).map (now, ·) := by
            simp only [localReading, hsome, and_self, if_true, verdict]
            cases (s.tables p).full (cfg.key r) <;> rfl
          rw [hread, htab, update_self, serveLimited_clock]
          exact ih.move hok.1 (LocalRateLimiter.increment_move fun _ _ => ih.count_pos)
        · have hread : localReading cfg q k
              (request p now r lost, some (serveLimited cfg true s p now r lost).2) = none := by
            simp only [localReading]
            rw [if_neg hk]
          have hsame : (update s.tables p
              ((s.tables p).increment now (cfg.key r) cfg.window).2 q).entries.lookup k =
              (s.tables q).entries.lookup k := by
            by_cases hq : q = p
            · subst hq
              rw [update_self]
              exact lookup_increment_ne fun h => hk ⟨rfl, h.symm⟩
            · rw [update_of_ne hq]
          rw [hread, htab, serveLimited_clock, hsame]
          exact ih.move hok.1 (.rest _)
    | cleanup | write | delete => exact ih.move hok.1 (.rest _)
    | evict p now =>
      show Counter.Trail _
        (localView ((update s.tables p ((s.tables p).evict now) q).entries.lookup k))
        now _
      by_cases hq : q = p
      · subst hq
        rw [update_self]
        exact ih.move hok.1 evict_move
      · rw [update_of_ne hq]
        exact ih.move hok.1 (.rest _)

variable (cfg) in
/-- The product decides for the count a request is about to get. For the answer of a full table
`decides_maxInt64_iff` says when it does. -/
def Decisive (s : RateState P) : RateEvent P R → Prop
  | .request p now r lost =>
    ∀ n, (serveLimited cfg true s p now r lost).2.count = some n → cfg.Decides r n
  | _ => True

variable (cfg) in
/-- A request of a key that was admitted on the cache's count. -/
def admittedByCache (k : String) : RateEvent P R × Option RateAnswer → Bool
  | (.request _ _ r _, some a) => decide (cfg.key r = k) && a.told && a.admitted
  | _ => false

variable (cfg) in
/-- A request of a key that was admitted on the count of a process. -/
def admittedByTable (q : P) (k : String) : RateEvent P R × Option RateAnswer → Bool
  | (.request p _ r _, some a) =>
    decide (p = q) && decide (cfg.key r = k) && a.fallback.isSome && a.admitted
  | _ => false

variable (cfg) in
/-- A run from nothing counted, in which the product of each count and weight decides. -/
abbrev Decided (s : RateState P) (j : List (RateEvent P R × Option RateAnswer)) : Prop :=
  (limiter cfg true).Journal (Fresh cfg) (fun s e => Orderly cfg s e ∧ Decisive cfg s e) s j

theorem Decided.orderly (h : Decided cfg s j) :
    (limiter cfg true).Journal (Fresh cfg) (Orderly cfg) s j :=
  h.mono fun _ _ hok => hok.1

section Request

variable {p : P} {r : R} {lost : Option Lost} {a : RateAnswer} {n : ℕ}

section

variable (h : Decided cfg s j) (hx : (RateEvent.request p now r lost, some a) ∈ j)
include h hx

/-- What a run says of one request: it was served in some state, on a count that decides. -/
theorem served_of_mem :
    ∃ s' : RateState P, a = (serveLimited cfg true s' p now r lost).2 ∧
      ∀ n, a.count = some n → cfg.Decides r n := by
  obtain ⟨s', _, _, ⟨-, hdec⟩, ha⟩ := h.of_mem hx
  have ha' : a = (serveLimited cfg true s' p now r lost).2 := some.inj ha
  exact ⟨s', ha', fun n hn => hdec n (ha' ▸ hn)⟩

theorem response_of_mem :
    a.response = (a.count.map (cfg.decision now r)).getD (.unavailable cfg.retryAfter) := by
  obtain ⟨s', rfl, -⟩ := served_of_mem h hx
  exact serveLimited_decision cfg s' p now r lost

theorem not_admitted_of_uncounted (hn : a.count = none) : a.admitted = false := by
  have hresp := response_of_mem h hx
  rw [hn] at hresp
  rw [RateAnswer.admitted, hresp]
  rfl

end

theorem admitted_iff_of_response :
    a.admitted ↔ ∃ headers, a.response = .next headers := by
  unfold RateAnswer.admitted
  cases a.response with
  | next headers => exact ⟨fun _ => ⟨headers, rfl⟩, fun _ => rfl⟩
  | tooManyRequests | unavailable => exact ⟨nofun, (fun ⟨_, h⟩ => nomatch h)⟩

section

variable (h : Decided cfg s j) (hx : (RateEvent.request p now r lost, some a) ∈ j)
include h hx

/-- A request of a run is admitted exactly on a small enough product. -/
theorem admitted_iff (hn : a.count = some n) :
    a.admitted ↔ (n : ℤ) * (cfg.weigh r).toInt ≤ cfg.limit.toInt := by
  obtain ⟨-, -, hdec⟩ := served_of_mem h hx
  have hresp : a.response = cfg.decision now r n := by
    rw [response_of_mem h hx, hn]
    rfl
  rw [admitted_iff_of_response, hresp]
  exact decision_admits_iff (hdec n hn)

/-- A count that was admitted is within the limit over the weight. -/
theorem count_le_of_admitted (hn : a.count = some n) (hadm : a.admitted) :
    n ≤ (cfg.limit.toInt / (cfg.weigh r).toInt).toNat := by
  have hle := (admitted_iff h hx hn).mp hadm
  have hw := cfg.one_le_weigh r
  have hdiv : (n : ℤ) ≤ cfg.limit.toInt / (cfg.weigh r).toInt :=
    (Int.le_ediv_iff_mul_le (by lia)).mpr hle
  lia

theorem told_of_fallback {f : Fallback} (hf : a.fallback = some f) : a.told = false := by
  obtain ⟨s', rfl, -⟩ := served_of_mem h hx
  exact serveLimited_told_of_fallback hf

end

/-- A request that found no place in the table is refused, whatever the limit, unless that is the
largest number there is. -/
theorem not_admitted_of_full (hlimit : cfg.limit ≠ Int64.maxValue) (h : Decided cfg s j)
    (hx : (request p now r lost, some a) ∈ j) (hfull : a.fallback = some .full) :
    a.admitted = false := by
  have hcount : a.count = some maxInt64 := by
    rw [RateAnswer.count, told_of_fallback h hx hfull, hfull]
    rfl
  have hw := cfg.one_le_weigh r
  have hmax : cfg.limit.toInt < 2 ^ 63 - 1 := by
    have hle : cfg.limit.toInt < 2 ^ 63 := cfg.limit.toInt_lt
    have hne : cfg.limit.toInt ≠ 2 ^ 63 - 1 := fun h => hlimit (Int64.toInt_inj.mp h)
    lia
  rw [Bool.eq_false_iff, Ne, admitted_iff h hx hcount, not_le]
  calc cfg.limit.toInt < 2 ^ 63 - 1 := hmax
    _ = (maxInt64 : ℤ) * 1 := by rfl
    _ ≤ (maxInt64 : ℤ) * (cfg.weigh r).toInt := Int.mul_le_mul_of_nonneg_left hw (by decide)

end Request

variable {x : RateEvent P R × Option RateAnswer}

/-- What is admitted on the cache's count was read by the cache's counter as no more than the
budget. -/
theorem cacheReading_of_admitted (h : Decided cfg s j) (hx : x ∈ j)
    (htaken : admittedByCache cfg k x) :
    ∃ p now r lost a n, x = (request p now r lost, some a) ∧ cfg.key r = k ∧
      cacheReading cfg k x = some (now, n) ∧ n ≤ (cfg.limit.toInt / (cfg.weigh r).toInt).toNat := by
  match x with
  | (.request p now r lost, some a) =>
    simp only [admittedByCache, Bool.and_eq_true, decide_eq_true_eq] at htaken
    obtain ⟨⟨hk, htold⟩, hadm⟩ := htaken
    have hcount : a.count = a.cached := by rw [RateAnswer.count, if_pos htold]
    cases hc : a.cached with
    | none =>
      rw [not_admitted_of_uncounted h hx (hcount.trans hc)] at hadm
      cases hadm
    | some n =>
      refine ⟨p, now, r, lost, a, n, rfl, hk, ?_, count_le_of_admitted h hx (hcount.trans hc) hadm⟩
      simp only [cacheReading, hk, if_true, hc, map_some]
  | (.request _ _ _ _, none) | (.cleanup _, _) | (.evict _ _, _) | (.write _ _ _ _, _)
  | (.delete _ _, _) => cases htaken

/-- The same of a process's counter; a full table admits nobody. -/
theorem localReading_of_admitted {q : P} (hlimit : cfg.limit ≠ Int64.maxValue)
    (h : Decided cfg s j) (hx : x ∈ j) (htaken : admittedByTable cfg q k x) :
    ∃ p now r lost a n, x = (request p now r lost, some a) ∧ cfg.key r = k ∧
      localReading cfg q k x = some (now, n) ∧
        n ≤ (cfg.limit.toInt / (cfg.weigh r).toInt).toNat := by
  match x with
  | (.request p now r lost, some a) =>
    simp only [admittedByTable, Bool.and_eq_true, decide_eq_true_eq] at htaken
    obtain ⟨⟨⟨hp, hk⟩, hfall⟩, hadm⟩ := htaken
    obtain ⟨f, hf⟩ := isSome_iff_exists.mp hfall
    cases f with
    | full =>
      rw [not_admitted_of_full hlimit h hx hf] at hadm
      cases hadm
    | count n =>
      have hcount : a.count = some n := by
        rw [RateAnswer.count, told_of_fallback h hx hf, hf]
        rfl
      refine ⟨p, now, r, lost, a, n, rfl, hk, ?_, count_le_of_admitted h hx hcount hadm⟩
      simp only [localReading, hp, hk, and_self, if_true, hf]
  | (.request _ _ _ _, none) | (.cleanup _, _) | (.evict _ _, _) | (.write _ _ _ _, _)
  | (.delete _ _, _) => cases htaken

/-- **The budget of a limiter.** In every run from nothing counted, over any number of processes and
with the cache failing at any points, in which the product of each count and weight decides and the
limit is below the largest `int64`:

* a counted request is admitted exactly when its count times its weight is at most the limit, and a
  request that is not counted, that a fail-closed limiter could not count with the cache, or that
  found no place in the table, is refused;
* of a key whose requests all weigh `w`, no window of the cache's counter and no window of a
  process's counter admits more than the limit over `w`, rounded down;
* a window of the cache opens only when the time of every earlier one has passed, and a window of a
  process only after it has. -/
theorem rate_limit_budget (hlimit : cfg.limit ≠ Int64.maxValue) (h : Decided cfg s j) :
    (∀ p now r lost a, (RateEvent.request p now r lost, some a) ∈ j →
      (∀ n, a.count = some n →
        (a.admitted ↔ (n : ℤ) * (cfg.weigh r).toInt ≤ cfg.limit.toInt)) ∧
      (a.count = none → a.admitted = false) ∧
      (cfg.failClosed → a.told = false → a.admitted = false) ∧
      (a.fallback = some .full → a.admitted = false)) ∧
    (∀ r₀ w,
      (∀ p now r lost a, (RateEvent.request p now r lost, some a) ∈ j → cfg.key r = cfg.key r₀ →
        (cfg.weigh r).toInt = w) →
      ∀ newer b older, j = newer ++ b ++ older →
        (Counter.Within (b.filterMap (cacheReading cfg (cfg.key r₀))) →
          b.countP (admittedByCache cfg (cfg.key r₀)) ≤ (cfg.limit.toInt / w).toNat) ∧
        ∀ q, Counter.Within (b.filterMap (localReading cfg q (cfg.key r₀))) →
          b.countP (admittedByTable cfg q (cfg.key r₀)) ≤ (cfg.limit.toInt / w).toNat) ∧
    (∀ r₀ newer y older, j.filterMap (cacheReading cfg (cfg.key r₀)) = newer ++ y :: older →
      y.2 = 1 → ∀ z ∈ older, z.2 = 1 → 0 < cfg.window ∧ z.1 + cfg.window ≤ y.1) ∧
    (∀ q r₀ newer y older,
      j.filterMap (localReading cfg q (cfg.key r₀)) = newer ++ y :: older →
      y.2 = 1 → ∀ z ∈ older, z.2 = 1 → z.1 + cfg.window < y.1) := by
  refine ⟨?_, ?_, ?_, ?_⟩
  · intro p now r lost a hx
    refine ⟨fun _ => admitted_iff h hx, not_admitted_of_uncounted h hx,
      fun hclosed htold => ?_, not_admitted_of_full hlimit h hx⟩
    obtain ⟨s', rfl, -⟩ := served_of_mem h hx
    rw [RateAnswer.admitted, serveLimited_failClosed hclosed htold]
  · intro r₀ w hweigh newer b older hj
    have hmem : ∀ x ∈ b, x ∈ j := fun x hx => by
      rw [hj]
      exact List.mem_append_left _ (List.mem_append_right _ hx)
    refine ⟨fun hwithin => ?_, fun q hwithin => ?_⟩
    · refine (cache_trail h.orderly r₀).countP_le hj hwithin fun x hx htaken => ?_
      obtain ⟨p, now, r, lost, a, n, rfl, hk, hread, hle⟩ :=
        cacheReading_of_admitted h (hmem x hx) htaken
      rw [hweigh p now r lost a (hmem _ hx) hk] at hle
      exact ⟨_, hread, hle⟩
    · refine (local_trail h.orderly q (cfg.key r₀)).countP_le hj hwithin fun x hx htaken => ?_
      obtain ⟨p, now, r, lost, a, n, rfl, hk, hread, hle⟩ :=
        localReading_of_admitted hlimit h (hmem x hx) htaken
      rw [hweigh p now r lost a (hmem _ hx) hk] at hle
      exact ⟨_, hread, hle⟩
  · intro r₀ newer y older hl hy z hz hz1
    obtain ⟨t, ht, hle⟩ :=
      (cache_trail h.orderly r₀).spaced cacheCounter_mono newer y older hl hy z hz hz1
    have hexp : expiryOf z.1 cfg.window = some t := ht
    unfold expiryOf at hexp
    split at hexp
    · next hpos =>
      cases hexp
      exact ⟨hpos, hle⟩
    · cases hexp
  · intro q r₀ newer y older hl hy z hz hz1
    exact (local_trail h.orderly q (cfg.key r₀)).spaced localCounter_mono newer y older
      hl hy z hz hz1

end Runs

namespace Sample

/-- Ten a minute, with every request weighing two. -/
def reset : RateLimitConfig ℕ where
  limit := 10
  window := Duration.minute
  keyFunc n := String.ofList (List.replicate n 'x')
  failClosed := false
  weight := some fun _ => 2
  name := "reset"

def quiet : RateState Unit := ⟨MemoryCache.new 0, fun _ => new, 0⟩

theorem quiet_fresh : Fresh reset quiet := ⟨fun _ => rfl, fun _ => rfl⟩

/-- A request of the first key at an instant, with the cache there or away. -/
def ask (now : Time) (lost : Option Lost) : RateEvent Unit ℕ := .request () now 0 lost

theorem decided_ask {s : RateState Unit} {j : _} {lost : Option Lost}
    (h : Decided reset s j) (hnow : s.clock ≤ now)
    (htest : (serveLimited reset true s () now 0 lost).2.count.all (fun n => decide (n ≤ 100))) :
    Decided reset ((limiter reset true).step s (ask now lost)).1
      ((ask now lost, ((limiter reset true).step s (ask now lost)).2) :: j) := by
  refine h.next ⟨⟨hnow, trivial⟩, fun n hn => ?_⟩
  rw [hn, all_some, decide_eq_true_eq] at htest
  have hweigh : (reset.weigh 0).toInt = 2 := by decide
  refine .inl ?_
  rw [RateLimitConfig.Fits, hweigh, maxInt64]
  lia

/-- Two requests that the cache counts and one that it does not. -/
def morning : RateState Unit × List (RateEvent Unit ℕ × Option RateAnswer) :=
  (limiter reset true).feed quiet [] [ask 0 none, ask 1 none, ask 2 (some .before)]

theorem morning_decided : Decided reset morning.1 morning.2 := by
  refine decided_ask (decided_ask (decided_ask (.start quiet_fresh) ?_ ?_) ?_ ?_) ?_ ?_
  all_goals decide +kernel

theorem morning_budget :
    (∀ q, morning.2.countP (admittedByTable reset q (reset.key 0)) ≤ 5) ∧
      morning.2.countP (admittedByCache reset (reset.key 0)) ≤ 5 := by
  obtain ⟨-, hbudget, -⟩ := rate_limit_budget (by decide) morning_decided
  have hweigh : (reset.weigh 0).toInt = 2 := by decide
  have hwindow := hbudget 0 2 (fun _ _ _ _ _ _ _ => hweigh) [] morning.2 [] (by simp)
  refine ⟨fun q => hwindow.2 q ?_, hwindow.1 ?_⟩
  · have hread : morning.2.filterMap (localReading reset q (reset.key 0)) = [(2, 1)] := by
      decide +kernel +revert
    rw [hread]
    exact nofun
  · have hread : morning.2.filterMap (cacheReading reset (reset.key 0)) = [(1, 2), (0, 1)] := by
      decide +kernel
    rw [hread]
    intro x hx
    obtain rfl : x = (1, 2) := by simpa using hx
    decide

theorem reset_key_injective : Function.Injective reset.key := by
  intro m n h
  have hname : String.ofList (replicate m 'x') = String.ofList (replicate n 'x') :=
    String.append_right_inj _ |>.mp h
  have hlist := congrArg String.toList hname
  rw [String.toList_ofList, String.toList_ofList] at hlist
  simpa using congrArg length hlist

/-- With the cache away, the first requests of so many keys fill the table of the process. -/
theorem filled (n : ℕ) (hn : n ≤ localRLMaxEntries) :
    ∃ s j, (limiter reset true).Journal (Fresh reset) (Orderly reset) s j ∧
      s.clock = 0 ∧ (s.tables ()).entries.entries.length = n ∧
      ∀ m, n ≤ m → (s.tables ()).entries.lookup (reset.key m) = none := by
  induction n with
  | zero => exact ⟨quiet, [], .start quiet_fresh, rfl, rfl, fun _ _ => rfl⟩
  | succ n ih =>
    obtain ⟨s, j, hj, hclock, hlen, hnone⟩ := ih (by lia)
    have hfull : (s.tables ()).full (reset.key n) = false := by
      rw [full, hlen, Bool.and_eq_false_iff, decide_eq_false_iff_not]
      exact .inr (by lia)
    have hinc : (s.tables ()).increment 0 (reset.key n) reset.window = _ :=
      increment_new (Bool.eq_false_iff.mp hfull) (by rw [hnone n le_rfl, filter_none])
    have hok : Orderly reset s (.request () 0 n (some .before)) := ⟨hclock.le, trivial⟩
    have htable : ((limiter reset true).step s (.request () 0 n (some .before))).1.tables () =
        ((s.tables ()).increment 0 (reset.key n) reset.window).2 := rfl
    refine ⟨_, _, hj.next hok, serveLimited_clock, ?_, ?_⟩
    · rw [htable, hinc, AList.entries_insert_of_notMem (AList.lookup_eq_none.mp (hnone n le_rfl)),
        length_cons, hlen]
    · intro m hm
      rw [htable, hinc, AList.lookup_insert_ne fun h => by have := reset_key_injective h; lia]
      exact hnone m (by lia)

/-- The next request finds no place, is counted as the largest `int64`, and is admitted: twice that
number is minus two. -/
theorem full_table_admits :
    ∃ s j, (limiter reset true).Journal (Fresh reset) (Orderly reset) s j ∧
      ∃ now r lost a, (RateEvent.request () now r lost, some a) ∈ j ∧ a.count = some maxInt64 ∧
        reset.limit.toInt < (maxInt64 : ℤ) * (reset.weigh r).toInt ∧ a.admitted := by
  obtain ⟨s, j, hj, hclock, hlen, hnone⟩ := filled localRLMaxEntries le_rfl
  have hfull : (s.tables ()).full (reset.key localRLMaxEntries) := by
    rw [LocalRateLimiter.full, hlen, hnone _ le_rfl]
    rfl
  have hok : Orderly reset s (.request () 0 localRLMaxEntries (some .before)) :=
    ⟨hclock.le, trivial⟩
  refine ⟨_, _, hj.next hok, 0, localRLMaxEntries, some .before, _, List.mem_cons_self .., ?_,
    by decide, ?_⟩
  · show RateAnswer.count ⟨none, false,
      some (if (s.tables ()).full (reset.key localRLMaxEntries) then .full else _), _⟩ = _
    rw [hfull]
    rfl
  · show RateAnswer.admitted ⟨none, false, _, reset.decision 0 localRLMaxEntries
      ((s.tables ()).increment 0 (reset.key localRLMaxEntries) reset.window).1⟩
    rw [LocalRateLimiter.increment_full hfull]
    have hnext : reset.decision 0 localRLMaxEntries maxInt64 =
        .next (some (reset.headers 0 localRLMaxEntries maxInt64)) := by decide
    rw [hnext]
    rfl

end Sample

end Vault42.Middleware
