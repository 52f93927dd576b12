import Vault42.Service.Token

/-!
# Lockout

The brute-force controls of `internal/service/auth.go`. Failures are counted in the cache, in three
places: per account and source address, per account over all sources, and per source address over
all accounts. A fourth counter, per submitted address, sets the delay a login attempt has to sit
out.

The per-source counters of an account cannot be enumerated, so a completed password reset retires
them all at once by advancing the account's *generation*, a number their keys carry
(`clearAccountLockout`). The generation is a counter in the same cache, with a fixed life of its
own.
-/

namespace Vault42

open Framework

def lockoutThreshold : ℕ := 5

def distributedLockoutThreshold : ℕ := 50

def ipLockoutThreshold : ℕ := 20

def lockoutDuration : Duration := 15 * Duration.minute

def lockoutGenerationTTL : Duration := 2 * lockoutDuration

def loginThrottleBase : Duration := Duration.second / 10

def loginThrottleMax : Duration := 2 * Duration.second

/-- `ClearAccountLockout`: the account-wide counter is deleted, the per-source counters are made
unaddressable by advancing the generation. -/
def clearAccountLockout (cfg : Settings) (u : UserID) : Prog (Except AuthError Unit) := do
  if !cfg.hasCache then pure (.ok ())
  else
    match ← ask (.cacheDelete (.accountLockout u)) with
    | .error _ => pure (.error .internal)
    | .ok () =>
      match ← ask (.cacheIncrement (.lockoutGeneration u) lockoutGenerationTTL) with
      | .error _ => pure (.error .internal)
      | .ok _ => pure (.ok ())

namespace AuthService

/-- `cachedCount`: the number under a key, `none` when the cache could not answer at all. An absent
key is a successful read of zero. -/
def cachedCount (k : CacheKey) : Prog (Option ℕ) := do
  match ← ask (.cacheGet k) with
  | .error _ => pure none
  | .ok none => pure (some 0)
  | .ok (some v) => pure (some v.parseInt)

def lockoutGeneration (u : UserID) : Prog (Option ℕ) := cachedCount (.lockoutGeneration u)

/-- `lockedByStoredCount`: the durable fallback. -/
def lockedByStoredCount (u : UserID) : Prog Bool := do
  match ← ask (.getByID u) with
  | .error _ => pure false
  | .ok none => pure false
  | .ok (some user) => pure (decide (lockoutThreshold ≤ user.failedLoginCount))

/-- `lockoutCountersUnwritable`: a counter was refused less than a lockout window ago. -/
def lockoutCountersUnwritable : Prog Bool := do
  let at_ ← ask .refusedAtLoad
  if at_ = 0 then pure false
  else
    let now ← ask .now
    pure (decide (now - at_ < lockoutDuration))

def noteLockoutCounterRefused : Prog Unit := do
  let now ← ask .now
  ask (.refusedAtStore now)

/-- `isAccountLocked`: the account is locked to this source. -/
def isAccountLocked (cfg : Settings) (u : UserID) (ip : IPAddr) : Prog Bool := do
  if !cfg.hasCache then lockedByStoredCount u
  else
    let unwritable ← lockoutCountersUnwritable
    match ← lockoutGeneration u with
    | none => lockedByStoredCount u
    | some generation =>
      match ← cachedCount (.sourceLockout u ip generation) with
      | none => lockedByStoredCount u
      | some perSource =>
        if perSource = 0 ∧ unwritable then lockedByStoredCount u
        else if lockoutThreshold ≤ perSource then pure true
        else
          match ← cachedCount (.accountLockout u) with
          | none => lockedByStoredCount u
          | some account =>
            if account = 0 ∧ unwritable then lockedByStoredCount u
            else pure (decide (distributedLockoutThreshold ≤ account))

/-- Advance a lockout counter, latching a refusal. -/
def advanceCounter (k : CacheKey) : Prog Unit := do
  match ← ask (.cacheIncrement k lockoutDuration) with
  | .error _ => noteLockoutCounterRefused
  | .ok _ => pure ()

/-- The per-source half of `recordFailedAttempt`. A generation that cannot be read is a counter that
cannot be advanced. -/
def advanceSourceCounter (u : UserID) (ip : IPAddr) : Prog Unit := do
  match ← lockoutGeneration u with
  | none => noteLockoutCounterRefused
  | some generation => advanceCounter (.sourceLockout u ip generation)

def recordFailedAttempt (cfg : Settings) (u : UserID) (ip : IPAddr) : Prog Unit := do
  if !cfg.hasCache then pure ()
  else
    advanceSourceCounter u ip
    advanceCounter (.accountLockout u)

/-- `clearLockout`: this source's counter, not the account-wide one. -/
def clearLockout (cfg : Settings) (u : UserID) (ip : IPAddr) : Prog Unit := do
  if !cfg.hasCache then pure ()
  else
    match ← lockoutGeneration u with
    | none => pure ()
    | some generation => do
      let _ ← ask (.cacheDelete (.sourceLockout u ip generation))
      pure ()

/-- The doubling loop of `loginThrottleDelay`: `n` doublings left, capped. -/
def doubleDelay : ℕ → Duration → Duration
  | 0, d => d
  | n + 1, d => if loginThrottleMax ≤ 2 * d then loginThrottleMax else doubleDelay n (2 * d)

def loginThrottleDelay (failures : ℕ) : Duration :=
  if failures ≤ lockoutThreshold then 0
  else doubleDelay (failures - (lockoutThreshold + 1)) loginThrottleBase

def throttleLogin (cfg : Settings) (email : String) : Prog Unit := do
  if !cfg.hasCache then pure ()
  else
    match ← cachedCount (.identityThrottle email) with
    | none => pure ()
    | some n =>
      if loginThrottleDelay n ≤ 0 then pure () else ask (.sleep (loginThrottleDelay n))

def recordIdentityFailure (cfg : Settings) (email : String) : Prog Unit := do
  if !cfg.hasCache then pure ()
  else
    let _ ← ask (.cacheIncrement (.identityThrottle email) lockoutDuration)
    pure ()

def clearIdentityFailures (cfg : Settings) (email : String) : Prog Unit := do
  if !cfg.hasCache then pure ()
  else
    let _ ← ask (.cacheDelete (.identityThrottle email))
    pure ()

/-- `mfaVerifyLocked`, called before a second factor is checked. -/
def mfaVerifyLocked (cfg : Settings) (u : UserID) (ip : IPAddr) : Prog Bool :=
  isAccountLocked cfg u ip

def recordMFAFailure (cfg : Settings) (u : UserID) (ip : IPAddr) : Prog Unit := do
  recordFailedAttempt cfg u ip
  auditLog .loginFailure u "mfa_failed"

def truncate (t : Time) (d : Duration) : Time := t - t % d

def isIPLocked (cfg : Settings) (ip : IPAddr) : Prog Bool := do
  if ip = "" then pure false
  else if !cfg.hasCache then
    if cfg.hasRateLimits then
      let now ← ask .now
      match ← ask (.rateLimitGet ("lockout_ip:" ++ ip) (truncate now lockoutDuration)) with
      | .error _ => pure false
      | .ok count => pure (decide (ipLockoutThreshold ≤ count))
    else pure false
  else
    match ← ask (.cacheGet (.ipLockout ip)) with
    | .error _ => pure false
    | .ok none => pure false
    | .ok (some v) => pure (decide (ipLockoutThreshold ≤ v.parseInt))

def recordFailedIP (cfg : Settings) (ip : IPAddr) : Prog Unit := do
  if ip = "" then pure ()
  else if !cfg.hasCache then
    if cfg.hasRateLimits then
      let now ← ask .now
      let _ ← ask (.rateLimitIncrement ("lockout_ip:" ++ ip) (truncate now lockoutDuration))
      pure ()
    else pure ()
  else
    let _ ← ask (.cacheIncrement (.ipLockout ip) lockoutDuration)
    pure ()

/-- `recordLoginFailure`: the bookkeeping every rejected login of an existing account shares. -/
def recordLoginFailure (cfg : Settings) (user : User) (ip : IPAddr) (reason : String) :
    Prog Unit := do
  let _ ← ask (.incrementFailedLogin user.id)
  recordFailedAttempt cfg user.id ip
  recordFailedIP cfg ip
  auditLog .loginFailure user.id reason
  if ← isAccountLocked cfg user.id ip then
    if cfg.hasCache && cfg.hasEmailSender then
      match ← ask (.cacheSetIfNotExists (.lockNotified user.id) (.count 1) lockoutDuration) with
      | .ok true => ask (.deferwork (.accountLockedMail user.id))
      | _ => pure ()
    else pure ()
  else pure ()

end AuthService

end Vault42
