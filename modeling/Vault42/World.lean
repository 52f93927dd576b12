import Vault42.Framework.System
import Vault42.Cache.Memory
import Vault42.Postgres.RefreshToken

/-!
# The components the service talks to

Every request handler of the service is a `Program` over the signature `vault`: the clock, the
random source, the user, device and token tables, the cache, the password hasher, the token signer,
the audit log. `World` is the state of all of them, and `answer` is what one call does to it.

A call is atomic. For the database that is one SQL statement outside a transaction, and one
statement inside it otherwise: `TokenCall` has the statements of `CreateWithinCap` and
`lockThenWrite` one by one.

A call can also fail without effect (`Fault`): a store or the cache is unreachable, or the Argon2
semaphore is full. Randomness and signing do not fail here; where the source gives up on such a
failure it has touched nothing yet.
-/

namespace Vault42

open Framework

/-! ### Keys, jobs and audit events -/

/-- The cache keys, one constructor for each shape of key the service renders. -/
inductive CacheKey where
  | accountLockout (u : UserID)
  /-- `lockout:U|ip` in generation zero, `lockout:U|gN|ip` in generation `N`. -/
  | sourceLockout (u : UserID) (ip : IPAddr) (generation : ℕ)
  | lockoutGeneration (u : UserID)
  | ipLockout (ip : IPAddr)
  /-- `auththrottle:` and the peppered digest of an address. -/
  | identityThrottle (email : String)
  | lockNotified (u : UserID)
  | challengeUsed (jti : UUID)
  | pwresetUser (u : UserID)
  /-- `reset:` and the digest of a reset token. -/
  | reset (h : TokenHash)
  | confirm (u : UserID)
  | importClaimSent (u : UserID)
  | forcedResetSent (u : UserID)
  | emailOTP (u : UserID)
  /-- `totp_used:U:step` -/
  | totpUsed (u : UserID) (step : ℕ)
  /-- `webauthn_auth:U` -/
  | webauthnAuth (u : UserID)
  /-- `oauth_code:`, the digest of an exchange code and the fingerprint it was issued to. -/
  | oauthCode (code : UUID) (fp : Fingerprint)
deriving DecidableEq, Repr

/-- The keys that hold lockout state of an account. -/
def CacheKey.lockout : CacheKey → Bool
  | .accountLockout _ => true
  | .sourceLockout _ _ _ => true
  | .lockoutGeneration _ => true
  | _ => false

/-- Work handed to `deferwork`, which outlives the request. -/
inductive Job where
  | importClaimLink (u : UserID)
  | forcedResetLink (u : UserID)
  | accountLockedMail (u : UserID)
  | emailOTP (u : UserID)
  | newCountryNotice (u : UserID)
  | honeypotAlert (email : String)
  /-- The mail that carries a reset token. -/
  | resetMail (u : UserID) (token : UUID)
deriving DecidableEq, Repr

/-- The kinds of audit event the modelled code writes. -/
inductive AuditKind where
  | loginFailure
  | loginSuccess
  | tokenRefresh
  | tokenRevoke
  | refreshTokenReplayed
  | fingerprintAnomaly
  | dpopBindingMismatch
  | rateLimit
  | passwordReset
  | passwordChange
  | twoFASetup
  | twoFAVerify
  | authenticatorCloned
  | oauth2Callback
deriving DecidableEq, Repr

/-- An audit row: its kind, the account, and the part of the metadata that says why. -/
structure AuditEvent where
  kind : AuditKind
  userID : UserID
  reason : String
  /-- `family_revoked`, which only a contained replay writes. -/
  familyRevoked : Option Bool
deriving DecidableEq, Repr

/-! ### The calls -/

/-- The statements of the refresh-token repository. -/
inductive TokenCall where
  | getByTokenHash (h : TokenHash)
  | familyOrigin (f : UUID)
  | countActiveFamilies (u : UserID)
  | create (tok : RefreshToken)
  | markUsed (id : UUID)
  | deleteExpired
  | deleteExpiredUnused
  | begin
  | lockSessions (u : UserID)
  | countInTxn (u : UserID)
  | insertInTxn (tok : RefreshToken)
  | lockScope (sc : Scope)
  | revokeScope (sc : Scope)
  | commit
  | rollback

/-- What a statement of the refresh-token repository reports. -/
abbrev TokenCall.Reply : TokenCall → Type
  | getByTokenHash _ => Except StoreError (Option RefreshToken)
  | familyOrigin _ => Except StoreError Time
  | countActiveFamilies _ => Except StoreError ℕ
  | create _ => Except StoreError InsertOutcome
  | markUsed _ => Except StoreError Bool
  | deleteExpired => Except StoreError ℕ
  | deleteExpiredUnused => Except StoreError ℕ
  | begin => Except StoreError Unit
  | lockSessions _ => Except StoreError Unit
  | countInTxn _ => Except StoreError ℕ
  | insertInTxn _ => Except StoreError InsertOutcome
  | lockScope _ => Except StoreError Unit
  | revokeScope _ => Except StoreError Unit
  | commit => Except StoreError Unit
  | rollback => Unit

/-- What `vaultcrypto.VerifyPassword` reports. -/
inductive VerifyOutcome where
  | verified (valid : Bool)
  /-- The stored hash cannot be parsed. -/
  | malformed
  /-- `ErrArgon2Overloaded`. -/
  | overloaded
deriving DecidableEq, Repr

/-- The calls of the service to its components. -/
inductive Call where
  | now
  /-- `RandomUUID`, `RandomToken`, `RandomHex`. -/
  | random
  | sleep (d : Duration)
  | getByEmail (email : String)
  | getByID (u : UserID)
  | incrementFailedLogin (u : UserID)
  | resetFailedLogin (u : UserID)
  | setLastLogin (u : UserID)
  | updatePassword (u : UserID) (hash : PasswordHash)
  | clearImportPending (u : UserID)
  | clearMustResetPassword (u : UserID)
  | recentPasswords (u : UserID) (n : ℕ)
  | recordPassword (u : UserID) (hash : PasswordHash)
  | deviceByFingerprint (u : UserID) (fp : Fingerprint)
  | createDevice (d : Device)
  | updateLastSeen (id : UUID)
  | tokens (q : TokenCall)
  | cacheGet (k : CacheKey)
  | cacheSet (k : CacheKey) (v : CacheValue) (ttl : Duration)
  | cacheDelete (k : CacheKey)
  | cacheGetAndDelete (k : CacheKey)
  | cacheSetIfNotExists (k : CacheKey) (v : CacheValue) (ttl : Duration)
  | cacheIncrement (k : CacheKey) (ttl : Duration)
  | rateLimitGet (key : String) (window : Time)
  | rateLimitIncrement (key : String) (window : Time)
  /-- The process-local latch `lockoutCounterRefusedAt`. -/
  | refusedAtLoad
  | refusedAtStore (at_ : Time)
  | verifyPassword (password : String) (hash : PasswordHash)
  | hashPassword (password : String)
  | isBreached (password : String)
  | mfaStatus (u : UserID)
  | checkSecondFactor (u : UserID) (method : String) (code : String)
  | roleCatalog
  | signChallenge (claims : ChallengeClaims)
  | verifyChallenge (claims : ChallengeClaims)
  | audit (e : AuditEvent)
  | deferwork (j : Job)

abbrev Call.Reply : Call → Type
  | now => Time
  | random => UUID
  | sleep _ => Unit
  | getByEmail _ => Except StoreError (Option User)
  | getByID _ => Except StoreError (Option User)
  | incrementFailedLogin _ => Except StoreError Unit
  | resetFailedLogin _ => Except StoreError Unit
  | setLastLogin _ => Except StoreError Unit
  | updatePassword _ _ => Except StoreError Bool
  | clearImportPending _ => Except StoreError Unit
  | clearMustResetPassword _ => Except StoreError Unit
  | recentPasswords _ _ => Except StoreError (List PasswordHash)
  | recordPassword _ _ => Except StoreError Unit
  | deviceByFingerprint _ _ => Except StoreError (Option Device)
  | createDevice _ => Except StoreError Unit
  | updateLastSeen _ => Except StoreError Unit
  | tokens q => q.Reply
  | cacheGet _ => Except CacheError (Option CacheValue)
  | cacheSet _ _ _ => Except CacheError Unit
  | cacheDelete _ => Except CacheError Unit
  | cacheGetAndDelete _ => Except CacheError (Option CacheValue)
  | cacheSetIfNotExists _ _ _ => Except CacheError Bool
  | cacheIncrement _ _ => Except CacheError ℕ
  | rateLimitGet _ _ => Except StoreError ℕ
  | rateLimitIncrement _ _ => Except StoreError ℕ
  | refusedAtLoad => Time
  | refusedAtStore _ => Unit
  | verifyPassword _ _ => VerifyOutcome
  | hashPassword _ => Option PasswordHash
  | isBreached _ => Bool
  | mfaStatus _ => Except StoreError (List String)
  | checkSecondFactor _ _ _ => Bool
  | roleCatalog => Option (List String)
  | signChallenge _ => Unit
  | verifyChallenge _ => Bool
  | audit _ => Unit
  | deferwork _ => Unit

/-- The signature of the service's programs. -/
abbrev vault : Signature := ⟨Call, Call.Reply⟩

/-! ### The world -/

/-- **The state of all the components.** -/
structure World where
  clock : Time
  /-- The next random value. -/
  supply : ℕ
  users : List User
  /-- `auth.password_history`, the latest entry first. -/
  passwordHistory : List (UserID × PasswordHash)
  devices : List Device
  tokens : TokenStore
  cache : MemoryCache CacheKey CacheValue
  /-- `auth.rate_limits`: the count of a key in a window. -/
  rateLimits : List ((String × Time) × ℕ)
  /-- `lockoutCounterRefusedAt`; zero means never. -/
  refusedAt : Time
  /-- The second factors an account has enrolled. -/
  mfaMethods : UserID → List String
  /-- The second-factor codes that are right at this moment. -/
  rightCode : UserID → String → String → Bool
  breached : String → Bool
  /-- The role catalog, when it could be loaded. -/
  roles : Option (List String)
  /-- The challenge tokens that have been signed. -/
  signed : List ChallengeClaims
  audit : List AuditEvent
  jobs : List Job

namespace World

def updateUser (w : World) (u : UserID) (f : User → User) : World :=
  { w with users := w.users.map fun x => if x.id = u then f x else x }

def userByEmail (w : World) (email : String) : Option User :=
  w.users.find? fun u => u.email == email

def userByID (w : World) (id : UserID) : Option User := w.users.find? fun u => u.id == id

/-- The count of a rate-limit key in a window. -/
def rateLimit (w : World) (key : String) (window : Time) : ℕ :=
  (w.rateLimits.lookup (key, window)).getD 0

end World

/-- Argon2id against a stored hash. The dummy hash is of no password. -/
def verifyPassword (password : String) : PasswordHash → VerifyOutcome
  | .argon2id p _ => .verified (password == p)
  | .unparsable => .malformed
  | .dummy => .verified false

/-- How thread `t`'s statement on the token table is answered. -/
def answerTokens (t : ℕ) (w : World) : (q : TokenCall) → q.Reply × TokenStore
  | .getByTokenHash h => (.ok (w.tokens.getByTokenHash h), w.tokens)
  | .familyOrigin f => (.ok (w.tokens.familyOrigin f), w.tokens)
  | .countActiveFamilies u => (.ok (w.tokens.countActiveFamilies u w.clock), w.tokens)
  | .create tok => w.tokens.create w.users tok
  | .markUsed id => (.ok (w.tokens.markUsed id).1, (w.tokens.markUsed id).2)
  | .deleteExpired =>
    (.ok (w.tokens.reapBatch (TokenStore.expiredSpent w.clock)).1,
      (w.tokens.reapBatch (TokenStore.expiredSpent w.clock)).2)
  | .deleteExpiredUnused =>
    (.ok (w.tokens.reapBatch (TokenStore.expiredUnused w.clock)).1,
      (w.tokens.reapBatch (TokenStore.expiredUnused w.clock)).2)
  | .begin => (.ok (), w.tokens.begin t w.clock)
  | .lockSessions u => w.tokens.lockSessions t u
  | .countInTxn u =>
    match w.tokens.txnOf t with
    | none => (.error .backend, w.tokens)
    | some x => (.ok (w.tokens.countActiveFamilies u x.startedAt), w.tokens)
  | .insertInTxn tok => w.tokens.insertInTxn t w.users tok
  | .lockScope sc => w.tokens.lockScope t sc
  | .revokeScope sc => w.tokens.revokeScope t sc
  | .commit => w.tokens.commit t
  | .rollback => ((), w.tokens.rollback t)

/-- **How a call of thread `t` is answered**, and what it does to the world. -/
def answer (t : ℕ) : (c : Call) → World → c.Reply × World
  | .now, w => (w.clock, w)
  | .random, w => (w.supply, { w with supply := w.supply + 1 })
  | .sleep _, w => ((), w)
  | .getByEmail email, w => (.ok (w.userByEmail email), w)
  | .getByID u, w => (.ok (w.userByID u), w)
  | .incrementFailedLogin u, w =>
    (.ok (), w.updateUser u fun x => { x with failedLoginCount := x.failedLoginCount + 1 })
  | .resetFailedLogin u, w =>
    (.ok (), w.updateUser u fun x => { x with failedLoginCount := 0 })
  | .setLastLogin _, w => (.ok (), w)
  | .updatePassword u hash, w =>
    if w.users.any fun x => x.id == u && !x.deleted then
      (.ok true,
        w.updateUser u fun x => if x.deleted then x else { x with passwordHash := hash })
    else (.ok false, w)
  | .clearImportPending u, w => (.ok (), w.updateUser u fun x => { x with importPending := false })
  | .clearMustResetPassword u, w =>
    (.ok (), w.updateUser u fun x => { x with mustResetPassword := false })
  | .recentPasswords u n, w =>
    (.ok (((w.passwordHistory.filter fun e => e.1 == u).map Prod.snd).take n), w)
  | .recordPassword u hash, w =>
    (.ok (), { w with passwordHistory := (u, hash) :: w.passwordHistory })
  | .deviceByFingerprint u fp, w =>
    (.ok (w.devices.find? fun d => d.userID == u && d.fingerprintHash == fp), w)
  | .createDevice d, w =>
    if w.devices.any fun x => x.userID == d.userID && x.fingerprintHash == d.fingerprintHash then
      (.error .uniqueViolation, w)
    else (.ok (), { w with devices := d :: w.devices })
  | .updateLastSeen _, w => (.ok (), w)
  | .tokens q, w => ((answerTokens t w q).1, { w with tokens := (answerTokens t w q).2 })
  | .cacheGet k, w => (.ok (w.cache.get w.clock k), w)
  | .cacheSet k v ttl, w =>
    ((w.cache.set w.clock k v ttl).1, { w with cache := (w.cache.set w.clock k v ttl).2 })
  | .cacheDelete k, w => (.ok (), { w with cache := w.cache.delete k })
  | .cacheGetAndDelete k, w =>
    (.ok (w.cache.getAndDelete w.clock k).1,
      { w with cache := (w.cache.getAndDelete w.clock k).2 })
  | .cacheSetIfNotExists k v ttl, w =>
    ((w.cache.setIfNotExists w.clock k v ttl).1,
      { w with cache := (w.cache.setIfNotExists w.clock k v ttl).2 })
  | .cacheIncrement k ttl, w =>
    ((w.cache.increment w.clock k ttl).1, { w with cache := (w.cache.increment w.clock k ttl).2 })
  | .rateLimitGet key window, w => (.ok (w.rateLimit key window), w)
  | .rateLimitIncrement key window, w =>
    (.ok (w.rateLimit key window + 1),
      { w with rateLimits := ((key, window), w.rateLimit key window + 1) :: w.rateLimits })
  | .refusedAtLoad, w => (w.refusedAt, w)
  | .refusedAtStore at_, w => ((), { w with refusedAt := at_ })
  | .verifyPassword password hash, w => (verifyPassword password hash, w)
  | .hashPassword password, w =>
    (some (.argon2id password w.supply), { w with supply := w.supply + 1 })
  | .isBreached password, w => (w.breached password, w)
  | .mfaStatus u, w => (.ok (w.mfaMethods u), w)
  | .checkSecondFactor u method code, w => (w.rightCode u method code, w)
  | .roleCatalog, w => (w.roles, w)
  | .signChallenge claims, w => ((), { w with signed := claims :: w.signed })
  | .verifyChallenge claims, w =>
    (w.signed.contains claims && decide (w.clock < claims.expiresAt), w)
  | .audit e, w => ((), { w with audit := e :: w.audit })
  | .deferwork j, w => ((), { w with jobs := j :: w.jobs })

end Vault42
