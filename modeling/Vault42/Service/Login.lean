import Vault42.Service.Lockout
import Vault42.Service.Refresh

/-!
# Login

`AuthService.Login` with all of its branches, `trapLogin`, and `CompleteMFALogin` behind the
second-factor handlers. A login ends in a session, in a challenge for a second factor, or in a
refusal; a refusal that says anything about the account's state is given only to a caller who has
proven the password.
-/

namespace Vault42

open Framework

namespace AuthService

open RefreshTokenRepo

/-- `LoginInput`, with the address, the user agent and the DPoP thumbprint of the request. -/
structure LoginInput where
  email : String
  password : String
  rememberMe : Bool
  clientID : String
  acceptLanguage : String
  tlsFingerprint : String
  /-- Set by the transport for a first-party client that may be told about a forced reset. -/
  discloseStatus : Bool
  ip : IPAddr
  userAgent : String
  jkt : String
deriving DecidableEq, Repr

/-- The fingerprint of the device a login comes from. -/
def LoginInput.fingerprint (input : LoginInput) : Fingerprint :=
  computeFingerprint ⟨input.ip, input.userAgent, input.acceptLanguage, input.tlsFingerprint⟩

inductive LoginResult where
  | session (accessToken : AccessClaims) (expiresIn : Duration) (refreshToken : ℕ)
      (cookieMaxAge : Duration)
  /-- A second factor is owed. -/
  | challenge (token : ChallengeClaims) (methods : List String)
  /-- The fake tokens a trap address is answered with. -/
  | decoy (email : String) (expiresIn cookieMaxAge : Duration)
deriving DecidableEq, Repr

/-- `checkSessionLimit`: the soft pre-check of the session cap. -/
def checkSessionLimit (cfg : Settings) (u : UserID) : Prog (Except AuthError Unit) := do
  if cfg.maxSessionsPerUser ≤ 0 then pure (.ok ())
  else
    match ← ask (.tokens (.countActiveFamilies u)) with
    | .error _ =>
      if cfg.strictSessionLimit then
        auditLog .rateLimit u "session_limit_count_failed"
        pure (.error .tooManySessions)
      else pure (.ok ())
    | .ok count =>
      if cfg.maxSessionsPerUser ≤ count then pure (.error .tooManySessions) else pure (.ok ())

/-- The device of a login that found none: a new one, or the one a racing login just made. -/
def createDevice (u : UserID) (fp : Fingerprint) : Prog (Option UUID) := do
  let id ← ask .random
  match ← ask (.createDevice ⟨id, u, fp⟩) with
  | .ok () => pure (some id)
  | .error .backend => pure (some id)
  | .error .uniqueViolation =>
    match ← ask (.deviceByFingerprint u fp) with
    | .ok (some d) => pure (some d.id)
    | _ => pure (some id)

/-- `findOrCreateDevice`, which never fails a login. -/
def findOrCreateDevice (u : UserID) (fp : Fingerprint) : Prog (Option UUID) := do
  match ← ask (.deviceByFingerprint u fp) with
  | .ok (some d) =>
    let _ ← ask (.updateLastSeen d.id)
    pure (some d.id)
  | _ => createDevice u fp

/-- `storeRefreshToken`: the first row of a new family, inserted under the session cap. This is
where a DPoP binding is established. -/
def storeRefreshToken (cfg : Settings) (jkt : String) (u : UserID) (clientID : String)
    (deviceID : Option UUID) (fp : Fingerprint) (pair : TokenPair) :
    Prog (Except AuthError Unit) := do
  let rtID ← ask .random
  let now ← ask .now
  let r ← createWithinCap
    { id := rtID, userID := u, clientID := clientID, tokenHash := sha256Hex pair.refreshToken,
      familyID := pair.familyID, deviceID := deviceID, fingerprintHash := some fp, dpopJKT := jkt,
      expiresAt := pair.refreshExpAt, used := false, revoked := false, createdAt := now }
    cfg.maxSessionsPerUser
  match r with
  | .created => pure (.ok ())
  | .sessionLimitReached => pure (.error .tooManySessions)
  | .familyRevoked => pure (.error .internal)
  | .failed => pure (.error .internal)

/-- Mint a pair in a new family, store its refresh token and answer with it: what every login that
owes nothing more ends with. -/
def startSession (cfg : Settings) (jkt : String) (user : User) (clientID : String)
    (deviceID : Option UUID) (fp : Fingerprint) (rememberMe : Bool) (methods : List String) :
    Prog (Except AuthError LoginResult) := do
  let roles ← effectiveRoles cfg user.roles
  let authTime ← ask .now
  let pair ← TokenService.issueTokenPairWithAuth cfg jkt user.id roles ["read", "write"] clientID fp
    none rememberMe (newAuthContext authTime methods false)
  match ← storeRefreshToken cfg jkt user.id clientID deviceID fp pair with
  | .error e => pure (.error e)
  | .ok () =>
    let _ ← ask (.setLastLogin user.id)
    auditLog .loginSuccess user.id ""
    ask (.deferwork (.newCountryNotice user.id))
    let now ← ask .now
    pure (.ok (.session pair.accessToken cfg.accessTokenTTL pair.refreshToken
      (pair.refreshExpAt - now)))

/-- Burn the dummy hash and go on, unless the semaphore is full. -/
def burnDummy {α : Type} (password : String) (k : Prog (Except AuthError α)) :
    Prog (Except AuthError α) := do
  match ← ask (.verifyPassword password .dummy) with
  | .overloaded => pure (.error .argon2Overloaded)
  | _ => k

def trapCookieMaxAge (cfg : Settings) (rememberMe : Bool) : Duration :=
  let ttl := if rememberMe then cfg.rememberMeTTL else cfg.refreshTokenTTL
  if 0 < cfg.maxSessionLifetime ∧ cfg.maxSessionLifetime < ttl then cfg.maxSessionLifetime else ttl

/-- The second factors a trap subject is answered with. -/
def trapMethods (cfg : Settings) (sub : UserID) : Prog (List String) := do
  if cfg.hasMFA then
    match ← ask (.mfaStatus sub) with
    | .error _ => pure []
    | .ok ms => pure ms
  else pure []

/-- `trapLogin`: a planted credential is answered the way a success answers a real one. It stores
nothing. -/
def trapLogin (cfg : Settings) (input : LoginInput) (email : String) :
    Prog (Except AuthError LoginResult) :=
  burnDummy input.password do
    ask (.deferwork (.honeypotAlert email))
    let sub := cfg.trapSubject email
    let _ ← ask (.resetFailedLogin sub)
    clearLockout cfg sub input.ip
    clearIdentityFailures cfg email
    let methods ← trapMethods cfg sub
    if cfg.hasMFA && (!methods.isEmpty || cfg.mfaRequired) then
      let token ← TokenService.issueChallengeToken input.jkt sub input.fingerprint [methodPassword]
      auditLog .loginSuccess sub "mfa_required"
      pure (.ok (.challenge token (if methods.isEmpty then [methodEmailOTP] else methods)))
    else
      match ← checkSessionLimit cfg sub with
      | .error e => pure (.error e)
      | .ok () =>
        let _ ← ask (.deviceByFingerprint sub input.fingerprint)
        let _ ← ask (.setLastLogin sub)
        auditLog .loginSuccess sub ""
        pure (.ok (.decoy email cfg.accessTokenTTL (trapCookieMaxAge cfg input.rememberMe)))

/-- The single-step end of a login: the lockout is cleared and a session started. -/
def completeLogin (cfg : Settings) (input : LoginInput) (email : String) (user : User) :
    Prog (Except AuthError LoginResult) := do
  clearLockout cfg user.id input.ip
  clearIdentityFailures cfg email
  match ← checkSessionLimit cfg user.id with
  | .error e => pure (.error e)
  | .ok () =>
    let deviceID ← findOrCreateDevice user.id input.fingerprint
    startSession cfg input.jkt user input.clientID deviceID input.fingerprint input.rememberMe
      [methodPassword]

/-- `Login` once the password is proven and the account may sign in: challenge or session. The
cached lockout counter is not cleared while a second factor is owed. -/
def passwordProven (cfg : Settings) (input : LoginInput) (email : String) (user : User) :
    Prog (Except AuthError LoginResult) := do
  let _ ← ask (.resetFailedLogin user.id)
  if cfg.hasMFA then
    match ← ask (.mfaStatus user.id) with
    | .error _ => pure (.error .internal)
    | .ok methods =>
      if !methods.isEmpty then
        let token ←
          TokenService.issueChallengeToken input.jkt user.id input.fingerprint [methodPassword]
        auditLog .loginSuccess user.id "mfa_required"
        pure (.ok (.challenge token methods))
      else if cfg.mfaRequired then
        ask (.deferwork (.emailOTP user.id))
        let token ←
          TokenService.issueChallengeToken input.jkt user.id input.fingerprint [methodPassword]
        auditLog .loginSuccess user.id "mfa_required"
        pure (.ok (.challenge token [methodEmailOTP]))
      else completeLogin cfg input email user
  else completeLogin cfg input email user

/-- `Login` from the password check on. -/
def checkPassword (cfg : Settings) (input : LoginInput) (email : String) (user : User) :
    Prog (Except AuthError LoginResult) := do
  match ← ask (.verifyPassword input.password user.passwordHash) with
  | .overloaded => pure (.error .argon2Overloaded)
  | .verified true =>
    if user.banned then
      auditLog .loginFailure user.id "account_banned"
      pure (.error .accountBanned)
    else if user.disabled then
      auditLog .loginFailure user.id "account_disabled"
      pure (.error .accountDisabled)
    else if !user.emailVerified then
      recordLoginFailure cfg user input.ip "email_not_verified"
      pure (.error .invalidCredentials)
    else passwordProven cfg input email user
  | _ =>
    recordLoginFailure cfg user input.ip "wrong_password"
    pure (.error .invalidCredentials)

/-- `sendResetLink`: hand the mail of a login-triggered reset link to the background. -/
def sendResetLink (cfg : Settings) (link : Job) : Prog Unit :=
  if cfg.hasCache && cfg.hasEmailSender then ask (.deferwork link) else pure ()

/-- `Login` on an address that has an account: the gates before the password check, in order. -/
def loginUser (cfg : Settings) (input : LoginInput) (email : String) (user : User) :
    Prog (Except AuthError LoginResult) := do
  let now ← ask .now
  if user.lockedAt now then
    burnDummy input.password do
      recordFailedIP cfg input.ip
      auditLog .loginFailure user.id "account_locked"
      pure (.error .invalidCredentials)
  else if ← isAccountLocked cfg user.id input.ip then
    burnDummy input.password do
      recordFailedIP cfg input.ip
      auditLog .loginFailure user.id "account_locked"
      pure (.error .invalidCredentials)
  else if user.deleted then
    -- the one masked branch that does not advance the per-address counter
    burnDummy input.password do
      auditLog .loginFailure user.id "account_deleted"
      pure (.error .invalidCredentials)
  else if user.importPending then
    burnDummy input.password do
      sendResetLink cfg (.importClaimLink user.id)
      recordLoginFailure cfg user input.ip "import_claim_required"
      pure (.error .invalidCredentials)
  else if user.mustResetPassword then
    burnDummy input.password do
      sendResetLink cfg (.forcedResetLink user.id)
      recordLoginFailure cfg user input.ip "password_reset_required"
      pure (.error (if input.discloseStatus then .passwordResetRequired else .invalidCredentials))
  else checkPassword cfg input email user

/-- `Login` past the delay and the lookup of the address. -/
def loginFound (cfg : Settings) (input : LoginInput) (email : String) (found : Option User) :
    Prog (Except AuthError LoginResult) := do
  if cfg.isTrapUser email then trapLogin cfg input email
  else
    match found with
    | none =>
      burnDummy input.password do
        recordFailedIP cfg input.ip
        auditLog .loginFailure "" "user_not_found"
        pure (.error .invalidCredentials)
    | some user => loginUser cfg input email user

/-- `Login` without its deferred bookkeeping. -/
def loginBody (cfg : Settings) (input : LoginInput) (email : String) :
    Prog (Except AuthError LoginResult) := do
  throttleLogin cfg email
  if ← isIPLocked cfg input.ip then
    auditLog .loginFailure "" "ip_locked"
    pure (.error .accountLocked)
  else
    match ← ask (.getByEmail email) with
    | .error _ => pure (.error .internal)
    | .ok found => loginFound cfg input email found

/-- **`Login`.** Every outcome but a success and an overload advances the delay of the submitted
address. -/
def login (cfg : Settings) (input : LoginInput) : Prog (Except AuthError LoginResult) := do
  let result ← loginBody cfg input (cfg.fold input.email)
  match result with
  | .ok r => pure (.ok r)
  | .error .argon2Overloaded => pure (.error .argon2Overloaded)
  | .error e =>
    recordIdentityFailure cfg (cfg.fold input.email)
    pure (.error e)

end AuthService

end Vault42
