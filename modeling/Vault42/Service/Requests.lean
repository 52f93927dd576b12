import Vault42.Service.MFA

/-!
# The service

The remaining request handlers that touch sessions (logout, the password change, the end of an OAuth
callback and the exchange that follows it), and the service as a `Framework.System`: every request
it serves, the program that serves it, and the moves its environment makes by itself.

The environment can let time pass, create accounts and change everything about them but the address
and the password, enrol second factors and change which codes are right, sweep the cache, and drop a
database connection, which rolls the transaction on it back.
-/

namespace Vault42

open Framework

namespace PasswordHandler

/-- The history loop of `updatePassword`: the new password matches one of these hashes. Errors of
the hasher count as no match. -/
def reused (password : String) : List PasswordHash → Prog Bool
  | [] => pure false
  | h :: hs => do
    match ← ask (.verifyPassword password h) with
    | .verified true => pure true
    | _ => reused password hs

/-- The breach check of `updatePassword`. -/
def breached (cfg : Settings) (password : String) : Prog Bool :=
  if cfg.hibpEnabled then ask (.isBreached password) else pure false

/-- The end of `updatePassword`: a pending reset link and a pending elevated window die with the old
password. -/
def dropPending (cfg : Settings) (u : UserID) : Prog Unit := do
  if cfg.hasCache then
    match ← ask (.cacheGetAndDelete (.pwresetUser u)) with
    | .ok (some (.digest h)) =>
      let _ ← ask (.cacheDelete (.reset h))
      let _ ← ask (.cacheDelete (.confirm u))
      pure ()
    | _ =>
      let _ ← ask (.cacheDelete (.confirm u))
      pure ()
  else pure ()

/-- `updatePassword` once the new hash is computed: store it, record it, revoke every session, and
drop what the old password had pending in the cache. -/
def replacePassword (cfg : Settings) (u : UserID) (hash : PasswordHash) :
    Prog (Except AuthError Unit) := do
  match ← ask (.updatePassword u hash) with
  | .error _ => pure (.error .internal)
  | .ok false => pure (.error .userNotUpdatable)
  | .ok true =>
    let _ ← ask (.recordPassword u hash)
    if ← RefreshTokenRepo.revokeAllForUser u then
      dropPending cfg u
      pure (.ok ())
    else pure (.error .internal)

def updatePassword (cfg : Settings) (u : UserID) (newPassword : String) :
    Prog (Except AuthError Unit) := do
  if ← breached cfg newPassword then pure (.error .passwordBreached)
  else
    let history ← ask (.recentPasswords u 5)
    if ← reused newPassword (history.toOption.getD []) then pure (.error .passwordReused)
    else
      match ← ask (.hashPassword newPassword) with
      | none => pure (.error .argon2Overloaded)
      | some hash => replacePassword cfg u hash

end PasswordHandler

namespace AuthService

def logout (u : UserID) : Prog (Except AuthError Unit) := do
  if ← RefreshTokenRepo.revokeAllForUser u then
    auditLog .tokenRevoke u "logout"
    pure (.ok ())
  else pure (.error .internal)

/-- The session the OAuth callback starts: a new family, under the same cap as a password login.
What is answered with is the business of `OAuthHandler.handOver`. -/
def oauthTokens (cfg : Settings) (u : UserID) (fp : FingerprintInput) (authTime now : Time)
    (jkt : String) : Prog (Except AuthError LoginResult) := do
  let pair ← TokenService.issueTokenPairWithAuth cfg jkt u ["user"] ["read", "write"] ""
    (computeFingerprint fp) none false
    (newAuthContext (if authTime.isZero then now else authTime) [methodFederated] false)
  match ← checkSessionLimit cfg u with
  | .error e => pure (.error e)
  | .ok () =>
    let deviceID ← findOrCreateDevice u (computeFingerprint fp)
    match ← storeRefreshToken cfg jkt u "" deviceID (computeFingerprint fp) pair with
    | .error e => pure (.error e)
    | .ok () =>
      let now ← ask .now
      pure (.ok (.session pair.accessToken cfg.accessTokenTTL pair.refreshToken
        (pair.refreshExpAt - now)))

/-- The OAuth callback for an account that was identified and owes no second factor, up to the
redirect. -/
def oauthSession (cfg : Settings) (u : UserID) (fp : FingerprintInput) (authTime : Time)
    (jkt : String) : Prog (Except AuthError LoginResult) := do
  match ← ask (.getByID u) with
  | .error _ => pure (.error .tokenInvalid)
  | .ok none => pure (.error .tokenInvalid)
  | .ok (some acct) =>
    let now ← ask .now
    if acct.deleted then pure (.error .tokenInvalid)
    else if acct.banned then pure (.error .accountBanned)
    else if acct.disabled then pure (.error .accountDisabled)
    else if acct.lockedAt now then pure (.error .accountLocked)
    else if ← mfaVerifyLocked cfg u fp.ip then pure (.error .accountLocked)
    else oauthTokens cfg u fp authTime now jkt

end AuthService

/-! ### The service as a system -/

inductive Req where
  | login (input : AuthService.LoginInput)
  | secondFactor (input : AuthService.SecondFactorInput)
  | oauth (u : UserID) (fp : FingerprintInput) (authTime : Time) (jkt : String)
  /-- An exchange code is presented. -/
  | exchange (code : UUID) (fp : FingerprintInput)
  | refresh (input : AuthService.RefreshInput)
  | logout (u : UserID)
  /-- `RevokeFamily`, `RevokeAllForUser`, `RevokeByDeviceID` or `RevokeAll`. -/
  | revoke (sc : Scope)
  /-- A tick of the retention sweep. -/
  | sweep
  | updatePassword (u : UserID) (newPassword : String)

inductive Response where
  | login (r : Except AuthError AuthService.LoginResult)
  /-- The redirect of a callback: the exchange code, and the refresh token in the cookie. -/
  | redirect (code : UUID) (refreshToken : ℕ) (cookieMaxAge : Duration)
  /-- The access token behind an exchange code, if there is one. -/
  | exchange (r : Option AccessClaims)
  | refresh (r : Except AuthError AuthService.RefreshResult)
  | done (r : Except AuthError Unit)

namespace OAuthHandler

/-- How long an access token waits behind its code. -/
def exchangeTTL : Duration := 60 * Duration.second

/-- The end of a callback: the access token is put behind a one-time code for sixty seconds, and the
caller is redirected with the code. A failed write is ignored; the exchange will fail then. -/
def handOver (u : UserID) (fp : FingerprintInput) :
    Except AuthError AuthService.LoginResult → Prog Response
  | .ok (.session accessToken _ refreshToken cookieMaxAge) => do
    auditLog .oauth2Callback u ""
    let code ← ask .random
    let _ ← ask (.cacheSet (.oauthCode code (computeFingerprint fp)) (.exchange accessToken)
      exchangeTTL)
    pure (.redirect code refreshToken cookieMaxAge)
  | r => pure (.login r)

/-- **`Exchange`**: the code is looked up together with the caller's fingerprint and is gone
afterwards. The account is not looked at. -/
def exchange (code : UUID) (fp : FingerprintInput) : Prog (Option AccessClaims) := do
  match ← ask (.cacheGetAndDelete (.oauthCode code (computeFingerprint fp))) with
  | .ok (some (.exchange token)) => pure (some token)
  | _ => pure none

end OAuthHandler

def serve (cfg : Settings) : Req → Prog Response
  | .login input => do pure (.login (← AuthService.login cfg input))
  | .secondFactor input => do pure (.login (← AuthService.verifySecondFactor cfg input))
  | .oauth u fp authTime jkt => do
    OAuthHandler.handOver u fp (← AuthService.oauthSession cfg u fp authTime jkt)
  | .exchange code fp => do pure (.exchange (← OAuthHandler.exchange code fp))
  | .refresh input => do pure (.refresh (← AuthService.refresh cfg input))
  | .logout u => do pure (.done (← AuthService.logout u))
  | .revoke sc => do
    let ok ← RefreshTokenRepo.lockThenWrite sc
    pure (.done (if ok then .ok () else .error .internal))
  | .sweep => do
    RefreshTokenRepo.sweep
    pure (.done (.ok ()))
  | .updatePassword u newPassword => do
    pure (.done (← PasswordHandler.updatePassword cfg u newPassword))

inductive Nudge where
  | tick (d : ℕ)
  /-- A new account; ignored when the id or the address is taken. -/
  | addUser (u : User)
  /-- An account's row is changed, its id, address and password aside. -/
  | editUser (u : User)
  | enrol (u : UserID) (methods : List String)
  | setCodes (right : UserID → String → String → Bool)
  | sweepCache
  /-- The database connection of a thread is lost. -/
  | disconnect (t : ℕ)

/-- Replace everything about an account but its id, its address and its password. -/
def User.edit (old new : User) : User :=
  { new with id := old.id, email := old.email, passwordHash := old.passwordHash }

def nudge : Nudge → World → World
  | .tick d, w => { w with clock := w.clock + d }
  | .addUser u, w =>
    if w.users.any fun x => x.id == u.id || x.email == u.email then w
    else { w with users := u :: w.users }
  | .editUser u, w => w.updateUser u.id fun x => x.edit u
  | .enrol u methods, w =>
    { w with mfaMethods := fun x => if x = u then methods else w.mfaMethods x }
  | .setCodes right, w => { w with rightCode := right }
  | .sweepCache, w => { w with cache := w.cache.cleanup w.clock }
  | .disconnect t, w => { w with tokens := w.tokens.rollback t }

/-- The replies with which a call can fail, having done nothing. -/
def Fault : (c : Call) → c.Reply → Prop
  | .now, _ => False
  | .random, _ => False
  | .sleep _, _ => False
  | .getByEmail _, r => ∃ e, r = .error e
  | .getByID _, r => ∃ e, r = .error e
  | .incrementFailedLogin _, r => ∃ e, r = .error e
  | .resetFailedLogin _, r => ∃ e, r = .error e
  | .setLastLogin _, r => ∃ e, r = .error e
  | .updatePassword _ _, r => ∃ e, r = .error e
  | .clearImportPending _, r => ∃ e, r = .error e
  | .clearMustResetPassword _, r => ∃ e, r = .error e
  | .recentPasswords _ _, r => ∃ e, r = .error e
  | .recordPassword _ _, r => ∃ e, r = .error e
  | .deviceByFingerprint _ _, r => ∃ e, r = .error e
  | .createDevice _, r => ∃ e, r = .error e
  | .updateLastSeen _, r => ∃ e, r = .error e
  | .tokens q, r => tokenFault q r
  | .cacheGet _, r => ∃ e, r = .error e
  | .cacheSet _ _ _, r => ∃ e, r = .error e
  | .cacheDelete _, r => ∃ e, r = .error e
  | .cacheGetAndDelete _, r => ∃ e, r = .error e
  | .cacheSetIfNotExists _ _ _, r => ∃ e, r = .error e
  | .cacheIncrement _ _, r => ∃ e, r = .error e
  | .rateLimitGet _ _, r => ∃ e, r = .error e
  | .rateLimitIncrement _ _, r => ∃ e, r = .error e
  | .refusedAtLoad, _ => False
  | .refusedAtStore _, _ => False
  | .verifyPassword _ _, r => r = .overloaded
  | .hashPassword _, r => r = none
  | .isBreached _, r => r = false
  | .mfaStatus _, r => ∃ e, r = .error e
  | .checkSecondFactor _ _ _, _ => False
  | .roleCatalog, r => r = none
  | .signChallenge _, _ => False
  | .verifyChallenge _, r => r = false
  | .audit _, _ => True
  | .deferwork _, _ => True
where
  /-- A statement of the token table fails with an error; a rollback cannot fail. -/
  tokenFault : (q : TokenCall) → q.Reply → Prop
    | .getByTokenHash _, r => ∃ e, r = .error e
    | .familyOrigin _, r => ∃ e, r = .error e
    | .countActiveFamilies _, r => ∃ e, r = .error e
    | .create _, r => ∃ e, r = .error e
    | .markUsed _, r => ∃ e, r = .error e
    | .deleteExpired, r => ∃ e, r = .error e
    | .deleteExpiredUnused, r => ∃ e, r = .error e
    | .begin, r => ∃ e, r = .error e
    | .lockSessions _, r => ∃ e, r = .error e
    | .countInTxn _, r => ∃ e, r = .error e
    | .insertInTxn _, r => ∃ e, r = .error e
    | .lockScope _, r => ∃ e, r = .error e
    | .revokeScope _, r => ∃ e, r = .error e
    | .commit, r => ∃ e, r = .error e
    | .rollback, _ => False

/-- When a call has to wait for a lock somebody else holds. -/
def blocked (t : ℕ) : Call → World → Bool
  | .tokens (.create tok), w => w.tokens.writeBlocked t fun r => r.familyID == tok.familyID
  | .tokens (.insertInTxn tok), w => w.tokens.writeBlocked t fun r => r.familyID == tok.familyID
  | .tokens (.markUsed id), w => w.tokens.writeBlocked t (TokenStore.spendable id)
  | .tokens .deleteExpired, w =>
    w.tokens.writeBlocked t fun r =>
      (w.tokens.reaped (TokenStore.expiredSpent w.clock)).contains r.id
  | .tokens .deleteExpiredUnused, w =>
    w.tokens.writeBlocked t fun r =>
      (w.tokens.reaped (TokenStore.expiredUnused w.clock)).contains r.id
  | .tokens (.lockScope .everything), w => w.tokens.tableBusy t
  | .tokens (.lockScope sc), w => w.tokens.writeBlocked t sc.covers
  | .tokens (.revokeScope sc), w => w.tokens.writeBlocked t sc.covers
  | .tokens (.lockSessions u), w => w.tokens.sessionsLocked t u
  | _, _ => false

def service (cfg : Settings) : System vault where
  World := World
  Req := Req
  Result := Response
  program := serve cfg
  answer := answer
  blocked := blocked
  Fault := Fault
  Nudge := Nudge
  nudge := nudge

/-! ### Serving one request alone

When nobody else is served at the same time, a handler is a function of the world. A rule says what
is left to show once its first call has been answered.-/

section Alone

variable {t : ℕ} {w : World} {α : Type} {Q : α → World → Prop}

theorem ends_now {f : Time → Prog α} (h : (f w.clock).Ends (answer t) w Q) :
    (ask .now >>= f).Ends (answer t) w Q := h

theorem ends_getByTokenHash {hash : TokenHash}
    {f : Except StoreError (Option RefreshToken) → Prog α}
    (h : (f (.ok (w.tokens.getByTokenHash hash))).Ends (answer t) w Q) :
    (ask (.tokens (.getByTokenHash hash)) >>= f).Ends (answer t) w Q := h

theorem ends_familyOrigin {id : UUID} {f : Except StoreError Time → Prog α}
    (h : (f (.ok (w.tokens.familyOrigin id))).Ends (answer t) w Q) :
    (ask (.tokens (.familyOrigin id)) >>= f).Ends (answer t) w Q := h

/-- The world with one more audit row. -/
def World.audited (w : World) (e : AuditEvent) : World := { w with audit := e :: w.audit }

theorem ends_auditLog {kind : AuditKind} {u : UserID} {reason : String} {f : Unit → Prog α}
    (h : (f ()).Ends (answer t) (w.audited ⟨kind, u, reason, none⟩) Q) :
    (auditLog kind u reason >>= f).Ends (answer t) w Q := h

end Alone

/-! ### A small deployment

One account and an empty store, from which the runs that show the results at work start. -/

namespace Sample

/-- One account, no second factor, no session cap, refresh tokens that live for 100 ns. -/
def settings : Settings where
  accessTokenTTL := 900
  refreshTokenTTL := 100
  rememberMeTTL := 100
  maxSessionLifetime := 0
  inactivityTimeout := 0
  maxSessionsPerUser := 0
  strictSessionLimit := false
  hasCache := true
  hasRateLimits := false
  hasEmailSender := false
  hasMFA := false
  mfaRequired := false
  hasRoleCatalog := false
  hibpEnabled := false
  fold := id
  isTrapUser := fun _ => false
  trapSubject := id

def alice : User where
  id := "u"
  email := "a"
  emailVerified := true
  passwordHash := .argon2id "pw" 0
  lockedUntil := none
  failedLoginCount := 0
  roles := []
  banned := false
  disabled := false
  deleted := false
  importPending := false
  mustResetPassword := false

/-- An empty table, before the first request. -/
def world : World where
  clock := 1
  supply := 1
  users := [alice]
  passwordHistory := []
  devices := []
  tokens := ⟨[], [], []⟩
  cache := .new 0
  rateLimits := []
  refusedAt := 0
  mfaMethods := fun _ => []
  rightCode := fun _ _ _ => false
  breached := fun _ => false
  roles := none
  signed := []
  audit := []
  jobs := []

/-- The request with which `alice` logs in. -/
def loginInput : AuthService.LoginInput where
  email := "a"
  password := "pw"
  rememberMe := false
  clientID := ""
  acceptLanguage := ""
  tlsFingerprint := ""
  discloseStatus := false
  ip := "1"
  userAgent := ""
  jkt := ""

end Sample

end Vault42
