import Vault42.Service.Token

/-!
# Refresh, and the repository functions that span several statements

`AuthService.Refresh` and what it calls, and the two functions of the refresh-token repository that
run a transaction: `CreateWithinCap`, the insert of a login, and `lockThenWrite`, which every
revocation goes through.
-/

namespace Vault42

open Framework

/-- What `Create` and `CreateWithinCap` return. -/
inductive CreateResult where
  | created
  /-- `repository.ErrFamilyRevoked` -/
  | familyRevoked
  /-- `repository.ErrSessionLimitReached` -/
  | sessionLimitReached
  /-- Any other error. -/
  | failed
deriving DecidableEq, Repr

namespace RefreshTokenRepo

/-- What an insert statement's outcome means to its caller. -/
def resultOfInsert : Except StoreError InsertOutcome → CreateResult
  | .error _ => .failed
  | .ok .inserted => .created
  | .ok .familyRevoked => .familyRevoked

def create (tok : RefreshToken) : Prog CreateResult := do
  let r ← ask (.tokens (.create tok))
  pure (resultOfInsert r)

/-- The deferred `Rollback` of a transaction that gives up. -/
def rollbackWith {α : Type} (a : α) : Prog α := do
  ask (.tokens .rollback)
  pure a

/-- `CreateWithinCap`: count and insert under the user's session lock. -/
def createWithinCap (tok : RefreshToken) (maxFamilies : ℤ) : Prog CreateResult := do
  if maxFamilies ≤ 0 then create tok
  else
    match ← ask (.tokens .begin) with
    | .error _ => pure .failed
    | .ok () =>
      match ← ask (.tokens (.lockSessions tok.userID)) with
      | .error _ => rollbackWith .failed
      | .ok () =>
        match ← ask (.tokens (.countInTxn tok.userID)) with
        | .error _ => rollbackWith .failed
        | .ok active =>
          if maxFamilies ≤ active then rollbackWith .sessionLimitReached
          else
            match ← ask (.tokens (.insertInTxn tok)) with
            | .error _ => rollbackWith .failed
            | .ok .familyRevoked => rollbackWith .familyRevoked
            | .ok .inserted =>
              match ← ask (.tokens .commit) with
              | .error _ => rollbackWith .failed
              | .ok () => pure .created

/-- `lockThenWrite`: lock, write and commit, each a statement of its own. `false` is an error. -/
def lockThenWrite (sc : Scope) : Prog Bool := do
  match ← ask (.tokens .begin) with
  | .error _ => pure false
  | .ok () =>
    match ← ask (.tokens (.lockScope sc)) with
    | .error _ => rollbackWith false
    | .ok () =>
      match ← ask (.tokens (.revokeScope sc)) with
      | .error _ => rollbackWith false
      | .ok () =>
        match ← ask (.tokens .commit) with
        | .error _ => rollbackWith false
        | .ok () => pure true

def revokeFamily (f : UUID) : Prog Bool := lockThenWrite (.family f)

def revokeAllForUser (u : UserID) : Prog Bool := lockThenWrite (.user u)

/-- The batch loop of the two reapers, `n` batches left. -/
def reapLoop (batch : TokenCall) (reply : batch.Reply → Option ℕ) : ℕ → Prog Unit
  | 0 => pure ()
  | n + 1 => do
    match reply (← ask (.tokens batch)) with
    | none => pure ()
    | some k =>
      if k < TokenStore.refreshReapBatch then pure () else reapLoop batch reply n

def deleteExpired : Prog Unit :=
  reapLoop .deleteExpired Except.toOption TokenStore.refreshReapMaxBatches

def deleteExpiredUnused : Prog Unit :=
  reapLoop .deleteExpiredUnused Except.toOption TokenStore.refreshReapMaxBatches

/-- One tick of the retention sweep: spent rows, then abandoned ones. -/
def sweep : Prog Unit := do
  deleteExpired
  deleteExpiredUnused

end RefreshTokenRepo

namespace AuthService

open RefreshTokenRepo

/-- `seed.ReservedAdminRoles` -/
def reservedAdminRoles : List String := ["admin", "super_admin"]

/-- `seed.FilterUserRoles` -/
def filterUserRoles (cfg : Settings) (roles : List String) : List String :=
  roles.filter fun r => !reservedAdminRoles.contains (cfg.fold r)

/-- `RoleCatalog.Filter`: a catalog that is absent or could not be loaded keeps everything. -/
def catalogFilter (cfg : Settings) (roles : List String) : Prog (List String) := do
  if cfg.hasRoleCatalog && !roles.isEmpty then
    match ← ask .roleCatalog with
    | none => pure roles
    | some set => pure (roles.filter fun r => set.contains r)
  else pure roles

/-- `effectiveRoles`: admin tiers stripped, the catalog applied when there is one, `["user"]` when
nothing is left. -/
def effectiveRoles (cfg : Settings) (roles : List String) : Prog (List String) := do
  let kept ← catalogFilter cfg (filterUserRoles cfg roles)
  pure (if kept.isEmpty then ["user"] else kept)

structure RefreshResult where
  accessToken : AccessClaims
  expiresIn : Duration
  refreshToken : ℕ
  cookieMaxAge : Duration
deriving DecidableEq, Repr

/-- `containRefreshReuse`: burn the family of a reused token and record which of the two
happened. -/
def containRefreshReuse (stored : RefreshToken) (reason : String) : Prog Unit := do
  let revoked ← revokeFamily stored.familyID
  ask (.audit ⟨.refreshTokenReplayed, stored.userID, reason, some revoked⟩)

/-- Revoke a family on the way to a refusal, whatever the store says. -/
def revokeThen (stored : RefreshToken) (kind : AuditKind) (reason : String) {α : Type} (a : α) :
    Prog α := do
  let _ ← revokeFamily stored.familyID
  auditLog kind stored.userID reason
  pure a

/-- `enforceSessionLifetime`: the absolute bound, and the family's origin for the next clamp. -/
def enforceSessionLifetime (cfg : Settings) (stored : RefreshToken) :
    Prog (Except AuthError Time) := do
  let bounded := decide (0 < cfg.maxSessionLifetime)
  match ← ask (.tokens (.familyOrigin stored.familyID)) with
  | .error _ => unknown bounded
  | .ok origin =>
    if origin.isZero then unknown bounded
    else if bounded then
      let now ← ask .now
      if now < origin + cfg.maxSessionLifetime then pure (.ok origin)
      else revokeThen stored .tokenRevoke "session_lifetime_exceeded" (.error .sessionExpired)
    else pure (.ok origin)
where
  /-- The family cannot be dated: refused under a bound, undated without one. -/
  unknown (bounded : Bool) : Prog (Except AuthError Time) := do
    if bounded then
      auditLog .tokenRevoke stored.userID "session_age_unavailable"
      pure (.error .sessionAgeUnknown)
    else pure (.ok 0)

/-- `enforceSessionInactivity`: the time since the presented row was issued. -/
def enforceSessionInactivity (cfg : Settings) (stored : RefreshToken) :
    Prog (Except AuthError Unit) := do
  if cfg.inactivityTimeout ≤ 0 then pure (.ok ())
  else if stored.createdAt.isZero then
    auditLog .tokenRevoke stored.userID "session_age_unavailable"
    pure (.error .sessionAgeUnknown)
  else
    let now ← ask .now
    if now < stored.createdAt + cfg.inactivityTimeout then pure (.ok ())
    else revokeThen stored .tokenRevoke "session_inactivity_exceeded" (.error .sessionIdle)

/-- `enforceDPoPBinding`: a bound family rotates only under the key it was bound to. The family is
not burned. -/
def enforceDPoPBinding (stored : RefreshToken) (presented : String) :
    Prog (Except AuthError Unit) := do
  if stored.dpopJKT = "" then pure (.ok ())
  else if presented ≠ "" ∧ stored.dpopJKT = presented then pure (.ok ())
  else
    auditLog .dpopBindingMismatch stored.userID "dpop_binding_mismatch"
    pure (.error .tokenInvalid)

/-- `accountStillHoldsSessions`: re-read the account behind a rotation. A read error is a vanished
account. -/
def accountStillHoldsSessions (stored : RefreshToken) : Prog (Except AuthError User) := do
  match ← ask (.getByID stored.userID) with
  | .error _ => refuse .tokenInvalid
  | .ok none => refuse .tokenInvalid
  | .ok (some user) =>
    let now ← ask .now
    if !user.deleted && !user.banned && !user.disabled && !user.lockedAt now then pure (.ok user)
    else if user.banned then refuse .accountBanned
    else if user.disabled then refuse .accountDisabled
    else if user.lockedAt now then refuse .accountLocked
    else refuse .tokenInvalid
where
  /-- The session is terminated, not just this rotation. -/
  refuse (e : AuthError) : Prog (Except AuthError User) := do
    let _ ← revokeFamily stored.familyID
    pure (.error e)

/-- `issueRotatedPair`: mint the successor of a consumed token and store it in the same family. The
binding is the family's, whatever the request proved. -/
def issueRotatedPair (cfg : Settings) (stored : RefreshToken) (roles : List String)
    (fp : Fingerprint) (familyOrigin : Time) : Prog (Except AuthError TokenPair) := do
  let pair ← TokenService.issueRotatedPair cfg stored.dpopJKT stored.userID roles ["read", "write"]
    stored.clientID fp stored.familyID familyOrigin
  let newID ← ask .random
  let now ← ask .now
  let r ← create
    { id := newID, userID := stored.userID, clientID := stored.clientID,
      tokenHash := sha256Hex pair.refreshToken, familyID := stored.familyID,
      deviceID := stored.deviceID, fingerprintHash := some fp, dpopJKT := stored.dpopJKT,
      expiresAt := pair.refreshExpAt, used := false, revoked := false, createdAt := now }
  match r with
  | .created => pure (.ok pair)
  | .familyRevoked =>
    revokeThen stored .tokenRevoke "family_revoked_during_rotation" (.error .replayDetected)
  | _ => pure (.error .internal)

/-- The part of `Refresh` after the presented token has been spent. -/
def rotate (cfg : Settings) (stored : RefreshToken) (fp : Fingerprint) (familyOrigin : Time) :
    Prog (Except AuthError RefreshResult) := do
  match ← accountStillHoldsSessions stored with
  | .error e => pure (.error e)
  | .ok user =>
    let roles ← effectiveRoles cfg user.roles
    match ← issueRotatedPair cfg stored roles fp familyOrigin with
    | .error e => pure (.error e)
    | .ok pair =>
      auditLog .tokenRefresh stored.userID ""
      let now ← ask .now
      pure (.ok ⟨pair.accessToken, cfg.accessTokenTTL, pair.refreshToken, pair.refreshExpAt - now⟩)

/-- The part of `Refresh` between the checks and the rotation: spend the presented token. -/
def spend (cfg : Settings) (stored : RefreshToken) (fp : Fingerprint) (familyOrigin : Time) :
    Prog (Except AuthError RefreshResult) := do
  match ← ask (.tokens (.markUsed stored.id)) with
  | .error _ => pure (.error .internal)
  | .ok false =>
    containRefreshReuse stored "concurrent_replay_detected"
    pure (.error .replayDetected)
  | .ok true => rotate cfg stored fp familyOrigin

/-- The checks of `Refresh` on a row that is neither revoked nor used. -/
def checkAndSpend (cfg : Settings) (stored : RefreshToken) (fp : Fingerprint) (jkt : String) :
    Prog (Except AuthError RefreshResult) := do
  let now ← ask .now
  if stored.expiresAt < now then pure (.error .tokenExpired)
  else
    match ← enforceSessionLifetime cfg stored with
    | .error e => pure (.error e)
    | .ok familyOrigin =>
      match ← enforceSessionInactivity cfg stored with
      | .error e => pure (.error e)
      | .ok () =>
        if stored.fingerprintHash.isSome && stored.fingerprintHash != some fp then
          revokeThen stored .fingerprintAnomaly "" (.error .tokenInvalid)
        else
          match ← enforceDPoPBinding stored jkt with
          | .error e => pure (.error e)
          | .ok () => spend cfg stored fp familyOrigin

/-- A refresh request: the presented token, the address, the device, and the thumbprint of the DPoP
proof the middleware validated, empty when there was none. -/
structure RefreshInput where
  token : ℕ
  fingerprint : FingerprintInput
  jkt : String
deriving DecidableEq, Repr

/-- **`Refresh`**: exchange a refresh token for a new pair. -/
def refresh (cfg : Settings) (input : RefreshInput) : Prog (Except AuthError RefreshResult) := do
  match ← ask (.tokens (.getByTokenHash (sha256Hex input.token))) with
  | .error _ => pure (.error .internal)
  | .ok none => pure (.error .tokenInvalid)
  | .ok (some stored) =>
    if stored.revoked then pure (.error .tokenInvalid)
    else if stored.used then
      containRefreshReuse stored "replay_detected"
      pure (.error .replayDetected)
    else checkAndSpend cfg stored (computeFingerprint input.fingerprint) input.jkt

end AuthService

end Vault42
