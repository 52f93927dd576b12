import Vault42.Service.Requests

/-!
# Reset links

The handlers of `internal/handler/password.go` that mint, redeem and retire password-reset links,
the background half of the service's `sendResetLink`, and the change of a password by its holder. A
link is two cache keys: `reset:` and the digest of its token, which holds the account and is what
`ResetConfirm` redeems, and `pwreset_user:U`, which holds the digest of the account's latest link so
that a newer link or a new password can retire it.

`resetService` is the service as far as these links go, over the same components as `service`.

The token of a request is a random value or a guess at one, so the check for an empty token has no
counterpart here. `ResetConfirm` redeems through the cache without asking whether there is one.
-/

namespace Vault42

open Framework

/-- The error codes of the password handler. -/
inductive PasswordError where
  | invalidRequest
  | passwordTooShort
  | invalidOrExpiredToken
  | passwordBreached
  | passwordRecentlyUsed
  | serverBusy
  | internalError
  | importClaimFailed
  | forcedResetClearFailed
  | unauthorized
  | invalidCurrentPassword
deriving DecidableEq, Repr

namespace PasswordError

/-- How the handlers report an error of `updatePassword`. -/
def ofUpdate : AuthError → PasswordError
  | .passwordBreached => passwordBreached
  | .passwordReused => passwordRecentlyUsed
  | .argon2Overloaded => serverBusy
  | _ => internalError

end PasswordError

/-- How long a link can be redeemed, and how long the next one has to wait where links are
throttled. -/
def importClaimTTL : Duration := Duration.hour

/-- The retirement of an account's link that every mint begins with: take the pointer, and drop what
it points at. -/
def retireLink (u : UserID) : Prog Unit := do
  match ← ask (.cacheGetAndDelete (.pwresetUser u)) with
  | .ok (some (.digest h)) =>
    let _ ← ask (.cacheDelete (.reset h))
    pure ()
  | _ => pure ()

namespace PasswordHandler

/-- `refusedByAccountState`, of an account that was found. -/
def refusedByAccountState (u : User) : Bool := u.deleted || u.banned || u.disabled

/-- The cache writes of `ResetRequest`. Their errors are ignored. -/
def storeLink (cfg : Settings) (u : UserID) (token : ℕ) : Prog Unit := do
  if cfg.hasCache then
    retireLink u
    let _ ← ask (.cacheSet (.reset (sha256Hex token)) (.user u) Duration.hour)
    let _ ← ask (.cacheSet (.pwresetUser u) (.digest (sha256Hex token)) Duration.hour)
    pure ()
  else pure ()

/-- **`ResetRequest`.** It answers the same whatever it did. -/
def resetRequest (cfg : Settings) (email : String) : Prog (Except PasswordError Unit) := do
  if email = "" then pure (.error .invalidRequest)
  else
    let _ ← ask (.verifyPassword "dummy" .dummy)
    let token ← ask .random
    match ← ask (.getByEmail (cfg.fold email)) with
    | .ok (some user) =>
      if refusedByAccountState user then pure (.ok ())
      else
        storeLink cfg user.id token
        if cfg.hasEmailSender then
          ask (.deferwork (.resetMail user.id token))
          auditLog .passwordReset user.id "requested"
          pure (.ok ())
        else
          auditLog .passwordReset user.id "requested"
          pure (.ok ())
    | _ => pure (.ok ())

/-- The end of `ResetConfirm`: what a forced reset had pending, and the audit row. -/
def liftForcedReset (user : User) : Prog (Except PasswordError Unit) := do
  let action := if user.importPending then "import_claimed" else "confirmed"
  if user.mustResetPassword then
    match ← ask (.clearMustResetPassword user.id) with
    | .error _ => pure (.error .forcedResetClearFailed)
    | .ok () =>
      auditLog .passwordReset user.id "forced_reset_completed"
      auditLog .passwordReset user.id action
      pure (.ok ())
  else
    auditLog .passwordReset user.id action
    pure (.ok ())

/-- `ResetConfirm` once the password is written: every lockout of the account is cleared, and an
imported account is claimed. -/
def finishReset (cfg : Settings) (user : User) : Prog (Except PasswordError Unit) := do
  let _ ← clearAccountLockout cfg user.id
  let _ ← ask (.resetFailedLogin user.id)
  if user.importPending then
    match ← ask (.clearImportPending user.id) with
    | .error _ => pure (.error .importClaimFailed)
    | .ok () => liftForcedReset user
  else liftForcedReset user

/-- `ResetConfirm` with a token that was redeemed for an account. -/
def confirmFor (cfg : Settings) (u : UserID) (password : String) :
    Prog (Except PasswordError Unit) := do
  match ← ask (.getByID u) with
  | .ok (some user) =>
    if refusedByAccountState user then pure (.error .invalidOrExpiredToken)
    else
      match ← updatePassword cfg user.id password with
      | .error e => pure (.error (.ofUpdate e))
      | .ok () => finishReset cfg user
  | _ => pure (.error .invalidOrExpiredToken)

/-- **`ResetConfirm`.** The token is taken out of the cache in one step, whatever becomes of the
request. -/
def resetConfirm (cfg : Settings) (minLength : ℕ) (token : ℕ) (password : String) :
    Prog (Except PasswordError Unit) := do
  if password = "" then pure (.error .invalidRequest)
  else if password.length < minLength then pure (.error .passwordTooShort)
  else
    match ← ask (.cacheGetAndDelete (.reset (sha256Hex token))) with
    | .ok (some (.user u)) =>
      if u = "" then pure (.error .invalidOrExpiredToken) else confirmFor cfg u password
    | _ => pure (.error .invalidOrExpiredToken)

/-- **`ChangePassword`**, by the holder of an access token. -/
def changePassword (cfg : Settings) (minLength : ℕ) (subject : UserID)
    (currentPassword newPassword : String) : Prog (Except PasswordError Unit) := do
  if newPassword.length < minLength then pure (.error .passwordTooShort)
  else
    match ← ask (.getByID subject) with
    | .ok (some user) =>
      match ← ask (.verifyPassword currentPassword user.passwordHash) with
      | .overloaded => pure (.error .serverBusy)
      | .verified true =>
        match ← updatePassword cfg user.id newPassword with
        | .error e => pure (.error (.ofUpdate e))
        | .ok () =>
          auditLog .passwordChange user.id ""
          pure (.ok ())
      | _ => pure (.error .invalidCurrentPassword)
    | _ => pure (.error .unauthorized)

end PasswordHandler

namespace AuthService

/-- `resetLinkKind`: the two account states that mail a link from the login path. -/
inductive ResetLinkKind where
  | importClaimLink
  | forcedResetLink
deriving DecidableEq, Repr

/-- `reserveKey`: each state throttles its own mails. -/
def ResetLinkKind.reserveKey : ResetLinkKind → UserID → CacheKey
  | importClaimLink, u => .importClaimSent u
  | forcedResetLink, u => .forcedResetSent u

/-- What `sendResetLink` runs in the background: reserve the send, retire the link before, store the
new one, mail it. -/
def mailResetLink (kind : ResetLinkKind) (u : UserID) : Prog Unit := do
  match ← ask (.cacheSetIfNotExists (kind.reserveKey u) (.count 1) importClaimTTL) with
  | .ok true =>
    retireLink u
    let token ← ask .random
    match ← ask (.cacheSet (.reset (sha256Hex token)) (.user u) importClaimTTL) with
    | .error _ => pure ()
    | .ok () =>
      let _ ← ask (.cacheSet (.pwresetUser u) (.digest (sha256Hex token)) importClaimTTL)
      ask (.deferwork (.resetMail u token))
  | _ => pure ()

end AuthService

/-- The requests that have to do with reset links. -/
inductive ResetReq where
  | request (email : String)
  | link (kind : AuthService.ResetLinkKind) (u : UserID)
  | confirm (token : ℕ) (password : String)
  | change (subject : UserID) (currentPassword newPassword : String)

namespace ResetReq

def serve (cfg : Settings) (minLength : ℕ) : ResetReq → Prog (Except PasswordError Unit)
  | request email => PasswordHandler.resetRequest cfg email
  | link kind u => do
    AuthService.mailResetLink kind u
    pure (.ok ())
  | confirm token password => PasswordHandler.resetConfirm cfg minLength token password
  | change subject currentPassword newPassword =>
    PasswordHandler.changePassword cfg minLength subject currentPassword newPassword

/-- The requests that set a password when they succeed. -/
def setsPassword : ResetReq → Bool
  | request _ => false
  | link _ _ => false
  | confirm _ _ => true
  | change _ _ _ => true

end ResetReq

/-- **The service, as far as reset links go.** -/
def resetService (cfg : Settings) (minLength : ℕ) : System vault where
  World := World
  Req := ResetReq
  Result := Except PasswordError Unit
  program := ResetReq.serve cfg minLength
  answer := answer
  blocked := blocked
  Fault := Fault
  Nudge := Nudge
  nudge := nudge

end Vault42
