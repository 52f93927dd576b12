import Vault42.Model
import Vault42.Framework.System

/-!
# The admin gateway: sessions and the second factor

`internal/adminapi`: the login of an operator, the middleware `SessionAuth` in front of every other
route, and the two handlers with which an operator enrols a TOTP authenticator. All of them read the
admin's row once and go on with that snapshot; `TOTPSetup` and `TOTPVerify` write the row back from
it by `AdminUserRepo.Update`, while the accepted time step is written by the conditional statement
of `UpdateLastTOTPCounter`.

The world is one operator's row of `auth.admin_users` and the table `auth.admin_sessions`. Session
tokens are drawn from a supply and hashed without collisions, a sealed TOTP secret opens for the
admin it was sealed for, and the codes of an authenticator are an arbitrary function `hotp` of its
secret and the time step. The audit log, which no answer depends on, is left out.
-/

namespace Vault42.Admin

open Framework

/-- `auth.admin_users.totp_secret_enc`. -/
inductive TOTPSecretEnc where
  /-- The empty string, a `NULL` column. -/
  | empty
  /-- A secret sealed with the admin's id as associated data. -/
  | sealed (adminID : String) (secret : ℕ)
  /-- A ciphertext that does not open. -/
  | corrupt
deriving DecidableEq, Repr

def decryptTOTPSecret (adminID : String) : TOTPSecretEnc → Option ℕ
  | .sealed id secret => if id = adminID then some secret else none
  | .empty => none
  | .corrupt => none

/-- `model.AdminUser`. -/
structure AdminUser where
  id : String
  username : String
  passwordHash : PasswordHash
  role : String
  totpSecretEnc : TOTPSecretEnc
  totpVerified : Bool
  lockedUntil : Option Time
  failedLoginCount : ℕ
  lastTOTPCounter : ℤ
deriving DecidableEq, Repr

/-- The digest of a session token (`hashSessionToken`). -/
structure SessionHash where
  ofToken : ℕ
deriving DecidableEq, Repr

/-- `model.AdminSession`, without the address and the user agent that are kept for listings. -/
structure AdminSession where
  id : UUID
  adminID : String
  tokenHash : SessionHash
  createdAt : Time
  expiresAt : Time
  revoked : Bool
deriving DecidableEq, Repr

/-- How `VerifyPassword` ends: any error but the overload counts as a wrong password. -/
inductive PasswordCheck where
  | valid
  | invalid
  | overloaded
deriving DecidableEq, Repr

inductive AdminCall where
  | now
  | getByUsername (username : String)
  | getByID (id : String)
  | verifyPassword (password : String) (hash : PasswordHash)
  | incrementFailedLogin (id : String)
  | lockUntil (id : String) (lockedUntil : Time)
  | updateLastTOTPCounter (id : String) (counter : ℤ)
  | updateLastLogin (id : String)
  | update (user : AdminUser)
  | randomBytes
  | randomUUID
  | createSession (session : AdminSession)
  | getByTokenHash (hash : SessionHash)
  | revokeSession (id : UUID)
  | generateTOTPSecret
  | encryptTOTPSecret (secret : ℕ) (adminID : String)

/-- The replies; the stores, the random source and the cipher can fail. -/
def AdminCall.Reply : AdminCall → Type
  | .now => Time
  | .getByUsername _ => Except Unit (Option AdminUser)
  | .getByID _ => Except Unit (Option AdminUser)
  | .verifyPassword _ _ => PasswordCheck
  | .incrementFailedLogin _ => Except Unit ℕ
  | .lockUntil _ _ => Except Unit Unit
  | .updateLastTOTPCounter _ _ => Except Unit Unit
  | .updateLastLogin _ => Except Unit Unit
  | .update _ => Except Unit Unit
  | .randomBytes => Except Unit ℕ
  | .randomUUID => Except Unit UUID
  | .createSession _ => Except Unit Unit
  | .getByTokenHash _ => Except Unit (Option AdminSession)
  | .revokeSession _ => Except Unit Unit
  | .generateTOTPSecret => Except Unit ℕ
  | .encryptTOTPSecret _ _ => Except Unit TOTPSecretEnc

def adminSig : Signature := ⟨AdminCall, AdminCall.Reply⟩

abbrev AdminProg := Program adminSig

def ask (c : AdminCall) : AdminProg c.Reply := Program.perform (S := adminSig) c

inductive Response where
  /-- `httputil.WriteError`. -/
  | error (status : ℕ) (code : String)
  /-- `loginResponse`. -/
  | loggedIn (token : ℕ) (expiresAt : Time) (requires2FA : Bool)
  /-- `TOTPSetup`: the secret, once. -/
  | secret (secret : ℕ)
  /-- A status text of a handler of this file. -/
  | status (text : String)
  /-- The handler of any other route: the request has passed the middleware. -/
  | passed
deriving DecidableEq, Repr

/-- The configuration of the handler, and the authenticators' code function. -/
structure Settings where
  sessionTTL : Duration
  maxFailed : ℕ
  lockoutDur : Duration
  hotp : ℕ → ℕ → String

def totpPeriod : ℤ := 30

/-- `ValidateTOTPCode`: the step of the window the code belongs to. -/
def validateTOTPCode (hotp : ℕ → ℕ → String) (secret : ℕ) (code : String) (now : Time) : Option ℤ :=
  let counter := (now / 1000000000).tdiv totpPeriod
  [counter - 1, counter, counter + 1].find? fun step => 0 ≤ step && hotp secret step.toNat == code

/-- An `Authorization` header: absent, not of the form `Bearer ...`, with a token that is empty or
too long, or with a token. -/
inductive Authorization where
  | absent
  | malformed
  | unusable
  | bearer (token : ℕ)
deriving DecidableEq, Repr

def isTOTPSetupPath (path : String) : Bool :=
  path == "/admin/admins/me/totp/setup" || path == "/admin/admins/me/totp/verify" ||
    path == "/admin/ui/totp-setup"

/-- `locked_until` is set and ahead; the clock is read only if it is set. -/
def isLocked (admin : AdminUser) : AdminProg Bool :=
  match admin.lockedUntil with
  | none => pure false
  | some lockedUntil => do
    let now : Time ← ask .now
    pure (decide (now < lockedUntil))

namespace AuthHandler

variable (cfg : Settings)

def handleFailedLogin (admin : AdminUser) : AdminProg Unit := do
  let r : Except Unit ℕ ← ask (.incrementFailedLogin admin.id)
  -- on an error the count of the snapshot goes on
  let newCount := match r with
    | .ok n => n
    | .error _ => admin.failedLoginCount + 1
  if cfg.maxFailed ≤ newCount then
    let now : Time ← ask .now
    let _ ← ask (.lockUntil admin.id (now + cfg.lockoutDur))
    pure ()
  else pure ()

/-- A failed attempt: counted, and answered like a wrong password. -/
def refuse (admin : AdminUser) : AdminProg Response := do
  handleFailedLogin cfg admin
  pure (.error 401 "invalid_credentials")

/-- The end of `Login`: a session for the admin. -/
def openSession (admin : AdminUser) : AdminProg Response := do
  match ← (ask .randomBytes : AdminProg (Except Unit ℕ)) with
  | .error _ => pure (.error 500 "internal_error")
  | .ok token =>
    match ← (ask .randomUUID : AdminProg (Except Unit UUID)) with
    | .error _ => pure (.error 500 "internal_error")
    | .ok sessionID => do
      let now : Time ← ask .now
      let session : AdminSession :=
        ⟨sessionID, admin.id, ⟨token⟩, now, now + cfg.sessionTTL, false⟩
      match ← (ask (.createSession session) : AdminProg (Except Unit Unit)) with
      | .error _ => pure (.error 500 "internal_error")
      | .ok _ => do
        let _ ← ask (.updateLastLogin admin.id)
        pure (.loggedIn token (now + cfg.sessionTTL) (!admin.totpVerified))

/-- The second factor of `Login`: what to answer if it fails. -/
def secondFactor (admin : AdminUser) (totpCode : String) : AdminProg (Option Response) :=
  if admin.totpVerified ∧ admin.totpSecretEnc ≠ .empty then
    if totpCode = "" then some <$> refuse cfg admin
    else
      match decryptTOTPSecret admin.id admin.totpSecretEnc with
      | none => pure (some (.error 500 "internal_error"))
      | some secret => do
        let now : Time ← ask .now
        match validateTOTPCode cfg.hotp secret totpCode now with
        | none => some <$> refuse cfg admin
        | some counter =>
          if counter ≤ admin.lastTOTPCounter then some <$> refuse cfg admin
          else
            match ← (ask (.updateLastTOTPCounter admin.id counter) :
              AdminProg (Except Unit Unit)) with
            | .error _ => some <$> refuse cfg admin
            | .ok _ => pure none
  else pure none

def login (username password totpCode : String) : AdminProg Response :=
  if username = "" ∨ password = "" then pure (.error 400 "missing_credentials")
  else do
    match ← (ask (.getByUsername username) : AdminProg (Except Unit (Option AdminUser))) with
    | .error _ => pure (.error 500 "internal_error")
    | .ok none => do
      let _ ← ask (.verifyPassword password .dummy)
      pure (.error 401 "invalid_credentials")
    | .ok (some admin) =>
      if ← isLocked admin then pure (.error 401 "invalid_credentials")
      else
        match ← (ask (.verifyPassword password admin.passwordHash) : AdminProg PasswordCheck) with
        | .overloaded => pure (.error 503 "server_busy")
        | .invalid => refuse cfg admin
        | .valid =>
          match ← secondFactor cfg admin totpCode with
          | some r => pure r
          | none => openSession cfg admin

/-- `TOTPSetup`, behind the middleware. -/
def totpSetup (admin : AdminUser) : AdminProg Response :=
  if admin.totpVerified then pure (.error 409 "totp_already_configured")
  else do
    match ← (ask .generateTOTPSecret : AdminProg (Except Unit ℕ)) with
    | .error _ => pure (.error 500 "internal_error")
    | .ok secret =>
      match ← (ask (.encryptTOTPSecret secret admin.id) :
        AdminProg (Except Unit TOTPSecretEnc)) with
      | .error _ => pure (.error 500 "internal_error")
      | .ok encSecret =>
        match ← (ask (.update { admin with totpSecretEnc := encSecret, totpVerified := false }) :
          AdminProg (Except Unit Unit)) with
        | .error _ => pure (.error 500 "internal_error")
        | .ok _ => pure (.secret secret)

/-- `TOTPVerify`, behind the middleware. -/
def totpVerify (admin : AdminUser) (code : String) : AdminProg Response :=
  if admin.totpVerified then pure (.error 409 "totp_already_verified")
  else if code = "" then pure (.error 400 "invalid_request")
  else if admin.totpSecretEnc = .empty then pure (.error 400 "totp_not_setup")
  else
    match decryptTOTPSecret admin.id admin.totpSecretEnc with
    | none => pure (.error 500 "internal_error")
    | some secret => do
      let now : Time ← ask .now
      match validateTOTPCode cfg.hotp secret code now with
      | none => pure (.error 401 "invalid_code")
      | some counter =>
        if counter ≤ admin.lastTOTPCounter then pure (.error 401 "invalid_code")
        else
          match ← (ask (.updateLastTOTPCounter admin.id counter) :
            AdminProg (Except Unit Unit)) with
          | .error _ => pure (.error 401 "invalid_code")
          | .ok _ =>
            match ← (ask (.update { admin with totpVerified := true }) :
              AdminProg (Except Unit Unit)) with
            | .error _ => pure (.error 500 "internal_error")
            | .ok _ => pure (.status "totp_verified")

/-- `Logout`, behind the middleware. -/
def logout (session : AdminSession) : AdminProg Response := do
  match ← (ask (.revokeSession session.id) : AdminProg (Except Unit Unit)) with
  | .error _ => pure (.error 500 "internal_error")
  | .ok _ => pure (.status "logged_out")

end AuthHandler

/-- `SessionAuth`, in front of the handler `next`. -/
def sessionAuth (auth : Authorization) (path : String)
    (next : AdminSession → AdminUser → AdminProg Response) : AdminProg Response :=
  match auth with
  | .absent => pure (.error 401 "missing_authorization")
  | .malformed => pure (.error 401 "invalid_authorization")
  | .unusable => pure (.error 401 "invalid_token")
  | .bearer token => do
    match ← (ask (.getByTokenHash ⟨token⟩) : AdminProg (Except Unit (Option AdminSession))) with
    | .error _ => pure (.error 401 "invalid_session")
    | .ok none => pure (.error 401 "invalid_session")
    | .ok (some session) =>
      if session.revoked then pure (.error 401 "session_revoked")
      else do
        let now : Time ← ask .now
        if session.expiresAt < now then pure (.error 401 "session_expired")
        else
          match ← (ask (.getByID session.adminID) : AdminProg (Except Unit (Option AdminUser))) with
          | .error _ => pure (.error 401 "admin_not_found")
          | .ok none => pure (.error 401 "admin_not_found")
          | .ok (some admin) =>
            if ← isLocked admin then pure (.error 403 "account_locked")
            else if !admin.totpVerified && !isTOTPSetupPath path then
              pure (.error 403 "2fa_required")
            else next session admin

/-! ### Requests of one operator -/

inductive AdminReq where
  | login (username password totpCode : String)
  | totpSetup (auth : Authorization)
  | totpVerify (auth : Authorization) (code : String)
  | logout (auth : Authorization)
  /-- Any other route. -/
  | other (auth : Authorization) (path : String)

def AdminReq.program (cfg : Settings) : AdminReq → AdminProg Response
  | .login username password totpCode => AuthHandler.login cfg username password totpCode
  | .totpSetup auth =>
    sessionAuth auth "/admin/admins/me/totp/setup" fun _ admin => AuthHandler.totpSetup admin
  | .totpVerify auth code =>
    sessionAuth auth "/admin/admins/me/totp/verify" fun _ admin =>
      AuthHandler.totpVerify cfg admin code
  | .logout auth =>
    sessionAuth auth "/admin/auth/logout" fun session _ => AuthHandler.logout session
  | .other auth path => sessionAuth auth path fun _ _ => pure .passed

/-- The operator's row, the sessions, the clock and the source of fresh values. -/
structure AdminWorld where
  admin : AdminUser
  sessions : List AdminSession
  clock : Time
  supply : ℕ

namespace AdminWorld

variable (w : AdminWorld)

/-- A statement on the row with the id. -/
def onAdmin (id : String) (f : AdminUser → AdminUser) : AdminWorld :=
  if id = w.admin.id then { w with admin := f w.admin } else w

def draw : ℕ × AdminWorld := (w.supply, { w with supply := w.supply + 1 })

/-- `UPDATE ... SET last_totp_counter = $2 WHERE id = $1 AND last_totp_counter < $2`. -/
def updateLastTOTPCounter (id : String) (counter : ℤ) : Except Unit Unit × AdminWorld :=
  if id = w.admin.id ∧ w.admin.lastTOTPCounter < counter then
    (.ok (), { w with admin := { w.admin with lastTOTPCounter := counter } })
  else (.error (), w)

end AdminWorld

def verifyPassword (password : String) : PasswordHash → PasswordCheck
  | .argon2id p _ => if p = password then .valid else .invalid
  | .unparsable => .invalid
  | .dummy => .invalid

/-- **How a call is answered.** -/
def adminAnswer (c : AdminCall) (w : AdminWorld) : c.Reply × AdminWorld :=
  match c with
  | .now => (w.clock, w)
  | .getByUsername username =>
    (.ok (if username = w.admin.username then some w.admin else none), w)
  | .getByID id => (.ok (if id = w.admin.id then some w.admin else none), w)
  | .verifyPassword password hash => (Admin.verifyPassword password hash, w)
  | .incrementFailedLogin id =>
    (if id = w.admin.id then .ok (w.admin.failedLoginCount + 1) else .error (),
      w.onAdmin id fun a => { a with failedLoginCount := a.failedLoginCount + 1 })
  | .lockUntil id lockedUntil =>
    (.ok (), w.onAdmin id fun a => { a with lockedUntil := some lockedUntil })
  | .updateLastTOTPCounter id counter => w.updateLastTOTPCounter id counter
  | .updateLastLogin id =>
    (.ok (), w.onAdmin id fun a => { a with failedLoginCount := 0, lockedUntil := none })
  | .update user =>
    (.ok (), w.onAdmin user.id fun a =>
      { a with
        username := user.username
        role := user.role
        totpSecretEnc := user.totpSecretEnc
        totpVerified := user.totpVerified })
  | .randomBytes => (.ok w.draw.1, w.draw.2)
  | .randomUUID => (.ok w.draw.1, w.draw.2)
  | .createSession session => (.ok (), { w with sessions := session :: w.sessions })
  | .getByTokenHash hash => (.ok (w.sessions.find? fun s => s.tokenHash = hash), w)
  | .revokeSession id =>
    (.ok (), { w with
      sessions := w.sessions.map fun s => if s.id = id then { s with revoked := true } else s })
  | .generateTOTPSecret => (.ok w.draw.1, w.draw.2)
  | .encryptTOTPSecret secret adminID => (.ok (.sealed adminID secret), w)

def AdminFault : (c : AdminCall) → c.Reply → Prop
  | .now, _ => False
  | .getByUsername _, r => r = .error ()
  | .getByID _, r => r = .error ()
  | .verifyPassword _ _, r => r = .overloaded
  | .incrementFailedLogin _, r => r = .error ()
  | .lockUntil _ _, r => r = .error ()
  | .updateLastTOTPCounter _ _, r => r = .error ()
  | .updateLastLogin _, r => r = .error ()
  | .update _, r => r = .error ()
  | .randomBytes, r => r = .error ()
  | .randomUUID, r => r = .error ()
  | .createSession _, r => r = .error ()
  | .getByTokenHash _, r => r = .error ()
  | .revokeSession _, r => r = .error ()
  | .generateTOTPSecret, r => r = .error ()
  | .encryptTOTPSecret _ _, r => r = .error ()

/-- **The admin gateway.** Time passes by itself. -/
def adminGateway (cfg : Settings) : System adminSig where
  World := AdminWorld
  Req := AdminReq
  Result := Response
  program := AdminReq.program cfg
  answer _ := adminAnswer
  blocked _ _ _ := false
  Fault := AdminFault
  Nudge := ℕ
  nudge d w := { w with clock := w.clock + d }

end Vault42.Admin
