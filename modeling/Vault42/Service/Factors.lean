import Vault42.Service.Requests

/-!
# Second factors

`MFAService.GetStatus` over the three stores it aggregates (TOTP secrets, WebAuthn credentials,
backup codes), the OAuth callback from the account gate on, and the four handlers that redeem a
challenge with a factor: `totp.go`, `webauthn.go`, `backup_codes.go`, `email_otp.go`.

For `service` the status of an account is one call, `mfaStatus`. Here that call is carried out by
the program `getStatus`, three reads each of which can fail by itself (`Program.elaborate`), and
every handler of `service` is lifted along it. The signature `factors` is `vault` with the calls on
the factor stores beside it.

TOTP and assertion signatures are oracles of the world: which codes a secret accepts at an instant,
and which assertions a credential signed. A keyed hash of a code is the code. A secret that cannot
be decoded or decrypted is `none`. The link of a social identity, which can only refuse a callback,
and the flag for a user the authenticator verified, which only raises the assurance level, are left
out.
-/

namespace Vault42

open AuthService

open Framework

/-! ### The factor stores -/

/-- `model.TOTPSecret`; the secret as it decrypts. -/
structure TOTPSecret where
  id : UUID
  userID : UserID
  secret : Option String
  verified : Bool
deriving DecidableEq, Repr

structure WebAuthnCredential where
  id : UUID
  userID : UserID
  credentialID : String
  signCount : ℕ
  /-- The recorded authenticator flags; `none` when they predate the column. -/
  flags : Option ℕ
  /-- The user-verified bit of the recorded flags. -/
  userVerified : Bool
deriving DecidableEq, Repr

structure BackupCode where
  id : UUID
  userID : UserID
  code : String
  used : Bool
deriving DecidableEq, Repr

/-- A parsed WebAuthn assertion. -/
structure Assertion where
  credentialID : String
  signCount : ℕ
  flags : ℕ
  userVerified : Bool
deriving DecidableEq, Repr

/-! ### The calls -/

/-- The calls of the service, with the factor stores beside its other components. -/
inductive FactorCall where
  | vault (c : Call)
  | totpByUserID (u : UserID)
  | markTOTPVerified (id : UUID)
  | webauthnByUser (u : UserID)
  | updateSignCount (id : UUID) (signCount : ℕ)
  | updateFlags (id : UUID) (flags : ℕ) (userVerified : Bool)
  | unusedBackupCodes (u : UserID)
  | markBackupUsed (id : UUID)
  /-- `ValidateTOTPCode` now: the step the code belongs to. -/
  | validateTOTPCode (secret code : String)
  /-- `ValidateLogin`: the credential that signed the assertion. -/
  | validateLogin (session : ℕ) (creds : List WebAuthnCredential) (a : Assertion)

abbrev FactorCall.Reply : FactorCall → Type
  | vault c => c.Reply
  | totpByUserID _ => Except StoreError (Option TOTPSecret)
  | markTOTPVerified _ => Except StoreError Unit
  | webauthnByUser _ => Except StoreError (List WebAuthnCredential)
  | updateSignCount _ _ => Except StoreError Unit
  | updateFlags _ _ _ => Except StoreError Unit
  | unusedBackupCodes _ => Except StoreError (List BackupCode)
  | markBackupUsed _ => Except StoreError Bool
  | validateTOTPCode _ _ => Option ℕ
  | validateLogin _ _ _ => Option WebAuthnCredential

/-- The signature of the programs that see the factor stores. -/
abbrev factors : Signature := ⟨FactorCall, FactorCall.Reply⟩

abbrev FactorProg := Program factors

abbrev askFactor (c : FactorCall) : FactorProg c.Reply := Program.perform (S := factors) c

/-! ### The status of an account -/

namespace MFAService

/-- What `GetStatus` lists when its reads returned this. -/
def methods (totp : Option TOTPSecret) (creds : List WebAuthnCredential) (codes : List BackupCode) :
    List String :=
  (if totp.any TOTPSecret.verified then [methodTOTP] else []) ++
    (if creds.isEmpty then [] else [methodWebAuthn]) ++
    (if codes.isEmpty then [] else [methodBackupCode])

/-- **`GetStatus`.** All three stores are read, and one failed read fails the lookup. -/
def getStatus (u : UserID) : FactorProg (Except StoreError (List String)) := do
  let totp ← askFactor (.totpByUserID u)
  let creds ← askFactor (.webauthnByUser u)
  let codes ← askFactor (.unusedBackupCodes u)
  match totp, creds, codes with
  | .ok totp, .ok creds, .ok codes => pure (.ok (methods totp creds codes))
  | _, _, _ => pure (.error .backend)

end MFAService

/-- How a call of the service is carried out. -/
def carryOut : (c : Call) → FactorProg c.Reply
  | .mfaStatus u => MFAService.getStatus u
  | c => askFactor (.vault c)

theorem carryOut_of_ne {c : Call} (h : ∀ u, c ≠ .mfaStatus u) :
    carryOut c = askFactor (.vault c) := by
  cases c with
  | mfaStatus u => exact absurd rfl (h u)
  | _ => rfl

/-- A program of the service, over the factor stores. -/
abbrev lift {α : Type} (p : Prog α) : FactorProg α := p.elaborate carryOut

/-! ### The OAuth callback -/

namespace OAuthHandler

/-- `RequiresMFA` on a device that is not trusted; a failed lookup counts as required. -/
def requiresMFA (cfg : Settings) (u : UserID) : Prog Bool := do
  match ← ask (.mfaStatus u) with
  | .error _ => pure true
  | .ok methods => pure (!methods.isEmpty || cfg.mfaRequired)

/-- The callback past the account gate: a challenge, or a session. -/
def secondFactorOrTokens (cfg : Settings) (u : UserID) (fp : FingerprintInput) (authTime now : Time)
    (jkt : String) : Prog (Except AuthError AuthService.LoginResult) := do
  if cfg.hasMFA then
    if ← requiresMFA cfg u then
      let token ←
        TokenService.issueChallengeToken jkt u (computeFingerprint fp) [methodFederated]
      auditLog .oauth2Callback u "mfa_required"
      pure (.ok (.challenge token []))
    else oauthTokens cfg u fp authTime now jkt
  else oauthTokens cfg u fp authTime now jkt

/-- **The OAuth callback** for an account that was identified, up to the redirect: the account gate,
the claim of an imported account, then a challenge or a session. The access token is the one that
the exchange code is redeemed for. -/
def callback (cfg : Settings) (u : UserID) (fp : FingerprintInput) (authTime : Time)
    (jkt : String) : Prog (Except AuthError AuthService.LoginResult) := do
  match ← ask (.getByID u) with
  | .error _ => pure (.error .tokenInvalid)
  | .ok none => pure (.error .tokenInvalid)
  | .ok (some acct) =>
    let now ← ask .now
    if acct.deleted then pure (.error .tokenInvalid)
    else if acct.banned then pure (.error .accountBanned)
    else if acct.disabled then pure (.error .accountDisabled)
    else if acct.lockedAt now then pure (.error .accountLocked)
    else if ← mfaVerifyLocked cfg acct.id fp.ip then pure (.error .accountLocked)
    else if acct.importPending then
      match ← ask (.clearImportPending acct.id) with
      | .error _ => pure (.error .internal)
      | .ok () => secondFactorOrTokens cfg u fp authTime now jkt
    else secondFactorOrTokens cfg u fp authTime now jkt

end OAuthHandler

/-! ### The handlers -/

/-- The error codes of the second-factor handlers. -/
inductive FactorError where
  | unauthorized
  | accountLocked
  | invalidCode
  | totpNotSetup
  | totpCodeAlreadyUsed
  | codeRequired
  | invalidBackupCode
  | backupCodeAlreadyUsed
  | noWebAuthnCredentials
  | noPendingVerification
  | webauthnVerificationFailed
  | clonedAuthenticatorDetected
  | userVerificationRequired
  | webauthnError
  | internalError
  /-- What `CompleteMFALogin` refused with. -/
  | completion (e : AuthError)
deriving DecidableEq, Repr

namespace SecondFactor

abbrev Outcome := Except FactorError AuthService.LoginResult

/-- `completeMFAIfChallenge`, once a factor is proven. -/
def complete (cfg : Settings) (input : AuthService.SecondFactorInput) : FactorProg Outcome := do
  match ← lift (completeMFAIfChallenge cfg input) with
  | .error e => pure (.error (.completion e))
  | .ok result => pure (.ok result)

/-- A wrong code counts toward the lockout of the account. -/
def fail (cfg : Settings) (input : AuthService.SecondFactorInput) (e : FactorError) :
    FactorProg Outcome := do
  lift (recordMFAFailure cfg input.token.subject input.fingerprint.ip)
  pure (.error e)

/-- `AuthChallenge`: the middleware lets a request with a valid challenge through. -/
def authChallenge {α : Type} (input : AuthService.SecondFactorInput)
    (p : FactorProg (Except FactorError α)) : FactorProg (Except FactorError α) := do
  if ← askFactor (.vault (.verifyChallenge input.token)) then p else pure (.error .unauthorized)

/-- The lockout gate of the handlers that check a code. -/
def lockoutGate (cfg : Settings) (input : AuthService.SecondFactorInput) (p : FactorProg Outcome) :
    FactorProg Outcome := do
  if ← lift (mfaVerifyLocked cfg input.token.subject input.fingerprint.ip) then
    pure (.error .accountLocked)
  else p

/-- `isValidTOTPCode`: six ASCII digits. -/
def isValidTOTPCode (code : String) : Bool := code.length == 6 && code.toList.all Char.isDigit

/-- TOTP `Verify` with a code the secret accepts: a code is spent once, and a secret that was not
verified yet is from here on. -/
def totpProven (cfg : Settings) (input : AuthService.SecondFactorInput) (totp : TOTPSecret)
    (step : ℕ) : FactorProg Outcome := do
  match ← askFactor (.vault (.cacheSetIfNotExists (.totpUsed input.token.subject step) (.count 1)
      (90 * Duration.second))) with
  | .ok true =>
    if totp.verified then
      lift (auditLog .twoFAVerify input.token.subject "totp")
      complete cfg { input with method := methodTOTP }
    else
      -- the error of the write is ignored
      let _ ← askFactor (.markTOTPVerified totp.id)
      lift (auditLog .twoFASetup input.token.subject "totp")
      lift (auditLog .twoFAVerify input.token.subject "totp")
      complete cfg { input with method := methodTOTP }
  | _ => pure (.error .totpCodeAlreadyUsed)

/-- **`TOTPHandler.Verify`.** Any secret of the account will do, verified or not. -/
def totpVerify (cfg : Settings) (input : AuthService.SecondFactorInput) : FactorProg Outcome :=
  authChallenge input <| lockoutGate cfg input do
    if isValidTOTPCode input.code then
      match ← askFactor (.totpByUserID input.token.subject) with
      | .ok (some totp) =>
        match totp.secret with
        | none => pure (.error .internalError)
        | some secret =>
          match ← askFactor (.validateTOTPCode secret input.code) with
          | none => fail cfg input .invalidCode
          | some step => totpProven cfg input totp step
      | _ => pure (.error .totpNotSetup)
    else pure (.error .invalidCode)

def webAuthnCeremonyTTL : Duration := 5 * Duration.minute

/-- **`WebAuthnHandler.VerifyBegin`.** The ceremony waits in the cache for its assertion. -/
def webauthnBegin (input : AuthService.SecondFactorInput) (session : ℕ) :
    FactorProg (Except FactorError Unit) :=
  authChallenge input do
    match ← askFactor (.vault (.getByID input.token.subject)) with
    | .ok (some _) =>
      match ← askFactor (.webauthnByUser input.token.subject) with
      | .error _ => pure (.error .internalError)
      | .ok [] => pure (.error .noWebAuthnCredentials)
      | .ok (_ :: _) =>
        match ← askFactor (.vault (.cacheSet (.webauthnAuth input.token.subject)
            (.ceremony session) webAuthnCeremonyTTL)) with
        | .error _ => pure (.error .internalError)
        | .ok () => pure (.ok ())
    | _ => pure (.error .unauthorized)

/-- `CloneWarning` of the library: the counter did not move forward. -/
def cloneWarning (cred : WebAuthnCredential) (a : Assertion) : Bool :=
  decide (a.signCount ≤ cred.signCount) && (a.signCount != 0 || cred.signCount != 0)

def userVerificationDowngraded (cred : WebAuthnCredential) (a : Assertion) : Bool :=
  cred.flags.isSome && cred.userVerified && !a.userVerified

/-- `VerifyFinish` with an assertion the credential signed. -/
def assertionProven (cfg : Settings) (input : AuthService.SecondFactorInput)
    (cred : WebAuthnCredential) (a : Assertion) : FactorProg Outcome := do
  if cloneWarning cred a then
    let _ ← lift (RefreshTokenRepo.revokeAllForUser input.token.subject)
    lift (auditLog .authenticatorCloned input.token.subject "cloned_authenticator")
    pure (.error .clonedAuthenticatorDetected)
  else if userVerificationDowngraded cred a then pure (.error .userVerificationRequired)
  else
    match ← askFactor (.updateSignCount cred.id a.signCount) with
    | .error _ => pure (.error .webauthnError)
    | .ok () =>
      if cred.flags = some a.flags then
        lift (auditLog .twoFAVerify input.token.subject "webauthn")
        complete cfg { input with method := methodWebAuthn }
      else
        match ← askFactor (.updateFlags cred.id a.flags a.userVerified) with
        | .error _ => pure (.error .webauthnError)
        | .ok () =>
          lift (auditLog .twoFAVerify input.token.subject "webauthn")
          complete cfg { input with method := methodWebAuthn }

/-- **`WebAuthnHandler.VerifyFinish`.** The ceremony is taken out of the cache in one step; a failed
read of the credentials leaves none to validate against. -/
def webauthnVerify (cfg : Settings) (input : AuthService.SecondFactorInput) (a : Assertion) :
    FactorProg Outcome :=
  authChallenge input do
    match ← askFactor (.vault (.getByID input.token.subject)) with
    | .ok (some _) =>
      match ← askFactor (.vault (.cacheGetAndDelete (.webauthnAuth input.token.subject))) with
      | .ok (some (.ceremony session)) =>
        let existing ← askFactor (.webauthnByUser input.token.subject)
        match ← askFactor (.validateLogin session (existing.toOption.getD []) a) with
        | none => pure (.error .webauthnVerificationFailed)
        | some cred => assertionProven cfg input cred a
      | _ => pure (.error .noPendingVerification)
    | _ => pure (.error .unauthorized)

/-- **`BackupCodeHandler.Verify`.** The last matching code counts, and it is spent before anything
is issued. -/
def backupVerify (cfg : Settings) (input : AuthService.SecondFactorInput) : FactorProg Outcome :=
  authChallenge input <| lockoutGate cfg input do
    if input.code = "" then pure (.error .codeRequired)
    else
      match ← askFactor (.unusedBackupCodes input.token.subject) with
      | .error _ => pure (.error .internalError)
      | .ok codes =>
        match (codes.filter fun c => c.code == input.code).getLast? with
        | none => fail cfg input .invalidBackupCode
        | some matched =>
          match ← askFactor (.markBackupUsed matched.id) with
          | .error _ => pure (.error .internalError)
          | .ok false => pure (.error .backupCodeAlreadyUsed)
          | .ok true =>
            lift (auditLog .twoFAVerify input.token.subject "backup_code")
            complete cfg { input with method := methodBackupCode }

/-- `emailOTPAllowed`: only for an account without any other factor, when one is required. -/
def emailOTPAllowed (cfg : Settings) (u : UserID) : FactorProg Bool := do
  if cfg.hasMFA then
    match ← MFAService.getStatus u with
    | .error _ => pure false
    | .ok methods => pure (methods.isEmpty && cfg.mfaRequired)
  else pure false

def verifyEmailOTP (cfg : Settings) (u : UserID) (code : String) : FactorProg Bool := do
  if ← emailOTPAllowed cfg u then
    if cfg.hasCache then
      match ← askFactor (.vault (.cacheGetAndDelete (.emailOTP u))) with
      | .ok (some (.mac sig)) => pure (sig == code)
      | _ => pure false
    else pure false
  else pure false

/-- **`EmailOTPHandler.Verify`.** -/
def emailVerify (cfg : Settings) (input : AuthService.SecondFactorInput) : FactorProg Outcome :=
  authChallenge input <| lockoutGate cfg input do
    if isValidTOTPCode input.code then
      if ← verifyEmailOTP cfg input.token.subject input.code then
        complete cfg { input with method := methodEmailOTP }
      else fail cfg input .invalidCode
    else pure (.error .invalidCode)

end SecondFactor

/-! ### The service as a system -/

/-- The state of all the components, with the factor stores. -/
structure FactorWorld where
  world : World
  totpSecrets : List TOTPSecret
  credentials : List WebAuthnCredential
  backupCodes : List BackupCode
  /-- The step a code is right for, at an instant. -/
  totpStep : String → String → Time → Option ℕ
  /-- A credential signed the assertion, in the ceremony given. -/
  signed : ℕ → WebAuthnCredential → Assertion → Bool

def answerFactor (t : ℕ) : (c : FactorCall) → FactorWorld → c.Reply × FactorWorld
  | .vault c, w => ((answer t c w.world).1, { w with world := (answer t c w.world).2 })
  | .totpByUserID u, w => (.ok (w.totpSecrets.find? fun s => s.userID == u), w)
  | .markTOTPVerified id, w =>
    (.ok (), { w with
      totpSecrets := w.totpSecrets.map fun s =>
        if s.id = id then { s with verified := true } else s })
  | .webauthnByUser u, w => (.ok (w.credentials.filter fun c => c.userID == u), w)
  | .updateSignCount id n, w =>
    (.ok (), { w with
      credentials := w.credentials.map fun c =>
        if c.id = id then { c with signCount := n } else c })
  | .updateFlags id n uv, w =>
    (.ok (), { w with
      credentials := w.credentials.map fun c =>
        if c.id = id then { c with flags := some n, userVerified := uv } else c })
  | .unusedBackupCodes u, w => (.ok (w.backupCodes.filter fun c => c.userID == u && !c.used), w)
  | .markBackupUsed id, w =>
    if w.backupCodes.any fun c => c.id == id && !c.used then
      (.ok true, { w with
        backupCodes := w.backupCodes.map fun c =>
          if c.id = id then { c with used := true } else c })
    else (.ok false, w)
  | .validateTOTPCode secret code, w => (w.totpStep secret code w.world.clock, w)
  | .validateLogin session creds a, w =>
    (creds.find? fun c => c.credentialID == a.credentialID && w.signed session c a, w)

/-- The replies with which a call can fail, having done nothing. -/
def FactorFault : (c : FactorCall) → c.Reply → Prop
  | .vault c, r => Fault c r
  | .totpByUserID _, r => ∃ e, r = .error e
  | .markTOTPVerified _, r => ∃ e, r = .error e
  | .webauthnByUser _, r => ∃ e, r = .error e
  | .updateSignCount _ _, r => ∃ e, r = .error e
  | .updateFlags _ _ _, r => ∃ e, r = .error e
  | .unusedBackupCodes _, r => ∃ e, r = .error e
  | .markBackupUsed _, r => ∃ e, r = .error e
  | .validateTOTPCode _ _, _ => False
  | .validateLogin _ _ _, _ => False

/-- The requests that can start a session. (`Refresh` stores rows too, but in the family of the row
it was presented.) -/
inductive SignInReq where
  | login (input : AuthService.LoginInput)
  | oauth (u : UserID) (fp : FingerprintInput) (authTime : Time) (jkt : String)
  | totp (input : AuthService.SecondFactorInput)
  | webauthn (input : AuthService.SecondFactorInput) (a : Assertion)
  | backupCode (input : AuthService.SecondFactorInput)
  | emailOTP (input : AuthService.SecondFactorInput)

inductive SignInResponse where
  | login (r : Except AuthError AuthService.LoginResult)
  | factor (r : SecondFactor.Outcome)

def SignInReq.serve (cfg : Settings) : SignInReq → FactorProg SignInResponse
  | login input => do pure (.login (← lift (AuthService.login cfg input)))
  | oauth u fp authTime jkt => do
    pure (.login (← lift (OAuthHandler.callback cfg u fp authTime jkt)))
  | totp input => do pure (.factor (← SecondFactor.totpVerify cfg input))
  | webauthn input a => do pure (.factor (← SecondFactor.webauthnVerify cfg input a))
  | backupCode input => do pure (.factor (← SecondFactor.backupVerify cfg input))
  | emailOTP input => do pure (.factor (← SecondFactor.emailVerify cfg input))

/-- The moves of the environment: those of the other components, and any change of the factor
stores, as the enrolment handlers make them. -/
inductive FactorNudge where
  | vault (n : Nudge)
  | setTOTP (secrets : List TOTPSecret)
  | setCredentials (credentials : List WebAuthnCredential)
  | setBackupCodes (codes : List BackupCode)
  /-- A code or a ceremony is left in the cache, as its handler does. -/
  | setCache (u : UserID) (pending : String ⊕ ℕ) (ttl : Duration)

def factorNudge : FactorNudge → FactorWorld → FactorWorld
  | .vault n, w => { w with world := nudge n w.world }
  | .setTOTP secrets, w => { w with totpSecrets := secrets }
  | .setCredentials credentials, w => { w with credentials := credentials }
  | .setBackupCodes codes, w => { w with backupCodes := codes }
  | .setCache u (.inl code) ttl, w =>
    { w with world := { w.world with
      cache := (w.world.cache.set w.world.clock (.emailOTP u) (.mac code) ttl).2 } }
  | .setCache u (.inr session) ttl, w =>
    { w with world := { w.world with
      cache := (w.world.cache.set w.world.clock (.webauthnAuth u) (.ceremony session) ttl).2 } }

/-- **The service, over the factor stores.** -/
def signInService (cfg : Settings) : System factors where
  World := FactorWorld
  Req := SignInReq
  Result := SignInResponse
  program := SignInReq.serve cfg
  answer := answerFactor
  blocked
    | t, .vault c, w => blocked t c w.world
    | _, _, _ => false
  Fault := FactorFault
  Nudge := FactorNudge
  nudge := factorNudge

end Vault42
