import Vault42.Service.Login

/-!
# The second factor

The handlers that redeem a challenge token (`totp.go`, `email_otp.go`, `backup_codes.go`) and
`AuthService.CompleteMFALogin` behind them. The three handlers differ in how they check a code and
agree in everything else, so they are one program with the method as a parameter.

A code is checked only when the account is not locked to the caller's address, and a wrong one is
counted toward that same lock. The handler of WebAuthn does neither; it is
`SecondFactor.webauthnVerify` of `Vault42.Service.Factors`, over the factor stores.
-/

namespace Vault42

open Framework

namespace AuthService

/-- A second-factor request: the challenge token, the code, and the device it comes from. -/
structure SecondFactorInput where
  token : ChallengeClaims
  method : String
  code : String
  fingerprint : FingerprintInput
  jkt : String
deriving DecidableEq, Repr

/-- The gate of `CompleteMFALogin` on the account as it is now. -/
def mfaAccountGate (user : User) (now : Time) : Except AuthError Unit :=
  if user.deleted || user.mustResetPassword || user.importPending then .error .tokenInvalid
  else if user.banned then .error .accountBanned
  else if user.disabled then .error .accountDisabled
  else if user.lockedAt now then .error .accountLocked
  else .ok ()

/-- `CompleteMFALogin` once the challenge is consumed. -/
def finishMFALogin (cfg : Settings) (input : SecondFactorInput) (fp : Fingerprint) :
    Prog (Except AuthError LoginResult) := do
  clearLockout cfg input.token.subject input.fingerprint.ip
  match ← checkSessionLimit cfg input.token.subject with
  | .error e => pure (.error e)
  | .ok () =>
    let deviceID ← findOrCreateDevice input.token.subject fp
    match ← ask (.getByID input.token.subject) with
    | .error _ => pure (.error .tokenInvalid)
    | .ok none => pure (.error .tokenInvalid)
    | .ok (some user) =>
      let now ← ask .now
      match mfaAccountGate user now with
      | .error e => pure (.error e)
      | .ok () =>
        startSession cfg input.jkt user "" deviceID fp false (input.token.factors ++ [input.method])

/-- **`CompleteMFALogin`**: a challenge is consumed at most once, and the account is read again. -/
def completeMFALogin (cfg : Settings) (input : SecondFactorInput) (fp : Fingerprint) :
    Prog (Except AuthError LoginResult) := do
  if cfg.hasCache then
    match ← ask (.cacheSetIfNotExists (.challengeUsed input.token.jti) (.count 1) challengeTTL) with
    | .error _ => pure (.error .internal)
    | .ok false => pure (.error .challengeConsumed)
    | .ok true => finishMFALogin cfg input fp
  else finishMFALogin cfg input fp

/-- `completeMFAIfChallenge`: a challenge minted for one device is not redeemed from another. -/
def completeMFAIfChallenge (cfg : Settings) (input : SecondFactorInput) :
    Prog (Except AuthError LoginResult) := do
  if input.token.fingerprint = computeFingerprint input.fingerprint then
    completeMFALogin cfg input (computeFingerprint input.fingerprint)
  else
    auditLog .fingerprintAnomaly input.token.subject "mfa_challenge"
    pure (.error .tokenInvalid)

/-- **The second-factor handlers**: `Verify` of TOTP, email code and backup code. -/
def verifySecondFactor (cfg : Settings) (input : SecondFactorInput) :
    Prog (Except AuthError LoginResult) := do
  if ← ask (.verifyChallenge input.token) then
    if ← mfaVerifyLocked cfg input.token.subject input.fingerprint.ip then
      pure (.error .accountLocked)
    else if ← ask (.checkSecondFactor input.token.subject input.method input.code) then
      completeMFAIfChallenge cfg input
    else
      recordMFAFailure cfg input.token.subject input.fingerprint.ip
      pure (.error .invalidCredentials)
  else pure (.error .tokenInvalid)

end AuthService

end Vault42
