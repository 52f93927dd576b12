import Vault42.World

/-!
# Issuing tokens

`internal/service/token.go` and the factor tables of `internal/service/mfa.go`: how an access and
refresh pair is minted, how long the refresh token may live, and what the access token says about
the authentication it came from.

Every bound on a refresh token is applied by `clampExpiry`, which only ever moves an expiry earlier:
`clampExpiry_le` and `clampExpiry_le_deadline` are the two halves of that, and
`issueTokenPairWithAuth` and `issueRotatedPair` compose it.
-/

namespace Vault42

open Framework

/-- A request handler: a program over the service's calls. -/
abbrev Prog := Program vault

abbrev ask (c : Call) : Prog c.Reply := Program.perform (S := vault) c

/-- `auditLog.Log`, best effort. -/
def auditLog (kind : AuditKind) (u : UserID) (reason : String) : Prog Unit :=
  ask (.audit ⟨kind, u, reason, none⟩)

/-- **The configuration** of the token service and the auth service. A bound of zero or less is
off. -/
structure Settings where
  accessTokenTTL : Duration
  refreshTokenTTL : Duration
  rememberMeTTL : Duration
  maxSessionLifetime : Duration
  inactivityTimeout : Duration
  maxSessionsPerUser : ℤ
  strictSessionLimit : Bool
  /-- Whether a cache is configured (`s.cache != nil`). -/
  hasCache : Bool
  /-- Whether the rate-limit table is configured (`s.rateLimits != nil`). -/
  hasRateLimits : Bool
  hasEmailSender : Bool
  /-- Whether the MFA service is configured (`s.mfaSvc != nil`). -/
  hasMFA : Bool
  mfaRequired : Bool
  hasRoleCatalog : Bool
  hibpEnabled : Bool
  /-- `strings.ToLower(strings.TrimSpace(·))`. -/
  fold : String → String
  /-- Planted trap addresses (`honeypotAlert.IsTrapUser`). -/
  isTrapUser : String → Bool
  trapSubject : String → UserID

/-! ### Factors -/

def methodPassword : String := "password"

def methodTOTP : String := "totp"

def methodEmailOTP : String := "email_otp"

def methodBackupCode : String := "backup_code"

def methodWebAuthn : String := "webauthn"

def methodFederated : String := "federated"

def aalForMethods (methods : List String) (userVerified : Bool) : ℕ :=
  let firstFactor := methods.contains methodPassword || methods.contains methodFederated
  let possession := methods.contains methodTOTP || methods.contains methodEmailOTP ||
    methods.contains methodBackupCode || methods.contains methodWebAuthn
  if methods.contains methodWebAuthn && userVerified then 2
  else if firstFactor && possession then 2
  else 1

def acrForAAL (aal : ℕ) : String := "urn:vault42:aal:" ++ toString aal

def amrForMethods (methods : List String) (userVerified : Bool) : List String :=
  (if methods.contains methodPassword then ["pwd"] else []) ++
    (if methods.contains methodTOTP || methods.contains methodEmailOTP ||
        methods.contains methodBackupCode then ["otp"] else []) ++
    (if methods.contains methodWebAuthn then
      "hwk" :: (if userVerified then ["user"] else []) else []) ++
    (if 2 ≤ aalForMethods methods userVerified then ["mfa"] else [])

/-- `AuthContext`: the authentication event an access token describes. -/
structure AuthContext where
  acr : String
  amr : List String
  authTime : Time
deriving DecidableEq, Repr

def newAuthContext (at_ : Time) (methods : List String) (userVerified : Bool) : AuthContext :=
  ⟨acrForAAL (aalForMethods methods userVerified), amrForMethods methods userVerified, at_⟩

/-! ### Deadlines -/

/-- `sessionDeadline`: the instant a family created at `origin` must end, zero when no bound
applies. -/
def sessionDeadline (origin : Time) (maxLifetime : Duration) : Time :=
  if maxLifetime ≤ 0 ∨ origin.isZero then 0 else origin + maxLifetime

/-- `clampExpiry`: pull an expiry back to a deadline that is set and earlier. -/
def clampExpiry (exp deadline : Time) : Time :=
  if !deadline.isZero && decide (deadline < exp) then deadline else exp

theorem clampExpiry_le (exp deadline : Time) : clampExpiry exp deadline ≤ exp := by
  unfold clampExpiry
  split
  · rename_i h
    simp only [Bool.and_eq_true, decide_eq_true_eq] at h
    exact h.2.le
  · exact le_refl _

/-- A deadline that is set is never passed. -/
theorem clampExpiry_le_deadline {exp deadline : Time} (h : deadline ≠ 0) :
    clampExpiry exp deadline ≤ deadline := by
  unfold clampExpiry
  split
  · exact le_refl _
  · rename_i hn
    simp only [Time.isZero, Bool.and_eq_true, Bool.not_eq_true', beq_eq_false_iff_ne,
      decide_eq_true_eq, not_and, not_lt] at hn
    exact hn h

theorem sessionDeadline_eq {origin : Time} {maxLifetime : Duration} (hL : 0 < maxLifetime)
    (ho : origin ≠ 0) : sessionDeadline origin maxLifetime = origin + maxLifetime := by
  unfold sessionDeadline
  rw [if_neg]
  simp only [Time.isZero, beq_iff_eq, not_or, not_le]
  exact ⟨hL, ho⟩

/-- A bound that is on, measured from a known instant, holds of the clamped expiry. -/
theorem clampExpiry_sessionDeadline_le {exp origin : Time} {maxLifetime : Duration}
    (hL : 0 < maxLifetime) (ho : 0 < origin) :
    clampExpiry exp (sessionDeadline origin maxLifetime) ≤ origin + maxLifetime := by
  rw [sessionDeadline_eq hL ho.ne']
  exact clampExpiry_le_deadline (by lia)

/-! ### Issuance -/

/-- `TokenPair`. The refresh token is the random value itself. -/
structure TokenPair where
  accessToken : AccessClaims
  refreshToken : ℕ
  expiresAt : Time
  refreshExpAt : Time
  familyID : UUID
deriving DecidableEq, Repr

/-- The life of a challenge token. -/
def challengeTTL : Duration := 5 * Duration.minute

namespace TokenService

/-- `IssueTokenPairWithAuth`. No family id starts a new family. `jkt` is the thumbprint of the DPoP
proof on the request context, empty when none was presented. -/
def issueTokenPairWithAuth (cfg : Settings) (jkt : String) (userID : UserID)
    (roles scopes : List String)
    (clientID : String) (fingerprint : Fingerprint) (familyID : Option UUID) (rememberMe : Bool)
    (auth : AuthContext) : Prog TokenPair := do
  let now ← ask .now
  let jti ← ask .random
  let refreshToken ← ask .random
  let refreshTTL := if rememberMe then cfg.rememberMeTTL else cfg.refreshTokenTTL
  let access : AccessClaims :=
    { subject := userID, issuedAt := now, expiresAt := now + cfg.accessTokenTTL, jti := jti,
      roles := roles, scopes := scopes, clientID := clientID, fingerprint := fingerprint,
      acr := auth.acr, amr := auth.amr, authTime := auth.authTime,
      confirmation := nullStr jkt }
  match familyID with
  | none =>
    let family ← ask .random
    let exp := clampExpiry (now + refreshTTL) (sessionDeadline now cfg.maxSessionLifetime)
    pure ⟨access, refreshToken, now + cfg.accessTokenTTL,
      clampExpiry exp (sessionDeadline now cfg.inactivityTimeout), family⟩
  | some family =>
    pure ⟨access, refreshToken, now + cfg.accessTokenTTL,
      clampExpiry (now + refreshTTL) (sessionDeadline now cfg.inactivityTimeout), family⟩

/-- `IssueRotatedPair`: the next pair of a family, clamped to the family's absolute deadline too. -/
def issueRotatedPair (cfg : Settings) (jkt : String) (userID : UserID) (roles scopes : List String)
    (clientID : String) (fingerprint : Fingerprint) (familyID : UUID) (familyOrigin : Time) :
    Prog TokenPair := do
  let pair ← issueTokenPairWithAuth cfg jkt userID roles scopes clientID fingerprint (some familyID)
    false ⟨"", [], familyOrigin⟩
  pure { pair with
    refreshExpAt :=
      clampExpiry pair.refreshExpAt (sessionDeadline familyOrigin cfg.maxSessionLifetime) }

def issueChallengeToken (jkt : String) (userID : UserID) (fingerprint : Fingerprint)
    (factors : List String) : Prog ChallengeClaims := do
  let now ← ask .now
  let jti ← ask .random
  let claims : ChallengeClaims :=
    { subject := userID, issuedAt := now, expiresAt := now + challengeTTL, jti := jti,
      fingerprint := fingerprint, factors := factors, confirmation := nullStr jkt }
  ask (.signChallenge claims)
  pure claims

end TokenService

end Vault42
