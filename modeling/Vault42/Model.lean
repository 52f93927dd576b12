import Mathlib.Data.Int.Order.Basic

/-!
# The data model

The records of `internal/model` and the values of `internal/crypto` that the session logic reads
and writes. Three conventions hold throughout.

* **Instants** are nanoseconds, and `0` is Go's zero `time.Time`: a value that was never set.
  Durations are nanoseconds too, and may be zero or negative, which is how a bound is switched off.
* **Random values** (UUIDs, opaque tokens, salts) are natural numbers drawn from a supply that never
  repeats itself, so that the collisions the code treats as impossible are impossible here.
* **Digests** are ideal: a digest is a constructor applied to what was digested, so two digests are
  equal exactly when their inputs are.

Strings that the code compares with `""` to mean *absent* are options where the value is a digest or
a UUID, and strings where it is caller-supplied text (`ClientID`, the DPoP thumbprint).
-/

namespace Vault42

/-- An instant, in nanoseconds; `0` is the zero `time.Time`. -/
abbrev Time := ℤ

/-- A `time.Duration`, in nanoseconds. -/
abbrev Duration := ℤ

namespace Duration

def second : Duration := 1000000000

def minute : Duration := 60 * second

def hour : Duration := 60 * minute

end Duration

def Time.isZero (t : Time) : Bool := t == 0

/-- A random identifier, drawn from the supply (`vaultcrypto.RandomUUID`). -/
abbrev UUID := ℕ

/-- A user's stable identifier, the JWT subject. -/
abbrev UserID := String

/-- A client address, as the edge resolved it; `""` is an unknown source. -/
abbrev IPAddr := String

/-- The SHA-256 of an opaque refresh token (`vaultcrypto.SHA256Hex`). -/
structure TokenHash where
  ofToken : ℕ
deriving DecidableEq, Repr

/-- `vaultcrypto.SHA256Hex` of a refresh token. -/
def sha256Hex (token : ℕ) : TokenHash := ⟨token⟩

structure FingerprintInput where
  ip : String
  userAgent : String
  acceptLanguage : String
  tlsFingerprint : String
deriving DecidableEq, Repr

/-- A device fingerprint: the digest of the length-prefixed fields of its input. -/
structure Fingerprint where
  ofInput : FingerprintInput
deriving DecidableEq, Repr

def computeFingerprint (input : FingerprintInput) : Fingerprint := ⟨input⟩

/-- A stored password verifier. -/
inductive PasswordHash where
  /-- An Argon2id PHC string over a password and a salt. -/
  | argon2id (password : String) (salt : ℕ)
  /-- A hash imported from elsewhere that `VerifyPassword` cannot parse. -/
  | unparsable
  /-- `vaultcrypto.DummyHash`, burned where there is no account to verify against. -/
  | dummy
deriving DecidableEq, Repr

/-- The columns of `auth.users` that the session logic reads. -/
structure User where
  id : UserID
  email : String
  emailVerified : Bool
  passwordHash : PasswordHash
  /-- `locked_until`; `none` is NULL. -/
  lockedUntil : Option Time
  failedLoginCount : ℕ
  roles : List String
  banned : Bool
  disabled : Bool
  deleted : Bool
  importPending : Bool
  mustResetPassword : Bool
deriving DecidableEq, Repr

/-- An administrative lock in force: `LockedUntil != nil && now.Before(*LockedUntil)`. -/
def User.lockedAt (u : User) (now : Time) : Bool :=
  match u.lockedUntil with
  | none => false
  | some t => decide (now < t)

/-- `model.Device`, its identity only. -/
structure Device where
  id : UUID
  userID : UserID
  fingerprintHash : Fingerprint
deriving DecidableEq, Repr

/-- `model.RefreshToken`: one generation of a session, as the service passes it to the store and
reads it back. -/
structure RefreshToken where
  id : UUID
  userID : UserID
  clientID : String
  tokenHash : TokenHash
  familyID : UUID
  deviceID : Option UUID
  fingerprintHash : Option Fingerprint
  dpopJKT : String
  expiresAt : Time
  used : Bool
  revoked : Bool
  createdAt : Time
deriving DecidableEq, Repr

/-- The access token's claims. A signed token is its claims: only the service can make one. -/
structure AccessClaims where
  subject : UserID
  issuedAt : Time
  expiresAt : Time
  jti : UUID
  roles : List String
  scopes : List String
  clientID : String
  fingerprint : Fingerprint
  acr : String
  amr : List String
  authTime : Time
  /-- `cnf.jkt`; `none` is a bearer token. -/
  confirmation : Option String
deriving DecidableEq, Repr

/-- The claims of a `2fa_challenge` token: what a login that still owes a second factor is given. -/
structure ChallengeClaims where
  subject : UserID
  issuedAt : Time
  expiresAt : Time
  jti : UUID
  fingerprint : Fingerprint
  factors : List String
  confirmation : Option String
deriving DecidableEq, Repr

/-- The errors the service answers with. -/
inductive AuthError where
  | invalidCredentials
  | accountLocked
  | accountBanned
  | accountDisabled
  | passwordResetRequired
  | tokenExpired
  | tokenInvalid
  | replayDetected
  | sessionExpired
  | sessionIdle
  | sessionAgeUnknown
  | challengeConsumed
  | tooManySessions
  | argon2Overloaded
  /-- `errPasswordReused` and `errPasswordBreached` of the password handler. -/
  | passwordReused
  | passwordBreached
  /-- `repository.ErrUserNotUpdatable`. -/
  | userNotUpdatable
  /-- Any error of a store or a cache, passed up as it came. -/
  | internal
deriving DecidableEq, Repr

end Vault42
