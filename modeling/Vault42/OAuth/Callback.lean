import Vault42.Framework.Extension
import Vault42.Service.Factors

/-!
# Signing in through a provider

`OAuthHandler.Callback` of `internal/handler/oauth.go`, from the provider's assertion on: the
account behind the assertion is found by its link, found by its address, or created; it passes the
account gate; the link is written; and a challenge or a session is issued. `AuthService.Register`
and `SocialHandler.Unlink` are the other writers of the two tables involved, `auth.users` and
`auth.social_accounts`. All three are added to the service (`Framework.System.annex`), so that their
statements interleave with each other's and with those of every other request.

The exchange with the provider comes before and touches neither table: a request starts with the
`UserInfo` the provider vouched for. `sanitize.TrustedEmail` and `sanitize.Email` are parameters.
-/

namespace Vault42.OAuth

open Framework Program

/-- `oauth2.UserInfo`, what a provider asserts; name, picture and provider left out. -/
structure UserInfo where
  /-- The provider's subject. -/
  id : String
  email : String
  emailVerified : Bool
  authTime : Time
deriving DecidableEq, Repr

/-- `model.SocialAccount`, a row of `auth.social_accounts`: a standing login without a password. -/
structure SocialAccount where
  id : UUID
  userID : UserID
  provider : String
  providerUserID : String
  createdAt : Time
deriving DecidableEq, Repr

/-- The parts of the configuration that only these handlers read. -/
structure Federation where
  /-- Whether the table of links is configured (`h.social != nil`). -/
  hasSocial : Bool
  trustedEmail : String → Option String
  validEmail : String → Bool
  minPwLength : ℕ

/-- The statements on `auth.social_accounts`, the insertion of an account, and what else only these
handlers do. -/
inductive SocialCall where
  | getByProviderAndID (provider providerUserID : String)
  | createUser (u : User)
  | createLink (a : SocialAccount)
  | deleteLink (id : UUID) (u : UserID)
  | auditRegistration (u : UserID)
  | sendSignupVerification (email : String) (u : UserID)

abbrev SocialCall.Reply : SocialCall → Type
  | .getByProviderAndID _ _ => Except StoreError (Option SocialAccount)
  | .createUser _ => Except StoreError Unit
  | .createLink _ => Except StoreError Unit
  | .deleteLink _ _ => Except StoreError Unit
  | .auditRegistration _ => Unit
  | .sendSignupVerification _ _ => Unit

abbrev socialSig : Signature := ⟨SocialCall, SocialCall.Reply⟩

abbrev web : Signature := vault.sum socialSig

abbrev WebProg := Program web

abbrev askVault (c : Call) : WebProg c.Reply := Program.perform (S := web) (.inl c)

/-- One call of these handlers' own. -/
abbrev askSocial (c : SocialCall) : WebProg c.Reply := Program.perform (S := web) (.inr c)

/-! ### The callback -/

/-- What a callback is answered with when it does not sign anybody in. -/
inductive CallbackError where
  | providerError
  | internalError
  /-- A redirect back with `error=verification_required`. -/
  | verificationRequired
  | emailAlreadyRegistered
  | unableToIdentifyUser
  | accountUnavailable
  | accountBanned
  | accountDisabled
  | accountLocked
  | sessionLimitReached
deriving DecidableEq, Repr

/-- Where a callback redirects to otherwise. -/
inductive Redirect where
  | challenge (token : ChallengeClaims)
  /-- The exchange code, and the refresh token in the cookie. -/
  | session (code : UUID) (refreshToken : ℕ)
deriving DecidableEq, Repr

/-- A callback, once the provider has answered. -/
structure CallbackInput where
  provider : String
  info : UserInfo
  fp : FingerprintInput
  jkt : String
deriving DecidableEq, Repr

def isSpace (c : Char) : Bool :=
  [0x20, 0x85, 0xA0, 0x1680, 0x2028, 0x2029, 0x202f, 0x205f, 0x3000].contains c.toNat ||
    (9 ≤ c.toNat && c.toNat ≤ 13) || (0x2000 ≤ c.toNat && c.toNat ≤ 0x200a)

/-- `strings.TrimSpace(s) == ""`. -/
def isBlank (s : String) : Bool := s.toList.all isSpace

/-- The address a callback goes by: `normalizedProviderEmail` where the provider asserted one. -/
def providerEmail (env : Federation) (info : UserInfo) : String :=
  if info.email = "" then "" else (env.trustedEmail info.email).getD ""

def linkableToExistingAccount (info : UserInfo) (existing : User) : Bool :=
  info.emailVerified && existing.emailVerified

/-- An account that holds the address already: it is taken when the link is allowed. -/
def adopt (info : UserInfo) (existing : User) : Except CallbackError UserID :=
  if linkableToExistingAccount info existing then .ok existing.id
  else .error .emailAlreadyRegistered

/-- The row a callback creates. Its password hash is a sentinel that no verifier can parse. -/
def newUser (id : UUID) (email : String) (info : UserInfo) : User where
  id := toString id
  email := email
  emailVerified := info.emailVerified
  passwordHash := .unparsable
  lockedUntil := none
  failedLoginCount := 0
  roles := []
  banned := false
  disabled := false
  deleted := false
  importPending := false
  mustResetPassword := false

/-- The account linked to the subject, `""` when there is none. -/
def linkedAccount (env : Federation) (input : CallbackInput) :
    WebProg (Except CallbackError UserID) := do
  if env.hasSocial then
    match ← askSocial (.getByProviderAndID input.provider input.info.id) with
    | .error _ => pure (.error .internalError)
    | .ok none => pure (.ok "")
    | .ok (some a) => pure (.ok a.userID)
  else pure (.ok "")

/-- The account of an address that was free a moment ago: a new one, or the one that was created
meanwhile. -/
def createOrAdopt (info : UserInfo) (email : String) : WebProg (Except CallbackError UserID) := do
  let newID ← askVault .random
  match ← askSocial (.createUser (newUser newID email info)) with
  | .ok () => pure (.ok (toString newID))
  | .error .backend => pure (.error .internalError)
  | .error .uniqueViolation =>
    match ← askVault (.getByEmail email) with
    | .ok (some raceUser) => pure (adopt info raceUser)
    | _ => pure (.error .internalError)

/-- The account of an address. -/
def accountByEmail (info : UserInfo) (email : String) : WebProg (Except CallbackError UserID) := do
  if !info.emailVerified then pure (.error .verificationRequired)
  else
    match ← askVault (.getByEmail email) with
    | .error _ => pure (.error .internalError)
    | .ok (some existing) => pure (adopt info existing)
    | .ok none => createOrAdopt info email

/-- The write of the link, where one is owed. -/
def writeLink (input : CallbackInput) (u : UserID) (link : Bool) : WebProg Bool := do
  if link then
    let saID ← askVault .random
    let now ← askVault .now
    match ← askSocial (.createLink ⟨saID, u, input.provider, input.info.id, now⟩) with
    | .error _ => pure false
    | .ok () => pure true
  else pure true

/-- A challenge or a session, and the redirect that carries it. -/
def issue (cfg : Settings) (input : CallbackInput) (u : UserID) :
    WebProg (Except CallbackError Redirect) := do
  let now ← askVault .now
  match ← (OAuthHandler.secondFactorOrTokens cfg u input.fp input.info.authTime now
    input.jkt).inl with
  | .error .tooManySessions => pure (.error .sessionLimitReached)
  | .error _ => pure (.error .internalError)
  | .ok (.challenge token _) => pure (.ok (.challenge token))
  | .ok (.session access _ refresh _) =>
    (auditLog .oauth2Callback u "").inl
    let code ← askVault .random
    let _ ← askVault (.cacheSet (.oauthCode code (computeFingerprint input.fp)) (.exchange access)
      OAuthHandler.exchangeTTL)
    pure (.ok (.session code refresh))
  | .ok (.decoy _ _ _) => pure (.error .internalError)

/-- The callback for an account that passed the gate: the link, the claim of an imported account,
the session. -/
def linkAndIssue (cfg : Settings) (input : CallbackInput) (u : UserID) (link : Bool) (acct : User) :
    WebProg (Except CallbackError Redirect) := do
  if ← writeLink input u link then
    if acct.importPending then
      match ← askVault (.clearImportPending acct.id) with
      | .error _ => pure (.error .internalError)
      | .ok () => issue cfg input u
    else issue cfg input u
  else pure (.error .internalError)

/-- The account gate. -/
def enter (cfg : Settings) (input : CallbackInput) (u : UserID) (link : Bool) :
    WebProg (Except CallbackError Redirect) := do
  if u = "" then pure (.error .unableToIdentifyUser)
  else
    match ← askVault (.getByID u) with
    | .ok (some acct) =>
      let now ← askVault .now
      if acct.deleted then pure (.error .accountUnavailable)
      else if acct.banned then pure (.error .accountBanned)
      else if acct.disabled then pure (.error .accountDisabled)
      else if acct.lockedAt now then pure (.error .accountLocked)
      else if ← (AuthService.mfaVerifyLocked cfg acct.id input.fp.ip).inl then
        pure (.error .accountLocked)
      else linkAndIssue cfg input u link acct
    -- a failed read counts as no account
    | _ => pure (.error .accountUnavailable)

def callback (cfg : Settings) (env : Federation) (input : CallbackInput) :
    WebProg (Except CallbackError Redirect) := do
  if isBlank input.info.id then pure (.error .providerError)
  else
    match ← linkedAccount env input with
    | .error e => pure (.error e)
    | .ok linked =>
      if linked = "" ∧ providerEmail env input.info ≠ "" then
        match ← accountByEmail input.info (providerEmail env input.info) with
        | .error e => pure (.error e)
        | .ok u => enter cfg input u env.hasSocial
      else enter cfg input linked false

/-! ### Registration and unlinking -/

/-- `RegisterInput`, its address and password. -/
structure RegisterInput where
  email : String
  password : String
deriving DecidableEq, Repr

inductive RegisterError where
  | invalidInput
  | passwordTooShort
  | passwordBreached
  | emailTaken
  | argon2Overloaded
  | internalError
deriving DecidableEq, Repr

/-- The row a registration creates: its address is not verified. -/
def registeredUser (id : UUID) (email : String) (hash : PasswordHash) : User where
  id := toString id
  email := email
  emailVerified := false
  passwordHash := hash
  lockedUntil := none
  failedLoginCount := 0
  roles := []
  banned := false
  disabled := false
  deleted := false
  importPending := false
  mustResetPassword := false

/-- The account of a registration whose address was free a moment ago. -/
def createAccount (cfg : Settings) (email : String) (hash : PasswordHash) :
    WebProg (Except RegisterError UserID) := do
  let userID ← askVault .random
  match ← askSocial (.createUser (registeredUser userID email hash)) with
  | .error .uniqueViolation => pure (.error .emailTaken)
  | .error .backend => pure (.error .internalError)
  | .ok () =>
    -- the entry of the history and the mail are best effort
    let _ ← askVault (.recordPassword (toString userID) hash)
    askSocial (.auditRegistration (toString userID))
    if cfg.hasCache && cfg.hasEmailSender then
      askSocial (.sendSignupVerification email (toString userID))
      pure (.ok (toString userID))
    else pure (.ok (toString userID))

def register (cfg : Settings) (env : Federation) (input : RegisterInput) :
    WebProg (Except RegisterError UserID) := do
  let email := cfg.fold input.email
  if !env.validEmail email then pure (.error .invalidInput)
  else if input.password.length < env.minPwLength then pure (.error .passwordTooShort)
  else if ← (PasswordHandler.breached cfg input.password).inl then pure (.error .passwordBreached)
  else
    match ← askVault (.getByEmail email) with
    | .error _ => pure (.error .internalError)
    | .ok (some _) =>
      match ← askVault (.verifyPassword input.password .dummy) with
      | .overloaded => pure (.error .argon2Overloaded)
      | _ => pure (.error .emailTaken)
    | .ok none =>
      match ← askVault (.hashPassword input.password) with
      | none => pure (.error .argon2Overloaded)
      | some hash => createAccount cfg email hash

/-- `Unlink`, on the link an authenticated account names. -/
def unlink (u : UserID) (id : UUID) : WebProg Bool := do
  match ← askSocial (.deleteLink id u) with
  | .error _ => pure false
  | .ok () => pure true

/-! ### The service with these handlers -/

inductive WebReq where
  | callback (input : CallbackInput)
  | register (input : RegisterInput)
  | unlink (u : UserID) (id : UUID)

inductive WebResult where
  | callback (r : Except CallbackError Redirect)
  | register (r : Except RegisterError UserID)
  | unlink (r : Bool)
deriving DecidableEq

def serveWeb (cfg : Settings) (env : Federation) : WebReq → WebProg WebResult
  | .callback input => do pure (.callback (← callback cfg env input))
  | .register input => do pure (.register (← register cfg env input))
  | .unlink u id => do pure (.unlink (← unlink u id))

/-- How a statement is answered: `auth.users` has its id as key and its address unique,
`auth.social_accounts` has its id as key, `(provider, provider_user_id)` unique, and refers to
`auth.users`. -/
def socialAnswer : (c : SocialCall) → World × List SocialAccount →
    c.Reply × (World × List SocialAccount)
  | .getByProviderAndID provider subject, (w, links) =>
    (.ok (links.find? fun a => a.provider == provider && a.providerUserID == subject), w, links)
  | .createUser u, (w, links) =>
    if w.users.any fun x => x.id == u.id || x.email == u.email then
      (.error .uniqueViolation, w, links)
    else (.ok (), { w with users := u :: w.users }, links)
  | .createLink a, (w, links) =>
    if !w.users.any fun x => x.id == a.userID then (.error .backend, w, links)
    else if links.any fun b => b.id == a.id ||
        (b.provider == a.provider && b.providerUserID == a.providerUserID) then
      (.error .uniqueViolation, w, links)
    else (.ok (), w, a :: links)
  | .deleteLink id u, (w, links) =>
    (.ok (), w, links.filter fun a => !(a.id == id && a.userID == u))
  | .auditRegistration _, s => ((), s)
  | .sendSignupVerification _ _, s => ((), s)

/-- The failures of these statements. -/
def SocialFault : (c : SocialCall) → c.Reply → Prop
  | .getByProviderAndID _ _, r => ∃ e, r = .error e
  | .createUser _, r => ∃ e, r = .error e
  | .createLink _, r => ∃ e, r = .error e
  | .deleteLink _ _, r => ∃ e, r = .error e
  | .auditRegistration _, _ => True
  | .sendSignupVerification _ _, _ => True

/-- The handlers, as an addition to the service. An erasure takes away the links of an account. -/
abbrev federation (cfg : Settings) (env : Federation) : Annex (service cfg) socialSig where
  State := List SocialAccount
  Req := WebReq
  Result := WebResult
  program := serveWeb cfg env
  answer _ := socialAnswer
  blocked _ _ _ := false
  Fault := SocialFault
  Nudge := UserID
  nudge u := fun (w, links) => (w, links.filter fun a => a.userID != u)

/-- **The service with its callbacks and registrations.** -/
abbrev federated (cfg : Settings) (env : Federation) : System web :=
  (service cfg).annex (federation cfg env)

end Vault42.OAuth
