import Vault42.Service.Requests

/-!
# Bookkeeping calls

Most calls of a handler are bookkeeping: counters, delays, audit rows, devices, roles, deferred
mail. They decide whether a request is refused, but they neither touch a session nor say anything
about a password or a challenge. `Clerical` is the alphabet of those calls, and the lemmas here say
which parts of the handlers make no others. Every discipline of this development ignores them.

The alphabet is indexed by the cache keys a program may write, so that the same lemmas say which
counters it can move: `∅` for one that only looks.
-/

namespace Vault42

open Framework Program

variable {kind : AuditKind} {u : UserID} {α : Type}

/-- **The bookkeeping calls** that write no cache key outside `K`. -/
def Clerical (K : Set CacheKey) : Call → Prop
  | .getByEmail _ => False
  | .updatePassword _ _ => False
  | .tokens (.countActiveFamilies _) => True
  | .tokens _ => False
  | .cacheSet (.oauthCode _ _) _ _ => False
  | .cacheSet k _ _ => k ∈ K
  | .cacheDelete k => k ∈ K
  | .cacheGetAndDelete k => k ∈ K
  | .cacheSetIfNotExists (.challengeUsed _) _ _ => False
  | .cacheSetIfNotExists (.oauthCode _ _) _ _ => False
  | .cacheSetIfNotExists k _ _ => k ∈ K
  | .cacheIncrement k _ => k ∈ K
  -- the latch is set where a lockout counter was to be written
  | .refusedAtStore _ => ∃ k ∈ K, k.lockout
  -- the rate-limit table stands in for the address counters
  | .rateLimitIncrement _ _ => ∃ ip, .ipLockout ip ∈ K
  | .verifyPassword _ _ => False
  | .hashPassword _ => False
  | .checkSecondFactor _ _ _ => False
  | .signChallenge _ => False
  | .verifyChallenge _ => False
  | _ => True

variable {K : Set CacheKey}

theorem Clerical.mono {K' : Set CacheKey} (hK : K ⊆ K') {c : Call} (h : Clerical K c) :
    Clerical K' c := by
  cases c with
  | cacheSet k =>
    cases k with
    | oauthCode => exact h
    | _ => exact hK h
  | cacheSetIfNotExists k =>
    cases k with
    | challengeUsed | oauthCode => exact h
    | _ => exact hK h
  | cacheDelete | cacheGetAndDelete | cacheIncrement => exact hK h
  | refusedAtStore =>
    obtain ⟨k, hk, hlock⟩ := h
    exact ⟨k, hK hk, hlock⟩
  | rateLimitIncrement =>
    obtain ⟨ip, hip⟩ := h
    exact ⟨ip, hK hip⟩
  | tokens q => cases q <;> exact h
  | _ => exact h

theorem within_clerical_mono {K' : Set CacheKey} {p : Prog α}
    (hp : p.Within (Clerical K)) (hK : K ⊆ K') : p.Within (Clerical K') :=
  hp.mono fun _ => Clerical.mono hK

theorem within_clerical_of_empty {p : Prog α} (hp : p.Within (Clerical ∅)) :
    p.Within (Clerical K) :=
  within_clerical_mono hp (Set.empty_subset K)

/-- The counters a failed attempt advances. -/
def failureKeys (u : UserID) (ip : IPAddr) : Set CacheKey :=
  {k | (∃ g, k = .sourceLockout u ip g) ∨ k = .accountLockout u}

/-- What a failed login writes. -/
def loginFailureKeys (u : UserID) (ip : IPAddr) : Set CacheKey :=
  failureKeys u ip ∪ {.ipLockout ip, .lockNotified u}

/-- The counters of one source. -/
def sourceKeys (u : UserID) (ip : IPAddr) : Set CacheKey := {k | ∃ g, k = .sourceLockout u ip g}

/-- What a password change has pending. -/
def pendingKeys (u : UserID) : Set CacheKey :=
  {k | k = .pwresetUser u ∨ k = .confirm u ∨ ∃ h, k = .reset h}

theorem auditLog_clerical {reason : String} :
    (auditLog kind u reason).Within (Clerical ∅) := .call trivial

namespace AuthService

/-! ### Lockout -/

theorem cachedCount_clerical (k : CacheKey) : (cachedCount k).Within (Clerical ∅) := by
  refine .bind (.call trivial) fun r => ?_
  rcases r with _ | _ | _ <;> exact trivial

theorem lockedByStoredCount_clerical (u : UserID) :
    (lockedByStoredCount u).Within (Clerical ∅) := by
  refine .bind (.call trivial) fun r => ?_
  rcases r with _ | _ | _ <;> exact trivial

theorem lockoutCountersUnwritable_clerical : lockoutCountersUnwritable.Within (Clerical ∅) := by
  refine .bind (.call trivial) fun at_ => .ite trivial ?_
  exact .bind (.call trivial) fun now => trivial

theorem noteLockoutCounterRefused_clerical (hK : ∃ k ∈ K, k.lockout) :
    noteLockoutCounterRefused.Within (Clerical K) :=
  .bind (.call trivial) fun _ => .call hK

theorem isAccountLocked_clerical (cfg : Settings) (u : UserID) (ip : IPAddr) :
    (isAccountLocked cfg u ip).Within (Clerical ∅) := by
  have stored := lockedByStoredCount_clerical u
  refine .ite stored ?_
  refine .bind lockoutCountersUnwritable_clerical fun unwritable => ?_
  refine .bind (cachedCount_clerical _) fun generation => ?_
  rcases generation with _ | generation
  · exact stored
  refine .bind (cachedCount_clerical _) fun perSource => ?_
  rcases perSource with _ | perSource
  · exact stored
  refine .ite stored (.ite trivial ?_)
  refine .bind (cachedCount_clerical _) fun account => ?_
  rcases account with _ | account
  · exact stored
  exact .ite stored trivial

theorem advanceCounter_clerical {k : CacheKey} (hk : k.lockout) :
    (advanceCounter k).Within (Clerical {k}) := by
  refine .bind (.call (Set.mem_singleton k)) fun r => ?_
  rcases r with _ | _
  · exact noteLockoutCounterRefused_clerical ⟨k, rfl, hk⟩
  · exact trivial

section

variable (cfg : Settings)
include cfg

theorem recordFailedAttempt_clerical (u : UserID) (ip : IPAddr) :
    (recordFailedAttempt cfg u ip).Within (Clerical (failureKeys u ip)) := by
  have counter : ∀ k ∈ failureKeys u ip, k.lockout →
      (advanceCounter k).Within (Clerical (failureKeys u ip)) := fun k hk hlock =>
    within_clerical_mono (advanceCounter_clerical hlock) (Set.singleton_subset_iff.mpr hk)
  refine .ite trivial (.bind ?_ fun _ => counter _ (.inr rfl) rfl)
  refine .bind (within_clerical_of_empty (cachedCount_clerical _)) fun generation => ?_
  rcases generation with _ | generation
  · exact noteLockoutCounterRefused_clerical ⟨.accountLockout u, .inr rfl, rfl⟩
  · exact counter _ (.inl ⟨generation, rfl⟩) rfl

variable {ip : IPAddr}

theorem clearLockout_clerical :
    (clearLockout cfg u ip).Within (Clerical (sourceKeys u ip)) := by
  refine .ite trivial (.bind (within_clerical_of_empty (cachedCount_clerical _)) ?_)
  intro generation
  rcases generation with _ | generation
  · exact trivial
  · exact .bind (.call ⟨generation, rfl⟩) fun _ => trivial

variable {email : String}

theorem throttleLogin_clerical : (throttleLogin cfg email).Within (Clerical ∅) := by
  refine .ite trivial (.bind (cachedCount_clerical _) fun n => ?_)
  rcases n with _ | n
  · exact trivial
  · exact .ite trivial (.call trivial)

theorem recordIdentityFailure_clerical :
    (recordIdentityFailure cfg email).Within (Clerical {.identityThrottle email}) :=
  .ite trivial (.bind (.call (Set.mem_singleton _)) fun _ => trivial)

theorem clearIdentityFailures_clerical :
    (clearIdentityFailures cfg email).Within (Clerical {.identityThrottle email}) :=
  .ite trivial (.bind (.call (Set.mem_singleton _)) fun _ => trivial)

theorem recordMFAFailure_clerical :
    (recordMFAFailure cfg u ip).Within (Clerical (failureKeys u ip)) :=
  .bind (recordFailedAttempt_clerical cfg u ip) fun _ =>
    within_clerical_of_empty auditLog_clerical

theorem isIPLocked_clerical : (isIPLocked cfg ip).Within (Clerical ∅) := by
  refine .ite trivial (.ite (.ite ?_ trivial) ?_)
  · refine .bind (.call trivial) fun now => .bind (.call trivial) fun r => ?_
    rcases r with _ | _ <;> exact trivial
  · refine .bind (.call trivial) fun r => ?_
    rcases r with _ | _ | _ <;> exact trivial

theorem recordFailedIP_clerical : (recordFailedIP cfg ip).Within (Clerical {.ipLockout ip}) := by
  refine .ite trivial (.ite (.ite ?_ trivial) ?_)
  · refine .bind (.call trivial) fun now => ?_
    exact .bind (.call ⟨ip, Set.mem_singleton _⟩) fun _ => trivial
  · exact .bind (.call (Set.mem_singleton _)) fun _ => trivial

theorem recordLoginFailure_clerical {user : User} {reason : String} :
    (recordLoginFailure cfg user ip reason).Within (Clerical (loginFailureKeys user.id ip)) := by
  refine .bind (.call trivial) fun _ => ?_
  refine .bind (within_clerical_mono (recordFailedAttempt_clerical _ _ _)
    Set.subset_union_left) fun _ => ?_
  refine .bind (within_clerical_mono (recordFailedIP_clerical _)
    (Set.singleton_subset_iff.mpr (.inr (.inl rfl)))) fun _ => ?_
  refine .bind (within_clerical_of_empty auditLog_clerical) fun _ => ?_
  refine .bind (within_clerical_of_empty (isAccountLocked_clerical _ _ _)) fun locked => ?_
  refine .ite (.ite ?_ trivial) trivial
  refine .bind (.call (.inr (.inr rfl))) fun r => ?_
  rcases r with _ | _ | _
  · exact trivial
  · exact trivial
  · exact .call trivial

end

/-! ### The tail of a login -/

variable {cfg : Settings}

theorem catalogFilter_clerical {roles : List String} :
    (catalogFilter cfg roles).Within (Clerical ∅) := by
  refine .ite (.bind (.call trivial) fun r => ?_) trivial
  rcases r with _ | _ <;> exact trivial

theorem effectiveRoles_clerical {roles : List String} :
    (effectiveRoles cfg roles).Within (Clerical ∅) :=
  .bind catalogFilter_clerical fun _ => trivial

theorem checkSessionLimit_clerical :
    (checkSessionLimit cfg u).Within (Clerical ∅) := by
  refine .ite trivial (.bind (.call trivial) fun r => ?_)
  rcases r with _ | count
  · exact .ite (.bind auditLog_clerical fun _ => trivial) trivial
  · exact .ite trivial trivial

theorem findOrCreateDevice_clerical {fp : Fingerprint} :
    (findOrCreateDevice u fp).Within (Clerical ∅) := by
  have create : (createDevice u fp).Within (Clerical ∅) := by
    refine .bind (.call trivial) fun id => .bind (.call trivial) fun r => ?_
    rcases r with _ | _
    · rename_i e
      cases e
      · refine .bind (.call trivial) fun d => ?_
        rcases d with _ | _ | _ <;> exact trivial
      · exact trivial
    · exact trivial
  refine .bind (.call trivial) fun r => ?_
  rcases r with _ | _ | d
  · exact create
  · exact create
  · exact .bind (.call trivial) fun _ => trivial

theorem sendResetLink_clerical (cfg : Settings) (link : Job) :
    (sendResetLink cfg link).Within (Clerical ∅) := .ite (.call trivial) trivial

theorem trapMethods_clerical {sub : UserID} : (trapMethods cfg sub).Within (Clerical ∅) := by
  refine .ite (.bind (.call trivial) fun r => ?_) trivial
  rcases r with _ | _ <;> exact trivial

end AuthService

theorem TokenService.issueTokenPairWithAuth_clerical (cfg : Settings) (jkt : String) (u : UserID)
    (roles scopes : List String) (clientID : String) (fp : Fingerprint) (familyID : Option UUID)
    (rememberMe : Bool) (auth : AuthContext) :
    (issueTokenPairWithAuth cfg jkt u roles scopes clientID fp familyID rememberMe auth).Within
      (Clerical ∅) := by
  refine .bind (.call trivial) fun now => .bind (.call trivial) fun jti => ?_
  refine .bind (.call trivial) fun refreshToken => ?_
  cases familyID with
  | none => exact .bind (.call trivial) fun family => trivial
  | some => trivial

theorem PasswordHandler.dropPending_clerical {cfg : Settings} :
    (dropPending cfg u).Within (Clerical (pendingKeys u)) := by
  refine .ite (.bind (.call (.inl rfl)) fun r => ?_) trivial
  have drop : (ask (.cacheDelete (.confirm u)) >>= fun _ => (pure () : Prog Unit)).Within
      (Clerical (pendingKeys u)) := .bind (.call (.inr (.inl rfl))) fun _ => trivial
  rcases r with _ | _ | v
  · exact drop
  · exact drop
  cases v with
  | digest h => exact .bind (.call (.inr (.inr ⟨h, rfl⟩))) fun _ => drop
  | _ => exact drop

/-! ### Checks and revocations

The functions below make one kind of call more: they read when a family began, and they revoke. They
keep to every alphabet that has those calls.-/

/-- The statements of a revocation, and the reading of a family's origin. -/
def Revoking : TokenCall → Prop
  | .begin | .lockScope _ | .revokeScope _ | .commit | .rollback | .familyOrigin _ => True
  | _ => False

/-- An alphabet with the calls of the checks before a rotation. -/
structure Reviews (A : Call → Prop) : Prop where
  now : A .now
  getByID : ∀ u, A (.getByID u)
  audit : ∀ e, e.kind ≠ .dpopBindingMismatch → A (.audit e)
  revoking : ∀ q, Revoking q → A (.tokens q)

section Reviews

open AuthService RefreshTokenRepo

variable {A : Call → Prop} {cfg : Settings}

theorem rollbackWith_within (hA : A (.tokens .rollback)) (a : α) : (rollbackWith a).Within A :=
  .bind (.call hA) fun _ => trivial

theorem lockThenWrite_within (hA : ∀ q, Revoking q → A (.tokens q)) (sc : Scope) :
    (lockThenWrite sc).Within A := by
  have rolled := rollbackWith_within (hA .rollback trivial) false
  refine .bind (.call (hA .begin trivial)) fun r => ?_
  rcases r with e | _
  · trivial
  refine .bind (.call (hA (.lockScope sc) trivial)) fun r => ?_
  rcases r with e | _
  · exact rolled
  refine .bind (.call (hA (.revokeScope sc) trivial)) fun r => ?_
  rcases r with e | _
  · exact rolled
  refine .bind (.call (hA .commit trivial)) fun r => ?_
  rcases r with e | _
  · exact rolled
  · trivial

section

variable (hA : Reviews A)
include hA

theorem auditLog_within (hkind : kind ≠ .dpopBindingMismatch) (u : UserID)
    (reason : String) : (auditLog kind u reason).Within A := .call (hA.audit _ hkind)

section

variable (stored : RefreshToken)
include stored

theorem revokeThen_within (hkind : kind ≠ .dpopBindingMismatch) (reason : String)
    (a : α) : (revokeThen stored kind reason a).Within A :=
  .bind (lockThenWrite_within hA.revoking _) fun _ =>
    .bind (auditLog_within hA hkind _ _) fun _ => trivial

theorem containRefreshReuse_within (reason : String) :
    (containRefreshReuse stored reason).Within A :=
  .bind (lockThenWrite_within hA.revoking _) fun _ =>
    .call (hA.audit _ (show AuditKind.refreshTokenReplayed ≠ .dpopBindingMismatch by decide))

theorem enforceSessionLifetime_within : (enforceSessionLifetime cfg stored).Within A := by
  have unknown : ∀ b, (enforceSessionLifetime.unknown stored b).Within A := fun b =>
    .ite (.bind (auditLog_within hA (by decide) _ _) fun _ => trivial) trivial
  refine .bind (.call (hA.revoking (.familyOrigin _) trivial)) fun r => ?_
  rcases r with e | origin
  · exact unknown _
  refine .ite (unknown _) (.ite ?_ trivial)
  refine .bind (.call hA.now) fun now => ?_
  exact .ite trivial (revokeThen_within hA _ (by decide) _ _)

theorem enforceSessionInactivity_within : (enforceSessionInactivity cfg stored).Within A := by
  refine .ite trivial (.ite ?_ ?_)
  · exact .bind (auditLog_within hA (by decide) _ _) fun _ => trivial
  · refine .bind (.call hA.now) fun now => ?_
    exact .ite trivial (revokeThen_within hA _ (by decide) _ _)

theorem accountStillHoldsSessions_within : (accountStillHoldsSessions stored).Within A := by
  have refuse : ∀ e, (accountStillHoldsSessions.refuse stored e).Within A :=
    fun e => .bind (lockThenWrite_within hA.revoking _) fun _ => trivial
  refine .bind (.call (hA.getByID _)) fun r => ?_
  rcases r with e | _ | user
  · exact refuse _
  · exact refuse _
  refine .bind (.call hA.now) fun now => ?_
  refine .ite trivial (.ite (refuse _) (.ite (refuse _) ?_))
  exact .ite (refuse _) (refuse _)

end

end

theorem enforceDPoPBinding_clerical (stored : RefreshToken) (jkt : String) :
    (enforceDPoPBinding stored jkt).Within (Clerical ∅) :=
  .ite trivial (.ite trivial (.bind auditLog_clerical fun _ => trivial))

theorem reused_within (hA : ∀ password hash, A (.verifyPassword password hash)) (password : String)
    (hashes : List PasswordHash) : (PasswordHandler.reused password hashes).Within A := by
  induction hashes with
  | nil => trivial
  | cons h hs ih =>
    refine .bind (.call (hA _ _)) fun r => ?_
    split
    · trivial
    · exact ih

/-- A password change keeps to every alphabet that has its calls. -/
theorem PasswordHandler.updatePassword_within
    (desk : ∀ {c}, Clerical (pendingKeys u) c → A c)
    (verify : ∀ password hash, A (.verifyPassword password hash))
    (hash : ∀ password, A (.hashPassword password)) (update : ∀ hash, A (.updatePassword u hash))
    (revoking : ∀ q, Revoking q → A (.tokens q)) (newPassword : String) :
    (updatePassword cfg u newPassword).Within A := by
  refine .bind (.ite (.call (desk trivial)) trivial) fun breached => .ite trivial ?_
  refine .bind (.call (desk trivial)) fun history => ?_
  refine .bind (reused_within verify _ _) fun reused => .ite trivial ?_
  refine .bind (.call (hash _)) fun h => ?_
  rcases h with _ | h
  · exact trivial
  refine .bind (.call (update h)) fun r => ?_
  rcases r with _ | _ | _
  · exact trivial
  · exact trivial
  refine .bind (.call (desk trivial)) fun _ => ?_
  refine .bind (lockThenWrite_within revoking _) fun revoked => .ite ?_ trivial
  exact .bind ((dropPending_clerical).mono fun _ => desk) fun _ => trivial

theorem reapLoop_within {q : TokenCall} (hq : A (.tokens q)) (reply : q.Reply → Option ℕ) (n : ℕ) :
    (reapLoop q reply n).Within A := by
  induction n with
  | zero => trivial
  | succ n ih =>
    refine .bind (.call hq) fun r => ?_
    split
    · trivial
    · exact .ite trivial ih

end Reviews

/-! ### Starting a session -/

/-- The statements around the insert under the session cap. -/
def Capping : TokenCall → Prop
  | .begin | .lockSessions _ | .countInTxn _ | .commit | .rollback => True
  | _ => False

/-- An alphabet with the calls that start a session of `u`. -/
structure Opens (A : Call → Prop) (u : UserID) : Prop where
  clerical : ∀ {c}, Clerical ∅ c → A c
  capping : ∀ q, Capping q → A (.tokens q)
  create : ∀ tok, tok.userID = u → A (.tokens (.create tok))
  insert : ∀ tok, tok.userID = u → A (.tokens (.insertInTxn tok))

section Opens

open AuthService RefreshTokenRepo

variable {A : Call → Prop} {cfg : Settings}

theorem createWithinCap_within {tok : RefreshToken} (hA : Opens A tok.userID) (cap : ℤ) :
    (createWithinCap tok cap).Within A := by
  have rolled : ∀ r : CreateResult, (rollbackWith r).Within A :=
    rollbackWith_within (hA.capping .rollback trivial)
  refine .ite (.bind (.call (hA.create tok rfl)) fun r => ?_) ?_
  · rcases r with _ | _ | _ <;> exact trivial
  refine .bind (.call (hA.capping .begin trivial)) fun r => ?_
  rcases r with _ | _
  · exact trivial
  refine .bind (.call (hA.capping (.lockSessions _) trivial)) fun r => ?_
  rcases r with _ | _
  · exact rolled _
  refine .bind (.call (hA.capping (.countInTxn _) trivial)) fun r => ?_
  rcases r with _ | active
  · exact rolled _
  refine .ite (rolled _) ?_
  refine .bind (.call (hA.insert tok rfl)) fun r => ?_
  rcases r with _ | _ | _
  · exact rolled _
  · refine .bind (.call (hA.capping .commit trivial)) fun r => ?_
    rcases r with _ | _
    · exact rolled _
    · exact trivial
  · exact rolled _

theorem storeRefreshToken_within (hA : Opens A u) (jkt clientID : String)
    (deviceID : Option UUID) (fp : Fingerprint) (pair : TokenPair) :
    (storeRefreshToken cfg jkt u clientID deviceID fp pair).Within A := by
  refine .bind (.call (hA.clerical trivial)) fun id => ?_
  refine .bind (.call (hA.clerical trivial)) fun now => ?_
  refine .bind (createWithinCap_within hA _) fun r => ?_
  cases r <;> exact trivial

theorem startSession_within {user : User} (hA : Opens A user.id) (jkt clientID : String)
    (deviceID : Option UUID) (fp : Fingerprint) (rememberMe : Bool) (methods : List String) :
    (startSession cfg jkt user clientID deviceID fp rememberMe methods).Within A := by
  have desk : ∀ {α : Type} {p : Prog α}, p.Within (Clerical ∅) → p.Within A :=
    fun hp => hp.mono fun _ => hA.clerical
  refine .bind (desk effectiveRoles_clerical) fun roles => ?_
  refine .bind (desk (.call trivial)) fun authTime => ?_
  refine .bind (desk (TokenService.issueTokenPairWithAuth_clerical _ _ _ _ _ _ _ _ _ _))
    fun pair => ?_
  refine .bind (storeRefreshToken_within hA _ _ _ _ _) fun r => ?_
  rcases r with e | _
  · exact trivial
  refine .bind (desk (.call trivial)) fun _ => ?_
  refine .bind (desk auditLog_clerical) fun _ => ?_
  exact .bind (desk (.call trivial)) fun _ => .bind (desk (.call trivial)) fun _ => trivial

end Opens

/-! ### After a callback -/

/-- The end of a callback keeps to every alphabet that has its calls. -/
theorem OAuthHandler.handOver_within {A : Call → Prop} (desk : ∀ {c}, Clerical ∅ c → A c)
    (hand : ∀ code fp token ttl, A (.cacheSet (.oauthCode code fp) (.exchange token) ttl))
    (u : UserID) (fp : FingerprintInput) (r : Except AuthError AuthService.LoginResult) :
    (handOver u fp r).Within A := by
  rcases r with e | result
  · trivial
  cases result with
  | session =>
    refine .bind (auditLog_clerical.mono fun _ => desk) fun _ => ?_
    exact .bind (.call (desk trivial)) fun code => .bind (.call (hand code _ _ _)) fun _ => trivial
  | challenge | decoy => trivial

theorem OAuthHandler.exchange_within {A : Call → Prop} (hA : ∀ k, A (.cacheGetAndDelete k))
    (code : UUID) (fp : FingerprintInput) : (exchange code fp).Within A := by
  refine .bind (.call (hA _)) fun r => ?_
  split <;> trivial

end Vault42
