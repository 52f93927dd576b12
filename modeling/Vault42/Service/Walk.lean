import Vault42.Service.Clerical

/-!
# Walking through a sign-in

A login, a second factor and the end of an OAuth callback are long walks through gates and
bookkeeping, and every discipline of this development has to follow them. What it has to say about
them is little: that the bookkeeping is allowed and leads nowhere, and what happens at the few calls
that matter. `Walk` collects the former, and the theorems take the latter as hypotheses, each about
the phase the walk has come to by then. `After φ ψ` stands for bookkeeping in between.
-/

namespace Vault42

open Framework Program AuthService

variable {u : UserID} {email : String}

/-- What bookkeeping may write: anything but the mark of a challenge that is consumed. -/
def deskKeys : Set CacheKey := {k | ∀ jti, k ≠ .challengeUsed jti}

theorem challengeUsed_notMem_deskKeys (jti : UUID) : .challengeUsed jti ∉ deskKeys :=
  fun h => h jti rfl

section Desk

variable {α : Type} {K : Set CacheKey}

theorem within_desk (hK : ∀ jti, .challengeUsed jti ∉ K) {p : Prog α} (hp : p.Within (Clerical K)) :
    p.Within (Clerical deskKeys) :=
  within_clerical_mono hp fun _ hk jti heq => hK jti (heq ▸ hk)

theorem within_desk_empty {p : Prog α} (hp : p.Within (Clerical ∅)) :
    p.Within (Clerical deskKeys) :=
  within_clerical_of_empty hp

theorem challengeUsed_notMem_failureKeys (u : UserID) (ip : IPAddr) (jti : UUID) :
    .challengeUsed jti ∉ failureKeys u ip := by
  rintro (⟨g, hg⟩ | hu)
  · cases hg
  · cases hu

variable (cfg : Settings)

theorem clearLockout_desk {ip : IPAddr} :
    (clearLockout cfg u ip).Within (Clerical deskKeys) :=
  within_desk (by rintro jti ⟨g, hg⟩; cases hg) (clearLockout_clerical _)

theorem clearIdentityFailures_desk :
    (clearIdentityFailures cfg email).Within (Clerical deskKeys) :=
  within_desk (by rintro jti ⟨⟩) (clearIdentityFailures_clerical _)

theorem recordIdentityFailure_desk :
    (recordIdentityFailure cfg email).Within (Clerical deskKeys) :=
  within_desk (by rintro jti ⟨⟩) (recordIdentityFailure_clerical _)

theorem recordFailedIP_desk (ip : IPAddr) : (recordFailedIP cfg ip).Within (Clerical deskKeys) :=
  within_desk (by rintro jti ⟨⟩) (recordFailedIP_clerical _)

theorem recordMFAFailure_desk {ip : IPAddr} :
    (recordMFAFailure cfg u ip).Within (Clerical deskKeys) :=
  within_desk (challengeUsed_notMem_failureKeys u ip) (recordMFAFailure_clerical _)

theorem recordLoginFailure_desk (user : User) (ip : IPAddr) (reason : String) :
    (recordLoginFailure cfg user ip reason).Within (Clerical deskKeys) := by
  refine within_desk ?_ (recordLoginFailure_clerical _)
  rintro jti (h | h | h)
  · exact challengeUsed_notMem_failureKeys _ _ jti h
  · cases h
  · cases h

theorem auditLog_desk (kind : AuditKind) (u : UserID) (reason : String) :
    (auditLog kind u reason).Within (Clerical deskKeys) := within_desk_empty auditLog_clerical

end Desk

/-- The calls on the way to a session that are no bookkeeping: an account is looked up, a secret or
a challenge is checked. -/
def Entry : Call → Prop
  | .getByEmail _ | .verifyPassword _ _ | .verifyChallenge _ | .checkSecondFactor _ _ _ => True
  | _ => False

/-- An answer that starts no session. -/
def Sessionless : Except AuthError LoginResult → Prop
  | .ok (.session _ _ _ _) => False
  | _ => True

/-- **A way through the sign-in flows**, for a discipline and what is to hold at their end. -/
structure Walk (D : Discipline vault) (Q : D.Phase → Except AuthError LoginResult → Prop) where
  /-- No session has been started. -/
  Ready : D.Phase → Prop
  /-- Bookkeeping leads from the one phase to the other. -/
  After : D.Phase → D.Phase → Prop
  refl : ∀ φ, After φ φ
  trans : ∀ {φ ψ χ}, After φ ψ → After ψ χ → After φ χ
  ready : ∀ {φ ψ}, Ready φ → After φ ψ → Ready ψ
  desk : ∀ {φ c}, Ready φ → Clerical deskKeys c → D.Allows φ c ∧ ∀ r, After φ (D.next φ c r)
  entry : ∀ {φ c}, Ready φ → Entry c → D.Allows φ c ∧ ∀ r, Ready (D.next φ c r)
  ends : ∀ {φ r}, Ready φ → Sessionless r → Q φ r
  /-- Bookkeeping is allowed on the way out, too. -/
  late : ∀ {φ c e}, Q φ (.error e) → Clerical deskKeys c →
    D.Allows φ c ∧ ∀ r, Q (D.next φ c r) (.error e)

namespace Walk

variable {D : Discipline vault} {Q : D.Phase → Except AuthError LoginResult → Prop} (W : Walk D Q)
  {φ : D.Phase} {cfg : Settings} {α β : Type} {p : Prog α} {c : Call} {R : D.Phase → β → Prop}
  {e : AuthError} {input : LoginInput} {user : User} {mfa : SecondFactorInput}

include W in
theorem refusal_late (hφ : Q φ (.error e)) (hp : p.Within (Clerical deskKeys)) :
    (p >>= fun _ => (pure (.error e) : Prog (Except AuthError LoginResult))).Obeys D Q φ :=
  (hp.keeps hφ fun _ _ => W.late).bind fun _ _ hψ => hψ

variable (hφ : W.Ready φ)
include hφ

/-- Bookkeeping is allowed wherever no session has been started. -/
theorem within (hp : p.Within (Clerical deskKeys)) :
    p.Obeys D (fun ψ _ => W.Ready ψ ∧ W.After φ ψ) φ := by
  refine hp.keeps ⟨hφ, W.refl φ⟩ fun ψ c hψ hc => ?_
  obtain ⟨hallows, hafter⟩ := W.desk hψ.1 hc
  exact ⟨hallows, fun r => ⟨W.ready hψ.1 (hafter r), W.trans hψ.2 (hafter r)⟩⟩

theorem bind {f : α → Prog β} (hp : p.Within (Clerical deskKeys))
    (hf : ∀ ψ a, W.Ready ψ → W.After φ ψ → (f a).Obeys D R ψ) : (p >>= f).Obeys D R φ :=
  (W.within hφ hp).bind fun ψ a hψ => hf ψ a hψ.1 hψ.2

theorem bind_call {f : c.Reply → Prog β} (hc : Clerical deskKeys c)
    (hf : ∀ r, D.Admits φ c r → W.Ready (D.next φ c r) → (f r).Obeys D R (D.next φ c r)) :
    (ask c >>= f).Obeys D R φ :=
  .call (W.desk hφ hc).1 fun r hr => hf r hr (W.ready hφ ((W.desk hφ hc).2 r))

theorem bind_entry {f : c.Reply → Prog β} (hc : Entry c)
    (hf : ∀ r, D.Admits φ c r → W.Ready (D.next φ c r) → (f r).Obeys D R (D.next φ c r)) :
    (ask c >>= f).Obeys D R φ :=
  .call (W.entry hφ hc).1 fun r hr => hf r hr ((W.entry hφ hc).2 r)

theorem refusal (hp : p.Within (Clerical deskKeys)) :
    (p >>= fun _ => (pure (.error e) : Prog (Except AuthError LoginResult))).Obeys D Q φ :=
  W.bind hφ hp fun _ _ hψ _ => W.ends hψ trivial

/-! ### The end of a login -/

theorem completeLogin
    (hstart : ∀ ψ deviceID, W.Ready ψ → W.After φ ψ →
      (startSession cfg input.jkt user input.clientID deviceID input.fingerprint input.rememberMe
        [methodPassword]).Obeys D Q ψ) :
    (completeLogin cfg input email user).Obeys D Q φ := by
  refine W.bind hφ (clearLockout_desk _) fun φ₁ _ h₁ a₁ => ?_
  refine W.bind h₁ (clearIdentityFailures_desk _) fun φ₂ _ h₂ a₂ => ?_
  refine W.bind h₂ (within_desk_empty checkSessionLimit_clerical) fun φ₃ r h₃ a₃ => ?_
  cases r with
  | error => exact W.ends h₃ trivial
  | ok =>
  refine W.bind h₃ (within_desk_empty findOrCreateDevice_clerical) fun φ₄ deviceID h₄ a₄ => ?_
  exact hstart φ₄ deviceID h₄ (W.trans (W.trans (W.trans a₁ a₂) a₃) a₄)

omit hφ in
theorem challenge {jkt : String} {fp : Fingerprint} {factors : List String}
    {kind : AuditKind} {methods : ChallengeClaims → List String}
    (hissue :
      (TokenService.issueChallengeToken jkt u fp factors).Obeys D (fun ψ _ => W.Ready ψ) φ) :
    (do
      let token ← TokenService.issueChallengeToken jkt u fp factors
      auditLog kind u "mfa_required"
      pure (.ok (.challenge token (methods token))) :
      Prog (Except AuthError LoginResult)).Obeys D Q φ := by
  refine hissue.bind fun ψ token hψ => ?_
  exact W.bind hψ (auditLog_desk _ _ _) fun _ _ hχ _ => W.ends hχ trivial

/-- Past the password, the session is started where no second factor is owed. -/
theorem passwordProven
    (hissue : ∀ ψ, W.Ready ψ → W.After φ ψ → (TokenService.issueChallengeToken input.jkt user.id
      input.fingerprint [methodPassword]).Obeys D (fun ψ _ => W.Ready ψ) ψ)
    (hcomplete : ∀ ψ, W.Ready ψ → W.After φ ψ → (cfg.hasMFA → cfg.mfaRequired = false ∧
        ∃ χ, ψ = D.next χ (.mfaStatus user.id) (.ok [])) →
      (AuthService.completeLogin cfg input email user).Obeys D Q ψ) :
    (passwordProven cfg input email user).Obeys D Q φ := by
  refine W.bind hφ (.call trivial) fun φ₁ _ h₁ a₁ => ?_
  split
  swap
  · exact hcomplete φ₁ h₁ a₁ fun hmfa => absurd hmfa ‹_›
  refine W.bind_call h₁ trivial fun r _ h₂ => ?_
  have a₂ := W.trans a₁ ((W.desk h₁ (c := .mfaStatus user.id) trivial).2 r)
  cases r with
  | error => exact W.ends h₂ trivial
  | ok methods =>
  cases methods with
  | cons => exact W.challenge (hissue _ h₂ a₂)
  | nil =>
  dsimp only
  rw [if_neg (by simp)]
  split
  · refine W.bind h₂ (.call trivial) fun φ₃ _ h₃ a₃ => ?_
    exact W.challenge (hissue φ₃ h₃ (W.trans a₂ a₃))
  · exact hcomplete _ h₂ a₂ fun _ => ⟨Bool.eq_false_iff.mpr ‹_›, φ₁, rfl⟩

/-! ### The gates of a login -/

/-- The password check lets a caller on only to an account that is not banned. -/
theorem checkPassword
    (hproven : ∀ ψ, W.Ready ψ →
      ψ = D.next φ (.verifyPassword input.password user.passwordHash) (.verified true) →
      user.banned = false → (AuthService.passwordProven cfg input email user).Obeys D Q ψ) :
    (checkPassword cfg input email user).Obeys D Q φ := by
  refine W.bind_entry hφ trivial fun r _ h₁ => ?_
  rcases r with valid | _ | _
  · cases valid with
    | false => exact W.refusal h₁ (recordLoginFailure_desk _ _ _ _)
    | true =>
      dsimp only
      split
      · exact W.refusal h₁ (auditLog_desk _ _ _)
      next hbanned =>
        refine .ite (W.refusal h₁ (auditLog_desk _ _ _)) ?_
        refine .ite (W.refusal h₁ (recordLoginFailure_desk _ _ _ _)) ?_
        exact hproven _ h₁ rfl (Bool.eq_false_iff.mpr hbanned)
  · exact W.refusal h₁ (recordLoginFailure_desk _ _ _ _)
  · exact W.ends h₁ trivial

theorem burnDummy {password : String} {k : Prog (Except AuthError LoginResult)}
    (hk : ∀ ψ, W.Ready ψ → k.Obeys D Q ψ) : (burnDummy password k).Obeys D Q φ := by
  refine W.bind_entry hφ trivial fun r _ hψ => ?_
  rcases r with valid | _ | _
  · exact hk _ hψ
  · exact hk _ hψ
  · exact W.ends hψ trivial

/-- The gates before the password check let nobody on to an account that was locked when the clock
was read. -/
theorem loginUser
    (hcheck : ∀ ψ now, W.Ready ψ → W.After (D.next φ .now now) ψ → user.lockedAt now = false →
      (AuthService.checkPassword cfg input email user).Obeys D Q ψ) :
    (loginUser cfg input email user).Obeys D Q φ := by
  -- a branch that is masked burns the dummy hash and refuses
  have masked : ∀ {α : Type} {p : Prog α} e {ψ : D.Phase}, W.Ready ψ →
      p.Within (Clerical deskKeys) →
      (AuthService.burnDummy input.password (p >>= fun _ => pure (.error e))).Obeys D Q ψ :=
    fun e _ hψ hp => W.burnDummy hψ fun _ hχ => W.refusal hχ hp
  have locked := (recordFailedIP_desk cfg input.ip).bind fun _ =>
    auditLog_desk .loginFailure user.id "account_locked"
  have sent : ∀ link reason, (sendResetLink cfg link >>= fun _ =>
      recordLoginFailure cfg user input.ip reason).Within (Clerical deskKeys) := fun link reason =>
    (within_desk_empty (sendResetLink_clerical cfg link)).bind fun _ =>
      recordLoginFailure_desk cfg user input.ip reason
  refine W.bind_call hφ trivial fun now _ h₁ => ?_
  split
  · exact bind_assoc _ _ _ ▸ masked _ h₁ locked
  rename_i hopen
  refine W.bind h₁ (within_desk_empty (isAccountLocked_clerical _ _ _)) fun φ₂ isLocked h₂ a₂ => ?_
  refine .ite (bind_assoc _ _ _ ▸ masked _ h₂ locked) ?_
  refine .ite (masked _ h₂ (auditLog_desk _ _ _)) ?_
  refine .ite (bind_assoc _ _ _ ▸ masked _ h₂ (sent _ _)) ?_
  refine .ite (bind_assoc _ _ _ ▸ masked _ h₂ (sent _ _)) ?_
  exact hcheck φ₂ now h₂ a₂ (Bool.eq_false_iff.mpr hopen)

theorem trapLogin
    (hissue : ∀ ψ, W.Ready ψ → (TokenService.issueChallengeToken input.jkt (cfg.trapSubject email)
      input.fingerprint [methodPassword]).Obeys D (fun ψ _ => W.Ready ψ) ψ) :
    (trapLogin cfg input email).Obeys D Q φ := by
  refine W.burnDummy hφ fun φ₁ h₁ => ?_
  refine W.bind h₁ (.call trivial) fun φ₂ _ h₂ _ => ?_
  refine W.bind h₂ (.call trivial) fun φ₃ _ h₃ _ => ?_
  refine W.bind h₃ (clearLockout_desk _) fun φ₄ _ h₄ _ => ?_
  refine W.bind h₄ (clearIdentityFailures_desk _) fun φ₅ _ h₅ _ => ?_
  refine W.bind h₅ (within_desk_empty trapMethods_clerical) fun φ₆ methods h₆ _ => ?_
  refine .ite (W.challenge (hissue φ₆ h₆)) ?_
  refine W.bind h₆ (within_desk_empty checkSessionLimit_clerical) fun φ₇ r h₇ _ => ?_
  cases r with
  | error => exact W.ends h₇ trivial
  | ok =>
  refine W.bind h₇ (.call trivial) fun φ₈ _ h₈ _ => ?_
  refine W.bind h₈ (.call trivial) fun φ₉ _ h₉ _ => ?_
  exact W.bind h₉ (auditLog_desk _ _ _) fun _ _ hψ _ => W.ends hψ trivial

/-- **`Login`** is a refusal, the answer to a planted address, or the login to an account whose row
was read. -/
theorem login
    (hissue : ∀ ψ, W.Ready ψ → (TokenService.issueChallengeToken input.jkt
      (cfg.trapSubject (cfg.fold input.email)) input.fingerprint [methodPassword]).Obeys D
        (fun ψ _ => W.Ready ψ) ψ)
    (hfound : ∀ χ user, W.After φ χ →
      W.Ready (D.next χ (.getByEmail (cfg.fold input.email)) (.ok (some user))) →
      (AuthService.loginUser cfg input (cfg.fold input.email) user).Obeys D Q
        (D.next χ (.getByEmail (cfg.fold input.email)) (.ok (some user)))) :
    (login cfg input).Obeys D Q φ := by
  have body : (loginBody cfg input (cfg.fold input.email)).Obeys D Q φ := by
    refine W.bind hφ (within_desk_empty (throttleLogin_clerical _)) fun φ₁ _ h₁ a₁ => ?_
    refine W.bind h₁ (within_desk_empty (isIPLocked_clerical _)) fun φ₂ isLocked h₂ a₂ => ?_
    refine .ite (W.refusal h₂ (auditLog_desk _ _ _)) ?_
    refine W.bind_entry h₂ trivial fun r _ h₃ => ?_
    cases r with
    | error => exact W.ends h₃ trivial
    | ok found =>
    refine .ite (W.trapLogin h₃ hissue) ?_
    cases found with
    | none =>
      refine W.burnDummy h₃ fun φ₄ h₄ => ?_
      refine W.bind h₄ (recordFailedIP_desk _ _) fun φ₅ _ h₅ _ => ?_
      exact W.refusal h₅ (auditLog_desk _ _ _)
    | some user => exact hfound φ₂ user (W.trans a₁ a₂) h₃
  -- the delay of the address is advanced on the way out
  refine body.bind fun ψ r hψ => ?_
  cases r with
  | ok => exact hψ
  | error e => cases e <;> first | exact hψ | exact W.refusal_late hψ (recordIdentityFailure_desk _)

/-! ### The second factor -/

/-- `CompleteMFALogin` past the challenge: the account is read again, and passes the gate at an
instant that was read. -/
theorem finishMFALogin {fp : Fingerprint}
    (hstart : ∀ χ user now deviceID, W.After φ χ →
      D.Admits χ (.getByID mfa.token.subject) (.ok (some user)) → mfaAccountGate user now = .ok () →
      W.Ready (D.next (D.next χ (.getByID mfa.token.subject) (.ok (some user))) .now now) →
      (startSession cfg mfa.jkt user "" deviceID fp false (mfa.token.factors ++ [mfa.method])).Obeys
        D Q (D.next (D.next χ (.getByID mfa.token.subject) (.ok (some user))) .now now)) :
    (finishMFALogin cfg mfa fp).Obeys D Q φ := by
  refine W.bind hφ (clearLockout_desk _) fun φ₁ _ h₁ a₁ => ?_
  refine W.bind h₁ (within_desk_empty checkSessionLimit_clerical) fun φ₂ r h₂ a₂ => ?_
  cases r with
  | error => exact W.ends h₂ trivial
  | ok =>
  refine W.bind h₂ (within_desk_empty findOrCreateDevice_clerical) fun φ₃ deviceID h₃ a₃ => ?_
  refine W.bind_call h₃ trivial fun r hr h₄ => ?_
  rcases r with e | _ | user
  · exact W.ends h₄ trivial
  · exact W.ends h₄ trivial
  refine W.bind_call h₄ trivial fun now _ h₅ => ?_
  cases hgate : mfaAccountGate user now with
  | error => exact W.ends h₅ trivial
  | ok => exact hstart φ₃ user now deviceID (W.trans (W.trans a₁ a₂) a₃) hr hgate h₅

/-- **`CompleteMFALogin`**, behind the fingerprint check of the handlers: the challenge is consumed
first. -/
theorem completeMFAIfChallenge
    (hconsume :
      D.Allows φ (.cacheSetIfNotExists (.challengeUsed mfa.token.jti) (.count 1) challengeTTL) ∧
      ∀ r, W.Ready (D.next φ (.cacheSetIfNotExists (.challengeUsed mfa.token.jti) (.count 1)
        challengeTTL) r))
    (hfinish : ∀ ψ, W.Ready ψ → (cfg.hasCache → ψ = D.next φ (.cacheSetIfNotExists
        (.challengeUsed mfa.token.jti) (.count 1) challengeTTL) (.ok true)) →
      (cfg.hasCache = false → ψ = φ) →
      (AuthService.finishMFALogin cfg mfa (computeFingerprint mfa.fingerprint)).Obeys D Q ψ) :
    (completeMFAIfChallenge cfg mfa).Obeys D Q φ := by
  refine .ite ?_ (W.refusal hφ (auditLog_desk _ _ _))
  unfold completeMFALogin
  split
  next hcache =>
    refine .call hconsume.1 fun r _ => ?_
    have hready := hconsume.2 r
    rcases r with e | _ | _
    · exact W.ends hready trivial
    · exact W.ends hready trivial
    · refine hfinish _ hready (fun _ => rfl) fun hno => ?_
      rw [hcache] at hno
      cases hno
  next hcache => exact hfinish φ hφ (fun hyes => absurd hyes hcache) fun _ => rfl

theorem verifySecondFactor
    (hcomplete : ∀ ψ χ, W.Ready χ → W.After (D.next φ (.verifyChallenge mfa.token) true) ψ →
      χ = D.next ψ (.checkSecondFactor mfa.token.subject mfa.method mfa.code) true →
      (AuthService.completeMFAIfChallenge cfg mfa).Obeys D Q χ) :
    (verifySecondFactor cfg mfa).Obeys D Q φ := by
  refine W.bind_entry hφ trivial fun accepted _ h₁ => ?_
  cases accepted with
  | false => exact W.ends h₁ trivial
  | true =>
  refine W.bind h₁ (within_desk_empty (isAccountLocked_clerical _ _ _)) fun φ₂ isLocked h₂ a₂ => ?_
  refine .ite (W.ends h₂ trivial) ?_
  refine W.bind_entry h₂ trivial fun right _ h₃ => ?_
  cases right with
  | false => exact W.refusal h₃ (recordMFAFailure_desk _)
  | true => exact hcomplete φ₂ _ h₃ a₂ rfl

/-! ### The OAuth callback -/

theorem oauthSession {fp : FingerprintInput} {authTime : Time} {jkt : String}
    (htokens : ∀ ψ acct now, W.Ready ψ →
      W.After (D.next (D.next φ (.getByID u) (.ok (some acct))) .now now) ψ → acct.banned = false →
      acct.lockedAt now = false → (oauthTokens cfg u fp authTime now jkt).Obeys D Q ψ) :
    (oauthSession cfg u fp authTime jkt).Obeys D Q φ := by
  refine W.bind_call hφ trivial fun r _ h₁ => ?_
  rcases r with e | _ | acct
  · exact W.ends h₁ trivial
  · exact W.ends h₁ trivial
  refine W.bind_call h₁ trivial fun now _ h₂ => ?_
  have refused : ∀ e, Q _ (.error e) := fun e => W.ends h₂ trivial
  refine .ite (refused _) ?_
  split
  · exact refused _
  next hbanned =>
  refine .ite (refused _) ?_
  split
  · exact refused _
  next hopen =>
  refine W.bind h₂ (within_desk_empty (isAccountLocked_clerical _ _ _)) fun φ₃ isLocked h₃ a₃ => ?_
  refine .ite (W.ends h₃ trivial) ?_
  exact htokens φ₃ acct now h₃ a₃ (Bool.eq_false_iff.mpr hbanned) (Bool.eq_false_iff.mpr hopen)

end Walk

end Vault42
