import Vault42.Service.Factors
import Vault42.Service.Walk

/-!
# What is known when a session is started

A session is started in three places: at the end of `Login`, at the end of the OAuth callback, and
in `CompleteMFALogin`, which four handlers reach. What each of them has been told by then is read
off its conversation: the discipline `signing` remembers all of it and says when a refresh token may
be stored, what a challenge looks like when it is signed, and what may be done to the mark of a
consumed challenge. `enlisting` is the same discipline over the factor stores, and a program over
the service is carried over to it (`lift_enlisting`).

* `Login` and the callback store a token only after `GetStatus` has read all three factor stores,
  found no factor in any of them, and no factor is required (`login_signing`, `callback_signing`).
* The handlers store one only for the account of a challenge they have consumed, and after a factor
  was proven (`Proven`): a code of the account's TOTP secret, an assertion by a credential of the
  account, a backup code that was listed and is now spent, or a mailed code when nothing is listed.

`serve_enlisting` is all of it, for every request.
-/

namespace Vault42

open Framework Program List

/-! ### The rules of signing in -/

/-- The token a call stores. -/
def Call.stores : Call → Option RefreshToken
  | .tokens (.create tok) => some tok
  | .tokens (.insertInTxn tok) => some tok
  | _ => none

/-- The access token a call puts behind an exchange code. -/
def Call.handsOver : Call → Option AccessClaims
  | .cacheSet (.oauthCode _ _) (.exchange token) _ => some token
  | .cacheSetIfNotExists (.oauthCode _ _) (.exchange token) _ => some token
  | _ => none

/-- The token a call stores. -/
def FactorCall.stores : FactorCall → Option RefreshToken
  | .vault c => c.stores
  | _ => none

/-- What a program may do, by what it has been told: whose session it may start, and which challenge
it may consume. -/
structure Terms (S : Signature) where
  clears : List (Event S) → UserID → Prop
  /-- Being told more does not take it back. -/
  mono : ∀ {φ ψ : List (Event S)} {u : UserID}, φ ⊆ ψ → clears φ u → clears ψ u
  consumes : List (Event S) → UUID → Prop

/-- The rules: a token is stored once and for an account that is cleared, and so is an access token
put behind an exchange code; a challenge expires `challengeTTL` after an instant that was read; and
the mark of a consumed challenge is set and never removed. -/
def Rules (clears : UserID → Prop) (unstored : Prop) (read : Time → Prop) (consumes : UUID → Prop) :
    Call → Prop
  | .tokens (.create tok) => clears tok.userID ∧ unstored
  | .tokens (.insertInTxn tok) => clears tok.userID ∧ unstored
  | .signChallenge claims =>
    claims.expiresAt = claims.issuedAt + challengeTTL ∧ read claims.issuedAt
  | .cacheSet (.challengeUsed _) _ _ => False
  | .cacheSet (.oauthCode _ _) v _ => ∀ token, v = .exchange token → clears token.subject
  | .cacheSetIfNotExists (.oauthCode _ _) _ _ => False
  | .cacheDelete (.challengeUsed _) => False
  | .cacheGetAndDelete (.challengeUsed _) => False
  | .cacheIncrement (.challengeUsed _) _ => False
  | .cacheSetIfNotExists (.challengeUsed jti) _ ttl => ttl = challengeTTL ∧ consumes jti
  | _ => True

/-- Nothing has been stored so far. -/
def Unstored (φ : List (Event vault)) : Prop := ∀ e ∈ φ, e.1.stores = none

/-- The rules, for a program that has been told `φ`. -/
def Terms.Allows (T : Terms vault) (φ : List (Event vault)) : Call → Prop :=
  Rules (T.clears φ) (Unstored φ) (fun now => ⟨.now, now⟩ ∈ φ) (T.consumes φ)

/-- **The discipline of signing in.** -/
abbrev signing (T : Terms vault) : Discipline vault := Discipline.history T.Allows

/-- The calls that have no rule. -/
def Neutral (c : Call) : Prop :=
  c.stores = none ∧ Rules (fun _ => False) False (fun _ => False) (fun _ => False) c

/-- A token that may be stored is of an account that is cleared. -/
theorem Terms.Allows.clears {T : Terms vault} {φ : List (Event vault)} {c : Call} (h : T.Allows φ c)
    {tok : RefreshToken} (hc : c.stores = some tok) : T.clears φ tok.userID := by
  cases c with
  | tokens q =>
    cases q with
    | create tok' | insertInTxn tok' =>
      obtain rfl : tok' = tok := Option.some.inj hc
      exact h.1
    | _ => cases hc
  | _ => cases hc

/-- So is an access token that may be put behind a code. -/
theorem Terms.Allows.clears_handsOver {T : Terms vault} {φ : List (Event vault)} {c : Call}
    (h : T.Allows φ c) {token : AccessClaims} (hc : c.handsOver = some token) :
    T.clears φ token.subject := by
  cases c with
  | cacheSet k v =>
    cases k with
    | oauthCode =>
      cases v with
      | exchange => exact h token (congrArg _ (Option.some.inj hc))
      | _ => cases hc
    | _ => cases hc
  | cacheSetIfNotExists k =>
    cases k with
    | oauthCode => cases h
    | _ => cases hc
  | _ => cases hc

section Rules

variable {clears clears' : UserID → Prop} {unstored unstored' : Prop} {read read' : Time → Prop}
  {consumes consumes' : UUID → Prop}

theorem Rules.imp {c : Call} (h : Rules clears unstored read consumes c)
    (hclears : ∀ u, clears u → clears' u) (hunstored : unstored → unstored')
    (hread : ∀ now, read now → read' now)
    (hconsumes : ∀ jti, consumes jti → consumes' jti) :
    Rules clears' unstored' read' consumes' c := by
  cases c with
  | tokens q =>
    cases q with
    | create | insertInTxn => exact ⟨hclears _ h.1, hunstored h.2⟩
    | _ => trivial
  | signChallenge => exact ⟨h.1, hread _ h.2⟩
  | cacheSet k =>
    cases k with
    | oauthCode => exact fun token htoken => hclears _ (h token htoken)
    | challengeUsed => exact h
    | _ => trivial
  | cacheDelete k | cacheGetAndDelete k | cacheIncrement k => cases k <;> trivial
  | cacheSetIfNotExists k =>
    cases k with
    | challengeUsed jti => exact ⟨h.1, hconsumes jti h.2⟩
    | oauthCode => exact h
    | _ => trivial
  | _ => trivial

theorem Neutral.rules {c : Call} (h : Neutral c) : Rules clears unstored read consumes c :=
  h.2.imp (fun _ h => h.elim) False.elim (fun _ h => h.elim) (fun _ h => h.elim)

theorem neutral_of_clerical {K : Set CacheKey} (hK : ∀ jti, .challengeUsed jti ∉ K) {c : Call}
    (h : Clerical K c) : Neutral c := by
  cases c with
  | tokens q =>
    cases q with
    | countActiveFamilies => exact ⟨rfl, trivial⟩
    | _ => cases h
  | signChallenge => cases h
  | cacheSet k =>
    cases k with
    | challengeUsed jti => exact absurd h (hK jti)
    | oauthCode => cases h
    | _ => exact ⟨rfl, trivial⟩
  | cacheDelete k | cacheGetAndDelete k | cacheIncrement k =>
    cases k with
    | challengeUsed jti => exact absurd h (hK jti)
    | _ => exact ⟨rfl, trivial⟩
  | cacheSetIfNotExists k =>
    cases k with
    | challengeUsed | oauthCode => cases h
    | _ => exact ⟨rfl, trivial⟩
  | _ => exact ⟨rfl, trivial⟩

end Rules

section Neutral

variable {T : Terms vault} {φ : List (Event vault)} {α β : Type}

theorem Unstored.cons (h : Unstored φ) {c : Call} (hc : c.stores = none) (r : c.Reply) :
    Unstored (⟨c, r⟩ :: φ) := forall_mem_cons.mpr ⟨hc, h⟩

theorem Neutral.allows {c : Call} (h : Neutral c) : T.Allows φ c := h.rules

variable {p : Prog α}

/-- A program of neutral calls is allowed everywhere; it is only told more, and stores nothing. -/
theorem obeys_of_neutral (hp : p.Within Neutral) :
    p.Obeys (signing T) (fun ψ _ => φ ⊆ ψ ∧ (Unstored φ → Unstored ψ)) φ := by
  refine hp.keeps ⟨Subset.refl φ, id⟩ fun ψ c hψ hc => ⟨hc.allows, fun r => ?_⟩
  exact ⟨subset_cons_of_subset _ hψ.1, fun h => (hψ.2 h).cons hc.1 r⟩

variable {Q : List (Event vault) → β → Prop}

theorem obeys_neutral_bind {f : α → Prog β} (hp : p.Within Neutral) (hφ : Unstored φ)
    (hf : ∀ ψ a, φ ⊆ ψ → Unstored ψ → (f a).Obeys (signing T) Q ψ) :
    (p >>= f).Obeys (signing T) Q φ :=
  (obeys_of_neutral hp).bind fun ψ a hψ => hf ψ a hψ.1 (hψ.2 hφ)

/-- Once a token has been stored, too. -/
theorem obeys_neutral_then {f : α → Prog β} (hp : p.Within Neutral)
    (hf : ∀ ψ a, φ ⊆ ψ → (f a).Obeys (signing T) Q ψ) : (p >>= f).Obeys (signing T) Q φ :=
  (obeys_of_neutral hp).bind fun ψ a hψ => hf ψ a hψ.1

theorem within_neutral {K : Set CacheKey} (hK : ∀ jti, .challengeUsed jti ∉ K)
    (hp : p.Within (Clerical K)) : p.Within Neutral := hp.mono fun _ => neutral_of_clerical hK

theorem within_neutral_empty (hp : p.Within (Clerical ∅)) : p.Within Neutral :=
  within_neutral (fun _ h => h.elim) hp

end Neutral

/-! ### Starting a session -/

/-- An answer with an access token is given only to an account that is cleared. -/
def Granted {S : Signature} {ε : Type} (T : Terms S) (ψ : List (Event S)) :
    Except ε AuthService.LoginResult → Prop
  | .ok (.session accessToken _ _ _) => T.clears ψ accessToken.subject
  | _ => True

theorem Granted.imp {S S' : Signature} {ε ε' : Type} {T : Terms S} {T' : Terms S'}
    {φ : List (Event S)}
    {ψ : List (Event S')} {result : AuthService.LoginResult} (h : ∀ u, T.clears φ u → T'.clears ψ u)
    (hr : Granted T φ (.ok result : Except ε _)) : Granted T' ψ (.ok result : Except ε' _) := by
  cases result with
  | session => exact h _ hr
  | _ => trivial

theorem reviews_neutral : Reviews Neutral where
  now := ⟨rfl, trivial⟩
  getByID _ := ⟨rfl, trivial⟩
  audit _ _ := ⟨rfl, trivial⟩
  revoking q h := by cases q <;> first | exact ⟨rfl, trivial⟩ | cases h

section Start

open AuthService RefreshTokenRepo

variable {T : Terms vault} {φ : List (Event vault)} {cfg : Settings}

variable {fp : Fingerprint} {jkt clientID : String}

theorem issueTokenPairWithAuth_subject {u : UserID} {roles scopes : List String} {rememberMe : Bool}
    {auth : AuthContext} :
    (TokenService.issueTokenPairWithAuth cfg jkt u roles scopes clientID fp none rememberMe
      auth).Yields fun pair => pair.accessToken.subject = u := by
  intro now jti refreshToken family
  exact rfl

/-- The insert is the one call of `CreateWithinCap` that has a rule. -/
theorem createWithinCap_signing {tok : RefreshToken} {cap : ℤ} (h : T.clears φ tok.userID)
    (hφ : Unstored φ) :
    (createWithinCap tok cap).Obeys (signing T) (fun ψ _ => φ ⊆ ψ) φ := by
  have rolled : ∀ ψ (r : CreateResult), φ ⊆ ψ →
      (rollbackWith r).Obeys (signing T) (fun ψ _ => φ ⊆ ψ) ψ := by
    intro ψ r hψ
    exact (obeys_of_neutral (rollbackWith_within ⟨rfl, trivial⟩ r)).mono fun χ _ hχ =>
      Subset.trans hψ hχ.1
  unfold createWithinCap
  split
  · exact .call ⟨h, hφ⟩ fun r _ => subset_cons_self _ _
  refine obeys_neutral_bind (.call ⟨rfl, trivial⟩) hφ fun φ₁ r h₁ hφ₁ => ?_
  cases r with
  | error => exact h₁
  | ok =>
  refine obeys_neutral_bind (.call ⟨rfl, trivial⟩) hφ₁ fun φ₂ r h₂ hφ₂ => ?_
  have h₂ := Subset.trans h₁ h₂
  cases r with
  | error => exact rolled _ _ h₂
  | ok =>
  refine obeys_neutral_bind (.call ⟨rfl, trivial⟩) hφ₂ fun φ₃ r h₃ hφ₃ => ?_
  have h₃ := Subset.trans h₂ h₃
  cases r with
  | error => exact rolled _ _ h₃
  | ok =>
  dsimp only
  split
  · exact rolled _ _ h₃
  refine .call ⟨T.mono h₃ h, hφ₃⟩ fun r _ => ?_
  have h₄ := subset_cons_of_subset ⟨Call.tokens (.insertInTxn tok), r⟩ h₃
  rcases r with e | _ | _
  · exact rolled _ _ h₄
  · refine obeys_neutral_then (.call ⟨rfl, trivial⟩) fun φ₅ r h₅ => ?_
    have h₅ := Subset.trans h₄ h₅
    cases r with
    | error => exact rolled _ _ h₅
    | ok => exact h₅
  · exact rolled _ _ h₄

theorem storeRefreshToken_signing {u : UserID} {deviceID : Option UUID} {pair : TokenPair}
    (h : T.clears φ u) (hφ : Unstored φ) :
    (storeRefreshToken cfg jkt u clientID deviceID fp pair).Obeys (signing T)
      (fun ψ _ => T.clears ψ u) φ := by
  refine obeys_neutral_bind (.call ⟨rfl, trivial⟩) hφ fun φ₁ rtID h₁ hφ₁ => ?_
  refine obeys_neutral_bind (.call ⟨rfl, trivial⟩) hφ₁ fun φ₂ now h₂ hφ₂ => ?_
  have hu := T.mono h₂ (T.mono h₁ h)
  refine (createWithinCap_signing hu hφ₂).bind fun ψ r hψ => ?_
  cases r <;> exact T.mono hψ hu

theorem startSession_signing {user : User} {deviceID : Option UUID} {rememberMe : Bool}
    {methods : List String} (h : T.clears φ user.id) (hφ : Unstored φ) :
    (startSession cfg jkt user clientID deviceID fp rememberMe methods).Obeys (signing T)
      (Granted T) φ := by
  refine obeys_neutral_bind (within_neutral_empty effectiveRoles_clerical) hφ
    fun φ₁ roles h₁ hφ₁ => ?_
  refine obeys_neutral_bind (.call ⟨rfl, trivial⟩) hφ₁ fun φ₂ authTime h₂ hφ₂ => ?_
  have issued := (obeys_of_neutral (T := T) (φ := φ₂) (within_neutral_empty
    (TokenService.issueTokenPairWithAuth_clerical cfg jkt user.id roles
      ["read", "write"] clientID fp
      none rememberMe (newAuthContext authTime methods false)))).and_yields
    issueTokenPairWithAuth_subject
  refine issued.bind ?_
  rintro φ₃ pair ⟨⟨h₃, hφ₃⟩, hsub⟩
  have hu := T.mono h₃ (T.mono h₂ (T.mono h₁ h))
  refine (storeRefreshToken_signing hu (hφ₃ hφ₂)).bind fun ψ r hψ => ?_
  cases r with
  | error => trivial
  | ok =>
  -- what follows the store is bookkeeping
  refine obeys_neutral_then (.call ⟨rfl, trivial⟩) fun ψ₁ _ h₁ => ?_
  refine obeys_neutral_then (within_neutral_empty auditLog_clerical) fun ψ₂ _ h₂ => ?_
  refine obeys_neutral_then (.call ⟨rfl, trivial⟩) fun ψ₃ _ h₃ => ?_
  refine obeys_neutral_then (.call ⟨rfl, trivial⟩) fun ψ₄ now h₄ => ?_
  show T.clears ψ₄ pair.accessToken.subject
  rw [hsub]
  exact T.mono h₄ (T.mono h₃ (T.mono h₂ (T.mono h₁ hψ)))

/-- A challenge expires `challengeTTL` after the instant it was issued at. -/
theorem issueChallengeToken_signing {u : UserID} {factors : List String} (hφ : Unstored φ) :
    (TokenService.issueChallengeToken jkt u fp factors).Obeys (signing T)
      (fun ψ _ => Unstored ψ) φ := by
  refine .call trivial fun now _ => ?_
  have hφ₁ := hφ.cons (c := .now) rfl now
  refine .call trivial fun jti _ => ?_
  have hφ₂ := hφ₁.cons (c := .random) rfl jti
  refine .call ⟨rfl, ?_⟩ fun _ _ => hφ₂.cons rfl _
  exact mem_cons_of_mem _ (mem_cons_self ..)

end Start

/-- Signing in, as the discipline follows it: bookkeeping has no rule, and is only told more. -/
def signWalk (T : Terms vault) : Walk (signing T) (Granted T) where
  Ready := Unstored
  After (φ ψ : List (Event vault)) := φ ⊆ ψ ∧ (Unstored φ → Unstored ψ)
  refl φ := ⟨List.Subset.refl φ, id⟩
  trans h h' := ⟨List.Subset.trans h.1 h'.1, h'.2 ∘ h.2⟩
  ready hφ h := h.2 hφ
  desk hφ hc := by
    have hneutral := neutral_of_clerical challengeUsed_notMem_deskKeys hc
    exact ⟨hneutral.allows, fun r => ⟨List.subset_cons_self _ _, fun h => h.cons hneutral.1 r⟩⟩
  entry {φ c} hφ hc := by
    cases c with
    | getByEmail email => exact ⟨trivial, fun r => hφ.cons (c := .getByEmail email) rfl r⟩
    | verifyPassword => exact ⟨trivial, fun r => hφ.cons (c := .verifyPassword _ _) rfl r⟩
    | verifyChallenge => exact ⟨trivial, fun r => hφ.cons (c := .verifyChallenge _) rfl r⟩
    | checkSecondFactor =>
      exact ⟨trivial, fun r => hφ.cons (c := .checkSecondFactor _ _ _) rfl r⟩
    | _ => cases hc
  ends {φ r} _ hr := by
    rcases r with e | result
    · trivial
    · cases result <;> trivial
  late _ hc := ⟨(neutral_of_clerical challengeUsed_notMem_deskKeys hc).allows, fun _ => trivial⟩

theorem unstored_nil : Unstored [] := forall_mem_nil _

theorem recordMFAFailure_neutral {cfg : Settings} {u : UserID} {ip : IPAddr} :
    (AuthService.recordMFAFailure cfg u ip).Within Neutral :=
  within_neutral (challengeUsed_notMem_failureKeys u ip) (AuthService.recordMFAFailure_clerical _)

theorem auditLog_neutral {kind : AuditKind} {u : UserID} {reason : String} :
    (auditLog kind u reason).Within Neutral := within_neutral_empty auditLog_clerical

/-! ### Login -/

/-- The terms of a first factor: `GetStatus` has listed no factor of the account, and none is
required. -/
def noFactorOwed (cfg : Settings) : Terms vault where
  clears φ u := ⟨.mfaStatus u, .ok []⟩ ∈ φ ∧ cfg.mfaRequired = false
  mono hφ h := ⟨hφ h.1, h.2⟩
  consumes _ _ := False

section Login

open AuthService RefreshTokenRepo

variable {cfg : Settings} {φ : List (Event vault)}

/-- **`Login`**: the session is started only past a lookup that listed nothing. -/
theorem login_signing (hmfa : cfg.hasMFA) (input : LoginInput) :
    (login cfg input).Obeys (signing (noFactorOwed cfg)) (Granted (noFactorOwed cfg)) [] := by
  let W := signWalk (noFactorOwed cfg)
  refine W.login unstored_nil (fun _ => issueChallengeToken_signing) fun _ user _ h₁ => ?_
  refine W.loginUser h₁ fun _ _ h₂ _ _ => ?_
  refine W.checkPassword h₂ fun _ h₃ _ _ => ?_
  refine W.passwordProven h₃ (fun _ h _ => issueChallengeToken_signing h)
    fun φ₄ h₄ _ howed => ?_
  obtain ⟨hreq, χ, rfl⟩ := howed hmfa
  have hclear : (noFactorOwed cfg).clears (⟨.mfaStatus user.id, .ok []⟩ :: χ) user.id :=
    ⟨mem_cons_self .., hreq⟩
  exact W.completeLogin h₄ fun _ _ h₅ a₅ =>
    startSession_signing ((noFactorOwed cfg).mono a₅.1 hclear) h₅

/-! ### The OAuth callback -/

theorem oauthTokens_signing {T : Terms vault} {u : UserID} (fp : FingerprintInput)
    (authTime now : Time) (jkt : String) (h : T.clears φ u) (hφ : Unstored φ) :
    (oauthTokens cfg u fp authTime now jkt).Obeys (signing T) (Granted T) φ := by
  have issued := (obeys_of_neutral (T := T) (φ := φ) (within_neutral_empty
    (TokenService.issueTokenPairWithAuth_clerical cfg jkt u ["user"] ["read", "write"] ""
      (computeFingerprint fp) none false
      (newAuthContext (if authTime.isZero then now else authTime) [methodFederated]
        false)))).and_yields issueTokenPairWithAuth_subject
  refine issued.bind ?_
  rintro φ₁ pair ⟨⟨h₁, hφ₁⟩, hsub⟩
  refine obeys_neutral_bind (within_neutral_empty checkSessionLimit_clerical) (hφ₁ hφ)
    fun φ₂ r h₂ hφ₂ => ?_
  cases r with
  | error => trivial
  | ok =>
  refine obeys_neutral_bind (within_neutral_empty findOrCreateDevice_clerical) hφ₂
    fun φ₃ deviceID h₃ hφ₃ => ?_
  have hu := T.mono h₃ (T.mono h₂ (T.mono h₁ h))
  refine (storeRefreshToken_signing hu hφ₃).bind fun χ r hχ => ?_
  cases r with
  | error => trivial
  | ok =>
  refine obeys_neutral_then (.call ⟨rfl, trivial⟩) fun χ₁ now h₄ => ?_
  show T.clears χ₁ pair.accessToken.subject
  rw [hsub]
  exact T.mono h₄ hχ

theorem secondFactorOrTokens_signing (hmfa : cfg.hasMFA) (u : UserID) (fp : FingerprintInput)
    (authTime now : Time) (jkt : String) (hφ : Unstored φ) :
    (OAuthHandler.secondFactorOrTokens cfg u fp authTime now jkt).Obeys (signing (noFactorOwed cfg))
      (Granted (noFactorOwed cfg)) φ := by
  unfold OAuthHandler.secondFactorOrTokens
  rw [if_pos hmfa]
  -- `RequiresMFA` says no only after a lookup that listed nothing
  have required : (OAuthHandler.requiresMFA cfg u).Obeys (signing (noFactorOwed cfg))
      (fun ψ b => Unstored ψ ∧ (b = false → (noFactorOwed cfg).clears ψ u)) φ := by
    refine .call trivial fun r _ => ?_
    have hψ := hφ.cons (c := .mfaStatus u) rfl r
    cases r with
    | error => exact ⟨hψ, nofun⟩
    | ok methods =>
    refine ⟨hψ, fun h => ?_⟩
    obtain ⟨hnone, hreq⟩ := Bool.or_eq_false_iff.mp h
    obtain rfl : methods = [] := by simpa using hnone
    exact ⟨mem_cons_self .., hreq⟩
  refine required.bind ?_
  rintro ψ b ⟨hψ, hclear⟩
  cases b with
  | true => exact (signWalk _).challenge (issueChallengeToken_signing hψ)
  | false => exact oauthTokens_signing fp authTime now jkt (hclear rfl) hψ

/-- **The OAuth callback.** -/
theorem callback_signing (hmfa : cfg.hasMFA) (u : UserID) (fp : FingerprintInput)
    (authTime : Time) (jkt : String) :
    (OAuthHandler.callback cfg u fp authTime jkt).Obeys (signing (noFactorOwed cfg))
      (Granted (noFactorOwed cfg)) [] := by
  refine obeys_neutral_bind (.call ⟨rfl, trivial⟩) unstored_nil fun φ₁ r _ hφ₁ => ?_
  rcases r with e | _ | acct
  · trivial
  · trivial
  refine obeys_neutral_bind (.call ⟨rfl, trivial⟩) hφ₁ fun φ₂ now _ hφ₂ => ?_
  refine .ite trivial (.ite trivial (.ite trivial (.ite trivial ?_)))
  refine obeys_neutral_bind (within_neutral_empty (isAccountLocked_clerical _ _ _)) hφ₂
    fun φ₃ isLocked _ hφ₃ => ?_
  refine .ite trivial (.ite ?_ (secondFactorOrTokens_signing hmfa _ _ _ _ _ hφ₃))
  refine obeys_neutral_bind (.call ⟨rfl, trivial⟩) hφ₃ fun φ₄ r _ hφ₄ => ?_
  cases r with
  | error => trivial
  | ok => exact secondFactorOrTokens_signing hmfa _ _ _ _ _ hφ₄

end Login

/-! ### Redeeming a challenge -/

/-- The terms of `CompleteMFALogin`: this request has consumed the challenge, and the account is the
one its subject names. -/
def consumed (token : ChallengeClaims) : Terms vault where
  clears φ u :=
    ⟨.cacheSetIfNotExists (.challengeUsed token.jti) (.count 1) challengeTTL, .ok true⟩ ∈ φ ∧
      ∃ user, ⟨.getByID token.subject, .ok (some user)⟩ ∈ φ ∧ user.id = u
  mono := by
    rintro φ ψ u hφ ⟨hset, user, hget, rfl⟩
    exact ⟨hφ hset, user, hφ hget, rfl⟩
  consumes _ jti := jti = token.jti

section Redeem

open AuthService

variable {cfg : Settings} {φ : List (Event vault)}

/-- **`CompleteMFALogin`**, behind the fingerprint check of the handlers. -/
theorem completeMFAIfChallenge_signing (hcache : cfg.hasCache) (input : SecondFactorInput) :
    (completeMFAIfChallenge cfg input).Obeys (signing (consumed input.token))
      (Granted (consumed input.token)) [] := by
  let W := signWalk (consumed input.token)
  let mark : Call := .cacheSetIfNotExists (.challengeUsed input.token.jti) (.count 1) challengeTTL
  refine W.completeMFAIfChallenge unstored_nil
    ⟨⟨rfl, rfl⟩, fun r => unstored_nil.cons (c := mark) rfl r⟩
    fun ψ hψ hset _ => ?_
  obtain rfl := hset hcache
  refine W.finishMFALogin hψ fun χ user now _ hχ _ _ hready => ?_
  refine startSession_signing ⟨?_, user, ?_, rfl⟩ hready
  · exact mem_cons_of_mem _ (mem_cons_of_mem _ (hχ.1 (mem_cons_self ..)))
  · exact mem_cons_of_mem _ (mem_cons_self ..)

end Redeem

/-! ### Over the factor stores -/

/-- All three stores were read, and no factor was found in any of them. -/
def ReadNoFactor (ψ : List (Event factors)) (u : UserID) : Prop :=
  (∃ totp, ⟨.totpByUserID u, .ok totp⟩ ∈ ψ ∧ totp.any TOTPSecret.verified = false) ∧
    ⟨.webauthnByUser u, .ok []⟩ ∈ ψ ∧ ⟨.unusedBackupCodes u, .ok []⟩ ∈ ψ

variable {ψ : List (Event factors)}

theorem ReadNoFactor.mono {χ : List (Event factors)} {u : UserID} (hψ : ψ ⊆ χ)
    (h : ReadNoFactor ψ u) : ReadNoFactor χ u := by
  obtain ⟨⟨totp, htotp, hunverified⟩, hcreds, hcodes⟩ := h
  exact ⟨⟨totp, hψ htotp, hunverified⟩, hψ hcreds, hψ hcodes⟩

/-- Nothing has been stored so far. -/
def NothingStored (ψ : List (Event factors)) : Prop := ∀ e ∈ ψ, e.1.stores = none

theorem NothingStored.cons (h : NothingStored ψ) {c : FactorCall} (hc : c.stores = none)
    (r : c.Reply) : NothingStored (⟨c, r⟩ :: ψ) := forall_mem_cons.mpr ⟨hc, h⟩

/-- The rules, for a program over the factor stores that has been told `ψ`. -/
def Terms.Permits (T : Terms factors) (ψ : List (Event factors)) : FactorCall → Prop
  | .vault c =>
    Rules (T.clears ψ) (NothingStored ψ) (fun now => ⟨.vault .now, now⟩ ∈ ψ)
      (T.consumes ψ) c
  | _ => True

/-- **The discipline of signing in**, over the factor stores. -/
abbrev enlisting (T : Terms factors) : Discipline factors := Discipline.history T.Permits

/-- What a lifted program has been told, by what the program was told and what was said before
it. -/
structure Carried (ψ₀ : List (Event factors)) (φ : List (Event vault)) (ψ : List (Event factors)) :
    Prop where
  started : ψ₀ ⊆ ψ
  told : ∀ {c : Call} {r : c.Reply}, (∀ u, c ≠ .mfaStatus u) → ⟨c, r⟩ ∈ φ → ⟨.vault c, r⟩ ∈ ψ
  status : ∀ u, ⟨.mfaStatus u, .ok []⟩ ∈ φ → ReadNoFactor ψ u
  nothing : Unstored φ → NothingStored ψ

section Carried

variable {ψ₀ ψ : List (Event factors)} {φ : List (Event vault)}

theorem Carried.refl (h : NothingStored ψ₀) : Carried ψ₀ [] ψ₀ where
  started := Subset.refl ψ₀
  told _ h := nomatch h
  status _ h := nomatch h
  nothing _ := h

theorem Carried.cons (h : Carried ψ₀ φ ψ) {c : Call} (hc : ∀ u, c ≠ .mfaStatus u) (r : c.Reply) :
    Carried ψ₀ (⟨c, r⟩ :: φ) (⟨.vault c, r⟩ :: ψ) where
  started := subset_cons_of_subset _ h.started
  told hc' hmem := by
    rcases mem_cons.mp hmem with heq | hmem
    · cases heq
      exact mem_cons_self ..
    · exact mem_cons_of_mem _ (h.told hc' hmem)
  status u hmem := by
    rcases mem_cons.mp hmem with heq | hmem
    · cases heq
      exact absurd rfl (hc u)
    · exact (h.status u hmem).mono (subset_cons_self _ _)
  nothing hφ := by
    have hc : c.stores = none := hφ _ (mem_cons_self ..)
    have hψ := h.nothing fun e he => hφ e (mem_cons_of_mem _ he)
    exact hψ.cons (c := .vault c) hc r

/-- A lookup that lists nothing has read three stores that hold nothing. -/
theorem methods_eq_nil {totp : Option TOTPSecret} {creds : List WebAuthnCredential}
    {codes : List BackupCode} (h : MFAService.methods totp creds codes = []) :
    totp.any TOTPSecret.verified = false ∧ creds = [] ∧ codes = [] := by
  unfold MFAService.methods at h
  obtain ⟨h, hcodes⟩ := append_eq_nil_iff.mp h
  obtain ⟨htotp, hcreds⟩ := append_eq_nil_iff.mp h
  refine ⟨?_, ?_, ?_⟩
  · by_contra hne
    rw [if_pos (by simpa using hne)] at htotp
    cases htotp
  · by_contra hne
    rw [if_neg (by simpa using hne)] at hcreds
    cases hcreds
  · by_contra hne
    rw [if_neg (by simpa using hne)] at hcodes
    cases hcodes

/-- `GetStatus` asks three stores and lists nothing only when all of them answered that they hold
nothing. -/
theorem getStatus_enlisting {T : Terms factors} (u : UserID) :
    (MFAService.getStatus u).Obeys (enlisting T) (fun χ r => ψ ⊆ χ ∧
      (NothingStored ψ → NothingStored χ) ∧ (r = .ok [] → ReadNoFactor χ u)) ψ := by
  refine .call trivial fun totp _ => ?_
  refine .call trivial fun creds _ => ?_
  refine .call trivial fun codes _ => ?_
  have hsub : ψ ⊆ ⟨.unusedBackupCodes u, codes⟩ :: ⟨.webauthnByUser u, creds⟩ ::
      ⟨.totpByUserID u, totp⟩ :: ψ := fun e he => by simp [he]
  have hnothing : NothingStored ψ → NothingStored (⟨.unusedBackupCodes u, codes⟩ ::
      ⟨.webauthnByUser u, creds⟩ :: ⟨.totpByUserID u, totp⟩ :: ψ) := fun hψ =>
    ((hψ.cons (c := .totpByUserID u) rfl totp).cons (c := .webauthnByUser u) rfl creds).cons
      (c := .unusedBackupCodes u) rfl codes
  rcases totp with e | totp
  · exact ⟨hsub, hnothing, nofun⟩
  rcases creds with e | creds
  · exact ⟨hsub, hnothing, nofun⟩
  rcases codes with e | codes
  · exact ⟨hsub, hnothing, nofun⟩
  refine ⟨hsub, hnothing, fun h => ?_⟩
  obtain ⟨htotp, rfl, rfl⟩ := methods_eq_nil (Except.ok.inj h)
  refine ⟨⟨totp, ?_, htotp⟩, ?_, mem_cons_self ..⟩
  · exact mem_cons_of_mem _ (mem_cons_of_mem _ (mem_cons_self ..))
  · exact mem_cons_of_mem _ (mem_cons_self ..)

theorem Carried.looked {χ : List (Event factors)} (h : Carried ψ₀ φ ψ) {u : UserID}
    {r : Except StoreError (List String)} (hsub : ψ ⊆ χ)
    (hnothing : NothingStored ψ → NothingStored χ) (hstatus : r = .ok [] → ReadNoFactor χ u) :
    Carried ψ₀ (⟨.mfaStatus u, r⟩ :: φ) χ where
  started := Subset.trans h.started hsub
  told hc hmem := by
    rcases mem_cons.mp hmem with heq | hmem
    · cases heq
      exact absurd rfl (hc u)
    · exact hsub (h.told hc hmem)
  status v hmem := by
    rcases mem_cons.mp hmem with heq | hmem
    · cases heq
      exact hstatus rfl
    · exact (h.status v hmem).mono hsub
  nothing hφ := hnothing (h.nothing fun e he => hφ e (mem_cons_of_mem _ he))

/-- **Lifting.** A program that keeps to the rules over the service keeps to them over the factor
stores, when what clears an account there clears it here. -/
theorem lift_enlisting {α : Type} {T : Terms vault} {T' : Terms factors}
    (hclears : ∀ φ ψ u, Carried ψ₀ φ ψ → T.clears φ u → T'.clears ψ u)
    (hconsumes : ∀ φ ψ jti, Carried ψ₀ φ ψ → T.consumes φ jti → T'.consumes ψ jti) {p : Prog α}
    {Q : List (Event vault) → α → Prop} (hp : p.Obeys (signing T) Q []) (hψ₀ : NothingStored ψ₀) :
    (lift p).Obeys (enlisting T') (fun ψ a => ∃ φ, Carried ψ₀ φ ψ ∧ Q φ a) ψ₀ := by
  refine Obeys.elaborate (D := signing T) (E := enlisting T') (Carried ψ₀) ?_ hp (Carried.refl hψ₀)
  intro φ ψ c hR (hallows : T.Allows φ c)
  by_cases hc : ∃ u, c = .mfaStatus u
  · obtain ⟨u, rfl⟩ := hc
    refine (getStatus_enlisting u).mono ?_
    rintro χ r ⟨hsub, hnothing, hstatus⟩
    exact ⟨trivial, hR.looked hsub hnothing hstatus⟩
  · have hne : ∀ u, c ≠ .mfaStatus u := fun u hu => hc ⟨u, hu⟩
    rw [carryOut_of_ne hne]
    refine obeys_perform ?_ fun r _ => ⟨trivial, hR.cons hne r⟩
    have hnow : ∀ u, Call.now ≠ .mfaStatus u := nofun
    exact hallows.imp (hclears φ ψ · hR) hR.nothing (fun now => hR.told hnow) (hconsumes φ ψ · hR)

end Carried

/-! ### The handlers -/

/-- The factor a second-factor request has proven, by what it has been told: a code of the account's
TOTP secret, an assertion by a credential of the account, a backup code that was listed as unused
and is now spent, or the code that was mailed when the account has no factor and one is required. -/
def Proven (cfg : Settings) : SignInReq → List (Event factors) → Prop
  | .totp input, ψ => ∃ totp secret step,
    ⟨.totpByUserID input.token.subject, .ok (some totp)⟩ ∈ ψ ∧ totp.secret = some secret ∧
      ⟨.validateTOTPCode secret input.code, some step⟩ ∈ ψ
  | .webauthn input a, ψ => ∃ existing session cred,
    ⟨.webauthnByUser input.token.subject, existing⟩ ∈ ψ ∧
      ⟨.validateLogin session (existing.toOption.getD []) a, some cred⟩ ∈ ψ
  | .backupCode input, ψ => ∃ codes code,
    ⟨.unusedBackupCodes input.token.subject, .ok codes⟩ ∈ ψ ∧ code ∈ codes ∧
      code.code = input.code ∧ ⟨.markBackupUsed code.id, .ok true⟩ ∈ ψ
  | .emailOTP input, ψ => cfg.mfaRequired ∧ ReadNoFactor ψ input.token.subject ∧
    ⟨.vault (.cacheGetAndDelete (.emailOTP input.token.subject)), .ok (some (.mac input.code))⟩ ∈ ψ
  | _, _ => False

variable {req : SignInReq} {cfg : Settings}

theorem Proven.mono {χ : List (Event factors)} (hψ : ψ ⊆ χ) (h : Proven cfg req ψ) :
    Proven cfg req χ := by
  cases req with
  | login | oauth => exact h
  | totp =>
    obtain ⟨totp, secret, step, hread, hsecret, hcode⟩ := h
    exact ⟨totp, secret, step, hψ hread, hsecret, hψ hcode⟩
  | webauthn =>
    obtain ⟨existing, session, cred, hread, hsigned⟩ := h
    exact ⟨existing, session, cred, hψ hread, hψ hsigned⟩
  | backupCode =>
    obtain ⟨codes, code, hread, hmem, hcode, hspent⟩ := h
    exact ⟨codes, code, hψ hread, hmem, hcode, hψ hspent⟩
  | emailOTP => exact ⟨h.1, h.2.1.mono hψ, hψ h.2.2⟩

/-- The terms of a first factor. -/
def noFactorFound (cfg : Settings) : Terms factors where
  clears ψ u := ReadNoFactor ψ u ∧ cfg.mfaRequired = false
  mono hψ h := ⟨h.1.mono hψ, h.2⟩
  consumes _ _ := False

/-- The terms of a second factor: the challenge was accepted and consumed, the account is its
subject, and a factor was proven. -/
def redeemed (cfg : Settings) (req : SignInReq) (token : ChallengeClaims) : Terms factors where
  clears ψ u := ⟨.vault (.verifyChallenge token), true⟩ ∈ ψ ∧
    ⟨.vault (.cacheSetIfNotExists (.challengeUsed token.jti) (.count 1) challengeTTL), .ok true⟩
        ∈ ψ ∧
      (∃ user, ⟨.vault (.getByID token.subject), .ok (some user)⟩ ∈ ψ ∧ user.id = u) ∧
        Proven cfg req ψ
  mono := by
    rintro ψ χ u hψ ⟨hverified, hset, ⟨user, hget, rfl⟩, hproven⟩
    exact ⟨hψ hverified, hψ hset, ⟨user, hψ hget, rfl⟩, hproven.mono hψ⟩
  consumes ψ jti := jti = token.jti ∧ ⟨.vault (.verifyChallenge token), true⟩ ∈ ψ

/-- The challenge a request redeems. -/
def SignInReq.token : SignInReq → Option ChallengeClaims
  | login _ => none
  | oauth _ _ _ _ => none
  | totp input => some input.token
  | webauthn input _ => some input.token
  | backupCode input => some input.token
  | emailOTP input => some input.token

/-- The terms on which a request may start a session. -/
def SignInReq.terms (cfg : Settings) (req : SignInReq) : Terms factors :=
  match req.token with
  | none => noFactorFound cfg
  | some token => redeemed cfg req token

theorem SignInReq.terms_of_none (h : req.token = none) : req.terms cfg = noFactorFound cfg := by
  simp only [terms, h]

theorem SignInReq.terms_of_token {token : ChallengeClaims} (h : req.token = some token) :
    req.terms cfg = redeemed cfg req token := by
  simp only [terms, h]

/-- An answer with an access token is given only to an account that is cleared. -/
def SignInResponse.Granted (T : Terms factors) (ψ : List (Event factors)) : SignInResponse → Prop
  | login r => Vault42.Granted T ψ r
  | factor r => Vault42.Granted T ψ r

section Handlers

open SecondFactor AuthService

variable {cfg : Settings} {req : SignInReq} {input : SecondFactorInput} {T : Terms factors}
  {ψ : List (Event factors)} {α β : Type}

theorem lift_neutral {p : Prog α} (hp : p.Within Neutral) (hψ : NothingStored ψ) :
    (lift p).Obeys (enlisting T) (fun χ _ => ψ ⊆ χ ∧ NothingStored χ) ψ := by
  let nobody : Terms vault := ⟨fun _ _ => False, fun _ h => h, fun _ _ => False⟩
  have hob := obeys_of_neutral (T := nobody) (φ := []) hp
  refine (lift_enlisting (fun _ _ _ _ => False.elim)
    (fun _ _ _ _ => False.elim) hob hψ).mono ?_
  rintro χ a ⟨φ, hcarried, -, hφ⟩
  exact ⟨hcarried.started, hcarried.nothing (hφ unstored_nil)⟩

variable {Q : List (Event factors) → β → Prop}

/-- The handler keeps to the terms, and its answer does. -/
abbrev Keeping (T : Terms factors) (p : FactorProg SecondFactor.Outcome)
    (ψ : List (Event factors)) : Prop :=
  p.Obeys (enlisting T) (Granted T) ψ

theorem lift_neutral_bind {p : Prog α} {f : α → FactorProg β} (hp : p.Within Neutral)
    (hψ : NothingStored ψ) (hf : ∀ χ a, ψ ⊆ χ → NothingStored χ → (f a).Obeys (enlisting T) Q χ) :
    (lift p >>= f).Obeys (enlisting T) Q ψ :=
  (lift_neutral hp hψ).bind fun χ a hχ => hf χ a hχ.1 hχ.2

section Proven

variable (hcache : cfg.hasCache) (hψ : NothingStored ψ)
  (hverified : ⟨.vault (.verifyChallenge input.token), true⟩ ∈ ψ) (hproven : Proven cfg req ψ)
include hcache hψ hverified hproven

/-- **`completeMFAIfChallenge`**, reached with a factor proven. -/
theorem complete_enlisting (method : String) :
    Keeping (redeemed cfg req input.token) (complete cfg { input with method := method }) ψ := by
  have hclears : ∀ φ χ u, Carried ψ φ χ → (consumed input.token).clears φ u →
      (redeemed cfg req input.token).clears χ u := by
    rintro φ χ u hcarried ⟨hset, user, hget, rfl⟩
    refine ⟨hcarried.started hverified, hcarried.told nofun hset,
      ⟨user, hcarried.told nofun hget, rfl⟩, hproven.mono hcarried.started⟩
  have hconsumes : ∀ φ χ jti, Carried ψ φ χ → (consumed input.token).consumes φ jti →
      (redeemed cfg req input.token).consumes χ jti :=
    fun _ _ _ hcarried hjti => ⟨hjti, hcarried.started hverified⟩
  refine (lift_enlisting hclears hconsumes
    (completeMFAIfChallenge_signing hcache { input with method := method }) hψ).bind ?_
  rintro χ r ⟨φ, hcarried, hgranted⟩
  cases r with
  | error => trivial
  | ok => exact hgranted.imp fun u => hclears φ χ u hcarried

/-- What stands between a proven factor and the completion is an audit row. -/
theorem auditThenComplete_enlisting (reason method : String) :
    Keeping (redeemed cfg req input.token) (do
      lift (auditLog .twoFAVerify input.token.subject reason)
      complete cfg { input with method := method }) ψ := by
  refine lift_neutral_bind auditLog_neutral hψ fun χ _ hsub hχ => ?_
  exact complete_enlisting hcache hχ (hsub hverified) (hproven.mono hsub) method

end Proven

theorem fail_enlisting {e : FactorError} (hψ : NothingStored ψ) :
    Keeping T (fail cfg input e) ψ :=
  lift_neutral_bind recordMFAFailure_neutral hψ fun _ _ _ _ => trivial

variable {p : FactorProg SecondFactor.Outcome}

/-- The middleware: behind it the challenge has been accepted. -/
theorem authChallenge_enlisting
    (hp : ∀ ψ, ⟨.vault (.verifyChallenge input.token), true⟩ ∈ ψ → NothingStored ψ →
      Keeping T p ψ) : Keeping T (authChallenge input p) [] := by
  refine .call trivial fun r _ => ?_
  cases r with
  | false => trivial
  | true =>
  have hnil : NothingStored [] := forall_mem_nil _
  exact hp _ (mem_cons_self ..) (hnil.cons (c := .vault (.verifyChallenge input.token)) rfl true)

theorem lockoutGate_enlisting (hψ : NothingStored ψ)
    (hp : ∀ χ, ψ ⊆ χ → NothingStored χ → Keeping T p χ) : Keeping T (lockoutGate cfg input p) ψ :=
  lift_neutral_bind (within_neutral_empty (isAccountLocked_clerical _ _ _)) hψ
    fun χ _ hsub hχ => .ite trivial (hp χ hsub hχ)

theorem ask_enlisting {c : FactorCall} {f : c.Reply → FactorProg β} (hstores : c.stores = none)
    (hpermits : T.Permits ψ c) (hψ : NothingStored ψ)
    (hf : ∀ r χ, ⟨c, r⟩ ∈ χ → ψ ⊆ χ → NothingStored χ → (f r).Obeys (enlisting T) Q χ) :
    (askFactor c >>= f).Obeys (enlisting T) Q ψ :=
  .call hpermits fun r _ =>
    hf r _ (mem_cons_self ..) (subset_cons_self _ _) (hψ.cons hstores r)

section

variable (hcache : cfg.hasCache)
include hcache

theorem totpProven_enlisting {totp : TOTPSecret} {step : ℕ} (hψ : NothingStored ψ)
    (hverified : ⟨.vault (.verifyChallenge input.token), true⟩ ∈ ψ) (hproven : Proven cfg req ψ) :
    Keeping (redeemed cfg req input.token) (totpProven cfg input totp step) ψ := by
  have finish : ∀ {χ : List (Event factors)}, ψ ⊆ χ → NothingStored χ → _ := fun hsub hχ =>
    auditThenComplete_enlisting hcache hχ (hsub hverified) (hproven.mono hsub) "totp" methodTOTP
  refine ask_enlisting rfl trivial hψ fun r ψ₁ _ h₁ hψ₁ => ?_
  rcases r with e | _ | _
  · trivial
  · trivial
  refine .ite (finish h₁ hψ₁) ?_
  refine ask_enlisting rfl trivial hψ₁ fun _ ψ₂ _ h₂ hψ₂ => ?_
  refine lift_neutral_bind auditLog_neutral hψ₂ fun ψ₃ _ h₃ hψ₃ => ?_
  exact finish (Subset.trans (Subset.trans h₁ h₂) h₃) hψ₃

/-- **`TOTPHandler.Verify`.** -/
theorem totpVerify_enlisting (input : SecondFactorInput) :
    Keeping (redeemed cfg (.totp input) input.token) (totpVerify cfg input) [] := by
  refine authChallenge_enlisting fun ψ hverified hψ => ?_
  refine lockoutGate_enlisting hψ fun ψ₁ h₁ hψ₁ => .ite ?_ trivial
  refine ask_enlisting rfl trivial hψ₁ fun r ψ₂ hread h₂ hψ₂ => ?_
  rcases r with e | _ | totp
  · trivial
  · trivial
  dsimp only
  cases hsecret : totp.secret with
  | none => trivial
  | some secret =>
  refine ask_enlisting rfl trivial hψ₂ fun r ψ₃ hcode h₃ hψ₃ => ?_
  cases r with
  | none => exact fail_enlisting hψ₃
  | some step =>
  refine totpProven_enlisting hcache hψ₃ (h₃ (h₂ (h₁ hverified))) ?_
  exact ⟨totp, secret, step, h₃ hread, hsecret, hcode⟩

theorem assertionProven_enlisting {cred : WebAuthnCredential} {a : Assertion} (hψ : NothingStored ψ)
    (hverified : ⟨.vault (.verifyChallenge input.token), true⟩ ∈ ψ) (hproven : Proven cfg req ψ) :
    Keeping (redeemed cfg req input.token) (assertionProven cfg input cred a) ψ := by
  have finish : ∀ {χ : List (Event factors)}, ψ ⊆ χ → NothingStored χ → _ := fun hsub hχ =>
    auditThenComplete_enlisting hcache hχ (hsub hverified) (hproven.mono hsub) "webauthn"
      methodWebAuthn
  refine .ite ?_ (.ite trivial ?_)
  · refine lift_neutral_bind (lockThenWrite_within reviews_neutral.revoking _) hψ
      fun ψ₁ _ _ hψ₁ => ?_
    exact lift_neutral_bind auditLog_neutral hψ₁ fun _ _ _ _ => trivial
  refine ask_enlisting rfl trivial hψ fun r ψ₁ _ h₁ hψ₁ => ?_
  cases r with
  | error => trivial
  | ok =>
  refine .ite (finish h₁ hψ₁) ?_
  refine ask_enlisting rfl trivial hψ₁ fun r ψ₂ _ h₂ hψ₂ => ?_
  cases r with
  | error => trivial
  | ok => exact finish (Subset.trans h₁ h₂) hψ₂

/-- **`WebAuthnHandler.VerifyFinish`.** -/
theorem webauthnVerify_enlisting (input : SecondFactorInput) (a : Assertion) :
    Keeping (redeemed cfg (.webauthn input a) input.token) (webauthnVerify cfg input a) [] := by
  refine authChallenge_enlisting fun ψ hverified hψ => ?_
  refine ask_enlisting rfl trivial hψ fun r ψ₁ _ h₁ hψ₁ => ?_
  rcases r with e | _ | user
  · trivial
  · trivial
  refine ask_enlisting rfl trivial hψ₁ fun r ψ₂ _ h₂ hψ₂ => ?_
  rcases r with e | _ | v
  · trivial
  · trivial
  cases v with
  | ceremony session =>
    refine ask_enlisting rfl trivial hψ₂ fun existing ψ₃ hread h₃ hψ₃ => ?_
    refine ask_enlisting rfl trivial hψ₃ fun r ψ₄ hsigned h₄ hψ₄ => ?_
    cases r with
    | none => trivial
    | some cred =>
    refine assertionProven_enlisting hcache hψ₄ (h₄ (h₃ (h₂ (h₁ hverified)))) ?_
    exact ⟨existing, session, cred, h₄ hread, hsigned⟩
  | _ => trivial

/-- **`BackupCodeHandler.Verify`.** -/
theorem backupVerify_enlisting (input : SecondFactorInput) :
    Keeping (redeemed cfg (.backupCode input) input.token) (backupVerify cfg input) [] := by
  refine authChallenge_enlisting fun ψ hverified hψ => ?_
  refine lockoutGate_enlisting hψ fun ψ₁ h₁ hψ₁ => .ite trivial ?_
  refine ask_enlisting rfl trivial hψ₁ fun r ψ₂ hread h₂ hψ₂ => ?_
  cases r with
  | error => trivial
  | ok codes =>
  dsimp only
  cases hlast : (codes.filter fun c => c.code == input.code).getLast? with
  | none => exact fail_enlisting hψ₂
  | some code =>
  have hmatch : code ∈ codes.filter fun c => c.code == input.code := mem_of_getLast? hlast
  obtain ⟨hmem, hcode⟩ := mem_filter.mp hmatch
  refine ask_enlisting rfl trivial hψ₂ fun r ψ₃ hspent h₃ hψ₃ => ?_
  rcases r with e | _ | _
  · trivial
  · trivial
  refine auditThenComplete_enlisting hcache hψ₃ (h₃ (h₂ (h₁ hverified))) ?_ _ _
  exact ⟨codes, code, h₃ hread, hmem, by simpa using hcode, hspent⟩

end

/-- `VerifyEmailOTP` accepts only the code that was mailed, and only when nothing is listed. -/
theorem verifyEmailOTP_enlisting {u : UserID} {code : String} (hψ : NothingStored ψ) :
    (verifyEmailOTP cfg u code).Obeys (enlisting T) (fun (χ : List (Event factors)) accepted =>
      ψ ⊆ χ ∧ NothingStored χ ∧ (accepted = true → cfg.mfaRequired = true ∧ ReadNoFactor χ u ∧
        ⟨.vault (.cacheGetAndDelete (.emailOTP u)), .ok (some (.mac code))⟩ ∈ χ)) ψ := by
  have allowed : (emailOTPAllowed cfg u).Obeys (enlisting T) (fun χ ok => ψ ⊆ χ ∧ NothingStored χ ∧
      (ok = true → cfg.mfaRequired = true ∧ ReadNoFactor χ u)) ψ := by
    refine .ite ?_ ⟨Subset.refl ψ, hψ, nofun⟩
    refine (getStatus_enlisting u).bind ?_
    rintro χ r ⟨hsub, hnothing, hstatus⟩
    cases r with
    | error => exact ⟨hsub, hnothing hψ, nofun⟩
    | ok methods =>
    refine ⟨hsub, hnothing hψ, fun h => ?_⟩
    obtain ⟨hnone, hreq⟩ := Bool.and_eq_true_iff.mp h
    obtain rfl : methods = [] := by simpa using hnone
    exact ⟨hreq, hstatus rfl⟩
  refine allowed.bind ?_
  rintro χ ok ⟨hsub, hχ, hok⟩
  cases ok with
  | false => exact ⟨hsub, hχ, nofun⟩
  | true =>
  rw [if_pos rfl]
  refine .ite ?_ ⟨hsub, hχ, nofun⟩
  refine ask_enlisting rfl trivial hχ fun r χ₁ htaken h₁ hχ₁ => ?_
  have hsub₁ := Subset.trans hsub h₁
  rcases r with e | _ | v
  · exact ⟨hsub₁, hχ₁, nofun⟩
  · exact ⟨hsub₁, hχ₁, nofun⟩
  cases v with
  | mac sig =>
    refine ⟨hsub₁, hχ₁, fun h => ?_⟩
    obtain rfl : sig = code := by simpa using h
    exact ⟨(hok rfl).1, (hok rfl).2.mono h₁, htaken⟩
  | _ => exact ⟨hsub₁, hχ₁, nofun⟩

/-- **`EmailOTPHandler.Verify`.** -/
theorem emailVerify_enlisting (hcache : cfg.hasCache) (input : SecondFactorInput) :
    Keeping (redeemed cfg (.emailOTP input) input.token) (emailVerify cfg input) [] := by
  refine authChallenge_enlisting fun ψ hverified hψ => ?_
  refine lockoutGate_enlisting hψ fun ψ₁ h₁ hψ₁ => .ite ?_ trivial
  refine (verifyEmailOTP_enlisting hψ₁).bind ?_
  rintro ψ₂ accepted ⟨h₂, hψ₂, hproven⟩
  cases accepted with
  | false => exact fail_enlisting hψ₂
  | true =>
    have hproven : Proven cfg (.emailOTP input) ψ₂ := hproven rfl
    exact complete_enlisting hcache hψ₂ (h₂ (h₁ hverified)) hproven _

/-- **Every request keeps to its terms.** -/
theorem serve_enlisting (hmfa : cfg.hasMFA) (hcache : cfg.hasCache)
    (req : SignInReq) :
    (req.serve cfg).Obeys (enlisting (req.terms cfg))
      (SignInResponse.Granted (req.terms cfg)) [] := by
  have hnil : NothingStored [] := forall_mem_nil _
  -- what was listed for the service was read from the stores
  have hclears : ∀ φ ψ u, Carried [] φ ψ → (noFactorOwed cfg).clears φ u →
      (noFactorFound cfg).clears ψ u := fun φ ψ u hcarried h => ⟨hcarried.status u h.1, h.2⟩
  have first : ∀ {p : Prog (Except AuthError LoginResult)},
      p.Obeys (signing (noFactorOwed cfg)) (Granted (noFactorOwed cfg)) [] →
        (lift p).Obeys (enlisting (noFactorFound cfg)) (Granted (noFactorFound cfg)) [] := by
    intro p hp
    refine (lift_enlisting hclears (fun _ _ _ _ => False.elim) hp hnil).mono ?_
    rintro ψ r ⟨φ, hcarried, hgranted⟩
    cases r with
    | error => trivial
    | ok => exact hgranted.imp fun u => hclears φ ψ u hcarried
  cases req with
  | login input => exact (first (login_signing hmfa input)).bind fun _ _ h => h
  | oauth u fp authTime jkt =>
    exact (first (callback_signing hmfa u fp authTime jkt)).bind fun _ _ h => h
  | totp input => exact (totpVerify_enlisting hcache input).bind fun _ _ h => h
  | webauthn input a => exact (webauthnVerify_enlisting hcache input a).bind fun _ _ h => h
  | backupCode input => exact (backupVerify_enlisting hcache input).bind fun _ _ h => h
  | emailOTP input => exact (emailVerify_enlisting hcache input).bind fun _ _ h => h

end Handlers

end Vault42
