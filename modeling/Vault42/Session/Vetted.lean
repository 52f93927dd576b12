import Vault42.Session.SigningIn

/-!
# A session is given only to an account that was vetted

Every path that ends in tokens reads the account's row and the clock on its way, and gives up when
the row is banned or locked at that instant: `Login` reads the row by address, `CompleteMFALogin`
and the OAuth callback by id, and a rotation reads it again before it mints a successor. `vetted`
puts that as the terms of the discipline `signing`, and `serve_vetted` says that every request of
the service keeps to it: a refresh token is stored, and an access token answered with, only for an
account that was read as one that may hold a session.

What a request has read may be out of date by the time it stores a token. This says what was read,
not what is so.
-/

namespace Vault42

open Framework Program List

/-- The row `user` was read as the row of `u`. -/
def RowRead (φ : List (Event vault)) (user : User) (u : UserID) : Prop :=
  (∃ email, ⟨.getByEmail email, .ok (some user)⟩ ∈ φ ∧ user.id = u) ∨
    ∃ v, ⟨.getByID v, .ok (some user)⟩ ∈ φ ∧ (v = u ∨ user.id = u)

theorem RowRead.mono {φ ψ : List (Event vault)} {user : User} {u : UserID} (hφ : φ ⊆ ψ)
    (h : RowRead φ user u) : RowRead ψ user u := by
  rcases h with ⟨email, hmem, hid⟩ | ⟨v, hmem, hid⟩
  · exact .inl ⟨email, hφ hmem, hid⟩
  · exact .inr ⟨v, hφ hmem, hid⟩

/-- **The terms of a session**: the account was read, not banned, and not locked at an instant that
was read. -/
def vetted : Terms vault where
  clears φ u := ∃ user now, RowRead φ user u ∧ user.banned = false ∧ ⟨.now, now⟩ ∈ φ ∧
    user.lockedAt now = false
  mono := by
    rintro φ ψ u hφ ⟨user, now, hread, hbanned, hnow, hopen⟩
    exact ⟨user, now, hread.mono hφ, hbanned, hφ hnow, hopen⟩
  consumes _ _ := True

/-- An access token was taken from behind an exchange code. -/
def Taken (φ : List (Event vault)) (token : AccessClaims) : Prop :=
  ∃ code fp, ⟨.cacheGetAndDelete (.oauthCode code fp), .ok (some (.exchange token))⟩ ∈ φ

/-- What is answered with a token is answered to an account that is cleared, and an exchange with
what was behind the code. A callback answers the account it was made for. -/
def Entitled (T : Terms vault) (req : Req) (ψ : List (Event vault)) : Response → Prop
  | .login r => Granted T ψ r
  | .redirect _ _ _ => ∀ u fp authTime jkt, req = .oauth u fp authTime jkt → T.clears ψ u
  | .exchange (some token) => Taken ψ token
  | .exchange none => True
  | .refresh (.ok r) => T.clears ψ r.accessToken.subject
  | .refresh (.error _) => True
  | .done _ => True

section Walks

open AuthService RefreshTokenRepo

variable {cfg : Settings} {φ : List (Event vault)}

/-! ### Signing in -/

theorem login_vetted (input : LoginInput) :
    (login cfg input).Obeys (signing vetted) (Granted vetted) [] := by
  let W := signWalk vetted
  refine W.login unstored_nil (fun _ => issueChallengeToken_signing) fun _ user _ h₁ => ?_
  refine W.loginUser h₁ fun _ now h₂ a₂ hopen => ?_
  refine W.checkPassword h₂ fun φ₃ h₃ hφ₃ hbanned => ?_
  have hclear : vetted.clears φ₃ user.id := by
    subst hφ₃
    refine ⟨user, now, .inl ⟨cfg.fold input.email, ?_, rfl⟩, hbanned, ?_, hopen⟩
    · exact mem_cons_of_mem _ (a₂.1 (mem_cons_of_mem _ (mem_cons_self ..)))
    · exact mem_cons_of_mem _ (a₂.1 (mem_cons_self ..))
  -- whether a second factor is owed does not matter here
  refine W.passwordProven h₃ (fun _ h _ => issueChallengeToken_signing h)
    fun _ h₄ a₄ _ => ?_
  exact W.completeLogin h₄ fun _ _ h₅ a₅ =>
    startSession_signing (vetted.mono a₅.1 (vetted.mono a₄.1 hclear)) h₅

/-- The gate of `CompleteMFALogin` refuses a banned account and one that is locked. -/
theorem of_mfaAccountGate {user : User} {now : Time} (h : mfaAccountGate user now = .ok ()) :
    user.banned = false ∧ user.lockedAt now = false := by
  unfold mfaAccountGate at h
  split_ifs at h with h₁ h₂ h₃ h₄
  exact ⟨Bool.eq_false_iff.mpr h₂, Bool.eq_false_iff.mpr h₄⟩

theorem verifySecondFactor_vetted (input : SecondFactorInput) :
    (verifySecondFactor cfg input).Obeys (signing vetted) (Granted vetted) [] := by
  let W := signWalk vetted
  let mark : Call := .cacheSetIfNotExists (.challengeUsed input.token.jti) (.count 1) challengeTTL
  refine W.verifySecondFactor unstored_nil fun _ χ h₁ _ _ => ?_
  refine W.completeMFAIfChallenge h₁ ⟨⟨rfl, trivial⟩, fun r => Unstored.cons h₁ (c := mark) rfl r⟩
    fun _ h₂ _ _ => ?_
  refine W.finishMFALogin h₂ fun _ user now _ _ _ hgate h₃ => ?_
  obtain ⟨hbanned, hopen⟩ := of_mfaAccountGate hgate
  refine startSession_signing ⟨user, now,
    .inr ⟨input.token.subject, ?_, .inr rfl⟩, hbanned, ?_, hopen⟩ h₃
  · exact mem_cons_of_mem _ (mem_cons_self ..)
  · exact mem_cons_self ..

theorem oauthSession_vetted (u : UserID) (fp : FingerprintInput) (authTime : Time) (jkt : String) :
    (oauthSession cfg u fp authTime jkt).Obeys (signing vetted) (Granted vetted) [] := by
  refine (signWalk vetted).oauthSession unstored_nil fun _ acct now h a hbanned hopen => ?_
  refine oauthTokens_signing _ _ _ _
    (vetted.mono a.1 ⟨acct, now, .inr ⟨u, ?_, .inl rfl⟩, hbanned, ?_, hopen⟩) h
  · exact mem_cons_of_mem _ (mem_cons_self ..)
  · exact mem_cons_self ..

/-- The access token of a callback names the account. -/
def Names (u : UserID) : Except AuthError LoginResult → Prop
  | .ok (.session accessToken _ _ _) => accessToken.subject = u
  | _ => True

theorem oauthSession_names (u : UserID) (fp : FingerprintInput) (authTime : Time) (jkt : String) :
    (oauthSession cfg u fp authTime jkt).Yields (Names u) := by
  have tokens : ∀ now, (oauthTokens cfg u fp authTime now jkt).Yields (Names u) := by
    intro now
    refine issueTokenPairWithAuth_subject.bind fun pair hsub => yields_bind fun r => ?_
    cases r with
    | error => trivial
    | ok =>
    refine yields_bind fun deviceID => yields_bind fun r => ?_
    cases r with
    | error => trivial
    | ok => exact yields_bind fun now => hsub
  refine yields_bind fun r => ?_
  rcases r with e | _ | acct
  · trivial
  · trivial
  refine yields_bind fun now => ?_
  split_ifs with h₁ h₂ h₃ h₄
  · trivial
  · trivial
  · trivial
  · trivial
  refine yields_bind fun locked => ?_
  split
  · trivial
  · exact tokens now

/-- The end of a callback: what is put behind the code is the token of an account that was
vetted. -/
theorem handOver_vetted (u : UserID) (fp : FingerprintInput) (authTime : Time) (jkt : String)
    {r : Except AuthError LoginResult} (hr : Granted vetted φ r) (hu : Names u r) :
    (OAuthHandler.handOver u fp r).Obeys (signing vetted)
      (Entitled vetted (.oauth u fp authTime jkt)) φ := by
  rcases r with e | result
  · exact hr
  cases result with
  | challenge | decoy => exact hr
  | session accessToken =>
    obtain rfl : accessToken.subject = u := hu
    refine obeys_neutral_then auditLog_neutral fun φ₁ _ h₁ => ?_
    refine obeys_neutral_then (.call ⟨rfl, trivial⟩) fun φ₂ code h₂ => ?_
    have hclear := vetted.mono h₂ (vetted.mono h₁ hr)
    refine .call ?_ fun r _ => ?_
    · rintro token ⟨⟩
      exact hclear
    · rintro _ _ _ _ ⟨⟩
      exact vetted.mono (subset_cons_self _ _) hclear

/-- `Exchange` answers with what was behind the code. -/
theorem exchange_vetted (code : UUID) (fp : FingerprintInput) :
    (OAuthHandler.exchange code fp).Obeys (signing vetted)
      (fun ψ r => ∀ token, r = some token → Taken ψ token) [] := by
  refine .call trivial fun r _ => ?_
  split
  next token =>
    rintro _ ⟨⟩
    exact ⟨code, _, mem_cons_self ..⟩
  next => nofun

/-! ### Rotating -/

/-- A rotation goes on only past an account that was read again and may hold a session. -/
theorem accountStillHoldsSessions_vetted (stored : RefreshToken) (hφ : Unstored φ) :
    (accountStillHoldsSessions stored).Obeys (signing vetted)
      (fun ψ r => Unstored ψ ∧ ∀ user, r = .ok user → vetted.clears ψ stored.userID) φ := by
  have refused : ∀ e ψ, Unstored ψ → (accountStillHoldsSessions.refuse stored e).Obeys
      (signing vetted)
      (fun ψ r => Unstored ψ ∧ ∀ user, r = .ok user → vetted.clears ψ stored.userID) ψ :=
    fun e ψ hψ =>
      obeys_neutral_bind (lockThenWrite_within reviews_neutral.revoking _) hψ
        fun χ _ _ hχ => ⟨hχ, nofun⟩
  refine .call trivial fun r _ => ?_
  have hφ₁ := hφ.cons (c := .getByID stored.userID) rfl r
  rcases r with e | _ | user
  · exact refused _ _ hφ₁
  · exact refused _ _ hφ₁
  refine .call trivial fun now _ => ?_
  have hφ₂ := hφ₁.cons (c := .now) rfl now
  split
  next hok =>
    simp only [Bool.and_eq_true, Bool.not_eq_true'] at hok
    refine ⟨hφ₂, fun _ _ => ⟨user, now, .inr ⟨_, ?_, .inl rfl⟩, hok.1.1.2, ?_, hok.2⟩⟩
    · exact mem_cons_of_mem _ (mem_cons_self ..)
    · exact mem_cons_self ..
  next =>
    refine .ite (refused _ _ hφ₂) (.ite (refused _ _ hφ₂) (.ite (refused _ _ hφ₂) ?_))
    exact refused _ _ hφ₂

theorem issueRotatedPair_subject {jkt : String} {u : UserID} {roles scopes : List String}
    {clientID : String} {fp : Fingerprint} {family : UUID} {origin : Time} :
    (TokenService.issueRotatedPair cfg jkt u roles scopes clientID fp family origin).Yields
      fun pair => pair.accessToken.subject = u := by
  intro now jti refreshToken
  exact rfl

theorem issueRotatedPair_neutral {jkt : String} {u : UserID} {roles scopes : List String}
    {clientID : String} {fp : Fingerprint} {family : UUID} {origin : Time} :
    (TokenService.issueRotatedPair cfg jkt u roles scopes clientID fp family origin).Within
      Neutral :=
  .bind (within_neutral_empty (TokenService.issueTokenPairWithAuth_clerical _ _ _ _ _ _ _ _ _ _))
    fun _ => trivial

/-- The successor is stored for the account that was vetted, and the pair names it. -/
theorem issueRotatedPair_vetted (stored : RefreshToken) (roles : List String) (fp : Fingerprint)
    (origin : Time) (h : vetted.clears φ stored.userID) (hφ : Unstored φ) :
    (issueRotatedPair cfg stored roles fp origin).Obeys (signing vetted)
      (fun ψ r => ∀ pair, r = .ok pair → vetted.clears ψ pair.accessToken.subject) φ := by
  refine ((obeys_of_neutral issueRotatedPair_neutral).and_yields
    issueRotatedPair_subject).bind ?_
  rintro φ₁ pair ⟨⟨h₁, hφ₁⟩, hsub⟩
  refine obeys_neutral_bind (.call ⟨rfl, trivial⟩) (hφ₁ hφ) fun φ₂ newID h₂ hφ₂ => ?_
  refine obeys_neutral_bind (.call ⟨rfl, trivial⟩) hφ₂ fun φ₃ now h₃ hφ₃ => ?_
  have hu := vetted.mono h₃ (vetted.mono h₂ (vetted.mono h₁ h))
  refine .call ⟨hu, hφ₃⟩ fun r _ => ?_
  rcases r with e | _ | _
  · rintro pair ⟨⟩
  · rintro pair ⟨⟩
    rw [hsub]
    exact vetted.mono (subset_cons_self _ _) hu
  · refine obeys_neutral_then (lockThenWrite_within reviews_neutral.revoking _) fun _ _ _ => ?_
    refine obeys_neutral_then auditLog_neutral fun _ _ _ => ?_
    rintro pair ⟨⟩

/-- An answer with a pair is given only to an account that was vetted. -/
def Renewed (T : Terms vault) (ψ : List (Event vault)) (r : Except AuthError RefreshResult) :
    Prop :=
  ∀ result, r = .ok result → T.clears ψ result.accessToken.subject

theorem spend_vetted (stored : RefreshToken) (fp : Fingerprint) (origin : Time) (hφ : Unstored φ) :
    (spend cfg stored fp origin).Obeys (signing vetted) (Renewed vetted) φ := by
  refine obeys_neutral_bind (.call ⟨rfl, trivial⟩) hφ fun φ₁ r _ hφ₁ => ?_
  rcases r with e | _ | _
  · rintro result ⟨⟩
  · refine obeys_neutral_then (containRefreshReuse_within reviews_neutral _ _) fun _ _ _ => ?_
    rintro result ⟨⟩
  refine (accountStillHoldsSessions_vetted stored hφ₁).bind ?_
  rintro φ₂ r ⟨hφ₂, hclear⟩
  cases r with
  | error => rintro result ⟨⟩
  | ok user =>
  refine obeys_neutral_bind (within_neutral_empty effectiveRoles_clerical) hφ₂
    fun φ₃ roles h₃ hφ₃ => ?_
  refine (issueRotatedPair_vetted stored roles fp origin
    (vetted.mono h₃ (hclear user rfl)) hφ₃).bind
    fun φ₄ r hr => ?_
  cases r with
  | error => rintro result ⟨⟩
  | ok pair =>
  refine obeys_neutral_then auditLog_neutral fun φ₅ _ h₅ => ?_
  refine obeys_neutral_then (.call ⟨rfl, trivial⟩) fun φ₆ now h₆ => ?_
  rintro result ⟨⟩
  exact vetted.mono h₆ (vetted.mono h₅ (hr pair rfl))

theorem refresh_vetted (input : RefreshInput) :
    (refresh cfg input).Obeys (signing vetted) (Renewed vetted) [] := by
  have refused : ∀ {α : Type} {p : Prog α} e ψ,
      p.Within Neutral →
        (p >>= fun _ => (pure (.error e) : Prog (Except AuthError RefreshResult))).Obeys
        (signing vetted) (Renewed vetted) ψ :=
    fun e ψ hp => obeys_neutral_then hp nofun
  have error : ∀ e ψ, Renewed vetted ψ (.error e) :=
    fun _ _ => nofun
  refine obeys_neutral_bind (.call ⟨rfl, trivial⟩) unstored_nil fun φ₁ r _ hφ₁ => ?_
  rcases r with e | _ | stored
  · exact error _ _
  · exact error _ _
  refine .ite (error _ _) (.ite (refused _ _ (containRefreshReuse_within reviews_neutral _ _)) ?_)
  -- the checks on the presented row
  refine obeys_neutral_bind (.call ⟨rfl, trivial⟩) hφ₁ fun φ₂ now _ hφ₂ => ?_
  refine .ite (error _ _) ?_
  refine obeys_neutral_bind (enforceSessionLifetime_within reviews_neutral stored) hφ₂
    fun φ₃ r _ hφ₃ => ?_
  cases r with
  | error => exact error _ _
  | ok origin =>
  refine obeys_neutral_bind (enforceSessionInactivity_within reviews_neutral stored) hφ₃
    fun φ₄ r _ hφ₄ => ?_
  cases r with
  | error => exact error _ _
  | ok =>
  refine .ite ?_ ?_
  · refine (obeys_of_neutral (lockThenWrite_within reviews_neutral.revoking _)).bind
      fun _ _ _ => ?_
    exact refused _ _ auditLog_neutral
  refine obeys_neutral_bind (within_neutral_empty (enforceDPoPBinding_clerical stored input.jkt))
    hφ₄ fun φ₅ r _ hφ₅ => ?_
  cases r with
  | error => exact error _ _
  | ok => exact spend_vetted stored _ origin hφ₅

/-! ### Every request -/

theorem updatePassword_neutral (u : UserID) (newPassword : String) :
    (PasswordHandler.updatePassword cfg u newPassword).Within Neutral := by
  refine PasswordHandler.updatePassword_within (neutral_of_clerical ?_) (fun _ _ => ⟨rfl, trivial⟩)
    (fun _ => ⟨rfl, trivial⟩) (fun _ => ⟨rfl, trivial⟩) reviews_neutral.revoking newPassword
  rintro jti (h | h | ⟨d, h⟩) <;> cases h

/-- **Every request stores and answers with tokens only for an account that was vetted.** -/
theorem serve_vetted (req : Req) :
    (serve cfg req).Obeys (signing vetted) (Entitled vetted req) [] := by
  have done : ∀ {α : Type} {p : Prog α} (f : α → Except AuthError Unit), p.Within Neutral →
      (p >>= fun a => (pure (.done (f a)) : Prog Response)).Obeys (signing vetted)
        (Entitled vetted req) [] :=
    fun f hp => obeys_neutral_then hp fun _ _ _ => trivial
  cases req with
  | login input => exact (login_vetted input).bind fun _ _ hr => hr
  | secondFactor input => exact (verifySecondFactor_vetted input).bind fun _ _ hr => hr
  | oauth u fp authTime jkt =>
    have named := (@oauthSession_vetted cfg u fp authTime jkt).and_yields
      (oauthSession_names u fp authTime jkt)
    exact named.bind fun _ r hr => handOver_vetted u fp authTime jkt hr.1 hr.2
  | exchange code fp =>
    refine (exchange_vetted code fp).bind fun ψ r hr => ?_
    cases r with
    | none => trivial
    | some token => exact hr token rfl
  | refresh input =>
    refine (refresh_vetted input).bind fun ψ r hr => ?_
    cases r with
    | error => trivial
    | ok result => exact hr result rfl
  | logout =>
    refine done id ((lockThenWrite_within reviews_neutral.revoking _).bind fun ok => ?_)
    exact .ite ((auditLog_neutral).bind fun _ => trivial) trivial
  | revoke sc => exact done _ (lockThenWrite_within reviews_neutral.revoking sc)
  | sweep =>
    refine done (fun _ => .ok ()) ?_
    have spent : Neutral (.tokens .deleteExpired) := ⟨rfl, trivial⟩
    have unused : Neutral (.tokens .deleteExpiredUnused) := ⟨rfl, trivial⟩
    exact (reapLoop_within spent _ _).bind fun _ => reapLoop_within unused _ _
  | updatePassword u newPassword => exact done id (updatePassword_neutral u newPassword)

/-- **In every run a request is about to store a refresh token only for an account that it has
vetted**, and only once. -/
theorem stores_only_vetted {Init : World → Prop}
    {ok : Config (service cfg) → Label (service cfg) → Prop}
    {c : Config (service cfg)} {t : ℕ} {th : Thread (service cfg)} {tok : RefreshToken}
    (hc : Reachable Init ok c) (hth : c.threads[t]? = some th)
    (hpend : th.pending = some (.tokens (.create tok)) ∨
      th.pending = some (.tokens (.insertInTxn tok))) :
    vetted.clears th.past tok.userID ∧ Unstored th.past := by
  rcases hpend with h | h <;> exact hc.allows_history hth (serve_vetted th.req) h

end Walks

/-- `alice` has logged in, but for the last write. -/
def Sample.storing : Config (service settings) :=
  (execAll (fun _ _ => true) ⟨world, []⟩
    ([.spawn (.login loginInput)] ++ .replicate 23 (.act 0))).getD ⟨world, []⟩

theorem login_stores_vetted :
    ∃ th, Sample.storing.threads[0]? = some th ∧ vetted.clears th.past "u" := by
  have hc : Reachable (fun _ => True) anyStep Sample.storing :=
    ⟨_, trivial, run_execAll (fun _ _ _ => trivial) _ _⟩
  obtain ⟨th, tok, hth, hpend, hu⟩ : ∃ th tok, Sample.storing.threads[0]? = some th ∧
      th.pending = some (.tokens (.create tok)) ∧ tok.userID = "u" := ⟨_, _, rfl, rfl, rfl⟩
  exact ⟨th, hth, hu ▸ (stores_only_vetted hc hth (.inl hpend)).1⟩

end Vault42
