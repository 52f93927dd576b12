import Vault42.OAuth.Callback

/-!
# Who is linked to whom

A row of `auth.social_accounts` signs its provider's subject in for good, so what matters is when a
callback writes one. `callback_conduct` is about every run: the account is one the callback created
or one whose address it read as verified, and the account gate was passed before the write.

A callback that has created an account or written a link can still end in an error: nothing joins
the two insertions to each other or to what follows, and nothing takes them back. `callback_kept`
says when that does not happen. Its rely is `Hosted`: a callback that has written something is
refused nothing afterwards (`Favourable`). `Sample.orphaned_account` is a run with one failure of
the store in which an account stays behind.
-/

namespace Vault42.OAuth

open Framework Program List AuthService

/-- The conversation of a handler. -/
abbrev Past := List (Event web)

/-! ### Before a link is written -/

/-- The exchange in which an account was created. -/
abbrev creating (x : User) : Event web := ⟨.inr (.createUser x), .ok ()⟩

/-- The exchange in which a link was written. -/
abbrev linking (a : SocialAccount) : Event web := ⟨.inr (.createLink a), .ok ()⟩

/-- The account is one this callback created, or one it found under the address the provider vouched
for, itself verified. -/
def Vouched (env : Federation) (info : UserInfo) (φ : Past) (u : UserID) : Prop :=
  (∃ x, creating x ∈ φ ∧ x.id = u) ∨
    info.emailVerified ∧
      ∃ x, ⟨.inl (.getByEmail (providerEmail env info)), .ok (some x)⟩ ∈ φ ∧ x.id = u ∧
        x.emailVerified

/-- The account was read, and was neither deleted nor banned nor disabled nor locked, be it by an
operator or by failed attempts. -/
def ReadClear (cfg : Settings) (ip : IPAddr) (φ : Past) (u : UserID) : Prop :=
  ∃ x now, ⟨.inl (.getByID u), .ok (some x)⟩ ∈ φ ∧ ⟨.inl .now, now⟩ ∈ φ ∧ x.deleted = false ∧
    x.banned = false ∧ x.disabled = false ∧ x.lockedAt now = false ∧
    ∃ ψ χ, (mfaVerifyLocked cfg x.id ip).inl.Leads ψ false χ ∧ χ ⊆ φ

/-- What a callback may write as a link, and when. -/
def MayLink (cfg : Settings) (env : Federation) (input : CallbackInput) (φ : Past)
    (a : SocialAccount) : Prop :=
  a.provider = input.provider ∧ a.providerUserID = input.info.id ∧
    Vouched env input.info φ a.userID ∧ ReadClear cfg input.fp.ip φ a.userID

section Conduct

variable {cfg : Settings} {env : Federation} {input : CallbackInput} {φ ψ : Past} {u : UserID}

theorem Vouched.mono {info : UserInfo} (hφ : φ ⊆ ψ) (h : Vouched env info φ u) :
    Vouched env info ψ u := by
  rcases h with ⟨x, hx, hid⟩ | ⟨hinfo, x, hx, hid, hver⟩
  · exact .inl ⟨x, hφ hx, hid⟩
  · exact .inr ⟨hinfo, x, hφ hx, hid, hver⟩

theorem ReadClear.mono {ip : IPAddr} (hφ : φ ⊆ ψ) (h : ReadClear cfg ip φ u) :
    ReadClear cfg ip ψ u := by
  obtain ⟨x, now, hx, hnow, hdel, hban, hdis, hlock, χ, χ', hlead, hsub⟩ := h
  exact ⟨x, now, hφ hx, hφ hnow, hdel, hban, hdis, hlock, χ, χ', hlead, fun _ he => hφ (hsub he)⟩

/-- The rule of the callbacks. -/
def Conduct (cfg : Settings) (env : Federation) (input : CallbackInput) (φ : Past) : web.Call → Prop
  | .inr (.createLink a) => MayLink cfg env input φ a
  | _ => True

/-- A call of the service's own is none of the rule's business. -/
theorem conduct_inl (φ : Past) (c : Call) : Conduct cfg env input φ (.inl c) := trivial

theorem linkedAccount_conduct :
    (linkedAccount env input).Obeys (.history (Conduct cfg env input)) (fun _ _ => True) φ := by
  refine .ite ?_ trivial
  refine .call trivial fun r _ => ?_
  rcases r with e | _ | a <;> trivial

/-- An account that may be taken is vouched for. -/
theorem adopt_vouched {x : User} (h : adopt input.info x = .ok u)
    (hx : ⟨.inl (.getByEmail (providerEmail env input.info)), .ok (some x)⟩ ∈ φ) :
    Vouched env input.info φ u := by
  unfold adopt linkableToExistingAccount at h
  split at h
  next hboth =>
    obtain ⟨hinfo, hver⟩ := Bool.and_eq_true_iff.mp hboth
    exact .inr ⟨hinfo, x, hx, Except.ok.inj h, hver⟩
  · cases h

theorem createOrAdopt_conduct :
    (createOrAdopt input.info (providerEmail env input.info)).Obeys
      (.history (Conduct cfg env input))
      (fun ψ r => ∀ u, r = .ok u → Vouched env input.info ψ u) φ := by
  refine .call trivial fun newID _ => ?_
  refine .call trivial fun r _ => ?_
  rcases r with e | _
  · cases e with
    | backend => exact nofun
    | uniqueViolation =>
    -- the address was taken meanwhile: the row is read again, and judged like the first
    refine .call trivial fun r _ => ?_
    rcases r with e | _ | x
    · exact nofun
    · exact nofun
    · exact fun u h => adopt_vouched h (mem_cons_self ..)
  · intro u h
    exact .inl ⟨_, mem_cons_self .., Except.ok.inj h⟩

theorem accountByEmail_conduct :
    (accountByEmail input.info (providerEmail env input.info)).Obeys
      (.history (Conduct cfg env input))
      (fun ψ r => ∀ u, r = .ok u → Vouched env input.info ψ u) φ := by
  refine .ite nofun ?_
  refine .call trivial fun r _ => ?_
  rcases r with e | _ | x
  · exact nofun
  · exact createOrAdopt_conduct
  · exact fun u h => adopt_vouched h (mem_cons_self ..)

theorem writeLink_conduct {link : Bool} (hlink : link → Vouched env input.info φ u)
    (hclear : ReadClear cfg input.fp.ip φ u) :
    (writeLink input u link).Obeys (.history (Conduct cfg env input)) (fun _ _ => True) φ := by
  unfold writeLink
  split
  next h =>
    refine .call trivial fun saID _ => ?_
    refine .call trivial fun now _ => ?_
    refine .call ?_ fun r _ => ?_
    · have hsub : φ ⊆ ⟨.inl .now, now⟩ :: ⟨.inl .random, saID⟩ :: φ :=
        subset_cons_of_subset _ (subset_cons_self _ _)
      exact ⟨rfl, rfl, (hlink h).mono hsub, hclear.mono hsub⟩
    · cases r <;> trivial
  · trivial

theorem issue_conduct :
    (issue cfg input u).Obeys (.history (Conduct cfg env input)) (fun _ _ => True) φ := by
  refine .call trivial fun now _ => ?_
  refine (obeys_inl conduct_inl _ _).bind fun ψ r _ => ?_
  rcases r with e | (⟨access, _, refresh, _⟩ | ⟨token, _⟩ | ⟨_, _, _⟩)
  · cases e <;> trivial
  · refine (obeys_inl conduct_inl _ _).bind fun ψ r _ => ?_
    exact .call trivial fun code _ => .call trivial fun _ _ => trivial
  · trivial
  · trivial

theorem linkAndIssue_conduct {link : Bool} (acct : User)
    (hlink : link → Vouched env input.info φ u) (hclear : ReadClear cfg input.fp.ip φ u) :
    (linkAndIssue cfg input u link acct).Obeys (.history (Conduct cfg env input)) (fun _ _ => True)
      φ := by
  refine (writeLink_conduct hlink hclear).bind fun ψ written _ => ?_
  refine .ite ?_ trivial
  refine .ite ?_ issue_conduct
  refine .call trivial fun r _ => ?_
  cases r with
  | error => trivial
  | ok => exact issue_conduct

theorem enter_conduct {link : Bool} (hlink : link → Vouched env input.info φ u) :
    (enter cfg input u link).Obeys (.history (Conduct cfg env input)) (fun _ _ => True) φ := by
  refine .ite trivial ?_
  refine .call trivial fun r _ => ?_
  rcases r with e | _ | acct
  · trivial
  · trivial
  refine .call trivial fun now _ => ?_
  split
  · trivial
  next hdel =>
  split
  · trivial
  next hban =>
  split
  · trivial
  next hdis =>
  split
  · trivial
  next hlock =>
  refine (obeys_inl conduct_inl _ _).bind fun ψ locked hlead => ?_
  have hsub : ⟨.inl .now, now⟩ :: ⟨.inl (.getByID u), .ok (some acct)⟩ :: φ ⊆ ψ :=
    hlead.suffix.subset
  obtain ⟨hnow, hsub⟩ := cons_subset.mp hsub
  obtain ⟨hread, hsub⟩ := cons_subset.mp hsub
  cases locked with
  | true => trivial
  | false =>
  refine linkAndIssue_conduct acct (fun h => (hlink h).mono hsub) ?_
  exact ⟨acct, now, hread, hnow, by simpa using hdel, by simpa using hban,
    by simpa using hdis, by simpa using hlock, _, _, hlead, Subset.refl _⟩

/-- **A callback writes a link only to an account that is its own or was found verified, and only
past the account gate.** -/
theorem callback_conduct (cfg : Settings) (env : Federation) (input : CallbackInput) :
    (callback cfg env input).Obeys (.history (Conduct cfg env input)) (fun _ _ => True) [] := by
  refine .ite trivial ?_
  refine linkedAccount_conduct.bind fun φ₁ r _ => ?_
  cases r with
  | error => trivial
  | ok =>
  refine .ite ?_ (enter_conduct nofun)
  refine accountByEmail_conduct.bind fun φ₂ r hr => ?_
  cases r with
  | error => trivial
  | ok u => exact enter_conduct fun _ => hr u rfl

end Conduct

/-! ### After something was written -/

/-- The callback has created an account or written a link. -/
def Wrote (φ : Past) : Prop := (∃ x, creating x ∈ φ) ∨ ∃ a, linking a ∈ φ

@[simp] theorem not_wrote_nil : ¬ Wrote [] := by
  rintro (⟨x, h⟩ | ⟨a, h⟩) <;> cases h

@[simp] theorem wrote_inl {c : Call} {r : c.Reply} {φ : Past} :
    Wrote (⟨.inl c, r⟩ :: φ) ↔ Wrote φ := by
  simp [Wrote]

theorem wrote_createUser_error {x : User} {e : StoreError} {φ : Past} :
    Wrote (⟨.inr (.createUser x), .error e⟩ :: φ) ↔ Wrote φ := by
  simp [Wrote]

theorem wrote_createLink_error {a : SocialAccount} {e : StoreError} {φ : Past} :
    Wrote (⟨.inr (.createLink a), .error e⟩ :: φ) ↔ Wrote φ := by
  simp [Wrote]

/-- A row that the account gate lets through and that no lock is on. -/
structure InGoodStanding (x : User) : Prop where
  deleted : x.deleted = false
  banned : x.banned = false
  disabled : x.disabled = false
  lockedUntil : x.lockedUntil = none
  failedLoginCount : x.failedLoginCount < lockoutThreshold

/-- The reply does not make a callback fail: the account is there and in good standing, its lockout
counters are below their thresholds and its sessions below the cap, and the write went through. -/
def Favourable (cfg : Settings) : (c : web.Call) → web.Reply c → Prop
  | .inl (.getByID _), r => ∃ x, r = .ok (some x) ∧ InGoodStanding x
  | .inl (.cacheGet (.sourceLockout _ _ _)), r =>
    ∀ v, r = .ok (some v) → v.parseInt < lockoutThreshold
  | .inl (.cacheGet (.accountLockout _)), r =>
    ∀ v, r = .ok (some v) → v.parseInt < distributedLockoutThreshold
  | .inl (.clearImportPending _), r => r = .ok ()
  | .inl (.tokens (.countActiveFamilies _)), r => ∃ n, r = .ok n ∧ n < cfg.maxSessionsPerUser
  | .inl (.tokens .begin), r => r = .ok ()
  | .inl (.tokens (.lockSessions _)), r => r = .ok ()
  | .inl (.tokens (.countInTxn _)), r => ∃ n, r = .ok n ∧ n < cfg.maxSessionsPerUser
  | .inl (.tokens (.insertInTxn _)), r => r = .ok .inserted
  | .inl (.tokens (.create _)), r => r = .ok .inserted
  | .inl (.tokens .commit), r => r = .ok ()
  | .inr (.createLink _), r => r = .ok ()
  | _, _ => True

/-- **The rely of the callbacks**: one that has written something gets favourable replies only. -/
abbrev hosted (cfg : Settings) : Discipline web where
  Phase := Past
  start := []
  Allows _ _ := True
  Admits φ c r := Wrote φ → Favourable cfg c r
  next φ c r := ⟨c, r⟩ :: φ

/-- The service's own calls, with favourable replies. -/
abbrev favoured (cfg : Settings) : Discipline vault where
  Phase := Unit
  start := ()
  Allows _ _ := True
  Admits _ c r := Favourable cfg (.inl c) r
  next _ _ _ := ()

section Kept

variable {cfg : Settings} {env : Federation} {input : CallbackInput} {φ ψ : Past} {u : UserID}

/-- A part of the callback that writes nothing itself: what it gives under favourable replies it
gives to a callback that has written something. -/
theorem hosted_inl {α : Type} {P : α → Prop} {p : Prog α}
    (h : p.Obeys (favoured cfg) (fun _ => P) ()) :
    p.inl.Obeys (hosted cfg) (fun ψ a => Wrote ψ → Wrote φ ∧ P a) φ := by
  have hpre : Wrote φ → p.Obeys (favoured cfg) (fun _ => P) () := fun _ => h
  clear h
  induction p generalizing φ with
  | ret => exact fun hφ => ⟨hφ, hpre hφ⟩
  | call c k ih =>
    refine ⟨trivial, fun r hr => ?_⟩
    refine (ih r fun hφ => ?_).mono fun ψ a ha hψ => ?_
    · rw [wrote_inl] at hφ
      exact (hpre hφ).2 r (hr hφ)
    · exact (ha hψ).imp_left wrote_inl.mp

theorem cachedCount_favoured (cfg : Settings) {k : CacheKey} {n : ℕ} (hn : 0 < n)
    (hk : ∀ r, Favourable cfg (.inl (.cacheGet k)) r → ∀ v, r = .ok (some v) → v.parseInt < n) :
    (cachedCount k).Obeys (favoured cfg) (fun _ o => ∀ m, o = some m → m < n) () := by
  refine .call trivial fun r hr => ?_
  rcases r with e | _ | v
  · exact nofun
  · rintro m ⟨⟩
    exact hn
  · rintro m ⟨⟩
    exact hk _ hr v rfl

theorem lockedByStoredCount_favoured (cfg : Settings) (u : UserID) :
    (lockedByStoredCount u).Obeys (favoured cfg) (fun _ b => b = false) () := by
  refine .call trivial fun r hr => ?_
  obtain ⟨x, rfl, hx⟩ := hr
  simpa using hx.failedLoginCount

theorem isAccountLocked_favoured (u : UserID) (ip : IPAddr) :
    (isAccountLocked cfg u ip).Obeys (favoured cfg) (fun _ b => b = false) () := by
  have stored := lockedByStoredCount_favoured cfg u
  unfold isAccountLocked
  refine .ite stored ?_
  refine (obeys_of_allows (fun _ _ => trivial) _).bind fun _ unwritable _ => ?_
  refine (obeys_of_allows (fun _ _ => trivial) _).bind fun _ generation _ => ?_
  rcases generation with _ | generation
  · exact stored
  have source := cachedCount_favoured cfg (k := .sourceLockout u ip generation)
    (n := lockoutThreshold) (by decide) fun r hr => hr
  refine source.bind fun _ perSource hsource => ?_
  rcases perSource with _ | perSource
  · exact stored
  refine .ite stored ?_
  split
  next h => exact absurd (hsource _ rfl) (by omega)
  have overall := cachedCount_favoured cfg (k := .accountLockout u)
    (n := distributedLockoutThreshold) (by decide) fun r hr => hr
  refine overall.bind fun _ account haccount => ?_
  rcases account with _ | account
  · exact stored
  refine .ite stored ?_
  simpa using haccount _ rfl

theorem createWithinCap_favoured {tok : RefreshToken} :
    (RefreshTokenRepo.createWithinCap tok cfg.maxSessionsPerUser).Obeys (favoured cfg)
      (fun _ r => r = .created) () := by
  refine .ite ?_ ?_
  · refine .call trivial fun r hr => ?_
    obtain rfl : r = .ok .inserted := hr
    rfl
  refine .call trivial fun r hr => ?_
  obtain rfl : r = .ok () := hr
  refine .call trivial fun r hr => ?_
  obtain rfl : r = .ok () := hr
  refine .call trivial fun r hr => ?_
  obtain ⟨n, rfl, hn⟩ := hr
  dsimp only
  rw [if_neg (by lia)]
  refine .call trivial fun r hr => ?_
  obtain rfl : r = .ok .inserted := hr
  refine .call trivial fun r hr => ?_
  obtain rfl : r = .ok () := hr
  rfl

theorem checkSessionLimit_favoured (u : UserID) :
    (checkSessionLimit cfg u).Obeys (favoured cfg) (fun _ r => r = .ok ()) () := by
  refine .ite rfl ?_
  refine .call trivial fun r hr => ?_
  obtain ⟨n, rfl, hn⟩ := hr
  dsimp only
  rw [if_neg (by lia)]
  rfl

/-- A challenge or a session comes out. -/
def Signed (r : Except AuthError AuthService.LoginResult) : Prop :=
  (∃ token methods, r = .ok (.challenge token methods)) ∨
    ∃ access life refresh age, r = .ok (.session access life refresh age)

theorem oauthTokens_favoured (u : UserID) (fp : FingerprintInput) (authTime now : Time)
    (jkt : String) :
    (oauthTokens cfg u fp authTime now jkt).Obeys (favoured cfg) (fun _ => Signed)
      () := by
  refine (obeys_of_allows (fun _ _ => trivial) _).bind fun _ pair _ => ?_
  refine (checkSessionLimit_favoured u).bind fun _ r hr => ?_
  subst hr
  refine (obeys_of_allows (fun _ _ => trivial) _).bind fun _ deviceID _ => ?_
  have stored : (storeRefreshToken cfg jkt u "" deviceID (computeFingerprint fp) pair).Obeys
      (favoured cfg) (fun _ r => r = .ok ()) () := by
    refine .call trivial fun rtID _ => .call trivial fun now _ => ?_
    refine (createWithinCap_favoured).bind fun _ r hr => ?_
    subst hr
    rfl
  refine stored.bind fun _ r hr => ?_
  subst hr
  exact .call trivial fun now _ => Or.inr ⟨_, _, _, _, rfl⟩

theorem secondFactorOrTokens_favoured (u : UserID) (fp : FingerprintInput) (authTime now : Time)
    (jkt : String) :
    (OAuthHandler.secondFactorOrTokens cfg u fp authTime now jkt).Obeys (favoured cfg)
      (fun _ => Signed) () := by
  refine .ite ?_ (oauthTokens_favoured u fp authTime now jkt)
  refine (obeys_of_allows (fun _ _ => trivial) _).bind fun _ required _ => ?_
  refine .ite ?_ (oauthTokens_favoured u fp authTime now jkt)
  refine (obeys_of_allows (fun _ _ => trivial) _).bind fun _ token _ => ?_
  exact (obeys_of_allows (fun _ _ => trivial) _).bind fun _ _ _ => Or.inl ⟨_, _, rfl⟩

/-! ### The callback under its rely -/

/-- What a callback promises: an error, and nothing written. -/
def Kept {ε α : Type} (ψ : Past) (r : Except ε α) : Prop := ∀ e, r = .error e → ¬ Wrote ψ

theorem kept_ok {ε α : Type} {a : α} : Kept ψ (.ok a : Except ε α) := nofun

theorem kept_error {ε α : Type} {e : ε} (h : ¬ Wrote ψ) : Kept ψ (.error e : Except ε α) :=
  fun _ _ => h

theorem issue_kept : (issue cfg input u).Obeys (hosted cfg) Kept φ := by
  refine .call trivial fun now _ => ?_
  refine (hosted_inl (secondFactorOrTokens_favoured u input.fp input.info.authTime now
    input.jkt)).bind fun ψ r hr => ?_
  rcases r with e | (⟨access, _, refresh, _⟩ | ⟨token, _⟩ | ⟨_, _, _⟩)
  · have hno : ¬ Wrote ψ := by
      intro hψ
      rcases (hr hψ).2 with ⟨_, _, h⟩ | ⟨_, _, _, _, h⟩ <;> cases h
    cases e <;> exact kept_error hno
  · refine (obeys_of_allows (fun _ _ => trivial) _).bind fun ψ _ _ => ?_
    refine .call trivial fun code _ => .call trivial fun _ _ => ?_
    exact kept_ok
  · exact kept_ok
  · refine kept_error fun hψ => ?_
    rcases (hr hψ).2 with ⟨_, _, h⟩ | ⟨_, _, _, _, h⟩ <;> cases h

theorem writeLink_kept {link : Bool} :
    (writeLink input u link).Obeys (hosted cfg)
      (fun ψ written => written = false → ¬ Wrote ψ) φ := by
  refine .ite ?_ nofun
  refine .call trivial fun saID _ => .call trivial fun now _ => ?_
  refine .call trivial fun r hr => ?_
  cases r with
  | ok => exact nofun
  | error =>
    -- a refused write: had anything been written before, it would not have been refused
    intro _ hψ
    cases hr (wrote_createLink_error.mp hψ)

theorem linkAndIssue_kept {link : Bool} (acct : User) :
    (linkAndIssue cfg input u link acct).Obeys (hosted cfg) Kept φ := by
  refine writeLink_kept.bind fun ψ written hwritten => ?_
  cases written with
  | false => exact kept_error (hwritten rfl)
  | true =>
  rw [if_pos rfl]
  refine .ite ?_ issue_kept
  refine .call trivial fun r hr => ?_
  cases r with
  | ok => exact issue_kept
  | error =>
    refine kept_error fun hψ => ?_
    rw [wrote_inl] at hψ
    cases hr hψ

theorem enter_kept {link : Bool} (hu : Wrote φ → u ≠ "") :
    (enter cfg input u link).Obeys (hosted cfg) Kept φ := by
  unfold enter
  split
  next h => exact kept_error fun hφ => hu hφ h
  refine .call trivial fun r hr => ?_
  -- what the gate refuses was not read in good standing, so nothing has been written
  have refused : ∀ {e}, (¬ ∃ x, r = .ok (some x) ∧ InGoodStanding x) →
      Kept (⟨.inl (.getByID u), r⟩ :: φ) (.error e : Except CallbackError Redirect) :=
    fun hr' => kept_error fun hψ => hr' (hr (wrote_inl.mp hψ))
  rcases r with e | _ | acct
  · exact refused fun ⟨_, h, _⟩ => nomatch h
  · exact refused fun ⟨_, h, _⟩ => nomatch h
  refine .call trivial fun now _ => ?_
  have refused : ∀ {e}, ¬ InGoodStanding acct →
      Kept (⟨.inl .now, now⟩ :: ⟨.inl (.getByID u), .ok (some acct)⟩ :: φ)
        (.error e : Except CallbackError Redirect) := by
    refine fun hacct => kept_error fun hψ => ?_
    rw [wrote_inl, wrote_inl] at hψ
    obtain ⟨x, hx, hgood⟩ := hr hψ
    cases hx
    exact hacct hgood
  split
  next h => exact refused fun hgood => by simp [hgood.deleted] at h
  split
  next h => exact refused fun hgood => by simp [hgood.banned] at h
  split
  next h => exact refused fun hgood => by simp [hgood.disabled] at h
  split
  next h => exact refused fun hgood => by simp [User.lockedAt, hgood.lockedUntil] at h
  refine (hosted_inl (isAccountLocked_favoured acct.id input.fp.ip)).bind fun ψ locked hlocked => ?_
  cases locked with
  | false => exact linkAndIssue_kept acct
  | true => exact kept_error fun hψ => nomatch (hlocked hψ).2

/-- What the search for the account promises: an error and nothing written, or an account, and one
with a name where a row was written. -/
def Found (ψ : Past) (r : Except CallbackError UserID) : Prop :=
  Kept ψ r ∧ ∀ u, r = .ok u → Wrote ψ → u ≠ ""

theorem found_error {e : CallbackError} (h : ¬ Wrote ψ) : Found ψ (.error e) :=
  ⟨kept_error h, nofun⟩

theorem found_adopt (h : ¬ Wrote ψ) (info : UserInfo) (x : User) : Found ψ (adopt info x) :=
  ⟨fun _ _ => h, fun _ _ hψ => absurd hψ h⟩

theorem createOrAdopt_kept (hφ : ¬ Wrote φ) (info : UserInfo) (email : String) :
    (createOrAdopt info email).Obeys (hosted cfg) Found φ := by
  refine .call trivial fun newID _ => ?_
  refine .call trivial fun r _ => ?_
  rcases r with e | _
  · have hno : ∀ {x : User},
        ¬ Wrote (⟨.inr (.createUser x), .error e⟩ :: ⟨.inl .random, newID⟩ :: φ) := by
      intro x
      rwa [wrote_createUser_error, wrote_inl]
    cases e with
    | backend => exact found_error hno
    | uniqueViolation =>
    refine .call trivial fun r _ => ?_
    rcases r with e | _ | x
    · exact found_error (wrote_inl.not.mpr hno)
    · exact found_error (wrote_inl.not.mpr hno)
    · exact found_adopt (wrote_inl.not.mpr hno) info x
  · refine ⟨kept_ok, ?_⟩
    rintro u ⟨⟩ -
    exact Nat.repr_ne_empty

theorem accountByEmail_kept (hφ : ¬ Wrote φ) (info : UserInfo) (email : String) :
    (accountByEmail info email).Obeys (hosted cfg) Found φ := by
  refine .ite (found_error hφ) ?_
  refine .call trivial fun r _ => ?_
  rcases r with e | _ | x
  · exact found_error (wrote_inl.not.mpr hφ)
  · exact createOrAdopt_kept (wrote_inl.not.mpr hφ) info email
  · exact found_adopt (wrote_inl.not.mpr hφ) info x

theorem linkedAccount_kept (hφ : ¬ Wrote φ) :
    (linkedAccount env input).Obeys (hosted cfg) (fun ψ _ => ¬ Wrote ψ) φ := by
  refine .ite ?_ hφ
  refine .call trivial fun r _ => ?_
  have hno : ¬ Wrote (⟨.inr (.getByProviderAndID input.provider input.info.id), r⟩ :: φ) := by
    simpa [Wrote] using hφ
  rcases r with e | _ | a
  · exact hno
  · exact hno
  · exact hno

/-- **A callback that is refused nothing once it has written something ends in an error only if it
has written nothing.** -/
theorem callback_kept (cfg : Settings) (env : Federation) (input : CallbackInput) :
    (callback cfg env input).Obeys (hosted cfg) Kept [] := by
  refine .ite (kept_error not_wrote_nil) ?_
  refine (linkedAccount_kept not_wrote_nil).bind fun φ₁ r hφ₁ => ?_
  cases r with
  | error => exact kept_error hφ₁
  | ok =>
  refine .ite ?_ (enter_kept fun h => absurd h hφ₁)
  refine (accountByEmail_kept hφ₁ _ _).bind fun φ₂ r hr => ?_
  cases r with
  | error e => exact kept_error (hr.1 e rfl)
  | ok u => exact enter_kept (hr.2 u rfl)

end Kept

/-! ### Every run -/

section Runs

variable {cfg : Settings} {env : Federation}

/-- A callback that has written something is refused nothing by the step: the state it asks has a
favourable answer, and a failure is one it can do without. -/
def Hosted (c : Config (federated cfg env)) : Label (federated cfg env) → Prop
  | .act t => ∀ th input cl,
      c.threads[t]? = some th → th.req = .inr (.callback input) → Wrote th.past →
      th.pending = some cl → Favourable cfg cl ((federated cfg env).answer t cl c.world).1
  | .fault t => ∀ th input cl,
      c.threads[t]? = some th → th.req = .inr (.callback input) → Wrote th.past →
      th.pending = some cl → ∀ r, (federated cfg env).Fault cl r → Favourable cfg cl r
  | _ => True

/-- The call writes no link. -/
def NoLink (c : web.Call) : Prop := ∀ a, c ≠ .inr (.createLink a)

theorem noLink_inl (c : Call) : NoLink (.inl c) := by
  rintro a ⟨⟩

/-- The rule of every request: only callbacks write links. -/
def Rule (cfg : Settings) (env : Federation) : (federated cfg env).Req → Past → web.Call → Prop
  | .inr (.callback input) => Conduct cfg env input
  | _ => fun _ => NoLink

theorem register_rule (input : RegisterInput) (φ : Past) :
    (register cfg env input).Obeys (.history fun _ => NoLink) (fun _ _ => True) φ := by
  -- of the handlers' own calls it makes three, none of them the insertion of a link
  have create (x : User) : NoLink (.inr (.createUser x)) := nofun
  have audit (u : UserID) : NoLink (.inr (.auditRegistration u)) := nofun
  have send (email : String) (u : UserID) : NoLink (.inr (.sendSignupVerification email u)) :=
    nofun
  refine .ite trivial (.ite trivial ?_)
  refine (obeys_inl (fun _ => noLink_inl) _ _).bind fun ψ breached _ => ?_
  refine .ite trivial ?_
  refine .call (noLink_inl _) fun r _ => ?_
  rcases r with e | _ | x
  · trivial
  · refine .call (noLink_inl _) fun r _ => ?_
    rcases r with _ | hash
    · trivial
    refine .call (noLink_inl _) fun userID _ => ?_
    refine .call (create _) fun r _ => ?_
    rcases r with e | _
    · cases e <;> trivial
    refine .call (noLink_inl _) fun _ _ => ?_
    refine .call (audit _) fun _ _ => ?_
    exact .ite (.call (send _ _) fun _ _ => trivial) trivial
  · refine .call (noLink_inl _) fun r _ => ?_
    cases r <;> trivial

/-- **Every request keeps to its rule.** -/
theorem request_rule (req : (federated cfg env).Req) :
    ((federated cfg env).program req).Obeys (.history (Rule cfg env req)) (fun _ _ => True) [] := by
  rcases req with r | (input | input | ⟨u, id⟩)
  · exact (obeys_inl (fun _ => noLink_inl) _ _).bind fun _ _ _ => trivial
  · refine Obeys.bind (Q := fun _ _ => True) ?_ fun _ _ _ => trivial
    exact (callback_conduct cfg env input).bind fun _ _ _ => trivial
  · refine Obeys.bind (Q := fun _ _ => True) ?_ fun _ _ _ => trivial
    exact (register_rule input []).bind fun _ _ _ => trivial
  · refine .call nofun fun r _ => ?_
    cases r <;> trivial

/-- Only the insertion of a link adds one. -/
theorem mem_links_answer (t : ℕ) (cl : web.Call) (w : World × List SocialAccount)
    (a : SocialAccount) (h : a ∈ ((federated cfg env).answer t cl w).2.2) :
    a ∈ w.2 ∨ linking a = ⟨cl, ((federated cfg env).answer t cl w).1⟩ := by
  obtain ⟨w, links⟩ := w
  rcases cl with cl | cl
  · exact .inl h
  cases cl with
  | createLink =>
    simp only [socialAnswer] at h ⊢
    split_ifs at h ⊢ with huser htaken
    · exact .inl h
    · exact .inl h
    · rcases mem_cons.mp h with rfl | h
      · exact .inr rfl
      · exact .inl h
  | createUser =>
    simp only [socialAnswer] at h ⊢
    split_ifs at h <;> exact .inl h
  | deleteLink => exact .inl (mem_of_mem_filter h)
  | _ => exact .inl h

/-- The callback wrote the link, and when it did the account was its own or found verified, and had
passed the gate. -/
def WroteLink (cfg : Settings) (env : Federation) (input : CallbackInput) (past : Past)
    (a : SocialAccount) : Prop :=
  ∃ earlier, linking a :: earlier <:+ past ∧ MayLink cfg env input earlier a

variable {Init : (federated cfg env).World → Prop} {th : Thread (federated cfg env)}
  {c : Config (federated cfg env)}

/-- Whoever has written a link is a callback that was allowed to. -/
theorem wroteLink_of_mem {ok : Config (federated cfg env) → Label (federated cfg env) → Prop}
    (hc : Reachable Init ok c) {t : ℕ} (hth : c.threads[t]? = some th) {a : SocialAccount}
    (hmem : linking a ∈ th.past) :
    ∃ input, th.req = .inr (.callback input) ∧ WroteLink cfg env input th.past a := by
  obtain ⟨hconf, -⟩ :=
    hc.obeys (fun _ _ _ _ => trivial) (fun _ _ _ _ => trivial) hth (request_rule th.req)
  obtain ⟨earlier, hallows, hsuf⟩ := Discipline.allows_of_suffix hconf hmem
  rcases hreq : th.req with r | (input | input | ⟨u, id⟩)
  · rw [hreq] at hallows
    exact absurd rfl (hallows a)
  · rw [hreq] at hallows
    exact ⟨input, rfl, earlier, hsuf, hallows⟩
  · rw [hreq] at hallows
    exact absurd rfl (hallows a)
  · rw [hreq] at hallows
    exact absurd rfl (hallows a)

/-- A callback that has ended in an error in a run that hosted it has written nothing. -/
theorem not_wrote_of_error (hc : Reachable Init Hosted c) {t : ℕ} (hth : c.threads[t]? = some th)
    {input : CallbackInput} (hreq : th.req = .inr (.callback input)) {e : CallbackError}
    (hres : th.result = some (.inr (.callback (.error e)))) : ¬ Wrote th.past := by
  have hphase : ∀ past, (hosted cfg).phase past = past := by
    intro past
    induction past with
    | nil => rfl
    | cons e past ih => exact congrArg (e :: ·) ih
  have hprog : ((federated cfg env).program (.inr (.callback input))).Obeys (hosted cfg)
      (fun ψ v => ∀ r, v = .inr (.callback r) → Kept ψ r) [] := by
    refine Obeys.bind (Q := fun ψ v => ∀ r, v = .callback r → Kept ψ r) ?_ ?_
    · refine (callback_kept cfg env input).bind fun ψ r hr => ?_
      rintro r' ⟨⟩
      exact hr
    · exact fun ψ v hv r' h => hv r' (Sum.inr.inj h)
  obtain ⟨-, hob⟩ := hc.relies
    (fun c t th cl _ hok hth hreq hpend hφ => hok th input cl hth hreq (hphase th.past ▸ hφ) hpend)
    (fun c t th cl r _ hok hth hreq hpend hr hφ =>
      hok th input cl hth hreq (hphase th.past ▸ hφ) hpend r hr)
    hprog hth hreq
  unfold Thread.result at hres
  split at hres
  next v hrest =>
    obtain rfl := Option.some.inj hres
    rw [hrest, hphase] at hob
    exact hob (.error e) rfl e rfl
  · cases hres

/-- The links a deployment starts with. -/
def StartsWith (links : List SocialAccount) (w : World × List SocialAccount) : Prop := w.2 = links

/-- A link in the table. -/
def Linked (w : World × List SocialAccount) (a : SocialAccount) : Prop := a ∈ w.2

/-- **Social links.** In every run in which a callback that has written something is refused nothing
afterwards:

* whoever writes a link is a callback, and when it wrote it, the account was one it had created or
  one whose address it had read as verified under the provider's own verified assertion, and it had
  read the account as neither deleted, banned, disabled nor locked;
* every link in the table that was not there from the start was written so;
* a callback that has ended in an error has created no account and written no link.

The first two hold in every run (`wroteLink_of_mem`). -/
theorem social_links {links : List SocialAccount} {c : Config (federated cfg env)}
    (hc : Reachable (StartsWith links) Hosted c) :
    (∀ (t : ℕ) th a, c.threads[t]? = some th →
      linking a ∈ th.past →
      ∃ input, th.req = .inr (.callback input) ∧ WroteLink cfg env input th.past a) ∧
    (∀ a ∈ c.world.2, a ∉ links →
      ∃ (t : ℕ) (th : Thread (federated cfg env)) (input : CallbackInput),
      c.threads[t]? = some th ∧ th.req = .inr (.callback input) ∧
      WroteLink cfg env input th.past a) ∧
    ∀ (t : ℕ) th input e,
      c.threads[t]? = some th → th.req = .inr (.callback input) →
      th.result = some (.inr (.callback (.error e))) →
      (∀ x, creating x ∉ th.past) ∧ ∀ a, linking a ∉ th.past := by
  refine ⟨fun t th a hth hmem => wroteLink_of_mem hc hth hmem, fun a ha hnew => ?_, ?_⟩
  · have hnudge : ∀ n w a,
        Linked ((federated cfg env).nudge n w) a → Linked w a := by
      rintro (n | u) w a h
      · exact h
      · exact List.mem_of_mem_filter h
    rcases hc.stored Linked linking mem_links_answer hnudge ha with ⟨w, rfl, ha⟩ |
      ⟨t, th, hth, hmem⟩
    · exact absurd ha hnew
    · obtain ⟨input, hreq, hwrote⟩ := wroteLink_of_mem hc hth hmem
      exact ⟨t, th, input, hth, hreq, hwrote⟩
  · intro t th input e hth hreq hres
    have hno := not_wrote_of_error hc hth hreq hres
    exact ⟨fun x hx => hno (.inl ⟨x, hx⟩), fun a ha => hno (.inr ⟨a, ha⟩)⟩

end Runs

/-! ### A callback that is served, and one that is not -/

namespace Sample

open Vault42.Sample

/-- Links are kept, and every address is taken as it is. -/
def env : Federation := ⟨true, some, fun _ => true, 0⟩

/-- A first callback of the subject `s`, with the verified address `b`. -/
def newcomer : CallbackInput := ⟨"p", ⟨"s", "b", true, 0⟩, ⟨"1", "", "", ""⟩, ""⟩

/-- A callback of somebody else, whose provider does not verify addresses. -/
def unverified : CallbackInput := ⟨"q", ⟨"s", "b", false, 0⟩, ⟨"1", "", "", ""⟩, ""⟩

/-- One account, which has no link. -/
def start : Config (federated settings env) := ⟨(world, []), []⟩

/-- The replies that are seen to be favourable by a look at them. -/
def favours : (c : web.Call) → web.Reply c → Bool
  | .inl (.getByID _), .ok (some x) =>
    !x.deleted && !x.banned && !x.disabled && x.lockedUntil.isNone &&
      decide (x.failedLoginCount < lockoutThreshold)
  | .inl (.getByID _), _ => false
  | .inl (.cacheGet _), .ok none => true
  | .inl (.cacheGet _), _ => false
  | .inl (.clearImportPending _), _ => false
  | .inl (.tokens (.create _)), .ok .inserted => true
  | .inl (.tokens _), _ => false
  | .inr (.createLink _), .ok () => true
  | .inr (.createLink _), .error _ => false
  | _, _ => true

theorem favourable_of_favours {c : web.Call} {r : web.Reply c} (h : favours c r) :
    Favourable settings c r := by
  rcases c with c | c
  · cases c with
    | getByID =>
      rcases r with e | _ | x
      · cases h
      · cases h
      simp only [favours, Bool.and_eq_true, Bool.not_eq_true', Option.isNone_iff_eq_none,
        decide_eq_true_eq] at h
      obtain ⟨⟨⟨⟨hdel, hban⟩, hdis⟩, hlock⟩, hcount⟩ := h
      exact ⟨x, rfl, hdel, hban, hdis, hlock, hcount⟩
    | cacheGet k =>
      rcases r with e | _ | v
      · cases h
      · cases k <;> first | trivial | exact nofun
      · cases h
    | clearImportPending => cases h
    | tokens q =>
      cases q with
      | create =>
        rcases r with e | ⟨⟨⟩⟩
        · cases h
        · rfl
        · cases h
      | _ => cases h
    | _ => trivial
  · cases c with
    | createLink =>
      cases r with
      | error => cases h
      | ok => rfl
    | _ => trivial

/-- The thread that is told an answer has written nothing yet, or the answer is favourable. -/
def hostedTest (c : Config (federated settings env)) : Label (federated settings env) → Bool
  | .act t =>
    match c.threads[t]? with
    | none => true
    | some th =>
      match th.pending with
      | none => true
      | some cl => favours cl ((federated settings env).answer t cl c.world).1 ||
          th.past.all fun e => match e with
            | ⟨.inr (.createUser _), .ok ()⟩ => false
            | ⟨.inr (.createLink _), .ok ()⟩ => false
            | _ => true
  | .fault _ => false
  | _ => true

theorem hosted_of_test (c : Config (federated settings env)) (l : Label (federated settings env))
    (h : hostedTest c l) : Hosted c l := by
  cases l with
  | act =>
    intro th input cl hth _ hwrote hpend
    simp only [hostedTest, hth, hpend, Bool.or_eq_true] at h
    rcases h with hfav | hall
    · exact favourable_of_favours hfav
    · rcases hwrote with ⟨x, hx⟩ | ⟨a, ha⟩
      · cases all_eq_true.mp hall _ hx
      · cases all_eq_true.mp hall _ ha
  | fault => cases h
  | spawn => trivial
  | nudge => trivial

/-- The newcomer is signed in; the other callback is sent back. -/
def signedIn : Config (federated settings env) :=
  (execAll hostedTest start
    ([.spawn (.inr (.callback newcomer)), .spawn (.inr (.callback unverified))] ++
      .replicate 27 (.act 0) ++ .replicate 1 (.act 1))).getD start

/-- One link, of the account that the first callback created; the second has written nothing. -/
theorem newcomer_linked :
    (signedIn.world.2.map fun a => (a.userID, a.provider)) = [("1", "p")] ∧
    (∀ a ∈ signedIn.world.2,
      ∃ (t : ℕ) (th : Thread (federated settings env)) (input : CallbackInput),
      signedIn.threads[t]? = some th ∧ th.req = .inr (.callback input) ∧
      WroteLink settings env input th.past a) ∧
    ∃ th, signedIn.threads[1]? = some th ∧
      th.result = some (.inr (.callback (.error .verificationRequired))) ∧
      ∀ x, creating x ∉ th.past := by
  have hc : Reachable (StartsWith []) Hosted signedIn :=
    ⟨(world, []), rfl, run_execAll hosted_of_test _ _⟩
  obtain ⟨-, htable, herror⟩ := social_links hc
  refine ⟨by decide +kernel, fun a ha => htable a ha List.not_mem_nil, ?_⟩
  obtain ⟨th, hth, hreq, hres⟩ : ∃ th, signedIn.threads[1]? = some th ∧
      th.req = .inr (.callback unverified) ∧
      th.result = some (.inr (.callback (.error .verificationRequired))) := ⟨_, rfl, rfl, rfl⟩
  exact ⟨th, hth, hres, (herror 1 th unverified _ hth hreq hres).1⟩

def linkFails : (c : web.Call) → Option (web.Reply c)
  | .inr (.createLink _) => some (.error .backend)
  | _ => none

theorem linkFails_fault (c : web.Call) (r : web.Reply c) (h : linkFails c = some r) :
    (federated settings env).Fault c r := by
  rcases c with c | c
  · cases h
  cases c with
  | createLink =>
    cases h
    exact ⟨_, rfl⟩
  | _ => cases h

/-- The newcomer's account is there, its link is about to be written. -/
def beforeLink : Config (federated settings env) :=
  (execAll (fun _ _ => true) start
    ([.spawn (.inr (.callback newcomer))] ++ .replicate 12 (.act 0))).getD start

def orphaned : Config (federated settings env) := (execFault linkFails beforeLink 0).getD beforeLink

/-- **An account is left behind.** The callback has ended in an error, no link exists, and the
account it created holds the address. -/
theorem orphaned_account :
    Reachable (StartsWith []) anyStep orphaned ∧ orphaned.world.2 = [] ∧
    (start.world.1.users.map User.email) = ["a"] ∧
    (orphaned.world.1.users.map fun x => (x.id, x.email)) = [("1", "b"), ("u", "a")] ∧
    ∃ th x, orphaned.threads[0]? = some th ∧ th.req = .inr (.callback newcomer) ∧
      th.result = some (.inr (.callback (.error .internalError))) ∧ creating x ∈ th.past := by
  refine ⟨⟨(world, []), rfl, (run_execAll (fun _ _ _ => trivial) _ _).trans
    (run_execFault linkFails_fault _ _)⟩,
    by decide +kernel, by decide +kernel, by decide +kernel, ?_⟩
  obtain ⟨th, hth, hreq, hres, x, hmem⟩ : ∃ th, orphaned.threads[0]? = some th ∧
      th.req = .inr (.callback newcomer) ∧
      th.result = some (.inr (.callback (.error .internalError))) ∧
      ∃ x, th.past[9]? = some (creating x) := ⟨_, rfl, rfl, rfl, _, rfl⟩
  exact ⟨th, x, hth, hreq, hres, List.mem_of_getElem? hmem⟩

end Sample

end Vault42.OAuth
