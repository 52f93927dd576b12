import Vault42.Session.Custody

/-!
# The handlers keep custody

Every handler of the service keeps to the custody discipline of `Custody.lean`, function by function
and in the order of the calls: `lockThenWrite_obeys` for the revocations, `refresh_obeys` for a
rotation, `login_obeys` and its companions for the logins, and `serve_obeys` for whatever request
arrives. `RefreshPost` is what a finished refresh leaves behind: a row that was already used when it
was read has had its family revoked, unless the store refused.
-/

namespace Vault42

open Framework Program List RefreshTokenRepo

namespace Custody

variable {cfg : Settings} {φ ψ : Custody} {α β : Type}

/-! ### Revocations -/

/-- A revocation from outside any transaction either covers its scope or is refused, and leaves the
rest of the phase alone. -/
def Revoked (sc : Scope) (φ ψ : Custody) : Prop :=
  ψ = { φ with burnt := sc :: φ.burnt } ∨ ψ = { φ with refused := true }

theorem Revoked.grows {sc : Scope} (h : Revoked sc φ ψ) : φ.Grows ψ := by
  rcases h with rfl | rfl <;> exact ⟨Subset.refl _, rfl, rfl, rfl, suffix_refl _, rfl⟩

theorem lockThenWrite_obeys (sc : Scope) (hφ : φ.txn = .none) :
    (lockThenWrite sc).Obeys (custody cfg) (fun ψ _ => Revoked sc φ ψ) φ := by
  obtain ⟨drawn, wrote, rotation, txn, burnt, refused, notes⟩ := φ
  obtain rfl : txn = .none := hφ
  refine .call ⟨rfl, trivial⟩ fun r _ => ?_
  rcases r with e | _
  · exact .inr rfl
  refine .call ⟨rfl, trivial⟩ fun r _ => ?_
  rcases r with e | _
  · exact ⟨⟨trivial, trivial⟩, fun _ _ => .inr rfl⟩
  refine .call ⟨rfl, trivial⟩ fun r _ => ?_
  rcases r with e | _
  · exact ⟨⟨trivial, trivial⟩, fun _ _ => .inr rfl⟩
  refine .call ⟨.inr ⟨sc, rfl⟩, trivial⟩ fun r _ => ?_
  rcases r with e | _
  · exact ⟨⟨trivial, trivial⟩, fun _ _ => .inr rfl⟩
  · exact Or.inl rfl

theorem obeys_bind_of_revocation {sc : Scope} {f : Bool → Prog β} {Q : Custody → β → Prop}
    (hφ : φ.txn = .none) (hf : ∀ ψ a, Revoked sc φ ψ → (f a).Obeys (custody cfg) Q ψ) :
    (lockThenWrite sc >>= f).Obeys (custody cfg) Q φ :=
  (lockThenWrite_obeys sc hφ).bind hf

variable {stored : RefreshToken} {fp : Fingerprint} {origin : Time} {jkt clientID reason : String}
  {u : UserID} {deviceID : Option UUID} {family : Option UUID} {pair : TokenPair}

theorem revokeThen_obeys {kind : AuditKind} {a : α} (hφ : φ.txn = .none) :
    (AuthService.revokeThen stored kind reason a).Obeys (custody cfg)
      (fun ψ r => φ.Grows ψ ∧ r = a) φ :=
  obeys_bind_of_revocation hφ fun _ _ h => .call trivial fun _ _ => ⟨h.grows, rfl⟩

theorem containRefreshReuse_obeys (hφ : φ.txn = .none) :
    (AuthService.containRefreshReuse stored reason).Obeys (custody cfg)
      (fun ψ _ => Revoked (.family stored.familyID) φ ψ) φ :=
  obeys_bind_of_revocation hφ fun _ _ h => obeys_perform trivial fun _ _ => h

/-! ### Rotations -/

open AuthService

/-- The refresh has found its token used: the row it read said so, or the compare-and-set did. -/
def FoundUsed (ψ : Custody) (stored : RefreshToken) : Prop :=
  ψ.rotation.stored = some stored ∧ stored.used ∧ stored.revoked = false ∨
    ψ.rotation = .lost stored

/-- What a refresh leaves behind. If it found its token used, the family has been revoked, or the
store refused to. -/
def RefreshPost (ψ : Custody) : Prop :=
  ∀ stored, ψ.FoundUsed stored → Scope.family stored.familyID ∈ ψ.burnt ∨ ψ.refused

/-- A refresh that answers with a pair has written a successor. -/
def Rotated (ψ : Custody) (r : Except AuthError α) : Prop :=
  ∀ a, r = .ok a → ∃ stored, ψ.rotation = .closed stored

theorem rotated_error (e : AuthError) : ψ.Rotated (.error e : Except AuthError α) :=
  nofun

/-- A refresh that has found its token unused: it has gone past the row it read, and has not lost
the compare-and-set. -/
structure Onward (ψ : Custody) : Prop where
  settled : ψ.Settled
  kept : ∀ stored, ψ.rotation ≠ .lost stored
  unused : ∀ stored, ψ.rotation.stored = some stored → stored.used = false

theorem onward_of_rotation {ρ : Rotation} (h : ψ.rotation = ρ)
    (hst : ρ.stored = some stored) (hread : ∀ s, ρ ≠ .read s) (hlost : ∀ s, ρ ≠ .lost s)
    (hused : stored.used = false) : ψ.Onward := by
  subst h
  refine ⟨hread, hlost, fun s hs => ?_⟩
  obtain rfl := Option.mem_unique hst hs
  exact hused

theorem Onward.grows (h : φ.Onward) (hg : φ.Grows ψ) : ψ.Onward := by
  refine ⟨h.settled.grows hg, fun stored => ?_, fun stored => ?_⟩
  · rw [hg.rotation]
    exact h.kept stored
  · rw [hg.rotation]
    exact h.unused stored

theorem Onward.refreshPost (h : ψ.Onward) : ψ.RefreshPost := by
  rintro stored (⟨hst, hused, -⟩ | hr)
  · rw [h.unused stored hst] at hused
    cases hused
  · exact absurd hr (h.kept stored)

theorem Revoked.refreshPost (h : Revoked (.family stored.familyID) φ ψ)
    (hrot : ∀ s, φ.FoundUsed s → s = stored) : ψ.RefreshPost := by
  intro s hs
  obtain rfl : s = stored := by
    refine hrot s ?_
    unfold FoundUsed at hs ⊢
    rw [h.grows.rotation] at hs
    exact hs
  rcases h with rfl | rfl
  · exact .inl mem_cons_self
  · exact .inr rfl

theorem accountStillHoldsSessions_obeys (hφ : φ.Settled) (hx : φ.txn = .none) :
    (accountStillHoldsSessions stored).Obeys (custody cfg) (fun ψ _ => φ.Grows ψ) φ := by
  have refuse : ∀ e ψ, φ.Grows ψ →
      (accountStillHoldsSessions.refuse stored e).Obeys (custody cfg) (fun ψ _ => φ.Grows ψ) ψ :=
    fun e ψ hg => obeys_bind_of_revocation (hg.txn.trans hx) fun χ _ h => hg.trans h.grows
  refine .call trivial fun r _ => ?_
  rcases r with _ | _ | user
  · exact refuse _ _ (.refl φ)
  · exact refuse _ _ (.refl φ)
  refine obeys_bind_of_aside (.call trivial) hφ fun ψ now hg => ?_
  split
  · exact hg
  split
  · exact refuse _ _ hg
  split
  · exact refuse _ _ hg
  split <;> exact refuse _ _ hg

/-! ### Issuance -/

/-- The refresh token of a pair expires within the bounds that were measured from one of the clock
readings: the inactivity timeout always, the absolute lifetime for a new family. -/
def Minted (cfg : Settings) (ψ : Custody) (family : Option UUID) (pair : TokenPair) : Prop :=
  ∃ m ∈ ψ.notes.clocks, 0 < m →
    (0 < cfg.inactivityTimeout → pair.refreshExpAt ≤ m + cfg.inactivityTimeout) ∧
      (family = none → 0 < cfg.maxSessionLifetime →
        pair.refreshExpAt ≤ m + cfg.maxSessionLifetime)

theorem Minted.grows (h : Minted cfg φ family pair) (hg : φ.Grows ψ) :
    Minted cfg ψ family pair := by
  obtain ⟨m, hm, hbound⟩ := h
  exact ⟨m, hg.clocks.subset hm, hbound⟩

/-- A later reading is no earlier than the one a pair was minted at. -/
theorem Minted.bounds (h : Minted cfg ψ family pair) {χ : Custody} (hg : ψ.Grows χ) {now : Time}
    (hnow : χ.notes.clocks.head? = some now) (hs : χ.notes.Sane) :
    (0 < cfg.inactivityTimeout → pair.refreshExpAt ≤ now + cfg.inactivityTimeout) ∧
      (family = none → 0 < cfg.maxSessionLifetime →
        pair.refreshExpAt ≤ now + cfg.maxSessionLifetime) := by
  obtain ⟨m, hm, hbound⟩ := h
  obtain ⟨hidle, hlife⟩ := hbound ((hg.sane hs).positive m hm)
  have hle : m ≤ now := hs.le_head hnow (hg.clocks.subset hm)
  exact ⟨fun hI => (hidle hI).trans (by lia), fun hf hL => (hlife hf hL).trans (by lia)⟩

/-- What is known of a pair that has just been minted. -/
structure Issued (cfg : Settings) (φ : Custody) (family : Option UUID) (ψ : Custody)
    (pair : TokenPair) : Prop where
  grows : φ.Grows ψ
  token : pair.refreshToken ∈ ψ.drawn
  drawn : family = none → pair.familyID ∈ ψ.drawn
  minted : Minted cfg ψ family pair

theorem issueTokenPairWithAuth_obeys {roles scopes : List String} {rememberMe : Bool}
    {auth : AuthContext} (hφ : φ.Settled) :
    (TokenService.issueTokenPairWithAuth cfg jkt u roles scopes clientID fp family rememberMe
      auth).Obeys (custody cfg) (Issued cfg φ family) φ := by
  refine .call trivial fun now _ => ?_
  obtain ⟨ψ, hψ⟩ : ∃ ψ, (custody cfg).next φ .now now = ψ := ⟨_, rfl⟩
  rw [hψ]
  have hnow : φ.Grows ψ := hψ ▸ hφ.grows_now now
  have hm : now ∈ ψ.notes.clocks := by subst hψ; exact mem_cons_self
  refine .call trivial fun jti _ => .call trivial fun token _ => ?_
  have hg : ψ.Grows (next (next ψ .random jti) .random token) :=
    (grows_random jti).trans (grows_random token)
  cases family with
  | some =>
    refine ⟨hnow.trans hg, mem_cons_self, nofun, now, hg.clocks.subset hm, ?_⟩
    intro hpos
    exact ⟨fun hI => clampExpiry_sessionDeadline_le hI hpos, nofun⟩
  | none =>
    refine .call trivial fun f _ => ?_
    have hg' := hg.trans (grows_random f)
    refine ⟨hnow.trans hg', mem_cons_of_mem _ mem_cons_self, fun _ => mem_cons_self,
      now, hg'.clocks.subset hm, ?_⟩
    intro hpos
    refine ⟨fun hI => clampExpiry_sessionDeadline_le hI hpos, fun _ hL => ?_⟩
    exact (clampExpiry_le _ _).trans (clampExpiry_sessionDeadline_le hL hpos)

/-- An allowed insert closes a rotation when it succeeds, and otherwise leaves it where it was. -/
theorem create_obeys {tok : RefreshToken}
    (h : (custody cfg).Allows φ (.tokens (.create tok))) :
    (create tok).Obeys (custody cfg)
      (fun ψ r => (r = .created ∧ ψ.rotation = close φ.rotation ∨
        r ≠ .created ∧ ψ.rotation = φ.rotation) ∧ ψ.txn = φ.txn) φ := by
  refine .call h fun r _ => ?_
  rcases r with e | o
  · exact ⟨.inr ⟨nofun, rfl⟩, rfl⟩
  cases o with
  | inserted => exact ⟨.inl ⟨rfl, rfl⟩, rfl⟩
  | familyRevoked => exact ⟨.inr ⟨nofun, rfl⟩, rfl⟩

theorem issueRotatedPair_obeys {roles : List String}
    (hrot : φ.rotation = .spent stored) (hused : stored.used = false) (hw : φ.wrote = false)
    (hx : φ.txn = .none) (horigin : 0 < cfg.maxSessionLifetime → φ.notes.origin = some origin) :
    (AuthService.issueRotatedPair cfg stored roles fp origin).Obeys (custody cfg)
      (fun ψ r => ψ.Onward ∧ ψ.Rotated r) φ := by
  have hφ : φ.Settled := fun s => by simp [hrot]
  have mint : (TokenService.issueRotatedPair cfg stored.dpopJKT stored.userID roles
      ["read", "write"] stored.clientID fp stored.familyID origin).Obeys (custody cfg)
      (fun ψ pair => Issued cfg φ (some stored.familyID) ψ pair ∧
        (0 < cfg.maxSessionLifetime → 0 < origin →
          pair.refreshExpAt ≤ origin + cfg.maxSessionLifetime)) φ := by
    refine (issueTokenPairWithAuth_obeys hφ).bind fun ψ pair h => ?_
    refine ⟨⟨h.grows, h.token, nofun, ?_⟩, fun hL ho =>
      clampExpiry_sessionDeadline_le hL ho⟩
    -- the second clamp only moves the expiry earlier
    obtain ⟨m, hm, hbound⟩ := h.minted
    refine ⟨m, hm, fun hpos => ⟨fun hI => ?_, nofun⟩⟩
    exact (clampExpiry_le _ _).trans ((hbound hpos).1 hI)
  refine mint.bind fun ψ pair ⟨hpair, hlife⟩ => ?_
  refine .call trivial fun newID _ => ?_
  have hnew : ψ.Grows (next ψ .random newID) := grows_random newID
  refine .call trivial fun now _ => ?_
  obtain ⟨χ, hχ⟩ : ∃ χ, (custody cfg).next (next ψ .random newID) .now now = χ := ⟨_, rfl⟩
  have hgrows : (next ψ .random newID).Grows χ :=
    hχ ▸ (hφ.grows (hpair.grows.trans hnew)).grows_now now
  have hhead : χ.notes.clocks.head? = some now := by subst hχ; rfl
  have hgχ : ψ.Grows χ := hnew.trans hgrows
  have hg : φ.Grows χ := hpair.grows.trans hgχ
  have hspent : χ.rotation = .spent stored := hg.rotation.trans hrot
  -- the one write of a rotation: into the family of the row it has spent
  change Obeys (custody cfg) _ ((custody cfg).next (next ψ .random newID) .now now) _
  rw [hχ]
  refine Obeys.bind (create_obeys ⟨⟨⟨hg.wrote.trans hw, ?_, pair.refreshToken,
      hgχ.drawn hpair.token, rfl⟩, hg.txn.trans hx, .inr ⟨stored, hspent, rfl, rfl, rfl, rfl⟩⟩,
      hhead, fun hs hI => ?_, fun hs hL => .inr ⟨origin, hg.origin.trans (horigin hL), hlife hL⟩⟩)
    fun ω r ⟨hrot', htxn⟩ => ?_
  · exact hgrows.drawn mem_cons_self
  · exact (hpair.minted.bounds hgχ hhead hs).1 hI
  rw [hspent] at hrot'
  have hω : ω.Onward := by
    rcases hrot' with ⟨-, h⟩ | ⟨-, h⟩ <;>
      exact onward_of_rotation h rfl nofun nofun hused
  cases r with
  | familyRevoked =>
    refine (revokeThen_obeys (htxn.trans (hg.txn.trans hx))).mono fun _ a h => ?_
    exact ⟨hω.grows h.1, h.2 ▸ rotated_error _⟩
  | created =>
    refine ⟨hω, fun a _ => ⟨stored, ?_⟩⟩
    rcases hrot' with ⟨-, h⟩ | ⟨hne, -⟩
    · exact h
    · exact absurd rfl hne
  | sessionLimitReached | failed => exact ⟨hω, rotated_error _⟩

theorem rotate_obeys (hrot : φ.rotation = .spent stored) (hused : stored.used = false)
    (hw : φ.wrote = false) (hx : φ.txn = .none)
    (horigin : 0 < cfg.maxSessionLifetime → φ.notes.origin = some origin) :
    (rotate cfg stored fp origin).Obeys (custody cfg) (fun ψ r => ψ.Onward ∧ ψ.Rotated r) φ := by
  have hφ : φ.Onward :=
    onward_of_rotation hrot rfl nofun nofun hused
  refine (accountStillHoldsSessions_obeys hφ.settled hx).bind fun ψ r hψ => ?_
  rcases r with e | user
  · exact ⟨hφ.grows hψ, rotated_error e⟩
  refine obeys_bind_of_clerical effectiveRoles_clerical (hφ.grows hψ).settled
    fun χ roles hχ => ?_
  have hg := hψ.trans hχ
  refine (issueRotatedPair_obeys (hg.rotation.trans hrot) hused
    (hg.wrote.trans hw) (hg.txn.trans hx) fun hL => hg.origin.trans (horigin hL)).bind
    fun ω r ⟨hω, hr⟩ => ?_
  rcases r with e | pair
  · exact ⟨hω, rotated_error e⟩
  refine obeys_bind_of_clerical auditLog_clerical hω.settled fun ω' _ h => ?_
  refine obeys_bind_of_aside (.call trivial) (hω.grows h).settled fun ω'' now h' => ?_
  refine ⟨(hω.grows h).grows h', fun _ _ => ?_⟩
  rw [(h.trans h').rotation]
  exact hr pair rfl

/-- The family has been dated. If the check of its age lets the refresh go on, it is within its
lifetime at every reading of the clock. -/
def Aged (cfg : Settings) (φ ψ : Custody) (r : Except AuthError Time) : Prop :=
  ∃ o, (φ.dated o).Grows ψ ∧ ∀ origin, r = .ok origin → 0 < cfg.maxSessionLifetime →
    origin = o ∧ o ≠ 0 ∧ (ψ.notes.Sane → ∀ x ∈ φ.notes.clocks, x < o + cfg.maxSessionLifetime)

/-- The family is dated first. A rotation that goes on under an absolute lifetime has a known origin
and is within the lifetime now, so it was at every reading before. -/
theorem enforceSessionLifetime_obeys (hφ : φ.Settled) (hst : φ.rotation.stored = some stored)
    (ho : φ.notes.origin = none) (hx : φ.txn = .none) :
    (enforceSessionLifetime cfg stored).Obeys (custody cfg) (Aged cfg φ) φ := by
  have unknown : ∀ o, (enforceSessionLifetime.unknown stored
      (decide (0 < cfg.maxSessionLifetime))).Obeys (custody cfg) (Aged cfg φ) (φ.dated o) := by
    intro o
    unfold enforceSessionLifetime.unknown
    split
    · exact obeys_bind_of_clerical auditLog_clerical hφ fun _ _ h => ⟨o, h, nofun⟩
    · rename_i hb
      exact ⟨o, .refl _, fun _ _ hL => absurd (decide_eq_true hL) hb⟩
  refine .call ⟨trivial, ho, stored, hst, rfl⟩ fun r _ => ?_
  rcases r with e | o
  · exact unknown 0
  change Obeys (custody cfg) _ (φ.dated o) _
  dsimp only
  split
  · exact unknown o
  rename_i hzero
  split
  · refine .call trivial fun now _ => ?_
    have hg : (φ.dated o).Grows (next (φ.dated o) .now now) :=
      Settled.grows_now (φ := φ.dated o) hφ now
    change Obeys (custody cfg) _ (next (φ.dated o) .now now) _
    split
    · rename_i hlt
      refine ⟨o, hg,
        fun origin hr _ => ⟨(Except.ok.inj hr).symm, by simpa [Time.isZero] using hzero,
        fun hs x hx => ?_⟩⟩
      exact lt_of_le_of_lt (hs.le_head rfl (mem_cons_of_mem _ hx)) hlt
    · refine (revokeThen_obeys (hg.txn.trans hx)).mono fun ψ r h => ?_
      refine ⟨o, hg.trans h.1, fun origin hr => ?_⟩
      rw [h.2] at hr
      cases hr
  · rename_i hb
    exact ⟨o, .refl _, fun _ _ hL => absurd (decide_eq_true hL) hb⟩

/-- A rotation that goes on under an inactivity timeout is within it now, so it was at every reading
before. -/
theorem enforceSessionInactivity_obeys (hφ : φ.Settled) (hx : φ.txn = .none) :
    (enforceSessionInactivity cfg stored).Obeys (custody cfg)
      (fun ψ r => φ.Grows ψ ∧ (r = .ok () → 0 < cfg.inactivityTimeout → ψ.notes.Sane →
        ∀ x ∈ φ.notes.clocks, x < stored.createdAt + cfg.inactivityTimeout)) φ := by
  unfold enforceSessionInactivity
  split
  · rename_i hoff
    exact ⟨.refl φ, fun _ hI => absurd hI (not_lt.mpr hoff)⟩
  split
  · exact obeys_bind_of_clerical auditLog_clerical hφ fun _ _ h => ⟨h, nofun⟩
  refine .call trivial fun now _ => ?_
  have hg : φ.Grows (next φ .now now) := hφ.grows_now now
  change Obeys (custody cfg) _ (next φ .now now) _
  split
  · rename_i hlt
    refine ⟨hg, fun _ _ hs x hx => ?_⟩
    exact lt_of_le_of_lt (hs.le_head rfl (mem_cons_of_mem _ hx)) hlt
  · refine (revokeThen_obeys (hg.txn.trans hx)).mono fun ψ r h => ⟨hg.trans h.1, fun hr => ?_⟩
    rw [h.2] at hr
    cases hr

theorem spend_obeys {at_ : Time}
    (hrot : φ.rotation = .timed stored at_) (hused : stored.used = false)
    (hrev : stored.revoked = false) (hexp : at_ ≤ stored.expiresAt) (hw : φ.wrote = false)
    (hx : φ.txn = .none) (htime : φ.InTime cfg)
    (horigin : 0 < cfg.maxSessionLifetime → φ.notes.origin = some origin) :
    (AuthService.spend cfg stored fp origin).Obeys (custody cfg)
      (fun ψ r => ψ.RefreshPost ∧ ψ.Rotated r) φ := by
  have hφ : φ.Onward :=
    onward_of_rotation hrot rfl nofun nofun hused
  refine .call ⟨⟨stored, at_, hrot, rfl, hused, hrev, hexp⟩, htime⟩ fun r _ => ?_
  rcases r with e | updated
  · exact ⟨hφ.refreshPost, rotated_error _⟩
  cases updated with
  | false =>
    -- somebody else was ahead: the family goes
    obtain ⟨ψ, hψ⟩ : ∃ ψ, (custody cfg).next φ (.tokens (.markUsed stored.id)) (.ok false) = ψ :=
      ⟨_, rfl⟩
    rw [hψ]
    have hlost : ψ.rotation = .lost stored := by
      subst hψ
      simp only [custody, next, nextToken, hrot, Custody.lose]
    have hxψ : ψ.txn = .none := by
      subst hψ
      exact hx
    refine (containRefreshReuse_obeys hxψ).bind fun χ _ h =>
      ⟨h.refreshPost ?_, rotated_error _⟩
    rintro s (⟨hr, -⟩ | hr)
    · rw [hlost] at hr
      exact (Option.some.inj hr).symm
    · rw [hlost] at hr
      exact (Rotation.lost.inj hr).symm
  | true =>
    have hspent : ((custody cfg).next φ (.tokens (.markUsed stored.id)) (.ok true)).rotation =
        .spent stored := by
      simp only [custody, next, nextToken, hrot, Custody.spend]
    exact (rotate_obeys hspent hused hw hx horigin).mono
      fun _ _ h => ⟨h.1.refreshPost, h.2⟩

theorem checkAndSpend_obeys (hrot : φ.rotation = .read stored)
    (hused : stored.used = false) (hrev : stored.revoked = false) (hw : φ.wrote = false)
    (hx : φ.txn = .none) (ho : φ.notes.origin = none) :
    (checkAndSpend cfg stored fp jkt).Obeys (custody cfg)
      (fun ψ r => ψ.RefreshPost ∧ ψ.Rotated r) φ := by
  refine .call trivial fun now _ => ?_
  -- from here on the row is timed
  obtain ⟨ψ, hψ⟩ : ∃ ψ, (custody cfg).next φ .now now = ψ := ⟨_, rfl⟩
  rw [hψ]
  have htimed : ψ.rotation = .timed stored now := by
    subst hψ
    simp only [custody, next, hrot, readClock]
  have hnow : now ∈ ψ.notes.clocks := by subst hψ; exact mem_cons_self
  obtain ⟨hwψ, hxψ, hoψ⟩ : ψ.wrote = false ∧ ψ.txn = .none ∧ ψ.notes.origin = none := by
    subst hψ
    exact ⟨hw, hx, ho⟩
  have hon : ψ.Onward :=
    onward_of_rotation htimed rfl nofun nofun hused
  split
  · exact ⟨hon.refreshPost, rotated_error _⟩
  rename_i hexp
  refine (enforceSessionLifetime_obeys hon.settled (by rw [htimed]; rfl) hoψ hxψ).bind
    fun χ r hr => ?_
  obtain ⟨o, hχ, hlife⟩ := hr
  have hdated : (ψ.dated o).Onward := ⟨hon.settled, hon.kept, hon.unused⟩
  have honχ := hdated.grows hχ
  rcases r with e | origin
  · exact ⟨honχ.refreshPost, rotated_error _⟩
  refine (enforceSessionInactivity_obeys honχ.settled (hχ.txn.trans hxψ)).bind
    fun ω r ⟨hω, hidle⟩ => ?_
  have hg := hχ.trans hω
  have honω := hdated.grows hg
  rcases r with e | _
  · exact ⟨honω.refreshPost, rotated_error _⟩
  dsimp only
  split
  · refine (revokeThen_obeys (hg.txn.trans hxψ)).mono fun _ _ h => ?_
    exact ⟨(honω.grows h.1).refreshPost, h.2 ▸ rotated_error _⟩
  refine obeys_bind_of_clerical (enforceDPoPBinding_clerical _ _) honω.settled fun ξ r hξ => ?_
  have hg' := hg.trans hξ
  rcases r with e | _
  · exact ⟨(hdated.grows hg').refreshPost, rotated_error _⟩
  have hrotξ : ξ.rotation = .timed stored now := hg'.rotation.trans htimed
  refine spend_obeys hrotξ hused hrev (not_lt.mp hexp) (hg'.wrote.trans hwψ)
    (hg'.txn.trans hxψ) ?_ ?_
  · intro s x hs hsane
    rw [hrotξ] at hs
    cases hs
    refine ⟨fun hI => hidle rfl hI (hξ.sane hsane) now (hχ.clocks.subset hnow), fun hL => ?_⟩
    obtain ⟨-, hne, hlt⟩ := hlife origin rfl hL
    exact ⟨o, hg'.origin, hne, hlt ((hω.trans hξ).sane hsane) now hnow⟩
  · intro hL
    rw [(hlife origin rfl hL).1]
    exact hg'.origin

/-- **`Refresh` keeps to the discipline**, and contains the reuse of a spent token. -/
theorem refresh_obeys (input : RefreshInput) :
    (refresh cfg input).Obeys (custody cfg) (fun ψ r => ψ.RefreshPost ∧ ψ.Rotated r) start := by
  have hstart : start.Onward :=
    ⟨nofun, nofun, nofun⟩
  refine .call ⟨⟨rfl, rfl, rfl⟩, trivial⟩ fun r _ => ?_
  rcases r with e | _ | stored
  · exact ⟨hstart.refreshPost, rotated_error _⟩
  · exact ⟨hstart.refreshPost, rotated_error _⟩
  generalize hψ : (custody cfg).next start _ _ = ψ
  have hread : ψ.rotation = .read stored := by subst hψ; rfl
  obtain ⟨hw, hx, ho⟩ : ψ.wrote = false ∧ ψ.txn = .none ∧ ψ.notes.origin = none := by
    subst hψ
    exact ⟨rfl, rfl, rfl⟩
  have hfound : ∀ s, ψ.FoundUsed s → s = stored ∧ s.revoked = false := by
    rintro s (⟨hr, -, hrev⟩ | hr)
    · rw [hread] at hr
      exact ⟨(Option.some.inj hr).symm, hrev⟩
    · rw [hread] at hr
      cases hr
  dsimp only
  split
  · rename_i hrev
    refine ⟨fun s hs => ?_, rotated_error _⟩
    obtain ⟨rfl, hs'⟩ := hfound s hs
    rw [hrev] at hs'
    cases hs'
  rename_i hrev
  split
  · exact (containRefreshReuse_obeys hx).bind fun χ _ h =>
      ⟨h.refreshPost fun s hs => (hfound s hs).1, rotated_error _⟩
  rename_i hused
  exact checkAndSpend_obeys hread (by simpa using hused) (by simpa using hrev) hw hx ho

/-! ### Logins -/

/-- A thread that is in custody of nothing and has written nothing. -/
structure Free (φ : Custody) : Prop where
  rotation : φ.rotation = .idle
  wrote : φ.wrote = false
  txn : φ.txn = .none

theorem free_start : start.Free := ⟨rfl, rfl, rfl⟩

theorem Free.grows (h : φ.Free) (hg : φ.Grows ψ) : ψ.Free :=
  ⟨hg.rotation.trans h.rotation, hg.wrote.trans h.wrote, hg.txn.trans h.txn⟩

/-- No rotation is under way: what a login starts from and ends in. -/
def Idle (φ : Custody) : Prop := φ.rotation = .idle

theorem Idle.settled (h : φ.Idle) : φ.Settled := fun s hs => by
  rw [h] at hs
  cases hs

theorem Idle.grows (h : φ.Idle) (hg : φ.Grows ψ) : ψ.Idle := hg.rotation.trans h

theorem Free.idle (h : φ.Free) : φ.Idle := h.rotation

theorem obeys_idle_of_aside {p : Prog α} (hp : p.Within Aside) (hφ : φ.Idle) :
    p.Obeys (custody cfg) (fun ψ _ => ψ.Idle) φ :=
  (obeys_of_aside hp hφ.settled).mono fun _ _ => hφ.grows

theorem obeys_idle_of_clerical {K : Set CacheKey} {p : Prog α} (hp : p.Within (Clerical K))
    (hφ : φ.Idle) : p.Obeys (custody cfg) (fun ψ _ => ψ.Idle) φ :=
  obeys_idle_of_aside (within_aside hp) hφ

theorem rollbackWith_obeys {a : α} (hφ : φ.Idle) :
    (rollbackWith a).Obeys (custody cfg) (fun ψ _ => ψ.Idle) φ :=
  .call ⟨trivial, trivial⟩ fun _ _ => hφ

theorem createWithinCap_obeys {tok : RefreshToken} (hfree : φ.Free) (hfresh : φ.Fresh tok)
    (hborn : φ.Firstborn tok) (hlease : φ.Leased cfg tok) :
    (createWithinCap tok cfg.maxSessionsPerUser).Obeys (custody cfg)
      (fun ψ _ => ψ.Idle) φ := by
  unfold createWithinCap
  split
  · -- no cap is configured: the insert runs on its own
    rename_i hcap
    refine (create_obeys ⟨⟨hfresh, hfree.txn, .inl ⟨hcap, hborn⟩⟩, hlease⟩).mono fun ψ _ h => ?_
    rcases h.1 with ⟨-, h⟩ | ⟨-, h⟩ <;> simp [Idle, h, hfree.rotation, close]
  rename_i hcap
  refine .call ⟨hfree.txn, trivial⟩ fun r _ => ?_
  rcases r with e | _
  · exact hfree.rotation
  refine .call ⟨rfl, trivial⟩ fun r _ => ?_
  rcases r with e | _
  · exact rollbackWith_obeys hfree.rotation
  refine .call ⟨rfl, trivial⟩ fun r _ => ?_
  rcases r with e | active
  · exact rollbackWith_obeys hfree.rotation
  dsimp only
  split
  · exact rollbackWith_obeys hfree.rotation
  rename_i hroom
  refine .call ?_ fun r _ => ?_
  · exact ⟨⟨⟨hfresh.wrote, hfresh.id, hfresh.hash⟩, ⟨hborn.rotation, hborn.family⟩, active, rfl,
      not_le.mp hroom⟩, hlease.issued, hlease.idle, hlease.life⟩
  rcases r with e | o
  · exact rollbackWith_obeys hfree.rotation
  cases o with
  | familyRevoked => exact rollbackWith_obeys hfree.rotation
  | inserted =>
    refine .call ⟨.inl rfl, trivial⟩ fun r _ => ?_
    rcases r with e | _
    · exact rollbackWith_obeys hfree.rotation
    · exact hfree.rotation

theorem storeRefreshToken_obeys (hfree : φ.Free)
    (hfam : pair.familyID ∈ φ.drawn) (htok : pair.refreshToken ∈ φ.drawn)
    (hmint : Minted cfg φ none pair) :
    (storeRefreshToken cfg jkt u clientID deviceID fp pair).Obeys (custody cfg)
      (fun ψ _ => ψ.Idle) φ := by
  refine .call trivial fun rtID _ => ?_
  have hid : φ.Grows (next φ .random rtID) := grows_random rtID
  refine .call trivial fun now _ => ?_
  obtain ⟨ψ, hψ⟩ : ∃ ψ, (custody cfg).next (next φ .random rtID) .now now = ψ := ⟨_, rfl⟩
  change Obeys (custody cfg) _ ((custody cfg).next (next φ .random rtID) .now now) _
  rw [hψ]
  have hnow : (next φ .random rtID).Grows ψ := hψ ▸ (hfree.grows hid).idle.settled.grows_now now
  have hhead : ψ.notes.clocks.head? = some now := by subst hψ; rfl
  have hg : φ.Grows ψ := hid.trans hnow
  have hrot : ψ.rotation = .idle := hg.rotation.trans hfree.rotation
  refine Obeys.bind (createWithinCap_obeys (hfree.grows hg) ?_ ?_ ?_) fun χ r hχ => ?_
  · exact ⟨hg.wrote.trans hfree.wrote, hnow.drawn mem_cons_self, _, hg.drawn htok, rfl⟩
  · exact ⟨hrot, hg.drawn hfam⟩
  · exact ⟨hhead, fun hs => (hmint.bounds hg hhead hs).1,
      fun hs hL => .inl ⟨hrot, (hmint.bounds hg hhead hs).2 rfl hL⟩⟩
  · cases r <;> exact hχ

theorem startSession_obeys {user : User} {rememberMe : Bool} {methods : List String}
    (hfree : φ.Free) :
    (startSession cfg jkt user clientID deviceID fp rememberMe methods).Obeys (custody cfg)
      (fun ψ _ => ψ.Idle) φ := by
  refine obeys_bind_of_clerical effectiveRoles_clerical hfree.idle.settled
    fun ψ roles hψ => ?_
  refine obeys_bind_of_aside (.call trivial) (hfree.grows hψ).idle.settled
    fun χ authTime hχ => ?_
  have hχfree := (hfree.grows hψ).grows hχ
  refine (issueTokenPairWithAuth_obeys hχfree.idle.settled).bind
    fun ω pair hpair => ?_
  refine (storeRefreshToken_obeys (hχfree.grows hpair.grows) (hpair.drawn rfl)
    hpair.token hpair.minted).bind fun ξ r hξ => ?_
  rcases r with e | _
  · exact hξ
  refine obeys_idle_of_aside ?_ hξ
  refine .bind (.call trivial) fun _ => ?_
  refine .bind (within_aside auditLog_clerical) fun _ => ?_
  exact .bind (.call trivial) fun _ => .bind (.call trivial) fun _ => trivial

/-- Signing in, as custody follows it. -/
def walk (cfg : Settings) : Walk (custody cfg) (fun ψ _ => ψ.Idle) where
  Ready := Free
  After := Grows
  refl := .refl
  trans := Grows.trans
  ready := Free.grows
  desk h hc := ⟨allows_of_aside (aside_of_clerical hc),
    fun r => grows_next_of_aside h.idle.settled (aside_of_clerical hc) r⟩
  entry {φ c} h hc := by
    cases c with
    | tokens | now | random => cases hc
    | _ => exact ⟨trivial, fun _ => h⟩
  ends h _ := h.idle
  late h hc := ⟨allows_of_aside (aside_of_clerical hc),
    fun r => Idle.grows h (grows_next_of_aside h.settled (aside_of_clerical hc) r)⟩

theorem issueChallengeToken_obeys {factors : List String} (hfree : φ.Free) :
    (TokenService.issueChallengeToken jkt u fp factors).Obeys (custody cfg)
      (fun ψ _ => ψ.Free) φ := by
  have haside : (TokenService.issueChallengeToken jkt u fp factors).Within Aside := by
    refine .bind (.call trivial) fun now => .bind (.call trivial) fun jti => ?_
    exact .bind (.call trivial) fun _ => trivial
  exact (obeys_of_aside haside hfree.idle.settled).mono fun _ _ => hfree.grows

/-- **`Login` keeps to the discipline.** -/
theorem login_obeys (input : LoginInput) (hfree : φ.Free) :
    (login cfg input).Obeys (custody cfg) (fun ψ _ => ψ.Idle) φ := by
  refine (walk cfg).login hfree (fun _ => issueChallengeToken_obeys) fun _ user _ h₁ => ?_
  refine (walk cfg).loginUser h₁ fun _ _ h₂ _ _ => ?_
  refine (walk cfg).checkPassword h₂ fun _ h₃ _ _ => ?_
  refine (walk cfg).passwordProven h₃ (fun ψ h _ => issueChallengeToken_obeys h)
    fun _ h₄ _ _ => ?_
  exact (walk cfg).completeLogin h₄ fun _ _ h₅ _ => startSession_obeys h₅

/-! ### The remaining requests -/

theorem verifySecondFactor_obeys (input : SecondFactorInput) (hfree : φ.Free) :
    (verifySecondFactor cfg input).Obeys (custody cfg) (fun ψ _ => ψ.Idle) φ := by
  refine (walk cfg).verifySecondFactor hfree fun _ _ h₁ _ _ => ?_
  refine (walk cfg).completeMFAIfChallenge h₁ ⟨trivial, fun _ => h₁⟩ fun _ h₂ _ _ => ?_
  exact (walk cfg).finishMFALogin h₂ fun _ _ _ _ _ _ _ => startSession_obeys

theorem oauthSession_obeys (u : UserID) (fp : FingerprintInput) (authTime : Time) (jkt : String)
    (hfree : φ.Free) :
    (oauthSession cfg u fp authTime jkt).Obeys (custody cfg) (fun ψ _ => ψ.Idle) φ := by
  refine (walk cfg).oauthSession hfree fun _ _ _ h₂ _ _ _ => ?_
  refine (issueTokenPairWithAuth_obeys h₂.idle.settled).bind
    fun ω pair hpair => ?_
  have h₃ := h₂.grows hpair.grows
  refine obeys_bind_of_clerical checkSessionLimit_clerical h₃.idle.settled fun ξ r hξ => ?_
  have h₄ := h₃.grows hξ
  rcases r with e | _
  · exact h₄.idle
  refine obeys_bind_of_clerical findOrCreateDevice_clerical h₄.idle.settled fun ζ d hζ => ?_
  have hg := hξ.trans hζ
  refine (storeRefreshToken_obeys (h₄.grows hζ) (hg.drawn (hpair.drawn rfl))
    (hg.drawn hpair.token) (hpair.minted.grows hg)).bind fun η r hη => ?_
  rcases r with e | _
  · exact hη
  exact obeys_idle_of_aside (.bind (.call trivial) fun _ => trivial) hη

theorem updatePassword_obeys (u : UserID) (newPassword : String) (hfree : φ.Free) :
    (PasswordHandler.updatePassword cfg u newPassword).Obeys (custody cfg)
      (fun ψ _ => ψ.Idle) φ := by
  refine obeys_bind_of_aside (.ite (.call trivial) trivial) hfree.idle.settled
    fun ψ breached hψ => ?_
  have h₁ := hfree.grows hψ
  split
  · exact h₁.idle
  refine obeys_bind_of_aside (.call trivial) h₁.idle.settled fun χ history hχ => ?_
  have h₂ := h₁.grows hχ
  refine obeys_bind_of_aside (reused_within (fun _ _ => trivial) _ _) h₂.idle.settled
    fun ω matched hω => ?_
  have h₃ := h₂.grows hω
  split
  · exact h₃.idle
  refine .call trivial fun hash _ => ?_
  rcases hash with _ | hash
  · exact h₃.idle
  refine .call trivial fun r _ => ?_
  rcases r with e | updated
  · exact h₃.idle
  cases updated with
  | false => exact h₃.idle
  | true =>
    refine .call trivial fun _ _ => ?_
    refine obeys_bind_of_revocation h₃.txn fun ξ revoked hξ => ?_
    have h₄ : ξ.Idle := h₃.idle.grows hξ.grows
    split
    · exact obeys_idle_of_clerical
        (.bind PasswordHandler.dropPending_clerical fun _ => trivial) h₄
    · exact h₄

theorem logout_obeys (u : UserID) (hfree : φ.Free) :
    (logout u).Obeys (custody cfg) (fun ψ _ => ψ.Idle) φ := by
  refine obeys_bind_of_revocation hfree.txn fun ψ revoked hψ => ?_
  have hidle : ψ.Idle := hfree.idle.grows hψ.grows
  split
  · exact obeys_idle_of_clerical (.bind auditLog_clerical fun _ => trivial) hidle
  · exact hidle

theorem reapLoop_obeys {batch : TokenCall} {reply : batch.Reply → Option ℕ}
    (h : ∀ φ, (custody cfg).Allows φ (.tokens batch)) (n : ℕ) :
    (reapLoop batch reply n).Obeys (custody cfg) (fun _ _ => True) φ := by
  induction n generalizing φ with
  | zero => trivial
  | succ n ih =>
    refine .call (h φ) fun r _ => ?_
    split
    · trivial
    split
    · trivial
    · exact ih

theorem sweep_obeys : sweep.Obeys (custody cfg) (fun _ _ => True) φ := by
  refine Obeys.bind (reapLoop_obeys ?_ _) fun ψ _ _ => reapLoop_obeys ?_ _
  · exact fun _ => ⟨trivial, trivial⟩
  · exact fun _ => ⟨trivial, trivial⟩

/-- What a thread leaves behind when it has served its request. -/
def post : Req → Custody → Response → Prop
  | .refresh _, ψ, .refresh r => ψ.RefreshPost ∧ ψ.Rotated r
  | .refresh _, _, _ => False
  | _, _, _ => True

/-- **Every request is served within the discipline.** -/
theorem serve_obeys (cfg : Settings) (r : Req) :
    (serve cfg r).Obeys (custody cfg) (post r) (custody cfg).start := by
  cases r with
  | login input => exact (login_obeys input free_start).bind fun _ _ _ => trivial
  | secondFactor input =>
    exact (verifySecondFactor_obeys input free_start).bind fun _ _ _ => trivial
  | oauth u fp authTime jkt =>
    refine (oauthSession_obeys u fp authTime jkt free_start).bind fun _ r hidle => ?_
    have haside : (OAuthHandler.handOver u fp r).Within Aside :=
      OAuthHandler.handOver_within aside_of_clerical (fun _ _ _ _ => trivial) u fp r
    exact (obeys_idle_of_aside haside hidle).mono fun _ _ _ => trivial
  | exchange code fp =>
    have haside := OAuthHandler.exchange_within (A := Aside) (fun _ => trivial) code fp
    exact (obeys_idle_of_aside haside free_start.idle).bind fun _ _ _ => trivial
  | refresh input => exact (refresh_obeys input).bind fun _ _ h => h
  | logout u => exact (logout_obeys u free_start).bind fun _ _ _ => trivial
  | revoke sc => exact (lockThenWrite_obeys sc rfl).bind fun _ _ _ => trivial
  | sweep => exact sweep_obeys.bind fun _ _ _ => trivial
  | updatePassword u newPassword =>
    exact (updatePassword_obeys u newPassword free_start).bind fun _ _ _ => trivial

end Custody

end Vault42
