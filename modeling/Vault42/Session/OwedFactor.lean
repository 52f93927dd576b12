import Vault42.Session.SigningIn

/-!
# No session without the owed second factor

In the running service, what a request was told (`SigningIn`) it was told by the stores: a login
that has stored a refresh token has read three stores that held no factor of the account, and a
handler that has stored one has verified a factor of the account.

Two things stand between that and the statement one would like. The TOTP handler accepts a code of
any secret of the account, verified or not, and `GetStatus` lists only verified ones, so that a
factor that is not listed can complete a login. And the mark that a challenge is consumed lives as
long as a challenge does: a request that was let in before the challenge ended and consumes it after
the mark has ended consumes it a second time. `listed` is the condition under which neither happens,
and `owed_factor` the statement under it.
-/

namespace Vault42

open Framework Program List SignInReq MFAService MemoryCache

/-! ### What is listed -/

/-- What `GetStatus` lists for an account when none of its reads fails. -/
def MFAService.listing (w : FactorWorld) (u : UserID) : List String :=
  methods (w.totpSecrets.find? fun s => s.userID == u)
    (w.credentials.filter fun c => c.userID == u)
    (w.backupCodes.filter fun c => c.userID == u && !c.used)

theorem MFAService.mem_methods {totp : Option TOTPSecret} {creds : List WebAuthnCredential}
    {codes : List BackupCode} {m : String} :
    m ∈ methods totp creds codes ↔ (totp.any TOTPSecret.verified ∧ m = methodTOTP) ∨
      (creds ≠ [] ∧ m = methodWebAuthn) ∨ (codes ≠ [] ∧ m = methodBackupCode) := by
  unfold methods
  rw [mem_append, mem_append, or_assoc]
  refine or_congr ?_ (or_congr ?_ ?_)
  · split <;> simp_all
  · cases creds <;> simp
  · cases codes <;> simp

/-! ### The mark of a consumed challenge -/

/-- From one world to a later one, no mark that still counts is lost. -/
structure KeepsMarks (w w' : World) : Prop where
  clock : w.clock ≤ w'.clock
  mark : ∀ jti t, w'.clock < t → (w.cache.slot (.challengeUsed jti)).HoldsUntil t →
    (w'.cache.slot (.challengeUsed jti)).HoldsUntil t

section Marks

variable {w w' : World}

theorem keepsMarks_of_slots (hclock : w'.clock = w.clock)
    (hslot : ∀ jti, w'.cache.slot (.challengeUsed jti) = w.cache.slot (.challengeUsed jti)) :
    KeepsMarks w w' := by
  refine ⟨hclock.ge, fun jti t _ h => ?_⟩
  rw [hslot]
  exact h

/-- **No call that keeps to the rules loses a mark.** -/
theorem keepsMarks_of_answer {clears : UserID → Prop} {unstored : Prop} {read : Time → Prop}
    {consumes : UUID → Prop} (t : ℕ) {cl : Call} (h : Rules clears unstored read consumes cl) :
    KeepsMarks w (answer t cl w).2 := by
  cases cl with
  | cacheSet =>
    refine keepsMarks_of_slots rfl fun jti => w.cache.slot_set_ne ?_
    rintro rfl
    exact h
  | cacheDelete =>
    refine keepsMarks_of_slots rfl fun jti => (w.cache.slot_delete).trans (if_neg ?_)
    rintro rfl
    exact h
  | cacheGetAndDelete =>
    refine keepsMarks_of_slots rfl fun jti => w.cache.slot_getAndDelete_ne ?_
    rintro rfl
    exact h
  | cacheIncrement =>
    refine keepsMarks_of_slots rfl fun jti => w.cache.slot_increment_ne ?_
    rintro rfl
    exact h
  | cacheSetIfNotExists k v ttl =>
    refine ⟨le_rfl, fun jti at_ hlt hold => ?_⟩
    exact holdsUntil_setIfNotExists hold hlt
  | updatePassword | createDevice =>
    simp only [answer]
    split <;> exact keepsMarks_of_slots rfl fun _ => rfl
  | _ => exact keepsMarks_of_slots rfl fun _ => rfl

theorem keepsMarks_of_nudge (n : Nudge) : KeepsMarks w (nudge n w) := by
  cases n with
  | tick d =>
    refine ⟨?_, fun jti t _ h => h⟩
    show w.clock ≤ w.clock + d
    lia
  | addUser =>
    simp only [nudge]
    split <;> exact keepsMarks_of_slots rfl fun _ => rfl
  | sweepCache =>
    refine ⟨le_rfl, fun jti t hlt h => ?_⟩
    show ((w.cache.cleanup w.clock).slot _).HoldsUntil t
    rw [slot_cleanup]
    exact h.swept hlt
  | _ => exact keepsMarks_of_slots rfl fun _ => rfl

theorem keepsMarks_of_factorNudge {w : FactorWorld} (n : FactorNudge) :
    KeepsMarks w.world (factorNudge n w).world := by
  cases n with
  | vault n => exact keepsMarks_of_nudge n
  | setCache u pending =>
    cases pending <;>
      exact keepsMarks_of_slots rfl fun jti => w.world.cache.slot_set_ne nofun
  | _ => exact keepsMarks_of_slots rfl fun _ => rfl

/-- A challenge that is consumed now is marked for as long as it lives. -/
theorem holdsUntil_of_consumed {jti : UUID} {v : CacheValue} (t : ℕ)
    (h : (answer t (.cacheSetIfNotExists (.challengeUsed jti) v challengeTTL) w).1 = .ok true) :
    ((answer t (.cacheSetIfNotExists (.challengeUsed jti) v challengeTTL) w).2.cache.slot
      (.challengeUsed jti)).HoldsUntil (w.clock + challengeTTL) :=
  holdsUntil_of_new (by decide) h le_rfl

/-- A challenge whose mark still counts is not consumed. -/
theorem not_consumed_of_holdsUntil {jti : UUID} {v : CacheValue} {ttl : Duration}
    {at_ : Time} (t : ℕ)
    (h : (w.cache.slot (.challengeUsed jti)).HoldsUntil at_) (hlt : w.clock < at_) :
    (answer t (.cacheSetIfNotExists (.challengeUsed jti) v ttl) w).1 ≠ .ok true := by
  simp only [answer, refuses_of_holdsUntil h hlt]
  rintro ⟨⟩

end Marks

/-! ### The condition -/

/-- The call of a request, in a world, is one of a factor that is listed, or of a challenge that has
not ended: `TOTPHandler.Verify` reads a secret that was verified, and a challenge is consumed before
it expires. -/
def SignInReq.timely (w : FactorWorld) : SignInReq → FactorCall → Bool
  | .totp _, .totpByUserID u => (w.totpSecrets.find? fun s => s.userID == u).all TOTPSecret.verified
  | req, .vault (.cacheSetIfNotExists (.challengeUsed _) _ _) =>
    req.token.all fun token => decide (w.world.clock < token.expiresAt)
  | _, _ => true

theorem SignInReq.lt_of_timely {w : FactorWorld} {req : SignInReq} {token : ChallengeClaims}
    {jti : UUID} {v : CacheValue} {ttl : Duration}
    (h : req.timely w (.vault (.cacheSetIfNotExists (.challengeUsed jti) v ttl)))
    (htoken : req.token = some token) : w.world.clock < token.expiresAt := by
  have heq : req.timely w (.vault (.cacheSetIfNotExists (.challengeUsed jti) v ttl)) =
      req.token.all fun token => decide (w.world.clock < token.expiresAt) := by cases req <;> rfl
  rw [heq, htoken] at h
  exact of_decide_eq_true h

theorem SignInReq.verified_of_timely {w : FactorWorld} {input : AuthService.SecondFactorInput}
    {u : UserID} {secret : TOTPSecret} (h : (totp input).timely w (.totpByUserID u))
    (hfind : (w.totpSecrets.find? fun s => s.userID == u) = some secret) :
    (w.totpSecrets.find? fun s => s.userID == u).any TOTPSecret.verified := by
  rw [timely, hfind] at h
  rw [hfind]
  exact h

section System

variable {cfg : Settings}

/-- Only listed factors are read, and only challenges that have not ended are consumed. -/
def listed (c : Config (signInService cfg)) : Label (signInService cfg) → Bool
  | .act t => c.threads[t]?.all fun th => th.pending.all (timely c.world th.req)
  | _ => true

/-- A schedule throughout which these factors stay enrolled. -/
def standing (enrolled : UserID → String → Prop) (c : Config (signInService cfg))
    (l : Label (signInService cfg)) : Prop :=
  (∀ u m, enrolled u m → m ∈ listing c.world u) ∧ listed c l

/-- The challenges that were signed before the first request: they live for `challengeTTL`, and none
is from the future. -/
def FactorWorld.WellSigned (w : FactorWorld) : Prop :=
  ∀ claims ∈ w.world.signed,
    claims.expiresAt = claims.issuedAt + challengeTTL ∧ claims.issuedAt ≤ w.world.clock

/-- The middleware has accepted the challenge. -/
def Accepted (past : List (Event factors)) (token : ChallengeClaims) : Prop :=
  ⟨.vault (.verifyChallenge token), true⟩ ∈ past

def Consumed (past : List (Event factors)) (token : ChallengeClaims) : Prop :=
  ⟨.vault (.cacheSetIfNotExists (.challengeUsed token.jti) (.count 1) challengeTTL),
    .ok true⟩ ∈ past

abbrev consuming (token : ChallengeClaims) : Call :=
  .cacheSetIfNotExists (.challengeUsed token.jti) (.count 1) challengeTTL

/-! ### Every thread keeps to its terms -/

section Thread

variable {Init : FactorWorld → Prop}
  {ok : Config (signInService cfg) → Label (signInService cfg) → Prop}
  {c : Config (signInService cfg)} {t : ℕ} {th : Thread (signInService cfg)}

section

variable (hmfa : cfg.hasMFA) (hcache : cfg.hasCache) (hc : Reachable Init ok c)
  (hth : c.threads[t]? = some th)
include hmfa hcache hc hth

theorem keeps_terms :
    (enlisting (terms cfg th.req)).Conforms th.past ∧
      th.rest.Obeys (enlisting (terms cfg th.req))
        (SignInResponse.Granted (terms cfg th.req)) th.past := by
  have h := hc.obeys (fun _ _ _ _ => trivial)
    (fun _ _ _ _ => trivial) hth (serve_enlisting hmfa hcache th.req)
  rw [Discipline.phase_history] at h
  exact h

theorem permits_of_rest {cl : FactorCall} {k : cl.Reply → FactorProg SignInResponse}
    (hrest : th.rest = .call cl k) : (terms cfg th.req).Permits th.past cl := by
  obtain ⟨-, hob⟩ := keeps_terms hmfa hcache hc hth
  rw [hrest] at hob
  exact hob.1

/-- A token that was stored was one of an account that was cleared, and it is the only one the
thread has stored. -/
theorem cleared_of_stores {cl : FactorCall} {r : cl.Reply} {tok : RefreshToken}
    (hstores : cl.stores = some tok) {i : ℕ} (hi : th.past[i]? = some ⟨cl, r⟩) :
    (terms cfg th.req).clears th.past tok.userID ∧ NothingStored (th.past.drop (i + 1)) := by
  obtain ⟨hconf, -⟩ := keeps_terms hmfa hcache hc hth
  obtain ⟨hpermits, -⟩ := hconf.exchange hi
  rw [Discipline.phase_history] at hpermits
  have hpermits : (terms cfg th.req).Permits (th.past.drop (i + 1)) cl := hpermits
  have hclear : (terms cfg th.req).clears (th.past.drop (i + 1)) tok.userID ∧
      NothingStored (th.past.drop (i + 1)) := by
    cases cl with
    | vault cl =>
      cases cl with
      | tokens q =>
        cases q with
        | create tok' | insertInTxn tok' =>
          obtain rfl : tok' = tok := Option.some.inj hstores
          exact hpermits
        | _ => cases hstores
      | _ => cases hstores
    | _ => cases hstores
  exact ⟨(terms cfg th.req).mono (drop_subset _ _) hclear.1, hclear.2⟩

end

end Thread

/-! ### A challenge is redeemed once -/

/-- The components other than the factor stores. -/
abbrev base (c : Config (signInService cfg)) : World := FactorWorld.world c.world

/-- **Redemptions.** Instants that were read are past, challenges live for `challengeTTL` from one
of them, only signed challenges are accepted, the mark of a consumed one lasts as long as the
challenge, and no two threads have consumed the same. -/
structure Redemptions (c : Config (signInService cfg)) : Prop where
  read : ∀ {t : ℕ} {th : Thread (signInService cfg)} {now : Time}, c.threads[t]? = some th →
    ⟨.vault .now, now⟩ ∈ th.past → now ≤ (base c).clock
  signed : FactorWorld.WellSigned c.world
  accepted : ∀ {t : ℕ} {th : Thread (signInService cfg)} {token : ChallengeClaims},
    c.threads[t]? = some th → Accepted th.past token → token ∈ (base c).signed
  marked : ∀ {t : ℕ} {th : Thread (signInService cfg)} {token : ChallengeClaims},
    c.threads[t]? = some th → SignInReq.token th.req = some token → Consumed th.past token →
      (base c).clock < token.expiresAt →
        ((base c).cache.slot (.challengeUsed token.jti)).HoldsUntil token.expiresAt
  once : ∀ {t u : ℕ} {th tu : Thread (signInService cfg)} {token : ChallengeClaims},
    c.threads[t]? = some th → c.threads[u]? = some tu → SignInReq.token th.req = some token →
      SignInReq.token tu.req = some token → Consumed th.past token → Consumed tu.past token → t = u

/-- What a step does to the world: marks are kept, and a challenge that is signed lives for
`challengeTTL` from an instant its thread has read. -/
structure SignStep (c c' : Config (signInService cfg)) : Prop where
  marks : KeepsMarks (base c) (base c')
  kept : (base c).signed ⊆ (base c').signed
  signed : ∀ claims ∈ (base c').signed,
    claims ∈ (base c).signed ∨
      claims.expiresAt = claims.issuedAt + challengeTTL ∧
        ∃ (t : ℕ) (th : Thread (signInService cfg)), c.threads[t]? = some th ∧
          ⟨.vault .now, claims.issuedAt⟩ ∈ th.past

theorem signed_answer (t : ℕ) (cl : Call) (w : World) :
    (answer t cl w).2.signed = w.signed ∨
      ∃ claims, cl = .signChallenge claims ∧ (answer t cl w).2.signed = claims :: w.signed := by
  cases cl with
  | signChallenge claims => exact .inr ⟨claims, rfl, rfl⟩
  | updatePassword | createDevice =>
    left
    simp only [answer]
    split <;> rfl
  | _ => exact .inl rfl

theorem signed_nudge (n : FactorNudge) (w : FactorWorld) :
    (factorNudge n w).world.signed = w.world.signed := by
  cases n with
  | vault n =>
    cases n with
    | addUser =>
      simp only [factorNudge, nudge]
      split <;> rfl
    | _ => rfl
  | setCache u pending => cases pending <;> rfl
  | _ => rfl

section Redemptions

variable {Init : FactorWorld → Prop} {enrolled : UserID → String → Prop}
  {c c' : Config (signInService cfg)} {l : Label (signInService cfg)}

theorem signStep_of_same (h : base c' = base c) :
    SignStep c c' where
  marks := keepsMarks_of_slots (by rw [h]) (fun _ => by rw [h])
  kept := by rw [h]; exact Subset.refl _
  signed claims hmem := .inl (h ▸ hmem)

variable {ok : Config (signInService cfg) → Label (signInService cfg) → Prop}

theorem signStep_of_step (hmfa : cfg.hasMFA) (hcache : cfg.hasCache)
    (hc : Reachable Init ok c) (hs : Step c l c') : SignStep c c' := by
  cases hs with
  | spawn | fault => exact signStep_of_same rfl
  | @act t th cl k hth hrest =>
    have hpermits := permits_of_rest hmfa hcache hc hth hrest
    cases cl with
    | vault cl =>
      simp only [Terms.Permits] at hpermits
      refine ⟨keepsMarks_of_answer t hpermits, ?_, ?_⟩
      · rcases signed_answer t cl (base c) with h | ⟨claims, -, h⟩
        · exact fun _ hmem => h.symm ▸ hmem
        · exact fun _ hmem => h.symm ▸ mem_cons_of_mem _ hmem
      · intro claims hmem
        have hmem : claims ∈ (answer t cl (base c)).2.signed := hmem
        rcases signed_answer t cl (base c) with h | ⟨claims', rfl, h⟩
        · exact .inl (h ▸ hmem)
        · rw [h] at hmem
          rcases mem_cons.mp hmem with rfl | hmem
          · exact .inr ⟨hpermits.1, t, th, hth, hpermits.2⟩
          · exact .inl hmem
    | markBackupUsed id =>
      refine signStep_of_same ?_
      show FactorWorld.world (answerFactor t (.markBackupUsed id) c.world).2 = _
      simp only [answerFactor]
      split <;> rfl
    | _ => exact signStep_of_same rfl
  | nudge n =>
    refine ⟨keepsMarks_of_factorNudge n, ?_, fun claims hmem => .inl ?_⟩
    · exact fun _ hmem => (signed_nudge n c.world).symm ▸ hmem
    · exact signed_nudge n c.world ▸ hmem

/-- A challenge that is consumed after a step was consumed before it, or this is the step that
consumes it. -/
theorem consumed_cases (hs : Step c l c') {t : ℕ} {th' : Thread (signInService cfg)}
    (hth' : c'.threads[t]? = some th') {token : ChallengeClaims} (h : Consumed th'.past token) :
    ∃ th, c.threads[t]? = some th ∧ th.req = th'.req ∧ (Consumed th.past token ∨
      ∃ k, l = .act t ∧ th.rest = .call (.vault (consuming token)) k ∧
        (answer t (consuming token) (base c)).1 = .ok true) := by
  obtain ⟨th, hth, hreq, hold | ⟨hpend, ⟨hl, hr⟩ | ⟨-, e, hr⟩⟩⟩ := hs.said hth' h
  · exact ⟨th, hth, hreq, .inl hold⟩
  · obtain ⟨k, hrest⟩ := Thread.rest_of_pending hpend
    exact ⟨th, hth, hreq, .inr ⟨k, hl, hrest, hr.symm⟩⟩
  · cases hr

/-- The step that consumes a challenge sets its mark, which counts until the challenge ends. -/
theorem marked_of_consumed (hmfa : cfg.hasMFA) (hcache : cfg.hasCache)
    (hc : Reachable Init ok c) (h : Redemptions c) {t : ℕ} {th : Thread (signInService cfg)}
    (hth : c.threads[t]? = some th) {token : ChallengeClaims}
    (htoken : SignInReq.token th.req = some token) {v : CacheValue}
    {k : Except CacheError Bool → FactorProg SignInResponse}
    (hrest : th.rest = .call (.vault (.cacheSetIfNotExists (.challengeUsed token.jti) v
      challengeTTL)) k)
    (hreply : (answer t (.cacheSetIfNotExists (.challengeUsed token.jti) v challengeTTL)
      (base c)).1 = .ok true) :
    ((answer t (.cacheSetIfNotExists (.challengeUsed token.jti) v challengeTTL)
      (base c)).2.cache.slot (.challengeUsed token.jti)).HoldsUntil token.expiresAt := by
  refine (holdsUntil_of_consumed t hreply).mono ?_
  -- the challenge was accepted, so it was signed, and not in the future
  have hpermits := permits_of_rest hmfa hcache hc hth hrest
  rw [terms_of_token htoken] at hpermits
  obtain ⟨-, -, haccepted⟩ := hpermits
  obtain ⟨hends, hissued⟩ := h.signed token (h.accepted hth haccepted)
  lia

theorem redemptions_step (hmfa : cfg.hasMFA) (hcache : cfg.hasCache)
    (hc : Reachable Init (standing enrolled) c) (h : Redemptions c) (hok : standing enrolled c l)
    (hs : Step c l c') : Redemptions c' := by
  have hworld := signStep_of_step hmfa hcache hc hs
  refine ⟨?_, ?_, ?_, ?_, ?_⟩
  · -- instants that were read
    intro t th' now hth' hmem
    obtain ⟨th, hth, -, hmem | ⟨-, ⟨-, hr⟩ | ⟨-, hr⟩⟩⟩ := hs.said hth' hmem
    · exact (h.read hth hmem).trans hworld.marks.clock
    · have hr : now = (base c).clock := hr
      rw [hr]
      exact hworld.marks.clock
    · cases hr
  · -- challenges that were signed
    intro claims hmem
    rcases hworld.signed claims hmem with hold | ⟨hends, t, th, hth, hread⟩
    · exact ⟨(h.signed claims hold).1, (h.signed claims hold).2.trans hworld.marks.clock⟩
    · exact ⟨hends, (h.read hth hread).trans hworld.marks.clock⟩
  · -- challenges that were accepted
    intro t th' token hth' hmem
    obtain ⟨th, hth, -, hmem | ⟨-, ⟨-, hr⟩ | ⟨-, hr⟩⟩⟩ := hs.said hth' hmem
    · exact hworld.kept (h.accepted hth hmem)
    · have hr : true = ((base c).signed.contains token &&
        decide ((base c).clock < token.expiresAt)) := hr
      refine hworld.kept ?_
      simpa using (Bool.and_eq_true_iff.mp hr.symm).1
    · cases hr
  · -- marks
    intro t th' token hth' htoken hcon hlt
    obtain ⟨th, hth, hreq, hold | ⟨k, rfl, hrest, hreply⟩⟩ := consumed_cases hs hth' hcon
    · refine hworld.marks.mark _ _ hlt (h.marked hth (hreq ▸ htoken) hold ?_)
      exact hworld.marks.clock.trans_lt hlt
    · have hmark := marked_of_consumed hmfa hcache hc h hth (hreq ▸ htoken) hrest hreply
      cases hs with
      | act hth₁ hrest₁ =>
        obtain rfl := Option.mem_unique hth hth₁
        rw [hrest] at hrest₁
        cases hrest₁
        exact hmark
  · -- the thread that consumes a challenge is the first to do so
    have fresh : ∀ {t u : ℕ} {th tu : Thread (signInService cfg)} {token : ChallengeClaims} {k},
        c.threads[t]? = some th → c.threads[u]? = some tu →
        SignInReq.token th.req = some token → SignInReq.token tu.req = some token →
        Consumed tu.past token → l = .act t → th.rest = .call (.vault (consuming token)) k →
        (answer t (consuming token) (base c)).1 ≠ .ok true := by
      rintro t u th tu token k hth htu htoken htoken' hcon rfl hrest
      have htimely : (base c).clock < token.expiresAt := by
        have hlisted := hok.2
        simp only [listed, hth, Option.all_some, Thread.pending, hrest] at hlisted
        exact lt_of_timely hlisted htoken
      exact not_consumed_of_holdsUntil t (h.marked htu htoken' hcon htimely) htimely
    intro t u th' tu' token hth' htu' htoken htoken' hcon hcon'
    obtain ⟨th, hth, hreq, hcon⟩ := consumed_cases hs hth' hcon
    obtain ⟨tu, htu, hreq', hcon'⟩ := consumed_cases hs htu' hcon'
    rw [← hreq] at htoken
    rw [← hreq'] at htoken'
    rcases hcon with hold | ⟨k, hl, hrest, hreply⟩
    · rcases hcon' with hold' | ⟨k', hl', hrest', hreply'⟩
      · exact h.once hth htu htoken htoken' hold hold'
      · exact absurd hreply' (fresh htu hth htoken' htoken hold hl' hrest')
    · rcases hcon' with hold' | ⟨k', hl', hrest', hreply'⟩
      · exact absurd hreply (fresh hth htu htoken htoken' hold' hl hrest)
      · exact Label.act.inj (hl.symm.trans hl')

theorem redemptions_of_reachable (hmfa : cfg.hasMFA) (hcache : cfg.hasCache)
    (hc : Reachable FactorWorld.WellSigned (standing enrolled) c) :
    Redemptions c := by
  refine hc.induct ?_ ?_
  · intro w hw
    refine ⟨?_, hw, ?_, ?_, ?_⟩
    · rintro t th now ⟨⟩
    · rintro t th token ⟨⟩
    · rintro t th token ⟨⟩
    · rintro t u th tu token ⟨⟩
  · intro c l c' hreach h hok hs
    exact redemptions_step hmfa hcache hreach h hok hs

end Redemptions

/-! ### The statement -/

/-- The access token a response carries. -/
def SignInResponse.accessToken : SignInResponse → Option AccessClaims
  | .login (.ok (.session accessToken _ _ _)) => some accessToken
  | .factor (.ok (.session accessToken _ _ _)) => some accessToken
  | _ => none

/-- The thread has stored a refresh token of the account, or answered with an access token for
it. -/
def Starts (th : Thread (signInService cfg)) (u : UserID) : Prop :=
  (∃ cl r tok, ⟨cl, r⟩ ∈ th.past ∧ FactorCall.stores cl = some tok ∧ tok.userID = u) ∨
    ∃ r accessToken, th.result = some r ∧ SignInResponse.accessToken r = some accessToken ∧
      accessToken.subject = u

/-- The factor a request presents, as `GetStatus` lists it, and the read that looks it up. A mailed
code is not one. -/
def SignInReq.factor : SignInReq → Option (String × FactorCall)
  | totp input => some (methodTOTP, .totpByUserID input.token.subject)
  | webauthn input _ => some (methodWebAuthn, .webauthnByUser input.token.subject)
  | backupCode input => some (methodBackupCode, .unusedBackupCodes input.token.subject)
  | _ => none

section Statement

variable {Init : FactorWorld → Prop} {enrolled : UserID → String → Prop}
  {ok : Config (signInService cfg) → Label (signInService cfg) → Prop}
  {c : Config (signInService cfg)} {t : ℕ} {th : Thread (signInService cfg)} {u : UserID}

theorem cleared_of_granted {T : Terms factors} {ψ : List (Event factors)} {r : SignInResponse}
    {accessToken : AccessClaims} (h : r.Granted T ψ) (hr : r.accessToken = some accessToken) :
    T.clears ψ accessToken.subject := by
  rcases r with (e | _ | _ | _) | (e | _ | _ | _) <;> cases hr <;> exact h

theorem cleared_of_starts (hmfa : cfg.hasMFA) (hcache : cfg.hasCache)
    (hc : Reachable Init ok c) (hth : c.threads[t]? = some th) (h : Starts th u) :
    (terms cfg th.req).clears th.past u := by
  rcases h with ⟨cl, r, tok, hmem, hstores, rfl⟩ | ⟨r, accessToken, hres, hat, rfl⟩
  · obtain ⟨i, hi⟩ := getElem?_of_mem hmem
    exact (cleared_of_stores hmfa hcache hc hth hstores hi).1
  · obtain ⟨-, hob⟩ := keeps_terms hmfa hcache hc hth
    rw [Thread.rest_of_result hres] at hob
    exact cleared_of_granted hob hat

/-- Reads that found nothing leave nothing that was enrolled all along. -/
theorem not_enrolled_of_read
    (hc : Reachable Init (standing enrolled) c) (hth : c.threads[t]? = some th)
    (h : ReadNoFactor th.past u) (m : String) : ¬ enrolled u m := by
  intro hen
  obtain ⟨⟨totp, htotp, hunverified⟩, hcreds, hcodes⟩ := h
  obtain ⟨d₁, -, -, -, -, -, -, ⟨hok₁, hr₁⟩ | ⟨-, e, hr₁⟩⟩ := hc.told hth htotp
  swap
  · cases hr₁
  obtain ⟨d₂, -, -, -, -, -, -, ⟨hok₂, hr₂⟩ | ⟨-, e, hr₂⟩⟩ := hc.told hth hcreds
  swap
  · cases hr₂
  obtain ⟨d₃, -, -, -, -, -, -, ⟨hok₃, hr₃⟩ | ⟨-, e, hr₃⟩⟩ := hc.told hth hcodes
  swap
  · cases hr₃
  -- the factor was listed at each of the three reads, and one of them would have found it
  have hm : m = methodTOTP ∨ m = methodWebAuthn ∨ m = methodBackupCode := by
    rcases mem_methods.mp (hok₁.1 u m hen) with h | h | h
    · exact .inl h.2
    · exact .inr (.inl h.2)
    · exact .inr (.inr h.2)
  rcases hm with rfl | rfl | rfl
  · have hlisted := mem_methods.mp (hok₁.1 u _ hen)
    rw [← Except.ok.inj hr₁, hunverified] at hlisted
    simp [methodTOTP, methodWebAuthn, methodBackupCode] at hlisted
  · have hlisted := mem_methods.mp (hok₂.1 u _ hen)
    rw [← Except.ok.inj hr₂] at hlisted
    simp [methodTOTP, methodWebAuthn, methodBackupCode] at hlisted
  · have hlisted := mem_methods.mp (hok₃.1 u _ hen)
    rw [← Except.ok.inj hr₃] at hlisted
    simp [methodTOTP, methodWebAuthn, methodBackupCode] at hlisted

/-- The account a handler has cleared is the subject of its challenge. -/
theorem subject_of_read (hc : Reachable Init ok c) (hth : c.threads[t]? = some th)
    {token : ChallengeClaims} {user : User}
    (hread : ⟨.vault (.getByID token.subject), .ok (some user)⟩ ∈ th.past) :
    user.id = token.subject := by
  obtain ⟨d, -, -, -, -, -, -, ⟨-, hr⟩ | ⟨-, e, hr⟩⟩ := hc.told hth hread
  · have hfind : (base d).userByID token.subject = some user := (Except.ok.inj hr).symm
    simpa using find?_some hfind
  · cases hr

/-- The factor a handler has verified was listed when its handler looked it up. -/
theorem listed_of_proven (hc : Reachable Init (standing enrolled) c)
    (hth : c.threads[t]? = some th) {token : ChallengeClaims}
    (htoken : SignInReq.token th.req = some token) (hproven : Proven cfg th.req th.past)
    {m : String} {cl : FactorCall} (hfactor : factor th.req = some (m, cl)) :
    ∃ d th₀, Run (standing enrolled) d c ∧ d.threads[t]? = some th₀ ∧ th₀.pending = some cl ∧
      m ∈ listing d.world token.subject := by
  cases hreq : (th.req : SignInReq) with
  | login | oauth | emailOTP => rw [hreq] at hfactor; cases hfactor
  | totp =>
    rw [hreq] at hfactor hproven htoken
    cases hfactor
    cases htoken
    obtain ⟨totp, secret, step, hread, -, -⟩ := hproven
    obtain ⟨d, th₀, -, hrun, hth₀, hreq₀, hpend, ⟨hok, hr⟩ | ⟨-, e, hr⟩⟩ := hc.told hth hread
    · refine ⟨d, th₀, hrun, hth₀, hpend, mem_methods.mpr (.inl ⟨?_, rfl⟩)⟩
      -- the condition: what a TOTP verification reads is verified
      have hlisted := hok.2
      simp only [listed, hth₀, Option.all_some, hpend, hreq₀, hreq] at hlisted
      exact verified_of_timely hlisted (Except.ok.inj hr).symm
    · cases hr
  | webauthn =>
    rw [hreq] at hfactor hproven htoken
    cases hfactor
    cases htoken
    obtain ⟨existing, session, cred, hread, hsigned⟩ := hproven
    -- the credential that signed is one of those that were read
    obtain ⟨d', -, -, -, -, -, -, ⟨-, hr'⟩ | ⟨-, hr'⟩⟩ := hc.told hth hsigned
    · have hmem : cred ∈ existing.toOption.getD [] := mem_of_find?_eq_some hr'.symm
      obtain ⟨d, th₀, -, hrun, hth₀, -, hpend, ⟨-, hr⟩ | ⟨-, e, hr⟩⟩ := hc.told hth hread
      · refine ⟨d, th₀, hrun, hth₀, hpend, mem_methods.mpr (.inr (.inl ⟨?_, rfl⟩))⟩
        rw [hr] at hmem
        exact ne_nil_of_mem hmem
      · rw [hr] at hmem
        cases hmem
    · cases hr'
  | backupCode =>
    rw [hreq] at hfactor hproven htoken
    cases hfactor
    cases htoken
    obtain ⟨codes, code, hread, hmem, -, -⟩ := hproven
    obtain ⟨d, th₀, -, hrun, hth₀, -, hpend, ⟨-, hr⟩ | ⟨-, e, hr⟩⟩ := hc.told hth hread
    · refine ⟨d, th₀, hrun, hth₀, hpend, mem_methods.mpr (.inr (.inr ⟨?_, rfl⟩))⟩
      rw [← Except.ok.inj hr]
      exact ne_nil_of_mem hmem
    · cases hr

/-- **No session without the owed second factor.** In a service whose MFA service and cache are
wired, whatever fails and whatever the schedule, as long as only listed factors are read and only
challenges that have not ended are consumed: a thread that has stored a refresh token of an account,
or answered with an access token for it,

* if it is a login or an OAuth callback, has read all three factor stores of the account and found
  them empty, none of the factors that stayed enrolled throughout is one of the account's, and no
  factor is required;
* otherwise redeems a challenge of that account, which was accepted, which it has consumed, and
  which no other thread has redeemed; it has proven a factor, and a factor other than a mailed code
  was listed when its handler looked it up;

and it has stored no more than one token. -/
theorem owed_factor (hmfa : cfg.hasMFA) (hcache : cfg.hasCache)
    (hc : Reachable FactorWorld.WellSigned (standing enrolled) c)
    (hth : c.threads[t]? = some th) (hstarts : Starts th u) :
    (SignInReq.token th.req = none →
      ReadNoFactor th.past u ∧ (∀ m, ¬ enrolled u m) ∧ cfg.mfaRequired = false) ∧
    (∀ token, SignInReq.token th.req = some token →
      u = token.subject ∧ Accepted th.past token ∧ Consumed th.past token ∧
      (∀ t' th' u', c.threads[t']? = some th' → SignInReq.token th'.req = some token →
        Starts th' u' → t' = t) ∧
      Proven cfg th.req th.past ∧
      ∀ m cl, SignInReq.factor th.req = some (m, cl) →
        ∃ d th₀, Run (standing enrolled) d c ∧ d.threads[t]? = some th₀ ∧ th₀.pending = some cl ∧
          m ∈ MFAService.listing d.world token.subject) ∧
    ∀ (i j : ℕ) e e', th.past[i]? = some e → th.past[j]? = some e' →
      e.1.stores.isSome → e'.1.stores.isSome → i = j := by
  have hclears := cleared_of_starts hmfa hcache hc hth hstarts
  refine ⟨fun hnone => ?_, fun token htoken => ?_, ?_⟩
  · rw [SignInReq.terms_of_none hnone] at hclears
    obtain ⟨hread, hreq⟩ := hclears
    exact ⟨hread, not_enrolled_of_read hc hth hread, hreq⟩
  · rw [SignInReq.terms_of_token htoken] at hclears
    obtain ⟨haccepted, hconsumed, ⟨user, hget, rfl⟩, hproven⟩ := hclears
    refine ⟨subject_of_read hc hth hget, haccepted, hconsumed, ?_, hproven,
      fun m cl => listed_of_proven hc hth htoken hproven⟩
    intro t' th' u' hth' htoken' hstarts'
    have hclears' := cleared_of_starts hmfa hcache hc hth' hstarts'
    rw [SignInReq.terms_of_token htoken'] at hclears'
    have hred := redemptions_of_reachable hmfa hcache hc
    exact hred.once hth' hth htoken' htoken hclears'.2.1 hconsumed
  · -- behind a store there is no other
    have later : ∀ {i j : ℕ} {e e' : Event factors}, th.past[i]? = some e → th.past[j]? = some e' →
        e.1.stores.isSome → e'.1.stores.isSome → ¬ i < j := by
      intro i j e e' hi hj hse hse' hlt
      obtain ⟨tok, htok⟩ := Option.isSome_iff_exists.mp hse
      have hnothing := (cleared_of_stores hmfa hcache hc hth htok hi).2
      have hmem : e' ∈ th.past.drop (i + 1) := by
        refine List.mem_of_getElem? (i := j - (i + 1)) ?_
        rw [List.getElem?_drop, ← hj]
        congr 1
        omega
      rw [hnothing e' hmem] at hse'
      cases hse'
    intro i j e e' hi hj hse hse'
    have hij := later hi hj hse hse'
    have hji := later hj hi hse' hse
    omega

end Statement

/-- Whom a thread has answered with an access token for. -/
def answeredWith (c : Config (signInService cfg)) (t : ℕ) : Option UserID :=
  ((c.threads[t]?.bind Thread.result).bind SignInResponse.accessToken).map AccessClaims.subject

theorem starts_of_answeredWith {c : Config (signInService cfg)} {t : ℕ} {u : UserID}
    (h : answeredWith c t = some u) : ∃ th, c.threads[t]? = some th ∧ Starts th u := by
  obtain ⟨accessToken, hat, hsub⟩ := Option.map_eq_some_iff.mp h
  obtain ⟨r, hr, hat⟩ := Option.bind_eq_some_iff.mp hat
  obtain ⟨th, hth, hres⟩ := Option.bind_eq_some_iff.mp hr
  exact ⟨th, hth, .inr ⟨r, accessToken, hres, hat, hsub⟩⟩

end System

namespace Sample

def mfaSettings : Settings := { settings with hasMFA := true }

/-- Alice has a security key, and a TOTP secret that she may have verified. -/
def factorWorld (verified : Bool) : FactorWorld where
  world := world
  totpSecrets := [⟨1, "u", some "s", verified⟩]
  credentials := [⟨2, "u", "key", 0, none, false⟩]
  backupCodes := []
  totpStep := fun _ code _ =>
    if code = "111111" then some 1 else if code = "222222" then some 2 else none
  signed := fun _ _ _ => false

/-- The challenge the login is answered with. -/
def challenge : ChallengeClaims where
  subject := "u"
  issuedAt := 1
  expiresAt := 1 + challengeTTL
  jti := 1
  fingerprint := loginInput.fingerprint
  factors := [methodPassword]
  confirmation := none

/-- The request that redeems it with a code. -/
def redeem (code : String) : SignInReq := .totp ⟨challenge, "", code, ⟨"1", "", "", ""⟩, ""⟩

/-- Her key stays enrolled throughout. -/
def keyStands (u : UserID) (m : String) : Prop := u = "u" ∧ m = methodWebAuthn

/-- The test for schedules that meet the condition and keep the key. -/
def keyTest (c : Config (signInService mfaSettings)) (l : Label (signInService mfaSettings)) :
    Bool :=
  (listing c.world "u").contains methodWebAuthn && listed c l

theorem standing_of_keyTest {c : Config (signInService mfaSettings)}
    {l : Label (signInService mfaSettings)} (h : keyTest c l) : standing keyStands c l := by
  obtain ⟨hkey, hlisted⟩ := Bool.and_eq_true_iff.mp h
  refine ⟨?_, hlisted⟩
  rintro u m ⟨rfl, rfl⟩
  exact contains_iff_mem.mp hkey

/-- A login, and the challenge redeemed with a code of the secret. -/
def redeemedOnce : Config (signInService mfaSettings) :=
  (execAll keyTest ⟨factorWorld true, []⟩
    ([.spawn (.login loginInput)] ++ .replicate 17 (.act 0) ++ [.spawn (redeem "111111")] ++
      .replicate 29 (.act 1))).getD ⟨factorWorld true, []⟩

theorem factorWorld_wellSigned (verified : Bool) : (factorWorld verified).WellSigned :=
  nofun

/-- Alice's second factor is answered with an access token; it has consumed the challenge and proven
the code of a secret that was listed. -/
theorem owed_factor_redeemed : ∃ th, redeemedOnce.threads[1]? = some th ∧ Starts th "u" ∧
    Consumed th.past challenge ∧ Proven mfaSettings th.req th.past := by
  have hanswered : answeredWith redeemedOnce 1 = some "u" := by decide +kernel
  obtain ⟨th, hth, hstarts⟩ := starts_of_answeredWith hanswered
  have hc : Reachable FactorWorld.WellSigned (standing keyStands) redeemedOnce :=
    ⟨factorWorld true, factorWorld_wellSigned true,
      run_execAll (fun _ _ => standing_of_keyTest) _ _⟩
  have htoken : (redeemedOnce.threads[1]?.map fun th => SignInReq.token th.req) =
      some (some challenge) := by decide +kernel
  rw [hth] at htoken
  obtain ⟨-, hsecond, -⟩ := owed_factor rfl rfl hc hth hstarts
  obtain ⟨-, -, hconsumed, -, hproven, -⟩ := hsecond challenge (Option.some.inj htoken)
  exact ⟨th, hth, hstarts, hconsumed, hproven⟩

/-- The secret is not verified; a code of it is accepted. -/
def unlistedProven : Config (signInService mfaSettings) :=
  (execAll (fun _ _ => true) ⟨factorWorld false, []⟩
    ([.spawn (.login loginInput)] ++ .replicate 17 (.act 0) ++ [.spawn (redeem "111111")] ++
      .replicate 8 (.act 1))).getD ⟨factorWorld false, []⟩

/-- The write that would have marked the secret as verified fails. -/
def markFails : (cl : FactorCall) → Option cl.Reply
  | .markTOTPVerified _ => some (.error .backend)
  | _ => none

theorem markFails_fault (cl : FactorCall) (r : cl.Reply) (h : markFails cl = some r) :
    FactorFault cl r := by
  cases cl with
  | markTOTPVerified => exact ⟨.backend, (Option.some.inj h).symm⟩
  | _ => cases h

def unlistedFailed : Config (signInService mfaSettings) :=
  (execFault markFails unlistedProven 1).getD unlistedProven

/-- The login is completed all the same. -/
def unlistedRedeemed : Config (signInService mfaSettings) :=
  (execAll (fun _ _ => true) unlistedFailed (.replicate 22 (.act 1))).getD unlistedFailed

/-- The challenge is redeemed when it is issued. A second request is let in at the last instant of
the challenge, and consumes it when both the challenge and the mark have ended. -/
def redeemedTwice : Config (signInService mfaSettings) :=
  (execAll (fun _ _ => true) redeemedOnce
    ([.nudge (.vault (.tick (challengeTTL.toNat - 1))), .spawn (redeem "222222"), .act 2,
      .nudge (.vault (.tick 1))] ++ .replicate 27 (.act 2))).getD redeemedOnce

/-- **A factor that is not listed, and a challenge that is redeemed twice.** Alice's key is the only
factor that `GetStatus` lists when the code of an unverified secret is accepted, and it still is
when that code has been answered with an access token. And two requests are answered with one for
the same challenge. -/
theorem unlisted_factor_redeemed :
    (Reachable FactorWorld.WellSigned anyStep unlistedProven ∧
      Run anyStep unlistedProven unlistedRedeemed ∧
      MFAService.listing unlistedProven.world "u" = [methodWebAuthn] ∧
      MFAService.listing unlistedRedeemed.world "u" = [methodWebAuthn] ∧
      answeredWith unlistedProven 1 = none ∧ answeredWith unlistedRedeemed 1 = some "u") ∧
    Reachable FactorWorld.WellSigned anyStep redeemedTwice ∧
      redeemedTwice.threads.map (fun th => SignInReq.token th.req) =
        [none, some challenge, some challenge] ∧
      answeredWith redeemedTwice 1 = some "u" ∧ answeredWith redeemedTwice 2 = some "u" := by
  refine ⟨⟨⟨factorWorld false, factorWorld_wellSigned false, ?_⟩, ?_, ?_⟩, ⟨?_, ?_⟩, ?_⟩
  · exact run_execAll (fun _ _ _ => trivial) _ _
  · exact (run_execFault markFails_fault _ _).trans (run_execAll (fun _ _ _ => trivial) _ _)
  · decide +kernel
  · exact factorWorld true
  · refine ⟨factorWorld_wellSigned true, Run.trans ?_ (run_execAll (fun _ _ _ => trivial) _ _)⟩
    exact (run_execAll (fun _ _ => standing_of_keyTest) _ _).mono fun _ _ _ => trivial
  · decide +kernel

end Sample

end Vault42
