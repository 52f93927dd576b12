import Vault42.Session.Revocation
import Mathlib.Algebra.Ring.Nat

/-!
# The sender constraint

A login under a DPoP proof binds its family to the key of the proof. From then on the binding is the
family's: a rotation has to prove the key, and what it issues is bound to the same key, or to none
if the family is unbound, whatever the request proved.

* `Presenting` is what a refresh has shown of this along its conversation, and `refresh_presents`
  proves it of the handler: it answers with a pair only when the key was proved, the access token
  confirms the family's binding, and a refresh that was refused for its key has made no statement
  that could write the token table.
* `Bindings` is the invariant of the table: the rows of a family agree on the key, under any
  schedule and with any reaper.
* `holder_unharmed` is about a chain of requests, one after another: requests that present the
  holder's token under another key do not take its next refresh away from the holder.

`sender_constraint` puts the three together.
-/

namespace Vault42

open Framework Program List TokenStore

/-! ### What a refresh shows -/

/-- The statements that can write the token table or take locks on it. -/
def TokenCall.touches : TokenCall → Bool
  | .getByTokenHash _ => false
  | .familyOrigin _ => false
  | .countActiveFamilies _ => false
  | _ => true

/-- What a refresh has shown of the sender constraint. -/
structure Presenting where
  /-- The row of the token it presented. -/
  stored : Option RefreshToken
  /-- It did not prove the family's key. -/
  refused : Bool
  /-- It has made a statement that can write the token table. -/
  touched : Bool
  /-- The token it has inserted. -/
  created : Option RefreshToken

namespace Presenting

def start : Presenting := ⟨none, false, false, none⟩

def nextToken (φ : Presenting) : (q : TokenCall) → q.Reply → Presenting
  | .getByTokenHash _, .ok (some stored) => { φ with stored := some stored }
  | .create tok, .ok .inserted => { φ with touched := true, created := some tok }
  | q, _ => { φ with touched := φ.touched || q.touches }

def next (φ : Presenting) : (c : Call) → c.Reply → Presenting
  | .tokens q, r => φ.nextToken q r
  | .audit e, _ => { φ with refused := φ.refused || e.kind == .dpopBindingMismatch }
  | _, _ => φ

end Presenting

/-- The automaton that watches a refresh present its token. It allows everything. -/
def presenting : Discipline vault where
  Phase := Presenting
  start := .start
  Allows _ _ := True
  Admits _ _ _ := True
  next := Presenting.next

namespace Presenting

variable {cfg : Settings} {φ ψ : Presenting} {α β : Type}

/-- The row that was read and the verdict on the key are what they were. -/
structure Same (φ ψ : Presenting) : Prop where
  stored : ψ.stored = φ.stored
  refused : ψ.refused = φ.refused

theorem Same.trans {χ : Presenting} (h : φ.Same ψ) (h' : ψ.Same χ) : φ.Same χ :=
  ⟨h'.stored.trans h.stored, h'.refused.trans h.refused⟩

/-- A call that presents no token and passes no verdict on a key. -/
def Plain : Call → Prop
  | .tokens (.getByTokenHash _) => False
  | .audit e => e.kind ≠ .dpopBindingMismatch
  | _ => True

theorem same_next {c : Call} (h : Plain c) (r : c.Reply) : φ.Same (φ.next c r) := by
  cases c with
  | tokens q =>
    cases q with
    | getByTokenHash => cases h
    | create =>
      rcases r with e | o
      · exact ⟨rfl, rfl⟩
      · cases o <;> exact ⟨rfl, rfl⟩
    | _ => exact ⟨rfl, rfl⟩
  | audit e =>
    have hkind : (e.kind == AuditKind.dpopBindingMismatch) = false := beq_eq_false_iff_ne.mpr h
    refine ⟨rfl, ?_⟩
    show (φ.refused || e.kind == .dpopBindingMismatch) = φ.refused
    rw [hkind, Bool.or_false]
  | _ => exact ⟨rfl, rfl⟩

theorem refused_next {c : Call} (r : c.Reply) (h : φ.refused) : (φ.next c r).refused := by
  cases c with
  | tokens q =>
    cases q with
    | getByTokenHash => rcases r with _ | _ | stored <;> exact h
    | create =>
      rcases r with e | o
      · exact h
      · cases o <;> exact h
    | _ => exact h
  | audit e =>
    show (φ.refused || e.kind == .dpopBindingMismatch)
    rw [h, Bool.true_or]
  | _ => exact h

theorem touched_nextToken {q : TokenCall} (r : q.Reply) (h : φ.touched ∨ q.touches) :
    (φ.nextToken q r).touched := by
  have hor : (φ.touched || q.touches) := by simpa using h
  cases q with
  | getByTokenHash =>
    have htouched : φ.touched := h.resolve_right (by simp [TokenCall.touches])
    rcases r with _ | _ | stored
    · exact hor
    · exact hor
    · exact htouched
  | create =>
    rcases r with e | o
    · exact hor
    · cases o with
      | inserted => rfl
      | familyRevoked => exact hor
  | _ => exact hor

theorem touched_of_touches {q : TokenCall} (r : q.Reply) (h : q.touches) :
    (φ.next (.tokens q) r).touched := touched_nextToken r (.inr h)

theorem touched_next {c : Call} (r : c.Reply) (h : φ.touched) : (φ.next c r).touched := by
  cases c with
  | tokens => exact touched_nextToken r (.inl h)
  | _ => exact h

theorem obeys_of_plain {p : Prog α} (hp : p.Within Plain) :
    p.Obeys presenting (fun ψ _ => φ.Same ψ) φ :=
  hp.keeps ⟨rfl, rfl⟩ fun _ _ hψ hc => ⟨trivial, fun r => hψ.trans (same_next hc r)⟩

open AuthService RefreshTokenRepo

theorem reviews_plain : Reviews Plain where
  now := trivial
  getByID _ := trivial
  audit _ h := h
  revoking q _ := by cases q <;> trivial

theorem revokeThen_presents (stored : RefreshToken) {kind : AuditKind} (reason : String)
    (e : AuthError) (hkind : kind ≠ .dpopBindingMismatch) :
    (revokeThen stored kind reason (.error e : Except AuthError α)).Obeys presenting
      (fun ψ r => φ.Same ψ ∧ r = .error e) φ := by
  refine (obeys_of_plain (revokeThen_within reviews_plain stored hkind reason _)).and_yields ?_
  exact yields_bind fun _ => yields_bind fun _ => rfl

theorem effectiveRoles_plain {roles : List String} : (effectiveRoles cfg roles).Within Plain := by
  refine .bind (.ite ?_ trivial) fun _ => trivial
  refine .bind (.call trivial) fun r => ?_
  cases r <;> trivial

/-- What a rotation that succeeds has issued: an access token that confirms the binding of the row
that was spent, and a refresh token in a row of the same family. -/
structure Issues (stored : RefreshToken) (ψ : Presenting) (access : AccessClaims) (token : ℕ) :
    Prop where
  confirms : access.confirmation = nullStr stored.dpopJKT
  created : ∃ tok, ψ.created = some tok ∧ tok.familyID = stored.familyID ∧
    tok.tokenHash = sha256Hex token

/-- The thumbprint of the request is replaced by the family's before anything is minted. -/
theorem mint_confirms (stored : RefreshToken) (roles : List String) (fp : Fingerprint)
    (origin : Time) :
    (TokenService.issueRotatedPair cfg stored.dpopJKT stored.userID roles ["read", "write"]
      stored.clientID fp stored.familyID origin).Obeys presenting
      (fun ψ pair => φ.Same ψ ∧ pair.accessToken.confirmation = nullStr stored.dpopJKT) φ := by
  refine Obeys.and_yields (obeys_of_plain ?_) ?_
  · refine .bind (.bind (.call trivial) fun _ => .bind (.call trivial) fun _ =>
      .bind (.call trivial) fun _ => ?_) fun _ => trivial
    trivial
  · refine Yields.bind ?_ fun pair h => h
    exact fun now jti token => rfl

theorem issueRotatedPair_presents (stored : RefreshToken) (roles : List String) (fp : Fingerprint)
    (origin : Time) :
    (AuthService.issueRotatedPair cfg stored roles fp origin).Obeys presenting
      (fun ψ r => φ.Same ψ ∧
        ∀ pair, r = .ok pair → Issues stored ψ pair.accessToken pair.refreshToken) φ := by
  refine (mint_confirms stored roles fp origin).bind fun ψ pair ⟨hψ, hconf⟩ => ?_
  refine .call trivial fun newID _ => .call trivial fun now _ => ?_
  refine .call trivial fun r _ => ?_
  rcases r with e | o
  · exact ⟨hψ.trans ⟨rfl, rfl⟩, nofun⟩
  cases o with
  | inserted =>
    refine ⟨hψ.trans ⟨rfl, rfl⟩, ?_⟩
    rintro _ ⟨⟩
    exact ⟨hconf, _, rfl, rfl, rfl⟩
  | familyRevoked =>
    refine (revokeThen_presents stored _ _ (by decide)).mono fun χ r h => ?_
    refine ⟨hψ.trans ⟨h.1.stored, h.1.refused⟩, fun _ hr => ?_⟩
    rw [h.2] at hr
    cases hr

theorem spend_presents (stored : RefreshToken) (fp : Fingerprint) (origin : Time) :
    (AuthService.spend cfg stored fp origin).Obeys presenting
      (fun ψ r => φ.Same ψ ∧
        ∀ res, r = .ok res → Issues stored ψ res.accessToken res.refreshToken) φ := by
  refine .call trivial fun r _ => ?_
  rcases r with e | _ | _
  · exact ⟨⟨rfl, rfl⟩, nofun⟩
  · refine (obeys_of_plain (containRefreshReuse_within reviews_plain stored _)).bind fun ψ _ h => ?_
    exact ⟨⟨h.stored, h.refused⟩, nofun⟩
  refine (obeys_of_plain (accountStillHoldsSessions_within reviews_plain stored)).bind
    fun ψ r hψ => ?_
  have hsame : φ.Same ψ := ⟨hψ.stored, hψ.refused⟩
  rcases r with e | user
  · exact ⟨hsame, nofun⟩
  refine (obeys_of_plain effectiveRoles_plain).bind fun χ roles hχ => ?_
  refine (issueRotatedPair_presents stored roles fp origin).bind fun ω r ⟨hω, hissues⟩ => ?_
  have hs : φ.Same ω := (hsame.trans hχ).trans hω
  rcases r with e | pair
  · exact ⟨hs, nofun⟩
  refine .call trivial fun _ _ => .call trivial fun now _ => ?_
  refine ⟨hs.trans (same_next (c := .audit ⟨.tokenRefresh, stored.userID, "", none⟩) ?_ ()), ?_⟩
  · exact show AuditKind.tokenRefresh ≠ .dpopBindingMismatch by decide
  · rintro _ ⟨⟩
    obtain ⟨hconf, hcreated⟩ := hissues pair rfl
    exact ⟨hconf, hcreated⟩

/-- A check that goes on has touched nothing. -/
def Untouched (φ ψ : Presenting) (r : Except AuthError α) : Prop :=
  φ.Same ψ ∧ ∀ a, r = .ok a → ψ.touched = φ.touched

theorem untouched_error (h : φ.Same ψ) (e : AuthError) :
    φ.Untouched ψ (.error e : Except AuthError α) := ⟨h, nofun⟩

theorem enforceSessionLifetime_presents (stored : RefreshToken) :
    (enforceSessionLifetime cfg stored).Obeys presenting (φ.Untouched) φ := by
  have hdated : ∀ r, (presenting.next φ (.tokens (.familyOrigin stored.familyID)) r) = φ := by
    intro r
    show ({ φ with touched := φ.touched || false } : Presenting) = φ
    rw [Bool.or_false]
  have unknown : ∀ b, (enforceSessionLifetime.unknown stored b).Obeys presenting φ.Untouched φ := by
    intro b
    unfold enforceSessionLifetime.unknown
    split
    · exact (obeys_of_plain (auditLog_within reviews_plain (by decide) _ _)).bind fun _ _ h =>
        untouched_error h _
    · exact ⟨⟨rfl, rfl⟩, fun _ _ => rfl⟩
  refine .call trivial fun r _ => ?_
  rw [hdated]
  rcases r with e | origin
  · exact unknown _
  dsimp only
  split
  · exact unknown _
  split
  · refine .call trivial fun now _ => ?_
    split
    · exact ⟨⟨rfl, rfl⟩, fun _ _ => rfl⟩
    · refine (revokeThen_presents stored _ _ (by decide)).mono fun ψ r h => ?_
      rw [h.2]
      exact untouched_error h.1 _
  · exact ⟨⟨rfl, rfl⟩, fun _ _ => rfl⟩

theorem enforceSessionInactivity_presents (stored : RefreshToken) :
    (enforceSessionInactivity cfg stored).Obeys presenting φ.Untouched φ := by
  unfold enforceSessionInactivity
  split
  · exact ⟨⟨rfl, rfl⟩, fun _ _ => rfl⟩
  split
  · exact (obeys_of_plain (auditLog_within reviews_plain (by decide) _ _)).bind fun _ _ h =>
      untouched_error h _
  refine .call trivial fun now _ => ?_
  split
  · exact ⟨⟨rfl, rfl⟩, fun _ _ => rfl⟩
  · refine (revokeThen_presents stored _ _ (by decide)).mono fun ψ r h => ?_
    rw [h.2]
    exact untouched_error h.1 _

/-- **What a finished refresh has shown.** A pair is only given to a request that proved the key of
the row it presented, and confirms that row's binding; a refusal for the key comes before any
statement that could write the token table. -/
structure Shown (jkt : String) (ψ : Presenting) (r : Except AuthError RefreshResult) : Prop where
  proved : ∀ res, r = .ok res → ∃ stored, ψ.stored = some stored ∧
    (stored.dpopJKT = "" ∨ stored.dpopJKT = jkt) ∧
      Issues stored ψ res.accessToken res.refreshToken
  untouched : ψ.refused → ψ.touched = false ∧ ∃ e, r = .error e

theorem shown_error {jkt : String} (h : ψ.refused = false) (e : AuthError) :
    ψ.Shown jkt (.error e) := by
  refine ⟨nofun, fun htrue => ?_⟩
  rw [h] at htrue
  cases htrue

theorem checkAndSpend_presents (stored : RefreshToken) (fp : Fingerprint) (jkt : String)
    (hst : φ.stored = some stored) (hr : φ.refused = false) (ht : φ.touched = false) :
    (checkAndSpend cfg stored fp jkt).Obeys presenting (Shown jkt) φ := by
  refine .call trivial fun now _ => ?_
  split
  · exact shown_error hr _
  refine (enforceSessionLifetime_presents stored).bind fun ψ r ⟨hψ, htψ⟩ => ?_
  rcases r with e | origin
  · exact shown_error (hψ.refused.trans hr) _
  refine (enforceSessionInactivity_presents stored).bind fun χ r ⟨hχ, htχ⟩ => ?_
  have hs : φ.Same χ := Same.trans hψ hχ
  have hrχ : χ.refused = false := hs.refused.trans hr
  rcases r with e | _
  · exact shown_error hrχ _
  have htouch : χ.touched = false := (htχ () rfl).trans ((htψ origin rfl).trans ht)
  dsimp only
  split
  · refine (revokeThen_presents stored _ _ (by decide)).mono fun ω r h => ?_
    rw [h.2]
    exact shown_error (h.1.refused.trans hrχ) _
  -- the key is checked before the token is spent
  have spends : (stored.dpopJKT = "" ∨ stored.dpopJKT = jkt) →
      (AuthService.spend cfg stored fp origin).Obeys presenting (Shown jkt) χ := by
    intro hkey
    refine (spend_presents stored fp origin).mono fun ω r ⟨hω, hissues⟩ => ?_
    refine ⟨fun res hres => ⟨stored, ?_, hkey, hissues res hres⟩, fun htrue => ?_⟩
    · rw [hω.stored, hs.stored, hst]
    · rw [hω.refused, hrχ] at htrue
      cases htrue
  unfold enforceDPoPBinding
  by_cases hnone : stored.dpopJKT = ""
  · rw [if_pos hnone]
    exact spends (.inl hnone)
  rw [if_neg hnone]
  by_cases hproved : jkt ≠ "" ∧ stored.dpopJKT = jkt
  · rw [if_pos hproved]
    exact spends (.inr hproved.2)
  rw [if_neg hproved]
  refine .call trivial fun _ _ => ?_
  exact ⟨nofun, fun _ => ⟨htouch, _, rfl⟩⟩

theorem refresh_presents (input : RefreshInput) :
    (refresh cfg input).Obeys presenting (Shown input.jkt) presenting.start := by
  refine .call trivial fun r _ => ?_
  rcases r with e | _ | stored
  · exact shown_error rfl _
  · exact shown_error rfl _
  dsimp only
  split
  · exact shown_error rfl _
  split
  · refine (obeys_of_plain (containRefreshReuse_within reviews_plain stored _)).bind fun ψ _ h => ?_
    exact shown_error (h.refused.trans rfl) _
  · exact checkAndSpend_presents stored _ _ rfl rfl rfl

end Presenting

/-! ### The keys of the table -/

/-- **Bindings.** The rows ever committed under one family id agree on the key, and a key is not
empty. -/
structure Bindings (s : TokenStore) : Prop where
  agree : ∀ {r r'}, .inserted r ∈ s.log → .inserted r' ∈ s.log → r.familyID = r'.familyID →
    r.dpopJKT = r'.dpopJKT
  proper : ∀ {r}, .inserted r ∈ s.log → r.dpopJKT ≠ some ""
  pending : ∀ {x r}, x ∈ s.txns → x.inserted = some r → r.dpopJKT ≠ some ""

namespace Bindings

section Step

variable {cap : ℤ} {t : ℕ} {w : World} {φ φ' : Custody} {cl : Call} {s' : TokenStore} {n' : ℕ}
  {ps : List (Req × Custody)} {req : Req}

/-- The first row of a family takes the key of the login. -/
theorem proper_of_firstborn (hL : Ledger w.tokens w.supply ps) (hat : At ps t φ)
    {tok : RefreshToken} (hfresh : φ.Fresh tok) (hborn : φ.Firstborn tok) :
    (w.tokens.rowToInsert tok).dpopJKT ≠ some "" := by
  have hnil : w.tokens.family tok.familyID = [] := family_eq_nil fun r hr hf =>
    hL.not_logged_of_firstborn hat hfresh hborn (hL.rows_logged r hr) hf
  have hlen : (w.tokens.family tok.familyID).length = 0 := by rw [hnil]; rfl
  simp only [rowToInsert, if_pos hlen]
  exact nullStr_ne_empty

/-- A successor takes the key of the row it replaces. It is read back from the family, and if the
reaper has left no row of it, the handler passes the same key. -/
theorem dpopJKT_of_successor (hB : Bindings w.tokens) (hL : Ledger w.tokens w.supply ps)
    {tok stored : RefreshToken} (hsucc : φ.Successor tok stored) {r : Row}
    (hr : .inserted r ∈ w.tokens.log) (hmodel : r.toModel = stored.pristine) :
    (w.tokens.rowToInsert tok).dpopJKT = r.dpopJKT := by
  have hfam : r.familyID = tok.familyID :=
    (congrArg RefreshToken.familyID hmodel).trans hsucc.family.symm
  have hkey : deref r.dpopJKT = tok.dpopJKT :=
    (congrArg RefreshToken.dpopJKT hmodel).trans hsucc.jkt.symm
  have agree : ∀ r' ∈ w.tokens.family tok.familyID, r'.dpopJKT = r.dpopJKT := by
    intro r' hr'
    obtain ⟨hr', hf'⟩ := mem_family.mp hr'
    have hkey' := hB.agree (hL.rows_logged r' hr') hr (hf'.trans hfam.symm)
    exact hkey'
  by_cases hlen : (w.tokens.family tok.familyID).length = 0
  · simp only [rowToInsert, if_pos hlen]
    rw [← hkey]
    exact nullStr_deref (hB.proper hr)
  · obtain ⟨r₀, hr₀⟩ := exists_mem_of_length_pos (Nat.pos_of_ne_zero hlen)
    have hrow := rowToInsert_dpopJKT hr₀ fun r' hr' =>
      (agree r' hr').trans (agree r₀ hr₀).symm
    rw [hrow]
    exact agree r₀ hr₀

/-- **A committed row has a proper key, and agrees on it with its family.** -/
theorem key_of_born (hB : Bindings w.tokens) (hL : Ledger w.tokens w.supply ps) (hat : At ps t φ)
    {row : Row} (hb : Born cap t w φ cl φ' row) :
    row.dpopJKT ≠ some "" ∧ ∀ r, .inserted r ∈ w.tokens.log → r.familyID = row.familyID →
      r.dpopJKT = row.dpopJKT := by
  cases hb with
  | created hfresh htxn hkind =>
    rcases hkind with ⟨-, hborn⟩ | ⟨stored, hsucc⟩
    · refine ⟨proper_of_firstborn hL hat hfresh hborn, fun r hr hf => ?_⟩
      exact (hL.not_logged_of_firstborn hat hfresh hborn hr hf).elim
    · obtain ⟨r₁, hr₁, hmodel⟩ := hL.spent_logged hat hsucc.rotation
      have hkey := hB.dpopJKT_of_successor hL hsucc hr₁ hmodel
      have hfam : r₁.familyID = stored.familyID :=
        congrArg RefreshToken.familyID hmodel
      refine ⟨?_, fun r hr hf => ?_⟩
      · rw [hkey]
        exact hB.proper hr₁
      · rw [hkey]
        exact hB.agree hr hr₁ (hf.trans (hsucc.family.trans hfam.symm))
  | committed hx howner hrow =>
    refine ⟨hB.pending hx hrow, fun r hr hf => ?_⟩
    exact ((hL.pending_new hx hrow hr).2 hf).elim

/-- **One step keeps the bindings**, whatever it is. -/
theorem step (hB : Bindings w.tokens) (hL : Ledger w.tokens w.supply ps) (hat : At ps t φ)
    (h : TableStep cap t w φ cl s' n' φ') : Bindings s' := by
  obtain ⟨born, hborn, -, hlog, -⟩ := h.rows
  refine ⟨?_, ?_, ?_⟩
  · intro r r' hr hr' hf
    rcases (hlog r).mp hr with hb | hold <;> rcases (hlog r').mp hr' with hb' | hold'
    · rw [Option.mem_unique hb hb']
    · exact ((hB.key_of_born hL hat (hborn r hb)).2 r' hold' hf.symm).symm
    · exact (hB.key_of_born hL hat (hborn r' hb')).2 r hold hf
    · exact hB.agree hold hold' hf
  · intro r hr
    rcases (hlog r).mp hr with hb | hold
    · exact (hB.key_of_born hL hat (hborn r hb)).1
    · exact hB.proper hold
  · intro x r hx hr
    rcases h.pending hx hr with ⟨y, hy, -, hyr⟩ | ⟨-, -, -, tok, rfl, hfresh, hborn, -⟩
    · exact hB.pending hy hyr
    · exact proper_of_firstborn hL hat hfresh hborn

end Step

end Bindings

/-- A well-formed world whose families are bound consistently. -/
structure World.Bound (w : World) : Prop where
  wellFormed : w.WellFormed
  agree : ∀ r ∈ w.tokens.rows, ∀ r' ∈ w.tokens.rows, r.familyID = r'.familyID →
    r.dpopJKT = r'.dpopJKT
  proper : ∀ r ∈ w.tokens.rows, r.dpopJKT ≠ some ""

theorem World.Bound.bindings {w : World} (h : w.Bound) : Bindings w.tokens := by
  refine ⟨?_, ?_, fun hx => ?_⟩
  · intro r r' hr hr' hf
    obtain ⟨r₀, hr₀, rfl⟩ := h.wellFormed.row_of_logged hr
    obtain ⟨r₁, hr₁, rfl⟩ := h.wellFormed.row_of_logged hr'
    exact h.agree r₀ hr₀ r₁ hr₁ hf
  · intro r hr
    obtain ⟨r₀, hr₀, rfl⟩ := h.wellFormed.row_of_logged hr
    exact h.proper r₀ hr₀
  · rw [h.wellFormed.txns] at hx
    cases hx

theorem bindings_invariant (cfg : Settings) :
    TableInvariant cfg World.Bound anyStep (fun _ s n ps => Ledger s n ps ∧ Bindings s) where
  init w hw := ⟨hw.wellFormed.ledger, hw.bindings⟩
  spawn _ _ _ _ r h := ⟨h.1.spawn r, h.2⟩
  refused w ps t r φ b ν h hat := by
    have hstep : TableStep cfg.maxSessionsPerUser t w φ .now w.tokens w.supply _ := .aside .now b ν
    exact ⟨h.1.step hstep ⟨r, hat⟩, h.2⟩
  step c t r φ cl s' n' φ' _ h hat _ _ hstep :=
    ⟨h.1.step hstep ⟨r, hat⟩, h.2.step h.1 ⟨r, hat⟩ hstep⟩
  tick _ _ _ _ _ h := h
  disconnect _ _ _ _ t h :=
    ⟨h.1.rollback t, h.2.agree, h.2.proper, fun hx => h.2.pending (mem_filter_owner hx).1⟩

/-! ### The tokens that are handed out -/

namespace Presenting

section World

variable {cfg : Settings} {φ : Presenting} {t : ℕ} {w : World} {c : Call}

/-- A token that a thread notes as created is in the table's history. -/
theorem created_of_answer (t : ℕ) (w : World) (c : Call) :
    (φ.next c (answer t c w).1).created = φ.created ∨
      ∃ tok, (φ.next c (answer t c w).1).created = some tok ∧
        .inserted (w.tokens.rowToInsert tok) ∈ (answer t c w).2.tokens.log := by
  cases c with
  | tokens q =>
    cases q with
    | getByTokenHash hash =>
      refine .inl ?_
      show (φ.nextToken (.getByTokenHash hash) (.ok (w.tokens.getByTokenHash hash))).created = _
      cases w.tokens.getByTokenHash hash <;> rfl
    | create tok =>
      simp only [answer, answerTokens, create]
      split
      · split
        · exact .inl rfl
        · exact .inr ⟨tok, rfl, mem_cons_self⟩
      · exact .inl rfl
    | _ => exact .inl rfl
  | _ => exact .inl rfl

theorem created_of_fault {r : c.Reply} (hr : Fault c r) : (φ.next c r).created = φ.created := by
  cases c with
  | tokens q =>
    cases q with
    | rollback => cases hr
    | _ =>
      obtain ⟨e, rfl⟩ := hr
      rfl
  | _ => rfl

/-- What a thread that has served a refresh has shown. -/
def post : Req → Presenting → Response → Prop
  | .refresh input, ψ, .refresh r => ψ.Shown input.jkt r
  | _, _, _ => True

/-- The tokens noted as created have been committed. -/
def Recorded (s : TokenStore) (ps : List (Req × Presenting)) : Prop :=
  ∀ (t : ℕ) req ψ tok, ps[t]? = some (req, ψ) →
    ψ.created = some tok →
    ∃ r, .inserted r ∈ s.log ∧ r.familyID = tok.familyID ∧ r.tokenHash = tok.tokenHash

variable {ps : List (Req × Presenting)} {s : TokenStore}

theorem Recorded.mono {s' : TokenStore} (h : Recorded s ps) (hlog : s.log ⊆ s'.log) :
    Recorded s' ps := by
  intro t req ψ tok hat hcreated
  obtain ⟨r, hr, hcols⟩ := h t req ψ tok hat hcreated
  exact ⟨r, hlog hr, hcols⟩

/-- One thread has moved on, and what it notes as created is still in the history. -/
theorem Recorded.set (h : Recorded s ps) {req : Req} {ψ : Presenting}
    (hψ : ∀ tok, ψ.created = some tok →
      ∃ r, .inserted r ∈ s.log ∧ r.familyID = tok.familyID ∧ r.tokenHash = tok.tokenHash) :
    Recorded s (ps.set t (req, ψ)) := by
  intro u req' χ tok hat hcreated
  rcases At.of_set ⟨req', hat⟩ with ⟨-, rfl⟩ | ⟨-, r, hold⟩
  · exact hψ tok hcreated
  · exact h u r χ tok hold hcreated

theorem Recorded.spawn (h : Recorded s ps) (req : Req) : Recorded s (ps ++ [(req, .start)]) := by
  intro t req' ψ tok hat hcreated
  rcases At.of_append ⟨req', hat⟩ with ⟨r, hold⟩ | ⟨-, rfl⟩
  · exact h t r ψ tok hold hcreated
  · cases hcreated

theorem serve_presents (cfg : Settings) (r : Req) :
    (serve cfg r).Obeys presenting (post r) presenting.start := by
  have anything : ∀ p : Prog Response, p.Obeys presenting (fun _ _ => True) presenting.start :=
    fun p => obeys_of_allows (fun _ _ => trivial) p
  cases r with
  | refresh input => exact (refresh_presents input).bind fun _ _ h => h
  | _ => exact (anything _).mono fun _ _ _ => trivial

theorem presenting_keeps (cfg : Settings) (Init : World → Prop) :
    Keeps (M := service cfg) Init anyStep presenting post
      (fun (w : World) ps => Recorded w.tokens ps) where
  program := serve_presents cfg
  init w _ := fun t req ψ tok hat => by cases hat
  spawn w ps r h := h.spawn r
  act c t th cl _ h hth _ _ _ _ := by
    have hlog := (answer_log t cl c.world).subset
    refine ⟨trivial, (h.mono hlog).set fun tok hcreated => ?_⟩
    rcases created_of_answer (φ := presenting.phase th.past) t c.world cl with heq |
      ⟨tok', heq, hin⟩
    · obtain ⟨r, hr, hcols⟩ := h t th.req _ tok (c.phases_getElem? presenting hth)
        (heq.symm.trans hcreated)
      exact ⟨r, hlog hr, hcols⟩
    · obtain rfl := Option.mem_unique heq hcreated
      exact ⟨_, hin, rfl, rfl⟩
  fault c t th cl r _ h hth _ hr _ _ := by
    refine ⟨trivial, h.set fun tok hcreated => ?_⟩
    have heq := created_of_fault (φ := presenting.phase th.past) hr
    exact h t th.req _ tok (c.phases_getElem? presenting hth) (heq.symm.trans hcreated)
  nudge c n _ h _ := by
    cases n with
    | addUser u =>
      obtain ⟨-, htokens, -⟩ := nudge_addUser u c.world
      change Recorded (nudge (.addUser u) c.world).tokens _
      rw [htokens]
      exact h
    | _ => exact h

/-- The row a refresh presents, seen by either automaton. -/
theorem stored_phase (past : List (Event vault)) :
    (presenting.phase past).stored = ((custody cfg).phase past).rotation.stored := by
  induction past with
  | nil => rfl
  | cons e past ih =>
    obtain ⟨c, r⟩ := e
    rw [Discipline.phase_cons, Discipline.phase_cons]
    generalize presenting.phase past = φ at ih ⊢
    generalize (custody cfg).phase past = ψ at ih ⊢
    show (φ.next c r).stored = (Custody.next ψ c r).rotation.stored
    cases c with
    | now =>
      show φ.stored = (Custody.readClock r ψ.rotation).stored
      rw [Custody.stored_readClock]
      exact ih
    | tokens q =>
      cases q with
      | getByTokenHash => rcases r with _ | _ | stored <;> first | exact ih | rfl
      | create =>
        rcases r with e | o
        · exact ih
        · cases o with
          | inserted => exact ih.trans Custody.stored_close.symm
          | familyRevoked => exact ih
      | markUsed =>
        rcases r with e | b
        · exact ih
        · cases b with
          | false => exact ih.trans Custody.stored_lose.symm
          | true => exact ih.trans Custody.stored_spend.symm
      | insertInTxn =>
        rcases r with e | o
        · exact ih
        · cases o <;> exact ih
      | rollback => exact ih
      | _ => rcases r with e | o <;> exact ih
    | _ => exact ih

end World

end Presenting

/-! ### Chains of requests -/

section Chain

open AuthService

variable {cfg : Settings} {w : World} {stored : RefreshToken} {t : ℕ} {fp : Fingerprint}

/-- **What a refresh checks before the key**: the row is live and not expired, the session is within
both of its bounds, and the device is the one the row was issued to. -/
structure Ready (cfg : Settings) (w : World) (stored : RefreshToken) (fp : Fingerprint) : Prop where
  unrevoked : stored.revoked = false
  unused : stored.used = false
  unexpired : ¬ stored.expiresAt < w.clock
  life : 0 < cfg.maxSessionLifetime → w.tokens.familyOrigin stored.familyID ≠ 0 ∧
    w.clock < w.tokens.familyOrigin stored.familyID + cfg.maxSessionLifetime
  idle : 0 < cfg.inactivityTimeout → stored.createdAt ≠ 0 ∧
    w.clock < stored.createdAt + cfg.inactivityTimeout
  device : stored.fingerprintHash = none ∨ stored.fingerprintHash = some fp

/-- What is in time now was in time before. -/
theorem Ready.earlier {d : ℕ} (h : Ready cfg { w with clock := w.clock + d } stored fp) :
    Ready cfg w stored fp := by
  have hle : w.clock ≤ w.clock + d := by lia
  refine ⟨h.unrevoked, h.unused, fun hlt => h.unexpired (lt_of_lt_of_le hlt hle), fun hL => ?_,
    fun hI => ?_, h.device⟩
  · exact ⟨(h.life hL).1, lt_of_le_of_lt hle (h.life hL).2⟩
  · exact ⟨(h.idle hI).1, lt_of_le_of_lt hle (h.idle hI).2⟩

theorem revokeThen_ends {α : Type} {kind : AuditKind} {reason : String} {a : α} :
    (revokeThen stored kind reason a).Ends (answer t) w fun r _ => r = a := by
  refine Yields.ends ?_ w
  exact yields_bind fun _ => yields_bind fun _ => rfl

theorem enforceSessionLifetime_ends :
    (enforceSessionLifetime cfg stored).Ends (answer t) w fun r w' =>
      (∃ o, r = .ok o) ∧ w' = w ∧ (0 < cfg.maxSessionLifetime →
        w.tokens.familyOrigin stored.familyID ≠ 0 ∧
          w.clock < w.tokens.familyOrigin stored.familyID + cfg.maxSessionLifetime) ∨
      (∃ e, r = .error e) ∧ ¬ (0 < cfg.maxSessionLifetime →
        w.tokens.familyOrigin stored.familyID ≠ 0 ∧
          w.clock < w.tokens.familyOrigin stored.familyID + cfg.maxSessionLifetime) := by
  refine ends_familyOrigin ?_
  by_cases hL : 0 < cfg.maxSessionLifetime
  · rw [decide_eq_true hL]
    by_cases hzero : w.tokens.familyOrigin stored.familyID = 0
    · dsimp only
      rw [if_pos (by rw [hzero]; rfl)]
      exact .inr ⟨⟨_, rfl⟩, fun h => (h hL).1 hzero⟩
    dsimp only
    rw [if_neg (by simpa [Time.isZero] using hzero), if_pos rfl]
    refine ends_now ?_
    by_cases hlt : w.clock < w.tokens.familyOrigin stored.familyID + cfg.maxSessionLifetime
    · rw [if_pos hlt]
      exact .inl ⟨⟨_, rfl⟩, rfl, fun _ => ⟨hzero, hlt⟩⟩
    · rw [if_neg hlt]
      refine (revokeThen_ends).mono fun r _ hr => .inr ⟨⟨_, hr⟩, fun h => hlt (h hL).2⟩
  · -- without a bound the origin is not needed
    rw [decide_eq_false hL]
    dsimp only
    split <;> exact .inl ⟨⟨_, rfl⟩, rfl, fun h => absurd h hL⟩

theorem enforceSessionInactivity_ends :
    (enforceSessionInactivity cfg stored).Ends (answer t) w fun r w' =>
      r = .ok () ∧ w' = w ∧ (0 < cfg.inactivityTimeout → stored.createdAt ≠ 0 ∧
        w.clock < stored.createdAt + cfg.inactivityTimeout) ∨
      (∃ e, r = .error e) ∧ ¬ (0 < cfg.inactivityTimeout → stored.createdAt ≠ 0 ∧
        w.clock < stored.createdAt + cfg.inactivityTimeout) := by
  unfold enforceSessionInactivity
  by_cases hI : cfg.inactivityTimeout ≤ 0
  · rw [if_pos hI]
    exact .inl ⟨rfl, rfl, fun h => absurd h (not_lt.mpr hI)⟩
  rw [if_neg hI]
  have hpos : 0 < cfg.inactivityTimeout := not_le.mp hI
  by_cases hzero : stored.createdAt = 0
  · rw [if_pos (by rw [hzero]; rfl)]
    exact .inr ⟨⟨_, rfl⟩, fun h => (h hpos).1 hzero⟩
  rw [if_neg (by simpa [Time.isZero] using hzero)]
  refine ends_now ?_
  by_cases hlt : w.clock < stored.createdAt + cfg.inactivityTimeout
  · rw [if_pos hlt]
    exact .inl ⟨rfl, rfl, fun _ => ⟨hzero, hlt⟩⟩
  · rw [if_neg hlt]
    refine (revokeThen_ends).mono fun r _ hr => .inr ⟨⟨_, hr⟩, fun h => hlt (h hpos).2⟩

/-- **Up to the key**, a refresh reads and decides: if it is ready, what it does is what it does
from the check of the key on, in the same world; if not, it is refused. -/
theorem checkAndSpend_ends {jkt : String} {Q : Except AuthError RefreshResult → World → Prop}
    (hrev : stored.revoked = false) (hused : stored.used = false)
    (hkey : Ready cfg w stored fp → ∀ o, (enforceDPoPBinding stored jkt >>= fun r =>
      match r with
      | .error e => (pure (.error e) : Prog _)
      | .ok () => AuthService.spend cfg stored fp o).Ends (answer t) w Q)
    (hrefused : ¬ Ready cfg w stored fp → ∀ e w', Q (.error e) w') :
    (checkAndSpend cfg stored fp jkt).Ends (answer t) w Q := by
  refine ends_now ?_
  by_cases hexp : stored.expiresAt < w.clock
  · rw [if_pos hexp]
    exact hrefused (fun h => h.unexpired hexp) _ _
  rw [if_neg hexp]
  refine Ends.bind (enforceSessionLifetime_ends.mono fun r w' hr => ?_)
  rcases hr with ⟨⟨o, rfl⟩, rfl, hlife⟩ | ⟨⟨e, rfl⟩, hlife⟩
  swap
  · exact hrefused (fun h => hlife h.life) _ _
  refine Ends.bind (enforceSessionInactivity_ends.mono fun r w'' hr => ?_)
  rcases hr with ⟨rfl, rfl, hidle⟩ | ⟨⟨e, rfl⟩, hidle⟩
  swap
  · exact hrefused (fun h => hidle h.idle) _ _
  dsimp only
  by_cases hdev : stored.fingerprintHash = none ∨ stored.fingerprintHash = some fp
  · have hsame : ¬ ((stored.fingerprintHash.isSome && stored.fingerprintHash != some fp)) := by
      rcases hdev with h | h <;> simp [h]
    rw [if_neg hsame]
    exact hkey ⟨hrev, hused, hexp, hlife, hidle, hdev⟩ o
  · have hother : (stored.fingerprintHash.isSome && stored.fingerprintHash != some fp) := by
      cases hfp : stored.fingerprintHash with
      | none => exact absurd (.inl hfp) hdev
      | some x =>
        have hne : x ≠ fp := fun h => hdev (.inr (h ▸ hfp))
        simpa using hne
    rw [if_pos hother]
    refine (revokeThen_ends).mono fun r _ hr => ?_
    rw [hr]
    exact hrefused (fun h => hdev h.device) _ _

/-- A refresh that is answered with a pair was ready. -/
theorem ready_of_ok (input : RefreshInput) :
    (refresh cfg input).Ends (answer t) w fun r _ => ∀ res, r = .ok res →
      ∃ stored, w.tokens.getByTokenHash (sha256Hex input.token) = some stored ∧
        Ready cfg w stored (computeFingerprint input.fingerprint) := by
  refine ends_getByTokenHash ?_
  cases hfound : w.tokens.getByTokenHash (sha256Hex input.token) with
  | none => exact nofun
  | some stored =>
    dsimp only
    split
    · exact nofun
    rename_i hrev
    split
    · exact Ends.bind nofun
    rename_i hused
    refine checkAndSpend_ends (by simpa using hrev) (by simpa using hused) (fun hready o => ?_)
      fun _ _ _ _ h => nomatch h
    exact fun _ _ => ⟨stored, rfl, hready⟩

/-- A refresh that is ready and does not prove the key of a bound family leaves an audit row and
nothing else. -/
theorem refresh_of_wrong_key {input : RefreshInput}
    (hfound : w.tokens.getByTokenHash (sha256Hex input.token) = some stored)
    (hready : Ready cfg w stored (computeFingerprint input.fingerprint))
    (hbound : stored.dpopJKT ≠ "") (hwrong : input.jkt ≠ stored.dpopJKT) :
    (refresh cfg input).run (answer t) w = (.error .tokenInvalid,
      w.audited ⟨.dpopBindingMismatch, stored.userID, "dpop_binding_mismatch", none⟩) := by
  refine Ends.run_eq (ends_getByTokenHash ?_)
  rw [hfound]
  dsimp only
  rw [if_neg (by simp [hready.unrevoked]), if_neg (by simp [hready.unused])]
  refine checkAndSpend_ends hready.unrevoked hready.unused (fun _ o => ?_)
    fun hnot => absurd hready hnot
  unfold enforceDPoPBinding
  rw [if_neg hbound, if_neg fun h => hwrong h.2.symm]
  exact ends_auditLog ⟨rfl, rfl⟩

/-- One step of a chain: time passes, or somebody presents a refresh token and is served. -/
inductive Visit where
  | wait (d : ℕ)
  | refresh (input : RefreshInput)

def Visit.duration : Visit → ℕ
  | .wait d => d
  | .refresh _ => 0

def visit (cfg : Settings) (w : World) : Visit → World
  | .wait d => nudge (.tick d) w
  | .refresh input => ((refresh cfg input).run (answer 0) w).2

/-- Somebody who has the token and the device of a row, but not its key. -/
def Intrudes (stored : RefreshToken) (token : ℕ) : Visit → Prop
  | .wait _ => True
  | .refresh input => input.token = token ∧ input.jkt ≠ stored.dpopJKT ∧
      (stored.fingerprintHash = none ∨
        stored.fingerprintHash = some (computeFingerprint input.fingerprint))

/-- The world later, with another audit log. -/
def World.later (w : World) (d : ℕ) (audit : List AuditEvent) : World :=
  { w with
    clock := w.clock + d
    audit := audit }

theorem World.later_tick (w : World) (d n : ℕ) (audit : List AuditEvent) :
    (nudge (.tick d) w).later n audit = w.later (d + n) audit := by
  have hclock : w.clock + d + n = w.clock + ((d + n : ℕ) : ℤ) := by push_cast; lia
  show ({ w with clock := w.clock + d + n, audit := audit } : World) = _
  rw [hclock]
  rfl

/-- Intruders come and go: only the clock has moved, and the audit log. -/
theorem visits_of_intruders (hbound : stored.dpopJKT ≠ "") {token : ℕ} {vs : List Visit}
    (hvs : ∀ v ∈ vs, Intrudes stored token v)
    (hfound : w.tokens.getByTokenHash (sha256Hex token) = some stored)
    (hready : Ready cfg (w.later (vs.map Visit.duration).sum w.audit) stored fp) :
    ∃ audit, vs.foldl (visit cfg) w = w.later (vs.map Visit.duration).sum audit := by
  induction vs generalizing w with
  | nil => exact ⟨w.audit, by simp [World.later]⟩
  | cons v vs ih =>
    have hrest : ∀ v ∈ vs, Intrudes stored token v := fun v hv => hvs v (mem_cons_of_mem _ hv)
    have hv := hvs v mem_cons_self
    rw [foldl_cons, map_cons, sum_cons]
    rw [map_cons, sum_cons] at hready
    cases v with
    | wait d =>
      have hlater : Ready cfg ((nudge (.tick d) w).later (vs.map Visit.duration).sum w.audit) stored
          fp := by
        rw [World.later_tick]
        exact hready
      obtain ⟨audit, haudit⟩ := ih hrest (w := nudge (.tick d) w) hfound hlater
      refine ⟨audit, haudit.trans ?_⟩
      rw [World.later_tick]
      rfl
    | refresh input =>
      obtain ⟨rfl, hwrong, hdev⟩ := hv
      have hzero : Visit.duration (.refresh input) + (vs.map Visit.duration).sum =
          (vs.map Visit.duration).sum := Nat.zero_add _
      rw [hzero] at hready ⊢
      have hnow : Ready cfg w stored (computeFingerprint input.fingerprint) := by
        have h := hready.earlier
        exact ⟨h.unrevoked, h.unused, h.unexpired, h.life, h.idle, hdev⟩
      have hvisit : visit cfg w (.refresh input) = w.audited _ :=
        congrArg Prod.snd (refresh_of_wrong_key hfound hnow hbound hwrong)
      rw [hvisit]
      exact ih hrest hfound ⟨hready.unrevoked, hready.unused, hready.unexpired, hready.life,
        hready.idle, hready.device⟩

/-- No answer depends on the audit log. -/
theorem answer_of_audit (t : ℕ) (c : Call) (w w' : World)
    (h : ∃ audit, w' = { w with audit := audit }) :
    (answer t c w).1 = (answer t c w').1 ∧
      ∃ audit, (answer t c w').2 = { (answer t c w).2 with audit := audit } := by
  obtain ⟨audit, rfl⟩ := h
  cases c with
  | audit e => exact ⟨rfl, e :: audit, rfl⟩
  | updatePassword | createDevice =>
    simp only [answer]
    split
    · exact ⟨rfl, audit, rfl⟩
    · exact ⟨rfl, audit, rfl⟩
  | _ => exact ⟨rfl, audit, rfl⟩

/-- **The holder of the key is unharmed.** If the holder's refresh would have succeeded, it still
does, with the same answer, after any number of requests by intruders; and none of them has touched
the token table. -/
theorem holder_unharmed {holder : RefreshInput} {vs : List Visit}
    (hfound : w.tokens.getByTokenHash (sha256Hex holder.token) = some stored)
    (hbound : stored.dpopJKT ≠ "") (hvs : ∀ v ∈ vs, Intrudes stored holder.token v)
    {res : RefreshResult}
    (hok : ((refresh cfg holder).run (answer 0)
      (w.later (vs.map Visit.duration).sum w.audit)).1 = .ok res) :
    (vs.foldl (visit cfg) w).tokens = w.tokens ∧
      ((refresh cfg holder).run (answer 0) (vs.foldl (visit cfg) w)).1 = .ok res := by
  have hends :
      (refresh cfg holder).Ends (answer 0) (w.later (vs.map Visit.duration).sum w.audit) _ :=
    ready_of_ok holder
  obtain ⟨stored', hfound', hready⟩ := hends res hok
  obtain rfl := Option.mem_unique hfound hfound'
  obtain ⟨audit, hvisits⟩ := visits_of_intruders hbound hvs hfound hready
  rw [hvisits]
  refine ⟨rfl, ?_⟩
  rw [← hok]
  have hsame : ∃ a, w.later (vs.map Visit.duration).sum audit =
      { w.later (vs.map Visit.duration).sum w.audit with audit := a } := ⟨audit, rfl⟩
  exact (run_related
    (answer_of_audit 0) (refresh cfg holder) hsame).1.symm

end Chain

/-! ### The sender constraint -/

section Results

variable {cfg : Settings} {c : Config (service cfg)} {t : ℕ} {th : Thread (service cfg)}
  {input : AuthService.RefreshInput} {r : Except AuthError AuthService.RefreshResult}

/-- A finished refresh has shown what `Presenting.Shown` says. -/
theorem shown_of_result (hD : Disciplined presenting Presenting.post c)
    (hth : c.threads[t]? = some th) (hreq : th.req = .refresh input)
    (hres : th.result = some (.refresh r)) : (presenting.phase th.past).Shown input.jkt r := by
  obtain ⟨-, hob⟩ := hD t th hth
  rw [Thread.rest_of_result hres, hreq] at hob
  exact hob

/-- A refresh that was refused for its key has made no statement that could write the table. -/
theorem untouched_of_refused (hD : Disciplined presenting Presenting.post c)
    (hth : c.threads[t]? = some th) (hreq : th.req = .refresh input)
    (hres : th.result = some (.refresh r)) {i : ℕ} {e : AuditEvent}
    (hkind : e.kind = .dpopBindingMismatch) (hi : c.exchange t i = some ⟨.audit e, ()⟩) :
    (∃ e, r = .error e) ∧
      ∀ (j : ℕ) q a, c.exchange t j = some ⟨.tokens q, a⟩ →
        q.touches = false := by
  have hrefused : (presenting.phase th.past).refused := by
    refine hD.phase_of_exchange (P := fun φ => φ.refused) ?_ ?_ hth hi
    · intro φ cl a _ h
      exact Presenting.refused_next a h
    · intro φ _
      show (φ.refused || e.kind == .dpopBindingMismatch)
      rw [hkind]
      exact Bool.or_true _
  obtain ⟨huntouched, herror⟩ := (shown_of_result hD hth hreq hres).untouched hrefused
  refine ⟨herror, fun j q a hj => ?_⟩
  by_contra htouches
  have htouched : (presenting.phase th.past).touched := by
    refine hD.phase_of_exchange (P := fun φ => φ.touched) ?_ ?_ hth hj
    · intro φ cl a _ h
      exact Presenting.touched_next a h
    · intro φ _
      exact Presenting.touched_of_touches a (by simpa using htouches)
  rw [huntouched] at htouched
  cases htouched

/-- **The sender constraint survives rotation.** Under any schedule, the rows ever committed under a
family id agree on the key; a refresh that answers with a pair proved the key of the row it
presented if there is one, its refresh token is in a row of the same family, and its access token
confirms that row's key; and a refresh that was refused for the key has not touched the token table.
Served one after another, requests that are refused for the key leave the holder's next refresh what
it was. -/
theorem sender_constraint (hc : Reachable World.Bound anyStep c) :
    (∀ r r', .inserted r ∈ c.world.tokens.log → .inserted r' ∈ c.world.tokens.log →
      r.familyID = r'.familyID → r.dpopJKT = r'.dpopJKT) ∧
    (∀ t th input res i hash stored, c.threads[t]? = some th → th.req = .refresh input →
      th.result = some (.refresh (.ok res)) →
      c.exchange t i = some ⟨.tokens (.getByTokenHash hash), .ok (some stored)⟩ →
      ∃ row, .inserted row ∈ c.world.tokens.log ∧ row.familyID = stored.familyID ∧
        row.tokenHash = sha256Hex res.refreshToken ∧ row.dpopJKT = nullStr stored.dpopJKT ∧
        res.accessToken.confirmation = row.dpopJKT ∧
        ∀ key, row.dpopJKT = some key → input.jkt = key) ∧
    (∀ t th input r i e, c.threads[t]? = some th → th.req = .refresh input →
      th.result = some (.refresh r) → e.kind = .dpopBindingMismatch →
      c.exchange t i = some ⟨.audit e, ()⟩ →
      (∃ e, r = .error e) ∧
        ∀ (j : ℕ) q a, c.exchange t j = some ⟨.tokens q, a⟩ →
          q.touches = false) ∧
    ∀ w stored holder (vs : List Visit)
      res,
      w.tokens.getByTokenHash (sha256Hex holder.token) = some stored → stored.dpopJKT ≠ "" →
      (∀ v ∈ vs, Intrudes stored holder.token v) →
      ((AuthService.refresh cfg holder).run (answer 0)
        (w.later (vs.map Visit.duration).sum w.audit)).1 = .ok res →
      (vs.foldl (visit cfg) w).tokens = w.tokens ∧
        ((AuthService.refresh cfg holder).run (answer 0) (vs.foldl (visit cfg) w)).1 = .ok res := by
  obtain ⟨⟨hL, hB⟩, hD⟩ := (bindings_invariant cfg).keeps.reachable hc
  obtain ⟨hrec, hP⟩ := (Presenting.presenting_keeps cfg World.Bound).reachable hc
  refine ⟨fun _ _ => hB.agree, ?_, ?_, ?_⟩
  · intro t th input res i hash stored hth hreq hres hread
    -- the row this refresh presented, as the table's history has it
    have hst : ((custody cfg).phase th.past).rotation.stored = some stored :=
      hD.phase_of_exchange
        (fun _ _ => stored_next) (fun _ _ => rfl) hth hread
    obtain ⟨r₀, hr₀, hmodel⟩ := hL.stored_logged ⟨_, c.phases_getElem? (custody cfg) hth⟩ hst
    have hfam : r₀.familyID = stored.familyID :=
      congrArg RefreshToken.familyID hmodel
    have hkey₀ : deref r₀.dpopJKT = stored.dpopJKT :=
      congrArg RefreshToken.dpopJKT hmodel
    have hrow₀ : r₀.dpopJKT = nullStr stored.dpopJKT := by
      rw [← hkey₀]
      exact (nullStr_deref (hB.proper hr₀)).symm
    obtain ⟨stored', hst', hproved, hissues⟩ := (shown_of_result hP hth hreq hres).proved res rfl
    rw [Presenting.stored_phase, hst] at hst'
    obtain rfl : stored = stored' := Option.some.inj hst'
    -- the row it created
    obtain ⟨tok, hcreated, htokf, htokh⟩ := hissues.created
    obtain ⟨row, hrow, hrowf, hrowh⟩ :=
      hrec t th.req _ tok (c.phases_getElem? presenting hth) hcreated
    have hrowkey : row.dpopJKT = nullStr stored.dpopJKT :=
      (hB.agree hrow hr₀ (hrowf.trans (htokf.trans hfam.symm))).trans hrow₀
    refine ⟨row, hrow, hrowf.trans htokf, hrowh.trans htokh, hrowkey, ?_, fun key hkey => ?_⟩
    · rw [hrowkey]
      exact hissues.confirms
    · rw [hrowkey] at hkey
      have hkey' : stored.dpopJKT = key := by
        rw [← deref_nullStr stored.dpopJKT, hkey]
        rfl
      rcases hproved with hnone | hproved
      · rw [hnone] at hkey
        cases hkey
      · exact hproved.symm.trans hkey'
  · intro t th input r i e hth hreq hres hkind hi
    exact untouched_of_refused hP hth hreq hres hkind hi
  · intro w stored holder vs res hfound hbound hvs hok
    exact holder_unharmed hfound hbound hvs hok

end Results

namespace Sample

theorem world_bound : world.Bound :=
  ⟨world_wellFormed, by simp [world], nofun⟩

/-- The request that presents a token and proves a key. -/
def proving (token : ℕ) (key : String) : AuthService.RefreshInput :=
  { refreshInput token with jkt := key }

/-- A login under a key, a refresh of its token under another key, and one under the right key. -/
def intruded : Config (service settings) :=
  (execAll (fun _ _ => true) ⟨world, []⟩
    ([.spawn (.login { loginInput with jkt := "k" })] ++ acts 0 24 ++
      [.spawn (.refresh (proving 3 "x"))] ++ acts 1 4 ++
      [.spawn (.refresh (proving 3 "k"))] ++ acts 2 14)).getD ⟨world, []⟩

theorem intruded_reachable : Reachable World.Bound anyStep intruded :=
  ⟨world, world_bound, run_execAll (fun _ _ _ => trivial) _ _⟩

end Sample

theorem sender_constraint_intruded :
    (Sample.intruded.threads[1]?.bind fun th => th.result.bind Sample.refusal) =
        some .tokenInvalid ∧
      (Sample.intruded.world.tokens.rows.map fun r => (r.tokenHash, r.used, r.dpopJKT)) =
        [(⟨3⟩, true, some "k"), (⟨7⟩, false, some "k")] ∧
      (∀ r r', .inserted r ∈ Sample.intruded.world.tokens.log →
        .inserted r' ∈ Sample.intruded.world.tokens.log → r.familyID = r'.familyID →
        r.dpopJKT = r'.dpopJKT) ∧
      ∀ th input res i hash stored, Sample.intruded.threads[2]? = some th →
        th.req = .refresh input → th.result = some (.refresh (.ok res)) →
        Sample.intruded.exchange 2 i =
          some ⟨.tokens (.getByTokenHash hash), .ok (some stored)⟩ →
        ∃ row, .inserted row ∈ Sample.intruded.world.tokens.log ∧ row.familyID = stored.familyID ∧
          row.tokenHash = sha256Hex res.refreshToken ∧ row.dpopJKT = nullStr stored.dpopJKT ∧
          res.accessToken.confirmation = row.dpopJKT ∧
          ∀ key, row.dpopJKT = some key → input.jkt = key :=
  ⟨by decide +kernel, by decide +kernel, (sender_constraint Sample.intruded_reachable).1,
    (sender_constraint Sample.intruded_reachable).2.1 2⟩

namespace Sample

/-- A caller who has the token only: no key, and another device than the family's. -/
def elsewhere : AuthService.RefreshInput :=
  { refreshInput 3 with fingerprint := ⟨"9", "", "", ""⟩ }

/-- A login under a key, a refresh of its token from elsewhere, and one by the holder of the key. -/
def strayed : Config (service settings) :=
  (execAll (fun _ _ => true) ⟨world, []⟩
    ([.spawn (.login { loginInput with jkt := "k" })] ++ acts 0 24 ++
      [.spawn (.refresh elsewhere)] ++ acts 1 8 ++
      [.spawn (.refresh (proving 3 "k"))] ++ acts 2 1)).getD ⟨world, []⟩

end Sample

/-- **The device is looked at before the key.** A refresh from another device is refused, but takes
the family with it: the holder of the key, who has not spent the token, is refused next. -/
theorem revoked_from_elsewhere :
    Reachable World.Bound anyStep Sample.strayed ∧
      (Sample.strayed.threads[1]?.bind fun th => th.result.bind Sample.refusal) =
        some .tokenInvalid ∧
      (Sample.strayed.world.tokens.rows.map fun r => (r.tokenHash, r.used, r.revoked, r.dpopJKT)) =
        [(⟨3⟩, false, true, some "k")] ∧
      (Sample.strayed.threads[2]?.bind fun th => th.result.bind Sample.refusal) =
        some .tokenInvalid :=
  ⟨⟨Sample.world, Sample.world_bound, run_execAll (fun _ _ _ => trivial) _ _⟩,
    by decide +kernel, by decide +kernel, by decide +kernel⟩

end Vault42
