import Vault42.Session.Handlers

/-!
# What a session rests on

A family of refresh tokens is written long after the password behind it was checked: by the login
that checked it, or minutes later by the second factor that redeems the challenge the login issued.
`Evidence` is what a thread's conversation shows about that: the account it read, the hash the
submitted password matched, the challenge it redeemed, the challenges it issued, the tokens it
inserted, and, for a password change, how far it has come.

`evidence r` is the discipline of a thread that serves `r`. It says that nothing is issued or
inserted without cause: a challenge follows a password that matched the hash of the account it is
for, the first token of a family follows one too or the challenge that stands for it, and only a
password change writes a password. `serve_evidence` proves it of every request.
-/

namespace Vault42

open Framework Program

variable {u : UserID} {c : Call}

/-- How far a password change has come. -/
inductive Change where
  | none
  /-- The new hash is in the account's row. -/
  | stored (u : UserID) (h : PasswordHash)
  /-- The account's sessions have been marked in a transaction. -/
  | revoking (u : UserID) (h : PasswordHash)
  /-- That transaction has committed. -/
  | done (u : UserID) (h : PasswordHash)
deriving DecidableEq

namespace Change

/-- The account and its new hash. -/
def target : Change → Option (UserID × PasswordHash)
  | .none => Option.none
  | .stored u h => some (u, h)
  | .revoking u h => some (u, h)
  | .done u h => some (u, h)

def mark (sc : Scope) : Change → Change
  | .stored u h => if sc = .user u then .revoking u h else .stored u h
  | ch => ch

def commit : Change → Change
  | .revoking u h => .done u h
  | ch => ch

def rollback : Change → Change
  | .revoking u h => .stored u h
  | ch => ch

@[simp] theorem target_mark (sc : Scope) (ch : Change) : (ch.mark sc).target = ch.target := by
  cases ch with
  | stored =>
    simp only [mark]
    split <;> rfl
  | _ => rfl

@[simp] theorem target_commit (ch : Change) : ch.commit.target = ch.target := by
  cases ch <;> rfl

@[simp] theorem target_rollback (ch : Change) : ch.rollback.target = ch.target := by
  cases ch <;> rfl

variable {h : PasswordHash} {ch : Change}

theorem of_mark {sc : Scope} (heq : ch.mark sc = .revoking u h) :
    ch = .revoking u h ∨ ch = .stored u h ∧ sc = .user u := by
  cases ch with
  | stored =>
    simp only [mark] at heq
    split at heq
    next hsc =>
      obtain ⟨rfl, rfl⟩ := Change.revoking.inj heq
      exact .inr ⟨rfl, hsc⟩
    next => cases heq
  | revoking => exact .inl heq
  | none | done => cases heq

theorem done_of_mark {sc : Scope} (heq : ch.mark sc = .done u h) : ch = .done u h := by
  cases ch with
  | stored =>
    simp only [mark] at heq
    split at heq <;> cases heq
  | _ => exact heq

theorem done_of_commit (heq : ch.commit = .done u h) : ch = .done u h ∨ ch = .revoking u h := by
  cases ch with
  | revoking =>
    obtain ⟨rfl, rfl⟩ := Change.done.inj heq
    exact .inr rfl
  | _ => exact .inl heq

theorem done_of_rollback (heq : ch.rollback = .done u h) : ch = .done u h := by
  cases ch with
  | revoking => cases heq
  | _ => exact heq

theorem commit_ne_revoking : ch.commit ≠ .revoking u h := by
  cases ch <;> exact nofun

theorem rollback_ne_revoking : ch.rollback ≠ .revoking u h := by
  cases ch <;> exact nofun

end Change

/-- **What a thread's conversation shows** about the passwords behind what it writes. The first
three are the first of their kind and stay. -/
structure Evidence where
  /-- The account the submitted address led to. -/
  account : Option User
  /-- The hash the submitted password matched. -/
  checked : Option PasswordHash
  /-- The challenge token that was accepted. -/
  challenge : Option ChallengeClaims
  /-- The challenge tokens it has issued. -/
  issued : List ChallengeClaims
  /-- The refresh tokens it has inserted, committed or not. -/
  inserted : List RefreshToken
  /-- It has read a presented refresh token. -/
  rotating : Bool
  change : Change

namespace Evidence

/-- The evidence of a thread that has done nothing. -/
def start : Evidence := ⟨none, none, none, [], [], false, .none⟩

/-- The evidence after a statement on the token table. -/
def nextToken (φ : Evidence) : (q : TokenCall) → q.Reply → Evidence
  | .getByTokenHash _, .ok (some _) => { φ with rotating := true }
  | .create tok, .ok .inserted => { φ with inserted := tok :: φ.inserted }
  | .insertInTxn tok, .ok .inserted => { φ with inserted := tok :: φ.inserted }
  | .revokeScope sc, .ok _ => { φ with change := φ.change.mark sc }
  | .commit, .ok _ => { φ with change := φ.change.commit }
  | .rollback, _ => { φ with change := φ.change.rollback }
  | _, _ => φ

def next (φ : Evidence) : (c : Call) → c.Reply → Evidence
  | .getByEmail _, .ok (some user) => { φ with account := φ.account.or (some user) }
  | .verifyPassword _ hash, .verified true => { φ with checked := φ.checked.or (some hash) }
  | .verifyChallenge claims, true => { φ with challenge := φ.challenge.or (some claims) }
  | .signChallenge claims, _ => { φ with issued := claims :: φ.issued }
  | .updatePassword u hash, .ok true => { φ with change := .stored u hash }
  | .tokens q, r => φ.nextToken q r
  | _, _ => φ

/-- The evidence of a conversation, the latest exchange first. -/
def of : List (Event vault) → Evidence
  | [] => start
  | e :: past => (of past).next e.1 e.2

/-- The password of this account has been proven: the submitted one matched the hash that was read
with the account. -/
def Proves (φ : Evidence) (u : UserID) : Prop :=
  ∃ user, φ.account = some user ∧ user.id = u ∧ φ.checked = some user.passwordHash

/-- A session of this account may be started: its password has been proven, or a challenge issued to
it accepted. -/
def Warrants (φ : Evidence) (u : UserID) : Prop :=
  φ.Proves u ∨ ∃ claims, φ.challenge = some claims ∧ claims.subject = u

/-- A request for a session that rests on no password of ours. -/
def Federated (u : UserID) : Req → Prop
  | .oauth v _ _ _ => v = u
  | _ => False

/-- A request to change the password of an account. -/
def Changes (u : UserID) : Req → Prop
  | .updatePassword v _ => v = u
  | _ => False

/-- A row may be written for this token: it continues a family, or what it starts is warranted. -/
def MayInsert (r : Req) (φ : Evidence) (tok : RefreshToken) : Prop :=
  φ.rotating ∨ φ.Warrants tok.userID ∨ Federated tok.userID r

/-- What a reply can be relied on for: an account that is looked up by its id has that id. -/
def Answers : (c : Call) → c.Reply → Prop
  | .getByID u, .ok (some user) => user.id = u
  | _, _ => True

theorem answers_answer (t : ℕ) (c : Call) (w : World) : Answers c (answer t c w).1 := by
  cases c with
  | getByID u =>
    have hreply : (answer t (.getByID u) w).1 = .ok (w.userByID u) := rfl
    rw [hreply]
    cases hfind : w.userByID u with
    | none => trivial
    | some =>
      have hid := List.find?_some hfind
      exact beq_iff_eq.mp hid
  | _ => trivial

theorem answers_of_fault (c : Call) {r : c.Reply} (hr : Fault c r) : Answers c r := by
  cases c with
  | getByID =>
    obtain ⟨e, rfl⟩ := hr
    trivial
  | _ => trivial

end Evidence

open Evidence in
/-- **The discipline of evidence**, for a thread that serves `r`. -/
def evidence (cfg : Settings) (r : Req) : Discipline vault where
  Phase := Evidence
  start := .start
  Allows φ c :=
    match c with
    | .tokens (.create tok) => MayInsert r φ tok
    | .tokens (.insertInTxn tok) => MayInsert r φ tok
    -- a planted address is answered with a challenge too, for a subject that is nobody's
    | .signChallenge claims =>
      φ.Proves claims.subject ∨ ∃ email, claims.subject = cfg.trapSubject email
    | .updatePassword u _ => Changes u r
    | _ => True
  Admits _ c r := Answers c r
  next := Evidence.next

namespace Evidence

variable {cfg : Settings} {req : Req} {φ ψ : Evidence} {α β : Type}

theorem phase_evidence (past : List (Event vault)) : (evidence cfg req).phase past = of past := by
  induction past with
  | nil => rfl
  | cons e past ih =>
    show ((evidence cfg req).phase past).next e.1 e.2 = (of past).next e.1 e.2
    rw [ih]

/-! ### Evidence only grows -/

/-- What has been shown stays shown. -/
structure Extends (φ ψ : Evidence) : Prop where
  account : ∀ {user}, φ.account = some user → ψ.account = some user
  checked : ∀ {h}, φ.checked = some h → ψ.checked = some h
  challenge : ∀ {claims}, φ.challenge = some claims → ψ.challenge = some claims
  issued : φ.issued ⊆ ψ.issued
  inserted : φ.inserted ⊆ ψ.inserted
  rotating : φ.rotating → ψ.rotating

theorem Extends.refl (φ : Evidence) : φ.Extends φ :=
  ⟨id, id, id, List.Subset.refl _, List.Subset.refl _, id⟩

theorem Extends.trans {χ : Evidence} (h : φ.Extends ψ) (h' : ψ.Extends χ) : φ.Extends χ :=
  ⟨h'.account ∘ h.account, h'.checked ∘ h.checked, h'.challenge ∘ h.challenge,
    List.Subset.trans h.issued h'.issued, List.Subset.trans h.inserted h'.inserted,
    h'.rotating ∘ h.rotating⟩

theorem Extends.proves (h : φ.Extends ψ) (hp : φ.Proves u) : ψ.Proves u := by
  obtain ⟨user, haccount, hid, hchecked⟩ := hp
  exact ⟨user, h.account haccount, hid, h.checked hchecked⟩

theorem Extends.warrants (h : φ.Extends ψ) (hw : φ.Warrants u) : ψ.Warrants u := by
  rcases hw with hp | ⟨claims, hclaims, hsub⟩
  · exact .inl (h.proves hp)
  · exact .inr ⟨claims, h.challenge hclaims, hsub⟩

/-- **What an exchange adds to the evidence.** -/
inductive Adds (φ : Evidence) : (cl : Call) → cl.Reply → Evidence → Prop where
  | nothing {cl : Call} {r : cl.Reply} (hroll : cl ≠ .tokens .rollback)
      (hcommit : ∀ x, (⟨cl, r⟩ : Event vault) ≠ ⟨.tokens .commit, .ok x⟩) : Adds φ cl r φ
  | account (email : String) (user : User) :
      Adds φ (.getByEmail email) (.ok (some user)) { φ with account := φ.account.or (some user) }
  | checked (password : String) (hash : PasswordHash) :
      Adds φ (.verifyPassword password hash) (.verified true)
        { φ with checked := φ.checked.or (some hash) }
  | accepted (claims : ChallengeClaims) :
      Adds φ (.verifyChallenge claims) true { φ with challenge := φ.challenge.or (some claims) }
  | issued (claims : ChallengeClaims) (r : Unit) :
      Adds φ (.signChallenge claims) r { φ with issued := claims :: φ.issued }
  | replaced (u : UserID) (hash : PasswordHash) :
      Adds φ (.updatePassword u hash) (.ok true) { φ with change := .stored u hash }
  | presented (h : TokenHash) (tok : RefreshToken) :
      Adds φ (.tokens (.getByTokenHash h)) (.ok (some tok)) { φ with rotating := true }
  | created (tok : RefreshToken) :
      Adds φ (.tokens (.create tok)) (.ok .inserted) { φ with inserted := tok :: φ.inserted }
  | inserted (tok : RefreshToken) :
      Adds φ (.tokens (.insertInTxn tok)) (.ok .inserted) { φ with inserted := tok :: φ.inserted }
  | marked (sc : Scope) (x : Unit) :
      Adds φ (.tokens (.revokeScope sc)) (.ok x) { φ with change := φ.change.mark sc }
  | committed (x : Unit) :
      Adds φ (.tokens .commit) (.ok x) { φ with change := φ.change.commit }
  | rolledBack (r : Unit) :
      Adds φ (.tokens .rollback) r { φ with change := φ.change.rollback }

theorem adds_nextToken (q : TokenCall) (r : q.Reply) :
    φ.Adds (.tokens q) r (φ.nextToken q r) := by
  cases q with
  | getByTokenHash h =>
    rcases r with e | _ | tok
    · exact .nothing (by simp) (by simp)
    · exact .nothing (by simp) (by simp)
    · exact .presented h tok
  | create tok =>
    rcases r with e | _ | _
    · exact .nothing (by simp) (by simp)
    · exact .created tok
    · exact .nothing (by simp) (by simp)
  | insertInTxn tok =>
    rcases r with e | _ | _
    · exact .nothing (by simp) (by simp)
    · exact .inserted tok
    · exact .nothing (by simp) (by simp)
  | revokeScope sc =>
    rcases r with e | x
    · exact .nothing (by simp) (by simp)
    · exact .marked sc x
  | commit =>
    rcases r with e | x
    · exact .nothing (by simp) (by simp)
    · exact .committed x
  | rollback => exact .rolledBack r
  | _ => exact .nothing (by simp) (by simp)

/-- Every exchange adds what `Adds` lists, and nothing else. -/
theorem adds_next (cl : Call) (r : cl.Reply) : φ.Adds cl r (φ.next cl r) := by
  cases cl with
  | getByEmail email =>
    rcases r with e | _ | user
    · exact .nothing (by simp) (by simp)
    · exact .nothing (by simp) (by simp)
    · exact .account email user
  | verifyPassword password hash =>
    rcases r with valid | _ | _
    · cases valid
      · exact .nothing (by simp) (by simp)
      · exact .checked password hash
    · exact .nothing (by simp) (by simp)
    · exact .nothing (by simp) (by simp)
  | verifyChallenge claims =>
    cases r with
    | false => exact .nothing (by simp) (by simp)
    | true => exact .accepted claims
  | signChallenge claims => exact .issued claims r
  | updatePassword u hash =>
    rcases r with e | b
    · exact .nothing (by simp) (by simp)
    · cases b
      · exact .nothing (by simp) (by simp)
      · exact .replaced u hash
  | tokens q => exact adds_nextToken q r
  | _ => exact .nothing (by simp) (by simp)

theorem Adds.extends {cl : Call} {r : cl.Reply} (h : φ.Adds cl r ψ) : φ.Extends ψ := by
  have hrefl := Extends.refl φ
  cases h with
  | nothing => exact hrefl
  | account => exact { hrefl with account := fun h => by simp [h] }
  | checked => exact { hrefl with checked := fun h => by simp [h] }
  | accepted => exact { hrefl with challenge := fun h => by simp [h] }
  | issued => exact { hrefl with issued := List.subset_cons_self _ _ }
  | presented => exact { hrefl with rotating := fun _ => rfl }
  | created | inserted => exact { hrefl with inserted := List.subset_cons_self _ _ }
  | _ => exact ⟨id, id, id, List.Subset.refl _, List.Subset.refl _, id⟩

theorem extends_next (cl : Call) (r : cl.Reply) : φ.Extends (φ.next cl r) :=
  (adds_next cl r).extends

theorem extends_of_suffix {past past' : List (Event vault)} (h : past <:+ past') :
    (of past).Extends (of past') := by
  obtain ⟨newer, rfl⟩ := h
  induction newer with
  | nil => exact .refl _
  | cons e newer ih => exact ih.trans (extends_next e.1 e.2)

/-! ### Programs that need no warrant -/

theorem ignores_clerical (K : Set CacheKey) : (evidence cfg req).Ignores (Clerical K) := by
  intro φ c hc
  cases c with
  | tokens q =>
    cases q with
    | countActiveFamilies => exact ⟨trivial, fun r => by cases r <;> rfl⟩
    | _ => cases hc
  | getByEmail | verifyPassword | verifyChallenge | signChallenge | updatePassword => cases hc
  | _ => exact ⟨trivial, fun _ => rfl⟩

variable {p : Prog α} {K : Set CacheKey} {Q : Evidence → β → Prop}

theorem obeys_bind_of_clerical {f : α → Prog β} (hp : p.Within (Clerical K))
    (hf : ∀ a, (f a).Obeys (evidence cfg req) Q φ) : (p >>= f).Obeys (evidence cfg req) Q φ :=
  hp.obeys_bind (ignores_clerical K) hf

theorem obeys_bind_of_call {f : c.Reply → Prog β} (hc : Clerical ∅ c)
    (hf : ∀ a, (f a).Obeys (evidence cfg req) Q φ) : (ask c >>= f).Obeys (evidence cfg req) Q φ :=
  obeys_bind_of_clerical (.call hc) hf

/-- The calls that neither issue nor insert nor change a password. -/
def Harmless : Call → Prop
  | .tokens (.create _) => False
  | .tokens (.insertInTxn _) => False
  | .signChallenge _ => False
  | .updatePassword _ _ => False
  | _ => True

/-- The calls a thread may make that has read a presented refresh token. -/
def Continues : Call → Prop
  | .signChallenge _ => False
  | .updatePassword _ _ => False
  | _ => True

theorem harmless_of_clerical (h : Clerical K c) : Harmless c := by
  cases c with
  | tokens q =>
    cases q with
    | countActiveFamilies => trivial
    | _ => cases h
  | signChallenge | updatePassword => cases h
  | _ => trivial

theorem continues_of_harmless (h : Harmless c) : Continues c := by
  cases c with
  | signChallenge | updatePassword => cases h
  | _ => trivial

theorem within_harmless (hp : p.Within (Clerical K)) :
    p.Within Harmless := hp.mono fun _ => harmless_of_clerical

theorem within_continues (hp : p.Within Harmless) : p.Within Continues :=
  hp.mono fun _ => continues_of_harmless

theorem obeys_of_harmless (hp : p.Within Harmless) :
    p.Obeys (evidence cfg req) (fun _ _ => True) φ := by
  refine hp.keeps trivial fun ψ c _ hc => ⟨?_, fun _ => trivial⟩
  cases c with
  | tokens q =>
    cases q with
    | create | insertInTxn => cases hc
    | _ => trivial
  | signChallenge | updatePassword => cases hc
  | _ => trivial

theorem obeys_of_continues (hp : p.Within Continues) (hφ : φ.rotating) :
    p.Obeys (evidence cfg req) (fun _ _ => True) φ := by
  refine (hp.keeps (I := fun ψ : Evidence => ψ.rotating) hφ fun ψ c hψ hc => ⟨?_, fun r => ?_⟩).mono
    fun _ _ _ => trivial
  · cases c with
    | tokens q =>
      cases q with
      | create | insertInTxn => exact .inl hψ
      | _ => trivial
    | signChallenge | updatePassword => cases hc
    | _ => trivial
  · exact (extends_next c r).rotating hψ

/-! ### Refresh -/

section Refresh

open AuthService RefreshTokenRepo

theorem reviews_harmless : Reviews Harmless where
  now := trivial
  getByID _ := trivial
  audit _ _ := trivial
  revoking q _ := by cases q <;> trivial

theorem reviews_continues : Reviews Continues where
  now := trivial
  getByID _ := trivial
  audit _ _ := trivial
  revoking _ _ := trivial

variable {stored : RefreshToken} {fp : Fingerprint}

theorem issueRotatedPair_continues {roles : List String} {origin : Time} :
    (AuthService.issueRotatedPair cfg stored roles fp origin).Within Continues := by
  refine .bind (.bind ?_ fun _ => trivial) fun pair => ?_
  · exact within_continues
      (within_harmless (TokenService.issueTokenPairWithAuth_clerical _ _ _ _ _ _ _ _ _ _))
  refine .bind (.call trivial) fun newID => .bind (.call trivial) fun now => ?_
  refine .bind (.bind (.call trivial) fun _ => trivial) fun r => ?_
  cases r with
  | created | sessionLimitReached | failed => trivial
  | familyRevoked => exact revokeThen_within reviews_continues _ (by decide) _ _

theorem spend_continues {origin : Time} :
    (AuthService.spend cfg stored fp origin).Within Continues := by
  refine .bind (.call trivial) fun r => ?_
  rcases r with e | b
  · trivial
  cases b with
  | false => exact .bind (containRefreshReuse_within reviews_continues _ _) fun _ => trivial
  | true =>
    refine .bind (accountStillHoldsSessions_within reviews_continues _) fun r => ?_
    rcases r with e | user
    · trivial
    refine .bind (within_continues (within_harmless effectiveRoles_clerical)) fun roles => ?_
    refine .bind issueRotatedPair_continues fun r => ?_
    rcases r with e | pair
    · trivial
    refine .bind (.call trivial) fun _ => .bind (.call trivial) fun now => trivial

theorem checkAndSpend_continues {jkt : String} :
    (checkAndSpend cfg stored fp jkt).Within Continues := by
  refine .bind (.call trivial) fun now => .ite trivial ?_
  refine .bind (enforceSessionLifetime_within reviews_continues _) fun r => ?_
  rcases r with e | origin
  · trivial
  refine .bind (enforceSessionInactivity_within reviews_continues _) fun r => ?_
  rcases r with e | _
  · trivial
  refine .ite (revokeThen_within reviews_continues _ (by decide) _ _) ?_
  refine .bind (within_continues (within_harmless (enforceDPoPBinding_clerical _ _))) fun r => ?_
  rcases r with e | _
  · trivial
  · exact spend_continues

/-- A rotation inserts only once it has read the token it continues. -/
theorem refresh_evidence (input : RefreshInput) :
    (refresh cfg input).Obeys (evidence cfg req) (fun _ _ => True) φ := by
  refine .call trivial fun r _ => ?_
  rcases r with e | _ | stored
  · trivial
  · trivial
  refine obeys_of_continues ?_ rfl
  refine .ite trivial (.ite ?_ checkAndSpend_continues)
  exact .bind (containRefreshReuse_within reviews_continues _ _) fun _ => trivial

end Refresh

/-! ### Starting a session -/

section Login

open AuthService RefreshTokenRepo

/-- The calls that a session of `u` may be started with, once there is a warrant for it. -/
theorem opens (cfg : Settings) (req : Req) (u : UserID) :
    Opens (fun c => ∀ ψ, ψ.Warrants u ∨ Federated u req → (evidence cfg req).Allows ψ c) u where
  clerical hc ψ _ := (ignores_clerical ∅ ψ _ hc).1
  capping q hq ψ _ := by cases q <;> trivial
  create _ hu _ h := .inr (hu ▸ h)
  insert _ hu _ h := .inr (hu ▸ h)

theorem obeys_of_opens (h : φ.Warrants u ∨ Federated u req)
    (hp : ∀ {A}, Opens A u → p.Within A) : p.Obeys (evidence cfg req) (fun _ _ => True) φ := by
  refine ((hp (opens cfg req u)).keeps h fun ψ c hψ hc => ⟨hc ψ hψ, fun r => ?_⟩).mono
    fun _ _ _ => trivial
  exact hψ.imp_left (extends_next c r).warrants

/-- Signing in, as evidence follows it: bookkeeping shows nothing. -/
def walk (cfg : Settings) (req : Req) : Walk (evidence cfg req) (fun _ _ => True) where
  Ready _ := True
  After φ ψ := ψ = φ
  refl _ := rfl
  trans h h' := h'.trans h
  ready _ _ := trivial
  desk {φ c} _ hc := ignores_clerical deskKeys φ c hc
  entry {φ c} _ hc := by
    cases c with
    | tokens | signChallenge | updatePassword => cases hc
    | _ => exact ⟨trivial, fun _ => trivial⟩
  ends _ _ := trivial
  late {φ c e} _ hc := ⟨(ignores_clerical deskKeys φ c hc).1, fun _ => trivial⟩

theorem issueChallengeToken_evidence {jkt : String} {fp : Fingerprint}
    {factors : List String} (h : φ.Proves u ∨ ∃ email, u = cfg.trapSubject email) :
    (TokenService.issueChallengeToken jkt u fp factors).Obeys (evidence cfg req)
      (fun _ _ => True) φ := by
  refine obeys_bind_of_call trivial fun now => obeys_bind_of_call trivial fun jti => ?_
  exact .call h fun _ _ => trivial

/-- **`Login`** starts a session, or issues a challenge, only for an account whose password it has
just checked. -/
theorem login_evidence (input : LoginInput) :
    (login cfg input).Obeys (evidence cfg req) (fun _ _ => True) (evidence cfg req).start := by
  refine (walk cfg req).login trivial
    (fun _ _ => issueChallengeToken_evidence (.inr ⟨_, rfl⟩)) fun χ user hχ _ => ?_
  obtain rfl : χ = (evidence cfg req).start := hχ
  refine (walk cfg req).loginUser trivial fun ψ now _ hψ _ => ?_
  obtain rfl := hψ
  -- the password is checked against the hash that was read with the account
  refine (walk cfg req).checkPassword trivial fun ψ _ hψ _ => ?_
  have hproves : ψ.Proves user.id := hψ ▸ ⟨user, rfl, rfl, rfl⟩
  refine (walk cfg req).passwordProven trivial ?_ ?_
  · rintro _ _ rfl
    exact issueChallengeToken_evidence (.inl hproves)
  · rintro _ _ rfl _
    refine (walk cfg req).completeLogin trivial ?_
    rintro _ deviceID _ rfl
    exact obeys_of_opens (.inl (.inl hproves)) fun hA => startSession_within hA _ _ _ _ _ _

end Login

/-! ### The remaining requests -/

section Requests

open AuthService RefreshTokenRepo

/-- **The second factor** starts a session only for the account its challenge was issued to. -/
theorem verifySecondFactor_evidence (input : SecondFactorInput) :
    (verifySecondFactor cfg input).Obeys (evidence cfg req) (fun _ _ => True)
      (evidence cfg req).start := by
  refine (walk cfg req).verifySecondFactor trivial fun ψ χ _ hψ hχ => ?_
  have hchallenge : χ.challenge = some input.token := by
    subst hχ hψ
    rfl
  refine (walk cfg req).completeMFAIfChallenge trivial ⟨trivial, fun _ => trivial⟩
    fun ω _ hset hno => ?_
  have hω : ω.challenge = some input.token := by
    cases hcache : cfg.hasCache with
    | true => exact hset hcache ▸ hchallenge
    | false => exact hno hcache ▸ hchallenge
  refine (walk cfg req).finishMFALogin trivial ?_
  rintro _ user now deviceID rfl hid _ _
  exact obeys_of_opens (.inl (.inr ⟨input.token, hω, hid.symm⟩)) fun hA =>
    startSession_within hA _ _ _ _ _ _

theorem oauthSession_evidence (u : UserID) (fp : FingerprintInput) (authTime : Time)
    (jkt : String) :
    (oauthSession cfg u fp authTime jkt).Obeys (evidence cfg (.oauth u fp authTime jkt))
      (fun _ _ => True) φ := by
  refine (walk cfg _).oauthSession trivial fun _ _ _ _ _ _ _ => ?_
  refine obeys_bind_of_clerical
    (TokenService.issueTokenPairWithAuth_clerical _ _ _ _ _ _ _ _ _ _) fun pair => ?_
  refine obeys_bind_of_clerical checkSessionLimit_clerical fun r => ?_
  rcases r with e | _
  · trivial
  refine obeys_bind_of_clerical findOrCreateDevice_clerical fun deviceID => ?_
  have hfederated : Federated u (.oauth u fp authTime jkt) := rfl
  refine (obeys_of_opens (.inr hfederated) fun hA => storeRefreshToken_within hA _ _ _ _ _).bind
    fun ψ r _ => ?_
  rcases r with e | _
  · trivial
  exact .call trivial fun _ _ => trivial

/-- Revoking the sessions of the account whose password has been replaced. -/
theorem revokeAllForUser_evidence {h : PasswordHash} (hφ : φ.change = .stored u h) :
    (revokeAllForUser u).Obeys (evidence cfg req)
      (fun ψ revoked => revoked = true → ψ.change = .done u h) φ := by
  have failed : ∀ ψ, (rollbackWith false).Obeys (evidence cfg req)
      (fun χ revoked => revoked = true → χ.change = .done u h) ψ :=
    fun ψ => .call trivial nofun
  refine .call trivial fun r _ => ?_
  rcases r with e | _
  · exact nofun
  refine .call trivial fun r _ => ?_
  rcases r with e | _
  · exact failed _
  refine .call trivial fun r _ => ?_
  rcases r with e | _
  · exact failed _
  refine .call trivial fun r _ => ?_
  rcases r with e | _
  · exact failed _
  intro _
  show (φ.change.mark (.user u)).commit = .done u h
  rw [hφ]
  simp [Change.mark, Change.commit]

/-- **`updatePassword`** succeeds only once the new hash is stored and, after it, every session of
the account has been revoked. -/
theorem updatePassword_evidence (u : UserID) (newPassword : String) :
    (PasswordHandler.updatePassword cfg u newPassword).Obeys
      (evidence cfg (.updatePassword u newPassword))
      (fun ψ r => r = .ok () → ∃ h, ψ.change = .done u h) φ := by
  have breached : (PasswordHandler.breached cfg newPassword).Within (Clerical ∅) :=
    .ite (.call trivial) trivial
  refine obeys_bind_of_clerical breached fun b => ?_
  split
  · exact nofun
  refine obeys_bind_of_call trivial fun history => ?_
  refine (obeys_of_harmless (reused_within (fun _ _ => trivial) _ _)).bind fun ψ matched _ => ?_
  split
  · exact nofun
  refine .call trivial fun hash _ => ?_
  rcases hash with _ | hash
  · exact nofun
  refine .call rfl fun r _ => ?_
  rcases r with e | updated
  · exact nofun
  cases updated with
  | false => exact nofun
  | true =>
    refine obeys_bind_of_call trivial fun _ => ?_
    refine (revokeAllForUser_evidence rfl).bind fun χ revoked hχ => ?_
    cases revoked with
    | false => exact nofun
    | true =>
      refine obeys_bind_of_clerical PasswordHandler.dropPending_clerical fun _ => ?_
      exact fun _ => ⟨hash, hχ rfl⟩

theorem sweep_harmless : sweep.Within Harmless :=
  .bind (reapLoop_within trivial _ _) fun _ => reapLoop_within trivial _ _

/-- What a thread's evidence shows when it has served its request. -/
def post : Req → Evidence → Response → Prop
  | .updatePassword u _, φ, .done (.ok ()) => ∃ h, φ.change = .done u h
  | _, _, _ => True

/-- **Every request is served within the discipline of evidence.** -/
theorem serve_evidence (cfg : Settings) (r : Req) :
    (serve cfg r).Obeys (evidence cfg r) (post r) (evidence cfg r).start := by
  cases r with
  | login input => exact (login_evidence input).bind fun _ _ _ => trivial
  | secondFactor input => exact (verifySecondFactor_evidence input).bind fun _ _ _ => trivial
  | oauth u fp authTime jkt =>
    refine (oauthSession_evidence u fp authTime jkt).bind fun _ r _ => ?_
    exact (obeys_of_harmless (OAuthHandler.handOver_within harmless_of_clerical
      (fun _ _ _ _ => trivial) u fp r)).mono fun _ _ _ => trivial
  | exchange code fp =>
    exact (obeys_of_harmless (OAuthHandler.exchange_within (fun _ => trivial) code fp)).bind
      fun _ _ _ => trivial
  | refresh input => exact (refresh_evidence input).bind fun _ _ _ => trivial
  | logout u =>
    have hlogout : (logout u).Within Harmless :=
      .bind (lockThenWrite_within reviews_harmless.revoking (.user u)) fun revoked =>
        .ite (.bind (within_harmless auditLog_clerical) fun _ => trivial) trivial
    exact (obeys_of_harmless hlogout).bind fun _ _ _ => trivial
  | revoke sc =>
    exact (obeys_of_harmless (lockThenWrite_within reviews_harmless.revoking sc)).bind
      fun _ _ _ => trivial
  | sweep => exact (obeys_of_harmless sweep_harmless).bind fun _ _ _ => trivial
  | updatePassword u newPassword =>
    refine (updatePassword_evidence u newPassword).bind fun ψ r hr => ?_
    rcases r with e | _
    · trivial
    · exact hr rfl

end Requests

end Evidence

end Vault42
