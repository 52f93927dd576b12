import Vault42.Session.Evidence
import Vault42.Session.Revocation

/-!
# A password change and the sessions of the old password

`updatePassword` stores the new hash, revokes every session of the account, and returns. What was
checked against the old hash before that can still be on its way: a login that has read the account
and not yet inserted its token, a challenge that has been issued and not yet redeemed. The
revocation reaches neither, since neither has a row.

`changesQuietly u` is the guard under which nothing is on its way: when the revocation of a change
for `u` writes, whoever read the old hash, or had a challenge for it accepted, is done, and the
challenges issued for it have expired.

* `sealed_of_reachable`: along every such run, from that write on, every row of `u` that is not
  revoked, nor about to be, is of a family that rests on the new hash.
* `password_change_ends_sessions`: the same of every state after the change has returned, with what
  it says about challenges.
* `Sample.password_change_straddled`: without the guard, a login and a challenge that outlive it.
-/

namespace Vault42

open Framework Program List Evidence Subset

variable {cfg : Settings} {u : UserID} {h : PasswordHash} {c c' : Config (service cfg)}
  {l : Label (service cfg)} {φ : Evidence} {p : ℕ} {th : Thread (service cfg)} {cl : Call}

/-! ### What rests on which hash -/

section Shown

/-- What thread `t` has shown so far. -/
def shown (c : Config (service cfg)) (t : ℕ) : Option Evidence :=
  c.threads[t]?.map fun th => .of th.past

/-- The challenge was issued by a login that checked the password against `h`. -/
def IssuedFor (c : Config (service cfg)) (claims : ChallengeClaims) (h : PasswordHash) : Prop :=
  ∃ t φ, shown c t = some φ ∧ claims ∈ φ.issued ∧ φ.checked = some h

/-- The password step behind a session of `u` was a check against `h`: the thread's own, or the one
behind the challenge it redeemed. -/
def RestsOn (c : Config (service cfg)) (φ : Evidence) (u : UserID) (h : PasswordHash) : Prop :=
  φ.Proves u ∧ φ.checked = some h ∨
    ∃ claims, φ.challenge = some claims ∧ claims.subject = u ∧ IssuedFor c claims h

/-- **The family was started by a login of `u` whose password step was checked against `h`.** -/
def FoundedFor (c : Config (service cfg)) (f : UUID) (u : UserID) (h : PasswordHash) : Prop :=
  ∃ t φ tok, shown c t = some φ ∧ tok ∈ φ.inserted ∧ tok.familyID = f ∧ tok.userID = u ∧
    RestsOn c φ u h

/-- The thread goes by another hash of `u` than `h`: it has read one, or has had a challenge
accepted that was not issued for `h`. -/
def Stale (c : Config (service cfg)) (φ : Evidence) (u : UserID) (h : PasswordHash) : Prop :=
  (∃ user, φ.account = some user ∧ user.id = u ∧ user.passwordHash ≠ h) ∨
    ∃ claims, φ.challenge = some claims ∧ claims.subject = u ∧ ¬ IssuedFor c claims h

/-- The thread has answered its request and holds no transaction. -/
def Gone (c : Config (service cfg)) (t : ℕ) : Prop :=
  (∃ th, c.threads[t]? = some th ∧ th.result.isSome) ∧
    ∀ x ∈ c.world.tokens.txns, x.owner ≠ t

/-- **Nothing that rests on another hash of `u` than `h` is on its way.** -/
structure Quiet (c : Config (service cfg)) (u : UserID) (h : PasswordHash) : Prop where
  gone : ∀ t φ, shown c t = some φ → Stale c φ u h → Gone c t
  expired : ∀ claims ∈ c.world.signed, claims.subject = u → ¬ IssuedFor c claims h →
    claims.expiresAt ≤ c.world.clock

/-- **Password changes for `u` are quiet**, and there is at most one; nobody signs in as `u` through
another provider, and the reaper spares rotations under way. -/
def changesQuietly (u : UserID) (c : Config (service cfg)) : Label (service cfg) → Prop
  | .spawn r => ¬ Evidence.Federated u r ∧
      (Evidence.Changes u r → ∀ th ∈ c.threads, ¬ Evidence.Changes u th.req)
  | .act t => sparesRotations c (.act t) ∧
      ∀ φ h, c.pending t = some (.tokens (.revokeScope (.user u))) → shown c t = some φ →
        φ.change = .stored u h → Quiet c u h
  | _ => True

theorem sparesRotations_of_changesQuietly (c : Config (service cfg))
    (l : Label (service cfg)) (h : changesQuietly u c l) : sparesRotations c l := by
  cases l with
  | act => exact h.1
  | spawn | fault | nudge => trivial

end Shown

/-! ### Stored passwords -/

/-- The accounts and their password hashes. -/
def World.credentials (w : World) : List (UserID × PasswordHash) :=
  w.users.map fun x => (x.id, x.passwordHash)

/-- The worlds a run can start from, when it is about accounts: no two of them have one id. -/
structure World.Accountable (w : World) : Prop where
  coherent : w.Coherent
  ids : (w.credentials.map Prod.fst).Nodup

section Credentials

variable {w : World} {v : UserID} {h' : PasswordHash}

theorem credentials_unique (hn : (w.credentials.map Prod.fst).Nodup) (hu : (u, h) ∈ w.credentials)
    (hu' : (u, h') ∈ w.credentials) : h = h' := by
  have heq := inj_on_of_nodup_map hn hu hu' rfl
  exact congrArg Prod.snd heq

/-- A change of user rows that leaves the ids and the hashes alone. -/
theorem credentials_updateUser {f : User → User}
    (hf : ∀ x, (f x).id = x.id ∧ (f x).passwordHash = x.passwordHash) :
    (w.updateUser u f).credentials = w.credentials := by
  simp only [World.credentials, World.updateUser, map_map]
  refine map_congr_left fun x _ => ?_
  simp only [Function.comp_apply]
  split
  · rw [(hf x).1, (hf x).2]
  · rfl

/-- The row of an account that is not deleted is given a new hash. -/
def User.setPassword (hash : PasswordHash) (x : User) : User :=
  if x.deleted then x else { x with passwordHash := hash }

theorem User.id_setPassword (hash : PasswordHash) (x : User) : (x.setPassword hash).id = x.id := by
  unfold User.setPassword
  split <;> rfl

theorem mem_credentials {x : User} (hx : x ∈ w.users) : (x.id, x.passwordHash) ∈ w.credentials :=
  mem_map.mpr ⟨x, hx, rfl⟩

theorem ids_setPassword (hash : PasswordHash) :
    ((w.updateUser v (User.setPassword hash)).credentials.map Prod.fst) =
      w.credentials.map Prod.fst := by
  simp only [World.credentials, World.updateUser, map_map]
  refine map_congr_left fun x _ => ?_
  simp only [Function.comp_apply]
  split
  · exact User.id_setPassword hash x
  · rfl

theorem credentials_setPassword_ne (hash : PasswordHash) (hne : u ≠ v)
    (hu : (u, h) ∈ w.credentials) :
    (u, h) ∈ (w.updateUser v (User.setPassword hash)).credentials := by
  obtain ⟨x, hx, heq⟩ := mem_map.mp hu
  have hid : x.id = u := congrArg Prod.fst heq
  refine mem_map.mpr ⟨x, mem_map.mpr ⟨x, hx, if_neg ?_⟩, heq⟩
  rw [hid]
  exact hne

theorem credentials_setPassword (hash : PasswordHash) {x : User} (hx : x ∈ w.users)
    (hid : x.id = v) (hlive : x.deleted = false) :
    (v, hash) ∈ (w.updateUser v (User.setPassword hash)).credentials := by
  refine mem_map.mpr ⟨x.setPassword hash, mem_map.mpr ⟨x, hx, if_pos hid⟩, ?_⟩
  simp [User.setPassword, hlive, hid]

/-- Only a password change touches a stored password. -/
theorem answer_credentials (t : ℕ) (cl : Call) (hcl : ∀ v hash, cl ≠ .updatePassword v hash) :
    (answer t cl w).2.credentials = w.credentials := by
  cases cl with
  | updatePassword v hash => exact absurd rfl (hcl v hash)
  | incrementFailedLogin | resetFailedLogin | clearImportPending | clearMustResetPassword =>
    exact credentials_updateUser fun _ => ⟨rfl, rfl⟩
  | createDevice =>
    simp only [answer]
    split <;> rfl
  | _ => rfl

/-- **A password change** finds an account that is not deleted and gives it the new hash, or does
nothing. -/
theorem answer_updatePassword (t : ℕ) (v : UserID) (hash : PasswordHash) :
    (answer t (.updatePassword v hash) w = (.ok true, w.updateUser v (User.setPassword hash)) ∧
        ∃ x ∈ w.users, x.id = v ∧ x.deleted = false) ∨
      answer t (.updatePassword v hash) w = (.ok false, w) := by
  simp only [answer]
  split
  next hany =>
    obtain ⟨x, hx, hcond⟩ := any_eq_true.mp hany
    simp only [Bool.and_eq_true, beq_iff_eq, Bool.not_eq_true'] at hcond
    exact .inl ⟨rfl, x, hx, hcond⟩
  next => exact .inr rfl

theorem answer_ids (t : ℕ) (cl : Call) (hn : (w.credentials.map Prod.fst).Nodup) :
    ((answer t cl w).2.credentials.map Prod.fst).Nodup := by
  by_cases hcl : ∃ v hash, cl = .updatePassword v hash
  · obtain ⟨v, hash, rfl⟩ := hcl
    rcases answer_updatePassword t v hash with ⟨heq, -⟩ | heq
    · rw [heq, ids_setPassword]
      exact hn
    · rw [heq]
      exact hn
  · rw [answer_credentials t cl fun v hash heq => hcl ⟨v, hash, heq⟩]
    exact hn

/-- The environment adds accounts under new ids and changes no password. -/
theorem nudge_credentials (n : Nudge) (hn : (w.credentials.map Prod.fst).Nodup) :
    ((nudge n w).credentials.map Prod.fst).Nodup ∧ w.credentials ⊆ (nudge n w).credentials := by
  cases n with
  | addUser x =>
    simp only [nudge]
    split
    · exact ⟨hn, refl _⟩
    next hnew =>
      refine ⟨nodup_cons.mpr ⟨?_, hn⟩, subset_cons_self _ _⟩
      intro hmem
      obtain ⟨y, hy, hid⟩ : ∃ y ∈ w.users, y.id = x.id := by
        simpa [World.credentials] using hmem
      refine hnew (any_eq_true.mpr ⟨y, hy, ?_⟩)
      simp [hid]
  | editUser x =>
    have heq : (nudge (.editUser x) w).credentials = w.credentials :=
      credentials_updateUser fun _ => ⟨rfl, rfl⟩
    rw [heq]
    exact ⟨hn, refl _⟩
  | _ => exact ⟨hn, refl _⟩

end Credentials

/-! ### What a step shows -/

section Steps

theorem shown_eq_some {t : ℕ} :
    shown c t = some φ ↔ ∃ th, c.threads[t]? = some th ∧ of th.past = φ :=
  Option.map_eq_some_iff

theorem shown_of_thread {t : ℕ} (hth : c.threads[t]? = some th) :
    shown c t = some (.of th.past) := shown_eq_some.mpr ⟨th, hth, rfl⟩

theorem Evidence.next_of_fault (cl : Call) {r : cl.Reply} (hr : Fault cl r) : φ.next cl r = φ := by
  cases cl with
  | getByEmail | updatePassword =>
    obtain ⟨e, rfl⟩ := hr
    rfl
  | verifyPassword =>
    obtain rfl : r = .overloaded := hr
    rfl
  | verifyChallenge =>
    obtain rfl : r = false := hr
    rfl
  | signChallenge => cases hr
  | tokens q =>
    cases q with
    | rollback => cases hr
    | _ =>
      obtain ⟨e, rfl⟩ := hr
      rfl
  | _ => rfl

section

variable (hs : Step c l c')
include hs

/-- **What a thread has shown after a step**: what it had shown, nothing if it has just arrived, or
what the answer to its call adds. -/
theorem shown_step {t : ℕ} {th' : Thread (service cfg)} (hth' : c'.threads[t]? = some th') :
    shown c t = some (.of th'.past) ∨ of th'.past = .start ∨
      ∃ th cl, c.threads[t]? = some th ∧ th.pending = some cl ∧ l = .act t ∧
        of th'.past = (of th.past).next cl (answer t cl c.world).1 := by
  rcases hs.thread hth' with hold | ⟨r, -, -, rfl⟩ | ⟨th, cl, k, r, hth, hrest, rfl, hreply⟩
  · exact .inl (shown_of_thread hold)
  · exact .inr (.inl rfl)
  rcases hreply with ⟨rfl, rfl⟩ | ⟨rfl, hr⟩
  · exact .inr (.inr ⟨th, cl, hth, Thread.pending_of_call hrest, rfl, rfl⟩)
  · refine .inl ?_
    have hsame : of (th.resume cl r (k r)).past = .of th.past :=
      Evidence.next_of_fault cl hr
    rw [hsame]
    exact shown_of_thread hth

/-- No thread is ever lost, and what it has shown stays shown. -/
theorem shown_mono {t : ℕ} (hφ : shown c t = some φ) : ∃ ψ, shown c' t = some ψ ∧ φ.Extends ψ := by
  obtain ⟨th, hth, rfl⟩ := shown_eq_some.mp hφ
  obtain ⟨th', hth', -, hsuffix⟩ := hs.past hth
  exact ⟨_, shown_of_thread hth', extends_of_suffix hsuffix⟩

theorem IssuedFor.step {claims : ChallengeClaims} (hi : IssuedFor c claims h) :
    IssuedFor c' claims h := by
  obtain ⟨t, φ, hφ, hclaims, hchecked⟩ := hi
  obtain ⟨ψ, hψ, hext⟩ := shown_mono hs hφ
  exact ⟨t, ψ, hψ, hext.issued hclaims, hext.checked hchecked⟩

theorem RestsOn.step {ψ : Evidence} (hext : φ.Extends ψ) (hr : RestsOn c φ u h) :
    RestsOn c' ψ u h := by
  rcases hr with ⟨hp, hchecked⟩ | ⟨claims, hclaims, hsub, hi⟩
  · exact .inl ⟨hext.proves hp, hext.checked hchecked⟩
  · exact .inr ⟨claims, hext.challenge hclaims, hsub, hi.step hs⟩

theorem FoundedFor.step {f : UUID} (hf : FoundedFor c f u h) : FoundedFor c' f u h := by
  obtain ⟨t, φ, tok, hφ, htok, hfam, huser, hr⟩ := hf
  obtain ⟨ψ, hψ, hext⟩ := shown_mono hs hφ
  exact ⟨t, ψ, tok, hψ, hext.inserted htok, hfam, huser, hr.step hs hext⟩

/-- What is stale after a step, and had been shown before it, was stale before it. -/
theorem Stale.of_step (hst : Stale c' φ u h) : Stale c φ u h := by
  rcases hst with hst | ⟨claims, hclaims, hsub, hno⟩
  · exact .inl hst
  · exact .inr ⟨claims, hclaims, hsub, fun hi => hno (hi.step hs)⟩

end

/-- A thread that may start a session and goes by no other hash goes by this one. -/
theorem restsOn_of_warrants (hw : φ.Warrants u) (hst : ¬ Stale c φ u h) : RestsOn c φ u h := by
  rcases hw with ⟨user, haccount, hid, hchecked⟩ | ⟨claims, hclaims, hsub⟩
  · refine .inl ⟨⟨user, haccount, hid, hchecked⟩, ?_⟩
    by_contra hne
    refine hst (.inl ⟨user, haccount, hid, fun heq => hne ?_⟩)
    rw [hchecked, heq]
  · refine .inr ⟨claims, hclaims, hsub, ?_⟩
    by_contra hno
    exact hst (.inr ⟨claims, hclaims, hsub, hno⟩)

/-- **How a thread comes to go by another hash**: it reads one with an account, or has a challenge
accepted that was issued for one. -/
theorem Stale.of_next {r : cl.Reply} (hst : Stale c (φ.next cl r) u h) :
    Stale c φ u h ∨
      (∃ email user, (⟨cl, r⟩ : Event vault) = ⟨.getByEmail email, .ok (some user)⟩ ∧ user.id = u ∧
        user.passwordHash ≠ h) ∨
      ∃ claims, (⟨cl, r⟩ : Event vault) = ⟨.verifyChallenge claims, true⟩ ∧ claims.subject = u ∧
        ¬ IssuedFor c claims h := by
  have hadds := adds_next (φ := φ) cl r
  generalize φ.next cl r = ψ at hadds hst
  cases hadds with
  | account email user =>
    rcases hst with ⟨x, hx, hid, hne⟩ | hst
    · rcases Option.or_eq_some_iff.mp hx with hx | ⟨-, hx⟩
      · exact .inl (.inl ⟨x, hx, hid, hne⟩)
      · cases hx
        exact .inr (.inl ⟨email, user, rfl, hid, hne⟩)
    · exact .inl (.inr hst)
  | accepted claims =>
    rcases hst with hst | ⟨x, hx, hsub, hno⟩
    · exact .inl (.inl hst)
    · rcases Option.or_eq_some_iff.mp hx with hx | ⟨-, hx⟩
      · exact .inl (.inr ⟨x, hx, hsub, hno⟩)
      · cases hx
        exact .inr (.inr ⟨claims, rfl, hsub, hno⟩)
  | _ => exact .inl hst

end Steps

/-! ### Evidence beside custody -/

section Beside

/-- A thread that has read a presented token is not idle in custody, and the other way round. -/
theorem rotating_eq_isSome (past : List (Event vault)) :
    (of past).rotating = ((custody cfg).phase past).rotation.stored.isSome := by
  induction past with
  | nil => rfl
  | cons e past ih =>
    obtain ⟨cl, r⟩ := e
    change ((of past).next cl r).rotating =
      (((custody cfg).phase past).next cl r).rotation.stored.isSome
    cases cl with
    | now =>
      simp only [Custody.next, Custody.stored_readClock]
      exact ih
    | tokens q =>
      cases q with
      | getByTokenHash =>
        rcases r with e | _ | tok
        · exact ih
        · exact ih
        · rfl
      | create =>
        rcases r with e | _ | _
        · exact ih
        · simp only [Custody.next, Custody.nextToken, Custody.stored_close]
          exact ih
        · exact ih
      | markUsed =>
        rcases r with e | b
        · exact ih
        cases b with
        | false =>
          simp only [Custody.next, Custody.nextToken, Custody.stored_lose]
          exact ih
        | true =>
          simp only [Custody.next, Custody.nextToken, Custody.stored_spend]
          exact ih
      | insertInTxn => rcases r with e | _ | _ <;> exact ih
      | rollback => exact ih
      | _ => rcases r with e | _ <;> exact ih
    | getByEmail => rcases r with e | _ | user <;> exact ih
    | verifyPassword =>
      rcases r with valid | _ | _
      · cases valid <;> exact ih
      · exact ih
      · exact ih
    | verifyChallenge => cases r <;> exact ih
    | updatePassword =>
      rcases r with e | b
      · exact ih
      · cases b <;> exact ih
    | _ => exact ih

variable {past : List (Event vault)}

/-- A firstborn token is inserted by a thread that has read no presented one. -/
theorem not_rotating_of_firstborn {tok : RefreshToken}
    (hborn : ((custody cfg).phase past).Firstborn tok) : (of past).rotating = false := by
  have hsame : (of past).rotating = ((custody cfg).phase past).rotation.stored.isSome :=
    rotating_eq_isSome past
  rw [hsame, hborn.rotation]
  rfl

variable {r : cl.Reply}

/-- **How a change comes to be revoking**: it was, and the call did not end its transaction, or the
call is the write statement. -/
theorem revoking_of_next {v : UserID}
    (hch : (φ.next cl r).change = .revoking v h) :
    φ.change = .revoking v h ∧ cl ≠ .tokens .rollback ∧
        (∀ x, (⟨cl, r⟩ : Event vault) ≠ ⟨.tokens .commit, .ok x⟩) ∨
      φ.change = .stored v h ∧
        ∃ x, (⟨cl, r⟩ : Event vault) = ⟨.tokens (.revokeScope (.user v)), .ok x⟩ := by
  have hadds := adds_next (φ := φ) cl r
  generalize φ.next cl r = ψ at hadds hch
  cases hadds with
  | nothing hroll hcommit => exact .inl ⟨hch, hroll, hcommit⟩
  | replaced => cases hch
  | marked sc x =>
    rcases Change.of_mark hch with hrev | ⟨hst, rfl⟩
    · exact .inl ⟨hrev, by simp, by simp⟩
    · exact .inr ⟨hst, x, rfl⟩
  | committed => exact absurd hch Change.commit_ne_revoking
  | rolledBack => exact absurd hch Change.rollback_ne_revoking
  | _ => exact .inl ⟨hch, by simp, by simp⟩

/-- **How a change comes to be done**: it was, or its transaction has just committed. -/
theorem done_of_next {v : UserID} (hch : (φ.next cl r).change = .done v h) :
    φ.change = .done v h ∨
      φ.change = .revoking v h ∧ ∃ x, (⟨cl, r⟩ : Event vault) = ⟨.tokens .commit, .ok x⟩ := by
  have hadds := adds_next (φ := φ) cl r
  generalize φ.next cl r = ψ at hadds hch
  cases hadds with
  | replaced => cases hch
  | marked => exact .inl (Change.done_of_mark hch)
  | committed x =>
    rcases Change.done_of_commit hch with hch | hch
    · exact .inl hch
    · exact .inr ⟨hch, x, rfl⟩
  | rolledBack => exact .inl (Change.done_of_rollback hch)
  | _ => exact .inl hch

/-- The account a change is for is the one its thread was asked to change. -/
theorem target_of_next (ht : (φ.next cl r).change.target = some (u, h)) :
    φ.change.target = some (u, h) ∨ (⟨cl, r⟩ : Event vault) = ⟨.updatePassword u h, .ok true⟩ := by
  have hadds := adds_next (φ := φ) cl r
  generalize φ.next cl r = ψ at hadds ht
  cases hadds with
  | replaced =>
    obtain ⟨rfl, rfl⟩ := Prod.mk.inj (Option.some.inj ht)
    exact .inr rfl
  | marked sc => exact .inl ((Change.target_mark sc φ.change).symm.trans ht)
  | committed => exact .inl ((Change.target_commit φ.change).symm.trans ht)
  | rolledBack => exact .inl ((Change.target_rollback φ.change).symm.trans ht)
  | _ => exact .inl ht

theorem changes_of_target {req : Req} (hconf : (evidence cfg req).Conforms past)
    (ht : (of past).change.target = some (u, h)) : Evidence.Changes u req := by
  induction past with
  | nil => cases ht
  | cons e past ih =>
    obtain ⟨cl, r⟩ := e
    rw [Discipline.conforms_cons] at hconf
    rcases target_of_next ht with ht | heq
    · exact ih hconf.2.2 ht
    · cases heq
      exact hconf.1

/-- A call allowed in the middle of a revocation's transaction leaves the thread there, unless it
ends the transaction. -/
theorem txn_next_of_revoking {φ : Custody} {sc : Scope} (hφ : φ.txn = .revoking sc)
    (hallows : (custody cfg).Allows φ cl) (hroll : cl ≠ .tokens .rollback)
    (hcommit : ∀ x, (⟨cl, r⟩ : Event vault) ≠ ⟨.tokens .commit, .ok x⟩) :
    (φ.next cl r).txn = .revoking sc := by
  -- the calls that are allowed at another point of a transaction only
  have elsewhere : ∀ {x}, φ.txn = x → x ≠ .revoking sc → (φ.next cl r).txn = .revoking sc :=
    fun hx hne => absurd (hx.symm.trans hφ) hne
  cases cl with
  | tokens q =>
    have htok := hallows.1
    cases q with
    | getByTokenHash => rcases r with e | _ | tok <;> exact hφ
    | create => rcases r with e | _ | _ <;> exact hφ
    | markUsed =>
      rcases r with e | b
      · exact hφ
      · cases b <;> exact hφ
    | begin | lockSessions | countInTxn | lockScope | revokeScope => exact elsewhere htok nofun
    | insertInTxn =>
      obtain ⟨-, -, n, htxn, -⟩ := htok
      exact elsewhere htxn nofun
    | commit =>
      rcases r with e | x
      · exact hφ
      · exact absurd rfl (hcommit x)
    | rollback => exact absurd rfl hroll
    | _ => rcases r with e | x <;> exact hφ
  | _ => exact hφ

/-- A change that has written and not committed is in the middle of a transaction. -/
theorem txn_of_revoking (hconf : (custody cfg).Conforms past)
    (hch : (of past).change = .revoking u h) :
    ((custody cfg).phase past).txn = .revoking (.user u) := by
  induction past with
  | nil => cases hch
  | cons e past ih =>
    obtain ⟨cl, r⟩ := e
    rw [Discipline.conforms_cons] at hconf
    rcases revoking_of_next hch with ⟨hch, hroll, hcommit⟩ | ⟨-, x, heq⟩
    · exact txn_next_of_revoking (ih hconf.2.2 hch) hconf.1 hroll hcommit
    · cases heq
      rfl

end Beside

/-! ### Along a quiet run -/

section Run

theorem spares_of_reachable (hc : Reachable World.Accountable (changesQuietly u) c) :
    Reachable World.Coherent sparesRotations c :=
  (hc.mono sparesRotations_of_changesQuietly).weaken fun _ hw => hw.coherent

variable {ok : Config (service cfg) → Label (service cfg) → Prop}

theorem evidence_of_reachable {Init : World → Prop} (hc : Reachable Init ok c) {t : ℕ}
    (hth : c.threads[t]? = some th) :
    (evidence cfg th.req).Conforms th.past ∧
      th.rest.Obeys (evidence cfg th.req) (post th.req) (of th.past) := by
  have hphase : (evidence cfg th.req).phase th.past = of th.past :=
    phase_evidence th.past
  rw [← hphase]
  exact hc.obeys (fun _ => answers_answer)
    (fun _ cl _ => answers_of_fault cl) hth (serve_evidence cfg th.req)

theorem allows_of_pending {Init : World → Prop} (hc : Reachable Init ok c) {t : ℕ}
    (hth : c.threads[t]? = some th) (hpend : th.pending = some cl) :
    (evidence cfg th.req).Allows (of th.past) cl := by
  have hphase : (evidence cfg th.req).phase th.past = of th.past := phase_evidence th.past
  rw [← hphase]
  exact hc.allows (fun _ => answers_answer)
    (fun _ cl _ => answers_of_fault cl) hth (serve_evidence cfg th.req) hpend

/-- The requests of a quiet run: nobody signs in as `u` through another provider, and one thread at
most changes the password of `u`. -/
structure Requests (u : UserID) (c : Config (service cfg)) : Prop where
  home : ∀ (t : ℕ) th, c.threads[t]? = some th → ¬ Evidence.Federated u th.req
  single : ∀ (t t' : ℕ) th th', c.threads[t]? = some th →
    c.threads[t']? = some th' → Evidence.Changes u th.req → Evidence.Changes u th'.req → t = t'

theorem requests_of_reachable (hc : Reachable World.Accountable (changesQuietly u) c) :
    Requests u c := by
  refine hc.induct ?_ ?_
  · intro w _
    constructor
    · rintro t th ⟨⟩
    · rintro t t' th th' ⟨⟩
  rintro c l c' - ⟨hfed, huniq⟩ hok hs
  -- a thread after the step serves the request it served, or one that has just arrived
  have served : ∀ t th', c'.threads[t]? = some th' →
      (∃ th, c.threads[t]? = some th ∧ th.req = th'.req) ∨
        t = c.threads.length ∧ l = .spawn th'.req := by
    intro t th' hth'
    rcases hs.thread hth' with hold | ⟨r, hl, ht, rfl⟩ | ⟨th, cl, k, r, hth, -, rfl, -⟩
    · exact .inl ⟨th', hold, rfl⟩
    · exact .inr ⟨ht, hl⟩
    · exact .inl ⟨th, hth, rfl⟩
  constructor
  · intro t th' hth'
    rcases served t th' hth' with ⟨th, hth, hreq⟩ | ⟨-, rfl⟩
    · rw [← hreq]
      exact hfed t th hth
    · exact hok.1
  · intro t t' th₁ th₂ h₁ h₂ hch₁ hch₂
    rcases served t th₁ h₁ with ⟨th, hth, hreq⟩ | ⟨ht, hl⟩
    · rcases served t' th₂ h₂ with ⟨th', hth', hreq'⟩ | ⟨ht', hl'⟩
      · exact huniq t t' th th' hth hth' (hreq ▸ hch₁) (hreq' ▸ hch₂)
      · rw [hl'] at hok
        exact absurd (hreq ▸ hch₁) (hok.2 hch₂ th (mem_of_getElem? hth))
    · rcases served t' th₂ h₂ with ⟨th', hth', hreq'⟩ | ⟨ht', -⟩
      · rw [hl] at hok
        exact absurd (hreq' ▸ hch₂) (hok.2 hch₁ th' (mem_of_getElem? hth'))
      · rw [ht, ht']

/-- A change for `u` is made by a thread that was asked for it. -/
theorem changes_of_shown (hc : Reachable World.Accountable (changesQuietly u) c) {t : ℕ}
    (hth : c.threads[t]? = some th)
    (ht : (of th.past).change.target = some (u, h)) : Evidence.Changes u th.req :=
  changes_of_target (evidence_of_reachable hc hth).1 ht

end Run

/-! ### Quiet stays quiet -/

section Quiet

/-- A thread that still waits on a call is not gone, so it goes by no other hash. -/
theorem Quiet.not_stale (hq : Quiet c u h) {t : ℕ}
    (hth : c.threads[t]? = some th) (hpend : th.pending = some cl) :
    ¬ Stale c (of th.past) u h := by
  intro hst
  obtain ⟨⟨th', hth', hres⟩, -⟩ := hq.gone t _ (shown_of_thread hth) hst
  obtain rfl := Option.mem_unique hth hth'
  rw [Thread.result_eq_none hpend] at hres
  cases hres

theorem Quiet.not_stale_of_txn (hq : Quiet c u h) {x : Txn} (hx : x ∈ c.world.tokens.txns)
    (hφ : shown c x.owner = some φ) : ¬ Stale c φ u h :=
  fun hst => (hq.gone _ _ hφ hst).2 x hx rfl

/-- **Once quiet, nobody comes to go by another hash**: who does after a step did before it, and has
not moved. -/
theorem Quiet.stale_step (hq : Quiet c u h) (hids : (c.world.credentials.map Prod.fst).Nodup)
    (hcur : (u, h) ∈ c.world.credentials) (hs : Step c l c') {t : ℕ} {th' : Thread (service cfg)}
    (hth' : c'.threads[t]? = some th') (hst : Stale c' (of th'.past) u h) :
    c.threads[t]? = some th' ∧ Stale c (of th'.past) u h := by
  rcases hs.thread hth' with hold | ⟨r, -, -, rfl⟩ | ⟨th, cl, k, r, hth, hrest, rfl, hreply⟩
  · exact ⟨hold, hst.of_step hs⟩
  · rcases hst with ⟨user, hno, -, -⟩ | ⟨claims, hno, -, -⟩
    · cases hno
    · cases hno
  have hnext : Stale c ((of th.past).next cl r) u h := hst.of_step hs
  have hpend := Thread.pending_of_call hrest
  rcases hnext.of_next with hst | ⟨email, user, heq, hid, hne⟩ | ⟨claims, heq, hsub, hno⟩
  · exact absurd hst (hq.not_stale hth hpend)
  · -- the row that was read has the hash that is stored
    exfalso
    cases heq
    rcases hreply with ⟨-, hr⟩ | ⟨-, e, hr⟩
    · have hfind : c.world.userByEmail email = some user := (Except.ok.inj hr).symm
      have hmem := mem_credentials (mem_of_find?_eq_some hfind)
      rw [hid] at hmem
      exact hne (credentials_unique hids hmem hcur)
    · cases hr
  · -- the challenge that was accepted has not expired
    exfalso
    cases heq
    rcases hreply with ⟨-, hr⟩ | ⟨-, hr⟩
    · have haccept : (c.world.signed.contains claims && decide (c.world.clock < claims.expiresAt)) =
          true := hr.symm
      simp only [Bool.and_eq_true, contains_iff_mem, decide_eq_true_eq] at haccept
      exact absurd (hq.expired claims haccept.1 hsub hno) (not_le.mpr haccept.2)
    · cases hr

/-- **Quiet stays quiet**, if a challenge is only signed for the current hash. -/
theorem Quiet.step (hq : Quiet c u h) (hids : (c.world.credentials.map Prod.fst).Nodup)
    (hcur : (u, h) ∈ c.world.credentials) (hs : Step c l c')
    (hsigned : ∀ claims ∈ c'.world.signed, claims ∈ c.world.signed ∨
      (claims.subject = u → IssuedFor c' claims h))
    (hclock : c.world.clock ≤ c'.world.clock)
    (hopen : ∀ x ∈ c'.world.tokens.txns, (∃ y ∈ c.world.tokens.txns, y.owner = x.owner) ∨
      ∃ th cl, c.threads[x.owner]? = some th ∧ th.pending = some cl) :
    Quiet c' u h where
  gone t φ hφ hst := by
    obtain ⟨th', hth', rfl⟩ := shown_eq_some.mp hφ
    obtain ⟨hth, hst⟩ := hq.stale_step hids hcur hs hth' hst
    obtain ⟨⟨th, hth₀, hres⟩, htxns⟩ := hq.gone t _ (shown_of_thread hth) hst
    obtain rfl := Option.mem_unique hth hth₀
    refine ⟨⟨th', hth', hres⟩, fun x hx hown => ?_⟩
    rcases hopen x hx with ⟨y, hy, hyx⟩ | ⟨th, cl, hth₁, hpend⟩
    · exact htxns y hy (hyx.trans hown)
    · rw [hown] at hth₁
      obtain rfl := Option.mem_unique hth hth₁
      rw [Thread.result_eq_none hpend] at hres
      cases hres
  expired claims hclaims hsub hno := by
    rcases hsigned claims hclaims with hold | hnew
    · exact le_trans (hq.expired claims hold hsub fun hi => hno (hi.step hs)) hclock
    · exact absurd (hnew hsub) hno

end Quiet

/-! ### From the revocation on -/

section Watch

/-- **The sessions of `u` are sealed by the change of thread `p`**: nothing of another hash is on
its way, and a row that is not revoked rests on the new hash, or `p` is about to revoke it. -/
structure Sealed (c : Config (service cfg)) (p : ℕ) (φ : Evidence) (u : UserID) (h : PasswordHash) :
    Prop where
  quiet : Quiet c u h
  rows : ∀ r ∈ c.world.tokens.rows, r.userID = u → r.revoked = false →
    FoundedFor c r.familyID u h ∨
      φ.change = .revoking u h ∧ ∀ x ∈ c.world.tokens.txns, x.owner = p → r.id ∈ x.revoking

/-- What holds of `u` along a quiet run. -/
structure Watch (u : UserID) (c : Config (service cfg)) : Prop where
  ids : (c.world.credentials.map Prod.fst).Nodup
  /-- The hash a change has stored is the current one. -/
  current : ∀ t φ h, shown c t = some φ → φ.change.target = some (u, h) →
    (u, h) ∈ c.world.credentials
  /-- A row of `u` that waits in a transaction was warranted when it was inserted. -/
  pending : ∀ x ∈ c.world.tokens.txns, ∀ row, x.inserted = some row → row.userID = u →
    ∃ φ tok, shown c x.owner = some φ ∧ tok ∈ φ.inserted ∧ tok.familyID = row.familyID ∧
      tok.userID = u ∧ φ.Warrants u
  sealed : ∀ p φ h, shown c p = some φ → φ.change = .revoking u h ∨ φ.change = .done u h →
    Sealed c p φ u h

/-- A change that has come to its revocation has stored its hash. -/
theorem target_of_change
    (hch : φ.change = .revoking u h ∨ φ.change = .done u h) : φ.change.target = some (u, h) := by
  rcases hch with hch | hch <;> rw [hch] <;> rfl

/-- The steps that answer no call: a request arrives, a call fails, the environment moves. -/
structure Unanswered (c c' : Config (service cfg)) (l : Label (service cfg)) : Prop where
  step : Step c l c'
  shown : ∀ t φ, Vault42.shown c' t = some φ → Vault42.shown c t = some φ ∨ φ = .start
  rows : c'.world.tokens.rows = c.world.tokens.rows
  txns : c'.world.tokens.txns ⊆ c.world.tokens.txns
  signed : c'.world.signed = c.world.signed
  clock : c.world.clock ≤ c'.world.clock
  ids : (c.world.credentials.map Prod.fst).Nodup → (c'.world.credentials.map Prod.fst).Nodup
  credentials : (c.world.credentials.map Prod.fst).Nodup →
    c.world.credentials ⊆ c'.world.credentials

/-- Such a step keeps everything that is watched. -/
theorem Watch.unanswered (hW : Watch u c) (ha : Unanswered c c' l) : Watch u c' where
  ids := ha.ids hW.ids
  current t φ h hφ ht := by
    rcases ha.shown t φ hφ with hφ | rfl
    · exact ha.credentials hW.ids (hW.current t φ h hφ ht)
    · cases ht
  pending x hx row hrow huser := by
    obtain ⟨φ, tok, hφ, htok, hfam, htu, hw⟩ := hW.pending x (ha.txns hx) row hrow huser
    obtain ⟨ψ, hψ, hext⟩ := shown_mono ha.step hφ
    exact ⟨ψ, tok, hψ, hext.inserted htok, hfam, htu, hext.warrants hw⟩
  sealed p φ h hφ hch := by
    rcases ha.shown p φ hφ with hφ | rfl
    · have hS := hW.sealed p φ h hφ hch
      have hcur := hW.current p φ h hφ (target_of_change hch)
      refine ⟨hS.quiet.step hW.ids hcur ha.step ?_ ha.clock ?_, ?_⟩
      · intro claims hclaims
        rw [ha.signed] at hclaims
        exact .inl hclaims
      · exact fun x hx => .inl ⟨x, ha.txns hx, rfl⟩
      · intro r hr huser hrev
        rw [ha.rows] at hr
        rcases hS.rows r hr huser hrev with hf | ⟨hch, hmark⟩
        · exact .inl (hf.step ha.step)
        · exact .inr ⟨hch, fun x hx hown => hmark x (ha.txns hx) hown⟩
    · rcases hch with hch | hch <;> cases hch

theorem unanswered_of_spawn (c : Config (service cfg)) (r : Req) :
    Unanswered c { c with threads := c.threads ++ [.fresh r] } (.spawn r) where
  step := .spawn c r
  shown t φ hφ := by
    obtain ⟨th', hth', rfl⟩ := shown_eq_some.mp hφ
    rcases (Step.spawn c r).thread hth' with hold | ⟨r', -, -, rfl⟩ | ⟨_, _, _, _, _, _, _, hl⟩
    · exact .inl (shown_of_thread hold)
    · exact .inr rfl
    · rcases hl with ⟨hl, -⟩ | ⟨hl, -⟩ <;> cases hl
  rows := rfl
  txns := refl _
  signed := rfl
  clock := le_refl _
  ids := id
  credentials _ := refl _

theorem unanswered_of_fault {t : ℕ} (hs : Step c (.fault t) c') : Unanswered c c' (.fault t) := by
  have hworld : c'.world = c.world := by
    cases hs
    rfl
  refine ⟨hs, fun v φ hφ => ?_, ?_, ?_, ?_, ?_, ?_, ?_⟩
  · obtain ⟨th', hth', rfl⟩ := shown_eq_some.mp hφ
    rcases shown_step hs hth' with hold | hstart | ⟨_, _, _, _, hl, _⟩
    · exact .inl hold
    · exact .inr hstart
    · cases hl
  all_goals rw [hworld]
  · exact refl _
  · exact id
  · exact fun _ => refl _

theorem nudge_signed (n : Nudge) (w : World) : (nudge n w).signed = w.signed := by
  cases n with
  | addUser =>
    unfold nudge
    dsimp only
    split <;> rfl
  | _ => rfl

theorem unanswered_of_nudge (c : Config (service cfg)) (n : Nudge) :
    Unanswered c { c with world := nudge n c.world } (.nudge n) where
  step := .nudge c n
  shown _ _ hφ := .inl hφ
  rows := by
    cases n with
    | addUser x => exact congrArg TokenStore.rows (nudge_addUser x c.world).2.1
    | _ => rfl
  txns := by
    cases n with
    | addUser x =>
      have htokens : (nudge (.addUser x) c.world).tokens = c.world.tokens := (nudge_addUser x _).2.1
      exact htokens ▸ refl _
    | disconnect => exact filter_subset_self _
    | _ => exact refl _
  signed := nudge_signed n c.world
  clock := by
    cases n with
    | tick d => exact Int.le_add_of_nonneg_right (Int.natCast_nonneg d)
    | addUser x => exact ((nudge_addUser x c.world).1).ge
    | _ => exact le_refl _
  ids hn := (nudge_credentials n hn).1
  credentials hn := (nudge_credentials n hn).2

end Watch

/-! ### An answered call -/

/-- **An answered call of thread `t`**, with what custody and evidence say about it. -/
structure Answered {cfg : Settings} (u : UserID) (c c' : Config (service cfg)) (t : ℕ)
    (th : Thread (service cfg)) (cl : Call) : Prop where
  step : Step c (.act t) c'
  thread : c.threads[t]? = some th
  pending : th.pending = some cl
  world : c'.world = (answer t cl c.world).2
  shown : Vault42.shown c' t = some ((Evidence.of th.past).next cl (answer t cl c.world).1)
  others : ∀ v φ, v ≠ t → Vault42.shown c' v = some φ → Vault42.shown c v = some φ
  conforms : (custody cfg).Conforms (⟨cl, (answer t cl c.world).1⟩ :: th.past)
  table : TableStep cfg.maxSessionsPerUser t c.world ((custody cfg).phase th.past) cl
    c'.world.tokens c'.world.supply
    (((custody cfg).phase th.past).next cl (answer t cl c.world).1)
  at_ : At (c.phases (custody cfg)) t ((custody cfg).phase th.past)
  ledger : Ledger c.world.tokens c.world.supply (c.phases (custody cfg))
  families : Families c.world.tokens (c.phases (custody cfg))
  allows : (evidence cfg th.req).Allows (Evidence.of th.past) cl
  local_ : ¬ Evidence.Federated u th.req

section Answered

variable {t : ℕ}

theorem answered_of_act (hc : Reachable World.Accountable (changesQuietly u) c)
    (hs : Step c (.act t) c') : ∃ th cl, Answered u c c' t th cl := by
  obtain ⟨⟨hL, hF⟩, hD⟩ := (families_invariant cfg).keeps.reachable (spares_of_reachable hc)
  cases hs with
  | @act _ th cl k hth hrest hfree =>
    have hpend := Thread.pending_of_call hrest
    obtain ⟨hpast, hob⟩ := hD t th hth
    rw [hrest] at hob
    have hlt : t < c.threads.length := (List.getElem?_eq_some_iff.mp hth).1
    refine ⟨th, cl,
      { step := .act hth hrest hfree
        thread := hth
        pending := hpend
        world := rfl
        shown := shown_eq_some.mpr ⟨_, getElem?_set_self hlt, rfl⟩
        others := fun v φ hne hφ => ?_
        conforms := Discipline.conforms_cons.mpr ⟨hob.1, trivial, hpast⟩
        table := tableStep_of_answer cl hob.1 hfree
        at_ := ⟨th.req, c.phases_getElem? (custody cfg) hth⟩
        ledger := hL
        families := hF
        allows := allows_of_pending hc hth hpend
        local_ := (requests_of_reachable hc).home t th hth }⟩
    obtain ⟨tv, htv, rfl⟩ := shown_eq_some.mp hφ
    refine shown_of_thread ?_
    rw [← htv]
    exact (getElem?_set_ne (Ne.symm hne)).symm

namespace Answered

theorem signed_cases (t : ℕ) (w : World) {claims : ChallengeClaims}
    (hclaims : claims ∈ (answer t cl w).2.signed) :
    claims ∈ w.signed ∨ cl = .signChallenge claims := by
  cases cl with
  | signChallenge =>
    rcases mem_cons.mp hclaims with rfl | hold
    · exact .inr rfl
    · exact .inl hold
  | updatePassword v hash =>
    rcases answer_updatePassword t v hash with ⟨heq, -⟩ | heq <;> rw [heq] at hclaims <;>
      exact .inl hclaims
  | createDevice =>
    simp only [answer] at hclaims
    split at hclaims <;> exact .inl hclaims
  | _ => exact .inl hclaims

/-- A row that is inserted in a transaction was reported to be. -/
theorem insertInTxn_cases (t : ℕ) (w : World) (tok : RefreshToken) {x : Txn} {row : Row}
    (hx : x ∈ (answerTokens t w (.insertInTxn tok)).2.txns) (hrow : x.inserted = some row) :
    (∃ y ∈ w.tokens.txns, y.owner = x.owner ∧ y.inserted = some row) ∨
      (answerTokens t w (.insertInTxn tok)).1 = .ok .inserted := by
  have hsame : (answerTokens t w (.insertInTxn tok)).2 = w.tokens →
      ∃ y ∈ w.tokens.txns, y.owner = x.owner ∧ y.inserted = some row := by
    intro heq
    rw [heq] at hx
    exact ⟨x, hx, rfl, hrow⟩
  simp only [answerTokens, TokenStore.insertInTxn] at hx hsame ⊢
  cases htxn : w.tokens.txnOf t with
  | none =>
    simp only [htxn] at hsame
    exact .inl (hsame trivial)
  | some =>
    simp only [htxn] at hx hsame ⊢
    split
    · split
      next hdup =>
        simp only [hdup, if_true] at hsame
        rename_i hguard
        simp only [hguard, if_true] at hsame
        exact .inl (hsame trivial)
      next => exact .inr rfl
    next hguard =>
      rw [if_neg hguard] at hx
      rcases mem_updateTxn hx with ⟨hx, -⟩ | ⟨y, hy, -, rfl⟩
      · exact .inl ⟨x, hx, rfl, hrow⟩
      · exact .inl ⟨y, hy, rfl, hrow⟩

/-- A row outside a transaction was reported to be inserted, or the table is as it was. -/
theorem create_cases (t : ℕ) (w : World) (tok : RefreshToken) :
    (answer t (.tokens (.create tok)) w).1 = .ok .inserted ∨
      (answer t (.tokens (.create tok)) w).2.tokens = w.tokens := by
  simp only [answer, answerTokens, TokenStore.create]
  split
  · split
    · exact .inr rfl
    · exact .inl rfl
  · exact .inr rfl

/-- A commit makes the thread's transaction visible, or reports that there is none. -/
theorem commit_cases (t : ℕ) (w : World) :
    (∃ x ∈ w.tokens.txns, x.owner = t ∧
      (answer t (.tokens .commit) w).2.tokens = w.tokens.committed x) ∨
      (answer t (.tokens .commit) w).1 = .error .backend := by
  simp only [answer, answerTokens, TokenStore.commit]
  cases htxn : w.tokens.txnOf t with
  | none => exact .inr rfl
  | some x =>
    have hown : x.owner = t := by simpa using find?_some htxn
    subst hown
    exact .inl ⟨x, mem_of_find?_eq_some htxn, rfl, rfl⟩

variable (A : Answered u c c' t th cl)
include A

/-- A transaction after the call was open before it, or is the thread's own. -/
theorem txn_cases {x : Txn} (hx : x ∈ c'.world.tokens.txns) :
    x ∈ c.world.tokens.txns ∧ x.owner ≠ t ∨ x.owner = t := by
  rcases A.table.txn (A.ledger.own_fits A.at_) hx with hold | ⟨hown, -⟩
  · exact .inl hold
  · exact .inr hown

/-- A thread that acts in quiet and is allowed to insert for `u` goes by the current hash. -/
theorem restsOn (hq : Quiet c u h)
    (hw : (of th.past).Warrants u) : RestsOn c (of th.past) u h :=
  restsOn_of_warrants hw (hq.not_stale A.thread A.pending)

/-- Quiet stays quiet when a call is answered: a challenge for `u` is signed only by a login that
has checked the current hash. -/
theorem quiet (htrap : ∀ email, cfg.trapSubject email ≠ u)
    (hids : (c.world.credentials.map Prod.fst).Nodup) (hcur : (u, h) ∈ c.world.credentials)
    (hq : Quiet c u h) : Quiet c' u h := by
  refine hq.step hids hcur A.step (fun claims hclaims => ?_) ?_ (fun x hx => ?_)
  · rw [A.world] at hclaims
    rcases signed_cases t c.world hclaims with hold | rfl
    · exact .inl hold
    refine .inr fun hsub => ?_
    rcases A.allows with hp | ⟨email, htr⟩
    · rw [hsub] at hp
      rcases A.restsOn hq (.inl hp) with ⟨-, hchecked⟩ | ⟨cl', hcl', hsub', -⟩
      · exact ⟨t, _, A.shown, mem_cons_self, hchecked⟩
      · -- it has proven the password, so the hash it checked is the one it read
        obtain ⟨user, haccount, hid, hchecked⟩ := hp
        refine ⟨t, _, A.shown, mem_cons_self, ?_⟩
        have hhash : user.passwordHash = h := by
          by_contra hne
          exact hq.not_stale A.thread A.pending (.inl ⟨user, haccount, hid, hne⟩)
        rw [← hhash]
        exact hchecked
    · exact absurd (htr.symm.trans hsub) (htrap email)
  · rw [A.world]
    exact (answer_clock t cl c.world).ge
  · rcases A.txn_cases hx with ⟨hold, -⟩ | hown
    · exact .inl ⟨x, hold, rfl⟩
    · rw [hown]
      exact .inr ⟨th, cl, A.thread, A.pending⟩

/-- The hash a change has stored was the current one, or has just been written. -/
theorem target_cases (hW : Watch u c) {v : ℕ}
    (hφ : Vault42.shown c' v = some φ) (ht : φ.change.target = some (u, h)) :
    (u, h) ∈ c.world.credentials ∨
      (⟨cl, (answer t cl c.world).1⟩ : Event vault) = ⟨.updatePassword u h, .ok true⟩ := by
  by_cases hvt : v = t
  · subst hvt
    rw [Option.some.inj (hφ.symm.trans A.shown)] at ht
    rcases target_of_next ht with ht | heq
    · exact .inl (hW.current v _ h (shown_of_thread A.thread) ht)
    · exact .inr heq
  · exact .inl (hW.current v φ h (A.others v φ hvt hφ) ht)

/-- The thread that writes the password of `u` is the one whose change is for `u`. -/
theorem writer_unique (hc : Reachable World.Accountable (changesQuietly u) c) {v : ℕ}
    {hash : PasswordHash} (hcl : cl = .updatePassword u hash) (hφ : Vault42.shown c' v = some φ)
    (ht : φ.change.target = some (u, h)) : v = t := by
  subst hcl
  have hchanges : Evidence.Changes u th.req := A.allows
  by_contra hne
  obtain ⟨tv, htv, rfl⟩ := shown_eq_some.mp (A.others v φ hne hφ)
  exact hne ((requests_of_reachable hc).single v t tv th htv A.thread (changes_of_shown hc htv ht)
    hchanges)

/-- **The hash a change has stored stays the current one**: only the one thread that was asked to
change the password of `u` writes it. -/
theorem current (hc : Reachable World.Accountable (changesQuietly u) c) (hW : Watch u c) {v : ℕ}
    (hφ : Vault42.shown c' v = some φ) (ht : φ.change.target = some (u, h)) :
    (u, h) ∈ c'.world.credentials := by
  rw [A.world]
  by_cases hcl : ∃ w hash, cl = .updatePassword w hash
  · obtain ⟨w, hash, rfl⟩ := hcl
    rcases answer_updatePassword (w := c.world) t w hash with ⟨heq, x, hx, hid, hlive⟩ | heq
    · rw [heq]
      by_cases hwu : w = u
      · subst hwu
        obtain rfl := A.writer_unique hc rfl hφ ht
        have hshown := A.shown
        rw [heq] at hshown
        rw [Option.some.inj (hφ.symm.trans hshown)] at ht
        obtain ⟨-, rfl⟩ := Prod.mk.inj (Option.some.inj ht)
        exact credentials_setPassword hash hx hid hlive
      · refine credentials_setPassword_ne hash (Ne.symm hwu) ?_
        rcases A.target_cases hW hφ ht with hold | hnew
        · exact hold
        · cases (Sigma.mk.inj hnew).1
          exact absurd rfl hwu
    · rw [heq]
      rcases A.target_cases hW hφ ht with hold | hnew
      · exact hold
      · rw [heq] at hnew
        cases hnew
  · have hsame := answer_credentials (w := c.world) t cl fun w hash heq => hcl ⟨w, hash, heq⟩
    rcases A.target_cases hW hφ ht with hold | hnew
    · exact (congrArg (fun l => (u, h) ∈ l) hsame).mpr hold
    · exact absurd ⟨u, h, (Sigma.mk.inj hnew).1⟩ hcl

/-- A thread that inserts a first row for `u` has a warrant for it. -/
theorem warrants_of_firstborn {tok : RefreshToken}
    (hborn : ((custody cfg).phase th.past).Firstborn tok) (huser : tok.userID = u)
    (hmay : Evidence.MayInsert th.req (of th.past) tok) :
    (of th.past).Warrants u := by
  rcases hmay with hrot | hw | hfed
  · rw [not_rotating_of_firstborn hborn] at hrot
    cases hrot
  · exact huser ▸ hw
  · exact absurd (huser ▸ hfed) A.local_

theorem watch_pending (hW : Watch u c) {x : Txn} {row : Row}
    (hx : x ∈ c'.world.tokens.txns) (hrow : x.inserted = some row) (huser : row.userID = u) :
    ∃ φ tok, Vault42.shown c' x.owner = some φ ∧ tok ∈ φ.inserted ∧ tok.familyID = row.familyID ∧
      tok.userID = u ∧ φ.Warrants u := by
  have old : ∀ y ∈ c.world.tokens.txns, y.owner = x.owner → y.inserted = some row →
      ∃ φ tok, Vault42.shown c' x.owner = some φ ∧ tok ∈ φ.inserted ∧
        tok.familyID = row.familyID ∧ tok.userID = u ∧ φ.Warrants u := by
    intro y hy hown hyr
    obtain ⟨φ, tok, hφ, htok, hfam, htu, hw⟩ := hW.pending y hy row hyr huser
    rw [hown] at hφ
    obtain ⟨ψ, hψ, hext⟩ := shown_mono A.step hφ
    exact ⟨ψ, tok, hψ, hext.inserted htok, hfam, htu, hext.warrants hw⟩
  rcases A.table.pending hx hrow with ⟨y, hy, hown, hyr⟩ | ⟨hown, -, -, tok, rfl, -, hborn, rfl⟩
  · exact old y hy hown hyr
  rw [A.world] at hx
  rcases insertInTxn_cases t c.world tok hx hrow with ⟨y, hy, hyx, hyr⟩ | hreply
  · exact old y hy hyx hyr
  · have hw := A.warrants_of_firstborn hborn huser A.allows
    have hshown := A.shown
    have hr : (answer t (.tokens (.insertInTxn tok)) c.world).1 = .ok .inserted := hreply
    rw [hr] at hshown
    refine ⟨_, tok, hown ▸ hshown, mem_cons_self, rfl, huser, ?_⟩
    exact (extends_next (.tokens (.insertInTxn tok)) (.ok .inserted)).warrants hw

/-- **A row that is committed for `u` while its sessions are sealed** rests on the new hash, or goes
on with a family that the change would already hold locked. -/
theorem founded_of_born (hW : Watch u c) (hS : Sealed c p φ u h)
    {row : Row} (hmem : row ∈ c'.world.tokens.rows)
    (hb : Born cfg.maxSessionsPerUser t c.world ((custody cfg).phase th.past) cl
      (((custody cfg).phase th.past).next cl (answer t cl c.world).1) row)
        (huser : row.userID = u) :
    FoundedFor c' row.familyID u h ∨
      φ.change = .revoking u h ∧ ∀ x ∈ c'.world.tokens.txns, x.owner = p → row.id ∈ x.revoking := by
  rcases hb.new_or_successor A.ledger A.at_ with hnew | ⟨stored, tok, hsucc⟩
  · -- the first row of a family: its thread has a warrant, and goes by the new hash
    left
    generalize hφ' : ((custody cfg).phase th.past).next cl (answer t cl c.world).1 = φ' at hb
    cases hb with
    | committed hx howner hrow =>
      obtain ⟨ψ, tok, hψ, htok, hfam, htu, hw⟩ := hW.pending _ hx row hrow huser
      have hrests := restsOn_of_warrants hw (hS.quiet.not_stale_of_txn hx hψ)
      exact FoundedFor.step A.step ⟨_, ψ, tok, hψ, htok, hfam, htu, hrests⟩
    | @created tok hfresh htxn hkind =>
      rcases hkind with ⟨-, hborn⟩ | ⟨stored, hsucc⟩
      · have hw := A.warrants_of_firstborn hborn huser A.allows
        have hrests := A.restsOn hS.quiet hw
        rcases create_cases t c.world tok with hreply | hsame
        · have hshown := A.shown
          rw [hreply] at hshown
          refine ⟨t, _, tok, hshown, mem_cons_self, rfl, huser, hrests.step A.step ?_⟩
          exact extends_next (.tokens (.create tok)) (.ok .inserted)
        · -- the row was not there before, its id is fresh
          exfalso
          rw [A.world, hsame] at hmem
          exact A.ledger.not_logged_of_fresh A.at_ hfresh (A.ledger.rows_logged _ hmem) rfl
      · -- a successor has a committed kin
        exfalso
        obtain ⟨r₀, hr₀, -, hf₀⟩ := A.ledger.spent_family A.at_ hsucc.rotation
        exact hnew r₀ hr₀ (hf₀.trans hsucc.family.symm)
  · -- a successor: the row it continues is not revoked either, and not locked
    obtain ⟨r₀, hr₀, hf₀⟩ := A.families.present A.at_ hsucc.successor.rotation
    have hfam : r₀.familyID = row.familyID := by
      rw [hf₀, hsucc.row_eq, ← hsucc.successor.family]
      rfl
    have hkin := A.families.successor_kin A.ledger A.at_ hsucc (A.ledger.rows_logged r₀ hr₀) hfam
    have huser₀ : r₀.userID = u := hkin.userID.symm.trans huser
    rcases hS.rows r₀ hr₀ huser₀ (hsucc.unrevoked r₀ hr₀ hfam) with hf | ⟨hch, hmark⟩
    · exact .inl (hfam ▸ hf.step A.step)
    · refine .inr ⟨hch, fun x hx hown => ?_⟩
      have hne := Families.owner_ne_of_born A.ledger A.table A.at_ hb hx
      rcases A.txn_cases hx with ⟨hx₀, -⟩ | hown'
      · exact absurd hfam
          (A.families.born_not_locked A.ledger A.at_ hb hx₀ hne hr₀ (hmark x hx₀ hown))
      · exact absurd hown' hne

/-- **A sealed table stays sealed** under every call but the commit of the change itself. -/
theorem sealed_rows (hW : Watch u c) (hS : Sealed c p φ u h)
    (hkeep : p = t → φ.change = .revoking u h →
      (((custody cfg).phase th.past).next cl (answer t cl c.world).1).txn = .revoking (.user u))
    {r : Row} (hr : r ∈ c'.world.tokens.rows) (huser : r.userID = u) (hrev : r.revoked = false) :
    FoundedFor c' r.familyID u h ∨
      φ.change = .revoking u h ∧ ∀ x ∈ c'.world.tokens.txns, x.owner = p → r.id ∈ x.revoking := by
  obtain ⟨ids, -, hrows, -⟩ := A.table.marks
  rcases hrows r hr with hb | ⟨r₀, hr₀, hage, hiff⟩
  · exact A.founded_of_born hW hS hr hb huser
  have huser₀ : r₀.userID = u := (congrArg Row.userID hage.pristine).symm.trans huser
  have hrev₀ : r₀.revoked = false := by
    by_contra hno
    rw [hage.revoked (by simpa using hno)] at hrev
    cases hrev
  rcases hS.rows r₀ hr₀ huser₀ hrev₀ with hf | ⟨hch, hmark⟩
  · exact .inl (hage.familyID ▸ hf.step A.step)
  refine .inr ⟨hch, fun x hx hown => ?_⟩
  rcases A.table.revoking (A.ledger.own_fits A.at_) hx with ⟨-, hxt, hno⟩ |
    ⟨y, hy, hyx, hsame, -, -⟩ | ⟨sc, hxt, htxn, -, hsame, -, hids, -⟩
  · -- a transaction that has marked nothing is not the change's
    exact absurd (hkeep (hown.symm.trans hxt) hch) (hno _)
  · rw [hsame, hage.id]
    exact hmark y hy (hyx.trans hown)
  · -- the change's own write statement, once more
    have hsc := TxnPhase.revoking.inj (htxn.symm.trans (hkeep (hown.symm.trans hxt) hch))
    subst hsc
    rw [hids]
    rw [hsame] at hr
    exact mem_map.mpr ⟨r, mem_filter.mpr ⟨hr, beq_iff_eq.mpr huser⟩, rfl⟩

/-- The write statement of the change marks every row of `u`. -/
theorem sealed_of_write (hq : Quiet c' u h)
    (hch : φ.change = .revoking u h) {x₀ : Unit}
    (hev : (⟨cl, (answer t cl c.world).1⟩ : Event vault) =
      ⟨.tokens (.revokeScope (.user u)), .ok x₀⟩) : Sealed c' t φ u h where
  quiet := hq
  rows r hr huser _ := by
    refine .inr ⟨hch, fun x hx hown => ?_⟩
    have hcl : cl = .tokens (.revokeScope (.user u)) := (Sigma.mk.inj hev).1
    subst hcl
    have htxn : (((custody cfg).phase th.past).next (.tokens (.revokeScope (.user u)))
        (answer t (.tokens (.revokeScope (.user u))) c.world).1).txn = .revoking (.user u) := by
      rw [eq_of_heq (Sigma.mk.inj hev).2]
      rfl
    have hlocked : ((custody cfg).phase th.past).txn = .locked (.user u) :=
      (Discipline.conforms_cons.mp A.conforms).1.1
    rcases A.table.revoking (A.ledger.own_fits A.at_) hx with ⟨-, -, hno⟩ |
      ⟨y, hy, hyx, -, -, hsame⟩ | ⟨sc, -, hsc, -, hsame, -, hids, -⟩
    · exact absurd htxn (hno _)
    · -- the thread has just come to the middle of its transaction
      have hbad := (hsame hown).symm.trans htxn
      rw [hlocked] at hbad
      cases hbad
    · obtain rfl := TxnPhase.revoking.inj (hsc.symm.trans htxn)
      rw [hids]
      rw [hsame] at hr
      exact mem_map.mpr ⟨r, mem_filter.mpr ⟨hr, beq_iff_eq.mpr huser⟩, rfl⟩

/-- The commit of the change: what it had marked is revoked. -/
theorem sealed_of_commit (hS : Sealed c t (of th.past) u h)
    (hch : (of th.past).change = .revoking u h) {x₀ : Unit}
    (hev : (⟨cl, (answer t cl c.world).1⟩ : Event vault) = ⟨.tokens .commit, .ok x₀⟩)
    (hq : Quiet c' u h) : Sealed c' t φ u h where
  quiet := hq
  rows r hr huser hrev := by
    have hcl : cl = .tokens .commit := (Sigma.mk.inj hev).1
    subst hcl
    have hreply : (answer t (.tokens .commit) c.world).1 = .ok x₀ := eq_of_heq (Sigma.mk.inj hev).2
    rcases commit_cases t c.world with ⟨x, hx, hown, htokens⟩ | herr
    · have hfit := A.ledger.own_fits A.at_ x hx hown
      rw [txn_of_revoking (Discipline.conforms_cons.mp A.conforms).2.2 hch] at hfit
      have hnone : x.inserted = none := hfit
      rw [A.world, htokens, TokenStore.committed, hnone] at hr
      obtain ⟨r₀, hr₀, hage, hiff⟩ := mem_revokeIds (by simpa using hr)
      have huser₀ : r₀.userID = u :=
        (congrArg Row.userID hage.pristine).symm.trans huser
      have hrev₀ : r₀.revoked = false ∧ r₀.id ∉ x.revoking := by
        rw [hrev] at hiff
        simpa using hiff
      rcases hS.rows r₀ hr₀ huser₀ hrev₀.1 with hf | ⟨-, hmark⟩
      · exact .inl (hage.familyID ▸ hf.step A.step)
      · exact absurd (hmark x hx hown) hrev₀.2
    · rw [herr] at hreply
      cases hreply

/-- **An answered call keeps everything that is watched.** -/
theorem watch (htrap : ∀ email, cfg.trapSubject email ≠ u)
    (hc : Reachable World.Accountable (changesQuietly u) c) (hW : Watch u c)
    (hok : changesQuietly u c (.act t)) : Watch u c' where
  ids := by
    rw [A.world]
    exact answer_ids t cl hW.ids
  current _ _ _ hφ ht := A.current hc hW hφ ht
  pending _ hx _ hrow huser := A.watch_pending hW hx hrow huser
  sealed p φ h hφ hch := by
    -- a change that had come this far: whatever the call, but for its own commit
    have kept : ∀ ψ, Vault42.shown c p = some ψ → ψ.change = φ.change →
        (p = t → ψ.change = .revoking u h → (((custody cfg).phase th.past).next cl
          (answer t cl c.world).1).txn = .revoking (.user u)) → Sealed c' p φ u h := by
      intro ψ hψ heq hkeep
      have hS := hW.sealed p ψ h hψ (heq ▸ hch)
      have hcur := hW.current p ψ h hψ (target_of_change (heq ▸ hch))
      refine ⟨A.quiet htrap hW.ids hcur hS.quiet, fun r hr huser hrev => ?_⟩
      rw [← heq]
      exact A.sealed_rows hW hS hkeep hr huser hrev
    by_cases hpt : p = t
    swap
    · exact kept φ (A.others p φ hpt hφ) rfl fun heq => absurd heq hpt
    subst hpt
    have hme := shown_of_thread A.thread
    have hnew := Option.some.inj (hφ.symm.trans A.shown)
    have hcustody := txn_of_revoking A.conforms (u := u) (h := h)
    rcases hch with hrev | hdone
    · rw [hnew] at hrev
      have htxn := hcustody hrev
      rcases revoking_of_next hrev with ⟨hold, -, -⟩ | ⟨hst, x₀, hev⟩
      · exact kept _ hme (by rw [hold, hnew, hrev]) fun _ _ => htxn
      · -- the revocation writes: the guard says that it is quiet
        have htarget : (of th.past).change.target = some (u, h) := by
          rw [hst]
          rfl
        have hcur := hW.current p _ h hme htarget
        have hpend : c.pending p = some (.tokens (.revokeScope (.user u))) := by
          simp only [Config.pending, A.thread, Option.bind_some, A.pending, (Sigma.mk.inj hev).1]
        have hq := hok.2 _ h hpend hme hst
        exact A.sealed_of_write (A.quiet htrap hW.ids hcur hq) (by rw [hnew, hrev]) hev
    · rw [hnew] at hdone
      rcases done_of_next hdone with hold | ⟨hrev, x₀, hev⟩
      · refine kept _ hme (by rw [hold, hnew, hdone]) fun _ hbad => ?_
        rw [hold] at hbad
        cases hbad
      · have hS := hW.sealed p _ h hme (.inl hrev)
        have hcur := hW.current p _ h hme (target_of_change (.inl hrev))
        exact A.sealed_of_commit hS hrev hev (A.quiet htrap hW.ids hcur hS.quiet)

end Answered

/-- **Along every quiet run** the sessions of `u` are sealed from the revocation of its change
on. -/
theorem sealed_of_reachable (htrap : ∀ email, cfg.trapSubject email ≠ u)
    (hc : Reachable World.Accountable (changesQuietly u) c) : Watch u c := by
  refine hc.induct ?_ ?_
  · intro w hw
    refine ⟨hw.ids, ?_, ?_, ?_⟩
    · rintro t φ h ⟨⟩
    · intro x hx
      rw [hw.coherent.txns] at hx
      cases hx
    · rintro p φ h ⟨⟩
  · intro c l c' hreach hW hok hs
    cases l with
    | spawn r =>
      cases hs
      exact hW.unanswered (unanswered_of_spawn c r)
    | act =>
      obtain ⟨th, cl, A⟩ := answered_of_act hreach hs
      exact A.watch htrap hreach hW hok
    | fault => exact hW.unanswered (unanswered_of_fault hs)
    | nudge n =>
      cases hs
      exact hW.unanswered (unanswered_of_nudge c n)

end Answered

/-! ### Once the change has returned -/

section Result

/-- The hash of a change is one that its thread has stored. -/
theorem stored_of_target {past : List (Event vault)}
    (ht : (of past).change.target = some (u, h)) :
    (⟨.updatePassword u h, .ok true⟩ : Event vault) ∈ past := by
  induction past with
  | nil => cases ht
  | cons e past ih =>
    obtain ⟨cl, r⟩ := e
    rcases target_of_next ht with ht | heq
    · exact mem_cons_of_mem _ (ih ht)
    · rw [← heq]
      exact mem_cons_self

/-- A password change that has returned success has revoked the sessions after storing its hash. -/
theorem done_of_result {Init : World → Prop}
    {ok : Config (service cfg) → Label (service cfg) → Prop} (hc : Reachable Init ok c)
    (hth : c.threads[p]? = some th) {newPassword : String}
    (hreq : th.req = .updatePassword u newPassword) (hres : th.result = some (.done (.ok ()))) :
    ∃ h, (of th.past).change = .done u h := by
  obtain ⟨-, hob⟩ := evidence_of_reachable hc hth
  rw [Thread.rest_of_result hres, hreq] at hob
  exact hob

/-- Who goes by another hash, at any time after the sessions are sealed for good, had been answered
before. -/
theorem stale_of_run (htrap : ∀ email, cfg.trapSubject email ≠ u)
    (hc : Reachable World.Accountable (changesQuietly u) c) (hth : c.threads[p]? = some th)
    (hfin : th.result.isSome) (hdone : (of th.past).change = .done u h)
    (hr : Run (changesQuietly u) c c') {t : ℕ} {tt : Thread (service cfg)}
    (htt : c'.threads[t]? = some tt) (hst : Stale c' (of tt.past) u h) :
    c.threads[t]? = some tt ∧ tt.result.isSome := by
  induction hr with
  | refl =>
    have hS := (sealed_of_reachable htrap hc).sealed p _ h (shown_of_thread hth) (.inr hdone)
    obtain ⟨⟨tt', htt', hres⟩, -⟩ := hS.quiet.gone t _ (shown_of_thread htt) hst
    obtain rfl := Option.mem_unique htt htt'
    exact ⟨htt, hres⟩
  | @snoc c₁ c₂ l hr hok hs ih =>
    have hW := sealed_of_reachable htrap (hc.run hr)
    have hshown := shown_of_thread (hr.finished hth hfin)
    have hS := hW.sealed p _ h hshown (.inr hdone)
    have hcur := hW.current p _ h hshown (target_of_change (.inr hdone))
    obtain ⟨hold, hst⟩ := hS.quiet.stale_step hW.ids hcur hs htt hst
    exact ih hold hst

/-- **A quiet password change ends what rests on the old password.** Once it has returned success,
every live row of the account is of a family whose password step was checked against the new hash;
and whoever has had a challenge of another hash accepted, now or at any later time, had been
answered by then, so that no such challenge is completed into a session any more. -/
theorem password_change_ends_sessions (htrap : ∀ email, cfg.trapSubject email ≠ u)
    (hc : Reachable World.Accountable (changesQuietly u) c) (hth : c.threads[p]? = some th)
    {newPassword : String} (hreq : th.req = .updatePassword u newPassword)
    (hres : th.result = some (.done (.ok ()))) :
    ∃ h, (⟨.updatePassword u h, .ok true⟩ : Event vault) ∈ th.past ∧ (u, h) ∈ c.world.credentials ∧
      (∀ r ∈ c.world.tokens.rows, r.userID = u → r.live → FoundedFor c r.familyID u h) ∧
      ∀ c' (t : ℕ) tt claims,
        Run (changesQuietly u) c c' → c'.threads[t]? = some tt →
        (Evidence.of tt.past).challenge = some claims → claims.subject = u →
        ¬ IssuedFor c' claims h → c.threads[t]? = some tt ∧ tt.result.isSome := by
  obtain ⟨h, hdone⟩ := done_of_result hc hth hreq hres
  have hW := sealed_of_reachable htrap hc
  have hshown := shown_of_thread hth
  have htarget := target_of_change (.inr hdone)
  have hS := hW.sealed p _ h hshown (.inr hdone)
  refine ⟨h, stored_of_target htarget, hW.current p _ h hshown htarget, ?_, ?_⟩
  · intro r hr huser hlive
    have hrev : r.revoked = false := by
      simp only [Row.live, Bool.and_eq_true, Bool.not_eq_true'] at hlive
      exact hlive.2
    rcases hS.rows r hr huser hrev with hf | ⟨hbad, -⟩
    · exact hf
    · rw [hdone] at hbad
      cases hbad
  · intro c' t tt claims hr htt hclaims hsub hno
    have hfin : th.result.isSome := by
      rw [hres]
      rfl
    exact stale_of_run htrap hc hth hfin hdone hr htt (.inr ⟨claims, hclaims, hsub, hno⟩)

end Result

/-! ### Runs -/

section Test

/-- A test for quiet: no challenge has been signed, and every thread that has read an account or
redeemed a challenge is gone. -/
def quietTest (c : Config (service cfg)) : Bool :=
  c.world.signed.isEmpty && c.threads.zipIdx.all fun e =>
    ((Evidence.of e.1.past).account.isNone && (Evidence.of e.1.past).challenge.isNone) ||
      (e.1.result.isSome && c.world.tokens.txns.all fun x => x.owner != e.2)

theorem quiet_of_test (hq : quietTest c) (u : UserID)
    (h : PasswordHash) : Quiet c u h := by
  simp only [quietTest, Bool.and_eq_true, List.isEmpty_iff, List.all_eq_true] at hq
  obtain ⟨hsigned, hthreads⟩ := hq
  refine ⟨fun t φ hφ hst => ?_, fun claims hclaims => ?_⟩
  · obtain ⟨th, hth, rfl⟩ := shown_eq_some.mp hφ
    have hth' := hthreads (th, t) (mem_zipIdx_iff_getElem?.mpr hth)
    simp only [Bool.or_eq_true, Bool.and_eq_true, Option.isNone_iff_eq_none] at hth'
    rcases hth' with ⟨haccount, hchallenge⟩ | ⟨hres, htxns⟩
    · rcases hst with ⟨user, hno, -⟩ | ⟨claims, hno, -⟩
      · rw [haccount] at hno
        cases hno
      · rw [hchallenge] at hno
        cases hno
    · refine ⟨⟨th, hth, hres⟩, fun x hx => ?_⟩
      rw [List.all_eq_true] at htxns
      simpa using htxns x hx
  · rw [hsigned] at hclaims
    cases hclaims

/-- A test for `changesQuietly`, of runs in which one password is changed. -/
def changesQuietlyTest (c : Config (service cfg)) : Label (service cfg) → Bool
  | .spawn (.oauth _ _ _ _) => false
  | .spawn (.updatePassword _ _) => c.threads.all fun th =>
      match th.req with
      | .updatePassword _ _ => false
      | _ => true
  | .act t => sparesRotationsTest c (.act t) &&
      match c.pending t with
      | some (.tokens (.revokeScope _)) => quietTest c
      | _ => true
  | _ => true

theorem changesQuietly_of_test (u : UserID) (c : Config (service cfg)) (l : Label (service cfg))
    (ht : changesQuietlyTest c l) : changesQuietly u c l := by
  cases l with
  | spawn r =>
    cases r with
    | oauth => cases ht
    | updatePassword =>
      refine ⟨id, fun _ th hth hch => ?_⟩
      have hno := List.all_eq_true.mp ht th hth
      cases hreq : th.req with
      | updatePassword =>
        rw [hreq] at hno
        cases hno
      | _ =>
        rw [hreq] at hch
        exact hch
    | _ => exact ⟨id, fun hch => hch.elim⟩
  | act t =>
    simp only [changesQuietlyTest, Bool.and_eq_true] at ht
    refine ⟨sparesRotations_of_test c (.act t) ht.1, fun φ h hpend _ _ => ?_⟩
    rw [hpend] at ht
    exact quiet_of_test ht.2 u h
  | fault => trivial
  | nudge => trivial

/-- A test that nothing was inserted on the strength of `h`. -/
def restsElsewhere (c : Config (service cfg)) (h : PasswordHash) : Bool :=
  (c.threads.map fun th => Evidence.of th.past).all fun φ =>
    φ.inserted.isEmpty || (φ.checked != some h && φ.challenge.all fun claims =>
      (c.threads.map fun th => Evidence.of th.past).all fun ψ =>
        !(ψ.issued.contains claims && ψ.checked == some h))

theorem not_foundedFor_of_test
    (ht : restsElsewhere c h) (f : UUID) (u : UserID) : ¬ FoundedFor c f u h := by
  have mem : ∀ {t φ}, shown c t = some φ → φ ∈ c.threads.map fun th => of th.past := by
    intro t φ hφ
    obtain ⟨th, hth, rfl⟩ := shown_eq_some.mp hφ
    exact mem_map.mpr ⟨th, mem_of_getElem? hth, rfl⟩
  rintro ⟨t, φ, tok, hφ, htok, -, -, hr⟩
  have hφ' := List.all_eq_true.mp ht φ (mem hφ)
  have hne : φ.inserted.isEmpty = false := by
    cases hins : φ.inserted with
    | nil =>
      rw [hins] at htok
      cases htok
    | cons => rfl
  rw [hne, Bool.false_or, Bool.and_eq_true] at hφ'
  rcases hr with ⟨-, hchecked⟩ | ⟨claims, hclaims, -, v, ψ, hψ, hissued, hchecked⟩
  · simp [hchecked] at hφ'
  · have hall := hφ'.2
    rw [hclaims, Option.all_some] at hall
    have hψ' := List.all_eq_true.mp hall ψ (mem hψ)
    simp [hissued, hchecked] at hψ'

end Test

namespace Sample

theorem world_accountable : world.Accountable where
  coherent := world_coherent
  ids := by decide

/-- The settings, with a subject for planted addresses that is nobody's id. -/
def planted : Settings := { settings with trapSubject := fun _ => "trap" }

/-- Thread 1 has changed the password of `alice` and returned success. -/
def changedTest {cfg : Settings} (c : Config (service cfg)) : Bool :=
  match c.threads[1]? with
  | none => false
  | some th =>
    match th.req, th.result with
    | .updatePassword v _, some (.done (.ok ())) => v == "u"
    | _, _ => false

theorem changer_of_test (ht : changedTest c) :
    ∃ th newPassword, c.threads[1]? = some th ∧
      th.req = .updatePassword "u" newPassword ∧ th.result = some (.done (.ok ())) := by
  unfold changedTest at ht
  split at ht
  next => cases ht
  next th hth =>
    split at ht
    next v newPassword hreq hres =>
      obtain rfl : v = "u" := by simpa using ht
      exact ⟨th, newPassword, hth, hreq, hres⟩
    next => cases ht

/-- A login, a password change, and a login with the new password. -/
def changed : Config (service planted) :=
  (execAll changesQuietlyTest ⟨world, []⟩
    ([.spawn (.login loginInput)] ++ acts 0 28 ++ [.spawn (.updatePassword "u" "new")] ++
      acts 1 10 ++
      [.spawn (.login { loginInput with password := "new" })] ++ acts 2 27)).getD ⟨world, []⟩

theorem changed_reachable : Reachable World.Accountable (changesQuietly "u") changed :=
  ⟨world, world_accountable, run_execAll (changesQuietly_of_test "u") _ _⟩

theorem password_change_ends_sessions_changed :
    (changed.world.tokens.rows.map fun r => (r.userID, r.familyID, r.revoked)) =
        [("u", 4, true), ("u", 9, false)] ∧
      ∃ h, ∀ r ∈ changed.world.tokens.rows, r.userID = "u" → r.live →
        FoundedFor changed r.familyID "u" h := by
  obtain ⟨th, newPassword, hth, hreq, hres⟩ := changer_of_test (c := changed) (by decide +kernel)
  have htrap : ∀ email, planted.trapSubject email ≠ "u" := by
    intro email
    show "trap" ≠ "u"
    decide
  obtain ⟨h, -, -, hrows, -⟩ := password_change_ends_sessions htrap changed_reachable hth hreq hres
  exact ⟨by decide +kernel, h, hrows⟩

/-- A login that has checked the old password when the password is changed, and then goes on. -/
def straddled : Config (service planted) :=
  (execAll (fun _ _ => true) ⟨world, []⟩
    ([.spawn (.login loginInput)] ++ acts 0 12 ++ [.spawn (.updatePassword "u" "new")] ++
      acts 1 10 ++ acts 0 16)).getD ⟨world, []⟩

/-- The same with a second factor: the settings, and an account that has enrolled one. -/
def plantedMFA : Settings := { planted with hasMFA := true }

def enrolled : World :=
  { world with mfaMethods := fun _ => [methodTOTP], rightCode := fun _ _ _ => true }

def aliceChallenge : ChallengeClaims where
  subject := "u"
  issuedAt := 1
  expiresAt := 300000000001
  jti := 1
  fingerprint := loginInput.fingerprint
  factors := [methodPassword]
  confirmation := none

def aliceSecondFactor : AuthService.SecondFactorInput where
  token := aliceChallenge
  method := methodTOTP
  code := "123456"
  fingerprint := ⟨"1", "", "", ""⟩
  jkt := ""

/-- A challenge has been issued when the password is changed. -/
def challenged : Config (service plantedMFA) :=
  (execAll (fun _ _ => true) ⟨enrolled, []⟩
    ([.spawn (.login loginInput)] ++ acts 0 15 ++ [.spawn (.updatePassword "u" "new")] ++
      acts 1 10)).getD ⟨enrolled, []⟩

def redeemed : Config (service plantedMFA) :=
  (execAll (fun _ _ => true) challenged
    ([.spawn (.secondFactor aliceSecondFactor)] ++ acts 2 26)).getD challenged

theorem enrolled_accountable : enrolled.Accountable where
  coherent := world_coherent
  ids := by decide

/-- **What the revocation does not reach.** The password of `alice` has been changed, and both times
a live row is of a family that rests on the old one: of a login that had checked it before, and of a
challenge that had been issued for it and was redeemed afterwards. -/
theorem password_change_straddled :
    (Reachable World.Accountable anyStep straddled ∧ changedTest straddled ∧
      (shown straddled 1).map Evidence.change = some (.done "u" (.argon2id "new" 1)) ∧
      ∃ r ∈ straddled.world.tokens.rows, r.userID = "u" ∧ r.live ∧
        ¬ FoundedFor straddled r.familyID "u" (.argon2id "new" 1)) ∧
    (Reachable World.Accountable anyStep challenged ∧ changedTest challenged ∧
      (shown challenged 1).map Evidence.change = some (.done "u" (.argon2id "new" 2)) ∧
      challenged.world.tokens.rows = [] ∧ Run anyStep challenged redeemed ∧
      ∃ r ∈ redeemed.world.tokens.rows, r.userID = "u" ∧ r.live ∧
        ¬ FoundedFor redeemed r.familyID "u" (.argon2id "new" 2)) := by
  have anything : ∀ {cfg : Settings} c (l : Label (service cfg)),
      true → anyStep c l := fun _ _ _ => trivial
  -- a live row of the table, whatever its family
  have live : ∀ {cfg : Settings} {c : Config (service cfg)} {h : PasswordHash},
      (c.world.tokens.rows.any fun r => r.userID == "u" && r.live) →
      restsElsewhere c h → ∃ r ∈ c.world.tokens.rows, r.userID = "u" ∧ r.live ∧
        ¬ FoundedFor c r.familyID "u" h := by
    intro cfg c h hany ht
    obtain ⟨r, hr, hcond⟩ := List.any_eq_true.mp hany
    simp only [Bool.and_eq_true, beq_iff_eq] at hcond
    exact ⟨r, hr, hcond.1, hcond.2, not_foundedFor_of_test ht r.familyID "u"⟩
  refine ⟨⟨⟨world, world_accountable, run_execAll anything _ _⟩, by decide +kernel,
    by decide +kernel, live (by decide +kernel) (by decide +kernel)⟩,
    ⟨enrolled, enrolled_accountable, run_execAll anything _ _⟩, by decide +kernel,
    by decide +kernel, by decide +kernel, run_execAll anything _ _,
    live (by decide +kernel) (by decide +kernel)⟩

end Sample

end Vault42
